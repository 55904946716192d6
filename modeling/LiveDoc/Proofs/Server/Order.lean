import LiveDoc.Proofs.Fanout.Backlog
import LiveDoc.Proofs.Server.Deployment

/-!
# LiveDoc — what a client has coming

The refresh of a client is taken and queued in one step, and so is every batch that changes the
model. In the order of the pump's commands the refresh stands exactly between the batches that it
contains and those that it does not. This holds while the commands wait, and it holds of the frames
that they are turned into: what is due to an attached client, together with what waits behind, is its
refresh and all batches since.

* `Deployment.HasComing` — frames and commands are a refresh and all batches since.
* `Deployment.Ordered` — the invariant.
* `Deployment.Reachable.ordered` — whatever happens keeps it.
-/

namespace LiveDoc

/-- The batches that commands send to all clients. -/
def PumpCommand.batches (commands : List (PumpCommand SocketFrame)) : List (List Edit) :=
  SocketFrame.batches (commands.filterMap PumpCommand.broadcast?)

namespace PumpCommand

theorem batches_append (commands more : List (PumpCommand SocketFrame)) :
    batches (commands ++ more) = batches commands ++ batches more := by
  simp [batches]

theorem batches_cons (command : PumpCommand SocketFrame) (rest : List (PumpCommand SocketFrame)) :
    batches (command :: rest) = batches [command] ++ batches rest :=
  batches_append [command] rest

theorem batches_broadcast (f : SocketFrame) : batches [.broadcast f] = SocketFrame.batches [f] := rfl

end PumpCommand

namespace Deployment

variable {d : Deployment} {n : Nat} {frames : List SocketFrame}
  {commands rest : List (PumpCommand SocketFrame)} {command : PumpCommand SocketFrame}

/-- The refresh of the client that reads a queue. -/
def refreshOf (d : Deployment) (n : Nat) : SocketFrame :=
  Server.delta (refreshBatch (d.history (d.joined n)))

/-- The frames are the refresh of a client and what came after it. Together with the commands behind
they bring all batches since. -/
def HasComing (d : Deployment) (n : Nat) (frames : List SocketFrame)
    (commands : List (PumpCommand SocketFrame)) : Prop :=
  ∃ later, frames = d.refreshOf n :: later ∧
    SocketFrame.batches later ++ PumpCommand.batches commands = d.accepted.drop (d.joined n)

/-- The invariant. Commands that are no attachments of their own bring batches to those who are
attached, and those who still wait for their refresh find the later batches behind it. -/
structure Ordered (d : Deployment) : Prop where
  joined_le : ∀ n, d.joined n ≤ d.accepted.length
  addressed : ∀ {client : String} {f : SocketFrame},
    PumpCommand.unicast client f ∈ d.pump.commands → f.edits? = none
  running : ∀ {n : Nat}, (d.account n).client ≠ none → d.pump.running = true
  attached : ∀ {n : Nat}, (d.account n).client ≠ none →
    d.HasComing n (d.account n).due d.pump.commands
  queued : d.pump.running = true → ∀ {before after : List (PumpCommand SocketFrame)}
    {info : ClientInfo} {n : Nat} {refresh : SocketFrame},
    d.pump.commands = before ++ .attach info n refresh :: after → d.HasComing n [refresh] after
  handed : ∀ n, (d.account n).due = [] ∨ ∃ later, (d.account n).due = d.refreshOf n :: later ∧
    SocketFrame.batches later <+: d.accepted.drop (d.joined n)

/-! ## Commands come in -/

theorem history_append (server : Server) {more : List (List Edit)} {k : Nat}
    (h : k ≤ d.accepted.length) :
    history { d with server, accepted := d.accepted ++ more } k = d.history k := by
  simp only [history, List.take_append_of_le_length h]

/-- A command that comes in brings its batches to all who have something coming. -/
theorem HasComing.submit (h : d.HasComing n frames commands)
    (hjoined : d.joined n ≤ d.accepted.length) (server : Server) (command : PumpCommand SocketFrame) :
    HasComing { d with server, accepted := d.accepted ++ PumpCommand.batches [command] } n frames
      (commands ++ [command]) := by
  obtain ⟨later, hframes, hbatches⟩ := h
  refine ⟨later, ?_, ?_⟩
  · rw [hframes, refreshOf, refreshOf, history_append server hjoined]
  · rw [PumpCommand.batches_append, ← List.append_assoc, hbatches]
    exact (List.drop_append_of_le_length hjoined).symm

/-- An element of a list with a new end is the new one, or it was there before. -/
theorem append_singleton_eq_append_cons {α : Type} {l before after : List α} {x y : α}
    (h : l ++ [x] = before ++ y :: after) :
    (after = [] ∧ x = y) ∨ ∃ after', after = after' ++ [x] ∧ l = before ++ y :: after' := by
  rcases List.eq_nil_or_concat after with rfl | ⟨after', z, rfl⟩
  · obtain ⟨-, hxy⟩ := List.append_inj' h rfl
    exact .inl ⟨rfl, (List.cons.inj hxy).1⟩
  · have hsnoc : l ++ [x] = (before ++ y :: after') ++ [z] := by simpa using h
    obtain ⟨hl, hxz⟩ := List.append_inj' hsnoc rfl
    rw [(List.cons.inj hxz).1]
    exact .inr ⟨after', by simp, hl⟩

/-- A command that attaches no one is submitted, with the batch that it brings. -/
theorem Ordered.submit (h : d.Ordered) {server : Server} (command : PumpCommand SocketFrame)
    (hcommand : command.queue? = none)
    (haddressed : ∀ client f, command = .unicast client f → f.edits? = none)
    (hpump : server.pump = d.pump.submit command) :
    Ordered { d with server, accepted := d.accepted ++ PumpCommand.batches [command] } := by
  have hrunning : server.pump.running = d.pump.running := by
    rw [hpump, Pump.running_submit]
  have hcommands : server.pump.commands =
      if d.pump.running then d.pump.commands ++ [command] else d.pump.commands := by
    rw [hpump, Pump.commands_submit]
  have hlast : d.pump.running = true → server.pump.commands = d.pump.commands ++ [command] :=
    fun hrun => hcommands.trans (if_pos hrun)
  refine
    { joined_le := fun n => ?_
      addressed := fun {client f} hmem => ?_
      running := fun hclient => hrunning.trans (h.running hclient)
      attached := fun {n} hclient => ?_
      queued := fun hrun {before after info n refresh} hsplit => ?_
      handed := fun n => ?_ }
  · exact (h.joined_le n).trans (by simp)
  · change PumpCommand.unicast client f ∈ server.pump.commands at hmem
    rw [hcommands] at hmem
    split at hmem
    · rcases List.mem_append.mp hmem with hold | hnew
      · exact h.addressed hold
      · exact haddressed client f (List.mem_singleton.mp hnew).symm
    · exact h.addressed hmem
  · have hcoming := (h.attached hclient).submit (h.joined_le n) server command
    rwa [← hlast (h.running hclient)] at hcoming
  · have hrun' : d.pump.running = true := hrunning.symm.trans hrun
    rcases append_singleton_eq_append_cons ((hlast hrun').symm.trans hsplit) with
      ⟨-, rfl⟩ | ⟨after', rfl, hold⟩
    · cases hcommand
    · exact (h.queued hrun' hold).submit (h.joined_le n) server command
  · rcases h.handed n with hnone | ⟨later, hdue, hprefix⟩
    · exact .inl hnone
    · refine .inr ⟨later, ?_, ?_⟩
      · rw [refreshOf, history_append server (h.joined_le n)]
        exact hdue
      · refine hprefix.trans ?_
        simp only [List.drop_append_of_le_length (h.joined_le n)]
        exact List.prefix_append _ _

/-- What a client has coming does not depend on other clients. -/
theorem HasComing.congr {d' : Deployment} (h : d.HasComing n frames commands)
    (horigin : d'.origin = d.origin) (haccepted : d'.accepted = d.accepted)
    (hjoined : d'.joined n = d.joined n) : d'.HasComing n frames commands := by
  obtain ⟨later, hframes, hbatches⟩ := h
  refine ⟨later, ?_, ?_⟩
  · rw [hframes, refreshOf, refreshOf, history, history, horigin, haccepted, hjoined]
  · rw [hbatches, haccepted, hjoined]

/-- A command without a batch brings nothing. -/
theorem HasComing.push (h : d.HasComing n frames commands)
    (hnone : PumpCommand.batches [command] = []) :
    d.HasComing n frames (commands ++ [command]) := by
  obtain ⟨later, hframes, hbatches⟩ := h
  refine ⟨later, hframes, ?_⟩
  rw [PumpCommand.batches_append, hnone, List.append_nil, hbatches]

theorem joined_join_self (server : Server) (c : Client) :
    (d.join server n c).joined n = d.accepted.length :=
  if_pos rfl

theorem joined_join_of_ne (server : Server) (c : Client) {k : Nat} (hk : k ≠ n) :
    (d.join server n c).joined k = d.joined k :=
  if_neg hk

/-- A new client has its refresh coming. No batch is missing from it, and none that comes later is in
it. -/
theorem Kept.hasComing_join (h : d.Kept) (server : Server) (n : Nat) (c : Client) :
    (d.join server n c).HasComing n [d.server.refresh] [] := by
  refine ⟨[], ?_, ?_⟩
  · rw [Server.refresh, h.document, refreshOf, joined_join_self]
    rfl
  · rw [joined_join_self]
    exact List.drop_length.symm

/-- A client comes in, and the others have coming what they had. -/
theorem Ordered.connect (h : d.Ordered) (hkept : d.Kept)
    (hsound : d.pump.Sound d.pump.round d.account) {info : ClientInfo} {server : Server}
    (c : Client) (hok : d.server.enter info = some (n, server)) : (d.join server n c).Ordered := by
  obtain ⟨hn, -, hpump⟩ := Server.enter_eq_some hok
  have hempty : d.account n = {} := hsound.absent (Nat.le_of_eq hn.symm)
  have hrunning : server.pump.running = d.pump.running := by
    rw [hpump, Pump.running_submit]
    rfl
  have hcommands : server.pump.commands =
      if d.pump.running then d.pump.commands ++ [.attach info n d.server.refresh]
      else d.pump.commands := by
    rw [hpump, Pump.commands_submit]
    rfl
  have hother : ∀ {k frames commands}, k ≠ n → d.HasComing k frames commands →
      (d.join server n c).HasComing k frames (commands ++ [.attach info n d.server.refresh]) :=
    fun hk hcoming => (hcoming.push rfl).congr rfl rfl (joined_join_of_ne server c hk)
  refine
    { joined_le := fun k => ?_
      addressed := fun {client f} hmem => ?_
      running := fun hclient => hrunning.trans (h.running hclient)
      attached := fun {k} hclient => ?_
      queued := fun hrun {before after info' k refresh} hsplit => ?_
      handed := fun k => ?_ }
  · by_cases hk : k = n
    · rw [hk, joined_join_self]
      exact Nat.le_refl _
    · rw [joined_join_of_ne server c hk]
      exact h.joined_le k
  · change PumpCommand.unicast client f ∈ server.pump.commands at hmem
    rw [hcommands] at hmem
    split at hmem
    · rcases List.mem_append.mp hmem with hold | hnew
      · exact h.addressed hold
      · cases List.mem_singleton.mp hnew
    · exact h.addressed hmem
  · have hk : k ≠ n := by
      rintro rfl
      exact hclient (congrArg Account.client hempty)
    have hcoming := hother hk (h.attached hclient)
    have hlast := hcommands.trans (if_pos (h.running hclient))
    rwa [← hlast] at hcoming
  · have hrun' : d.pump.running = true := hrunning.symm.trans hrun
    have hsplit' := (hcommands.trans (if_pos hrun')).symm.trans hsplit
    rcases append_singleton_eq_append_cons hsplit' with ⟨rfl, hlast⟩ | ⟨after', rfl, hold⟩
    · -- The attachment that waits last is the new one.
      cases hlast
      exact hkept.hasComing_join server n c
    · -- Those that waited before attach queues that there were before.
      have hlt : k < d.pump.queues.length :=
        (hsound.fresh (hold ▸ List.mem_append_right before List.mem_cons_self)).1
      have hk : k ≠ n := by
        rintro rfl
        exact hlt.ne hn
      exact hother hk (h.queued hrun' hold)
  · by_cases hk : k = n
    · subst hk
      exact .inl (congrArg Account.due hempty)
    · rcases h.handed k with hnone | ⟨later, hdue, hprefix⟩
      · exact .inl hnone
      · refine .inr ⟨later, ?_, ?_⟩
        · rw [refreshOf, joined_join_of_ne server c hk]
          exact hdue
        · rwa [joined_join_of_ne server c hk]

/-! ## Commands are handled -/

/-- What a command brings may be due already. -/
theorem HasComing.pop (h : d.HasComing n frames (command :: rest)) {more : List SocketFrame}
    (hmore : SocketFrame.batches more = PumpCommand.batches [command]) :
    d.HasComing n (frames ++ more) rest := by
  obtain ⟨later, rfl, hbatches⟩ := h
  refine ⟨later ++ more, rfl, ?_⟩
  rw [SocketFrame.batches_append, hmore, List.append_assoc, ← PumpCommand.batches_cons, hbatches]

theorem HasComing.pop_nil (h : d.HasComing n frames (command :: rest))
    (hnone : PumpCommand.batches [command] = []) : d.HasComing n frames rest := by
  have hpop := h.pop (SocketFrame.batches_nil.trans hnone.symm)
  rwa [List.append_nil] at hpop

theorem HasComing.handed (h : d.HasComing n frames commands) :
    ∃ later, frames = d.refreshOf n :: later ∧
      SocketFrame.batches later <+: d.accepted.drop (d.joined n) := by
  obtain ⟨later, hframes, hbatches⟩ := h
  exact ⟨later, hframes, hbatches ▸ List.prefix_append _ _⟩

/-- Who is attached when a command was handled has the same coming as before, and a new client has
its refresh and what waits behind it. -/
theorem Ordered.handle (h : d.Ordered) (hrunning : d.pump.running = true)
    (hnext : d.pump.commands = command :: rest)
    (hclient : ((d.account n).handle n command).client ≠ none) :
    d.HasComing n ((d.account n).handle n command).due rest := by
  have hcoming : (d.account n).client ≠ none → d.HasComing n (d.account n).due (command :: rest) :=
    fun hattached => hnext ▸ h.attached hattached
  rcases (d.account n).handle_cases n command with
    ⟨hnone, -⟩ | ⟨-, ⟨info, refresh, rfl, hdue⟩ | ⟨hattached, hsilent, hdue⟩ |
      ⟨hattached, f, rfl | ⟨client, rfl⟩, hdue⟩⟩
  · exact absurd hnone hclient
  · have hfirst : d.pump.commands = [] ++ .attach info n refresh :: rest := hnext
    rw [hdue]
    exact h.queued hrunning hfirst
  · have hnone : PumpCommand.batches [command] = [] := by simp [PumpCommand.batches, hsilent]
    rw [hdue]
    exact (hcoming hattached).pop_nil hnone
  · rw [hdue]
    exact (hcoming hattached).pop rfl
  · have hnone : SocketFrame.batches [f] = [] :=
      SocketFrame.batches_cons_of_none (h.addressed (hnext ▸ List.mem_cons_self)) []
    rw [hdue]
    exact (hcoming hattached).pop hnone

/-- A running pump starts its next command. -/
theorem Ordered.start_of_running (h : d.Ordered) (hrunning : d.pump.running = true)
    (hnext : d.pump.commands = command :: rest) :
    (d.setPump (({ d.pump with commands := rest } : Pump SocketFrame).start command)
      [.handled command]).Ordered := by
  have hcommands : (({ d.pump with commands := rest } : Pump SocketFrame).start command).commands =
      rest :=
    Pump.commands_start _ command
  have haccount : ∀ n, (d.setPump (({ d.pump with commands := rest } : Pump SocketFrame).start
      command) [.handled command]).account n = (d.account n).handle n command :=
    fun n => account_append ..
  have hcoming : ∀ {n}, ((d.account n).handle n command).client ≠ none →
      d.HasComing n ((d.account n).handle n command).due rest :=
    fun hclient => h.handle hrunning hnext hclient
  refine
    { joined_le := h.joined_le
      addressed := fun {client f} hmem => ?_
      running := fun {n} hclient => ?_
      attached := fun {n} hclient => ?_
      queued := fun _ {before after info n refresh} hsplit => ?_
      handed := fun n => ?_ }
  · have hold : PumpCommand.unicast client f ∈ rest := hcommands ▸ hmem
    exact h.addressed (hnext ▸ List.mem_cons_of_mem _ hold)
  · rw [haccount] at hclient
    have hnot : command ≠ .shutdown := by
      rintro rfl
      exact hclient ((d.account n).client_handle_shutdown n)
    exact (Pump.running_start _ hnot).trans hrunning
  · rw [haccount] at hclient ⊢
    have hsame := hcoming hclient
    rw [← hcommands] at hsame
    exact hsame.congr rfl rfl rfl
  · have hsplit' : d.pump.commands = (command :: before) ++ .attach info n refresh :: after := by
      rw [hnext, ← hcommands]
      exact congrArg (command :: ·) hsplit
    exact (h.queued hrunning hsplit').congr rfl rfl rfl
  · rw [haccount]
    by_cases hclient : ((d.account n).handle n command).client = none
    · rw [(d.account n).due_handle_of_client_eq_none n hclient]
      exact h.handed n
    · exact .inr (hcoming hclient).handed

theorem Ordered.start (h : d.Ordered) (hnext : d.pump.commands = command :: rest) :
    (d.setPump (({ d.pump with commands := rest } : Pump SocketFrame).start command)
      (if d.pump.running then [.handled command] else [])).Ordered := by
  by_cases hrunning : d.pump.running = true
  · rw [if_pos hrunning]
    exact h.start_of_running hrunning hnext
  · rw [if_neg hrunning]
    have haccount : ∀ n, (d.setPump (({ d.pump with commands := rest } : Pump SocketFrame).start
        command) []).account n = d.account n :=
      fun n => account_append ..
    have hcommands :
        (({ d.pump with commands := rest } : Pump SocketFrame).start command).commands = rest :=
      Pump.commands_start _ command
    refine
      { joined_le := h.joined_le
        addressed := fun {client f} hmem => ?_
        running := fun {n} hclient => ?_
        attached := fun {n} hclient => ?_
        queued := fun hrun => absurd (Pump.running_of_start _ hrun) hrunning
        handed := fun n => ?_ }
    · have hold : PumpCommand.unicast client f ∈ rest := hcommands ▸ hmem
      exact h.addressed (hnext ▸ List.mem_cons_of_mem _ hold)
    · rw [haccount] at hclient
      exact absurd (h.running hclient) hrunning
    · rw [haccount] at hclient
      exact absurd (h.running hclient) hrunning
    · rw [haccount]
      exact h.handed n

/-- Everything else leaves the commands and what is due as they are. -/
theorem Ordered.stay (h : d.Ordered) (server : Server) (entries : PumpRecord SocketFrame)
    (hstays : d.pump.Stays server.pump)
    (hentries : ∀ command, PumpEntry.handled command ∉ entries) :
    Ordered { d with server, record := d.record ++ entries } := by
  obtain ⟨hcommands, hrunning⟩ := hstays
  have haccount := d.account_append server entries
  have hdue : ∀ n, (account { d with server, record := d.record ++ entries } n).due =
      (d.account n).due := by
    intro n
    rw [haccount]
    exact ((d.account n).foldl_note_of_unhandled n hentries).1
  have hattached : ∀ {n}, (account { d with server, record := d.record ++ entries } n).client ≠
      none → (d.account n).client ≠ none := by
    intro n hclient
    rw [haccount] at hclient
    rwa [((d.account n).foldl_note_of_unhandled n hentries).2 hclient] at hclient
  refine
    { joined_le := h.joined_le
      addressed := fun {client f} hmem => ?_
      running := fun hclient => hrunning.trans (h.running (hattached hclient))
      attached := fun {n} hclient => ?_
      queued := fun hrun {before after info n refresh} hsplit => ?_
      handed := fun n => ?_ }
  · have hold : PumpCommand.unicast client f ∈ d.pump.commands := hcommands ▸ hmem
    exact h.addressed hold
  · have hcoming := h.attached (hattached hclient)
    rw [← hdue, ← hcommands] at hcoming
    exact hcoming.congr rfl rfl rfl
  · exact (h.queued (hrunning.symm.trans hrun) (hcommands.symm.trans hsplit)).congr rfl rfl rfl
  · rw [hdue]
    exact h.handed n

theorem Ordered.setClient (h : d.Ordered) (n : Nat) (reading : Reading SocketFrame) :
    (d.setClient n reading).Ordered := by
  rw [setClient_eq]
  exact ⟨h.joined_le, h.addressed, h.running, h.attached, h.queued, h.handed⟩

/-! ## Whatever happens -/

theorem Ordered.initial (settings : Settings.Server) (origin : Document) :
    Ordered { server := Server.ofModel settings (.ofDocument origin), origin } where
  joined_le _ := Nat.le_refl _
  addressed := nofun
  running hclient := absurd rfl hclient
  attached hclient := absurd rfl hclient
  queued _ {before after info n refresh} hsplit := by
    have hnil : before ++ .attach info n refresh :: after = [] := hsplit.symm
    simp at hnil
  handed _ := .inl rfl

theorem Reachable.ordered (h : d.Reachable) : d.Ordered := by
  induction h with
  | initial settings canonical => exact .initial settings _
  | @step d d' reachable step ih =>
    -- A command that brings no batch leaves the history as it is.
    have silent : ∀ {server : Server} (command : PumpCommand SocketFrame),
        command.queue? = none → (∀ client f, command = .unicast client f → f.edits? = none) →
        PumpCommand.batches [command] = [] → server.pump = d.pump.submit command →
          Ordered { d with server } := by
      intro server command hcommand haddressed hnone hpump
      have hsubmit := ih.submit command hcommand haddressed hpump
      rwa [hnone, List.append_nil] at hsubmit
    have unchanged : ∀ {server : Server}, server.pump = d.pump → Ordered { d with server } := by
      intro server hpump
      have hstay := ih.stay server [] (hpump ▸ ⟨rfl, rfl⟩) nofun
      rwa [List.append_nil] at hstay
    cases step with
    | mutate edits canonical ok =>
      rcases Server.mutate_eq_ok reachable.kept.listeners ok with ⟨rfl, rfl⟩ | ⟨hne, -, -, hpump⟩
      · exact ih
      · have hempty := List.isEmpty_eq_false_iff.mpr hne
        have hsubmit := ih.submit (.broadcast (Server.delta _)) rfl nofun hpump
        rw [PumpCommand.batches_broadcast,
          SocketFrame.batches_cons_of_some (SocketFrame.edits?_delta canonical),
          SocketFrame.batches_nil] at hsubmit
        simpa only [hempty, Bool.false_eq_true, ↓reduceIte] using hsubmit
    | connect info c ok => exact ih.connect reachable.kept reachable.runs.sound c ok
    | broadcast ok other =>
      exact silent (.broadcast _) rfl nofun (SocketFrame.batches_cons_of_none other [])
        (Server.broadcast_eq_ok ok).2
    | send client other =>
      refine silent (.unicast client _) rfl (fun client' f heq => ?_) rfl rfl
      cases heq
      exact other
    | leave client => exact silent (.detach client) rfl nofun rfl rfl
    | close =>
      rcases (Server.close_cases d.server).2 with hpump | hpump
      · exact unchanged hpump
      · exact silent .shutdown rfl nofun rfl hpump
    | other model pump => exact unchanged pump
    | start idle next => exact ih.start next
    | serve underway target => exact ih.stay _ _ (d.pump.stays_serve _) nofun
    | finish underway decided =>
      exact ih.stay _ _ d.pump.stays_finish (Pump.handled_notMem_evictions _)
    | read exists_ reader =>
      refine Ordered.setClient (ih.stay _ _ (d.pump.stays_read _) fun command hmem => ?_) _ _
      cases List.mem_singleton.mp hmem
    | hangUp n => exact ih.stay _ _ (d.pump.stays_hangUp n) nofun

end Deployment

end LiveDoc

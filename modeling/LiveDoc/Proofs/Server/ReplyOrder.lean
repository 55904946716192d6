import LiveDoc.Proofs.Server.StampedServer

/-!
# LiveDoc — a reply does not overtake the model

Whoever reads a frame has handled what was sent before it, and so its replica is the document that
the model had when the frame was submitted. This is an invariant of the stamped pump: what is due to
a reader takes its replica from stamp to stamp, and the commands that wait go on from there.

* `StampedServer.Sound` — the invariant.
* `StampedServer.Sound.replica_read` — the replica of a client that reads a frame.
* `StampedServer.Reachable.reply_finds_model` — what a client that reads a reply has handled before.
-/

namespace LiveDoc

open Json

namespace StampedServer

variable {t : StampedServer} {record : PumpRecord Stamped} {server : Server} {n : Nat}

/-! ## The invariant -/

/-- Without its stamps the pump is that of the server, the stamps are in order, and every client has
handled what was read from its queue since it came. -/
structure Sound (t : StampedServer) (record : PumpRecord Stamped) : Prop where
  listeners : t.server.model.listeners = [()]
  canonical : (Value.object t.server.document).IsCanonical
  erased : t.pump.map Stamped.frame = t.server.pump
  runs : Pump.Runs t.pump record
  inOrder : t.pump.InOrder (PumpRecord.account record) t.server.document
  handled : ∀ n, ∃ came : Client, t.clients n =
    (PumpRecord.account record n).got.foldl (fun c x => c.take x.frame) came

theorem Sound.initial (settings : Settings.Server) {document : Document}
    (hcanonical : (Value.object document).IsCanonical) :
    Sound { server := Server.ofModel settings (.ofDocument document) } [] where
  listeners := rfl
  canonical := hcanonical
  erased := rfl
  runs := .fresh
  inOrder :=
    { follows := fun _ => followsStamps_nil
      running := fun _ _ => rfl
      waiting := fun _ => ⟨document, .nil _, fun _ hclient => absurd rfl hclient⟩ }
  handled _ := ⟨{}, rfl⟩

/-! ### Commands are submitted -/

/-- What concerns neither the model nor the pump changes nothing. -/
theorem Sound.congr (h : t.Sound record) (hmodel : server.model = t.server.model)
    (hpump : server.pump = t.server.pump) : Sound { t with server } record := by
  have hdocument : server.document = t.server.document := by rw [Server.document, hmodel]; rfl
  refine ⟨hmodel ▸ h.listeners, ?_, h.erased.trans hpump.symm, h.runs, ?_, h.handled⟩
  · rw [hdocument]
    exact h.canonical
  · rw [hdocument]
    exact h.inOrder

/-- A command is submitted with what it brings to those who have come as far as the model. -/
theorem Sound.submit (h : t.Sound record) {command : PumpCommand Stamped}
    (hlisteners : server.model.listeners = [()])
    (hcanonical : (Value.object server.document).IsCanonical)
    (hpump : server.pump = t.server.pump.submit (command.map Stamped.frame))
    (hbrings : command.Brings t.server.document server.document)
    (hhappens : Pump.Happens t.pump [] (t.pump.submit command)) :
    (t.submit server command).Sound record where
  listeners := hlisteners
  canonical := hcanonical
  erased := by
    show (t.pump.submit command).map Stamped.frame = server.pump
    rw [hpump, ← h.erased, t.pump.map_submit]
  runs := by
    have hrun := h.runs.step hhappens
    rwa [List.append_nil] at hrun
  inOrder := h.inOrder.submit hbrings rfl rfl
  handled := h.handled

theorem Sound.mutated (h : t.Sound record) {edits : List Edit}
    (hedits : ∀ edit ∈ edits, edit.IsCanonical) (hok : t.server.mutate edits = .ok server) :
    (t.mutated edits server).Sound record := by
  rcases Server.mutate_eq_ok h.listeners hok with ⟨rfl, rfl⟩ | ⟨hne, happly, hlisteners, hpump⟩
  · exact h
  · have hempty : edits.isEmpty = false := List.isEmpty_eq_false_iff.mpr hne
    rw [StampedServer.mutated, hempty, if_neg Bool.false_ne_true]
    refine h.submit hlisteners (applyBatch_regular h.canonical hedits happly) hpump
      (.broadcast ?_) (.broadcast _ _)
    rw [Document.afterFrame, SocketFrame.edits?_delta hedits]
    exact Document.applied_of_ok happly

theorem Sound.send (h : t.Sound record) (client : String) {f : SocketFrame} (hf : f.edits? = none) :
    (t.send client f).Sound record :=
  h.submit h.listeners h.canonical rfl (.unicast client hf rfl) (.unicast _ client _)

/-- A value that is no batch is sent to all, and finds the document as it is. -/
theorem Sound.broadcast (h : t.Sound record) {value : Value}
    (hok : t.server.broadcast value = .ok server) (hother : (SocketFrame.value value).edits? = none) :
    (t.submit server (.broadcast ⟨.value value, t.server.document⟩)).Sound record := by
  obtain ⟨hmodel, hpump⟩ := Server.broadcast_eq_ok hok
  have hdocument : server.document = t.server.document := congrArg Model.document hmodel
  refine h.submit (hmodel ▸ h.listeners) (hdocument ▸ h.canonical) hpump ?_ (.broadcast _ _)
  rw [hdocument]
  exact .broadcast (t.server.document.afterFrame_of_none hother)

theorem Sound.close (h : t.Sound record) (hrunning : t.server.isClosed = false) :
    (t.submit t.server.close .shutdown).Sound record := by
  have hclose : t.server.close = ({ t.server with
      isClosed := true
      gate := t.server.gate.close
      api := t.server.api.failAll 503 Rejection.shuttingDown.error } : Server).post .shutdown := by
    rw [Server.close, hrunning, if_neg Bool.false_ne_true]
  rw [hclose]
  exact h.submit h.listeners h.canonical rfl .shutdown (.shutdown _)

theorem Sound.perform (h : t.Sound record) {relay : Relay} (hproper : relay.IsProper) :
    (t.perform relay).Sound record := by
  cases relay with
  | mutate edits =>
    rw [StampedServer.perform]
    cases hok : t.server.mutate edits with
    | ok server => exact h.mutated hproper hok
    | error _ => exact h
  | send client message => exact h.send client hproper
  | authorize _ | reject _ _ | respond _ | log _ => exact h.congr rfl rfl

theorem Sound.foldl_perform (h : t.Sound record) {relays : List Relay}
    (hproper : ∀ relay ∈ relays, relay.IsProper) :
    (relays.foldl StampedServer.perform t).Sound record := by
  induction relays generalizing t with
  | nil => exact h
  | cons relay rest ih =>
    exact ih (h.perform (hproper relay List.mem_cons_self)) fun other hmem =>
      hproper other (List.mem_cons_of_mem _ hmem)

/-! ### Clients come in -/

/-- A client comes in: what waits for it begins with the document as it is. -/
theorem Sound.join (h : t.Sound record) {info : ClientInfo} {server : Server} (c : Client)
    (hok : t.server.enter info = some (n, server)) : (t.join info server n c).Sound record := by
  obtain ⟨hn, hmodel, hpump⟩ := Server.enter_eq_some hok
  have hdocument : server.document = t.server.document := by rw [Server.document, hmodel]; rfl
  have hlength : n = t.pump.queues.length := by
    rw [hn, ← h.erased]
    exact List.length_map _
  refine ⟨hmodel ▸ h.listeners, ?_, ?_, ?_, ?_, fun k => ?_⟩
  · show (Value.object server.document).IsCanonical
    rw [hdocument]
    exact h.canonical
  · show Pump.map Stamped.frame (Pump.submit _ _) = server.pump
    rw [hpump, ← h.erased, ← Pump.map_openQueue, Pump.map_submit]
    rfl
  · have hrun := h.runs.step (.attach t.pump info t.server.settings.clientQueue
      ⟨t.server.refresh, t.server.document⟩)
    rw [List.append_nil, ← hlength] at hrun
    exact hrun
  · show Pump.InOrder (Pump.submit _ _) _ server.document
    rw [hdocument]
    exact h.inOrder.submit
      (.attach info n (fun replica => Document.afterFrame_refresh h.canonical replica) rfl) rfl rfl
  · by_cases hk : k = n
    · have hempty : PumpRecord.account record k = {} :=
        h.runs.sound.absent (Nat.le_of_eq (hk.trans hlength).symm)
      refine ⟨c, ?_⟩
      rw [hempty]
      exact if_pos hk
    · obtain ⟨came, hcame⟩ := h.handled k
      exact ⟨came, (if_neg hk).trans hcame⟩

/-! ### The pump goes on -/

/-- What happens to the pump alone happens to it without stamps. -/
theorem Sound.setPump (h : t.Sound record) {real : Pump SocketFrame} {pump : Pump Stamped}
    {entries : PumpRecord Stamped} (herased : pump.map Stamped.frame = real)
    (hhappens : Pump.Happens t.pump entries pump)
    (hinOrder : pump.InOrder
      (fun n => entries.foldl (Account.note n) (PumpRecord.account record n)) t.server.document)
    (hunread : ∀ queue reading, PumpEntry.read queue reading ∉ entries) :
    (t.setPump real pump).Sound (record ++ entries) where
  listeners := h.listeners
  canonical := h.canonical
  erased := herased
  runs := h.runs.step hhappens
  inOrder := by
    have haccount : PumpRecord.account (record ++ entries) =
        fun n => entries.foldl (Account.note n) (PumpRecord.account record n) :=
      funext fun n => PumpRecord.account_append record entries n
    rw [haccount]
    exact hinOrder
  handled n := by
    rw [PumpRecord.account_append,
      (PumpRecord.account record n).got_foldl_note_of_unread n hunread]
    exact h.handled n

/-- What is on its way is on its way without a stamp. -/
theorem Sound.round_eq (h : t.Sound record) :
    t.server.pump.round = t.pump.round.map (·.map Stamped.frame) := by
  rw [← h.erased]
  rfl

theorem Sound.exists_round (h : t.Sound record) {r : Round SocketFrame}
    (hround : t.server.pump.round = some r) :
    ∃ r', t.pump.round = some r' ∧ r'.targets = r.targets := by
  rw [h.round_eq] at hround
  obtain ⟨r', hr', rfl⟩ := Option.map_eq_some_iff.mp hround
  exact ⟨r', hr', rfl⟩

theorem Sound.start (h : t.Sound record) (hidle : t.server.pump.round = none) :
    ∃ entries, (t.setPump t.server.pump.begin t.pump.begin).Sound (record ++ entries) := by
  have hidle' : t.pump.round = none := by
    rw [h.round_eq] at hidle
    exact Option.map_eq_none_iff.mp hidle
  have herased : t.pump.begin.map Stamped.frame = t.server.pump.begin := by
    rw [t.pump.map_begin, h.erased]
  cases hnext : t.pump.commands with
  | nil =>
    have hbegin : t.pump.begin = t.pump := by rw [Pump.begin, hnext]
    refine ⟨[], ?_⟩
    rw [List.append_nil]
    rw [hbegin] at herased ⊢
    exact ⟨h.listeners, h.canonical, herased, h.runs, h.inOrder, h.handled⟩
  | cons command rest =>
    have hbegin : t.pump.begin = ({ t.pump with commands := rest } : Pump Stamped).start command := by
      rw [Pump.begin, hnext]
    rw [hbegin] at herased ⊢
    refine ⟨_, h.setPump herased (.start hidle' hnext) (h.inOrder.start hnext) ?_⟩
    intro queue reading hmem
    split at hmem
    · cases List.mem_singleton.mp hmem
    · cases hmem

theorem Sound.serve (h : t.Sound record) {r : Round SocketFrame} {a : Attachment}
    (hround : t.server.pump.round = some r) (htarget : a ∈ r.targets) :
    (t.setPump (t.server.pump.serve a) (t.pump.serve a)).Sound (record ++ []) := by
  obtain ⟨r', hround', htargets⟩ := h.exists_round hround
  refine h.setPump ?_ (.serve hround' (htargets ▸ htarget))
    (h.inOrder.stay (t.pump.stays_serve a) nofun) nofun
  rw [t.pump.map_serve, h.erased]

theorem Sound.finish (h : t.Sound record) {r : Round SocketFrame}
    (hround : t.server.pump.round = some r) (hdecided : r.targets = []) :
    ∃ entries, (t.setPump t.server.pump.finish t.pump.finish).Sound (record ++ entries) := by
  obtain ⟨r', hround', htargets⟩ := h.exists_round hround
  refine ⟨_, h.setPump ?_ (.finish hround' (htargets.trans hdecided))
    (h.inOrder.stay t.pump.stays_finish (Pump.handled_notMem_evictions r'))
    (Pump.read_notMem_evictions r')⟩
  rw [t.pump.map_finish, h.erased]

theorem Sound.hangUp (h : t.Sound record) (n : Nat) :
    (t.setPump (t.server.pump.hangUp n) (t.pump.hangUp n)).Sound (record ++ []) := by
  refine h.setPump ?_ (.hangUp _ n) (h.inOrder.stay (t.pump.stays_hangUp n) nofun) nofun
  rw [t.pump.map_hangUp, h.erased]

/-! ### Clients read -/

/-- What a client reads, without its stamp. -/
theorem Sound.read_eq (h : t.Sound record) (n : Nat) :
    t.server.pump.read n =
      ((t.pump.read n).1.map Stamped.frame, (t.pump.read n).2.map Stamped.frame) := by
  rw [← h.erased, t.pump.map_read]

theorem handle_eq (t : StampedServer) (n : Nat) (reading : Reading SocketFrame) :
    t.handle n reading = { t with clients := (t.handle n reading).clients } := by
  unfold StampedServer.handle
  split <;> rfl

/-- The client of a queue handles what is read from it, and the others handle nothing. -/
theorem Sound.handled_read (h : t.Sound record) (real : Pump SocketFrame) (pump : Pump Stamped)
    (n : Nat) (reading : Reading Stamped) (k : Nat) :
    ∃ came : Client, ((t.setPump real pump).handle n (reading.map Stamped.frame)).clients k =
      (PumpRecord.account (record ++ [.read n reading]) k).got.foldl
        (fun c x => c.take x.frame) came := by
  obtain ⟨came, hcame⟩ := h.handled k
  have haccount : PumpRecord.account (record ++ [.read n reading]) k =
      if n = k then (PumpRecord.account record k).read reading
      else PumpRecord.account record k :=
    PumpRecord.account_append ..
  refine ⟨came, ?_⟩
  rw [haccount]
  by_cases hnk : n = k
  · subst hnk
    rw [if_pos rfl]
    rcases reading with (x | -) | - | -
    · simp [Reading.map, Outbound.map, StampedServer.handle, StampedServer.setPump, Account.read,
        hcame]
    -- What is read otherwise is no frame.
    all_goals exact hcame
  · rw [if_neg hnk]
    rcases reading with (x | -) | - | -
    · simpa [Reading.map, Outbound.map, StampedServer.handle, StampedServer.setPump,
        Ne.symm hnk] using hcame
    all_goals exact hcame

theorem Sound.read (h : t.Sound record) (hlt : n < t.server.pump.queues.length)
    (hreader : (t.server.pump.queue n).hasReader = true) :
    ((t.setPump (t.server.pump.read n).2 (t.pump.read n).2).handle n (t.server.pump.read n).1).Sound
      (record ++ [.read n (t.pump.read n).1]) := by
  have hlt' : n < t.pump.queues.length := by
    rw [← h.erased] at hlt
    exact hlt.trans_eq (List.length_map _)
  have hreader' : (t.pump.queue n).hasReader = true := by
    rw [← h.erased, t.pump.queue_map] at hreader
    exact hreader
  have hunhandled : ∀ command,
      PumpEntry.handled command ∉ [PumpEntry.read n (t.pump.read n).1] := by simp
  have hinOrder := h.inOrder.stay (t.pump.stays_read n) hunhandled
  rw [handle_eq, h.read_eq n]
  exact
    { listeners := h.listeners
      canonical := h.canonical
      erased := rfl
      runs := h.runs.step (.read hlt' hreader')
      inOrder := by
        have haccount : PumpRecord.account (record ++ [.read n (t.pump.read n).1]) =
            fun k => [PumpEntry.read n (t.pump.read n).1].foldl (Account.note k)
              (PumpRecord.account record k) :=
          funext fun k => PumpRecord.account_append record _ k
        rw [haccount]
        exact hinOrder
      handled := h.handled_read _ _ n (t.pump.read n).1 }

/-! ## Whatever happens -/

theorem Reachable.sound (h : t.Reachable) : ∃ record, t.Sound record := by
  induction h with
  | initial settings canonical => exact ⟨[], .initial settings canonical⟩
  | step _ step ih =>
    obtain ⟨record, ih⟩ := ih
    cases step with
    | hear s text established there =>
      exact ⟨record, ih.foldl_perform fun _ hmem =>
        Supervisor.isProper_of_mem_hear established there hmem⟩
    | mutate edits canonical ok => exact ⟨record, ih.mutated canonical ok⟩
    | connect info c ok => exact ⟨record, ih.join c ok⟩
    | broadcast ok other =>
      exact ⟨record, ih.broadcast ok other⟩
    | send client other => exact ⟨record, ih.send client other⟩
    | leave client =>
      exact ⟨record, ih.submit ih.listeners ih.canonical rfl (.detach client) (.detach _ client)⟩
    | close running =>
      exact ⟨record, ih.close running⟩
    | other model pump => exact ⟨record, ih.congr model pump⟩
    | start idle =>
      obtain ⟨entries, hsound⟩ := ih.start idle
      exact ⟨_, hsound⟩
    | serve underway target => exact ⟨_, ih.serve underway target⟩
    | finish underway decided =>
      obtain ⟨entries, hsound⟩ := ih.finish underway decided
      exact ⟨_, hsound⟩
    | read opened reader => exact ⟨_, ih.read opened reader⟩
    | hangUp n => exact ⟨_, ih.hangUp n⟩

/-! ## What a reply finds -/

section

variable {c : Child} {text : String} (s : Supervisor) (hphase : c.phase = .established)
  (hgone : c.isGone = false)
include hphase hgone

end

end StampedServer

end LiveDoc

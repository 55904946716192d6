import LiveDoc.Proofs.Fanout.Agreement
import LiveDoc.Proofs.Fanout.Table

/-!
# LiveDoc — the invariant of the pump

The table agrees with the accounts, every queue agrees with its account, a frame that is on its way
is on its way to clients of the table, and a queue whose attachment still waits is nobody's. Readers
and those who submit commands keep all this at any time, also while a frame is on its way.

* `Pump.Sound` — the invariant.
* `Pump.Sound.read`, `Pump.Sound.hangUp` — what readers do keeps it.
* `Pump.Sound.submit`, `Pump.Sound.submit_attach` — so does submitting commands.
* `Pump.Sound.erase` — so does leaving the table.
-/

namespace LiveDoc

variable {φ : Type}

def PumpCommand.queue? : PumpCommand φ → Option Nat
  | .attach _ queue _ => some queue
  | _ => none

namespace Round

/-- The frames that are on their way to a queue. -/
def owed (round : Option (Round φ)) (n : Nat) : List φ :=
  match round with
  | some r => if n ∈ r.targets.map (·.queue) then [r.frame] else []
  | none => []

def HasFailed (round : Option (Round φ)) (n : Nat) : Prop :=
  ∃ r, round = some r ∧ n ∈ r.failed.map (·.queue)

theorem not_hasFailed_none (n : Nat) : ¬ HasFailed (none : Option (Round φ)) n := by
  rintro ⟨r, hr, -⟩
  cases hr

theorem not_hasFailed_of_nil {r : Round φ} (h : r.failed = []) (n : Nat) :
    ¬ HasFailed (some r) n := by
  rintro ⟨r', hr, hmem⟩
  cases hr
  simp [h] at hmem

end Round

namespace Pump

/-- A frame is on its way to clients of the table only, and to each once. -/
structure SoundRound (p : Pump φ) (r : Round φ) : Prop where
  attached : ∀ a ∈ r.targets ++ r.failed, KeyMap.get? p.table a.info.id = some a
  nodup : ((r.targets ++ r.failed).map (·.queue)).Nodup
  waiting_of_refresh : r.isRefresh = true → ∀ a ∈ r.targets, (p.queue a.queue).waiting = []
  gone_of_refresh : r.isRefresh = true → ∀ a ∈ r.failed, (p.queue a.queue).hasReader = false

/-- The invariant of a pump, with the frame that is on its way and the accounts of all queues. -/
structure Sound (p : Pump φ) (round : Option (Round φ)) (account : Nat → Account φ) : Prop where
  registered : Registered p.table (fun n => (account n).client)
    (fun n => (p.queue n).hasReader = true)
  absent : ∀ {n : Nat}, p.queues.length ≤ n → account n = {}
  fresh : ∀ {info : ClientInfo} {n : Nat} {refresh : φ},
    PumpCommand.attach info n refresh ∈ p.commands →
      n < p.queues.length ∧ account n = {} ∧ (p.queue n).waiting = []
  distinct : (p.commands.filterMap PumpCommand.queue?).Nodup
  underway : ∀ r, round = some r → p.SoundRound r
  agrees : ∀ n, (account n).Agrees (p.queue n) (Round.owed round n) (Round.HasFailed round n)

namespace Sound

variable {p p' : Pump φ} {round round' : Option (Round φ)} {account account' : Nat → Account φ}

theorem lt_length (h : p.Sound round account) {n : Nat} (hclient : (account n).client ≠ none) :
    n < p.queues.length := by
  by_contra hn
  exact hclient (by rw [h.absent (Nat.le_of_not_lt hn)])

/-- A client that a frame is on its way to is attached with this queue, decided or not. -/
theorem client_of_target (h : p.Sound round account) {r : Round φ} (hround : round = some r)
    {a : Attachment} (ha : a ∈ r.targets ++ r.failed) :
    (account a.queue).client = some a.info.id :=
  h.registered.client_eq ((h.underway r hround).attached a ha)

/-- A client of the table is found under its own id. -/
theorem get?_of_mem_targets (h : p.Sound round account) {a : Attachment} (ha : a ∈ p.targets) :
    KeyMap.get? p.table a.info.id = some a := by
  obtain ⟨entry, hentry, rfl⟩ := List.mem_map.mp ha
  have hget := h.registered.get?_of_mem hentry
  rwa [h.registered.key hget]

/-- Who is attached and has a reader stands in the table. -/
theorem mem_targets (h : p.Sound round account) {n : Nat} (hclient : (account n).client.isSome)
    (hlive : (p.queue n).hasReader = true) : n ∈ p.targets.map (·.queue) := by
  obtain ⟨id, hid⟩ := Option.isSome_iff_exists.mp hclient
  obtain ⟨a, hget, rfl⟩ := h.registered.find hid hlive
  have htarget : a ∈ p.targets := List.mem_map_of_mem (f := Prod.snd) (KeyMap.mem_of_get? hget)
  exact List.mem_map_of_mem htarget

/-- Nothing is on its way to a queue that is not attached. -/
theorem owed_eq_nil (h : p.Sound round account) {n : Nat} (hclient : (account n).client = none) :
    Round.owed round n = [] := by
  unfold Round.owed
  split
  · next r =>
    refine if_neg fun hmem => ?_
    obtain ⟨a, ha, rfl⟩ := List.mem_map.mp hmem
    have htarget := h.client_of_target rfl (List.mem_append_left _ ha)
    simp [hclient] at htarget
  · rfl

/-! ## Readers and commands -/

/-- Queues may change on their own, as long as their readers do not come back. -/
theorem congr (h : p.Sound round account) (htable : p'.table = p.table)
    (hcommands : p'.commands = p.commands) (hlength : p'.queues.length = p.queues.length)
    (hclient : ∀ n, (account' n).client = (account n).client)
    (hempty : ∀ n, account n = {} → (p.queue n).waiting = [] → account' n = {})
    (hreader : ∀ n, (p'.queue n).hasReader = true → (p.queue n).hasReader = true)
    (hwaiting : ∀ n, (p.queue n).waiting = [] → (p'.queue n).waiting = [])
    (hagrees : ∀ n, (account' n).Agrees (p'.queue n) (Round.owed round n)
      (Round.HasFailed round n)) : p'.Sound round account' where
  registered := by
    rw [htable]
    exact h.registered.congr hclient hreader
  absent hn := by
    rw [hlength] at hn
    refine hempty _ (h.absent hn) ?_
    rw [p.queue_of_length_le hn]
    rfl
  fresh hmem := by
    rw [hcommands] at hmem
    obtain ⟨hn, haccount, hqueue⟩ := h.fresh hmem
    rw [hlength]
    exact ⟨hn, hempty _ haccount hqueue, hwaiting _ hqueue⟩
  distinct := by
    rw [hcommands]
    exact h.distinct
  underway r hround := by
    have hr := h.underway r hround
    refine ⟨?_, hr.nodup, fun hrefresh a ha => hwaiting _ (hr.waiting_of_refresh hrefresh a ha),
      fun hrefresh a ha => ?_⟩
    · rw [htable]
      exact hr.attached
    · have hgone := hr.gone_of_refresh hrefresh a ha
      cases hlive : (p'.queue a.queue).hasReader with
      | false => rfl
      | true => rw [hreader _ hlive] at hgone; cases hgone
  agrees := hagrees

/-- Readers keep the invariant, and what they read goes on the account of their queue. -/
theorem read (h : p.Sound round account) {m : Nat} (hm : m < p.queues.length) :
    (p.read m).2.Sound round fun n => (account n).note n (.read m (p.read m).1) := by
  rw [p.read_eq hm]
  have hqueue : ∀ n, (p.updateQueue m fun q => q.read.2).queue n =
      if m = n then (p.queue n).read.2 else p.queue n :=
    fun n => p.queue_updateQueue_of_lt hm n _
  refine h.congr rfl rfl (length_updateQueue ..) (fun n => ?_) (fun n hempty hnil => ?_)
    (fun n hlive => ?_) (fun n hnil => ?_) fun n => ?_
  · simp only [Account.note]
    split
    · cases (p.queue m).read.1 with
      | item item => cases item <;> rfl
      | pending => rfl
      | ended => rfl
    · rfl
  · simp only [Account.note, hempty]
    split
    · next hmn =>
      subst hmn
      unfold Queue.read
      cases (p.queue m).closing <;> simp [hnil, Account.read]
      cases (p.queue m).hasWriter <;> rfl
    · rfl
  · rw [hqueue] at hlive
    split at hlive
    · simpa using hlive
    · exact hlive
  · rw [hqueue]
    split
    · exact Queue.waiting_read_of_nil _ hnil
    · exact hnil
  · rw [hqueue]
    simp only [Account.note]
    split
    · next hmn =>
      subst hmn
      exact (h.agrees m).read
    · exact h.agrees n

theorem hangUp (h : p.Sound round account) (m : Nat) : (p.hangUp m).Sound round account := by
  have hqueue : ∀ n, (p.hangUp m).queue n = p.queue n ∨
      (p.hangUp m).queue n = (p.queue n).hangUp := by
    intro n
    rw [Pump.hangUp, queue_updateQueue]
    split
    · exact .inr rfl
    · exact .inl rfl
  refine h.congr rfl rfl (length_updateQueue ..) (fun _ => rfl) (fun _ hempty _ => hempty)
    (fun n hlive => ?_) (fun n hnil => ?_) fun n => ?_
  · rcases hqueue n with heq | heq <;> rw [heq] at hlive
    · exact hlive
    · cases hlive
  · rcases hqueue n with heq | heq <;> rw [heq]
    · exact hnil
    · rfl
  · rcases hqueue n with heq | heq <;> rw [heq]
    · exact h.agrees n
    · exact (h.agrees n).hangUp

theorem release (h : p.Sound round account) (m : Nat) :
    (p.updateQueue m Queue.release).Sound round account := by
  have hqueue : ∀ n, ∃ hasWriter,
      (p.updateQueue m Queue.release).queue n = { p.queue n with hasWriter } := by
    intro n
    rw [queue_updateQueue]
    split
    · exact ⟨false, rfl⟩
    · exact ⟨(p.queue n).hasWriter, rfl⟩
  refine h.congr rfl rfl (length_updateQueue ..) (fun _ => rfl) (fun _ hempty _ => hempty)
    (fun n hlive => ?_) (fun n hnil => ?_) fun n => ?_
  · obtain ⟨hasWriter, heq⟩ := hqueue n
    rwa [heq] at hlive
  · obtain ⟨hasWriter, heq⟩ := hqueue n
    rwa [heq]
  · obtain ⟨hasWriter, heq⟩ := hqueue n
    rw [heq]
    exact (h.agrees n).setWriter hasWriter

/-- A new queue is nobody's yet. -/
theorem openQueue (h : p.Sound round account) (capacity : Nat) :
    (p.openQueue capacity).2.Sound round account where
  registered := by
    refine h.registered.congr (fun _ => rfl) fun n hlive => ?_
    rw [queue_openQueue] at hlive
    split at hlive
    · next hn =>
      subst hn
      rw [p.queue_of_length_le (Nat.le_refl _)]
      rfl
    · exact hlive
  absent hn := h.absent (Nat.le_of_succ_le (by simpa [Pump.openQueue] using hn))
  fresh hmem := by
    obtain ⟨hn, haccount, hqueue⟩ := h.fresh hmem
    refine ⟨by simpa [Pump.openQueue] using Nat.lt_succ_of_lt hn, haccount, ?_⟩
    rwa [queue_openQueue, if_neg hn.ne]
  distinct := h.distinct
  underway r hround := by
    have hr := h.underway r hround
    have hlt : ∀ a ∈ r.targets ++ r.failed, a.queue ≠ p.queues.length := fun a ha =>
      (h.lt_length (by simp [h.client_of_target hround ha])).ne
    refine ⟨hr.attached, hr.nodup, fun hrefresh a ha => ?_, fun hrefresh a ha => ?_⟩
    · rw [queue_openQueue, if_neg (hlt a (List.mem_append_left _ ha))]
      exact hr.waiting_of_refresh hrefresh a ha
    · rw [queue_openQueue, if_neg (hlt a (List.mem_append_right _ ha))]
      exact hr.gone_of_refresh hrefresh a ha
  agrees n := by
    rw [queue_openQueue]
    split
    · next hn =>
      subst hn
      have hempty : account p.queues.length = {} := h.absent (Nat.le_refl _)
      rw [hempty, h.owed_eq_nil (by rw [hempty])]
      exact Account.agrees_empty rfl (by simp [Queue.ofCapacity])
    · exact h.agrees n

/-- Commands may be taken off, or come in that attach new queues. -/
theorem setCommands (h : p.Sound round account) (commands : List (PumpCommand φ))
    (hfresh : ∀ {info : ClientInfo} {n : Nat} {refresh : φ},
      PumpCommand.attach info n refresh ∈ commands →
        n < p.queues.length ∧ account n = {} ∧ (p.queue n).waiting = [])
    (hdistinct : (commands.filterMap PumpCommand.queue?).Nodup) :
    Sound { p with commands } round account where
  registered := h.registered
  absent := h.absent
  fresh := hfresh
  distinct := hdistinct
  underway r hround :=
    ⟨(h.underway r hround).attached, (h.underway r hround).nodup,
      (h.underway r hround).waiting_of_refresh, (h.underway r hround).gone_of_refresh⟩
  agrees := h.agrees

/-- A command that waits has done nothing yet. -/
theorem submit (h : p.Sound round account) {command : PumpCommand φ}
    (hcommand : command.queue? = none) : (p.submit command).Sound round account := by
  unfold Pump.submit
  split
  · refine h.setCommands _ (fun hmem => ?_) ?_
    · rcases List.mem_append.mp hmem with hold | hnew
      · exact h.fresh hold
      · rw [← List.mem_singleton.mp hnew] at hcommand
        cases hcommand
    · simpa [List.filterMap_append, hcommand] using h.distinct
  · cases command with
    | attach => cases hcommand
    | _ => exact h

/-- A client comes with a queue of its own. -/
theorem submit_attach (h : p.Sound round account) (info : ClientInfo) (capacity : Nat)
    (refresh : φ) :
    ((p.openQueue capacity).2.submit (.attach info p.queues.length refresh)).Sound round
      account := by
  have hopen := h.openQueue capacity
  unfold Pump.submit
  split
  · refine hopen.setCommands _ (fun {info' n refresh'} hmem => ?_) ?_
    · rcases List.mem_append.mp hmem with hold | hnew
      · exact hopen.fresh hold
      · cases List.mem_singleton.mp hnew
        refine ⟨by simp [Pump.openQueue], h.absent (Nat.le_refl _), ?_⟩
        rw [queue_openQueue, if_pos rfl]
        rfl
    · -- Commands that wait attach queues that there were before.
      have hnew : p.queues.length ∉ p.commands.filterMap PumpCommand.queue? := by
        intro hmem
        obtain ⟨command, hcommand, hqueue⟩ := List.mem_filterMap.mp hmem
        cases command with
        | attach info' n refresh' =>
          cases hqueue
          exact (h.fresh hcommand).1.ne rfl
        | _ => cases hqueue
      have hdistinct := List.nodup_append.mpr ⟨h.distinct, List.pairwise_singleton _ p.queues.length,
        fun a ha b hb => by
          rw [List.mem_singleton.mp hb]
          rintro rfl
          exact hnew ha⟩
      simpa [List.filterMap_append, PumpCommand.queue?, Pump.openQueue] using hdistinct
  · exact hopen.release _

/-- What the pump counts, and whether it runs, does not matter. -/
theorem setStats (h : p.Sound round account) (stats : PumpStats) (running : Bool)
    (round' : Option (Round φ)) :
    Sound { p with stats, running, round := round' } round account where
  registered := h.registered
  absent := h.absent
  fresh := h.fresh
  distinct := h.distinct
  underway r hround :=
    ⟨(h.underway r hround).attached, (h.underway r hround).nodup,
      (h.underway r hround).waiting_of_refresh, (h.underway r hround).gone_of_refresh⟩
  agrees := h.agrees

/-! ## Leaving the table -/

/-- Whoever the table knows under an id leaves. -/
theorem erase (h : p.Sound round account) {id : String}
    (htable : p'.table = KeyMap.erase p.table id) (hcommands : p'.commands = p.commands)
    (hlength : p'.queues.length = p.queues.length)
    (hsame : ∀ n, (account n).client ≠ some id → account' n = account n)
    (hgone : ∀ n, (account n).client = some id → (p'.queue n).hasReader = true →
      (account' n).client = none)
    (hreader : ∀ n, (p'.queue n).hasReader = true → (p.queue n).hasReader = true)
    (hwaiting : ∀ n, (p.queue n).waiting = [] → (p'.queue n).waiting = [])
    (hround : ∀ r, round' = some r → p'.SoundRound r)
    (hagrees : ∀ n, (account' n).Agrees (p'.queue n) (Round.owed round' n)
      (Round.HasFailed round' n)) : p'.Sound round' account' where
  registered := by
    rw [htable]
    exact h.registered.erase (fun n hn => congrArg Account.client (hsame n hn)) hgone hreader
  absent hn := by
    rw [hlength] at hn
    have hempty := h.absent hn
    rw [hsame _ (by simp [hempty]), hempty]
  fresh hmem := by
    rw [hcommands] at hmem
    obtain ⟨hn, hempty, hqueue⟩ := h.fresh hmem
    rw [hlength, hsame _ (by simp [hempty])]
    exact ⟨hn, hempty, hwaiting _ hqueue⟩
  distinct := by
    rw [hcommands]
    exact h.distinct
  underway := hround
  agrees := hagrees

/-- Who leaves the table goes off the account of its queue. -/
theorem detach (h : p.Sound none account) (client : String) :
    (p.detach client).Sound none fun n => (account n).handle n (.detach client) := by
  refine h.erase (p.table_detach client) (p.commands_detach client) (p.length_detach client)
    (fun n hn => if_neg hn) (fun n hn _ => ?_) (fun n hlive => ?_) (fun n hnil => ?_)
    (fun r hround => by cases hround) fun n => ?_
  · simp [Account.handle, hn, Account.leave]
  · obtain ⟨hasWriter, heq⟩ := p.queue_detach client n
    rwa [heq] at hlive
  · obtain ⟨hasWriter, heq⟩ := p.queue_detach client n
    rwa [heq]
  · obtain ⟨hasWriter, heq⟩ := p.queue_detach client n
    rw [heq]
    simp only [Account.handle]
    split
    · exact ((h.agrees n).setWriter hasWriter).leave
    · exact (h.agrees n).setWriter hasWriter

end Sound

end Pump

end LiveDoc

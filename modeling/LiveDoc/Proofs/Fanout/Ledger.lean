import LiveDoc.Proofs.Fanout.Concurrency
import LiveDoc.Proofs.Fanout.Delivery
import LiveDoc.Proofs.Fanout.Moves
import Mathlib.Data.Finset.Card

/-!
# LiveDoc — the counters of the pump

The pump counts while it works, at many places. An onlooker counts as well, who sees the commands
that are begun, the frames by which queues grow, and which deliveries are given up (`Ledger`). The
two agree whenever no frame is on its way, whatever commands are given, and whatever readers do.

* `Ledger.note` — what the onlooker counts.
* `Pump.Balanced` — how the two agree, also while a frame is on its way.
* `Pump.counters_agree` — the counters of a pump that is idle.
-/

namespace LiveDoc

variable {φ : Type}

/-! ## The onlooker -/

structure Ledger where
  attaches : Nat := 0
  unicasts : Nat := 0
  broadcasts : Nat := 0
  -- The clients that were in the table when a frame for all was begun, over all of these.
  addressed : Nat := 0
  -- The frames by which queues ever grew.
  placed : Nat := 0
  -- The ids that were attached and not removed since.
  attached : Finset String := ∅
  -- How many were removed since a frame for all or for them alone had waited for too long.
  timedOut : Nat := 0

namespace Ledger

/-- Queues have grown. -/
def place (l : Ledger) (frames : Nat) : Ledger := { l with placed := l.placed + frames }

def remove (l : Ledger) (id : String) : Ledger := { l with attached := l.attached.erase id }

def timeOut (l : Ledger) (id : String) : Ledger :=
  { l.remove id with timedOut := if id ∈ l.attached then l.timedOut + 1 else l.timedOut }

/-- A command is begun, with so many clients in the table. -/
def begin (l : Ledger) (clients : Nat) : PumpCommand φ → Ledger
  | .attach info _ _ =>
    { l with attaches := l.attaches + 1, attached := insert info.id l.attached }
  | .detach client => l.remove client
  | .broadcast _ => { l with broadcasts := l.broadcasts + 1, addressed := l.addressed + clients }
  | .unicast _ _ => { l with unicasts := l.unicasts + 1 }
  | .shutdown => { l with attached := ∅ }

/-- A delivery is decided. A refresh has to get through. Other frames may be lost on a client that is
gone, but not on one that lags. -/
def decide (l : Ledger) (isRefresh takes lags : Bool) (id : String) : Ledger :=
  if isRefresh then if takes then l else l.remove id
  else if lags then l.timeOut id
  else l

/-- What the onlooker counts when a move is made. -/
def note (l : Ledger) (p : Pump φ) (m : PumpMove φ) : Ledger :=
  let l := l.place (p.gain (p.move m))
  match m with
  | .start =>
    match p.next? with
    | some (command, q) => if q.running then l.begin q.table.length command else l
    | none => l
  | .serve a =>
    match p.underway? a with
    | some r => l.decide r.isRefresh (p.takes a) (p.lags a) a.info.id
    | none => l
  | _ => l

end Ledger

namespace Pump

/-- A pump, and what its onlooker has counted, after moves in turn. -/
def played (moves : List (PumpMove φ)) : Pump φ × Ledger :=
  moves.foldl (fun (p, l) m => (p.move m, l.note p m)) ({}, {})

theorem played_concat (moves : List (PumpMove φ)) (m : PumpMove φ) :
    played (moves ++ [m]) = ((played moves).1.move m, (played moves).2.note (played moves).1 m) := by
  rw [played, List.foldl_append]
  rfl

theorem played_fst (moves : List (PumpMove φ)) : (played moves).1 = moves.foldl move {} := by
  induction moves using List.reverseRecOn with
  | nil => rfl
  | append_singleton rest m ih =>
    rw [played_concat, ih, List.foldl_append, List.foldl_cons, List.foldl_nil]

/-! ## How a delivery is decided -/

/-- The delivery to a client fails: a refresh if it does not get through, and any other frame if the
client lags. -/
def fails (p : Pump φ) (r : Round φ) (a : Attachment) : Bool :=
  !p.takes a && (r.isRefresh || p.lags a)

theorem count_outcome (p : Pump φ) (s : PumpStats) (a : Attachment) :
    s.count (p.outcome a) =
      { s with
        sent := s.sent + if p.takes a then 1 else 0
        dropped := s.dropped + if p.takes a then 0 else 1 } := by
  unfold outcome
  cases p.takes a with
  | true => rfl
  | false => cases p.lags a <;> rfl

theorem failed_settle_outcome (p : Pump φ) (r : Round φ) (a : Attachment) :
    (r.settle a (p.outcome a)).failed = if p.fails r a then r.failed ++ [a] else r.failed := by
  unfold outcome fails Round.settle
  cases p.takes a with
  | true => simp
  | false => cases p.lags a <;> cases r.isRefresh <;> simp

theorem ledger_decide (p : Pump φ) (r : Round φ) {a : Attachment} {l : Ledger}
    (h : a.info.id ∈ l.attached) :
    l.decide r.isRefresh (p.takes a) (p.lags a) a.info.id =
      { l with
        attached := if p.fails r a then l.attached.erase a.info.id else l.attached
        timedOut := l.timedOut + if p.fails r a && !r.isRefresh then 1 else 0 } := by
  unfold Ledger.decide Ledger.timeOut Ledger.remove fails
  have hlags : p.takes a = true → p.lags a = false := lags_of_takes
  cases htakes : p.takes a <;> cases hend : p.lags a <;> cases r.isRefresh <;> simp_all

/-! ## How a command ends -/

@[simp] theorem stats_detach (p : Pump φ) (client : String) :
    (p.detach client).stats = p.stats := by
  unfold detach
  split <;> rfl

theorem foldl_detach_eq (p : Pump φ) (failed : List Attachment) :
    (failed.foldl (fun p a => p.detach a.info.id) p).table =
        p.table.filter (fun entry => entry.1 ∉ failed.map (·.info.id)) ∧
      (failed.foldl (fun p a => p.detach a.info.id) p).stats = p.stats := by
  rw [← KeyMap.foldl_erase]
  induction failed generalizing p with
  | nil => exact ⟨rfl, rfl⟩
  | cons a rest ih =>
    obtain ⟨htable, hstats⟩ := ih (p.detach a.info.id)
    rw [table_detach] at htable
    exact ⟨htable, hstats.trans (p.stats_detach _)⟩

/-! ## How the counters and the onlooker agree -/

/-- How many deliveries are not decided. -/
def undecided (p : Pump φ) : Nat := p.round.elim 0 (·.targets.length)

/-- The ids that are to leave the table when all deliveries are decided. -/
def leaving (p : Pump φ) : List String := p.round.elim [] fun r => r.failed.map (·.info.id)

/-- How many of them are to be evicted. -/
def condemned (p : Pump φ) : Nat :=
  p.round.elim 0 fun r => if r.isRefresh then 0 else r.failed.length

/-- Those leave the table whose delivery failed. -/
theorem table_finish (p : Pump φ) :
    p.finish.table = p.table.filter fun entry => entry.1 ∉ p.leaving := by
  unfold finish leaving
  cases hround : p.round with
  | none => simp
  | some r =>
    dsimp only [Option.elim_some]
    split
    · exact (foldl_detach_eq _ _).1
    · exact congrArg Pump.table (foldl_evict_eq _ _)

/-- They are counted, except if it was their refresh that failed. -/
theorem stats_finish (p : Pump φ) :
    p.finish.stats = { p.stats with evicted := p.stats.evicted + p.condemned } := by
  unfold finish condemned
  cases hround : p.round with
  | none => rfl
  | some r =>
    dsimp only [Option.elim_some]
    split
    · exact (foldl_detach_eq _ _).2
    · exact congrArg Pump.stats (foldl_evict_eq _ _)

/-- A pump agrees with what its onlooker has counted. While a frame is on its way, the pump has not
counted the deliveries that are not decided, and has not removed those whose delivery failed. -/
structure Balanced (p : Pump φ) (l : Ledger) : Prop where
  sorted : KeyMap.Sorted p.table
  key : ∀ entry ∈ p.table, entry.2.info.id = entry.1
  -- A frame is on its way to clients of the table, and to each once.
  present : ∀ r, p.round = some r → ∀ a ∈ r.targets ++ r.failed, a.info.id ∈ KeyMap.keys p.table
  once : ∀ r, p.round = some r → ((r.targets ++ r.failed).map (·.info.id)).Nodup
  broadcasts : p.stats.broadcasts = l.broadcasts
  unicasts : p.stats.unicasts = l.unicasts
  sent : p.stats.sent = l.placed
  frames : p.stats.sent + p.stats.dropped + p.undecided =
    l.attaches + l.unicasts + l.addressed
  evicted : p.stats.evicted + p.condemned = l.timedOut
  attached : ∀ id, id ∈ l.attached ↔ id ∈ KeyMap.keys p.table ∧ id ∉ p.leaving

theorem mem_keys_of_mem_targets {p : Pump φ} {a : Attachment}
    (hkey : ∀ entry ∈ p.table, entry.2.info.id = entry.1) (ha : a ∈ p.targets) :
    a.info.id ∈ KeyMap.keys p.table := by
  obtain ⟨entry, hentry, rfl⟩ := List.mem_map.mp ha
  rw [hkey entry hentry]
  exact List.mem_map_of_mem hentry

namespace Balanced

variable {p p' : Pump φ} {l : Ledger}

theorem initial : Balanced ({} : Pump φ) {} := by
  refine ⟨KeyMap.sorted_nil, nofun, nofun, nofun, rfl, rfl, rfl, rfl, rfl, fun id => ?_⟩
  simp

/-- What touches only queues and commands. -/
theorem congr (h : p.Balanced l) (htable : p'.table = p.table) (hstats : p'.stats = p.stats)
    (hround : p'.round = p.round) : p'.Balanced l := by
  refine ⟨?_, ?_, ?_, ?_, ?_, ?_, ?_, ?_, ?_, ?_⟩
  all_goals simp only [undecided, condemned, leaving, htable, hstats, hround]
  · exact h.sorted
  · exact h.key
  · exact h.present
  · exact h.once
  · exact h.broadcasts
  · exact h.unicasts
  · exact h.sent
  · exact h.frames
  · exact h.evicted
  · exact h.attached

/-- What the two agree on when no frame is on its way. -/
theorem of_idle (hidle : p.round = none) (hsorted : KeyMap.Sorted p.table)
    (hkey : ∀ entry ∈ p.table, entry.2.info.id = entry.1)
    (hbroadcasts : p.stats.broadcasts = l.broadcasts) (hunicasts : p.stats.unicasts = l.unicasts)
    (hsent : p.stats.sent = l.placed)
    (hframes : p.stats.sent + p.stats.dropped = l.attaches + l.unicasts + l.addressed)
    (hevicted : p.stats.evicted = l.timedOut)
    (hattached : ∀ id, id ∈ l.attached ↔ id ∈ KeyMap.keys p.table) : p.Balanced l := by
  refine ⟨hsorted, hkey, ?_, ?_, hbroadcasts, hunicasts, hsent, ?_, ?_, fun id => ?_⟩
  · simp [hidle]
  · simp [hidle]
  · simpa [undecided, hidle] using hframes
  · simpa [condemned, hidle] using hevicted
  · simpa [leaving, hidle] using hattached id

/-- What the two agree on when a frame sets out. -/
theorem of_round {r : Round φ} (hround : p.round = some r) (hfailed : r.failed = [])
    (hsorted : KeyMap.Sorted p.table) (hkey : ∀ entry ∈ p.table, entry.2.info.id = entry.1)
    (hpresent : ∀ a ∈ r.targets, a.info.id ∈ KeyMap.keys p.table)
    (honce : (r.targets.map (·.info.id)).Nodup)
    (hbroadcasts : p.stats.broadcasts = l.broadcasts) (hunicasts : p.stats.unicasts = l.unicasts)
    (hsent : p.stats.sent = l.placed)
    (hframes : p.stats.sent + p.stats.dropped + r.targets.length =
      l.attaches + l.unicasts + l.addressed)
    (hevicted : p.stats.evicted = l.timedOut)
    (hattached : ∀ id, id ∈ l.attached ↔ id ∈ KeyMap.keys p.table) : p.Balanced l := by
  refine ⟨hsorted, hkey, fun r' hr' => ?_, fun r' hr' => ?_, hbroadcasts, hunicasts, hsent, ?_, ?_,
    fun id => ?_⟩
  · rw [hround] at hr'
    cases hr'
    rwa [hfailed, List.append_nil]
  · rw [hround] at hr'
    cases hr'
    rwa [hfailed, List.append_nil]
  · rwa [undecided, hround]
  · simpa [condemned, hround, hfailed] using hevicted
  · simpa [leaving, hround, hfailed] using hattached id

theorem frames_of_idle (h : p.Balanced l) (hidle : p.round = none) :
    p.stats.sent + p.stats.dropped = l.attaches + l.unicasts + l.addressed := by
  simpa [undecided, hidle] using h.frames

theorem evicted_of_idle (h : p.Balanced l) (hidle : p.round = none) :
    p.stats.evicted = l.timedOut := by
  simpa [condemned, hidle] using h.evicted

theorem attached_of_idle (h : p.Balanced l) (hidle : p.round = none) (id : String) :
    id ∈ l.attached ↔ id ∈ KeyMap.keys p.table := by
  simpa [leaving, hidle] using h.attached id

/-! ### Starting -/

theorem detach (h : p.Balanced l) (hidle : p.round = none) (client : String) :
    (p.detach client).Balanced (l.remove client) := by
  refine of_idle ((p.round_detach client).trans hidle) ?_ ?_ ?_ ?_ ?_ ?_ ?_ fun id => ?_
  all_goals simp only [stats_detach, p.table_detach]
  · exact h.sorted.erase client
  · exact fun entry hentry => h.key entry (List.mem_filter.mp hentry).1
  · exact h.broadcasts
  · exact h.unicasts
  · exact h.sent
  · exact h.frames_of_idle hidle
  · exact h.evicted_of_idle hidle
  · rw [KeyMap.mem_keys_erase_iff, Ledger.remove, Finset.mem_erase, h.attached_of_idle hidle,
      and_comm]

/-- A client comes into the table, and its refresh sets out. -/
theorem start_attach (h : p.Balanced l) (hidle : p.round = none) (hrunning : p.running = true)
    (info : ClientInfo) (queue : Nat) (refresh : φ) :
    (p.start (.attach info queue refresh)).Balanced
      (l.begin p.table.length (.attach info queue refresh)) := by
  have hleft := h.detach hidle info.id
  have hround := (p.round_detach info.id).trans hidle
  have hframes := hleft.frames_of_idle hround
  simp only [start, hrunning, Bool.not_true, Bool.false_eq_true, if_false]
  refine of_round rfl rfl (hleft.sorted.set _ _) (fun entry hentry => ?_) (fun a ha => ?_)
    (List.nodup_singleton _) hleft.broadcasts hleft.unicasts hleft.sent ?_
    (hleft.evicted_of_idle hround) fun id => ?_
  · rcases KeyMap.mem_set hentry with rfl | hold
    · rfl
    · exact hleft.key entry hold
  · rw [List.mem_singleton.mp ha]
    exact KeyMap.mem_keys_set_iff.mpr (.inl rfl)
  · simp only [Ledger.remove] at hframes
    simp only [List.length_singleton, Ledger.begin]
    omega
  · rw [KeyMap.mem_keys_set_iff, ← hleft.attached_of_idle hround]
    simp only [Ledger.begin, Ledger.remove, Finset.mem_insert, Finset.mem_erase]
    tauto

theorem start_broadcast (h : p.Balanced l) (hidle : p.round = none) (hrunning : p.running = true)
    (frame : φ) :
    (p.start (.broadcast frame)).Balanced (l.begin p.table.length (.broadcast frame)) := by
  have hframes := h.frames_of_idle hidle
  have hids : p.targets.map (·.info.id) = KeyMap.keys p.table := by
    rw [targets, List.map_map]
    exact List.map_congr_left h.key
  rw [start_broadcast_eq hrunning]
  refine of_round rfl rfl h.sorted h.key (fun a ha => mem_keys_of_mem_targets h.key ha) ?_
    (congrArg (· + 1) h.broadcasts) h.unicasts h.sent ?_ (h.evicted_of_idle hidle)
    (h.attached_of_idle hidle)
  · rw [hids]
    exact h.sorted.nodup
  · simp only [Ledger.begin, targets, List.length_map]
    omega

theorem start_unicast (h : p.Balanced l) (hidle : p.round = none) (hrunning : p.running = true)
    (client : String) (frame : φ) :
    (p.start (.unicast client frame)).Balanced
      (l.begin p.table.length (.unicast client frame)) := by
  have hframes := h.frames_of_idle hidle
  have hunicasts : p.stats.unicasts + 1 = l.unicasts + 1 := congrArg (· + 1) h.unicasts
  simp only [start, hrunning, Bool.not_true, Bool.false_eq_true, if_false]
  cases hget : KeyMap.get? p.table client with
  | none =>
    refine of_idle hidle h.sorted h.key h.broadcasts hunicasts h.sent ?_
      (h.evicted_of_idle hidle) (h.attached_of_idle hidle)
    simp only [PumpStats.count, Ledger.begin]
    omega
  | some a =>
    have ha : a ∈ p.targets := List.mem_map_of_mem (f := Prod.snd) (KeyMap.mem_of_get? hget)
    refine of_round rfl rfl h.sorted h.key (fun b hb => ?_) (List.nodup_singleton _) h.broadcasts
      hunicasts h.sent ?_ (h.evicted_of_idle hidle) (h.attached_of_idle hidle)
    · rw [List.mem_singleton.mp hb]
      exact mem_keys_of_mem_targets h.key ha
    · simp only [List.length_singleton, Ledger.begin]
      omega

theorem start_shutdown (h : p.Balanced l) (hidle : p.round = none) (hrunning : p.running = true) :
    (p.start .shutdown).Balanced (l.begin p.table.length (.shutdown : PumpCommand φ)) := by
  have hstats : ∀ (clients : List Attachment) (q : Pump φ),
      (clients.foldl (fun q a => q.updateQueue a.queue Queue.shutDown) q).stats = q.stats := by
    intro clients
    induction clients with
    | nil => exact fun _ => rfl
    | cons a rest ih => exact fun q => ih _
  simp only [start, hrunning, Bool.not_true, Bool.false_eq_true, if_false]
  refine of_idle ?_ KeyMap.sorted_nil (by simp) ?_ ?_ ?_ ?_ ?_ fun id => ?_
  · exact (round_foldl_updateQueue p _ _).trans hidle
  all_goals simp only [hstats, Ledger.begin]
  · exact h.broadcasts
  · exact h.unicasts
  · exact h.sent
  · exact h.frames_of_idle hidle
  · exact h.evicted_of_idle hidle
  · simp

/-- A command is begun, if the pump runs. -/
theorem start (h : p.Balanced l) (hidle : p.round = none) (command : PumpCommand φ) :
    (p.start command).Balanced (if p.running then l.begin p.table.length command else l) := by
  by_cases hrunning : p.running = true
  · rw [if_pos hrunning]
    cases command with
    | attach info queue refresh => exact h.start_attach hidle hrunning info queue refresh
    | detach client =>
      have hstart : p.start (.detach client) = p.detach client := by simp [Pump.start, hrunning]
      rw [hstart]
      exact h.detach hidle client
    | broadcast frame => exact h.start_broadcast hidle hrunning frame
    | unicast client frame => exact h.start_unicast hidle hrunning client frame
    | shutdown => exact h.start_shutdown hidle hrunning
  · have hstart : p.start command = p.discard command := by simp [Pump.start, hrunning]
    rw [if_neg hrunning, hstart]
    cases command <;> exact h.congr rfl rfl rfl

/-! ### Deciding -/

/-- A delivery is decided. -/
theorem serve {r : Round φ} {a : Attachment} (h : p.Balanced l) (hround : p.round = some r)
    (ha : a ∈ r.targets) :
    (p.serve a).Balanced
      ((l.place (p.gain (p.serve a))).decide r.isRefresh (p.takes a) (p.lags a) a.info.id) := by
  have hsub := Round.settle_subperm ha (p.outcome a)
  have hlength : (r.targets.erase a).length + 1 = r.targets.length := by
    have hpos := List.length_pos_of_mem ha
    have herase := List.length_erase_of_mem ha
    omega
  have hsent := h.sent
  have hframes := h.frames
  have hevicted := h.evicted
  have hattached := h.attached
  simp only [undecided, condemned, leaving, hround, Option.elim_some] at hframes hevicted hattached
  -- The client is there until now.
  have hmine : a.info.id ∈ l.attached := by
    refine (hattached _).mpr ⟨h.present r hround a (List.mem_append_left _ ha), fun hfailed => ?_⟩
    have honce := h.once r hround
    rw [List.map_append] at honce
    exact List.disjoint_of_nodup_append honce (List.mem_map_of_mem ha) hfailed
  rw [p.ledger_decide (l := l.place _) r hmine, gain_serve hround, serve_of_round hround,
    count_outcome]
  refine ⟨h.sorted, h.key, fun r' hr' b hb => ?_, fun r' hr' => ?_, h.broadcasts, h.unicasts,
    congrArg (· + _) hsent, ?_, ?_, fun id => ?_⟩
  · cases hr'
    exact h.present r hround b (hsub.subset hb)
  · cases hr'
    obtain ⟨rest, hperm, hsublist⟩ := hsub
    exact (hperm.map _).nodup_iff.mp ((h.once r hround).sublist (hsublist.map _))
  · simp only [undecided, Option.elim_some, Round.targets_settle, Ledger.place]
    split <;> omega
  · have hrefresh : (r.settle a (p.outcome a)).isRefresh = r.isRefresh := rfl
    simp only [condemned, Option.elim_some, failed_settle_outcome, Ledger.place, hrefresh]
    rw [← hevicted]
    cases r.isRefresh <;> cases p.fails r a <;> simp [Nat.add_assoc]
  · simp only [leaving, Option.elim_some, failed_settle_outcome, Ledger.place]
    cases p.fails r a with
    | false => simpa using hattached id
    | true =>
      simp only [if_true, Finset.mem_erase, hattached, List.map_append, List.mem_append,
        List.map_cons, List.map_nil, List.mem_singleton]
      tauto

/-- All deliveries of a command are decided. -/
theorem finish {r : Round φ} (h : p.Balanced l) (hround : p.round = some r)
    (hdecided : r.targets = []) : p.finish.Balanced l := by
  have hframes := h.frames
  rw [undecided, hround, Option.elim_some, hdecided, List.length_nil, Nat.add_zero] at hframes
  refine of_idle (round_finish p) ?_ ?_ ?_ ?_ ?_ ?_ ?_ fun id => ?_
  all_goals simp only [table_finish, stats_finish]
  · exact h.sorted.filter _
  · exact fun entry hentry => h.key entry (List.mem_filter.mp hentry).1
  · exact h.broadcasts
  · exact h.unicasts
  · exact h.sent
  · exact hframes
  · exact h.evicted
  · rw [KeyMap.keys_filter (fun id => id ∉ p.leaving), List.mem_filter, h.attached,
      decide_eq_true_eq]

/-! ### Moves -/

/-- A move that puts no frame in a queue, and that the onlooker does not count otherwise. -/
theorem of_shrinks (h : p'.Balanced l) (hqueues : p.Shrinks p') :
    p'.Balanced (l.place (p.gain p')) := by
  rw [hqueues.gain_eq_zero]
  exact h

/-- A move that cannot be made. -/
theorem stay (h : p.Balanced l) : p.Balanced (l.place (p.gain p)) :=
  h.of_shrinks fun _ => Nat.le_refl _

/-- Whatever happens, the two agree. -/
theorem move (h : p.Balanced l) (m : PumpMove φ) : (p.move m).Balanced (l.note p m) := by
  cases m with
  | openQueue capacity =>
    have hopen : (p.openQueue capacity).2.Balanced l := h.congr rfl rfl rfl
    exact hopen.of_shrinks (p.shrinks_openQueue capacity)
  | submit command =>
    refine (h.congr ?_ ?_ (p.round_submit command)).of_shrinks (p.shrinks_submit command)
    all_goals
      unfold submit
      split
      · rfl
      · cases command <;> rfl
  | start =>
    simp only [Pump.move, Ledger.note]
    cases hnext : p.next? with
    | none => exact h.stay
    | some next =>
      obtain ⟨command, q⟩ := next
      obtain ⟨hidle, rest, -, rfl⟩ := next?_eq_some hnext
      have hshrinks : p.Shrinks ({ p with commands := rest }.start command) :=
        shrinks_start { p with commands := rest } command
      have hrest : ({ p with commands := rest } : Pump φ).Balanced l := h.congr rfl rfl rfl
      dsimp only
      rw [hshrinks.gain_eq_zero]
      exact hrest.start hidle command
  | serve a =>
    simp only [Pump.move, Ledger.note]
    cases hunderway : p.underway? a with
    | none => exact h.stay
    | some r =>
      obtain ⟨hround, ha⟩ := Option.filter_eq_some_iff.mp hunderway
      exact h.serve hround (of_decide_eq_true ha)
  | finish =>
    simp only [Pump.move, Ledger.note]
    split
    · next hdecided =>
      obtain ⟨r, hround, hnil⟩ := Option.any_eq_true _ _ |>.mp hdecided
      exact (h.finish hround (List.isEmpty_iff.mp hnil)).of_shrinks p.shrinks_finish
    · exact h.stay
  | read n =>
    have hread : (p.read n).2.Balanced l := by
      unfold Pump.read
      split
      · exact h.congr rfl rfl rfl
      · exact h
    exact hread.of_shrinks (p.shrinks_read n)
  | hangUp n =>
    have hgone : (p.hangUp n).Balanced l := h.congr rfl rfl rfl
    exact hgone.of_shrinks (p.shrinks_hangUp n)

end Balanced

/-! ## The counters of a pump that is idle -/

theorem balanced_played (moves : List (PumpMove φ)) :
    (played moves).1.Balanced (played moves).2 := by
  induction moves using List.reverseRecOn with
  | nil => exact Balanced.initial
  | append_singleton rest m ih =>
    rw [played_concat]
    exact ih.move m

/-- When no frame is on its way, each frame that was to be delivered is counted as sent or as
dropped: one for each client that came, one for each that a frame was for alone, known or not, and
for a frame for all one for each client in the table. What counts as sent was put in a queue. Clients
count as evicted who were removed since a frame for all or for them alone had waited for too long,
and those are in the table who came and were not removed. -/
theorem counters_agree {moves : List (PumpMove φ)} {p : Pump φ} {l : Ledger}
    (hplayed : played moves = (p, l)) (hidle : p.round = none) :
    p.stats.sent + p.stats.dropped = l.attaches + l.unicasts + l.addressed ∧
      p.stats.broadcasts = l.broadcasts ∧
      p.stats.unicasts = l.unicasts ∧
      p.stats.sent = l.placed ∧
      p.stats.evicted = l.timedOut ∧
      p.table.length = l.attached.card ∧
      ∀ id, p.hasClient id ↔ id ∈ l.attached := by
  have h : p.Balanced l := by
    have hbalanced := balanced_played moves
    rwa [hplayed] at hbalanced
  have hattached : l.attached = (KeyMap.keys p.table).toFinset := by
    ext id
    rw [h.attached_of_idle hidle, List.mem_toFinset]
  refine ⟨h.frames_of_idle hidle, h.broadcasts, h.unicasts, h.sent, h.evicted_of_idle hidle, ?_,
    fun id => ?_⟩
  · rw [hattached, List.toFinset_card_of_nodup h.sorted.nodup, KeyMap.keys, List.length_map]
  · rw [h.attached_of_idle hidle, KeyMap.mem_keys_iff, hasClient, KeyMap.hasKey,
      Option.isSome_iff_exists]

/-- One client comes and lags behind the next frame, another does not wait for its refresh, and
then no one is left. -/
theorem counters_agree_of_lagging :
    let slow : Attachment := { info := { id := "a" }, queue := 0 }
    let gone : Attachment := { info := { id := "b" }, queue := 1 }
    let moves : List (PumpMove Nat) :=
      [.openQueue 1, .submit (.attach slow.info 0 7), .start, .serve slow, .finish,
        .submit (.broadcast 8), .start, .serve slow, .finish, .read 0,
        .openQueue 1, .hangUp 1, .submit (.attach gone.info 1 7), .start, .serve gone, .finish,
        .submit (.unicast "a" 9), .start]
    ∃ p l, played moves = (p, l) ∧ p.round = none ∧
      p.stats = { sent := 1, dropped := 3, broadcasts := 1, unicasts := 1, evicted := 1 } ∧
      l.attaches + l.unicasts + l.addressed = 4 ∧ l.placed = 1 ∧ l.timedOut = 1 ∧
      l.attached.card = 0 := by
  intro slow gone moves
  have hend : (played moves).1.round.isNone ∧ (played moves).1.table = [] ∧
      (played moves).1.stats =
        { sent := 1, dropped := 3, broadcasts := 1, unicasts := 1, evicted := 1 } := by
    rw [played_fst]
    decide +kernel
  obtain ⟨hidle, hempty, hstats⟩ := hend
  rw [Option.isNone_iff_eq_none] at hidle
  obtain ⟨hframes, -, -, hsent, hevicted, htable, -⟩ :=
    counters_agree (Prod.mk.eta (p := played moves)).symm hidle
  rw [hstats] at hframes hsent hevicted
  rw [hempty] at htable
  exact ⟨_, _, Prod.mk.eta.symm, hidle, hstats, hframes.symm, hsent.symm, hevicted.symm, htable.symm⟩

end Pump

end LiveDoc

import LiveDoc.Proofs.Fanout.Queues
import Mathlib.Data.List.Induction
import Mathlib.Data.List.Nodup

/-!
# LiveDoc — deliveries in any order

A frame for all clients is delivered to several of them at once, up to a limit, and the table lists
them in no order that one could count on. If nobody reads meanwhile, none of this can be seen
afterwards. Each client has a queue of its own, and what becomes of a queue depends on nothing but
this queue, so that a client which lags costs nobody else a frame.

* `BroadcastProgress.turn?` — one delivery begins, or is decided.
* `Pump.broadcasted` — the pump after a frame for all clients, queue by queue.
* `Pump.finish_served` — what deliveries come to, in whatever order they were decided.
* `BroadcastProgress.run_broadcast` — every schedule ends, and all of them end alike.
-/

namespace LiveDoc

variable {φ : Type}

/-! ## Schedules -/

/-- What may happen next to the deliveries of a frame. -/
inductive DeliveryTurn where
  -- The next delivery begins.
  | begin
  -- A delivery that has begun is decided.
  | decide (target : Attachment)

/-- A frame on its way: the clients whose delivery has not begun, in the order in which the table
lists them, and those whose delivery has begun and is not decided. -/
structure BroadcastProgress (φ : Type) where
  pump : Pump φ
  waiting : List Attachment
  underway : List Attachment := []

namespace BroadcastProgress

/-- What a turn comes to, with so many deliveries underway at most; nothing if it cannot happen. -/
def turn? (limit : Nat) (s : BroadcastProgress φ) : DeliveryTurn → Option (BroadcastProgress φ)
  | .begin =>
    match s.waiting with
    | a :: rest =>
      if s.underway.length < limit then
        some { s with waiting := rest, underway := s.underway ++ [a] }
      else none
    | [] => none
  | .decide a =>
    if a ∈ s.underway then
      some { s with pump := s.pump.serve a, underway := s.underway.erase a }
    else none

def run? (limit : Nat) (s : BroadcastProgress φ) (turns : List DeliveryTurn) :
    Option (BroadcastProgress φ) :=
  turns.foldlM (turn? limit) s

/-- All deliveries are decided. -/
def IsDone (s : BroadcastProgress φ) : Prop := s.waiting = [] ∧ s.underway = []

/-- How many turns are left. -/
def left (s : BroadcastProgress φ) : Nat := 2 * s.waiting.length + s.underway.length

theorem run?_cons (limit : Nat) (s : BroadcastProgress φ) (turn : DeliveryTurn)
    (turns : List DeliveryTurn) :
    s.run? limit (turn :: turns) = (s.turn? limit turn).bind (·.run? limit turns) := by
  rw [run?, List.foldlM_cons]
  rfl

variable {limit : Nat} {s s' : BroadcastProgress φ}

/-- Every turn brings the deliveries nearer to their end. -/
theorem left_turn? {turn : DeliveryTurn} (h : s.turn? limit turn = some s') :
    s'.left + 1 = s.left := by
  cases turn with
  | begin =>
    rw [turn?] at h
    split at h
    · next a rest hwaiting =>
      obtain ⟨-, rfl⟩ := Option.ite_some_none_eq_some.mp h
      simp only [left, hwaiting, List.length_append, List.length_cons, List.length_nil]
      omega
    · cases h
  | decide a =>
    rw [turn?] at h
    obtain ⟨hmem, rfl⟩ := Option.ite_some_none_eq_some.mp h
    have hlength := List.length_erase_of_mem hmem
    have hpos := List.length_pos_of_mem hmem
    simp only [left]
    omega

/-- Deliveries that are not all decided can go on. -/
theorem exists_turn? (hlimit : 0 < limit) (h : ¬ s.IsDone) :
    ∃ turn s', s.turn? limit turn = some s' := by
  cases hunderway : s.underway with
  | cons a rest => exact ⟨.decide a, _, if_pos (hunderway ▸ List.mem_cons_self)⟩
  | nil =>
    cases hwaiting : s.waiting with
    | nil => exact absurd ⟨hwaiting, hunderway⟩ h
    | cons a rest =>
      refine ⟨.begin, { s with waiting := rest, underway := s.underway ++ [a] }, ?_⟩
      simp [turn?, hwaiting, hunderway, hlimit]

/-- They come to an end in as many turns as are left. -/
theorem exists_run? (hlimit : 0 < limit) (s : BroadcastProgress φ) :
    ∃ turns s', s.run? limit turns = some s' ∧ s'.IsDone ∧ turns.length = s.left := by
  -- By induction on the turns that are left.
  induction hleft : s.left generalizing s with
  | zero =>
    have hnil : s.waiting = [] ∧ s.underway = [] := by
      simp only [left] at hleft
      exact ⟨List.eq_nil_of_length_eq_zero (by omega), List.eq_nil_of_length_eq_zero (by omega)⟩
    exact ⟨[], s, rfl, hnil, rfl⟩
  | succ k ih =>
    have hdone : ¬ s.IsDone := by
      rintro ⟨hwaiting, hunderway⟩
      simp [left, hwaiting, hunderway] at hleft
    obtain ⟨turn, s', hturn⟩ := exists_turn? hlimit hdone
    obtain ⟨turns, s'', hrun, hend, hlength⟩ := ih s' (by have := left_turn? hturn; omega)
    refine ⟨turn :: turns, s'', ?_, hend, congrArg (· + 1) hlength⟩
    rw [run?_cons, hturn]
    exact hrun

end BroadcastProgress

/-! ## Queues that are touched together -/

/-- The queues when those with some numbers were touched. -/
def touched (queues : List (Queue φ)) (numbers : List Nat) (f : Queue φ → Queue φ) :
    List (Queue φ) :=
  queues.mapIdx fun n q => if n ∈ numbers then f q else q

variable (queues : List (Queue φ)) (numbers : List Nat) (f : Queue φ → Queue φ)

theorem getElem?_touched (n : Nat) :
    (touched queues numbers f)[n]? =
      if n ∈ numbers then queues[n]?.map f else queues[n]? := by
  rw [touched, List.getElem?_mapIdx]
  by_cases hn : n ∈ numbers
  · simp only [hn, if_true]
  · simp only [hn, if_false, Option.map_id']

theorem touched_nil : touched queues [] f = queues :=
  List.ext_getElem? fun n => by rw [getElem?_touched, if_neg List.not_mem_nil]

/-- One more queue is touched, or one is touched again to no effect. -/
theorem touched_concat {n : Nat} (h : n ∈ numbers → ∀ q, f (f q) = f q) :
    touched queues (numbers ++ [n]) f = (touched queues numbers f).modify n f := by
  refine List.ext_getElem? fun m => ?_
  rw [List.getElem?_modify, getElem?_touched, getElem?_touched]
  by_cases hmn : n = m
  · subst hmn
    by_cases hmem : n ∈ numbers
    · have hf : f ∘ f = f := funext (h hmem)
      simp [hmem, Option.map_map, hf]
    · simp [hmem]
  · simp [hmn, Ne.symm hmn]

/-! ## What a frame for all clients comes to -/

/-- A queue after a frame for all clients: the frame is put in, or the queue has no reader and stays
as it is, or it has no room and is given up. -/
def Queue.offered (q : Queue φ) (frame : φ) : Queue φ :=
  if q.takes then { q with waiting := q.waiting ++ [.frame frame] }
  else if q.lags then q.evict
  else q

theorem Queue.offered_eq (q : Queue φ) (frame : φ) :
    q.offered frame = if q.lags then (q.deliver frame).2.evict else (q.deliver frame).2 := by
  unfold offered takes lags deliver
  cases hreader : q.hasReader <;> cases hroom : q.hasRoom <;> simp

namespace Pump

variable (p : Pump φ)

/-- The pump after a frame for all clients, queue by queue. -/
def broadcasted (frame : φ) : Pump φ :=
  { p with
    queues := touched p.queues (p.targets.map (·.queue)) (·.offered frame)
    table := p.table.filter fun entry => entry.1 ∉ (p.targets.filter p.lags).map (·.info.id)
    stats :=
      { p.stats with
        broadcasts := p.stats.broadcasts + 1
        sent := p.stats.sent + p.targets.countP p.takes
        dropped := p.stats.dropped + p.targets.countP fun a => !p.takes a
        evicted := p.stats.evicted + p.targets.countP p.lags }
    round := none }

/-- The pump when the deliveries to some clients are decided. -/
def served (r : Round φ) (decided : List Attachment) : Pump φ :=
  { p with
    queues := touched p.queues (decided.map (·.queue)) fun q => (q.deliver r.frame).2
    stats := decided.foldl (fun s a => s.count (p.outcome a)) p.stats
    round := some (decided.foldl (fun r a => r.settle a (p.outcome a)) r) }

/-! ### The deliveries -/

variable {p} {r : Round φ} {a : Attachment}

theorem served_nil (hround : p.round = some r) : p.served r [] = p := by
  rw [served, List.map_nil, touched_nil, List.foldl_nil, List.foldl_nil, ← hround]

theorem frame_foldl_settle (outcome : Attachment → Delivery) (decided : List Attachment) :
    (decided.foldl (fun r a => r.settle a (outcome a)) r).frame = r.frame := by
  induction decided generalizing r with
  | nil => rfl
  | cons a rest ih => exact ih

/-- A delivery is decided by the queue as it was before all of them. -/
theorem serve_served {decided : List Attachment} (h : a.queue ∉ decided.map (·.queue)) :
    (p.served r decided).serve a = p.served r (decided ++ [a]) := by
  have hget : (p.served r decided).queues[a.queue]? = p.queues[a.queue]? := by
    rw [served, getElem?_touched, if_neg h]
  have houtcome : (p.served r decided).outcome a = p.outcome a := by
    rw [outcome, takes, lags, hget]
    rfl
  have hqueues := touched_concat p.queues (decided.map (·.queue))
    (fun q => (q.deliver r.frame).2) (n := a.queue) fun hmem => absurd hmem h
  rw [serve_of_round (r := decided.foldl (fun r a => r.settle a (p.outcome a)) r) rfl, houtcome,
    frame_foldl_settle]
  simp only [served, List.map_append, List.map_cons, List.map_nil, List.foldl_append,
    List.foldl_cons, List.foldl_nil, hqueues]

/-! ### The end -/

theorem foldl_evict_eq (p : Pump φ) (failed : List Attachment) :
    failed.foldl evict p =
      { p with
        queues := touched p.queues (failed.map (·.queue)) Queue.evict
        table := p.table.filter fun entry => entry.1 ∉ failed.map (·.info.id)
        stats := { p.stats with evicted := p.stats.evicted + failed.length } } := by
  induction failed using List.reverseRecOn with
  | nil => simp [touched_nil]
  | append_singleton rest a ih =>
    have hqueues := touched_concat p.queues (rest.map (·.queue)) Queue.evict (n := a.queue)
      fun _ _ => rfl
    have htable : KeyMap.erase
          (p.table.filter fun entry => entry.1 ∉ rest.map (·.info.id)) a.info.id =
        p.table.filter fun entry => entry.1 ∉ (rest ++ [a]).map (·.info.id) := by
      rw [← KeyMap.foldl_erase, ← KeyMap.foldl_erase, List.map_append, List.foldl_append]
      rfl
    rw [List.foldl_append, ih, List.foldl_cons, List.foldl_nil, evict, htable]
    simp [updateQueue, hqueues, Nat.add_assoc]

theorem foldl_count (s : PumpStats) (decided : List Attachment) :
    decided.foldl (fun s a => s.count (p.outcome a)) s =
      { s with
        sent := s.sent + decided.countP p.takes
        dropped := s.dropped + decided.countP fun a => !p.takes a } := by
  induction decided generalizing s with
  | nil => rfl
  | cons a rest ih =>
    rw [List.foldl_cons, ih, List.countP_cons, List.countP_cons]
    cases htakes : p.takes a <;> cases hlags : p.lags a <;>
      simp [outcome, htakes, hlags, PumpStats.count] <;> omega

theorem failed_foldl_settle (hrefresh : r.isRefresh = false) (decided : List Attachment) :
    (decided.foldl (fun r a => r.settle a (p.outcome a)) r).failed =
        r.failed ++ decided.filter p.lags ∧
      (decided.foldl (fun r a => r.settle a (p.outcome a)) r).isRefresh = false := by
  induction decided generalizing r with
  | nil => simp [hrefresh]
  | cons a rest ih =>
    have hsettle : (r.settle a (p.outcome a)).failed = r.failed ++ [a].filter p.lags := by
      simp only [Round.settle, hrefresh, Bool.false_and, Bool.or_false, outcome_eq_lagging_iff]
      cases hlags : p.lags a <;> simp [hlags]
    obtain ⟨hfailed, hstays⟩ := ih (r := r.settle a (p.outcome a)) hrefresh
    refine ⟨?_, hstays⟩
    rw [List.foldl_cons, hfailed, hsettle, List.append_assoc, ← List.filter_append]
    rfl

/-- A queue is among those that have failed if its delivery is decided and it lags. -/
theorem mem_lagging_iff {decided : List Attachment} {n : Nat} {q : Queue φ}
    (hget : p.queues[n]? = some q) :
    n ∈ (decided.filter p.lags).map (·.queue) ↔
      n ∈ decided.map (·.queue) ∧ q.lags = true := by
  simp only [List.mem_map, List.mem_filter]
  constructor
  · rintro ⟨a, ⟨hmem, hlags⟩, rfl⟩
    rw [lags, hget] at hlags
    exact ⟨⟨a, hmem, rfl⟩, hlags⟩
  · rintro ⟨⟨a, hmem, rfl⟩, hlags⟩
    refine ⟨a, ⟨hmem, ?_⟩, rfl⟩
    rw [lags, hget]
    exact hlags

theorem touched_evict_deliver (p : Pump φ) (frame : φ) (decided : List Attachment) :
    touched (touched p.queues (decided.map (·.queue)) fun q => (q.deliver frame).2)
        ((decided.filter p.lags).map (·.queue)) Queue.evict =
      touched p.queues (decided.map (·.queue)) (·.offered frame) := by
  refine List.ext_getElem? fun n => ?_
  simp only [getElem?_touched]
  cases hget : p.queues[n]? with
  | none => simp
  | some q =>
    simp only [mem_lagging_iff hget, Option.map_some, q.offered_eq]
    by_cases hmem : n ∈ decided.map (·.queue)
    · cases q.lags <;> simp only [hmem, and_self, and_false, if_true, if_false, Option.map_some,
        Bool.false_eq_true]
    · simp only [hmem, false_and, if_false]

theorem start_broadcast_eq (hrunning : p.running = true) (frame : φ) :
    p.start (.broadcast frame) =
      { p with
        stats := { p.stats with broadcasts := p.stats.broadcasts + 1 }
        round := some { frame, targets := p.targets } } := by
  simp [start, hrunning]

/-- Whatever the order in which its deliveries were decided, a frame for all clients comes to the
same. -/
theorem finish_served {frame : φ} {decided : List Attachment} (hrunning : p.running = true)
    (hperm : decided.Perm p.targets) :
    ((p.start (.broadcast frame)).served { frame, targets := p.targets } decided).finish =
      p.broadcasted frame := by
  have houtcome : (p.start (.broadcast frame)).outcome = p.outcome := by
    rw [start_broadcast_eq hrunning]
    rfl
  have hqueues : touched p.queues (decided.map (·.queue)) (·.offered frame) =
      touched p.queues (p.targets.map (·.queue)) (·.offered frame) := by
    refine List.ext_getElem? fun n => ?_
    simp only [getElem?_touched, (hperm.map _).mem_iff]
  have htable : (p.table.filter fun entry =>
        entry.1 ∉ (decided.filter p.lags).map (·.info.id)) =
      p.table.filter fun entry => entry.1 ∉ (p.targets.filter p.lags).map (·.info.id) := by
    refine List.filter_congr fun entry _ => ?_
    simp only [((hperm.filter _).map _).mem_iff]
  obtain ⟨hfailed, hrefresh⟩ := failed_foldl_settle (p := p)
    (r := { frame, targets := p.targets }) rfl decided
  rw [finish, served, houtcome, start_broadcast_eq hrunning]
  simp only [hfailed, hrefresh, Bool.false_eq_true, if_false, List.nil_append]
  rw [foldl_evict_eq, touched_evict_deliver, foldl_count]
  simp only [hqueues, htable, broadcasted, hperm.countP_eq, ← List.countP_eq_length_filter]

theorem foldl_serve {decided : List Attachment} (hround : p.round = some r)
    (hown : (decided.map (·.queue)).Nodup) : decided.foldl serve p = p.served r decided := by
  induction decided using List.reverseRecOn with
  | nil => exact (served_nil hround).symm
  | append_singleton rest a ih =>
    rw [List.map_append, List.nodup_append'] at hown
    have hnew : a.queue ∉ rest.map (·.queue) :=
      List.disjoint_singleton.mp hown.2.2
    rw [List.foldl_append, ih hown.1]
    exact serve_served hnew

/-- A frame for all clients that is handled without a break. -/
theorem handle_broadcast (hrunning : p.running = true) (hown : (p.targets.map (·.queue)).Nodup)
    (frame : φ) : p.handle (.broadcast frame) = p.broadcasted frame := by
  have hround : (p.start (.broadcast frame)).round = some { frame, targets := p.targets } := by
    rw [start_broadcast_eq hrunning]
  rw [handle, complete, hround]
  dsimp only
  rw [foldl_serve hround hown]
  exact finish_served hrunning (List.Perm.refl _)

end Pump

/-! ## The law -/

namespace BroadcastProgress

variable {limit : Nat} {s s' : BroadcastProgress φ} {p : Pump φ} {r : Round φ}

/-- The deliveries of a round are decided, underway or wait, and the pump is as those make it that
are decided. -/
def Tracks (p : Pump φ) (r : Round φ) (s : BroadcastProgress φ) : Prop :=
  ∃ decided, s.pump = p.served r decided ∧ (decided ++ (s.underway ++ s.waiting)).Perm r.targets

theorem Tracks.turn (h : Tracks p r s) (hown : (r.targets.map (·.queue)).Nodup)
    {turn : DeliveryTurn} (hturn : s.turn? limit turn = some s') : Tracks p r s' := by
  obtain ⟨decided, hpump, hperm⟩ := h
  cases turn with
  | begin =>
    rw [turn?] at hturn
    split at hturn
    · next a rest hwaiting =>
      obtain ⟨-, rfl⟩ := Option.ite_some_none_eq_some.mp hturn
      rw [hwaiting] at hperm
      exact ⟨decided, hpump, by simpa using hperm⟩
    · cases hturn
  | decide a =>
    rw [turn?] at hturn
    obtain ⟨hmem, rfl⟩ := Option.ite_some_none_eq_some.mp hturn
    have hmoved : (decided ++ [a] ++ (s.underway.erase a ++ s.waiting)).Perm r.targets := by
      refine List.Perm.trans ?_ hperm
      rw [List.append_assoc]
      exact ((List.perm_cons_erase hmem).symm.append_right s.waiting).append_left decided
    refine ⟨decided ++ [a], ?_, hmoved⟩
    -- Its queue is no one else's.
    have hnew : a.queue ∉ decided.map (·.queue) := by
      have hnodup := (hmoved.map (·.queue)).nodup_iff.mpr hown
      rw [List.map_append, List.map_append] at hnodup
      exact List.disjoint_singleton.mp (List.disjoint_of_nodup_append hnodup.of_append_left)
    rw [hpump]
    exact Pump.serve_served hnew

theorem Tracks.run (h : Tracks p r s) (hown : (r.targets.map (·.queue)).Nodup)
    {turns : List DeliveryTurn} (hrun : s.run? limit turns = some s') :
    Tracks p r s' ∧ turns.length + s'.left = s.left := by
  induction turns generalizing s with
  | nil =>
    cases hrun
    exact ⟨h, Nat.zero_add _⟩
  | cons turn rest ih =>
    rw [run?_cons] at hrun
    obtain ⟨next, hturn, hrest⟩ := Option.bind_eq_some_iff.mp hrun
    obtain ⟨htracks, hleft⟩ := ih (h.turn hown hturn) hrest
    refine ⟨htracks, ?_⟩
    have hone := left_turn? hturn
    rw [List.length_cons]
    omega

/-- A frame for all clients is on its way while nobody reads. In whatever order the table lists the
clients, however many deliveries may be underway at once and however they take turns, the deliveries
go on to their end, which comes after two turns for each client, and all that is left then is the
same: the queues, who is told to close, the table and the counters. Each queue got the frame, or
has no reader and is as it was, or had no room and is given up, whatever became of the others. -/
theorem run_broadcast (hrunning : p.running = true) (hown : (p.targets.map (·.queue)).Nodup)
    (frame : φ) {order : List Attachment} (horder : order.Perm p.targets) (hlimit : 0 < limit)
    {turns : List DeliveryTurn}
    (hrun : run? limit { pump := p.start (.broadcast frame), waiting := order } turns = some s) :
    (∃ rest s', s.run? limit rest = some s' ∧ s'.IsDone ∧
        turns.length + rest.length = 2 * p.targets.length) ∧
      (s.IsDone → s.pump.finish = p.broadcasted frame) ∧
      p.handle (.broadcast frame) = p.broadcasted frame := by
  have hround : (p.start (.broadcast frame)).round = some { frame, targets := p.targets } := by
    rw [Pump.start_broadcast_eq hrunning]
  have htracks : Tracks (p.start (.broadcast frame)) { frame, targets := p.targets }
      { pump := p.start (.broadcast frame), waiting := order } :=
    ⟨[], (Pump.served_nil hround).symm, by simpa using horder⟩
  obtain ⟨⟨decided, hpump, hperm⟩, hleft⟩ := htracks.run hown hrun
  refine ⟨?_, fun hdone => ?_, Pump.handle_broadcast hrunning hown frame⟩
  · obtain ⟨rest, s', hrest, hdone, hlength⟩ := exists_run? hlimit s
    refine ⟨rest, s', hrest, hdone, ?_⟩
    have hall : ({ pump := p.start (.broadcast frame), waiting := order } : BroadcastProgress φ).left =
        2 * p.targets.length := by
      rw [← horder.length_eq]
      rfl
    omega
  · rw [hdone.1, hdone.2, List.append_nil, List.append_nil] at hperm
    rw [hpump]
    exact Pump.finish_served hrunning hperm

/-- Of three clients one lags, one is gone and one reads. Two deliveries are underway at once, the
table lists the clients from behind, and the one that lags is decided first. -/
theorem run_broadcast_two_lanes :
    let lagging : Attachment := { info := { id := "a" }, queue := 0 }
    let gone : Attachment := { info := { id := "b" }, queue := 1 }
    let reading : Attachment := { info := { id := "c" }, queue := 2 }
    let p : Pump Nat :=
      { table := [("a", lagging), ("b", gone), ("c", reading)]
        queues := [{ capacity := 1, waiting := [.frame 7] }, { capacity := 1, hasReader := false },
          { capacity := 1 }] }
    let turns : List DeliveryTurn :=
      [.begin, .begin, .decide lagging, .begin, .decide gone, .decide reading]
    ∃ s, run? 2 { pump := p.start (.broadcast 8), waiting := [reading, lagging, gone] } turns =
        some s ∧ s.pump.finish = p.broadcasted 8 ∧
      (p.broadcasted 8).queues.map (·.waiting) = [[.frame 7], [], [.frame 8]] ∧
      (p.broadcasted 8).queues.map (·.closing) = [true, false, false] ∧
      (p.broadcasted 8).table = [("b", gone), ("c", reading)] ∧
      (p.broadcasted 8).stats = { broadcasts := 1, sent := 1, dropped := 2, evicted := 1 } := by
  intro lagging gone reading p turns
  have horder : [reading, lagging, gone].Perm p.targets := by decide
  have hrun : run? 2 { pump := p.start (.broadcast 8), waiting := [reading, lagging, gone] } turns =
      some _ := rfl
  have hlaw := run_broadcast rfl (by decide) 8 horder (by decide) hrun
  exact ⟨_, rfl, hlaw.2.1 ⟨rfl, rfl⟩, rfl, rfl, rfl, rfl⟩

end BroadcastProgress

end LiveDoc

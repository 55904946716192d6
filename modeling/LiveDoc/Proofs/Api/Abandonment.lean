import LiveDoc.Proofs.Api.Settlement

/-!
# LiveDoc — HTTP requests that were left

A request is pending until it is settled, and its peer is answered or gone when it is. A peer that
hangs up first takes the receiver of the answer with it but settles nothing, and no deadline is met
without a receiver: the request stays pending until the backend responds or all requests are
failed. These are the only requests that are pending for nobody, and nothing bounds how many there
are.

* `ApiBridge.left` — the requests that are pending for nobody.
* `ApiBridge.IsLeftAfter` — a request was left, by what happened alone.
* `ApiBridge.Runs.pending_unless_left` — who else is pending is held.
* `ApiBridge.exists_left_request` — a request that nobody waits for and that is pending.
* `ApiBridge.exists_left_requests` — as many of them as one likes.
-/

namespace LiveDoc.ApiBridge

open BridgeEvent

variable {events : List BridgeEvent} {b b' : ApiBridge} {e : BridgeEvent} {id : String}

/-- How many peers hold a request open. -/
def heldCount (b : ApiBridge) : Nat := (b.exchanges.filter (·.2.held)).length

/-- The requests that are pending, and whose peers are gone. -/
def left (b : ApiBridge) : List String :=
  KeyMap.keys (b.exchanges.filter fun entry => entry.2.pending && !entry.2.held)

/-- The peer hung up while the request was pending, and since then nothing has answered it. -/
def IsLeftAfter (events : List BridgeEvent) (id : String) : Prop :=
  ∃ before since, events = before ++ .hungUp id :: since ∧ IsPendingAfter before id ∧
    ∀ e ∈ since, e.answer? id = none

theorem isLeftAfter_concat : IsLeftAfter (events ++ [e]) id ↔
    e = .hungUp id ∧ IsPendingAfter events id ∨ IsLeftAfter events id ∧ e.answer? id = none := by
  simpa [IsLeftAfter] using
    exists_split_concat (p := fun e => (e.answer? id).isSome) (q := (IsPendingAfter · id))

/-! ## One request -/

/-- A request is left when its peer hangs up, and then until there is an answer to it. -/
theorem Concern.left_iff {x? y? : Option Exchange} (h : Concern id x? e y?)
    (hsound : ∀ x, x? = some x → x.IsSound) :
    y?.any (fun y => y.pending && !y.held) ↔
      e = .hungUp id ∧ x?.any (·.pending) ∨
        x?.any (fun x => x.pending && !x.held) ∧ e.answer? id = none := by
  cases h with
  | registered => simp
  | settled _ hanswer =>
    have hne : e ≠ .hungUp id := by rintro rfl; cases hanswer
    simp [Exchange.settle, hanswer, hne]
  | hungUp hheld => simp [hheld]
  | @taken x _ answer hheld hanswer hended =>
    have hne : e ≠ .hungUp id := by rintro rfl; simp at hended
    -- There is no answer to take unless the request is settled.
    have hsettled : x.pending = false := ((hsound x rfl).mp (by simp [hanswer])).1
    simp [hsettled, hne]
  | expired hheld => simp [hheld]
  | aside _ hanswer _ hreleases =>
    have hne : e ≠ .hungUp id := by rintro rfl; simp [releases] at hreleases
    cases hsettler : e.answer? id with
    | none => simp [hne]
    | some answer =>
      have hsettled := hanswer (by simp [hsettler])
      cases x? <;> simp_all

/-! ## All requests -/

theorem Happens.sorted (h : b.Happens e b') (hsorted : KeyMap.Sorted b.exchanges) :
    KeyMap.Sorted b'.exchanges := by
  have habandon (id : String) : KeyMap.Sorted (b.abandon id).2.exchanges := by
    unfold abandon
    split
    · exact hsorted.set _ _
    · exact hsorted
  cases h with
  | register id => exact hsorted.set _ _
  | resolve response =>
    unfold ApiBridge.resolve
    split
    · split
      · exact hsorted.set _ _
      · exact hsorted
    · exact hsorted
  | failAll status error =>
    refine KeyMap.sorted_of_keys_eq ?_ hsorted
    simp [ApiBridge.failAll, KeyMap.keys]
  | hangUp id => exact habandon id
  | receive id htaken =>
    obtain ⟨x, -, -, -, rfl⟩ := take_eq_some htaken
    exact hsorted.set _ _
  | expire id hheld =>
    rcases expire_cases hheld with ⟨answer, b₁, htaken, hexpire⟩ | ⟨x, -, -, -, hexpire⟩
    · obtain ⟨x, -, -, -, rfl⟩ := take_eq_some htaken
      rw [hexpire]
      exact hsorted.set _ _
    · rw [hexpire]
      exact hsorted.set _ _

theorem Runs.sorted (h : Runs events b) : KeyMap.Sorted b.exchanges := by
  induction h with
  | initial => exact KeyMap.sorted_nil
  | happens _ hnext ih => exact hnext.sorted ih

theorem mem_left (hsorted : KeyMap.Sorted b.exchanges) :
    id ∈ b.left ↔ (b.exchange? id).any fun x => x.pending && !x.held := by
  rw [left, KeyMap.mem_keys_iff, hsorted.get?_filter, Option.any_eq_true]
  exact exists_congr fun x => Option.filter_eq_some_iff

theorem Runs.mem_left_iff (h : Runs events b) : id ∈ b.left ↔ IsLeftAfter events id := by
  rw [mem_left h.sorted]
  induction h with
  | initial =>
    have hnone : ¬ IsLeftAfter [] id := by
      rintro ⟨before, since, hevents, -⟩
      simp at hevents
    simpa [exchange?] using hnone
  | happens h hnext ih =>
    have hfollows := h.follows id
    rw [(hnext.concern id).left_iff hfollows.sound, isLeftAfter_concat, ih, hfollows.pending]

/-- Who is pending is held, or was left. -/
theorem pendingCount_le (b : ApiBridge) : b.pendingCount ≤ b.heldCount + b.left.length := by
  have hkeys : b.left.length =
      b.exchanges.countP fun entry => entry.2.pending && !entry.2.held := by
    rw [left, KeyMap.keys, List.length_map, List.countP_eq_length_filter]
  rw [pendingCount, heldCount, hkeys, ← List.countP_eq_length_filter,
    ← List.countP_eq_length_filter]
  induction b.exchanges with
  | nil => simp
  | cons entry rest ih =>
    simp only [List.countP_cons]
    cases entry.2.pending <;> cases entry.2.held <;> simp <;> omega

/-- Every request that is pending is held, but for those whose peers hung up while they were pending
and which nothing has answered since: these are pending for nobody. So no more requests are pending
than are held and were left. -/
theorem Runs.pending_unless_left (h : Runs events b) :
    (∀ id, id ∈ b.left ↔ b.isPending id = true ∧ b.isHeld id = false) ∧
      (∀ id, id ∈ b.left ↔ IsLeftAfter events id) ∧ b.left.Nodup ∧
      b.pendingCount ≤ b.heldCount + b.left.length := by
  refine ⟨fun id => ?_, fun id => h.mem_left_iff, (h.sorted.filter _).imp fun hlt => hlt.ne,
    b.pendingCount_le⟩
  rw [mem_left h.sorted, isPending, isHeld]
  cases b.exchange? id <;> simp

/-- A peer hangs up, and its request stays pending; another peer waits. -/
theorem pending_unless_left_two_requests :
    ∃ events b, Runs events b ∧ (∀ id, id ∈ b.left ↔ IsLeftAfter events id) ∧ b.left = ["a"] ∧
      b.pendingCount = 2 ∧ b.heldCount = 1 := by
  have hregistered : Runs _ { exchanges := [("a", {}), ("b", {})] } :=
    (Runs.initial.happens (.register "a" rfl)).happens (.register "b" rfl)
  have hleft : Runs _ { exchanges := [("a", { held := false }), ("b", {})] } :=
    hregistered.happens (.hangUp "a" rfl)
  exact ⟨_, _, hleft, hleft.pending_unless_left.2.1, rfl, rfl, rfl⟩

/-- A request is registered, and its peer hangs up: it is pending, and nobody holds a request. -/
theorem exists_left_request : ∃ b, Runs [.registered "a", .hungUp "a"] b ∧
    b.isPending "a" = true ∧ b.isHeld "a" = false ∧ b.pendingCount = 1 ∧ b.heldCount = 0 := by
  have hregistered : Runs [.registered "a"] { exchanges := [("a", {})] } :=
    Runs.initial.happens (.register "a" rfl)
  have hleft : Runs [.registered "a", .hungUp "a"] { exchanges := [("a", { held := false })] } :=
    hregistered.happens (.hangUp "a" rfl)
  exact ⟨_, hleft, rfl, rfl, rfl, rfl⟩

/-- Nothing bounds how many requests are pending for nobody. -/
theorem exists_left_requests (n : Nat) : ∃ events b, Runs events b ∧ b.pendingCount = n ∧
    b.heldCount = 0 := by
  -- The ids are taken longer and longer, so that each is fresh.
  suffices h : ∃ events b, Runs events b ∧ b.exchanges.length = n ∧
      ∀ entry ∈ b.exchanges, entry.1.length < n ∧ entry.2 = { held := false } by
    obtain ⟨events, b, hruns, hlength, hleft⟩ := h
    refine ⟨events, b, hruns, ?_, ?_⟩
    · rw [pendingCount, List.filter_eq_self.mpr fun entry hmem => by rw [(hleft entry hmem).2],
        hlength]
    · rw [heldCount, List.filter_eq_nil_iff.mpr fun entry hmem => by simp [(hleft entry hmem).2]]
      rfl
  induction n with
  | zero => exact ⟨[], {}, .initial, rfl, nofun⟩
  | succ n ih =>
    obtain ⟨events, b, hruns, hlength, hleft⟩ := ih
    let id := String.ofList (List.replicate n 'a')
    have hid : id.length = n := by simp [id]
    have hfresh : id ∉ KeyMap.keys b.exchanges := by
      intro hmem
      obtain ⟨entry, hentry, heq⟩ := List.mem_map.mp hmem
      exact (hleft entry hentry).1.ne (heq ▸ hid)
    have hregistered : (b.register id).exchange? id = some {} := exchange?_of_set
    have hheld : (b.register id).isHeld id = true := by
      rw [isHeld, hregistered]
      rfl
    have hnext := (hruns.happens (.register id (KeyMap.get?_eq_none_iff.mpr hfresh))).happens
      (.hangUp id hheld)
    have habandon : ((b.register id).abandon id).2.exchanges =
        KeyMap.set b.exchanges id { held := false } := by
      rw [abandon_eq hregistered]
      exact KeyMap.set_set _ _ _ _
    refine ⟨_, _, hnext, ?_, fun entry hmem => ?_⟩
    · rw [habandon, KeyMap.length_set _ hfresh, hlength]
    · rw [habandon] at hmem
      rcases KeyMap.mem_set hmem with rfl | hmem
      · exact ⟨by simp [hid], rfl⟩
      · exact ⟨Nat.lt_succ_of_lt (hleft entry hmem).1, (hleft entry hmem).2⟩

end LiveDoc.ApiBridge

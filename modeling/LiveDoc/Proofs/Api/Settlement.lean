import LiveDoc.Proofs.Api.Steps
import Mathlib.Data.List.Induction

/-!
# LiveDoc — HTTP requests are settled once

The response of the backend, the failure of all requests and the deadline race for a request that is
held, and each of them finds out whether it was the first. A response that comes first gets through,
if somebody still waits, and then the wait ends with it even at the deadline; one that comes later
is refused. What is told to the backend and what is told to the peer therefore agree, in every
order.

Who is pending, who is held and which answer is there can be read off what happened, as far as it
happened since the request was registered.

* `ApiBridge.IsPendingAfter`, `ApiBridge.IsHeldAfter`, `ApiBridge.IsGiven` — by what happened alone.
* `ApiBridge.Runs.follows` — the bridge agrees with what happened.
* `ApiBridge.IsSettledOnce` — what holds of one request.
* `ApiBridge.Runs.isSettledOnce` — it holds of every request, whatever happens.
-/

namespace LiveDoc

namespace ApiBridge

open BridgeEvent

variable {events before since rest : List BridgeEvent} {b b' : ApiBridge} {e : BridgeEvent}
  {id : String} {answer : ApiResponse} {p : BridgeEvent → Bool}

/-! ## What happened -/

/-- Since the request was registered, nothing of the kind has happened. -/
def IsSince (events : List BridgeEvent) (id : String) (p : BridgeEvent → Bool) : Prop :=
  ∃ before since, events = before ++ .registered id :: since ∧ ∀ e ∈ since, p e = false

/-- Nobody has settled the request since it was registered. -/
def IsPendingAfter (events : List BridgeEvent) (id : String) : Prop :=
  IsSince events id (settles id)

/-- The receiver of the answer has been there since the request was registered. -/
def IsHeldAfter (events : List BridgeEvent) (id : String) : Prop :=
  IsSince events id (releases id)

/-- The answer came while the request was pending and somebody waited for it. -/
def IsGiven (events : List BridgeEvent) (id : String) (answer : ApiResponse) : Prop :=
  ∃ before e since, events = before ++ e :: since ∧ IsPendingAfter before id ∧
    IsHeldAfter before id ∧ e.answer? id = some answer

theorem not_isSince_nil : ¬ IsSince [] id p := by
  rintro ⟨before, since, hevents, -⟩
  simp at hevents

/-- One more event is the one that is looked for, or one of those since it. -/
theorem exists_split_concat {first : BridgeEvent} {q : List BridgeEvent → Prop} :
    (∃ before since, events ++ [e] = before ++ first :: since ∧ q before ∧
        ∀ e ∈ since, p e = false) ↔
      e = first ∧ q events ∨
        (∃ before since, events = before ++ first :: since ∧ q before ∧ ∀ e ∈ since, p e = false) ∧
          p e = false := by
  constructor
  · rintro ⟨before, since, hevents, hbefore, hsince⟩
    rcases List.eq_nil_or_concat since with rfl | ⟨since, last, rfl⟩
    · obtain ⟨rfl, hlast⟩ := List.append_inj' hevents rfl
      exact .inl ⟨List.singleton_inj.mp hlast, hbefore⟩
    · rw [List.concat_eq_append, ← List.cons_append, ← List.append_assoc] at hevents
      obtain ⟨rfl, hlast⟩ := List.append_inj' hevents rfl
      cases hlast
      simp only [List.concat_eq_append, List.mem_append, List.mem_singleton] at hsince
      exact .inr ⟨⟨before, since, rfl, hbefore, fun e he => hsince e (.inl he)⟩,
        hsince _ (.inr rfl)⟩
  · rintro (⟨rfl, hbefore⟩ | ⟨⟨before, since, rfl, hbefore, hsince⟩, he⟩)
    · exact ⟨events, [], rfl, hbefore, nofun⟩
    · refine ⟨before, since ++ [e], by simp, hbefore, fun other hmem => ?_⟩
      rcases List.mem_append.mp hmem with hearlier | hnow
      · exact hsince other hearlier
      · rw [List.mem_singleton.mp hnow]
        exact he

theorem isSince_concat : IsSince (events ++ [e]) id p ↔
    e = .registered id ∨ IsSince events id p ∧ p e = false := by
  simpa [IsSince] using exists_split_concat (q := fun _ => True)

theorem isPendingAfter_concat : IsPendingAfter (events ++ [e]) id ↔
    e = .registered id ∨ IsPendingAfter events id ∧ e.settles id = false :=
  isSince_concat

theorem isHeldAfter_concat : IsHeldAfter (events ++ [e]) id ↔
    e = .registered id ∨ IsHeldAfter events id ∧ e.releases id = false :=
  isSince_concat

theorem IsGiven.concat (h : IsGiven events id answer) (e : BridgeEvent) :
    IsGiven (events ++ [e]) id answer := by
  obtain ⟨before, settler, since, rfl, hgiven⟩ := h
  exact ⟨before, settler, since ++ [e], by simp, hgiven⟩

/-! ## The bridge agrees with what happened -/

/-- What is known of a request is what happened says. -/
structure Follows (events : List BridgeEvent) (id : String) (x? : Option Exchange) : Prop where
  registered : x? = none ↔ .registered id ∉ events
  pending : x?.any (·.pending) ↔ IsPendingAfter events id
  held : x?.any (·.held) ↔ IsHeldAfter events id
  sound : ∀ x, x? = some x → x.IsSound
  given : ∀ x answer, x? = some x → x.answer = some answer → IsGiven events id answer

theorem Follows.step {x? y? : Option Exchange} (h : Follows events id x?)
    (hconcern : Concern id x? e y?) : Follows (events ++ [e]) id y? where
  registered := by
    rw [hconcern.eq_none_iff, h.registered, List.mem_append, List.mem_singleton, not_or, eq_comm]
  pending := by rw [hconcern.pending_iff h.sound, h.pending, isPendingAfter_concat]
  held := by rw [hconcern.held_iff, h.held, isHeldAfter_concat]
  sound := hconcern.sound h.sound
  given y answer hy hanswer := by
    subst hy
    rcases hconcern.answered hanswer with ⟨x, hx, hx'⟩ | ⟨hpending, hheld, hnow⟩
    · exact (h.given x answer hx hx').concat e
    · exact ⟨events, e, [], rfl, h.pending.mp hpending, h.held.mp hheld, hnow⟩

theorem Runs.follows (h : Runs events b) (id : String) : Follows events id (b.exchange? id) := by
  induction h with
  | initial =>
    exact ⟨by simp [exchange?], by simp [exchange?, IsPendingAfter, not_isSince_nil],
      by simp [exchange?, IsHeldAfter, not_isSince_nil], nofun, nofun⟩
  | happens _ hnext ih => exact ih.step (hnext.concern id)

/-! ## What has become of the request -/

/-- What has been told of a request: the peer whose wait is over and the backend whose response got
through were told the same. -/
structure Told (events : List BridgeEvent) (id : String) (x? : Option Exchange) : Prop where
  finished : ∀ e ∈ events, ∀ answer, e.ended? id = some answer →
    ∃ x, x? = some x ∧ x.pending = false ∧ x.held = false
  through : ∀ response, .resolved response true ∈ events → response.id = id →
    (∃ x, x? = some x ∧ x.pending = false ∧ (x.held = true → x.answer = some response)) ∧
      ∀ e ∈ events, ∀ answer, e.ended? id = some answer → answer = response
  once : events.countP (getsThrough id) ≤ 1

namespace Told

variable {x? y? : Option Exchange}

theorem finished_step (h : Told events id x?) (hconcern : Concern id x? e y?)
    (hsound : ∀ x, x? = some x → x.IsSound) :
    ∀ e' ∈ events ++ [e], ∀ answer, e'.ended? id = some answer →
      ∃ y, y? = some y ∧ y.pending = false ∧ y.held = false := by
  intro e' hmem answer hended
  rcases List.mem_append.mp hmem with hbefore | hnow
  · obtain ⟨x, rfl, hsettled, hgone⟩ := h.finished e' hbefore answer hended
    obtain ⟨y, rfl, hy, hheld⟩ := hconcern.stays hsettled
    refine ⟨y, rfl, hy, Bool.eq_false_iff.mpr fun hyheld => ?_⟩
    rw [(hheld hyheld).1] at hgone
    cases hgone
  · rw [List.mem_singleton.mp hnow] at hended
    exact (hconcern.finished hended hsound).2

theorem through_step (h : Told events id x?) (hconcern : Concern id x? e y?)
    (hsound : ∀ x, x? = some x → x.IsSound) (response : ApiResponse)
    (hmem : .resolved response true ∈ events ++ [e]) (hid : response.id = id) :
    (∃ y, y? = some y ∧ y.pending = false ∧ (y.held = true → y.answer = some response)) ∧
      ∀ e' ∈ events ++ [e], ∀ answer, e'.ended? id = some answer → answer = response := by
  rcases List.mem_append.mp hmem with hbefore | hnow
  · -- The response got through before, and its answer waits or the wait is over.
    obtain ⟨⟨x, rfl, hsettled, hanswer⟩, hended⟩ := h.through response hbefore hid
    obtain ⟨y, rfl, hy, hstays⟩ := hconcern.stays hsettled
    refine ⟨⟨y, rfl, hy, fun hyheld => ?_⟩, fun e' hmem' answer hended' => ?_⟩
    · obtain ⟨hheld, heq⟩ := hstays hyheld
      rw [heq, hanswer hheld]
    · rcases List.mem_append.mp hmem' with hbefore' | hnow'
      · exact hended e' hbefore' answer hended'
      · rw [List.mem_singleton.mp hnow'] at hended'
        obtain ⟨⟨x, hx, hheld, hways⟩, -⟩ := hconcern.finished hended' hsound
        cases hx
        rcases hways with ⟨-, htaken⟩ | ⟨hpending, -⟩
        · rw [hanswer hheld] at htaken
          exact (Option.some.inj htaken).symm
        · simp [hpending] at hsettled
  · -- The response gets through now, so that nobody has been answered before.
    cases List.mem_singleton.mp hnow
    obtain ⟨hiff, hafter⟩ := hconcern.through hid
    obtain ⟨y, rfl, hy, hanswer⟩ := hafter rfl
    refine ⟨⟨y, rfl, hy, fun _ => hanswer⟩, fun e' hmem' answer hended' => ?_⟩
    rcases List.mem_append.mp hmem' with hbefore' | hnow'
    · obtain ⟨x, rfl, hsettled, -⟩ := h.finished e' hbefore' answer hended'
      have hpending := (hiff.mp rfl).1
      simp [hsettled] at hpending
    · cases List.mem_singleton.mp hnow'
      cases hended'

theorem once_step (h : Told events id x?) (hconcern : Concern id x? e y?) :
    (events ++ [e]).countP (getsThrough id) ≤ 1 := by
  rw [List.countP_append, List.countP_singleton]
  split
  · next hthrough =>
    obtain ⟨response, rfl, hid⟩ := getsThrough_iff.mp hthrough
    have hpending := ((hconcern.through hid).1.mp rfl).1
    have hnone : events.countP (getsThrough id) = 0 := by
      refine List.countP_eq_zero.mpr fun other hmem hother => ?_
      obtain ⟨earlier, rfl, hid⟩ := getsThrough_iff.mp hother
      obtain ⟨⟨x, rfl, hsettled, -⟩, -⟩ := h.through earlier hmem hid
      simp [hsettled] at hpending
    rw [hnone]
  · exact h.once

end Told

theorem Runs.told (h : Runs events b) (id : String) : Told events id (b.exchange? id) := by
  induction h with
  | initial => exact ⟨nofun, nofun, Nat.zero_le _⟩
  | happens h hnext ih =>
    have hconcern := hnext.concern id
    have hsound := (h.follows id).sound
    exact ⟨ih.finished_step hconcern hsound, ih.through_step hconcern hsound, ih.once_step hconcern⟩

/-! ## What was settled stays so -/

/-- Nobody registers a request twice. -/
theorem Runs.notMem_of_registered (h : Runs (events ++ [.registered id]) b) :
    .registered id ∉ events := by
  obtain ⟨b₁, b₂, hruns, hnext⟩ := h.split rfl
  cases hnext with
  | register _ hfresh => exact (hruns.follows id).registered.mp hfresh

/-- What settles a pending request settles it for good. -/
theorem Runs.not_isPendingAfter (h : Runs (before ++ e :: rest) b)
    (hpending : IsPendingAfter before id) (hsettles : e.settles id = true) :
    ¬ IsPendingAfter (before ++ e :: rest) id := by
  induction rest using List.reverseRecOn generalizing b with
  | nil =>
    rw [isPendingAfter_concat]
    rintro (rfl | ⟨-, hnot⟩)
    · cases hsettles
    · simp [hsettles] at hnot
  | append_singleton rest last ih =>
    rw [← List.cons_append, ← List.append_assoc] at h ⊢
    obtain ⟨b₁, b₂, hruns, -⟩ := h.split rfl
    rw [isPendingAfter_concat]
    rintro (rfl | ⟨hbefore, -⟩)
    · obtain ⟨earlier, since, rfl, -⟩ := hpending
      exact h.notMem_of_registered (by simp)
    · exact ih hruns hbefore

/-! ## The law -/

/-- What holds of a request, whatever happens to it and to others, and in which order. -/
structure IsSettledOnce (events : List BridgeEvent) (b : ApiBridge) (id : String) : Prop where
  pending : b.isPending id ↔ IsPendingAfter events id
  held : b.isHeld id ↔ IsHeldAfter events id
  -- A response gets through exactly if the request is pending and its receiver exists.
  through : ∀ before response isThrough rest,
    events = before ++ .resolved response isThrough :: rest → response.id = id →
      (isThrough = true ↔ IsPendingAfter before id ∧ IsHeldAfter before id)
  once : events.countP (getsThrough id) ≤ 1
  -- If one got through, the wait ends with it, also at the deadline.
  answered : ∀ response, .resolved response true ∈ events → response.id = id →
    ∀ e ∈ events, ∀ answer, e.ended? id = some answer → answer = response
  -- The wait ends with what came while somebody waited; or else at the deadline, if the request is
  -- pending then, and no response ever gets through.
  ended : ∀ before e rest answer, events = before ++ e :: rest → e.ended? id = some answer →
    IsGiven before id answer ∨
      e = .expired id (timedOut id) ∧ answer = timedOut id ∧ IsPendingAfter before id ∧
        events.countP (getsThrough id) = 0
  -- Whatever settles the request, every response after that is refused.
  refused : ∀ before e between response isThrough rest,
    events = before ++ e :: (between ++ .resolved response isThrough :: rest) → response.id = id →
      IsPendingAfter before id → e.settles id = true → isThrough = false
  finished : ∀ e ∈ events, ∀ answer, e.ended? id = some answer →
    b.isPending id = false ∧ b.isHeld id = false
  -- A step that neither registers nor settles nor releases the request leaves it as it is.
  aside : ∀ e b', b.Happens e b' → e ≠ .registered id → e.releases id = false →
    (e.settles id = true → b.isPending id = false) → b'.exchange? id = b.exchange? id

/-- Whatever comes after the request was settled is refused. -/
theorem Runs.refused {between : List BridgeEvent} {response : ApiResponse} {isThrough : Bool}
    (h : Runs (before ++ e :: (between ++ .resolved response isThrough :: rest)) b)
    (hid : response.id = id) (hpending : IsPendingAfter before id)
    (hsettles : e.settles id = true) : isThrough = false := by
  rw [← List.cons_append, ← List.append_assoc] at h
  obtain ⟨b₁, b₂, hruns, hnext⟩ := h.split rfl
  refine Bool.eq_false_iff.mpr fun hthrough => hruns.not_isPendingAfter hpending hsettles ?_
  exact (hruns.follows id).pending.mp (((hnext.concern id).through hid).1.mp hthrough).1

/-- A wait ends with what came while somebody waited, or at a deadline that finds the request
pending; then no response gets through, earlier or later. -/
theorem Runs.ended (h : Runs (before ++ e :: rest) b) (hended : e.ended? id = some answer) :
    IsGiven before id answer ∨
      e = .expired id (timedOut id) ∧ answer = timedOut id ∧ IsPendingAfter before id ∧
        (before ++ e :: rest).countP (getsThrough id) = 0 := by
  obtain ⟨b₁, b₂, hruns, hnext⟩ := h.split rfl
  have hfollows := hruns.follows id
  obtain ⟨⟨x, hx, -, hways⟩, -⟩ := (hnext.concern id).finished hended hfollows.sound
  rcases hways with ⟨-, hanswer⟩ | ⟨hpending, he, hanswer⟩
  · exact .inl (hfollows.given x answer hx hanswer)
  · have hpendingAfter : IsPendingAfter before id := by
      rw [← hfollows.pending, hx]
      exact hpending
    refine .inr ⟨he, hanswer, hpendingAfter, List.countP_eq_zero.mpr fun other hmem hother => ?_⟩
    obtain ⟨response, rfl, hid⟩ := getsThrough_iff.mp hother
    rcases List.mem_append.mp hmem with hearlier | hlater
    · obtain ⟨⟨y, hy, hsettled, -⟩, -⟩ := (hruns.told id).through response hearlier hid
      cases hx.symm.trans hy
      simp [hpending] at hsettled
    · rcases List.mem_cons.mp hlater with heq | hlater
      · rw [← heq] at hended
        cases hended
      · obtain ⟨between, after, rfl⟩ := List.append_of_mem hlater
        cases h.refused hid hpendingAfter (settles_of_ended? hended)

/-- Every request is settled once, for any steps in any order. -/
theorem Runs.isSettledOnce (h : Runs events b) (id : String) : IsSettledOnce events b id where
  pending := (h.follows id).pending
  held := (h.follows id).held
  through before response isThrough rest hevents hid := by
    obtain ⟨b₁, b₂, hruns, hnext⟩ := h.split hevents
    rw [← (hruns.follows id).pending, ← (hruns.follows id).held]
    exact ((hnext.concern id).through hid).1
  once := (h.told id).once
  answered response hmem hid := ((h.told id).through response hmem hid).2
  ended before e rest answer hevents hended := by
    subst hevents
    exact h.ended hended
  refused before e between response isThrough rest hevents hid := by
    subst hevents
    exact h.refused hid
  finished e hmem answer hended := by
    obtain ⟨x, hx, hsettled, hgone⟩ := (h.told id).finished e hmem answer hended
    rw [isPending, isHeld, hx]
    exact ⟨hsettled, hgone⟩
  aside e b' hnext := (hnext.concern id).eq_self

/-- The response to the first of three requests gets through and is the answer at the deadline, the
peer of the second hangs up before the response comes, and the third is failed. -/
theorem exists_settled_requests :
    ∃ events b, Runs events b ∧ (∀ id, IsSettledOnce events b id) ∧
      .expired "a" { id := "a", status := 200 } ∈ events ∧
      .resolved { id := "b", status := 200 } false ∈ events ∧
      .received "c" (.failure "c" 503 "closing") ∈ events := by
  let events : List BridgeEvent := [.registered "a", .registered "b", .registered "c",
    .resolved { id := "a", status := 200 } true, .hungUp "b",
    .resolved { id := "b", status := 200 } false, .expired "a" { id := "a", status := 200 },
    .failedAll 503 "closing", .received "c" (.failure "c" 503 "closing")]
  let answered : Exchange := { pending := false, answer := some { id := "a", status := 200 } }
  let failed : Exchange := { pending := false, answer := some (.failure "c" 503 "closing") }
  let gone : Exchange := { pending := false, held := false }
  have hregistered : Runs _ { exchanges := [("a", {}), ("b", {}), ("c", {})] } :=
    ((Runs.initial.happens (.register "a" rfl)).happens (.register "b" rfl)).happens
      (.register "c" rfl)
  have hresolved : Runs _ { exchanges := [("a", answered), ("b", {}), ("c", {})] } :=
    hregistered.happens (.resolve { id := "a", status := 200 })
  have hhungUp : Runs _ { exchanges := [("a", answered), ("b", { held := false }), ("c", {})] } :=
    hresolved.happens (.hangUp "b" rfl)
  have hrefused : Runs _ { exchanges := [("a", answered), ("b", gone), ("c", {})] } :=
    hhungUp.happens (.resolve { id := "b", status := 200 })
  have hexpired : Runs _ { exchanges := [("a", gone), ("b", gone), ("c", {})] } :=
    hrefused.happens (.expire "a" rfl)
  have hfailed : Runs _ { exchanges := [("a", gone), ("b", gone), ("c", failed)] } :=
    hexpired.happens (.failAll 503 "closing")
  have hruns : Runs events { exchanges := [("a", gone), ("b", gone), ("c", gone)] } :=
    hfailed.happens (.receive "c" rfl)
  exact ⟨events, _, hruns, hruns.isSettledOnce, by simp [events]⟩

end ApiBridge

end LiveDoc

import LiveDoc.Api.Bridge
import LiveDoc.Proofs.SortedMap

/-!
# LiveDoc — what may happen to a held HTTP request

Requests are registered under fresh ids. From then on the backend may respond at any time and as
often as it likes, all requests may be failed, and whoever waits for an answer may receive it, reach
its deadline, or be gone when the peer hangs up. These may come in any order, each as one step.

Of all that may happen, one request is concerned by little, and in few ways, which do not depend on
the other requests.

* `ApiBridge.Happens`, `ApiBridge.Runs` — what may happen, and in which order.
* `ApiBridge.Concern` — the ways in which one step concerns one request.
* `ApiBridge.Happens.concern` — every step concerns every request in one of these ways.
-/

namespace LiveDoc

/-- What happens at a bridge, as those see it whom it serves. -/
inductive BridgeEvent where
  | registered (id : String)
  -- The backend responded, and the response got through or it did not.
  | resolved (response : ApiResponse) (isThrough : Bool)
  | failedAll (status : UInt16) (error : String)
  -- The receiver of the answer was dropped.
  | hungUp (id : String)
  -- A wait is over, since the answer was there or since its deadline has passed.
  | received (id : String) (answer : ApiResponse)
  | expired (id : String) (answer : ApiResponse)
  deriving DecidableEq

namespace BridgeEvent

/-- The answer that an event has for a request that is pending. -/
def answer? (id : String) : BridgeEvent → Option ApiResponse
  | .resolved response _ => if response.id = id then some response else none
  | .failedAll status error => some (.failure id status error)
  | _ => none

/-- The answer with which a wait is over. -/
def ended? (id : String) : BridgeEvent → Option ApiResponse
  | .received other answer | .expired other answer => if other = id then some answer else none
  | _ => none

/-- A response for the request got through. -/
def getsThrough (id : String) : BridgeEvent → Bool
  | .resolved response isThrough => response.id = id && isThrough
  | _ => false

/-- Nobody waits for the answer of the request any more. -/
def releases (id : String) : BridgeEvent → Bool
  | .hungUp other => other = id
  | e => (e.ended? id).isSome

/-- The request is not pending any more. -/
def settles (id : String) (e : BridgeEvent) : Bool := (e.answer? id).isSome || (e.ended? id).isSome

variable {e : BridgeEvent} {id : String} {answer : ApiResponse}

theorem releases_of_answer? (h : e.answer? id = some answer) : e.releases id = false := by
  cases e <;> simp_all [answer?, releases, ended?]

theorem settles_of_answer? (h : e.answer? id = some answer) : e.settles id = true := by
  simp [settles, h]

theorem ended?_of_not_releases (h : e.releases id = false) : e.ended? id = none := by
  cases e <;> simp_all [releases, ended?]

theorem releases_of_ended? (h : e.ended? id = some answer) : e.releases id = true := by
  by_contra hreleases
  rw [ended?_of_not_releases (Bool.eq_false_iff.mpr hreleases)] at h
  cases h

/-- No exchange is pending behind the end of its wait. -/
theorem settles_of_ended? (h : e.ended? id = some answer) : e.settles id = true := by
  simp [settles, h]

theorem ended?_of_finished (h : e = .received id answer ∨ e = .expired id answer) :
    e.ended? id = some answer := by
  rcases h with rfl | rfl <;> simp [ended?]

theorem getsThrough_iff : e.getsThrough id = true ↔
    ∃ response, e = .resolved response true ∧ response.id = id := by
  cases e <;> simp [getsThrough, and_comm]

end BridgeEvent

/-- An answer is there exactly if the request is settled and somebody waits for it. -/
def Exchange.IsSound (x : Exchange) : Prop := x.answer.isSome ↔ x.pending = false ∧ x.held = true

namespace ApiBridge

/-- What may happen at a bridge. -/
inductive Happens (b : ApiBridge) : BridgeEvent → ApiBridge → Prop where
  | register (id : String) (hfresh : b.exchange? id = none) :
    b.Happens (.registered id) (b.register id)
  | resolve (response : ApiResponse) :
    b.Happens (.resolved response (b.resolve response).1) (b.resolve response).2
  | failAll (status : UInt16) (error : String) :
    b.Happens (.failedAll status error) (b.failAll status error)
  | hangUp (id : String) (hheld : b.isHeld id) : b.Happens (.hungUp id) (b.abandon id).2
  | receive (id : String) {answer : ApiResponse} {b' : ApiBridge}
    (htaken : b.take id = some (answer, b')) : b.Happens (.received id answer) b'
  | expire (id : String) (hheld : b.isHeld id) :
    b.Happens (.expired id (b.expire id).1) (b.expire id).2

/-- What happened, in this order, since the bridge was empty. -/
inductive Runs : List BridgeEvent → ApiBridge → Prop where
  | initial : Runs [] {}
  | happens {events : List BridgeEvent} {b b' : ApiBridge} {e : BridgeEvent} (h : Runs events b)
    (hnext : b.Happens e b') : Runs (events ++ [e]) b'

variable {b b' : ApiBridge} {e : BridgeEvent} {events before rest : List BridgeEvent} {id : String}

/-- Where an event stands among others, it happened at a bridge that the events before it led to. -/
theorem Runs.split (h : Runs events b) (hevents : events = before ++ e :: rest) :
    ∃ b₁ b₂, Runs before b₁ ∧ b₁.Happens e b₂ := by
  induction h generalizing rest with
  | initial => simp at hevents
  | @happens events b b' last h hnext ih =>
    rcases List.eq_nil_or_concat rest with rfl | ⟨rest, other, rfl⟩
    · obtain ⟨rfl, hlast⟩ := List.append_inj' hevents rfl
      cases hlast
      exact ⟨b, b', h, hnext⟩
    · rw [List.concat_eq_append, ← List.cons_append, ← List.append_assoc] at hevents
      exact ih (List.append_inj' hevents rfl).1

/-! ## One request -/

/-- The ways in which an event concerns one request: from what was known of it to what is known
then. -/
inductive Concern (id : String) : Option Exchange → BridgeEvent → Option Exchange → Prop where
  | registered : Concern id none (.registered id) (some {})
  | settled {x : Exchange} {e : BridgeEvent} {answer : ApiResponse} (hpending : x.pending)
    (hanswer : e.answer? id = some answer)
    (hthrough : ∀ response isThrough, e = .resolved response isThrough → isThrough = x.held) :
    Concern id (some x) e (some (x.settle answer))
  | hungUp {x : Exchange} (hheld : x.held) :
    Concern id (some x) (.hungUp id) (some { x with held := false, answer := none })
  | taken {x : Exchange} {e : BridgeEvent} {answer : ApiResponse} (hheld : x.held)
    (hanswer : x.answer = some answer) (hended : e = .received id answer ∨ e = .expired id answer) :
    Concern id (some x) e (some { x with held := false, answer := none })
  | expired {x : Exchange} (hheld : x.held) (hanswer : x.answer = none) :
    Concern id (some x) (.expired id (timedOut id)) (some { pending := false, held := false })
  -- Nothing about the request changes.
  | aside {x? : Option Exchange} {e : BridgeEvent} (hregister : e ≠ .registered id)
    (hanswer : (e.answer? id).isSome → x?.any (·.pending) = false)
    (hthrough : e.getsThrough id = false) (hreleases : e.releases id = false) : Concern id x? e x?

theorem exchange?_of_set {id : String} {x : Exchange} :
    ({ b with exchanges := KeyMap.set b.exchanges id x } : ApiBridge).exchange? id = some x :=
  KeyMap.get?_set_self _ _ _

theorem exchange?_of_set_of_ne {other : String} {x : Exchange} (h : other ≠ id) :
    ({ b with exchanges := KeyMap.set b.exchanges other x } : ApiBridge).exchange? id =
      b.exchange? id :=
  KeyMap.get?_set_of_ne _ _ h

/-- A fresh id comes to its own exchange, and leaves all others. -/
theorem concern_register (hfresh : b.exchange? id = none) (other : String) :
    Concern other (b.exchange? other) (.registered id) ((b.register id).exchange? other) := by
  by_cases hid : id = other
  · subst hid
    rw [hfresh, register, exchange?_of_set]
    exact .registered
  · rw [register, exchange?_of_set_of_ne hid]
    exact .aside (by simpa using hid) (by simp [BridgeEvent.answer?]) rfl rfl

/-- A response reaches at most the exchange with its id. -/
theorem concern_resolve (response : ApiResponse) (id : String) :
    Concern id (b.exchange? id) (.resolved response (b.resolve response).1)
      ((b.resolve response).2.exchange? id) := by
  have haside (isThrough : Bool)
      (h : response.id = id → isThrough = false ∧ (b.exchange? id).any (·.pending) = false) :
      Concern id (b.exchange? id) (.resolved response isThrough) (b.exchange? id) := by
    refine .aside nofun (fun hanswer => (h ?_).2) ?_ rfl
    · by_contra hid
      simp [BridgeEvent.answer?, hid] at hanswer
    · by_cases hid : response.id = id
      · simp [BridgeEvent.getsThrough, (h hid).1]
      · simp [BridgeEvent.getsThrough, hid]
  unfold resolve
  split
  · next x hx =>
    split
    · next hpending =>
      by_cases hid : response.id = id
      · subst hid
        simp only
        rw [hx, exchange?_of_set]
        refine .settled hpending (if_pos rfl) fun other isThrough heq => ?_
        cases heq
        rfl
      · simp only
        rw [exchange?_of_set_of_ne hid]
        exact haside _ fun h => absurd h hid
    · next hsettled =>
      exact haside _ fun hid => ⟨rfl, by rw [← hid, hx]; exact Bool.eq_false_iff.mpr hsettled⟩
  · next hnone => exact haside _ fun hid => ⟨rfl, by rw [← hid, hnone]; rfl⟩

/-- A failure of all reaches exactly the exchanges that are pending. -/
theorem exchange?_failAll (status : UInt16) (error : String) (id : String) :
    (b.failAll status error).exchange? id = (b.exchange? id).map fun x =>
      if x.pending then x.settle (.failure id status error) else x :=
  KeyMap.get?_mapEntries (fun (id : String) (x : Exchange) =>
    if x.pending then x.settle (.failure id status error) else x) b.exchanges id

/-- Each exchange that is pending gets an answer of its own when all of them fail. -/
theorem concern_failAll (status : UInt16) (error : String) (id : String) :
    Concern id (b.exchange? id) (.failedAll status error)
      ((b.failAll status error).exchange? id) := by
  rw [exchange?_failAll]
  cases hx : b.exchange? id with
  | none => exact .aside nofun (fun _ => rfl) rfl rfl
  | some x =>
    cases hpending : x.pending with
    | true =>
      rw [Option.map_some, if_pos hpending]
      exact .settled hpending rfl nofun
    | false =>
      rw [Option.map_some, if_neg (by simp [hpending])]
      exact .aside nofun (fun _ => hpending) rfl rfl

theorem exists_of_isHeld (h : b.isHeld id) : ∃ x, b.exchange? id = some x ∧ x.held := by
  rw [isHeld, Option.any_eq_true] at h
  exact h

/-- A wait that is given up lets go of its exchange and keeps its entry. -/
theorem abandon_eq {x : Exchange} (h : b.exchange? id = some x) :
    (b.abandon id).2 =
      { b with
        exchanges := KeyMap.set b.exchanges id { x with held := false, answer := none } } := by
  rw [abandon, h]

/-- A wait takes an answer that is there, and the exchange is let go. -/
theorem take_eq_some {answer : ApiResponse} (h : b.take id = some (answer, b')) :
    ∃ x, b.exchange? id = some x ∧ x.held ∧ x.answer = some answer ∧
      b' = { b with
        exchanges := KeyMap.set b.exchanges id { x with held := false, answer := none } } := by
  unfold take at h
  obtain ⟨x, hx, h⟩ := Option.bind_eq_some_iff.mp h
  split at h
  · next hheld =>
    obtain ⟨other, hanswer, h⟩ := Option.bind_eq_some_iff.mp h
    cases h
    exact ⟨x, hx, hheld, hanswer, abandon_eq hx⟩
  · cases h

/-- Whoever waits finds an answer, or does not and settles the request. -/
theorem expire_cases (h : b.isHeld id) :
    (∃ answer b₁, b.take id = some (answer, b₁) ∧ b.expire id = (answer, b₁)) ∨
      ∃ x, b.exchange? id = some x ∧ x.held ∧ x.answer = none ∧
        b.expire id = (timedOut id, { b with
          exchanges := KeyMap.set b.exchanges id { pending := false, held := false } }) := by
  obtain ⟨x, hx, hheld⟩ := exists_of_isHeld h
  cases htake : b.take id with
  | some taken => exact .inl ⟨taken.1, taken.2, rfl, by rw [expire, htake]⟩
  | none =>
    refine .inr ⟨x, hx, hheld, ?_, by rw [expire, htake, hx]⟩
    cases hanswer : x.answer with
    | none => rfl
    | some answer => simp [take, hx, hheld, hanswer] at htake

/-- Every step concerns every request in one of few ways. -/
theorem Happens.concern (h : b.Happens e b') (id : String) :
    Concern id (b.exchange? id) e (b'.exchange? id) := by
  -- Who waits for another request has no part in this one.
  have haside {other : String} {x : Exchange} (hid : other ≠ id) {e : BridgeEvent}
      (he : e = .hungUp other ∨ ∃ answer, e = .received other answer ∨ e = .expired other answer) :
      Concern id (b.exchange? id) e
        (({ b with exchanges := KeyMap.set b.exchanges other x } : ApiBridge).exchange? id) := by
    rw [exchange?_of_set_of_ne hid]
    rcases he with rfl | ⟨answer, rfl | rfl⟩ <;>
      exact .aside nofun nofun rfl (by simp [BridgeEvent.releases, BridgeEvent.ended?, hid])
  cases h with
  | register other hfresh => exact concern_register hfresh id
  | resolve response => exact concern_resolve response id
  | failAll status error => exact concern_failAll status error id
  | hangUp other hheld =>
    obtain ⟨x, hx, hheld⟩ := exists_of_isHeld hheld
    rw [abandon_eq hx]
    by_cases hid : other = id
    · subst hid
      rw [hx, exchange?_of_set]
      exact .hungUp hheld
    · exact haside hid (.inl rfl)
  | @receive other answer _ htaken =>
    obtain ⟨x, hx, hheld, hanswer, rfl⟩ := take_eq_some htaken
    by_cases hid : other = id
    · subst hid
      rw [hx, exchange?_of_set]
      exact .taken hheld hanswer (.inl rfl)
    · exact haside hid (.inr ⟨answer, .inl rfl⟩)
  | expire other hheld =>
    rcases expire_cases hheld with ⟨answer, b₁, htaken, hexpire⟩ | ⟨x, hx, hheld, hanswer, hexpire⟩
    · obtain ⟨x, hx, hheld, hanswer, rfl⟩ := take_eq_some htaken
      rw [hexpire]
      by_cases hid : other = id
      · subst hid
        rw [hx, exchange?_of_set]
        exact .taken hheld hanswer (.inr rfl)
      · exact haside hid (.inr ⟨answer, .inr rfl⟩)
    · rw [hexpire]
      by_cases hid : other = id
      · subst hid
        rw [hx, exchange?_of_set]
        exact .expired hheld hanswer
      · exact haside hid (.inr ⟨_, .inr rfl⟩)

/-! ## What becomes of one request -/

namespace Concern

variable {x? y? : Option Exchange}

/-- No event makes an exchange forgotten. -/
theorem eq_none_iff (h : Concern id x? e y?) : y? = none ↔ x? = none ∧ e ≠ .registered id := by
  cases h with
  | aside hregister => simp [hregister]
  | _ => simp

/-- A wait is held from its registration until something lets go of it. -/
theorem held_iff (h : Concern id x? e y?) :
    y?.any (·.held) ↔ e = .registered id ∨ x?.any (·.held) ∧ e.releases id = false := by
  cases h with
  | registered => simp
  | settled _ hanswer =>
    have hne : e ≠ .registered id := by rintro rfl; cases hanswer
    simp [Exchange.settle, BridgeEvent.releases_of_answer? hanswer, hne]
  | hungUp => simp [BridgeEvent.releases]
  | taken hheld hanswer hended =>
    have hended := BridgeEvent.ended?_of_finished hended
    have hne : e ≠ .registered id := by rintro rfl; cases hended
    simp [BridgeEvent.releases_of_ended? hended, hne]
  | expired => simp [BridgeEvent.releases, BridgeEvent.ended?]
  | aside hregister _ _ hreleases => simp [hregister, hreleases]

theorem sound (h : Concern id x? e y?) (hsound : ∀ x, x? = some x → x.IsSound) :
    ∀ y, y? = some y → y.IsSound := by
  rintro y rfl
  cases h with
  | @settled x =>
    cases hheld : x.held <;> simp [Exchange.IsSound, Exchange.settle, hheld]
  | aside => exact hsound y rfl
  | _ => simp [Exchange.IsSound]

/-- An exchange is pending from its registration until something settles it. -/
theorem pending_iff (h : Concern id x? e y?) (hsound : ∀ x, x? = some x → x.IsSound) :
    y?.any (·.pending) ↔ e = .registered id ∨ x?.any (·.pending) ∧ e.settles id = false := by
  cases h with
  | registered => simp
  | settled _ hanswer =>
    have hne : e ≠ .registered id := by rintro rfl; cases hanswer
    simp [Exchange.settle, BridgeEvent.settles_of_answer? hanswer, hne]
  | hungUp => simp [BridgeEvent.settles, BridgeEvent.answer?, BridgeEvent.ended?]
  | @taken x _ answer hheld hanswer hended =>
    have hended := BridgeEvent.ended?_of_finished hended
    have hne : e ≠ .registered id := by rintro rfl; cases hended
    -- There is no answer to take unless the request is settled.
    have hsettled : x.pending = false := ((hsound x rfl).mp (by simp [hanswer])).1
    simp [hsettled, BridgeEvent.settles_of_ended? hended, hne]
  | expired => simp [BridgeEvent.settles, BridgeEvent.ended?]
  | aside hregister hanswer _ hreleases =>
    cases hsettler : e.answer? id with
    | none =>
      simp [hregister, BridgeEvent.settles, hsettler, BridgeEvent.ended?_of_not_releases hreleases]
    | some answer => simp [hregister, hanswer (by simp [hsettler])]

/-- An answer that is there was there before, or came now while somebody waited for it. -/
theorem answered {y : Exchange} {answer : ApiResponse} (h : Concern id x? e (some y))
    (hanswer : y.answer = some answer) :
    (∃ x, x? = some x ∧ x.answer = some answer) ∨
      x?.any (·.pending) ∧ x?.any (·.held) ∧ e.answer? id = some answer := by
  cases h with
  | @settled x _ other hpending hother =>
    cases hheld : x.held with
    | true =>
      have heq : other = answer := by simpa [Exchange.settle, hheld] using hanswer
      exact .inr ⟨by simpa using hpending, by simpa using hheld, heq ▸ hother⟩
    | false => simp [Exchange.settle, hheld] at hanswer
  | aside => exact .inl ⟨y, rfl, hanswer⟩
  | _ => cases hanswer

/-- A response gets through exactly if the request is pending and somebody waits; then it is the
answer that is there. -/
theorem through {response : ApiResponse} {isThrough : Bool}
    (h : Concern id x? (.resolved response isThrough) y?) (hid : response.id = id) :
    (isThrough = true ↔ x?.any (·.pending) ∧ x?.any (·.held)) ∧
      (isThrough = true → ∃ y, y? = some y ∧ y.pending = false ∧ y.answer = some response) := by
  have hself : (BridgeEvent.resolved response isThrough).answer? id = some response := if_pos hid
  cases h with
  | @settled x _ answer hpending hanswer hthrough =>
    have heq := hthrough response isThrough rfl
    cases hself.symm.trans hanswer
    exact ⟨by simp [heq, hpending], fun h => ⟨_, rfl, rfl, by simp [Exchange.settle, ← heq, h]⟩⟩
  | taken _ _ hended => rcases hended with h | h <;> cases h
  | aside _ hanswer hthrough =>
    have hrefused : isThrough = false := by simpa [BridgeEvent.getsThrough, hid] using hthrough
    simp [hrefused, hanswer (by simp [hself])]

/-- A wait is over when the answer is there, or when the deadline finds the request pending. -/
theorem finished {answer : ApiResponse} (h : Concern id x? e y?)
    (hended : e.ended? id = some answer) (hsound : ∀ x, x? = some x → x.IsSound) :
    (∃ x, x? = some x ∧ x.held = true ∧ (x.pending = false ∧ x.answer = some answer ∨
        x.pending = true ∧ e = .expired id (timedOut id) ∧ answer = timedOut id)) ∧
      ∃ y, y? = some y ∧ y.pending = false ∧ y.held = false := by
  cases h with
  | registered => cases hended
  | settled _ hanswer =>
    rw [BridgeEvent.ended?_of_not_releases (BridgeEvent.releases_of_answer? hanswer)] at hended
    cases hended
  | hungUp => cases hended
  | @taken x _ other hheld hanswer hother =>
    have hsettled := ((hsound x rfl).mp (by simp [hanswer])).1
    rw [BridgeEvent.ended?_of_finished hother] at hended
    cases hended
    exact ⟨⟨x, rfl, hheld, .inl ⟨hsettled, hanswer⟩⟩, _, rfl, hsettled, rfl⟩
  | @expired x hheld hanswer =>
    have hpending : x.pending = true := by
      by_contra hsettled
      have hthere := (hsound x rfl).mpr ⟨Bool.eq_false_iff.mpr hsettled, hheld⟩
      simp [hanswer] at hthere
    have heq : timedOut id = answer := by simpa [BridgeEvent.ended?] using hended
    exact ⟨⟨x, rfl, hheld, .inr ⟨hpending, rfl, heq.symm⟩⟩, _, rfl, rfl, rfl⟩
  | aside _ _ _ hreleases =>
    rw [BridgeEvent.ended?_of_not_releases hreleases] at hended
    cases hended

/-- A request that is settled stays so, and its answer is there for as long as somebody waits. -/
theorem stays {x : Exchange} (h : Concern id (some x) e y?) (hsettled : x.pending = false) :
    ∃ y, y? = some y ∧ y.pending = false ∧
      (y.held = true → x.held = true ∧ y.answer = x.answer) := by
  cases h with
  | settled hpending => simp [hsettled] at hpending
  | aside => exact ⟨x, rfl, hsettled, fun hheld => ⟨hheld, rfl⟩⟩
  | expired => exact ⟨_, rfl, rfl, nofun⟩
  | _ => exact ⟨_, rfl, hsettled, nofun⟩

/-- What neither registers nor settles nor releases a request leaves it as it is. -/
theorem eq_self (h : Concern id x? e y?) (hregister : e ≠ .registered id)
    (hreleases : e.releases id = false)
    (hsettles : e.settles id = true → x?.any (·.pending) = false) : y? = x? := by
  cases h with
  | registered => exact absurd rfl hregister
  | settled hpending hanswer =>
    simp [hpending] at hsettles
    simp [BridgeEvent.settles_of_answer? hanswer] at hsettles
  | hungUp => simp [BridgeEvent.releases] at hreleases
  | taken _ _ hended =>
    simp [BridgeEvent.releases_of_ended? (BridgeEvent.ended?_of_finished hended)] at hreleases
  | expired => simp [BridgeEvent.releases, BridgeEvent.ended?] at hreleases
  | aside => rfl

end Concern

end ApiBridge

end LiveDoc

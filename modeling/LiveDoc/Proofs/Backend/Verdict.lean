import LiveDoc.Backend.Handlers
import LiveDoc.Proofs.Json.Record

/-!
# LiveDoc — what a verdict takes over

A verdict takes over the members that an auth handler returned one by one. What it comes to is seen
from all of them at once: the last number by the name of the status and the last text by the name of
the error become the declared fields, and what is neither, nor names a client or a message, is kept
as a free member. So a status that is no number ends up as a free member, and the verdict itself
still says success.

* `Backend.verdictOf_eq` — what all the members come to.
* `Backend.verdictOf_others` — members that name a client or a message count for nothing.
* `Backend.letsIn_of_isAllowed` — a verdict of success without a free status is the handler's.
-/

namespace LiveDoc

open Json

/-- Whether what an auth handler did lets the client in: it returned members, and the status among
them, if there is one, is an integer of success. -/
def Outcome.LetsIn : Outcome Fields → Prop
  | .returned members =>
    ∀ v, KeyMap.get? (KeyMap.ofEntries members) "status" = some v →
      ∃ n : Nat, 200 ≤ n ∧ n < 300 ∧ v = .nat n
  | .failed _ | .crashed _ | .uncaught => False

namespace Backend

/-- Whether a client is let in: nobody decides on clients, or the handler lets this one in. -/
def LetsIn (b : Backend) (request : AuthRequest) : Prop :=
  ∀ handler, b.authHandler = some handler → (handler request).LetsIn

/-! ## One member -/

/-- The status that a member sets: a number by its name sets one, whether it is one or not. -/
def statusOf? : String × Value → Option UInt16
  | ("status", .number n) => some ((Record.word16? (some (.number n))).getD 500)
  | _ => none

/-- The error that a member sets. -/
def errorOf? : String × Value → Option String
  | ("error", .string text) => some text
  | _ => none

/-- What a verdict is known by, which is not for the handler to set. -/
def ownNames : List String := ["clientId", "type"]

/-- Whether a member becomes a free one. -/
def isKept (member : String × Value) : Bool :=
  (statusOf? member).isNone && (errorOf? member).isNone && !ownNames.contains member.1

theorem verdictMember_eq (v : AuthVerdict) (name : String) (value : Value) :
    verdictMember v name value =
      { client := v.client
        status := (statusOf? (name, value)).getD v.status
        error := (errorOf? (name, value)).or v.error
        extra := KeyMap.setAll v.extra ([(name, value)].filter isKept) } := by
  fun_cases verdictMember v name value with
  | case5 hstatus herror hclient htype =>
    have hstatus : statusOf? (name, value) = none := by
      unfold statusOf?
      split <;> simp_all
    have herror : errorOf? (name, value) = none := by
      unfold errorOf?
      split <;> simp_all
    simp_all [isKept, ownNames, KeyMap.setAll]
  | _ => rfl

/-! ## All members -/

theorem foldl_verdictMember (v : AuthVerdict) (members : Fields) :
    members.foldl (fun v m => verdictMember v m.1 m.2) v =
      { client := v.client
        status := (members.reverse.findSome? statusOf?).getD v.status
        error := (members.reverse.findSome? errorOf?).or v.error
        extra := KeyMap.setAll v.extra (members.filter isKept) } := by
  induction members generalizing v with
  | nil => rfl
  | cons member rest ih =>
    rw [List.foldl_cons, ih, verdictMember_eq v member.1 member.2]
    have hkept (m : Fields) : KeyMap.setAll m ((member :: rest).filter isKept) =
        KeyMap.setAll (KeyMap.setAll m ([member].filter isKept)) (rest.filter isKept) := by
      rw [KeyMap.setAll, KeyMap.setAll, KeyMap.setAll, ← List.foldl_append, ← List.filter_append]
      rfl
    simp [hkept, List.findSome?_append, Option.or_assoc]

/-- What all the members come to. -/
theorem verdictOf_eq (client : String) (members : Fields) :
    verdictOf client members =
      { client
        status := (members.reverse.findSome? statusOf?).getD 200
        error := members.reverse.findSome? errorOf?
        extra := KeyMap.ofEntries (members.filter isKept) } := by
  rw [verdictOf, foldl_verdictMember]
  simp [AuthVerdict.allow, KeyMap.ofEntries]

/-- Members that name a client or a message count for nothing. -/
theorem verdictOf_others (client : String) (members : Fields) :
    verdictOf client (Record.others ownNames members) = verdictOf client members := by
  rw [verdictOf, Record.others, List.foldl_filter, verdictOf]
  congr 1
  funext v member
  split
  · rfl
  · next hown =>
    have hname : member.1 = "clientId" ∨ member.1 = "type" :=
      or_iff_not_imp_left.mpr (by simpa [ownNames] using hown)
    rcases hname with hname | hname <;> rw [hname] <;> rfl

/-! ## Free members -/

theorem notMem_keys_of_isKept {members : Fields} (h : ∀ member ∈ members, isKept member = true)
    {name : String} (hname : name ∈ ownNames) : name ∉ KeyMap.keys members := by
  intro hmem
  obtain ⟨member, hmember, rfl⟩ := List.mem_map.mp hmem
  have hkept := h member hmember
  simp [isKept, hname] at hkept

theorem ne_number_of_isKept {v : Value} (h : isKept ("status", v) = true) (n : Number) :
    v ≠ .number n := by
  rintro rfl
  cases h

/-- Every free member is one that sets none of the declared fields. -/
theorem isKept_of_mem_verdictOf {client : String} {members : Fields} {member : String × Value}
    (h : member ∈ (verdictOf client members).extra) : isKept member = true := by
  rw [verdictOf_eq] at h
  exact (List.mem_filter.mp (KeyMap.mem_of_mem_ofEntries h)).2

/-- A status that was returned and is no number is a free member. -/
theorem exists_number_of_notMem {client : String} {members : Fields} {v : Value}
    (h : "status" ∉ KeyMap.keys (verdictOf client members).extra) (hv : ("status", v) ∈ members) :
    ∃ n, v = .number n := by
  by_contra hnumber
  have hkept : isKept ("status", v) = true := by
    cases v with
    | number n => exact absurd ⟨n, rfl⟩ hnumber
    | _ => rfl
  rw [verdictOf_eq, ← KeyMap.get?_eq_none_iff, KeyMap.get?_ofEntries,
    KeyMap.get?_reverse_eq_none_iff] at h
  exact h (KeyMap.mem_keys_of_mem (List.mem_filter.mpr ⟨hv, hkept⟩))

/-! ## Statuses -/

/-- A status of success is written as an integer. -/
theorem eq_nat_of_success {v : Value} (hlow : 200 ≤ (Record.word16? (some v)).getD 500)
    (hhigh : (Record.word16? (some v)).getD 500 < 300) :
    ∃ n : Nat, 200 ≤ n ∧ n < 300 ∧ v = .nat n := by
  cases hword : Record.word16? (some v) with
  | none =>
    rw [hword] at hhigh
    exact absurd hhigh (by decide)
  | some status =>
    rw [hword, Option.getD_some, UInt16.le_iff_toNat_le] at hlow
    rw [hword, Option.getD_some, UInt16.lt_iff_toNat_lt] at hhigh
    exact ⟨status.toNat, hlow, hhigh, Record.eq_nat_of_word16? hword⟩

/-- Where every status is a number, the last one is set. -/
theorem findSome?_statusOf? {members : Fields}
    (h : ∀ v, ("status", v) ∈ members → ∃ n, v = .number n) :
    members.findSome? statusOf? =
      (KeyMap.get? members "status").map fun v => (Record.word16? (some v)).getD 500 := by
  induction members with
  | nil => rfl
  | cons member rest ih =>
    obtain ⟨name, v⟩ := member
    have ih := ih fun w hw => h w (List.mem_cons_of_mem _ hw)
    by_cases hname : name = "status"
    · subst hname
      obtain ⟨n, rfl⟩ := h v List.mem_cons_self
      simp [statusOf?, KeyMap.get?]
    · simp [statusOf?, KeyMap.get?, hname, ih]

/-- A verdict of success that has no free status is that of a handler that lets the client in. -/
theorem letsIn_of_isAllowed {client : String} {members : Fields}
    (hfree : "status" ∉ KeyMap.keys (verdictOf client members).extra)
    (h : (verdictOf client members).isAllowed = true) : (Outcome.returned members).LetsIn := by
  have hlast := findSome?_statusOf? fun v hv =>
    exists_number_of_notMem hfree (List.mem_reverse.mp hv)
  intro v hv
  rw [KeyMap.get?_ofEntries] at hv
  rw [AuthVerdict.isAllowed, verdictOf_eq, hlast, hv, decide_eq_true_iff] at h
  exact eq_nat_of_success h.1 h.2

/-! ## The verdict on a request -/

variable {b : Backend} {request : AuthRequest} {verdict : AuthVerdict}

/-- A verdict lets everyone in, sums up what the handler returned, or denies with the status 500. -/
theorem authorize_cases (h : b.authorize request = some verdict) :
    (b.authHandler = none ∧ verdict = .allow request.client) ∨
      (∃ handler members, b.authHandler = some handler ∧ handler request = .returned members ∧
        verdict = verdictOf request.client members) ∨
      ∃ error, verdict = .deny request.client 500 error := by
  unfold authorize at h
  split at h
  · next hhandler => exact .inl ⟨hhandler, (Option.some.inj h).symm⟩
  · next handler hhandler =>
    split at h
    · next members hreturned =>
      exact .inr (.inl ⟨handler, members, hhandler, hreturned, (Option.some.inj h).symm⟩)
    · exact .inr (.inr ⟨_, (Option.some.inj h).symm⟩)
    · exact .inr (.inr ⟨_, (Option.some.inj h).symm⟩)
    · cases h

theorem client_of_authorize (h : b.authorize request = some verdict) :
    verdict.client = request.client := by
  rcases authorize_cases h with ⟨-, rfl⟩ | ⟨_, _, -, -, rfl⟩ | ⟨_, rfl⟩
  · rfl
  · rw [verdictOf_eq]
  · rfl

theorem isKept_of_mem_authorize {member : String × Value} (h : b.authorize request = some verdict)
    (hmember : member ∈ verdict.extra) : isKept member = true := by
  rcases authorize_cases h with ⟨-, rfl⟩ | ⟨_, _, -, -, rfl⟩ | ⟨_, rfl⟩
  · cases hmember
  · exact isKept_of_mem_verdictOf hmember
  · cases hmember

/-- A verdict of success that has no free status lets the client in rightly. -/
theorem letsIn_of_authorize (h : b.authorize request = some verdict)
    (hfree : "status" ∉ KeyMap.keys verdict.extra) (hallowed : verdict.isAllowed = true) :
    b.LetsIn request := by
  intro handler hhandler
  rcases authorize_cases h with ⟨hnone, -⟩ | ⟨_, members, hsome, hreturned, rfl⟩ | ⟨_, rfl⟩
  · rw [hhandler] at hnone
    cases hnone
  · rw [hhandler] at hsome
    cases hsome
    rw [hreturned]
    exact letsIn_of_isAllowed hfree hallowed
  -- The status of a denial is none of success.
  · cases hallowed

end Backend

end LiveDoc

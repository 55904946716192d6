import LiveDoc.Document.Path
import LiveDoc.Proofs.Json.Canonical

/-!
# LiveDoc — slots

Looking up, rewriting and amending walk the same path. Each step of the walk reads the child that a
segment selects, and on the way back the child is put in place again. So all that the three have to
do with each other is settled by one step: what was put in place is what is read there.

An array refuses a segment that is no index. A walk that meets such an array is blocked, and a
blocked path is never rewritten, not even in part. An array has no room for an index if the number of
items up to it overflows. A walk that meets such an index overruns the array, and leaves none of its
items. No other path is ever refused. A walk in place makes what is missing as it goes, before it can
know whether it will get through. It is stopped by an array that stood there before it came, so until
then it had nothing to make.

* `Value.rewrite?_cons`, `Value.amend_cons` — one step of a walk that writes.
* `Value.rewrite?_eq_none_iff` — exactly the blocked paths are not rewritten.
* `Value.rewrite?_of_overrun` — what becomes of an array that is overrun.
* `Value.find?_rewrite?` — what is found at any other path that was rewritten.
* `Value.find?_amend`, `Value.amend_eq_self` — the same for a path that was amended.
* `Value.rewrite?_eq_amend` — amending what a path finds is rewriting it.
* `Value.isSome_find?_of_amend` — amending makes nothing that was not there.
* `Value.rewrite?_rewrite?`, `Value.amend_amend` — writing twice is writing once.
* `Value.makeWay_of_isBlocked`, `Value.makeWay_of_overrun`, `Value.makeWay_of_free` — a walk in place
  does what rewriting does.
-/

namespace LiveDoc.Json.Value

variable {v w slot : Value} {segment : String} {path : List String}

/-! ## Padding -/

/-- The index exists in the array, or the number of items up to it can be counted. -/
def HasRoom (items : List Value) (index : Nat) : Prop :=
  index < items.length ∨ index + 1 < UInt64.size

instance (items : List Value) (index : Nat) : Decidable (HasRoom items index) :=
  inferInstanceAs (Decidable (_ ∨ _))

theorem padTo_of_lt {items : List Value} {index : Nat} (h : index < items.length) :
    padTo items index = items := if_pos h

/-- Where there is room for the index, padding only appends. -/
theorem padTo_of_hasRoom {items : List Value} {index : Nat} (h : HasRoom items index) :
    padTo items index = items ++ List.replicate (index + 1 - items.length) .null := by
  by_cases hlt : index < items.length
  · rw [padTo_of_lt hlt, Nat.sub_eq_zero_of_le hlt]
    simp
  · have hsize : (index + 1) % UInt64.size = index + 1 :=
      Nat.mod_eq_of_lt (h.resolve_left hlt)
    rw [padTo, if_neg hlt, resize, hsize, List.take_of_length_le (by omega)]

theorem lt_length_padTo {items : List Value} {index : Nat} (h : HasRoom items index) :
    index < (padTo items index).length := by
  rw [padTo_of_hasRoom h, List.length_append, List.length_replicate]
  omega

/-- The items that were there stand where they stood, in front of the nulls. -/
theorem getElem?_padTo {items : List Value} {index : Nat} (h : HasRoom items index) :
    (padTo items index)[index]? = some (items[index]?.getD .null) := by
  rw [padTo_of_hasRoom h]
  by_cases hlt : index < items.length
  · rw [List.getElem?_append_left hlt, List.getElem?_eq_getElem hlt]
    rfl
  · rw [List.getElem?_append_right (by omega), List.getElem?_replicate, if_pos (by omega),
      List.getElem?_eq_none (by omega)]
    rfl

theorem readDigits_le {range : Decimal.IntegerRange} {cs : List Char} {total : Nat} {i : Int}
    (htotal : (total : Int) ≤ range.high) (h : range.readDigits false total cs = .ok i) :
    i ≤ range.high := by
  induction cs generalizing total with
  | nil =>
    cases h
    exact htotal
  | cons c rest ih =>
    simp only [Decimal.IntegerRange.readDigits, Bool.false_eq_true, ↓reduceIte] at h
    split at h
    · split at h
      · next hnext => exact ih hnext h
      · cases h
    · cases h

/-- An index has 64 bits. -/
theorem index?_lt {index : Nat} (h : index? segment = some index) : index < UInt64.size := by
  have hzero : ((0 : Nat) : Int) ≤ (Decimal.IntegerRange.unsigned 64).high := by decide
  have hhigh : (Decimal.IntegerRange.unsigned 64).high + 1 = UInt64.size := by decide
  unfold index? at h
  split at h
  · next i hread =>
    have hle : i ≤ (Decimal.IntegerRange.unsigned 64).high := by
      unfold Decimal.IntegerRange.read at hread
      split at hread
      · cases hread
      · cases hread
      · cases hread
      · exact readDigits_le hzero hread
      · split at hread
        · next hlow => exact absurd hlow (by decide)
        · cases hread
      · exact readDigits_le hzero hread
    cases h
    omega
  · cases h

/-- Of an array without room for an index nothing is left. -/
theorem padTo_of_not_hasRoom {items : List Value} {index : Nat} (hindex : index? segment = some index)
    (h : ¬ HasRoom items index) : padTo items index = [] := by
  have hlt := index?_lt hindex
  rw [HasRoom, not_or] at h
  have hsize : index + 1 = UInt64.size := by omega
  rw [padTo, if_neg h.1, hsize, Nat.mod_self, resize, List.take_zero]
  simp

/-! ## One step -/

/-- The array that stands here takes no such segment. -/
def Refuses (v : Value) (segment : String) : Prop :=
  ∃ items, v = .array items ∧ index? segment = none

/-- The array that stands here has no such item, and none is made by padding it. -/
def Overflows (v : Value) (segment : String) : Prop :=
  ∃ items index, v = .array items ∧ index? segment = some index ∧ ¬ HasRoom items index

/-- Puts a child in place: the member of an object, made if there is none, or the item of an array,
which is padded up to it. Any other value is replaced by an object with that one member. -/
def putChild? (v : Value) (segment : String) (slot : Value) : Option Value :=
  match v with
  | .array items =>
    (index? segment).bind fun index =>
      if HasRoom items index then some (.array ((padTo items index).set index slot)) else none
  | v => some (.object (KeyMap.set v.members segment slot))

theorem putChild?_array_eq_some {items : List Value} :
    (array items).putChild? segment slot = some w ↔
      ∃ index, index? segment = some index ∧ HasRoom items index ∧
        w = .array ((padTo items index).set index slot) := by
  simp only [putChild?, Option.bind_eq_some_iff, Option.ite_none_right_eq_some, Option.some.injEq]
  exact exists_congr fun index => and_congr_right fun _ => and_congr_right fun _ => eq_comm

theorem putChild?_eq_none_iff :
    v.putChild? segment slot = none ↔ v.Refuses segment ∨ v.Overflows segment := by
  cases v with
  | array items =>
    cases hindex : index? segment <;> simp [putChild?, Refuses, Overflows, hindex]
  | _ => simp [putChild?, Refuses, Overflows]

theorem exists_putChild? (hrefuses : ¬ v.Refuses segment) (hoverflows : ¬ v.Overflows segment)
    (slot : Value) : ∃ w, v.putChild? segment slot = some w := by
  rw [← Option.ne_none_iff_exists', ne_eq, putChild?_eq_none_iff]
  exact not_or.mpr ⟨hrefuses, hoverflows⟩

/-- An array takes a segment at which an item stands. -/
theorem hasRoom_of_child? {items : List Value} {index : Nat} {child : Value}
    (hindex : index? segment = some index) (h : (array items).child? segment = some child) :
    index < items.length ∧ items[index]? = some child := by
  have hitem : items[index]? = some child := by simpa [child?, hindex] using h
  exact ⟨(List.getElem?_eq_some_iff.mp hitem).1, hitem⟩

theorem not_refuses_of_child? {child : Value} (h : v.child? segment = some child) :
    ¬ v.Refuses segment := by
  rintro ⟨items, rfl, hindex⟩
  simp [child?, hindex] at h

theorem not_overflows_of_child? {child : Value} (h : v.child? segment = some child) :
    ¬ v.Overflows segment := by
  rintro ⟨items, index, rfl, hindex, hroom⟩
  exact hroom (.inl (hasRoom_of_child? hindex h).1)

/-- A child can be put where one stands. -/
theorem exists_putChild?_of_child? {child : Value} (h : v.child? segment = some child)
    (slot : Value) : ∃ w, v.putChild? segment slot = some w :=
  exists_putChild? (not_refuses_of_child? h) (not_overflows_of_child? h) slot

/-- What was put in place is what is read there. -/
theorem child?_of_putChild? (h : v.putChild? segment slot = some w) :
    w.child? segment = some slot := by
  cases v with
  | array items =>
    obtain ⟨index, hindex, hroom, rfl⟩ := putChild?_array_eq_some.mp h
    have hlt := lt_length_padTo hroom
    simp [child?, hindex, hlt]
  | _ =>
    obtain rfl := Option.some.inj h
    exact KeyMap.get?_set_self _ _ _

/-- Of two children put in the same place the second counts. -/
theorem putChild?_putChild? (h : v.putChild? segment slot = some w) (second : Value) :
    w.putChild? segment second = v.putChild? segment second := by
  cases v with
  | array items =>
    obtain ⟨index, hindex, hroom, rfl⟩ := putChild?_array_eq_some.mp h
    have hlt : index < ((padTo items index).set index slot).length := by
      simpa using lt_length_padTo hroom
    have hroom' : HasRoom ((padTo items index).set index slot) index := .inl hlt
    simp [putChild?, hindex, padTo_of_lt hlt, hroom, hroom']
  | _ =>
    obtain rfl := Option.some.inj h
    simp [putChild?, Value.members, fields?, KeyMap.set_set]

/-- Putting a child in place of another one leaves every other child as it was. -/
theorem child?_of_putChild?_of_child? {child : Value} (hchild : v.child? segment = some child)
    (hput : v.putChild? segment slot = some w) (other : String) :
    w.child? other = v.child? other ∨
      v.child? other = some child ∧ w.child? other = some slot := by
  cases v with
  | array items =>
    obtain ⟨index, hindex, -, rfl⟩ := putChild?_array_eq_some.mp hput
    obtain ⟨hlt, hitem⟩ := hasRoom_of_child? hindex hchild
    rw [padTo_of_lt hlt]
    cases hother : index? other with
    | none => simp [child?, hother]
    | some at' =>
      by_cases heq : index = at'
      · subst heq
        exact .inr ⟨by simp [child?, hother, hitem], by simp [child?, hother, hlt]⟩
      · exact .inl (by simp [child?, hother, heq])
  | object members =>
    obtain rfl := Option.some.inj hput
    by_cases heq : segment = other
    · subst heq
      exact .inr ⟨hchild, KeyMap.get?_set_self _ _ _⟩
    · exact .inl (KeyMap.get?_set_of_ne _ _ heq)
  | _ => simp [child?] at hchild

/-- Putting a child where it stands changes nothing. -/
theorem putChild?_of_child? {child : Value} (hv : v.IsCanonical)
    (hchild : v.child? segment = some child) : v.putChild? segment child = some v := by
  cases v with
  | array items =>
    obtain ⟨index, hindex, hitem⟩ := Option.bind_eq_some_iff.mp hchild
    obtain ⟨hlt, hget⟩ := List.getElem?_eq_some_iff.mp hitem
    have hroom : HasRoom items index := .inl hlt
    simp [putChild?, hindex, hroom, padTo_of_lt hlt, ← hget]
  | object members =>
    have hset := (every_object.mp hv).1.set_eq_self hchild
    simp [putChild?, Value.members, fields?, hset]
  | _ => simp [child?] at hchild

theorem Every.of_child? {S : Fields → Prop} {P : Number → Prop} {child : Value} (hv : v.Every S P)
    (hchild : v.child? segment = some child) : child.Every S P := by
  cases v with
  | array items =>
    obtain ⟨index, -, hitem⟩ := Option.bind_eq_some_iff.mp hchild
    exact every_array.mp hv child (List.mem_of_getElem? hitem)
  | object members => exact hv.of_get? hchild
  | _ => simp [child?] at hchild

theorem Every.getD_child? {S : Fields → Prop} {P : Number → Prop} (hv : v.Every S P)
    (segment : String) : ((v.child? segment).getD .null).Every S P := by
  cases hchild : v.child? segment with
  | none => exact every_null
  | some child => exact hv.of_child? hchild

/-- A value that is no array becomes an object, or stays one. -/
theorem exists_object_of_putChild? (hv : ∀ items, v ≠ .array items)
    (h : v.putChild? segment slot = some w) : ∃ members, w = .object members := by
  cases v with
  | array items => exact absurd rfl (hv items)
  | _ => exact ⟨_, (Option.some.inj h).symm⟩

/-! ## Walks -/

@[simp] theorem find?_nil (v : Value) : v.find? [] = some v := rfl

theorem find?_cons (v : Value) (segment : String) (rest : List String) :
    v.find? (segment :: rest) = (v.child? segment).bind (find? · rest) := rfl

/-- Nothing is found behind an absent child, as behind a null. -/
theorem getD_find?_cons (v : Value) (segment : String) (rest : List String) :
    (v.find? (segment :: rest)).getD .null =
      (((v.child? segment).getD .null).find? rest).getD .null := by
  rw [find?_cons]
  cases v.child? segment with
  | some child => rfl
  | none => cases rest <;> rfl

/-- One step of rewriting: the child that stands there, or a null, is rewritten and put in place. -/
theorem rewrite?_cons (h : ¬ v.Overflows segment) (f : Value → Value) (rest : List String) :
    v.rewrite? f (segment :: rest) =
      (((v.child? segment).getD .null).rewrite? f rest).bind (v.putChild? segment) := by
  cases v with
  | array items =>
    cases hindex : index? segment with
    | none =>
      simp only [rewrite?, hindex]
      exact (Option.bind_eq_none_iff.mpr fun slot _ => by simp [putChild?, hindex]).symm
    | some index =>
      have hroom : HasRoom items index := by
        by_contra hroom
        exact h ⟨items, index, rfl, hindex, hroom⟩
      simp only [rewrite?, child?, hindex, getElem?_padTo hroom, Option.bind_some,
        Option.bind_eq_bind]
      exact Option.bind_congr fun slot _ => by simp [putChild?, hindex, hroom]
  | object members => rfl
  | _ => rfl

/-- An array that has no room for the index is left without items. -/
theorem rewrite?_of_overflows (h : v.Overflows segment) (f : Value → Value) (rest : List String) :
    v.rewrite? f (segment :: rest) = some (.array []) := by
  obtain ⟨items, index, rfl, hindex, hroom⟩ := h
  simp [rewrite?, hindex, padTo_of_not_hasRoom hindex hroom]

/-- One step of amending: the child that stands there, if one does, is amended and put in place. -/
theorem amend_cons (f : Value → Value) (v : Value) (segment : String) (rest : List String) :
    v.amend f (segment :: rest) =
      ((v.child? segment).bind fun child => v.putChild? segment (child.amend f rest)).getD v := by
  cases v with
  | array items =>
    cases hindex : index? segment with
    | none => simp [amend, child?, hindex]
    | some index =>
      cases hitem : items[index]? with
      | none => simp [amend, child?, hindex, hitem]
      | some child =>
        have hlt : index < items.length := (List.getElem?_eq_some_iff.mp hitem).1
        have hroom : HasRoom items index := .inl hlt
        simp [amend, child?, putChild?, hindex, hitem, hroom, padTo_of_lt hlt]
  | object members =>
    cases hmember : KeyMap.get? members segment <;>
      simp [amend, child?, putChild?, Value.members, fields?, hmember]
  | _ => simp [amend, child?]

/-! ## Paths at which a walk gives up -/

/-- Walking the path through the value reaches an array at a segment of some kind. -/
def Reaches (P : List Value → String → Prop) (v : Value) (path : List String) : Prop :=
  ∃ before segment after items,
    path = before ++ segment :: after ∧ v.find? before = some (.array items) ∧ P items segment

/-- Walking the path through the value reaches an array at a segment that is no index. -/
def IsBlocked (v : Value) (path : List String) : Prop :=
  v.Reaches (fun _ segment => index? segment = none) path

/-- Walking the path through the value reaches an array at an index for which it has no room. -/
def Overruns (v : Value) (path : List String) : Prop :=
  v.Reaches (fun items segment => ∃ index, index? segment = some index ∧ ¬ HasRoom items index) path

section Reaches

variable {P : List Value → String → Prop}

theorem not_reaches_nil (v : Value) : ¬ v.Reaches P [] := by
  rintro ⟨before, segment, after, items, hpath, -, -⟩
  simp at hpath

theorem not_reaches_null (path : List String) : ¬ null.Reaches P path := by
  rintro ⟨before, segment, after, items, -, hfind, -⟩
  cases before <;> simp [find?_cons, child?] at hfind

/-- The array stands here, or behind the child that the segment selects. -/
theorem reaches_cons {rest : List String} :
    v.Reaches P (segment :: rest) ↔
      (∃ items, v = .array items ∧ P items segment) ∨
        ((v.child? segment).getD .null).Reaches P rest := by
  constructor
  · rintro ⟨before, met, after, items, hpath, hfind, hmet⟩
    cases before with
    | nil =>
      obtain ⟨rfl, rfl⟩ := List.cons.inj hpath
      exact .inl ⟨items, Option.some.inj hfind, hmet⟩
    | cons first before =>
      obtain ⟨rfl, rfl⟩ := List.cons.inj hpath
      obtain ⟨child, hchild, hfind⟩ := Option.bind_eq_some_iff.mp hfind
      refine .inr ⟨before, met, after, items, rfl, ?_, hmet⟩
      rwa [hchild]
  · rintro (⟨items, rfl, hmet⟩ | hreaches)
    · exact ⟨[], segment, rest, items, rfl, rfl, hmet⟩
    · cases hchild : v.child? segment with
      | none =>
        rw [hchild] at hreaches
        exact absurd hreaches (not_reaches_null rest)
      | some child =>
        rw [hchild] at hreaches
        obtain ⟨before, met, after, items, rfl, hfind, hmet⟩ := hreaches
        refine ⟨segment :: before, met, after, items, rfl, ?_, hmet⟩
        rw [find?_cons, hchild]
        exact hfind

instance decidableReaches [∀ items segment, Decidable (P items segment)] :
    (v : Value) → (path : List String) → Decidable (v.Reaches P path)
  | v, [] => isFalse (not_reaches_nil v)
  | v, segment :: rest =>
    have := decidableReaches ((v.child? segment).getD .null) rest
    have : Decidable (∃ items, v = .array items ∧ P items segment) :=
      match v with
      | .array items => decidable_of_iff (P items segment) (by simp)
      | .null | .bool _ | .number _ | .string _ | .object _ => isFalse (by simp)
    decidable_of_iff _ reaches_cons.symm

end Reaches

instance (v : Value) (path : List String) : Decidable (v.IsBlocked path) :=
  decidableReaches v path

instance (v : Value) (path : List String) : Decidable (v.Overruns path) :=
  have (items : List Value) (segment : String) :
      Decidable (∃ index, index? segment = some index ∧ ¬ HasRoom items index) :=
    match index? segment with
    | none => isFalse (by simp)
    | some index => decidable_of_iff (¬ HasRoom items index) (by simp)
  decidableReaches v path

theorem isBlocked_cons {rest : List String} :
    v.IsBlocked (segment :: rest) ↔
      v.Refuses segment ∨ ((v.child? segment).getD .null).IsBlocked rest := reaches_cons

theorem overruns_cons {rest : List String} :
    v.Overruns (segment :: rest) ↔
      v.Overflows segment ∨ ((v.child? segment).getD .null).Overruns rest := by
  rw [Overruns, reaches_cons]
  simp only [Overflows, exists_and_left]
  rfl

/-- An array has no room only for an index. -/
theorem Overflows.not_refuses (h : v.Overflows segment) : ¬ v.Refuses segment := by
  rintro ⟨items, rfl, hnone⟩
  obtain ⟨_, index, -, hindex, -⟩ := h
  simp [hnone] at hindex

/-- Exactly the blocked paths are not rewritten. -/
theorem rewrite?_eq_none_iff (f : Value → Value) :
    v.rewrite? f path = none ↔ v.IsBlocked path := by
  induction path generalizing v with
  | nil => simp [rewrite?, IsBlocked, not_reaches_nil]
  | cons segment rest ih =>
    by_cases hoverflows : v.Overflows segment
    · have hchild : v.child? segment = none := by
        rw [Option.eq_none_iff_forall_ne_some]
        exact fun child hchild => not_overflows_of_child? hchild hoverflows
      have hbehind : ¬ null.IsBlocked rest := not_reaches_null rest
      rw [rewrite?_of_overflows hoverflows, isBlocked_cons, hchild]
      simp [hoverflows.not_refuses, hbehind]
    · rw [rewrite?_cons hoverflows, isBlocked_cons, ← ih]
      cases ((v.child? segment).getD .null).rewrite? f rest with
      | none => simp
      | some slot => simp [putChild?_eq_none_iff, hoverflows]

theorem not_overruns_cons {rest : List String} (h : ¬ v.Overruns (segment :: rest)) :
    ¬ v.Overflows segment ∧ ¬ ((v.child? segment).getD .null).Overruns rest := by
  rwa [overruns_cons, not_or] at h

/-- A rewriting that overruns an array empties it, and does nothing else. -/
theorem rewrite?_of_overrun {before after : List String} {items : List Value} {index : Nat}
    (hfind : v.find? before = some (.array items)) (hindex : index? segment = some index)
    (hroom : ¬ HasRoom items index) (f : Value → Value) :
    v.rewrite? f (before ++ segment :: after) = some (v.amend (fun _ => .array []) before) := by
  induction before generalizing v with
  | nil =>
    cases hfind
    exact rewrite?_of_overflows ⟨items, index, rfl, hindex, hroom⟩ f after
  | cons first before ih =>
    obtain ⟨child, hchild, hfind⟩ := Option.bind_eq_some_iff.mp hfind
    obtain ⟨w, hput⟩ := exists_putChild?_of_child? hchild (child.amend (fun _ => .array []) before)
    rw [List.cons_append, rewrite?_cons (not_overflows_of_child? hchild), amend_cons, hchild,
      Option.getD_some, ih hfind]
    simp [hput]

/-! ## What is found where something was written -/

/-- At a path that was rewritten is found what was made of the value found there before. Where there
was none, it was made of a null. -/
theorem find?_rewrite? {f : Value → Value} (hfree : ¬ v.Overruns path)
    (h : v.rewrite? f path = some w) : w.find? path = some (f ((v.find? path).getD .null)) := by
  induction path generalizing v w with
  | nil =>
    cases h
    rfl
  | cons segment rest ih =>
    obtain ⟨hhere, hbehind⟩ := not_overruns_cons hfree
    rw [rewrite?_cons hhere] at h
    obtain ⟨slot, hslot, hput⟩ := Option.bind_eq_some_iff.mp h
    rw [find?_cons, child?_of_putChild? hput, Option.bind_some, ih hbehind hslot, getD_find?_cons]

/-- An object that is rewritten below its root stays an object. -/
theorem exists_object_of_rewrite? {f : Value → Value} {members : Fields} (hpath : path ≠ [])
    (h : (Value.object members).rewrite? f path = some w) : ∃ fields, w = .object fields := by
  obtain ⟨segment, rest, rfl⟩ := List.exists_cons_of_ne_nil hpath
  rw [rewrite?_cons (by simp [Overflows])] at h
  obtain ⟨slot, -, hput⟩ := Option.bind_eq_some_iff.mp h
  exact exists_object_of_putChild? (by simp) hput

/-- At a path that was amended is found what was made of the value found there before. -/
theorem find?_amend (f : Value → Value) (v : Value) (path : List String) :
    (v.amend f path).find? path = (v.find? path).map f := by
  induction path generalizing v with
  | nil => rfl
  | cons segment rest ih =>
    rw [amend_cons, find?_cons v]
    cases hchild : v.child? segment with
    | none => simp [find?_cons, hchild]
    | some child =>
      obtain ⟨w, hput⟩ := exists_putChild?_of_child? hchild (child.amend f rest)
      simp [hput, find?_cons, child?_of_putChild? hput, ih child]

theorem exists_object_of_amend (f : Value → Value) (members : Fields) (hpath : path ≠ []) :
    ∃ fields, (Value.object members).amend f path = .object fields := by
  obtain ⟨segment, rest, rfl⟩ := List.exists_cons_of_ne_nil hpath
  rw [amend_cons]
  cases hchild : (Value.object members).child? segment with
  | none => exact ⟨members, rfl⟩
  | some child =>
    obtain ⟨w, hput⟩ := exists_putChild?_of_child? hchild (child.amend f rest)
    obtain ⟨fields, rfl⟩ := exists_object_of_putChild? (by simp) hput
    exact ⟨fields, by simp [hput]⟩

/-- Amending what a path finds is rewriting it. -/
theorem rewrite?_eq_amend {f : Value → Value} (hfind : v.find? path = some slot) :
    v.rewrite? (fun _ => f slot) path = some (v.amend f path) := by
  induction path generalizing v with
  | nil =>
    cases hfind
    rfl
  | cons segment rest ih =>
    obtain ⟨child, hchild, hslot⟩ := Option.bind_eq_some_iff.mp hfind
    obtain ⟨w, hput⟩ := exists_putChild?_of_child? hchild (child.amend f rest)
    rw [rewrite?_cons (not_overflows_of_child? hchild), amend_cons, hchild, Option.getD_some,
      ih hslot]
    simp [hput]

/-- Amending changes nothing where there is nothing at the path, or nothing to change about it. -/
theorem amend_eq_self {f : Value → Value} (hv : v.IsCanonical)
    (hf : ∀ slot, v.find? path = some slot → f slot = slot) : v.amend f path = v := by
  induction path generalizing v with
  | nil => exact hf v rfl
  | cons segment rest ih =>
    rw [amend_cons]
    cases hchild : v.child? segment with
    | none => rfl
    | some child =>
      have hslot : child.amend f rest = child :=
        ih (hv.of_child? hchild) fun slot hslot => hf slot (by rw [find?_cons, hchild]; exact hslot)
      simp [hslot, putChild?_of_child? hv hchild]

/-- If what is put at the path has only paths that the old content had, amending makes nothing. -/
theorem isSome_find?_of_amend {f : Value → Value}
    (hf : ∀ slot other, ((f slot).find? other).isSome → (slot.find? other).isSome)
    {other : List String} (h : ((v.amend f path).find? other).isSome) :
    (v.find? other).isSome := by
  induction path generalizing v other with
  | nil => exact hf v other h
  | cons segment rest ih =>
    rw [amend_cons] at h
    cases hchild : v.child? segment with
    | none => simpa [hchild] using h
    | some child =>
      obtain ⟨w, hput⟩ := exists_putChild?_of_child? hchild (child.amend f rest)
      rw [hchild, Option.bind_some, hput, Option.getD_some] at h
      cases other with
      | nil => rfl
      | cons first other =>
        rw [find?_cons] at h ⊢
        rcases child?_of_putChild?_of_child? hchild hput first with hsame | ⟨hold, hnew⟩
        · rwa [hsame] at h
        · rw [hnew] at h
          rw [hold]
          exact ih h

/-! ## Writing twice -/

theorem overflows_empty {items : List Value} (h : (array items).Overflows segment) :
    (array []).Overflows segment := by
  obtain ⟨_, index, heq, hindex, hroom⟩ := h
  cases heq
  refine ⟨[], index, rfl, hindex, ?_⟩
  rw [HasRoom, List.length_nil] at *
  omega

/-- Of two rewritings of the same slot the second starts from what the first has made. -/
theorem rewrite?_rewrite? {f : Value → Value} (g : Value → Value)
    (h : v.rewrite? f path = some w) : w.rewrite? g path = v.rewrite? (g ∘ f) path := by
  induction path generalizing v w with
  | nil =>
    cases h
    rfl
  | cons segment rest ih =>
    by_cases hoverflows : v.Overflows segment
    · rw [rewrite?_of_overflows hoverflows] at h
      obtain ⟨items, -, rfl, -, -⟩ := id hoverflows
      cases h
      rw [rewrite?_of_overflows hoverflows, rewrite?_of_overflows (overflows_empty hoverflows)]
    · rw [rewrite?_cons hoverflows] at h
      obtain ⟨slot, hslot, hput⟩ := Option.bind_eq_some_iff.mp h
      have hchild := child?_of_putChild? hput
      rw [rewrite?_cons hoverflows, rewrite?_cons (not_overflows_of_child? hchild), hchild,
        Option.getD_some, ih hslot]
      exact Option.bind_congr fun second _ => putChild?_putChild? hput second

/-- The same for two amendments. -/
theorem amend_amend (f g : Value → Value) (v : Value) (path : List String) :
    (v.amend f path).amend g path = v.amend (g ∘ f) path := by
  induction path generalizing v with
  | nil => rfl
  | cons segment rest ih =>
    rw [amend_cons f, amend_cons (g ∘ f)]
    cases hchild : v.child? segment with
    | none => simp [amend_cons, hchild]
    | some child =>
      obtain ⟨w, hput⟩ := exists_putChild?_of_child? hchild (child.amend f rest)
      obtain ⟨u, hagain⟩ := exists_putChild?_of_child? hchild (child.amend (g ∘ f) rest)
      rw [Option.bind_some, hput, Option.getD_some, amend_cons, child?_of_putChild? hput,
        Option.bind_some, ih, putChild?_putChild? hput, hagain, Option.bind_some, hagain,
        Option.getD_some, Option.getD_some]

/-- Rewritings that agree on canonical slots agree on a canonical value. -/
theorem rewrite?_congr {f g : Value → Value} (hv : v.IsCanonical)
    (h : ∀ slot : Value, slot.IsCanonical → f slot = g slot) (path : List String) :
    v.rewrite? f path = v.rewrite? g path := by
  induction path generalizing v with
  | nil => exact congrArg some (h v hv)
  | cons segment rest ih =>
    by_cases hoverflows : v.Overflows segment
    · rw [rewrite?_of_overflows hoverflows, rewrite?_of_overflows hoverflows]
    · rw [rewrite?_cons hoverflows, rewrite?_cons hoverflows, ih (hv.getD_child? segment)]

/-! ## Walking in place -/

/-- The value with the slot at the path made, as a walk leaves it that makes what is missing as it
goes, and whether it came to the end of the path. A walk that is stopped undoes nothing. -/
def makeWay : (path : List String) → Value → Value × Bool
  | [], v => (v, true)
  | segment :: rest, .array items =>
    match index? segment with
    | some index =>
      let padded := padTo items index
      match padded[index]? with
      | some slot =>
        let (slot, reached) := makeWay rest slot
        (.array (padded.set index slot), reached)
      | none => (.array padded, false)
    | none => (.array items, false)
  | segment :: rest, v =>
    let (slot, reached) := makeWay rest ((KeyMap.get? v.members segment).getD .null)
    (.object (KeyMap.set v.members segment slot), reached)

/-- One step of a walk in place: what it made of the child is put in place, even if it was stopped
further on. -/
theorem makeWay_cons (h : ¬ v.Overflows segment) (rest : List String) :
    v.makeWay (segment :: rest) =
      (v.putChild? segment (((v.child? segment).getD .null).makeWay rest).1).elim (v, false)
        (·, (((v.child? segment).getD .null).makeWay rest).2) := by
  cases v with
  | array items =>
    cases hindex : index? segment with
    | none => simp [makeWay, putChild?, hindex]
    | some index =>
      have hroom : HasRoom items index := by
        by_contra hroom
        exact h ⟨items, index, rfl, hindex, hroom⟩
      simp [makeWay, putChild?, child?, hindex, hroom, getElem?_padTo hroom]
  | object members => rfl
  | _ => rfl

theorem makeWay_of_overflows (h : v.Overflows segment) (rest : List String) :
    v.makeWay (segment :: rest) = (.array [], false) := by
  obtain ⟨items, index, rfl, hindex, hroom⟩ := h
  simp [makeWay, hindex, padTo_of_not_hasRoom hindex hroom]

/-- A walk that is blocked has made nothing. -/
theorem makeWay_of_isBlocked (hv : v.IsCanonical) (h : v.IsBlocked path) :
    v.makeWay path = (v, false) := by
  induction path generalizing v with
  | nil => exact absurd h (not_reaches_nil v)
  | cons segment rest ih =>
    rcases isBlocked_cons.mp h with hrefuses | hbehind
    · rw [makeWay_cons (fun hoverflows => hoverflows.not_refuses hrefuses),
        putChild?_eq_none_iff.mpr (.inl hrefuses)]
      rfl
    · cases hchild : v.child? segment with
      | none =>
        rw [hchild] at hbehind
        exact absurd hbehind (not_reaches_null rest)
      | some child =>
        rw [hchild] at hbehind
        rw [makeWay_cons (not_overflows_of_child? hchild), hchild, Option.getD_some,
          ih (hv.of_child? hchild) hbehind, putChild?_of_child? hv hchild]
        rfl

/-- A walk that overruns an array has emptied it, and has made nothing. -/
theorem makeWay_of_overrun {before after : List String} {items : List Value} {index : Nat}
    (hfind : v.find? before = some (.array items)) (hindex : index? segment = some index)
    (hroom : ¬ HasRoom items index) :
    v.makeWay (before ++ segment :: after) = (v.amend (fun _ => .array []) before, false) := by
  induction before generalizing v with
  | nil =>
    cases hfind
    exact makeWay_of_overflows ⟨items, index, rfl, hindex, hroom⟩ after
  | cons first before ih =>
    obtain ⟨child, hchild, hfind⟩ := Option.bind_eq_some_iff.mp hfind
    obtain ⟨w, hput⟩ := exists_putChild?_of_child? hchild (child.amend (fun _ => .array []) before)
    rw [List.cons_append, makeWay_cons (not_overflows_of_child? hchild), amend_cons, hchild,
      Option.getD_some, ih hfind]
    simp [hput]

/-- Any other walk in place comes to the slot, and writing there is what rewriting the slot does. -/
theorem makeWay_of_free (f : Value → Value) (hblocked : ¬ v.IsBlocked path)
    (hoverruns : ¬ v.Overruns path) :
    (v.makeWay path).2 = true ∧ v.rewrite? f path = some ((v.makeWay path).1.amend f path) := by
  induction path generalizing v with
  | nil => exact ⟨rfl, rfl⟩
  | cons segment rest ih =>
    obtain ⟨hhere, hbehind⟩ := not_overruns_cons hoverruns
    rw [isBlocked_cons, not_or] at hblocked
    obtain ⟨hreached, hrewrite⟩ := ih hblocked.2 hbehind
    obtain ⟨w, hput⟩ := exists_putChild? hblocked.1 hhere
      (((v.child? segment).getD .null).makeWay rest).1
    obtain ⟨result, hresult⟩ := exists_putChild?_of_child? (child?_of_putChild? hput)
      ((((v.child? segment).getD .null).makeWay rest).1.amend f rest)
    rw [makeWay_cons hhere, hput]
    refine ⟨hreached, ?_⟩
    rw [rewrite?_cons hhere, hrewrite, Option.bind_some, ← putChild?_putChild? hput,
      Option.elim_some, amend_cons, child?_of_putChild? hput, Option.bind_some, hresult,
      Option.getD_some]

end LiveDoc.Json.Value

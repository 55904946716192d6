import LiveDoc.Proofs.Json.Floats
import LiveDoc.Proofs.Json.Literals
import LiveDoc.Proofs.Json.Nesting

/-!
# LiveDoc — values survive as text

The text of a value is one JSON text, whatever follows it. If the numbers of the value read back,
then the text gives the canonical form, but only up to the limit of nested containers; of one
container more than that nothing is read. So a text that was written may be unreadable, and depth
alone decides. Of a value whose numbers need not read back, each member is still read on its own.

* `Parser.node_chars` — the reader takes the text of a value and nothing behind it.
* `node?_text` — the text of a value is read as the node of the value.
* `parse?_text` — what reading the text of a value gives if its numbers read back.
* `parse?_object_text` — what reading the text of an object gives under each key.
-/

namespace LiveDoc.Json

/-! ## What nodes stand for -/

/-- The node gives the canonical form of a value, if the limit allows for its containers. -/
def Node.Denotes (node : Node) (v : Value) : Prop :=
  ∀ limit, node.value? limit = if v.depth ≤ limit then some v.canonical else none

/-- The nodes give the canonical forms of the items of an array. -/
def Node.DenoteItems (nodes : List Node) (items : List Value) : Prop :=
  ∀ limit, Node.itemsValue? limit nodes =
    if Value.itemsDepth items ≤ limit then some (Value.canonicalItems items) else none

/-- The nodes give the canonical forms of the members of an object. -/
def Node.DenoteMembers (nodes : List (List Glyph × Node)) (members : Fields) : Prop :=
  ∀ limit, Node.membersValue? limit nodes =
    if Value.membersDepth members ≤ limit then some (Value.canonicalMembers members) else none

namespace Node

theorem denotes_array {nodes : List Node} {items : List Value} (h : DenoteItems nodes items) :
    (Node.array nodes).Denotes (.array items) := by
  intro limit
  cases limit with
  | zero => simp [value?, Value.depth]
  | succ limit =>
    rw [value?, Nat.add_sub_cancel, h limit, Value.depth, Value.canonical]
    by_cases hdepth : Value.itemsDepth items ≤ limit <;> simp [hdepth]

theorem denotes_object {nodes : List (List Glyph × Node)} {members : Fields}
    (h : DenoteMembers nodes members) : (Node.object nodes).Denotes (.object members) := by
  intro limit
  cases limit with
  | zero => simp [value?, Value.depth]
  | succ limit =>
    rw [value?, Nat.add_sub_cancel, h limit, Value.depth, Value.canonical]
    by_cases hdepth : Value.membersDepth members ≤ limit <;> simp [hdepth]

theorem denotes_number {numeral : Numeral} {n : Number} (h : numeral.number? = some n) :
    (Node.number numeral).Denotes (.number n) := by
  intro limit
  simp [value?, h, Value.depth, Value.canonical]

theorem denotes_string (text : String) :
    (Node.string (text.toList.map Glyph.ofChar)).Denotes (.string text) := by
  intro limit
  simp [value?, text?_ofChar, Value.depth, Value.canonical]

theorem denoteItems_nil : DenoteItems [] [] := by
  intro limit
  simp [itemsValue?, Value.itemsDepth, Value.canonicalItems]

theorem denoteItems_cons {node : Node} {v : Value} {nodes : List Node} {items : List Value}
    (hfirst : node.Denotes v) (hrest : DenoteItems nodes items) :
    DenoteItems (node :: nodes) (v :: items) := by
  intro limit
  simp only [itemsValue?, hfirst limit, hrest limit, Value.itemsDepth, Value.canonicalItems,
    Nat.max_le]
  by_cases hv : v.depth ≤ limit <;> by_cases hi : Value.itemsDepth items ≤ limit <;> simp [hv, hi]

theorem denoteMembers_nil : DenoteMembers [] [] := by
  intro limit
  simp [membersValue?, Value.membersDepth, Value.canonicalMembers]

theorem denoteMembers_cons {node : Node} {v : Value} {nodes : List (List Glyph × Node)}
    {members : Fields} (key : String) (hfirst : node.Denotes v)
    (hrest : DenoteMembers nodes members) :
    DenoteMembers ((key.toList.map Glyph.ofChar, node) :: nodes) ((key, v) :: members) := by
  intro limit
  simp only [membersValue?, text?_ofChar, hfirst limit, hrest limit, Value.membersDepth,
    Value.canonicalMembers, Nat.max_le]
  by_cases hv : v.depth ≤ limit <;> by_cases hm : Value.membersDepth members ≤ limit <;>
    simp [hv, hm]

end Node

/-! ## Readers one step at a time -/

namespace Parser

variable {s rest : List Char} {fuel : Nat}

theorem skipBlanks_cons {c : Char} (h : isBlank c = false) (s : List Char) :
    skipBlanks (c :: s) = c :: s := by
  simp [skipBlanks, h]

/-- Takes what is behind an item of an array: more items, or the closing bracket. -/
def itemsTail (fuel : Nat) (s : List Char) : Option (List Node × List Char) :=
  match skipBlanks s with
  | ',' :: s => items fuel s
  | ']' :: s => some ([], s)
  | _ => none

/-- Takes what is behind a member of an object: more members, or the closing brace. -/
def membersTail (fuel : Nat) (s : List Char) : Option (List (List Glyph × Node) × List Char) :=
  match skipBlanks s with
  | ',' :: s => members fuel s
  | '}' :: s => some ([], s)
  | _ => none

/-- Behind an item comes a comma with more items, or the closing bracket. -/
theorem itemsTail_cases {nodes : List Node} (h : itemsTail fuel s = some (nodes, rest)) :
    (∃ u, skipBlanks s = ',' :: u ∧ items fuel u = some (nodes, rest)) ∨
      skipBlanks s = ']' :: rest ∧ nodes = [] := by
  unfold itemsTail at h
  split at h
  · next u hskip => exact .inl ⟨u, hskip, h⟩
  · next u hskip =>
    cases h
    exact .inr ⟨hskip, rfl⟩
  · cases h

/-- Behind a member comes a comma with more members, or the closing brace. -/
theorem membersTail_cases {nodes : List (List Glyph × Node)}
    (h : membersTail fuel s = some (nodes, rest)) :
    (∃ u, skipBlanks s = ',' :: u ∧ members fuel u = some (nodes, rest)) ∨
      skipBlanks s = '}' :: rest ∧ nodes = [] := by
  unfold membersTail at h
  split at h
  · next u hskip => exact .inl ⟨u, hskip, h⟩
  · next u hskip =>
    cases h
    exact .inr ⟨hskip, rfl⟩
  · cases h

/-- Items are read as the first of them and what is behind its comma. -/
theorem items_of_node {node : Node} {nodes : List Node} {t : List Char}
    (hnode : Parser.node fuel s = some (node, t)) (htail : itemsTail fuel t = some (nodes, rest)) :
    items (fuel + 1) s = some (node :: nodes, rest) := by
  rw [items, hnode]
  rcases itemsTail_cases htail with ⟨u, hskip, hitems⟩ | ⟨hskip, rfl⟩
  · simp [hskip, hitems]
  · simp [hskip]

/-- A quoted key is read to its closing quote. -/
theorem glyphs_quote (key : String) (s : List Char) :
    ∃ t, quote key ++ s = '"' :: t ∧
      glyphs t = some (key.toList.map Glyph.ofChar, s) := by
  refine ⟨key.toList.flatMap escape ++ '"' :: s, ?_, glyphs_flatMap_escape _ _⟩
  simp [quote]

/-- Members are read as the first of them and what is behind its comma. -/
theorem members_of_node {key : String} {node : Node} {nodes : List (List Glyph × Node)}
    {t : List Char} (hnode : Parser.node fuel s = some (node, t))
    (htail : membersTail fuel t = some (nodes, rest)) :
    members (fuel + 1) (quote key ++ ':' :: s) =
      some ((key.toList.map Glyph.ofChar, node) :: nodes, rest) := by
  obtain ⟨u, hu, hglyphs⟩ := glyphs_quote key (':' :: s)
  rw [hu, members, skipBlanks_cons (by decide)]
  simp only [hglyphs, Option.bind_eq_bind, Option.bind_some, @skipBlanks_cons ':' (by decide),
    hnode]
  rcases membersTail_cases htail with ⟨u, hskip, hmembers⟩ | ⟨hskip, rfl⟩
  · simp [hskip, hmembers]
  · simp [hskip]

/-- A quoted text is read as its characters, whatever follows. -/
theorem node_quote (fuel : Nat) (text : String) (rest : List Char) :
    node (fuel + 1) (quote text ++ rest) =
      some (.string (text.toList.map Glyph.ofChar), rest) := by
  obtain ⟨t, ht, hglyphs⟩ := glyphs_quote text rest
  rw [ht, node, skipBlanks_cons (by decide)]
  simp [hglyphs]

/-- Neither a blank nor a bracket starts a numeral. -/
theorem head_numeral {c : Char} (hc : c = '-' ∨ c.isDigit = true) :
    isBlank c = false ∧ c ≠ ']' ∧ c ≠ '}' := by
  rcases hc with rfl | hdigit
  · decide
  · have hne : ∀ d : Char, d.isDigit = false → c ≠ d := by
      rintro d hd rfl
      simp [hdigit] at hd
    refine ⟨?_, hne _ rfl, hne _ rfl⟩
    simp [isBlank, hne ' ' rfl, hne '\t' rfl, hne '\n' rfl, hne '\r' rfl]

/-- A numeral is read as a number where what follows ends it. -/
theorem node_number {n : Numeral} (h : numeral s = some (n, [])) (hrest : EndsNumeral rest) :
    node (fuel + 1) (s ++ rest) = some (.number n, rest) := by
  have happend := numeral_append hrest h
  obtain ⟨c, u, rfl, hc⟩ := head_of_numeral h
  rw [node, List.cons_append, skipBlanks_cons (head_numeral hc).1]
  split <;> simp_all

theorem node_items {nodes : List Node} (hskip : skipBlanks s = s) (hhead : s.head? ≠ some ']')
    (h : items fuel s = some (nodes, rest)) :
    node (fuel + 1) ('[' :: s) = some (.array nodes, rest) := by
  rw [node, skipBlanks_cons (by decide)]
  simp only [hskip]
  split
  · simp at hhead
  · simp [h]

theorem node_members {nodes : List (List Glyph × Node)} (hskip : skipBlanks s = s)
    (hhead : s.head? ≠ some '}') (h : members fuel s = some (nodes, rest)) :
    node (fuel + 1) ('{' :: s) = some (.object nodes, rest) := by
  rw [node, skipBlanks_cons (by decide)]
  simp only [hskip]
  split
  · simp at hhead
  · simp [h]

end Parser

/-! ## The node of a value -/

open LiveDoc.Json.Parser

/-- The numeral that a number is written as. -/
def Number.toNumeral (n : Number) : Numeral :=
  (Parser.numeral n.chars).elim ⟨false, [], [], none⟩ Prod.fst

/-- The text of a number is a numeral to its end, for integers and floats alike. -/
theorem Number.numeral_chars (n : Number) : Parser.numeral n.chars = some (n.toNumeral, []) := by
  obtain ⟨numeral, hchars⟩ := n.exists_numeral
  rw [toNumeral, hchars]
  rfl

theorem Number.ReadsBack.number?_toNumeral {n : Number} (h : n.ReadsBack) :
    n.toNumeral.number? = some n := by
  obtain ⟨numeral, hchars, hnumber⟩ := h
  rw [toNumeral, hchars]
  exact hnumber

namespace Value

mutual

/-- The node that the text of a value is read as. -/
def toNode : Value → Node
  | .null => .null
  | .bool b => .bool b
  | .number n => .number n.toNumeral
  | .string text => .string (text.toList.map Glyph.ofChar)
  | .array items => .array (itemNodes items)
  | .object members => .object (memberNodes members)

def itemNodes : List Value → List Node
  | [] => []
  | v :: rest => v.toNode :: itemNodes rest

def memberNodes : List (String × Value) → List (List Glyph × Node)
  | [] => []
  | (key, v) :: rest => (key.toList.map Glyph.ofChar, v.toNode) :: memberNodes rest

end

mutual

/-- A value whose numbers read back is what its node stands for. -/
theorem denotes_toNode : ∀ {v : Value}, v.AllNumbers Number.ReadsBack → v.toNode.Denotes v
  | .null, _ => fun limit => by simp [toNode, Node.value?, depth, canonical]
  | .bool b, _ => fun limit => by simp [toNode, Node.value?, depth, canonical]
  | .number n, h => by
    rw [toNode]
    exact Node.denotes_number (every_number.mp h).number?_toNumeral
  | .string text, _ => by
    rw [toNode]
    exact Node.denotes_string text
  | .array items, h => by
    rw [toNode]
    exact Node.denotes_array (denoteItems_itemNodes h)
  | .object members, h => by
    rw [toNode]
    exact Node.denotes_object (denoteMembers_memberNodes h.2)

theorem denoteItems_itemNodes : ∀ {items : List Value},
    everyItem (fun _ => True) Number.ReadsBack items → Node.DenoteItems (itemNodes items) items
  | [], _ => by
    rw [itemNodes]
    exact Node.denoteItems_nil
  | v :: items, h => by
    rw [itemNodes]
    exact Node.denoteItems_cons (denotes_toNode h.1) (denoteItems_itemNodes h.2)

theorem denoteMembers_memberNodes : ∀ {members : Fields},
    everyMember (fun _ => True) Number.ReadsBack members →
      Node.DenoteMembers (memberNodes members) members
  | [], _ => by
    rw [memberNodes]
    exact Node.denoteMembers_nil
  | (key, v) :: members, h => by
    rw [memberNodes]
    exact Node.denoteMembers_cons key (denotes_toNode h.1) (denoteMembers_memberNodes h.2)

end

end Value

/-! ## The text of a value -/

/-- The text of a value starts with a character that is neither blank nor closes a container. -/
theorem Value.head_chars (v : Value) :
    ∃ c s, v.chars = c :: s ∧ isBlank c = false ∧ c ≠ ']' ∧ c ≠ '}' := by
  cases v with
  | null => exact ⟨_, _, by rw [Value.chars], by decide, by decide, by decide⟩
  | bool b => cases b <;> exact ⟨_, _, by rw [Value.chars], by decide, by decide, by decide⟩
  | string text =>
    exact ⟨_, _, by rw [Value.chars, quote], by decide, by decide, by decide⟩
  | number n =>
    obtain ⟨c, s, hs, hc⟩ := head_of_numeral n.numeral_chars
    refine ⟨c, s, by rw [Value.chars, hs], ?_⟩
    exact head_numeral hc
  | array items =>
    cases items <;> exact ⟨_, _, by rw [Value.chars], by decide, by decide, by decide⟩
  | object members =>
    cases members <;> exact ⟨_, _, by rw [Value.chars], by decide, by decide, by decide⟩

/-- The text of a value starts with neither a blank nor the end of an array. -/
theorem Value.skipBlanks_chars (v : Value) (s : List Char) :
    skipBlanks (v.chars ++ s) = v.chars ++ s ∧ (v.chars ++ s).head? ≠ some ']' := by
  obtain ⟨c, u, hu, hblank, hclose, -⟩ := head_chars v
  rw [hu, List.cons_append, skipBlanks_cons hblank]
  exact ⟨rfl, by simpa using hclose⟩

/-- A comma or the end of an array ends a numeral. -/
theorem endsNumeral_itemsChars (items : List Value) (rest : List Char) :
    EndsNumeral (Value.itemsChars items ++ rest) := by
  cases items <;> exact endsNumeral_cons (by decide)

/-- A comma or the end of an object ends a numeral. -/
theorem endsNumeral_membersChars (members : Fields) (rest : List Char) :
    EndsNumeral (Value.membersChars members ++ rest) := by
  cases members <;> exact endsNumeral_cons (by decide)

mutual

/-- The reader takes the text of a value and nothing behind it. -/
theorem Parser.node_chars : ∀ (v : Value) (fuel : Nat) {rest : List Char},
    2 * v.chars.length ≤ fuel → EndsNumeral rest →
      Parser.node fuel (v.chars ++ rest) = some (v.toNode, rest)
  | .null, fuel, rest, hfuel, _ => by
    obtain ⟨fuel, rfl⟩ : ∃ f, fuel = f + 1 := ⟨fuel - 1, by simp [Value.chars] at hfuel; omega⟩
    rw [Value.chars, Value.toNode]
    rfl
  | .bool b, fuel, rest, hfuel, _ => by
    obtain ⟨fuel, rfl⟩ : ∃ f, fuel = f + 1 :=
      ⟨fuel - 1, by cases b <;> simp [Value.chars] at hfuel <;> omega⟩
    cases b <;> rw [Value.chars, Value.toNode] <;> rfl
  | .number n, fuel, rest, hfuel, hrest => by
    obtain ⟨c, s, hs, -⟩ := head_of_numeral n.numeral_chars
    obtain ⟨fuel, rfl⟩ : ∃ f, fuel = f + 1 :=
      ⟨fuel - 1, by simp [Value.chars, hs] at hfuel; omega⟩
    rw [Value.chars, Value.toNode]
    exact node_number n.numeral_chars hrest
  | .string text, fuel, rest, hfuel, _ => by
    obtain ⟨fuel, rfl⟩ : ∃ f, fuel = f + 1 :=
      ⟨fuel - 1, by simp [Value.chars, quote] at hfuel; omega⟩
    rw [Value.chars, Value.toNode]
    exact node_quote fuel text rest
  | .array [], fuel, rest, hfuel, _ => by
    obtain ⟨fuel, rfl⟩ : ∃ f, fuel = f + 1 := ⟨fuel - 1, by simp [Value.chars] at hfuel; omega⟩
    rw [Value.chars, Value.toNode, Value.itemNodes]
    rfl
  | .array (v :: items), fuel, rest, hfuel, _ => by
    have hlength : (Value.array (v :: items)).chars.length =
        v.chars.length + (Value.itemsChars items).length + 1 := by simp [Value.chars]
    -- Fuel goes down by one for the array and by one for its first item.
    obtain ⟨fuel, rfl⟩ : ∃ f, fuel = f + 2 := ⟨fuel - 2, by omega⟩
    have hnode := node_chars v fuel (by omega) (endsNumeral_itemsChars items rest)
    have htail := itemsTail_chars items fuel rest (by omega)
    obtain ⟨hskip, hhead⟩ := v.skipBlanks_chars (Value.itemsChars items ++ rest)
    rw [Value.chars, List.cons_append, List.append_assoc, Value.toNode, Value.itemNodes]
    exact node_items hskip hhead (items_of_node hnode htail)
  | .object [], fuel, rest, hfuel, _ => by
    obtain ⟨fuel, rfl⟩ : ∃ f, fuel = f + 1 := ⟨fuel - 1, by simp [Value.chars] at hfuel; omega⟩
    rw [Value.chars, Value.toNode, Value.memberNodes]
    rfl
  | .object ((key, v) :: members), fuel, rest, hfuel, _ => by
    have hlength : (Value.object ((key, v) :: members)).chars.length =
        (quote key).length + v.chars.length + (Value.membersChars members).length + 2 := by
      simp [Value.chars]
      omega
    obtain ⟨fuel, rfl⟩ : ∃ f, fuel = f + 2 := ⟨fuel - 2, by omega⟩
    have hnode := node_chars v fuel (by omega) (endsNumeral_membersChars members rest)
    have htail := membersTail_chars members fuel rest (by omega)
    rw [Value.chars, List.cons_append, List.append_assoc, List.cons_append, List.append_assoc,
      Value.toNode, Value.memberNodes]
    exact node_members (skipBlanks_cons (by decide) _) (by simp [quote])
      (members_of_node hnode htail)

theorem Parser.itemsTail_chars : ∀ (items : List Value) (fuel : Nat) (rest : List Char),
    2 * (Value.itemsChars items).length ≤ fuel + 1 →
      itemsTail fuel (Value.itemsChars items ++ rest) = some (Value.itemNodes items, rest)
  | [], fuel, rest, _ => by
    rw [Value.itemsChars, Value.itemNodes]
    rfl
  | v :: items, fuel, rest, hfuel => by
    have hlength : (Value.itemsChars (v :: items)).length =
        v.chars.length + (Value.itemsChars items).length + 1 := by simp [Value.itemsChars]
    obtain ⟨fuel, rfl⟩ : ∃ f, fuel = f + 1 := ⟨fuel - 1, by omega⟩
    have hnode := node_chars v fuel (by omega) (endsNumeral_itemsChars items rest)
    have htail := itemsTail_chars items fuel rest (by omega)
    rw [Value.itemsChars, List.cons_append, List.append_assoc, itemsTail,
      skipBlanks_cons (by decide), Value.itemNodes]
    exact items_of_node hnode htail

theorem Parser.membersTail_chars : ∀ (members : Fields) (fuel : Nat) (rest : List Char),
    2 * (Value.membersChars members).length ≤ fuel + 1 →
      membersTail fuel (Value.membersChars members ++ rest) =
        some (Value.memberNodes members, rest)
  | [], fuel, rest, _ => by
    rw [Value.membersChars, Value.memberNodes]
    rfl
  | (key, v) :: members, fuel, rest, hfuel => by
    have hlength : (Value.membersChars ((key, v) :: members)).length =
        (quote key).length + v.chars.length + (Value.membersChars members).length + 2 := by
      simp [Value.membersChars]
      omega
    obtain ⟨fuel, rfl⟩ : ∃ f, fuel = f + 1 := ⟨fuel - 1, by omega⟩
    have hnode := node_chars v fuel (by omega) (endsNumeral_membersChars members rest)
    have htail := membersTail_chars members fuel rest (by omega)
    rw [Value.membersChars, List.cons_append, List.append_assoc, List.cons_append,
      List.append_assoc, membersTail, skipBlanks_cons (by decide), Value.memberNodes]
    exact members_of_node hnode htail

end

/-- The text of a value is read as the node of the value. -/
theorem node?_text (v : Value) : node? v.text = some v.toNode := by
  have hnode := Parser.node_chars v (2 * v.chars.length + 1) (Nat.le_succ _) endsNumeral_nil
  rw [List.append_nil] at hnode
  rw [node?, Value.text, String.toList_ofList]
  simp only [hnode, Option.bind_eq_bind, Option.bind_some]
  rfl

/-- Parsing the text of a value comes to evaluating its tree under the limit on nesting. -/
theorem parse?_text_eq (v : Value) : parse? v.text = v.toNode.value? maxDepth := by
  rw [parse?, node?_text]
  rfl

/-- What reading the text of a value gives. -/
theorem parse?_text {v : Value} (h : v.AllNumbers Number.ReadsBack) :
    parse? v.text = if v.depth ≤ maxDepth then some v.canonical else none := by
  rw [parse?_text_eq]
  exact Value.denotes_toNode h maxDepth

/-! ## Members on their own -/

namespace Value

/-- What a value inside a text is read as; null if it can not be read. -/
def reread (limit : Nat) (v : Value) : Value := (v.toNode.value? limit).getD .null

/-- A value whose numbers read back, and that nests within the limit, is reread as its canonical
form. -/
theorem reread_eq_canonical {v : Value} {limit : Nat} (h : v.AllNumbers Number.ReadsBack)
    (hdepth : v.depth ≤ limit) : v.reread limit = v.canonical := by
  rw [reread, denotes_toNode h limit, if_pos hdepth]
  rfl

@[simp] theorem reread_string (limit : Nat) (text : String) :
    (Value.string text).reread limit = .string text := by
  rw [reread, toNode, Node.value?, Node.text?_ofChar]
  rfl

/-- What can be read at all is read as a value of its kind. -/
theorem kind_reread (limit : Nat) (v : Value) :
    v.reread limit = .null ∨ (v.reread limit).kind = v.kind := by
  unfold reread
  cases v with
  | null => exact .inl (by simp [toNode, Node.value?])
  | bool _ => exact .inr (by simp [toNode, Node.value?, kind])
  | string _ => exact .inr (by simp [toNode, Node.value?, Node.text?_ofChar, kind])
  | number n =>
    rw [toNode, Node.value?]
    cases n.toNumeral.number? with
    | none => exact .inl rfl
    | some m => exact .inr rfl
  | array items =>
    rw [toNode, Node.value?]
    split
    · exact .inl rfl
    · cases Node.itemsValue? (limit - 1) (itemNodes items) with
      | none => exact .inl rfl
      | some read => exact .inr rfl
  | object members =>
    rw [toNode, Node.value?]
    split
    · exact .inl rfl
    · cases Node.membersValue? (limit - 1) (memberNodes members) with
      | none => exact .inl rfl
      | some read => exact .inr rfl

/-- Nothing but a number is read as a number. -/
theorem exists_number_of_reread {v : Value} {limit : Nat} {n : Number}
    (h : v.reread limit = .number n) : ∃ m, v = .number m := by
  have hkind := kind_reread limit v
  rw [h] at hkind
  cases v with
  | number m => exact ⟨m, rfl⟩
  | _ => simp [kind] at hkind

/-- Nothing but a text is read as a text. -/
theorem text?_reread (limit : Nat) (v : Value) : (v.reread limit).text? = v.text? := by
  have hkind := kind_reread limit v
  cases v with
  | string text => rw [reread_string]
  | _ => cases hread : reread limit _ <;> simp_all [kind, text?]

end Value

theorem Node.membersValue?_memberNodes {limit : Nat} {members read : Fields}
    (h : membersValue? limit (Value.memberNodes members) = some read) :
    read = members.map fun entry => (entry.1, entry.2.reread limit) := by
  induction members generalizing read with
  | nil =>
    cases h
    rfl
  | cons entry rest ih =>
    obtain ⟨key, v⟩ := entry
    simp only [Value.memberNodes, membersValue?, text?_ofChar, Option.bind_eq_bind,
      Option.bind_some] at h
    obtain ⟨first, hfirst, h⟩ := Option.bind_eq_some_iff.mp h
    obtain ⟨more, hmore, h⟩ := Option.bind_eq_some_iff.mp h
    cases h
    simp [ih hmore, Value.reread, hfirst]

/-- If the node of an object can be read, then under each key it gives what was listed last. -/
theorem Value.exists_object_of_value? {members : Fields} {limit : Nat} {v : Value}
    (h : (Value.object members).toNode.value? limit = some v) :
    ∃ read, v = .object read ∧ ∀ key, KeyMap.get? read key =
      (KeyMap.get? members.reverse key).map (Value.reread (limit - 1)) := by
  rw [toNode, Node.value?] at h
  split at h
  · cases h
  · obtain ⟨read, hread, rfl⟩ := Option.map_eq_some_iff.mp h
    refine ⟨_, rfl, fun key => ?_⟩
    rw [KeyMap.get?_ofEntries, Node.membersValue?_memberNodes hread, ← List.map_reverse,
      KeyMap.get?_mapValues]

/-- If the text of an object can be read, then under each key it gives what was listed last. -/
theorem parse?_object_text {members : Fields} {v : Value}
    (h : parse? (Value.object members).text = some v) :
    ∃ read, v = .object read ∧ ∀ key, KeyMap.get? read key =
      (KeyMap.get? members.reverse key).map (Value.reread (maxDepth - 1)) := by
  rw [parse?_text_eq] at h
  exact Value.exists_object_of_value? h

end LiveDoc.Json

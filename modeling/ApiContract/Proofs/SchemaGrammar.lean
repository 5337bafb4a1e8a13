import ApiContract.Proofs.ObjectProperties

/-!
The grammar of schemas. A schema is of one form, which its keywords decide; the form says what shape
it has to have, which schemas inside it are visited, and which of its keywords are read as what.
-/

namespace ApiContract

/-! ## Values of JSON -/

/-- What JSON can hold: mappings have texts as keys. -/
inductive Value.OfJson : Value → Prop
  | null : OfJson .null
  | bool {b : Bool} : OfJson (.bool b)
  | int {n : Int} : OfJson (.int n)
  | float {x : Binary64} : OfJson (.float x)
  | str {s : String} : OfJson (.str s)
  | seq {items : List Value} : (∀ v ∈ items, v.OfJson) → OfJson (.seq items 0)
  | map {members : Members} : (∀ m ∈ members, ∃ key, m.1 = .str key) → (∀ m ∈ members, m.2.OfJson) →
      OfJson (.map members 0)

namespace Value.OfJson

variable {raw : Members} {knot : Nat}

theorem keys (h : (Value.map raw knot).OfJson) : ∀ m ∈ raw, ∃ key, m.1 = .str key := by
  cases h with
  | map hkeys => exact hkeys

theorem members (h : (Value.map raw knot).OfJson) : ∀ m ∈ raw, m.2.OfJson := by
  cases h with
  | map _ hall => exact hall

theorem get? (h : (Value.map raw knot).OfJson) {key : String} {v : Value}
    (hget : raw.get? key = some v) : v.OfJson :=
  h.members _ (Members.mem_of_get? hget)

end Value.OfJson

/-- Some whole number in a value has too many digits to be written. -/
def Value.HoldsOverlong (v : Value) : Prop := ∃ n, (Value.int n).Inside v ∧ Text.hasDigits n = false

/-- A run fails, with one issue, exactly if `P` holds. -/
structure FailsIff {ε α : Type} (P : Prop) (i : ε) (x : Except ε α) : Prop where
  fails : P → x = .error i
  succeeds : ¬ P → ∃ a, x = .ok a

namespace FailsIff

variable {ε ε' α β : Type} {P Q : Prop} {i : ε} {x : Except ε α}

theorem ok (h : ¬ P) (a : α) : FailsIff P i (.ok a : Except ε α) :=
  ⟨fun hp => absurd hp h, fun _ => ⟨a, rfl⟩⟩

theorem error (h : P) : FailsIff P i (.error i : Except ε α) :=
  ⟨fun _ => rfl, fun hp => absurd h hp⟩

theorem congr (h : FailsIff P i x) (hPQ : P ↔ Q) : FailsIff Q i x :=
  ⟨fun hq => h.fails (hPQ.mpr hq), fun hq => h.succeeds fun hp => hq (hPQ.mp hp)⟩

theorem map (h : FailsIff P i x) (f : α → β) : FailsIff P i (x.map f) := by
  refine ⟨fun hp => ?_, fun hp => ?_⟩
  · rw [h.fails hp]
    rfl
  · obtain ⟨a, ha⟩ := h.succeeds hp
    exact ⟨f a, by rw [ha]; rfl⟩

theorem mapError (h : FailsIff P i x) (f : ε → ε') : FailsIff P (f i) (x.mapError f) := by
  refine ⟨fun hp => ?_, fun hp => ?_⟩
  · rw [h.fails hp]
    rfl
  · obtain ⟨a, ha⟩ := h.succeeds hp
    exact ⟨a, by rw [ha]; rfl⟩

/-- A walk fails if one of its steps does. -/
theorem mapM {S : α → Prop} {f : α → Except ε β} {xs : List α}
    (h : ∀ a ∈ xs, FailsIff (S a) i (f a)) : FailsIff (∃ a ∈ xs, S a) i (xs.mapM f) := by
  induction xs with
  | nil => exact ok (by simp) []
  | cons a xs ih =>
    obtain ⟨ha, hxs⟩ := List.forall_mem_cons.mp h
    rw [List.mapM_cons]
    by_cases hs : S a
    · rw [ha.fails hs]
      exact error ⟨a, List.mem_cons_self, hs⟩
    · obtain ⟨b, hb⟩ := ha.succeeds hs
      rw [hb]
      refine ((ih hxs).map (b :: ·)).congr ?_
      simp [hs]

end FailsIff

namespace Value

theorem holdsOverlong_scalar {s : Scalar} :
    (Value.scalar s).HoldsOverlong ↔ ∃ n, s = .int n ∧ Text.hasDigits n = false := by
  constructor
  · intro h
    obtain ⟨n, hin, hn⟩ := h
    cases hin
    exact ⟨n, rfl, hn⟩
  · intro h
    obtain ⟨n, rfl, hn⟩ := h
    exact ⟨n, .whole, hn⟩

theorem holdsOverlong_seq {items : List Value} {knot : Nat} :
    (Value.seq items knot).HoldsOverlong ↔ ∃ v ∈ items, v.HoldsOverlong := by
  constructor
  · intro h
    obtain ⟨n, hin, hn⟩ := h
    cases hin with
    | item hv hin => exact ⟨_, hv, n, hin, hn⟩
  · intro h
    obtain ⟨v, hv, n, hin, hn⟩ := h
    exact ⟨n, .item hv hin, hn⟩

theorem holdsOverlong_map {members : Members} {knot : Nat} :
    (Value.map members knot).HoldsOverlong ↔ ∃ m ∈ members, m.2.HoldsOverlong := by
  constructor
  · intro h
    obtain ⟨n, hin, hn⟩ := h
    cases hin with
    | member hm hin => exact ⟨_, hm, n, hin, hn⟩
  · intro h
    obtain ⟨m, hm, n, hin, hn⟩ := h
    exact ⟨n, .member hm hin, hn⟩

end Value

theorem Json.text_seq (items : List Value) :
    Json.text (.seq items 0) = (Json.itemTexts [] items).map Json.listText := by
  rw [Json.text, Json.textIn]
  change (Json.itemTexts [] items >>= fun parts => pure (Json.listText parts)) = _
  cases Json.itemTexts [] items <;> rfl

theorem Json.text_map (members : Members) :
    Json.text (.map members 0) = (Json.memberTexts [] members).map Json.objectText := by
  rw [Json.text, Json.textIn]
  change (Json.memberTexts [] members >>= fun parts => pure (Json.objectText parts)) = _
  cases Json.memberTexts [] members <;> rfl

theorem Json.itemTexts_eq (items : List Value) : Json.itemTexts [] items = items.mapM Json.text := by
  induction items with
  | nil => rfl
  | cons v vs ih =>
    rw [Json.itemTexts, ih, List.mapM_cons]
    rfl

/-- Members whose keys are texts are written if their values are. -/
theorem Json.memberTexts_eq {members : Members} (h : ∀ m ∈ members, ∃ key, m.1 = .str key) :
    Json.memberTexts [] members = members.mapM fun m =>
      (Json.text m.2).map fun part => Text.quoteAscii m.1.plain ++ ": " ++ part := by
  induction members with
  | nil => rfl
  | cons m rest ih =>
    obtain ⟨k, v⟩ := m
    obtain ⟨⟨key, rfl⟩, hrest⟩ := List.forall_mem_cons.mp h
    rw [Json.memberTexts, ih hrest, List.mapM_cons]
    change (Json.text v >>= _) = _
    cases Json.text v <;> rfl

/-- Of the values that JSON can hold, those with a number that is too long are not written. -/
theorem Value.OfJson.text_fails {v : Value} (h : v.OfJson) :
    FailsIff v.HoldsOverlong .outOfRange (Json.text v) := by
  induction h with
  | null => exact .ok (by simp [Value.holdsOverlong_scalar]) _
  | bool => exact .ok (by simp [Value.holdsOverlong_scalar]) _
  | @int n =>
    rw [Json.text, Json.textIn, Json.scalarText, Json.bareText]
    · split
      · next hn => exact .ok (by simp [Value.holdsOverlong_scalar, hn]) _
      · next hn => exact .error (Value.holdsOverlong_scalar.mpr ⟨n, rfl, by simpa using hn⟩)
    · simp
  | float => exact .ok (by simp [Value.holdsOverlong_scalar]) _
  | str => exact .ok (by simp [Value.holdsOverlong_scalar]) _
  | @seq items _ ih =>
    rw [Json.text_seq, Json.itemTexts_eq]
    exact ((FailsIff.mapM ih).map _).congr Value.holdsOverlong_seq.symm
  | @map members hkeys _ ih =>
    rw [Json.text_map, Json.memberTexts_eq hkeys]
    exact ((FailsIff.mapM fun m hm => (ih m hm).map _).map _).congr Value.holdsOverlong_map.symm

theorem Value.itemsHaveSpelling_eq (items : List Value) :
    Value.itemsHaveSpelling [] items = items.all Value.hasSpelling := by
  induction items with
  | nil => rfl
  | cons v vs ih =>
    rw [Value.itemsHaveSpelling, ih, List.all_cons]
    rfl

theorem Value.membersHaveSpelling_eq (members : Members) : Value.membersHaveSpelling [] members =
    members.all fun m => m.1.hasSpelling && m.2.hasSpelling := by
  induction members with
  | nil => rfl
  | cons m rest ih =>
    obtain ⟨k, v⟩ := m
    rw [Value.membersHaveSpelling, ih, List.all_cons]
    rfl

/-- The same values cannot be shown in a message. -/
theorem Value.OfJson.hasSpelling_iff {v : Value} (h : v.OfJson) :
    v.hasSpelling = true ↔ ¬ v.HoldsOverlong := by
  induction h with
  | null => simp [Value.hasSpelling, Value.hasSpellingIn, Scalar.hasSpelling, holdsOverlong_scalar]
  | bool => simp [Value.hasSpelling, Value.hasSpellingIn, Scalar.hasSpelling, holdsOverlong_scalar]
  | int => simp [Value.hasSpelling, Value.hasSpellingIn, Scalar.hasSpelling, holdsOverlong_scalar]
  | float => simp [Value.hasSpelling, Value.hasSpellingIn, Scalar.hasSpelling, holdsOverlong_scalar]
  | str => simp [Value.hasSpelling, Value.hasSpellingIn, Scalar.hasSpelling, holdsOverlong_scalar]
  | @seq items _ ih =>
    have hall : (Value.seq items 0).hasSpelling = items.all Value.hasSpelling :=
      Value.itemsHaveSpelling_eq items
    rw [hall, List.all_eq_true, Value.holdsOverlong_seq]
    push Not
    exact forall₂_congr ih
  | @map members hkeys _ ih =>
    have hall : (Value.map members 0).hasSpelling =
        members.all fun m => m.1.hasSpelling && m.2.hasSpelling :=
      Value.membersHaveSpelling_eq members
    rw [hall, List.all_eq_true, Value.holdsOverlong_map]
    push Not
    refine forall₂_congr fun m hm => ?_
    obtain ⟨key, hkey⟩ := hkeys m hm
    rw [hkey, ← ih m hm]
    simp [Scalar.hasSpelling]

namespace Schema

/-! ## Forms -/

inductive Form where
  | ref
  | enum
  | string
  | number
  | boolean
  | array
  | object
  | any
deriving Repr, DecidableEq

def Kind.form : Kind → Form
  | .ref _ => .ref
  | .enum _ => .enum
  | .string => .string
  | .number _ => .number
  | .boolean => .boolean
  | .array => .array
  | .object => .object
  | .any => .any

section Keywords

variable (raw : Members)

def Has (key : String) : Prop := ∃ v, raw.get? key = some v

def Typed (name : String) : Prop := raw.get? "type" = some (.str name)

/-- No type is named; null is none. -/
def Untyped : Prop := raw.get? "type" = none ∨ raw.get? "type" = some .null

/-- The names of types that are known. -/
def typeNames : List String := ["string", "number", "integer", "boolean", "array", "object"]

/-- The form that keywords ask for: a reference comes first, then an enumeration of texts, then the
named type, and without one `items`, then `properties`. -/
inductive HasForm : Form → Prop
  | ref : Has raw "$ref" → HasForm .ref
  | enum : ¬ Has raw "$ref" → Has raw "enum" → Untyped raw ∨ Typed raw "string" → HasForm .enum
  | string : ¬ Has raw "$ref" → ¬ Has raw "enum" → Typed raw "string" → HasForm .string
  | number : ¬ Has raw "$ref" → Typed raw "number" ∨ Typed raw "integer" → HasForm .number
  | boolean : ¬ Has raw "$ref" → Typed raw "boolean" → HasForm .boolean
  | array : ¬ Has raw "$ref" → Typed raw "array" → HasForm .array
  | items : ¬ Has raw "$ref" → Untyped raw → ¬ Has raw "enum" → Has raw "items" → HasForm .array
  | object : ¬ Has raw "$ref" → Typed raw "object" → HasForm .object
  | properties : ¬ Has raw "$ref" → Untyped raw → ¬ Has raw "enum" → ¬ Has raw "items" →
      Has raw "properties" → HasForm .object
  | unknown : ¬ Has raw "$ref" → ¬ Untyped raw → (∀ name ∈ typeNames, ¬ Typed raw name) →
      HasForm .any
  | any : ¬ Has raw "$ref" → Untyped raw → ¬ Has raw "enum" → ¬ Has raw "items" →
      ¬ Has raw "properties" → HasForm .any

end Keywords

variable {raw : Members} {form : Form} {name : String}

theorem isSome_get?_iff {key : String} : (raw.get? key).isSome = true ↔ Has raw key :=
  Option.isSome_iff_exists

/-- Without a type, the keywords that are there decide. -/
theorem form_of_untyped (href : raw.get? "$ref" = none) (h : Untyped raw) :
    (kindOf raw).form =
      if (raw.get? "enum").isSome then .enum
      else if (raw.get? "items").isSome then .array
      else if (raw.get? "properties").isSome then .object
      else .any := by
  have htype : (raw.get? "type").getD .null = .null := by
    obtain h | h := h
    · rw [h]; rfl
    · rw [h]; rfl
  simp only [kindOf, href, htype]
  cases raw.get? "enum" with
  | some values => rfl
  | none =>
    simp only [Value.isStr, Bool.false_or, Bool.true_and, Bool.false_eq_true, if_false,
      Option.isSome_none]
    split
    · rfl
    · split
      · rfl
      · rfl

/-- With a type that is a text, only an enumeration is preferred to it. -/
theorem form_of_typed (href : raw.get? "$ref" = none) (h : Typed raw name) :
    (kindOf raw).form =
      if name = "string" then if (raw.get? "enum").isSome then .enum else .string
      else if name = "number" ∨ name = "integer" then .number
      else if name = "boolean" then .boolean
      else if name = "array" then .array
      else if name = "object" then .object
      else .any := by
  have htype : (raw.get? "type").getD .null = .str name := by rw [h]; rfl
  simp only [kindOf, href, htype, Value.isStr, Bool.false_or, Bool.false_and, Bool.or_false,
    beq_iff_eq]
  by_cases hstring : name = "string"
  · subst hstring
    cases raw.get? "enum" with
    | some values => rfl
    | none => rfl
  · rw [if_neg hstring, if_neg hstring, beq_false_of_ne hstring]
    cases raw.get? "enum" with
    | _ =>
      simp only
      grind [Kind.form]

/-- A type that is no known name asks for no form. -/
theorem form_of_unknown (href : raw.get? "$ref" = none) (huntyped : ¬ Untyped raw)
    (h : ∀ name ∈ typeNames, ¬ Typed raw name) : (kindOf raw).form = .any := by
  cases htype : raw.get? "type" with
  | none => exact absurd (.inl htype) huntyped
  | some v =>
    by_cases htext : ∃ name, v = .str name
    · obtain ⟨name, rfl⟩ := htext
      have hname : name ∉ typeNames := fun hmem => h name hmem htype
      simp only [typeNames, List.mem_cons, List.not_mem_nil, or_false, not_or] at hname
      rw [form_of_typed href htype]
      simp [hname]
    · have hnull : v ≠ .null := by
        intro heq
        rw [heq] at htype
        exact huntyped (.inr htype)
      have hstr : ∀ name, v.isStr name = false := by
        intro name
        unfold Value.isStr
        split
        · next s => exact absurd ⟨s, rfl⟩ htext
        · rfl
      simp only [kindOf, href, htype, Option.getD_some, hstr, Bool.or_false]
      cases v with
      | scalar s =>
        cases s with
        | null => exact absurd rfl hnull
        | _ => cases raw.get? "enum" <;> rfl
      | _ => cases raw.get? "enum" <;> rfl

theorem not_has_iff {key : String} : ¬ Has raw key ↔ raw.get? key = none := by
  rw [← isSome_get?_iff, Bool.not_eq_true, Option.isSome_eq_false_iff, Option.isNone_iff_eq_none]

/-- The reader takes a schema for what its keywords ask for. -/
theorem HasForm.form_kindOf (h : HasForm raw form) : (kindOf raw).form = form := by
  cases h with
  | ref href =>
    obtain ⟨pointer, href⟩ := href
    simp only [kindOf, href]
    rfl
  | enum href henum htype =>
    rw [not_has_iff] at href
    obtain huntyped | htyped := htype
    · rw [form_of_untyped href huntyped, if_pos (isSome_get?_iff.mpr henum)]
    · rw [form_of_typed href htyped, if_pos rfl, if_pos (isSome_get?_iff.mpr henum)]
  | string href henum htyped =>
    rw [not_has_iff] at href
    rw [form_of_typed href htyped, if_pos rfl, if_neg (mt isSome_get?_iff.mp henum)]
  | number href htyped =>
    rw [not_has_iff] at href
    obtain htyped | htyped := htyped
    · rw [form_of_typed href htyped]
      simp
    · rw [form_of_typed href htyped]
      simp
  | boolean href htyped =>
    rw [form_of_typed (not_has_iff.mp href) htyped]
    simp
  | array href htyped =>
    rw [form_of_typed (not_has_iff.mp href) htyped]
    simp
  | items href huntyped henum hitems =>
    rw [form_of_untyped (not_has_iff.mp href) huntyped, if_neg (mt isSome_get?_iff.mp henum),
      if_pos (isSome_get?_iff.mpr hitems)]
  | object href htyped =>
    rw [form_of_typed (not_has_iff.mp href) htyped]
    simp
  | properties href huntyped henum hitems hproperties =>
    rw [form_of_untyped (not_has_iff.mp href) huntyped, if_neg (mt isSome_get?_iff.mp henum),
      if_neg (mt isSome_get?_iff.mp hitems), if_pos (isSome_get?_iff.mpr hproperties)]
  | unknown href huntyped htyped => exact form_of_unknown (not_has_iff.mp href) huntyped htyped
  | any href huntyped henum hitems hproperties =>
    rw [form_of_untyped (not_has_iff.mp href) huntyped, if_neg (mt isSome_get?_iff.mp henum),
      if_neg (mt isSome_get?_iff.mp hitems), if_neg (mt isSome_get?_iff.mp hproperties)]

theorem hasForm_of_untyped (hhas : ¬ Has raw "$ref") (huntyped : Untyped raw) :
    HasForm raw (kindOf raw).form := by
  rw [form_of_untyped (not_has_iff.mp hhas) huntyped]
  split
  · next henum => exact .enum hhas (isSome_get?_iff.mp henum) (.inl huntyped)
  · next henum =>
    have henum := mt isSome_get?_iff.mpr henum
    split
    · next hitems => exact .items hhas huntyped henum (isSome_get?_iff.mp hitems)
    · next hitems =>
      have hitems := mt isSome_get?_iff.mpr hitems
      split
      · next hproperties =>
        exact .properties hhas huntyped henum hitems (isSome_get?_iff.mp hproperties)
      · next hproperties =>
        exact .any hhas huntyped henum hitems (mt isSome_get?_iff.mpr hproperties)

theorem hasForm_of_typed (hhas : ¬ Has raw "$ref") (hname : name ∈ typeNames)
    (htyped : Typed raw name) : HasForm raw (kindOf raw).form := by
  rw [form_of_typed (not_has_iff.mp hhas) htyped]
  simp only [typeNames, List.mem_cons, List.not_mem_nil, or_false] at hname
  obtain rfl | rfl | rfl | rfl | rfl | rfl := hname
  · rw [if_pos rfl]
    split
    · next henum => exact .enum hhas (isSome_get?_iff.mp henum) (.inr htyped)
    · next henum => exact .string hhas (mt isSome_get?_iff.mpr henum) htyped
  · exact .number hhas (.inl htyped)
  · exact .number hhas (.inr htyped)
  · exact .boolean hhas htyped
  · exact .array hhas htyped
  · exact .object hhas htyped

/-- Keywords always ask for some form: the one that the reader takes. -/
theorem hasForm_form_kindOf (raw : Members) : HasForm raw (kindOf raw).form := by
  by_cases hhas : Has raw "$ref"
  · obtain ⟨pointer, href⟩ := hhas
    simp only [kindOf, href]
    exact .ref ⟨pointer, href⟩
  by_cases huntyped : Untyped raw
  · exact hasForm_of_untyped hhas huntyped
  by_cases htyped : ∃ name ∈ typeNames, Typed raw name
  · obtain ⟨name, hname, htyped⟩ := htyped
    exact hasForm_of_typed hhas hname htyped
  · have hnone : ∀ name ∈ typeNames, ¬ Typed raw name := fun name hname h =>
      htyped ⟨name, hname, h⟩
    rw [form_of_unknown (not_has_iff.mp hhas) huntyped hnone]
    exact .unknown hhas huntyped hnone

theorem hasForm_iff : HasForm raw form ↔ (kindOf raw).form = form := by
  constructor
  · exact HasForm.form_kindOf
  · intro h
    rw [← h]
    exact hasForm_form_kindOf raw

theorem hasForm_of_kindOf {kind : Kind} (h : kindOf raw = kind) : HasForm raw kind.form :=
  hasForm_iff.mpr (congrArg Kind.form h)

theorem HasForm.unique {other : Form} (h : HasForm raw form) (h' : HasForm raw other) :
    form = other :=
  h.form_kindOf.symm.trans h'.form_kindOf

theorem get?_of_kindOf_ref {pointer : Value} (h : kindOf raw = .ref pointer) :
    raw.get? "$ref" = some pointer := by
  cases href : raw.get? "$ref" with
  | some v =>
    simp only [kindOf, href] at h
    cases h
    rfl
  | none =>
    cases hasForm_of_kindOf h with
    | ref hhas => exact absurd href (mt not_has_iff.mpr (not_not_intro hhas))

theorem get?_of_kindOf_enum {values : Value} (h : kindOf raw = .enum values) :
    raw.get? "enum" = some values := by
  unfold kindOf at h
  cases href : raw.get? "$ref" with
  | some v =>
    rw [href] at h
    cases h
  | none =>
    rw [href] at h
    simp only at h
    split at h
    · next v _ henum _ =>
      cases h
      exact henum
    · grind

/-! ## Shapes -/

/-- What may stand where an object lists the names that it requires: a list, a mark for the parent,
or what counts as nothing. -/
inductive ListsRequired : Option Value → Prop
  | absent : ListsRequired none
  | falsy {v : Value} : v.truthy = false → ListsRequired (some v)
  | mark {b : Bool} : ListsRequired (some (.bool b))
  | names {items : List Value} {knot : Nat} : ListsRequired (some (.seq items knot))

/-- A value has the shape of its form. -/
inductive Shaped : Value → Prop
  | null : Shaped .null
  | ref {members : Members} {knot : Nat} {pointer : String} : HasForm members .ref →
      members.get? "$ref" = some (.str pointer) → componentPointer.toList <+: pointer.toList →
      Shaped (.map members knot)
  | enum {members : Members} {knot k : Nat} {items : List Value} : HasForm members .enum →
      members.get? "enum" = some (.seq items k) → items ≠ [] → Shaped (.map members knot)
  | object {members : Members} {knot : Nat} : HasForm members .object →
      Value.Mapped (members.get? "properties") → ListsRequired (members.get? "required") →
      Shaped (.map members knot)
  | other {members : Members} {knot : Nat} {form : Form} : HasForm members form →
      form ∉ [Form.ref, .enum, .object] → Shaped (.map members knot)

/-- A value would have to be written whose text has a whole number of too many digits in it: a
reference that is refused, or an enumerated value. -/
inductive Unwritable : Value → Prop
  | pointer {members : Members} {knot : Nat} {v : Value} : members.get? "$ref" = some v →
      v.HoldsOverlong → Unwritable (.map members knot)
  | value {members : Members} {knot k : Nat} {items : List Value} {v : Value} :
      HasForm members .enum → members.get? "enum" = some (.seq items k) → v ∈ items →
      v.HoldsOverlong → Unwritable (.map members knot)

section Shapes

variable {members : Members} {knot : Nat}

theorem shaped_ref_iff (h : HasForm members .ref) : Shaped (.map members knot) ↔
    ∃ pointer : String, members.get? "$ref" = some (.str pointer) ∧
      componentPointer.toList <+: pointer.toList := by
  constructor
  · intro hshaped
    cases hshaped with
    | ref _ hget hpointer => exact ⟨_, hget, hpointer⟩
    | enum hother => cases h.unique hother
    | object hother => cases h.unique hother
    | other hother hno => exact absurd (by simp) (h.unique hother ▸ hno)
  · intro hpointer
    obtain ⟨pointer, hget, hpointer⟩ := hpointer
    exact .ref h hget hpointer

theorem shaped_enum_iff (h : HasForm members .enum) : Shaped (.map members knot) ↔
    ∃ items k, members.get? "enum" = some (.seq items k) ∧ items ≠ [] := by
  constructor
  · intro hshaped
    cases hshaped with
    | ref hother => cases h.unique hother
    | enum _ hget hne => exact ⟨_, _, hget, hne⟩
    | object hother => cases h.unique hother
    | other hother hno => exact absurd (by simp) (h.unique hother ▸ hno)
  · intro hitems
    obtain ⟨items, k, hget, hne⟩ := hitems
    exact .enum h hget hne

theorem shaped_object_iff (h : HasForm members .object) : Shaped (.map members knot) ↔
    Value.Mapped (members.get? "properties") ∧ ListsRequired (members.get? "required") := by
  constructor
  · intro hshaped
    cases hshaped with
    | ref hother => cases h.unique hother
    | enum hother => cases h.unique hother
    | object _ hmapped hlists => exact ⟨hmapped, hlists⟩
    | other hother hno => exact absurd (by simp) (h.unique hother ▸ hno)
  · intro hboth
    exact .object h hboth.1 hboth.2

theorem unwritable_ref_iff {pointer : Value} (hget : members.get? "$ref" = some pointer) :
    Unwritable (.map members knot) ↔ pointer.HoldsOverlong := by
  constructor
  · intro h
    cases h with
    | pointer hget' hlong =>
      rw [hget] at hget'
      cases hget'
      exact hlong
    | value henum => cases henum.unique (.ref ⟨_, hget⟩)
  · exact .pointer hget

theorem unwritable_enum_iff (hform : HasForm members .enum) : Unwritable (.map members knot) ↔
    ∃ items k, members.get? "enum" = some (.seq items k) ∧ ∃ v ∈ items, v.HoldsOverlong := by
  constructor
  · intro h
    cases h with
    | pointer href => cases hform.unique (.ref ⟨_, href⟩)
    | value _ hget hv hlong => exact ⟨_, _, hget, _, hv, hlong⟩
  · intro h
    obtain ⟨items, k, hget, v, hv, hlong⟩ := h
    exact .value hform hget hv hlong

/-- A form other than a reference and an enumeration has nothing to write. -/
theorem not_unwritable (h : HasForm members form) (hform : form ∉ [Form.ref, .enum]) :
    ¬ Unwritable (.map members knot) := by
  intro hfails
  cases hfails with
  | pointer hget => exact hform (h.unique (.ref ⟨_, hget⟩) ▸ by simp)
  | value henum => exact hform (h.unique henum ▸ by simp)

end Shapes

/-! ## Keywords -/

inductive KeywordType where
  | text
  | integer
  | numeral

/-- A whole number: itself, a truth value, a float without a fraction that is not too large, or a
text that says one. -/
inductive IsInteger : Value → Prop
  | bool {b : Bool} : IsInteger (.bool b)
  | int {n : Int} : IsInteger (.int n)
  | float {x : Binary64} {n : Int} : x.toInt? = some n → n.natAbs < Nat.pow 2 63 →
      IsInteger (.float x)
  | text {s : String} {n : Int} : Field.integerText s = .ok n → IsInteger (.str s)

/-- What a keyword holds is of its type; null is a keyword left out. -/
inductive Fits : KeywordType → Option Value → Prop
  | absent {type : KeywordType} : Fits type none
  | null {type : KeywordType} : Fits type (some .null)
  | text {s : String} : Fits .text (some (.str s))
  | integer {v : Value} : IsInteger v → Fits .integer (some v)
  | whole {v : Value} : IsInteger v → Fits .numeral (some v)
  | float {x : Binary64} : Fits .numeral (some (.float x))
  | floatText {s : String} {x : Binary64} : Field.floatText? s = some x →
      Fits .numeral (some (.str s))

/-- The keywords that a schema of some form reads, but for those that its shape is made of. -/
def keywords : Form → List (String × KeywordType)
  | .string => [("description", .text), ("format", .text), ("pattern", .text),
      ("minLength", .integer), ("maxLength", .integer)]
  | .number => [("description", .text), ("minimum", .numeral), ("maximum", .numeral)]
  | .array => [("description", .text), ("minItems", .integer), ("maxItems", .integer)]
  | _ => [("description", .text)]

/-- Every keyword that is read is of its type. -/
def Keyworded (raw : Members) : Prop :=
  ∀ form, HasForm raw form → ∀ keyword ∈ keywords form, Fits keyword.2 (raw.get? keyword.1)

theorem keyworded_iff (h : HasForm raw form) :
    Keyworded raw ↔ ∀ keyword ∈ keywords form, Fits keyword.2 (raw.get? keyword.1) := by
  constructor
  · intro hall
    exact hall form h
  · intro hall other hother
    rw [← hasForm_iff.mp hother, hasForm_iff.mp h]
    exact hall

/-! ## Reading keywords -/

theorem text_reads {v : Value} (h : v.OfJson) : (∃ s, Field.text v = .ok s) ↔ ∃ s, v = .str s := by
  cases h <;> simp [Field.text]

theorem integer_reads {v : Value} (h : v.OfJson) : (∃ n, Field.integer v = .ok n) ↔ IsInteger v := by
  cases h with
  | bool => exact iff_of_true ⟨_, rfl⟩ .bool
  | int => exact iff_of_true ⟨_, rfl⟩ .int
  | @float x =>
    constructor
    · intro hread
      obtain ⟨n, hread⟩ := hread
      simp only [Field.integer] at hread
      split at hread
      · cases hread
      · split at hread
        · cases hread
        · next k hk =>
          split at hread
          · next hsmall => exact .float hk hsmall
          · cases hread
    · intro hinteger
      cases hinteger with
      | @float _ n hx hn =>
        have hfinite : x.isFinite = true := by
          cases x with
          | finite => rfl
          | _ => cases hx
        exact ⟨n, by simp only [Field.integer, hfinite, hx, hn]; rfl⟩
  | str =>
    constructor
    · intro hread
      obtain ⟨n, hread⟩ := hread
      exact .text hread
    · intro hinteger
      cases hinteger with
      | text hread => exact ⟨_, hread⟩
  | null => exact iff_of_false (by simp [Field.integer]) nofun
  | seq => exact iff_of_false (by simp [Field.integer]) nofun
  | map => exact iff_of_false (by simp [Field.integer]) nofun

theorem numeral_reads {v : Value} (h : v.OfJson) : (∃ n, Field.numeral v = .ok n) ↔
    IsInteger v ∨ (∃ x, v = .float x) ∨ ∃ s x, v = .str s ∧ Field.floatText? s = some x := by
  have hinteger := integer_reads h
  cases h with
  | float => simp [Field.numeral]
  | @str s =>
    rw [← hinteger]
    simp only [Field.numeral, Field.writtenFloat?]
    cases Field.integer (.str s) with
    | ok n => simp
    | error fault => cases hx : Field.floatText? s <;> simp [hx]
  | _ =>
    rw [← hinteger]
    simp only [Field.numeral, Field.writtenFloat?]
    split <;> simp_all

end Schema

end ApiContract

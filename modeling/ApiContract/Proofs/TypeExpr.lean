import ApiContract.Proofs.Modifiers
import ApiContract.Proofs.Translation
import ApiContract.Validator.Printer

/-!
The types that are spelled out for recursive components, as types: what is written for a validator
is the text of a type, and values at run time have it or not. Names in a type stand for the types of
components, which may lead back to it.
-/

namespace ApiContract.Validator

/-- A type as it is written. A field has its key, whether the key may be missing, and its type. -/
inductive TypeExpr where
  | string
  | number
  | boolean
  | any
  | literals (values : List String)
  | named (name : String)
  | array (item : TypeExpr)
  | orNull (type : TypeExpr)
  | orUndefined (type : TypeExpr)
  | object (fields : List (String × Bool × TypeExpr))

namespace TypeExpr

mutual

def text (style : Style) (depth : Nat) : TypeExpr → String
  | .string => "string"
  | .number => "number"
  | .boolean => "boolean"
  | .any => "any"
  | .literals values => " | ".intercalate (values.map style.quote)
  | .named name => name
  | .array item => "Array<" ++ text style depth item ++ ">"
  | .orNull type => text style depth type ++ " | null"
  | .orUndefined type => text style depth type ++ " | undefined"
  | .object fields => braced style depth "\n" (fieldTexts style (depth + 1) fields)

def fieldTexts (style : Style) (depth : Nat) : List (String × Bool × TypeExpr) → List String
  | [] => []
  | (key, optional, type) :: rest =>
    (style.indent depth ++ style.quote key ++ (if optional then "?" else "") ++ ": " ++
      text style depth type ++ ";") :: fieldTexts style depth rest

end

mutual

/-- The values of a type, given those of the named ones. A later field of the same key takes the
place of an earlier one. -/
def Has (names : String → Datum → Prop) : TypeExpr → Datum → Prop
  | .string, v => ∃ s, v = .string s
  | .number, v => ∃ q, v = .number q
  | .boolean, v => ∃ b, v = .bool b
  | .any, _ => True
  | .literals values, v => ∃ s ∈ values, v = .string s
  | .named name, v => names name v
  | .array item, v => ∃ vs, v = .array vs ∧ ∀ w ∈ vs, Has names item w
  | .orNull type, v => Has names type v ∨ v = .null
  | .orUndefined type, v => Has names type v ∨ v = .undefined
  | .object fields, v => ∃ ms, v = .object ms ∧ FieldsHave names ms fields

/-- A field whose key may not be missing demands it; where it is there it demands its type. -/
def FieldsHave (names : String → Datum → Prop) (ms : List (String × Datum)) :
    List (String × Bool × TypeExpr) → Prop
  | [] => True
  | (key, optional, type) :: rest =>
    (key ∉ rest.map (·.1) → match Datum.member? key ms with
      | none => optional = true
      | some w => Has names type w) ∧
    FieldsHave names ms rest

end

theorem has_array {names : String → Datum → Prop} {item : TypeExpr} {vs : List Datum} :
    (array item).Has names (.array vs) ↔ ∀ w ∈ vs, item.Has names w := by
  rw [Has]
  constructor
  · intro h
    obtain ⟨_, hvs, h⟩ := h
    cases hvs
    exact h
  · intro h
    exact ⟨vs, rfl, h⟩

theorem has_object {names : String → Datum → Prop} {fields : List (String × Bool × TypeExpr)}
    {ms : List (String × Datum)} :
    (object fields).Has names (.object ms) ↔ FieldsHave names ms fields := by
  rw [Has]
  constructor
  · intro h
    obtain ⟨_, hms, h⟩ := h
    cases hms
    exact h
  · intro h
    exact ⟨ms, rfl, h⟩

mutual

/-- More values for the names make more values for a type. -/
theorem has_mono {names names' : String → Datum → Prop} (h : names ≤ names') :
    ∀ (t : TypeExpr) (v : Datum), t.Has names v → t.Has names' v
  | .string, _, hv => hv
  | .number, _, hv => hv
  | .boolean, _, hv => hv
  | .any, _, hv => hv
  | .literals _, _, hv => hv
  | .named name, v, hv => h name v hv
  | .array item, _, ⟨vs, hv, hall⟩ => ⟨vs, hv, fun w hw => has_mono h item w (hall w hw)⟩
  | .orNull type, v, hv => Or.imp_left (has_mono h type v) hv
  | .orUndefined type, v, hv => Or.imp_left (has_mono h type v) hv
  | .object fields, _, ⟨ms, hv, hall⟩ => ⟨ms, hv, fieldsHave_mono h fields hall⟩

theorem fieldsHave_mono {names names' : String → Datum → Prop} (h : names ≤ names')
    {ms : List (String × Datum)} : ∀ fields : List (String × Bool × TypeExpr),
      FieldsHave names ms fields → FieldsHave names' ms fields
  | [], _ => trivial
  | (key, optional, type) :: rest, ⟨hfirst, hrest⟩ => by
    refine ⟨fun hkey => ?_, fieldsHave_mono h rest hrest⟩
    have hfield := hfirst hkey
    cases hm : Datum.member? key ms with
    | none => rw [hm] at hfield; exact hfield
    | some w => rw [hm] at hfield; exact has_mono h type w hfield

end

/-- What one field demands of the members of an object. -/
def FieldHas (names : String → Datum → Prop) (ms : List (String × Datum))
    (field : String × Bool × TypeExpr) : Prop :=
  match Datum.member? field.1 ms with
  | none => field.2.1 = true
  | some w => field.2.2.Has names w

theorem fieldsHave_iff {names : String → Datum → Prop} {ms : List (String × Datum)}
    {fields : List (String × Bool × TypeExpr)} :
    FieldsHave names ms fields ↔ ∀ f ∈ effective fields, FieldHas names ms f := by
  induction fields with
  | nil => simp [FieldsHave, effective]
  | cons f rest ih =>
    obtain ⟨key, optional, type⟩ := f
    rw [FieldsHave, effective, ih]
    by_cases hkey : key ∈ rest.map (·.1)
    · simp [hkey]
    · rw [if_neg hkey, List.forall_mem_cons]
      exact and_congr_left' ⟨fun h => h hkey, fun h _ => h⟩

end TypeExpr

/-! ## The type of a validator -/

/-- Whether a chain lets null through. -/
def letsNull (checks : List Check) : Bool := (checks.map (·.name)).contains .nullable

/-- The type with the marks that a chain adds to it. -/
def TypeExpr.marked (checks : List Check) (type : TypeExpr) : TypeExpr :=
  let type := if letsNull checks then type.orNull else type
  if (propertyMarks checks).2 then type.orUndefined else type

theorem TypeExpr.has_marked {names : String → Datum → Prop} {checks : List Check} {type : TypeExpr}
    {v : Datum} : (type.marked checks).Has names v ↔ type.Has names v ∨
      letsNull checks = true ∧ v = .null ∨ (propertyMarks checks).2 = true ∧ v = .undefined := by
  unfold marked
  cases letsNull checks <;> cases (propertyMarks checks).2 <;> simp [Has, or_assoc]

theorem contains_eq_false {checks : List Check} (h : ∀ c ∈ checks, c.name.isModifier = false)
    {n : CheckName} (hn : n.isModifier = true) : (checks.map (·.name)).contains n = false := by
  rw [Bool.eq_false_iff]
  intro hc
  obtain ⟨c, hmem, rfl⟩ := List.mem_map.mp (List.contains_iff_mem.mp hc)
  rw [h c hmem] at hn
  cases hn

/-- The marks of a property are those of its modifiers. A default takes the mark for a missing value
back. -/
theorem marks_modify {place : String} {s : Schema} {e e' : Expr} {m : Modifiers}
    (h : Expr.ofSchema place s = .ok e) (hm : modify e m place = .ok e') :
    letsNull e'.checks = m.nullable ∧
      (propertyMarks e'.checks).2 = (m.optional && m.default.isNone) := by
  obtain ⟨checks, hc, rfl⟩ := modify_eq_ok hm
  obtain ⟨fallback, rfl, hf⟩ := Modifiers.checks_cases hc
  have hbase := fun n hn => @contains_eq_false e.checks (ofSchema_not_modifier h) n hn
  unfold letsNull propertyMarks Expr.withChecks
  simp only [List.map_append, List.contains_append, hbase .nullable rfl, hbase .optional rfl,
    hbase .default rfl]
  rcases hf with ⟨hd, rfl⟩ | ⟨v, l, hd, _, rfl⟩ <;>
    cases m.nullable <;> cases m.optional <;> cases m.description <;> rw [hd] <;>
    exact ⟨rfl, rfl⟩

mutual

def Expr.type : Expr → TypeExpr
  | ⟨kind, values, item, properties, ref, _⟩ =>
    match kind with
    | .string => .string
    | .number => .number
    | .boolean => .boolean
    | .any => .any
    | .enum => .literals values
    | .array => .array (Expr.itemType item)
    | .lazy => .named (nameOr ref)
    | .object => .object (Expr.fields properties)
    | .other _ => .any

def Expr.itemType : Option Expr → TypeExpr
  | none => .any
  | some e => Expr.type e

def Expr.fields : List (String × Expr) → List (String × Bool × TypeExpr)
  | [] => []
  | (key, e) :: rest =>
    (key, (propertyMarks e.checks).2, (Expr.type e).marked e.checks) :: Expr.fields rest

end

/-- The field of a property. -/
def Expr.field (q : String × Expr) : String × Bool × TypeExpr :=
  (q.1, (propertyMarks q.2.checks).2, q.2.type.marked q.2.checks)

theorem Expr.fields_forall₂ (properties : List (String × Expr)) :
    List.Forall₂ (fun q f => f = Expr.field q) properties (Expr.fields properties) := by
  induction properties with
  | nil => exact .nil
  | cons q rest ih => exact .cons rfl ih

theorem Expr.type_withChecks (e : Expr) (checks : List Check) :
    (e.withChecks checks).type = e.type := by
  obtain ⟨kind, values, item, properties, ref, before⟩ := e
  unfold withChecks Expr.type
  rfl

theorem Expr.type?_withChecks (e : Expr) (checks : List Check) (style : Style) (depth : Nat) :
    (e.withChecks checks).type? style depth = e.type? style depth := by
  obtain ⟨kind, values, item, properties, ref, before⟩ := e
  unfold withChecks Expr.type?
  rfl

/-- The marks that are written behind a type are those of the marked type. -/
theorem markedType_eq (style : Style) (depth : Nat) (type : TypeExpr) (checks : List Check) :
    markedType (some (type.text style depth)) (propertyMarks checks).1 =
      .ok ((type.marked checks).text style depth) := by
  have hmarks : (propertyMarks checks).1 = (if letsNull checks then " | null" else "") ++
      (if (propertyMarks checks).2 then " | undefined" else "") := rfl
  rw [markedType, hmarks, TypeExpr.marked]
  cases letsNull checks <;> cases (propertyMarks checks).2 <;>
    simp [TypeExpr.text, String.append_assoc]

theorem propertyTypes_eq {required : List String} {ps : List (String × Schema)}
    {es : List (String × Expr)} {style : Style} {depth : Nat}
    (h : List.Forall₂ (PropertyExpr required) ps es)
    (ih : ∀ p ∈ ps, ∀ place e, Expr.ofSchema place p.2 = .ok e →
      e.type? style depth = .ok (some (e.type.text style depth))) :
    Expr.propertyTypes style depth es = .ok (TypeExpr.fieldTexts style depth (Expr.fields es)) := by
  induction h with
  | nil => rfl
  | @cons p q ps es hp _ hall =>
    obtain ⟨name, s⟩ := p
    obtain ⟨key, e'⟩ := q
    obtain ⟨rfl, place, e, he, he'⟩ := hp
    obtain ⟨checks, _, rfl⟩ := modify_eq_ok he'
    have htype := ih _ List.mem_cons_self place e he
    rw [Expr.propertyTypes, Expr.type?_withChecks, htype,
      hall fun p hp => ih p (List.mem_cons_of_mem _ hp)]
    have hmarked := markedType_eq style depth e.type (e.withChecks checks).checks
    rw [Expr.fields, Expr.type_withChecks, TypeExpr.fieldTexts]
    cases hmarks : propertyMarks (e.withChecks checks).checks with
    | mk marks optional =>
      rw [hmarks] at hmarked
      simp only [bind, Except.bind, hmarked, pure, Except.pure]

/-- What is written for a translated schema is the text of its type. -/
theorem type?_ofSchema (s : Schema) (place : String) (e : Expr) (h : Expr.ofSchema place s = .ok e)
    (style : Style) (depth : Nat) : e.type? style depth = .ok (some (e.type.text style depth)) := by
  induction s using Schema.induction generalizing place e depth with
  | string t format pattern low high => cases h; rfl
  | enum t values => cases h; rfl
  | number t integer low high => cases numberExpr_eq_ok h; rfl
  | boolean t => cases h; rfl
  | any t => cases h; rfl
  | array t items low high ih =>
    obtain ⟨item, hi, h⟩ := bind_eq_ok.mp h
    cases pure_eq_ok.mp h
    change (item.type? style depth).map _ = _
    rw [ih _ item hi]
    rfl
  | object t properties required ih =>
    obtain ⟨es, hes, h⟩ := bind_eq_ok.mp h
    cases pure_eq_ok.mp h
    change (Expr.propertyTypes style (depth + 1) es).map _ = _
    rw [propertyTypes_eq (ofProperties_forall₂ hes) fun p hp place e he => ih p hp place e he _]
    rfl
  | ref t target => cases h; rfl

end ApiContract.Validator

import ApiContract.Proofs.Modifiers
import ApiContract.Proofs.RequiredMarks

/-!
The properties of an object, from the members of its `properties` to their validators. Each member
gives one property, whose validator is that of the member on its own with a chain behind it that is
decided by the member and by the names that its object requires.
-/

namespace ApiContract

/-- What a schema says under a keyword; only a mapping says anything. -/
def Value.keyword? (key : String) : Value → Option Value
  | .map members _ => Members.get? key members
  | _ => none

namespace Schema

/-! ## What a schema says of itself -/

variable {place : String} {raw : Members} {v : Value} {s : Schema}

theorem readTraits_eq_ok {t : Traits} (h : readTraits place raw = .ok t) :
    t.nullable = ((raw.get? "nullable").map Value.truthy).getD false ∧
      t.default = raw.get? "default" ∧
      Field.optional "description" Field.text (raw.get? "description") = .ok t.description := by
  obtain ⟨description, hdescription, h⟩ := bind_eq_ok.mp h
  cases pure_eq_ok.mp h
  exact ⟨rfl, rfl, fieldResult_eq_ok.mp hdescription⟩

/-- The traits of a schema are those of its mapping, whatever its kind. -/
theorem readTraits_of_read {knot : Nat} (h : (read place (.map raw knot)).outcome = .ok s) :
    readTraits place raw = .ok s.traits := by
  rw [read_map_eq_ok] at h
  generalize kindOf raw = kind at h
  cases kind with
  | ref pointer =>
    obtain ⟨_, _, t, ht, rfl⟩ := readRef_eq_ok.mp h
    exact ht
  | enum values =>
    obtain ⟨_, _, _, _, _, _, t, ht, rfl⟩ := readEnum_eq_ok.mp h
    exact ht
  | string =>
    obtain ⟨t, ht, _, _, _, _, _, _, _, _, rfl⟩ := readString_eq_ok.mp h
    exact ht
  | number integer =>
    obtain ⟨t, ht, _, _, _, _, rfl⟩ := readNumber_eq_ok.mp h
    exact ht
  | boolean =>
    obtain ⟨t, ht, rfl⟩ := h
    exact ht
  | array =>
    obtain ⟨_, _, h⟩ := h
    obtain ⟨t, ht, _, _, _, _, rfl⟩ := finishArray_eq_ok.mp h
    exact ht
  | object =>
    obtain ⟨_, _, _, _, _, h⟩ := h
    obtain ⟨t, ht, _, _, _, _, rfl⟩ := finishObject_eq_ok.mp h
    exact ht
  | any =>
    obtain ⟨t, ht, rfl⟩ := h
    exact ht

/-- The traits of a schema are what its value says. -/
theorem traits_of_read (h : (read place v).outcome = .ok s) :
    s.traits.nullable = ((v.keyword? "nullable").map Value.truthy).getD false ∧
      s.traits.default = v.keyword? "default" ∧
      Field.optional "description" Field.text (v.keyword? "description") =
        .ok s.traits.description := by
  cases v with
  | scalar w =>
    cases w with
    | null =>
      cases h
      exact ⟨rfl, rfl, rfl⟩
    | _ => cases h
  | map members knot => exact readTraits_eq_ok (readTraits_of_read h)
  | _ => cases h

/-! ## Names an object requires -/

/-- An object requires a name if a key that reads as the name is listed or its property marks
itself. -/
def Demands (parent : Members) (name : String) : Prop :=
  ∃ key, Field.text (.scalar key) = .ok name ∧
    (lists parent key = true ∨ ∃ m ∈ propertiesOf parent, m.1 = key ∧ marksItself m.2 = true)

theorem mem_readEach {key : Scalar} {name : String} (htext : Field.text (.scalar key) = .ok name)
    {required : List Value} {members : List (Scalar × Value)}
    {found : List (Scalar × Schema) × List Value}
    (h : (readEach place required members).outcome = .ok found) :
    .scalar key ∈ found.2 ↔
      .scalar key ∈ required ∨ ∃ m ∈ members, m.1 = key ∧ marksItself m.2 = true := by
  induction members generalizing required found with
  | nil =>
    cases h
    simp
  | cons m rest ih =>
    obtain ⟨_, _, noted, hnoted, _, _, others, hothers, rfl⟩ := readEach_cons_eq_ok.mp h
    rw [ih hothers, mem_noteMark hnoted htext, List.exists_mem_cons_iff, or_assoc,
      and_comm (a := m.1 = key)]

/-- An object as it was read: its properties side by side with its members, and the names that it
requires. -/
theorem object_of_read {knot : Nat} (hkind : kindOf raw = .object)
    (h : (read place (.map raw knot)).outcome = .ok s) :
    ∃ t properties required, s = .object t properties required ∧
      List.Forall₂ (fun m p => Field.text (.scalar m.1) = .ok p.1 ∧
        ∀ q, (read q m.2).outcome = .ok p.2) (propertiesOf raw) properties ∧
      ∀ name, name ∈ required ↔ Demands raw name := by
  rw [read_map_eq_ok, hkind] at h
  obtain ⟨_, required, hrequired, found, hfound, h⟩ := h
  obtain ⟨t, names, listed, rfl, hnames, hlisted⟩ := finishObject_named h
  refine ⟨t, _, _, rfl, ?_, fun name => ?_⟩
  · have hread : List.Forall₂ (fun m p => p.1 = m.1 ∧ ∀ q, (read q m.2).outcome = .ok p.2)
        (propertiesOf raw) found.1 := by
      refine (readEach_forall₂ hfound).imp fun m p hp => ?_
      obtain ⟨hkey, q, hp⟩ := hp
      exact ⟨hkey, fun r => read_place q r m.2 _ hp⟩
    exact named_forall₂ (R := fun m s => ∀ q, (read q m.2).outcome = .ok s) hread hnames
  · rw [List.mem_eraseDups]
    constructor
    · intro hname
      obtain ⟨v, hv, htext⟩ := exists_left_of_forall₂ hlisted hname
      cases v with
      | scalar key =>
        rw [mem_readEach htext hfound, mem_requiredNames hrequired htext] at hv
        exact ⟨key, htext, hv⟩
      | _ => cases htext
    · intro hdemands
      obtain ⟨key, htext, hkey⟩ := hdemands
      have hmem : Value.scalar key ∈ found.2 := by
        rw [mem_readEach htext hfound, mem_requiredNames hrequired htext]
        exact hkey
      obtain ⟨other, hother, hsame⟩ := exists_right_of_forall₂ hlisted hmem
      rw [htext] at hsame
      cases hsame
      exact hother

end Schema

namespace Validator

/-! ## The chain of a property -/

/-- A part of a chain that is one check if the condition holds, and else nothing. -/
def Chosen (condition : Prop) (check : Check) (part : List Check) : Prop :=
  condition ∧ part = [check] ∨ ¬ condition ∧ part = []

theorem chosen_iff {condition : Prop} {b : Bool} (h : condition ↔ b = true) (check : Check) :
    Chosen condition check (if b then [check] else []) := by
  cases b with
  | true => exact .inl ⟨h.mpr rfl, rfl⟩
  | false => exact .inr ⟨fun hc => Bool.false_ne_true (h.mp hc), rfl⟩

/-- The chain behind a property, read off its raw schema and off whether its name is required: each
part is one check or nothing. -/
structure Chain (demanded : Prop) (raw : Value) (checks : List Check) : Prop where
  parts : ∃ nullable optional fallback description,
    checks = nullable ++ optional ++ fallback ++ description ∧
    Chosen (∃ v, raw.keyword? "nullable" = some v ∧ v.truthy = true) (.bare .nullable) nullable ∧
    Chosen (¬ demanded) (.bare .optional) optional ∧
    (raw.keyword? "default" = none ∧ fallback = [] ∨
      ∃ v place l, raw.keyword? "default" = some v ∧ Literal.ofValue place v = .ok l ∧
        fallback = [⟨.default, .literal l⟩]) ∧
    ((∀ v, raw.keyword? "description" = some v → v = .null) ∧ description = [] ∨
      ∃ v s, raw.keyword? "description" = some v ∧ v ≠ .null ∧ Field.text v = .ok s ∧
        description = [⟨.describe, .text s⟩])

theorem optional_text_cases {field : String} {given : Option Value} {text : Option String}
    (h : Field.optional field Field.text given = .ok text) :
    (∀ v, given = some v → v = .null) ∧ text = none ∨
      ∃ v s, given = some v ∧ v ≠ .null ∧ Field.text v = .ok s ∧ text = some s := by
  unfold Field.optional at h
  split at h
  · cases h
    exact .inl ⟨nofun, rfl⟩
  · cases h
    refine .inl ⟨fun v hv => ?_, rfl⟩
    cases hv
    rfl
  next v hnull =>
    cases htext : Field.text v with
    | error fault =>
      rw [htext] at h
      cases h
    | ok s =>
      rw [htext] at h
      cases h
      exact .inr ⟨v, s, rfl, hnull, htext, rfl⟩

/-- The modifiers of a property make up its chain. -/
theorem chain_of_modifiers {place p : String} {required : List String} {demanded : Prop}
    {name : String} {schema : Schema} {raw : Value} {checks : List Check}
    (hread : (Schema.read p raw).outcome = .ok schema) (hdemanded : name ∈ required ↔ demanded)
    (h : (propertyModifiers required (name, schema)).checks place = .ok checks) :
    Chain demanded raw checks := by
  obtain ⟨hnullable, hdefault, hdescription⟩ := Schema.traits_of_read hread
  obtain ⟨fallback, rfl, hfallback⟩ := Modifiers.checks_cases h
  refine ⟨_, _, fallback, _, rfl, chosen_iff ?_ _, chosen_iff ?_ _, ?_, ?_⟩
  · simp only [propertyModifiers, hnullable]
    cases raw.keyword? "nullable" <;> simp
  · simp [propertyModifiers, ← hdemanded]
  · simp only [propertyModifiers, hdefault] at hfallback
    refine hfallback.imp_right ?_
    intro hex
    obtain ⟨v, l, hv, hl, heq⟩ := hex
    exact ⟨v, place, l, hv, hl, heq⟩
  · simp only [propertyModifiers]
    refine (optional_text_cases hdescription).imp ?_ ?_
    · intro hnone
      rw [hnone.2]
      exact ⟨hnone.1, rfl⟩
    · intro hsome
      obtain ⟨v, s, hv, hne, htext, heq⟩ := hsome
      rw [heq]
      exact ⟨v, s, hv, hne, htext, rfl⟩

/-- A property of a translated object and the member that it comes from: it has the name of the
member, and the validator of the member with a chain behind it. -/
structure PropertyOf (parent : Members) (m : Scalar × Value) (q : String × Expr) : Prop where
  name : Field.text (.scalar m.1) = .ok q.1
  translated : ∃ schema place base checks, (∀ p, (Schema.read p m.2).outcome = .ok schema) ∧
    Expr.ofSchema place schema = .ok base ∧ q.2 = base.withChecks checks ∧
    Chain (Schema.Demands parent q.1) m.2 checks

theorem exists_properties {place here : String} {members : Members} {knot : Nat} {s : Schema}
    {e : Expr} (hkind : Schema.kindOf members = .object)
    (hread : (Schema.read place (.map members knot)).outcome = .ok s)
    (h : Expr.ofSchema here s = .ok e) : ∃ es, e = .object es ∧
      List.Forall₂ (PropertyOf members) (Schema.propertiesOf members) es := by
  obtain ⟨t, properties, required, rfl, hproperties, hrequired⟩ := Schema.object_of_read hkind hread
  obtain ⟨es, hes, h⟩ := bind_eq_ok.mp h
  cases pure_eq_ok.mp h
  refine ⟨es, rfl, forall₂_trans hproperties (ofProperties_forall₂ hes) ?_⟩
  intro m p q hm hp
  obtain ⟨name, schema⟩ := p
  obtain ⟨htext, hschema⟩ := hm
  obtain ⟨rfl, place, base, hbase, hmodify⟩ := hp
  obtain ⟨checks, hchecks, hq⟩ := modify_eq_ok hmodify
  have hchain := chain_of_modifiers (hschema place) (hrequired q.1) hchecks
  exact ⟨htext, schema, place, base, checks, hschema, hbase, hq, hchain⟩

/-- An object that is read and translated: its properties are those of its members, in order, each
with its chain; a truth value under `required` makes no difference to the schema that says it; and
if no mapping has a key twice, what is written on the way is one warning for each property at any
depth that marks itself and is not listed, an object before what is inside it. -/
theorem object_exact {place here : String} {members : Members} {knot : Nat} {s : Schema}
    {e : Expr} (hkind : Schema.kindOf members = .object)
    (hread : (Schema.read place (.map members knot)).outcome = .ok s)
    (htranslate : Expr.ofSchema here s = .ok e) :
    (∃ es, e = .object es ∧
      List.Forall₂ (PropertyOf members) (Schema.propertiesOf members) es) ∧
    (∀ p raw k b, Members.get? "required" raw = some (.bool b) →
      Schema.read p (.map raw k) = Schema.read p (.map (Schema.unmarked raw) k)) ∧
    ((Value.map members knot).Keyed → (Schema.read place (.map members knot)).entries =
      Schema.warnings (Schema.sites place (.map members knot))) :=
  ⟨exists_properties hkind hread htranslate, fun p _ k _ hb => Schema.read_unmarked hb p k,
    fun hkeyed => Schema.read_entries place _ s hkeyed hread⟩

/-- An object that lists one of its properties; the other one marks itself, and so does a property
of that one. -/
def kennelMembers : Members :=
  let name : Members :=
    [(.str "type", .str "string"), (.str "required", .bool false), (.str "nullable", .bool true)]
  let age : Members :=
    [(.str "type", .str "integer"), (.str "required", .bool true), (.str "default", .null)]
  let owner : Members :=
    [(.str "type", .str "object"), (.str "required", .bool true),
      (.str "description", .str "Who keeps it"),
      (.str "properties", .map [(.str "age", .map age 0)] 0)]
  [(.str "type", .str "object"), (.str "required", .seq [.str "name"] 0),
    (.str "properties", .map [(.str "name", .map name 0), (.str "owner", .map owner 0)] 0)]

theorem keyed_kennelMembers : (Value.map kennelMembers 0).Keyed := by
  simp only [kennelMembers]
  repeat' first
    | exact Value.keyed_scalar _
    | exact Value.keyed_seq (by simp [Value.keyed_scalar])
    | refine Value.keyed_map (by unfold Members.Keyed; decide) ?_
    | refine List.forall_mem_cons.mpr ⟨?_, ?_⟩
    | exact List.forall_mem_nil _

def kennelSchema : Schema :=
  let age : Schema := .number ⟨false, some .null, none⟩ true none none
  .object .none
    [("name", .string ⟨true, none, none⟩ none none none none),
      ("owner", .object ⟨false, none, some "Who keeps it"⟩ [("age", age)] ["age"])]
    ["name", "owner"]

def kennelProperties : List (String × Expr) :=
  let age : Expr := .number [.bare .int, ⟨.default, .literal .null⟩]
  [("name", .string [.bare .nullable]),
    ("owner", (Expr.object [("age", age)]).withChecks [⟨.describe, .text "Who keeps it"⟩])]

theorem object_exact_kennel :
    (Schema.read "Kennel" (.map kennelMembers 0)).outcome = .ok kennelSchema ∧
    Expr.ofSchema "Kennel" kennelSchema = .ok (.object kennelProperties) ∧
    List.Forall₂ (PropertyOf kennelMembers) (Schema.propertiesOf kennelMembers) kennelProperties ∧
    (Schema.read "Kennel" (.map kennelMembers 0)).entries.map (·.note) =
      [.text (Schema.deprecation "Kennel.owner"), .text (Schema.deprecation "Kennel.owner.age")] := by
  have hread : (Schema.read "Kennel" (.map kennelMembers 0)).outcome = .ok kennelSchema := rfl
  have htranslate : Expr.ofSchema "Kennel" kennelSchema = .ok (.object kennelProperties) := rfl
  obtain ⟨⟨es, he, hproperties⟩, _, hentries⟩ := object_exact rfl hread htranslate
  cases he
  refine ⟨hread, htranslate, hproperties, ?_⟩
  rw [hentries keyed_kennelMembers]
  rfl

end Validator

end ApiContract

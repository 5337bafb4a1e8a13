import ApiContract.Proofs.Nodes
import ApiContract.Proofs.SchemaPlace

/-!
Where schemas come from: each part of a schema was read from a part of the value that the schema was
read from. So an enumeration has a value, and an object names a property twice only if two keys of
one mapping read as the same text.
-/

namespace ApiContract

variable {α : Type}

/-! ## Values inside values -/

/-- A value inside another one, at whatever depth. -/
inductive Value.Inside : Value → Value → Prop
  | whole {v : Value} : Inside v v
  | item {sub w : Value} {items : List Value} {knot : Nat} :
      w ∈ items → Inside sub w → Inside sub (.seq items knot)
  | member {sub : Value} {m : Scalar × Value} {members : Members} {knot : Nat} :
      m ∈ members → Inside sub m.2 → Inside sub (.map members knot)
  | first {sub a b : Value} : Inside sub a → Inside sub (.pair a b)
  | second {sub a b : Value} : Inside sub b → Inside sub (.pair a b)

theorem Value.Inside.trans {u v w : Value} (h : u.Inside v) (h' : v.Inside w) : u.Inside w := by
  induction h' with
  | whole => exact h
  | item hw _ ih => exact .item hw ih
  | member hm _ ih => exact .member hm ih
  | first _ ih => exact .first ih
  | second _ ih => exact .second ih

theorem Members.mem_of_get? {key : String} {members : Members} {v : Value}
    (h : members.get? key = some v) : (.str key, v) ∈ members := by
  induction members with
  | nil => cases h
  | cons m rest ih =>
    obtain ⟨k, w⟩ := m
    rw [Members.get?] at h
    split at h
    next hk =>
      cases h
      rw [hk]
      exact List.mem_cons_self
    next => exact List.mem_cons_of_mem _ (ih h)

theorem Value.inside_of_get? {key : String} {members : Members} {knot : Nat} {v : Value}
    (h : members.get? key = some v) : v.Inside (.map members knot) :=
  .member (Members.mem_of_get? h) .whole

/-- In no mapping inside a value two keys read as the same text. -/
def Value.KeysApart (v : Value) : Prop :=
  ∀ members knot, (Value.map members knot).Inside v →
    ∀ names, List.Forall₂ (fun m s => Field.text (.scalar m.1) = .ok s) members names → names.Nodup

theorem Value.keysApart_scalar (s : Scalar) : (Value.scalar s).KeysApart := nofun

/-- Keys that are texts read as themselves, so that they only have to differ. -/
theorem Value.keysApart_map {members : Members} {knot : Nat}
    (htexts : ∀ m ∈ members, ∃ s, m.1 = .str s) (hkeys : (members.map (·.1)).Nodup)
    (h : ∀ m ∈ members, m.2.KeysApart) : (Value.map members knot).KeysApart := by
  intro inner k hinside names hnames
  cases hinside with
  | whole =>
    have hnamed : names.map Scalar.str = members.map (·.1) := by
      clear hkeys h
      induction hnames with
      | nil => rfl
      | @cons m name _ _ hname _ ih =>
        obtain ⟨⟨s, hs⟩, hrest⟩ := List.forall_mem_cons.mp htexts
        rw [hs] at hname
        cases hname
        rw [List.map_cons, List.map_cons, ih hrest, hs]
    rw [← hnamed] at hkeys
    exact (List.pairwise_map.mp hkeys).imp fun hne heq => hne (congrArg Scalar.str heq)
  | member hm hinside => exact h _ hm inner k hinside names hnames

/-! ## One step of reading -/

namespace Schema

/-- A property of an object and the member that it was read from. -/
structure PropertyFrom (m : Scalar × Value) (p : String × Schema) : Prop where
  name : Field.text (.scalar m.1) = .ok p.1
  read : ∃ place, (read place m.2).outcome = .ok p.2

/-- What can be read from a value, children included. -/
inductive Reading (v : Value) : Schema → Prop
  | string {t format pattern low high} : Reading v (.string t format pattern low high)
  | enum {t values} : values ≠ [] → Reading v (.enum t values)
  | number {t integer low high} : Reading v (.number t integer low high)
  | boolean {t} : Reading v (.boolean t)
  | any {t} : Reading v (.any t)
  | array {t low high} {items : Schema} :
      (items = anything ∨ ∃ place w, w.Inside v ∧ (read place w).outcome = .ok items) →
      Reading v (.array t items low high)
  | object {t required} {members : Members} {properties : List (String × Schema)} :
      (members = [] ∨ ∃ knot, (Value.map members knot).Inside v) →
      List.Forall₂ PropertyFrom members properties → Reading v (.object t properties required)
  | ref {t target} : Reading v (.ref t target)

variable {place : String} {raw : Members} {v : Value} {s : Schema}

/-! ### What the readers accept -/

theorem fieldResult_eq_ok {x : Except FieldIssue α} {a : α} :
    fieldResult place x = .ok a ↔ x = .ok a := by
  cases x <;> simp [fieldResult]

theorem readRef_eq_ok {pointer : Value} : readRef place raw pointer = .ok s ↔
    ∃ target, targetOf? pointer = some target ∧
      ∃ t, readTraits place raw = .ok t ∧ .ref t target = s := by
  unfold readRef
  cases targetOf? pointer with
  | none =>
    refine iff_of_false (fun h => ?_) nofun
    obtain ⟨_, _, h⟩ := bind_eq_ok.mp h
    cases h
  | some target => simp only [bind_eq_ok, pure_eq_ok, Option.some.injEq, exists_eq_left']

/-- An enumeration takes a list that is not empty. -/
theorem readEnum_eq_ok {values : Value} : readEnum place raw values = .ok s ↔
    ∃ w ws knot, values = .seq (w :: ws) knot ∧ ∃ texts, (w :: ws).mapM enumText = .ok texts ∧
      ∃ t, readTraits place raw = .ok t ∧ .enum t texts = s := by
  unfold readEnum
  split
  next w ws knot =>
    simp only [bind_eq_ok, pure_eq_ok]
    constructor
    · exact fun h => ⟨w, ws, knot, rfl, h⟩
    · rintro ⟨_, _, _, heq, h⟩
      cases heq
      exact h
  next hne =>
    refine iff_of_false nofun ?_
    rintro ⟨w, ws, knot, heq, _⟩
    exact hne w ws knot heq

theorem readString_eq_ok : readString place raw = .ok s ↔ ∃ t, readTraits place raw = .ok t ∧
    ∃ format, Field.optional "format" Field.text (raw.get? "format") = .ok format ∧
    ∃ pattern, Field.optional "pattern" Field.text (raw.get? "pattern") = .ok pattern ∧
    ∃ low, Field.optional "min_length" Field.integer (raw.get? "minLength") = .ok low ∧
    ∃ high, Field.optional "max_length" Field.integer (raw.get? "maxLength") = .ok high ∧
      .string t format pattern low high = s := by
  simp only [readString, bind_eq_ok, pure_eq_ok, fieldResult_eq_ok]

theorem readNumber_eq_ok {integer : Bool} : readNumber place raw integer = .ok s ↔
    ∃ t, readTraits place raw = .ok t ∧
    ∃ low, Field.optional "minimum.int" Field.numeral (raw.get? "minimum") = .ok low ∧
    ∃ high, Field.optional "maximum.int" Field.numeral (raw.get? "maximum") = .ok high ∧
      .number t integer low high = s := by
  simp only [readNumber, bind_eq_ok, pure_eq_ok, fieldResult_eq_ok]

theorem finishArray_eq_ok {items : Schema} : finishArray place raw items = .ok s ↔
    ∃ t, readTraits place raw = .ok t ∧
    ∃ low, Field.optional "min_items" Field.integer (raw.get? "minItems") = .ok low ∧
    ∃ high, Field.optional "max_items" Field.integer (raw.get? "maxItems") = .ok high ∧
      .array t items low high = s := by
  simp only [finishArray, bind_eq_ok, pure_eq_ok, fieldResult_eq_ok]

theorem finishObject_eq_ok {properties : List (Scalar × Schema)} {required : List Value} :
    finishObject place raw properties required = .ok s ↔ ∃ t, readTraits place raw = .ok t ∧
    ∃ names, Field.texts (fun i => s!"properties.{i}.0") 0 (properties.map fun p => .scalar p.1) =
      .ok names ∧
    ∃ listed, Field.texts (fun i => s!"required.{i}") 0 required = .ok listed ∧
      .object t (names.zip (properties.map (·.2))) listed.eraseDups = s := by
  simp only [finishObject, bind_eq_ok, pure_eq_ok, fieldResult_eq_ok]

/-! ### What a step gives -/

theorem readItems_eq (place : String) (members : List (Scalar × Value)) :
    readItems place members = match Members.get? "items" members with
      | some w => read place w
      | none => pure anything := by
  induction members with
  | nil => rfl
  | cons m rest ih =>
    obtain ⟨k, w⟩ := m
    rw [readItems, Members.get?]
    split
    · rfl
    · exact ih

theorem readItems_cases {members : List (Scalar × Value)} {items : Schema}
    (h : (readItems place members).outcome = .ok items) :
    items = anything ∨ ∃ w, Members.get? "items" members = some w ∧
      (read place w).outcome = .ok items := by
  rw [readItems_eq] at h
  cases hget : Members.get? "items" members with
  | none =>
    rw [hget] at h
    cases h
    exact .inl rfl
  | some w =>
    rw [hget] at h
    exact .inr ⟨w, rfl, h⟩

/-- The members under `properties`, none if there is no mapping. -/
def propertiesOf (raw : Members) : Members :=
  match raw.get? "properties" with
  | some (.map properties _) => properties
  | _ => []

theorem propertiesOf_cases (raw : Members) : propertiesOf raw = [] ∨
    ∃ knot, raw.get? "properties" = some (.map (propertiesOf raw) knot) := by
  unfold propertiesOf
  split
  next properties knot hget => exact .inr ⟨knot, hget⟩
  next => exact .inl rfl

theorem readProperties_eq (place : String) (required : List Value)
    (members : List (Scalar × Value)) : readProperties place required members =
      readEach place required (propertiesOf members) := by
  unfold propertiesOf
  induction members with
  | nil => rfl
  | cons m rest ih =>
    obtain ⟨k, w⟩ := m
    by_cases hk : k = .str "properties"
    · cases w <;> simp [readProperties, Members.get?, hk, readEach]
    · cases w <;> simpa [readProperties, Members.get?, hk] using ih

/-- A mapping is read exactly if what its kind asks for is, the parts before the rest. -/
theorem read_map_eq_ok {knot : Nat} : (read place (.map raw knot)).outcome = .ok s ↔
    match kindOf raw with
    | .ref pointer => readRef place raw pointer = .ok s
    | .enum values => readEnum place raw values = .ok s
    | .string => readString place raw = .ok s
    | .number integer => readNumber place raw integer = .ok s
    | .boolean => ∃ t, readTraits place raw = .ok t ∧ .boolean t = s
    | .array => ∃ items, (readItems (place ++ "[]") raw).outcome = .ok items ∧
        finishArray place raw items = .ok s
    | .object => checkProperties place raw = .ok () ∧
        ∃ required, requiredNames place raw = .ok required ∧
        ∃ found, (readEach place required (propertiesOf raw)).outcome = .ok found ∧
          finishObject place raw found.1 found.2 = .ok s
    | .any => ∃ t, readTraits place raw = .ok t ∧ .any t = s := by
  rw [read_map]
  cases kindOf raw with
  | array => exact Traced.bind_outcome_eq_ok
  | object =>
    simp only [Traced.bind_outcome_eq_ok, Traced.outcome_ofExcept, readProperties_eq]
    exact ⟨fun ⟨_, h⟩ => h, fun h => ⟨(), h⟩⟩
  | boolean => exact map_eq_ok
  | any => exact map_eq_ok
  | _ => exact Iff.rfl

theorem readEach_cons_eq_ok {required : List Value} {m : Scalar × Value}
    {rest : List (Scalar × Value)} {found : List (Scalar × Schema) × List Value} :
    (readEach place required (m :: rest)).outcome = .ok found ↔
      ∃ text, m.1.spelledPlain = .ok text ∧
      ∃ noted, (noteMark (place ++ "." ++ text) m.1 m.2 required).outcome = .ok noted ∧
      ∃ schema, (read (place ++ "." ++ text) m.2).outcome = .ok schema ∧
      ∃ others, (readEach place noted rest).outcome = .ok others ∧
        ((m.1, schema) :: others.1, others.2) = found := by
  obtain ⟨name, raw⟩ := m
  rw [readEach_cons]
  simp only [Traced.bind_outcome_eq_ok, Traced.outcome_ofExcept, Traced.outcome_pure,
    Except.ok.injEq]

theorem readEach_forall₂ {required : List Value} {members : List (Scalar × Value)}
    {found : List (Scalar × Schema) × List Value}
    (h : (readEach place required members).outcome = .ok found) :
    List.Forall₂ (fun m p => p.1 = m.1 ∧ ∃ place, (read place m.2).outcome = .ok p.2)
      members found.1 := by
  induction members generalizing required found with
  | nil =>
    cases h
    exact .nil
  | cons m rest ih =>
    obtain ⟨_, _, _, _, schema, hschema, others, hothers, rfl⟩ := readEach_cons_eq_ok.mp h
    exact .cons ⟨rfl, _, hschema⟩ (ih hothers)

theorem texts_forall₂ {field : Nat → String} {index : Nat} {vs : List Value} {names : List String}
    (h : Field.texts field index vs = .ok names) :
    List.Forall₂ (fun v s => Field.text v = .ok s) vs names := by
  induction vs generalizing index names with
  | nil =>
    cases h
    exact .nil
  | cons v vs ih =>
    obtain ⟨name, hname, h⟩ := bind_eq_ok.mp h
    obtain ⟨others, hothers, h⟩ := bind_eq_ok.mp h
    cases pure_eq_ok.mp h
    refine .cons ?_ (ih hothers)
    cases htext : Field.text v with
    | error fault =>
      rw [htext] at hname
      cases hname
    | ok name =>
      rw [htext] at hname
      cases hname
      rfl

/-- An object has the texts of its keys, side by side with what was read for these, and the texts
of the names it requires. -/
theorem finishObject_named {properties : List (Scalar × Schema)} {required : List Value}
    (h : finishObject place raw properties required = .ok s) :
    ∃ t names listed, s = .object t (names.zip (properties.map (·.2))) listed.eraseDups ∧
      List.Forall₂ (fun p name => Field.text (.scalar p.1) = .ok name) properties names ∧
      List.Forall₂ (fun v name => Field.text v = .ok name) required listed := by
  obtain ⟨t, _, names, hnames, listed, hlisted, rfl⟩ := finishObject_eq_ok.mp h
  have hkeys := List.forall₂_map_left_iff.mp (texts_forall₂ hnames)
  exact ⟨t, names, listed, rfl, hkeys, texts_forall₂ hlisted⟩

/-- What was read under keys is named by the texts of the keys. -/
theorem named_forall₂ {R : Scalar × Value → Schema → Prop} {members : List (Scalar × Value)}
    {found : List (Scalar × Schema)} {names : List String}
    (hread : List.Forall₂ (fun m p => p.1 = m.1 ∧ R m p.2) members found)
    (hnames : List.Forall₂ (fun p name => Field.text (.scalar p.1) = .ok name) found names) :
    List.Forall₂ (fun m q => Field.text (.scalar m.1) = .ok q.1 ∧ R m q.2) members
      (names.zip (found.map (·.2))) := by
  induction hread generalizing names with
  | nil =>
    cases hnames
    exact .nil
  | cons hm _ ih =>
    cases hnames with
    | cons hname hnames =>
      refine .cons ⟨?_, hm.2⟩ (ih hnames)
      rw [← hm.1]
      exact hname

/-- Reading takes one of these steps. -/
theorem read_reading (h : (read place v).outcome = .ok s) : Reading v s := by
  cases v with
  | scalar w =>
    cases w with
    | null =>
      cases h
      exact .any
    | _ => cases h
  | map members knot =>
    rw [read_map_eq_ok] at h
    generalize kindOf members = kind at h
    cases kind with
    | ref pointer =>
      obtain ⟨_, _, _, _, rfl⟩ := readRef_eq_ok.mp h
      exact .ref
    | enum values =>
      obtain ⟨_, _, _, _, _, htexts, _, _, rfl⟩ := readEnum_eq_ok.mp h
      refine .enum ?_
      rintro rfl
      cases mapM_eq_ok.mp htexts
    | string =>
      obtain ⟨_, _, _, _, _, _, _, _, _, _, rfl⟩ := readString_eq_ok.mp h
      exact .string
    | number integer =>
      obtain ⟨_, _, _, _, _, _, rfl⟩ := readNumber_eq_ok.mp h
      exact .number
    | boolean =>
      obtain ⟨_, _, rfl⟩ := h
      exact .boolean
    | array =>
      obtain ⟨items, hitems, h⟩ := h
      obtain ⟨_, _, _, _, _, _, rfl⟩ := finishArray_eq_ok.mp h
      refine .array ((readItems_cases hitems).imp_right ?_)
      rintro ⟨w, hget, hw⟩
      exact ⟨_, w, Value.inside_of_get? hget, hw⟩
    | object =>
      obtain ⟨_, _, _, found, hfound, h⟩ := h
      obtain ⟨t, names, _, rfl, hnames, _⟩ := finishObject_named h
      have hnamed := named_forall₂ (R := fun m s => ∃ place, (read place m.2).outcome = .ok s)
        (readEach_forall₂ hfound) hnames
      refine .object ((propertiesOf_cases members).imp_right ?_)
        (hnamed.imp fun _ _ hp => ⟨hp.1, hp.2⟩)
      intro hproperties
      obtain ⟨k, hget⟩ := hproperties
      exact ⟨k, Value.inside_of_get? hget⟩
    | any =>
      obtain ⟨_, _, rfl⟩ := h
      exact .any
  | _ => cases h

/-! ## All parts -/

/-- A part of a schema was read from a part of the value, if not from nothing. -/
theorem read_of_part {sub : Schema} (hsub : sub.Part s) (h : (read place v).outcome = .ok s) :
    sub = anything ∨ ∃ place w, w.Inside v ∧ (read place w).outcome = .ok sub := by
  induction hsub generalizing place v with
  | whole => exact .inr ⟨place, v, .whole, h⟩
  | item hsub ih =>
    cases read_reading h with
    | array hitems =>
      rcases hitems with rfl | ⟨p, w, hw, hitems⟩
      · cases hsub
        exact .inl rfl
      · refine (ih hitems).imp_right ?_
        rintro ⟨q, u, hu, hread⟩
        exact ⟨q, u, hu.trans hw, hread⟩
  | property hp _ ih =>
    cases read_reading h with
    | object hmembers hproperties =>
      obtain ⟨m, hm, _, p, hread⟩ := exists_left_of_forall₂ hproperties hp
      rcases hmembers with rfl | ⟨knot, hmap⟩
      · cases hm
      · refine (ih hread).imp_right ?_
        rintro ⟨q, u, hu, hread⟩
        exact ⟨q, u, (hu.trans (.member hm .whole)).trans hmap, hread⟩

/-- Every enumeration in a schema has a value. -/
def Filled (s : Schema) : Prop := ∀ t values, (enum t values).Part s → values ≠ []

/-- In no object of a schema two properties have the same name. -/
def KeysDistinct (s : Schema) : Prop :=
  ∀ t properties required, (object t properties required).Part s → (properties.map (·.1)).Nodup

theorem filled_of_read (h : (read place v).outcome = .ok s) : s.Filled := by
  intro t values hsub
  rcases read_of_part hsub h with hnone | ⟨_, w, _, hread⟩
  · cases hnone
  · cases read_reading hread with
    | enum hvalues => exact hvalues

theorem keysDistinct_of_read (h : (read place v).outcome = .ok s) (hapart : v.KeysApart) :
    s.KeysDistinct := by
  intro t properties required hsub
  rcases read_of_part hsub h with hnone | ⟨_, w, hw, hread⟩
  · cases hnone
  · cases read_reading hread with
    | object hmembers hproperties =>
      rcases hmembers with rfl | ⟨knot, hmap⟩
      · cases hproperties
        exact List.nodup_nil
      · refine hapart _ knot (hmap.trans hw) _ ?_
        rw [List.forall₂_map_right_iff]
        exact hproperties.imp fun _ _ hp => hp.name

end Schema

end ApiContract

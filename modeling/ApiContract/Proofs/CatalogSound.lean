import ApiContract.Proofs.CatalogFaults
import ApiContract.Proofs.Pipeline
import ApiContract.Proofs.Rendering

/-!
The validators of a description that was read are well formed, and so they can be written, but for
whole numbers of too many digits. That no object names a property twice takes a description in which
no two keys of a mapping read as the same text; only octets beside texts do.
-/

namespace ApiContract

/-! ## What entries are made of -/

/-- A schema is among those that an operation has for a slot. -/
def Operation.HoldsAt (op : Operation) (schema : Schema) : Naming.Slot → Prop
  | .requestBody => ∃ body, op.requestBody = some body ∧ body.schema = schema
  | .responseBody => op.response = some schema
  | .pathParams => ∃ p ∈ op.parameters.filter (·.location = .path), p.schema = schema
  | .queryParams => ∃ p ∈ op.parameters.filter (·.location = .query), p.schema = schema

/-- A schema is among those that an entry is made of. -/
def Subject.Holds (schema : Schema) : Subject → Prop
  | .component _ s => s = schema
  | .part op slot => op.HoldsAt schema slot

/-- In no object of the schemas that an entry is made of two properties have the same name. -/
def Subject.KeysDistinct (subject : Subject) : Prop :=
  ∀ schema, subject.Holds schema → schema.KeysDistinct

namespace Document

variable {root : Value} {d : Document}

theorem From.holds (h : From root d) {subject : Subject} (hsubject : subject ∈ d.subjects)
    {schema : Schema} (hschema : subject.Holds schema) : schema.From root := by
  rcases List.mem_append.mp hsubject with hsubject | hsubject
  · obtain ⟨c, hc, rfl⟩ := List.mem_map.mp hsubject
    cases hschema
    exact h.component hc
  · obtain ⟨op, hop, hsubject⟩ := List.mem_flatMap.mp hsubject
    obtain ⟨slot, _, rfl⟩ := List.mem_map.mp hsubject
    have hparts := (h.operations op hop).parts
    cases slot with
    | requestBody =>
      obtain ⟨body, hbody, rfl⟩ := hschema
      exact hparts.body body hbody
    | responseBody => exact hparts.response schema hschema
    | pathParams | queryParams =>
      obtain ⟨p, hp, rfl⟩ := hschema
      exact hparts.parameters.source p (List.mem_filter.mp hp).1

end Document

namespace Subject

variable {subject : Subject} {s : NamedSchema}

/-- An entry is the validator of one schema, or that of the parameters of one location. -/
theorem describes_cases (h : subject.Describes s) :
    (∃ place schema, (∀ t, subject.Holds t ↔ t = schema) ∧
      Validator.Expr.ofSchema place schema = .ok s.expr) ∨
    ∃ place op slot location, subject = .part op slot ∧
      (∀ t, subject.Holds t ↔ ∃ p ∈ op.parameters.filter (·.location = location), p.schema = t) ∧
      Validator.Expr.ofParameters place (op.parameters.filter (·.location = location)) =
        .ok s.expr := by
  cases subject with
  | component name schema => exact .inl ⟨name, schema, fun _ => eq_comm, h.translates⟩
  | part op slot =>
    have htranslates := h.translates
    cases slot with
    | requestBody =>
      obtain ⟨body, hbody, he⟩ := htranslates
      refine .inl ⟨_, body.schema, fun t => ?_, he⟩
      simp [Holds, Operation.HoldsAt, hbody, eq_comm]
    | responseBody =>
      obtain ⟨schema, hschema, he⟩ := htranslates
      refine .inl ⟨_, schema, fun t => ?_, he⟩
      simp [Holds, Operation.HoldsAt, hschema, eq_comm]
    | pathParams => exact .inr ⟨_, op, _, .path, rfl, fun _ => Iff.rfl, htranslates⟩
    | queryParams => exact .inr ⟨_, op, _, .query, rfl, fun _ => Iff.rfl, htranslates⟩

theorem wellFormed (h : subject.Describes s)
    (hfilled : ∀ schema, subject.Holds schema → schema.Filled) : s.expr.WellFormed := by
  rcases describes_cases h with ⟨_, schema, hholds, he⟩ | ⟨_, op, _, location, _, hholds, he⟩
  · exact Validator.wellFormed_ofSchema (hfilled schema ((hholds schema).mpr rfl)) he
  · refine Validator.wellFormed_ofParameters (fun p hp => ?_) he
    exact hfilled p.schema ((hholds p.schema).mpr ⟨p, hp, rfl⟩)

theorem marksProperties (h : subject.Describes s) : s.expr.MarksProperties := by
  rcases describes_cases h with ⟨_, _, _, he⟩ | ⟨_, _, _, _, _, _, he⟩
  · exact Validator.marksProperties_ofSchema he
  · exact Validator.marksProperties_ofParameters he

theorem keysDistinct_iff {root : Value} {d : Document} (hfrom : Document.From root d)
    (hsubject : subject ∈ d.subjects) (h : subject.Describes s) :
    s.expr.KeysDistinct ↔ subject.KeysDistinct := by
  rcases describes_cases h with ⟨_, schema, hholds, he⟩ | ⟨_, op, slot, location, rfl, hholds, he⟩
  · rw [Validator.keysDistinct_ofSchema he, KeysDistinct]
    simp [hholds]
  · obtain ⟨op', hop, hsubject⟩ : ∃ op' ∈ d.operations, .part op slot ∈ op'.subjects := by
      rcases List.mem_append.mp hsubject with hcomponent | hpart
      · obtain ⟨_, _, hcomponent⟩ := List.mem_map.mp hcomponent
        cases hcomponent
      · exact List.mem_flatMap.mp hpart
    obtain ⟨_, _, hsame⟩ := List.mem_map.mp hsubject
    cases hsame
    have hnames := Document.names_nodup (hfrom.operations op hop).parts.parameters.distinct location
    rw [Validator.keysDistinct_ofParameters hnames he]
    constructor
    · intro hall t ht
      obtain ⟨p, hp, rfl⟩ := (hholds t).mp ht
      exact hall p hp
    · exact fun hall p hp => hall p.schema ((hholds p.schema).mpr ⟨p, hp, rfl⟩)

end Subject

namespace Generation

theorem exists_schemaText_iff {s : NamedSchema} (h : s.expr.WellFormed) (mark : Text.QuoteMark)
    (recursive : List String) : (∃ t, schemaText mark recursive s = .ok t) ↔
      ∀ n, s.expr.Holds n → Text.hasDigits n = true := by
  rw [← Validator.Expr.exists_text_iff h (.ofMark mark) 0]
  obtain ⟨type, htype⟩ := Validator.Expr.exists_type h (.ofMark mark) 0
  constructor
  · intro ht
    obtain ⟨_, ht⟩ := ht
    obtain ⟨code, hcode, _⟩ := bind_eq_ok.mp ht
    exact ⟨code, hcode⟩
  · intro hcode
    obtain ⟨code, hcode⟩ := hcode
    by_cases hr : recursive.contains s.name = true
    · refine ⟨⟨s.name, Naming.const s.name, code, some (Validator.annotation s.name), some type⟩,
        bind_eq_ok.mpr ⟨code, hcode, ?_⟩⟩
      rw [if_pos hr]
      exact bind_eq_ok.mpr ⟨some type, htype, rfl⟩
    · refine ⟨⟨s.name, Naming.const s.name, code, none, none⟩,
        bind_eq_ok.mpr ⟨code, hcode, ?_⟩⟩
      rw [if_neg hr]
      rfl

/-- A module can be laid out unless its levels are too wide. -/
theorem exists_moduleText_iff (options : Options) (c : Module.Content) :
    (∃ t, (moduleText options c).outcome = .ok t) ↔
      Layout.widthMisfit? options.indentation = none := by
  simp only [moduleText_eq_ok, exists_and_left, exists_eq, and_true]

end Generation

namespace Catalog

theorem wellFormed_of_build {value : Value} {d : Document} {catalog : List NamedSchema}
    (hread : (Document.read value).outcome = .ok d) (hbuild : build d = .ok catalog) :
    ∀ s ∈ catalog, s.expr.WellFormed := by
  intro s hs
  obtain ⟨subject, hsubject, hds⟩ :=
    exists_left_of_forall₂ (entries_describe (build_eq_ok.mp hbuild).entries) hs
  exact Subject.wellFormed hds fun schema hschema =>
    ((Document.read_from hread).holds hsubject hschema).filled

theorem exists_schemaTexts_iff {catalog : List NamedSchema}
    (hwell : ∀ s ∈ catalog, s.expr.WellFormed) (mark : Text.QuoteMark) :
    (∃ texts, Generation.schemaTexts mark catalog = .ok texts) ↔
      ∀ s ∈ catalog, ∀ n, s.expr.Holds n → Text.hasDigits n = true := by
  rw [Generation.schemaTexts, exists_mapM_iff]
  exact forall₂_congr fun s hs => Generation.exists_schemaText_iff (hwell s hs) mark _

/-- The catalog of a description that was read has well-formed validators with the marks of
properties on properties only. Each of them has a type, and it can be written exactly if its whole
numbers can. Its objects name a property twice exactly if those of its schemas do, and none does if
no two keys of a mapping of the description read as the same text. -/
theorem build_sound {value : Value} {d : Document} {catalog : List NamedSchema}
    (hread : (Document.read value).outcome = .ok d) (hbuild : build d = .ok catalog) :
    (∀ s ∈ catalog, s.expr.WellFormed ∧ s.expr.MarksProperties ∧
      (∀ style depth, (∃ t, s.expr.type? style depth = .ok (some t)) ∧
        ((∃ t, s.expr.text style depth = .ok t) ↔
          ∀ n, s.expr.Holds n → Text.hasDigits n = true)) ∧
      (∃ subject ∈ d.subjects, subject.Describes s ∧
        (s.expr.KeysDistinct ↔ subject.KeysDistinct)) ∧
      (value.KeysApart → s.expr.KeysDistinct)) ∧
    (∀ mark, (∃ texts, Generation.schemaTexts mark catalog = .ok texts) ↔
      ∀ s ∈ catalog, ∀ n, s.expr.Holds n → Text.hasDigits n = true) ∧
    (∀ options c, (∃ t, (Generation.moduleText options c).outcome = .ok t) ↔
      Layout.widthMisfit? options.indentation = none) := by
  have hfrom := Document.read_from hread
  have hdescribe := entries_describe (build_eq_ok.mp hbuild).entries
  have hwell := wellFormed_of_build hread hbuild
  refine ⟨fun s hs => ?_, exists_schemaTexts_iff hwell, Generation.exists_moduleText_iff⟩
  obtain ⟨subject, hsubject, hds⟩ := exists_left_of_forall₂ hdescribe hs
  have hkeys := Subject.keysDistinct_iff hfrom hsubject hds
  refine ⟨hwell s hs, Subject.marksProperties hds, fun style depth => ?_,
    ⟨subject, hsubject, hds, hkeys⟩, fun hapart => ?_⟩
  · exact ⟨Validator.Expr.exists_type (hwell s hs) style depth,
      Validator.Expr.exists_text_iff (hwell s hs) style depth⟩
  · exact hkeys.mpr fun schema hschema => (hfrom.holds hsubject hschema).keysDistinct hapart

/-- A component with some properties, each given by its key and its own keywords. -/
def componentValue (name : String) (properties : List (Scalar × Value)) : Value :=
  .map [(.str "components", .map [(.str "schemas", .map [(.str name,
    .map [(.str "type", .str "object"), (.str "properties", .map properties 0)] 0)] 0)] 0)] 0

def typed (type : String) : Value := .map [(.str "type", .str type)] 0

/-- A component with two properties. -/
def twoNamed : Value :=
  componentValue "Pet" [(.str "a", typed "string"), (.str "b", typed "boolean")]

theorem twoNamed_keysApart : twoNamed.KeysApart := by
  have htyped : ∀ type, (typed type).KeysApart := fun type =>
    Value.keysApart_map (by simp) (by simp) (by simp [Value.keysApart_scalar])
  have hsingle : ∀ (name : String) (v : Value), v.KeysApart →
      (Value.map [(.str name, v)] 0).KeysApart := fun name v hv =>
    Value.keysApart_map (by simp) (by simp) (by simpa using hv)
  have hproperties :
      (Value.map [(.str "a", typed "string"), (.str "b", typed "boolean")] 0).KeysApart :=
    Value.keysApart_map (by simp) (by simp) (by simp [htyped])
  refine hsingle _ _ (hsingle _ _ (hsingle _ _ (Value.keysApart_map (by simp) (by simp) ?_)))
  simpa [Value.keysApart_scalar] using hproperties

theorem build_sound_twoNamed : ∃ d catalog,
    (Document.read twoNamed).outcome = .ok d ∧ build d = .ok catalog ∧
      ∀ s ∈ catalog, s.expr.WellFormed ∧ s.expr.MarksProperties ∧ s.expr.KeysDistinct := by
  refine ⟨_, _, rfl, rfl, fun s hs => ?_⟩
  obtain ⟨heach, _⟩ := @build_sound twoNamed _ _ rfl rfl
  obtain ⟨hwell, hmarks, _, _, hkeys⟩ := heach s hs
  exact ⟨hwell, hmarks, hkeys twoNamed_keysApart⟩

/-- A text and octets that encode the same text. -/
def twiceNamed : Value :=
  componentValue "Pet" [(.str "a", typed "string"), (.bytes [0x61], typed "boolean")]

def twiceNamedDocument : Document where
  servers := []
  schemas := [("Pet",
    .object .none [("a", .string .none none none none none), ("a", .boolean .none)] [])]
  operations := []

/-- A property that is bounded by a whole number. -/
def bounded (n : Int) : Value :=
  componentValue "Big" [(.str "a", .map [(.str "type", .str "integer"), (.str "minimum", .int n)] 0)]

def boundedDocument (n : Int) : Document where
  servers := []
  schemas := [("Big", .object .none [("a", .number .none true (some (.int n)) none)] [])]
  operations := []

/-- Octets beside a text give an object that names a property twice, and a bound of too many digits
gives validators that cannot be written. -/
theorem build_sound_fails :
    (∃ d catalog, (Document.read twiceNamed).outcome = .ok d ∧ build d = .ok catalog ∧
      ∃ s ∈ catalog, ¬ s.expr.KeysDistinct) ∧
    ∃ d catalog, (Document.read (bounded (Nat.pow 10 Text.maxDigits))).outcome = .ok d ∧
      build d = .ok catalog ∧ ∀ mark texts, Generation.schemaTexts mark catalog ≠ .ok texts := by
  refine ⟨⟨twiceNamedDocument, _, rfl, rfl, _, List.mem_cons_self, fun hkeys => ?_⟩, ?_⟩
  · have hnodup : ["a", "a"].Nodup := hkeys _ .whole
    simp at hnodup
  · have hread : ∀ n, (Document.read (bounded n)).outcome = .ok (boundedDocument n) := fun _ => rfl
    refine ⟨_, _, hread _, rfl, fun mark texts htexts => ?_⟩
    have hwritable := (exists_schemaTexts_iff (wellFormed_of_build (hread _) rfl) mark).mp ⟨_, htexts⟩
    have hdigits := hwritable _ List.mem_cons_self (Nat.pow 10 Text.maxDigits)
      ⟨_, .property List.mem_cons_self .whole, _, List.mem_cons_of_mem _ List.mem_cons_self, .bound⟩
    have hno : Text.hasDigits (Nat.pow 10 Text.maxDigits) = false :=
      decide_eq_false (by rw [Int.natAbs_natCast]; exact lt_irrefl _)
    rw [hno] at hdigits
    cases hdigits

end Catalog

end ApiContract

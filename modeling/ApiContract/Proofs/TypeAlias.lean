import ApiContract.Proofs.Acceptance
import ApiContract.Proofs.Pipeline
import ApiContract.Proofs.TypeExpr
import Mathlib.Order.FixedPoints

/-!
The type that is spelled out for a recursive component, against what its validator puts out. A key
that is required and has no default may be missing all the same if its validator takes `undefined`;
it is then missing from what comes out too, though the type demands it. Nothing else can go wrong.
-/

namespace ApiContract

open Validator

/-! ## What a value leaves out -/

/-- Somewhere along a schema, an object of the value lacks the key of a property that is required
and has no default. -/
inductive Document.Omits (d : Document) : Schema → Datum → Prop
  | missing {t : Traits} {properties : List (String × Schema)} {required : List String}
      {p : String × Schema} {ms : List (String × Datum)} : p ∈ effective properties →
      required.contains p.1 = true → p.2.traits.default = none → Datum.member? p.1 ms = none →
      Omits d (.object t properties required) (.object ms)
  | inside {t : Traits} {properties : List (String × Schema)} {required : List String}
      {p : String × Schema} {ms : List (String × Datum)} : p ∈ effective properties →
      Omits d p.2 (filled p.2.traits.default (Datum.read p.1 ms)) →
      Omits d (.object t properties required) (.object ms)
  | item {t : Traits} {items : Schema} {low high : Option Int} {w : Datum} {vs : List Datum} :
      w ∈ vs → Omits d items w → Omits d (.array t items low high) (.array vs)
  | ref {t : Traits} {target : String} {s : Schema} {v : Datum} :
      (target, s) ∈ d.schemas → Omits d s v → Omits d (.ref t target) v

/-- A property, with its modifiers, omits something among the members of an object. -/
def Document.OmitsProperty (d : Document) (m : Modifiers) (s : Schema) (key : String)
    (ms : List (String × Datum)) : Prop :=
  (m.optional = false ∧ m.default = none ∧ Datum.member? key ms = none) ∨
    d.Omits s (filled m.default (Datum.read key ms))

namespace Document

variable {d : Document} {t : Traits} {v : Datum}

theorem omits_object {properties : List (String × Schema)} {required : List String}
    {ms : List (String × Datum)} : d.Omits (.object t properties required) (.object ms) ↔
      ∃ p ∈ effective properties, d.OmitsProperty (propertyModifiers required p) p.2 p.1 ms := by
  constructor
  · intro h
    cases h with
    | missing hp hr hd hm => exact ⟨_, hp, .inl ⟨by rw [propertyModifiers, hr]; rfl, hd, hm⟩⟩
    | inside hp h => exact ⟨_, hp, .inr h⟩
  · intro h
    rcases h with ⟨p, hp, ⟨hr, hd, hm⟩ | h⟩
    · exact .missing hp (by simpa [propertyModifiers] using hr) hd hm
    · exact .inside hp h

theorem omits_array {items : Schema} {low high : Option Int} {vs : List Datum} :
    d.Omits (.array t items low high) (.array vs) ↔ ∃ w ∈ vs, d.Omits items w := by
  constructor
  · intro h
    cases h with
    | item hw h => exact ⟨_, hw, h⟩
  · intro h
    obtain ⟨w, hw, h⟩ := h
    exact .item hw h

theorem omits_ref {target : String} :
    d.Omits (.ref t target) v ↔ ∃ s, (target, s) ∈ d.schemas ∧ d.Omits s v := by
  constructor
  · intro h
    cases h with
    | ref hs h => exact ⟨_, hs, h⟩
  · intro h
    obtain ⟨s, hs, h⟩ := h
    exact .ref hs h

/-- Only arrays and objects omit something. -/
theorem Omits.defined {s : Schema} (h : d.Omits s v) : v ≠ .undefined ∧ v ≠ .null := by
  induction h with
  | missing => exact ⟨nofun, nofun⟩
  | inside => exact ⟨nofun, nofun⟩
  | item => exact ⟨nofun, nofun⟩
  | ref _ _ ih => exact ih

end Document

/-! ## Objects -/

/-- Validators of schemas neither make nor lose `undefined` and null. -/
def Datum.Alike (v o : Datum) : Prop := (o = .undefined ↔ v = .undefined) ∧ (o = .null ↔ v = .null)

theorem Datum.Alike.refl (v : Datum) : v.Alike v := ⟨Iff.rfl, Iff.rfl⟩

section Keeps

variable {J : Interpretation} {d : Document} {names : String → Datum → Prop}
  {ms os : List (String × Datum)}

/-- A translated schema puts out values of its type, but for those that omit something. -/
def Validator.Expr.Keeps (J : Interpretation) (d : Document) (names : String → Datum → Prop)
    (s : Schema) (e : Expr) : Prop :=
  ∀ v o, e.Yields J v o → v.Alike o ∧ (e.type.Has names o ↔ ¬ d.Omits s v)

section Property

variable {key place : String} {s : Schema} {e e' : Expr} {m : Modifiers} {r : Datum}

/-- A property that has no value and no default for one. -/
theorem fieldHas_of_missing (he : Expr.ofSchema place s = .ok e) (he' : modify e m place = .ok e')
    (hkeeps : e.Keeps J d names s) (hread : Datum.read key ms = .undefined)
    (hdefault : m.default = none)
    (h : m.optional = true ∧ r = .undefined ∨ m.optional = false ∧ e.Yields J .undefined r)
    (hm : Datum.member? key os = Datum.kept? r (Datum.member? key ms)) :
    TypeExpr.FieldHas names os (key, (propertyMarks e'.checks).2, e.type.marked e'.checks) ↔
      ¬ d.OmitsProperty m s key ms := by
  obtain ⟨hnull, hoptional⟩ := marks_modify he he'
  have hnone : ¬ d.Omits s .undefined := fun homits => homits.defined.1 rfl
  have hr : r = .undefined := by
    rcases h with ⟨_, rfl⟩ | ⟨_, h⟩
    · rfl
    · exact (hkeeps _ _ h).1.1.mpr rfl
  subst hr
  unfold TypeExpr.FieldHas Document.OmitsProperty
  rw [hm, hread, hdefault]
  cases hmem : Datum.member? key ms with
  | none =>
    have hfilled : filled none .undefined = .undefined := rfl
    simp [Datum.kept?, hoptional, hdefault, hfilled, hnone]
  | some w =>
    -- The key is there and holds `undefined`, so it is put out with `undefined` again.
    have hhas : (e.type.marked e'.checks).Has names .undefined := by
      rw [TypeExpr.has_marked, hoptional, hdefault]
      rcases h with ⟨ho, _⟩ | ⟨_, h⟩
      · exact .inr (.inr ⟨by simpa using ho, rfl⟩)
      · exact .inl ((hkeeps _ _ h).2.mpr hnone)
    refine iff_of_true hhas ?_
    intro h
    rcases h with ⟨_, _, hmissing⟩ | homits
    · cases hmissing
    · exact hnone homits

/-- A property that has a value, its own or a default. -/
theorem fieldHas_of_filled (he : Expr.ofSchema place s = .ok e) (he' : modify e m place = .ok e')
    (hkeeps : e.Keeps J d names s) (hfilled : filled m.default (Datum.read key ms) ≠ .undefined)
    (hdefault : Datum.read key ms = .undefined → m.default ≠ none)
    (h : m.YieldsPresent (e.Yields J) (filled m.default (Datum.read key ms)) r)
    (hm : Datum.member? key os = Datum.kept? r (Datum.member? key ms)) :
    TypeExpr.FieldHas names os (key, (propertyMarks e'.checks).2, e.type.marked e'.checks) ↔
      ¬ d.OmitsProperty m s key ms := by
  obtain ⟨hnull, hoptional⟩ := marks_modify he he'
  have hpresent : ¬ (m.optional = false ∧ m.default = none ∧ Datum.member? key ms = none) := by
    intro habsent
    obtain ⟨_, hd, hmem⟩ := habsent
    exact hdefault (by rw [Datum.read, hmem]; rfl) hd
  unfold TypeExpr.FieldHas Document.OmitsProperty
  rw [or_iff_right hpresent]
  generalize filled m.default (Datum.read key ms) = w at h hfilled ⊢
  rcases Modifiers.yieldsPresent_cases h with ⟨hnullable, rfl, rfl⟩ | ⟨h, hnot⟩
  · rw [hm]
    have hhas : (e.type.marked e'.checks).Has names .null :=
      TypeExpr.has_marked.mpr (.inr (.inl ⟨by rw [hnull, hnullable], rfl⟩))
    exact iff_of_true hhas fun homits => homits.defined.2 rfl
  · obtain ⟨halike, hiff⟩ := hkeeps w r h
    have hr : r ≠ .undefined := fun hr => hfilled (halike.1.mp hr)
    rw [hm, Datum.kept?_of_ne hr, ← hiff]
    refine TypeExpr.has_marked.trans (or_iff_left ?_)
    intro h
    rcases h with ⟨hn, hnull'⟩ | ⟨_, hundefined⟩
    · exact hnot (by rw [← hnull, hn]) (halike.2.mp hnull')
    · exact hr hundefined

/-- The field of a property has what is put out for it exactly if the property omits nothing. -/
theorem fieldHas_iff (he : Expr.ofSchema place s = .ok e) (he' : modify e m place = .ok e')
    (hkeeps : e.Keeps J d names s) (hr : e'.Yields J (Datum.read key ms) r)
    (hm : Datum.member? key os = Datum.kept? r (Datum.member? key ms)) :
    TypeExpr.FieldHas names os (key, (propertyMarks e'.checks).2, e'.type.marked e'.checks) ↔
      ¬ d.OmitsProperty m s key ms := by
  have htype : e'.type = e.type := by
    obtain ⟨checks, _, rfl⟩ := modify_eq_ok he'
    exact Expr.type_withChecks e checks
  rw [htype]
  rcases Modifiers.yields_cases ((Expr.yields_modify he').mp hr) with
    ⟨hread, hdefault, h⟩ | ⟨hfilled, hdefault, h⟩
  · exact fieldHas_of_missing he he' hkeeps hread hdefault h hm
  · exact fieldHas_of_filled he he' hkeeps hfilled hdefault h hm

end Property

/-- What an object puts out has the written fields exactly if no property omits anything. -/
theorem fieldsHave_iff_omits {t : Traits} {required : List String} {ps : List (String × Schema)}
    {es : List (String × Expr)} (h : List.Forall₂ (PropertyExpr required) ps es)
    (ih : ∀ p ∈ ps, ∀ place e, Expr.ofSchema place p.2 = .ok e → e.Keeps J d names p.2)
    (hos : Expr.EachYields J ms es os) :
    TypeExpr.FieldsHave names os (Expr.fields es) ↔
      ¬ d.Omits (.object t ps required) (.object ms) := by
  have hproperties := (effective_forall₂ (fun _ _ => PropertyExpr.key) h).2
  have hfields := (effective_forall₂ (by rintro q _ rfl; rfl) (Expr.fields_forall₂ es)).2
  rw [TypeExpr.fieldsHave_iff, Document.omits_object, ← forall_iff_of_forall₂ hfields
    (P := fun q => TypeExpr.FieldHas names os (Expr.field q)) (by rintro q _ _ _ rfl; rfl)]
  simp only [not_exists, not_and]
  refine (forall_iff_of_forall₂ hproperties fun p hp q hq hpq => ?_).symm
  obtain ⟨hkey, place, e, he, he'⟩ := hpq
  obtain ⟨r, hr, hm⟩ := (Expr.eachYields_member? hos).2 q hq
  rw [← hkey]
  exact (fieldHas_iff he he' (ih p (mem_of_mem_effective hp) place e he) hr hm).symm

/-! ## Validators -/

/-- What components may put out for a value: something of their type, but where the value omits
something. -/
def Kept (d : Document) (names : String → Datum → Prop) : String → Run := fun t v o =>
  v.Alike o ∧ (names t o ↔ ¬ ∃ s, (t, s) ∈ d.schemas ∧ d.Omits s v)

/-- A schema keeps to its type if the components it refers to do. -/
theorem keeps_ofSchema (hJ : J.component ≤ Kept d names) (s : Schema) (place : String) (e : Expr)
    (h : Expr.ofSchema place s = .ok e) : e.Keeps J d names s := by
  induction s using Schema.induction generalizing place e with
  | string t format pattern low high =>
    cases h
    intro v o hy
    obtain ⟨rfl, s, rfl, _⟩ := yields_string.mp hy
    exact ⟨.refl _, iff_of_true ⟨s, rfl⟩ nofun⟩
  | enum t values =>
    cases h
    intro v o hy
    obtain ⟨rfl, hs⟩ := Expr.enum_yields.mp hy
    obtain ⟨s, _, rfl⟩ := id hs
    exact ⟨.refl _, iff_of_true hs nofun⟩
  | number t integer low high =>
    cases numberExpr_eq_ok h
    intro v o hy
    obtain ⟨rfl, q, rfl, _⟩ := yields_number.mp hy
    exact ⟨.refl _, iff_of_true ⟨q, rfl⟩ nofun⟩
  | boolean t =>
    cases h
    intro v o hy
    obtain ⟨rfl, b, rfl⟩ := Expr.boolean_yields.mp hy
    exact ⟨.refl _, iff_of_true ⟨b, rfl⟩ nofun⟩
  | any t =>
    cases h
    intro v o hy
    obtain rfl := Expr.any_yields.mp hy
    exact ⟨.refl _, iff_of_true trivial nofun⟩
  | array t items low high ih =>
    obtain ⟨item, hi, h⟩ := bind_eq_ok.mp h
    cases pure_eq_ok.mp h
    intro v o hy
    obtain ⟨vs, os, rfl, rfl, hitems, _⟩ := yields_array.mp hy
    refine ⟨⟨by simp, by simp⟩, ?_⟩
    have hall : (∀ w ∈ vs, ¬ d.Omits items w) ↔ ∀ w ∈ os, item.type.Has names w :=
      forall_iff_of_forall₂ hitems fun w _ w' _ hw => (ih _ item hi w w' hw).2.symm
    rw [Document.omits_array]
    simp only [not_exists, not_and, hall]
    exact TypeExpr.has_array
  | object t properties required ih =>
    obtain ⟨es, hes, h⟩ := bind_eq_ok.mp h
    cases pure_eq_ok.mp h
    intro v o hy
    obtain ⟨ms, os, rfl, rfl, _, heach⟩ := Expr.object_yields.mp hy
    refine ⟨⟨by simp, by simp⟩, ?_⟩
    rw [← fieldsHave_iff_omits (ofProperties_forall₂ hes) ih heach]
    exact TypeExpr.has_object
  | ref t target =>
    cases h
    intro v o hy
    obtain ⟨halike, hiff⟩ := hJ target v o (Expr.lazy_yields.mp hy)
    refine ⟨halike, ?_⟩
    rw [Document.omits_ref]
    exact hiff

end Keeps

namespace Catalog

variable {I : Interpretation} {d : Document} {catalog : List NamedSchema}
  {names : String → Datum → Prop}

/-- What the validators of components do if references do what is given. -/
def follow (I : Interpretation) (catalog : List NamedSchema) :
    (String → Run) →o (String → Run) where
  toFun component name v o := ∃ s ∈ catalog, isComponent s = true ∧ s.name = name ∧
    s.expr.Yields { I with component := component } v o
  monotone' _ _ h _ v o := fun ⟨s, hs, hc, hname, hy⟩ =>
    ⟨s, hs, hc, hname, Expr.yields_mono h s.expr v o hy⟩

/-- What the validators of components do: the least that references to them allow. -/
def Yields (I : Interpretation) (catalog : List NamedSchema) : String → Run :=
  OrderHom.lfp (follow I catalog)

theorem yields_iff {name : String} {v o : Datum} : Yields I catalog name v o ↔
    ∃ s ∈ catalog, isComponent s = true ∧ s.name = name ∧
      s.expr.Yields { I with component := Yields I catalog } v o := by
  have hfixed := (follow I catalog).map_lfp
  exact (iff_of_eq (congrFun (congrFun (congrFun hfixed name) v) o)).symm

/-- A reading of the names of components as types: each has the values of its own type. -/
def Reads (catalog : List NamedSchema) (names : String → Datum → Prop) : Prop :=
  ∀ s ∈ catalog, isComponent s = true → ∀ v, names s.name v ↔ s.expr.type.Has names v

def reading (catalog : List NamedSchema) :
    (String → Datum → Prop) →o (String → Datum → Prop) where
  toFun names name v := ∃ s ∈ catalog, isComponent s = true ∧ s.name = name ∧
    s.expr.type.Has names v
  monotone' _ _ h _ v := fun ⟨s, hs, hc, hname, hv⟩ =>
    ⟨s, hs, hc, hname, TypeExpr.has_mono h s.expr.type v hv⟩

theorem exists_reads (h : (Catalog.names catalog).Nodup) : ∃ names, Reads catalog names := by
  refine ⟨OrderHom.lfp (reading catalog), fun s hs hc v => ?_⟩
  have hfixed := congrFun (congrFun (reading catalog).map_lfp s.name) v
  rw [← hfixed]
  constructor
  · intro hread
    obtain ⟨s', hs', _, hname, hv⟩ := hread
    rwa [List.inj_on_of_nodup_map h hs' hs hname] at hv
  · intro hv
    exact ⟨s, hs, hc, rfl, hv⟩

/-- Components keep to their types. References lead back to components, so this is about the least
relation that is closed under following them. -/
theorem yields_le_kept (h : Built d catalog) (hr : Reads catalog names) :
    Yields I catalog ≤ Kept d names := by
  refine OrderHom.lfp_le _ ?_
  intro t v o hstep
  obtain ⟨s, hs, hc, rfl, hy⟩ := hstep
  obtain ⟨schema, hschema, he, _⟩ := h.mem_component_iff.mp ⟨hs, hc⟩
  have hkeeps := @keeps_ofSchema { I with component := Kept d names } d names le_rfl schema _ _ he
  obtain ⟨halike, hiff⟩ := hkeeps v o hy
  refine ⟨halike, ?_⟩
  rw [hr s hs hc, hiff, h.exists_schema_iff hschema]

/-- What the validator of a component on a cycle puts out is of the type that is written for it
exactly if the input omits no key that is required and has no default. This is so for every reading
of the names in types, and there is one. -/
theorem typeAlias_has_iff (I : Interpretation) (d : Document) (catalog : List NamedSchema)
    (h : build d = .ok catalog) :
    (∃ names, Reads catalog names) ∧
    ∀ s ∈ catalog, s.name ∈ recursiveComponents catalog →
      ∃ schema, (s.name, schema) ∈ d.schemas ∧
        (∀ mark text, Generation.schemaText mark (recursiveComponents catalog) s = .ok text →
          text.typeCode = some (s.expr.type.text (Style.ofMark mark) 0)) ∧
        ∀ names, Reads catalog names → ∀ v o, Yields I catalog s.name v o →
          (names s.name o ↔ ¬ d.Omits schema v) := by
  have hbuilt := build_eq_ok.mp h
  refine ⟨exists_reads hbuilt.nodup, fun s hs hrecursive => ?_⟩
  have hc := hbuilt.isComponent_of_recursive hs hrecursive
  obtain ⟨schema, hschema, he, _⟩ := hbuilt.mem_component_iff.mp ⟨hs, hc⟩
  refine ⟨schema, hschema, fun mark text htext => ?_, fun names hr v o hy => ?_⟩
  · have htype := ((Generation.schemaText_eq_ok htext).2.1 hrecursive).2
    rw [type?_ofSchema schema _ _ he] at htype
    exact (Except.ok.inj htype).symm
  · rw [(yields_le_kept hbuilt hr s.name v o hy).2, hbuilt.exists_schema_iff hschema]

/-- Nodes with a value of any kind, which is required, and with a next node. -/
def nodeSchema : Schema :=
  .object .none [("value", .any .none), ("next", .ref .none "Node")] ["value"]

def nodeDocument : Document := ⟨[], [("Node", nodeSchema)], []⟩

def nodeEntry : NamedSchema where
  name := "Node"
  expr := .object [("value", .any), ("next", (Expr.lazy "Node").withChecks [.bare .optional])]
  provenance := .component

/-- A node without a next one puts its value out again, if it has one. -/
theorem yields_node {ms os : List (String × Datum)} {r : Datum}
    (hkeys : ∀ m ∈ ms, m.1 ∈ ["value", "next"]) (hvalue : Datum.read "value" ms = r)
    (hnext : Datum.member? "next" ms = none)
    (hos : os = Datum.put "value" (Datum.kept? r (Datum.member? "value" ms)) []) :
    Yields lenient [nodeEntry] "Node" (.object ms) (.object os) := by
  refine yields_iff.mpr ⟨nodeEntry, List.mem_singleton_self _, rfl, rfl, ?_⟩
  refine Expr.object_yields.mpr ⟨ms, os, rfl, rfl, hkeys, ?_⟩
  refine (Expr.eachYields_cons_of_notMem (by decide)).mpr ⟨r, [], hvalue.symm, ?_, hos⟩
  refine (Expr.eachYields_cons_of_notMem (by decide)).mpr ⟨.undefined, [], ?_, rfl, ?_⟩
  · rw [Datum.read, hnext]
    rfl
  · rw [hnext]
    rfl

/-- A node with a value is put out as one of its type. -/
theorem typeAlias_has_iff_node : build nodeDocument = .ok [nodeEntry] ∧
    ∃ names, Reads [nodeEntry] names ∧ names "Node" (.object [("value", .null)]) := by
  obtain ⟨⟨names, hr⟩, hall⟩ := typeAlias_has_iff lenient nodeDocument [nodeEntry] rfl
  obtain ⟨schema, hschema, _, hiff⟩ := hall nodeEntry (List.mem_singleton_self _) (by decide)
  cases List.mem_singleton.mp hschema
  have hy : Yields lenient [nodeEntry] "Node" (.object [("value", .null)])
      (.object [("value", .null)]) := yields_node (by decide) rfl rfl rfl
  refine ⟨rfl, names, hr, (hiff names hr _ _ hy).mpr fun homits => ?_⟩
  obtain ⟨p, hp, hp'⟩ := Document.omits_object.mp homits
  have hcases : p = ("value", .any .none) ∨ p = ("next", .ref .none "Node") := by
    simpa [effective] using hp
  rcases hcases with rfl | rfl <;> rcases hp' with ⟨hrequired, _, hm⟩ | homits
  · cases hm
  · cases homits
  · cases hrequired
  · exact homits.defined.1 rfl

/-- A node without its value is taken, and put out as it is. The type that is written demands the
value. -/
theorem typeAlias_node_missing :
    build nodeDocument = .ok [nodeEntry] ∧ "Node" ∈ recursiveComponents [nodeEntry] ∧
      nodeEntry.expr.type.text (Style.ofMark .double) 0 =
        "\x7b\n  \"value\": any;\n  \"next\"?: Node | undefined;\n\x7d" ∧
      Yields lenient [nodeEntry] "Node" (.object []) (.object []) ∧
      ∀ names, Reads [nodeEntry] names → ¬ names "Node" (.object []) := by
  refine ⟨rfl, by decide, by decide, yields_node (by decide) rfl rfl rfl, fun names hr h => ?_⟩
  obtain ⟨ms, hms, hfields⟩ := (hr nodeEntry (List.mem_singleton_self _) rfl _).mp h
  cases hms
  exact absurd (hfields.1 (by decide)) Bool.false_ne_true

end Catalog

end ApiContract

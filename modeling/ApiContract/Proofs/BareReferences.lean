import ApiContract.Document.Reading
import ApiContract.Proofs.References
import Mathlib.Order.WellFoundedSet

/-!
Components that are nothing but a reference to another one. What such a component stands for is
found by going from reference to reference, and that comes to an end exactly if no cycle of such
components lies ahead. Nothing refuses a cycle of them: its components are recursive, and each is
written as an alias of the next.
-/

namespace ApiContract

open Relation (ReflTransGen TransGen)

/-- A component is declared as a reference to another one and nothing else. -/
def Document.Renames (d : Document) (a b : String) : Prop :=
  ∃ traits, (a, Schema.ref traits b) ∈ d.schemas

namespace Catalog

/-- The whole expression of a component is a reference to another one. -/
def Bare (catalog : List NamedSchema) (a b : String) : Prop :=
  ∃ s ∈ catalog, isComponent s = true ∧ s.name = a ∧ s.expr = .lazy b

/-- What a component stands for: an expression that is no reference, found by going along bare
references. -/
inductive Unfolds (catalog : List NamedSchema) : String → Validator.Expr → Prop
  | here {s : NamedSchema} : s ∈ catalog → isComponent s = true → s.expr.kind ≠ .lazy →
      Unfolds catalog s.name s.expr
  | along {a b : String} {e : Validator.Expr} : Bare catalog a b → Unfolds catalog b e →
      Unfolds catalog a e

/-! ## Cycles ahead -/

section Circles

variable {next : String → String → Prop} {a b c : String}

/-- From a name there is a way into a cycle. -/
def Circles (next : String → String → Prop) (a : String) : Prop :=
  ∃ m, ReflTransGen next a m ∧ TransGen next m m

/-- The way into a cycle has a first step, and goes on from there. -/
theorem Circles.step (h : Circles next a) : ∃ b, next a b ∧ Circles next b := by
  obtain ⟨m, ham, hm⟩ := h
  rcases ham.cases_head with rfl | ⟨b, hab, hbm⟩
  · obtain ⟨b, hab, hba⟩ := TransGen.head'_iff.mp hm
    exact ⟨b, hab, a, hba, hm⟩
  · exact ⟨b, hab, m, hbm, hm⟩

theorem Circles.of_step (hab : next a b) (h : Circles next b) : Circles next a := by
  obtain ⟨m, hbm, hm⟩ := h
  exact ⟨m, hbm.head hab, hm⟩

/-- A name lies ahead of another one from which there is no way into a cycle. -/
def Ahead (next : String → String → Prop) (b a : String) : Prop :=
  TransGen next a b ∧ ¬ Circles next a

instance Ahead.isStrictOrder : IsStrictOrder String (Ahead next) where
  irrefl a h := h.2 ⟨a, .refl, h.1⟩
  trans _ _ _ hab hbc := ⟨hbc.1.trans hab.1, hbc.2⟩

end Circles

/-! ## Bare references of a catalog -/

section Built

variable {d : Document} {catalog : List NamedSchema} {a b c : String}

theorem Built.bare_iff (h : Built d catalog) : Bare catalog a b ↔ d.Renames a b := by
  constructor
  · intro hbare
    obtain ⟨s, hs, hc, rfl, he⟩ := hbare
    obtain ⟨schema, hmem, hschema, _⟩ := h.mem_component_iff.mp ⟨hs, hc⟩
    obtain ⟨traits, t, rfl, ht⟩ := Validator.ref_of_ofSchema hschema (by rw [he]; rfl)
    rw [he] at ht
    cases ht
    exact ⟨traits, hmem⟩
  · intro hrenames
    obtain ⟨traits, hmem⟩ := hrenames
    let entry : NamedSchema := ⟨a, .lazy b, .component⟩
    have hentry : entry ∈ catalog ∧ isComponent entry = true :=
      h.mem_component_iff.mpr ⟨.ref traits b, hmem, rfl, rfl⟩
    exact ⟨entry, hentry.1, hentry.2, rfl, rfl⟩

theorem Built.mem_componentNames (h : Built d catalog) :
    a ∈ d.componentNames ↔ ∃ s ∈ catalog, isComponent s = true ∧ s.name = a := by
  constructor
  · intro ha
    obtain ⟨component, hmem, rfl⟩ := List.mem_map.mp ha
    obtain ⟨components, hcomponents, _⟩ := bind_eq_ok.mp h.entries
    obtain ⟨s, _, hentry⟩ := exists_right_of_forall₂ (mapM_eq_ok.mp hcomponents) hmem
    have hs := h.mem_iff.mpr (.inl ⟨component, hmem, hentry⟩)
    obtain ⟨e, _, rfl⟩ := componentEntry_eq_ok.mp hentry
    exact ⟨_, hs, rfl, rfl⟩
  · intro hs
    obtain ⟨s, hs, hc, rfl⟩ := hs
    obtain ⟨schema, hmem, _⟩ := h.mem_component_iff.mp ⟨hs, hc⟩
    exact List.mem_map_of_mem hmem

theorem Bare.refers (h : Bare catalog a b) : Refers catalog a b := by
  obtain ⟨s, hs, hc, ha, he⟩ := h
  exact ⟨s, hs, hc, ha, .here (by rw [he]; rfl)⟩

/-- A reference leads to a component. -/
theorem Built.mem_of_refers (h : Built d catalog) (hab : Refers catalog a b) :
    b ∈ d.componentNames := by
  obtain ⟨s, hs, _, _, hm⟩ := hab
  exact h.closed s hs b (Validator.Expr.mem_refs_iff_mentions.mpr hm)

/-- An entry whose component is a bare reference has no expression of its own. -/
theorem Built.expr_of_bare (h : Built d catalog) {s : NamedSchema} (hs : s ∈ catalog)
    (hbare : Bare catalog s.name b) : s.expr = .lazy b := by
  obtain ⟨t, ht, _, hname, he⟩ := hbare
  rw [← h.eq_of_name ht hs hname, he]

theorem Built.bare_unique (h : Built d catalog) (hab : Bare catalog a b) (hac : Bare catalog a c) :
    b = c := by
  obtain ⟨s, hs, _, rfl, he⟩ := hab
  have heq := h.expr_of_bare hs hac
  rw [he] at heq
  cases heq
  rfl

/-- What stands for something has no cycle ahead. -/
theorem Built.not_circles_of_unfolds (h : Built d catalog) {e : Validator.Expr}
    (hu : Unfolds catalog a e) : ¬ Circles (Bare catalog) a := by
  induction hu with
  | here hs _ hkind =>
    intro hcircles
    obtain ⟨b, hbare, _⟩ := hcircles.step
    rw [h.expr_of_bare hs hbare] at hkind
    exact hkind rfl
  | along hab _ ih =>
    intro hcircles
    obtain ⟨c, hac, hcircles⟩ := hcircles.step
    rw [← h.bare_unique hab hac] at hcircles
    exact ih hcircles

/-- Without a cycle ahead the references come to an end: there are finitely many components, and
those ahead are strictly ordered. -/
theorem Built.unfolds_of_not_circles (h : Built d catalog) (ha : a ∈ d.componentNames)
    (hfree : ¬ Circles (Bare catalog) a) : ∃ e, Unfolds catalog a e := by
  have hwell : {n | n ∈ d.componentNames}.WellFoundedOn (Ahead (Bare catalog)) :=
    (List.finite_toSet d.componentNames).wellFoundedOn
  refine hwell.induction ha (P := fun a => ¬ Circles (Bare catalog) a →
    ∃ e, Unfolds catalog a e) ?_ hfree
  intro a ha ih hfree
  obtain ⟨s, hs, hc, rfl⟩ := h.mem_componentNames.mp ha
  by_cases hkind : s.expr.kind = .lazy
  · obtain ⟨schema, _, hschema, _⟩ := h.mem_component_iff.mp ⟨hs, hc⟩
    obtain ⟨_, b, _, he⟩ := Validator.ref_of_ofSchema hschema hkind
    have hbare : Bare catalog s.name b := ⟨s, hs, hc, rfl, he⟩
    have hahead : ¬ Circles (Bare catalog) b := fun hb => hfree (hb.of_step hbare)
    obtain ⟨e, hu⟩ := ih b (h.mem_of_refers hbare.refers) ⟨.single hbare, hfree⟩ hahead
    exact ⟨e, .along hbare hu⟩
  · exact ⟨s.expr, .here hs hc hkind⟩

/-! ## What is written -/

theorem text_lazy_bare (style : Validator.Style) (b : String) (depth : Nat) :
    (Validator.Expr.lazy b).text style depth =
      .ok ("z.lazy(() => " ++ Naming.const b ++ ")") := by
  have hchain : Validator.chainText style (Validator.Expr.lazy b).checks = .ok "" := rfl
  rw [Validator.Expr.text_lazy rfl rfl, hchain, Except.map, String.append_empty]

/-- A bare reference is written as one; on a cycle its alias is the name of the next component. -/
theorem Built.texts_of_bare (h : Built d catalog) {mark : Text.QuoteMark}
    {texts : List Module.SchemaText} (ht : Generation.schemaTexts mark catalog = .ok texts)
    (hbare : Bare catalog a b) : ∃ t ∈ texts, t.name = a ∧
      t.code = "z.lazy(() => " ++ Naming.const b ++ ")" ∧
      (TransGen (Bare catalog) a a → t.typeCode = some b) := by
  obtain ⟨s, hs, _, rfl, he⟩ := hbare
  obtain ⟨t, hmem, hst⟩ := exists_right_of_forall₂ (Generation.schemaTexts_forall₂ ht) hs
  obtain ⟨hname, hannotated, _⟩ := Generation.schemaText_eq_ok hst
  have hcode := Generation.schemaText_code hst
  rw [he] at hcode hannotated
  refine ⟨t, hmem, hname, ?_, ?_⟩
  · rw [text_lazy_bare] at hcode
    exact (Except.ok.inj hcode).symm
  · intro hcycle
    have hrefers : TransGen (Refers catalog) s.name s.name :=
      hcycle.lift id fun _ _ hbare => hbare.refers
    have hrecursive := (mem_recursiveComponents (distinctComponents_of_nodup h.nodup)).mpr hrefers
    exact (Except.ok.inj (hannotated hrecursive).2).symm

theorem typeText_of_typeCode {t : Module.SchemaText} {b : String} (h : t.typeCode = some b)
    (hb : b ≠ "") : Module.typeText t = "export type " ++ t.name ++ " = " ++ b ++ ";\n" := by
  have hgiven : Module.given? t.typeCode = some b := by
    simp [Module.given?, h, hb]
  simp only [Module.typeText, hgiven, Option.getD_some]

end Built

/-! ## Unfolding and cycles -/

/-- For a catalog that was built: its bare references are those the document declares; a component
stands for an expression that is no reference exactly if no cycle of bare references lies ahead of
it; and on such a cycle each component is written as an alias of the next. -/
theorem unfolds_iff_not_circles {d : Document} {catalog : List NamedSchema}
    (h : build d = .ok catalog) :
    (∀ a b, Bare catalog a b ↔ d.Renames a b) ∧
      (∀ a ∈ d.componentNames, (∃ e, Unfolds catalog a e) ↔ ¬ Circles d.Renames a) ∧
      ∀ mark texts, Generation.schemaTexts mark catalog = .ok texts → ∀ a b, d.Renames a b →
        ∃ t ∈ texts, t.name = a ∧ t.code = "z.lazy(() => " ++ Naming.const b ++ ")" ∧
          (TransGen d.Renames a a → b ≠ "" →
            Module.typeText t = "export type " ++ a ++ " = " ++ b ++ ";\n") := by
  have hbuilt := build_eq_ok.mp h
  have hbare : Bare catalog = d.Renames := by
    funext a b
    exact propext hbuilt.bare_iff
  refine ⟨fun a b => hbuilt.bare_iff, fun a ha => ⟨fun hu => ?_, fun hfree => ?_⟩, ?_⟩
  · obtain ⟨e, hu⟩ := hu
    rw [← hbare]
    exact hbuilt.not_circles_of_unfolds hu
  · rw [← hbare] at hfree
    exact hbuilt.unfolds_of_not_circles ha hfree
  · intro mark texts ht a b hab
    rw [← hbare] at hab ⊢
    obtain ⟨t, hmem, rfl, hcode, htype⟩ := hbuilt.texts_of_bare ht hab
    exact ⟨t, hmem, rfl, hcode, fun hcycle hb => typeText_of_typeCode (htype hcycle) hb⟩

/-- A component that stands for another one, and two that stand for each other. -/
def aliasDocument : Document where
  servers := []
  schemas := [
    ("Animal", .ref .none "Pet"),
    ("Pet", .object .none [("parent", .ref .none "Animal")] []),
    ("Left", .ref .none "Right"),
    ("Right", .ref .none "Left")]
  operations := []

def petEntry : NamedSchema where
  name := "Pet"
  expr := .object [("parent", (Validator.Expr.lazy "Animal").withChecks [.bare .optional])]
  provenance := .component

def aliasCatalog : List NamedSchema := [
  ⟨"Animal", .lazy "Pet", .component⟩,
  petEntry,
  ⟨"Left", .lazy "Right", .component⟩,
  ⟨"Right", .lazy "Left", .component⟩]

theorem unfolds_iff_not_circles_aliases : build aliasDocument = .ok aliasCatalog ∧
    ¬ Circles aliasDocument.Renames "Animal" ∧ ¬ (∃ e, Unfolds aliasCatalog "Left" e) ∧
      ∃ t, t.name = "Left" ∧ Module.typeText t = "export type Left = Right;\n" := by
  have hbuild : build aliasDocument = .ok aliasCatalog := rfl
  obtain ⟨hbare, hunfolds, hwritten⟩ := unfolds_iff_not_circles hbuild
  have hanimal : aliasDocument.Renames "Animal" "Pet" := ⟨.none, by simp [aliasDocument]⟩
  have hleft : aliasDocument.Renames "Left" "Right" := ⟨.none, by simp [aliasDocument]⟩
  have hright : aliasDocument.Renames "Right" "Left" := ⟨.none, by simp [aliasDocument]⟩
  have hcycle : TransGen aliasDocument.Renames "Left" "Left" := .head hleft (.single hright)
  have hpet : Unfolds aliasCatalog petEntry.name petEntry.expr :=
    .here (by simp [aliasCatalog]) rfl (by decide)
  refine ⟨hbuild, (hunfolds "Animal" (by decide)).mp ?_, ?_, ?_⟩
  · exact ⟨petEntry.expr, .along ((hbare _ _).mpr hanimal) hpet⟩
  · intro hu
    exact (hunfolds "Left" (by decide)).mp hu ⟨"Left", .refl, hcycle⟩
  · obtain ⟨t, _, hname, _, htype⟩ := hwritten .double _ rfl "Left" "Right" hleft
    exact ⟨t, hname, htype hcycle (by decide)⟩

/-- A description whose only component is a reference to itself. -/
def selfReferring : Value :=
  .map [(.str "components", .map [(.str "schemas", .map [(.str "A",
    .map [(.str "$ref", .str "#/components/schemas/A")] 0)] 0)] 0)] 0

/-- What is read from it. -/
def selfDocument : Document := ⟨[], [("A", .ref .none "A")], []⟩

def selfCatalog : List NamedSchema := [⟨"A", .lazy "A", .component⟩]

/-- It is accepted, stands for nothing, and is written as an alias of itself. -/
theorem unfolds_self_fails : (Document.read selfReferring).outcome = .ok selfDocument ∧
    build selfDocument = .ok selfCatalog ∧ TransGen (Bare selfCatalog) "A" "A" ∧
      ¬ (∃ e, Unfolds selfCatalog "A" e) ∧
      (Generation.schemaTexts .double selfCatalog).map (·.map Module.typeText) =
        .ok ["export type A = A;\n"] := by
  have hbuild : build selfDocument = .ok selfCatalog := rfl
  have hbare : Bare selfCatalog "A" "A" := ⟨_, List.mem_singleton_self _, rfl, rfl, rfl⟩
  refine ⟨rfl, hbuild, .single hbare, ?_, rfl⟩
  intro hu
  obtain ⟨e, hu⟩ := hu
  exact (build_eq_ok.mp hbuild).not_circles_of_unfolds hu ⟨"A", .refl, .single hbare⟩

end Catalog

end ApiContract

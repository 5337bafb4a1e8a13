import ApiContract.Proofs.WellFormed

/-!
The forms that expressions come in. What is made of schemas and of parameters has in each node just
what the node's kind is written with, and checks that are well formed; so that proofs about such
expressions need one case for each form.
-/

namespace ApiContract.Validator.Expr

/-- An expression is what became of a schema, or of the parameters of an operation. -/
inductive Translated : Expr → Prop
  | schema {place : String} {s : Schema} {e : Expr} : ofSchema place s = .ok e → Translated e
  | parameters {place : String} {ps : List Parameter} {e : Expr} :
      ofParameters place ps = .ok e → Translated e

/-- All fields of a node that its kind has no use for are empty, and so in its children. -/
inductive Formed : Expr → Prop
  | basic {kind : Kind} {checks : List Check} : kind ∈ [Kind.string, .number, .boolean, .any] →
      (∀ c ∈ checks, c.WellFormed) → Formed (basic kind checks)
  | enum {values : List String} {checks : List Check} :
      (∀ c ∈ checks, c.WellFormed) → Formed ⟨.enum, values, none, [], none, checks⟩
  | array {item : Expr} {checks : List Check} :
      (∀ c ∈ checks, c.WellFormed) → Formed item → Formed ⟨.array, [], some item, [], none, checks⟩
  | object {properties : List (String × Expr)} {checks : List Check} :
      (∀ c ∈ checks, c.WellFormed) → (∀ q ∈ properties, Formed q.2) →
        Formed ⟨.object, [], none, properties, none, checks⟩
  | lazy {target : String} {checks : List Check} :
      (∀ c ∈ checks, c.WellFormed) → Formed ⟨.lazy, [], none, [], some target, checks⟩

variable {e : Expr}

theorem Formed.checks (h : e.Formed) : ∀ c ∈ e.checks, c.WellFormed := by
  cases h with
  | basic _ hchecks => exact hchecks
  | enum hchecks => exact hchecks
  | array hchecks => exact hchecks
  | object hchecks => exact hchecks
  | lazy hchecks => exact hchecks

/-- Checks may be put behind any form. -/
theorem Formed.withChecks {more : List Check} (h : e.Formed) (hmore : ∀ c ∈ more, c.WellFormed) :
    (e.withChecks more).Formed := by
  have hall : ∀ c ∈ e.checks ++ more, c.WellFormed := List.forall_mem_append.mpr ⟨h.checks, hmore⟩
  cases h with
  | basic hkind => exact .basic hkind hall
  | enum => exact .enum hall
  | array _ hitem => exact .array hall hitem
  | object _ hproperties => exact .object hall hproperties
  | lazy => exact .lazy hall

theorem Formed.modify {e' : Expr} {m : Modifiers} {place : String} (h : e.Formed)
    (he : modify e m place = .ok e') : e'.Formed := by
  obtain ⟨checks, hchecks, rfl⟩ := modify_eq_ok he
  exact h.withChecks (Modifiers.wellFormed_checks hchecks)

theorem formed_ofSchema {s : Schema} {place : String} (h : ofSchema place s = .ok e) : e.Formed := by
  have hchecks : ∀ c ∈ e.checks, c.WellFormed := fun c hc => (ofSchema_refinement h c hc).wellFormed
  induction s using Schema.induction generalizing place e with
  | string =>
    cases h
    exact .basic (by decide) hchecks
  | enum =>
    cases h
    exact .enum hchecks
  | number =>
    cases numberExpr_eq_ok h
    exact .basic (by decide) hchecks
  | boolean =>
    cases h
    exact .basic (by decide) hchecks
  | any =>
    cases h
    exact .basic (by decide) hchecks
  | array traits items low high ih =>
    obtain ⟨item, hitem, h⟩ := bind_eq_ok.mp h
    cases pure_eq_ok.mp h
    exact .array hchecks (ih hitem fun c hc => (ofSchema_refinement hitem c hc).wellFormed)
  | object traits properties required ih =>
    obtain ⟨es, hes, h⟩ := bind_eq_ok.mp h
    cases pure_eq_ok.mp h
    refine .object hchecks fun q hq => ?_
    obtain ⟨p, hp, _, place, e, he, hmodify⟩ :=
      exists_left_of_forall₂ (ofProperties_forall₂ hes) hq
    exact (ih p hp he fun c hc => (ofSchema_refinement he c hc).wellFormed).modify hmodify
  | ref =>
    cases h
    exact .lazy hchecks

/-- The translation makes nothing but these forms. -/
theorem Translated.formed (h : e.Translated) : e.Formed := by
  cases h with
  | schema h => exact formed_ofSchema h
  | parameters h =>
    obtain ⟨es, rfl, hes⟩ := ofParameters_eq_ok h
    refine .object (List.forall_mem_nil _) fun q hq => ?_
    obtain ⟨p, _, _, place, e, he, hmodify⟩ := exists_left_of_forall₂ hes hq
    exact (formed_ofSchema he).modify hmodify

end ApiContract.Validator.Expr

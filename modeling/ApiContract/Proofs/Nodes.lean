import ApiContract.Proofs.Modifiers
import ApiContract.Proofs.Translation

/-!
Parts of schemas and nodes of validators. What holds of each node that the translation makes of a
part, modifiers put aside, holds of every node of the whole validator; and each part has its node.
-/

namespace ApiContract

/-- A part of a schema, at whatever depth. -/
inductive Schema.Part : Schema → Schema → Prop
  | whole {s : Schema} : Part s s
  | item {sub items : Schema} {traits : Traits} {low high : Option Int} :
      Part sub items → Part sub (.array traits items low high)
  | property {sub : Schema} {traits : Traits} {properties : List (String × Schema)}
      {required : List String} {p : String × Schema} :
      p ∈ properties → Part sub p.2 → Part sub (.object traits properties required)

namespace Validator

namespace Expr

/-- A node of an expression, at whatever depth. -/
inductive Within : Expr → Expr → Prop
  | whole {e : Expr} : Within e e
  | item {sub e i : Expr} : e.item = some i → Within sub i → Within sub e
  | property {sub e : Expr} {q : String × Expr} :
      q ∈ e.properties → Within sub q.2 → Within sub e

theorem withChecks_nil (e : Expr) : e.withChecks [] = e := by
  cases e
  simp [withChecks]

theorem withChecks_withChecks (e : Expr) (before after : List Check) :
    (e.withChecks before).withChecks after = e.withChecks (before ++ after) := by
  simp only [withChecks, List.append_assoc]

/-- Checks at the end of the whole chain come behind those of its node. -/
theorem Within.withChecks {base e : Expr} {checks : List Check}
    (h : (base.withChecks checks).Within e) (more : List Check) :
    ∃ checks', (base.withChecks checks').Within (e.withChecks more) := by
  cases h with
  | whole => exact ⟨checks ++ more, by rw [withChecks_withChecks]; exact .whole⟩
  | item hi h => exact ⟨checks, .item hi h⟩
  | property hq h => exact ⟨checks, .property hq h⟩

/-- Something holds of every node of an expression. -/
def Each (P : Expr → Prop) (e : Expr) : Prop := ∀ sub : Expr, sub.Within e → P sub

/-- Expressions grow by an item and by properties. -/
theorem induction {motive : Expr → Prop}
    (node : ∀ e : Expr, (∀ i, e.item = some i → motive i) → (∀ q ∈ e.properties, motive q.2) →
      motive e) (e : Expr) : motive e := by
  refine @Expr.rec motive (fun item => ∀ i, item = some i → motive i)
    (fun qs => ∀ q ∈ qs, motive q.2) (fun q => motive q.2) ?node nofun ?some ?nil ?cons ?pair e
  case node => exact fun _ _ _ _ _ _ hitem hproperties => node _ hitem hproperties
  case some =>
    rintro e he i ⟨⟩
    exact he
  case nil => exact fun q hq => absurd hq List.not_mem_nil
  case cons =>
    intro p ps hp hps q hq
    rcases List.mem_cons.mp hq with rfl | hq
    · exact hp
    · exact hps q hq
  case pair => exact fun _ _ he => he

variable {P : Expr → Prop} {e : Expr}

theorem each_iff : e.Each P ↔
    P e ∧ (∀ i, e.item = some i → i.Each P) ∧ ∀ q ∈ e.properties, q.2.Each P := by
  constructor
  · intro h
    exact ⟨h e .whole, fun i hi sub hsub => h sub (.item hi hsub),
      fun q hq sub hsub => h sub (.property hq hsub)⟩
  · rintro ⟨hhere, hitem, hproperty⟩ sub hsub
    cases hsub with
    | whole => exact hhere
    | item hi hsub => exact hitem _ hi sub hsub
    | property hq hsub => exact hproperty _ hq sub hsub

/-- A chain of checks belongs to the node that it stands behind. -/
theorem each_withChecks {checks : List Check} (h : e.Each P)
    (hhere : P e → P (e.withChecks checks)) : (e.withChecks checks).Each P := by
  obtain ⟨he, hchildren⟩ := each_iff.mp h
  exact each_iff.mpr ⟨hhere he, hchildren⟩

theorem each_object {α : Type} {R : α → String × Expr → Prop} {xs : List α}
    {es : List (String × Expr)} (hhere : P (.object es)) (h : List.Forall₂ R xs es)
    (heach : ∀ x ∈ xs, ∀ q, R x q → q.2.Each P) : (Expr.object es).Each P := by
  refine each_iff.mpr ⟨hhere, nofun, fun q hq => ?_⟩
  obtain ⟨x, hx, hxq⟩ := exists_left_of_forall₂ h hq
  exact heach x hx q hxq

end Expr

variable {P : Expr → Prop}

/-- Nodes are made of parts, and then modified. -/
theorem each_ofSchema (hmodify : ∀ {e e' m place}, modify e m place = .ok e' → P e → P e')
    {s : Schema} (hnode : ∀ sub : Schema, sub.Part s → ∀ {place e},
      Expr.ofSchema place sub = .ok e → P e)
    {place : String} {e : Expr} (h : Expr.ofSchema place s = .ok e) : e.Each P := by
  induction s using Schema.induction generalizing place e with
  | array traits items low high ih =>
    have hhere := hnode _ .whole h
    obtain ⟨item, hitem, h⟩ := bind_eq_ok.mp h
    cases pure_eq_ok.mp h
    refine Expr.each_iff.mpr ⟨hhere, fun i hi => ?_, List.forall_mem_nil _⟩
    cases hi
    exact ih (fun sub hsub => hnode sub (.item hsub)) hitem
  | object traits properties required ih =>
    have hhere := hnode _ .whole h
    obtain ⟨es, hes, h⟩ := bind_eq_ok.mp h
    cases pure_eq_ok.mp h
    refine Expr.each_object hhere (ofProperties_forall₂ hes) fun p hp q hq => ?_
    obtain ⟨_, place, e, he, hq⟩ := hq
    have heach := ih p hp (fun sub hsub => hnode sub (.property hp hsub)) he
    obtain ⟨checks, _, hchain⟩ := modify_eq_ok hq
    rw [hchain] at hq ⊢
    exact Expr.each_withChecks heach (hmodify hq)
  | _ =>
    have hhere := hnode _ .whole h
    refine Expr.each_iff.mpr ⟨hhere, ?_⟩
    first
    | cases h
      exact ⟨nofun, List.forall_mem_nil _⟩
    | cases numberExpr_eq_ok h
      exact ⟨nofun, List.forall_mem_nil _⟩

/-- Each part has its node, behind which there may be modifiers. -/
theorem exists_within_of_part {sub s : Schema} (hsub : sub.Part s) {place : String} {e : Expr}
    (h : Expr.ofSchema place s = .ok e) : ∃ place' base checks,
      Expr.ofSchema place' sub = .ok base ∧ (base.withChecks checks).Within e := by
  induction hsub generalizing place e with
  | whole =>
    refine ⟨place, e, [], h, ?_⟩
    rw [Expr.withChecks_nil]
    exact .whole
  | item _ ih =>
    obtain ⟨item, hitem, h⟩ := bind_eq_ok.mp h
    cases pure_eq_ok.mp h
    obtain ⟨place', base, checks, hbase, hwithin⟩ := ih hitem
    exact ⟨place', base, checks, hbase, .item rfl hwithin⟩
  | property hp _ ih =>
    obtain ⟨es, hes, h⟩ := bind_eq_ok.mp h
    cases pure_eq_ok.mp h
    obtain ⟨q, hq, _, _, e, he, hmodify⟩ := exists_right_of_forall₂ (ofProperties_forall₂ hes) hp
    obtain ⟨more, _, hchain⟩ := modify_eq_ok hmodify
    obtain ⟨place', base, checks, hbase, hwithin⟩ := ih he
    obtain ⟨checks', hwithin⟩ := hwithin.withChecks more
    rw [← hchain] at hwithin
    exact ⟨place', base, checks', hbase, .property hq hwithin⟩

/-! ## Parameters -/

/-- A parameter and its validator: that of its schema, with the parameter's own modifiers. -/
structure ParameterExpr (p : Parameter) (q : String × Expr) : Prop where
  key : q.1 = p.name
  translated : ∃ place e, Expr.ofSchema place p.schema = .ok e ∧
    modify e ⟨p.nullable, !p.required, p.default, p.description⟩ place = .ok q.2

theorem parameterProperties_forall₂ {place : String} {ps : List Parameter}
    {es : List (String × Expr)} (h : parameterProperties place ps = .ok es) :
    List.Forall₂ ParameterExpr ps es := by
  induction ps generalizing es with
  | nil => cases h; exact .nil
  | cons p rest ih =>
    obtain ⟨e, he, h⟩ := bind_eq_ok.mp h
    obtain ⟨e', he', h⟩ := bind_eq_ok.mp h
    obtain ⟨others, hothers, h⟩ := bind_eq_ok.mp h
    cases pure_eq_ok.mp h
    exact .cons ⟨rfl, _, e, he, he'⟩ (ih hothers)

theorem ofParameters_eq_ok {place : String} {ps : List Parameter} {e : Expr}
    (h : Expr.ofParameters place ps = .ok e) :
    ∃ es, e = .object es ∧ List.Forall₂ ParameterExpr ps es := by
  obtain ⟨es, hes, h⟩ := bind_eq_ok.mp h
  exact ⟨es, (pure_eq_ok.mp h).symm, parameterProperties_forall₂ hes⟩

/-- The validator of parameters is an object, and its other nodes are those of their schemas. -/
theorem each_ofParameters (hmodify : ∀ {e e' m place}, modify e m place = .ok e' → P e → P e')
    {ps : List Parameter} {place : String} {e : Expr}
    (hhere : ∀ es, List.Forall₂ ParameterExpr ps es → P (.object es))
    (hnode : ∀ p ∈ ps, ∀ sub : Schema, sub.Part p.schema → ∀ {place e},
      Expr.ofSchema place sub = .ok e → P e)
    (h : Expr.ofParameters place ps = .ok e) : e.Each P := by
  obtain ⟨es, rfl, hes⟩ := ofParameters_eq_ok h
  refine Expr.each_object (hhere es hes) hes fun p hp q hq => ?_
  obtain ⟨_, place, e, he, hq⟩ := hq
  have heach := each_ofSchema hmodify (hnode p hp) he
  obtain ⟨checks, _, hchain⟩ := modify_eq_ok hq
  rw [hchain] at hq ⊢
  exact Expr.each_withChecks heach (hmodify hq)

end Validator

end ApiContract

import ApiContract.Proofs.Nodes
import ApiContract.Proofs.ReferenceCycle

/-!
References through the translation: a validator mentions exactly the targets that its schema refers
to, at every depth and under every modifier, and each of its reference nodes is written with the
constant of its target.
-/

namespace ApiContract

/-- A schema refers to the target of each of its reference nodes, at whatever depth. -/
inductive Schema.RefersTo (t : String) : Schema → Prop
  | here {traits : Traits} : RefersTo t (.ref traits t)
  | item {traits : Traits} {items : Schema} {low high : Option Int} :
      RefersTo t items → RefersTo t (.array traits items low high)
  | property {traits : Traits} {properties : List (String × Schema)} {required : List String}
      {p : String × Schema} : p ∈ properties → RefersTo t p.2 →
      RefersTo t (.object traits properties required)

namespace Validator

/-! ## Nodes of an expression -/

namespace Expr

/-- An expression mentions the targets of its nodes. -/
theorem Within.mentions {sub e : Expr} (h : sub.Within e) {t : String} (ht : sub.ref = some t) :
    e.Mentions t := by
  induction h with
  | whole => exact .here ht
  | item hi _ ih => exact .item hi ih
  | property hq _ ih => exact .property hq ih

theorem mentions_iff {e : Expr} {t : String} : e.Mentions t ↔
    e.ref = some t ∨ (∃ i, e.item = some i ∧ i.Mentions t) ∨
      ∃ q ∈ e.properties, q.2.Mentions t := by
  constructor
  · intro h
    cases h with
    | here h => exact .inl h
    | item hi h => exact .inr (.inl ⟨_, hi, h⟩)
    | property hq h => exact .inr (.inr ⟨_, hq, h⟩)
  · intro h
    rcases h with h | ⟨i, hi, h⟩ | ⟨q, hq, h⟩
    · exact .here h
    · exact .item hi h
    · exact .property hq h

/-- Every reference node of an expression has a target. -/
def Linked (e : Expr) : Prop := ∀ sub : Expr, sub.Within e → sub.kind = .lazy → ∃ t, sub.ref = some t

/-- A reference is written with the constant of its target, and its chain behind it. -/
theorem text_lazy {e : Expr} {t : String} (hkind : e.kind = .lazy) (ht : e.ref = some t)
    (style : Style) (depth : Nat) : e.text style depth =
      (chainText style e.checks).map ("z.lazy(() => " ++ Naming.const t ++ ")" ++ ·) := by
  obtain ⟨kind, values, item, properties, ref, checks⟩ := e
  cases hkind
  cases ht
  rw [Expr.text]
  cases chainText style checks <;> rfl

end Expr

/-! ## Through the translation -/

/-- Modifiers add no references. -/
theorem mentions_modify {e e' : Expr} {m : Modifiers} {place : String}
    (h : modify e m place = .ok e') {t : String} : e'.Mentions t ↔ e.Mentions t := by
  obtain ⟨checks, _, rfl⟩ := modify_eq_ok h
  rw [Expr.mentions_iff, Expr.mentions_iff]
  rfl

/-- An object mentions what the sources of its properties refer to, if each property does. -/
theorem mentions_object_iff {α : Type} {R : α → String × Expr → Prop} {P : α → Prop}
    {xs : List α} {es : List (String × Expr)} {t : String} (h : List.Forall₂ R xs es)
    (hiff : ∀ x ∈ xs, ∀ q, R x q → (q.2.Mentions t ↔ P x)) :
    (Expr.object es).Mentions t ↔ ∃ x ∈ xs, P x := by
  have hobject : (Expr.object es).Mentions t ↔ ∃ q ∈ es, q.2.Mentions t := by
    rw [Expr.mentions_iff]
    simp [Expr.object]
  rw [hobject]
  constructor
  · rintro ⟨q, hq, hm⟩
    obtain ⟨x, hx, hxq⟩ := exists_left_of_forall₂ h hq
    exact ⟨x, hx, (hiff x hx q hxq).mp hm⟩
  · rintro ⟨x, hx, hp⟩
    obtain ⟨q, hq, hxq⟩ := exists_right_of_forall₂ h hx
    exact ⟨q, hq, (hiff x hx q hxq).mpr hp⟩

/-- A validator mentions the targets that its schema refers to, and no others. -/
theorem mentions_ofSchema {s : Schema} {place : String} {e : Expr}
    (h : Expr.ofSchema place s = .ok e) {t : String} : e.Mentions t ↔ s.RefersTo t := by
  -- What is no reference, array or object has no part that could refer to anything.
  have hleaf : ∀ {e : Expr} {s : Schema}, e.ref = none → e.item = none → e.properties = [] →
      ¬ s.RefersTo t → (e.Mentions t ↔ s.RefersTo t) := by
    intro e s href hitem hproperties hs
    refine iff_of_false (fun hm => ?_) hs
    rw [Expr.mentions_iff, href, hitem, hproperties] at hm
    simp at hm
  induction s using Schema.induction generalizing place e with
  | string traits format pattern low high => cases h; exact hleaf rfl rfl rfl nofun
  | enum traits values => cases h; exact hleaf rfl rfl rfl nofun
  | number traits integer low high => cases numberExpr_eq_ok h; exact hleaf rfl rfl rfl nofun
  | boolean traits => cases h; exact hleaf rfl rfl rfl nofun
  | any traits => cases h; exact hleaf rfl rfl rfl nofun
  | array traits items low high ih =>
    obtain ⟨item, hitem, h⟩ := bind_eq_ok.mp h
    cases pure_eq_ok.mp h
    have harray : (Expr.array item (lengthBounds low high)).Mentions t ↔ item.Mentions t := by
      rw [Expr.mentions_iff]
      simp [Expr.array]
    have hitems : item.Mentions t ↔ items.RefersTo t := ih hitem
    rw [harray, hitems]
    constructor
    · exact .item
    · intro hs
      cases hs with
      | item hs => exact hs
  | object traits properties required ih =>
    obtain ⟨es, hes, h⟩ := bind_eq_ok.mp h
    cases pure_eq_ok.mp h
    rw [mentions_object_iff (P := fun p => p.2.RefersTo t) (ofProperties_forall₂ hes)]
    · constructor
      · rintro ⟨p, hp, hs⟩
        exact .property hp hs
      · intro hs
        cases hs with
        | property hp hs => exact ⟨_, hp, hs⟩
    · rintro p hp q ⟨_, place, e, he, hq⟩
      rw [mentions_modify hq]
      exact ih p hp he
  | ref traits target =>
    cases h
    rw [Expr.mentions_iff]
    constructor
    · intro hm
      simp only [Expr.lazy, Option.some.injEq, List.not_mem_nil, reduceCtorEq, false_and,
        exists_const, or_false] at hm
      rw [hm]
      exact .here
    · intro hs
      cases hs with
      | here => exact .inl rfl

/-- Only a reference is translated to a reference node, which has nothing but its target. -/
theorem ref_of_ofSchema {s : Schema} {place : String} {e : Expr}
    (h : Expr.ofSchema place s = .ok e) (hkind : e.kind = .lazy) :
    ∃ traits t, s = .ref traits t ∧ e = .lazy t := by
  cases s with
  | number traits integer low high =>
    cases numberExpr_eq_ok h
    cases hkind
  | array traits items low high =>
    obtain ⟨_, _, h⟩ := bind_eq_ok.mp h
    cases pure_eq_ok.mp h
    cases hkind
  | object traits properties required =>
    obtain ⟨_, _, h⟩ := bind_eq_ok.mp h
    cases pure_eq_ok.mp h
    cases hkind
  | ref traits target =>
    cases h
    exact ⟨traits, target, rfl, rfl⟩
  | _ =>
    cases h
    cases hkind

theorem target_of_ofSchema {s : Schema} {place : String} {e : Expr}
    (h : Expr.ofSchema place s = .ok e) (hkind : e.kind = .lazy) : ∃ t, e.ref = some t := by
  obtain ⟨_, t, _, rfl⟩ := ref_of_ofSchema h hkind
  exact ⟨t, rfl⟩

theorem target_of_modify {e e' : Expr} {m : Modifiers} {place : String}
    (h : modify e m place = .ok e') (he : e.kind = .lazy → ∃ t, e.ref = some t) :
    e'.kind = .lazy → ∃ t, e'.ref = some t := by
  obtain ⟨checks, _, rfl⟩ := modify_eq_ok h
  exact he

/-- The reference nodes of a validator all have a target. -/
theorem linked_ofSchema {s : Schema} {place : String} {e : Expr}
    (h : Expr.ofSchema place s = .ok e) : e.Linked :=
  each_ofSchema target_of_modify (fun _ _ => target_of_ofSchema) h

/-! ## Parameters -/

/-- The validator of parameters mentions the targets that their schemas refer to. -/
theorem mentions_ofParameters {place : String} {ps : List Parameter} {e : Expr}
    (h : Expr.ofParameters place ps = .ok e) {t : String} :
    e.Mentions t ↔ ∃ p ∈ ps, p.schema.RefersTo t := by
  obtain ⟨es, rfl, hes⟩ := ofParameters_eq_ok h
  refine mentions_object_iff hes fun p _ q hq => ?_
  obtain ⟨_, place, e, he, hq⟩ := hq
  rw [mentions_modify hq]
  exact mentions_ofSchema he

theorem linked_ofParameters {place : String} {ps : List Parameter} {e : Expr}
    (h : Expr.ofParameters place ps = .ok e) : e.Linked :=
  each_ofParameters target_of_modify (fun _ _ => nofun) (fun _ _ _ _ => target_of_ofSchema) h

end Validator

end ApiContract

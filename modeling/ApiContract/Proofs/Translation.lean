import ApiContract.Proofs.Outcome
import ApiContract.Validator.Construction

/-!
The translation of schemas, node by node: what it gives for the properties of an object, and that a
node on its own has no modifiers.
-/

namespace ApiContract

/-- Schemas grow by items and by properties. -/
theorem Schema.induction {motive : Schema → Prop}
    (string : ∀ t format pattern low high, motive (.string t format pattern low high))
    (enum : ∀ t values, motive (.enum t values))
    (number : ∀ t integer low high, motive (.number t integer low high))
    (boolean : ∀ t, motive (.boolean t))
    (any : ∀ t, motive (.any t))
    (array : ∀ t items low high, motive items → motive (.array t items low high))
    (object : ∀ t properties required, (∀ p ∈ properties, motive p.2) →
      motive (.object t properties required))
    (ref : ∀ t target, motive (.ref t target)) (s : Schema) : motive s := by
  refine @Schema.rec motive (fun ps => ∀ p ∈ ps, motive p.2) (fun p => motive p.2)
    string enum number boolean any array object ref ?nil ?cons ?pair s
  case nil => exact fun p hp => absurd hp List.not_mem_nil
  case cons =>
    intro q qs hq hqs p hp
    rcases List.mem_cons.mp hp with rfl | hp
    · exact hq
    · exact hqs p hp
  case pair => exact fun _ _ hs => hs

namespace Validator

/-- The modifiers of a property, from its schema and from the names that its object requires. -/
def propertyModifiers (required : List String) (p : String × Schema) : Modifiers :=
  ⟨p.2.traits.nullable, !required.contains p.1, p.2.traits.default, p.2.traits.description⟩

/-- A property and its validator: that of its schema, with the modifiers behind it. -/
structure PropertyExpr (required : List String) (p : String × Schema) (q : String × Expr) :
    Prop where
  key : q.1 = p.1
  translated : ∃ place e, Expr.ofSchema place p.2 = .ok e ∧
    modify e (propertyModifiers required p) place = .ok q.2

theorem ofProperties_forall₂ {place : String} {required : List String}
    {properties : List (String × Schema)} {es : List (String × Expr)}
    (h : Expr.ofProperties place required properties = .ok es) :
    List.Forall₂ (PropertyExpr required) properties es := by
  induction properties generalizing es with
  | nil => cases h; exact .nil
  | cons p rest ih =>
    obtain ⟨name, s⟩ := p
    obtain ⟨e, he, h⟩ := bind_eq_ok.mp h
    obtain ⟨e', he', h⟩ := bind_eq_ok.mp h
    obtain ⟨others, hothers, h⟩ := bind_eq_ok.mp h
    cases pure_eq_ok.mp h
    exact .cons ⟨rfl, _, e, he, he'⟩ (ih hothers)

theorem numberExpr_eq_ok {place : String} {integer : Bool} {low high : Option Numeral} {e : Expr}
    (h : numberExpr place integer low high = .ok e) :
    e = .number ((if integer then [Check.bare .int] else []) ++ bounds low high) := by
  obtain ⟨_, _, h⟩ := bind_eq_ok.mp h
  obtain ⟨_, _, h⟩ := bind_eq_ok.mp h
  exact (pure_eq_ok.mp h).symm

theorem finite_of_checkBound {place : String} {bound : Option Numeral}
    (h : checkBound place bound = .ok ()) : ∀ n ∈ bound, n.isFinite = true := by
  rintro n ⟨⟩
  cases n with
  | int n => rfl
  | float x =>
    rw [checkBound] at h
    split at h
    next hx => exact hx
    next => cases h

theorem finite_of_numberExpr {place : String} {integer : Bool} {low high : Option Numeral}
    {e : Expr} (h : numberExpr place integer low high = .ok e) :
    (∀ n ∈ low, n.isFinite = true) ∧ ∀ n ∈ high, n.isFinite = true := by
  obtain ⟨_, hlow, h⟩ := bind_eq_ok.mp h
  obtain ⟨_, hhigh, _⟩ := bind_eq_ok.mp h
  exact ⟨finite_of_checkBound hlow, finite_of_checkBound hhigh⟩

/-! ## Checks without modifiers -/

def CheckName.isModifier : CheckName → Bool
  | .nullable | .optional | .default => true
  | _ => false

/-- The checks that say what a text or a number has to look like. -/
def CheckName.formats : List CheckName := [.email, .uuid, .datetime, .date, .url, .int]

/-- A check that a schema gives on its own: a format, a bound or a pattern. -/
inductive Refinement : Check → Prop
  | format {name : CheckName} : name ∈ CheckName.formats → Refinement (.bare name)
  | low {n : Numeral} : n.isFinite = true → Refinement ⟨.min, .numeral n⟩
  | high {n : Numeral} : n.isFinite = true → Refinement ⟨.max, .numeral n⟩
  | pattern {p : String} : Refinement ⟨.regex, .text p⟩

theorem Refinement.not_modifier {c : Check} (h : Refinement c) : c.name.isModifier = false := by
  cases h with
  | format hname => exact (by decide : ∀ name ∈ CheckName.formats, name.isModifier = false) _ hname
  | low _ => rfl
  | high _ => rfl
  | pattern => rfl

theorem bounds_refinement {low high : Option Numeral} (hlow : ∀ n ∈ low, n.isFinite = true)
    (hhigh : ∀ n ∈ high, n.isFinite = true) : ∀ c ∈ bounds low high, Refinement c := by
  intro c hc
  rcases List.mem_append.mp hc with hc | hc
  · obtain ⟨n, hn, rfl⟩ := Option.map_eq_some_iff.mp (Option.mem_toList.mp hc)
    exact .low (hlow n hn)
  · obtain ⟨n, hn, rfl⟩ := Option.map_eq_some_iff.mp (Option.mem_toList.mp hc)
    exact .high (hhigh n hn)

theorem lengthBounds_refinement {low high : Option Int} :
    ∀ c ∈ lengthBounds low high, Refinement c := by
  have hfinite : ∀ {length : Option Int}, ∀ n ∈ length.map Numeral.int, n.isFinite = true := by
    intro length n hn
    obtain ⟨_, _, rfl⟩ := Option.map_eq_some_iff.mp hn
    rfl
  exact bounds_refinement hfinite hfinite

theorem stringChecks_refinement {format pattern : Option String} {low high : Option Int} :
    ∀ c ∈ stringChecks format pattern low high, Refinement c := by
  intro c hc
  rcases List.mem_append.mp hc with hc | hc
  · rcases List.mem_append.mp hc with hc | hc
    · obtain ⟨n, hn, rfl⟩ := Option.map_eq_some_iff.mp (Option.mem_toList.mp hc)
      obtain ⟨name, _, hname⟩ := Option.bind_eq_some_iff.mp hn
      unfold formatCheck? at hname
      split at hname <;> cases hname <;> exact .format (by decide)
    · obtain ⟨p, _, rfl⟩ := Option.map_eq_some_iff.mp (Option.mem_toList.mp hc)
      exact .pattern
  · exact lengthBounds_refinement c hc

/-- The checks of a schema on its own are refinements; modifiers come with its place in an object. -/
theorem ofSchema_refinement {place : String} {s : Schema} {e : Expr}
    (h : Expr.ofSchema place s = .ok e) : ∀ c ∈ e.checks, Refinement c := by
  cases s with
  | string t format pattern low high => cases h; exact stringChecks_refinement
  | enum t values => cases h; exact List.forall_mem_nil _
  | number t integer low high =>
    obtain ⟨hlow, hhigh⟩ := finite_of_numberExpr h
    cases numberExpr_eq_ok h
    intro c hc
    rcases List.mem_append.mp hc with hc | hc
    · cases integer
      · cases hc
      · cases List.mem_singleton.mp hc
        exact .format (by decide)
    · exact bounds_refinement hlow hhigh c hc
  | boolean t => cases h; exact List.forall_mem_nil _
  | any t => cases h; exact List.forall_mem_nil _
  | array t items low high =>
    obtain ⟨item, _, h⟩ := bind_eq_ok.mp h
    cases pure_eq_ok.mp h
    exact lengthBounds_refinement
  | object t properties required =>
    obtain ⟨es, _, h⟩ := bind_eq_ok.mp h
    cases pure_eq_ok.mp h
    exact List.forall_mem_nil _
  | ref t target => cases h; exact List.forall_mem_nil _

theorem ofSchema_not_modifier {place : String} {s : Schema} {e : Expr}
    (h : Expr.ofSchema place s = .ok e) : ∀ c ∈ e.checks, c.name.isModifier = false :=
  fun c hc => (ofSchema_refinement h c hc).not_modifier

end Validator

end ApiContract

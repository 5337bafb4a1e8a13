import ApiContract.Proofs.Modifiers
import ApiContract.Proofs.Translation

/-!
What a schema takes, read off its keywords, and that its validator takes the same values.
-/

namespace ApiContract

open Validator

/-! ## What schemas take -/

/-- Whether a property takes a value that is there. -/
def Traits.TakesPresent (t : Traits) (takes : Datum → Prop) (v : Datum) : Prop :=
  takes v ∨ t.nullable = true ∧ v = .null

/-- Whether a property takes what was read for its key. For a key that is not there its default
stands in; without one it may be missing if it is not required, or if the schema takes `undefined`
itself. -/
def Traits.Takes (t : Traits) (required : Bool) (takes : Datum → Prop) : Datum → Prop
  | .undefined => match t.default with
    | some v => ∃ d, v.datum? = some d ∧ t.TakesPresent takes d
    | .none => required = false ∨ takes .undefined
  | v => t.TakesPresent takes v

theorem Traits.takes_of_ne {t : Traits} {required : Bool} {takes : Datum → Prop} {v : Datum}
    (h : v ≠ .undefined) : t.Takes required takes v ↔ t.TakesPresent takes v := by
  cases v
  case undefined => exact absurd rfl h
  all_goals rfl

namespace Schema

mutual

/-- What a schema takes by itself. A key that holds `undefined` counts as one that is not there. -/
def Takes (I : Interpretation) : Schema → Datum → Prop
  | .string _ format pattern low high, v => ∃ s, v = .string s ∧
      (∀ f ∈ format.bind Format.ofName?, I.format f s) ∧ (∀ p ∈ pattern, I.pattern p s) ∧
      (∀ l ∈ low, l ≤ I.length s) ∧ ∀ h ∈ high, (I.length s : Int) ≤ h
  | .enum _ values, v => ∃ s ∈ values, v = .string s
  | .number _ integer low high, v => ∃ q, v = .number q ∧
      (integer = true → q.isInt = true) ∧ Within low high q
  | .boolean _, v => ∃ b, v = .bool b
  | .any _, _ => True
  | .array _ items low high, v => ∃ vs, v = .array vs ∧ (∀ w ∈ vs, Takes I items w) ∧
      (∀ l ∈ low, l ≤ vs.length) ∧ ∀ h ∈ high, (vs.length : Int) ≤ h
  | .object _ properties required, v => ∃ ms, v = .object ms ∧
      (∀ m ∈ ms, m.1 ∈ properties.map (·.1)) ∧ TakesEach I required ms properties
  | .ref _ target, v => ∃ o, I.component target v o

/-- Each property takes what the members have for its key. A later property of the same key takes
the place of an earlier one. -/
def TakesEach (I : Interpretation) (required : List String) (ms : List (String × Datum)) :
    List (String × Schema) → Prop
  | [] => True
  | (name, s) :: rest =>
    (name ∉ rest.map (·.1) →
      s.traits.Takes (required.contains name) (Takes I s) (Datum.read name ms)) ∧
    TakesEach I required ms rest

end

end Schema

namespace Validator

variable {I : Interpretation} {base : Run} {v o : Datum}

/-! ## Chains -/

/-- The check of a format looks for the format that the description names. -/
theorem runChain_format {format : Option String} :
    runChain I ((format.bind formatCheck?).map Check.bare).toList base v o ↔
      base v o ∧ ∀ f ∈ format.bind Format.ofName?, ∃ s, o = .string s ∧ I.format f s := by
  cases format with
  | none => simp
  | some name =>
    have hcheck : ∀ (c : CheckName) (f : Format), Format.ofCheck? c = some f →
        ((Check.bare c).run I base v o ↔ base v o ∧ ∃ s, o = .string s ∧ I.format f s) := by
      intro c f hf
      cases c <;> cases hf <;> simp [Check.run, Check.bare, Format.ofCheck?]
    rw [Option.bind_some, Option.bind_some]
    unfold formatCheck? Format.ofName?
    split
    · simpa using hcheck .email .email rfl
    · simpa using hcheck .uuid .uuid rfl
    · simpa using hcheck .datetime .dateTime rfl
    · simpa using hcheck .date .date rfl
    · simpa using hcheck .url .uri rfl
    · simp

theorem runChain_pattern {pattern : Option String} :
    runChain I (pattern.map fun p => (⟨.regex, .text p⟩ : Check)).toList base v o ↔
      base v o ∧ ∀ p ∈ pattern, ∃ s, o = .string s ∧ I.pattern p s := by
  cases pattern <;> simp [Check.run]

/-- A text comes out as it is, if it has the format, matches the pattern and is neither too short
nor too long. -/
theorem yields_string {format pattern : Option String} {low high : Option Int} :
    (Expr.string (stringChecks format pattern low high)).Yields I v o ↔
      o = v ∧ ∃ s, v = .string s ∧ (∀ f ∈ format.bind Format.ofName?, I.format f s) ∧
        (∀ p ∈ pattern, I.pattern p s) ∧ (∀ l ∈ low, l ≤ I.length s) ∧
        ∀ h ∈ high, (I.length s : Int) ≤ h := by
  unfold stringChecks lengthBounds
  rw [Expr.string_yields, runChain_append, runChain_append, runChain_bounds, runChain_pattern,
    runChain_format]
  constructor
  · intro h
    obtain ⟨⟨⟨⟨rfl, s, rfl⟩, hformat⟩, hpattern⟩, hlength⟩ := h
    rw [bounded_iff_within rfl, within_lengths] at hlength
    exact ⟨rfl, s, rfl, by simpa using hformat, by simpa using hpattern, hlength⟩
  · intro h
    obtain ⟨rfl, s, rfl, hformat, hpattern, hlength⟩ := h
    rw [bounded_iff_within rfl, within_lengths]
    exact ⟨⟨⟨⟨rfl, s, rfl⟩, fun f hf => ⟨s, rfl, hformat f hf⟩⟩,
      fun p hp => ⟨s, rfl, hpattern p hp⟩⟩, hlength⟩

theorem yields_number {integer : Bool} {low high : Option Numeral} :
    (Expr.number ((if integer then [Check.bare .int] else []) ++ bounds low high)).Yields I v o ↔
      o = v ∧ ∃ q, v = .number q ∧ (integer = true → q.isInt = true) ∧ Within low high q := by
  have hint : runChain I (if integer then [Check.bare .int] else [])
        (fun v o => o = v ∧ ∃ q, v = .number q) v o ↔
      o = v ∧ ∃ q, v = .number q ∧ (integer = true → q.isInt = true) := by
    cases integer with
    | false => simp
    | true =>
      change (o = v ∧ ∃ q, v = .number q) ∧ (∃ q, o = .number q ∧ q.isInt = true) ↔ _
      constructor
      · intro h
        obtain ⟨⟨rfl, _⟩, q, rfl, hq⟩ := h
        exact ⟨rfl, q, rfl, fun _ => hq⟩
      · intro h
        obtain ⟨rfl, q, rfl, hq⟩ := h
        exact ⟨⟨rfl, q, rfl⟩, q, rfl, hq rfl⟩
  rw [Expr.number_yields, runChain_append, runChain_bounds]
  refine (and_congr_left' hint).trans ?_
  constructor
  · intro h
    obtain ⟨⟨rfl, q, rfl, hq⟩, hb⟩ := h
    exact ⟨rfl, q, rfl, hq, (bounded_iff_within rfl).mp hb⟩
  · intro h
    obtain ⟨rfl, q, rfl, hq, hb⟩ := h
    exact ⟨⟨rfl, q, rfl, hq⟩, (bounded_iff_within rfl).mpr hb⟩

/-- An array comes out item by item, if it has neither too few nor too many of them. -/
theorem yields_array {item : Expr} {low high : Option Int} :
    (Expr.array item (lengthBounds low high)).Yields I v o ↔ ∃ vs os, v = .array vs ∧
      o = .array os ∧ List.Forall₂ (item.Yields I) vs os ∧
        (∀ l ∈ low, l ≤ vs.length) ∧ ∀ h ∈ high, (vs.length : Int) ≤ h := by
  rw [Expr.array_yields, lengthBounds, runChain_bounds]
  constructor
  · intro h
    obtain ⟨⟨vs, os, rfl, rfl, hitems⟩, hlength⟩ := h
    rw [bounded_iff_within rfl, within_lengths, ← hitems.length_eq] at hlength
    exact ⟨vs, os, rfl, rfl, hitems, hlength⟩
  · intro h
    obtain ⟨vs, os, rfl, rfl, hitems, hlength⟩ := h
    rw [bounded_iff_within rfl, within_lengths, ← hitems.length_eq]
    exact ⟨⟨vs, os, rfl, rfl, hitems⟩, hlength⟩

theorem accepts_array {item : Expr} {low high : Option Int} :
    (Expr.array item (lengthBounds low high)).Accepts I v ↔ ∃ vs, v = .array vs ∧
      (∀ w ∈ vs, item.Accepts I w) ∧
        (∀ l ∈ low, l ≤ vs.length) ∧ ∀ h ∈ high, (vs.length : Int) ≤ h := by
  unfold Expr.Accepts
  simp only [yields_array, ← exists_forall₂]
  constructor
  · intro h
    obtain ⟨_, vs, os, rfl, rfl, hitems, hlength⟩ := h
    exact ⟨vs, rfl, ⟨os, hitems⟩, hlength⟩
  · intro h
    obtain ⟨vs, rfl, ⟨os, hitems⟩, hlength⟩ := h
    exact ⟨_, vs, os, rfl, rfl, hitems, hlength⟩

theorem accepts_object {properties : List (String × Expr)} :
    (Expr.object properties).Accepts I v ↔ ∃ ms, v = .object ms ∧
      (∀ m ∈ ms, m.1 ∈ properties.map (·.1)) ∧ ∃ os, Expr.EachYields I ms properties os := by
  unfold Expr.Accepts
  simp only [Expr.object_yields]
  constructor
  · intro h
    obtain ⟨_, ms, os, rfl, rfl, hkeys, h⟩ := h
    exact ⟨ms, rfl, hkeys, os, h⟩
  · intro h
    obtain ⟨ms, rfl, hkeys, os, h⟩ := h
    exact ⟨_, ms, os, rfl, rfl, hkeys, h⟩

/-! ## Properties -/

/-- A property takes what its schema takes, with the modifiers of its place. -/
theorem exists_modifiers_yields {t : Traits} {required : Bool} {inner : Run} {takes : Datum → Prop}
    (h : ∀ v, (∃ o, inner v o) ↔ takes v) (v : Datum) :
    (∃ o, Modifiers.Yields ⟨t.nullable, !required, t.default, t.description⟩ inner v o) ↔
      t.Takes required takes v := by
  have hpresent : ∀ w, (∃ o, Modifiers.YieldsPresent
      ⟨t.nullable, !required, t.default, t.description⟩ inner w o) ↔ t.TakesPresent takes w := by
    intro w
    rw [Traits.TakesPresent, ← h]
    cases hn : t.nullable <;> cases w <;> simp [Modifiers.YieldsPresent]
  by_cases hv : v = .undefined
  · subst hv
    unfold Modifiers.Yields Traits.Takes
    cases t.default with
    | none => cases required <;> simp [← h]
    | some w =>
      simp only [← hpresent]
      constructor
      · intro h
        obtain ⟨o, d, hd, ho⟩ := h
        exact ⟨d, hd, o, ho⟩
      · intro h
        obtain ⟨d, hd, o, ho⟩ := h
        exact ⟨o, d, hd, ho⟩
  · simp only [Modifiers.yields_of_ne hv, Traits.takes_of_ne hv, hpresent]

theorem exists_eachYields_cons {key : String} {e : Expr} {rest : List (String × Expr)}
    {ms : List (String × Datum)} : (∃ os, Expr.EachYields I ms ((key, e) :: rest) os) ↔
      (key ∉ rest.map (·.1) → e.Accepts I (Datum.read key ms)) ∧
        ∃ os, Expr.EachYields I ms rest os := by
  by_cases hkey : key ∈ rest.map (·.1)
  · simp only [Expr.eachYields_cons_of_mem hkey, hkey, not_true_eq_false, false_implies, true_and]
  · simp only [Expr.eachYields_cons_of_notMem hkey, hkey, not_false_eq_true, true_implies]
    constructor
    · intro h
      obtain ⟨_, r, others, hr, hothers, _⟩ := h
      exact ⟨⟨r, hr⟩, others, hothers⟩
    · intro h
      obtain ⟨⟨r, hr⟩, others, hothers⟩ := h
      exact ⟨_, r, others, hr, hothers, rfl⟩

/-- The properties of an object are taken one by one, whatever else the object is like. -/
theorem exists_eachYields {required : List String} {ps : List (String × Schema)}
    {es : List (String × Expr)} {ms : List (String × Datum)}
    (h : List.Forall₂ (PropertyExpr required) ps es)
    (ih : ∀ p ∈ ps, ∀ place e, Expr.ofSchema place p.2 = .ok e →
      ∀ v, e.Accepts I v ↔ p.2.Takes I v) :
    (∃ os, Expr.EachYields I ms es os) ↔ Schema.TakesEach I required ms ps := by
  induction h with
  | nil => exact iff_of_true ⟨[], rfl⟩ trivial
  | @cons p q ps es hp hrest hall =>
    obtain ⟨name, s⟩ := p
    obtain ⟨key, e'⟩ := q
    obtain ⟨rfl, place, e, he, he'⟩ := hp
    have hkeys := (effective_forall₂ (fun _ _ => PropertyExpr.key) hrest).1
    rw [exists_eachYields_cons, Schema.TakesEach, hkeys,
      hall fun p hp => ih p (List.mem_cons_of_mem _ hp)]
    refine and_congr_left' (forall_congr' fun _ => ?_)
    unfold Expr.Accepts
    simp only [Expr.yields_modify he']
    exact exists_modifiers_yields (ih _ List.mem_cons_self place e he) _

/-- The validator of a schema takes exactly the values that the schema takes, whatever references,
formats and patterns mean. -/
theorem accepts_iff_takes (place : String) (s : Schema) (e : Expr)
    (h : Expr.ofSchema place s = .ok e) (I : Interpretation) (v : Datum) :
    e.Accepts I v ↔ s.Takes I v := by
  induction s using Schema.induction generalizing place e v with
  | string t format pattern low high =>
    cases h
    unfold Expr.Accepts
    simp only [yields_string, Schema.Takes, exists_eq_left]
  | enum t values =>
    cases h
    unfold Expr.Accepts
    simp only [Expr.enum_yields, Schema.Takes, exists_eq_left]
  | number t integer low high =>
    cases numberExpr_eq_ok h
    unfold Expr.Accepts
    simp only [yields_number, Schema.Takes, exists_eq_left]
  | boolean t =>
    cases h
    unfold Expr.Accepts
    simp only [Expr.boolean_yields, Schema.Takes, exists_eq_left]
  | any t =>
    cases h
    unfold Expr.Accepts
    simp only [Expr.any_yields, Schema.Takes, exists_eq]
  | array t items low high ih =>
    obtain ⟨item, hi, h⟩ := bind_eq_ok.mp h
    cases pure_eq_ok.mp h
    rw [accepts_array, Schema.Takes]
    simp only [ih _ item hi]
  | object t properties required ih =>
    obtain ⟨es, hes, h⟩ := bind_eq_ok.mp h
    cases pure_eq_ok.mp h
    have hall := ofProperties_forall₂ hes
    rw [accepts_object, Schema.Takes, (effective_forall₂ (fun _ _ => PropertyExpr.key) hall).1]
    simp only [exists_eachYields hall fun p hp place e he v => ih p hp place e he v]
  | ref t target =>
    cases h
    unfold Expr.Accepts
    simp only [Expr.lazy_yields, Schema.Takes]

/-- A name of some length, an age that defaults to three, and an owner that may be null. -/
def petSchema : Schema :=
  .object .none [("name", .string .none .none .none (some 1) (some 20)),
    ("age", .number ⟨false, some (.int 3), .none⟩ true (some (.int 0)) .none),
    ("owner", .ref ⟨true, .none, .none⟩ "Owner")] ["name", "owner"]

def petExpr : Expr :=
  .object [("name", .string [⟨.min, .numeral (.int 1)⟩, ⟨.max, .numeral (.int 20)⟩]),
    ("age", .number [.bare .int, ⟨.min, .numeral (.int 0)⟩, .bare .optional,
      ⟨.default, .literal (.number (.int 3))⟩]),
    ("owner", (Expr.lazy "Owner").withChecks [.bare .nullable])]

/-- No owner, every format and every pattern. -/
def lenient : Interpretation :=
  ⟨fun _ _ _ => False, fun _ _ => True, fun _ _ => True, String.length⟩

/-- A pet without an age and with a null for an owner is taken. -/
theorem accepts_iff_takes_pet : Expr.ofSchema "Pet" petSchema = .ok petExpr ∧
    petExpr.Accepts lenient (.object [("name", .string "Rex"), ("owner", .null)]) := by
  refine ⟨rfl, (accepts_iff_takes "Pet" petSchema petExpr rfl lenient _).mpr ?_⟩
  refine ⟨_, rfl, by decide, fun _ => .inl ?name, fun _ => ⟨.number 3, rfl, .inl ?age⟩,
    fun _ => .inr ⟨rfl, rfl⟩, trivial⟩
  case name => exact ⟨"Rex", rfl, by simp, by simp, by decide, by decide⟩
  case age => exact ⟨3, rfl, fun _ => rfl, by simp [Numeral.value?], by simp⟩

end Validator

end ApiContract

import ApiContract.Proofs.Outcome
import ApiContract.Proofs.Runtime
import ApiContract.Validator.Construction

/-!
What the chain behind a validator does, read off its parts. Bounds only look at what comes out, and
the modifiers of a property, whose order in the chain is fixed, act as independent marks.
-/

namespace ApiContract

theorem Binary64.exists_value {x : Binary64} (h : x.isFinite = true) : ∃ q, x.value? = some q := by
  cases x with
  | finite negative m e => exact ⟨_, rfl⟩
  | nan => cases h
  | infinite _ => cases h

namespace Value

theorem datum?_ne_undefined {v : Value} {d : Datum} (h : v.datum? = some d) :
    d ≠ .undefined := by
  rintro rfl
  cases v with
  | scalar s => cases s <;> simp [datum?, Scalar.datum?] at h
  | seq items knot => simp [datum?] at h
  | map members knot => simp [datum?] at h
  | pair a b => cases ha : a.datum? <;> cases hb : b.datum? <;> simp [datum?, ha, hb] at h
  | set members => simp [datum?] at h
  | endless => simp [datum?] at h

end Value

namespace Validator

/-! ## Defaults -/

mutual

/-- A default that was accepted is a JSON value, and its literal writes that value. -/
theorem Literal.datum_ofValue : ∀ (place : String) (v : Value) (l : Literal),
    Literal.ofValue place v = .ok l → ∃ d, v.datum? = some d ∧ l.datum? = some d
  | _, .scalar .null, _, h => by cases h; exact ⟨_, rfl, rfl⟩
  | _, .scalar (.bool b), _, h => by cases h; exact ⟨_, rfl, rfl⟩
  | _, .scalar (.int n), _, h => by cases h; exact ⟨_, rfl, rfl⟩
  | _, .scalar (.float x), _, h => by
    rw [Literal.ofValue] at h
    split at h
    next hx =>
      cases h
      obtain ⟨q, hq⟩ := Binary64.exists_value hx
      refine ⟨.number q, ?_, ?_⟩
      · rw [Value.datum?, Scalar.datum?, hq]; rfl
      · change x.value?.map Datum.number = _
        rw [hq]; rfl
    next => cases h
  | _, .scalar (.str s), _, h => by cases h; exact ⟨_, rfl, rfl⟩
  | place, .seq items _, _, h => by
    obtain ⟨ls, hls, h⟩ := bind_eq_ok.mp h
    cases pure_eq_ok.mp h
    obtain ⟨ds, hv, hl⟩ := Literal.itemData_ofItems place 0 items ls hls
    exact ⟨.array ds, by rw [Value.datum?, hv]; rfl, by rw [Literal.datum?, hl]; rfl⟩
  | place, .map members _, _, h => by
    obtain ⟨ls, hls, h⟩ := bind_eq_ok.mp h
    cases pure_eq_ok.mp h
    obtain ⟨ds, hv, hl⟩ := Literal.memberData_ofMembers place members ls hls
    exact ⟨.object ds, by rw [Value.datum?, hv]; rfl, by rw [Literal.datum?, hl]; rfl⟩
  | place, .pair a b, _, h => by
    obtain ⟨first, ha, h⟩ := bind_eq_ok.mp h
    obtain ⟨second, hb, h⟩ := bind_eq_ok.mp h
    cases pure_eq_ok.mp h
    obtain ⟨da, hva, hla⟩ := Literal.datum_ofValue _ a first ha
    obtain ⟨db, hvb, hlb⟩ := Literal.datum_ofValue _ b second hb
    refine ⟨.array [da, db], by rw [Value.datum?, hva, hvb]; rfl, ?_⟩
    rw [Literal.datum?, Literal.itemData?, Literal.itemData?, Literal.itemData?, hla, hlb]
    rfl

theorem Literal.itemData_ofItems : ∀ (place : String) (index : Nat) (vs : List Value)
    (ls : List Literal), Literal.ofItems place index vs = .ok ls →
      ∃ ds, Value.itemData? vs = some ds ∧ Literal.itemData? ls = some ds
  | _, _, [], _, h => by cases h; exact ⟨_, rfl, rfl⟩
  | place, index, v :: vs, _, h => by
    obtain ⟨l, hl, h⟩ := bind_eq_ok.mp h
    obtain ⟨ls, hls, h⟩ := bind_eq_ok.mp h
    cases pure_eq_ok.mp h
    obtain ⟨d, hvd, hld⟩ := Literal.datum_ofValue _ v l hl
    obtain ⟨ds, hvs, hds⟩ := Literal.itemData_ofItems place (index + 1) vs ls hls
    exact ⟨d :: ds, by rw [Value.itemData?, hvd, hvs]; rfl,
      by rw [Literal.itemData?, hld, hds]; rfl⟩

theorem Literal.memberData_ofMembers : ∀ (place : String) (members : List (Scalar × Value))
    (ls : List (String × Literal)), Literal.ofMembers place members = .ok ls →
      ∃ ds, Value.memberData? members = some ds ∧ Literal.memberData? ls = some ds
  | _, [], _, h => by cases h; exact ⟨_, rfl, rfl⟩
  | place, (k, v) :: rest, _, h => by
    obtain ⟨key, hkey, h⟩ := bind_eq_ok.mp h
    obtain ⟨l, hl, h⟩ := bind_eq_ok.mp h
    obtain ⟨ls, hls, h⟩ := bind_eq_ok.mp h
    cases pure_eq_ok.mp h
    have hplain : k.plain = key := by
      unfold Scalar.spelledPlain at hkey
      split at hkey <;> simp_all
    obtain ⟨d, hvd, hld⟩ := Literal.datum_ofValue _ v l hl
    obtain ⟨ds, hvs, hds⟩ := Literal.memberData_ofMembers place rest ls hls
    exact ⟨(key, d) :: ds, by rw [Value.memberData?, hvd, hvs, hplain]; rfl,
      by rw [Literal.memberData?, hld, hds]; rfl⟩

end

/-! ## Bounds -/

variable {I : Interpretation} {base : Run} {v o : Datum}

/-- Whether a number lies between two bounds, which it may equal. -/
def Within (low high : Option Numeral) (q : ℚ) : Prop :=
  (∀ n ∈ low, ∃ b, n.value? = some b ∧ b ≤ q) ∧ (∀ n ∈ high, ∃ b, n.value? = some b ∧ q ≤ b)

/-- Whether the number that bounds are about, for what came out, lies between them. -/
def Bounded (I : Interpretation) (low high : Option Numeral) (o : Datum) : Prop :=
  (∀ n ∈ low, ∃ b q, n.value? = some b ∧ I.size? o = some q ∧ b ≤ q) ∧
    ∀ n ∈ high, ∃ b q, n.value? = some b ∧ I.size? o = some q ∧ q ≤ b

theorem runChain_bounds {low high : Option Numeral} :
    runChain I (bounds low high) base v o ↔ base v o ∧ Bounded I low high o := by
  have hmin : ∀ (n : Numeral) (inner : Run), Check.run I ⟨.min, .numeral n⟩ inner v o ↔
      inner v o ∧ ∃ b q, n.value? = some b ∧ I.size? o = some q ∧ b ≤ q := fun _ _ => Iff.rfl
  have hmax : ∀ (n : Numeral) (inner : Run), Check.run I ⟨.max, .numeral n⟩ inner v o ↔
      inner v o ∧ ∃ b q, n.value? = some b ∧ I.size? o = some q ∧ q ≤ b := fun _ _ => Iff.rfl
  cases low <;> cases high <;> simp [bounds, Bounded, hmin, hmax, and_assoc]

theorem bounded_iff_within {low high : Option Numeral} {q : ℚ} (hq : I.size? o = some q) :
    Bounded I low high o ↔ Within low high q := by
  simp [Bounded, Within, hq]

theorem within_lengths {low high : Option Int} {n : Nat} :
    Within (low.map .int) (high.map .int) n ↔ (∀ l ∈ low, l ≤ n) ∧ ∀ h ∈ high, (n : Int) ≤ h := by
  have hcast : ∀ z : Int, ((z : ℚ) ≤ n ↔ z ≤ n) ∧ ((n : ℚ) ≤ z ↔ (n : Int) ≤ z) := fun z =>
    ⟨by exact_mod_cast Iff.rfl, by exact_mod_cast Iff.rfl⟩
  cases low <;> cases high <;> simp [Within, Numeral.value?, hcast]

/-! ## Modifiers -/

/-- The value that a property goes on with: its default where there is none. -/
def filled (fallback : Option Value) : Datum → Datum
  | .undefined => (fallback.bind Value.datum?).getD .undefined
  | v => v

namespace Modifiers

/-- What a property makes of a value that is there. -/
def YieldsPresent (m : Modifiers) (inner : Run) : Run
  | .null, o => if m.nullable then o = .null else inner .null o
  | v, o => inner v o

/-- What a property makes of what was read for its key. -/
def Yields (m : Modifiers) (inner : Run) : Run
  | .undefined, o => match m.default with
    | some v => ∃ d, v.datum? = some d ∧ m.YieldsPresent inner d o
    | none => if m.optional then o = .undefined else inner .undefined o
  | v, o => m.YieldsPresent inner v o

theorem yields_of_ne {m : Modifiers} {inner : Run} {v o : Datum} (h : v ≠ .undefined) :
    m.Yields inner v o ↔ m.YieldsPresent inner v o := by
  cases v
  case undefined => exact absurd rfl h
  all_goals rfl

theorem yieldsPresent_cases {m : Modifiers} {inner : Run} {v o : Datum}
    (h : m.YieldsPresent inner v o) :
    m.nullable = true ∧ v = .null ∧ o = .null ∨
      inner v o ∧ (m.nullable = true → v ≠ .null) := by
  cases v <;> cases hn : m.nullable <;> simp_all [YieldsPresent]

/-- A property without a value and without a default leaves it at that or asks its validator. Else
it has a value, which is null if that is let through, or is for the validator. -/
theorem yields_cases {m : Modifiers} {inner : Run} {v o : Datum}
    (h : m.Yields inner v o) :
    (v = .undefined ∧ m.default = none ∧
      (m.optional = true ∧ o = .undefined ∨ m.optional = false ∧ inner .undefined o)) ∨
    (filled m.default v ≠ .undefined ∧ (v = .undefined → m.default ≠ none) ∧
      m.YieldsPresent inner (filled m.default v) o) := by
  by_cases hv : v = .undefined
  · subst hv
    unfold Yields at h
    cases hd : m.default with
    | none =>
      rw [hd] at h
      refine .inl ⟨rfl, rfl, ?_⟩
      cases ho : m.optional with
      | true => exact .inl ⟨rfl, by simpa [ho] using h⟩
      | false => exact .inr ⟨rfl, by simpa [ho] using h⟩
    | some w =>
      rw [hd] at h
      obtain ⟨d, hw, h⟩ := h
      have hfilled : filled (some w) .undefined = d := by simp [filled, hw]
      rw [hfilled]
      exact .inr ⟨Value.datum?_ne_undefined hw, fun _ => nofun, h⟩
  · have hfilled : filled m.default v = v := by
      cases v
      case undefined => exact absurd rfl hv
      all_goals rfl
    rw [hfilled]
    exact .inr ⟨hv, fun heq => absurd heq hv, (yields_of_ne hv).mp h⟩

end Modifiers

/-- The chain of modifiers, part by part. The default is the only one that may be refused. -/
theorem Modifiers.checks_cases {m : Modifiers} {place : String} {checks : List Check}
    (h : m.checks place = .ok checks) : ∃ fallback,
      checks = (if m.nullable then [Check.bare .nullable] else []) ++
        (if m.optional then [Check.bare .optional] else []) ++ fallback ++
        (m.description.map fun s => (⟨.describe, .text s⟩ : Check)).toList ∧
      (m.default = none ∧ fallback = [] ∨
        ∃ v l, m.default = some v ∧ Literal.ofValue place v = .ok l ∧
          fallback = [⟨.default, .literal l⟩]) := by
  unfold Modifiers.checks at h
  cases hd : m.default with
  | none =>
    rw [hd] at h
    cases pure_eq_ok.mp h
    exact ⟨[], rfl, .inl ⟨rfl, rfl⟩⟩
  | some v =>
    rw [hd] at h
    obtain ⟨l, hl, h⟩ := bind_eq_ok.mp h
    cases pure_eq_ok.mp h
    exact ⟨_, rfl, .inr ⟨v, l, rfl, hl, rfl⟩⟩

theorem runChain_nullable {m : Modifiers} :
    runChain I (if m.nullable then [Check.bare .nullable] else []) base =
      m.YieldsPresent base := by
  funext v o
  cases hn : m.nullable <;> cases v <;>
    simp [Modifiers.YieldsPresent, Check.run, Check.bare, hn]

theorem runChain_describe {description : Option String} :
    runChain I (description.map fun s => (⟨.describe, .text s⟩ : Check)).toList base = base := by
  cases description <;> rfl

theorem runChain_optional {m : Modifiers} (hv : v ≠ .undefined) :
    runChain I (if m.optional then [Check.bare .optional] else []) base v o ↔ base v o := by
  cases m.optional with
  | false => rfl
  | true =>
    cases v
    case undefined => exact absurd rfl hv
    all_goals rfl

theorem runChain_default {l : Literal} (hv : v ≠ .undefined) :
    runChain I [⟨.default, .literal l⟩] base v o ↔ base v o := by
  cases v
  case undefined => exact absurd rfl hv
  all_goals rfl

/-- The chain of modifiers means what they say one by one. -/
theorem runChain_modifiers {m : Modifiers} {place : String} {checks : List Check}
    (h : m.checks place = .ok checks) : runChain I checks base v o ↔ m.Yields base v o := by
  obtain ⟨fallback, rfl, hf⟩ := Modifiers.checks_cases h
  rw [runChain_append, runChain_append, runChain_append, runChain_nullable, runChain_describe]
  rcases hf with ⟨hd, rfl⟩ | ⟨w, l, hd, hl, rfl⟩
  · rw [runChain_nil]
    by_cases hv : v = .undefined
    · subst hv
      unfold Modifiers.Yields
      rw [hd]
      cases m.optional <;> rfl
    · rw [runChain_optional hv, Modifiers.yields_of_ne hv]
  · obtain ⟨d, hw, hld⟩ := Literal.datum_ofValue place w l hl
    by_cases hv : v = .undefined
    · subst hv
      -- The default is never `undefined`, so a mark for `undefined` before it has no say.
      have hdefined := Value.datum?_ne_undefined hw
      have hoptional := @runChain_optional I (m.YieldsPresent base) d o m hdefined
      unfold Modifiers.Yields
      rw [hd]
      change (∃ d', l.datum? = some d' ∧ _) ↔ ∃ d', w.datum? = some d' ∧ _
      rw [hld, hw]
      simp only [Option.some.injEq, exists_eq_left', hoptional]
    · rw [runChain_default hv, runChain_optional hv, Modifiers.yields_of_ne hv]

theorem modify_eq_ok {e e' : Expr} {m : Modifiers} {place : String}
    (h : modify e m place = .ok e') :
    ∃ checks, m.checks place = .ok checks ∧ e' = e.withChecks checks := by
  obtain ⟨checks, hc, h⟩ := bind_eq_ok.mp h
  exact ⟨checks, hc, (pure_eq_ok.mp h).symm⟩

/-- A property with its modifiers. -/
theorem Expr.yields_modify {e e' : Expr} {m : Modifiers} {place : String}
    (h : modify e m place = .ok e') : e'.Yields I v o ↔ m.Yields (e.Yields I) v o := by
  obtain ⟨checks, hc, rfl⟩ := modify_eq_ok h
  rw [Expr.yields_withChecks, runChain_modifiers hc]

end Validator

end ApiContract

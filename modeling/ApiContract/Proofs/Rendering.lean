import ApiContract.Proofs.WellFormed
import ApiContract.Validator.Printer

/-!
Writing validators. A well-formed validator always has a type, and it can be written exactly if none
of the whole numbers in it, bounds and defaults alike, has too many digits.
-/

namespace ApiContract

variable {α β : Type}

theorem exists_map_eq_ok {f : α → β} {x : Except Issue α} :
    (∃ b, x.map f = .ok b) ↔ ∃ a, x = .ok a := by
  cases x <;> simp [Except.map]

theorem exists_bind_pure_eq_ok {f : α → β} {x : Except Issue α} :
    (∃ b, (x >>= fun a => pure (f a)) = .ok b) ↔ ∃ a, x = .ok a := by
  cases x <;> simp [bind, Except.bind, pure, Except.pure]

namespace Validator

/-! ## Numbers -/

/-- A whole number stands in a literal. -/
inductive Literal.Holds (n : Int) : Literal → Prop
  | here : Holds n (.number (.int n))
  | item {items : List Literal} {l : Literal} : l ∈ items → Holds n l → Holds n (.array items)
  | member {members : List (String × Literal)} {m : String × Literal} :
      m ∈ members → Holds n m.2 → Holds n (.object members)

/-- A whole number is a bound, or it stands in a default. -/
inductive Check.Holds (n : Int) : Check → Prop
  | bound {name : CheckName} : Holds n ⟨name, .numeral (.int n)⟩
  | default {name : CheckName} {l : Literal} : l.Holds n → Holds n ⟨name, .literal l⟩

/-- A whole number stands in a check behind some node. -/
def Expr.Holds (n : Int) (e : Expr) : Prop :=
  ∃ sub : Expr, sub.Within e ∧ ∃ c ∈ sub.checks, c.Holds n

/-! ## Literals -/

theorem Literal.itemTexts_eq (style : Style) (items : List Literal) :
    Literal.itemTexts style items = items.mapM (Literal.text style) := by
  induction items with
  | nil => rfl
  | cons l ls ih =>
    rw [Literal.itemTexts, ih, List.mapM_cons]

theorem Literal.memberTexts_eq (style : Style) (members : List (String × Literal)) :
    Literal.memberTexts style members =
      members.mapM fun m => (m.2.text style).map (style.quote m.1 ++ ": " ++ ·) := by
  induction members with
  | nil => rfl
  | cons m ms ih =>
    rw [Literal.memberTexts, ih, List.mapM_cons]
    cases Literal.text style m.2 <;> rfl

theorem exists_spelled_iff {v : Value} : (∃ t, v.spelled = .ok t) ↔ v.hasSpelling = true := by
  rw [Value.spelled]
  split <;> simp_all

/-- Only whole numbers may have too many digits. -/
theorem exists_numeral_iff (n : Numeral) : (∃ t, (Value.scalar n.toScalar).spelled = .ok t) ↔
    ∀ m, n = .int m → Text.hasDigits m = true := by
  rw [exists_spelled_iff]
  cases n with
  | int n =>
    constructor
    · rintro h _ ⟨⟩
      exact h
    · exact fun h => h n rfl
  | float x => exact iff_of_true rfl nofun

theorem Literal.exists_text_iff {l : Literal} (h : l.WellFormed) (style : Style) :
    (∃ t, l.text style = .ok t) ↔ ∀ n, l.Holds n → Text.hasDigits n = true := by
  induction h with
  | null => exact iff_of_true ⟨_, rfl⟩ nofun
  | boolean => exact iff_of_true ⟨_, rfl⟩ nofun
  | @number n _ =>
    refine (exists_numeral_iff n).trans (forall_congr' fun m => ?_)
    constructor
    · rintro hm hn
      cases n with
      | int n =>
        cases hn
        exact hm rfl
      | float x => cases hn
    · rintro hm rfl
      exact hm .here
  | string => exact iff_of_true ⟨_, rfl⟩ nofun
  | @array items _ ih =>
    rw [Literal.text, exists_bind_pure_eq_ok, Literal.itemTexts_eq, exists_mapM_iff]
    constructor
    · intro hall n hn
      cases hn with
      | item hl hn => exact (ih _ hl).mp (hall _ hl) n hn
    · exact fun hall l hl => (ih l hl).mpr fun n hn => hall n (.item hl hn)
  | @object members _ ih =>
    rw [Literal.text, exists_bind_pure_eq_ok, Literal.memberTexts_eq, exists_mapM_iff]
    simp only [exists_map_eq_ok]
    constructor
    · intro hall n hn
      cases hn with
      | member hm hn => exact (ih _ hm).mp (hall _ hm) n hn
    · exact fun hall m hm => (ih m hm).mpr fun n hn => hall n (.member hm hn)

/-! ## Checks -/

theorem Check.exists_text_iff {c : Check} (h : c.WellFormed) (style : Style) :
    (∃ t, c.text style = .ok t) ↔ ∀ n, c.Holds n → Text.hasDigits n = true := by
  cases h with
  | @bare name hname =>
    refine iff_of_true ?_ (fun n hn => by cases hn)
    have hplain : ∀ name ∈ CheckName.formats ++ [.nullable, .optional],
        ∃ t, Check.text style (.bare name) = .ok t := by
      simp [CheckName.formats, Check.bare, Check.text]
    exact hplain name hname
  | @bound name n hname _ =>
    have htext : (∃ t, Check.text style ⟨name, .numeral n⟩ = .ok t) ↔
        ∃ t, (Value.scalar n.toScalar).spelled = .ok t := by
      rcases List.mem_pair.mp hname with rfl | rfl <;> exact exists_bind_pure_eq_ok
    rw [htext, exists_numeral_iff]
    refine forall_congr' fun m => ⟨?_, ?_⟩
    · rintro hm ⟨⟩
      exact hm rfl
    · rintro hm rfl
      exact hm .bound
  | @text name s hname =>
    refine iff_of_true ?_ (fun n hn => by cases hn)
    rcases List.mem_pair.mp hname with rfl | rfl <;> exact ⟨_, rfl⟩
  | @default l hl =>
    have htext : (∃ t, Check.text style ⟨.default, .literal l⟩ = .ok t) ↔
        ∃ t, l.text style = .ok t := exists_bind_pure_eq_ok
    rw [htext, Literal.exists_text_iff hl]
    refine forall_congr' fun n => ⟨?_, fun hn h => hn (.default h)⟩
    rintro hn ⟨⟩
    exact hn ‹_›

theorem exists_chainText_iff {checks : List Check} (h : ∀ c ∈ checks, c.WellFormed) (style : Style) :
    (∃ t, chainText style checks = .ok t) ↔
      ∀ n, (∃ c ∈ checks, c.Holds n) → Text.hasDigits n = true := by
  rw [chainText, exists_bind_pure_eq_ok, exists_mapM_iff]
  constructor
  · rintro hall n ⟨c, hc, hn⟩
    exact (Check.exists_text_iff (h c hc) style).mp (hall c hc) n hn
  · exact fun hall c hc => (Check.exists_text_iff (h c hc) style).mpr fun n hn => hall n ⟨c, hc, hn⟩

/-! ## Expressions -/

namespace Expr

theorem propertyTexts_eq (style : Style) (depth : Nat) (properties : List (String × Expr)) :
    propertyTexts style depth properties = properties.mapM fun q =>
      (q.2.text style depth).map (style.indent depth ++ style.quote q.1 ++ ": " ++ ·) := by
  induction properties with
  | nil => rfl
  | cons q qs ih =>
    rw [propertyTexts, ih, List.mapM_cons]
    cases Expr.text style depth q.2 <;> rfl

theorem holds_iff {n : Int} {e : Expr} : e.Holds n ↔ (∃ c ∈ e.checks, c.Holds n) ∨
    (∃ i, e.item = some i ∧ i.Holds n) ∨ ∃ q ∈ e.properties, q.2.Holds n := by
  constructor
  · rintro ⟨sub, hsub, hc⟩
    cases hsub with
    | whole => exact .inl hc
    | item hi hsub => exact .inr (.inl ⟨_, hi, sub, hsub, hc⟩)
    | property hq hsub => exact .inr (.inr ⟨_, hq, sub, hsub, hc⟩)
  · rintro (hc | ⟨i, hi, sub, hsub, hc⟩ | ⟨q, hq, sub, hsub, hc⟩)
    · exact ⟨e, .whole, hc⟩
    · exact ⟨sub, .item hi hsub, hc⟩
    · exact ⟨sub, .property hq hsub, hc⟩

theorem exists_append_iff {base chain : Except Issue String} :
    (∃ t, (do let b ← base; let c ← chain; return b ++ c : Except Issue String) = .ok t) ↔
      (∃ b, base = .ok b) ∧ ∃ c, chain = .ok c := by
  cases base with
  | error i => exact iff_of_false nofun nofun
  | ok b =>
    have hchain := exists_bind_pure_eq_ok (f := (b ++ ·)) (x := chain)
    exact hchain.trans (and_iff_right ⟨b, rfl⟩).symm

/-- A node is written by its children and its chain. -/
theorem exists_text_iff_parts {e : Expr} (style : Style) (depth : Nat) (h : e.NodeWellFormed) :
    (∃ t, e.text style depth = .ok t) ↔
      ((∀ i, e.item = some i → ∃ t, i.text style depth = .ok t) ∧
        ∀ q ∈ e.properties, ∃ t, q.2.text style (depth + 1) = .ok t) ∧
      ∃ t, chainText style e.checks = .ok t := by
  obtain ⟨kind, values, item, properties, ref, checks⟩ := e
  have hleaf (hkind : kind ≠ .array) (hkind' : kind ≠ .object) :
      (∀ i, item = some i → ∃ t, i.text style depth = .ok t) ∧
        ∀ q ∈ properties, ∃ t, q.2.text style (depth + 1) = .ok t := by
    have hitem : item = none := by
      have hno : ¬ ∃ i, item = some i := fun hi => hkind (h.item.mpr hi)
      simpa [Option.eq_none_iff_forall_ne_some] using hno
    have hproperties : properties = [] := h.flat hkind'
    simp [hitem, hproperties]
  cases kind with
  | array =>
    rw [Expr.text]
    refine exists_append_iff.trans (and_congr_left' ?_)
    obtain ⟨i, hi⟩ := h.item.mp rfl
    have hproperties : properties = [] := h.flat (by simp)
    change item = some i at hi
    rw [hi, hproperties]
    simp [exists_map_eq_ok, itemText]
  | object =>
    rw [Expr.text]
    refine exists_append_iff.trans (and_congr_left' ?_)
    have hitem : item = none := by
      have hno : ¬ ∃ i, item = some i := by
        intro hi
        cases h.item.mpr hi
      simpa [Option.eq_none_iff_forall_ne_some] using hno
    rw [exists_map_eq_ok, propertyTexts_eq, exists_mapM_iff, hitem]
    simp [exists_map_eq_ok]
  | other name => exact absurd rfl (h.kind name)
  | _ =>
    rw [Expr.text]
    refine exists_append_iff.trans (and_congr_left' ?_)
    exact iff_of_true ⟨_, rfl⟩ (hleaf (by simp) (by simp))

/-- A well-formed validator can be written exactly if its whole numbers can. -/
theorem exists_text_iff {e : Expr} (h : e.WellFormed) (style : Style) (depth : Nat) :
    (∃ t, e.text style depth = .ok t) ↔ ∀ n, e.Holds n → Text.hasDigits n = true := by
  induction e using Expr.induction generalizing depth with
  | node e hitem hproperties =>
    obtain ⟨hhere, hitemWell, hpropertiesWell⟩ := each_iff.mp h
    have hparts : (∀ i, e.item = some i → ∃ t, i.text style depth = .ok t) ↔
        ∀ i, e.item = some i → ∀ n, i.Holds n → Text.hasDigits n = true :=
      forall₂_congr fun i hi => hitem i hi (hitemWell i hi) depth
    have hmembers : (∀ q ∈ e.properties, ∃ t, q.2.text style (depth + 1) = .ok t) ↔
        ∀ q ∈ e.properties, ∀ n, q.2.Holds n → Text.hasDigits n = true :=
      forall₂_congr fun q hq => hproperties q hq (hpropertiesWell q hq) (depth + 1)
    rw [exists_text_iff_parts style depth hhere, hparts, hmembers,
      exists_chainText_iff hhere.checks]
    constructor
    · rintro ⟨⟨hi, hq⟩, hc⟩ n hn
      rcases holds_iff.mp hn with hn | ⟨i, hitem, hn⟩ | ⟨q, hmem, hn⟩
      · exact hc n hn
      · exact hi i hitem n hn
      · exact hq q hmem n hn
    · intro hall
      refine ⟨⟨fun i hi n hn => ?_, fun q hq n hn => ?_⟩, fun n hn => ?_⟩
      · exact hall n (holds_iff.mpr (.inr (.inl ⟨i, hi, hn⟩)))
      · exact hall n (holds_iff.mpr (.inr (.inr ⟨q, hq, hn⟩)))
      · exact hall n (holds_iff.mpr (.inl hn))

/-! ## Types -/

theorem exists_propertyTypes {style : Style} {depth : Nat} {properties : List (String × Expr)}
    (h : ∀ q ∈ properties, ∃ t, q.2.type? style depth = .ok (some t)) :
    ∃ lines, propertyTypes style depth properties = .ok lines := by
  induction properties with
  | nil => exact ⟨[], rfl⟩
  | cons q qs ih =>
    obtain ⟨⟨t, ht⟩, hqs⟩ := List.forall_mem_cons.mp h
    obtain ⟨lines, hlines⟩ := ih hqs
    rw [propertyTypes, ht, hlines]
    exact ⟨_, rfl⟩

/-- A well-formed validator has a type. -/
theorem exists_type {e : Expr} (h : e.WellFormed) (style : Style) (depth : Nat) :
    ∃ t, e.type? style depth = .ok (some t) := by
  induction e using Expr.induction generalizing depth with
  | node e hitem hproperties =>
    obtain ⟨hhere, hitemWell, hpropertiesWell⟩ := each_iff.mp h
    obtain ⟨kind, values, item, properties, ref, checks⟩ := e
    cases kind with
    | array =>
      obtain ⟨i, hi⟩ := hhere.item.mp rfl
      change item = some i at hi
      cases hi
      obtain ⟨t, ht⟩ := hitem i rfl (hitemWell i rfl) depth
      rw [type?, itemType?, ht]
      exact ⟨_, rfl⟩
    | object =>
      have hmembers : ∀ q ∈ properties, ∃ t, q.2.type? style (depth + 1) = .ok (some t) :=
        fun q hq => hproperties q hq (hpropertiesWell q hq) (depth + 1)
      obtain ⟨lines, hlines⟩ := exists_propertyTypes hmembers
      rw [type?, hlines]
      exact ⟨_, rfl⟩
    | lazy =>
      obtain ⟨t, ht⟩ := hhere.target rfl
      change ref = some t at ht
      cases ht
      exact ⟨t, rfl⟩
    | other name => exact absurd rfl (hhere.kind name)
    | _ => exact ⟨_, rfl⟩

end Expr

end Validator

end ApiContract

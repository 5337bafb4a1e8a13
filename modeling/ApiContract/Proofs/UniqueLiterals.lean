import ApiContract.Proofs.DoubleTexts
import ApiContract.Proofs.Printing

/-!
Literals are told apart by their texts, whatever stands behind them. A text in quotes ends at its
mark, a number where no character of a number follows, and a list at its bracket; and the first
character of a literal tells its kind.
-/

namespace ApiContract

variable {α : Type} {quotes : QuoteStyle}

/-! ## Prints that cannot be mistaken -/

/-- What `a` is printed as, with a rest behind it, is no print of another thing with a rest. The
rests are of a form that does not go on with the print. -/
def Unmistakable (Prints : α → String → Prop) (Follows : List Char → Prop) (a : α) : Prop :=
  ∀ b s t r r', Prints a s → Prints b t → Follows r → Follows r' →
    s.toList ++ r = t.toList ++ r' → a = b ∧ r = r'

/-- A rest that does not go on with a number. -/
def EndsNumber (rest : List Char) : Prop := ∀ c, rest.head? = some c → isNumeric c = false

theorem endsNumber_cons {c : Char} (hc : isNumeric c = false) (rest : List Char) :
    EndsNumber (c :: rest) := by
  intro d hd
  cases hd
  exact hc

theorem toList_intercalate_cons (separator s s' : String) (ss : List String) :
    (separator.intercalate (s :: s' :: ss)).toList =
      s.toList ++ (separator.toList ++ (separator.intercalate (s' :: ss)).toList) := by
  rw [String.intercalate_cons_of_ne_nil (List.cons_ne_nil s' ss), String.toList_append,
    String.toList_append, List.append_assoc]

/-- What is printed between separators, up to a closing text, is printed alone. -/
theorem unmistakable_intercalate {Prints : α → String → Prop} {Follows : List Char → Prop}
    {separator : String} {close : List Char}
    (hseparator : ∀ rest, Follows (separator.toList ++ rest))
    (hclose : ∀ rest, Follows (close ++ rest))
    (hdiffer : ∀ r r', separator.toList ++ r ≠ close ++ r') {as : List α}
    (h : ∀ a ∈ as, Unmistakable Prints Follows a) {bs : List α} {ss ts : List String}
    {r r' : List Char} (hss : List.Forall₂ Prints as ss) (hts : List.Forall₂ Prints bs ts)
    (hne : as ≠ []) (hne' : bs ≠ [])
    (heq : (separator.intercalate ss).toList ++ (close ++ r) =
      (separator.intercalate ts).toList ++ (close ++ r')) : as = bs ∧ r = r' := by
  induction hss generalizing bs ts with
  | nil => exact absurd rfl hne
  | @cons a s as ss hs hss ih =>
    cases hts with
    | nil => exact absurd rfl hne'
    | @cons b t bs ts ht hts =>
      obtain ⟨ha, has⟩ := List.forall_mem_cons.mp h
      cases hss with
      | nil =>
        cases hts with
        | nil =>
          simp only [String.intercalate_singleton] at heq
          obtain ⟨rfl, hrest⟩ := ha b s t _ _ hs ht (hclose r) (hclose r') heq
          exact ⟨rfl, List.append_cancel_left hrest⟩
        | cons ht' hts' =>
          rw [String.intercalate_singleton, toList_intercalate_cons, List.append_assoc,
            List.append_assoc] at heq
          obtain ⟨_, hrest⟩ := ha b s t _ _ hs ht (hclose r) (hseparator _) heq
          exact absurd hrest.symm (hdiffer _ _)
      | cons hs' hss' =>
        cases hts with
        | nil =>
          rw [String.intercalate_singleton, toList_intercalate_cons, List.append_assoc,
            List.append_assoc] at heq
          obtain ⟨_, hrest⟩ := ha b s t _ _ hs ht (hseparator _) (hclose r') heq
          exact absurd hrest (hdiffer _ _)
        | cons ht' hts' =>
          rw [toList_intercalate_cons, toList_intercalate_cons] at heq
          simp only [List.append_assoc] at heq
          obtain ⟨rfl, hrest⟩ := ha b s t _ _ hs ht (hseparator _) (hseparator _) heq
          obtain ⟨hrest, hr⟩ := ih has (.cons ht' hts') (by simp) (by simp)
            (List.append_cancel_left hrest)
          rw [hrest]
          exact ⟨rfl, hr⟩

/-- The same for lists that may be empty, if nothing is printed as the closing text is. -/
theorem unmistakable_list {Prints : α → String → Prop} {Follows : List Char → Prop}
    {separator : String} {close : List Char}
    (hseparator : ∀ rest, Follows (separator.toList ++ rest))
    (hclose : ∀ rest, Follows (close ++ rest))
    (hdiffer : ∀ r r', separator.toList ++ r ≠ close ++ r')
    (hopen : ∀ a s r r', Prints a s → s.toList ++ r ≠ close ++ r') {as : List α}
    (h : ∀ a ∈ as, Unmistakable Prints Follows a) {bs : List α} {ss ts : List String}
    {r r' : List Char} (hss : List.Forall₂ Prints as ss) (hts : List.Forall₂ Prints bs ts)
    (heq : (separator.intercalate ss).toList ++ (close ++ r) =
      (separator.intercalate ts).toList ++ (close ++ r')) : as = bs ∧ r = r' := by
  have hfirst : ∀ {a : α} {s : String} {ss : List String} {r r' : List Char}, Prints a s →
      (separator.intercalate (s :: ss)).toList ++ r ≠ close ++ r' := by
    intro a s ss r r' hs
    cases ss with
    | nil =>
      rw [String.intercalate_singleton]
      exact hopen a s _ _ hs
    | cons s' ss =>
      rw [toList_intercalate_cons, List.append_assoc]
      exact hopen a s _ _ hs
  cases hss with
  | nil =>
    cases hts with
    | nil => exact ⟨rfl, List.append_cancel_left (List.append_cancel_left heq)⟩
    | cons ht hts => exact absurd heq.symm (hfirst ht)
  | cons hs hss =>
    cases hts with
    | nil => exact absurd heq (hfirst hs)
    | cons ht hts =>
      exact unmistakable_intercalate hseparator hclose hdiffer h (.cons hs hss) (.cons ht hts)
        (List.cons_ne_nil _ _) (List.cons_ne_nil _ _) heq

/-- Prints that all begin with one character go on as long as it follows. -/
theorem unmistakable_join {Prints : α → String → Prop} {c : Char}
    (hfirst : ∀ a s, Prints a s → s.toList.head? = some c) {as : List α}
    (h : ∀ a ∈ as, Unmistakable Prints (fun _ => True) a) {bs : List α} {ss ts : List String}
    {r r' : List Char} (hss : List.Forall₂ Prints as ss) (hts : List.Forall₂ Prints bs ts)
    (hr : r.head? ≠ some c) (hr' : r'.head? ≠ some c)
    (heq : (String.join ss).toList ++ r = (String.join ts).toList ++ r') : as = bs ∧ r = r' := by
  have hdiffer : ∀ {a : α} {s : String} {rest rest' : List Char}, Prints a s →
      rest.head? ≠ some c → rest ≠ s.toList ++ rest' := by
    rintro a s rest rest' hs hrest rfl
    rw [List.head?_append, hfirst a s hs] at hrest
    exact hrest rfl
  rw [String.toList_join, String.toList_join] at heq
  induction hss generalizing bs ts with
  | nil =>
    cases hts with
    | nil => exact ⟨rfl, heq⟩
    | cons ht _ =>
      rw [List.flatMap_cons, List.append_assoc] at heq
      exact absurd heq (hdiffer ht hr)
  | @cons a s as ss hs hss ih =>
    obtain ⟨ha, has⟩ := List.forall_mem_cons.mp h
    cases hts with
    | nil =>
      rw [List.flatMap_cons, List.append_assoc] at heq
      exact absurd heq.symm (hdiffer hs hr')
    | @cons b t bs ts ht hts =>
      rw [List.flatMap_cons, List.flatMap_cons, List.append_assoc, List.append_assoc] at heq
      obtain ⟨rfl, hrest⟩ := ha b s t _ _ hs ht trivial trivial heq
      obtain ⟨rfl, hrest⟩ := ih has hts hrest
      exact ⟨rfl, hrest⟩

/-! ## Quoted texts -/

/-- A text in quotes ends at its mark. -/
theorem quote_unmistakable (quotes : QuoteStyle) {s t : String} {r r' : List Char}
    (h : (Text.quote quotes.mark s).toList ++ r = (Text.quote quotes.mark t).toList ++ r') :
    s = t ∧ r = r' := by
  have hs := (Script.literalOf_quote quotes s).read r
  have ht := (Script.literalOf_quote quotes t).read r'
  rw [h, ht] at hs
  obtain ⟨hunits, hrest⟩ := Prod.mk.inj (Option.some.inj hs)
  have hpoints := congrArg Text.joinHalves hunits
  rw [Script.joinHalves_utf16, Script.joinHalves_utf16] at hpoints
  have hchars := congrArg (List.map Char.ofNat) hpoints
  rw [Text.map_ofNat_toNat, Text.map_ofNat_toNat] at hchars
  exact ⟨(String.toList_inj.mp hchars).symm, hrest.symm⟩

/-- A name in quotes and what is printed behind it, all behind some text. -/
def PrintsNamed (quotes : QuoteStyle) (front : String) (Prints : α → String → Prop)
    (m : String × α) (t : String) : Prop :=
  ∃ s, Prints m.2 s ∧ t = front ++ Text.quote quotes.mark m.1 ++ ": " ++ s

theorem printsNamed_of_texts {front : String} {P : α → Prop} {text : α → Except Issue String}
    {ms : List (String × α)} {ss : List String} (h : ∀ m ∈ ms, P m.2)
    (hss : (ms.mapM fun m => (text m.2).map (front ++ Text.quote quotes.mark m.1 ++ ": " ++ ·)) =
      .ok ss) : List.Forall₂ (PrintsNamed quotes front fun a t => P a ∧ text a = .ok t) ms ss := by
  refine ((List.forall₂_and_left _ _).mpr ⟨h, mapM_eq_ok.mp hss⟩).imp ?_
  rintro m t ⟨hm, ht⟩
  obtain ⟨s, hs, rfl⟩ := map_eq_ok.mp ht
  exact ⟨s, ⟨hm, hs⟩, rfl⟩

theorem unmistakable_named (quotes : QuoteStyle) (front : String) {Prints : α → String → Prop}
    {Follows : List Char → Prop} {m : String × α} (h : Unmistakable Prints Follows m.2) :
    Unmistakable (PrintsNamed quotes front Prints) Follows m := by
  rintro m' _ _ r r' ⟨s, hs, rfl⟩ ⟨t, ht, rfl⟩ hr hr' heq
  simp only [String.toList_append, List.append_assoc] at heq
  obtain ⟨hname, heq⟩ := quote_unmistakable quotes (List.append_cancel_left heq)
  obtain ⟨hvalue, hrest⟩ := h m'.2 s t r r' hs ht hr hr' (List.append_cancel_left heq)
  exact ⟨Prod.ext hname hvalue, hrest⟩

/-! ## Numbers -/

namespace Numeral

/-- A number that is printed: whole, or a finite double. -/
structure Exact (n : Numeral) : Prop where
  finite : n.isFinite = true
  double : ∀ x, n = .float x → x.IsDouble

theorem takeWhile_numeric {s : String} {rest : List Char} (hs : Numeric s)
    (hrest : EndsNumber rest) :
    (s.toList ++ rest).takeWhile isNumeric = s.toList := by
  rw [List.takeWhile_append_of_pos hs]
  cases rest with
  | nil => simp
  | cons c rest => simp [hrest c rfl]

/-- A whole number is its sign and its digits. -/
theorem int_text (n : Int) : ∃ ds : List Char,
    (toString n).toList = (if n < 0 then '-' :: ds else ds) ∧ ds ≠ [] ∧
      (∀ c ∈ ds, c.isDigit = true) ∧ Binary64.digitsValue ds = n.natAbs := by
  refine ⟨Nat.toDigits 10 n.natAbs, ?_, Nat.toDigits_ne_nil, fun c hc =>
    Nat.isDigit_of_mem_toDigits (by decide) (by decide) hc, Json.digitsValue_toDigits n.natAbs⟩
  cases n with
  | ofNat k =>
    have hsign : ¬ (Int.ofNat k < 0) := Int.not_lt.mpr (Int.natCast_nonneg k)
    rw [if_neg hsign]
    exact Nat.toList_repr
  | negSucc k =>
    rw [if_pos (Int.negSucc_lt_zero k)]
    have htext : toString (Int.negSucc k) = "-" ++ Nat.repr (k + 1) := rfl
    rw [htext, String.toList_append, Nat.toList_repr]
    rfl

/-- A whole number is read from its text. -/
theorem exponentValue?_int (n : Int) : Binary64.exponentValue? (toString n).toList = some n := by
  obtain ⟨ds, htext, hne, hall, hvalue⟩ := int_text n
  have hdigits : ds.all Char.isDigit = true := List.all_eq_true.mpr hall
  have hempty : ds.isEmpty = false := List.isEmpty_eq_false_iff.mpr hne
  rw [htext]
  split
  · simp [Binary64.exponentValue?, hdigits, hvalue, hempty, -Nat.cast_natAbs]
    omega
  · have hsign : ∀ sign ∈ ['-', '+'], ∀ rest, ds ≠ sign :: rest := by
      intro sign hsign rest heq
      have hother : ∀ sign ∈ ['-', '+'], ¬ sign.isDigit = true := forall_mem_of_all (by decide)
      exact hother sign hsign (hall sign (by simp [heq]))
    rw [Binary64.exponentValue?]
    · simp [hdigits, hvalue, hempty, -Nat.cast_natAbs]
      omega
    · exact fun rest heq => hsign '-' (by simp) rest heq
    · exact fun rest heq => hsign '+' (by simp) rest heq

theorem notMem_int_text (n : Int) : '.' ∉ (toString n).toList ∧ 'e' ∉ (toString n).toList := by
  obtain ⟨ds, htext, _, hall, _⟩ := int_text n
  have hother : ∀ c ∈ ['.', 'e'], ¬ c.isDigit = true ∧ c ≠ '-' := forall_mem_of_all (by decide)
  have hno : ∀ c ∈ ['.', 'e'], c ∉ (toString n).toList := by
    intro c hc hmem
    have hdigit := hother c hc
    rw [htext] at hmem
    split at hmem
    · obtain hmem | hmem := List.mem_cons.mp hmem
      · exact hdigit.2 hmem
      · exact hdigit.1 (hall c hmem)
    · exact hdigit.1 (hall c hmem)
  exact ⟨hno '.' (by simp), hno 'e' (by simp)⟩

theorem mem_placePoint (ds : List Char) (point : Int) :
    '.' ∈ (Binary64.placePoint ds point).toList ∨ 'e' ∈ (Binary64.placePoint ds point).toList := by
  unfold Binary64.placePoint
  dsimp only
  split
  · refine .inl ?_
    split
    · simp
    · split
      · simp
      · simp
  · exact .inr (by simp)

/-- A float is printed with a point or an exponent. -/
theorem mem_float_text {x : Binary64} (hx : x.isFinite = true) :
    '.' ∈ x.text.toList ∨ 'e' ∈ x.text.toList := by
  cases x with
  | finite negative m e =>
    have hmagnitude : '.' ∈ (Binary64.magnitudeText m e).toList ∨
        'e' ∈ (Binary64.magnitudeText m e).toList := by
      unfold Binary64.magnitudeText
      split
      · exact .inl (by decide)
      · exact mem_placePoint _ _
    rw [Binary64.text, String.toList_append]
    exact hmagnitude.imp (List.mem_append_right _) (List.mem_append_right _)
  | _ => cases hx

theorem text_injective {m n : Numeral} (hm : m.Exact) (hn : n.Exact) (h : m.text = n.text) :
    m = n := by
  cases m with
  | int k =>
    cases n with
    | int l =>
      have hk := exponentValue?_int k
      rw [show toString k = toString l from h, exponentValue?_int] at hk
      rw [Option.some.inj hk]
    | float x =>
      obtain ⟨hpoint, hexponent⟩ := notMem_int_text k
      rw [show toString k = x.text from h] at hpoint hexponent
      obtain hmem | hmem := mem_float_text hn.1
      · exact absurd hmem hpoint
      · exact absurd hmem hexponent
  | float x =>
    cases n with
    | int k =>
      obtain ⟨hpoint, hexponent⟩ := notMem_int_text k
      rw [show toString k = x.text from h.symm] at hpoint hexponent
      obtain hmem | hmem := mem_float_text hm.1
      · exact absurd hmem hpoint
      · exact absurd hmem hexponent
    | float y => rw [Binary64.text_injective (hm.2 x rfl) (hn.2 y rfl) h]

/-- A number begins with a digit, its sign or a point. -/
theorem Exact.start {n : Numeral} (hn : n.Exact) :
    ∃ c rest, n.text.toList = c :: rest ∧ (c.isDigit = true ∨ c ∈ ['-', '.']) := by
  cases n with
  | int k =>
    obtain ⟨ds, htext, hne, hall, _⟩ := int_text k
    obtain ⟨d, rest, rfl⟩ := List.exists_cons_of_ne_nil hne
    by_cases hk : k < 0
    · exact ⟨'-', d :: rest, by rw [text, htext, if_pos hk], .inr (by simp)⟩
    · exact ⟨d, rest, by rw [text, htext, if_neg hk], .inl (hall d List.mem_cons_self)⟩
  | float x =>
    cases x with
    | finite negative m e =>
      obtain ⟨c, rest, hcons, hc⟩ :=
        Binary64.head_of_unsigned? (Binary64.unsigned?_magnitudeText (hn.2 _ rfl) negative)
      cases negative with
      | true =>
        refine ⟨'-', c :: rest, ?_, .inr (by simp)⟩
        rw [text, Binary64.text, String.toList_append, hcons]
        rfl
      | false =>
        refine ⟨c, rest, ?_, hc.imp_right (by simp +contextual)⟩
        rw [text, Binary64.text, String.toList_append, hcons]
        rfl
    | _ => cases hn.1

theorem eq_text_of_spelled {n : Numeral} {t : String}
    (h : (Value.scalar n.toScalar).spelled = .ok t) : t = n.text := by
  rw [Value.spelled] at h
  split at h
  · cases h
    cases n <;> rfl
  · cases h

/-- How a number is printed. -/
def Prints (n : Numeral) (t : String) : Prop :=
  n.Exact ∧ (Value.scalar n.toScalar).spelled = .ok t

/-- A number ends where no character of a number follows. -/
theorem Exact.unmistakable {n : Numeral} (hn : n.Exact) : Unmistakable Prints EndsNumber n := by
  intro m s t r r' hs ht hr hr' heq
  have hspans := congrArg (List.takeWhile isNumeric) heq
  rw [takeWhile_numeric (numeric_spelled hs.2) hr,
    takeWhile_numeric (numeric_spelled ht.2) hr'] at hspans
  rw [hspans] at heq
  have htexts := String.toList_inj.mp hspans
  rw [eq_text_of_spelled hs.2, eq_text_of_spelled ht.2] at htexts
  exact ⟨text_injective hn ht.1 htexts, List.append_cancel_left heq⟩

end Numeral

namespace Validator

/-! ## Literals -/

/-- A float stands in a literal. -/
inductive Literal.HoldsFloat (x : Binary64) : Literal → Prop
  | here : HoldsFloat x (.number (.float x))
  | item {items : List Literal} {l : Literal} : l ∈ items → HoldsFloat x l →
      HoldsFloat x (.array items)
  | member {members : List (String × Literal)} {m : String × Literal} :
      m ∈ members → HoldsFloat x m.2 → HoldsFloat x (.object members)

/-- A literal whose leaves hold what their kinds say, the floats among them doubles. -/
structure Literal.Exact (l : Literal) : Prop where
  wellFormed : l.WellFormed
  doubles : ∀ x, l.HoldsFloat x → x.IsDouble

theorem Literal.exact_number {n : Numeral} (hn : n.isFinite = true)
    (hdoubles : ∀ x, (Literal.number n).HoldsFloat x → x.IsDouble) : n.Exact := by
  refine ⟨hn, ?_⟩
  rintro x rfl
  exact hdoubles x .here

theorem Literal.exact_items {items : List Literal} (h : ∀ l ∈ items, l.WellFormed)
    (hdoubles : ∀ x, (Literal.array items).HoldsFloat x → x.IsDouble) : ∀ l ∈ items, l.Exact :=
  fun l hl => ⟨h l hl, fun x hx => hdoubles x (.item hl hx)⟩

theorem Literal.exact_members {members : List (String × Literal)}
    (h : ∀ m ∈ members, m.2.WellFormed)
    (hdoubles : ∀ x, (Literal.object members).HoldsFloat x → x.IsDouble) :
    ∀ m ∈ members, m.2.Exact :=
  fun m hm => ⟨h m hm, fun x hx => hdoubles x (.member hm hx)⟩

variable {width : Nat} {l : Literal} {t : String}

/-- The kind of the literals that begin with a character. -/
def kindOfStart (c : Char) : LiteralKind :=
  if c = '[' then .array
  else if c = '\x7b' then .object
  else if c = 'n' then .null
  else if c = 't' ∨ c = 'f' then .boolean
  else if c = '"' ∨ c = '\'' then .string
  else if c.isDigit = true ∨ c ∈ ['-', '.'] then .number
  else .other ""

theorem kindOfStart_number {c : Char} (hc : c.isDigit = true ∨ c ∈ ['-', '.']) :
    kindOfStart c = .number := by
  have hother : ∀ d ∈ ['[', '\x7b', 'n', 't', 'f', '"', '\''],
      ¬ (d.isDigit = true ∨ d ∈ ['-', '.']) := forall_mem_of_all (by decide)
  have hne : ∀ d ∈ ['[', '\x7b', 'n', 't', 'f', '"', '\''], c ≠ d := by
    intro d hd heq
    exact hother d hd (heq ▸ hc)
  simp only [List.forall_mem_cons] at hne
  simp only [kindOfStart, hne, hc, if_false, if_true, or_self]

/-- The first character of a literal tells its kind. -/
theorem Literal.Exact.start (h : l.Exact) (ht : l.text ⟨quotes.mark, width⟩ = .ok t) :
    t.toList.head?.map kindOfStart = some l.kind := by
  obtain ⟨hform, hdoubles⟩ := h
  cases hform with
  | null =>
    cases ht
    rfl
  | @boolean b =>
    cases ht
    cases b <;> rfl
  | @number n hn =>
    obtain ⟨c, rest, hcons, hc⟩ := (Literal.exact_number hn hdoubles).start
    rw [Numeral.eq_text_of_spelled ht, hcons]
    exact congrArg some (kindOfStart_number hc)
  | @string s =>
    cases ht
    rw [Style.quote, Script.head_quote]
    cases quotes <;> rfl
  | @array items hitems =>
    obtain ⟨ss, _, ht⟩ := bind_eq_ok.mp ht
    cases pure_eq_ok.mp ht
    rw [String.toList_append, String.toList_append]
    rfl
  | @object members hmembers =>
    obtain ⟨ss, _, ht⟩ := bind_eq_ok.mp ht
    cases pure_eq_ok.mp ht
    rw [String.toList_append, String.toList_append]
    rfl

/-- Literals with the same text in front are of one kind. -/
theorem Literal.Exact.kind_eq {l m : Literal} (hl : l.Exact) (hm : m.Exact) {s t : String}
    (hs : l.text ⟨quotes.mark, width⟩ = .ok s) (ht : m.text ⟨quotes.mark, width⟩ = .ok t)
    {r r' : List Char} (heq : s.toList ++ r = t.toList ++ r') : l.kind = m.kind := by
  obtain ⟨c, hc, hkind⟩ := Option.map_eq_some_iff.mp (hl.start hs)
  obtain ⟨d, hd, hkind'⟩ := Option.map_eq_some_iff.mp (hm.start ht)
  have hfirst := congrArg List.head? heq
  rw [List.head?_append, List.head?_append, hc, hd] at hfirst
  cases hfirst
  exact hkind.symm.trans hkind'

/-- Nothing begins as a list or an object ends. -/
theorem Literal.Exact.ne_close (h : l.Exact) (ht : l.text ⟨quotes.mark, width⟩ = .ok t)
    {c : Char} (hc : kindOfStart c = .other "") (r r' : List Char) : t.toList ++ r ≠ [c] ++ r' := by
  intro heq
  obtain ⟨d, hd, hkind⟩ := Option.map_eq_some_iff.mp (h.start ht)
  have hfirst := congrArg List.head? heq
  rw [List.head?_append, hd] at hfirst
  cases hfirst
  rw [hc] at hkind
  cases h.wellFormed <;> cases hkind

/-- How a literal is printed. -/
def Literal.Prints (quotes : QuoteStyle) (width : Nat) (l : Literal) (t : String) : Prop :=
  l.Exact ∧ l.text ⟨quotes.mark, width⟩ = .ok t

theorem endsNumber_comma (rest : List Char) : EndsNumber (", ".toList ++ rest) :=
  endsNumber_cons (by decide) (' ' :: rest)

theorem Literal.items_unmistakable {items items' : List Literal}
    (h : ∀ l ∈ items, Unmistakable (Literal.Prints quotes width) EndsNumber l)
    {ss ts : List String} (hss : List.Forall₂ (Literal.Prints quotes width) items ss)
    (hts : List.Forall₂ (Literal.Prints quotes width) items' ts) {r r' : List Char}
    (heq : (", ".intercalate ss).toList ++ ("]".toList ++ r) =
      (", ".intercalate ts).toList ++ ("]".toList ++ r')) : items = items' ∧ r = r' := by
  have hclose : ∀ rest, EndsNumber ("]".toList ++ rest) := endsNumber_cons (by decide)
  have hopen : ∀ (l : Literal) (t : String) (r r' : List Char), l.Prints quotes width t →
      t.toList ++ r ≠ "]".toList ++ r' := by
    intro l t r r' ht
    exact ht.1.ne_close ht.2 (by decide) r r'
  exact unmistakable_list endsNumber_comma hclose (fun _ _ h => by cases h) hopen h hss hts heq

theorem Literal.members_unmistakable {members members' : List (String × Literal)}
    (h : ∀ m ∈ members, Unmistakable (Literal.Prints quotes width) EndsNumber m.2)
    {ss ts : List String}
    (hss : List.Forall₂ (PrintsNamed quotes "" (Literal.Prints quotes width)) members ss)
    (hts : List.Forall₂ (PrintsNamed quotes "" (Literal.Prints quotes width)) members' ts)
    {r r' : List Char}
    (heq : (", ".intercalate ss).toList ++ ("\x7d".toList ++ r) =
      (", ".intercalate ts).toList ++ ("\x7d".toList ++ r')) : members = members' ∧ r = r' := by
  have hclose : ∀ rest, EndsNumber ("\x7d".toList ++ rest) := endsNumber_cons (by decide)
  have hopen : ∀ (m : String × Literal) (t : String) (r r' : List Char),
      PrintsNamed quotes "" (Literal.Prints quotes width) m t →
        t.toList ++ r ≠ "\x7d".toList ++ r' := by
    rintro m _ r r' ⟨s, _, rfl⟩ heq
    have hfirst := congrArg List.head? heq
    rw [String.empty_append, String.append_assoc, String.toList_append, List.append_assoc,
      List.head?_append, Script.head_quote] at hfirst
    cases quotes <;> cases hfirst
  exact unmistakable_list endsNumber_comma hclose (fun _ _ h => by cases h) hopen
    (fun m hm => unmistakable_named quotes "" (h m hm)) hss hts heq

theorem Literal.printsNamed_members {members : List (String × Literal)}
    (h : ∀ m ∈ members, m.2.Exact) {ss : List String}
    (hss : Literal.memberTexts ⟨quotes.mark, width⟩ members = .ok ss) :
    List.Forall₂ (PrintsNamed quotes "" (Literal.Prints quotes width)) members ss := by
  rw [Literal.memberTexts_eq] at hss
  refine printsNamed_of_texts h ?_
  simpa only [String.empty_append, Style.quote] using hss

/-- A literal is told from what is printed if it is told from the literals of its kind. -/
theorem Literal.Exact.unmistakable_of_kind (h : l.Exact)
    (halike : ∀ (m : Literal) (s t : String) (r r' : List Char), m.Exact → l.kind = m.kind →
      l.text ⟨quotes.mark, width⟩ = .ok s → m.text ⟨quotes.mark, width⟩ = .ok t →
      EndsNumber r → EndsNumber r' → s.toList ++ r = t.toList ++ r' → l = m ∧ r = r') :
    Unmistakable (Literal.Prints quotes width) EndsNumber l := by
  rintro m s t r r' ⟨-, hs⟩ ⟨hm, ht⟩ hr hr' heq
  exact halike m s t r r' hm (h.kind_eq hm hs ht heq) hs ht hr hr' heq

theorem Literal.Exact.array_unmistakable {items : List Literal} (hl : (Literal.array items).Exact)
    (hitems : ∀ l ∈ items, l.Exact)
    (h : ∀ l ∈ items, Unmistakable (Literal.Prints quotes width) EndsNumber l) :
    Unmistakable (Literal.Prints quotes width) EndsNumber (.array items) := by
  refine hl.unmistakable_of_kind ?_
  intro m s t r r' hm hkind hs ht _ _ heq
  obtain ⟨hform, hdoubles⟩ := hm
  cases hform with
  | @array items' hform' =>
    have hitems' := Literal.exact_items hform' hdoubles
    rw [Literal.text, Literal.itemTexts_eq] at hs ht
    obtain ⟨ss, hss, hs⟩ := bind_eq_ok.mp hs
    obtain ⟨ts, hts, ht⟩ := bind_eq_ok.mp ht
    cases pure_eq_ok.mp hs
    cases pure_eq_ok.mp ht
    simp only [String.toList_append, List.append_assoc] at heq
    obtain ⟨rfl, hrest⟩ := Literal.items_unmistakable h
      ((List.forall₂_and_left _ _).mpr ⟨hitems, mapM_eq_ok.mp hss⟩)
      ((List.forall₂_and_left _ _).mpr ⟨hitems', mapM_eq_ok.mp hts⟩)
      (List.append_cancel_left heq)
    exact ⟨rfl, hrest⟩
  | _ => cases hkind

theorem Literal.Exact.object_unmistakable {members : List (String × Literal)}
    (hl : (Literal.object members).Exact) (hmembers : ∀ m ∈ members, m.2.Exact)
    (h : ∀ m ∈ members, Unmistakable (Literal.Prints quotes width) EndsNumber m.2) :
    Unmistakable (Literal.Prints quotes width) EndsNumber (.object members) := by
  refine hl.unmistakable_of_kind ?_
  intro m s t r r' hm hkind hs ht _ _ heq
  obtain ⟨hform, hdoubles⟩ := hm
  cases hform with
  | @object members' hform' =>
    have hmembers' := Literal.exact_members hform' hdoubles
    obtain ⟨ss, hss, hs⟩ := bind_eq_ok.mp hs
    obtain ⟨ts, hts, ht⟩ := bind_eq_ok.mp ht
    cases pure_eq_ok.mp hs
    cases pure_eq_ok.mp ht
    simp only [String.toList_append, List.append_assoc] at heq
    obtain ⟨rfl, hrest⟩ := Literal.members_unmistakable h
      (Literal.printsNamed_members hmembers hss) (Literal.printsNamed_members hmembers' hts)
      (List.append_cancel_left heq)
    exact ⟨rfl, hrest⟩
  | _ => cases hkind

/-- A literal ends where no character of a number follows. -/
theorem Literal.Exact.unmistakable (h : l.Exact) :
    Unmistakable (Literal.Prints quotes width) EndsNumber l := by
  obtain ⟨hform, hdoubles⟩ := h
  induction hform with
  | null =>
    refine Literal.Exact.unmistakable_of_kind ⟨.null, hdoubles⟩ ?_
    intro m s t r r' hm hkind hs ht _ _ heq
    cases hm.wellFormed with
    | null =>
      cases hs
      cases ht
      exact ⟨rfl, List.append_cancel_left heq⟩
    | _ => cases hkind
  | @boolean b =>
    refine Literal.Exact.unmistakable_of_kind ⟨.boolean, hdoubles⟩ ?_
    intro m s t r r' hm hkind hs ht _ _ heq
    cases hm.wellFormed with
    | @boolean b' =>
      cases hs
      cases ht
      cases b <;> cases b'
      · exact ⟨rfl, List.append_cancel_left heq⟩
      · cases heq
      · cases heq
      · exact ⟨rfl, List.append_cancel_left heq⟩
    | _ => cases hkind
  | @number n hn =>
    refine Literal.Exact.unmistakable_of_kind ⟨.number hn, hdoubles⟩ ?_
    intro m s t r r' hm hkind hs ht hr hr' heq
    obtain ⟨hform', hdoubles'⟩ := hm
    cases hform' with
    | @number n' hn' =>
      have hexact := Literal.exact_number hn hdoubles
      have hexact' := Literal.exact_number hn' hdoubles'
      obtain ⟨rfl, hrest⟩ :=
        hexact.unmistakable n' s t r r' ⟨hexact, hs⟩ ⟨hexact', ht⟩ hr hr' heq
      exact ⟨rfl, hrest⟩
    | _ => cases hkind
  | @string v =>
    refine Literal.Exact.unmistakable_of_kind ⟨.string, hdoubles⟩ ?_
    intro m s t r r' hm hkind hs ht _ _ heq
    cases hm.wellFormed with
    | @string v' =>
      cases hs
      cases ht
      obtain ⟨rfl, hrest⟩ := quote_unmistakable quotes heq
      exact ⟨rfl, hrest⟩
    | _ => cases hkind
  | @array items hitems ih =>
    have hexact := Literal.exact_items hitems hdoubles
    exact Literal.Exact.array_unmistakable ⟨.array hitems, hdoubles⟩ hexact
      fun l hl => ih l hl (hexact l hl).doubles
  | @object members hmembers ih =>
    have hexact := Literal.exact_members hmembers hdoubles
    exact Literal.Exact.object_unmistakable ⟨.object hmembers, hdoubles⟩ hexact
      fun m hm => ih m hm (hexact m hm).doubles

end Validator

end ApiContract

import ApiContract.Generation
import ApiContract.Proofs.Rendering

/-!
The lines of printed validators and types. Quoted texts, numbers and chains stay on one line; an
object is written over several, and each line below its first begins with a quote mark or a brace.
-/

namespace ApiContract

/-! ## Texts on one line -/

/-- A text without a line end in it. -/
def OneLine (s : String) : Prop := '\n' ∉ s.toList

instance (s : String) : Decidable (OneLine s) := inferInstanceAs (Decidable (¬ _))

theorem OneLine.append {s t : String} (hs : OneLine s) (ht : OneLine t) : OneLine (s ++ t) := by
  rw [OneLine, String.toList_append, List.mem_append, not_or]
  exact ⟨hs, ht⟩

theorem oneLine_ofList {cs : List Char} (h : '\n' ∉ cs) : OneLine (String.ofList cs) := by
  rwa [OneLine, String.toList_ofList]

theorem oneLine_join {lines : List String} (h : ∀ l ∈ lines, OneLine l) :
    OneLine (String.join lines) := by
  rw [OneLine, String.toList_join, List.mem_flatMap]
  rintro ⟨l, hl, hfeed⟩
  exact h l hl hfeed

theorem oneLine_intercalate {separator : String} (hseparator : OneLine separator)
    {lines : List String} (h : ∀ l ∈ lines, OneLine l) : OneLine (separator.intercalate lines) := by
  induction lines with
  | nil => rw [String.intercalate_nil]; decide
  | cons line lines ih =>
    obtain ⟨hline, hlines⟩ := List.forall_mem_cons.mp h
    by_cases hne : lines = []
    · rwa [hne, String.intercalate_singleton]
    · rw [String.intercalate_cons_of_ne_nil hne]
      exact (hline.append hseparator).append (ih hlines)

/-! ## Numbers -/

/-- The characters that numbers are written with. -/
def isNumeric (c : Char) : Bool := c.isDigit || ['.', '-', '+', 'e', 'i', 'n', 'f', 'a'].contains c

/-- A text that holds nothing but what numbers are written with. -/
def Numeric (s : String) : Prop := ∀ c ∈ s.toList, isNumeric c = true

instance (s : String) : Decidable (Numeric s) :=
  List.decidableBAll (fun c => isNumeric c = true) s.toList

theorem Numeric.append {s t : String} (hs : Numeric s) (ht : Numeric t) : Numeric (s ++ t) := by
  rw [Numeric, String.toList_append]
  exact List.forall_mem_append.mpr ⟨hs, ht⟩

theorem numeric_ofList {cs : List Char} (h : ∀ c ∈ cs, isNumeric c = true) :
    Numeric (String.ofList cs) := by
  rwa [Numeric, String.toList_ofList]

/-- A character that numbers are not written with is not in one. -/
theorem Numeric.notMem {s : String} (h : Numeric s) {c : Char} (hc : isNumeric c = false) :
    c ∉ s.toList := by
  intro hmem
  rw [h c hmem] at hc
  cases hc

theorem Numeric.oneLine {s : String} (h : Numeric s) : OneLine s := h.notMem (by decide)

theorem isNumeric_of_mem_toDigits {n : Nat} {c : Char} (h : c ∈ Nat.toDigits 10 n) :
    isNumeric c = true := by
  rw [isNumeric, Nat.isDigit_of_mem_toDigits (by decide) (by decide) h, Bool.true_or]

theorem numeric_nat (n : Nat) : Numeric (toString n) := by
  intro c hc
  rw [Nat.toString_eq_repr, Nat.toList_repr] at hc
  exact isNumeric_of_mem_toDigits hc

theorem numeric_int (n : Int) : Numeric (toString n) := by
  cases n with
  | ofNat n => exact numeric_nat n
  | negSucc n => exact Numeric.append (s := "-") (by decide) (numeric_nat (n + 1))

namespace Binary64

theorem numeric_exponentText (e : Int) : Numeric (exponentText e) := by
  have hdigits := numeric_nat e.natAbs
  rw [exponentText]
  refine Numeric.append ?_ ?_
  · split <;> decide
  · split
    · exact Numeric.append (by decide) hdigits
    · exact hdigits

theorem numeric_placePoint {digits : List Char} (h : ∀ c ∈ digits, isNumeric c = true)
    (point : Int) : Numeric (placePoint digits point) := by
  have hzeros : ∀ n, ∀ c ∈ List.replicate n '0', isNumeric c = true := by
    intro n c hc
    rw [List.eq_of_mem_replicate hc]
    decide
  have htake : ∀ n, ∀ c ∈ digits.take n, isNumeric c = true := fun n c hc =>
    h c (List.mem_of_mem_take hc)
  have hdrop : ∀ n, ∀ c ∈ digits.drop n, isNumeric c = true := fun n c hc =>
    h c (List.mem_of_mem_drop hc)
  rw [placePoint]
  split
  · split
    · exact Numeric.append (by decide) (numeric_ofList (List.forall_mem_append.mpr ⟨hzeros _, h⟩))
    · dsimp only
      split
      · exact (numeric_ofList (List.forall_mem_append.mpr ⟨h, hzeros _⟩)).append (by decide)
      · exact ((numeric_ofList (htake _)).append (by decide)).append (numeric_ofList (hdrop _))
  · dsimp only
    refine Numeric.append (Numeric.append ?_ (by decide)) (numeric_exponentText _)
    refine (numeric_ofList (htake 1)).append ?_
    split
    · decide
    · exact Numeric.append (by decide) (numeric_ofList (hdrop 1))

theorem numeric_text (x : Binary64) : Numeric x.text := by
  cases x with
  | nan => decide
  | infinite negative => cases negative <;> decide
  | finite negative m e =>
    refine Numeric.append (by cases negative <;> decide) ?_
    rw [magnitudeText]
    split
    · decide
    · refine numeric_placePoint ?_ _
      rw [dropTrailingZeros]
      split
      · exact List.forall_mem_singleton.mpr (by decide)
      · intro c hc
        have hmem := (List.dropWhile_sublist _).subset (List.mem_reverse.mp hc)
        exact isNumeric_of_mem_toDigits (List.mem_reverse.mp hmem)

end Binary64

theorem numeric_spelled {n : Numeral} {t : String} (h : (Value.scalar n.toScalar).spelled = .ok t) :
    Numeric t := by
  rw [Value.spelled] at h
  split at h
  next =>
    cases h
    cases n with
    | int n => exact numeric_int n
    | float x => exact Binary64.numeric_text x
  next => cases h

namespace Text

theorem notMem_unicodeEscape (n : Nat) : '\n' ∉ unicodeEscape n := by
  have hdigit : ∀ k < 16, Nat.digitChar k ≠ '\n' := by decide
  have hhex : ∀ n, hexDigit n ≠ '\n' := fun n => hdigit _ (Nat.mod_lt _ (by decide))
  simp [unicodeEscape, hexDigits, (hhex _).symm]

theorem notMem_escape (mark : QuoteMark) (c : Char) : '\n' ∉ escape mark c := by
  have hshort : ∀ e, shortEscape? c = some e → '\n' ∉ e := by
    intro e he
    unfold shortEscape? at he
    split at he <;> cases he <;> decide
  rw [escape]
  split
  next hguarded =>
    have hne : c ≠ '\n' := by
      rw [hguarded]
      cases mark <;> simp [QuoteMark.guarded]
    simp [hne.symm]
  next =>
    split
    next e he => exact hshort e he
    next hnone =>
      split
      · exact notMem_unicodeEscape _
      · have hne : c ≠ '\n' := by
          rintro rfl
          cases hnone
        simp [hne.symm]

/-- A text in quotes is on one line, which begins with the quote mark. -/
theorem oneLine_quote (style : QuoteStyle) (s : String) : OneLine (quote style.mark s) := by
  have hmark : '\n' ∉ style.mark.chars := by cases style <;> decide
  refine oneLine_ofList ?_
  rw [quoteChars, List.mem_append, List.mem_append, List.mem_flatMap]
  rintro ((hfeed | ⟨c, _, hfeed⟩) | hfeed)
  · exact hmark hfeed
  · exact notMem_escape _ c hfeed
  · exact hmark hfeed

/-! ## Texts on several lines -/

/-- A text begins, behind blanks, with a quote mark or a closing brace. -/
def Opens (cs : List Char) : Prop :=
  ∃ n first rest, cs = List.replicate n ' ' ++ first :: rest ∧ first ∈ ['"', '\'', '\x7d']

theorem head_of_opens {cs : List Char} (h : Opens cs) :
    ∃ c, cs.head? = some c ∧ c ∈ [' ', '"', '\'', '\x7d'] := by
  obtain ⟨n, first, rest, rfl, hfirst⟩ := h
  cases n with
  | zero => exact ⟨first, rfl, List.mem_cons_of_mem _ hfirst⟩
  | succ n => exact ⟨' ', rfl, List.mem_cons_self⟩

end Text

/-- Every line of a text but the first begins with a quote mark or a closing brace. -/
def Indented (s : String) : Prop := ∀ before after, s.toList = before ++ '\n' :: after → Text.Opens after

theorem Text.Opens.append {cs : List Char} (h : Text.Opens cs) (ds : List Char) :
    Text.Opens (cs ++ ds) := by
  obtain ⟨n, first, rest, rfl, hfirst⟩ := h
  exact ⟨n, first, rest ++ ds, by simp, hfirst⟩

theorem OneLine.indented {s : String} (h : OneLine s) : Indented s := by
  intro before after heq
  refine absurd ?_ h
  rw [heq]
  exact List.mem_append_right _ List.mem_cons_self

theorem Indented.append {s t : String} (hs : Indented s) (ht : Indented t) : Indented (s ++ t) := by
  intro before after heq
  rw [String.toList_append, List.append_eq_append_iff] at heq
  rcases heq with ⟨front, _, heq⟩ | ⟨back, hback, heq⟩
  · exact ht front after heq
  · cases back with
    | nil => exact ht [] after heq.symm
    | cons c back =>
      obtain ⟨rfl, rfl⟩ := List.cons.inj heq
      exact (hs before back hback).append _

theorem Indented.feed {s t : String} (hs : Indented s) (hopens : Text.Opens t.toList)
    (ht : Indented t) : Indented (s ++ "\n" ++ t) := by
  have hline : Indented ("\n" ++ t) := by
    intro before after heq
    rw [String.toList_append] at heq
    cases before with
    | nil =>
      have hafter : t.toList = after := (List.cons.inj heq).2
      rwa [← hafter]
    | cons c before => exact ht before after (List.cons.inj heq).2
  rw [String.append_assoc]
  exact hs.append hline

/-- A line of an object: blanks, the name in quotes, and what is said about it. -/
structure MemberLine (s : String) : Prop where
  opens : Text.Opens s.toList
  indented : Indented s

theorem MemberLine.append {s t : String} (hs : MemberLine s) (ht : Indented t) :
    MemberLine (s ++ t) := by
  refine ⟨?_, hs.indented.append ht⟩
  rw [String.toList_append]
  exact hs.opens.append _

theorem memberLine_intercalate {ending : String} (hending : OneLine ending) {lines : List String}
    (hne : lines ≠ []) (h : ∀ l ∈ lines, MemberLine l) :
    MemberLine ((ending ++ "\n").intercalate lines) := by
  induction lines with
  | nil => exact absurd rfl hne
  | cons line lines ih =>
    obtain ⟨hline, hlines⟩ := List.forall_mem_cons.mp h
    by_cases hempty : lines = []
    · rwa [hempty, String.intercalate_singleton]
    · obtain ⟨hopens, hindented⟩ := ih hempty hlines
      rw [String.intercalate_cons_of_ne_nil hempty, ← String.append_assoc]
      refine ⟨?_, (hline.indented.append hending.indented).feed hopens hindented⟩
      rw [String.append_assoc, String.append_assoc, String.toList_append]
      exact hline.opens.append _

namespace Validator

variable {quotes : QuoteStyle}

theorem oneLine_indent (style : Style) (depth : Nat) : OneLine (style.indent depth) := by
  refine oneLine_ofList fun hfeed => ?_
  cases List.eq_of_mem_replicate hfeed

/-- An object between its braces. -/
theorem indented_braced (ending : String) (hending : OneLine ending) (style : Style) (depth : Nat)
    {lines : List String} (h : ∀ l ∈ lines, MemberLine l) :
    Indented (braced style depth (ending ++ "\n") lines) := by
  rw [braced]
  split
  next => exact OneLine.indented (by decide)
  next hne =>
    have hempty : lines ≠ [] := by
      rintro rfl
      exact hne rfl
    obtain ⟨hopens, hindented⟩ := memberLine_intercalate hending hempty h
    have hfirst : Indented ("\x7b" ++ "\n" ++ (ending ++ "\n").intercalate lines) :=
      (OneLine.indented (by decide)).feed hopens hindented
    have hlast : MemberLine (style.indent depth ++ "\x7d") := by
      refine ⟨⟨style.width * depth, '\x7d', [], ?_, by decide⟩, ?_⟩
      · rw [String.toList_append, Style.indent, String.toList_ofList]
        rfl
      · exact ((oneLine_indent style depth).append (by decide)).indented
    have hopened : "\x7b\n" = "\x7b" ++ "\n" := by decide
    have hclosed : Indented ("\x7b" ++ "\n" ++ (ending ++ "\n").intercalate lines ++ "\n" ++
        (style.indent depth ++ "\x7d")) := hfirst.feed hlast.opens hlast.indented
    rwa [hopened, String.append_assoc]

theorem memberLine_name (quotes : QuoteStyle) (depth : Nat) (name : String) :
    MemberLine ((Style.ofMark quotes.mark).indent depth ++
      (Style.ofMark quotes.mark).quote name) := by
  refine ⟨?_, ((oneLine_indent _ depth).append (Text.oneLine_quote quotes name)).indented⟩
  rw [String.toList_append, Style.indent, String.toList_ofList, Style.quote, Text.quote,
    String.toList_ofList, Text.quoteChars, List.append_assoc]
  cases quotes with
  | single => exact ⟨_, _, _, rfl, by decide⟩
  | double => exact ⟨_, _, _, rfl, by decide⟩

/-! ## Chains -/

theorem Literal.oneLine_text {l : Literal} (h : l.WellFormed) {t : String}
    (ht : l.text (Style.ofMark quotes.mark) = .ok t) : OneLine t := by
  induction h generalizing t with
  | null => cases ht; decide
  | @boolean b => cases ht; cases b <;> decide
  | number => exact (numeric_spelled ht).oneLine
  | string => cases ht; exact Text.oneLine_quote quotes _
  | @array items _ ih =>
    rw [Literal.text, Literal.itemTexts_eq] at ht
    obtain ⟨texts, htexts, ht⟩ := bind_eq_ok.mp ht
    cases pure_eq_ok.mp ht
    refine (OneLine.append (by decide) (oneLine_intercalate (by decide) fun text htext => ?_)).append
      (by decide)
    obtain ⟨l, hl, hlt⟩ := exists_left_of_forall₂ (mapM_eq_ok.mp htexts) htext
    exact ih l hl hlt
  | @object members _ ih =>
    rw [Literal.text, Literal.memberTexts_eq] at ht
    obtain ⟨texts, htexts, ht⟩ := bind_eq_ok.mp ht
    cases pure_eq_ok.mp ht
    refine (OneLine.append (by decide) (oneLine_intercalate (by decide) fun text htext => ?_)).append
      (by decide)
    obtain ⟨m, hm, hmt⟩ := exists_left_of_forall₂ (mapM_eq_ok.mp htexts) htext
    obtain ⟨inner, hinner, rfl⟩ := map_eq_ok.mp hmt
    exact ((Text.oneLine_quote quotes _).append (by decide)).append (ih m hm hinner)

theorem Check.oneLine_text {c : Check} (h : c.WellFormed) {t : String}
    (ht : c.text (Style.ofMark quotes.mark) = .ok t) : OneLine t := by
  have haround : ∀ {x : Except Issue String} {front back : String}, OneLine front → OneLine back →
      (∀ s, x = .ok s → OneLine s) → (do return front ++ (← x) ++ back) = .ok t → OneLine t := by
    intro x front back hfront hback hx hall
    obtain ⟨s, hs, hall⟩ := bind_eq_ok.mp hall
    cases pure_eq_ok.mp hall
    exact (hfront.append (hx s hs)).append hback
  cases h with
  | @bare name hname =>
    have hplain : ∀ name ∈ CheckName.formats ++ [.nullable, .optional],
        ∃ s, Check.text (Style.ofMark quotes.mark) (.bare name) = .ok s ∧ OneLine s := by
      intro name hname
      simp only [CheckName.formats, List.cons_append, List.nil_append, List.mem_cons,
        List.not_mem_nil, or_false] at hname
      rcases hname with rfl | rfl | rfl | rfl | rfl | rfl | rfl | rfl <;>
        exact ⟨_, rfl, by decide⟩
    obtain ⟨s, hs, hline⟩ := hplain name hname
    rw [hs] at ht
    cases ht
    exact hline
  | @bound name n hname _ =>
    rcases List.mem_pair.mp hname with rfl | rfl
    · exact haround (by decide) (by decide) (fun _ ht => (numeric_spelled ht).oneLine) ht
    · exact haround (by decide) (by decide) (fun _ ht => (numeric_spelled ht).oneLine) ht
  | @text name s hname =>
    have hquoted : OneLine ((Style.ofMark quotes.mark).quote s) := Text.oneLine_quote quotes s
    rcases List.mem_pair.mp hname with rfl | rfl
    · cases ht
      exact (OneLine.append (by decide) hquoted).append (by decide)
    · cases ht
      exact (OneLine.append (by decide) hquoted).append (by decide)
  | @default l hl => exact haround (by decide) (by decide) (fun _ => Literal.oneLine_text hl) ht

theorem oneLine_chainText {checks : List Check} (h : ∀ c ∈ checks, c.WellFormed) {t : String}
    (ht : chainText (Style.ofMark quotes.mark) checks = .ok t) : OneLine t := by
  obtain ⟨texts, htexts, ht⟩ := bind_eq_ok.mp ht
  cases pure_eq_ok.mp ht
  refine oneLine_join fun text htext => ?_
  obtain ⟨c, hc, hct⟩ := exists_left_of_forall₂ (mapM_eq_ok.mp htexts) htext
  exact Check.oneLine_text (h c hc) hct

/-! ## Expressions -/

/-- What the lines of a printed expression depend on. -/
structure Expr.Writable (e : Expr) : Prop where
  checks : ∀ c ∈ e.checks, c.WellFormed
  target : ∀ t, e.ref = some t → OneLine t

theorem oneLine_nameOr {ref : Option String} (h : ∀ t, ref = some t → OneLine t) :
    OneLine (nameOr ref) := by
  cases ref with
  | none => decide
  | some t => exact h t rfl

theorem indented_node {base chain : Except Issue String} {t : String}
    (h : (do return (← base) ++ (← chain)) = .ok t) (hbase : ∀ b, base = .ok b → Indented b)
    (hchain : ∀ c, chain = .ok c → OneLine c) : Indented t := by
  obtain ⟨b, hb, h⟩ := bind_eq_ok.mp h
  obtain ⟨c, hc, h⟩ := bind_eq_ok.mp h
  cases pure_eq_ok.mp h
  exact (hbase b hb).append (hchain c hc).indented

/-- A printed validator has no line that begins otherwise. -/
theorem Expr.indented_text {e : Expr} (h : e.Each Expr.Writable) {depth : Nat} {t : String}
    (ht : e.text (Style.ofMark quotes.mark) depth = .ok t) : Indented t := by
  induction e using Expr.induction generalizing depth t with
  | node e hitem hproperties =>
    obtain ⟨hhere, hitemEach, hpropertiesEach⟩ := Expr.each_iff.mp h
    obtain ⟨kind, values, item, properties, ref, checks⟩ := e
    have hchain : ∀ c, chainText (Style.ofMark quotes.mark) checks = .ok c → OneLine c :=
      fun _ => oneLine_chainText hhere.checks
    cases kind with
    | enum =>
      rw [Expr.text] at ht
      refine indented_node ht (fun base hbase => ?_) hchain
      cases hbase
      have hvalues : ∀ v ∈ values.map (Style.ofMark quotes.mark).quote, OneLine v := by
        intro v hv
        obtain ⟨s, _, rfl⟩ := List.mem_map.mp hv
        exact Text.oneLine_quote quotes s
      exact ((OneLine.append (by decide) (oneLine_intercalate (by decide) hvalues)).append
        (by decide)).indented
    | array =>
      rw [Expr.text] at ht
      refine indented_node ht (fun base hbase => ?_) hchain
      obtain ⟨text, htext, rfl⟩ := map_eq_ok.mp hbase
      cases item with
      | none => cases htext
      | some i =>
        have hindented := hitem i rfl (hitemEach i rfl) htext
        exact ((OneLine.indented (by decide)).append hindented).append (OneLine.indented (by decide))
    | lazy =>
      rw [Expr.text] at ht
      refine indented_node ht (fun base hbase => ?_) hchain
      cases hbase
      have hname := oneLine_nameOr hhere.target
      exact ((OneLine.append (by decide) (hname.append (by decide))).append (by decide)).indented
    | object =>
      rw [Expr.text] at ht
      refine indented_node ht (fun base hbase => ?_) hchain
      obtain ⟨lines, hlines, rfl⟩ := map_eq_ok.mp hbase
      rw [propertyTexts_eq] at hlines
      have hmembers : ∀ l ∈ lines, MemberLine l := by
        intro l hl
        obtain ⟨q, hq, hql⟩ := exists_left_of_forall₂ (mapM_eq_ok.mp hlines) hl
        obtain ⟨text, htext, rfl⟩ := map_eq_ok.mp hql
        have hindented := hproperties q hq (hpropertiesEach q hq) htext
        exact ((memberLine_name quotes _ _).append (OneLine.indented (by decide))).append hindented
      exact ((OneLine.indented (by decide)).append
        (indented_braced "," (by decide) _ _ hmembers)).append
          (OneLine.indented (by decide))
    | _ =>
      rw [Expr.text] at ht
      refine indented_node ht (fun base hbase => ?_) hchain
      cases hbase
      exact OneLine.indented (by decide)

/-! ## Types -/

theorem oneLine_propertyMarks (checks : List Check) : OneLine (propertyMarks checks).1 := by
  rw [propertyMarks]
  refine OneLine.append ?_ ?_
  · split <;> decide
  · split <;> decide

theorem indented_markedType {base : Option String} {marks t : String}
    (hbase : ∀ b, base = some b → Indented b) (hmarks : OneLine marks)
    (h : markedType base marks = .ok t) : Indented t := by
  cases base with
  | some b =>
    cases h
    exact (hbase b rfl).append hmarks.indented
  | none =>
    rw [markedType] at h
    split at h
    next =>
      cases h
      exact OneLine.indented (by decide)
    next => cases h

theorem memberLine_propertyTypes {depth : Nat} {properties : List (String × Expr)}
    {lines : List String} (hindented : ∀ q ∈ properties, ∀ t,
      q.2.type? (Style.ofMark quotes.mark) depth = .ok (some t) → Indented t)
    (h : Expr.propertyTypes (Style.ofMark quotes.mark) depth properties = .ok lines) :
    ∀ l ∈ lines, MemberLine l := by
  induction properties generalizing lines with
  | nil => cases h; exact List.forall_mem_nil _
  | cons q qs ih =>
    obtain ⟨hq, hqs⟩ := List.forall_mem_cons.mp hindented
    rw [Expr.propertyTypes] at h
    obtain ⟨base, hbase, h⟩ := bind_eq_ok.mp h
    obtain ⟨type, htype, h⟩ := bind_eq_ok.mp h
    obtain ⟨others, hothers, h⟩ := bind_eq_ok.mp h
    cases pure_eq_ok.mp h
    refine List.forall_mem_cons.mpr ⟨?_, ih hqs hothers⟩
    have htypeIndented := indented_markedType (fun b hb => hq b (by rw [hbase, hb]))
      (oneLine_propertyMarks q.2.checks) htype
    have hoptional : OneLine (if (propertyMarks q.2.checks).2 then "?" else "") := by
      split <;> decide
    exact ((((memberLine_name quotes depth q.1).append hoptional.indented).append
      (OneLine.indented (by decide))).append htypeIndented).append (OneLine.indented (by decide))

/-- The same holds of printed types. -/
theorem Expr.indented_type {e : Expr} (h : e.Each Expr.Writable) {depth : Nat} {t : String}
    (ht : e.type? (Style.ofMark quotes.mark) depth = .ok (some t)) : Indented t := by
  induction e using Expr.induction generalizing depth t with
  | node e hitem hproperties =>
    obtain ⟨hhere, hitemEach, hpropertiesEach⟩ := Expr.each_iff.mp h
    obtain ⟨kind, values, item, properties, ref, checks⟩ := e
    cases kind with
    | enum =>
      cases ht
      refine (oneLine_intercalate (by decide) fun v hv => ?_).indented
      obtain ⟨s, _, rfl⟩ := List.mem_map.mp hv
      exact Text.oneLine_quote quotes s
    | array =>
      obtain ⟨base, hbase, ht⟩ := map_eq_ok.mp ht
      cases ht
      cases item with
      | none => cases hbase
      | some i =>
        have hname : Indented (nameOr base) := by
          cases base with
          | none => exact OneLine.indented (by decide)
          | some b => exact hitem i rfl (hitemEach i rfl) hbase
        exact ((OneLine.indented (by decide)).append hname).append (OneLine.indented (by decide))
    | lazy =>
      cases ht
      exact (hhere.target t rfl).indented
    | object =>
      obtain ⟨lines, hlines, ht⟩ := map_eq_ok.mp ht
      cases ht
      refine indented_braced "" (by decide) _ _ ?_
      exact memberLine_propertyTypes
        (fun q hq t => hproperties q hq (hpropertiesEach q hq)) hlines
    | _ =>
      cases ht
      exact OneLine.indented (by decide)

end Validator

end ApiContract

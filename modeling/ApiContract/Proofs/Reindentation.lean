import ApiContract.Proofs.Agreement
import ApiContract.Proofs.Comments
import ApiContract.Proofs.ExpressionForms
import ApiContract.Proofs.Identifiers
import ApiContract.Proofs.StringLiterals

/-!
Changing the indentation of printed validators and types. That a text is printed once with levels of
two blanks and once with levels of another width is a relation between two texts, which keeps quoted
texts whole; laying out the lines of the one gives the other.
-/

namespace ApiContract

/-! ## The same text with two widths -/

/-- Characters of code, which begin no quoted text and end no line. -/
def isCode (c : Char) : Bool := !(['\n', '\r', '"', '\''].contains c)

/-- A text of characters of code alone. -/
def Coded (s : String) : Prop := ∀ c ∈ s.toList, isCode c = true

instance (s : String) : Decidable (Coded s) := List.decidableBAll (fun c => isCode c = true) s.toList

/-- A text with levels of two blanks, and the same with levels of `width` blanks. The texts differ in
nothing but the blanks that lines begin with; and no line begins, or ends, in a quoted text. -/
inductive Relaid (quotes : QuoteStyle) (width : Nat) : List Char → List Char → Prop
  | nil : Relaid quotes width [] []
  | code {c : Char} {s t : List Char} :
      isCode c = true → Relaid quotes width s t → Relaid quotes width (c :: s) (c :: t)
  | quoted {s t : List Char} (value : List Char) : Relaid quotes width s t →
      Relaid quotes width (Text.quoteChars quotes.mark value ++ s)
        (Text.quoteChars quotes.mark value ++ t)
  | line {c : Char} {s t : List Char} (level : Nat) : s.head? = some c → Layout.isIndent c = false →
      Relaid quotes width s t →
        Relaid quotes width ('\n' :: (List.replicate (2 * level) ' ' ++ s))
          ('\n' :: (List.replicate (width * level) ' ' ++ t))

namespace Relaid

variable {quotes : QuoteStyle} {width : Nat} {cs s t s' t' : List Char}

theorem append (h : Relaid quotes width s t) (h' : Relaid quotes width s' t') :
    Relaid quotes width (s ++ s') (t ++ t') := by
  induction h with
  | nil => exact h'
  | code hc _ ih => exact .code hc ih
  | quoted value _ ih =>
    rw [List.append_assoc, List.append_assoc]
    exact .quoted value ih
  | line level hhead hc _ ih =>
    rw [List.cons_append, List.cons_append, List.append_assoc, List.append_assoc]
    refine .line level ?_ hc ih
    rw [List.head?_append, hhead]
    rfl

theorem of_code (h : ∀ c ∈ cs, isCode c = true) : Relaid quotes width cs cs := by
  induction cs with
  | nil => exact .nil
  | cons c cs ih =>
    obtain ⟨hc, hcs⟩ := List.forall_mem_cons.mp h
    exact .code hc (ih hcs)

/-! ## Laying out lines -/

/-- Characters that end no line go before the first one. -/
theorem splitLines_append_left {rest : List (List Char)} {first : List Char}
    (hcs : '\n' ∉ cs ∧ '\r' ∉ cs) (h : Text.splitLines s = first :: rest) :
    Text.splitLines (cs ++ s) = (cs ++ first) :: rest := by
  induction cs with
  | nil => exact h
  | cons c cs ih =>
    simp only [List.mem_cons, not_or] at hcs
    obtain ⟨⟨hfeed, hfeeds⟩, hreturn, hreturns⟩ := hcs
    rw [List.cons_append, Text.splitLines_cons (Ne.symm hfeed) (Ne.symm hreturn),
      ih ⟨hfeeds, hreturns⟩]
    rfl

theorem reindentLine_indent (level : Nat) {line : List Char}
    (h : ∀ c, line.head? = some c → Layout.isIndent c = false) :
    Layout.reindentLine width (List.replicate (2 * level) ' ' ++ line) =
      List.replicate (width * level) ' ' ++ line := by
  have hblank : ∀ c ∈ List.replicate (2 * level) ' ', Layout.isIndent c = true := by
    intro c hc
    rw [List.eq_of_mem_replicate hc]
    rfl
  have htake : line.takeWhile Layout.isIndent = [] := by
    cases line with
    | nil => rfl
    | cons c line => simp [h c rfl]
  have hdrop : line.dropWhile Layout.isIndent = line := by
    cases line with
    | nil => rfl
    | cons c line => simp [h c rfl]
  simp only [Layout.reindentLine, List.takeWhile_append_of_pos hblank,
    List.dropWhile_append_of_pos hblank, htake, hdrop, List.append_nil, List.length_replicate,
    Nat.mul_div_cancel_left level (by decide : 0 < 2)]

/-- Its lines laid out, but for the first one, the text with levels of two blanks is the other. -/
theorem exists_splitLines (h : Relaid quotes width s t) : ∃ first rest,
    Text.splitLines s = first :: rest ∧
      t = Text.joinLines (first :: rest.map (Layout.reindentLine width)) := by
  have hjoin : ∀ (cs first : List Char) (rest : List (List Char)),
      Text.joinLines ((cs ++ first) :: rest) = cs ++ Text.joinLines (first :: rest) := by
    intro cs first rest
    cases rest with
    | nil => simp [Text.joinLines, List.intercalate]
    | cons => simp [Text.joinLines_cons]
  induction h with
  | nil => exact ⟨[], [], rfl, rfl⟩
  | @code c s t hc _ ih =>
    obtain ⟨first, rest, hsplit, rfl⟩ := ih
    have hplain : '\n' ∉ [c] ∧ '\r' ∉ [c] := by
      constructor
      · intro hmem
        rw [← List.mem_singleton.mp hmem] at hc
        cases hc
      · intro hmem
        rw [← List.mem_singleton.mp hmem] at hc
        cases hc
    exact ⟨_, rest, splitLines_append_left hplain hsplit, (hjoin [c] first _).symm⟩
  | @quoted s t value _ ih =>
    obtain ⟨first, rest, hsplit, rfl⟩ := ih
    have hplain := (Script.literalOf_quote quotes (String.ofList value)).oneLine
    rw [Text.quote, String.toList_ofList, String.toList_ofList] at hplain
    exact ⟨_, rest, splitLines_append_left hplain hsplit, (hjoin _ first _).symm⟩
  | @line c s t level hhead hc _ ih =>
    obtain ⟨first, rest, hsplit, rfl⟩ := ih
    have hblanks : '\n' ∉ List.replicate (2 * level) ' ' ∧ '\r' ∉ List.replicate (2 * level) ' ' := by
      simp
    have hfirst : ∀ d, first.head? = some d → Layout.isIndent d = false := by
      intro d hd
      obtain ⟨more, rfl⟩ := List.head?_eq_some_iff.mp hd
      have hsame := Text.head_of_splitLines hsplit
      rw [hhead] at hsame
      rwa [← Option.some.inj hsame]
    refine ⟨[], (List.replicate (2 * level) ' ' ++ first) :: rest, ?_, ?_⟩
    · rw [Text.splitLines, splitLines_append_left hblanks hsplit]
    · rw [List.map_cons, reindentLine_indent level hfirst, Text.joinLines_cons (List.cons_ne_nil _ _),
        hjoin]
      rfl

/-- A text that does not begin with a blank becomes the other. -/
theorem reindent_eq (h : Relaid quotes width s t)
    (hhead : ∀ c, s.head? = some c → Layout.isIndent c = false) : Layout.reindent width s = t := by
  obtain ⟨first, rest, hsplit, rfl⟩ := h.exists_splitLines
  have hfirst : Layout.reindentLine width first = first := by
    refine Layout.reindentLine_of_head fun c hc => ?_
    obtain ⟨more, rfl⟩ := List.head?_eq_some_iff.mp hc
    exact hhead c (Text.head_of_splitLines hsplit)
  rw [Layout.reindent, hsplit, List.map_cons, hfirst]

end Relaid

/-! ## Pieces of text -/

/-- The same print of something, once with levels of two blanks and once with wider or narrower ones. -/
def Reprinted (quotes : QuoteStyle) (width : Nat) (s t : String) : Prop :=
  Relaid quotes width s.toList t.toList

section Pieces

variable {quotes : QuoteStyle} {width : Nat} {s t s' t' : String}

theorem Reprinted.append (h : Reprinted quotes width s t) (h' : Reprinted quotes width s' t') :
    Reprinted quotes width (s ++ s') (t ++ t') := by
  rw [Reprinted, String.toList_append, String.toList_append]
  exact Relaid.append h h'

theorem reprinted_code (h : Coded s) : Reprinted quotes width s s :=
  Relaid.of_code h

theorem reprinted_numeric (h : Numeric s) : Reprinted quotes width s s := by
  refine reprinted_code fun c hc => ?_
  have hother : ∀ d ∈ ['\n', '\r', '"', '\''], d ∉ s.toList := by
    intro d hd
    have hdigit : ∀ d ∈ ['\n', '\r', '"', '\''], isNumeric d = false :=
      forall_mem_of_all (by decide)
    exact h.notMem (hdigit d hd)
  rw [isCode, Bool.not_eq_true', List.contains_eq_mem, decide_eq_false_iff_not]
  exact fun hmem => hother c hmem hc

theorem reprinted_quote (value : String) :
    Reprinted quotes width (Text.quote quotes.mark value) (Text.quote quotes.mark value) := by
  rw [Reprinted, Text.quote, String.toList_ofList, ← List.append_nil (Text.quoteChars _ _)]
  exact .quoted value.toList .nil

theorem reprinted_intercalate {separator : String} (hseparator : Coded separator)
    {ss ts : List String} (h : List.Forall₂ (Reprinted quotes width) ss ts) :
    Reprinted quotes width (separator.intercalate ss) (separator.intercalate ts) := by
  induction h with
  | nil =>
    rw [String.intercalate_nil]
    exact .nil
  | @cons s t ss ts hst hrest ih =>
    cases hrest with
    | nil => simpa using hst
    | @cons s' t' ss ts =>
      rw [String.intercalate_cons_of_ne_nil (List.cons_ne_nil _ _),
        String.intercalate_cons_of_ne_nil (List.cons_ne_nil _ _)]
      exact (hst.append (reprinted_code hseparator)).append ih

theorem reprinted_join {ss ts : List String} (h : List.Forall₂ (Reprinted quotes width) ss ts) :
    Reprinted quotes width (String.join ss) (String.join ts) := by
  rw [Reprinted, String.toList_join, String.toList_join]
  induction h with
  | nil => exact .nil
  | cons hst _ ih =>
    rw [List.flatMap_cons, List.flatMap_cons]
    exact Relaid.append hst ih

/-- A line of an object, printed twice. -/
def ReprintedLine (quotes : QuoteStyle) (width : Nat) (s t : String) : Prop :=
  Reprinted quotes width ("\n" ++ s) ("\n" ++ t)

theorem ReprintedLine.append (h : ReprintedLine quotes width s t)
    (h' : Reprinted quotes width s' t') : ReprintedLine quotes width (s ++ s') (t ++ t') := by
  rw [ReprintedLine, ← String.append_assoc, ← String.append_assoc]
  exact Reprinted.append h h'

theorem reprintedLine_intercalate {ending : String} (hending : Coded ending)
    {ss ts : List String} (h : List.Forall₂ (ReprintedLine quotes width) ss ts) (hne : ss ≠ []) :
    ReprintedLine quotes width ((ending ++ "\n").intercalate ss) ((ending ++ "\n").intercalate ts) := by
  induction h with
  | nil => exact absurd rfl hne
  | @cons s t ss ts hst hrest ih =>
    cases hrest with
    | nil => simpa using hst
    | @cons s' t' ss ts hst' hrest =>
      have hothers := ih (List.cons_ne_nil _ _)
      rw [String.intercalate_cons_of_ne_nil (List.cons_ne_nil _ _),
        String.intercalate_cons_of_ne_nil (List.cons_ne_nil _ _), String.append_assoc,
        String.append_assoc, String.append_assoc, String.append_assoc]
      exact hst.append ((reprinted_code hending).append hothers)

/-- What begins a line of an object, or ends the lines of one. -/
theorem reprintedLine_indent {depth : Nat} {c : Char} (hs : s.toList.head? = some c)
    (hc : Layout.isIndent c = false) (h : Reprinted quotes width s t) :
    ReprintedLine quotes width ((Validator.Style.ofMark quotes.mark).indent depth ++ s)
      ((⟨quotes.mark, width⟩ : Validator.Style).indent depth ++ t) := by
  simp only [ReprintedLine, Reprinted, String.toList_append, Validator.Style.indent,
    String.toList_ofList]
  exact .line depth hs hc h

end Pieces

namespace Validator

variable {quotes : QuoteStyle} {width : Nat}

/-! ## Chains -/

/-- Two runs that give the same print, or none. -/
abbrev Reprints (quotes : QuoteStyle) (width : Nat) (x y : Except Issue String) : Prop :=
  Agree (Reprinted quotes width) x y

theorem reprints_around {front back : String} {x y : Except Issue String}
    (hfront : Coded front) (hback : Coded back)
    (h : Reprints quotes width x y) :
    Reprints quotes width (do return front ++ (← x) ++ back) (do return front ++ (← y) ++ back) :=
  h.bind fun _ _ hst => .ok (((reprinted_code hfront).append hst).append (reprinted_code hback))

theorem Literal.reprints {l : Literal} (h : l.WellFormed) :
    Reprints quotes width (l.text (Style.ofMark quotes.mark)) (l.text ⟨quotes.mark, width⟩) := by
  induction h with
  | null => exact .ok (reprinted_code (by decide))
  | @boolean b => exact .ok (reprinted_code (by cases b <;> decide))
  | number => exact Agree.same fun _ ht => reprinted_numeric (numeric_spelled ht)
  | string => exact .ok (reprinted_quote _)
  | @array items _ ih =>
    rw [Literal.text, Literal.text, Literal.itemTexts_eq, Literal.itemTexts_eq]
    refine (Agree.mapM_same ih).bind fun ss ts hall => .ok ?_
    exact ((reprinted_code (by decide)).append (reprinted_intercalate (by decide) hall)).append
      (reprinted_code (by decide))
  | @object members _ ih =>
    rw [Literal.text, Literal.text, Literal.memberTexts_eq, Literal.memberTexts_eq]
    refine (Agree.mapM_same (S := Reprinted quotes width) fun m hm => ?_).bind
      fun ss ts hall => .ok ?_
    · exact (ih m hm).map fun s t hst =>
        ((reprinted_quote m.1).append (reprinted_code (by decide))).append hst
    · exact ((reprinted_code (by decide)).append (reprinted_intercalate (by decide) hall)).append
        (reprinted_code (by decide))

theorem Check.reprints {c : Check} (h : c.WellFormed) :
    Reprints quotes width (c.text (Style.ofMark quotes.mark)) (c.text ⟨quotes.mark, width⟩) := by
  cases h with
  | @bare name hname =>
    simp only [CheckName.formats, List.cons_append, List.nil_append, List.mem_cons,
      List.not_mem_nil, or_false] at hname
    obtain rfl | rfl | rfl | rfl | rfl | rfl | rfl | rfl := hname <;>
      exact .ok (reprinted_code (by decide))
  | @bound name n hname _ =>
    have hnumber : Reprints quotes width (Argument.numeral n).boundText
        (Argument.numeral n).boundText :=
      Agree.same fun _ ht => reprinted_numeric (numeric_spelled ht)
    obtain rfl | rfl := List.mem_pair.mp hname
    · exact reprints_around (by decide) (by decide) hnumber
    · exact reprints_around (by decide) (by decide) hnumber
  | @text name s hname =>
    have hquoted : Reprints quotes width ((Argument.text s).quoted (Style.ofMark quotes.mark))
        ((Argument.text s).quoted ⟨quotes.mark, width⟩) := .ok (reprinted_quote s)
    obtain rfl | rfl := List.mem_pair.mp hname
    · exact reprints_around (by decide) (by decide) hquoted
    · exact reprints_around (by decide) (by decide) hquoted
  | default hl => exact reprints_around (by decide) (by decide) (Literal.reprints hl)

theorem reprints_chainText {checks : List Check} (h : ∀ c ∈ checks, c.WellFormed) :
    Reprints quotes width (chainText (Style.ofMark quotes.mark) checks)
      (chainText ⟨quotes.mark, width⟩ checks) :=
  (Agree.mapM_same fun c hc => Check.reprints (h c hc)).bind
    fun _ _ hall => .ok (reprinted_join hall)

/-! ## Expressions -/

theorem reprinted_braced {ending : String} (hending : Coded ending)
    (depth : Nat) {ss ts : List String} (h : List.Forall₂ (ReprintedLine quotes width) ss ts) :
    Reprinted quotes width (braced (Style.ofMark quotes.mark) depth (ending ++ "\n") ss)
      (braced ⟨quotes.mark, width⟩ depth (ending ++ "\n") ts) := by
  cases h with
  | nil => exact reprinted_code (s := "\x7b\x7d") (by decide)
  | @cons s t ss ts hst hrest =>
    have hopened : "\x7b\n" = "\x7b" ++ "\n" := by decide
    have hlines := reprintedLine_intercalate hending (.cons hst hrest) (List.cons_ne_nil s ss)
    have hclosed : ReprintedLine quotes width ((Style.ofMark quotes.mark).indent depth ++ "\x7d")
        ((⟨quotes.mark, width⟩ : Style).indent depth ++ "\x7d") :=
      reprintedLine_indent (c := '\x7d') (by decide) (by decide) (reprinted_code (by decide))
    have hall := ((reprinted_code (s := "\x7b") (by decide)).append hlines).append hclosed
    simp only [braced, List.isEmpty_cons, Bool.false_eq_true, if_false, hopened]
    simpa only [String.append_assoc] using hall

theorem isIndent_guarded (quotes : QuoteStyle) : Layout.isIndent quotes.mark.guarded = false := by
  cases quotes <;> decide

/-- A property begins its line with its name in quotes. -/
theorem reprintedLine_name (depth : Nat) (name : String) :
    ReprintedLine quotes width
      ((Style.ofMark quotes.mark).indent depth ++ (Style.ofMark quotes.mark).quote name)
      ((⟨quotes.mark, width⟩ : Style).indent depth ++ (⟨quotes.mark, width⟩ : Style).quote name) := by
  exact reprintedLine_indent (Script.head_quote quotes name) (isIndent_guarded quotes)
    (reprinted_quote name)

/-- The references of an expression are code. -/
def Expr.CodeTargets (e : Expr) : Prop := ∀ t, e.Mentions t → Coded t

theorem Expr.Formed.reprints {e : Expr} (h : e.Formed) (htargets : e.CodeTargets) (depth : Nat) :
    Reprints quotes width (e.text (Style.ofMark quotes.mark) depth)
      (e.text ⟨quotes.mark, width⟩ depth) := by
  have hnode : ∀ {x y : Except Issue String} {checks : List Check}, Reprints quotes width x y →
      (∀ c ∈ checks, c.WellFormed) →
        Reprints quotes width (do return (← x) ++ (← chainText (Style.ofMark quotes.mark) checks))
          (do return (← y) ++ (← chainText ⟨quotes.mark, width⟩ checks)) := by
    intro x y checks hbase hchecks
    exact hbase.bind fun _ _ hst => (reprints_chainText hchecks).bind fun _ _ hchain =>
      .ok (hst.append hchain)
  induction h generalizing depth with
  | @basic kind checks hkind hchecks =>
    simp only [List.mem_cons, List.not_mem_nil, or_false] at hkind
    obtain rfl | rfl | rfl | rfl := hkind
    all_goals
      rw [Expr.basic, Expr.text, Expr.text]
      exact hnode (.ok (reprinted_code (by decide))) hchecks
  | @enum values checks hchecks =>
    rw [Expr.text, Expr.text]
    refine hnode (.ok ?_) hchecks
    have hvalues : List.Forall₂ (Reprinted quotes width)
        (values.map (Style.ofMark quotes.mark).quote)
        (values.map (⟨quotes.mark, width⟩ : Style).quote) := by
      rw [List.forall₂_map_left_iff, List.forall₂_map_right_iff]
      exact List.forall₂_same.mpr fun v _ => reprinted_quote v
    exact ((reprinted_code (by decide)).append (reprinted_intercalate (by decide) hvalues)).append
      (reprinted_code (by decide))
  | @array item checks hchecks hitem ih =>
    rw [Expr.text, Expr.text]
    refine hnode (Agree.map (ih (fun t ht => htargets t (.item rfl ht)) depth) ?_) hchecks
    intro s t hst
    exact ((reprinted_code (by decide)).append hst).append (reprinted_code (by decide))
  | @object properties checks hchecks hproperties ih =>
    rw [Expr.text, Expr.text, Expr.propertyTexts_eq, Expr.propertyTexts_eq]
    refine hnode ((Agree.mapM_same (S := ReprintedLine quotes width) fun q hq => ?_).map ?_) hchecks
    · refine (ih q hq (fun t ht => htargets t (.property hq ht)) (depth + 1)).map fun s t hst => ?_
      exact ((reprintedLine_name (depth + 1) q.1).append (reprinted_code (by decide))).append hst
    · intro ss ts hall
      have hseparator : ",\n" = "," ++ "\n" := by decide
      rw [objectText, objectText, hseparator]
      exact ((reprinted_code (by decide)).append (reprinted_braced (by decide) depth hall)).append
        (reprinted_code (by decide))
  | @lazy target checks hchecks =>
    rw [Expr.text, Expr.text]
    refine hnode (.ok ?_) hchecks
    have htarget := htargets target (.here rfl)
    exact ((reprinted_code (by decide)).append ((reprinted_code htarget).append
      (reprinted_code (by decide)))).append (reprinted_code (by decide))

/-! ## Types -/

/-- The lines of an object type, if its properties have types. -/
theorem reprints_propertyTypes {depth : Nat} {properties : List (String × Expr)}
    (h : ∀ q ∈ properties, ∃ s t, q.2.type? (Style.ofMark quotes.mark) depth = .ok (some s) ∧
      q.2.type? ⟨quotes.mark, width⟩ depth = .ok (some t) ∧ Reprinted quotes width s t) :
    ∃ ss ts, Expr.propertyTypes (Style.ofMark quotes.mark) depth properties = .ok ss ∧
      Expr.propertyTypes ⟨quotes.mark, width⟩ depth properties = .ok ts ∧
        List.Forall₂ (ReprintedLine quotes width) ss ts := by
  induction properties with
  | nil => exact ⟨[], [], rfl, rfl, .nil⟩
  | cons q qs ih =>
    obtain ⟨⟨s, t, hs, ht, hst⟩, hqs⟩ := List.forall_mem_cons.mp h
    obtain ⟨ss, ts, hss, hts, hall⟩ := ih hqs
    have hmarks : Coded (propertyMarks q.2.checks).1 := by
      have hcode : ∀ nullable undefined : Bool,
          Coded ((if nullable then " | null" else "") ++
            (if undefined then " | undefined" else "")) := by
        decide
      exact hcode _ _
    have hoptional : ∀ optional : Bool,
        Coded (if optional then "?" else "") := by decide
    have hname : ReprintedLine quotes width
        ((Style.ofMark quotes.mark).indent depth ++ (Style.ofMark quotes.mark).quote q.1)
        ((⟨quotes.mark, width⟩ : Style).indent depth ++ (⟨quotes.mark, width⟩ : Style).quote q.1) :=
      reprintedLine_name depth q.1
    have hkey := (hname.append (reprinted_code (hoptional (propertyMarks q.2.checks).2))).append
      (reprinted_code (s := ": ") (by decide))
    have hline := (hkey.append (hst.append (reprinted_code hmarks))).append
      (reprinted_code (s := ";") (by decide))
    rw [Expr.propertyTypes, Expr.propertyTypes, hs, ht, hss, hts]
    exact ⟨_, _, rfl, rfl, .cons hline hall⟩

theorem Expr.Formed.reprints_type {e : Expr} (h : e.Formed) (htargets : e.CodeTargets)
    (depth : Nat) : ∃ s t, e.type? (Style.ofMark quotes.mark) depth = .ok (some s) ∧
      e.type? ⟨quotes.mark, width⟩ depth = .ok (some t) ∧ Reprinted quotes width s t := by
  induction h generalizing depth with
  | @basic kind checks hkind hchecks =>
    simp only [List.mem_cons, List.not_mem_nil, or_false] at hkind
    obtain rfl | rfl | rfl | rfl := hkind
    all_goals exact ⟨_, _, rfl, rfl, reprinted_code (by decide)⟩
  | @enum values checks hchecks =>
    have hvalues : List.Forall₂ (Reprinted quotes width)
        (values.map (Style.ofMark quotes.mark).quote)
        (values.map (⟨quotes.mark, width⟩ : Style).quote) := by
      rw [List.forall₂_map_left_iff, List.forall₂_map_right_iff]
      exact List.forall₂_same.mpr fun v _ => reprinted_quote v
    exact ⟨_, _, rfl, rfl, reprinted_intercalate (by decide) hvalues⟩
  | @array item checks hchecks hitem ih =>
    obtain ⟨s, t, hs, ht, hst⟩ := ih (fun t ht => htargets t (.item rfl ht)) depth
    rw [Expr.type?, Expr.type?, Expr.itemType?, Expr.itemType?, hs, ht]
    exact ⟨_, _, rfl, rfl, ((reprinted_code (by decide)).append hst).append
      (reprinted_code (by decide))⟩
  | @object properties checks hchecks hproperties ih =>
    obtain ⟨ss, ts, hss, hts, hall⟩ := reprints_propertyTypes fun q hq =>
      ih q hq (fun t ht => htargets t (.property hq ht)) (depth + 1)
    rw [Expr.type?, Expr.type?, hss, hts]
    have hending : "\n" = "" ++ "\n" := by decide
    refine ⟨_, _, rfl, rfl, ?_⟩
    rw [hending]
    exact reprinted_braced (by decide) depth hall
  | @lazy target checks hchecks =>
    exact ⟨target, target, rfl, rfl, reprinted_code (htargets target (.here rfl))⟩

/-! ## Where texts begin -/

namespace Expr

variable {e : Expr} {style : Style} {depth : Nat}

theorem Formed.head_text (h : e.Formed) {s : String} (hs : e.text style depth = .ok s) :
    s.toList.head? = some 'z' := by
  have hnode : ∀ {base chain : Except Issue String},
      (∀ b, base = .ok b → b.toList.head? = some 'z') →
        (do return (← base) ++ (← chain)) = .ok s → s.toList.head? = some 'z' := by
    intro base chain hbase hs
    obtain ⟨b, hb, hs⟩ := bind_eq_ok.mp hs
    obtain ⟨c, _, hs⟩ := bind_eq_ok.mp hs
    cases pure_eq_ok.mp hs
    rw [String.toList_append, List.head?_append, hbase b hb]
    rfl
  cases h with
  | @basic kind checks hkind =>
    simp only [List.mem_cons, List.not_mem_nil, or_false] at hkind
    obtain rfl | rfl | rfl | rfl := hkind
    all_goals
      rw [Expr.basic, text] at hs
      refine hnode (fun b hb => ?_) hs
      cases hb
      decide
  | enum =>
    rw [text] at hs
    refine hnode (fun b hb => ?_) hs
    cases hb
    rw [String.append_assoc, String.toList_append]
    rfl
  | array =>
    rw [text] at hs
    refine hnode (fun b hb => ?_) hs
    obtain ⟨item, _, rfl⟩ := map_eq_ok.mp hb
    rw [arrayText, String.append_assoc, String.toList_append]
    rfl
  | object =>
    rw [text] at hs
    refine hnode (fun b hb => ?_) hs
    obtain ⟨lines, _, rfl⟩ := map_eq_ok.mp hb
    rw [objectText, String.append_assoc, String.toList_append]
    rfl
  | lazy =>
    rw [text] at hs
    refine hnode (fun b hb => ?_) hs
    cases hb
    rw [String.append_assoc, String.toList_append]
    rfl

theorem Formed.head_type (h : e.Formed) (htargets : ∀ t, e.Mentions t →
    ∀ c ∈ t.toList, Layout.isIndent c = false) {quotes : QuoteStyle} {width : Nat} {s : String}
    (hs : e.type? ⟨quotes.mark, width⟩ depth = .ok (some s)) :
    ∀ c, s.toList.head? = some c → Layout.isIndent c = false := by
  intro c hc
  have hbegins : ∀ (first : Char) (rest : List Char), Layout.isIndent first = false →
      s.toList = first :: rest → Layout.isIndent c = false := by
    intro first rest hfirst heq
    rw [heq] at hc
    rwa [← Option.some.inj hc]
  cases h with
  | @basic kind checks hkind =>
    simp only [List.mem_cons, List.not_mem_nil, or_false] at hkind
    obtain rfl | rfl | rfl | rfl := hkind
    all_goals
      cases hs
      exact hbegins _ _ (by decide) rfl
  | @enum values checks =>
    cases hs
    cases values with
    | nil => cases hc
    | cons v vs =>
      suffices hfirst : some quotes.mark.guarded = some c by
        rw [← Option.some.inj hfirst]
        exact isIndent_guarded quotes
      cases vs with
      | nil =>
        rwa [List.map_singleton, String.intercalate_singleton, Style.quote, Script.head_quote] at hc
      | cons w ws =>
        rwa [List.map_cons, String.intercalate_cons_of_ne_nil (by simp), String.append_assoc,
          String.toList_append, List.head?_append, Style.quote, Script.head_quote] at hc
  | array =>
    rw [type?] at hs
    obtain ⟨item, _, hs⟩ := map_eq_ok.mp hs
    cases hs
    rw [String.append_assoc, String.toList_append] at hbegins
    exact hbegins 'A' _ (by decide) rfl
  | object =>
    rw [type?] at hs
    obtain ⟨lines, _, hs⟩ := map_eq_ok.mp hs
    cases hs
    rw [braced] at hbegins
    split at hbegins
    · exact hbegins '\x7b' _ (by decide) rfl
    · simp only [String.append_assoc, String.toList_append] at hbegins
      exact hbegins '\x7b' _ (by decide) rfl
  | lazy =>
    cases hs
    obtain ⟨rest, hrest⟩ := List.head?_eq_some_iff.mp hc
    exact htargets s (.here rfl) c (by rw [hrest]; exact List.mem_cons_self)

end Expr

/-! ## The whole -/

/-- What `s` becomes if its lines are laid out with levels of `width` blanks is `t`; and quoted texts
stand in both as they are. -/
structure Reindents (quotes : QuoteStyle) (width : Nat) (s t : String) : Prop where
  exact : String.ofList (Layout.reindent width s.toList) = t
  kept : Reprinted quotes width s t

theorem Reindents.of_reprinted {s t : String} (h : Reprinted quotes width s t)
    (hhead : ∀ c, s.toList.head? = some c → Layout.isIndent c = false) :
    Reindents quotes width s t := by
  refine ⟨?_, h⟩
  rw [Relaid.reindent_eq h hhead, String.ofList_toList]

/-- An object in an object, with a name that has a line end and blanks in it. -/
def kennel : Schema :=
  .object .none
    [("dog\n  of", .object ⟨true, some (.scalar (.str "\t'")), none⟩ [("owner", .ref .none "Person")]
      ["owner"])] []

def kennelExpr : Expr :=
  .object [("dog\n  of", (Expr.object [("owner", .lazy "Person")]).withChecks
    [.bare .nullable, .bare .optional, ⟨.default, .literal (.string "\t'")⟩])]

end Validator

end ApiContract

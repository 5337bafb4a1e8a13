import ApiContract.Module.Text
import ApiContract.Proofs.Layout

/-!
Comments in text. A guarded summary cannot end its comment, and the passes of the layout keep that:
they take lines out or change the blanks around them, and never put an asterisk before a slash.
-/

namespace ApiContract.Module

variable {cs ds line : List Char} {lines : List (List Char)}

/-- What ends a comment. -/
def closing : List Char := ['*', '/']

/-- A block comment that ends where the text ends, and not before. -/
def IsComment (cs : List Char) : Prop :=
  ∃ inner, cs = "/**".toList ++ inner ++ closing ∧ ¬ closing <:+: inner ++ ['*']

/-- Lines of which the last ends a comment, at its very end, and no other line does. -/
inductive Closing : List (List Char) → Prop
  | last {inner : List Char} : ¬ closing <:+: inner ++ ['*'] → Closing [inner ++ closing]
  | line {line : List Char} {lines : List (List Char)} :
      ¬ closing <:+: line → Closing lines → Closing (line :: lines)

/-- The lines of the comment that a summary is written in. -/
def commentLines (summary : String) : List (List Char) :=
  Text.splitLines ("/** ".toList ++ guardComment summary.toList ++ " */".toList)

/-! ## Where a comment can end -/

theorem closing_infix_cons {c : Char} : closing <:+: c :: cs ↔
    (c = '*' ∧ cs.head? = some '/') ∨ closing <:+: cs := by
  rw [List.infix_cons_iff, closing, List.cons_prefix_cons]
  cases cs with
  | nil => simp
  | cons d ds => simp [eq_comm]

/-- A character that is neither parts what ends a comment. -/
theorem closing_infix_append_cons {c : Char} (hstar : c ≠ '*') (hslash : c ≠ '/') :
    closing <:+: cs ++ c :: ds ↔ closing <:+: cs ∨ closing <:+: ds := by
  induction cs with
  | nil =>
    have hnil : ¬ closing <:+: [] := by simp [closing]
    simp [closing_infix_cons, hstar, hnil]
  | cons x xs ih =>
    have hhead : (xs ++ c :: ds).head? = some '/' ↔ xs.head? = some '/' := by
      cases xs with
      | nil => simp [hslash]
      | cons => rfl
    rw [List.cons_append, closing_infix_cons, closing_infix_cons, ih, hhead, or_assoc]

theorem not_closing_star : ¬ closing <:+: ['*'] := fun h => absurd h.length_le (by decide)

theorem closing_infix_indent (n : Nat) :
    closing <:+: List.replicate n ' ' ++ cs ↔ closing <:+: cs := by
  induction n with
  | zero => rfl
  | succ n ih => rw [List.replicate_succ, List.cons_append, closing_infix_cons, ih]; simp

theorem guardComment_head (cs : List Char) :
    (guardComment cs).head? = some '/' → cs.head? = some '/' := by
  fun_cases guardComment cs with
  | case1 => nofun
  | case2 => exact id
  | case3 => exact id

/-- A guarded text ends no comment, whatever blank stands behind it. -/
theorem not_closing_guardComment (cs : List Char) : ¬ closing <:+: guardComment cs := by
  fun_induction guardComment cs with
  | case1 cs ih => simp [closing_infix_cons, ih]
  | case2 c cs hnot ih =>
    rw [closing_infix_cons, not_or]
    refine ⟨?_, ih⟩
    rintro ⟨rfl, hhead⟩
    obtain ⟨rest, rfl⟩ := List.head?_eq_some_iff.mp (guardComment_head cs hhead)
    exact hnot rest rfl rfl
  | case3 => simp [closing]

/-! ## The lines of a comment -/

theorem Closing.extendFirst {c : Char} (h : Closing lines)
    (hc : ∀ first others, lines = first :: others → ¬ (c = '*' ∧ first.head? = some '/')) :
    Closing (Text.extendFirst c lines) := by
  cases h with
  | @last inner hinner =>
    refine @Closing.last (c :: inner) ?_
    rw [List.cons_append, closing_infix_cons, not_or]
    refine ⟨fun hcontra => hc _ _ rfl ⟨hcontra.1, ?_⟩, hinner⟩
    cases inner with
    | nil => exact absurd hcontra.2 (by decide)
    | cons => exact hcontra.2
  | @line first others hfirst hothers =>
    refine .line ?_ hothers
    rw [closing_infix_cons, not_or]
    exact ⟨hc first others rfl, hfirst⟩

theorem closing_splitLines {inner : List Char} (h : ¬ closing <:+: inner ++ ['*']) :
    Closing (Text.splitLines (inner ++ closing)) := by
  fun_induction Text.splitLines inner with
  | case1 => exact @Closing.last [] h
  | case2 cs ih =>
    rw [List.cons_append, closing_infix_cons, not_or] at h
    exact .line (by simp [closing]) (ih h.2)
  | case3 cs ih =>
    rw [List.cons_append, closing_infix_cons, not_or, List.cons_append, closing_infix_cons,
      not_or] at h
    exact .line (by simp [closing]) (ih h.2.2)
  | case4 c cs hfeed hreturn ih =>
    rw [List.cons_append, closing_infix_cons, not_or] at h
    have hsplit : Text.splitLines (c :: cs ++ closing) =
        Text.extendFirst c (Text.splitLines (cs ++ closing)) := by
      rw [List.cons_append, Text.splitLines]
      · exact hfeed
      · intro rest hc hrest
        cases cs with
        | nil => cases hrest
        | cons d ds =>
          cases hrest
          exact hreturn _ hc rfl
    rw [hsplit]
    refine (ih h.2).extendFirst fun first others hlines hboth => h.1 ⟨hboth.1, ?_⟩
    obtain ⟨first, rfl⟩ := List.head?_eq_some_iff.mp hboth.2
    have hhead := Text.head_of_splitLines hlines
    cases cs with
    | nil => cases hhead
    | cons => exact hhead

/-- The comment of a summary begins on its first line and is ended by its last one only. -/
theorem commentLines_eq (summary : String) : ∃ first others,
    commentLines summary = ("/** ".toList ++ first) :: others ∧ Closing (first :: others) := by
  have hguard := not_closing_guardComment summary.toList
  have hinner : ¬ closing <:+: (guardComment summary.toList ++ [' ']) ++ ['*'] := by
    rw [List.append_assoc, List.singleton_append, closing_infix_append_cons (by decide) (by decide),
      not_or]
    exact ⟨hguard, not_closing_star⟩
  have hclosing := closing_splitLines hinner
  have hlines : commentLines summary = Text.extendFirst '/' (Text.extendFirst '*'
      (Text.extendFirst '*' (Text.extendFirst ' ' (Text.splitLines
        (guardComment summary.toList ++ [' '] ++ closing))))) := by
    rw [commentLines, ← Text.splitLines_cons (by decide) (by decide),
      ← Text.splitLines_cons (by decide) (by decide), ← Text.splitLines_cons (by decide) (by decide),
      ← Text.splitLines_cons (by decide) (by decide)]
    simp [closing]
  cases hs : Text.splitLines (guardComment summary.toList ++ [' '] ++ closing) with
  | nil => exact absurd hs (Text.splitLines_ne_nil _)
  | cons first others =>
    rw [hs] at hclosing hlines
    exact ⟨first, others, hlines, hclosing⟩

/-! ## Through the passes -/

theorem not_closing_part (h : ¬ closing <:+: cs) (hpart : ds <:+: cs) : ¬ closing <:+: ds :=
  fun hclosing => h (hclosing.trans hpart)

theorem prefix_dropReturn (line : List Char) : Text.dropReturn line <+: line := by
  rw [Text.dropReturn]
  split
  · exact List.dropLast_prefix line
  · exact List.prefix_refl line

theorem not_closing_reindentLine (width : Nat) (h : ¬ closing <:+: line) :
    ¬ closing <:+: Layout.reindentLine width line := by
  rw [Layout.reindentLine, closing_infix_indent]
  exact not_closing_part h (List.dropWhile_suffix _).isInfix

theorem not_closing_finish (width : Nat) (h : ¬ closing <:+: line) :
    ¬ closing <:+: Layout.finish width line :=
  not_closing_reindentLine width (not_closing_part h (prefix_dropReturn line).isInfix)

/-- The line that ends a comment does so after the passes. -/
theorem finish_append_closing (width : Nat) {inner : List Char} (h : ¬ closing <:+: inner ++ ['*']) :
    ∃ inner', Layout.finish width (inner ++ closing) = inner' ++ closing ∧
      ¬ closing <:+: inner' ++ ['*'] := by
  have hreturn : Text.dropReturn (inner ++ closing) = inner ++ closing :=
    Text.dropReturn_of_ne (by simp [closing])
  have hdrop : ∀ tail : List Char, tail.head? = some '*' →
      (inner ++ tail).dropWhile Layout.isIndent = inner.dropWhile Layout.isIndent ++ tail := by
    intro tail htail
    obtain ⟨rest, rfl⟩ := List.head?_eq_some_iff.mp htail
    rw [List.dropWhile_append]
    split
    next hempty =>
      rw [List.isEmpty_iff.mp hempty]
      rfl
    next => rfl
  have hkept := not_closing_part h (List.dropWhile_suffix Layout.isIndent).isInfix
  rw [hdrop _ rfl] at hkept
  have hfinish : ∃ n, Layout.finish width (inner ++ closing) =
      List.replicate n ' ' ++ inner.dropWhile Layout.isIndent ++ closing := by
    rw [Layout.finish, hreturn, Layout.reindentLine, hdrop closing rfl, ← List.append_assoc]
    exact ⟨_, rfl⟩
  obtain ⟨n, hfinish⟩ := hfinish
  refine ⟨_, hfinish, ?_⟩
  rwa [List.append_assoc, closing_infix_indent]

theorem Closing.map_finish (width : Nat) (h : Closing lines) :
    Closing (lines.map (Layout.finish width)) := by
  induction h with
  | last hinner =>
    obtain ⟨inner', heq, hinner'⟩ := finish_append_closing width hinner
    rw [List.map_singleton, heq]
    exact .last hinner'
  | line hline _ ih => exact .line (not_closing_finish width hline) ih

/-- Lines may go, but for the last. -/
theorem Closing.filter {p : List Char → Bool} (h : Closing lines)
    (hlast : ∀ last, lines.getLast? = some last → p last = true) : Closing (lines.filter p) := by
  induction h with
  | @last inner hinner =>
    have hkept : p (inner ++ closing) = true := hlast _ rfl
    rw [List.filter_singleton, hkept]
    exact .last hinner
  | @line line lines hline hlines ih =>
    have hne : lines ≠ [] := by
      rintro rfl
      cases hlines
    have hrest := ih fun last h => hlast last (by rwa [List.getLast?_cons_of_ne_nil hne])
    rw [List.filter_cons]
    split
    · exact .line hline hrest
    · exact hrest

/-- The end of a line parts what ends a comment. -/
theorem closing_infix_append_ending (ending : LineEnding) :
    closing <:+: cs ++ ending.text.toList ++ ds ↔ closing <:+: cs ∨ closing <:+: ds := by
  have hfeed : ∀ cs : List Char, closing <:+: cs ++ '\n' :: ds ↔ closing <:+: cs ∨ closing <:+: ds :=
    fun _ => closing_infix_append_cons (by decide) (by decide)
  rw [List.append_assoc]
  cases ending with
  | lf => exact hfeed cs
  | crlf =>
    have hnil : ¬ closing <:+: [] := by simp [closing]
    have hreturn : closing <:+: cs ++ '\r' :: '\n' :: ds ↔
        closing <:+: cs ∨ closing <:+: '\n' :: ds :=
      closing_infix_append_cons (by decide) (by decide)
    have hrest := hfeed []
    rw [or_iff_right hnil, List.nil_append] at hrest
    rw [← hrest]
    exact hreturn

/-- Joined, lines of which the last ends a comment are a text that does. -/
theorem Closing.exists_inner (ending : LineEnding) (h : Closing lines) : ∃ inner,
    ending.text.toList.intercalate lines = inner ++ closing ∧ ¬ closing <:+: inner ++ ['*'] := by
  induction h with
  | @last inner hinner => exact ⟨inner, by simp [List.intercalate], hinner⟩
  | @line line lines hline hlines ih =>
    obtain ⟨inner, heq, hinner⟩ := ih
    have hne : lines ≠ [] := by
      rintro rfl
      cases hlines
    refine ⟨line ++ ending.text.toList ++ inner, ?_, ?_⟩
    · obtain ⟨first, others, rfl⟩ := List.exists_cons_of_ne_nil hne
      rw [List.intercalate_cons_cons, heq]
      simp only [List.append_assoc]
    · rw [List.append_assoc, closing_infix_append_ending, not_or]
      exact ⟨hline, hinner⟩

/-- Joined, lines that end no comment are a text that ends none. -/
theorem not_closing_intercalate (ending : LineEnding) (h : ∀ l ∈ lines, ¬ closing <:+: l) :
    ¬ closing <:+: ending.text.toList.intercalate lines := by
  induction lines with
  | nil => simp [closing, List.intercalate]
  | cons line lines ih =>
    obtain ⟨hline, hlines⟩ := List.forall_mem_cons.mp h
    cases lines with
    | nil => simpa [List.intercalate] using hline
    | cons other lines =>
      rw [List.intercalate_cons_cons, closing_infix_append_ending, not_or]
      exact ⟨hline, ih hlines⟩

theorem Closing.not_closing_dropLast (h : Closing lines) : ∀ l ∈ lines.dropLast, ¬ closing <:+: l := by
  induction h with
  | last => exact List.forall_mem_nil _
  | @line line lines hline hlines ih =>
    have hne : lines ≠ [] := by
      rintro rfl
      cases hlines
    rw [List.dropLast_cons_of_ne_nil hne]
    exact List.forall_mem_cons.mpr ⟨hline, ih⟩

/-! ## Comments in a module -/

/-- A comment leaves the passes without its lines that are imports. -/
def layComment (options : Options) (comment : List (List Char)) : List Char :=
  options.lineEnding.text.toList.intercalate
    ((comment.filter (!Layout.isImport ·)).map (Layout.finish options.indentation))

/-- The last line of a comment stays with it. -/
def KeepsEnd (comment : List (List Char)) : Prop :=
  ∀ last, comment.getLast? = some last → Layout.isImport last = false

theorem isImport_opening (first : List Char) : Layout.isImport ("/** ".toList ++ first) = false := by
  refine Layout.isImport_of_lead ?_
  rw [Text.lead_append (c := '/') (by decide)]
  nofun

theorem layComment_eq (options : Options) (first : List Char) (others : List (List Char)) :
    layComment options (("/** ".toList ++ first) :: others) = "/**".toList ++ ' ' ::
      options.lineEnding.text.toList.intercalate (Text.dropReturn first ::
        (others.filter (!Layout.isImport ·)).map (Layout.finish options.indentation)) := by
  have hreturn : Text.dropReturn ("/** ".toList ++ first) = "/** ".toList ++ Text.dropReturn first := by
    change Text.dropReturn ('/' :: '*' :: '*' :: ' ' :: first) =
      '/' :: '*' :: '*' :: ' ' :: Text.dropReturn first
    rw [Text.dropReturn_cons (.inl (List.cons_ne_nil _ _)),
      Text.dropReturn_cons (.inl (List.cons_ne_nil _ _)),
      Text.dropReturn_cons (.inl (List.cons_ne_nil _ _)), Text.dropReturn_cons (.inr (by decide))]
  have hfirst : Layout.finish options.indentation ("/** ".toList ++ first) =
      "/**".toList ++ ' ' :: Text.dropReturn first := by
    rw [Layout.finish, hreturn]
    refine Layout.reindentLine_of_head fun c hc => ?_
    cases hc
    decide
  rw [layComment, List.filter_cons_of_pos (by rw [isImport_opening]; rfl), List.map_cons, hfirst]
  cases (others.filter (!Layout.isImport ·)).map (Layout.finish options.indentation) with
  | nil => simp [List.intercalate]
  | cons => simp only [List.intercalate_cons_cons, List.append_assoc, List.cons_append]

/-- A comment is one after the passes exactly if it keeps its last line. -/
theorem isComment_layComment_iff (options : Options) (summary : String) :
    IsComment (layComment options (commentLines summary)) ↔ KeepsEnd (commentLines summary) := by
  obtain ⟨first, others, heq, hclosing⟩ := commentLines_eq summary
  have hreturn : ∀ {cs : List Char}, ¬ closing <:+: cs → ¬ closing <:+: Text.dropReturn cs :=
    fun h => not_closing_part h (prefix_dropReturn _).isInfix
  rw [heq, layComment_eq]
  constructor
  · intro hcomment last hlast
    by_contra himport
    -- Without its last line, nothing in the comment ends it.
    have hothers : ∀ l ∈ Text.dropReturn first ::
        (others.filter (!Layout.isImport ·)).map (Layout.finish options.indentation),
        ¬ closing <:+: l := by
      cases hclosing with
      | last =>
        rw [List.getLast?_singleton] at hlast
        rw [← Option.some.inj hlast, isImport_opening] at himport
        exact absurd rfl himport
      | line hfirst hothers =>
        refine List.forall_mem_cons.mpr ⟨hreturn hfirst, List.forall_mem_map.mpr fun l hl => ?_⟩
        obtain ⟨hl, hkept⟩ := List.mem_filter.mp hl
        have hne : others ≠ [] := List.ne_nil_of_mem hl
        rw [List.getLast?_cons_of_ne_nil hne] at hlast
        obtain ⟨front, rfl⟩ := List.getLast?_eq_some_iff.mp hlast
        have hfront := hothers.not_closing_dropLast
        rw [List.dropLast_concat] at hfront
        rcases List.mem_append.mp hl with hl | hl
        · exact not_closing_finish _ (hfront l hl)
        · rw [List.mem_singleton.mp hl] at hkept
          simp [himport] at hkept
    obtain ⟨inner, htext, _⟩ := hcomment
    have hended : closing <:+: "/**".toList ++ inner ++ closing := (List.suffix_append _ _).isInfix
    rw [← htext, closing_infix_append_cons (by decide) (by decide)] at hended
    rcases hended with hended | hended
    · exact absurd hended (by decide)
    · exact not_closing_intercalate _ hothers hended
  · intro hlast
    have hkept : Closing (Text.dropReturn first ::
        (others.filter (!Layout.isImport ·)).map (Layout.finish options.indentation)) := by
      cases hclosing with
      | last hinner =>
        rw [Text.dropReturn_of_ne (by simp [closing])]
        exact .last hinner
      | line hline hothers =>
        have hne : others ≠ [] := by
          rintro rfl
          cases hothers
        refine .line (hreturn hline) ((hothers.filter fun last h => ?_).map_finish _)
        rw [hlast last (by rwa [List.getLast?_cons_of_ne_nil hne])]
        rfl
    obtain ⟨inner, hjoined, hinner⟩ := hkept.exists_inner options.lineEnding
    refine ⟨' ' :: inner, ?_, ?_⟩
    · rw [hjoined, List.append_assoc]
      rfl
    · rw [List.cons_append, closing_infix_cons, not_or]
      exact ⟨by simp, hinner⟩

end ApiContract.Module

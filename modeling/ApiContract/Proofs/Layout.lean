import ApiContract.Layout
import ApiContract.Proofs.Lines
import Mathlib.Data.Char
import Mathlib.Data.List.Lex
import Mathlib.Data.List.Sort
import Mathlib.Data.List.TakeWhile

/-!
The last passes, line by line. What they make of a text is its first line, the distinct imports in
order, a blank line, and every other line with its indentation changed, each with the chosen end.
-/

namespace ApiContract

namespace Text

variable {cs bs : List Char}

/-! ## Blank ends -/

theorem stripStart_append_left (h : allBlank bs = true) : stripStart (bs ++ cs) = stripStart cs :=
  List.dropWhile_append_of_pos fun c hc => List.all_eq_true.mp h c hc

theorem strip_append_left (h : allBlank bs = true) : strip (bs ++ cs) = strip cs := by
  have hstart : stripStart (bs ++ cs) = stripStart cs := stripStart_append_left h
  rw [stripStart, stripStart] at hstart
  rw [strip, stripWhere, hstart]
  rfl

theorem strip_append_right (h : allBlank bs = true) : strip (cs ++ bs) = strip cs := by
  rw [strip, stripWhere, strip, stripWhere, List.dropWhile_append]
  split
  next hempty =>
    have hblank : bs.dropWhile isBlank = [] := (stripStart_eq_nil_iff bs).mpr h
    rw [List.isEmpty_iff.mp hempty, hblank]
  next =>
    have hreverse : ∀ c ∈ bs.reverse, isBlank c = true := fun c hc =>
      List.all_eq_true.mp h c (List.mem_reverse.mp hc)
    rw [List.reverse_append, List.dropWhile_append_of_pos hreverse]

/-- The first character that is not blank. -/
def lead (cs : List Char) : Option Char := (stripStart cs).head?

theorem lead_append_left (h : allBlank bs = true) : lead (bs ++ cs) = lead cs := by
  rw [lead, stripStart_append_left h, lead]

theorem lead_append {c : Char} (h : lead cs = some c) (ds : List Char) : lead (cs ++ ds) = some c := by
  rw [lead, stripStart] at h ⊢
  rw [List.dropWhile_append]
  cases hcs : cs.dropWhile isBlank with
  | nil => rw [hcs] at h; cases h
  | cons => rw [hcs] at h; exact h

theorem head_strip (cs : List Char) : (strip cs).head? = lead cs := by
  rw [strip, stripWhere, lead, stripStart]
  cases hcs : cs.dropWhile isBlank with
  | nil => rfl
  | cons c ds =>
    have hc : isBlank c = false := by
      have hne : cs.dropWhile isBlank ≠ [] := by rw [hcs]; exact List.cons_ne_nil _ _
      have hhead := List.head_dropWhile_not isBlank hne
      simpa [hcs] using hhead
    rw [List.reverse_cons, List.dropWhile_append]
    split
    next => simp [hc]
    next hne =>
      rw [List.reverse_append]
      rfl

theorem isBlank_of_lead {c : Char} (h : lead cs = some c) : isBlank c = false := by
  rw [lead, stripStart] at h
  have hne : cs.dropWhile isBlank ≠ [] := by
    intro hnil
    rw [hnil] at h
    cases h
  have hhead := List.head_dropWhile_not isBlank hne
  rwa [(List.head_eq_iff_head?_eq_some hne).mpr h] at hhead

theorem getLast_strip {c : Char} (h : (strip cs).getLast? = some c) : isBlank c = false := by
  rw [strip, stripWhere, List.getLast?_reverse] at h
  have hlead : lead (cs.dropWhile isBlank).reverse = some c := by rwa [lead, stripStart]
  exact isBlank_of_lead hlead

theorem mem_of_mem_strip {c : Char} (h : c ∈ strip cs) : c ∈ cs := by
  rw [strip, stripWhere, List.mem_reverse] at h
  have hmem := (List.dropWhile_sublist isBlank).subset h
  exact (List.dropWhile_sublist isBlank).subset (List.mem_reverse.mp hmem)

theorem strip_dropReturn (line : List Char) : strip (dropReturn line) = strip line := by
  rw [dropReturn]
  split
  next h =>
    obtain ⟨front, rfl⟩ := List.getLast?_eq_some_iff.mp h
    rw [List.dropLast_concat, strip_append_right (by decide)]
  next => rfl

theorem dropReturn_strip (line : List Char) : dropReturn (strip line) = strip line := by
  refine dropReturn_of_ne fun h => ?_
  have hblank := getLast_strip h
  simp [isBlank, isSpace] at hblank

end Text

namespace Layout

variable {line first : List Char} {lines more : List (List Char)} {width : Nat}

/-! ## One line -/

/-- How a line leaves the passes. -/
def finish (width : Nat) (line : List Char) : List Char := reindentLine width (Text.dropReturn line)

theorem allBlank_indent (n : Nat) : Text.allBlank (List.replicate n ' ') = true := by
  refine List.all_eq_true.mpr fun c hc => ?_
  rw [List.eq_of_mem_replicate hc]
  decide

theorem strip_reindentLine (width : Nat) (line : List Char) :
    Text.strip (reindentLine width line) = Text.strip line := by
  have hindent : Text.allBlank (line.takeWhile isIndent) = true := by
    refine List.all_eq_true.mpr fun c hc => ?_
    have hc := List.mem_takeWhile_imp hc
    simp only [isIndent, Bool.or_eq_true, beq_iff_eq] at hc
    rcases hc with rfl | rfl
    · decide
    · decide
  have hline := @Text.strip_append_left (line.dropWhile isIndent) _ hindent
  rw [List.takeWhile_append_dropWhile] at hline
  rw [reindentLine, Text.strip_append_left (allBlank_indent _), hline]

theorem isImport_of_lead (h : Text.lead line ≠ some 'i') : isImport line = false := by
  rw [← Text.head_strip] at h
  rw [isImport]
  cases hs : Text.strip line with
  | nil => rfl
  | cons c cs =>
    have hc : 'i' ≠ c := by
      rintro rfl
      rw [hs] at h
      exact h rfl
    simp [List.isPrefixOf, hc]

theorem isComment_of_lead (h : Text.lead line ≠ some '/') : isComment line = false := by
  rw [Text.lead] at h
  rw [isComment]
  cases hs : Text.stripStart line with
  | nil => rfl
  | cons c cs =>
    have hc : '/' ≠ c := by
      rintro rfl
      rw [hs] at h
      exact h rfl
    simp [List.isPrefixOf, hc]

theorem reindentLine_of_head (h : ∀ c, line.head? = some c → isIndent c = false) :
    reindentLine width line = line := by
  cases line with
  | nil => rfl
  | cons c cs => simp [reindentLine, h c rfl]

theorem finish_strip (line : List Char) : finish width (Text.strip line) = Text.strip line := by
  rw [finish, Text.dropReturn_strip]
  refine reindentLine_of_head fun c hc => ?_
  rw [Text.head_strip] at hc
  have hblank := Text.isBlank_of_lead hc
  cases hindent : isIndent c with
  | false => rfl
  | true =>
    simp only [isIndent, Bool.or_eq_true, beq_iff_eq] at hindent
    rcases hindent with rfl | rfl
    · cases hblank
    · cases hblank

/-! ## Distinct lines in order -/

theorem Precedes.irrefl (line : List Char) : ¬ Precedes line line := by
  intro h
  rcases h with h | ⟨_, h⟩
  · exact lt_irrefl _ h
  · exact lt_irrefl _ h

theorem Precedes.points_le {l m : List Char} (h : Precedes l m) : Text.points l ≤ Text.points m := by
  rcases h with h | ⟨h, _⟩
  · exact le_of_lt h
  · exact le_of_eq h

theorem Precedes.trans {l m n : List Char} (hlm : Precedes l m) (hmn : Precedes m n) :
    Precedes l n := by
  rcases hlm with hlm | ⟨hpoints, hlm⟩
  · refine .inl ?_
    rcases hmn with hmn | ⟨hpoints, _⟩
    · exact lt_trans hlm hmn
    · rwa [← hpoints]
  · rcases hmn with hmn | ⟨hpoints', hmn⟩
    · exact .inl (hpoints ▸ hmn)
    · exact .inr ⟨hpoints.trans hpoints', lt_trans hlm hmn⟩

instance : Std.Irrefl Precedes := ⟨Precedes.irrefl⟩

instance : Std.Asymm Precedes := ⟨fun l _ h h' => Precedes.irrefl l (h.trans h')⟩

theorem precedes_of_not {l m : List Char} (hne : l ≠ m) (h : ¬ Precedes l m) : Precedes m l := by
  obtain ⟨hpoints, hchars⟩ := not_or.mp h
  rcases lt_or_eq_of_le (not_lt.mp hpoints) with hlt | heq
  · exact .inl hlt
  · have hle : m ≤ l := not_lt.mp fun hlt => hchars ⟨heq.symm, hlt⟩
    exact .inr ⟨heq, lt_of_le_of_ne hle (Ne.symm hne)⟩

theorem mem_insertSorted {l : List Char} :
    l ∈ insertSorted line lines ↔ l = line ∨ l ∈ lines := by
  induction lines with
  | nil => simp [insertSorted]
  | cons other lines ih =>
    rw [insertSorted]
    split
    next heq => simp [heq]
    next =>
      split
      next => simp
      next => simp [ih, or_left_comm]

theorem pairwise_insertSorted (h : lines.Pairwise Precedes) :
    (insertSorted line lines).Pairwise Precedes := by
  induction lines with
  | nil => exact List.pairwise_singleton _ _
  | cons other lines ih =>
    obtain ⟨hother, hlines⟩ := List.pairwise_cons.mp h
    rw [insertSorted]
    split
    next => exact h
    next hne =>
      split
      next hlt =>
        refine List.pairwise_cons.mpr ⟨List.forall_mem_cons.mpr ⟨hlt, fun l hl => ?_⟩, h⟩
        exact hlt.trans (hother l hl)
      next hnot =>
        have hlt : Precedes other line := precedes_of_not hne hnot
        refine List.pairwise_cons.mpr ⟨fun l hl => ?_, ih hlines⟩
        rcases mem_insertSorted.mp hl with rfl | hl
        · exact hlt
        · exact hother l hl

theorem mem_sortDistinct {l : List Char} : l ∈ sortDistinct lines ↔ l ∈ lines := by
  induction lines with
  | nil => rfl
  | cons line lines ih =>
    rw [sortDistinct, List.foldr_cons, mem_insertSorted, List.mem_cons]
    exact or_congr_right ih

theorem pairwise_sortDistinct (lines : List (List Char)) :
    (sortDistinct lines).Pairwise Precedes := by
  induction lines with
  | nil => exact List.Pairwise.nil
  | cons line lines ih => exact pairwise_insertSorted ih

/-- Only which lines there are matters. -/
theorem sortDistinct_eq_iff :
    sortDistinct lines = sortDistinct more ↔ ∀ l, l ∈ lines ↔ l ∈ more := by
  constructor
  · intro h l
    rw [← mem_sortDistinct, h, mem_sortDistinct]
  · intro h
    refine (pairwise_sortDistinct lines).eq_of_mem_iff (pairwise_sortDistinct more) fun l => ?_
    rw [mem_sortDistinct, mem_sortDistinct, h]

/-! ## The passes -/

/-- The imports of lines, as they stand together. -/
def importBlock (lines : List (List Char)) : List (List Char) :=
  sortDistinct ((lines.filter isImport).map Text.strip)

theorem mem_importBlock {l : List Char} : l ∈ importBlock lines ↔
    ∃ line ∈ lines, isImport line = true ∧ Text.strip line = l := by
  rw [importBlock, mem_sortDistinct, List.mem_map]
  simp only [List.mem_filter, and_assoc]

theorem importBlock_eq_iff :
    importBlock lines = importBlock more ↔ ∀ l, l ∈ importBlock lines ↔ l ∈ importBlock more := by
  simp only [importBlock, mem_sortDistinct]
  exact sortDistinct_eq_iff

/-- What stands below the imports, before indentation. -/
def others (lines : List (List Char)) : List (List Char) :=
  (lines.filter (!isImport ·)).dropWhile Text.allBlank

/-- What stands below the imports. -/
def body (width : Nat) (lines : List (List Char)) : List (List Char) :=
  (Text.closeLines (others lines)).map (reindentLine width)

theorem dropWhile_isComment
    (h : ∀ second, lines.head? = some second → isComment second = false) :
    lines.dropWhile isComment = lines := by
  cases lines with
  | nil => rfl
  | cons second lines => simp [h second rfl]

theorem gatherImports_cons (hfirst : isComment first = true)
    (hsecond : ∀ second, lines.head? = some second → isComment second = false) :
    gatherImports (first :: lines) = first :: (importBlock lines ++ [] :: others lines) := by
  have htake : lines.takeWhile isComment = [] := by
    cases lines with
    | nil => rfl
    | cons second lines => simp [hsecond second rfl]
  rw [gatherImports, List.takeWhile_cons_of_pos hfirst, List.dropWhile_cons_of_pos hfirst,
    dropWhile_isComment hsecond, htake]
  simp [importBlock, others]

theorem notMem_importBlock (h : ∀ l ∈ lines, '\n' ∉ l) : ∀ l ∈ importBlock lines, '\n' ∉ l := by
  intro l hl hfeed
  obtain ⟨line, hline, rfl⟩ := List.mem_map.mp (mem_sortDistinct.mp hl)
  exact h line (List.mem_filter.mp hline).1 (Text.mem_of_mem_strip hfeed)

theorem others_subset : others lines ⊆ lines := fun _ hl =>
  (List.mem_filter.mp ((List.dropWhile_sublist _).subset hl)).1

/-- Imports are trimmed already, so that the passes after leave them as they are. -/
theorem map_finish_importBlock (width : Nat) (lines : List (List Char)) :
    (importBlock lines).map (finish width) = importBlock lines := by
  refine (List.map_congr_left fun l hl => ?_).trans (List.map_id _)
  obtain ⟨line, _, rfl⟩ := List.mem_map.mp (mem_sortDistinct.mp hl)
  exact finish_strip line

theorem mem_of_mem_reindentLine {c : Char} (hc : c ≠ ' ') (h : c ∈ reindentLine width line) :
    c ∈ line := by
  rw [reindentLine, List.mem_append] at h
  rcases h with h | h
  · exact absurd (List.eq_of_mem_replicate h) hc
  · exact (List.dropWhile_sublist _).subset h

theorem notMem_reindentLine (h : '\n' ∉ line) : '\n' ∉ reindentLine width line :=
  fun hfeed => h (mem_of_mem_reindentLine (by decide) hfeed)

theorem notMem_body (h : ∀ l ∈ lines, '\n' ∉ l) : ∀ l ∈ body width lines, '\n' ∉ l := by
  intro l hl
  obtain ⟨closed, hclosed, rfl⟩ := List.mem_map.mp hl
  refine notMem_reindentLine ?_
  obtain ⟨line, hline, rfl | rfl⟩ := Text.mem_closeLines hclosed
  · exact h _ (others_subset hline)
  · exact fun hfeed => h _ (others_subset hline) (Text.mem_of_mem_dropReturn hfeed)

theorem endLines_joinLines (ending : LineEnding) (hne : lines ≠ []) (h : ∀ l ∈ lines, '\n' ∉ l) :
    endLines ending (Text.joinLines lines) ++ ending.text.toList =
      lines.flatMap (· ++ ending.text.toList) := by
  have hline : ∀ l : List Char, '\n' ∉ l → endLines ending l = l := by
    intro l hl
    rw [endLines, List.flatMap_congr (g := fun c => [c]), List.flatMap_singleton']
    intro c hc
    rw [if_neg]
    rintro rfl
    exact hl hc
  induction lines with
  | nil => exact absurd rfl hne
  | cons line lines ih =>
    obtain ⟨hfirst, hlines⟩ := List.forall_mem_cons.mp h
    by_cases hempty : lines = []
    · subst hempty
      have hjoin : Text.joinLines [line] = line := by simp [Text.joinLines, List.intercalate]
      rw [hjoin, hline line hfirst, List.flatMap_singleton]
    · rw [Text.joinLines_cons hempty, List.flatMap_cons, ← ih hempty hlines, endLines,
        List.flatMap_append, List.flatMap_cons, if_pos rfl]
      have hfirst := hline line hfirst
      rw [endLines] at hfirst
      rw [hfirst, endLines]
      simp only [List.append_assoc]

theorem reindent_joinLines (hne : lines ≠ []) (h : ∀ l ∈ lines, '\n' ∉ l) :
    reindent width (Text.joinLines lines) =
      Text.joinLines ((Text.closeLines lines).map (reindentLine width)) := by
  rw [reindent, Text.splitLines_joinLines hne h]

/-- A module leaves the passes with its first line, its imports, a blank line and the others. -/
theorem formatChars_eq {options : Options} {code : List Char}
    (hlines : Text.splitLines (Text.strip code) = first :: lines)
    (hfirst : isComment first = true)
    (hfinish : finish options.indentation first = first)
    (hsecond : ∀ second, lines.head? = some second → isComment second = false)
    (himport : lines.any isImport = true) (hothers : others lines ≠ []) :
    formatChars options code =
      (first :: (importBlock lines ++ [] :: body options.indentation lines)).flatMap
        (· ++ options.lineEnding.text.toList) := by
  have hfeed : ∀ l ∈ first :: lines, '\n' ∉ l := by
    rw [← hlines]
    exact Text.notMem_of_splitLines
  obtain ⟨hfeedFirst, hfeedLines⟩ := List.forall_mem_cons.mp hfeed
  have hgathered : ∀ l ∈ first :: (importBlock lines ++ [] :: others lines), '\n' ∉ l := by
    refine List.forall_mem_cons.mpr ⟨hfeedFirst, List.forall_mem_append.mpr
      ⟨notMem_importBlock hfeedLines, List.forall_mem_cons.mpr ⟨List.not_mem_nil, fun l hl => ?_⟩⟩⟩
    exact hfeedLines l (others_subset hl)
  have hhoist : hoistImports (Text.strip code) =
      Text.joinLines (first :: (importBlock lines ++ [] :: others lines)) := by
    have hhas : hasImports (first :: lines) = true := by
      rw [hasImports, List.dropWhile_cons_of_pos hfirst, dropWhile_isComment hsecond, himport]
    rw [hoistImports, hlines, if_pos hhas, gatherImports_cons hfirst hsecond]
  have hclosed : (Text.closeLines (first :: (importBlock lines ++ [] :: others lines))).map
      (reindentLine options.indentation) =
      first :: (importBlock lines ++ [] :: body options.indentation lines) := by
    have hsplit : first :: (importBlock lines ++ [] :: others lines) =
        (first :: (importBlock lines ++ [[]])) ++ others lines := by simp
    have hblock : (first :: (importBlock lines ++ [[]])).map
        (reindentLine options.indentation ∘ Text.dropReturn) =
        first :: (importBlock lines ++ [[]]) := by
      have himports := map_finish_importBlock options.indentation lines
      rw [List.map_cons, List.map_append]
      exact congrArg₂ _ hfinish (congrArg₂ _ himports rfl)
    rw [hsplit, Text.closeLines_append hothers, List.map_append, List.map_map, hblock, ← body,
      List.cons_append, List.append_assoc, List.singleton_append]
  rw [formatChars, hhoist, reindent_joinLines (List.cons_ne_nil _ _) hgathered, hclosed]
  refine endLines_joinLines _ (List.cons_ne_nil _ _) ?_
  refine List.forall_mem_cons.mpr ⟨hfeedFirst, List.forall_mem_append.mpr
    ⟨notMem_importBlock hfeedLines, ?_⟩⟩
  exact List.forall_mem_cons.mpr ⟨List.not_mem_nil, notMem_body hfeedLines⟩

/-! ## The characters of a text -/

section Characters

variable {c : Char}

theorem mem_of_mem_reindent {cs : List Char} (hc : c ≠ ' ' ∧ c ≠ '\n')
    (h : c ∈ reindent width cs) : c ∈ cs := by
  obtain ⟨l, hl, hmem⟩ := (Text.mem_joinLines h).resolve_left hc.2
  obtain ⟨line, hline, rfl⟩ := List.mem_map.mp hl
  exact Text.mem_of_mem_splitLines hline (mem_of_mem_reindentLine hc.1 hmem)

theorem mem_of_mem_gatherImports (hline : line ∈ gatherImports lines) (hc : c ∈ line) :
    ∃ l ∈ lines, c ∈ l := by
  have hbody : lines.dropWhile isComment ⊆ lines := (List.dropWhile_sublist _).subset
  simp only [gatherImports, List.mem_append, mem_sortDistinct, List.mem_map, List.mem_filter,
    List.mem_singleton] at hline
  rcases hline with ((hheader | ⟨l, ⟨hl, _⟩, rfl⟩) | rfl) | hother
  · exact ⟨line, (List.takeWhile_sublist _).subset hheader, hc⟩
  · exact ⟨l, hbody hl, Text.mem_of_mem_strip hc⟩
  · cases hc
  · exact ⟨line, hbody (List.mem_filter.mp ((List.dropWhile_sublist _).subset hother)).1, hc⟩

theorem mem_of_mem_hoistImports {cs : List Char} (hc : c ≠ '\n') (h : c ∈ hoistImports cs) :
    c ∈ cs := by
  rw [hoistImports] at h
  split at h
  · obtain ⟨line, hline, hmem⟩ := (Text.mem_joinLines h).resolve_left hc
    obtain ⟨l, hl, hmem⟩ := mem_of_mem_gatherImports hline hmem
    exact Text.mem_of_mem_splitLines hl hmem
  · exact h

theorem mem_lineEnding {ending : LineEnding} (h : c ∈ ending.text.toList) : c = '\r' ∨ c = '\n' := by
  cases ending with
  | lf => exact .inr (List.mem_singleton.mp h)
  | crlf => simpa [LineEnding.text] using h

theorem mem_of_mem_endLines {ending : LineEnding} {cs : List Char} (hc : c ≠ '\r' ∧ c ≠ '\n')
    (h : c ∈ endLines ending cs) : c ∈ cs := by
  obtain ⟨x, hx, hmem⟩ := List.mem_flatMap.mp h
  split at hmem
  · exact absurd (mem_lineEnding hmem) (not_or.mpr hc)
  · exact List.mem_singleton.mp hmem ▸ hx

/-- The passes put in blanks and line ends, and no other characters. -/
theorem mem_of_mem_formatChars {options : Options} {code : List Char}
    (hc : c ≠ ' ' ∧ c ≠ '\r' ∧ c ≠ '\n') (h : c ∈ formatChars options code) : c ∈ code := by
  rw [formatChars, List.mem_append] at h
  rcases h with h | h
  · have hhoisted := mem_of_mem_reindent ⟨hc.1, hc.2.2⟩ (mem_of_mem_endLines hc.2 h)
    exact Text.mem_of_mem_strip (mem_of_mem_hoistImports hc.2.2 hhoisted)
  · exact absurd (mem_lineEnding h) (not_or.mpr hc.2)

end Characters

end Layout

end ApiContract

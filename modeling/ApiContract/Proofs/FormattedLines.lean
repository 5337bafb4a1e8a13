import ApiContract.Proofs.Layout

/-!
What the last passes do to code as such. Only blanks change within a line, and only imports change
their place: of the lines that are not blank none is lost, made up or passed by another, but that
imports stand once each, in order, below the comments that a text begins with.
-/

namespace ApiContract

namespace Text

variable {cs ds bs : List Char} {lines : List (List Char)}

/-- The lines of a text, each without the blanks around it. -/
def trimmedLines (cs : List Char) : List (List Char) := (splitLines cs).map strip

/-- The lines of a text that are not blank, each without the blanks around it. -/
def contentLines (cs : List Char) : List (List Char) := (trimmedLines cs).filter (· ≠ [])

/-- A trimmed line that is a comment or begins one. -/
def IsCommentLine (line : List Char) : Prop := "/*".toList <+: line ∨ "//".toList <+: line

instance (line : List Char) : Decidable (IsCommentLine line) := inferInstanceAs (Decidable (_ ∨ _))

/-- A trimmed line that is an import. -/
def IsImportLine (line : List Char) : Prop := "import ".toList <+: line

instance (line : List Char) : Decidable (IsImportLine line) :=
  inferInstanceAs (Decidable (_ <+: _))

/-- How many comments come first, blank lines before them passed over. -/
def headingSize (cs : List Char) : Nat :=
  (((trimmedLines cs).dropWhile (· = [])).takeWhile (IsCommentLine ·)).length

/-- The comments that a text begins with. -/
def heading (cs : List Char) : List (List Char) := (contentLines cs).take (headingSize cs)

/-- The lines below the comments that a text begins with. -/
def belowHeading (cs : List Char) : List (List Char) := (contentLines cs).drop (headingSize cs)

/-! ## Blanks around a text -/

/-- A text is what is left of it with blanks on both sides. -/
theorem exists_strip (cs : List Char) : ∃ before after,
    allBlank before = true ∧ allBlank after = true ∧ cs = before ++ strip cs ++ after := by
  have hrun : ∀ ds : List Char, allBlank (ds.takeWhile isBlank) = true := by
    intro ds
    exact List.all_eq_true.mpr fun c hc => List.mem_takeWhile_imp hc
  refine ⟨cs.takeWhile isBlank, ((cs.dropWhile isBlank).reverse.takeWhile isBlank).reverse,
    hrun cs, ?_, ?_⟩
  · rw [allBlank, List.all_reverse]
    exact hrun _
  · rw [strip, stripWhere, List.append_assoc, ← List.reverse_append,
      List.takeWhile_append_dropWhile, List.reverse_reverse, List.takeWhile_append_dropWhile]

theorem strip_eq_nil_iff (cs : List Char) : strip cs = [] ↔ allBlank cs = true := by
  rw [strip, stripWhere, List.reverse_eq_nil_iff, List.dropWhile_eq_nil_iff]
  constructor
  · intro h
    refine (stripStart_eq_nil_iff cs).mp ?_
    rw [stripStart]
    cases hcs : cs.dropWhile isBlank with
    | nil => rfl
    | cons c ds =>
      have hhead := List.head_dropWhile_not isBlank (l := cs) (by rw [hcs]; exact List.cons_ne_nil _ _)
      have hc : isBlank c = true := h c (by simp [hcs])
      simp [hcs, hc] at hhead
  · intro h c hc
    exact List.all_eq_true.mp h c ((List.dropWhile_sublist _).subset (List.mem_reverse.mp hc))

theorem strip_ne_nil {c : Char} (h : isBlank c = false) (cs : List Char) : strip (c :: cs) ≠ [] := by
  rw [Ne, strip_eq_nil_iff, allBlank, List.all_cons, h]
  exact Bool.false_ne_true

theorem strip_strip (cs : List Char) : strip (strip cs) = strip cs := by
  obtain ⟨before, after, hbefore, hafter, hcs⟩ := exists_strip cs
  have h := congrArg strip hcs
  rw [List.append_assoc, strip_append_left hbefore, strip_append_right hafter] at h
  exact h.symm

/-- What a trimmed line begins with is what the line begins with behind its blanks. -/
theorem prefix_strip_iff {start : List Char} (h : ∀ c ∈ start, isBlank c = false) :
    start <+: strip cs ↔ start <+: stripStart cs := by
  have hafter : ∃ after, allBlank after = true ∧ stripStart cs = strip cs ++ after := by
    refine ⟨((cs.dropWhile isBlank).reverse.takeWhile isBlank).reverse, ?_, ?_⟩
    · rw [allBlank, List.all_reverse]
      exact List.all_eq_true.mpr fun c hc => List.mem_takeWhile_imp hc
    · rw [strip, stripWhere, ← List.reverse_append, List.takeWhile_append_dropWhile,
        List.reverse_reverse, stripStart]
  obtain ⟨after, hblank, hstart⟩ := hafter
  rw [hstart]
  constructor
  · intro hbegins
    exact hbegins.trans (List.prefix_append _ _)
  · intro hbegins
    rcases List.prefix_or_prefix_of_prefix hbegins (List.prefix_append (strip cs) after) with
      hshort | ⟨rest, hrest⟩
    · exact hshort
    · -- A longer start would go on with a blank.
      cases rest with
      | nil => simp [← hrest]
      | cons c rest =>
        rw [← hrest, List.prefix_append_right_inj] at hbegins
        have hc : isBlank c = true := List.all_eq_true.mp hblank c (hbegins.subset (by simp))
        rw [h c (by simp [← hrest])] at hc
        cases hc

/-! ## Lines without the blanks around them -/

/-- A CR at the end of a line is a blank like others. -/
theorem trimmedLines_eq (cs : List Char) : trimmedLines cs = (splitAt '\n' cs).map strip := by
  have hclosed : ∀ lines : List (List Char), (closeLines lines).map strip = lines.map strip := by
    intro lines
    induction lines with
    | nil => rfl
    | cons line lines ih =>
      by_cases hlines : lines = []
      · rw [hlines]; rfl
      · rw [closeLines_cons hlines, List.map_cons, List.map_cons, ih, strip_dropReturn]
  rw [trimmedLines, splitLines_eq, hclosed]

theorem trimmedLines_joinLines (hne : lines ≠ []) (h : ∀ l ∈ lines, '\n' ∉ l) :
    trimmedLines (joinLines lines) = lines.map strip := by
  rw [trimmedLines_eq, splitAt_joinLines hne h]

theorem eq_nil_of_mem_trimmedLines (h : allBlank cs = true) : ∀ l ∈ trimmedLines cs, l = [] := by
  intro l hl
  rw [trimmedLines_eq] at hl
  obtain ⟨piece, hpiece, rfl⟩ := List.mem_map.mp hl
  refine (strip_eq_nil_iff piece).mpr (List.all_eq_true.mpr fun c hc => ?_)
  have hmem : c ∈ (splitAt '\n' cs).flatten := List.mem_flatten_of_mem hpiece hc
  rw [flatten_splitAt] at hmem
  exact List.all_eq_true.mp h c (List.mem_filter.mp hmem).1

/-- Blanks before a text are blank lines before its lines. -/
theorem trimmedLines_append_left (h : allBlank bs = true) :
    ∃ n, trimmedLines (bs ++ cs) = List.replicate n [] ++ trimmedLines cs := by
  obtain ⟨first, rest, hfirst⟩ := List.exists_cons_of_ne_nil (splitAt_ne_nil '\n' cs)
  obtain hnil | ⟨front, last, hlast⟩ := List.eq_nil_or_concat (splitAt '\n' bs)
  · exact absurd hnil (splitAt_ne_nil _ _)
  have hblank := eq_nil_of_mem_trimmedLines h
  rw [trimmedLines_eq, hlast, List.concat_eq_append, List.map_append, List.forall_mem_append] at hblank
  refine ⟨front.length, ?_⟩
  have hfront : front.map strip = List.replicate front.length [] := by
    rw [List.eq_replicate_iff]
    exact ⟨List.length_map _, hblank.1⟩
  have hstrip : strip (last ++ first) = strip first :=
    strip_append_left ((strip_eq_nil_iff last).mp (hblank.2 _ (by simp)))
  rw [trimmedLines_eq, trimmedLines_eq,
    splitAt_append (hlast.trans (List.concat_eq_append ..)) hfirst, hfirst, List.map_append, hfront,
    List.map_cons, List.map_cons, hstrip]

/-- Blanks after a text are blank lines after its lines. -/
theorem trimmedLines_append_right (h : allBlank bs = true) :
    ∃ n, trimmedLines (cs ++ bs) = trimmedLines cs ++ List.replicate n [] := by
  obtain ⟨first, rest, hfirst⟩ := List.exists_cons_of_ne_nil (splitAt_ne_nil '\n' bs)
  obtain hnil | ⟨front, last, hlast⟩ := List.eq_nil_or_concat (splitAt '\n' cs)
  · exact absurd hnil (splitAt_ne_nil _ _)
  have hblank := eq_nil_of_mem_trimmedLines h
  rw [trimmedLines_eq, hfirst, List.map_cons, List.forall_mem_cons] at hblank
  refine ⟨rest.length, ?_⟩
  have hrest : rest.map strip = List.replicate rest.length [] := by
    rw [List.eq_replicate_iff]
    exact ⟨List.length_map _, hblank.2⟩
  have hstrip : strip (last ++ first) = strip last :=
    strip_append_right ((strip_eq_nil_iff first).mp hblank.1)
  rw [List.concat_eq_append] at hlast
  rw [trimmedLines_eq, trimmedLines_eq, splitAt_append hlast hfirst, hlast, List.map_append,
    List.map_cons, hrest, hstrip, List.map_append, List.append_assoc]
  rfl

/-- Around a text, blanks are blank lines. -/
theorem exists_trimmedLines (cs : List Char) : ∃ m n,
    trimmedLines cs = List.replicate m [] ++ (trimmedLines (strip cs) ++ List.replicate n []) := by
  obtain ⟨before, after, hbefore, hafter, hcs⟩ := exists_strip cs
  obtain ⟨m, hm⟩ := @trimmedLines_append_left (strip cs ++ after) before hbefore
  obtain ⟨n, hn⟩ := @trimmedLines_append_right (strip cs) after hafter
  refine ⟨m, n, ?_⟩
  conv_lhs => rw [hcs]
  rw [List.append_assoc, hm, hn]

theorem contentLines_strip (cs : List Char) : contentLines (strip cs) = contentLines cs := by
  obtain ⟨m, n, h⟩ := exists_trimmedLines cs
  simp [contentLines, h]

theorem not_isCommentLine_nil : ¬ IsCommentLine [] := by decide

/-- The first line of a trimmed text is not blank, unless it has no other. -/
theorem head_trimmedLines_strip (cs : List Char) :
    (trimmedLines (strip cs)).head? ≠ some [] ∨ trimmedLines (strip cs) = [[]] := by
  cases hcs : strip cs with
  | nil => exact .inr rfl
  | cons c ds =>
    have hlead : lead cs = some c := by rw [← head_strip, hcs]; rfl
    have hc : isBlank c = false := isBlank_of_lead hlead
    have hfeed : c ≠ '\n' := by
      intro heq
      rw [heq] at hc
      cases hc
    obtain ⟨first, rest, hfirst⟩ := List.exists_cons_of_ne_nil (splitAt_ne_nil '\n' ds)
    rw [trimmedLines_eq, splitAt, if_neg hfeed, hfirst]
    refine .inl fun hhead => strip_ne_nil hc first ?_
    exact Option.some.inj hhead

theorem headingSize_strip (cs : List Char) :
    headingSize cs = ((trimmedLines (strip cs)).takeWhile (IsCommentLine ·)).length := by
  obtain ⟨m, n, h⟩ := exists_trimmedLines cs
  have hblanks : ∀ (k : Nat) (lines : List (List Char)),
      (List.replicate k [] ++ lines).dropWhile (· = []) = lines.dropWhile (· = []) := by
    intro k lines
    refine List.dropWhile_append_of_pos fun l hl => ?_
    rw [List.eq_of_mem_replicate hl]
    rfl
  have hafter : ∀ lines : List (List Char),
      (lines ++ List.replicate n []).takeWhile (IsCommentLine ·) =
        lines.takeWhile (IsCommentLine ·) := by
    intro lines
    induction lines with
    | nil => cases n <;> simp [List.replicate_succ, not_isCommentLine_nil]
    | cons line lines ih => simp [List.takeWhile_cons, ih]
  rw [headingSize, h, hblanks]
  rcases head_trimmedLines_strip cs with hhead | hnil
  · obtain ⟨first, rest, hfirst⟩ :=
      List.exists_cons_of_ne_nil (l := trimmedLines (strip cs)) (by
        rw [trimmedLines_eq, Ne, List.map_eq_nil_iff]
        exact splitAt_ne_nil _ _)
    have hne : first ≠ [] := by
      intro heq
      rw [hfirst, heq] at hhead
      exact hhead rfl
    rw [hfirst, List.cons_append, List.dropWhile_cons_of_neg (by simpa using hne), ← List.cons_append,
      hafter]
  · rw [hnil, ← List.replicate_one, hblanks 1, ← List.append_nil (List.replicate n []), hblanks]
    simp [not_isCommentLine_nil]

end Text

namespace Layout

variable {cs : List Char} {lines : List (List Char)} {line : List Char}

/-! ## The passes -/

theorem isComment_iff : isComment line = true ↔ Text.IsCommentLine (Text.strip line) := by
  have hplain : ∀ start ∈ ["/*".toList, "//".toList], ∀ c ∈ start, Text.isBlank c = false := by
    have hslash : Text.isBlank '/' = false := by decide
    have hstar : Text.isBlank '*' = false := by decide
    simp [hslash, hstar]
  rw [isComment, Text.IsCommentLine, Text.prefix_strip_iff (hplain _ (by simp)),
    Text.prefix_strip_iff (hplain _ (by simp))]
  simp

theorem isImport_iff : isImport line = true ↔ Text.IsImportLine (Text.strip line) := by
  rw [isImport, Text.IsImportLine]
  exact List.isPrefixOf_iff_prefix

theorem notMem_reindented (width : Nat) (cs : List Char) :
    ∀ l ∈ (Text.splitLines cs).map (reindentLine width), '\n' ∉ l := by
  intro l hl
  obtain ⟨raw, hraw, rfl⟩ := List.mem_map.mp hl
  exact notMem_reindentLine (Text.notMem_of_splitLines raw hraw)

theorem reindented_ne_nil (width : Nat) (cs : List Char) :
    (Text.splitLines cs).map (reindentLine width) ≠ [] := by
  simpa using Text.splitLines_ne_nil cs

theorem map_strip_reindented (width : Nat) (cs : List Char) :
    ((Text.splitLines cs).map (reindentLine width)).map Text.strip = Text.trimmedLines cs := by
  rw [List.map_map, Text.trimmedLines]
  exact List.map_congr_left fun l _ => strip_reindentLine width l

/-- The end that a line is given is blank, whichever it is. -/
theorem trimmedLines_endLines (ending : LineEnding) (hne : lines ≠ []) (h : ∀ l ∈ lines, '\n' ∉ l) :
    Text.trimmedLines (endLines ending (Text.joinLines lines) ++ ending.text.toList) =
      lines.map Text.strip ++ [[]] := by
  obtain ⟨before, hblank, hfeed, hending⟩ : ∃ before, Text.allBlank before = true ∧ '\n' ∉ before ∧
      ending.text.toList = before ++ ['\n'] := by
    cases ending with
    | lf => exact ⟨[], by decide⟩
    | crlf => exact ⟨['\r'], by decide⟩
  rw [endLines_joinLines ending hne h, hending]
  clear hne
  induction lines with
  | nil => rfl
  | cons line lines ih =>
    obtain ⟨hline, hlines⟩ := List.forall_mem_cons.mp h
    have hpiece : '\n' ∉ line ++ before := by simp [hline, hfeed]
    have hcut : line ++ (before ++ ['\n']) = (line ++ before) ++ '\n' :: [] := by simp
    rw [List.flatMap_cons, hcut, List.append_assoc, List.cons_append, List.nil_append,
      Text.trimmedLines_eq, Text.splitAt_append_cons, Text.splitAt_of_notMem hpiece, List.map_append,
      ← Text.trimmedLines_eq, ih hlines, List.map_singleton, Text.strip_append_right hblank]
    rfl

/-- All that matters of a text for the lines of its layout is where the imports went. -/
theorem contentLines_formatChars (options : Options) (code : List Char) :
    Text.contentLines (formatChars options code) =
      Text.contentLines (hoistImports (Text.strip code)) := by
  rw [formatChars, Text.contentLines, reindent, trimmedLines_endLines _ (reindented_ne_nil _ _)
    (notMem_reindented _ _), map_strip_reindented, List.filter_append, Text.contentLines]
  simp

/-- The lines that a text is cut into, imports gathered. -/
theorem trimmedLines_hoistImports (h : hasImports (Text.splitLines cs) = true) :
    Text.trimmedLines (hoistImports cs) = (gatherImports (Text.splitLines cs)).map Text.strip := by
  have hlines : ∀ l ∈ Text.splitLines cs, '\n' ∉ l := Text.notMem_of_splitLines
  simp only [hoistImports, if_pos h]
  refine Text.trimmedLines_joinLines ?_ ?_
  · simp [gatherImports]
  · intro l hl hfeed
    simp only [gatherImports, List.mem_append, List.mem_singleton] at hl
    obtain ((hl | hl) | rfl) | hl := hl
    · exact hlines l ((List.takeWhile_sublist _).subset hl) hfeed
    · obtain ⟨raw, hraw, rfl⟩ := List.mem_map.mp (mem_sortDistinct.mp hl)
      exact hlines raw ((List.dropWhile_sublist _).subset (List.mem_filter.mp hraw).1)
        (Text.mem_of_mem_strip hfeed)
    · cases hfeed
    · exact hlines l ((List.dropWhile_sublist _).subset
        (List.mem_filter.mp ((List.dropWhile_sublist _).subset hl)).1) hfeed

/-! ## Comments, imports and the rest -/

theorem isCommentLine_ne_nil {l : List Char} (h : Text.IsCommentLine l) : l ≠ [] := by
  intro hnil
  rw [hnil] at h
  exact Text.not_isCommentLine_nil h

theorem isImportLine_ne_nil {l : List Char} (h : Text.IsImportLine l) : l ≠ [] := by
  intro hnil
  rw [hnil] at h
  revert h
  decide

/-- The comments above and what is below them, as the passes part them. -/
theorem heading_eq (code : List Char) :
    Text.heading code =
        ((Text.splitLines (Text.strip code)).takeWhile isComment).map Text.strip ∧
      Text.belowHeading code =
        (((Text.splitLines (Text.strip code)).dropWhile isComment).map Text.strip).filter
          (· ≠ []) := by
  have hsize : Text.headingSize code =
      ((Text.splitLines (Text.strip code)).takeWhile isComment).length := by
    have hsame : ((Text.IsCommentLine ·) ∘ Text.strip : List Char → Bool) = isComment := by
      funext line
      rw [Bool.eq_iff_iff, isComment_iff]
      simp
    rw [Text.headingSize_strip, Text.trimmedLines, List.takeWhile_map, List.length_map, hsame]
  have hcontents : Text.contentLines code =
      ((Text.splitLines (Text.strip code)).takeWhile isComment).map Text.strip ++
        (((Text.splitLines (Text.strip code)).dropWhile isComment).map Text.strip).filter
          (· ≠ []) := by
    have hcomments : (((Text.splitLines (Text.strip code)).takeWhile isComment).map Text.strip).filter
        (· ≠ []) = ((Text.splitLines (Text.strip code)).takeWhile isComment).map Text.strip := by
      refine List.filter_eq_self.mpr fun l hl => ?_
      obtain ⟨raw, hraw, rfl⟩ := List.mem_map.mp hl
      have hcomment := isComment_iff.mp (List.mem_takeWhile_imp hraw)
      exact decide_eq_true (isCommentLine_ne_nil hcomment)
    rw [← Text.contentLines_strip, Text.contentLines, Text.trimmedLines, ← hcomments,
      ← List.filter_append, ← List.map_append, List.takeWhile_append_dropWhile]
  have hlength : (((Text.splitLines (Text.strip code)).takeWhile isComment).map Text.strip).length =
      ((Text.splitLines (Text.strip code)).takeWhile isComment).length := List.length_map _
  rw [Text.heading, Text.belowHeading, hsize, hcontents, ← hlength]
  exact ⟨List.take_left, List.drop_left⟩

theorem mem_belowHeading_import {code l : List Char} :
    l ∈ Text.belowHeading code ∧ Text.IsImportLine l ↔
      ∃ line ∈ (Text.splitLines (Text.strip code)).dropWhile isComment,
        isImport line = true ∧ Text.strip line = l := by
  rw [(heading_eq code).2, List.mem_filter, List.mem_map]
  constructor
  · intro h
    obtain ⟨⟨⟨line, hline, rfl⟩, _⟩, himport⟩ := h
    exact ⟨line, hline, isImport_iff.mpr himport, rfl⟩
  · intro h
    obtain ⟨line, hline, himport, rfl⟩ := h
    have himport := isImport_iff.mp himport
    exact ⟨⟨⟨line, hline, rfl⟩, decide_eq_true (isImportLine_ne_nil himport)⟩, himport⟩

theorem hasImports_iff (code : List Char) :
    hasImports (Text.splitLines (Text.strip code)) = true ↔
      ∃ l ∈ Text.belowHeading code, Text.IsImportLine l := by
  simp only [mem_belowHeading_import, hasImports, List.any_eq_true]
  constructor
  · intro h
    obtain ⟨line, hline, himport⟩ := h
    exact ⟨Text.strip line, line, hline, himport, rfl⟩
  · intro h
    obtain ⟨_, line, hline, himport, _⟩ := h
    exact ⟨line, hline, himport⟩

/-- What is below the imports: what is below the comments, imports left out. -/
theorem filter_others (lines : List (List Char)) :
    (((lines.filter (!isImport ·)).dropWhile Text.allBlank).map Text.strip).filter (· ≠ []) =
      ((lines.map Text.strip).filter (· ≠ [])).filter (¬ Text.IsImportLine ·) := by
  have hblank : ∀ lines : List (List Char),
      ((lines.dropWhile Text.allBlank).map Text.strip).filter (· ≠ []) =
        (lines.map Text.strip).filter (· ≠ []) := by
    intro lines
    induction lines with
    | nil => rfl
    | cons line lines ih =>
      by_cases hline : Text.allBlank line = true
      · have hnil := (Text.strip_eq_nil_iff line).mpr hline
        rw [List.dropWhile_cons_of_pos hline, ih, List.map_cons, List.filter_cons_of_neg (by simp [hnil])]
      · rw [List.dropWhile_cons_of_neg hline]
  have hsame : ((¬ Text.IsImportLine ·) ∘ Text.strip : List Char → Bool) = (!isImport ·) := by
    funext line
    have himport : isImport line = true ↔ Text.IsImportLine (Text.strip line) := isImport_iff
    simp [← himport]
  have himports : (lines.filter (!isImport ·)).map Text.strip =
      (lines.map Text.strip).filter (¬ Text.IsImportLine ·) := by
    rw [List.filter_map, hsame]
  rw [hblank, himports, List.filter_comm]

/-- The lines of a text with imports, as they leave the passes. -/
theorem contentLines_gathered (code : List Char)
    (h : hasImports (Text.splitLines (Text.strip code)) = true) :
    Text.contentLines (hoistImports (Text.strip code)) =
      Text.heading code ++
        importBlock ((Text.splitLines (Text.strip code)).dropWhile isComment) ++
          (Text.belowHeading code).filter (¬ Text.IsImportLine ·) := by
  obtain ⟨hheading, hbelow⟩ := heading_eq code
  have hcomments : (Text.heading code).filter (· ≠ []) = Text.heading code := by
    refine List.filter_eq_self.mpr fun l hl => ?_
    rw [hheading] at hl
    obtain ⟨line, hline, rfl⟩ := List.mem_map.mp hl
    have hcomment := isComment_iff.mp (List.mem_takeWhile_imp hline)
    exact decide_eq_true (isCommentLine_ne_nil hcomment)
  have himports : ∀ lines : List (List Char),
      ((importBlock lines).map Text.strip).filter (· ≠ []) = importBlock lines := by
    intro lines
    have hstrip : (importBlock lines).map Text.strip = importBlock lines := by
      refine (List.map_congr_left fun l hl => ?_).trans (List.map_id _)
      obtain ⟨line, _, _, rfl⟩ := mem_importBlock.mp hl
      exact Text.strip_strip line
    rw [hstrip]
    refine List.filter_eq_self.mpr fun l hl => ?_
    obtain ⟨line, _, himport, rfl⟩ := mem_importBlock.mp hl
    exact decide_eq_true (isImportLine_ne_nil (isImport_iff.mp himport))
  have hblank : [Text.strip []].filter (· ≠ []) = ([] : List (List Char)) := by decide
  rw [Text.contentLines, trimmedLines_hoistImports h, hbelow, ← filter_others, gatherImports]
  simp only [List.map_append, List.filter_append, List.map_singleton]
  rw [← hheading, ← importBlock, hcomments, himports, hblank, List.append_nil]

/-! ## The whole -/

/-- What becomes of the lines of a text, and how they end. -/
structure KeepsLines (options : Options) (code : String) : Prop where
  /-- Without imports below the first comments, the lines stay as they are. -/
  unmoved : (∀ l ∈ Text.belowHeading code.toList, ¬ Text.IsImportLine l) →
    Text.contentLines (format options code).toList = Text.contentLines code.toList
  /-- Imports stand once each, in order, between the first comments and the other lines. -/
  gathered : (∃ l ∈ Text.belowHeading code.toList, Text.IsImportLine l) →
    ∃ imports : List (List Char),
      imports.Nodup ∧ imports.Pairwise (fun l m => Text.points l ≤ Text.points m) ∧
      (∀ l, l ∈ imports ↔ l ∈ Text.belowHeading code.toList ∧ Text.IsImportLine l) ∧
      Text.contentLines (format options code).toList =
        Text.heading code.toList ++ imports ++
          (Text.belowHeading code.toList).filter (¬ Text.IsImportLine ·)
  /-- Only the ends of lines tell the two kinds of text apart. -/
  ended : (format { options with lineEnding := .crlf } code).toList =
    (format { options with lineEnding := .lf } code).toList.flatMap
      fun c => if c = '\n' then ['\r', '\n'] else [c]

theorem endLines_lf (cs : List Char) : endLines .lf cs = cs := by
  have hone : ∀ c : Char, (if c = '\n' then LineEnding.lf.text.toList else [c]) = [c] := by
    intro c
    split
    · next h => rw [h]; decide
    · rfl
  simp only [endLines, hone]
  exact List.flatMap_singleton' cs

end Layout

end ApiContract

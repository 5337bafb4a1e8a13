import ApiContract.Proofs.Drafts

/-!
Summaries in a module. The lines of a module are those that it has without any summary, with the
lines of the comments put in between. The passes of the layout work line by line, so the same holds
of its text, but for the lines of comments that look like imports: these go to the imports.
-/

namespace ApiContract.Module

/-! ## Lists with pieces put in -/

/-- A list with some pieces put in, in their order, each at one place. -/
inductive Spliced {α : Type} : List (List α) → List α → List α → Prop
  | plain {plain : List α} : Spliced [] plain plain
  | splice (before : List α) {piece plain full : List α} {pieces : List (List α)} :
      Spliced pieces plain full →
        Spliced (piece :: pieces) (before ++ plain) (before ++ (piece ++ full))

namespace Spliced

variable {α β : Type} {pieces : List (List α)} {plain full : List α}

theorem append_left (h : Spliced pieces plain full) (before : List α) :
    Spliced pieces (before ++ plain) (before ++ full) := by
  cases h with
  | plain => exact .plain
  | splice front h =>
    rw [← List.append_assoc, ← List.append_assoc before]
    exact .splice (before ++ front) h

theorem cons (h : Spliced pieces plain full) (x : α) : Spliced pieces (x :: plain) (x :: full) :=
  h.append_left [x]

/-- One more piece, or none, with what stands around it. -/
theorem around (h : Spliced pieces plain full) (before after : List α) (piece : Option (List α)) :
    Spliced (piece.toList ++ pieces) (before ++ (after ++ plain))
      (before ++ (piece.toList.flatten ++ (after ++ full))) := by
  have hafter := h.append_left after
  cases piece with
  | none => exact hafter.append_left before
  | some piece =>
    rw [Option.toList_some, List.flatten_singleton, List.singleton_append]
    exact .splice before hafter

theorem filter (p : α → Bool) (h : Spliced pieces plain full) :
    Spliced (pieces.map (List.filter p)) (plain.filter p) (full.filter p) := by
  induction h with
  | plain => exact .plain
  | splice before _ ih =>
    rw [List.filter_append, List.filter_append, List.filter_append]
    exact .splice _ ih

theorem map (f : α → β) (h : Spliced pieces plain full) :
    Spliced (pieces.map (List.map f)) (plain.map f) (full.map f) := by
  induction h with
  | plain => exact .plain
  | splice before _ ih =>
    rw [List.map_append, List.map_append, List.map_append]
    exact .splice _ ih

/-- What is done to every element goes on in the pieces. -/
theorem keep (p : α → Bool) (f : α → β) (h : Spliced pieces plain full) :
    Spliced (pieces.map fun piece => (piece.filter p).map f) ((plain.filter p).map f)
      ((full.filter p).map f) := by
  have hkept := (h.filter p).map f
  rwa [List.map_map] at hkept

theorem flatMap (f : α → List β) (h : Spliced pieces plain full) :
    Spliced (pieces.map (List.flatMap f)) (plain.flatMap f) (full.flatMap f) := by
  induction h with
  | plain => exact .plain
  | splice before _ ih =>
    rw [List.flatMap_append, List.flatMap_append, List.flatMap_append]
    exact .splice _ ih

theorem mem_iff {x : α} (h : Spliced pieces plain full) :
    x ∈ full ↔ x ∈ plain ∨ ∃ piece ∈ pieces, x ∈ piece := by
  induction h with
  | plain => simp
  | splice before _ ih =>
    simp only [List.mem_append, ih, List.exists_mem_cons_iff]
    grind

end Spliced

/-! ## Contents without summaries -/

end ApiContract.Module

namespace ApiContract

def ClientDeclaration.undocumented (k : ClientDeclaration) : ClientDeclaration :=
  { k with summary := none }

namespace Module

/-- The comment of a client, as lines, if it has a summary. -/
def commentOf (k : ClientDeclaration) : List (List (List Char)) :=
  ((given? k.summary).map commentLines).toList

namespace Content

/-- The content with all summaries left out. -/
def undocumented (c : Content) : Content :=
  { c with clients := c.clients.map ClientDeclaration.undocumented }

/-- The comments of all clients, as lines. -/
def comments (c : Content) : List (List (List Char)) := c.clients.flatMap commentOf

end Content

variable {options : Options} {c : Content}

theorem complete_unlines (lines : List String) : Text.Complete (unlines lines).toList :=
  complete_join complete_line lines

theorem complete_summaryText (summary : Option String) :
    Text.Complete (summaryText summary).toList := by
  unfold summaryText
  split
  next s _ =>
    have hend : " */\n" = " */" ++ "\n" := by decide
    rw [hend, ← String.append_assoc]
    exact complete_line _
  next => exact .inl rfl

/-- The rows of a summary are the lines of its comment. -/
theorem rows_summaryText (k : ClientDeclaration) :
    Text.rows (summaryText k.summary).toList = (commentOf k).flatten := by
  unfold summaryText commentOf
  cases given? k.summary with
  | none => rfl
  | some s =>
    have hend : " */\n" = " */" ++ "\n" := by decide
    have hfeed : "\n".toList = ['\n'] := rfl
    have hlast : ("/** ".toList ++ guardComment s.toList ++ " */".toList).getLast? ≠ some '\r' := by
      have hslash : " */".toList.getLast? = some '/' := by decide
      rw [List.getLast?_append, hslash]
      nofun
    rw [Option.map_some, Option.toList_some, List.flatten_singleton, commentLines,
      Text.splitLines_eq_rows hlast]
    simp only [hend, String.toList_append, String.toList_ofList, hfeed, List.append_assoc]

theorem complete_clientText (mark : Text.QuoteMark) (k : ClientDeclaration) :
    Text.Complete (clientText mark k).toList := by
  rw [clientText_eq]
  exact complete_append (complete_unlines _)
    (complete_append (complete_summaryText _) (complete_unlines _))

theorem rows_clientText (mark : Text.QuoteMark) (k : ClientDeclaration) :
    Text.rows (clientText mark k).toList = Text.rows (unlines (argsLines k)).toList ++
      ((commentOf k).flatten ++ Text.rows (unlines (callLines mark k)).toList) := by
  rw [clientText_eq, String.toList_append, String.toList_append,
    Text.rows_append (complete_unlines _), Text.rows_append (complete_summaryText _),
    rows_summaryText]

theorem rows_undocumented (mark : Text.QuoteMark) (k : ClientDeclaration) :
    Text.rows (clientText mark k.undocumented).toList =
      Text.rows (unlines (argsLines k)).toList ++ Text.rows (unlines (callLines mark k)).toList := by
  have hargs : argsLines k.undocumented = argsLines k := rfl
  have hcall : callLines mark k.undocumented = callLines mark k := rfl
  have hcomment : commentOf k.undocumented = [] := rfl
  rw [rows_clientText, hargs, hcall, hcomment, List.flatten_nil, List.nil_append]

/-- The rows of clients are those without summaries, with the comments put in. -/
theorem spliced_clients (mark : Text.QuoteMark) (ks : List ClientDeclaration) :
    Spliced (ks.flatMap commentOf)
      (ks.flatMap fun k => Text.rows (clientText mark k.undocumented).toList)
      (ks.flatMap fun k => Text.rows (clientText mark k).toList) := by
  induction ks with
  | nil =>
    rw [List.flatMap_nil, List.flatMap_nil, List.flatMap_nil]
    exact .plain
  | cons k ks ih =>
    rw [List.flatMap_cons, List.flatMap_cons, List.flatMap_cons, rows_undocumented,
      rows_clientText, List.append_assoc, List.append_assoc, List.append_assoc]
    exact ih.around _ _ _

/-! ## The lines of a module -/

/-- What stands below the heading of the schemas and before the clients. -/
def beforeClients (c : Content) : List Char :=
  (String.join (c.schemas.map constText)).toList ++ ("/* TYPES */\n\n".toList ++
    ((String.join (c.schemas.map typeText)).toList ++
      ((if c.includesHandlers then serverSection c.handlers else "").toList ++
        ("\n/* CLIENT */\n\n" ++ unlines clientLines).toList)))

theorem sections_eq (mark : Text.QuoteMark) (h : c.clients ≠ []) : sections mark c =
    beforeClients c ++ c.clients.flatMap fun k => (clientText mark k).toList := by
  have hincluded : c.includesClients = true := by simpa [Content.includesClients] using h
  unfold sections beforeClients clientSection
  rw [if_pos hincluded]
  simp only [String.toList_append, toList_join_map, List.append_assoc]

theorem complete_server (c : Content) :
    Text.Complete (if c.includesHandlers then serverSection c.handlers else "").toList := by
  split
  next => exact complete_append (complete_line _) (complete_join complete_handlerText _)
  next => exact .inl rfl

theorem complete_beforeClients (c : Content) : Text.Complete (beforeClients c) := by
  refine (complete_join complete_constText _).append ((complete_of_endsLine ⟨"/* TYPES */\n", rfl⟩).append
    ((complete_join complete_typeText _).append ((complete_server c).append ?_)))
  exact complete_of_endsLine ((endsLine_unlines (List.cons_ne_nil _ _)).append _)

theorem rest_eq (h : c.clients ≠ []) : c.rest options.mark =
    [] :: (Text.rows (beforeClients c) ++
      c.clients.flatMap fun k => Text.rows (clientText options.mark k).toList) := by
  rw [Content.rest_eq_rows (.inr h), sections_eq options.mark h,
    Text.rows_append (complete_beforeClients c), Text.rows_flatMap (complete_clientText options.mark)]

theorem undocumented_of_nil (h : c.clients = []) : c.undocumented = c := by
  cases c
  cases h
  rfl

/-- The lines of a module are those that it has without summaries, with the comments put in. -/
theorem spliced_rest (options : Options) (c : Content) :
    Spliced c.comments (c.undocumented.rest options.mark) (c.rest options.mark) := by
  by_cases h : c.clients = []
  · rw [undocumented_of_nil h, Content.comments, h]
    exact .plain
  · have hne : c.undocumented.clients ≠ [] := by simpa [Content.undocumented] using h
    rw [rest_eq h, rest_eq hne]
    have hclients := spliced_clients options.mark c.clients
    have hbefore : beforeClients c.undocumented = beforeClients c := rfl
    rw [hbefore, Content.undocumented, List.flatMap_map]
    exact (hclients.append_left _).append_left [[]]

/-! ## The text of a module -/

/-- What stands below the imports of a module. -/
def bodyText (options : Options) (c : Content) : List Char :=
  (Layout.body options.indentation (c.lines options.mark)).flatMap
    (· ++ options.lineEnding.text.toList)

/-- The imports of a module, as they stand together. -/
def imports (options : Options) (c : Content) : List (List Char) :=
  Layout.importBlock (c.lines options.mark)

/-- The lines of comments that look like imports, as imports. -/
def commentImports (c : Content) : List (List Char) :=
  c.comments.flatMap Layout.importBlock

/-- Where there are clients, the last line of a draft ends one. -/
theorem suffix_rest (h : c.clients ≠ []) : ["\x7d;".toList] <:+ c.rest options.mark := by
  obtain ⟨init, k, hks⟩ := (List.eq_nil_or_concat' c.clients).resolve_left h
  have hcall : callLines options.mark k = (callLines options.mark k).dropLast ++ ["\x7d;"] := rfl
  have hlast : Text.rows (unlines ["\x7d;"]).toList = ["\x7d;".toList] := by decide
  rw [rest_eq h, hks, List.flatMap_append, List.flatMap_singleton, rows_clientText, hcall,
    unlines_append, String.toList_append, Text.rows_append (complete_unlines _), hlast]
  simp only [← List.append_assoc, ← List.cons_append]
  exact List.suffix_append _ _

theorem body_eq (h : c.clients ≠ []) : Layout.body options.indentation (c.lines options.mark) =
    ((heading.toList :: c.rest options.mark).filter (!Layout.isImport ·)).map
      (Layout.finish options.indentation) := by
  have hheading : (!Layout.isImport heading.toList) = true := by decide
  have hlast : (!Layout.isImport "\x7d;".toList) = true ∧ "\x7d;".toList.getLast? ≠ some '\r' := by
    decide
  obtain ⟨front, hrest⟩ : ["\x7d;".toList] <:+ c.rest options.mark := suffix_rest h
  have hfinish : Layout.finish options.indentation =
      Layout.reindentLine options.indentation ∘ Text.dropReturn := rfl
  rw [Layout.body, others_lines, List.filter_cons_of_pos (p := (!Layout.isImport ·)) hheading,
    Text.closeLines_eq_map, hfinish, List.map_map]
  intro last hlines
  rw [← hrest, List.filter_append, List.filter_cons_of_pos (p := (!Layout.isImport ·)) hlast.1,
    List.filter_nil, ← List.cons_append, List.getLast?_concat] at hlines
  rw [← Option.some.inj hlines]
  exact hlast.2

theorem spliced_lines (options : Options) (c : Content) :
    Spliced c.comments (c.undocumented.lines options.mark) (c.lines options.mark) := by
  rw [Content.lines_eq_cons, Content.lines_eq_cons]
  exact (((spliced_rest options c).cons _).cons _).cons _

theorem spliced_body (options : Options) (c : Content) :
    Spliced (c.comments.map fun comment =>
        (comment.filter (!Layout.isImport ·)).map (Layout.finish options.indentation))
      (Layout.body options.indentation (c.undocumented.lines options.mark))
      (Layout.body options.indentation (c.lines options.mark)) := by
  by_cases h : c.clients = []
  · rw [undocumented_of_nil h, Content.comments, h]
    exact .plain
  · have hne : c.undocumented.clients ≠ [] := by simpa [Content.undocumented] using h
    rw [body_eq h, body_eq hne]
    exact ((spliced_rest options c).cons _).keep _ _

/-- The imports of a module are those that it has without summaries, and those of its comments. -/
theorem mem_imports {l : List Char} :
    l ∈ imports options c ↔ l ∈ imports options c.undocumented ∨ l ∈ commentImports c := by
  have hlines := spliced_lines options c
  rw [imports, imports, commentImports, List.mem_flatMap]
  generalize c.lines options.mark = full, c.undocumented.lines options.mark = plain at hlines ⊢
  simp only [Layout.mem_importBlock, hlines.mem_iff]
  grind

theorem imports_eq_iff : imports options c = imports options c.undocumented ↔
    ∀ l ∈ commentImports c, l ∈ imports options c.undocumented := by
  have hmem : (∀ l, l ∈ imports options c ↔ l ∈ imports options c.undocumented) ↔
      ∀ l ∈ commentImports c, l ∈ imports options c.undocumented := by
    refine forall_congr' fun l => ?_
    rw [mem_imports]
    exact or_iff_left_iff_imp
  rw [← hmem]
  exact Layout.importBlock_eq_iff

end Module

end ApiContract

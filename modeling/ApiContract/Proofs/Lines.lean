import ApiContract.Text.Blank
import ApiContract.Text.Lines
import Mathlib.Data.List.Basic

/-!
Laws of lines. Splitting is cutting at every LF and dropping one CR before each; a text whose last
line has ended is made of its rows, and rows are put together as texts are.
-/

namespace ApiContract.Text

/-- A line without one CR at its end. -/
def dropReturn (line : List Char) : List Char :=
  if line.getLast? = some '\r' then line.dropLast else line

/-- Every line but the last has ended, and so it lost a CR. -/
def closeLines : List (List Char) → List (List Char)
  | [] => []
  | [line] => [line]
  | line :: lines => dropReturn line :: closeLines lines

/-- The lines of a text that have ended. -/
def rows (cs : List Char) : List (List Char) := (splitLines cs).dropLast

/-- All lines of a text have ended. -/
def Complete (cs : List Char) : Prop := cs = [] ∨ ∃ body, cs = body ++ ['\n']

variable {cs ds line : List Char} {lines others : List (List Char)}

/-! ## Splitting -/

theorem dropReturn_nil : dropReturn [] = [] := rfl

theorem dropReturn_of_ne (h : line.getLast? ≠ some '\r') : dropReturn line = line := if_neg h

theorem dropReturn_cons {c : Char} (h : line ≠ [] ∨ c ≠ '\r') :
    dropReturn (c :: line) = c :: dropReturn line := by
  cases line with
  | nil =>
    have hc : c ≠ '\r' := h.resolve_left fun hne => hne rfl
    rw [dropReturn_nil, dropReturn_of_ne (by simpa using hc)]
  | cons d ds =>
    rw [dropReturn, dropReturn, List.getLast?_cons_cons]
    split
    · rfl
    · rfl

theorem dropReturn_append_cons {c : Char} (hc : c ≠ '\r') (front rest : List Char) :
    dropReturn (front ++ c :: rest) = front ++ c :: dropReturn rest := by
  induction front with
  | nil => exact dropReturn_cons (.inr hc)
  | cons d front ih =>
    have hne : front ++ c :: rest ≠ [] := List.append_ne_nil_of_right_ne_nil _ (List.cons_ne_nil _ _)
    rw [List.cons_append, dropReturn_cons (.inl hne), ih, List.cons_append]

theorem prefix_dropReturn (line : List Char) : dropReturn line <+: line := by
  rw [dropReturn]
  split
  · exact List.dropLast_prefix line
  · exact List.prefix_rfl

theorem closeLines_cons (h : lines ≠ []) :
    closeLines (line :: lines) = dropReturn line :: closeLines lines := by
  cases lines with
  | nil => exact absurd rfl h
  | cons => rfl

theorem closeLines_append (h : others ≠ []) :
    closeLines (lines ++ others) = lines.map dropReturn ++ closeLines others := by
  induction lines with
  | nil => rfl
  | cons line lines ih =>
    rw [List.cons_append, closeLines_cons (List.append_ne_nil_of_right_ne_nil _ h), ih]
    rfl

theorem closeLines_eq_map (h : ∀ last, lines.getLast? = some last → last.getLast? ≠ some '\r') :
    closeLines lines = lines.map dropReturn := by
  induction lines with
  | nil => rfl
  | cons line lines ih =>
    cases lines with
    | nil => rw [List.map_singleton, dropReturn_of_ne (h line rfl)]; rfl
    | cons other lines =>
      rw [closeLines_cons (List.cons_ne_nil _ _), ih h]
      rfl

/-- What was cut before a character that ends a line began with it. -/
theorem eq_cons_of_splitAt {sep : Char} (h : splitAt sep cs = [] :: lines) (hne : lines ≠ []) :
    ∃ rest, cs = sep :: rest := by
  cases cs with
  | nil =>
    cases h
    exact absurd rfl hne
  | cons c cs =>
    by_cases hc : c = sep
    · exact ⟨cs, by rw [hc]⟩
    · rw [splitAt, if_neg hc] at h
      cases hs : splitAt sep cs with
      | nil => exact absurd hs (splitAt_ne_nil sep cs)
      | cons piece pieces =>
        rw [hs] at h
        cases h

theorem splitLines_eq (cs : List Char) : splitLines cs = closeLines (splitAt '\n' cs) := by
  fun_induction splitLines cs with
  | case1 => rfl
  | case2 cs ih =>
    rw [ih, splitAt, if_pos rfl, closeLines_cons (splitAt_ne_nil _ _), dropReturn_nil]
  | case3 cs ih =>
    rw [ih, splitAt, if_neg (by decide), splitAt, if_pos rfl, extendFirst,
      closeLines_cons (splitAt_ne_nil _ _)]
    rfl
  | case4 c cs hfeed hreturn ih =>
    rw [ih, splitAt, if_neg hfeed]
    cases hs : splitAt '\n' cs with
    | nil => exact absurd hs (splitAt_ne_nil _ cs)
    | cons piece pieces =>
      by_cases hpieces : pieces = []
      · subst hpieces
        rfl
      · have hline : piece ≠ [] ∨ c ≠ '\r' := by
          by_contra hboth
          obtain ⟨hpiece, hc⟩ := not_or.mp hboth
          rw [not_not.mp hpiece] at hs
          obtain ⟨rest, hrest⟩ := eq_cons_of_splitAt hs hpieces
          exact hreturn rest (not_not.mp hc) hrest
        rw [extendFirst, closeLines_cons hpieces, closeLines_cons hpieces, extendFirst,
          dropReturn_cons hline]

theorem notMem_of_splitAt {sep : Char} : ∀ piece ∈ splitAt sep cs, sep ∉ piece := by
  induction cs with
  | nil => simp [splitAt]
  | cons c cs ih =>
    by_cases hc : c = sep
    · rw [splitAt, if_pos hc]
      exact List.forall_mem_cons.mpr ⟨List.not_mem_nil, ih⟩
    · rw [splitAt, if_neg hc]
      cases hs : splitAt sep cs with
      | nil => exact absurd hs (splitAt_ne_nil sep cs)
      | cons piece pieces =>
        rw [hs] at ih
        obtain ⟨hpiece, hpieces⟩ := List.forall_mem_cons.mp ih
        exact List.forall_mem_cons.mpr ⟨by simp [Ne.symm hc, hpiece], hpieces⟩

theorem splitAt_of_notMem {sep : Char} (h : sep ∉ cs) : splitAt sep cs = [cs] := by
  induction cs with
  | nil => rfl
  | cons c cs ih =>
    obtain ⟨hc, hcs⟩ := not_or.mp (mt List.mem_cons.mpr h)
    rw [splitAt, if_neg (Ne.symm hc), ih hcs]
    rfl

theorem head_of_splitAt {sep c : Char} (h : splitAt sep (c :: cs) = line :: lines) (hc : c ≠ sep) :
    ∃ rest, line = c :: rest := by
  rw [splitAt, if_neg hc] at h
  cases hs : splitAt sep cs with
  | nil => exact absurd hs (splitAt_ne_nil sep cs)
  | cons first others =>
    rw [hs] at h
    exact ⟨first, (List.cons.inj h).1.symm⟩

/-- Where two texts meet, the last piece of one goes on with the first piece of the other. -/
theorem splitAt_append {sep : Char} {front rest : List (List Char)} {last first : List Char}
    (hcs : splitAt sep cs = front ++ [last]) (hds : splitAt sep ds = first :: rest) :
    splitAt sep (cs ++ ds) = front ++ (last ++ first) :: rest := by
  induction cs generalizing front last with
  | nil =>
    obtain ⟨rfl, rfl⟩ : front = [] ∧ last = [] := by
      cases front with
      | nil => exact ⟨rfl, (List.cons.inj hcs).1.symm⟩
      | cons => simp [splitAt] at hcs
    rw [List.nil_append, hds]
    rfl
  | cons c cs ih =>
    obtain hnil | ⟨inner, tail, hcut⟩ := List.eq_nil_or_concat (splitAt sep cs)
    · exact absurd hnil (splitAt_ne_nil sep cs)
    rw [List.concat_eq_append] at hcut
    rw [List.cons_append, splitAt, ih hcut]
    rw [splitAt, hcut] at hcs
    split at hcs
    · next hc =>
      rw [if_pos hc]
      have hpieces : ([] :: inner) ++ [tail] = front ++ [last] := hcs
      obtain ⟨rfl, hends⟩ := List.append_inj' hpieces rfl
      cases hends
      rfl
    · next hc =>
      rw [if_neg hc]
      cases inner with
      | nil =>
        have hpieces : [] ++ [c :: tail] = front ++ [last] := hcs
        obtain ⟨rfl, hends⟩ := List.append_inj' hpieces rfl
        cases hends
        rfl
      | cons piece inner =>
        have hpieces : ((c :: piece) :: inner) ++ [tail] = front ++ [last] := hcs
        obtain ⟨rfl, hends⟩ := List.append_inj' hpieces rfl
        cases hends
        rfl

theorem intercalate_cons (sep : Char) (h : lines ≠ []) :
    [sep].intercalate (line :: lines) = line ++ sep :: [sep].intercalate lines := by
  cases lines with
  | nil => exact absurd rfl h
  | cons other lines => simp [List.intercalate, List.intersperse]

/-- Cutting takes apart what a separator joins, if no piece has one inside. -/
theorem splitAt_intercalate {sep : Char} (hne : lines ≠ []) (h : ∀ l ∈ lines, sep ∉ l) :
    splitAt sep ([sep].intercalate lines) = lines := by
  induction lines with
  | nil => exact absurd rfl hne
  | cons line lines ih =>
    obtain ⟨hline, hlines⟩ := List.forall_mem_cons.mp h
    by_cases hempty : lines = []
    · subst hempty
      have hjoin : [sep].intercalate [line] = line := by simp [List.intercalate]
      rw [hjoin, splitAt_of_notMem hline]
    · rw [intercalate_cons sep hempty, splitAt_append_cons, splitAt_of_notMem hline,
        ih hempty hlines]
      rfl

theorem joinLines_cons (h : lines ≠ []) :
    joinLines (line :: lines) = line ++ '\n' :: joinLines lines :=
  intercalate_cons '\n' h

theorem splitAt_joinLines (hne : lines ≠ []) (h : ∀ l ∈ lines, '\n' ∉ l) :
    splitAt '\n' (joinLines lines) = lines :=
  splitAt_intercalate hne h

theorem splitLines_joinLines (hne : lines ≠ []) (h : ∀ l ∈ lines, '\n' ∉ l) :
    splitLines (joinLines lines) = closeLines lines := by
  rw [splitLines_eq, splitAt_joinLines hne h]

theorem mem_of_mem_dropReturn {c : Char} (h : c ∈ dropReturn line) : c ∈ line :=
  (prefix_dropReturn line).subset h

theorem mem_closeLines (h : line ∈ closeLines lines) : ∃ l ∈ lines, line = l ∨ line = dropReturn l := by
  induction lines with
  | nil => cases h
  | cons first lines ih =>
    by_cases hempty : lines = []
    · subst hempty
      exact ⟨first, List.mem_cons_self, .inl (List.mem_singleton.mp h)⟩
    · rw [closeLines_cons hempty] at h
      rcases List.mem_cons.mp h with rfl | h
      · exact ⟨first, List.mem_cons_self, .inr rfl⟩
      · obtain ⟨l, hl, hline⟩ := ih h
        exact ⟨l, List.mem_cons_of_mem _ hl, hline⟩

theorem mem_of_mem_splitAt {sep c : Char} (hline : line ∈ splitAt sep cs) (hc : c ∈ line) :
    c ∈ cs := by
  have hflat := List.mem_flatten_of_mem hline hc
  rw [flatten_splitAt] at hflat
  exact List.mem_of_mem_filter hflat

theorem mem_of_mem_splitLines {c : Char} (hline : line ∈ splitLines cs) (hc : c ∈ line) :
    c ∈ cs := by
  rw [splitLines_eq] at hline
  obtain ⟨l, hl, rfl | rfl⟩ := mem_closeLines hline
  · exact mem_of_mem_splitAt hl hc
  · exact mem_of_mem_splitAt hl (mem_of_mem_dropReturn hc)

theorem mem_joinLines {c : Char} (h : c ∈ joinLines lines) : c = '\n' ∨ ∃ l ∈ lines, c ∈ l := by
  induction lines with
  | nil => cases h
  | cons line lines ih =>
    by_cases hempty : lines = []
    · subst hempty
      have hjoin : joinLines [line] = line := by simp [joinLines, List.intercalate]
      exact .inr ⟨line, List.mem_cons_self, hjoin ▸ h⟩
    · rw [joinLines_cons hempty, List.mem_append, List.mem_cons] at h
      rcases h with hline | rfl | hrest
      · exact .inr ⟨line, List.mem_cons_self, hline⟩
      · exact .inl rfl
      · exact (ih hrest).imp id fun ⟨l, hl, hc⟩ => ⟨l, List.mem_cons_of_mem _ hl, hc⟩

theorem notMem_of_splitLines : ∀ l ∈ splitLines cs, '\n' ∉ l := by
  intro l hl hfeed
  rw [splitLines_eq] at hl
  obtain ⟨piece, hpiece, rfl | rfl⟩ := mem_closeLines hl
  · exact notMem_of_splitAt _ hpiece hfeed
  · exact notMem_of_splitAt _ hpiece (mem_of_mem_dropReturn hfeed)

theorem splitLines_ne_nil (cs : List Char) : splitLines cs ≠ [] := by
  rw [splitLines_eq]
  cases hs : splitAt '\n' cs with
  | nil => exact absurd hs (splitAt_ne_nil _ cs)
  | cons piece pieces =>
    cases pieces with
    | nil => exact List.cons_ne_nil _ _
    | cons => exact List.cons_ne_nil _ _

theorem splitLines_cons {c : Char} (hfeed : c ≠ '\n') (hreturn : c ≠ '\r') (cs : List Char) :
    splitLines (c :: cs) = extendFirst c (splitLines cs) := by
  rw [splitLines]
  · exact fun h => hfeed h
  · exact fun _ h _ => hreturn h

theorem head_of_splitLines {c : Char} (h : splitLines cs = (c :: line) :: lines) :
    cs.head? = some c := by
  revert h
  fun_cases splitLines cs with
  | case1 => nofun
  | case2 => nofun
  | case3 => nofun
  | case4 d ds =>
    intro h
    cases hs : splitLines ds with
    | nil => exact absurd hs (splitLines_ne_nil ds)
    | cons =>
      rw [hs] at h
      cases h
      rfl

/-! ## Rows -/

theorem splitLines_append_feed (cs ds : List Char) :
    splitLines (cs ++ '\n' :: ds) = (splitAt '\n' cs).map dropReturn ++ splitLines ds := by
  rw [splitLines_eq, splitAt_append_cons, closeLines_append (splitAt_ne_nil _ _), ← splitLines_eq]

theorem rows_feed (cs : List Char) : rows (cs ++ ['\n']) = (splitAt '\n' cs).map dropReturn := by
  rw [rows, splitLines_append_feed]
  exact List.dropLast_concat

/-- Lines that have ended come first. -/
theorem splitLines_append (h : Complete cs) : splitLines (cs ++ ds) = rows cs ++ splitLines ds := by
  rcases h with rfl | ⟨body, rfl⟩
  · rfl
  · rw [rows_feed, List.append_assoc, List.singleton_append, splitLines_append_feed]

theorem rows_append (h : Complete cs) : rows (cs ++ ds) = rows cs ++ rows ds := by
  rw [rows, splitLines_append h, List.dropLast_append_of_ne_nil (splitLines_ne_nil ds), ← rows]

theorem rows_line (h : '\n' ∉ line) : rows (line ++ ['\n']) = [dropReturn line] := by
  rw [rows_feed, splitAt_of_notMem h, List.map_singleton]

/-- The pieces with their separators are the text. -/
theorem eq_of_splitAt {sep : Char} (h : splitAt sep cs = lines ++ [line]) :
    cs = lines.flatMap (· ++ [sep]) ++ line := by
  induction cs generalizing lines line with
  | nil =>
    cases lines with
    | nil => cases h; rfl
    | cons first lines => simp [splitAt] at h
  | cons c cs ih =>
    by_cases hc : c = sep
    · rw [splitAt, if_pos hc] at h
      cases lines with
      | nil => exact absurd (List.cons.inj h).2 (splitAt_ne_nil sep cs)
      | cons first lines =>
        obtain ⟨rfl, hlines⟩ := List.cons.inj h
        rw [ih hlines, hc]
        rfl
    · rw [splitAt, if_neg hc] at h
      cases hs : splitAt sep cs with
      | nil => exact absurd hs (splitAt_ne_nil sep cs)
      | cons piece pieces =>
        rw [hs] at h ih
        cases lines with
        | nil =>
          obtain ⟨rfl, rfl⟩ := List.cons.inj h
          rw [@ih piece [] rfl]
          rfl
        | cons first lines =>
          obtain ⟨rfl, rfl⟩ := List.cons.inj h
          rw [@ih line (piece :: lines) rfl]
          rfl

/-- The lines of a text are the rows that ending the last one gives. -/
theorem splitLines_eq_rows (h : cs.getLast? ≠ some '\r') : splitLines cs = rows (cs ++ ['\n']) := by
  rw [rows_feed, splitLines_eq]
  refine closeLines_eq_map fun last hlast hreturn => h ?_
  obtain ⟨front, hfront⟩ := List.getLast?_eq_some_iff.mp hlast
  rw [eq_of_splitAt hfront, List.getLast?_append, hreturn]
  rfl

theorem Complete.append (hcs : Complete cs) (hds : Complete ds) : Complete (cs ++ ds) := by
  rcases hds with rfl | ⟨body, rfl⟩
  · rwa [List.append_nil]
  · exact .inr ⟨cs ++ body, (List.append_assoc _ _ _).symm⟩

theorem Complete.flatMap {α : Type} {f : α → List Char} (h : ∀ x, Complete (f x)) (xs : List α) :
    Complete (xs.flatMap f) := by
  induction xs with
  | nil => exact .inl rfl
  | cons x xs ih =>
    rw [List.flatMap_cons]
    exact (h x).append ih

theorem rows_flatMap {α : Type} {f : α → List Char} (h : ∀ x, Complete (f x)) (xs : List α) :
    rows (xs.flatMap f) = xs.flatMap fun x => rows (f x) := by
  induction xs with
  | nil => rfl
  | cons x xs ih => rw [List.flatMap_cons, rows_append (h x), ih, List.flatMap_cons]

end ApiContract.Text

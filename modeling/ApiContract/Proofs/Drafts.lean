import ApiContract.Proofs.Comments

/-!
The module before layout, line by line: a notice, the import of the schema library, and sections. A
client stands around its summary, and only the summary can be taken out of it.
-/

namespace ApiContract.Module

def notice : String := "/* This file was auto-generated. Do not edit it directly. */"

def heading : String := "/* ZOD SCHEMAS */"

/-- The line that imports the schema library. -/
def libraryLine (mark : Text.QuoteMark) : String :=
  "import \x7b z \x7d from " ++ Text.quote mark "zod" ++ ";"

/-- What all modules begin with. -/
def opening (mark : Text.QuoteMark) : List Char :=
  (notice ++ "\n").toList ++ ((libraryLine mark ++ "\n").toList ++ ("\n".toList ++
    (heading ++ "\n" ++ "\n").toList))

/-- What stands below the heading of the schemas. -/
def sections (mark : Text.QuoteMark) (c : Content) : List Char :=
  (String.join (c.schemas.map constText)).toList ++ ("/* TYPES */\n\n".toList ++
    ((String.join (c.schemas.map typeText)).toList ++
      ((if c.includesHandlers then serverSection c.handlers else "").toList ++
        (if c.includesClients then clientSection mark c.clients else "").toList)))

theorem draft_eq (mark : Text.QuoteMark) (c : Content) :
    (draft mark c).toList = opening mark ++ sections mark c := by
  have hnotice : "/* This file was auto-generated. Do not edit it directly. */\n" = notice ++ "\n" := by
    decide
  have hfeeds : ";\n\n" = ";" ++ ("\n" ++ "\n") := by decide
  have hheading : "/* ZOD SCHEMAS */\n\n" = heading ++ "\n" ++ "\n" := by decide
  unfold draft schemaSection opening libraryLine sections
  generalize String.join (c.schemas.map constText) = consts
  generalize String.join (c.schemas.map typeText) = types
  generalize Text.quote mark "zod" = library
  generalize (if c.includesHandlers then serverSection c.handlers else "") = server
  generalize (if c.includesClients then clientSection mark c.clients else "") = client
  rw [hnotice, hfeeds, hheading]
  simp only [String.toList_append, List.append_assoc]

/-! ## How a draft ends -/

theorem toList_join_map {α : Type} (f : α → String) (xs : List α) :
    (String.join (xs.map f)).toList = xs.flatMap fun x => (f x).toList := by
  rw [String.toList_join, List.flatMap_map]

theorem suffix_join {α : Type} {f : α → String} {suffix : List Char}
    (h : ∀ x, suffix <:+ (f x).toList) {xs : List α} (hne : xs ≠ []) :
    suffix <:+ (String.join (xs.map f)).toList := by
  obtain ⟨front, last, rfl⟩ := (List.eq_nil_or_concat' xs).resolve_left hne
  rw [toList_join_map, List.flatMap_append, List.flatMap_singleton]
  exact (h last).trans (List.suffix_append _ _)

theorem suffix_append {t u : String} {suffix : List Char} (h : suffix <:+ u.toList) :
    suffix <:+ (t ++ u).toList := by
  rw [String.toList_append]
  exact h.trans (List.suffix_append _ _)

/-- A draft ends with a line that is not blank, and with its declarations if there are any. -/
theorem sections_ended (mark : Text.QuoteMark) (c : Content) : ∃ body last blanks,
    sections mark c = body ++ [last] ++ '\n' :: blanks ∧ Text.isBlank last = false ∧
      Text.allBlank blanks = true ∧ (c.handlers ≠ [] ∨ c.clients ≠ [] → blanks = []) := by
  have hsemicolon : ";\n".toList <:+ sections mark c → ∃ body last blanks,
      sections mark c = body ++ [last] ++ '\n' :: blanks ∧ Text.isBlank last = false ∧
        Text.allBlank blanks = true ∧ (c.handlers ≠ [] ∨ c.clients ≠ [] → blanks = []) := by
    rintro ⟨body, hbody⟩
    refine ⟨body, ';', [], ?_, by decide, by decide, fun _ => rfl⟩
    rw [← hbody, List.append_assoc]
    rfl
  have hdeclared : (if c.includesHandlers then serverSection c.handlers else "").toList ++
      (if c.includesClients then clientSection mark c.clients else "").toList <:+
        sections mark c :=
    ((List.suffix_append _ _).trans (List.suffix_append _ _)).trans (List.suffix_append _ _)
  by_cases hclients : c.clients = []
  · by_cases hhandlers : c.handlers = []
    · by_cases hschemas : c.schemas = []
      · have hdeclared : c.handlers ≠ [] ∨ c.clients ≠ [] → ['\n'] = [] := fun h =>
          h.elim (absurd hhandlers) (absurd hclients)
        refine ⟨"/* TYPES *".toList, '/', ['\n'], ?_, by decide, by decide, hdeclared⟩
        rw [sections, Content.includesHandlers, Content.includesClients, hclients, hhandlers,
          hschemas]
        rfl
      · refine hsemicolon ?_
        have htypes : ";\n".toList <:+ (String.join (c.schemas.map typeText)).toList :=
          suffix_join (fun s => suffix_append (List.suffix_refl _)) hschemas
        rw [sections, Content.includesHandlers, Content.includesClients, hclients, hhandlers]
        refine ((List.IsSuffix.trans ?_ (List.suffix_append _ _)).trans (List.suffix_append _ _))
        simpa using htypes
    · refine hsemicolon ?_
      have hincluded : c.includesHandlers = true := by simpa [Content.includesHandlers] using hhandlers
      have hhandlerTexts : ";\n".toList <:+ (serverSection c.handlers).toList :=
        suffix_append (suffix_join (fun h => suffix_append (List.suffix_refl _)) hhandlers)
      rw [if_pos hincluded, Content.includesClients, hclients] at hdeclared
      exact List.IsSuffix.trans (by simpa using hhandlerTexts) hdeclared
  · refine hsemicolon ?_
    have hincluded : c.includesClients = true := by simpa [Content.includesClients] using hclients
    have hend : ";\n".toList <:+ "\x7d;\n".toList := by decide
    have hclientTexts : ";\n".toList <:+ (clientSection mark c.clients).toList :=
      suffix_append (suffix_join (fun k => suffix_append hend) hclients)
    rw [if_pos hincluded] at hdeclared
    exact hclientTexts.trans ((List.suffix_append _ _).trans hdeclared)

/-! ## The lines of a draft -/

theorem strip_of_ends {cs blanks : List Char} {first last : Char}
    (hfirst : cs.head? = some first) (hfirstBlank : Text.isBlank first = false)
    (hlast : cs.getLast? = some last) (hlastBlank : Text.isBlank last = false)
    (hblanks : Text.allBlank blanks = true) : Text.strip (cs ++ blanks) = cs := by
  rw [Text.strip_append_right hblanks, Text.strip, Text.stripWhere]
  obtain ⟨rest, rfl⟩ := List.head?_eq_some_iff.mp hfirst
  rw [List.dropWhile_cons_of_neg (by simp [hfirstBlank])]
  obtain ⟨front, hfront⟩ := List.getLast?_eq_some_iff.mp hlast
  rw [hfront, List.reverse_append, List.reverse_singleton, List.singleton_append,
    List.dropWhile_cons_of_neg (by simp [hlastBlank])]
  simp

theorem complete_line (s : String) : Text.Complete (s ++ "\n").toList := by
  rw [String.toList_append]
  exact .inr ⟨_, rfl⟩

theorem complete_append {s t : String} (hs : Text.Complete s.toList) (ht : Text.Complete t.toList) :
    Text.Complete (s ++ t).toList := by
  rw [String.toList_append]
  exact hs.append ht

theorem complete_join {α : Type} {f : α → String} (h : ∀ x, Text.Complete (f x).toList)
    (xs : List α) : Text.Complete (String.join (xs.map f)).toList := by
  rw [toList_join_map]
  exact Text.Complete.flatMap h xs

/-- A text whose last line is complete. -/
def EndsLine (text : String) : Prop := ∃ body, text = body ++ "\n"

theorem EndsLine.append {text : String} (h : EndsLine text) (before : String) :
    EndsLine (before ++ text) := by
  obtain ⟨body, rfl⟩ := h
  exact ⟨before ++ body, String.append_assoc.symm⟩

theorem endsLine_unlines {lines : List String} (h : lines ≠ []) : EndsLine (unlines lines) := by
  induction lines with
  | nil => exact absurd rfl h
  | cons l ls ih =>
    rw [unlines, List.map_cons, String.join_cons]
    cases ls with
    | nil => exact ⟨l, by rw [List.map_nil, String.join_nil, String.append_empty]⟩
    | cons _ _ => exact (ih (List.cons_ne_nil _ _)).append _

theorem complete_of_endsLine {s : String} (h : EndsLine s) : Text.Complete s.toList := by
  obtain ⟨body, rfl⟩ := h
  exact complete_line body

theorem complete_constText (s : SchemaText) : Text.Complete (constText s).toList :=
  complete_of_endsLine (.append ⟨";\n", rfl⟩ _)

theorem complete_typeText (s : SchemaText) : Text.Complete (typeText s).toList :=
  complete_of_endsLine (.append ⟨";", rfl⟩ _)

theorem complete_handlerText (h : HandlerDeclaration) : Text.Complete (handlerText h).toList :=
  complete_of_endsLine (.append ⟨";", rfl⟩ _)

theorem rows_line {s : String} (h : '\n' ∉ s.toList) :
    Text.rows (s ++ "\n").toList = [Text.dropReturn s.toList] := by
  rw [String.toList_append]
  exact Text.rows_line h

theorem complete_opening (mark : Text.QuoteMark) : Text.Complete (opening mark) :=
  (complete_line _).append ((complete_line _).append
    ((complete_line "").append (complete_line (heading ++ "\n"))))

theorem rows_opening (options : Options) : Text.rows (opening options.mark) =
    [notice.toList, (libraryLine options.mark).toList, [], heading.toList, []] := by
  have hnotice : '\n' ∉ notice.toList ∧ Text.dropReturn notice.toList = notice.toList := by
    decide
  have hlibrary : ∀ style : QuoteStyle, '\n' ∉ (libraryLine style.mark).toList ∧
      Text.dropReturn (libraryLine style.mark).toList = (libraryLine style.mark).toList := by
    intro style
    cases style <;> decide
  obtain ⟨hfeed, hreturn⟩ : '\n' ∉ (libraryLine options.mark).toList ∧
      Text.dropReturn (libraryLine options.mark).toList = (libraryLine options.mark).toList :=
    hlibrary options.quoteStyle
  have hrest : Text.rows ("\n".toList ++ (heading ++ "\n" ++ "\n").toList) =
      [[], heading.toList, []] := by
    decide
  rw [opening, Text.rows_append (complete_line _), Text.rows_append (complete_line _), hrest,
    rows_line hnotice.1, hnotice.2, rows_line hfeed, hreturn]
  rfl

/-- The lines of a draft, those of its opening first. A last line that is blank goes. -/
theorem lines_eq (options : Options) (c : Content) : ∃ body last blanks,
    sections options.mark c = body ++ [last] ++ '\n' :: blanks ∧ Text.isBlank last = false ∧
      (c.handlers ≠ [] ∨ c.clients ≠ [] → blanks = []) ∧
      Text.splitLines (Text.strip (draft options.mark c).toList) =
        Text.rows (opening options.mark) ++ Text.splitLines (body ++ [last]) := by
  obtain ⟨body, last, blanks, hsections, hlast, hblanks, hdeclared⟩ :=
    sections_ended options.mark c
  refine ⟨body, last, blanks, hsections, hlast, hdeclared, ?_⟩
  have hdraft : (draft options.mark c).toList =
      (opening options.mark ++ (body ++ [last])) ++ '\n' :: blanks := by
    rw [draft_eq, hsections]
    simp only [List.append_assoc]
  have hfeed : Text.allBlank ('\n' :: blanks) = true := by
    rw [Text.allBlank, List.all_cons, ← Text.allBlank, hblanks]
    rfl
  have hend : (opening options.mark ++ (body ++ [last])).getLast? = some last := by
    rw [← List.append_assoc]
    exact List.getLast?_concat
  have hfirst : (opening options.mark ++ (body ++ [last])).head? = some '/' := by
    have hnotice : (notice ++ "\n").toList.head? = some '/' := by decide
    rw [opening, List.append_assoc, List.head?_append, hnotice]
    rfl
  rw [hdraft, strip_of_ends hfirst (by decide) hend hlast hfeed,
    Text.splitLines_append (complete_opening _)]

namespace Content

variable {options : Options} {c : Content}

/-- The lines below the notice. -/
def lines (mark : Text.QuoteMark) (c : Content) : List (List Char) :=
  (Text.splitLines (Text.strip (draft mark c).toList)).drop 1

/-- The lines below the heading of the schemas. -/
def rest (mark : Text.QuoteMark) (c : Content) : List (List Char) :=
  (Text.splitLines (Text.strip (draft mark c).toList)).drop 4

theorem splitLines_eq_cons (options : Options) (c : Content) :
    Text.splitLines (Text.strip (draft options.mark c).toList) =
      notice.toList :: c.lines options.mark := by
  obtain ⟨body, last, _, _, _, _, hlines⟩ := lines_eq options c
  rw [lines, hlines, rows_opening]
  rfl

theorem lines_eq_cons (options : Options) (c : Content) : c.lines options.mark =
    (libraryLine options.mark).toList :: [] :: heading.toList :: c.rest options.mark := by
  obtain ⟨body, last, _, _, _, _, hlines⟩ := lines_eq options c
  rw [lines, rest, hlines, rows_opening]
  rfl

theorem exists_rest_eq (options : Options) (c : Content) : ∃ blanks,
    (c.handlers ≠ [] ∨ c.clients ≠ [] → blanks = []) ∧
      [] :: Text.rows (sections options.mark c) = c.rest options.mark ++ Text.rows blanks := by
  obtain ⟨body, last, blanks, hsections, hlast, hblanks, hlines⟩ := lines_eq options c
  have hreturn : (body ++ [last]).getLast? ≠ some '\r' := by
    rw [List.getLast?_concat]
    rintro ⟨⟩
    cases hlast
  have hparts : sections options.mark c = (body ++ [last] ++ ['\n']) ++ blanks := by
    rw [hsections, List.append_assoc (body ++ [last])]
    rfl
  refine ⟨blanks, hblanks, ?_⟩
  rw [rest, hlines, rows_opening, Text.splitLines_eq_rows hreturn, hparts,
    Text.rows_append (.inr ⟨_, rfl⟩)]
  rfl

/-- The lines below the heading are those of the sections. -/
theorem rest_eq_rows (h : c.handlers ≠ [] ∨ c.clients ≠ []) :
    c.rest options.mark = [] :: Text.rows (sections options.mark c) := by
  obtain ⟨blanks, hblanks, hrest⟩ := exists_rest_eq options c
  rw [hrest, hblanks h, Text.rows, Text.splitLines]
  exact (List.append_nil _).symm

theorem mem_rows_of_mem_rest {l : List Char} (h : l ∈ c.rest options.mark) :
    l = [] ∨ l ∈ Text.rows (sections options.mark c) := by
  obtain ⟨blanks, _, hrest⟩ := exists_rest_eq options c
  rw [← List.mem_cons, hrest]
  exact List.mem_append_left _ h

end Content

theorem isImport_libraryLine (options : Options) :
    Layout.isImport (libraryLine options.mark).toList = true := by
  have hall : ∀ style : QuoteStyle, Layout.isImport (libraryLine style.mark).toList = true := by
    intro style
    cases style <;> decide
  exact hall options.quoteStyle

theorem lead_append_text {s : String} {c : Char} (h : Text.lead s.toList = some c) (t : String) :
    Text.lead (s ++ t).toList = some c := by
  rw [String.toList_append]
  exact Text.lead_append h _

theorem lead_libraryLine (mark : Text.QuoteMark) :
    Text.lead (libraryLine mark).toList = some 'i' :=
  lead_append_text (lead_append_text (by decide) _) _

/-- Below the imports stand the heading of the schemas and all lines below it that are no imports. -/
theorem others_lines (options : Options) (c : Content) : Layout.others (c.lines options.mark) =
    heading.toList :: (c.rest options.mark).filter (!Layout.isImport ·) := by
  have hheading : (!Layout.isImport heading.toList) = true ∧
      ¬ Text.allBlank heading.toList = true := by
    decide
  rw [Content.lines_eq_cons, Layout.others,
    List.filter_cons_of_neg (by simp [isImport_libraryLine]),
    List.filter_cons_of_pos (by decide), List.filter_cons_of_pos (p := (!Layout.isImport ·)) hheading.1,
    List.dropWhile_cons_of_pos (by decide), List.dropWhile_cons_of_neg hheading.2]

/-- A module is its notice, its imports, a blank line and the rest. -/
theorem toList_text (options : Options) (c : Content) : (text options c).toList =
    (notice.toList :: (Layout.importBlock (c.lines options.mark) ++
      [] :: Layout.body options.indentation (c.lines options.mark))).flatMap
        (· ++ options.lineEnding.text.toList) := by
  have hnotice : Layout.isComment notice.toList = true ∧ Text.dropReturn notice.toList = notice.toList ∧
      notice.toList.head? = some '/' := by
    decide
  obtain ⟨hcomment, hreturn, hhead⟩ := hnotice
  rw [text, Layout.format, String.toList_ofList]
  refine Layout.formatChars_eq (Content.splitLines_eq_cons options c) hcomment ?_ ?_ ?_ ?_
  · rw [Layout.finish, hreturn]
    refine Layout.reindentLine_of_head fun first hfirst => ?_
    rw [hhead] at hfirst
    cases hfirst
    decide
  · intro second hsecond
    rw [Content.lines_eq_cons] at hsecond
    rw [← Option.some.inj hsecond]
    exact Layout.isComment_of_lead (by rw [lead_libraryLine]; decide)
  · rw [Content.lines_eq_cons, List.any_cons, isImport_libraryLine]
    rfl
  · rw [others_lines]
    exact List.cons_ne_nil _ _

/-! ## The lines of a client -/

/-- The member of an arguments type, if there is one. -/
def memberLines (name : String) (type : Option String) : List String :=
  ((given? type).map fun t => "  " ++ name ++ ": " ++ t ++ ";").toList

/-- The lines of a client before its summary. -/
def argsLines (k : ClientDeclaration) : List String :=
  ["", "export interface " ++ k.argsName ++ " \x7b", "  baseUrl?: string;"] ++
    (memberLines "params" k.types.pathParams ++ (memberLines "query" k.types.queryParams ++
      memberLines (if k.bodyRequired then "body" else "body?") k.types.request)) ++
    ["  headers?: Record<string, string>;", "\x7d", ""]

/-- The lines of a client after its summary. -/
def callLines (mark : Text.QuoteMark) (k : ClientDeclaration) : List String :=
  ["export const " ++ k.name ++ " = (args: " ++ k.argsName ++ ") => \x7b",
    "  return httpRequest" ++ typeArguments k.types ++ "(\x7b",
    "    ...args,",
    "    baseUrl: args.baseUrl ?? " ++ Text.quote mark k.baseUrl ++ ",",
    "    path: " ++ Text.quote mark k.path ++ ",",
    "    method: " ++ Text.quote mark k.method ++ ",",
    "  \x7d);",
    "\x7d;"]

theorem unlines_cons (line : String) (lines : List String) :
    unlines (line :: lines) = line ++ ("\n" ++ unlines lines) := by
  rw [unlines, List.map_cons, String.join_cons, String.append_assoc, unlines]

theorem unlines_nil : unlines [] = "" := rfl

theorem unlines_append (lines more : List String) :
    unlines (lines ++ more) = unlines lines ++ unlines more := by
  rw [unlines, List.map_append, String.join_append, unlines, unlines]

theorem memberText_eq (name : String) (type : Option String) :
    memberText name type = unlines (memberLines name type) := by
  have hend : ";\n" = ";" ++ "\n" := by decide
  unfold memberText memberLines
  cases given? type with
  | none => rfl
  | some t =>
    simp only [hend, Option.map_some, Option.toList_some, unlines_cons, String.append_assoc]
    rfl

theorem argsText_eq (k : ClientDeclaration) :
    "\n" ++ argsText k ++ "\n" = unlines (argsLines k) := by
  have hbrace : " \x7b\n" = " \x7b" ++ "\n" := by decide
  have hbase : "  baseUrl?: string;\n" = "  baseUrl?: string;" ++ "\n" := by decide
  have hheaders : "  headers?: Record<string, string>;\n" =
    "  headers?: Record<string, string>;" ++ "\n" := by decide
  have hend : "\x7d\n" = "\x7d" ++ "\n" := by decide
  unfold argsText argsLines
  simp only [hbrace, hbase, hheaders, hend, memberText_eq, unlines_append,
    unlines_cons, unlines_nil, String.append_assoc, String.empty_append, String.append_empty]

theorem clientText_eq (mark : Text.QuoteMark) (k : ClientDeclaration) : clientText mark k =
    unlines (argsLines k) ++ (summaryText k.summary ++ unlines (callLines mark k)) := by
  have hbody : ") => \x7b\n" = ") => \x7b" ++ "\n" := by decide
  have hcall : "(\x7b\n" = "(\x7b" ++ "\n" := by decide
  have hargs : "    ...args,\n" = "    ...args," ++ "\n" := by decide
  have hcomma : ",\n" = "," ++ "\n" := by decide
  have hparen : "  \x7d);\n" = "  \x7d);" ++ "\n" := by decide
  have hend : "\x7d;\n" = "\x7d;" ++ "\n" := by decide
  unfold clientText callLines
  rw [argsText_eq]
  simp only [hbody, hcall, hargs, hcomma, hparen, hend, unlines_cons, unlines_nil,
    String.append_assoc, String.append_empty]

/-! ## The lines that never change -/

/-- A text of the characters of ASCII that are printed. -/
def Ascii (s : String) : Prop := ∀ c ∈ s.toList, 32 ≤ c.toNat ∧ c.toNat < 127

theorem ascii_ofList {cs : List Char}
    (h : (cs.all fun c => 32 ≤ c.toNat && c.toNat < 127) = true) : Ascii (String.ofList cs) := by
  rw [Ascii, String.toList_ofList]
  simpa using h

theorem Ascii.notMem {s : String} (h : Ascii s) {c : Char} (hc : c.toNat < 32 ∨ 127 ≤ c.toNat) :
    c ∉ s.toList := by
  intro hmem
  obtain ⟨hlow, hhigh⟩ := h c hmem
  omega

theorem ascii_serverLines : ∀ l ∈ serverLines, Ascii l := by
  rw [serverLines]
  repeat refine List.forall_mem_cons.mpr ⟨ascii_ofList (by decide), ?_⟩
  exact List.forall_mem_nil _

theorem ascii_clientLines : ∀ l ∈ clientLines, Ascii l := by
  rw [clientLines]
  repeat refine List.forall_mem_cons.mpr ⟨ascii_ofList (by decide), ?_⟩
  exact List.forall_mem_nil _

end ApiContract.Module

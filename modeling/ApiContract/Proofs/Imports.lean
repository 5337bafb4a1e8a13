import ApiContract.Proofs.CatalogSound
import ApiContract.Proofs.Identifiers
import ApiContract.Proofs.Printing
import ApiContract.Proofs.Summaries

/-!
The imports of a module without summaries. No line of a printed validator, a declaration or a fixed
part looks like an import, but for the two that are; a name could only make one with a line end in
it.
-/

namespace ApiContract

/-! ## Texts without imports -/

/-- No row of a text is an import. -/
def Still (cs : List Char) : Prop := ∀ l ∈ Text.rows cs, Layout.isImport l = false

instance (cs : List Char) : Decidable (Still cs) :=
  inferInstanceAs (Decidable (∀ l ∈ Text.rows cs, Layout.isImport l = false))

theorem Still.append {cs ds : List Char} (h : Text.Complete cs) (hcs : Still cs) (hds : Still ds) :
    Still (cs ++ ds) := by
  rw [Still, Text.rows_append h]
  exact List.forall_mem_append.mpr ⟨hcs, hds⟩

theorem still_join {α : Type} {f : α → String} (hcomplete : ∀ x, Text.Complete (f x).toList)
    {xs : List α} (h : ∀ x ∈ xs, Still (f x).toList) : Still (String.join (xs.map f)).toList := by
  rw [Module.toList_join_map, Still, Text.rows_flatMap hcomplete]
  exact List.forall_mem_flatMap.mpr h

theorem isImport_dropReturn (line : List Char) :
    Layout.isImport (Text.dropReturn line) = Layout.isImport line := by
  rw [Layout.isImport, Text.strip_dropReturn, Layout.isImport]

/-- A text on one line that is no import. -/
structure PlainLine (s : String) : Prop where
  oneLine : OneLine s
  still : Layout.isImport s.toList = false

theorem plainLine_ofList {cs : List Char} (h : '\n' ∉ cs ∧ Layout.isImport cs = false) :
    PlainLine (String.ofList cs) := by
  refine ⟨oneLine_ofList h.1, ?_⟩
  rw [String.toList_ofList]
  exact h.2

theorem still_line {s : String} (h : PlainLine s) : Still (s ++ "\n").toList := by
  rw [Still, Module.rows_line h.oneLine]
  refine List.forall_mem_singleton.mpr ?_
  rw [isImport_dropReturn]
  exact h.still

theorem still_unlines {lines : List String} (h : ∀ l ∈ lines, PlainLine l) :
    Still (Module.unlines lines).toList :=
  still_join Module.complete_line fun l hl => still_line (h l hl)

/-- What stands first in a line keeps it from being an import. -/
theorem plainLine_append {s t : String} {c : Char} (hs : OneLine s) (ht : OneLine t)
    (hlead : Text.lead s.toList = some c) (hc : c ≠ 'i') : PlainLine (s ++ t) := by
  refine ⟨hs.append ht, Layout.isImport_of_lead ?_⟩
  rw [Module.lead_append_text hlead]
  exact fun hi => hc (Option.some.inj hi)

theorem opens_piece {cs piece : List Char} {pieces : List (List Char)} (h : Text.Opens cs)
    (hpieces : Text.splitAt '\n' cs = piece :: pieces) : Text.Opens piece := by
  obtain ⟨n, first, rest, rfl, hfirst⟩ := h
  have hfeed : first ≠ '\n' := by
    rintro rfl
    revert hfirst
    decide
  induction n generalizing piece with
  | zero =>
    rw [List.replicate_zero, List.nil_append, Text.splitAt, if_neg hfeed] at hpieces
    cases hs : Text.splitAt '\n' rest with
    | nil => exact absurd hs (Text.splitAt_ne_nil _ rest)
    | cons more others =>
      rw [hs] at hpieces
      obtain ⟨rfl, _⟩ := List.cons.inj hpieces
      exact ⟨0, first, more, rfl, hfirst⟩
  | succ n ih =>
    rw [List.replicate_succ, List.cons_append, Text.splitAt, if_neg (by decide)] at hpieces
    cases hs : Text.splitAt '\n' (List.replicate n ' ' ++ first :: rest) with
    | nil => exact absurd hs (Text.splitAt_ne_nil _ _)
    | cons more others =>
      rw [hs] at hpieces
      obtain ⟨rfl, rfl⟩ := List.cons.inj hpieces
      obtain ⟨m, c, tail, rfl, hc⟩ := ih hs
      exact ⟨m + 1, c, tail, rfl, hc⟩

theorem opens_tail {cs : List Char}
    (h : ∀ before after, cs = before ++ '\n' :: after → Text.Opens after) :
    ∀ piece ∈ (Text.splitAt '\n' cs).tail, Text.Opens piece := by
  induction cs with
  | nil => exact List.forall_mem_nil _
  | cons c cs ih =>
    have hrest := ih fun before after heq => h (c :: before) after (by rw [heq]; rfl)
    cases hs : Text.splitAt '\n' cs with
    | nil => exact absurd hs (Text.splitAt_ne_nil _ cs)
    | cons piece pieces =>
      rw [hs] at hrest
      rw [Text.splitAt, hs]
      split
      next hfeed =>
        have hopens : Text.Opens cs := h [] cs (by rw [hfeed]; rfl)
        exact List.forall_mem_cons.mpr ⟨opens_piece hopens hs, hrest⟩
      next => exact hrest

theorem isImport_of_opens {cs : List Char} (h : Text.Opens cs) : Layout.isImport cs = false := by
  obtain ⟨n, first, rest, rfl, hfirst⟩ := h
  have hlead : Text.lead (first :: rest) = some first := by
    rw [Text.lead, Text.stripStart, List.dropWhile_cons_of_neg]
    · rfl
    · revert hfirst first
      simp [Text.isBlank, Text.isSpace]
  refine Layout.isImport_of_lead ?_
  rw [Text.lead_append_left (Layout.allBlank_indent n), hlead]
  rintro ⟨⟩
  revert hfirst
  decide

/-- The rows of a text that goes on indented: the first goes on with the first piece of that, and
the others open. -/
theorem rows_of_indented {s t : String} (hs : OneLine s) (ht : Indented t) :
    ∃ (more : List Char) (lines : List (List Char)), Text.splitAt '\n' t.toList = more :: lines ∧
      Text.rows (s ++ t ++ "\n").toList =
          Text.dropReturn (s.toList ++ more) :: lines.map Text.dropReturn ∧
        ∀ l ∈ lines, Text.Opens l := by
  have hfeed : "\n".toList = ['\n'] := rfl
  have hopens := opens_tail ht
  cases hpieces : Text.splitAt '\n' t.toList with
  | nil => exact absurd hpieces (Text.splitAt_ne_nil _ _)
  | cons more lines =>
    rw [hpieces] at hopens
    have hsplit : Text.splitAt '\n' (s.toList ++ t.toList) = [] ++ (s.toList ++ more) :: lines :=
      Text.splitAt_append (Text.splitAt_of_notMem hs) hpieces
    rw [String.toList_append, hfeed, Text.rows_feed, String.toList_append, hsplit]
    exact ⟨more, lines, rfl, rfl, hopens⟩

/-- A text that begins with a word of its own, and is indented, has no imports. -/
theorem still_of_indented {s t : String} {first : Char} (hs : OneLine s)
    (hlead : Text.lead s.toList = some first) (hfirst : first ≠ 'i') (ht : Indented t) :
    Still (s ++ t ++ "\n").toList := by
  obtain ⟨more, lines, _, hrows, hopens⟩ := rows_of_indented hs ht
  rw [Still, hrows]
  refine List.forall_mem_cons.mpr ⟨?_, List.forall_mem_map.mpr fun l hl => ?_⟩
  · rw [isImport_dropReturn]
    refine Layout.isImport_of_lead ?_
    rw [Text.lead_append hlead]
    exact fun hi => hfirst (Option.some.inj hi)
  · rw [isImport_dropReturn]
    exact isImport_of_opens (hopens l hl)

/-! ## The names of a module -/

/-- A name that is written, if it is, stands on one line. -/
def OneLine? (name : Option String) : Prop := ∀ n, name = some n → OneLine n

theorem oneLine_given {name : Option String} (h : OneLine? name) {s : String} (hs : OneLine s) :
    OneLine ((Module.given? name).getD s) := by
  cases hgiven : Module.given? name with
  | none => exact hs
  | some n => exact h n (Option.filter_eq_some_iff.mp hgiven).1

structure SlotTypes.OnLines (t : SlotTypes) : Prop where
  request : OneLine? t.request
  pathParams : OneLine? t.pathParams
  queryParams : OneLine? t.queryParams
  response : OneLine? t.response

namespace Module

/-- What the lines of a schema depend on. -/
structure SchemaText.OnLines (s : SchemaText) : Prop where
  name : OneLine s.name
  const : OneLine s.const
  annotation : OneLine? s.annotation
  code : Indented s.code
  typeCode : ∀ t, s.typeCode = some t → Indented t

/-- What the lines of a module depend on, summaries put aside. -/
structure Content.OnLines (c : Content) : Prop where
  schemas : ∀ s ∈ c.schemas, s.OnLines
  handlers : ∀ h ∈ c.handlers, OneLine h.name ∧ h.types.OnLines
  clients : ∀ k ∈ c.clients, OneLine k.name ∧ OneLine k.argsName ∧ k.types.OnLines

/-! ## The parts of a module -/

/-- What stands behind the name of a constant. -/
def constRest (s : SchemaText) : String :=
  ((given? s.annotation).map (": " ++ ·)).getD "" ++ (" = " ++ (s.code ++ ";"))

/-- What stands behind the name of a type. -/
def typeRest (s : SchemaText) : String :=
  " = " ++ ((given? s.typeCode).getD s!"z.infer<typeof {s.const}>" ++ ";")

/-- What stands behind the name of a handler. -/
def handlerRest (h : HandlerDeclaration) : String := " = Handler" ++ (typeArguments h.types ++ ";")

theorem constText_eq (s : SchemaText) :
    constText s = "export const " ++ s.const ++ constRest s ++ "\n" ++ "\n" := by
  have hend : ";\n\n" = ";" ++ "\n" ++ "\n" := by decide
  unfold constText constRest
  simp only [hend, String.append_assoc]

theorem typeText_eq (s : SchemaText) :
    typeText s = "export type " ++ s.name ++ typeRest s ++ "\n" := by
  have hend : ";\n" = ";" ++ "\n" := by decide
  unfold typeText typeRest
  simp only [hend, String.append_assoc]

theorem handlerText_eq (h : HandlerDeclaration) :
    handlerText h = "export type " ++ h.name ++ handlerRest h ++ "\n" := by
  have hend : ";\n" = ";" ++ "\n" := by decide
  unfold handlerText handlerRest
  simp only [hend, String.append_assoc]

theorem indented_constRest {s : SchemaText} (h : s.OnLines) : Indented (constRest s) := by
  have hnoted : OneLine (((given? s.annotation).map (": " ++ ·)).getD "") := by
    cases hgiven : given? s.annotation with
    | none => exact (by decide : OneLine "")
    | some a =>
      have ha := h.annotation a (Option.filter_eq_some_iff.mp hgiven).1
      exact OneLine.append (by decide) ha
  exact hnoted.indented.append ((OneLine.indented (by decide)).append
    (h.code.append (OneLine.indented (by decide))))

theorem indented_typeRest {s : SchemaText} (h : s.OnLines) : Indented (typeRest s) := by
  have htype : Indented ((given? s.typeCode).getD s!"z.infer<typeof {s.const}>") := by
    cases hgiven : given? s.typeCode with
    | none => exact (OneLine.append (OneLine.append (by decide) h.const) (by decide)).indented
    | some t => exact h.typeCode t (Option.filter_eq_some_iff.mp hgiven).1
  exact (OneLine.indented (by decide)).append (htype.append (OneLine.indented (by decide)))

theorem oneLine_typeArguments {t : SlotTypes} (h : t.OnLines) : OneLine (typeArguments t) := by
  have hcomma : OneLine ", " := by decide
  have hrequest := oneLine_given h.request (s := "undefined") (by decide)
  have hpath := oneLine_given h.pathParams (s := "\x7b\x7d") (by decide)
  have hquery := oneLine_given h.queryParams (s := "\x7b\x7d") (by decide)
  have hresponse := oneLine_given h.response (s := "undefined") (by decide)
  exact ((((((((by decide : OneLine "<").append hrequest).append hcomma).append hpath).append
    hcomma).append hquery).append hcomma).append hresponse).append (by decide)

theorem indented_handlerRest {h : HandlerDeclaration} (htypes : h.types.OnLines) :
    Indented (handlerRest h) :=
  (OneLine.append (by decide) ((oneLine_typeArguments htypes).append (by decide))).indented

/-- A declaration that goes on indented has no imports. -/
theorem still_declaration {start name rest : String} (hstart : OneLine start)
    (hlead : Text.lead start.toList = some 'e') (hname : OneLine name) (hrest : Indented rest) :
    Still (start ++ name ++ rest ++ "\n").toList :=
  still_of_indented (hstart.append hname) (lead_append_text hlead name) (by decide) hrest

theorem still_constText {s : SchemaText} (h : s.OnLines) : Still (constText s).toList := by
  rw [constText_eq, String.toList_append]
  exact Still.append (complete_line _)
    (still_declaration (by decide) (by decide) h.const (indented_constRest h)) (by decide)

theorem still_typeText {s : SchemaText} (h : s.OnLines) : Still (typeText s).toList := by
  rw [typeText_eq]
  exact still_declaration (by decide) (by decide) h.name (indented_typeRest h)

theorem still_handlerText {h : HandlerDeclaration} (hname : OneLine h.name)
    (htypes : h.types.OnLines) : Still (handlerText h).toList := by
  rw [handlerText_eq]
  exact still_declaration (by decide) (by decide) hname (indented_handlerRest htypes)

theorem plainLine_memberLines {name : String} {c : Char} (hname : OneLine name)
    (hlead : Text.lead name.toList = some c) (hc : c ≠ 'i') {type : Option String}
    (htype : OneLine? type) : ∀ l ∈ memberLines name type, PlainLine l := by
  intro l hl
  obtain ⟨t, ht, rfl⟩ := Option.map_eq_some_iff.mp (Option.mem_toList.mp hl)
  have htype := htype t (Option.filter_eq_some_iff.mp ht).1
  have hblank : ("  " ++ name).toList = "  ".toList ++ name.toList := String.toList_append
  have hmember : Text.lead ("  " ++ name).toList = some c := by
    rw [hblank, Text.lead_append_left (by decide), hlead]
  have hline : PlainLine (("  " ++ name) ++ (": " ++ t ++ ";")) :=
    plainLine_append (OneLine.append (by decide) hname)
      ((OneLine.append (by decide) htype).append (by decide)) hmember hc
  simpa only [String.append_assoc] using hline

theorem still_argsLines {k : ClientDeclaration} (hargs : OneLine k.argsName)
    (htypes : k.types.OnLines) : Still (unlines (argsLines k)).toList := by
  have hinterface : PlainLine ("export interface " ++ (k.argsName ++ " \x7b")) :=
    plainLine_append (c := 'e') (by decide) (hargs.append (by decide)) (by decide) (by decide)
  have hbody : ∀ l ∈ memberLines (if k.bodyRequired then "body" else "body?") k.types.request,
      PlainLine l := by
    split
    next => exact plainLine_memberLines (c := 'b') (by decide) (by decide) (by decide) htypes.request
    next => exact plainLine_memberLines (c := 'b') (by decide) (by decide) (by decide) htypes.request
  refine still_unlines ?_
  simp only [argsLines, List.forall_mem_append, List.forall_mem_cons, String.append_assoc]
  refine ⟨⟨⟨plainLine_ofList (by decide), hinterface, plainLine_ofList (by decide),
    List.forall_mem_nil _⟩, ?_, ?_, hbody⟩, plainLine_ofList (by decide),
    plainLine_ofList (by decide), plainLine_ofList (by decide), List.forall_mem_nil _⟩
  · exact plainLine_memberLines (c := 'p') (by decide) (by decide) (by decide) htypes.pathParams
  · exact plainLine_memberLines (c := 'q') (by decide) (by decide) (by decide) htypes.queryParams

theorem still_callLines (options : Options) {k : ClientDeclaration} (hname : OneLine k.name)
    (hargs : OneLine k.argsName) (htypes : k.types.OnLines) :
    Still (unlines (callLines options.mark k)).toList := by
  have hquoted : ∀ s : String, OneLine (Text.quote options.mark s ++ ",") := fun s =>
    (Text.oneLine_quote options.quoteStyle s).append (by decide)
  have hcall := oneLine_typeArguments htypes
  refine still_unlines ?_
  simp only [callLines, List.forall_mem_cons, String.append_assoc]
  refine ⟨?_, ?_, plainLine_ofList (by decide), ?_, ?_, ?_, plainLine_ofList (by decide),
    plainLine_ofList (by decide), List.forall_mem_nil _⟩
  · exact plainLine_append (c := 'e') (by decide) (hname.append (OneLine.append (by decide)
      (hargs.append (by decide)))) (by decide) (by decide)
  · exact plainLine_append (c := 'r') (by decide) (hcall.append (by decide)) (by decide) (by decide)
  · exact plainLine_append (c := 'b') (by decide) (hquoted _) (by decide) (by decide)
  · exact plainLine_append (c := 'p') (by decide) (hquoted _) (by decide) (by decide)
  · exact plainLine_append (c := 'm') (by decide) (hquoted _) (by decide) (by decide)

/-- A client without its summary has no imports. -/
theorem still_undocumented (options : Options) {k : ClientDeclaration} (hname : OneLine k.name)
    (hargs : OneLine k.argsName) (htypes : k.types.OnLines) :
    Still (clientText options.mark k.undocumented).toList := by
  rw [Still, rows_undocumented]
  exact List.forall_mem_append.mpr
    ⟨still_argsLines hargs htypes, still_callLines options hname hargs htypes⟩

/-! ## The imports of a module -/

/-- The line that imports what handler types are written with. -/
def serverLine : String := "import \x7b Request as ExpressRequest \x7d from \"express\";"

/-- The imports that every module has, and those that it has with handlers. -/
def fixedImports (mark : Text.QuoteMark) (handlers : Bool) : List (List Char) :=
  (if handlers then [serverLine.toList] else []) ++ [(libraryLine mark).toList]

theorem filter_of_still {cs : List Char} (h : Still cs) : (Text.rows cs).filter Layout.isImport = [] :=
  List.filter_eq_nil_iff.mpr fun l hl => by simp [h l hl]

/-- What all modules with handlers say before them. -/
def serverHead : String := "\n/* SERVER */\n\n" ++ unlines serverLines ++ "\n"

/-- What all modules with clients say before them. -/
def clientHead : String := "\n/* CLIENT */\n\n" ++ unlines clientLines

theorem complete_serverHead : Text.Complete serverHead.toList := complete_line _

theorem complete_clientHead : Text.Complete clientHead.toList :=
  complete_of_endsLine ((endsLine_unlines (List.cons_ne_nil _ _)).append _)

/-- The import stands first among the lines for handlers. -/
theorem plainLine_serverLines : ∀ l ∈ serverLines.tail, PlainLine l := by
  rw [serverLines, List.tail_cons]
  repeat refine List.forall_mem_cons.mpr ⟨plainLine_ofList (by decide), ?_⟩
  exact List.forall_mem_nil _

theorem plainLine_clientLines : ∀ l ∈ clientLines, PlainLine l := by
  rw [clientLines]
  repeat refine List.forall_mem_cons.mpr ⟨plainLine_ofList (by decide), ?_⟩
  exact List.forall_mem_nil _

theorem filter_append {cs ds : List Char} (h : Text.Complete cs) :
    (Text.rows (cs ++ ds)).filter Layout.isImport =
      (Text.rows cs).filter Layout.isImport ++ (Text.rows ds).filter Layout.isImport := by
  rw [Text.rows_append h, List.filter_append]

theorem filter_serverHead :
    (Text.rows serverHead.toList).filter Layout.isImport = [serverLine.toList] := by
  have hlines : unlines serverLines = (serverLine ++ "\n") ++ unlines serverLines.tail := rfl
  have hhead : Still "\n/* SERVER */\n\n".toList := by decide
  have hcomplete : Text.Complete "\n/* SERVER */\n\n".toList :=
    complete_of_endsLine ⟨"\n/* SERVER */\n", rfl⟩
  have hline : (Text.rows (serverLine ++ "\n").toList).filter Layout.isImport =
      [serverLine.toList] := by
    decide
  have hrest : Still (unlines serverLines.tail ++ "\n").toList := by
    rw [String.toList_append]
    exact .append (complete_unlines _) (still_unlines plainLine_serverLines) (by decide)
  unfold serverHead
  rw [hlines]
  generalize "\n/* SERVER */\n\n" = head at hhead hcomplete
  rw [String.append_assoc, String.append_assoc, String.toList_append, filter_append hcomplete,
    String.toList_append, filter_append (complete_line _), hline, filter_of_still hhead,
    filter_of_still hrest]
  rfl

theorem still_clientHead : Still clientHead.toList := by
  have hhead : Still "\n/* CLIENT */\n\n".toList := by decide
  have hcomplete : Text.Complete "\n/* CLIENT */\n\n".toList :=
    complete_of_endsLine ⟨"\n/* CLIENT */\n", rfl⟩
  unfold clientHead
  generalize "\n/* CLIENT */\n\n" = head at hhead hcomplete
  rw [String.toList_append]
  exact hhead.append hcomplete (still_unlines plainLine_clientLines)

theorem serverSection_eq (handlers : List HandlerDeclaration) :
    serverSection handlers = serverHead ++ String.join (handlers.map handlerText) := by
  unfold serverSection serverHead
  rfl

theorem clientSection_eq (mark : Text.QuoteMark) (clients : List ClientDeclaration) :
    clientSection mark clients = clientHead ++ String.join (clients.map (clientText mark)) := by
  unfold clientSection clientHead
  rfl

/-! ## The imports of a module -/

variable {c : Content}

theorem filter_server (h : c.OnLines) :
    (Text.rows (if c.includesHandlers then serverSection c.handlers else "").toList).filter
      Layout.isImport = if c.includesHandlers then [serverLine.toList] else [] := by
  have hhandlers : Still (String.join (c.handlers.map handlerText)).toList :=
    still_join complete_handlerText fun x hx =>
      still_handlerText (h.handlers x hx).1 (h.handlers x hx).2
  split
  next =>
    rw [serverSection_eq, String.toList_append, filter_append complete_serverHead,
      filter_serverHead, filter_of_still hhandlers]
    rfl
  next => rfl

theorem filter_client (options : Options) (h : c.OnLines) :
    (Text.rows (if c.includesClients then
      clientSection options.mark (c.clients.map ClientDeclaration.undocumented) else "").toList).filter
        Layout.isImport = [] := by
  have hclients : Still (String.join
      ((c.clients.map ClientDeclaration.undocumented).map (clientText options.mark))).toList := by
    refine still_join (complete_clientText options.mark) (List.forall_mem_map.mpr fun k hk => ?_)
    obtain ⟨hname, hargs, htypes⟩ := h.clients k hk
    exact still_undocumented options hname hargs htypes
  split
  next =>
    rw [clientSection_eq, String.toList_append, filter_append complete_clientHead,
      filter_of_still still_clientHead, filter_of_still hclients]
    rfl
  next => rfl

/-- Without summaries, only the import for handlers stands below the heading. -/
theorem filter_sections (options : Options) (h : c.OnLines) :
    (Text.rows (sections options.mark c.undocumented)).filter Layout.isImport =
      if c.includesHandlers then [serverLine.toList] else [] := by
  have hconsts : Still (String.join (c.schemas.map constText)).toList :=
    still_join complete_constText fun s hs => still_constText (h.schemas s hs)
  have htypes : Still (String.join (c.schemas.map typeText)).toList :=
    still_join complete_typeText fun s hs => still_typeText (h.schemas s hs)
  have hheading : Still "/* TYPES */\n\n".toList := by decide
  have hcomplete : Text.Complete "/* TYPES */\n\n".toList :=
    complete_of_endsLine ⟨"/* TYPES */\n", rfl⟩
  have hincluded : c.undocumented.includesClients = c.includesClients := by
    simp [Content.includesClients, Content.undocumented]
  have hsections : sections options.mark c.undocumented =
      (String.join (c.schemas.map constText)).toList ++ ("/* TYPES */\n\n".toList ++
        ((String.join (c.schemas.map typeText)).toList ++
          ((if c.includesHandlers then serverSection c.handlers else "").toList ++
            (if c.includesClients then clientSection options.mark
              (c.clients.map ClientDeclaration.undocumented) else "").toList))) := by
    unfold sections
    rw [hincluded]
    rfl
  rw [hsections]
  generalize "/* TYPES */\n\n".toList = types at hheading hcomplete
  rw [filter_append (complete_join complete_constText _), filter_append hcomplete,
    filter_append (complete_join complete_typeText _), filter_append (complete_server _),
    filter_of_still hconsts, filter_of_still hheading, filter_of_still htypes, filter_server h,
    filter_client options h, List.append_nil]
  rfl

theorem filter_rest (options : Options) (h : c.OnLines) :
    (c.undocumented.rest options.mark).filter Layout.isImport =
      if c.includesHandlers then [serverLine.toList] else [] := by
  have hsections := filter_sections options h
  have hnil : Layout.isImport [] = false := by decide
  by_cases hhandlers : c.handlers = []
  · have hincluded : c.includesHandlers = false := by simp [Content.includesHandlers, hhandlers]
    rw [hincluded, if_neg Bool.false_ne_true] at hsections ⊢
    refine List.filter_eq_nil_iff.mpr fun l hl => ?_
    rcases Content.mem_rows_of_mem_rest hl with rfl | hl
    · simp [hnil]
    · exact List.filter_eq_nil_iff.mp hsections l hl
  · have hrest : c.undocumented.rest options.mark =
        [] :: Text.rows (sections options.mark c.undocumented) :=
      Content.rest_eq_rows (.inl hhandlers)
    rw [hrest, List.filter_cons_of_neg (by simp [hnil]), hsections]

theorem sortDistinct_fixed : ∀ (style : QuoteStyle) (handlers : Bool),
    Layout.sortDistinct (((libraryLine style.mark).toList ::
      if handlers then [serverLine.toList] else []).map Text.strip) =
        fixedImports style.mark handlers := by
  intro style handlers
  cases style <;> cases handlers <;> decide

/-- If all names stand on one line, a module without summaries has the fixed imports and no others. -/
theorem imports_undocumented (options : Options) (h : c.OnLines) :
    imports options c.undocumented = fixedImports options.mark c.includesHandlers := by
  have hheading : Layout.isImport heading.toList = false := by decide
  have hnil : Layout.isImport [] = false := by decide
  have hlines : (c.undocumented.lines options.mark).filter Layout.isImport =
      (libraryLine options.mark).toList :: if c.includesHandlers then [serverLine.toList] else [] := by
    rw [Content.lines_eq_cons,
      List.filter_cons_of_pos (p := Layout.isImport) (isImport_libraryLine options),
      List.filter_cons_of_neg (p := Layout.isImport) (by simp [hnil]),
      List.filter_cons_of_neg (p := Layout.isImport) (by simp [hheading]), filter_rest options h]
  rw [imports, Layout.importBlock, hlines]
  exact sortDistinct_fixed options.quoteStyle c.includesHandlers

end Module

/-! ## Where the lines of a module come from -/

namespace Subject

theorem wellFormed_checks {subject : Subject} {s : NamedSchema} (h : subject.Describes s) :
    s.expr.Each fun e => ∀ c ∈ e.checks, c.WellFormed := by
  have hmodify : ∀ {e e' : Validator.Expr} {m : Validator.Modifiers} {place : String},
      Validator.modify e m place = .ok e' → (∀ c ∈ e.checks, c.WellFormed) →
        ∀ c ∈ e'.checks, c.WellFormed := by
    intro e e' m place h he
    obtain ⟨checks, hchecks, rfl⟩ := Validator.modify_eq_ok h
    exact List.forall_mem_append.mpr ⟨he, Validator.Modifiers.wellFormed_checks hchecks⟩
  have hnode : ∀ {schema : Schema} {place : String} {e : Validator.Expr},
      Validator.Expr.ofSchema place schema = .ok e → ∀ c ∈ e.checks, c.WellFormed :=
    fun h c hc => (Validator.ofSchema_refinement h c hc).wellFormed
  rcases describes_cases h with ⟨_, _, _, he⟩ | ⟨_, _, _, _, _, _, he⟩
  · exact Validator.each_ofSchema hmodify (fun _ _ => hnode) he
  · exact Validator.each_ofParameters hmodify (fun _ _ => List.forall_mem_nil _)
      (fun _ _ _ _ => hnode) he

end Subject

section Built

variable {d : Document} {catalog : List NamedSchema}

theorem Catalog.Built.writable (h : Catalog.Built d catalog)
    (hnames : ∀ n ∈ Catalog.names catalog, OneLine n) {s : NamedSchema} (hs : s ∈ catalog) :
    s.expr.Each Validator.Expr.Writable := by
  obtain ⟨subject, _, hdescribes⟩ :=
    exists_left_of_forall₂ (Catalog.entries_describe h.entries) hs
  intro sub hsub
  refine ⟨Subject.wellFormed_checks hdescribes sub hsub, fun t ht => hnames t ?_⟩
  have htarget := h.closed s hs t (Validator.Expr.mem_refs_iff_mentions.mpr (hsub.mentions ht))
  rw [Catalog.names_eq_entryNames h.entries]
  exact Document.mem_entryNames.mpr (.inl htarget)

theorem Declaration.FitsSlot.oneLine {op : Operation} {slot : Naming.Slot} {found : Option String}
    (h : Declaration.FitsSlot catalog op slot found)
    (hnames : ∀ n ∈ Catalog.names catalog, OneLine n) : OneLine? found := by
  intro n hn
  obtain ⟨s, hs, _⟩ := h.entry n hn
  have hmem : s ∈ catalog.filter (·.name == n) := by rw [hs]; exact List.mem_singleton_self s
  obtain ⟨hcatalog, hname⟩ := List.mem_filter.mp hmem
  exact hnames n (List.mem_map.mpr ⟨s, hcatalog, by simpa using hname⟩)

theorem Declaration.FitsSlots.onLines {op : Operation} {types : SlotTypes}
    (h : Declaration.FitsSlots catalog op types)
    (hnames : ∀ n ∈ Catalog.names catalog, OneLine n) : types.OnLines :=
  ⟨h.request.oneLine hnames, h.pathParams.oneLine hnames, h.queryParams.oneLine hnames,
    h.response.oneLine hnames⟩

end Built

namespace Generation

theorem schemaText_onLines {options : Options} {recursive : List String} {s : NamedSchema}
    {t : Module.SchemaText} (h : schemaText options.mark recursive s = .ok t)
    (hwritable : s.expr.Each Validator.Expr.Writable) (hname : OneLine t.name)
    (hconst : OneLine t.const) : t.OnLines := by
  have hcode := schemaText_code h
  obtain ⟨hsame, hrecursive, hplain⟩ := schemaText_eq_ok h
  rw [hsame] at hname
  have hmark : options.mark = options.quoteStyle.mark := rfl
  rw [hmark] at hcode hrecursive
  by_cases hr : s.name ∈ recursive
  · obtain ⟨hnoted, htype⟩ := hrecursive hr
    refine ⟨by rwa [hsame], hconst, fun a ha => ?_, Validator.Expr.indented_text hwritable hcode,
      fun type ht => Validator.Expr.indented_type hwritable (by rw [htype, ht])⟩
    rw [hnoted] at ha
    cases ha
    exact (OneLine.append (OneLine.append (by decide) hname) (by decide))
  · obtain ⟨hnoted, htype⟩ := hplain hr
    refine ⟨by rwa [hsame], hconst, fun a ha => ?_, Validator.Expr.indented_text hwritable hcode,
      fun type ht => ?_⟩
    · rw [hnoted] at ha
      cases ha
    · rw [htype] at ht
      cases ht

/-- In a module that is generated, the names decide about the lines. -/
theorem onLines_of_content {source : Source} {options : Options} {selection : Selection}
    {c : Module.Content} (h : (content source options selection).outcome = .ok c)
    (hnames : ∀ x ∈ c.generated, OneLine x.name) : c.OnLines := by
  obtain ⟨d, catalog, _, hbuild, hdeclare, hschemas⟩ := content_eq_ok.mp h
  obtain ⟨hhandlers, hclients⟩ := declare_eq_ok.mp hdeclare
  have hb := Catalog.build_eq_ok.mp hbuild
  obtain ⟨⟨hconsts, htypes⟩, hdeclared⟩ := Module.forall_generated.mp hnames
  obtain ⟨hhandlerNames, hclientNames⟩ := List.forall_mem_append.mp hdeclared
  have hcatalog : ∀ n ∈ Catalog.names catalog, OneLine n := by
    rwa [← schemaTexts_names hschemas]
  refine ⟨fun t ht => ?_, fun x hx => ⟨hhandlerNames _ (List.mem_map_of_mem hx), ?_⟩, fun k hk => ?_⟩
  · obtain ⟨s, hs, hst⟩ := exists_left_of_forall₂ (schemaTexts_forall₂ hschemas) ht
    exact schemaText_onLines hst (hb.writable hcatalog hs) (htypes _ (List.mem_map_of_mem ht))
      (hconsts _ (List.mem_map_of_mem ht))
  · split at hhandlers
    next =>
      rcases Declaration.handlers_cases hb with ⟨hs, hok, hall⟩ | ⟨_, herror⟩
      · rw [hok] at hhandlers
        cases hhandlers
        obtain ⟨op, _, hdescribes⟩ := exists_left_of_forall₂ hall hx
        exact hdescribes.types.onLines hcatalog
      · rw [herror] at hhandlers
        cases hhandlers
    next =>
      rw [← pure_eq_ok.mp hhandlers] at hx
      cases hx
  · obtain ⟨hname, hargs⟩ : OneLine k.name ∧ OneLine k.argsName := by
      have hall := List.forall_mem_flatMap.mp hclientNames k hk
      exact ⟨hall _ List.mem_cons_self, hall _ (List.mem_cons_of_mem _ List.mem_cons_self)⟩
    refine ⟨hname, hargs, ?_⟩
    split at hclients
    next =>
      rcases Declaration.clients_cases hb (c.handlers.map (·.name)) with
        ⟨ks, hok, hall⟩ | hservers | ⟨_, herror⟩
      · rw [hok] at hclients
        cases hclients
        obtain ⟨op, _, hdescribes⟩ := exists_left_of_forall₂ hall hk
        exact hdescribes.types.onLines hcatalog
      · rw [hservers] at hclients
        cases hclients
      · rw [herror] at hclients
        cases hclients
    next =>
      rw [← pure_eq_ok.mp hclients] at hk
      cases hk

end Generation

end ApiContract

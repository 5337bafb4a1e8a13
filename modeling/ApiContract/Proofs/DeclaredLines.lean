import ApiContract.Proofs.Imports

/-!
The declarations of a module as its text has them. A line declares something if it begins like a
declaration, and these lines are the ones of the fixed parts and those written for schemas, handlers
and clients: the lines of an expression or of a type begin differently. So a module whose names are
words declares what its content says, and declares twice what that says twice.
-/

namespace ApiContract

namespace Module

/-- What a row of a text declares, if anything. -/
def declaredOn? (row : List Char) : Option Declared := Declared.ofLine? (String.ofList row)

/-- What the rows of a text declare, in order. -/
def declared (cs : List Char) : List Declared := (Text.rows cs).filterMap declaredOn?

namespace Content

/-- What the lines of summaries would declare outside of comments. -/
def commented (c : Content) : List Declared := c.comments.flatten.filterMap declaredOn?

end Content

/-! ## Texts and their parts -/

theorem declared_append {cs ds : List Char} (h : Text.Complete cs) :
    declared (cs ++ ds) = declared cs ++ declared ds := by
  rw [declared, Text.rows_append h, List.filterMap_append, declared, declared]

theorem declared_join {α : Type} {f : α → String} (h : ∀ x, Text.Complete (f x).toList)
    (xs : List α) : declared (String.join (xs.map f)).toList =
      xs.flatMap fun x => declared (f x).toList := by
  rw [toList_join_map, declared, Text.rows_flatMap h, List.filterMap_flatMap]
  rfl

theorem declaredOn?_dropReturn {row : List Char} (h : declaredOn? row = none) :
    declaredOn? (Text.dropReturn row) = none := by
  refine Declared.ofLine?_of_begins ?_ h
  rw [String.toList_ofList, String.toList_ofList]
  exact Text.prefix_dropReturn row

theorem declaredOn?_of_head {row : List Char} (h : row.head? ≠ some 'i' ∧ row.head? ≠ some 'e') :
    declaredOn? row = none := by
  refine Declared.ofLine?_of_head ?_
  rwa [String.toList_ofList]

theorem declaredOn?_of_opens {row : List Char} (h : Text.Opens row) : declaredOn? row = none := by
  obtain ⟨c, hhead, hc⟩ := Text.head_of_opens h
  have hothers : c ≠ 'i' ∧ c ≠ 'e' := by
    constructor
    · rintro rfl
      simp at hc
    · rintro rfl
      simp at hc
  refine declaredOn?_of_head ?_
  simpa [hhead] using hothers

theorem declared_unlines {lines : List String} (h : ∀ l ∈ lines, OneLine l) :
    declared (unlines lines).toList =
      lines.filterMap fun l => declaredOn? (Text.dropReturn l.toList) := by
  rw [unlines, declared_join complete_line, List.filterMap_eq_flatMap_toList]
  refine List.flatMap_congr fun l hl => ?_
  rw [declared, rows_line (h l hl), List.filterMap_cons, List.filterMap_nil]
  cases declaredOn? (Text.dropReturn l.toList) with
  | none => rfl
  | some d => rfl

/-- A line that does not begin like a declaration. -/
structure SilentLine (s : String) : Prop where
  oneLine : OneLine s
  silent : s.toList.head? ≠ some 'i' ∧ s.toList.head? ≠ some 'e'

theorem silentLine_append {s t : String} {c : Char} (hs : OneLine s) (ht : OneLine t)
    (hhead : s.toList.head? = some c) (hc : c ≠ 'i' ∧ c ≠ 'e') : SilentLine (s ++ t) := by
  have happend : (s ++ t).toList.head? = some c := by
    rw [String.toList_append, List.head?_append, hhead, Option.some_or]
  refine ⟨hs.append ht, ?_⟩
  rw [happend]
  exact ⟨fun h => hc.1 (Option.some.inj h), fun h => hc.2 (Option.some.inj h)⟩

theorem declared_silent {lines : List String} (h : ∀ l ∈ lines, SilentLine l) :
    declared (unlines lines).toList = [] := by
  rw [declared_unlines fun l hl => (h l hl).oneLine, List.filterMap_eq_nil_iff]
  exact fun l hl => declaredOn?_dropReturn (declaredOn?_of_head (h l hl).silent)

theorem declared_unlines_cons (line : String) (lines : List String) :
    declared (unlines (line :: lines)).toList =
      declared (line ++ "\n").toList ++ declared (unlines lines).toList := by
  rw [unlines_cons, ← String.append_assoc, String.toList_append, declared_append (complete_line _)]

theorem silentLine_nil : SilentLine "" := ⟨by decide, by decide⟩

theorem declared_feed : declared "\n".toList = [] :=
  declared_silent (List.forall_mem_singleton.mpr silentLine_nil)

/-! ## Declarations -/

theorem oneLine_of_isWord {name : String} (h : IsWord name) : OneLine name :=
  fun hfeed => absurd (h _ hfeed) (by decide)

theorem oneLine_head (form : Form) : OneLine form.head := by
  cases form <;> decide

/-- What is declared goes on behind a blank or a colon, and indented, so the first of its rows
declares it and the others declare nothing. -/
theorem declared_heading {form : Form} (hform : form ≠ .imported) {name rest : String}
    (hname : IsWord name) (hhead : rest.toList.head? = some ' ' ∨ rest.toList.head? = some ':')
    (hrest : Indented rest) : declared (form.head ++ name ++ rest ++ "\n").toList = [⟨form, name⟩] := by
  obtain ⟨c, hhead, hfeed, hreturn, hword⟩ : ∃ c, rest.toList.head? = some c ∧ c ≠ '\n' ∧ c ≠ '\r' ∧
      (c.isAlphanum || c == '_' || c == '$') = false := by
    rcases hhead with hhead | hhead
    · exact ⟨' ', hhead, by decide⟩
    · exact ⟨':', hhead, by decide⟩
  obtain ⟨first, lines, hpieces, hrows, hopens⟩ :=
    rows_of_indented ((oneLine_head form).append (oneLine_of_isWord hname)) hrest
  obtain ⟨tail, htail⟩ := List.head?_eq_some_iff.mp hhead
  rw [htail] at hpieces
  obtain ⟨more, rfl⟩ := Text.head_of_splitAt hpieces hfeed
  have hfirst : declaredOn? (Text.dropReturn ((form.head ++ name).toList ++ c :: more)) =
      some ⟨form, name⟩ := by
    have hline : (String.ofList ((form.head ++ name).toList ++ c :: Text.dropReturn more)).toList =
        form.head.toList ++ (name.toList ++ c :: Text.dropReturn more) := by
      rw [String.toList_ofList, String.toList_append, List.append_assoc]
    rw [Text.dropReturn_append_cons hreturn]
    exact Declared.ofLine?_heading hform hname hword hline
  have hothers : (lines.map Text.dropReturn).filterMap declaredOn? = [] := by
    refine List.filterMap_eq_nil_iff.mpr (List.forall_mem_map.mpr fun l hl => ?_)
    exact declaredOn?_dropReturn (declaredOn?_of_opens (hopens l hl))
  rw [declared, hrows, List.filterMap_cons_some hfirst, hothers]

theorem head_constRest (s : SchemaText) :
    (constRest s).toList.head? = some ' ' ∨ (constRest s).toList.head? = some ':' := by
  rw [constRest]
  cases given? s.annotation with
  | none =>
    refine .inl ?_
    rw [Option.map_none, Option.getD_none, String.empty_append, String.toList_append]
    rfl
  | some a =>
    refine .inr ?_
    rw [Option.map_some, Option.getD_some, String.append_assoc, String.toList_append]
    rfl

theorem declared_constText {s : SchemaText} (h : s.OnLines) (hword : IsWord s.const) :
    declared (constText s).toList = [⟨.const, s.const⟩] := by
  have hfirst := declared_heading (by decide : Form.const ≠ .imported) hword (head_constRest s)
    (indented_constRest h)
  rw [constText_eq, String.toList_append, declared_append (complete_line _), declared_feed,
    List.append_nil]
  exact hfirst

theorem declared_typeText {s : SchemaText} (h : s.OnLines) (hword : IsWord s.name) :
    declared (typeText s).toList = [⟨.typeAlias, s.name⟩] := by
  rw [typeText_eq]
  exact declared_heading (by decide : Form.typeAlias ≠ .imported) hword
    (.inl (by rw [typeRest, String.toList_append]; rfl)) (indented_typeRest h)

theorem declared_handlerText {h : HandlerDeclaration} (hword : IsWord h.name)
    (htypes : h.types.OnLines) : declared (handlerText h).toList = [⟨.typeAlias, h.name⟩] := by
  rw [handlerText_eq]
  exact declared_heading (by decide : Form.typeAlias ≠ .imported) hword
    (.inl (by rw [handlerRest, String.toList_append]; rfl)) (indented_handlerRest htypes)

theorem silentLine_memberLines {name : String} (hname : OneLine name) {type : Option String}
    (htype : OneLine? type) : ∀ l ∈ memberLines name type, SilentLine l := by
  intro l hl
  obtain ⟨t, ht, rfl⟩ := Option.map_eq_some_iff.mp (Option.mem_toList.mp hl)
  have htype := htype t (Option.filter_eq_some_iff.mp ht).1
  have hline : SilentLine ("  " ++ (name ++ (": " ++ (t ++ ";")))) :=
    silentLine_append (c := ' ') (by decide) (hname.append (OneLine.append (by decide)
      (htype.append (by decide)))) (by decide) (by decide)
  simpa only [String.append_assoc] using hline

/-- Before its summary, a client declares its arguments. -/
theorem declared_argsLines {k : ClientDeclaration} (hword : IsWord k.argsName)
    (htypes : k.types.OnLines) :
    declared (unlines (argsLines k)).toList = [⟨.interface, k.argsName⟩] := by
  have hfirst := declared_heading (by decide : Form.interface ≠ .imported) hword
    (.inl (by decide : " \x7b".toList.head? = some ' ')) (OneLine.indented (by decide))
  have hbody : OneLine (if k.bodyRequired then "body" else "body?") := by
    split
    · decide
    · decide
  obtain ⟨rest, hlines, hrest⟩ : ∃ rest, argsLines k =
      "" :: (Form.interface.head ++ k.argsName ++ " \x7b") :: rest ∧ ∀ l ∈ rest, SilentLine l := by
    simp only [argsLines, Form.head, List.cons_append, List.nil_append]
    refine ⟨_, rfl, ?_⟩
    simp only [List.forall_mem_append, List.forall_mem_cons]
    exact ⟨⟨by decide, by decide⟩, ⟨silentLine_memberLines (by decide) htypes.pathParams,
      silentLine_memberLines (by decide) htypes.queryParams,
      silentLine_memberLines hbody htypes.request⟩, ⟨by decide, by decide⟩, ⟨by decide, by decide⟩,
      silentLine_nil, List.forall_mem_nil _⟩
  rw [hlines, declared_unlines_cons, declared_unlines_cons, hfirst, declared_silent hrest,
    String.empty_append, declared_feed]
  rfl

/-- After its summary, a client declares itself. -/
theorem declared_callLines (options : Options) {k : ClientDeclaration} (hword : IsWord k.name)
    (hargs : OneLine k.argsName) (htypes : k.types.OnLines) :
    declared (unlines (callLines options.mark k)).toList = [⟨.const, k.name⟩] := by
  have hquoted : ∀ s : String, OneLine (Text.quote options.mark s ++ ",") := fun s =>
    (Text.oneLine_quote options.quoteStyle s).append (by decide)
  have hcall := (oneLine_typeArguments htypes).append (t := "(\x7b") (by decide)
  have hhead : (" = (args: " ++ (k.argsName ++ ") => \x7b")).toList.head? = some ' ' := by
    rw [String.toList_append]
    rfl
  have hfirst := declared_heading (by decide : Form.const ≠ .imported) hword (.inl hhead)
    (OneLine.append (by decide) (hargs.append (by decide))).indented
  obtain ⟨rest, hlines, hrest⟩ : ∃ rest, callLines options.mark k =
      (Form.const.head ++ k.name ++ (" = (args: " ++ (k.argsName ++ ") => \x7b"))) :: rest ∧
        ∀ l ∈ rest, SilentLine l := by
    simp only [callLines, Form.head, String.append_assoc]
    refine ⟨_, rfl, ?_⟩
    simp only [List.forall_mem_cons]
    exact ⟨silentLine_append (c := ' ') (by decide) hcall (by decide) (by decide),
      ⟨by decide, by decide⟩,
      silentLine_append (c := ' ') (by decide) (hquoted _) (by decide) (by decide),
      silentLine_append (c := ' ') (by decide) (hquoted _) (by decide) (by decide),
      silentLine_append (c := ' ') (by decide) (hquoted _) (by decide) (by decide),
      ⟨by decide, by decide⟩, ⟨by decide, by decide⟩, List.forall_mem_nil _⟩
  rw [hlines, declared_unlines_cons, hfirst, declared_silent hrest, List.append_nil]

/-- A client declares its arguments, then itself, and its summary stands in between. -/
theorem declared_clientText (options : Options) {k : ClientDeclaration} (hargs : IsWord k.argsName)
    (hname : IsWord k.name) (htypes : k.types.OnLines) :
    declared (clientText options.mark k).toList =
      ⟨.interface, k.argsName⟩ :: ((commentOf k).flatten.filterMap declaredOn? ++
        [⟨.const, k.name⟩]) := by
  have hbefore := declared_argsLines hargs htypes
  have hafter := declared_callLines options hname (oneLine_of_isWord hargs) htypes
  rw [declared] at hbefore hafter
  rw [declared, rows_clientText, List.filterMap_append, List.filterMap_append, hbefore, hafter]
  rfl

/-! ## The whole module -/

theorem declared_fixed {lines : List String} (h : ∀ l ∈ lines, Ascii l) :
    declared (unlines lines).toList = lines.filterMap Declared.ofLine? := by
  rw [declared_unlines fun l hl => (h l hl).notMem (by decide)]
  refine List.filterMap_congr fun l hl => ?_
  have hreturn : l.toList.getLast? ≠ some '\r' :=
    fun hlast => (h l hl).notMem (by decide) (List.mem_of_getLast? hlast)
  rw [declaredOn?, Text.dropReturn_of_ne hreturn, String.ofList_toList]

theorem declared_opening (options : Options) :
    declared (opening options.mark) = [⟨.imported, "z"⟩] := by
  have hlibrary : ∀ style : QuoteStyle,
      declaredOn? (libraryLine style.mark).toList = some ⟨.imported, "z"⟩ := by
    intro style
    cases style <;> decide +kernel
  have hnotice : declaredOn? notice.toList = none := declaredOn?_of_head (by decide)
  have hheading : declaredOn? heading.toList = none := declaredOn?_of_head (by decide)
  have hnil : declaredOn? [] = none := declaredOn?_of_head (by decide)
  have hmark : options.mark = options.quoteStyle.mark := rfl
  rw [declared, rows_opening, hmark, List.filterMap_cons_none hnotice,
    List.filterMap_cons_some (hlibrary _), List.filterMap_cons_none hnil,
    List.filterMap_cons_none hheading, List.filterMap_cons_none hnil, List.filterMap_nil]

/-- The titles of the parts declare nothing. -/
theorem declared_title {title : String} (h : SilentLine title) :
    declared ("\n" ++ title ++ "\n\n").toList = [] := by
  have hfeeds : "\n\n" = "\n" ++ "\n" := by decide
  have hlines : "\n" ++ title ++ "\n\n" = unlines ["", title, ""] := by
    simp only [hfeeds, unlines_cons, unlines_nil, String.append_assoc, String.empty_append,
      String.append_empty]
  rw [hlines]
  exact declared_silent (by simp [silentLine_nil, h])

theorem declared_serverHead :
    declared serverHead.toList = serverLines.filterMap Declared.ofLine? := by
  have htitle : "\n/* SERVER */\n\n" = "\n" ++ "/* SERVER */" ++ "\n\n" := by decide
  rw [serverHead, htitle, String.toList_append, String.toList_append, List.append_assoc,
    declared_append (complete_of_endsLine ⟨"\n/* SERVER */\n", by decide⟩),
    declared_append (complete_unlines _), declared_title ⟨by decide, by decide⟩,
    declared_fixed ascii_serverLines, declared_feed, List.append_nil, List.nil_append]

theorem declared_clientHead :
    declared clientHead.toList = clientLines.filterMap Declared.ofLine? := by
  have htitle : "\n/* CLIENT */\n\n" = "\n" ++ "/* CLIENT */" ++ "\n\n" := by decide
  rw [clientHead, htitle, String.toList_append,
    declared_append (complete_of_endsLine ⟨"\n/* CLIENT */\n", by decide⟩),
    declared_title ⟨by decide, by decide⟩, declared_fixed ascii_clientLines, List.nil_append]

section Sections

variable {c : Content}

theorem declared_schemas (h : c.OnLines) (hconsts : ∀ n ∈ c.schemas.map (·.const), IsWord n)
    (hnames : ∀ n ∈ c.schemas.map (·.name), IsWord n) :
    declared (String.join (c.schemas.map constText)).toList =
        c.schemas.map (fun s => ⟨.const, s.const⟩) ∧
      declared (String.join (c.schemas.map typeText)).toList =
        c.schemas.map (fun s => ⟨.typeAlias, s.name⟩) := by
  rw [declared_join complete_constText, declared_join complete_typeText, List.map_eq_flatMap,
    List.map_eq_flatMap]
  exact ⟨List.flatMap_congr fun s hs =>
      declared_constText (h.schemas s hs) (hconsts _ (List.mem_map_of_mem hs)),
    List.flatMap_congr fun s hs =>
      declared_typeText (h.schemas s hs) (hnames _ (List.mem_map_of_mem hs))⟩

theorem declared_server (h : c.OnLines) (hnames : ∀ n ∈ c.handlers.map (·.name), IsWord n) :
    declared (if c.includesHandlers then serverSection c.handlers else "").toList =
      (if c.includesHandlers then serverLines.filterMap Declared.ofLine? else []) ++
        c.handlers.map fun k => ⟨.typeAlias, k.name⟩ := by
  have hhandlers : declared (String.join (c.handlers.map handlerText)).toList =
      c.handlers.map fun k => ⟨.typeAlias, k.name⟩ := by
    rw [declared_join complete_handlerText, List.map_eq_flatMap]
    exact List.flatMap_congr fun k hk =>
      declared_handlerText (hnames _ (List.mem_map_of_mem hk)) (h.handlers k hk).2
  split
  next =>
    rw [serverSection_eq, String.toList_append, declared_append complete_serverHead,
      declared_serverHead, hhandlers]
  next hnone =>
    have hnil : c.handlers = [] := by simpa [Content.includesHandlers] using hnone
    rw [hnil]
    rfl

theorem declared_client (options : Options) (h : c.OnLines)
    (hnames : ∀ k ∈ c.clients, IsWord k.argsName ∧ IsWord k.name) :
    declared (if c.includesClients then clientSection options.mark c.clients else "").toList =
      (if c.includesClients then clientLines.filterMap Declared.ofLine? else []) ++
        c.clients.flatMap fun k => ⟨.interface, k.argsName⟩ ::
          ((commentOf k).flatten.filterMap declaredOn? ++ [⟨.const, k.name⟩]) := by
  have hclients : declared (String.join (c.clients.map (clientText options.mark))).toList =
      c.clients.flatMap fun k => ⟨.interface, k.argsName⟩ ::
        ((commentOf k).flatten.filterMap declaredOn? ++ [⟨.const, k.name⟩]) := by
    rw [declared_join (complete_clientText options.mark)]
    refine List.flatMap_congr fun k hk => ?_
    exact declared_clientText options (hnames k hk).1 (hnames k hk).2 (h.clients k hk).2.2
  split
  next =>
    rw [clientSection_eq, String.toList_append, declared_append complete_clientHead,
      declared_clientHead, hclients]
  next hnone =>
    have hnil : c.clients = [] := by simpa [Content.includesClients] using hnone
    rw [hnil]
    rfl

/-- The declarations of clients stand around their summaries. -/
theorem perm_clients (c : Content) :
    (c.clients.flatMap fun k => (⟨.interface, k.argsName⟩ : Declared) ::
        ((commentOf k).flatten.filterMap declaredOn? ++ [⟨.const, k.name⟩])).Perm
      ((c.clients.flatMap fun k => [⟨.interface, k.argsName⟩, ⟨.const, k.name⟩]) ++ c.commented) := by
  have hcommented : c.commented =
      c.clients.flatMap fun k => (commentOf k).flatten.filterMap declaredOn? := by
    rw [Content.commented, Content.comments, ← List.flatMap_id, List.flatMap_assoc,
      List.filterMap_flatMap]
    simp only [List.flatMap_id]
  rw [hcommented]
  refine List.Perm.trans (.flatMap_left _ fun k _ => ?_) (List.flatMap_append_perm _ _ _).symm
  exact .cons _ List.perm_append_comm

/-- Where its names are words, the lines of a module declare the fixed names, and those of its
schemas, handlers and clients, and nothing else outside of comments. -/
theorem declared_draft (options : Options) (h : c.OnLines)
    (hwords : ∀ x ∈ c.generated, IsWord x.name) :
    (declared (draft options.mark c).toList).Perm (c.fixed ++ c.generated ++ c.commented) := by
  obtain ⟨⟨hconsts, htypes⟩, hdeclared⟩ := forall_generated.mp hwords
  obtain ⟨hhandlers, hclients⟩ := List.forall_mem_append.mp hdeclared
  have hclientNames : ∀ k ∈ c.clients, IsWord k.argsName ∧ IsWord k.name := by
    intro k hk
    have hall := List.forall_mem_flatMap.mp hclients k hk
    exact ⟨hall _ (List.mem_cons_of_mem _ List.mem_cons_self), hall _ List.mem_cons_self⟩
  have hheading : declared "/* TYPES */\n\n".toList = [] := by
    have hlines : "/* TYPES */\n\n" = unlines ["/* TYPES */", ""] := by decide
    rw [hlines]
    exact declared_silent (List.forall_mem_cons.mpr
      ⟨⟨by decide, by decide⟩, List.forall_mem_singleton.mpr silentLine_nil⟩)
  have hcomplete : Text.Complete "/* TYPES */\n\n".toList :=
    complete_of_endsLine ⟨"/* TYPES */\n", rfl⟩
  obtain ⟨hconstTexts, htypeTexts⟩ := declared_schemas h hconsts htypes
  rw [draft_eq, sections, declared_append (complete_opening _),
    declared_append (complete_join complete_constText _),
    declared_append hcomplete, declared_append (complete_join complete_typeText _),
    declared_append (complete_server _),
    declared_opening, hconstTexts, hheading, htypeTexts, declared_server h hhandlers,
    declared_client options h hclientNames]
  have hperm := perm_clients c
  rw [List.perm_iff_count] at hperm ⊢
  intro d
  have hcount := hperm d
  simp only [Content.fixed, fixedDeclared, Content.generated, List.count_append,
    List.cons_append, List.count_cons, List.count_nil] at hcount ⊢
  omega

end Sections

theorem namesIn_perm {ds es : List Declared} (h : ds.Perm es) (space : Space) :
    (namesIn space ds).Perm (namesIn space es) := (h.filter _).map _

section Generation

variable {source : Generation.Source} {options : Options} {selection : Generation.Selection}
  {c : Content}

/-- A module that is generated declares in its text what its content says. -/
theorem declared_of_content (h : (Generation.content source options selection).outcome = .ok c)
    (hwords : ∀ x ∈ c.generated, IsWord x.name) :
    (declared (draft options.mark c).toList).Perm (c.fixed ++ c.generated ++ c.commented) :=
  declared_draft options
    (Generation.onLines_of_content h fun x hx => oneLine_of_isWord (hwords x hx)) hwords

/-- A module that is generated declares a name twice exactly if a name from the document is one of
the fixed names. With methods that are known, and those of a description are, it has to be the name
of a component. Where all names are words, this is told by the lines of its text, that are not
comments: they declare those names and no others. -/
theorem declaresOnce_iff (h : (Generation.content source options selection).outcome = .ok c) :
    ∃ d, (Generation.normalize source).outcome = .ok d ∧
      (c.DeclaresOnce ↔
        ∀ space, ∀ n ∈ namesIn space c.generated, n ∉ namesIn space c.fixed) ∧
      (Document.KnownMethods d.operations →
        (c.DeclaresOnce ↔ ∀ n ∈ d.componentNames, n ∉ namesIn .type c.fixed)) ∧
      (∀ value, source = .raw value → Document.KnownMethods d.operations) ∧
      ((∀ x ∈ c.generated, IsWord x.name) →
        (declared (draft options.mark c).toList).Perm (c.fixed ++ c.generated ++ c.commented)) := by
  obtain ⟨d, hnormalize, hnamed⟩ := Generation.exists_namedAfter h
  have hapart := declaresOnce_iff_apart h
  exact ⟨d, hnormalize, hapart, fun hknown => hapart.trans (apart_iff hnamed hknown),
    Generation.knownMethods_of_raw hnormalize, declared_of_content h⟩

end Generation

/-- What is generated for a component `Request` and a path. -/
def requestContent (handlers clients : Bool) : Content where
  schemas := [⟨"Request", "RequestSchema", "z.object(\x7b\x7d).strict()", none, none⟩]
  handlers := if handlers then [⟨"getPetsHandler", ⟨none, none, none, none⟩⟩] else []
  clients := if clients then
    [⟨"getPets", "GetPetsArgs", "GET", "/pets", "/v1", ⟨none, none, none, none⟩, false, none⟩] else []

theorem requestContent_words (handlers clients : Bool) :
    ∀ x ∈ (requestContent handlers clients).generated, IsWord x.name := by
  cases handlers <;> cases clients <;> decide

theorem declaresOnce_iff_unhandled : ∃ c,
    (Generation.content (.raw (describe "Request" "/pets")) .standard ⟨false, true⟩).outcome =
        .ok c ∧
      c.DeclaresOnce ∧
      (declared (draft Options.standard.mark c).toList).Perm (c.fixed ++ c.generated) := by
  refine ⟨requestContent false true, rfl, ?_⟩
  obtain ⟨d, hnormalize, _, honce, hknown, hdeclared⟩ :=
    @declaresOnce_iff (.raw (describe "Request" "/pets")) .standard ⟨false, true⟩
      (requestContent false true) rfl
  cases hnormalize
  refine ⟨(honce (hknown _ rfl)).mpr ?_, ?_⟩
  · intro n hn
    cases List.mem_singleton.mp hn
    change "Request" ∉ namesIn .type (fixedDeclared false true)
    rw [fixedDeclared, if_neg (Bool.false_ne_true), if_pos rfl, clientLines_declared]
    decide
  · have hcommented : (requestContent false true).commented = [] := rfl
    have hperm := hdeclared (requestContent_words false true)
    rwa [hcommented, List.append_nil] at hperm

/-- With handlers the module is written all the same, and has two types of that name. -/
theorem declaresOnce_request_fails : ∃ c text,
    (Generation.content (.raw (describe "Request" "/pets")) .standard ⟨true, false⟩).outcome =
        .ok c ∧
      (Generation.moduleText .standard c).outcome = .ok text ∧ ¬ c.DeclaresOnce ∧
      ¬ (namesIn .type (declared (draft Options.standard.mark c).toList)).Nodup := by
  have hcontent : (Generation.content (.raw (describe "Request" "/pets")) .standard
      ⟨true, false⟩).outcome = .ok (requestContent true false) := rfl
  have htwice : ¬ (namesIn .type
      ((requestContent true false).fixed ++ (requestContent true false).generated)).Nodup := by
    rw [Content.fixed, fixedDeclared]
    change ¬ (namesIn .type (⟨.imported, "z"⟩ :: serverLines.filterMap Declared.ofLine? ++ [] ++ _)).Nodup
    rw [serverLines_declared]
    decide
  have hcommented : (requestContent true false).commented = [] := rfl
  have hperm := declared_of_content hcontent (requestContent_words true false)
  rw [hcommented, List.append_nil] at hperm
  refine ⟨_, _, hcontent, rfl, fun honce => htwice (honce .type), ?_⟩
  rwa [(namesIn_perm hperm .type).nodup_iff]

end Module

end ApiContract

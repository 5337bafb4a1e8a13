import ApiContract.Proofs.Declarations
import ApiContract.Proofs.Pipeline

/-!
The names of handlers and clients are refused exactly if one of them stands twice or is taken. So in
a module that is generated no two of its schemas, constants, handlers, clients and argument types
share a name, where one of them has to keep clear of the other.
-/

namespace ApiContract.Declaration

/-- The names of the handlers of a document, one for each operation. -/
def handlerNames (d : Document) : List String :=
  d.operations.map fun op => Naming.handler op.method op.path

/-- The names of the clients of a document and of their arguments, two for each operation. -/
def clientNames (d : Document) : List String :=
  d.operations.flatMap fun op =>
    [Naming.client op.method op.path, Naming.clientArgs op.method op.path]

/-! ## The check -/

/-- What the check lets through: names that stand once each and are not taken. -/
structure Free (names taken : List String) : Prop where
  nodup : names.Nodup
  untaken : ∀ n ∈ names, n ∉ taken

theorem Free.nil (taken : List String) : Free [] taken := ⟨List.nodup_nil, List.forall_mem_nil _⟩

/-- Names are checked in turns, each time against those of the earlier turns as well. -/
theorem Free.append {names names' taken : List String} (h : Free names taken)
    (h' : Free names' (taken ++ names)) : Free (names ++ names') taken where
  nodup := List.nodup_append'.mpr ⟨h.nodup, h'.nodup, fun n hn hn' =>
    h'.untaken n hn' (List.mem_append_right _ hn)⟩
  untaken n hn := by
    rcases List.mem_append.mp hn with hn | hn
    · exact h.untaken n hn
    · exact fun htaken => h'.untaken n hn (List.mem_append_left _ htaken)

theorem ensureUnique_eq_ok {names taken : List String} {u : Unit} :
    ensureUnique names taken = .ok u ↔ Free names taken := by
  rw [ensureUnique]
  cases hrepeat : Catalog.firstRepeated? taken names with
  | none =>
    obtain ⟨hnodup, huntaken⟩ := Catalog.firstRepeated?_eq_none.mp hrepeat
    exact iff_of_true rfl ⟨hnodup, huntaken⟩
  | some n =>
    refine iff_of_false nofun fun hfree => ?_
    rw [Catalog.firstRepeated?_eq_none.mpr ⟨hfree.nodup, hfree.untaken⟩] at hrepeat
    cases hrepeat

theorem not_free_iff {names taken : List String} :
    ¬ Free names taken ↔ ¬ names.Nodup ∨ ∃ n ∈ names, n ∈ taken := by
  constructor
  · intro h
    by_cases hnodup : names.Nodup
    · by_contra hno
      refine h ⟨hnodup, fun n hn htaken => hno (.inr ⟨n, hn, htaken⟩)⟩
    · exact .inl hnodup
  · rintro (h | ⟨n, hn, htaken⟩) hfree
    · exact h hfree.nodup
    · exact hfree.untaken n hn htaken

section Checked

variable {β : Type} {declared : List β} {names taken : List String}

theorem ensured_eq_ok {ds : List β}
    (h : (do ensureUnique names taken; return declared : Except Issue (List β)) = .ok ds) :
    declared = ds ∧ Free names taken := by
  obtain ⟨_, hunique, h⟩ := bind_eq_ok.mp h
  exact ⟨pure_eq_ok.mp h, ensureUnique_eq_ok.mp hunique⟩

theorem ensured_fails_iff :
    (∃ f, (do ensureUnique names taken; return declared : Except Issue (List β)) =
      .error (.generation f)) ↔ ¬ names.Nodup ∨ ∃ n ∈ names, n ∈ taken := by
  rw [← not_free_iff, ← ensureUnique_eq_ok (u := ())]
  cases hunique : ensureUnique names taken with
  | ok u => simp [bind, Except.bind, pure, Except.pure]
  | error i =>
    obtain ⟨name, rfl⟩ := ensureUnique_error hunique
    exact iff_of_true ⟨_, rfl⟩ nofun

end Checked

/-- The names that a catalog exports are those of its entries and of their constants. -/
theorem mem_exportedNames {catalog : List NamedSchema} {n : String} :
    n ∈ exportedNames catalog ↔ ∃ s ∈ catalog, n = s.name ∨ n = Naming.const s.name := by
  simp only [exportedNames, Catalog.names, List.map_map, List.mem_append, List.mem_map,
    Function.comp_apply]
  grind

/-! ## Handlers and clients -/

section Built

variable {d : Document} {catalog : List NamedSchema}

theorem names_of_handlers {hs : List HandlerDeclaration}
    (h : List.Forall₂ (DescribesHandler catalog) d.operations hs) :
    hs.map (·.name) = handlerNames d :=
  map_eq_of_forall₂ h fun _ _ hdescribes => hdescribes.name

theorem names_of_clients {servers : List String} {cs : List ClientDeclaration}
    (h : List.Forall₂ (DescribesClient servers catalog) d.operations cs) :
    cs.flatMap (fun c => [c.name, c.argsName]) = clientNames d := by
  rw [clientNames, List.flatMap_def, List.flatMap_def]
  refine congrArg List.flatten (map_eq_of_forall₂ h fun op c hdescribes => ?_)
  rw [hdescribes.name, hdescribes.argsName]

/-- Handlers are declared for all operations, and then their names are checked. -/
theorem exists_handlers (h : Catalog.Built d catalog) :
    ∃ hs : List HandlerDeclaration, handlers d catalog =
      (do ensureUnique (handlerNames d) (exportedNames catalog); return hs) := by
  obtain ⟨hs, hmap, hall⟩ := exists_mapM_eq_ok (f := handlerOf (Catalog.names catalog)) fun op hop =>
    handlerOf_describes h hop
  refine ⟨hs, ?_⟩
  rw [handlers, hmap, ← names_of_handlers hall]
  rfl

/-- Clients are declared for all operations, and then their names are checked. -/
theorem exists_clients (h : Catalog.Built d catalog) (hoperations : d.operations ≠ [])
    (hservers : d.servers ≠ []) (reserved : List String) :
    ∃ cs : List ClientDeclaration, clients d catalog reserved =
      (do ensureUnique (clientNames d) (exportedNames catalog ++ reserved); return cs) := by
  obtain ⟨baseUrl, rest, hurls⟩ := List.exists_cons_of_ne_nil hservers
  have hurl : d.servers.head? = some baseUrl := by rw [hurls]; rfl
  obtain ⟨cs, hmap, hall⟩ := exists_mapM_eq_ok (f := clientOf (Catalog.names catalog) baseUrl)
    fun op hop => clientOf_describes h hop hurl
  have hpaths : d.hasPaths = true := by simpa [Document.hasPaths] using hoperations
  refine ⟨cs, ?_⟩
  rw [clients, if_pos hpaths, hurls]
  change (d.operations.mapM (clientOf (Catalog.names catalog) baseUrl) >>= _) = _
  rw [hmap, ← names_of_clients hall]
  rfl

/-- Handlers are refused exactly if two of them share a name or one of them has the name of a schema
or of its constant. -/
theorem handlers_fails_iff (h : Catalog.Built d catalog) :
    (∃ f, handlers d catalog = .error (.generation f)) ↔ ¬ (handlerNames d).Nodup ∨
      ∃ n ∈ handlerNames d, ∃ s ∈ catalog, n = s.name ∨ n = Naming.const s.name := by
  obtain ⟨hs, hhandlers⟩ := exists_handlers h
  rw [hhandlers, ensured_fails_iff]
  simp only [mem_exportedNames]

/-- With something to call, clients are refused exactly if two of their names coincide or one of
them is that of a schema or of its constant, or reserved. -/
theorem clients_fails_iff (h : Catalog.Built d catalog) (hoperations : d.operations ≠ [])
    (hservers : d.servers ≠ []) (reserved : List String) :
    (∃ f, clients d catalog reserved = .error (.generation f)) ↔ ¬ (clientNames d).Nodup ∨
      ∃ n ∈ clientNames d, (∃ s ∈ catalog, n = s.name ∨ n = Naming.const s.name) ∨
        n ∈ reserved := by
  obtain ⟨cs, hclients⟩ := exists_clients h hoperations hservers reserved
  rw [hclients, ensured_fails_iff]
  simp only [List.mem_append, mem_exportedNames]

end Built

section Declared

variable {d : Document} {catalog : List NamedSchema}

theorem free_handlers {hs : List HandlerDeclaration} (h : handlers d catalog = .ok hs) :
    Free (hs.map (·.name)) (exportedNames catalog) := by
  obtain ⟨declared, _, h⟩ := bind_eq_ok.mp h
  obtain ⟨rfl, hfree⟩ := ensured_eq_ok h
  exact hfree

theorem free_clients {reserved : List String} {cs : List ClientDeclaration}
    (h : clients d catalog reserved = .ok cs) :
    Free (cs.flatMap fun c => [c.name, c.argsName]) (exportedNames catalog ++ reserved) := by
  rw [clients] at h
  split at h
  · split at h
    · cases h
    · obtain ⟨declared, _, h⟩ := bind_eq_ok.mp h
      obtain ⟨rfl, hfree⟩ := ensured_eq_ok h
      exact hfree
  · cases h
    exact .nil _

end Declared

end ApiContract.Declaration

namespace ApiContract.Module

/-- The names of the handlers, the clients and the argument types of a module. -/
def Content.declarationNames (c : Content) : List String :=
  c.handlers.map (·.name) ++ c.clients.flatMap fun c => [c.name, c.argsName]

end ApiContract.Module

namespace ApiContract.Declaration

/-- Whichever declarations are chosen, their names are free of each other and of those that the
catalog exports. -/
theorem free_declared {d : Document} {catalog : List NamedSchema}
    {selection : Generation.Selection} {c : Module.Content}
    (h : Generation.declare d catalog selection = .ok (c.handlers, c.clients)) :
    Free c.declarationNames (exportedNames catalog) := by
  obtain ⟨hhandlers, hclients⟩ := Generation.declare_eq_ok.mp h
  refine .append ?_ ?_
  · split at hhandlers
    · exact free_handlers hhandlers
    · rw [← pure_eq_ok.mp hhandlers]
      exact .nil _
  · split at hclients
    · exact free_clients hclients
    · rw [← pure_eq_ok.mp hclients]
      exact .nil _

/-- Different names have different constants. -/
theorem const_injective : Function.Injective Naming.const := by
  intro a b h
  have hchars := congrArg String.toList h
  simp only [Naming.const, String.toList_append] at hchars
  exact String.toList_inj.mp (List.append_cancel_right hchars)

/-- The names of a module that is generated: those of its schemas and of their constants are
exported by a catalog that was built, and its declarations keep free of them. -/
theorem exists_free_of_content {source : Generation.Source} {options : Options}
    {selection : Generation.Selection} {c : Module.Content}
    (h : (Generation.content source options selection).outcome = .ok c) :
    ∃ catalog, (Catalog.names catalog).Nodup ∧ c.schemas.map (·.name) = Catalog.names catalog ∧
      c.schemas.map (·.const) = (Catalog.names catalog).map Naming.const ∧
      Free c.declarationNames (exportedNames catalog) := by
  obtain ⟨d, catalog, _, hbuild, hdeclare, hschemas⟩ := Generation.content_eq_ok.mp h
  exact ⟨catalog, (Catalog.build_eq_ok.mp hbuild).nodup, Generation.schemaTexts_names hschemas,
    Generation.schemaTexts_consts hschemas, free_declared hdeclare⟩

/-- Handlers and clients of a catalog that was built are refused exactly for their names. So the
names in a module that is generated are distinct, whichever declarations it includes. -/
theorem declarationNames_distinct :
    (∀ d catalog, Catalog.build d = .ok catalog →
      ((∃ f, handlers d catalog = .error (.generation f)) ↔ ¬ (handlerNames d).Nodup ∨
        ∃ n ∈ handlerNames d, ∃ s ∈ catalog, n = s.name ∨ n = Naming.const s.name) ∧
      (d.operations ≠ [] → d.servers ≠ [] → ∀ reserved,
        (∃ f, clients d catalog reserved = .error (.generation f)) ↔ ¬ (clientNames d).Nodup ∨
          ∃ n ∈ clientNames d, (∃ s ∈ catalog, n = s.name ∨ n = Naming.const s.name) ∨
            n ∈ reserved)) ∧
    ∀ source options selection c,
      (Generation.content source options selection).outcome = .ok c →
      c.declarationNames.Nodup ∧
      (∀ n ∈ c.declarationNames, ∀ t ∈ c.schemas, n ≠ t.name ∧ n ≠ t.const) ∧
      (c.schemas.map (·.name)).Nodup ∧ (c.schemas.map (·.const)).Nodup := by
  refine ⟨fun d catalog h => ?_, fun source options selection c h => ?_⟩
  · have hb := Catalog.build_eq_ok.mp h
    exact ⟨handlers_fails_iff hb, clients_fails_iff hb⟩
  · obtain ⟨catalog, hnodup, hnames, hconsts, hfree⟩ := exists_free_of_content h
    refine ⟨hfree.nodup, fun n hn t ht => ⟨?_, ?_⟩, ?_, ?_⟩
    · rintro rfl
      have hmem : t.name ∈ Catalog.names catalog := hnames ▸ List.mem_map_of_mem ht
      exact hfree.untaken _ hn (List.mem_append_left _ hmem)
    · rintro rfl
      have hmem : t.const ∈ (Catalog.names catalog).map Naming.const :=
        hconsts ▸ List.mem_map_of_mem ht
      exact hfree.untaken _ hn (List.mem_append_right _ hmem)
    · rw [hnames]
      exact hnodup
    · rw [hconsts]
      exact hnodup.map const_injective

/-- Two paths, one of which gives its client the name of the other's handler. -/
def lookalikeDocument : Document where
  servers := ["/v1"]
  schemas := [("Pet", .boolean .none)]
  operations := ["/pets", "/pets/handler"].map fun path =>
    ⟨"get", path, none, none, [], none, none⟩

/-- The entries of `lookalikeDocument`. -/
def lookalikeCatalog : List NamedSchema := ((Catalog.build lookalikeDocument).toOption).getD []

theorem declarationNames_distinct_lookalike :
    Catalog.build lookalikeDocument = .ok lookalikeCatalog ∧
      (¬ ∃ f, handlers lookalikeDocument lookalikeCatalog = .error (.generation f)) ∧
      (∃ f, clients lookalikeDocument lookalikeCatalog (handlerNames lookalikeDocument) =
        .error (.generation f)) ∧
      ∃ c, (Generation.content (.normalized lookalikeDocument) .standard ⟨false, true⟩).outcome =
        .ok c ∧ c.declarationNames.Nodup := by
  have hbuild : Catalog.build lookalikeDocument = .ok lookalikeCatalog := rfl
  obtain ⟨hhandlers, hclients⟩ :=
    declarationNames_distinct.1 lookalikeDocument lookalikeCatalog hbuild
  have hfree : ¬ (¬ (handlerNames lookalikeDocument).Nodup ∨ ∃ n ∈ handlerNames lookalikeDocument,
      ∃ s ∈ lookalikeCatalog, n = s.name ∨ n = Naming.const s.name) := by decide
  have hmeets : "getPetsHandler" ∈ clientNames lookalikeDocument ∧
      "getPetsHandler" ∈ handlerNames lookalikeDocument := by decide
  refine ⟨hbuild, mt hhandlers.mp hfree, ?_, _, rfl, ?_⟩
  · exact (hclients nofun nofun _).mpr (.inr ⟨_, hmeets.1, .inr hmeets.2⟩)
  · exact (declarationNames_distinct.2 (.normalized lookalikeDocument) .standard ⟨false, true⟩ _
      rfl).1

end ApiContract.Declaration

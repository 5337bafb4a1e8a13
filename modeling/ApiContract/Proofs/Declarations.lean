import ApiContract.Declaration
import ApiContract.Proofs.Catalog

/-!
Declarations and the catalog agree: what a handler or a client says of its operation, it says with
the names of entries that were made from that very operation. The two sides derive names and decide
what is there each on its own; that no name leads to an entry of something else rests on the catalog
naming nothing twice.
-/

namespace ApiContract

namespace Operation

/-- An operation has nothing for a slot. -/
def Lacks (op : Operation) : Naming.Slot → Prop
  | .requestBody => op.requestBody = none
  | .responseBody => op.response = none
  | .pathParams => ∀ p ∈ op.parameters, p.location ≠ .path
  | .queryParams => ∀ p ∈ op.parameters, p.location ≠ .query

/-- An expression is the translation of what an operation has for a slot. -/
def Translates (op : Operation) (e : Validator.Expr) : Naming.Slot → Prop
  | .requestBody => ∃ body, op.requestBody = some body ∧
      Validator.Expr.ofSchema (op.label ++ " requestBody") body.schema = .ok e
  | .responseBody => ∃ schema, op.response = some schema ∧
      Validator.Expr.ofSchema (op.label ++ " response") schema = .ok e
  | .pathParams => Validator.Expr.ofParameters (op.label ++ " path")
      (op.parameters.filter (·.location = .path)) = .ok e
  | .queryParams => Validator.Expr.ofParameters (op.label ++ " query")
      (op.parameters.filter (·.location = .query)) = .ok e

theorem has_eq_false_iff {op : Operation} {slot : Naming.Slot} :
    op.has slot = false ↔ op.Lacks slot := by
  cases slot <;> simp [has, Lacks, parametersIn]

/-- What is listed for a slot translates what the operation has there. -/
theorem translates_of_slotExpr {op : Operation} {slot : Naming.Slot} {e : Validator.Expr}
    (h : op.slotExpr slot = some (.ok e)) : op.Translates e slot := by
  cases slot with
  | requestBody => simpa [slotExpr, Translates] using h
  | responseBody => simpa [slotExpr, Translates] using h
  | pathParams =>
    simp only [slotExpr] at h
    split at h
    · exact Option.some.inj h
    · cases h
  | queryParams =>
    simp only [slotExpr] at h
    split at h
    · exact Option.some.inj h
    · cases h

theorem slotExpr_of_has {op : Operation} {slot : Naming.Slot} (h : op.has slot = true) :
    ∃ r, op.slotExpr slot = some r := by
  cases slot with
  | requestBody => simpa [slotExpr, has, Option.isSome_iff_exists] using h
  | responseBody => simpa [slotExpr, has, Option.isSome_iff_exists] using h
  | pathParams => exact ⟨_, if_pos h⟩
  | queryParams => exact ⟨_, if_pos h⟩

end Operation

namespace Declaration

/-- What a declaration says of a slot: nothing if the operation has nothing there, and else the name
of a single entry, which has the slot for its provenance and translates what is there. -/
structure FitsSlot (catalog : List NamedSchema) (op : Operation) (slot : Naming.Slot)
    (found : Option String) : Prop where
  empty : found = none ↔ op.Lacks slot
  entry : ∀ name, found = some name → ∃ s, catalog.filter (·.name == name) = [s] ∧
    s.provenance = .operation slot ∧ op.Translates s.expr slot

structure FitsSlots (catalog : List NamedSchema) (op : Operation) (types : SlotTypes) : Prop where
  request : FitsSlot catalog op .requestBody types.request
  pathParams : FitsSlot catalog op .pathParams types.pathParams
  queryParams : FitsSlot catalog op .queryParams types.queryParams
  response : FitsSlot catalog op .responseBody types.response

structure DescribesHandler (catalog : List NamedSchema) (op : Operation)
    (h : HandlerDeclaration) : Prop where
  name : h.name = Naming.handler op.method op.path
  types : FitsSlots catalog op h.types

structure DescribesClient (servers : List String) (catalog : List NamedSchema) (op : Operation)
    (c : ClientDeclaration) : Prop where
  name : c.name = Naming.client op.method op.path
  argsName : c.argsName = Naming.clientArgs op.method op.path
  method : c.method = op.upperMethod
  path : c.path = op.path
  baseUrl : servers.head? = some c.baseUrl
  bodyRequired : c.bodyRequired = true ↔ ∃ body, op.requestBody = some body ∧ body.required = true
  summary : c.summary = op.summary
  types : FitsSlots catalog op c.types

section Built

variable {d : Document} {catalog : List NamedSchema} {op : Operation}

/-- The name that is looked up for a slot is there, and belongs to the operation. -/
theorem slotType_fits (h : Catalog.Built d catalog) (hop : op ∈ d.operations)
    (slot : Naming.Slot) : ∃ found, slotType op (Catalog.names catalog) slot = .ok found ∧
      FitsSlot catalog op slot found := by
  unfold slotType
  by_cases hhas : op.has slot = true
  · obtain ⟨r, hr⟩ := Operation.slotExpr_of_has hhas
    obtain ⟨e, rfl, hmem⟩ := h.slot_mem hop hr
    have hlacks : ¬ op.Lacks slot := by
      rw [← Operation.has_eq_false_iff, hhas]
      simp
    have hname : op.slotName slot ∈ Catalog.names catalog := List.mem_map.mpr ⟨_, hmem, rfl⟩
    rw [if_pos hhas, if_pos (by simpa using hname)]
    refine ⟨_, rfl, ⟨iff_of_false (Option.some_ne_none _) hlacks, ?_⟩⟩
    rintro _ ⟨⟩
    exact ⟨_, Catalog.filter_name_eq h.nodup hmem, rfl, Operation.translates_of_slotExpr hr⟩
  · have hlacks : op.Lacks slot := Operation.has_eq_false_iff.mp (by simpa using hhas)
    rw [if_neg hhas]
    exact ⟨none, rfl, iff_of_true rfl hlacks, fun _ hname => by cases hname⟩

theorem slotTypes_fits (h : Catalog.Built d catalog) (hop : op ∈ d.operations) :
    ∃ types, slotTypes op (Catalog.names catalog) = .ok types ∧ FitsSlots catalog op types := by
  obtain ⟨request, hrequest, hfit⟩ := slotType_fits h hop .requestBody
  obtain ⟨path, hpath, hfit'⟩ := slotType_fits h hop .pathParams
  obtain ⟨query, hquery, hfit''⟩ := slotType_fits h hop .queryParams
  obtain ⟨response, hresponse, hfit'''⟩ := slotType_fits h hop .responseBody
  refine ⟨⟨request, path, query, response⟩, ?_, hfit, hfit', hfit'', hfit'''⟩
  rw [slotTypes, hrequest, hpath, hquery, hresponse]
  rfl

theorem handlerOf_describes (h : Catalog.Built d catalog) (hop : op ∈ d.operations) :
    ∃ declared, handlerOf (Catalog.names catalog) op = .ok declared ∧
      DescribesHandler catalog op declared := by
  obtain ⟨types, htypes, hfits⟩ := slotTypes_fits h hop
  exact ⟨⟨_, types⟩, by rw [handlerOf, htypes]; rfl, rfl, hfits⟩

theorem clientOf_describes (h : Catalog.Built d catalog) (hop : op ∈ d.operations)
    {baseUrl : String} (hurl : d.servers.head? = some baseUrl) :
    ∃ declared, clientOf (Catalog.names catalog) baseUrl op = .ok declared ∧
      DescribesClient d.servers catalog op declared := by
  obtain ⟨types, htypes, hfits⟩ := slotTypes_fits h hop
  have hclient : clientOf (Catalog.names catalog) baseUrl op = .ok {
      name := Naming.client op.method op.path
      argsName := Naming.clientArgs op.method op.path
      method := op.upperMethod
      path := op.path
      baseUrl := baseUrl
      types := types
      bodyRequired := op.requestBody.any (·.required)
      summary := op.summary } := by
    rw [clientOf, htypes]
    rfl
  refine ⟨_, hclient, rfl, rfl, rfl, rfl, hurl, ?_, rfl, hfits⟩
  simp [Option.any_eq_true]

theorem ensureUnique_error {names taken : List String} {i : Issue}
    (h : ensureUnique names taken = .error i) :
    ∃ name, i = .generation (.duplicateDeclaration name) := by
  unfold ensureUnique at h
  split at h
  · cases h; exact ⟨_, rfl⟩
  · cases h

/-- Declarations that are made one by one and then checked for their names fail only at the
check. -/
theorem ensured_cases {β : Type} {declared : List β} {names taken : List String} :
    (do ensureUnique names taken; return declared : Except Issue (List β)) = .ok declared ∨
      ∃ name, (do ensureUnique names taken; return declared : Except Issue (List β)) =
        .error (.generation (.duplicateDeclaration name)) := by
  cases hu : ensureUnique names taken with
  | ok u => exact .inl rfl
  | error i =>
    obtain ⟨name, rfl⟩ := ensureUnique_error hu
    exact .inr ⟨name, rfl⟩

/-- Handlers are made for every operation, or two of their names meet. -/
theorem handlers_cases (h : Catalog.Built d catalog) :
    (∃ hs, handlers d catalog = .ok hs ∧
      List.Forall₂ (DescribesHandler catalog) d.operations hs) ∨
    ∃ name, handlers d catalog = .error (.generation (.duplicateDeclaration name)) := by
  obtain ⟨hs, hmap, hall⟩ := exists_mapM_eq_ok (f := handlerOf (Catalog.names catalog)) fun op hop =>
    handlerOf_describes h hop
  rw [handlers, hmap]
  rcases @ensured_cases _ hs (hs.map (·.name)) (exportedNames catalog) with hok | ⟨name, herror⟩
  · exact .inl ⟨hs, hok, hall⟩
  · exact .inr ⟨name, herror⟩

/-- Clients are made for every operation, or there is no server to call, or two names meet. -/
theorem clients_cases (h : Catalog.Built d catalog) (reserved : List String) :
    (∃ cs, clients d catalog reserved = .ok cs ∧
      List.Forall₂ (DescribesClient d.servers catalog) d.operations cs) ∨
    clients d catalog reserved = .error (.document .noServers) ∨
    ∃ name, clients d catalog reserved = .error (.generation (.duplicateDeclaration name)) := by
  unfold clients
  by_cases hpaths : d.hasPaths = true
  · rw [if_pos hpaths]
    split
    · exact .inr (.inl rfl)
    · rename_i baseUrl rest hservers
      have hurl : d.servers.head? = some baseUrl := by rw [hservers]; rfl
      obtain ⟨cs, hmap, hall⟩ := exists_mapM_eq_ok
        (f := clientOf (Catalog.names catalog) baseUrl) fun op hop => clientOf_describes h hop hurl
      rw [hmap]
      rcases @ensured_cases _ cs (cs.flatMap fun c => [c.name, c.argsName])
        (exportedNames catalog ++ reserved) with hok | ⟨name, herror⟩
      · exact .inl ⟨cs, hok, hall⟩
      · exact .inr (.inr ⟨name, herror⟩)
  · have hnone : d.operations = [] := by simpa [Document.hasPaths] using hpaths
    rw [if_neg hpaths, hnone]
    exact .inl ⟨[], rfl, .nil⟩

end Built

/-- Declarations of a catalog that was built never miss an entry. When they are made, each of them
describes the operation of its place, and names the entries that were made from that operation. -/
theorem declarations_agree (d : Document) (catalog : List NamedSchema)
    (h : Catalog.build d = .ok catalog) :
    (∀ place name, handlers d catalog ≠ .error (.generation (.neverSynthesized place name))) ∧
    (∀ reserved place name,
      clients d catalog reserved ≠ .error (.generation (.neverSynthesized place name))) ∧
    (∀ hs, handlers d catalog = .ok hs →
      List.Forall₂ (DescribesHandler catalog) d.operations hs) ∧
    ∀ reserved cs, clients d catalog reserved = .ok cs →
      List.Forall₂ (DescribesClient d.servers catalog) d.operations cs := by
  have hb := Catalog.build_eq_ok.mp h
  refine ⟨?_, ?_, ?_, ?_⟩
  · intro place name
    rcases handlers_cases hb with ⟨hs, hok, _⟩ | ⟨_, herror⟩
    · rw [hok]; simp
    · rw [herror]; simp
  · intro reserved place name
    rcases clients_cases hb reserved with ⟨cs, hok, _⟩ | hservers | ⟨_, herror⟩
    · rw [hok]; simp
    · rw [hservers]; simp
    · rw [herror]; simp
  · intro hs hhs
    rcases handlers_cases hb with ⟨hs', hok, hall⟩ | ⟨_, herror⟩
    · rw [hok] at hhs; cases hhs
      exact hall
    · rw [herror] at hhs; cases hhs
  · intro reserved cs hcs
    rcases clients_cases hb reserved with ⟨cs', hok, hall⟩ | hservers | ⟨_, herror⟩
    · rw [hok] at hcs; cases hcs
      exact hall
    · rw [hservers] at hcs; cases hcs
    · rw [herror] at hcs; cases hcs

/-- Two operations on one path, of which only one has something for its slots. -/
def petDocument : Document where
  servers := ["/v1", "/v2"]
  schemas := [("Pet", .string .none none none none none)]
  operations := [
    { method := "post"
      path := "/pets/\x7bid\x7d"
      requestBody := some ⟨.ref .none "Pet", true⟩
      response := some (.array .none (.ref .none "Pet") none none)
      parameters := [
        ⟨"id", .path, .string .none none none none none, true, false, none, none⟩,
        ⟨"limit", .query, .number .none true none none, false, false, none, none⟩]
      summary := none
      description := none },
    { method := "delete"
      path := "/pets/\x7bid\x7d"
      requestBody := none
      response := none
      parameters := []
      summary := none
      description := none }]

/-- The entries of `petDocument`. -/
def petCatalog : List NamedSchema := ((Catalog.build petDocument).toOption).getD []

theorem declarations_agree_pets :
    Catalog.build petDocument = .ok petCatalog ∧
      (∃ hs, handlers petDocument petCatalog = .ok hs ∧
        List.Forall₂ (DescribesHandler petCatalog) petDocument.operations hs) ∧
      ∃ cs, clients petDocument petCatalog ["getPets"] = .ok cs ∧
        List.Forall₂ (DescribesClient petDocument.servers petCatalog) petDocument.operations cs := by
  have hbuild : Catalog.build petDocument = .ok petCatalog := rfl
  obtain ⟨_, _, hhandlers, hclients⟩ := declarations_agree petDocument petCatalog hbuild
  exact ⟨hbuild, ⟨_, rfl, hhandlers _ rfl⟩, _, rfl, hclients ["getPets"] _ rfl⟩

end Declaration

end ApiContract

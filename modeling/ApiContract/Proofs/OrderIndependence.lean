import ApiContract.Proofs.CatalogFaults
import ApiContract.Proofs.DeclarationNames
import ApiContract.Proofs.ReferenceCycle
import ApiContract.Proofs.ReorderedDocument

/-!
The order of schemas, paths and operations decides nothing but the order of what is generated. The
checks along the way look at all entries: whether a name repeats, whether a reference leads out of
the components, which components lie on a cycle, and whether a declared name is taken.
-/

namespace ApiContract

namespace Catalog

variable {d d' : Document} {catalog catalog' : List NamedSchema}

theorem entries_agree (h : d.Permuted d') : Agree List.Perm (entries d) (entries d') := by
  refine (Agree.mapM_perm h.schemas).bind fun components components' hcomponents => ?_
  refine (Agree.mapM_perm h.operations).bind fun operations operations' hoperations => ?_
  exact .ok (hcomponents.append hoperations.flatten)

theorem names_perm (h : catalog.Perm catalog') : (names catalog).Perm (names catalog') :=
  h.map _

theorem fault?_eq_none_perm (h : d.Permuted d') (hperm : catalog.Perm catalog') :
    fault? d.componentNames catalog = none ↔ fault? d'.componentNames catalog' = none := by
  have hdeclared : d.componentNames.Perm d'.componentNames := h.schemas.map _
  rw [fault?_eq_none, fault?_eq_none, (names_perm hperm).nodup_iff]
  simp only [hperm.mem_iff, hdeclared.mem_iff]

theorem build_agree (h : d.Permuted d') : Agree List.Perm (build d) (build d') := by
  refine (entries_agree h).bind fun catalog catalog' hperm => ?_
  have hfault := fault?_eq_none_perm h hperm
  cases hleft : fault? d.componentNames catalog with
  | none =>
    rw [hfault.mp hleft]
    exact .ok hperm
  | some f =>
    cases hright : fault? d'.componentNames catalog' with
    | none =>
      rw [hfault.mpr hright] at hleft
      cases hleft
    | some f' => exact .error

/-- The reference graph has no order. -/
theorem refers_perm (h : catalog.Perm catalog') : Refers catalog = Refers catalog' := by
  funext a b
  simp only [Refers, h.mem_iff]

theorem mem_recursiveComponents_perm (hnodup : (names catalog).Nodup)
    (h : catalog.Perm catalog') (name : String) :
    name ∈ recursiveComponents catalog ↔ name ∈ recursiveComponents catalog' := by
  have hnodup' := (names_perm h).nodup_iff.mp hnodup
  rw [mem_recursiveComponents (distinctComponents_of_nodup hnodup),
    mem_recursiveComponents (distinctComponents_of_nodup hnodup'), refers_perm h]

end Catalog

namespace Declaration

variable {d d' : Document} {catalog catalog' : List NamedSchema}

section Known

variable {known known' : List String}

theorem slotType_congr (h : ∀ n, n ∈ known ↔ n ∈ known') (op : Operation) (slot : Naming.Slot) :
    slotType op known slot = slotType op known' slot := by
  simp only [slotType, List.contains_iff_mem, h]

theorem slotTypes_congr (h : ∀ n, n ∈ known ↔ n ∈ known') (op : Operation) :
    slotTypes op known = slotTypes op known' := by
  simp only [slotTypes, slotType_congr h]

theorem handlerOf_congr (h : ∀ n, n ∈ known ↔ n ∈ known') : handlerOf known = handlerOf known' := by
  funext op
  simp only [handlerOf, slotTypes_congr h]

theorem clientOf_congr (h : ∀ n, n ∈ known ↔ n ∈ known') (baseUrl : String) :
    clientOf known baseUrl = clientOf known' baseUrl := by
  funext op
  simp only [clientOf, slotTypes_congr h]

end Known

theorem Free.perm {names names' taken taken' : List String} (h : Free names taken)
    (hnames : names.Perm names') (htaken : taken.Perm taken') : Free names' taken' where
  nodup := hnames.nodup_iff.mp h.nodup
  untaken n hn ht := h.untaken n (hnames.mem_iff.mpr hn) (htaken.mem_iff.mpr ht)

theorem ensureUnique_agree {names names' taken taken' : List String}
    (hnames : names.Perm names') (htaken : taken.Perm taken') :
    Agree Eq (ensureUnique names taken) (ensureUnique names' taken') := by
  refine .intro (fun u h => ⟨u, ?_, rfl⟩) fun u h => ⟨u, ?_⟩
  · exact ensureUnique_eq_ok.mpr ((ensureUnique_eq_ok.mp h).perm hnames htaken)
  · exact ensureUnique_eq_ok.mpr ((ensureUnique_eq_ok.mp h).perm hnames.symm htaken.symm)

theorem exportedNames_perm (h : catalog.Perm catalog') :
    (exportedNames catalog).Perm (exportedNames catalog') :=
  (Catalog.names_perm h).append ((Catalog.names_perm h).map _)

theorem handlers_agree (h : d.Permuted d') (hperm : catalog.Perm catalog') :
    Agree List.Perm (handlers d catalog) (handlers d' catalog') := by
  unfold handlers
  rw [handlerOf_congr fun n => (Catalog.names_perm hperm).mem_iff]
  refine (Agree.mapM_perm h.operations).bind fun declared declared' hdeclared => ?_
  exact (ensureUnique_agree (hdeclared.map _) (exportedNames_perm hperm)).bind
    fun _ _ _ => .ok hdeclared

theorem clients_agree (h : d.Permuted d') (hperm : catalog.Perm catalog')
    {reserved reserved' : List String} (hreserved : reserved.Perm reserved') :
    Agree List.Perm (clients d catalog reserved) (clients d' catalog' reserved') := by
  have hpaths : d.hasPaths = d'.hasPaths := by
    simp only [Document.hasPaths, h.operations.isEmpty_eq]
  unfold clients
  rw [hpaths, h.servers]
  split
  · cases d'.servers with
    | nil => exact .error
    | cons baseUrl rest =>
      simp only
      rw [clientOf_congr fun n => (Catalog.names_perm hperm).mem_iff]
      refine (Agree.mapM_perm h.operations).bind fun declared declared' hdeclared => ?_
      exact (ensureUnique_agree (hdeclared.flatMap_right _)
        ((exportedNames_perm hperm).append hreserved)).bind fun _ _ _ => .ok hdeclared
  · exact .ok (.refl [])

end Declaration

namespace Generation

variable {d d' : Document} {catalog catalog' : List NamedSchema}

theorem schemaText_congr {recursive recursive' : List String} {s : NamedSchema}
    (h : s.name ∈ recursive ↔ s.name ∈ recursive') (mark : Text.QuoteMark) :
    schemaText mark recursive s = schemaText mark recursive' s := by
  simp only [schemaText, List.contains_iff_mem, h]

/-- What two documents and their catalogs give differs in order only. -/
structure Interchangeable (d d' : Document) (catalog catalog' : List NamedSchema) : Prop where
  schemas : catalog.Perm catalog'
  recursive : ∀ name,
    name ∈ Catalog.recursiveComponents catalog ↔ name ∈ Catalog.recursiveComponents catalog'
  texts : ∀ mark, ∀ s ∈ catalog, schemaText mark (Catalog.recursiveComponents catalog) s =
    schemaText mark (Catalog.recursiveComponents catalog') s
  handlers : Agree List.Perm (Declaration.handlers d catalog) (Declaration.handlers d' catalog')
  clients : ∀ reserved reserved' : List String, reserved.Perm reserved' →
    Agree List.Perm (Declaration.clients d catalog reserved)
      (Declaration.clients d' catalog' reserved')

theorem interchangeable (h : d.Permuted d') (hbuild : Catalog.build d = .ok catalog)
    (hperm : catalog.Perm catalog') : Interchangeable d d' catalog catalog' := by
  have hnodup := (Catalog.build_eq_ok.mp hbuild).nodup
  have hrecursive := Catalog.mem_recursiveComponents_perm hnodup hperm
  exact {
    schemas := hperm
    recursive := hrecursive
    texts := fun mark s _ => schemaText_congr (hrecursive s.name) mark
    handlers := Declaration.handlers_agree h hperm
    clients := fun _ _ => Declaration.clients_agree h hperm }

theorem ofDocument_agree (h : d.Permuted d') : Agree (Interchangeable d d')
    (Catalog.ofDocument d).outcome (Catalog.ofDocument d').outcome := by
  rw [Catalog.outcome_ofDocument, Catalog.outcome_ofDocument]
  refine .intro (fun catalog hbuild => ?_) fun catalog' hbuild' => ?_
  · obtain ⟨catalog', hbuild', hperm⟩ := (Catalog.build_agree h).exists_right hbuild
    exact ⟨catalog', hbuild', interchangeable h hbuild hperm⟩
  · obtain ⟨catalog, hbuild, _⟩ := (Catalog.build_agree h).exists_left hbuild'
    exact ⟨catalog, hbuild⟩

namespace Interchangeable

theorem schemaTexts_agree (h : Interchangeable d d' catalog catalog') (mark : Text.QuoteMark) :
    Agree List.Perm (schemaTexts mark catalog) (schemaTexts mark catalog') := by
  have hsame : List.Forall₂ (fun s t => Agree Eq
      (schemaText mark (Catalog.recursiveComponents catalog) s)
      (schemaText mark (Catalog.recursiveComponents catalog') t)) catalog catalog :=
    List.forall₂_same.mpr fun s hs => .of_eq (h.texts mark s hs)
  exact (Agree.mapM_eq hsame).trans (Agree.mapM_perm h.schemas) fun _ _ _ heq hperm => heq ▸ hperm

theorem declare_agree (h : Interchangeable d d' catalog catalog') (selection : Selection) : Agree
    (fun declared declared' => declared.1.Perm declared'.1 ∧ declared.2.Perm declared'.2)
    (declare d catalog selection) (declare d' catalog' selection) := by
  rw [declare_eq, declare_eq]
  refine Agree.bind (R := List.Perm) ?_ fun hs hs' hhs => ?_
  · split
    · exact h.handlers
    · exact .ok (.refl [])
  refine Agree.bind (R := List.Perm) ?_ fun cs cs' hcs => .ok ⟨hhs, hcs⟩
  split
  · exact h.clients _ _ (hhs.map _)
  · exact .ok (.refl [])

end Interchangeable

/-- The same contents of a module in another order. -/
structure ContentPermuted (c c' : Module.Content) : Prop where
  schemas : c.schemas.Perm c'.schemas
  handlers : c.handlers.Perm c'.handlers
  clients : c.clients.Perm c'.clients

theorem content_agree {v v' : Value} (h : v.Reordered v') (options : Options)
    (selection : Selection) : Agree ContentPermuted (content (.raw v) options selection).outcome
      (content (.raw v') options selection).outcome := by
  refine Agree.trace (Document.read_agree h) fun d d' hd => ?_
  refine Agree.trace (ofDocument_agree hd) fun catalog catalog' halike => ?_
  refine Agree.trace (halike.declare_agree selection) fun declared declared' hdeclared => ?_
  refine Agree.trace (halike.schemaTexts_agree options.mark) fun texts texts' htexts => ?_
  exact .ok ⟨htexts, hdeclared.1, hdeclared.2⟩

/-- Putting a description into another order makes no difference to whether it is read, whether its
schemas, handlers and clients come out, which components are recursive and how a schema is written;
and what comes out is the same in another order. -/
theorem order_independent {v v' : Value} (h : v.Reordered v') :
    Agree (fun d d' => d.Permuted d' ∧ Agree (Interchangeable d d')
        (Catalog.ofDocument d).outcome (Catalog.ofDocument d').outcome)
      (Document.read v).outcome (Document.read v').outcome ∧
    ∀ options selection, Agree ContentPermuted (content (.raw v) options selection).outcome
      (content (.raw v') options selection).outcome :=
  ⟨(Document.read_agree h).mono fun _ _ hd => ⟨hd, ofDocument_agree hd⟩, content_agree h⟩

/-- An operation that answers with a component. -/
def answering (component : String) : Value :=
  let schema : Value := .map [(.str "$ref", .str ("#/components/schemas/" ++ component))] 0
  let content : Value := .map [(.str "application/json", .map [(.str "schema", schema)] 0)] 0
  .map [(.str "responses", .map [(.str "200", .map [(.str "content", content)] 0)] 0)] 0

/-- A path with a parameter for all its operations. -/
def petItem : Members :=
  let limit : Members := [(.str "name", .str "limit"), (.str "in", .str "query"),
    (.str "schema", .map [(.str "type", .str "integer")] 0)]
  [(.str "parameters", .seq [.map limit 0] 0), (.str "get", answering "Pet"),
    (.str "post", answering "Owner")]

/-- Two components on a cycle. -/
def ownedSchemas : Members :=
  let pet : Members := [(.str "owner", .map [(.str "$ref", .str "#/components/schemas/Owner")] 0)]
  let owner : Members := [(.str "pet", .map [(.str "$ref", .str "#/components/schemas/Pet")] 0)]
  [(.str "Pet", .map [(.str "type", .str "object"), (.str "properties", .map pet 0)] 0),
    (.str "Owner", .map [(.str "type", .str "object"), (.str "properties", .map owner 0)] 0)]

def ownedSections (item schemas : Members) : Members :=
  [(.str "servers", .seq [.map [(.str "url", .str "/v1")] 0] 0),
    (.str "paths", .map [(.str "/pets", .map item 0)] 0),
    (.str "components", .map [(.str "schemas", .map schemas 0)] 0)]

theorem reordered_owned :
    (Value.map (ownedSections petItem ownedSchemas) 0).Reordered
      (.map (ownedSections petItem.reverse ownedSchemas.reverse).reverse 0) := by
  have hitem : (Value.map petItem 0).Relisted (.map petItem.reverse 0) :=
    .of_perm (fun _ _ => rfl) (by unfold Members.Keyed; decide) (List.reverse_perm _).symm
  have hschemas : (Value.map ownedSchemas 0).Relisted (.map ownedSchemas.reverse 0) :=
    .of_perm (fun _ _ => rfl) (by unfold Members.Keyed; decide) (List.reverse_perm _).symm
  have hpaths : (Value.map [(.str "/pets", .map petItem 0)] 0).Repathed
      (.map [(.str "/pets", .map petItem.reverse 0)] 0) :=
    .of_matched (by unfold Members.Keyed; decide) (.cons ⟨rfl, hitem⟩ .nil)
  have hcomponents : (Value.map [(.str "schemas", .map ownedSchemas 0)] 0).Recomposed
      (.map [(.str "schemas", .map ownedSchemas.reverse 0)] 0) :=
    .of_matched (by unfold Members.Keyed; decide) (.cons ⟨rfl, hschemas⟩ .nil)
  refine .members (by unfold Members.Keyed; decide)
    (?_ : List.Forall₂ _ _ (ownedSections petItem.reverse ownedSchemas.reverse))
    (List.reverse_perm _).symm
  exact .cons ⟨rfl, rfl⟩ (.cons ⟨rfl, hpaths⟩ (.cons ⟨rfl, hcomponents⟩ .nil))

theorem order_independent_owned :
    let v : Value := .map (ownedSections petItem ownedSchemas) 0
    let v' : Value := .map (ownedSections petItem.reverse ownedSchemas.reverse).reverse 0
    v.Reordered v' ∧ ∃ c c', (content (.raw v) .standard .everything).outcome = .ok c ∧
      (content (.raw v') .standard .everything).outcome = .ok c' ∧ ContentPermuted c c' ∧
      c.schemas.map (·.name) ≠ c'.schemas.map (·.name) := by
  obtain ⟨c', hc', hperm⟩ :=
    ((order_independent reordered_owned).2 .standard .everything).exists_right rfl
  refine ⟨reordered_owned, _, c', rfl, hc', hperm, ?_⟩
  cases hc'
  decide

end Generation

end ApiContract

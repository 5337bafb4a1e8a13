import ApiContract.Generation
import ApiContract.Proofs.ExtendedEntries

/-!
Extensions of the objects of a description make no difference to it, however many they are. Only a
reference can take note of them, where it leads to a collection of objects and not to one of them.
-/

namespace ApiContract

namespace Document

section Reading

variable {root root' : Value}

/-! ## Operations -/

/-- An operation of a description, with the parameters that the operations of its path share. -/
inductive OperationIn (root : Value) : Value → Members → Prop
  | intro {paths item raw : Members} {path key : Scalar} {method : String} {k k' k'' : Nat} :
      pathSection root = .ok (.map paths k) → (path, .map item k') ∈ paths →
      (key, .map raw k'') ∈ item → methodOf? key = .ok (some method) →
      OperationIn root (orEmptySeq (item.get? "parameters")) raw

/-- What the body and the parameters of an operation refer to has the same flags in either
description, where it is something other than one object. -/
structure KeepsFlags (root root' shared : Value) (raw : Members) : Prop where
  body : ∀ holder knot, raw.get? "requestBody" = some (.map holder knot) →
    StandsFor root root' SameMark holder
  parameters : ∀ v items, v = shared ∨ v = orEmptySeq (raw.get? "parameters") →
    elementsOf v = .ok items → ∀ holder knot, .map holder knot ∈ items →
      StandsFor root root' SameFlags holder

theorem readOperation_extended {shared shared' : Value} {raw raw' : Members}
    (hroot : Extended .other root root') (hshared : Extended .objects shared shared')
    (h : Grown raw raw') (hflags : KeepsFlags root root' shared raw) (method : String)
    (path : Scalar) :
    Carries Eq (readOperation root method path shared raw).outcome
      (readOperation root' method path shared' raw').outcome := by
  have hparameters := orEmptySeq_objects (h.get?_rel "parameters" (by decide))
  refine Carries.trace_eq (.of_eq rfl) fun text => ?_
  refine Carries.trace_eq (readBody_extended hroot h _ hflags.body) fun body => ?_
  refine Carries.trace_eq (readResponse_extended hroot h _) fun response => ?_
  refine Carries.trace (elementsOf_objects hshared).known fun items items' hitems => ?_
  refine Carries.trace (elementsOf_objects hparameters).known fun own own' hown => ?_
  have hread := readParameters_extended hroot (List.rel_append hitems.2 hown.2)
    (String.ofList (Text.upper method.toList) ++ " " ++ text) 0 [] fun holder knot hmem =>
      (List.mem_append.mp hmem).elim
        (hflags.parameters _ _ (.inl rfl) hitems.1 holder knot)
        (hflags.parameters _ _ (.inr rfl) hown.1 holder knot)
  refine Carries.trace_eq hread fun parameters => ?_
  rw [h.get?_data "summary" (by decide), h.get?_data "description" (by decide)]
  exact .of_eq rfl

/-! ## Paths -/

theorem readPathItem_cons (path : Scalar) (shared : Value) (m : Scalar × Value) (rest : Members) :
    (readPathItem root path shared (m :: rest)).outcome = (do
      let found ← readMember root path shared m
      let ops ← (readPathItem root path shared rest).outcome
      return found.toList ++ ops) := by
  rw [readPathItem_outcome, readPathItem_outcome, List.mapM_cons]
  cases readMember root path shared m with
  | error i => rfl
  | ok found =>
    cases rest.mapM (readMember root path shared) with
    | error i => rfl
    | ok ops => cases found <;> rfl

theorem readMember_extended {shared shared' v w : Value} {key : Scalar}
    (hroot : Extended .other root root') (hshared : Extended .objects shared shared')
    (h : Extended (Role.ofKey key) v w) (hflags : ∀ raw knot method, v = .map raw knot →
      methodOf? key = .ok (some method) → KeepsFlags root root' shared raw) (path : Scalar) :
    Carries Eq (readMember root path shared (key, v)) (readMember root' path shared' (key, w)) := by
  cases hmethod : methodOf? key with
  | error i =>
    simp only [readMember, hmethod]
    exact .error i
  | ok found =>
    cases found with
    | none =>
      simp only [readMember, hmethod]
      exact .ok rfl
    | some method =>
      rw [Role.ofKey_method hmethod] at h
      by_cases hmap : ∃ raw knot, v = .map raw knot
      · obtain ⟨raw, knot, rfl⟩ := hmap
        obtain ⟨raw', hmembers, hgrown⟩ := membersOf_object h raw rfl
        obtain ⟨knot', rfl⟩ := membersOf_eq_ok.mp hmembers
        rw [readMember_operation hmethod, readMember_operation hmethod]
        exact (readOperation_extended hroot hshared hgrown
          (hflags raw knot method rfl hmethod) method path).map fun _ _ => congrArg some
      · obtain ⟨i, hi⟩ := readMember_fails (m := (key, v)) hmethod
          (fun raw knot heq => hmap ⟨raw, knot, heq⟩) root path shared
        rw [hi]
        exact .error i

theorem readPathItem_extended {shared shared' : Value} {item item' : Members}
    (hroot : Extended .other root root') (hshared : Extended .objects shared shared')
    (h : Grown item item') (hflags : ∀ key raw knot method, (key, .map raw knot) ∈ item →
      methodOf? key = .ok (some method) → KeepsFlags root root' shared raw) (path : Scalar) :
    Carries Eq (readPathItem root path shared item).outcome
      (readPathItem root' path shared' item').outcome := by
  induction h using Grown.induct with
  | nil => exact .of_eq rfl
  | kept hvw _ ih =>
    rw [readPathItem_cons, readPathItem_cons]
    refine Carries.bind (readMember_extended hroot hshared hvw
      (fun raw knot method hv => hflags _ raw knot method (hv ▸ List.mem_cons_self)) path) ?_
    rintro found _ rfl
    refine Carries.bind (ih fun key raw knot method hmem =>
      hflags key raw knot method (List.mem_cons_of_mem _ hmem)) ?_
    rintro ops _ rfl
    exact .of_eq rfl
  | @added key v _ _ hkey _ _ ih =>
    -- No extension is named like a method, so it is passed over.
    have hnone : readMember root' path shared' (.str key, v) = .ok none := by
      rw [readMember, methodOf?_extension hkey]
      rfl
    intro ops hops
    obtain ⟨_, hops', rfl⟩ := ih hflags ops hops
    rw [readPathItem_cons, hnone, hops']
    exact ⟨ops, rfl, rfl⟩

/-- The operations of a path keep the flags of what they refer to. -/
def PathKeepsFlags (root root' : Value) (m : Scalar × Value) : Prop :=
  ∀ (item : Members) knot key raw knot' method, m.2 = .map item knot →
    (key, .map raw knot') ∈ item → methodOf? key = .ok (some method) →
      KeepsFlags root root' (orEmptySeq (item.get? "parameters")) raw

theorem readPath_extended {path : Scalar} {v w : Value} (hroot : Extended .other root root')
    (h : Extended .object v w) (hflags : PathKeepsFlags root root' (path, v)) :
    Carries Eq (readPath root (path, v)) (readPath root' (path, w)) := by
  have hmap : ∀ {item item' : Members} {knot knot' : Nat}, v = .map item knot →
      Grown item item' → Carries Eq (readPath root (path, .map item knot))
        (readPath root' (path, .map item' knot')) := by
    intro item item' knot knot' hv hgrown
    have hshared := hgrown.get?_rel "parameters" (by decide)
    exact readPathItem_extended hroot (orEmptySeq_objects hshared) hgrown
      (fun key raw knot' method => hflags item knot key raw knot' method hv) path
  cases h with
  | same =>
    cases v with
    | map item knot => exact hmap rfl (.refl item)
    | _ =>
      simp only [readPath]
      exact .bind (.of_eq rfl) fun _ _ _ => .error _
  | object h => exact hmap rfl h

theorem readPaths_extended {paths paths' : Members} (hroot : Extended .other root root')
    (h : Populated paths paths') (hflags : ∀ m ∈ paths, PathKeepsFlags root root' m) :
    Carries Eq (readPaths root paths).outcome (readPaths root' paths').outcome := by
  rw [readPaths_outcome, readPaths_outcome]
  have hsteps : List.Forall₂ (fun m n => Carries Eq (readPath root m) (readPath root' n)) paths
      paths' :=
    Members.Matched.forall₂ h.matched hflags fun _ _ _ hkeeps hvw =>
      readPath_extended hroot hvw hkeeps
  refine (Carries.mapM hsteps).map fun found found' heq => ?_
  rw [List.forall₂_eq_eq_eq] at heq
  rw [heq]

/-! ## Descriptions -/

theorem readComponent_extended {v w : Value} (h : Extended .object v w) (name : Scalar) :
    readComponent name w = readComponent name v := by
  rw [readComponent, readComponent]
  cases name.spelledPlain with
  | ok place => exact Schema.read_extended place w h
  | error i => simp only [readNameless, Schema.read_extended "" w h]

theorem readSchemas_populated {members others : Members} (h : Populated members others) :
    readSchemas others = readSchemas members := by
  have hmatched := h.matched
  clear h
  induction hmatched with
  | nil => rfl
  | @cons m n _ _ hmn _ ih =>
    obtain ⟨name, v⟩ := m
    obtain ⟨_, w⟩ := n
    obtain ⟨rfl, hvw⟩ := hmn
    rw [readSchemas, readSchemas, readComponent_extended hvw, ih]

theorem readListing_extended {v w : Value} (h : Extended .objects v w) :
    readListing w = readListing v := by
  cases h with
  | same => rfl
  | mapping h => exact readSchemas_populated h
  | listing _ => rfl

theorem schemaSection_extended (h : Extended .object root root') :
    Carries (Extended .objects) (schemaSection root) (schemaSection root') := by
  refine Carries.bind (membersOf_object h) fun members others h => ?_
  have hcomponents := orEmptyMap_object (h.get?_rel "components" (by decide))
  refine Carries.bind (membersOf_object hcomponents) fun components components' h => ?_
  exact .ok (orEmptyMap_objects (h.get?_rel "schemas" (by decide)))

theorem readSection_extended {v w : Value} (hroot : Extended .other root root')
    (h : Extended .objects v w)
    (hflags : ∀ paths knot, v = .map paths knot → ∀ m ∈ paths, PathKeepsFlags root root' m) :
    Carries Eq (readSection root v).outcome (readSection root' w).outcome := by
  have hmap : ∀ {paths paths' : Members} {knot knot' : Nat}, v = .map paths knot →
      Populated paths paths' → Carries Eq (readSection root (.map paths knot)).outcome
        (readSection root' (.map paths' knot')).outcome :=
    fun hv hpopulated => readPaths_extended hroot hpopulated (hflags _ _ hv)
  cases h with
  | same =>
    cases v with
    | map paths knot => exact hmap rfl (.refl paths)
    | _ => exact .error _
  | mapping h => exact hmap rfl h
  | listing _ => exact .error _

/-- Extensions make no difference to what is read of a description. -/
theorem read_extended {d : Document} (h : Extended .object root root')
    (hflags : ∀ shared raw, OperationIn root shared raw → KeepsFlags root root' shared raw)
    (hd : (read root).outcome = .ok d) : (read root').outcome = .ok d := by
  cases h with
  | same => exact hd
  | @object members others knot knot' h =>
    have hroot : Extended .other (.map members knot) (.map others knot') := .otherObject (.object h)
    have hpaths := orEmptyMap_objects (h.get?_rel "paths" (by decide))
    have hsection := readSection_extended hroot hpaths
      fun paths k hsection m hm item k' key raw k'' method hitem hraw hmethod =>
        hflags _ _ (.intro (congrArg Except.ok hsection) (by rw [← hitem]; exact hm) hraw hmethod)
    have hread : Carries Eq (read (.map members knot)).outcome
        (read (.map others knot')).outcome := by
      rw [read_outcome, read_outcome,
        serverUrls_congr knot' knot (h.get?_data "servers" (by decide))]
      refine (schemaSection_extended (.object h)).bind fun listing listing' hlisting => ?_
      rw [readListing_extended hlisting]
      refine Carries.bind (.of_eq rfl) fun schemas _ hschemas => ?_
      cases hschemas
      refine hsection.bind fun operations _ hoperations => ?_
      cases hoperations
      exact .of_eq rfl
    obtain ⟨_, hread, rfl⟩ := hread d hd
    exact hread

end Reading

end Document

namespace Generation

/-- A description is looked at once, at the beginning. -/
theorem content_congr {source source' : Source}
    (h : (normalize source').outcome = (normalize source).outcome) (options : Options)
    (selection : Selection) : (content source' options selection).outcome =
      (content source options selection).outcome := by
  simp only [content, Traced.outcome_bind, Traced.outcome_stage, h]

/-- Extensions of the objects of a description make no difference to the document and to the
module, whichever objects they are put in and however many they are. Something is asked only where a
body or a parameter refers to a collection of objects: its flags stay as they are. -/
theorem extensions_inert {root root' : Value} {d : Document} (h : Extended .object root root')
    (hflags : ∀ shared raw, Document.OperationIn root shared raw →
      Document.KeepsFlags root root' shared raw)
    (hd : (Document.read root).outcome = .ok d) :
    (Document.read root').outcome = .ok d ∧ ∀ options selection,
      (content (.raw root') options selection).outcome =
        (content (.raw root) options selection).outcome ∧
      (content (.raw root') options selection >>= moduleText options).outcome =
        (content (.raw root) options selection >>= moduleText options).outcome := by
  have hd' := Document.read_extended h hflags hd
  have hcontent := @content_congr (.raw root) (.raw root') (hd'.trans hd.symm)
  refine ⟨hd', fun options selection => ⟨hcontent options selection, ?_⟩⟩
  rw [Traced.outcome_bind, Traced.outcome_bind, hcontent]

/-! ## A description with a note in each of its objects -/

def noted (note members : Members) : Value := .map (note ++ members) 0

def petSchema (note : Members) : Value :=
  noted note [(.str "properties",
    .map [(.str "name", noted note [(.str "type", .str "string")])] 0)]

/-- A body or a response. -/
def petHolder (note : Members) : Value :=
  noted note [(.str "content",
    .map [(.str "application/json", noted note [(.str "schema", petSchema note)])] 0)]

def limitReference : Members := [(.str "$ref", .str "#/components/parameters/Limit")]

def limitMembers (note : Members) : Members :=
  [(.str "name", .str "limit"), (.str "in", .str "query"), (.str "schema", noted note [])]

def limitComponent (note : Members) : Value := noted note (limitMembers note)

def petOperation (note : Members) : Value :=
  noted note [(.str "parameters", .seq [.map limitReference 0] 0),
    (.str "requestBody", petHolder note),
    (.str "responses", .map [(.int 200, petHolder note)] 0)]

def petShop (note : Members) : Value :=
  .map [(.str "components",
      .map [(.str "parameters", .map [(.str "Limit", limitComponent note)] 0)] 0),
    (.str "paths", .map [(.str "/pets", noted note [(.str "post", petOperation note)])] 0)] 0

section PetShop

variable (v : Value)

theorem noted_extended {members others : Members} (hfresh : members.get? "x-note" = none)
    (h : Grown members others) :
    Extended .object (noted [] members) (noted [(.str "x-note", v)] others) :=
  .object (.added (by decide) hfresh h)

theorem petHolder_extended :
    Extended .object (petHolder []) (petHolder [(.str "x-note", v)]) := by
  have hname := noted_extended v rfl (.refl [(.str "type", .str "string")])
  have hpet : Extended .object (petSchema []) (petSchema [(.str "x-note", v)]) :=
    noted_extended v rfl (.kept (.mapping (.cons hname .nil)) .nil)
  have hmedia := noted_extended v rfl (@Grown.kept (.str "schema") _ _ _ _ hpet .nil)
  exact noted_extended v rfl (.kept (.mapping (.cons hmedia .nil)) .nil)

theorem limitMembers_grown :
    Grown (limitMembers []) ((.str "x-note", v) :: limitMembers [(.str "x-note", v)]) :=
  .added (by decide) rfl (.kept .same (.kept .same (.kept (noted_extended v rfl .nil) .nil)))

theorem petShop_extended : Extended .object (petShop []) (petShop [(.str "x-note", v)]) := by
  have hholder := petHolder_extended v
  have hlimit : Extended .object (limitComponent []) (limitComponent [(.str "x-note", v)]) :=
    .object (limitMembers_grown v)
  have hoperation : Extended .object (petOperation []) (petOperation [(.str "x-note", v)]) :=
    noted_extended v rfl
      (.kept .same (.kept hholder (.kept (.mapping (.cons hholder .nil)) .nil)))
  have hitem := noted_extended v rfl (@Grown.kept (.str "post") _ _ _ _ hoperation .nil)
  exact .object (.kept (.object (.kept (.mapping (.cons hlimit .nil)) .nil))
    (.kept (.mapping (.cons hitem .nil)) .nil))

/-- Its one reference leads to a parameter, so it is extended like any other object. -/
theorem petShop_keepsFlags {shared : Value} {raw : Members}
    (h : Document.OperationIn (petShop []) shared raw) :
    Document.KeepsFlags (petShop []) (petShop [(.str "x-note", v)]) shared raw := by
  obtain ⟨hsection, hpath, hkey, _⟩ := h
  cases hsection
  cases List.mem_singleton.mp hpath
  cases List.mem_singleton.mp hkey
  constructor
  · intro holder knot hholder
    cases hholder
    exact .of_inline rfl
  · intro given items hgiven hitems holder knot hmem found other hfound hother hgrown
    rcases hgiven with rfl | rfl
    · cases hitems
      cases hmem
    · cases hitems
      cases List.mem_singleton.mp hmem
      cases hfound
      cases hother
      exact absurd (limitMembers_grown v) hgrown

end PetShop

/-! ## Bodies that are no objects of the description -/

def stringSchema : Members := [(.str "type", .str "string")]

def jsonContent : Members :=
  [(.str "content", .map [(.str "application/json", .map [(.str "schema", .map stringSchema 0)] 0)]
    0)]

/-- A description whose one body is what a pointer leads to. -/
def orderShop (pointer : String) (schemas : Members) : Value :=
  .map [(.str "components", .map [(.str "schemas", .map schemas 0)] 0),
    (.str "paths", .map [(.str "/orders", .map [(.str "post",
      .map [(.str "requestBody", .map [(.str "$ref", .str pointer)] 0)] 0)] 0)] 0)] 0

/-- The body is the collection of the schemas, one of which has the name of a flag. -/
def schemasAsBody (flag : Members) : Value :=
  orderShop "#/components/schemas" (jsonContent ++ [(.str "required", .map flag 0)])

theorem schemasAsBody_extended {flag flag' : Members} (h : Grown flag flag') :
    Extended .object (schemasAsBody flag) (schemasAsBody flag') :=
  .object (.kept (.object (.kept (.mapping (.cons .same (.cons (.object h) .nil))) .nil))
    (.kept .same .nil))

/-- A schema that says something is a flag that is set, whatever is put into it. -/
theorem schemasAsBody_keepsFlags (v : Value) {shared : Value} {raw : Members}
    (h : Document.OperationIn (schemasAsBody stringSchema) shared raw) :
    Document.KeepsFlags (schemasAsBody stringSchema)
      (schemasAsBody ((.str "x-note", v) :: stringSchema)) shared raw := by
  obtain ⟨hsection, hpath, hkey, _⟩ := h
  cases hsection
  cases List.mem_singleton.mp hpath
  cases List.mem_singleton.mp hkey
  constructor
  · intro holder knot hholder found other hfound hother _
    cases hholder
    cases hfound
    cases hother
    rfl
  · intro given items hgiven hitems holder knot hmem
    rcases hgiven with rfl | rfl <;>
    · cases hitems
      cases hmem

theorem extensions_inert_petShop :
    (∃ d, (Document.read (petShop [])).outcome = .ok d ∧
      (Document.read (petShop [(.str "x-note", .str "draft")])).outcome = .ok d ∧
      (d.operations.map fun op => (op.parameters.map (·.name), op.requestBody.map (·.required))) =
        [(["limit"], some false)]) ∧
    ∃ d, (Document.read (schemasAsBody stringSchema)).outcome = .ok d ∧
      (Document.read (schemasAsBody ((.str "x-note", .int 1) :: stringSchema))).outcome = .ok d ∧
      (d.operations.map fun op => op.requestBody.map (·.required)) = [some true] := by
  have hpets : (Document.read (petShop [])).outcome = .ok _ := rfl
  have horders : (Document.read (schemasAsBody stringSchema)).outcome = .ok _ := rfl
  have hflag : Grown stringSchema ((.str "x-note", .int 1) :: stringSchema) :=
    .added (by decide) rfl (.refl _)
  refine ⟨⟨_, hpets, ?_, rfl⟩, _, horders, ?_, rfl⟩
  · exact (extensions_inert (petShop_extended _) (fun _ _ => petShop_keepsFlags _) hpets).1
  · exact (extensions_inert (schemasAsBody_extended hflag)
      (fun _ _ => schemasAsBody_keepsFlags _) horders).1

/-- The body is the default of a schema, which is data. -/
def defaultAsBody (note : Members) : Value :=
  orderShop "#/components/schemas/Pet/default"
    [(.str "Pet", .map [(.str "default", noted note jsonContent)] 0)]

/-- The body is the collection of the schemas, in which every name is free. -/
def collectionAsBody (note : Members) : Value :=
  orderShop "#/components/schemas" (note ++ jsonContent)

/-- Three notes in the body of the one operation: in a schema under the name of a flag it makes the
body a required one, in the default of a schema it changes that default, and in the collection of
the schemas it is one more schema. -/
theorem extensions_inert_fails :
    (Extended .object (schemasAsBody []) (schemasAsBody [(.str "x-note", .int 1)]) ∧
      ∃ d d', (Document.read (schemasAsBody [])).outcome = .ok d ∧
        (Document.read (schemasAsBody [(.str "x-note", .int 1)])).outcome = .ok d' ∧
        (d.operations.map fun op => op.requestBody.map (·.required)) = [some false] ∧
        (d'.operations.map fun op => op.requestBody.map (·.required)) = [some true]) ∧
    (∃ d d', (Document.read (defaultAsBody [])).outcome = .ok d ∧
      (Document.read (defaultAsBody [(.str "x-note", .int 1)])).outcome = .ok d' ∧
      (d.schemas.map fun s => s.2.traits.default) = [some (noted [] jsonContent)] ∧
      (d'.schemas.map fun s => s.2.traits.default) =
        [some (noted [(.str "x-note", .int 1)] jsonContent)]) ∧
    ∃ d d', (Document.read (collectionAsBody [])).outcome = .ok d ∧
      (Document.read (collectionAsBody [(.str "x-note", .map [] 0)])).outcome = .ok d' ∧
      d.componentNames = ["content"] ∧ d'.componentNames = ["x-note", "content"] := by
  have hflag : Grown [] [(.str "x-note", .int 1)] := .added (by decide) rfl .nil
  exact ⟨⟨schemasAsBody_extended hflag, _, _, rfl, rfl, rfl, rfl⟩, ⟨_, _, rfl, rfl, rfl, rfl⟩,
    _, _, rfl, rfl, rfl, rfl⟩

end Generation

end ApiContract

import ApiContract.Document.Reading
import ApiContract.Proofs.SchemaSource

/-!
What a description that was read is made of: its named schemas and its operations, each read from a
part of the description. Every operation has one of the known methods, however its key spells it.
-/

namespace ApiContract.Document

theorem methodOf?_mem {key : Scalar} {method : String} (h : methodOf? key = .ok (some method)) :
    method ∈ methods := by
  cases key with
  | str s =>
    simp only [methodOf?, Except.ok.injEq] at h
    split at h
    · rename_i hknown
      cases h
      simpa using hknown
    · cases h
  | bytes octets => cases h
  | _ => cases h

/-- An operation that was read has the method it was read under, a body and a response that were
read from its mapping, and the parameters of what its path and itself list. -/
theorem readOperation_eq_ok {root shared : Value} {method : String} {path : Scalar} {raw : Members}
    {op : Operation} (h : (readOperation root method path shared raw).outcome = .ok op) :
    op.method = method ∧ ∃ place sharedItems ownItems,
      (readBody root place raw).outcome = .ok op.requestBody ∧
      (readResponse root place raw).outcome = .ok op.response ∧
      elementsOf shared = .ok sharedItems ∧
      elementsOf (orEmptySeq (raw.get? "parameters")) = .ok ownItems ∧
      (readParameters root place 0 [] (sharedItems ++ ownItems)).outcome = .ok op.parameters := by
  rw [readOperation] at h
  obtain ⟨_, _, h⟩ := Traced.bind_outcome_eq_ok.mp h
  obtain ⟨body, hbody, h⟩ := Traced.bind_outcome_eq_ok.mp h
  obtain ⟨response, hresponse, h⟩ := Traced.bind_outcome_eq_ok.mp h
  obtain ⟨sharedItems, hshared, h⟩ := Traced.bind_outcome_eq_ok.mp h
  obtain ⟨ownItems, hown, h⟩ := Traced.bind_outcome_eq_ok.mp h
  obtain ⟨parameters, hparameters, h⟩ := Traced.bind_outcome_eq_ok.mp h
  rw [Traced.outcome_ofExcept] at hshared hown h
  obtain ⟨_, _, h⟩ := bind_eq_ok.mp h
  obtain ⟨_, _, h⟩ := bind_eq_ok.mp h
  obtain ⟨_, _, h⟩ := bind_eq_ok.mp h
  cases pure_eq_ok.mp h
  exact ⟨rfl, _, sharedItems, ownItems, hbody, hresponse, hshared, hown, hparameters⟩

/-- All members of a mapping are parts of a description. -/
def MembersInside (root : Value) (members : Members) : Prop := ∀ m ∈ members, m.2.Inside root

theorem MembersInside.of_map {root : Value} {members : Members} {knot : Nat}
    (h : (Value.map members knot).Inside root) : MembersInside root members :=
  fun _ hm => (Value.Inside.member hm .whole).trans h

theorem MembersInside.get? {root : Value} {members : Members} {key : String} {v : Value}
    (h : MembersInside root members) (hget : members.get? key = some v) : v.Inside root :=
  h _ (Members.mem_of_get? hget)

/-- An operation was read under its method, from a part of the description. -/
structure OperationFrom (root : Value) (op : Operation) : Prop where
  method : op.method ∈ methods
  source : ∃ path shared raw knot, (Value.map raw knot).Inside root ∧
    (shared.Inside root ∨ shared = .seq [] 0) ∧
    (readOperation root op.method path shared raw).outcome = .ok op

theorem readPathItem_from {root shared : Value} {path : Scalar} {item : List (Scalar × Value)}
    {ops : List Operation} (hitem : MembersInside root item)
    (hshared : shared.Inside root ∨ shared = .seq [] 0)
    (h : (readPathItem root path shared item).outcome = .ok ops) :
    ∀ op ∈ ops, OperationFrom root op := by
  induction item generalizing ops with
  | nil =>
    rw [readPathItem] at h
    cases h
    exact List.forall_mem_nil _
  | cons member rest ih =>
    obtain ⟨key, raw⟩ := member
    obtain ⟨hraw, hrest⟩ := List.forall_mem_cons.mp hitem
    rw [readPathItem] at h
    obtain ⟨found, hfound, h⟩ := Traced.bind_outcome_eq_ok.mp h
    cases found with
    | none => exact ih hrest h
    | some method =>
      cases raw with
      | map members knot =>
        obtain ⟨op, hop, h⟩ := Traced.bind_outcome_eq_ok.mp h
        obtain ⟨others, hothers, h⟩ := Traced.bind_outcome_eq_ok.mp h
        cases h
        refine List.forall_mem_cons.mpr ⟨?_, ih hrest hothers⟩
        cases (readOperation_eq_ok hop).1
        exact ⟨methodOf?_mem hfound, path, shared, members, knot, hraw, hshared, hop⟩
      | _ =>
        obtain ⟨_, _, h⟩ := Traced.bind_outcome_eq_ok.mp h
        cases h

theorem orEmptySeq_inside {root : Value} {members : Members} (h : MembersInside root members)
    (key : String) : (orEmptySeq (members.get? key)).Inside root ∨
      orEmptySeq (members.get? key) = .seq [] 0 := by
  unfold orEmptySeq
  cases hv : Value.present? (members.get? key) with
  | none => exact .inr rfl
  | some v => exact .inl (h.get? (Value.present?_eq_some.mp hv).1)

theorem readPaths_from {root : Value} {paths : List (Scalar × Value)} {ops : List Operation}
    (hpaths : MembersInside root paths) (h : (readPaths root paths).outcome = .ok ops) :
    ∀ op ∈ ops, OperationFrom root op := by
  induction paths generalizing ops with
  | nil =>
    rw [readPaths] at h
    cases h
    exact List.forall_mem_nil _
  | cons entry rest ih =>
    obtain ⟨path, item⟩ := entry
    obtain ⟨hitem, hrest⟩ := List.forall_mem_cons.mp hpaths
    cases item with
    | map members knot =>
      rw [readPaths] at h
      obtain ⟨here, hhere, h⟩ := Traced.bind_outcome_eq_ok.mp h
      obtain ⟨others, hothers, h⟩ := Traced.bind_outcome_eq_ok.mp h
      cases h
      have hmembers := MembersInside.of_map hitem
      have hshared := orEmptySeq_inside hmembers "parameters"
      exact List.forall_mem_append.mpr ⟨readPathItem_from hmembers hshared hhere, ih hrest hothers⟩
    | _ =>
      rw [readPaths] at h
      · obtain ⟨_, _, h⟩ := Traced.bind_outcome_eq_ok.mp h
        cases h
      · simp

/-- A named schema was read from its member, under the text of its key. -/
structure ComponentFrom (m : Scalar × Value) (c : String × Schema) : Prop where
  name : Field.text (.scalar m.1) = .ok c.1
  read : (readComponent m.1 m.2).outcome = .ok c.2

theorem readSchemas_forall₂ {raw : List (Scalar × Value)} {schemas : List (Scalar × Schema)}
    (h : (readSchemas raw).outcome = .ok schemas) :
    List.Forall₂ (fun m p => p.1 = m.1 ∧ (readComponent m.1 m.2).outcome = .ok p.2) raw schemas := by
  induction raw generalizing schemas with
  | nil =>
    cases h
    exact .nil
  | cons m rest ih =>
    obtain ⟨schema, hschema, h⟩ := Traced.bind_outcome_eq_ok.mp h
    obtain ⟨others, hothers, h⟩ := Traced.bind_outcome_eq_ok.mp h
    cases h
    exact .cons ⟨rfl, hschema⟩ (ih hothers)

/-- A section that was read as a mapping is one of the description, or it is empty. -/
theorem orEmptyMap_inside {root : Value} {members raw : Members} {knot : Nat} {key : String}
    (hmembers : MembersInside root members)
    (h : orEmptyMap (members.get? key) = .map raw knot) : MembersInside root raw := by
  unfold orEmptyMap at h
  cases hv : Value.present? (members.get? key) with
  | none =>
    rw [hv] at h
    cases h
    exact List.forall_mem_nil _
  | some v =>
    rw [hv] at h
    cases h
    exact .of_map (hmembers.get? (Value.present?_eq_some.mp hv).1)

theorem membersOf_eq_ok {v : Value} {members : Members} :
    membersOf v = .ok members ↔ ∃ knot, v = .map members knot := by
  cases v with
  | map found knot => simp [membersOf]
  | _ => simp [membersOf]

theorem section_inside {root : Value} {members raw : Members} {key : String}
    (hmembers : MembersInside root members)
    (h : membersOf (orEmptyMap (members.get? key)) = .ok raw) : MembersInside root raw := by
  obtain ⟨knot, hmap⟩ := membersOf_eq_ok.mp h
  exact orEmptyMap_inside hmembers hmap

theorem fieldResult_eq_ok {α : Type} {place : String} {x : Except FieldIssue α} {a : α} :
    fieldResult place x = .ok a ↔ x = .ok a := by
  cases x <;> simp [fieldResult]

/-- Finishing a document leaves its operations as they were read, and names its schemas. -/
theorem finish_eq_ok {schemas : List (Scalar × Schema)} {ops : List Operation} {urls : List Value}
    {d : Document} (h : finish schemas ops urls = .ok d) : d.operations = ops ∧ ∃ names,
      d.schemas = names.zip (schemas.map (·.2)) ∧
      List.Forall₂ (fun p name => Field.text (.scalar p.1) = .ok name) schemas names := by
  obtain ⟨_, _, h⟩ := bind_eq_ok.mp h
  obtain ⟨names, hnames, h⟩ := bind_eq_ok.mp h
  cases pure_eq_ok.mp h
  have htexts := Schema.texts_forall₂ (fieldResult_eq_ok.mp hnames)
  exact ⟨rfl, names, rfl, List.forall₂_map_left_iff.mp htexts⟩

/-- What a description was read from. -/
structure From (root : Value) (d : Document) : Prop where
  schemas : ∃ raw, MembersInside root raw ∧ List.Forall₂ ComponentFrom raw d.schemas
  operations : ∀ op ∈ d.operations, OperationFrom root op

theorem read_from {root : Value} {d : Document} (h : (read root).outcome = .ok d) :
    From root d := by
  cases root with
  | map members knot =>
    have hroot : MembersInside (.map members knot) members := .of_map .whole
    rw [read] at h
    obtain ⟨schemaPart, hschemaPart, h⟩ := Traced.bind_outcome_eq_ok.mp h
    cases schemaPart with
    | map rawSchemas _ =>
      obtain ⟨schemas, hschemas, h⟩ := Traced.bind_outcome_eq_ok.mp h
      obtain ⟨pathPart, hpathPart, h⟩ := Traced.bind_outcome_eq_ok.mp h
      cases pathPart with
      | map rawPaths _ =>
        obtain ⟨ops, hops, h⟩ := Traced.bind_outcome_eq_ok.mp h
        obtain ⟨urls, _, h⟩ := Traced.bind_outcome_eq_ok.mp h
        obtain ⟨hoperations, names, hnamed, hnames⟩ := finish_eq_ok h
        refine ⟨⟨rawSchemas, ?_, ?_⟩, ?_⟩
        · obtain ⟨_, hmembers, hschemaPart⟩ := bind_eq_ok.mp hschemaPart
          cases hmembers
          obtain ⟨components, hcomponents, hmap⟩ := bind_eq_ok.mp hschemaPart
          exact orEmptyMap_inside (section_inside hroot hcomponents) (pure_eq_ok.mp hmap)
        · rw [hnamed]
          have hread := Schema.named_forall₂ (R := fun m s => (readComponent m.1 m.2).outcome = .ok s)
            (readSchemas_forall₂ hschemas) hnames
          exact hread.imp fun _ _ hc => ⟨hc.1, hc.2⟩
        · rw [hoperations]
          exact readPaths_from (orEmptyMap_inside hroot (pure_eq_ok.mp hpathPart)) hops
      | _ =>
        obtain ⟨_, hfails, _⟩ := Traced.bind_outcome_eq_ok.mp h
        cases hfails
    | _ =>
      obtain ⟨_, hfails, _⟩ := Traced.bind_outcome_eq_ok.mp h
      cases hfails
  | _ => cases h

/-- All operations have one of the known methods. -/
def KnownMethods (ops : List Operation) : Prop := ∀ op ∈ ops, op.method ∈ methods

theorem read_known {value : Value} {d : Document} (h : (read value).outcome = .ok d) :
    KnownMethods d.operations :=
  fun op hop => ((read_from h).operations op hop).method

end ApiContract.Document

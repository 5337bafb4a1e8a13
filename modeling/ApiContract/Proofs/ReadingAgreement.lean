import ApiContract.Proofs.Agreement
import ApiContract.Proofs.DocumentSource

/-!
When two descriptions are read alike. A description is looked at as a whole only to follow
references; so operations are read alike if their parts are, and if each reference leads to
mappings that say the same under the keys that are read.
-/

namespace ApiContract

/-! ## Mappings with the same keys -/

/-- Members with the same keys, matched up. -/
abbrev Members.Matched (R : Scalar → Value → Value → Prop) : Members → Members → Prop :=
  List.Forall₂ fun m n => m.1 = n.1 ∧ R m.1 m.2 n.2

theorem Members.Matched.get? {R : Scalar → Value → Value → Prop} {members others : Members}
    (h : Members.Matched R members others) (key : String) :
    Option.Rel (R (.str key)) (members.get? key) (others.get? key) := by
  induction h with
  | nil => exact .none
  | @cons m n _ _ hmn _ ih =>
    obtain ⟨k, v⟩ := m
    obtain ⟨k', w⟩ := n
    obtain ⟨rfl, hvw⟩ := hmn
    rw [Members.get?, Members.get?]
    split
    next hk =>
      rw [hk] at hvw
      exact .some hvw
    next => exact ih

/-- Member by member, from what is known of the first ones. -/
theorem Members.Matched.forall₂ {R : Scalar → Value → Value → Prop} {P : Scalar × Value → Prop}
    {Q : Scalar × Value → Scalar × Value → Prop} {members others : Members}
    (h : Members.Matched R members others) (hknown : ∀ m ∈ members, P m)
    (hstep : ∀ k v w, P (k, v) → R k v w → Q (k, v) (k, w)) : List.Forall₂ Q members others := by
  refine ((List.forall₂_and_left _ _).mpr ⟨hknown, h⟩).imp fun m n hmn => ?_
  obtain ⟨k, v⟩ := m
  obtain ⟨_, w⟩ := n
  obtain ⟨hm, rfl, hvw⟩ := hmn
  exact hstep k v w hm hvw

/-- The first member whose key is as wanted stands at the same place in both. -/
theorem Members.Matched.find? {R : Scalar → Value → Value → Prop} {members others : Members}
    (h : Members.Matched R members others) (wanted : Scalar → Bool) :
    Option.Rel (fun v w => ∃ key, R key v w) ((members.find? fun m => wanted m.1).map (·.2))
      ((others.find? fun m => wanted m.1).map (·.2)) := by
  induction h with
  | nil => exact .none
  | @cons m n _ _ hmn _ ih =>
    obtain ⟨key, v⟩ := m
    obtain ⟨_, w⟩ := n
    obtain ⟨rfl, hvw⟩ := hmn
    rw [List.find?_cons, List.find?_cons]
    cases wanted key with
    | true => exact .some ⟨key, hvw⟩
    | false => exact ih

namespace Document

/-! ## Loops as walks -/

/-- One step of the loop over a path item: an operation, if the key names a method. -/
def readMember (root : Value) (path : Scalar) (shared : Value) (m : Scalar × Value) :
    Except Issue (Option Operation) := do
  match ← methodOf? m.1 with
  | none => return none
  | some method =>
    match m.2 with
    | .map members _ => (readOperation root method path shared members).outcome.map some
    | _ => do
      let path ← path.spelledPlain
      let place := String.ofList (Text.upper m.1.plain.toList) ++ " " ++ path
      .error (.document (.operationShape place))

theorem readPathItem_outcome (root : Value) (path : Scalar) (shared : Value)
    (item : List (Scalar × Value)) : (readPathItem root path shared item).outcome =
      (item.mapM (readMember root path shared)).map (·.filterMap id) := by
  induction item with
  | nil => rfl
  | cons m rest ih =>
    obtain ⟨key, raw⟩ := m
    rw [List.mapM_cons, readPathItem, Traced.outcome_bind, Traced.outcome_ofExcept, readMember]
    cases methodOf? key with
    | error i => rfl
    | ok found =>
      cases found with
      | none =>
        change (readPathItem root path shared rest).outcome = _
        rw [ih]
        cases rest.mapM (readMember root path shared) <;> rfl
      | some method =>
        cases raw with
        | map members knot =>
          change (readOperation root method path shared members >>= fun op =>
            readPathItem root path shared rest >>= fun ops => pure (op :: ops)).outcome =
              ((readOperation root method path shared members).outcome.map some >>= _).map _
          rw [Traced.outcome_bind]
          cases (readOperation root method path shared members).outcome with
          | error i => rfl
          | ok op =>
            change (readPathItem root path shared rest >>= fun ops => pure (op :: ops)).outcome = _
            rw [Traced.outcome_bind, ih]
            cases rest.mapM (readMember root path shared) <;> rfl
        | _ => cases path.spelledPlain <;> rfl

/-- One step of the loop over all paths. -/
def readPath (root : Value) (m : Scalar × Value) : Except Issue (List Operation) :=
  match m.2 with
  | .map item _ =>
    (readPathItem root m.1 (orEmptySeq (Members.get? "parameters" item)) item).outcome
  | _ => do
    let path ← m.1.spelledPlain
    .error (.document (.pathItemShape path))

theorem readPaths_outcome (root : Value) (paths : List (Scalar × Value)) :
    (readPaths root paths).outcome = (paths.mapM (readPath root)).map List.flatten := by
  induction paths with
  | nil => rfl
  | cons m rest ih =>
    obtain ⟨path, item⟩ := m
    rw [List.mapM_cons]
    cases item with
    | map members knot =>
      rw [readPaths, Traced.outcome_bind]
      change _ = ((readPathItem root path _ members).outcome >>= _).map List.flatten
      generalize orEmptySeq (Members.get? "parameters" members) = shared
      cases (readPathItem root path shared members).outcome with
      | error i => rfl
      | ok ops =>
        change (readPaths root rest >>= fun others => pure (ops ++ others)).outcome = _
        rw [Traced.outcome_bind, ih]
        cases rest.mapM (readPath root) <;> rfl
    | _ =>
      rw [readPaths]
      · simp only [readPath]
        cases path.spelledPlain <;> rfl
      · simp

theorem readSchemas_outcome (raw : List (Scalar × Value)) : (readSchemas raw).outcome =
    raw.mapM fun m => (readComponent m.1 m.2).outcome.map (m.1, ·) := by
  induction raw with
  | nil => rfl
  | cons m rest ih =>
    obtain ⟨name, v⟩ := m
    rw [readSchemas, List.mapM_cons, Traced.outcome_bind]
    cases (readComponent name v).outcome with
    | error i => rfl
    | ok schema =>
      change (readSchemas rest >>= fun others => pure ((name, schema) :: others)).outcome = _
      rw [Traced.outcome_bind, ih]
      rfl

/-- The named schemas, from the section that holds them. -/
def readListing : Value → Traced (List (Scalar × Schema))
  | .map raw _ => readSchemas raw
  | _ => .fail (.document .schemasShape)

/-- The operations, from the section that holds the paths. -/
def readSection (root : Value) : Value → Traced (List Operation)
  | .map raw _ => readPaths root raw
  | _ => .fail (.document .pathsShape)

theorem read_outcome (members : Members) (knot : Nat) : (read (.map members knot)).outcome = (do
    let listing ← schemaSection (.map members knot)
    let schemas ← (readListing listing).outcome
    let found ← pathSection (.map members knot)
    let operations ← (readSection (.map members knot) found).outcome
    let urls ← serverUrls (.map members knot)
    finish schemas operations urls) := by
  rw [read, Traced.outcome_bind, Traced.outcome_ofExcept]
  congr 1
  funext listing
  cases listing with
  | map raw _ =>
    change (readSchemas raw >>= _).outcome = (readSchemas raw).outcome >>= _
    rw [Traced.outcome_bind]
    congr 1
    funext schemas
    rw [Traced.outcome_bind, Traced.outcome_ofExcept]
    congr 1
    funext found
    cases found with
    | map raw _ =>
      rw [Traced.outcome_bind]
      exact congrArg ((readPaths (.map members knot) raw).outcome >>= ·)
        (funext fun _ => Traced.outcome_bind _ _)
    | _ => rfl
  | _ => rfl

theorem schemaSection_congr {members others : Members} (knot knot' : Nat)
    (h : members.get? "components" = others.get? "components") :
    schemaSection (.map members knot) = schemaSection (.map others knot') := by
  simp only [schemaSection, membersOf, bind, Except.bind, h]

theorem serverUrls_congr {members others : Members} (knot knot' : Nat)
    (h : members.get? "servers" = others.get? "servers") :
    serverUrls (.map members knot) = serverUrls (.map others knot') := by
  simp only [serverUrls, membersOf, bind, Except.bind, h]

/-! ## What is read of the target of a reference -/

/-- The rest of a parameter once its reference was followed. -/
def readFound (place : String) (raw : Members) : Traced (Option Parameter) :=
  match Value.present? (raw.get? "name"), Value.present? (raw.get? "in") with
  | some name, some location =>
    match locationOf? location with
    | none => do
      Traced.log .debug s!"{place}: skipping {location.plain} parameter {name.shown}"
      return none
    | some location => do
      let here := place ++ "." ++ (← Traced.ofExcept name.spelledPlain)
      let schema ← Schema.read here ((raw.get? "schema").getD .null)
      let parameter ← Traced.ofExcept (finishParameter here raw name location schema)
      return some parameter
  | _, _ => .fail (.document (.parameterUnnamed place))

theorem readParameter_eq (root : Value) (place : String) (raw : Members) :
    readParameter root place raw = Traced.ofExcept (dereference root raw) >>= readFound place :=
  rfl

/-- The keys under which something is read of a parameter, a body or a response. -/
def entryKeys : List String :=
  ["name", "in", "schema", "default", "description", "required", "nullable", "content"]

/-- Two mappings give the same as a body, as a response and as a parameter. -/
structure ReadAlike (found other : Members) : Prop where
  schema : Agree Eq (jsonSchema? found) (jsonSchema? other)
  required : (found.get? "required").map Value.truthy = (other.get? "required").map Value.truthy
  parameter : ∀ place, Agree Eq (readFound place found).outcome (readFound place other).outcome

theorem ReadAlike.of_get? {found other : Members}
    (h : ∀ key ∈ entryKeys, found.get? key = other.get? key) : ReadAlike found other where
  schema := by
    simp only [jsonSchema?, h "content" (by decide)]
    exact .of_eq rfl
  required := by rw [h "required" (by decide)]
  parameter place := by
    simp only [readFound, finishParameter, h "name" (by decide), h "in" (by decide),
      h "schema" (by decide), h "default" (by decide), h "description" (by decide),
      h "required" (by decide), h "nullable" (by decide)]
    exact .of_eq rfl

theorem ReadAlike.refl (found : Members) : ReadAlike found found := .of_get? fun _ _ => rfl

/-- Two mappings, both empty or neither, that say the same about JSON. -/
inductive ItemAlike : Value → Value → Prop
  | intro {members others : Members} {knot knot' : Nat} : (members = [] ↔ others = []) →
      members.get? mediaType = others.get? mediaType →
      ItemAlike (.map members knot) (.map others knot')

theorem ItemAlike.truthy {v w : Value} (h : ItemAlike v w) : v.truthy = w.truthy := by
  cases h with
  | intro hempty _ =>
    rw [Value.truthy, Value.truthy, Bool.eq_iff_iff]
    simpa using not_congr hempty

theorem maps_of_itemAlike {given other : Option Value} (h : Option.Rel ItemAlike given other) :
    (∀ v, given = some v → ∃ members knot, v = .map members knot) ∧
      ∀ v, other = some v → ∃ members knot, v = .map members knot := by
  cases h with
  | none => simp
  | some hitems =>
    cases hitems with
    | intro _ _ => simp

theorem present?_of_rel {R : Value → Value → Prop} {given other : Option Value}
    (hR : ∀ v w, R v w → v.truthy = w.truthy) (h : Option.Rel R given other) :
    Option.Rel R (Value.present? given) (Value.present? other) := by
  cases h with
  | none => exact .none
  | @some v w hvw =>
    rw [Value.present?, Value.present?, hR v w hvw]
    split
    · exact .some hvw
    · exact .none

/-- Sections are related if they are where they are given, and two empty ones are. -/
theorem orEmptyMap_rel {R : Value → Value → Prop} {given other : Option Value}
    (htruthy : ∀ v w, R v w → v.truthy = w.truthy) (hempty : R (.map [] 0) (.map [] 0))
    (h : Option.Rel R given other) : R (orEmptyMap given) (orEmptyMap other) := by
  have hpresent := present?_of_rel htruthy h
  unfold orEmptyMap
  generalize Value.present? given = found at hpresent ⊢
  generalize Value.present? other = found' at hpresent ⊢
  cases hpresent with
  | none => exact hempty
  | some hvw => exact hvw

/-- Mappings that hold nothing but mappings are no parameters, whatever these hold. -/
theorem readFound_of_items {found : Members} (place : String)
    (hname : ∀ v, found.get? "in" = some v → ∃ members knot, v = .map members knot) :
    (readFound place found).outcome =
      if (Value.present? (found.get? "name")).isSome && (Value.present? (found.get? "in")).isSome
      then .ok none else .error (.document (.parameterUnnamed place)) := by
  unfold readFound
  cases hin : Value.present? (found.get? "in") with
  | none => cases Value.present? (found.get? "name") <;> rfl
  | some v =>
    obtain ⟨members, knot, rfl⟩ := hname v (Value.present?_eq_some.mp hin).1
    cases Value.present? (found.get? "name") with
    | none => rfl
    | some name => rfl

theorem ReadAlike.of_items {found other : Members}
    (h : ∀ key ∈ entryKeys, Option.Rel ItemAlike (found.get? key) (other.get? key)) :
    ReadAlike found other where
  schema := by
    have hcontent := present?_of_rel (fun _ _ => ItemAlike.truthy) (h "content" (by decide))
    unfold jsonSchema? orEmptyMap
    generalize Value.present? (found.get? "content") = given at hcontent ⊢
    generalize Value.present? (other.get? "content") = given' at hcontent ⊢
    cases hcontent with
    | none => exact .of_eq rfl
    | some hitems =>
      cases hitems with
      | intro _ hmedia =>
        simp only [Option.getD_some, membersOf, bind, Except.bind, hmedia]
        exact .of_eq rfl
  required := by
    have hrequired := h "required" (by decide)
    generalize found.get? "required" = given at hrequired ⊢
    generalize other.get? "required" = given' at hrequired ⊢
    cases hrequired with
    | none => rfl
    | some hitems => exact congrArg some hitems.truthy
  parameter place := by
    have hin := h "in" (by decide)
    have htruthy : ∀ v w, ItemAlike v w → v.truthy = w.truthy := fun _ _ => ItemAlike.truthy
    obtain ⟨hmaps, hmaps'⟩ := maps_of_itemAlike hin
    rw [readFound_of_items place hmaps, readFound_of_items place hmaps',
      isSome_of_rel (present?_of_rel htruthy hin),
      isSome_of_rel (present?_of_rel htruthy (h "name" (by decide)))]
    exact .of_eq rfl

/-! ## Operations -/

/-- A reference that is followed in either description leads to mappings that are read alike. -/
def LeadsAlike (root root' : Value) (raw raw' : Members) : Prop :=
  Agree ReadAlike (dereference root raw) (dereference root' raw')

/-- Two values stand for the same body or response, each in its description. -/
def HoldsAlike (root root' : Value) (given given' : Option Value) : Prop :=
  Agree (Option.Rel ReadAlike) (holder? root given) (holder? root' given')

/-- Two values stand for the same parameter, or are both no mapping. -/
inductive ParameterAlike (root root' : Value) : Value → Value → Prop
  | map {raw raw' : Members} {knot knot' : Nat} : LeadsAlike root root' raw raw' →
      ParameterAlike root root' (.map raw knot) (.map raw' knot')
  | other {v w : Value} : (∀ raw knot, v ≠ .map raw knot) → (∀ raw knot, w ≠ .map raw knot) →
      ParameterAlike root root' v w

/-- Two operations have the same parts, each in its description. -/
structure OperationAlike (root root' shared shared' : Value) (raw raw' : Members) : Prop where
  body : HoldsAlike root root' (raw.get? "requestBody") (raw'.get? "requestBody")
  response : Agree (fun responses others =>
      HoldsAlike root root' (success? responses) (success? others))
    (membersOf (orEmptyMap (raw.get? "responses"))) (membersOf (orEmptyMap (raw'.get? "responses")))
  shared : Agree (List.Forall₂ (ParameterAlike root root')) (elementsOf shared) (elementsOf shared')
  own : Agree (List.Forall₂ (ParameterAlike root root'))
    (elementsOf (orEmptySeq (raw.get? "parameters")))
    (elementsOf (orEmptySeq (raw'.get? "parameters")))
  summary : raw.get? "summary" = raw'.get? "summary"
  description : raw.get? "description" = raw'.get? "description"

section Operations

variable {root root' : Value}

theorem readBody_agree {raw raw' : Members}
    (h : HoldsAlike root root' (raw.get? "requestBody") (raw'.get? "requestBody"))
    (place : String) :
    Agree Eq (readBody root place raw).outcome (readBody root' place raw').outcome := by
  refine Agree.trace h fun found other hfound => ?_
  cases hfound with
  | none => exact .of_eq rfl
  | @some holder holder' hholder =>
    refine Agree.trace hholder.schema fun given given' hgiven => ?_
    cases hgiven
    cases given with
    | none => exact .of_eq rfl
    | some v =>
      simp only [hholder.required]
      exact .of_eq rfl

theorem readResponse_agree {raw raw' : Members}
    (h : Agree (fun responses others =>
        HoldsAlike root root' (success? responses) (success? others))
      (membersOf (orEmptyMap (raw.get? "responses")))
      (membersOf (orEmptyMap (raw'.get? "responses")))) (place : String) :
    Agree Eq (readResponse root place raw).outcome (readResponse root' place raw').outcome := by
  refine Agree.trace h fun responses others hsuccess => ?_
  refine Agree.trace hsuccess fun found other hfound => ?_
  cases hfound with
  | none => exact .of_eq rfl
  | @some holder holder' hholder =>
    refine Agree.trace hholder.schema fun given given' hgiven => ?_
    cases hgiven
    exact .of_eq rfl

theorem readParameters_other {v : Value} (h : ∀ raw knot, v ≠ .map raw knot) (root : Value)
    (place : String) (index : Nat) (merged : List Parameter) (rest : List Value) :
    readParameters root place index merged (v :: rest) =
      .fail (.document (.parameterShape place index)) := by
  cases v with
  | map raw knot => exact absurd rfl (h raw knot)
  | _ => rfl

theorem readParameters_agree {items others : List Value}
    (h : List.Forall₂ (ParameterAlike root root') items others) (place : String) (index : Nat)
    (merged : List Parameter) : Agree Eq (readParameters root place index merged items).outcome
      (readParameters root' place index merged others).outcome := by
  induction h generalizing index merged with
  | nil => exact .of_eq rfl
  | cons hitem _ ih =>
    cases hitem with
    | map hleads =>
      rw [readParameters, readParameters, readParameter_eq, readParameter_eq]
      refine Agree.trace (Agree.trace hleads fun _ _ halike => halike.parameter place) ?_
      intro p q hpq
      cases hpq
      exact ih _ _
    | other hv hw =>
      rw [readParameters_other hv, readParameters_other hw]
      exact .error

theorem readOperation_agree {shared shared' : Value} {raw raw' : Members}
    (h : OperationAlike root root' shared shared' raw raw') (method : String) (path : Scalar) :
    Agree Eq (readOperation root method path shared raw).outcome
      (readOperation root' method path shared' raw').outcome := by
  refine Agree.trace (.of_eq rfl) fun text _ htext => ?_
  cases htext
  refine Agree.trace (readBody_agree h.body _) fun body _ hbody => ?_
  cases hbody
  refine Agree.trace (readResponse_agree h.response _) fun response _ hresponse => ?_
  cases hresponse
  refine Agree.trace h.shared fun items others hshared => ?_
  refine Agree.trace h.own fun own others' hown => ?_
  refine Agree.trace (readParameters_agree (List.rel_append hshared hown) _ 0 []) ?_
  intro parameters _ hparameters
  cases hparameters
  rw [h.summary, h.description]
  exact .of_eq rfl

/-! ## Following a reference -/

/-- Two targets of a reference say the same: both are mappings that are read alike, or neither is a
mapping. -/
def SaysAlike (v w : Value) : Prop := Agree ReadAlike (membersOf v) (membersOf w)

theorem SaysAlike.refl (v : Value) : SaysAlike v v := .same fun members _ => .refl members

/-- References lead to the same if the walks along their keys do. -/
theorem leadsAlike_of_follow? {raw : Members} (h : ∀ ref keys, raw.get? "$ref" = some (.str ref) →
      Pointer.keys? ref = some keys →
      Option.Rel SaysAlike (Pointer.follow? root keys) (Pointer.follow? root' keys)) :
    LeadsAlike root root' raw raw := by
  unfold LeadsAlike dereference
  cases hgiven : raw.get? "$ref" with
  | none => exact .ok (.refl raw)
  | some given =>
    refine Agree.bind (R := SaysAlike) ?_ fun _ _ hsays => hsays
    unfold Pointer.resolveValue
    split
    next ref =>
      unfold Pointer.resolve
      cases hkeys : Pointer.keys? ref with
      | none => exact .error
      | some keys =>
        have hfollow := h ref keys hgiven hkeys
        simp only
        generalize Pointer.follow? root keys = found at hfollow ⊢
        generalize Pointer.follow? root' keys = other at hfollow ⊢
        cases hfollow with
        | none => exact .error
        | some hsays => exact .ok hsays
    next => exact .error
    next => exact .error

/-! ## Parts that did not change -/

/-- Every reference in a part of a description leads to mappings that are read alike. -/
def ResolvesAlike (root root' base : Value) : Prop :=
  ∀ members knot, (Value.map members knot).Inside base → LeadsAlike root root' members members

variable {base : Value}

theorem holdsAlike_same (h : ResolvesAlike root root' base) {given : Option Value}
    (hgiven : ∀ v, given = some v → v.Inside base) : HoldsAlike root root' given given := by
  unfold HoldsAlike holder?
  split
  next members knot =>
    exact (h members knot (hgiven _ rfl)).map fun _ _ halike => .some halike
  next => exact .ok .none

theorem parameterAlike_same (h : ResolvesAlike root root' base) {v : Value}
    (hv : ∀ raw knot, v = .map raw knot → v.Inside base) : ParameterAlike root root' v v := by
  cases v with
  | map raw knot => exact .map (h raw knot (hv raw knot rfl))
  | _ => exact .other nofun nofun

theorem parametersAlike_same (h : ResolvesAlike root root' base) {v : Value}
    (hv : v.Inside base ∨ v = .seq [] 0) :
    Agree (List.Forall₂ (ParameterAlike root root')) (elementsOf v) (elementsOf v) := by
  refine .same fun items hitems => List.forall₂_same.mpr fun w hw => ?_
  exact parameterAlike_same h (elementsOf_inside hv hitems w hw)

theorem operationAlike_same (h : ResolvesAlike root root' base) {shared shared' : Value}
    (hshared : Agree (List.Forall₂ (ParameterAlike root root')) (elementsOf shared)
      (elementsOf shared')) {raw : Members} (hraw : MembersInside base raw) :
    OperationAlike root root' shared shared' raw raw where
  body := holdsAlike_same h fun _ hget => hraw.get? hget
  response := .same fun _ hresponses => holdsAlike_same h fun _ hsuccess =>
    success?_inside (section_inside hraw hresponses) hsuccess
  shared := hshared
  own := parametersAlike_same h (orEmptySeq_inside hraw "parameters")
  summary := rfl
  description := rfl

/-! ## Path items -/

/-- Two members of a path item stand for the same operation, or for none. -/
inductive MemberAlike (root root' shared shared' : Value) :
    Scalar × Value → Scalar × Value → Prop
  | operation {key : Scalar} {raw raw' : Members} {knot knot' : Nat} :
      OperationAlike root root' shared shared' raw raw' →
      MemberAlike root root' shared shared' (key, .map raw knot) (key, .map raw' knot')
  | passed {key : Scalar} {v w : Value} : (∀ method, methodOf? key ≠ .ok (some method)) →
      MemberAlike root root' shared shared' (key, v) (key, w)
  | other {key : Scalar} {v w : Value} : (∀ raw knot, v ≠ .map raw knot) →
      (∀ raw knot, w ≠ .map raw knot) → MemberAlike root root' shared shared' (key, v) (key, w)

variable {shared shared' : Value}

theorem readMember_fails {m : Scalar × Value} {method : String}
    (hmethod : methodOf? m.1 = .ok (some method)) (h : ∀ raw knot, m.2 ≠ .map raw knot)
    (root : Value) (path : Scalar) (shared : Value) :
    ∃ i, readMember root path shared m = .error i := by
  obtain ⟨key, v⟩ := m
  rw [readMember, hmethod]
  cases v with
  | map raw knot => exact absurd rfl (h raw knot)
  | _ => cases path.spelledPlain <;> exact ⟨_, rfl⟩

theorem readMember_operation {key : Scalar} {method : String}
    (hmethod : methodOf? key = .ok (some method)) (root : Value) (path : Scalar) (shared : Value)
    (raw : Members) (knot : Nat) : readMember root path shared (key, .map raw knot) =
      (readOperation root method path shared raw).outcome.map some := by
  rw [readMember, hmethod]
  rfl

theorem readMember_agree {m m' : Scalar × Value} (h : MemberAlike root root' shared shared' m m')
    (path : Scalar) :
    Agree Eq (readMember root path shared m) (readMember root' path shared' m') := by
  have hkey : m'.1 = m.1 := by cases h <;> rfl
  cases hmethod : methodOf? m.1 with
  | error i =>
    simp only [readMember, hkey, hmethod]
    exact .error
  | ok found =>
    cases found with
    | none =>
      simp only [readMember, hkey, hmethod]
      exact .ok rfl
    | some method =>
      cases h with
      | operation hop =>
        rw [readMember_operation hmethod, readMember_operation hmethod]
        exact (readOperation_agree hop method path).map fun _ _ => congrArg some
      | passed hpassed => exact absurd hmethod (hpassed method)
      | @other key v w hv hw =>
        obtain ⟨i, hi⟩ := readMember_fails (m := (key, v)) hmethod hv root path shared
        obtain ⟨j, hj⟩ := readMember_fails (m := (key, w)) hmethod hw root' path shared'
        rw [hi, hj]
        exact .error

theorem readPathItem_agree {item item' : List (Scalar × Value)}
    (h : List.Forall₂ (MemberAlike root root' shared shared') item item') (path : Scalar) :
    Agree Eq (readPathItem root path shared item).outcome
      (readPathItem root' path shared' item').outcome := by
  rw [readPathItem_outcome, readPathItem_outcome]
  have hmembers := h.imp fun m m' hm => readMember_agree hm path
  exact (Agree.mapM_eq hmembers).map fun _ _ => congrArg (List.filterMap id)

/-- A member that did not change stands for the same operation. -/
theorem memberAlike_same (h : ResolvesAlike root root' base)
    (hshared : Agree (List.Forall₂ (ParameterAlike root root')) (elementsOf shared)
      (elementsOf shared')) {m : Scalar × Value} (hm : m.2.Inside base) :
    MemberAlike root root' shared shared' m m := by
  obtain ⟨key, v⟩ := m
  cases v with
  | map raw knot => exact .operation (operationAlike_same h hshared (.of_map hm))
  | _ => exact .other nofun nofun

theorem readPathItem_same (h : ResolvesAlike root root' base)
    (hshared : Agree (List.Forall₂ (ParameterAlike root root')) (elementsOf shared)
      (elementsOf shared')) {item : List (Scalar × Value)} (hitem : MembersInside base item)
    (path : Scalar) : Agree Eq (readPathItem root path shared item).outcome
      (readPathItem root' path shared' item).outcome :=
  readPathItem_agree
    (List.forall₂_same.mpr fun m hm => memberAlike_same h hshared (hitem m hm)) path

/-- A path that did not change gives the same operations. -/
theorem readPath_same (h : ResolvesAlike root root' base) {m : Scalar × Value}
    (hm : m.2.Inside base) : Agree Eq (readPath root m) (readPath root' m) := by
  obtain ⟨path, v⟩ := m
  cases v with
  | map item knot =>
    have hitem := MembersInside.of_map hm
    exact readPathItem_same h (parametersAlike_same h (orEmptySeq_inside hitem "parameters")) hitem
      path
  | _ => exact .of_eq rfl

end Operations

/-! ## Paths -/

section Paths

variable {root root' : Value} {members others : Members}

/-- All members are mappings. -/
def AllMaps (members : Members) : Prop := ∀ m ∈ members, ∃ item knot, m.2 = .map item knot

/-- The paths of a description are mappings, all of them. -/
def PathsAreMaps (root : Value) : Prop :=
  ∀ members knot, root = .map members knot →
    ∀ paths k, Members.get? "paths" members = some (.map paths k) → AllMaps paths

theorem pathsAreMaps {knot : Nat} {paths : Members} {k : Nat}
    (h : orEmptyMap (members.get? "paths") = .map paths k) (hmaps : AllMaps paths) :
    PathsAreMaps (.map members knot) := by
  intro _ _ heq listed k' hlisted
  cases heq
  rw [hlisted] at h
  cases listed with
  | nil => exact List.forall_mem_nil _
  | cons m rest =>
    cases h
    exact hmaps

theorem allMaps_of_readPaths {ops : List Operation}
    (h : (readPaths root members).outcome = .ok ops) : AllMaps members := by
  rw [readPaths_outcome] at h
  obtain ⟨_, hread, _⟩ := map_eq_ok.mp h
  intro m hm
  obtain ⟨_, _, hpath⟩ := exists_right_of_forall₂ (mapM_eq_ok.mp hread) hm
  unfold readPath at hpath
  split at hpath
  next item k hitem => exact ⟨item, k, hitem⟩
  next =>
    obtain ⟨_, _, hfails⟩ := bind_eq_ok.mp hpath
    cases hfails

/-- If some path is no mapping, neither description can be read. -/
theorem readPaths_agree {R : List Operation → List Operation → Prop}
    (hback : AllMaps others → AllMaps members)
    (h : AllMaps members →
      Agree R (readPaths root members).outcome (readPaths root' others).outcome) :
    Agree R (readPaths root members).outcome (readPaths root' others).outcome := by
  refine .intro (fun ops hops => ?_) fun ops hops => ?_
  · exact (h (allMaps_of_readPaths hops)).exists_right hops
  · obtain ⟨found, hfound, _⟩ := (h (hback (allMaps_of_readPaths hops))).exists_left hops
    exact ⟨found, hfound⟩

end Paths

end Document

end ApiContract

import ApiContract.Document.Reading
import ApiContract.Proofs.SchemaMisfits

/-!
Misfits in operations. References, bodies, responses and parameters are checked in some places and
not in others; reading an operation stops at one that is not checked exactly if it is the first
thing that is wrong.
-/

namespace ApiContract

variable {α β : Type}

/-- Texts, octets and collections can be looped over. -/
def Value.loops : Value → Bool
  | .seq .. | .map .. | .pair .. | .set _ | .scalar (.str _) | .scalar (.bytes _) => true
  | _ => false

namespace Document

variable {root : Value}

/-! ## Sections -/

theorem fieldResult_steady (place : String) (x : Except FieldIssue α) :
    Steady (fieldResult place x) := by
  cases x with
  | ok a => exact .ok a
  | error i => exact .document _

theorem membersOf_stumbles (v : Value) :
    StumblesIff (∀ members knot, v ≠ .map members knot) (membersOf v) := by
  cases v with
  | map members knot =>
    exact (StumblesIff.ok members).congr (iff_of_false id fun h => h members knot rfl)
  | endless => exact (StumblesIff.misfit _).congr (iff_of_true trivial nofun)
  | _ => exact (StumblesIff.misfit _).congr (iff_of_true trivial nofun)

theorem orEmptyMap_eq_map {given : Option Value} :
    (∃ members knot, orEmptyMap given = .map members knot) ↔ Value.Mapped given := by
  unfold orEmptyMap Value.Mapped
  cases h : Value.present? given with
  | none => simp
  | some v => simp

theorem section_stumbles (given : Option Value) :
    StumblesIff (¬ Value.Mapped given) (membersOf (orEmptyMap given)) := by
  refine (membersOf_stumbles _).congr ?_
  rw [← orEmptyMap_eq_map]
  push Not
  rfl

theorem elementsOf_stumbles (v : Value) : StumblesIff (v.loops = false) (elementsOf v) := by
  cases v with
  | scalar s =>
    cases s with
    | str s => exact (StumblesIff.ok _).congr (iff_of_false id nofun)
    | bytes octets => exact (StumblesIff.ok _).congr (iff_of_false id nofun)
    | _ => exact (StumblesIff.misfit _).congr (iff_of_true trivial rfl)
  | endless => exact (StumblesIff.misfit _).congr (iff_of_true trivial rfl)
  | _ => exact (StumblesIff.ok _).congr (iff_of_false id nofun)

/-! ## References -/

/-- A reference leads astray: it is no text, or it stands for something else than a mapping. -/
inductive Misled (root : Value) (members : Members) : Prop
  | unreadable {ref : Value} : members.get? "$ref" = some ref → (∀ s, ref ≠ .str s) →
      Misled root members
  | target {s : String} {v : Value} : members.get? "$ref" = some (.str s) →
      Pointer.resolve root s = .ok v → (∀ found knot, v ≠ .map found knot) → Misled root members

theorem resolve_steady (root : Value) (s : String) : Steady (Pointer.resolve root s) := by
  unfold Pointer.resolve
  split
  · exact .document _
  · split
    · exact .ok _
    · exact .document _

theorem resolveValue_stumbles (root ref : Value) :
    StumblesIff (∀ s, ref ≠ .str s) (Pointer.resolveValue root ref) := by
  unfold Pointer.resolveValue
  split
  next s => exact (resolve_steady root s).congr (iff_of_false id fun h => h s rfl)
  next => exact (StumblesIff.misfit _).congr (iff_of_true trivial nofun)
  next h _ => exact (StumblesIff.misfit _).congr (iff_of_true trivial h)

theorem dereference_stumbles (root : Value) (members : Members) :
    StumblesIff (Misled root members) (dereference root members) := by
  unfold dereference
  split
  next hget =>
    refine (StumblesIff.ok members).congr (iff_of_false id ?_)
    rintro (⟨h, _⟩ | ⟨h, _⟩)
    · rw [hget] at h; cases h
    · rw [hget] at h; cases h
  next ref hget =>
    refine ((resolveValue_stumbles root ref).bind fun v _ => membersOf_stumbles v).congr ?_
    constructor
    · rintro (hno | ⟨v, hv, hno⟩)
      · exact .unreadable hget hno
      · cases ref with
        | scalar s =>
          cases s with
          | str s => exact .target hget hv hno
          | _ => cases hv
        | _ => cases hv
    · rintro (⟨h, hno⟩ | ⟨h, hv, hno⟩)
      · rw [hget] at h
        cases h
        exact .inl hno
      · rw [hget] at h
        cases h
        exact .inr ⟨_, hv, hno⟩

/-! ## Bodies and responses -/

/-- The first thing in a body or response that cannot be read is a misfit. -/
inductive HolderTrips (root : Value) : Option Value → Prop
  | reference {members : Members} {knot : Nat} : Misled root members →
      HolderTrips root (some (.map members knot))
  | content {members holder : Members} {knot : Nat} : dereference root members = .ok holder →
      ¬ Value.Mapped (holder.get? "content") → HolderTrips root (some (.map members knot))
  | schema {members holder : Members} {knot : Nat} {v : Value} :
      dereference root members = .ok holder → jsonSchema? holder = .ok (some v) →
      Schema.Trips v → HolderTrips root (some (.map members knot))

theorem holder?_stumbles (root : Value) (given : Option Value) :
    StumblesIff (∃ members knot, given = some (.map members knot) ∧ Misled root members)
      (holder? root given) := by
  unfold holder?
  split
  next members knot => exact ((dereference_stumbles root members).map some).congr (by simp)
  next hother =>
    refine (StumblesIff.ok none).congr (iff_of_false id ?_)
    rintro ⟨members, knot, rfl, _⟩
    exact hother members knot rfl

theorem holder?_eq_some {given : Option Value} {holder : Members} :
    holder? root given = .ok (some holder) ↔
      ∃ members knot, given = some (.map members knot) ∧ dereference root members = .ok holder := by
  unfold holder?
  split
  next members knot => cases h : dereference root members <;> simp [Except.map, h, eq_comm]
  next hother =>
    refine iff_of_false nofun ?_
    rintro ⟨members, knot, rfl, _⟩
    exact hother members knot rfl

theorem jsonSchema?_stumbles (holder : Members) :
    StumblesIff (¬ Value.Mapped (holder.get? "content")) (jsonSchema? holder) := by
  refine (section_stumbles _).bind_steady fun content _ => ?_
  split
  · exact .ok _
  · exact .ok _

theorem holderTrips_iff {given : Option Value} : HolderTrips root given ↔
    (∃ members knot, given = some (.map members knot) ∧ Misled root members) ∨
    ∃ holder, holder? root given = .ok (some holder) ∧ (¬ Value.Mapped (holder.get? "content") ∨
      ∃ v, jsonSchema? holder = .ok (some v) ∧ Schema.Trips v) := by
  constructor
  · rintro (hmisled | ⟨hholder, hcontent⟩ | ⟨hholder, hschema, hv⟩)
    · exact .inl ⟨_, _, rfl, hmisled⟩
    · exact .inr ⟨_, holder?_eq_some.mpr ⟨_, _, rfl, hholder⟩, .inl hcontent⟩
    · exact .inr ⟨_, holder?_eq_some.mpr ⟨_, _, rfl, hholder⟩, .inr ⟨_, hschema, hv⟩⟩
  · rintro (⟨members, knot, rfl, hmisled⟩ | ⟨holder, hholder, hcontent | ⟨v, hschema, hv⟩⟩)
    · exact .reference hmisled
    · obtain ⟨members, knot, rfl, hdereference⟩ := holder?_eq_some.mp hholder
      exact .content hdereference hcontent
    · obtain ⟨members, knot, rfl, hdereference⟩ := holder?_eq_some.mp hholder
      exact .schema hdereference hschema hv

/-- What bodies and responses have in common: the schema that is read for them. -/
theorem holder_stumbles (root : Value) (given : Option Value)
    {f : Option Members → Traced β} {g : Members → Option Value → Traced β}
    (hf : ∀ holder, f (some holder) = Traced.ofExcept (jsonSchema? holder) >>= g holder)
    (hnone : Steady (f none).outcome) (hempty : ∀ holder, Steady (g holder none).outcome)
    (hsome : ∀ holder v, StumblesIff (Schema.Trips v) (g holder (some v)).outcome) :
    StumblesIff (HolderTrips root given) (Traced.ofExcept (holder? root given) >>= f).outcome := by
  have hschema (holder : Members) : StumblesIff (¬ Value.Mapped (holder.get? "content") ∨
      ∃ v, jsonSchema? holder = .ok (some v) ∧ Schema.Trips v) (f (some holder)).outcome := by
    rw [hf]
    exact .trace_option (jsonSchema?_stumbles holder) (hempty holder) fun v _ => hsome holder v
  refine StumblesIff.congr ?_ holderTrips_iff.symm
  exact .trace_option (holder?_stumbles root given) hnone fun holder _ => hschema holder

theorem readBody_stumbles (root : Value) (place : String) (raw : Members) :
    StumblesIff (HolderTrips root (raw.get? "requestBody")) (readBody root place raw).outcome := by
  refine holder_stumbles root _ (fun _ => rfl) (.ok none) (fun _ => .ok none) fun holder v => ?_
  exact (Schema.read_stumbles (place ++ " requestBody") v).trace_steady fun _ _ => .ok _

/-- The first thing in the responses that cannot be read is a misfit. -/
inductive ResponsesTrip (root : Value) (raw : Members) : Prop
  | shape : ¬ Value.Mapped (raw.get? "responses") → ResponsesTrip root raw
  | success {responses : Members} : membersOf (orEmptyMap (raw.get? "responses")) = .ok responses →
      HolderTrips root (success? responses) → ResponsesTrip root raw

theorem readResponse_stumbles (root : Value) (place : String) (raw : Members) :
    StumblesIff (ResponsesTrip root raw) (readResponse root place raw).outcome := by
  refine StumblesIff.congr (.trace (section_stumbles (raw.get? "responses")) fun responses _ =>
    holder_stumbles root (success? responses) (fun _ => rfl) (.ok none) (fun _ => .ok none)
      fun holder v => ?_) ?_
  · exact (Schema.read_stumbles (place ++ " response") v).trace_steady fun _ _ => .ok _
  · constructor
    · rintro (hshape | ⟨responses, hresponses, hsuccess⟩)
      · exact .shape hshape
      · exact .success hresponses hsuccess
    · rintro (hshape | ⟨hresponses, hsuccess⟩)
      · exact .inl hshape
      · exact .inr ⟨_, hresponses, hsuccess⟩

/-- The body of an operation can be read. -/
def BodyReads (root : Value) (raw : Members) : Prop :=
  ∃ place body, (readBody root place raw).outcome = .ok body

def ResponsesRead (root : Value) (raw : Members) : Prop :=
  ∃ place response, (readResponse root place raw).outcome = .ok response

theorem readBody_place (root : Value) (p q : String) (raw : Members) :
    Repeats (readBody root q raw).outcome (readBody root p raw).outcome := by
  refine .trace .rfl fun found => ?_
  cases found with
  | none => exact .rfl
  | some holder =>
    refine .trace .rfl fun given => ?_
    cases given with
    | none => exact .rfl
    | some v => exact .trace (Schema.read_place _ _ v) fun _ => .rfl

theorem readResponse_place (root : Value) (p q : String) (raw : Members) :
    Repeats (readResponse root q raw).outcome (readResponse root p raw).outcome := by
  refine .trace .rfl fun responses => .trace .rfl fun found => ?_
  cases found with
  | none => exact .rfl
  | some holder =>
    refine .trace .rfl fun given => ?_
    cases given with
    | none => exact .rfl
    | some v => exact .trace (Schema.read_place _ _ v) fun _ => .rfl

/-! ## Parameters -/

theorem finishParameter_steady (place : String) (raw : Members) (name : Value)
    (location : ParameterLocation) (schema : Schema) :
    Steady (finishParameter place raw name location schema) := by
  refine (fieldResult_steady place _).bind_steady fun _ _ => ?_
  split
  · exact .ok _
  · exact (fieldResult_steady place _).bind_steady fun _ _ => .ok _

theorem fieldResult_place (p q : String) (x : Except FieldIssue α) :
    Repeats (fieldResult q x) (fieldResult p x) := by
  cases x with
  | error i => exact .error _
  | ok a => exact .rfl

theorem finishParameter_place (p q : String) (raw : Members) (name : Value)
    (location : ParameterLocation) (schema : Schema) :
    Repeats (finishParameter q raw name location schema)
      (finishParameter p raw name location schema) := by
  refine .bind (fieldResult_place p q _) fun _ => ?_
  split
  · exact .rfl
  · exact .bind (fieldResult_place p q _) fun _ => .rfl

/-- A parameter stands in the path or in the query, under a name. -/
structure Placed (raw : Members) (name : Value) (location : ParameterLocation) : Prop where
  name : Value.present? (raw.get? "name") = some name
  location : ∃ v, Value.present? (raw.get? "in") = some v ∧ locationOf? v = some location

/-- The first thing in a parameter that cannot be read is a misfit. -/
inductive ParameterTrips (root : Value) (raw : Members) : Prop
  | reference : Misled root raw → ParameterTrips root raw
  | name {found : Members} {name : Value} {location : ParameterLocation} :
      dereference root raw = .ok found → Placed found name location → name.hasSpelling = false →
      ParameterTrips root raw
  | schema {found : Members} {name : Value} {location : ParameterLocation} :
      dereference root raw = .ok found → Placed found name location →
      Schema.Trips ((found.get? "schema").getD .null) → ParameterTrips root raw

theorem readParameter_place (root : Value) (p q : String) (raw : Members) :
    Repeats (readParameter root q raw).outcome (readParameter root p raw).outcome := by
  refine .trace .rfl fun found => ?_
  split
  next name given _ _ =>
    cases locationOf? given with
    | none => exact .trace .rfl fun _ => .rfl
    | some location =>
      refine .trace .rfl fun text => ?_
      refine .trace (Schema.read_place _ _ _) fun schema => ?_
      exact .trace (finishParameter_place _ _ found name location schema) fun _ => .rfl
  next => exact .error _

theorem readParameter_stumbles (root : Value) (place : String) (raw : Members) :
    StumblesIff (ParameterTrips root raw) (readParameter root place raw).outcome := by
  refine StumblesIff.congr (.trace (T := fun found => ∃ name location, Placed found name location ∧
    (name.hasSpelling = false ∨ Schema.Trips ((found.get? "schema").getD .null)))
    (dereference_stumbles root raw) fun found _ => ?_) ?_
  · split
    next name given hname hgiven =>
      cases hlocation : locationOf? given with
      | none =>
        refine (StumblesIff.ok none).congr (iff_of_false id ?_)
        rintro ⟨_, _, ⟨_, v, hv, hplaced⟩, _⟩
        rw [hgiven] at hv
        cases hv
        rw [hlocation] at hplaced
        cases hplaced
      | some location =>
        have hplaced : Placed found name location := ⟨hname, given, hgiven, hlocation⟩
        refine StumblesIff.congr (.trace name.spelledPlain_stumbles fun text _ =>
          (Schema.read_stumbles _ _).trace_steady fun schema _ =>
            (finishParameter_steady _ found name location schema).trace_steady
              fun _ _ => .ok _) ?_
        constructor
        · rintro (hno | ⟨_, _, hschema⟩)
          · exact ⟨name, location, hplaced, .inl hno⟩
          · exact ⟨name, location, hplaced, .inr hschema⟩
        · rintro ⟨name', _, ⟨hname', _⟩, htrips⟩
          rw [hname] at hname'
          cases hname'
          by_cases hno : name.hasSpelling = false
          · exact .inl hno
          · have htext := Value.spelledPlain_eq_ok.mpr ⟨by simpa using hno, rfl⟩
            exact .inr ⟨name.plain, htext, htrips.resolve_left hno⟩
    next hother =>
      refine (StumblesIff.document _).congr (iff_of_false id ?_)
      rintro ⟨name, _, ⟨hname, v, hv, _⟩, _⟩
      exact hother name v hname hv
  · constructor
    · rintro (hmisled | ⟨found, hfound, name, location, hplaced, hno | hschema⟩)
      · exact .reference hmisled
      · exact .name hfound hplaced hno
      · exact .schema hfound hplaced hschema
    · rintro (hmisled | ⟨hfound, hplaced, hno⟩ | ⟨hfound, hplaced, hschema⟩)
      · exact .inl hmisled
      · exact .inr ⟨_, hfound, _, _, hplaced, .inl hno⟩
      · exact .inr ⟨_, hfound, _, _, hplaced, .inr hschema⟩

/-- A parameter can be read. -/
def ParameterReads (root : Value) (raw : Members) : Prop :=
  ∃ place parameter, (readParameter root place raw).outcome = .ok parameter

/-- The first of some parameters that cannot be read is at a misfit. -/
def ParametersTrip (root : Value) : List Value → Prop :=
  FirstFails (fun v => ∃ raw knot, v = .map raw knot ∧ ParameterReads root raw)
    (fun v => ∃ raw knot, v = .map raw knot ∧ ParameterTrips root raw)

theorem readParameters_stumbles (root : Value) (place : String) (index : Nat)
    (merged : List Parameter) (items : List Value) :
    StumblesIff (ParametersTrip root items)
      (readParameters root place index merged items).outcome := by
  induction items generalizing index merged with
  | nil => exact (StumblesIff.ok merged).congr (iff_of_false id firstFails_nil)
  | cons v rest ih =>
    rw [ParametersTrip, firstFails_cons]
    cases v with
    | map raw knot =>
      refine StumblesIff.congr (.trace (readParameter_stumbles root place raw) fun parameter _ =>
        ih (index + 1) _) ?_
      constructor
      · rintro (htrips | ⟨parameter, hparameter, hrest⟩)
        · exact .inl ⟨raw, knot, rfl, htrips⟩
        · exact .inr ⟨⟨raw, knot, rfl, place, parameter, hparameter⟩, hrest⟩
      · rintro (⟨_, _, ⟨⟩, htrips⟩ | ⟨⟨_, _, ⟨⟩, p, parameter, hparameter⟩, hrest⟩)
        · exact .inl htrips
        · exact .inr ⟨parameter, readParameter_place root p place raw _ hparameter, hrest⟩
    | _ =>
      refine (StumblesIff.document _).congr (iff_of_false id ?_)
      rintro (⟨_, _, ⟨⟩, _⟩ | ⟨⟨_, _, ⟨⟩, _⟩, _⟩)

/-! ## Operations -/

/-- What a path and an operation list as parameters can be looped over. -/
def ParametersListed (shared : Value) (raw : Members) (items : List Value) : Prop :=
  ∃ path own, elementsOf shared = .ok path ∧ elementsOf (orEmptySeq (raw.get? "parameters")) = .ok own ∧
    items = path ++ own

/-- The first thing in an operation that cannot be read is a misfit. -/
inductive OperationTrips (root : Value) (path : Scalar) (shared : Value) (raw : Members) : Prop
  | path : path.hasSpelling = false → OperationTrips root path shared raw
  | body : HolderTrips root (raw.get? "requestBody") → OperationTrips root path shared raw
  | responses : BodyReads root raw → ResponsesTrip root raw → OperationTrips root path shared raw
  | parameters : BodyReads root raw → ResponsesRead root raw →
      shared.loops = false ∨ (orEmptySeq (raw.get? "parameters")).loops = false →
      OperationTrips root path shared raw
  | parameter {items : List Value} : BodyReads root raw → ResponsesRead root raw →
      ParametersListed shared raw items → ParametersTrip root items →
      OperationTrips root path shared raw

theorem exists_elementsOf {v : Value} : (∃ items, elementsOf v = .ok items) ↔ v.loops = true := by
  cases v with
  | scalar s => cases s <;> simp [elementsOf, Value.loops]
  | _ => simp [elementsOf, Value.loops]

theorem parameters_stumbles (root shared : Value) (place : String) (raw : Members)
    {f : List Parameter → Traced β} (hf : ∀ parameters, Steady (f parameters).outcome) :
    StumblesIff ((shared.loops = false ∨ (orEmptySeq (raw.get? "parameters")).loops = false) ∨
        ∃ items, ParametersListed shared raw items ∧ ParametersTrip root items)
      (Traced.ofExcept (elementsOf shared) >>= fun path =>
        Traced.ofExcept (elementsOf (orEmptySeq (raw.get? "parameters"))) >>= fun own =>
          readParameters root place 0 [] (path ++ own) >>= f).outcome := by
  refine StumblesIff.congr (.trace (elementsOf_stumbles shared) fun path _ =>
    .trace (elementsOf_stumbles (orEmptySeq (raw.get? "parameters"))) fun own _ =>
      (readParameters_stumbles root place 0 [] (path ++ own)).trace_steady
        fun parameters _ => hf parameters) ?_
  constructor
  · rintro (hshared | ⟨path, hpath, hown | ⟨own, hown, htrips⟩⟩)
    · exact .inl (.inl hshared)
    · exact .inl (.inr hown)
    · exact .inr ⟨path ++ own, ⟨path, own, hpath, hown, rfl⟩, htrips⟩
  · rintro (hloops | ⟨_, ⟨path, own, hpath, hown, rfl⟩, htrips⟩)
    · by_cases hshared : shared.loops = false
      · exact .inl hshared
      · obtain ⟨path, hpath⟩ := exists_elementsOf.mpr (by simpa using hshared)
        exact .inr ⟨path, hpath, .inl (hloops.resolve_left hshared)⟩
    · exact .inr ⟨path, hpath, .inr ⟨own, hown, htrips⟩⟩

theorem readOperation_stumbles (root : Value) (method : String) (path : Scalar) (shared : Value)
    (raw : Members) :
    StumblesIff (OperationTrips root path shared raw)
      (readOperation root method path shared raw).outcome := by
  refine StumblesIff.congr (.trace path.spelledPlain_stumbles fun text _ =>
    .trace (readBody_stumbles root _ raw) fun body _ =>
      .trace (readResponse_stumbles root _ raw) fun response _ =>
        parameters_stumbles root shared _ raw fun parameters => ?_) ?_
  · refine (fieldResult_steady _ _).bind_steady fun _ _ => ?_
    refine (fieldResult_steady _ _).bind_steady fun _ _ => ?_
    exact (fieldResult_steady _ _).bind_steady fun _ _ => .ok _
  · constructor
    · rintro (hpath | ⟨text, _, hbody | ⟨body, hbody, hresponses | ⟨response, hresponse, hrest⟩⟩⟩)
      · exact .path hpath
      · exact .body hbody
      · exact .responses ⟨_, body, hbody⟩ hresponses
      · rcases hrest with hloops | ⟨items, hitems, htrips⟩
        · exact .parameters ⟨_, body, hbody⟩ ⟨_, response, hresponse⟩ hloops
        · exact .parameter ⟨_, body, hbody⟩ ⟨_, response, hresponse⟩ hitems htrips
    · intro h
      by_cases hno : path.hasSpelling = false
      · exact .inl hno
      have htext := Scalar.spelledPlain_eq_ok.mpr ⟨by simpa using hno, rfl⟩
      refine .inr ⟨path.plain, htext, ?_⟩
      cases h with
      | path hpath => exact absurd hpath hno
      | body hbody => exact .inl hbody
      | responses hbody hresponses =>
        obtain ⟨p, body, hbody⟩ := hbody
        exact .inr ⟨body, readBody_place root p _ raw body hbody, .inl hresponses⟩
      | parameters hbody hresponses hloops =>
        obtain ⟨p, body, hbody⟩ := hbody
        obtain ⟨q, response, hresponse⟩ := hresponses
        exact .inr ⟨body, readBody_place root p _ raw body hbody,
          .inr ⟨response, readResponse_place root q _ raw response hresponse, .inl hloops⟩⟩
      | parameter hbody hresponses hitems htrips =>
        obtain ⟨p, body, hbody⟩ := hbody
        obtain ⟨q, response, hresponse⟩ := hresponses
        exact .inr ⟨body, readBody_place root p _ raw body hbody,
          .inr ⟨response, readResponse_place root q _ raw response hresponse,
            .inr ⟨_, hitems, htrips⟩⟩⟩

end Document

end ApiContract

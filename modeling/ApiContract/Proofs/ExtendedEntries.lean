import ApiContract.Proofs.Extensions

/-!
Bodies, responses and parameters with extensions. A reference to one leads to what it led to, which
may have been extended: one object, or a collection of them. A body or a parameter is read the same
if its flags are. Those of an object are data and stay, so nothing is asked of them; in a collection
they are objects, and an empty one among them counts as true once it is extended.
-/

namespace ApiContract.Document

/-! ## Members of values -/

theorem orEmptyMap_object {given other : Option Value}
    (h : Option.Rel (Extended .object) given other) :
    Extended .object (orEmptyMap given) (orEmptyMap other) := by
  cases h with
  | none => exact .same
  | some hvw =>
    cases hvw with
    | same => exact .same
    | @object members others _ _ h =>
      cases others with
      | nil =>
        cases h
        exact .same
      | cons n others =>
        cases members with
        | nil => exact .object h
        | cons m members => exact .object h

theorem orEmptyMap_objects {given other : Option Value}
    (h : Option.Rel (Extended .objects) given other) :
    Extended .objects (orEmptyMap given) (orEmptyMap other) :=
  orEmptyMap_rel (fun _ _ => Extended.truthy) .same h

theorem orEmptySeq_objects {given other : Option Value}
    (h : Option.Rel (Extended .objects) given other) :
    Extended .objects (orEmptySeq given) (orEmptySeq other) := by
  have hpresent := present?_of_rel (fun _ _ => Extended.truthy) h
  unfold orEmptySeq
  generalize Value.present? given = found at hpresent ⊢
  generalize Value.present? other = found' at hpresent ⊢
  cases hpresent with
  | none => exact .same
  | some hvw => exact hvw

theorem membersOf_object {v w : Value} (h : Extended .object v w) :
    Carries Grown (membersOf v) (membersOf w) := by
  cases h with
  | same => exact fun members hmembers => ⟨members, hmembers, .refl members⟩
  | object h => exact .ok h

theorem membersOf_objects {v w : Value} (h : Extended .objects v w) :
    Carries Populated (membersOf v) (membersOf w) := by
  cases h with
  | same => exact fun members hmembers => ⟨members, hmembers, .refl members⟩
  | mapping h => exact .ok h
  | listing _ => exact .error _

/-- A loop runs through the same keys of a mapping, and through extended objects of a list. -/
theorem elementsOf_objects {v w : Value} (h : Extended .objects v w) :
    Carries (List.Forall₂ (Extended .object)) (elementsOf v) (elementsOf w) := by
  have hrefl : ∀ items : List Value, List.Forall₂ (Extended .object) items items :=
    fun _ => List.forall₂_same.mpr fun _ _ => .same
  cases h with
  | same => exact fun items hitems => ⟨items, hitems, hrefl items⟩
  | @mapping members others _ _ h =>
    have hkeys : others.map (fun m => Value.scalar m.1) = members.map fun m => .scalar m.1 := by
      refine map_eq_of_forall₂ h.matched fun m n hmn => ?_
      rw [hmn.1]
    rw [elementsOf, elementsOf, hkeys]
    exact .ok (hrefl _)
  | listing h => exact .ok h.forall₂

/-- One object extended, or a collection of objects each of which may be. -/
def Kin (members others : Members) : Prop := Grown members others ∨ Populated members others

theorem Kin.get?_rel {members others : Members} (h : Kin members others) (key : String)
    (hkey : ¬ IsExtension key) :
    Option.Rel (Extended .other) (members.get? key) (others.get? key) := by
  rcases h with h | h
  · exact rel_mono (h.get?_rel key hkey) fun _ _ => Extended.to_other
  · exact rel_mono (Members.Matched.get? h.matched key) fun _ _ => Extended.to_other

theorem Kin.get?_schema {members others : Members} (h : Kin members others) :
    Option.Rel (Extended .object) (members.get? "schema") (others.get? "schema") := by
  rcases h with h | h
  · exact h.get?_rel "schema" (by decide)
  · exact Members.Matched.get? h.matched "schema"

theorem Kin.get?_some {members others : Members} (h : Kin members others) {key : String} {v : Value}
    (hget : members.get? key = some v) :
    ∃ w, others.get? key = some w ∧ Extended .other v w := by
  rcases h with h | h
  · obtain ⟨w, hw, hvw⟩ := h.get?_some hget
    exact ⟨w, hw, hvw.to_other⟩
  · have hrel := Members.Matched.get? h.matched key
    rw [hget] at hrel
    generalize others.get? key = other at hrel ⊢
    cases hrel with
    | some hvw => exact ⟨_, rfl, hvw.to_other⟩

theorem membersOf_other {v w : Value} (h : Extended .other v w) :
    Carries Kin (membersOf v) (membersOf w) := by
  cases h with
  | same => exact fun members hmembers => ⟨members, hmembers, .inl (.refl members)⟩
  | otherObject h => exact (membersOf_object h).mono fun _ _ => .inl
  | otherObjects h => exact (membersOf_objects h).mono fun _ _ => .inr

theorem orEmptyMap_other {given other : Option Value}
    (h : Option.Rel (Extended .other) given other) :
    Extended .other (orEmptyMap given) (orEmptyMap other) := by
  cases h with
  | none => exact .same
  | some hvw =>
    cases hvw with
    | same => exact .same
    | otherObject h => exact .otherObject (orEmptyMap_object (.some h))
    | otherObjects h => exact .otherObjects (orEmptyMap_objects (.some h))

/-! ## Following a reference -/

theorem follow?_cons_eq_some {v found : Value} {key : String} {keys : List String} :
    Pointer.follow? v (key :: keys) = some found ↔ ∃ members next, membersOf v = .ok members ∧
      Members.get? key members = some next ∧ Pointer.follow? next keys = some found := by
  cases v with
  | map members knot =>
    rw [Pointer.follow?]
    cases hget : Members.get? key members <;> simp [membersOf, hget]
  | _ => simp [Pointer.follow?, membersOf]

/-- A pointer leads on to what it led to. -/
theorem follow?_extended {v w found : Value} {keys : List String} (h : Extended .other v w)
    (hfound : Pointer.follow? v keys = some found) :
    ∃ other, Pointer.follow? w keys = some other ∧ Extended .other found other := by
  induction keys generalizing v w with
  | nil =>
    cases hfound
    exact ⟨w, rfl, h⟩
  | cons key keys ih =>
    obtain ⟨members, next, hmembers, hget, hrest⟩ := follow?_cons_eq_some.mp hfound
    obtain ⟨others, hothers, hkin⟩ := membersOf_other h members hmembers
    obtain ⟨next', hget', hnext⟩ := hkin.get?_some hget
    obtain ⟨other, hother, hextended⟩ := ih hnext hrest
    exact ⟨other, follow?_cons_eq_some.mpr ⟨others, next', hothers, hget', hother⟩, hextended⟩

section Reading

variable {root root' : Value}

theorem resolveValue_extended (hroot : Extended .other root root') (ref : Value) :
    Carries (Extended .other) (Pointer.resolveValue root ref)
      (Pointer.resolveValue root' ref) := by
  unfold Pointer.resolveValue
  split
  next text =>
    unfold Pointer.resolve
    cases Pointer.keys? text with
    | none => exact .error _
    | some keys =>
      cases hfollow : Pointer.follow? root keys with
      | none =>
        simp only [hfollow]
        exact .error _
      | some found =>
        obtain ⟨other, hother, hextended⟩ := follow?_extended hroot hfollow
        simp only [hfollow, hother]
        exact .ok hextended
  next => exact .error _
  next => exact .error _

/-- What a mapping stands for in either description is as `P` says, unless it is one object that
was extended. -/
def StandsFor (root root' : Value) (P : Members → Members → Prop) (holder : Members) : Prop :=
  ∀ found other, dereference root holder = .ok found → dereference root' holder = .ok other →
    ¬ Grown found other → P found other

/-- A mapping with no reference in it stands for itself. -/
theorem StandsFor.of_inline {P : Members → Members → Prop} {holder : Members}
    (h : holder.get? "$ref" = none) : StandsFor root root' P holder := by
  intro found other hfound hother hgrown
  simp only [dereference, h, Except.ok.injEq] at hfound hother
  subst hfound hother
  exact absurd (.refl holder) hgrown

/-- What a mapping stands for is one object extended or a collection of such. What is to be said
of it beyond that holds of an extended object, so it has to be known of a collection only. -/
theorem dereference_extended {P : Members → Members → Prop} {holder holder' : Members}
    (hroot : Extended .other root root') (h : Grown holder holder')
    (hgrown : ∀ found other, Grown found other → P found other)
    (hP : StandsFor root root' P holder) :
    Carries (fun found other => Kin found other ∧ P found other) (dereference root holder)
      (dereference root' holder') := by
  have href : holder'.get? "$ref" = holder.get? "$ref" := h.get?_data "$ref" (by decide)
  have hsame : ∀ ref, holder.get? "$ref" = some ref →
      dereference root' holder' = dereference root' holder := by
    intro ref hget
    rw [dereference, dereference, href, hget]
  cases hget : holder.get? "$ref" with
  | none =>
    rw [dereference, dereference, href, hget]
    exact .ok ⟨.inl h, hgrown _ _ h⟩
  | some ref =>
    have hkin : Carries Kin (dereference root holder) (dereference root' holder) := by
      rw [dereference, dereference, hget]
      exact (resolveValue_extended hroot ref).bind fun _ _ => membersOf_other
    -- The reference itself is data, so the extended mapping refers to the same.
    rw [hsame ref hget]
    intro found hfound
    obtain ⟨other, hother, hkin⟩ := hkin found hfound
    refine ⟨other, hother, hkin, ?_⟩
    by_cases hgrows : Grown found other
    · exact hgrown found other hgrows
    · exact hP found other hfound hother hgrows

theorem holder?_extended {P : Members → Members → Prop} {given given' : Option Value}
    (hroot : Extended .other root root') (h : Option.Rel (Extended .object) given given')
    (hgrown : ∀ found other, Grown found other → P found other)
    (hP : ∀ holder knot, given = some (.map holder knot) → StandsFor root root' P holder) :
    Carries (Option.Rel fun found other => Kin found other ∧ P found other) (holder? root given)
      (holder? root' given') := by
  cases h with
  | none => exact .ok .none
  | @some v w hvw =>
    have hmap : ∀ {holder holder' : Members} {knot knot' : Nat}, v = .map holder knot →
        Grown holder holder' →
        Carries (Option.Rel fun found other => Kin found other ∧ P found other)
          (holder? root (some (.map holder knot))) (holder? root' (some (.map holder' knot'))) := by
      rintro holder holder' knot knot' rfl hgrows
      exact (dereference_extended hroot hgrows hgrown (hP holder knot rfl)).map
        fun _ _ hfound => .some hfound
    cases hvw with
    | same =>
      cases v with
      | map holder knot => exact hmap rfl (.refl holder)
      | _ => exact .ok .none
    | object hgrows => exact hmap rfl hgrows

/-! ## Bodies and responses -/

theorem jsonSchema?_kin {found other : Members} (h : Kin found other) :
    Carries (Option.Rel (Extended .object)) (jsonSchema? found) (jsonSchema? other) := by
  have hcontent := h.get?_rel "content" (by decide)
  refine (membersOf_other (orEmptyMap_other hcontent)).bind fun content content' hkin => ?_
  have hmedia := hkin.get?_rel mediaType (by decide)
  generalize content.get? mediaType = given at hmedia ⊢
  generalize content'.get? mediaType = given' at hmedia ⊢
  cases hmedia with
  | none => exact .ok .none
  | @some v w hvw =>
    cases v with
    | map media knot =>
      obtain ⟨media', hmembers, hkin⟩ := membersOf_other hvw media rfl
      obtain ⟨knot', rfl⟩ := membersOf_eq_ok.mp hmembers
      exact .ok hkin.get?_schema
    | _ =>
      cases hvw with
      | same => exact .ok .none
      | otherObject h =>
        cases h
        exact .ok .none
      | otherObjects h => cases h <;> exact .ok .none

/-- Two mappings say the same about being required. -/
abbrev SameMark (found other : Members) : Prop :=
  (other.get? "required").map Value.truthy = (found.get? "required").map Value.truthy

theorem SameMark.of_grown {found other : Members} (h : Grown found other) :
    SameMark found other :=
  congrArg _ (h.get?_data "required" (by decide))

theorem readSchema_extended {given given' : Option Value}
    (h : Option.Rel (Extended .object) given given') (place : String) :
    Schema.read place (given'.getD .null) = Schema.read place (given.getD .null) := by
  cases h with
  | none => rfl
  | some hvw => exact Schema.read_extended place _ hvw

theorem readBody_extended {raw raw' : Members} (hroot : Extended .other root root')
    (h : Grown raw raw') (place : String)
    (hmark : ∀ holder knot, raw.get? "requestBody" = some (.map holder knot) →
      StandsFor root root' SameMark holder) :
    Carries Eq (readBody root place raw).outcome (readBody root' place raw').outcome := by
  have hbody := h.get?_rel "requestBody" (by decide)
  refine Carries.trace (holder?_extended hroot hbody (fun _ _ => SameMark.of_grown) hmark) ?_
  intro found other hfound
  cases hfound with
  | none => exact .ok rfl
  | some hfound =>
    obtain ⟨hkin, hrequired⟩ := hfound
    refine Carries.trace (jsonSchema?_kin hkin) fun given given' hgiven => ?_
    cases hgiven with
    | none => exact .ok rfl
    | @some v w hvw =>
      simp only [Schema.read_extended _ w hvw, hrequired]
      exact .of_eq rfl

theorem success?_populated {responses others : Members} (h : Populated responses others) :
    Option.Rel (Extended .object) (success? responses) (success? others) := by
  have hget := Members.Matched.get? h.matched "200"
  have hfind := Members.Matched.find? h.matched fun k => k.sameKey (.int 200)
  unfold success?
  generalize responses.get? "200" = given at hget ⊢
  generalize others.get? "200" = given' at hget ⊢
  cases hget with
  | some hvw => exact .some hvw
  | none => exact rel_mono hfind fun _ _ ⟨_, hvw⟩ => hvw

theorem readResponse_extended {raw raw' : Members} (hroot : Extended .other root root')
    (h : Grown raw raw') (place : String) :
    Carries Eq (readResponse root place raw).outcome (readResponse root' place raw').outcome := by
  have hresponses := h.get?_rel "responses" (by decide)
  refine Carries.trace (membersOf_objects (orEmptyMap_objects hresponses)) ?_
  intro responses others hpopulated
  refine Carries.trace (holder?_extended hroot (success?_populated hpopulated)
    (fun _ _ _ => True.intro) fun _ _ _ _ _ _ _ _ => True.intro) fun found other hfound => ?_
  cases hfound with
  | none => exact .ok rfl
  | some hfound =>
    refine Carries.trace (jsonSchema?_kin hfound.1) fun given given' hgiven => ?_
    cases hgiven with
    | none => exact .ok rfl
    | @some v w hvw =>
      simp only [Schema.read_extended _ w hvw]
      exact .of_eq rfl

/-! ## Parameters -/

/-- Two mappings have the same flags and the same default. -/
structure SameFlags (found other : Members) : Prop where
  required : SameMark found other
  nullable : (other.get? "nullable").map Value.truthy = (found.get? "nullable").map Value.truthy
  default : other.get? "default" = found.get? "default"

theorem SameFlags.of_grown {found other : Members} (h : Grown found other) :
    SameFlags found other where
  required := .of_grown h
  nullable := congrArg _ (h.get?_data "nullable" (by decide))
  default := h.get?_data "default" (by decide)

theorem readFound_grown {found other : Members} (h : Grown found other) (place : String) :
    readFound place other = readFound place found := by
  have hschema := readSchema_extended (h.get?_rel "schema" (by decide))
  simp only [readFound, finishParameter, hschema, h.get?_data "name" (by decide),
    h.get?_data "in" (by decide), h.get?_data "description" (by decide),
    h.get?_data "required" (by decide), h.get?_data "nullable" (by decide),
    h.get?_data "default" (by decide)]

theorem present?_object {given given' : Option Value} {v : Value}
    (h : Option.Rel (Extended .object) given given') (hv : Value.present? given = some v) :
    ∃ w, Value.present? given' = some w ∧ Extended .object v w := by
  obtain ⟨rfl, htruthy⟩ := Value.present?_eq_some.mp hv
  cases h with
  | some hvw => exact ⟨_, Value.present?_eq_some.mpr ⟨rfl, hvw.truthy_object htruthy⟩, hvw⟩

/-- No object is a location. -/
theorem locationOf?_extended {v w : Value} (h : Extended .object v w) :
    locationOf? w = locationOf? v := by
  cases h <;> rfl

theorem finishParameter_populated {found other : Members} (h : Populated found other)
    (hflags : SameFlags found other) (place : String) (name : Value)
    (location : ParameterLocation) (schema : Schema) :
    Carries Eq (finishParameter place found name location schema)
      (finishParameter place other name location schema) := by
  have hdescription := Members.Matched.get? h.matched "description"
  unfold finishParameter
  rw [hflags.required, hflags.nullable, hflags.default]
  generalize found.get? "description" = given at hdescription ⊢
  generalize other.get? "description" = given' at hdescription ⊢
  refine .bind (.of_eq rfl) fun nameText _ hname => ?_
  cases hname
  cases hdescription with
  | none => exact .of_eq rfl
  | some hvw =>
    cases hvw with
    | same => exact .of_eq rfl
    | object _ => exact .error _

/-- A collection of objects is a parameter only as far as its members are no objects. -/
theorem readFound_populated {found other : Members} (h : Populated found other)
    (hflags : SameFlags found other) (place : String) :
    Carries Eq (readFound place found).outcome (readFound place other).outcome := by
  have hschema := readSchema_extended (Members.Matched.get? h.matched "schema")
  unfold readFound
  cases hname : Value.present? (found.get? "name") with
  | none => exact .error _
  | some name =>
    cases hin : Value.present? (found.get? "in") with
    | none => exact .error _
    | some location =>
      obtain ⟨name', hname', hnames⟩ :=
        present?_object (Members.Matched.get? h.matched "name") hname
      obtain ⟨location', hin', hlocations⟩ :=
        present?_object (Members.Matched.get? h.matched "in") hin
      simp only [hname', hin', locationOf?_extended hlocations]
      cases locationOf? location with
      | none => exact .ok rfl
      | some location =>
        cases hnames with
        | same =>
          simp only [hschema]
          refine Carries.trace_eq (.of_eq rfl) fun text => ?_
          refine Carries.trace_eq (.of_eq rfl) fun schema => ?_
          refine Carries.trace_eq (finishParameter_populated h hflags _ _ _ _) fun p => ?_
          exact .of_eq rfl
        | object _ =>
          -- The name is an object and no text, so nothing was read to begin with.
          intro p hp
          simp only [Traced.bind_outcome_eq_ok] at hp
          obtain ⟨_, _, _, _, q, hq, _⟩ := hp
          cases hq

theorem readParameter_extended {holder holder' : Members} (hroot : Extended .other root root')
    (h : Grown holder holder') (place : String)
    (hflags : StandsFor root root' SameFlags holder) :
    Carries Eq (readParameter root place holder).outcome
      (readParameter root' place holder').outcome := by
  rw [readParameter_eq, readParameter_eq]
  refine Carries.trace (dereference_extended hroot h (fun _ _ => SameFlags.of_grown) hflags) ?_
  rintro found other ⟨hgrown | hpopulated, hsame⟩
  · exact .of_eq (congrArg _ (readFound_grown hgrown place))
  · exact readFound_populated hpopulated hsame place

theorem readParameters_extended {items others : List Value} (hroot : Extended .other root root')
    (h : List.Forall₂ (Extended .object) items others) (place : String) (index : Nat)
    (merged : List Parameter) (hflags : ∀ holder knot, .map holder knot ∈ items →
      StandsFor root root' SameFlags holder) :
    Carries Eq (readParameters root place index merged items).outcome
      (readParameters root' place index merged others).outcome := by
  induction h generalizing index merged with
  | nil => exact .of_eq rfl
  | @cons v w items others hvw _ ih =>
    cases v with
    | map holder knot =>
      obtain ⟨holder', hmembers, hgrown⟩ := membersOf_object hvw holder rfl
      obtain ⟨knot', rfl⟩ := membersOf_eq_ok.mp hmembers
      refine Carries.trace_eq (readParameter_extended hroot hgrown place
        (hflags holder knot List.mem_cons_self)) fun p => ?_
      exact ih _ _ fun holder knot hmem => hflags holder knot (List.mem_cons_of_mem _ hmem)
    | _ =>
      rw [readParameters_other (by simp)]
      exact .error _

end Reading

end ApiContract.Document

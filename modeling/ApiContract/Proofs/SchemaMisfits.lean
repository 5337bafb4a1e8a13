import ApiContract.Proofs.SchemaPlace

/-!
Misfits in schemas. Keywords that do not fit are reported, so what is left are references,
enumerated values, required names and names of properties. Reading a schema stops at one of these
exactly if it is the first thing that is wrong.
-/

namespace ApiContract

variable {α β : Type}

namespace Schema

variable {place : String} {raw : Members}

/-! ## Keywords -/

theorem fieldResult_steady (place : String) (x : Except FieldIssue α) :
    Steady (fieldResult place x) := by
  cases x with
  | ok a => exact .ok a
  | error i => exact .fault trivial

theorem readTraits_steady (place : String) (raw : Members) : Steady (readTraits place raw) :=
  (fieldResult_steady place _).bind_steady fun _ _ => .ok _

theorem readString_steady (place : String) (raw : Members) : Steady (readString place raw) := by
  refine (readTraits_steady place raw).bind_steady fun _ _ => ?_
  refine (fieldResult_steady place _).bind_steady fun _ _ => ?_
  refine (fieldResult_steady place _).bind_steady fun _ _ => ?_
  refine (fieldResult_steady place _).bind_steady fun _ _ => ?_
  exact (fieldResult_steady place _).bind_steady fun _ _ => .ok _

theorem readNumber_steady (place : String) (raw : Members) (integer : Bool) :
    Steady (readNumber place raw integer) := by
  refine (readTraits_steady place raw).bind_steady fun _ _ => ?_
  refine (fieldResult_steady place _).bind_steady fun _ _ => ?_
  exact (fieldResult_steady place _).bind_steady fun _ _ => .ok _

theorem finishArray_steady (place : String) (raw : Members) (items : Schema) :
    Steady (finishArray place raw items) := by
  refine (readTraits_steady place raw).bind_steady fun _ _ => ?_
  refine (fieldResult_steady place _).bind_steady fun _ _ => ?_
  exact (fieldResult_steady place _).bind_steady fun _ _ => .ok _

theorem finishObject_steady (place : String) (raw : Members) (properties : List (Scalar × Schema))
    (required : List Value) : Steady (finishObject place raw properties required) := by
  refine (readTraits_steady place raw).bind_steady fun _ _ => ?_
  refine (fieldResult_steady place _).bind_steady fun _ _ => ?_
  exact (fieldResult_steady place _).bind_steady fun _ _ => .ok _

/-! ## Parts that are not checked -/

/-- A reference that is refused has to be shown. -/
theorem readRef_stumbles (place : String) (raw : Members) (pointer : Value) :
    StumblesIff (targetOf? pointer = none ∧ pointer.hasSpelling = false)
      (readRef place raw pointer) := by
  unfold readRef
  split
  next h =>
    have hthrow := pointer.spelled_stumbles.bind_steady
      (f := fun shown => (throw (.schema (.reference place shown)) : Except Issue Schema))
      fun _ _ => .schema _
    exact hthrow.congr ⟨fun hs => ⟨h, hs⟩, And.right⟩
  next target h =>
    refine ((readTraits_steady place raw).bind_steady fun _ _ => .ok _).congr ?_
    simp [h]

theorem enumText_stumbles (v : Value) :
    StumblesIff (∃ kind, Json.text v = .error kind) (enumText v) := by
  unfold enumText
  split
  next s => exact (StumblesIff.ok s).congr (by simp [Json.text, Json.textIn, Json.scalarText])
  next =>
    cases h : Json.text v with
    | ok text => exact (StumblesIff.ok text).congr (by simp)
    | error kind => exact (StumblesIff.misfit kind).congr (by simp)

theorem exists_enumText {v : Value} {text : String} (h : Json.text v = .ok text) :
    ∃ spelled, enumText v = .ok spelled := by
  unfold enumText
  split
  · exact ⟨_, rfl⟩
  · rw [h]
    exact ⟨text, rfl⟩

theorem enumTexts_stumbles (vs : List Value) :
    StumblesIff (∃ v ∈ vs, ∃ kind, Json.text v = .error kind) (vs.mapM enumText) := by
  induction vs with
  | nil => exact (StumblesIff.ok []).congr (by simp)
  | cons v vs ih =>
    rw [List.mapM_cons]
    have hrest := fun text => ih.bind_steady (f := fun texts => pure (text :: texts))
      fun texts _ => StumblesIff.ok (text :: texts)
    refine ((enumText_stumbles v).bind fun text _ => hrest text).congr ?_
    constructor
    · rintro (hv | ⟨_, _, w, hw, hfails⟩)
      · exact ⟨v, List.mem_cons_self, hv⟩
      · exact ⟨w, List.mem_cons_of_mem _ hw, hfails⟩
    · rintro ⟨w, hw, hfails⟩
      cases htext : Json.text v with
      | error kind => exact .inl ⟨kind, rfl⟩
      | ok text =>
        rcases List.mem_cons.mp hw with rfl | hw
        · rw [htext] at hfails
          obtain ⟨_, hkind⟩ := hfails
          cases hkind
        · obtain ⟨spelled, hspelled⟩ := exists_enumText htext
          exact .inr ⟨spelled, hspelled, w, hw, hfails⟩

theorem readEnum_stumbles (place : String) (raw : Members) (values : Value) :
    StumblesIff (∃ items knot, values = .seq items knot ∧ ∃ v ∈ items, ∃ kind,
      Json.text v = .error kind) (readEnum place raw values) := by
  unfold readEnum
  split
  next v vs knot =>
    refine ((enumTexts_stumbles (v :: vs)).bind_steady fun texts _ => ?_).congr ?_
    · exact (readTraits_steady place raw).bind_steady fun _ _ => .ok _
    · constructor
      · intro h
        exact ⟨v :: vs, knot, rfl, h⟩
      · rintro ⟨items, knot, hseq, h⟩
        cases hseq
        exact h
  next hother =>
    refine (StumblesIff.schema _).congr (iff_of_false id ?_)
    rintro ⟨items, knot, rfl, v, hv, _⟩
    cases items with
    | nil => cases hv
    | cons w ws => exact hother w ws knot rfl

/-- A list of required names is turned into a set, so its members have to be keys. -/
theorem requiredNames_stumbles (place : String) (raw : Members) :
    StumblesIff (∃ items knot, raw.get? "required" = some (.seq items knot) ∧
      ∃ v ∈ items, v.isHashable = false) (requiredNames place raw) := by
  unfold requiredNames
  split
  next h =>
    refine (StumblesIff.ok []).congr (iff_of_false id ?_)
    rintro ⟨items, knot, hget, v, hv, _⟩
    have hempty := Value.present?_eq_none.mp h _ hget
    simp [Value.truthy, List.ne_nil_of_mem hv] at hempty
  next b h =>
    refine (StumblesIff.ok []).congr (iff_of_false id ?_)
    rintro ⟨items, knot, hget, _⟩
    rw [hget] at h
    cases (Value.present?_eq_some.mp h).1
  next items knot h =>
    have hget := (Value.present?_eq_some.mp h).1
    have hcond : (∃ v ∈ items, v.isHashable = false) ↔ ∃ items' knot',
        raw.get? "required" = some (.seq items' knot') ∧ ∃ v ∈ items', v.isHashable = false := by
      rw [hget]
      constructor
      · intro hv
        exact ⟨items, knot, rfl, hv⟩
      · rintro ⟨_, _, ⟨⟩, hv⟩
        exact hv
    split
    next hall =>
      refine (StumblesIff.ok _).congr (iff_of_false id ?_)
      rw [← hcond]
      rintro ⟨v, hv, hno⟩
      rw [List.all_eq_true.mp hall v hv] at hno
      cases hno
    next hall =>
      refine (StumblesIff.misfit _).congr (iff_of_true trivial (hcond.mp ?_))
      simpa using hall
  next v hbool hseq h =>
    refine (StumblesIff.schema _).congr (iff_of_false id ?_)
    rintro ⟨items, knot, hget, _⟩
    have hv := (Value.present?_eq_some.mp h).1
    rw [hget] at hv
    cases hv
    exact hseq items knot rfl

theorem checkProperties_steady (place : String) (raw : Members) :
    Steady (checkProperties place raw) := by
  unfold checkProperties
  split
  · exact .ok ()
  · exact .ok ()
  · exact .schema _

/-! ## Misfits -/

/-- A schema of this value can be read. -/
def Reads (raw : Value) : Prop := ∃ place s, (read place raw).outcome = .ok s

theorem Reads.at {raw : Value} (h : Reads raw) (place : String) :
    ∃ s, (read place raw).outcome = .ok s := by
  obtain ⟨p, s, hs⟩ := h
  exact ⟨s, read_place p place raw s hs⟩

/-- The required names that an object lists can be read. -/
def Requires (raw : Members) : Prop := ∃ place names, requiredNames place raw = .ok names

/-- The first thing in a schema that cannot be read is a misfit: a value without end, a reference to
something else than a component or an enumerated value that cannot be written, a list of required
names with something in it that is no key, or the name of a property that cannot be written. -/
inductive Trips : Value → Prop
  | endless : Trips .endless
  | pointer {members : Members} {knot : Nat} {ref : Value} : kindOf members = .ref ref →
      targetOf? ref = none → ref.hasSpelling = false → Trips (.map members knot)
  | value {members : Members} {knot k : Nat} {items : List Value} {v : Value} {kind : Misfit} :
      kindOf members = .enum (.seq items k) → v ∈ items → Json.text v = .error kind →
      Trips (.map members knot)
  | item {members : Members} {knot : Nat} {v : Value} : kindOf members = .array →
      members.get? "items" = some v → Trips v → Trips (.map members knot)
  | required {members : Members} {knot k : Nat} {items : List Value} {v : Value} :
      kindOf members = .object → Value.Mapped (members.get? "properties") →
      members.get? "required" = some (.seq items k) → v ∈ items → v.isHashable = false →
      Trips (.map members knot)
  | name {members before after : Members} {knot k : Nat} {name : Scalar} {v : Value} :
      kindOf members = .object → Requires members →
      members.get? "properties" = some (.map (before ++ (name, v) :: after) k) →
      (∀ p ∈ before, p.1.hasSpelling = true ∧ Reads p.2) → name.hasSpelling = false →
      Trips (.map members knot)
  | property {members before after : Members} {knot k : Nat} {name : Scalar} {v : Value} :
      kindOf members = .object → Requires members →
      members.get? "properties" = some (.map (before ++ (name, v) :: after) k) →
      (∀ p ∈ before, p.1.hasSpelling = true ∧ Reads p.2) → Trips v → Trips (.map members knot)

/-- The first of some properties that cannot be read is at a misfit. -/
def EachTrips (properties : Members) : Prop :=
  FirstFails (fun p => p.1.hasSpelling = true ∧ Reads p.2)
    (fun p => p.1.hasSpelling = false ∨ Trips p.2) properties

theorem trips_map_iff {members : Members} {knot : Nat} : Trips (.map members knot) ↔
    match kindOf members with
    | .ref pointer => targetOf? pointer = none ∧ pointer.hasSpelling = false
    | .enum values => ∃ items k, values = .seq items k ∧ ∃ v ∈ items, ∃ kind,
        Json.text v = .error kind
    | .array => ∃ v, members.get? "items" = some v ∧ Trips v
    | .object => Value.Mapped (members.get? "properties") ∧
        ((∃ items k, members.get? "required" = some (.seq items k) ∧
          ∃ v ∈ items, v.isHashable = false) ∨
        Requires members ∧ ∃ ps k, members.get? "properties" = some (.map ps k) ∧ EachTrips ps)
    | _ => False := by
  constructor
  · intro h
    cases h with
    | pointer hkind htarget hspelling => rw [hkind]; exact ⟨htarget, hspelling⟩
    | value hkind hv hfails => rw [hkind]; exact ⟨_, _, rfl, _, hv, _, hfails⟩
    | item hkind hget hv => rw [hkind]; exact ⟨_, hget, hv⟩
    | required hkind hmapped hget hv hno =>
      rw [hkind]
      exact ⟨hmapped, .inl ⟨_, _, hget, _, hv, hno⟩⟩
    | name hkind hrequires hget hbefore hno =>
      rw [hkind]
      exact ⟨Value.mapped_of_get? hget, .inr ⟨hrequires, _, _, hget, _, _, _, rfl, hbefore, .inl hno⟩⟩
    | property hkind hrequires hget hbefore hv =>
      rw [hkind]
      exact ⟨Value.mapped_of_get? hget, .inr ⟨hrequires, _, _, hget, _, _, _, rfl, hbefore, .inr hv⟩⟩
  · intro h
    split at h
    next pointer hkind => exact .pointer hkind h.1 h.2
    next values hkind =>
      obtain ⟨items, k, rfl, v, hv, kind, hfails⟩ := h
      exact .value hkind hv hfails
    next hkind =>
      obtain ⟨v, hget, hv⟩ := h
      exact .item hkind hget hv
    next hkind =>
      obtain ⟨hmapped, ⟨items, k, hget, v, hv, hno⟩ | ⟨hrequires, _, k, hget, hfirst⟩⟩ := h
      · exact .required hkind hmapped hget hv hno
      · obtain ⟨before, ⟨name, v⟩, after, rfl, hbefore, hname | hv⟩ := hfirst
        · exact .name hkind hrequires hget hbefore hname
        · exact .property hkind hrequires hget hbefore hv
    next => exact h.elim

mutual

/-- Reading a schema stops at a misfit exactly if that is the first thing that is wrong in it. -/
theorem read_stumbles : ∀ (place : String) (v : Value), StumblesIff (Trips v) (read place v).outcome
  | _, .scalar .null => (StumblesIff.ok _).congr (iff_of_false id nofun)
  | place, .map members knot => by
    rw [read_map]
    refine StumblesIff.congr ?_ trips_map_iff.symm
    cases hkind : kindOf members with
    | ref pointer => exact readRef_stumbles place members pointer
    | enum values => exact readEnum_stumbles place members values
    | string => exact readString_steady place members
    | number integer => exact readNumber_steady place members integer
    | boolean => exact (readTraits_steady place members).map _
    | array =>
      exact (readItems_stumbles (place ++ "[]") members).trace_steady fun items _ =>
        finishArray_steady place members items
    | object =>
      refine StumblesIff.congr (.trace (T := fun _ => _ ∨ ∃ _, _ ∧ _)
        (checkProperties_steady place members) fun _ _ =>
          .trace (requiredNames_stumbles place members) fun required _ =>
            .trace_steady (readProperties_stumbles place required members) fun found _ =>
              finishObject_steady place members found.1 found.2) ?_
      constructor
      · rintro (hfalse | ⟨_, hcheck, hnames | ⟨names, hnames, hproperties⟩⟩)
        · exact hfalse.elim
        · exact ⟨checkProperties_eq_ok.mp hcheck, .inl hnames⟩
        · exact ⟨checkProperties_eq_ok.mp hcheck, .inr ⟨⟨place, names, hnames⟩, hproperties⟩⟩
      · rintro ⟨hmapped, hnames | ⟨hrequires, hproperties⟩⟩
        · exact .inr ⟨(), checkProperties_eq_ok.mpr hmapped, .inl hnames⟩
        · obtain ⟨p, names, hnames⟩ := hrequires
          exact .inr ⟨(), checkProperties_eq_ok.mpr hmapped,
            .inr ⟨names, requiredNames_place p place members names hnames, hproperties⟩⟩
    | any => exact (readTraits_steady place members).map _
  | _, .endless => (StumblesIff.misfit _).congr (iff_of_true trivial .endless)
  | _, .scalar (.bool _) => (StumblesIff.schema _).congr (iff_of_false id nofun)
  | _, .scalar (.int _) => (StumblesIff.schema _).congr (iff_of_false id nofun)
  | _, .scalar (.float _) => (StumblesIff.schema _).congr (iff_of_false id nofun)
  | _, .scalar (.str _) => (StumblesIff.schema _).congr (iff_of_false id nofun)
  | _, .scalar (.date _) => (StumblesIff.schema _).congr (iff_of_false id nofun)
  | _, .scalar (.moment _) => (StumblesIff.schema _).congr (iff_of_false id nofun)
  | _, .scalar (.bytes _) => (StumblesIff.schema _).congr (iff_of_false id nofun)
  | _, .seq _ _ => (StumblesIff.schema _).congr (iff_of_false id nofun)
  | _, .pair _ _ => (StumblesIff.schema _).congr (iff_of_false id nofun)
  | _, .set _ => (StumblesIff.schema _).congr (iff_of_false id nofun)

theorem readItems_stumbles : ∀ (place : String) (members : List (Scalar × Value)),
    StumblesIff (∃ v, Members.get? "items" members = some v ∧ Trips v)
      (readItems place members).outcome
  | _, [] => (StumblesIff.ok _).congr (by simp [Members.get?])
  | place, (k, v) :: rest => by
    rw [readItems, Members.get?]
    split
    next hk => exact (read_stumbles place v).congr (by simp)
    next hk => exact readItems_stumbles place rest

theorem readProperties_stumbles : ∀ (place : String) (required : List Value)
    (members : List (Scalar × Value)),
    StumblesIff (∃ ps k, Members.get? "properties" members = some (.map ps k) ∧ EachTrips ps)
      (readProperties place required members).outcome
  | _, _, [] => (StumblesIff.ok _).congr (by simp [Members.get?])
  | place, required, (k, v) :: rest => by
    by_cases hk : k = .str "properties"
    · cases v with
      | map properties knot =>
        rw [readProperties, Members.get?, if_pos hk, if_pos hk]
        exact (readEach_stumbles place required properties).congr (by simp)
      | _ =>
        simp only [readProperties, Members.get?, if_pos hk]
        exact (StumblesIff.ok _).congr (by simp)
    · cases v with
      | _ =>
        simp only [readProperties, Members.get?, if_neg hk]
        exact readProperties_stumbles place required rest

theorem readEach_stumbles : ∀ (place : String) (required : List Value)
    (properties : List (Scalar × Value)),
    StumblesIff (EachTrips properties) (readEach place required properties).outcome
  | _, _, [] => (StumblesIff.ok _).congr (iff_of_false id firstFails_nil)
  | place, required, (name, raw) :: rest => by
    rw [EachTrips, firstFails_cons, readEach_cons]
    refine StumblesIff.congr (.trace (T := fun _ => False ∨ ∃ _, _ ∧ (_ ∨ ∃ _, _ ∧ _))
      name.spelledPlain_stumbles fun text _ => .trace ?_ fun required _ =>
        .trace (read_stumbles (place ++ "." ++ text) raw) fun schema _ =>
          .trace_steady (readEach_stumbles place required rest) fun found _ => .ok _) ?_
    · rw [noteMark_outcome]
      exact .ok _
    · constructor
      · rintro (hname | ⟨text, htext, hfalse | ⟨noted, _, hraw | ⟨schema, hschema, hrest⟩⟩⟩)
        · exact .inl (.inl hname)
        · exact hfalse.elim
        · exact .inl (.inr hraw)
        · have hspelled := (Scalar.spelledPlain_eq_ok.mp htext).1
          exact .inr ⟨⟨hspelled, _, schema, hschema⟩, hrest⟩
      · by_cases hname : name.hasSpelling = false
        · exact fun _ => .inl hname
        · have hspelled : name.hasSpelling = true := by simpa using hname
          have htext := Scalar.spelledPlain_eq_ok.mpr ⟨hspelled, rfl⟩
          have hnoted := noteMark_outcome (place ++ "." ++ name.plain) name raw required
          rintro ((hno | hraw) | ⟨⟨_, hreads⟩, hrest⟩)
          · exact absurd hno hname
          · exact .inr ⟨_, htext, .inr ⟨_, hnoted, .inl hraw⟩⟩
          · obtain ⟨schema, hschema⟩ := hreads.at (place ++ "." ++ name.plain)
            exact .inr ⟨_, htext, .inr ⟨_, hnoted, .inr ⟨schema, hschema, hrest⟩⟩⟩

end

end Schema

end ApiContract

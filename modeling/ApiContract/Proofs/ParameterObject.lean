import ApiContract.Proofs.MergedParameters
import ApiContract.Proofs.ObjectProperties
import Mathlib.Data.List.Nodup

/-!
Parameters as the properties of an object. The parameters of an operation are read and translated
on a way of their own; what comes out is what comes out for one object schema that has them as its
properties, each with what the parameter says itself put over what its schema says.
-/

namespace ApiContract

/-! ## Members put over others -/

namespace Members

theorem get?_put (key other : String) (v : Value) (members : Members) :
    (members.put (.str key) v).get? other =
      if key = other then some v else members.get? other := by
  induction members with
  | nil => simp [put, get?]
  | cons m rest ih =>
    obtain ⟨k, w⟩ := m
    have hsame : k.sameKey (.str key) = true ↔ k = .str key :=
      Scalar.sameKey_iff_of_whole rfl (by simp) (by simp)
    rw [put]
    by_cases hk : k = .str key
    · rw [if_pos (hsame.mpr hk), hk, get?, get?]
      by_cases hother : key = other <;> simp [hother]
    · rw [if_neg fun h => hk (hsame.mp h), get?, get?, ih]
      by_cases hother : key = other
      · subst hother
        simp [hk]
      · simp [hother]

/-- A mapping, with what another one says under some keys put in place. -/
def overridden (keys : List String) (own base : Members) : Members :=
  keys.foldl (fun members key =>
    match own.get? key with
    | some v => members.put (.str key) v
    | none => members) base

theorem get?_overridden (keys : List String) (own base : Members) (key : String) :
    (overridden keys own base).get? key =
      if key ∈ keys then own.get? key <|> base.get? key else base.get? key := by
  unfold overridden
  induction keys generalizing base with
  | nil => rfl
  | cons k keys ih =>
    rw [List.foldl_cons, ih]
    have hstep : (match own.get? k with
        | some v => base.put (.str k) v
        | none => base).get? key =
          if k = key then own.get? key <|> base.get? key else base.get? key := by
      by_cases hk : k = key
      · rw [if_pos hk, hk]
        cases own.get? key with
        | none => rfl
        | some v => exact (get?_put key key v base).trans (if_pos rfl)
      · rw [if_neg hk]
        cases own.get? k with
        | none => rfl
        | some v => exact (get?_put k key v base).trans (if_neg hk)
    rw [hstep]
    by_cases hk : k = key
    · subst hk
      cases own.get? k <;> simp
    · simp [hk, Ne.symm hk]

end Members

namespace Schema

/-! ## Schemas with other traits -/

/-- A schema that says something else of itself. -/
def withTraits (t : Traits) : Schema → Schema
  | .string _ format pattern low high => .string t format pattern low high
  | .enum _ values => .enum t values
  | .number _ integer low high => .number t integer low high
  | .boolean _ => .boolean t
  | .any _ => .any t
  | .array _ items low high => .array t items low high
  | .object _ properties required => .object t properties required
  | .ref _ target => .ref t target

@[simp] theorem traits_withTraits (t : Traits) (s : Schema) : (s.withTraits t).traits = t := by
  cases s <;> rfl

/-- The keys under which a schema, and a parameter as well, says its traits. -/
def traitKeys : List String := ["nullable", "default", "description"]

section Traits

variable {place : String} {members others : Members} {s : Schema} {t : Traits}
  (h : ∀ key, key ∉ traitKeys → others.get? key = members.get? key)
  (htraits : readTraits place others = .ok t)

include h

theorem kindOf_withTraits : kindOf others = kindOf members := by
  simp only [kindOf, h "$ref" (by decide), h "type" (by decide), h "enum" (by decide),
    h "items" (by decide), h "properties" (by decide)]

include htraits

theorem readString_withTraits (hread : readString place members = .ok s) :
    readString place others = .ok (s.withTraits t) := by
  obtain ⟨_, _, format, hformat, pattern, hpattern, low, hlow, high, hhigh, rfl⟩ :=
    readString_eq_ok.mp hread
  simp only [readString_eq_ok, h "format" (by decide), h "pattern" (by decide),
    h "minLength" (by decide), h "maxLength" (by decide)]
  exact ⟨t, htraits, format, hformat, pattern, hpattern, low, hlow, high, hhigh, rfl⟩

theorem readNumber_withTraits {integer : Bool} (hread : readNumber place members integer = .ok s) :
    readNumber place others integer = .ok (s.withTraits t) := by
  obtain ⟨_, _, low, hlow, high, hhigh, rfl⟩ := readNumber_eq_ok.mp hread
  simp only [readNumber_eq_ok, h "minimum" (by decide), h "maximum" (by decide)]
  exact ⟨t, htraits, low, hlow, high, hhigh, rfl⟩

theorem finishArray_withTraits {items : Schema} (hread : finishArray place members items = .ok s) :
    finishArray place others items = .ok (s.withTraits t) := by
  obtain ⟨_, _, low, hlow, high, hhigh, rfl⟩ := finishArray_eq_ok.mp hread
  simp only [finishArray_eq_ok, h "minItems" (by decide), h "maxItems" (by decide)]
  exact ⟨t, htraits, low, hlow, high, hhigh, rfl⟩

/-- A mapping that says the same but for its traits is read as the same schema with these. -/
theorem read_withTraits {knot knot' : Nat}
    (hread : (read place (.map members knot)).outcome = .ok s) :
    (read place (.map others knot')).outcome = .ok (s.withTraits t) := by
  rw [read_map_eq_ok] at hread ⊢
  rw [kindOf_withTraits h]
  generalize kindOf members = kind at hread ⊢
  cases kind with
  | ref pointer =>
    obtain ⟨target, htarget, _, _, rfl⟩ := readRef_eq_ok.mp hread
    exact readRef_eq_ok.mpr ⟨target, htarget, t, htraits, rfl⟩
  | enum values =>
    obtain ⟨w, ws, k, hvalues, texts, htexts, _, _, rfl⟩ := readEnum_eq_ok.mp hread
    exact readEnum_eq_ok.mpr ⟨w, ws, k, hvalues, texts, htexts, t, htraits, rfl⟩
  | string => exact readString_withTraits h htraits hread
  | number integer => exact readNumber_withTraits h htraits hread
  | boolean =>
    obtain ⟨_, _, rfl⟩ := hread
    exact ⟨t, htraits, rfl⟩
  | array =>
    obtain ⟨items, hitems, hread⟩ := hread
    refine ⟨items, ?_, finishArray_withTraits h htraits hread⟩
    rw [readItems_eq] at hitems ⊢
    rw [h "items" (by decide)]
    exact hitems
  | object =>
    obtain ⟨hchecked, required, hrequired, found, hfound, hread⟩ := hread
    obtain ⟨_, _, names, hnames, listed, hlisted, rfl⟩ := finishObject_eq_ok.mp hread
    refine ⟨?_, required, ?_, found, ?_, ?_⟩
    · rw [checkProperties, h "properties" (by decide)]
      exact hchecked
    · rw [requiredNames, h "required" (by decide)]
      exact hrequired
    · rw [propertiesOf, h "properties" (by decide)]
      exact hfound
    · exact finishObject_eq_ok.mpr ⟨t, htraits, names, hnames, listed, hlisted, rfl⟩
  | any =>
    obtain ⟨_, _, rfl⟩ := hread
    exact ⟨t, htraits, rfl⟩

end Traits

theorem ofSchema_withTraits (place : String) (t : Traits) (s : Schema) :
    Validator.Expr.ofSchema place (s.withTraits t) = Validator.Expr.ofSchema place s := by
  cases s <;> simp only [withTraits, Validator.Expr.ofSchema]

/-! ## Objects whose properties are known -/

/-- Texts that differ are distinct values. -/
theorem distinct_texts {names : List String} (h : names.Nodup) :
    distinct (names.map .str) = names.map .str := by
  have hfold : ∀ seen : List String, (seen ++ names).Nodup → (names.map Value.str).foldl
      (fun seen v => if seen.any (·.sameKey v) then seen else seen ++ [v]) (seen.map .str) =
        (seen ++ names).map .str := by
    induction names with
    | nil => simp
    | cons name names ih =>
      intro seen hseen
      have hnew : name ∉ seen := fun hmem =>
        (List.nodup_append.mp hseen).2.2 name hmem name List.mem_cons_self rfl
      have hany : (seen.map Value.str).any (·.sameKey (.str name)) = false := by
        have hname : Field.text (.str name) = .ok name := rfl
        rw [Bool.eq_false_iff, Ne, any_sameKey_iff hname]
        simpa using hnew
      rw [List.append_cons] at hseen ⊢
      rw [List.map_cons, List.foldl_cons, if_neg (by simp [hany])]
      simpa using ih (List.nodup_cons.mp h).2 (seen ++ [name]) hseen
  exact hfold [] h

theorem texts_strs (field : Nat → String) (index : Nat) (names : List String) :
    Field.texts field index (names.map .str) = .ok names := by
  induction names generalizing index with
  | nil => rfl
  | cons name names ih =>
    rw [List.map_cons, Field.texts, ih]
    rfl

/-- A property whose key is a text, which does not mark itself and is read as a schema. -/
structure PlainProperty (m : Scalar × Value) (p : String × Schema) : Prop where
  key : m.1 = .str p.1
  unmarked : marksItself m.2 = false
  read : ∀ place, (Schema.read place m.2).outcome = .ok p.2

/-- Such properties are read one after the other, and the names required stay as they are. -/
theorem readEach_plain {place : String} {members : Members} {properties : List (String × Schema)}
    (h : List.Forall₂ PlainProperty members properties) (required : List Value) :
    (readEach place required members).outcome =
      .ok (properties.map fun p => (.str p.1, p.2), required) := by
  induction h with
  | nil => rfl
  | @cons m p _ _ hm _ ih =>
    obtain ⟨key, raw⟩ := m
    obtain ⟨rfl, hmark, hread⟩ := hm
    refine readEach_cons_eq_ok.mpr ⟨p.1, rfl, required, ?_, p.2, hread _, _, ih, rfl⟩
    rw [noteMark_outcome, hmark]
    rfl

/-- A list of different texts is what an object requires. -/
theorem requiredNames_texts {place : String} {raw : Members} {names : List String} {knot : Nat}
    (h : raw.get? "required" = some (.seq (names.map .str) knot)) (hdistinct : names.Nodup) :
    requiredNames place raw = .ok (names.map .str) := by
  cases names with
  | nil => simp [requiredNames, h, Value.present?, Value.truthy]
  | cons name names =>
    have htruthy : (Value.seq ((name :: names).map .str) knot).truthy = true := rfl
    have hhashable : ((name :: names).map Value.str).all Value.isHashable = true := by
      simp [Value.isHashable]
    rw [requiredNames, h, Value.present?, if_pos htruthy]
    simp only [hhashable, if_true, distinct_texts hdistinct]

/-- An object of such properties that lists different texts is read as one that has the properties
and requires the texts. -/
theorem read_plainObject {place : String} {raw : Members} {knot listKnot : Nat} {t : Traits}
    {properties : List (String × Schema)} {names : List String} (hkind : kindOf raw = .object)
    (hmapped : Value.Mapped (raw.get? "properties")) (htraits : readTraits place raw = .ok t)
    (hproperties : List.Forall₂ PlainProperty (propertiesOf raw) properties)
    (hrequired : raw.get? "required" = some (.seq (names.map .str) listKnot))
    (hdistinct : names.Nodup) :
    (read place (.map raw knot)).outcome = .ok (.object t properties names.eraseDups) := by
  have hkeys : ∀ field index, Field.texts field index
      ((properties.map fun p => (Scalar.str p.1, p.2)).map fun p => .scalar p.1) =
        .ok (properties.map (·.1)) := by
    intro field index
    rw [← texts_strs field index, List.map_map, List.map_map]
    rfl
  have hzip : (properties.map (·.1)).zip ((properties.map fun p => (Scalar.str p.1, p.2)).map (·.2)) =
      properties := by
    rw [List.map_map]
    exact (List.zip_of_prod rfl rfl).symm
  rw [read_map_eq_ok, hkind]
  refine ⟨checkProperties_eq_ok.mpr hmapped, _, requiredNames_texts hrequired hdistinct, _,
    readEach_plain hproperties _, ?_⟩
  refine finishObject_eq_ok.mpr ⟨t, htraits, _, hkeys _ 0, _, texts_strs _ 0 names, ?_⟩
  rw [hzip]

end Schema

namespace Document

/-! ## The object -/

/-- The raw schema of a parameter, empty if it has none. -/
def rawSchema (found : Members) : Members :=
  match found.get? "schema" with
  | some (.map members _) => members
  | _ => []

/-- A parameter as a property: its schema, with its own traits put over those of the schema. -/
def asProperty (found : Members) : Value :=
  .map (Members.overridden Schema.traitKeys found (rawSchema found)) 0

/-- Whether a parameter says that it is required. -/
def isRequired (found : Members) : Bool := ((found.get? "required").map Value.truthy).getD false

/-- Parameters by name, as the properties of an object that requires those that are required. -/
def objectMembers (entries : List (String × Members)) : Members :=
  [(.str "type", .str "object"),
    (.str "properties", .map (entries.map fun e => (.str e.1, asProperty e.2)) 0),
    (.str "required", .seq ((entries.filter fun e => isRequired e.2).map fun e => .str e.1) 0)]

def asObject (entries : List (String × Members)) : Value := .map (objectMembers entries) 0

/-- An entry of a list of parameters with the name and location that it mentions. -/
def entryOf? (root item : Value) : Option ((String × ParameterLocation) × Members) := do
  let found ← objectOf? root item
  let pair ← pairOf? found
  return (pair, found)

/-- What a loop over a value runs through, or nothing. -/
def elements (v : Value) : List Value := (elementsOf v).toOption.getD []

/-- The parameter objects of an operation in one location, by name: of those that mention the same
name the last one, in the place of the first one. -/
def parameterObjects (root shared : Value) (raw : Members) (location : ParameterLocation) :
    List (String × Members) :=
  let items := elements shared ++ elements (orEmptySeq (raw.get? "parameters"))
  ((latest (·.1) (items.filterMap (entryOf? root))).filter (·.1.2 == location)).map
    fun e => (e.1.1, e.2)

/-- A parameter and the mapping it was read from. -/
structure ParameterFrom (e : String × Members) (p : Parameter) : Prop where
  name : e.1 = p.name
  read : ∀ place, (Schema.read place (asProperty e.2)).outcome =
    .ok (p.schema.withTraits ⟨p.nullable, p.default, p.description⟩)
  required : p.required = isRequired e.2

section Parameters

variable {root : Value} {place : String} {found : Members} {p : Parameter}

/-- What a parameter has for a schema reads as its raw schema does. -/
theorem read_rawSchema {s : Schema}
    (h : (Schema.read place ((found.get? "schema").getD .null)).outcome = .ok s) :
    (Schema.read place (.map (rawSchema found) 0)).outcome = .ok s := by
  unfold rawSchema
  cases hget : found.get? "schema" with
  | none =>
    rw [hget] at h
    exact h
  | some v =>
    rw [hget] at h
    cases v with
    | map members knot =>
      rw [Option.getD_some, Schema.read_map] at h
      rw [Schema.read_map]
      exact h
    | scalar w =>
      cases w with
      | null => exact h
      | _ => cases h
    | _ => cases h

/-- What a property says of itself is what the parameter was completed with. -/
theorem readTraits_asProperty (h : Completed found p)
    (hschema : Schema.readTraits place (rawSchema found) = .ok p.schema.traits) (here : String) :
    Schema.readTraits here (Members.overridden Schema.traitKeys found (rawSchema found)) =
      .ok ⟨p.nullable, p.default, p.description⟩ := by
  obtain ⟨hn, hd, ht⟩ := Schema.readTraits_eq_ok hschema
  have hdescription := h.description
  have hmem : "nullable" ∈ Schema.traitKeys ∧ "default" ∈ Schema.traitKeys ∧
      "description" ∈ Schema.traitKeys := by decide
  have htext : Field.optional "description" Field.text
      (found.get? "description" <|> (rawSchema found).get? "description") = .ok p.description := by
    cases hget : found.get? "description" with
    | none =>
      rw [hget] at hdescription
      exact ht.trans hdescription
    | some v =>
      rw [hget] at hdescription
      exact hdescription
  refine bind_eq_ok.mpr ⟨p.description, ?_, ?_⟩
  · rw [Members.get?_overridden, if_pos hmem.2.2]
    exact Schema.fieldResult_eq_ok.mpr htext
  · rw [Members.get?_overridden, if_pos hmem.1, Members.get?_overridden, if_pos hmem.2.1, h.default,
      h.nullable, hd, hn]
    cases found.get? "nullable" <;> rfl

/-- A parameter reads as the property that its mapping is as one. -/
theorem parameterFrom_of_readFound (h : (readFound place found).outcome = .ok (some p)) :
    ParameterFrom (p.name, found) p := by
  obtain ⟨_, ⟨here, hread⟩, hcompleted⟩ := readFound_eq_some h
  have hschema := read_rawSchema hread
  have htraits := readTraits_asProperty hcompleted (Schema.readTraits_of_read hschema)
  refine ⟨rfl, fun q => ?_, hcompleted.required⟩
  refine Schema.read_withTraits (fun key hkey => ?_) (htraits q) (Schema.read_place here q _ _ hschema)
  rw [Members.get?_overridden, if_neg hkey]

/-- The parameters of an operation are read from what its path and itself list. -/
theorem readOperation_parameters {method : String} {path : Scalar} {shared : Value} {raw : Members}
    {op : Operation} (h : (readOperation root method path shared raw).outcome = .ok op) :
    ∃ place, MergesTo root place (elements shared ++ elements (orEmptySeq (raw.get? "parameters")))
      op.parameters := by
  obtain ⟨_, place, sharedItems, ownItems, _, _, hshared, hown, hparameters⟩ :=
    readOperation_eq_ok h
  rw [elements, elements, hshared, hown]
  exact ⟨place, hparameters⟩

/-- An entry that is read as a parameter mentions its name and location, and one that is read as
nothing mentions none. -/
theorem entryOf?_rel {item : Value} {o : Option Parameter} (h : ReadAs root place item o) :
    Option.Rel (fun e p => e.1 = keyOf p ∧ (readFound place e.2).outcome = .ok (some p))
      (entryOf? root item) o := by
  obtain ⟨found, hobject, hread⟩ := h.exists_object
  cases o with
  | none =>
    have hnone := h.passedOver.mention
    rw [mention?, hobject] at hnone
    have hentry : entryOf? root item = none := by
      rw [entryOf?, hobject]
      change (pairOf? found).bind _ = none
      rw [show pairOf? found = none from hnone]
      rfl
    rw [hentry]
    exact .none
  | some p =>
    have hentry : entryOf? root item = some (keyOf p, found) := by
      rw [entryOf?, hobject]
      change (pairOf? found).bind _ = _
      rw [(readFound_eq_some hread).1]
      rfl
    rw [hentry]
    exact .some ⟨rfl, hread⟩

/-- The parameters of an operation in one location, each with its mapping. -/
theorem parameterObjects_forall₂ {method : String} {path : Scalar} {shared : Value} {raw : Members}
    {op : Operation} (h : (readOperation root method path shared raw).outcome = .ok op)
    (location : ParameterLocation) : List.Forall₂ ParameterFrom
      (parameterObjects root shared raw location) (op.parametersIn location) := by
  obtain ⟨place, hmerges⟩ := readOperation_parameters h
  obtain ⟨found, hfound, hps⟩ := mergesTo_iff.mp hmerges
  have hentries := List.rel_filterMap (R := ReadAs root place)
    (fun item o (hread : ReadAs root place item o) => entryOf?_rel hread) hfound
  have hlatest := latest_forall₂ Prod.fst keyOf hentries fun _ _ he => he.1.symm
  rw [parameterObjects, Operation.parametersIn, hps, List.forall₂_map_left_iff]
  refine (List.rel_filter (fun e p he => ?_) hlatest).imp fun e p he => ?_
  · have hlocation : e.1.2 = p.location := congrArg Prod.snd he.1
    simp only [hlocation]
  · obtain ⟨hkey, hread⟩ := he
    have hname : e.1.1 = p.name := congrArg Prod.fst hkey
    rw [hname]
    exact parameterFrom_of_readFound hread

/-- The names of parameters in one location differ. -/
theorem parametersIn_nodup {method : String} {path : Scalar} {shared : Value} {raw : Members}
    {op : Operation} (h : (readOperation root method path shared raw).outcome = .ok op)
    (location : ParameterLocation) : ((op.parametersIn location).map (·.name)).Nodup := by
  obtain ⟨place, hmerges⟩ := readOperation_parameters h
  obtain ⟨found, _, hps⟩ := mergesTo_iff.mp hmerges
  refine names_nodup ?_ location
  rw [hps, map_key_latest]
  exact nodup_eraseDups _

/-! ## Translation -/

/-- A parameter's schema with what the parameter says over what the schema says. -/
def propertySchema (p : Parameter) : Schema :=
  p.schema.withTraits ⟨p.nullable, p.default, p.description⟩

/-- The names of the parameters that are required. -/
def requiredIn (ps : List Parameter) : List String := (ps.filter (·.required)).map (·.name)

theorem marksItself_asProperty (found : Members) :
    Schema.marksItself (asProperty found) = Schema.marksItself (.map (rawSchema found) 0) := by
  simp only [Schema.marksItself, asProperty]
  rw [Members.get?_overridden, if_neg (by decide)]

/-- The object of parameters is read as an object of their schemas. -/
theorem read_asObject {entries : List (String × Members)} {ps : List Parameter}
    (h : List.Forall₂ ParameterFrom entries ps) (hdistinct : (ps.map (·.name)).Nodup)
    (hunmarked : ∀ e ∈ entries, Schema.marksItself (.map (rawSchema e.2) 0) = false)
    (place : String) : (Schema.read place (asObject entries)).outcome =
      .ok (.object .none (ps.map fun p => (p.name, propertySchema p)) (requiredIn ps).eraseDups) := by
  have hproperties : List.Forall₂ Schema.PlainProperty
      (Schema.propertiesOf (objectMembers entries)) (ps.map fun p => (p.name, propertySchema p)) := by
    change List.Forall₂ _ (entries.map fun e => (Scalar.str e.1, asProperty e.2)) _
    rw [List.forall₂_map_left_iff, List.forall₂_map_right_iff]
    refine ((List.forall₂_and_left _ _).mpr ⟨hunmarked, h⟩).imp fun e p he => ?_
    obtain ⟨hmark, he⟩ := he
    exact ⟨congrArg Scalar.str he.name, (marksItself_asProperty e.2).trans hmark, he.read⟩
  have hnames : (entries.filter fun e => isRequired e.2).map (fun e => Value.str e.1) =
      (requiredIn ps).map .str := by
    have hfilter := List.rel_filter (p := fun e : String × Members => isRequired e.2)
      (q := fun p : Parameter => p.required)
      (fun e p (he : ParameterFrom e p) => by simp only [he.required]) h
    rw [requiredIn, List.map_map]
    exact (map_eq_of_forall₂ hfilter fun e p he => by simp [he.name]).symm
  have hrequired : (objectMembers entries).get? "required" =
      some (.seq ((requiredIn ps).map .str) 0) := by
    rw [← hnames]
    rfl
  refine Schema.read_plainObject rfl ?_ rfl hproperties hrequired ?_
  · intro v hv
    cases (Value.present?_eq_some.mp hv).1
    exact ⟨_, _, rfl⟩
  · exact List.Nodup.sublist (List.filter_sublist.map _) hdistinct

/-- One object of the schemas of parameters is translated as the parameters are. -/
theorem ofProperties_parameters (place : String) (required : List String) (ps : List Parameter)
    (hrequired : ∀ p ∈ ps, required.contains p.name = p.required) :
    Validator.Expr.ofProperties place required (ps.map fun p => (p.name, propertySchema p)) =
      Validator.parameterProperties place ps := by
  induction ps with
  | nil => rfl
  | cons p ps ih =>
    obtain ⟨hp, hps⟩ := List.forall_mem_cons.mp hrequired
    rw [List.map_cons, Validator.Expr.ofProperties, Validator.parameterProperties]
    simp only [propertySchema, Schema.ofSchema_withTraits, Schema.traits_withTraits, hp]
    rw [← ih hps]
    rfl

theorem contains_requiredIn {ps : List Parameter} (hdistinct : (ps.map (·.name)).Nodup)
    {p : Parameter} (hp : p ∈ ps) : (requiredIn ps).eraseDups.contains p.name = p.required := by
  rw [Bool.eq_iff_iff, List.contains_iff_mem, List.mem_eraseDups, requiredIn, List.mem_map]
  constructor
  · intro hmem
    obtain ⟨q, hq, hname⟩ := hmem
    obtain ⟨hq, hrequired⟩ := List.mem_filter.mp hq
    rwa [← List.inj_on_of_nodup_map hdistinct hq hp hname]
  · intro hrequired
    exact ⟨p, List.mem_filter.mpr ⟨hp, hrequired⟩, rfl⟩

/-- Parameters behave like properties. Of an operation that is read, the parameters in one location
are translated as the object that has them as its properties: this object is read, and translating
what was read gives the same expression or the same failure. No raw schema may mark itself as
required, as a property's mark would count in its object. -/
theorem parameters_as_object (root : Value) (method : String) (path : Scalar) (shared : Value)
    (raw : Members) (op : Operation)
    (h : (readOperation root method path shared raw).outcome = .ok op)
    (location : ParameterLocation)
    (hunmarked : ∀ e ∈ parameterObjects root shared raw location,
      Schema.marksItself (.map (rawSchema e.2) 0) = false) :
    ∃ o, (∀ place, (Schema.read place
        (asObject (parameterObjects root shared raw location))).outcome = .ok o) ∧
      ∀ place, Validator.Expr.ofSchema place o =
        Validator.Expr.ofParameters place (op.parametersIn location) := by
  have hobjects := parameterObjects_forall₂ h location
  have hdistinct := parametersIn_nodup h location
  refine ⟨_, read_asObject hobjects hdistinct hunmarked, fun place => ?_⟩
  rw [Validator.Expr.ofSchema, ofProperties_parameters place _ _ fun p hp =>
    contains_requiredIn hdistinct hp]
  rfl

end Parameters

/-- A list of two parameters: the first one is a reference and says that there is no default and
that null is not taken, against its schema; the second one has no schema. -/
theorem parameters_as_object_limit :
    let limit : Members := [(.str "name", .str "limit"), (.str "in", .str "query"),
      (.str "required", .bool true), (.str "nullable", .bool false), (.str "default", .null),
      (.str "schema", .map [(.str "type", .str "integer"), (.str "nullable", .bool true),
        (.str "default", .int 20), (.str "description", .str "At most so many")] 0)]
    let tag : Members := [(.str "name", .str "tag"), (.str "in", .str "query"),
      (.str "description", .str "A tag")]
    let root : Value := .map [(.str "limit", .map limit 0)] 0
    let raw : Members :=
      [(.str "parameters", .seq [.map [(.str "$ref", .str "#/limit")] 0, .map tag 0] 0)]
    ∃ op o, (readOperation root "get" (.str "/pets") (.seq [] 0) raw).outcome = .ok op ∧
      (op.parametersIn .query).map (fun p => (p.name, p.required, p.nullable, p.description)) =
        [("limit", true, false, some "At most so many"), ("tag", false, false, some "A tag")] ∧
      (Schema.read "schema" (asObject [("limit", limit), ("tag", tag)])).outcome = .ok o ∧
      Validator.Expr.ofSchema "GET /pets query" o =
        Validator.Expr.ofParameters "GET /pets query" (op.parametersIn .query) := by
  intro limit tag root raw
  have hread : ∃ op, (readOperation root "get" (.str "/pets") (.seq [] 0) raw).outcome = .ok op ∧
      (op.parametersIn .query).map (fun p => (p.name, p.required, p.nullable, p.description)) =
        [("limit", true, false, some "At most so many"), ("tag", false, false, some "A tag")] :=
    ⟨_, rfl, rfl⟩
  have hobjects : parameterObjects root (.seq [] 0) raw .query = [("limit", limit), ("tag", tag)] :=
    rfl
  obtain ⟨op, hop, hparameters⟩ := hread
  obtain ⟨o, ho, htranslated⟩ := parameters_as_object root "get" (.str "/pets") (.seq [] 0) raw op
    hop .query (by
      rw [hobjects]
      exact List.forall_mem_cons.mpr ⟨rfl, List.forall_mem_singleton.mpr rfl⟩)
  rw [hobjects] at ho
  exact ⟨op, o, hop, hparameters, ho "schema", htranslated "GET /pets query"⟩

end Document

end ApiContract

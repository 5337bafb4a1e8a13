import ApiContract.Document.Reading
import ApiContract.Proofs.ReadingAgreement

/-!
Descriptions with extensions: members whose key starts with `x-`. They may be put in where the
members of an object have names of their own: in schemas, parameters, operations, path items,
bodies, responses and media types, at every depth. A collection of such objects is no place for
them, as the names in it are free, and data is left as it is.
-/

namespace ApiContract

/-- What stands under a key of an object: data, another object, a collection of objects, or
something that is not read in its place, though a reference may lead into it. -/
inductive Role where
  | data
  | object
  | objects
  | other
deriving Repr, DecidableEq

namespace Role

def dataKeys : List String :=
  ["$ref", "type", "enum", "format", "pattern", "minLength", "maxLength", "minimum", "maximum",
    "minItems", "maxItems", "required", "nullable", "default", "description", "name", "in",
    "summary", "servers"]

def objectKeys : List String := ["components", "items", "schema", "requestBody"]

def objectsKeys : List String :=
  ["schemas", "paths", "properties", "content", "responses", "parameters"]

/-- A method names an operation. -/
def ofKey : Scalar → Role
  | .str key =>
    if dataKeys.contains key then .data
    else if objectsKeys.contains key then .objects
    else if objectKeys.contains key || ((Document.methodOf? (.str key)).toOption.join).isSome then
      .object
    else .other
  | _ => .other

end Role

def IsExtension (key : String) : Prop := "x-".toList <+: key.toList

instance (key : String) : Decidable (IsExtension key) :=
  inferInstanceAs (Decidable ("x-".toList <+: key.toList))

mutual

/-- A value and what it is after extensions were put in. -/
inductive Extended : Role → Value → Value → Prop
  | same {role : Role} {v : Value} : Extended role v v
  | object {members others : Members} {knot knot' : Nat} : Grown members others →
      Extended .object (.map members knot) (.map others knot')
  | mapping {members others : Members} {knot knot' : Nat} : Populated members others →
      Extended .objects (.map members knot) (.map others knot')
  | listing {items others : List Value} {knot knot' : Nat} : Listed items others →
      Extended .objects (.seq items knot) (.seq others knot')
  | otherObject {v w : Value} : Extended .object v w → Extended .other v w
  | otherObjects {v w : Value} : Extended .objects v w → Extended .other v w

/-- The members of an object: those that were there, in their order, and extensions of fresh
names. -/
inductive Grown : Members → Members → Prop
  | nil : Grown [] []
  | kept {key : Scalar} {v w : Value} {members others : Members} :
      Extended (Role.ofKey key) v w → Grown members others →
      Grown ((key, v) :: members) ((key, w) :: others)
  | added {key : String} {v : Value} {members others : Members} : IsExtension key →
      members.get? key = none → Grown members others → Grown members ((.str key, v) :: others)

/-- Objects by name. -/
inductive Populated : Members → Members → Prop
  | nil : Populated [] []
  | cons {key : Scalar} {v w : Value} {members others : Members} : Extended .object v w →
      Populated members others → Populated ((key, v) :: members) ((key, w) :: others)

/-- Objects in a list. -/
inductive Listed : List Value → List Value → Prop
  | nil : Listed [] []
  | cons {v w : Value} {items others : List Value} : Extended .object v w →
      Listed items others → Listed (v :: items) (w :: others)

end

/-! ## Members -/

/-- Member by member, with extensions in between. -/
@[elab_as_elim]
theorem Grown.induct {motive : ∀ members others : Members, Grown members others → Prop}
    (nil : motive [] [] .nil)
    (kept : ∀ {key : Scalar} {v w : Value} {members others : Members}
      (hvw : Extended (Role.ofKey key) v w) (h : Grown members others), motive members others h →
        motive ((key, v) :: members) ((key, w) :: others) (.kept hvw h))
    (added : ∀ {key : String} {v : Value} {members others : Members} (hkey : IsExtension key)
      (hfresh : members.get? key = none) (h : Grown members others), motive members others h →
        motive members ((.str key, v) :: others) (.added hkey hfresh h))
    {members others : Members} : ∀ h : Grown members others, motive members others h
  | .nil => nil
  | .kept hvw h => kept hvw h (h.induct nil kept added)
  | .added hkey hfresh h => added hkey hfresh h (h.induct nil kept added)

theorem Populated.matched {members others : Members} : Populated members others →
    Members.Matched (fun _ => Extended .object) members others
  | .nil => .nil
  | .cons hvw h => .cons ⟨rfl, hvw⟩ h.matched

theorem Listed.forall₂ {items others : List Value} : Listed items others →
    List.Forall₂ (Extended .object) items others
  | .nil => .nil
  | .cons hvw h => .cons hvw h.forall₂

variable {members others : Members}

theorem Grown.refl (members : Members) : Grown members members := by
  induction members with
  | nil => exact .nil
  | cons m members ih => exact .kept .same ih

theorem Populated.refl (members : Members) : Populated members members := by
  induction members with
  | nil => exact .nil
  | cons m members ih => exact .cons .same ih

theorem ne_of_isExtension {key text : String} (h : IsExtension key) (htext : ¬ IsExtension text) :
    Scalar.str key ≠ .str text := by
  rintro heq
  cases heq
  exact htext h

/-- What was there is found where it was, as extensions have fresh names. -/
theorem Grown.get?_some {key : String} {v : Value} (h : Grown members others)
    (hget : members.get? key = some v) :
    ∃ w, others.get? key = some w ∧ Extended (Role.ofKey (.str key)) v w := by
  induction h using Grown.induct with
  | nil => cases hget
  | @kept k _ _ _ _ hvw _ ih =>
    rw [Members.get?] at hget ⊢
    split at hget
    next hk =>
      cases hget
      exact ⟨_, if_pos hk, hk ▸ hvw⟩
    next hk =>
      rw [if_neg hk]
      exact ih hget
  | @added s _ _ _ _ hfresh _ ih =>
    have hk : s ≠ key := by
      rintro rfl
      rw [hfresh] at hget
      cases hget
    rw [Members.get?, if_neg (fun heq => hk (Scalar.str.inj heq))]
    exact ih hget

/-- Under a key that no extension has there is something only if there was before. -/
theorem Grown.get?_rel (h : Grown members others) (key : String) (hkey : ¬ IsExtension key) :
    Option.Rel (Extended (Role.ofKey (.str key))) (members.get? key) (others.get? key) := by
  induction h using Grown.induct with
  | nil => exact .none
  | @kept k _ _ _ _ hvw _ ih =>
    rw [Members.get?, Members.get?]
    split
    next hk => exact .some (hk ▸ hvw)
    next => exact ih
  | @added s w _ others hs _ _ ih =>
    have hget : Members.get? key ((.str s, w) :: others) = others.get? key :=
      if_neg (ne_of_isExtension hs hkey)
    rw [hget]
    exact ih

/-- The names of methods do not start like those of extensions. -/
theorem methodOf?_extension {key : String} (h : IsExtension key) :
    Document.methodOf? (.str key) = .ok none := by
  obtain ⟨rest, hrest⟩ := h
  have hx : ∀ method ∈ Document.methods, method.toList.head? ≠ some 'x' := by decide
  have hlower : (Text.lower key.toList).head? = some 'x' := by
    rw [← hrest]
    rfl
  rw [Document.methodOf?, if_neg]
  intro hcontains
  apply hx _ (List.contains_iff_mem.mp hcontains)
  rw [String.toList_ofList, hlower]

/-- Where an operation may stand there is an object. -/
theorem Role.ofKey_method {key : Scalar} {method : String}
    (h : Document.methodOf? key = .ok (some method)) : Role.ofKey key = .object := by
  have hnone : ∀ k ∈ Role.dataKeys ++ Role.objectsKeys, Document.methodOf? (.str k) = .ok none := by
    decide
  cases key with
  | str key =>
    have hother : ∀ {keys : List String}, keys ⊆ Role.dataKeys ++ Role.objectsKeys →
        keys.contains key = false := by
      intro keys hsub
      rw [List.contains_eq_mem, decide_eq_false_iff_not]
      intro hmem
      rw [hnone key (hsub hmem)] at h
      cases h
    rw [Role.ofKey, hother (List.subset_append_left _ _), hother (List.subset_append_right _ _), h]
    simp [Except.toOption]
  | _ => cases h

theorem Extended.eq_of_data {v w : Value} (h : Extended .data v w) : v = w := by
  cases h
  rfl

theorem Grown.get?_data (h : Grown members others) (key : String)
    (hkey : Role.ofKey (.str key) = .data ∧ ¬ IsExtension key) :
    others.get? key = members.get? key := by
  have hrel := h.get?_rel key hkey.2
  rw [hkey.1] at hrel
  exact (eq_of_rel (rel_mono hrel fun _ _ => Extended.eq_of_data)).symm

theorem Extended.to_other {role : Role} {v w : Value} (h : Extended role v w) :
    Extended .other v w := by
  cases role with
  | data => exact h.eq_of_data ▸ .same
  | object => exact .otherObject h
  | objects => exact .otherObjects h
  | other => exact h

/-- A collection is as empty as it was. -/
theorem Extended.truthy {v w : Value} (h : Extended .objects v w) : v.truthy = w.truthy := by
  cases h with
  | same => rfl
  | mapping h => cases h <;> rfl
  | listing h => cases h <;> rfl

/-- An object is not emptied. -/
theorem Extended.truthy_object {v w : Value} (h : Extended .object v w) (hv : v.truthy = true) :
    w.truthy = true := by
  cases h with
  | same => exact hv
  | object h =>
    cases h with
    | nil => cases hv
    | kept _ _ => rfl
    | added _ _ _ => rfl

namespace Schema

section Keywords

variable (h : Grown members others) (place : String)

include h

theorem kindOf_grown : kindOf others = kindOf members := by
  have hitems := isSome_of_rel (h.get?_rel "items" (by decide))
  have hproperties := isSome_of_rel (h.get?_rel "properties" (by decide))
  simp only [kindOf, h.get?_data "$ref" (by decide), h.get?_data "type" (by decide),
    h.get?_data "enum" (by decide), hitems, hproperties]

theorem readTraits_grown : readTraits place others = readTraits place members := by
  simp only [readTraits, h.get?_data "description" (by decide),
    h.get?_data "nullable" (by decide), h.get?_data "default" (by decide)]

theorem readRef_grown (pointer : Value) :
    readRef place others pointer = readRef place members pointer := by
  simp only [readRef, readTraits_grown h]

theorem readEnum_grown (values : Value) :
    readEnum place others values = readEnum place members values := by
  unfold readEnum
  simp only [readTraits_grown h]

theorem readString_grown : readString place others = readString place members := by
  simp only [readString, readTraits_grown h, h.get?_data "format" (by decide),
    h.get?_data "pattern" (by decide), h.get?_data "minLength" (by decide),
    h.get?_data "maxLength" (by decide)]

theorem readNumber_grown (integer : Bool) :
    readNumber place others integer = readNumber place members integer := by
  simp only [readNumber, readTraits_grown h, h.get?_data "minimum" (by decide),
    h.get?_data "maximum" (by decide)]

theorem finishArray_grown (items : Schema) :
    finishArray place others items = finishArray place members items := by
  simp only [finishArray, readTraits_grown h, h.get?_data "minItems" (by decide),
    h.get?_data "maxItems" (by decide)]

theorem finishObject_grown (properties : List (Scalar × Schema)) (required : List Value) :
    finishObject place others properties required =
      finishObject place members properties required := by
  simp only [finishObject, readTraits_grown h]

theorem requiredNames_grown : requiredNames place others = requiredNames place members := by
  simp only [requiredNames, h.get?_data "required" (by decide)]

end Keywords

theorem marksItself_extended {v w : Value} (h : Extended .object v w) :
    marksItself w = marksItself v := by
  cases h with
  | same => rfl
  | object h => simp only [marksItself, h.get?_data "required" (by decide)]

theorem noteMark_extended {v w : Value} (h : Extended .object v w) (place : String) (name : Scalar)
    (required : List Value) : noteMark place name w required = noteMark place name v required := by
  rw [noteMark, noteMark, marksItself_extended h]

theorem checkProperties_grown (h : Grown members others) (place : String) :
    checkProperties place others = checkProperties place members := by
  have hrel := h.get?_rel "properties" (by decide)
  have hpresent := Document.present?_of_rel (fun _ _ => Extended.truthy) hrel
  unfold checkProperties
  generalize Value.present? (members.get? "properties") = given at hpresent ⊢
  generalize Value.present? (others.get? "properties") = other at hpresent ⊢
  cases hpresent with
  | none => rfl
  | some hvw =>
    cases hvw with
    | same => rfl
    | mapping _ => rfl
    | listing _ => rfl

theorem readProperties_cons_ne {k : Scalar} (hk : k ≠ .str "properties") (place : String)
    (required : List Value) (v : Value) (rest : Members) :
    readProperties place required ((k, v) :: rest) = readProperties place required rest := by
  cases v <;> simp only [readProperties, if_neg hk]

-- The recursion is on what is extended: an extension that is passed over shortens only that side.
mutual

/-- Extensions in a schema make no difference, to what is read or to what is said about it. -/
theorem read_extended : ∀ (place : String) (w : Value) {v : Value}, Extended .object v w →
    read place w = read place v
  | place, .map others knot, v, h => by
    cases h with
    | same => rfl
    | @object members _ _ _ h =>
      rw [read_map, read_map, kindOf_grown h]
      cases kindOf members with
      | ref pointer => exact congrArg _ (readRef_grown h place pointer)
      | enum values => exact congrArg _ (readEnum_grown h place values)
      | string => exact congrArg _ (readString_grown h place)
      | number integer => exact congrArg _ (readNumber_grown h place integer)
      | boolean => simp only [readTraits_grown h]
      | array => simp only [readItems_grown _ others h, finishArray_grown h]
      | object =>
        simp only [checkProperties_grown h, requiredNames_grown h,
          readProperties_grown _ _ others h, finishObject_grown h]
      | any => simp only [readTraits_grown h]
  | _, .scalar _, _, .same => rfl
  | _, .seq _ _, _, .same => rfl
  | _, .pair _ _, _, .same => rfl
  | _, .set _, _, .same => rfl
  | _, .endless, _, .same => rfl
termination_by structural _ w => w

theorem readItems_grown : ∀ (place : String) (others : List (Scalar × Value)) {members : Members},
    Grown members others → readItems place others = readItems place members
  | _, [], _, .nil => rfl
  | place, (k, w) :: others, _, h => by
    cases h with
    | kept hvw h =>
      rw [readItems, readItems]
      split
      next hk =>
        rw [hk] at hvw
        exact read_extended place w hvw
      next => exact readItems_grown place others h
    | added hs _ h =>
      rw [readItems, if_neg (ne_of_isExtension hs (by decide))]
      exact readItems_grown place others h
termination_by structural _ others => others

theorem readProperties_grown : ∀ (place : String) (required : List Value)
    (others : List (Scalar × Value)) {members : Members}, Grown members others →
    readProperties place required others = readProperties place required members
  | _, _, [], _, .nil => rfl
  | place, required, (k, w) :: others, _, h => by
    cases h with
    | @kept _ v _ _ _ hvw h =>
      by_cases hk : k = .str "properties"
      · cases w with
        | map properties knot =>
          rw [hk] at hvw
          cases hvw with
          | same => rw [readProperties, readProperties, if_pos hk, if_pos hk]
          | mapping hpopulated =>
            rw [readProperties, readProperties, if_pos hk, if_pos hk]
            exact readEach_populated place required properties hpopulated
        | seq _ _ =>
          rw [hk] at hvw
          cases hvw <;> simp only [readProperties, if_pos hk]
        | _ =>
          rw [hk] at hvw
          cases hvw
          simp only [readProperties, if_pos hk]
      · rw [readProperties_cons_ne hk, readProperties_cons_ne hk]
        exact readProperties_grown place required others h
    | added hs _ h =>
      rw [readProperties_cons_ne (ne_of_isExtension hs (by decide))]
      exact readProperties_grown place required others h
termination_by structural _ _ others => others

theorem readEach_populated : ∀ (place : String) (required : List Value)
    (others : List (Scalar × Value)) {members : Members}, Populated members others →
    readEach place required others = readEach place required members
  | _, _, [], _, .nil => rfl
  | place, required, (k, w) :: others, _, .cons hvw h => by
    rw [readEach_cons, readEach_cons]
    congr 1
    funext text
    rw [noteMark_extended hvw, read_extended _ w hvw]
    congr 1
    funext noted
    rw [readEach_populated place noted others h]
termination_by structural _ _ others => others

end

end Schema

end ApiContract

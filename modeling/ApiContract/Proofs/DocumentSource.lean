import ApiContract.Proofs.OperationMisfits
import ApiContract.Proofs.Operations

/-!
The schemas of a description, all of which were read from parts of it; and the parameters of an
operation, no two of which have the same name and location.
-/

namespace ApiContract

/-- A schema was read from a part of a description, or from nothing. -/
def Schema.From (root : Value) (s : Schema) : Prop :=
  ∃ place raw, (raw.Inside root ∨ raw = .null) ∧ (Schema.read place raw).outcome = .ok s

theorem Value.KeysApart.of_inside {v root : Value} (h : root.KeysApart) (hv : v.Inside root) :
    v.KeysApart :=
  fun members knot hmap => h members knot (hmap.trans hv)

namespace Schema.From

variable {root : Value} {s : Schema}

theorem filled (h : s.From root) : s.Filled := by
  obtain ⟨_, _, _, hread⟩ := h
  exact filled_of_read hread

theorem keysDistinct (h : s.From root) (hapart : root.KeysApart) : s.KeysDistinct := by
  obtain ⟨_, _, hraw | rfl, hread⟩ := h
  · exact keysDistinct_of_read hread (hapart.of_inside hraw)
  · exact keysDistinct_of_read hread nofun

end Schema.From

namespace Document

variable {root : Value}

/-! ## References -/

theorem follow?_inside {v w : Value} {keys : List String} (h : Pointer.follow? v keys = some w) :
    w.Inside v := by
  induction keys generalizing v with
  | nil =>
    cases h
    exact .whole
  | cons key keys ih =>
    cases v with
    | map members knot =>
      rw [Pointer.follow?] at h
      cases hget : Members.get? key members with
      | none =>
        rw [hget] at h
        cases h
      | some u =>
        rw [hget] at h
        exact (ih h).trans (Value.inside_of_get? hget)
    | _ => cases h

theorem resolve_inside {ref : String} {v : Value} (h : Pointer.resolve root ref = .ok v) :
    v.Inside root := by
  unfold Pointer.resolve at h
  split at h
  · cases h
  · split at h
    next hfollow =>
      cases h
      exact follow?_inside hfollow
    next => cases h

theorem dereference_inside {members found : Members} (hmembers : MembersInside root members)
    (h : dereference root members = .ok found) : MembersInside root found := by
  unfold dereference at h
  split at h
  next =>
    cases h
    exact hmembers
  next ref _ =>
    obtain ⟨v, hv, h⟩ := bind_eq_ok.mp h
    obtain ⟨knot, rfl⟩ := membersOf_eq_ok.mp h
    unfold Pointer.resolveValue at hv
    split at hv
    · exact .of_map (resolve_inside hv)
    · cases hv
    · cases hv

/-! ## Bodies and responses -/

theorem jsonSchema?_inside {holder : Members} {v : Value} (hholder : MembersInside root holder)
    (h : jsonSchema? holder = .ok (some v)) : v.Inside root := by
  obtain ⟨content, hcontent, h⟩ := bind_eq_ok.mp h
  have hinside := section_inside hholder hcontent
  split at h
  next media knot hmedia =>
    have hmap := hinside.get? hmedia
    exact (MembersInside.of_map hmap).get? (Except.ok.inj h)
  next => cases h

theorem holder?_inside {members holder : Members} {key : String}
    (hmembers : MembersInside root members)
    (h : holder? root (members.get? key) = .ok (some holder)) : MembersInside root holder := by
  obtain ⟨found, knot, hget, hdereference⟩ := holder?_eq_some.mp h
  exact dereference_inside (.of_map (hmembers.get? hget)) hdereference

theorem readBody_from {place : String} {raw : Members} {body : RequestBody}
    (hraw : MembersInside root raw) (h : (readBody root place raw).outcome = .ok (some body)) :
    body.schema.From root := by
  obtain ⟨found, hfound, h⟩ := Traced.bind_outcome_eq_ok.mp h
  cases found with
  | none => cases h
  | some holder =>
    obtain ⟨given, hgiven, h⟩ := Traced.bind_outcome_eq_ok.mp h
    cases given with
    | none => cases h
    | some v =>
      obtain ⟨schema, hschema, h⟩ := Traced.bind_outcome_eq_ok.mp h
      cases h
      exact ⟨_, v, .inl (jsonSchema?_inside (holder?_inside hraw hfound) hgiven), hschema⟩

theorem success?_inside {responses : Members} {v : Value}
    (hresponses : MembersInside root responses) (h : success? responses = some v) :
    v.Inside root := by
  unfold success? at h
  cases hget : responses.get? "200" with
  | some w =>
    rw [hget] at h
    cases h
    exact hresponses.get? hget
  | none =>
    rw [hget] at h
    obtain ⟨m, hm, rfl⟩ := Option.map_eq_some_iff.mp h
    exact hresponses m (List.mem_of_find?_eq_some hm)

theorem readResponse_from {place : String} {raw : Members} {schema : Schema}
    (hraw : MembersInside root raw)
    (h : (readResponse root place raw).outcome = .ok (some schema)) : schema.From root := by
  obtain ⟨responses, hresponses, h⟩ := Traced.bind_outcome_eq_ok.mp h
  obtain ⟨found, hfound, h⟩ := Traced.bind_outcome_eq_ok.mp h
  cases found with
  | none => cases h
  | some holder =>
    obtain ⟨given, hgiven, h⟩ := Traced.bind_outcome_eq_ok.mp h
    cases given with
    | none => cases h
    | some v =>
      obtain ⟨schema, hschema, h⟩ := Traced.bind_outcome_eq_ok.mp h
      cases h
      have hinside := section_inside hraw hresponses
      obtain ⟨members, knot, hsuccess, hdereference⟩ := holder?_eq_some.mp hfound
      have hholder := dereference_inside (.of_map (success?_inside hinside hsuccess)) hdereference
      exact ⟨_, v, .inl (jsonSchema?_inside hholder hgiven), hschema⟩

/-! ## Parameters -/

theorem finishParameter_schema {place : String} {raw : Members} {name : Value}
    {location : ParameterLocation} {schema : Schema} {p : Parameter}
    (h : finishParameter place raw name location schema = .ok p) : p.schema = schema := by
  obtain ⟨_, _, h⟩ := bind_eq_ok.mp h
  split at h
  · cases pure_eq_ok.mp h
    rfl
  · obtain ⟨_, _, h⟩ := bind_eq_ok.mp h
    cases pure_eq_ok.mp h
    rfl

theorem readParameter_from {place : String} {raw : Members} {p : Parameter}
    (hraw : MembersInside root raw)
    (h : (readParameter root place raw).outcome = .ok (some p)) : p.schema.From root := by
  obtain ⟨found, hfound, h⟩ := Traced.bind_outcome_eq_ok.mp h
  have hinside := dereference_inside hraw hfound
  split at h
  next name given _ _ =>
    cases hlocation : locationOf? given with
    | none =>
      rw [hlocation] at h
      cases h
    | some location =>
      rw [hlocation] at h
      obtain ⟨_, _, h⟩ := Traced.bind_outcome_eq_ok.mp h
      obtain ⟨schema, hschema, h⟩ := Traced.bind_outcome_eq_ok.mp h
      obtain ⟨parameter, hparameter, h⟩ := Traced.bind_outcome_eq_ok.mp h
      cases h
      rw [finishParameter_schema hparameter]
      refine ⟨_, _, ?_, hschema⟩
      cases hget : found.get? "schema" with
      | none => exact .inr rfl
      | some v => exact .inl (hinside.get? hget)
  next => cases h

/-- What tells a parameter from others. -/
def keyOf (p : Parameter) : String × ParameterLocation := (p.name, p.location)

theorem sameParameter_iff {p q : Parameter} : sameParameter p q = true ↔ keyOf p = keyOf q := by
  simp [sameParameter, keyOf]

theorem putParameter_keys (p : Parameter) (ps : List Parameter) : (putParameter p ps).map keyOf =
    if keyOf p ∈ ps.map keyOf then ps.map keyOf else ps.map keyOf ++ [keyOf p] := by
  induction ps with
  | nil => rfl
  | cons q qs ih =>
    rw [putParameter]
    by_cases hsame : sameParameter q p = true
    · have hkey := sameParameter_iff.mp hsame
      simp [hsame, hkey]
    · have hkey : keyOf p ≠ keyOf q := fun h => hsame (sameParameter_iff.mpr h.symm)
      rw [if_neg hsame, List.map_cons, ih]
      by_cases hmem : keyOf p ∈ qs.map keyOf
      · simp only [hmem, if_true, List.map_cons, List.mem_cons, hkey, false_or]
      · simp only [hmem, if_false, List.map_cons, List.mem_cons, hkey, false_or, List.cons_append]

theorem mem_putParameter {p q : Parameter} {ps : List Parameter} (h : q ∈ putParameter p ps) :
    q = p ∨ q ∈ ps := by
  induction ps with
  | nil => exact .inl (List.mem_singleton.mp h)
  | cons r rs ih =>
    rw [putParameter] at h
    split at h
    · rcases List.mem_cons.mp h with rfl | h
      · exact .inl rfl
      · exact .inr (List.mem_cons_of_mem _ h)
    · rcases List.mem_cons.mp h with rfl | h
      · exact .inr List.mem_cons_self
      · exact (ih h).imp_right (List.mem_cons_of_mem _)

/-- Parameters that differ in name or location differ in name within one location. -/
theorem names_nodup {ps : List Parameter} (h : (ps.map keyOf).Nodup)
    (location : ParameterLocation) : ((ps.filter (·.location = location)).map (·.name)).Nodup := by
  have hkeys : ps.Pairwise fun p q => keyOf p ≠ keyOf q := List.pairwise_map.mp h
  refine List.pairwise_map.mpr ((hkeys.filter _).imp_of_mem fun {p q} hp hq hne hname => hne ?_)
  have hp : p.location = location := by simpa using (List.mem_filter.mp hp).2
  have hq : q.location = location := by simpa using (List.mem_filter.mp hq).2
  rw [keyOf, keyOf, hname, hp, hq]

/-- Parameters whose schemas come from a description, no two of one name and location. -/
structure Merged (root : Value) (ps : List Parameter) : Prop where
  source : ∀ p ∈ ps, p.schema.From root
  distinct : (ps.map keyOf).Nodup

theorem Merged.put {p : Parameter} {ps : List Parameter} (h : Merged root ps)
    (hp : p.schema.From root) : Merged root (putParameter p ps) := by
  constructor
  · intro q hq
    rcases mem_putParameter hq with rfl | hq
    · exact hp
    · exact h.source q hq
  · rw [putParameter_keys]
    split
    next => exact h.distinct
    next hnew =>
      exact List.nodup_append.mpr ⟨h.distinct, by simp, by simpa using hnew⟩

theorem readParameters_merged {place : String} {index : Nat} {merged ps : List Parameter}
    {items : List Value} (hitems : ∀ v ∈ items, ∀ raw knot, v = .map raw knot → v.Inside root)
    (hmerged : Merged root merged)
    (h : (readParameters root place index merged items).outcome = .ok ps) : Merged root ps := by
  induction items generalizing index merged with
  | nil =>
    cases h
    exact hmerged
  | cons v rest ih =>
    obtain ⟨hv, hrest⟩ := List.forall_mem_cons.mp hitems
    cases v with
    | map raw knot =>
      obtain ⟨found, hfound, h⟩ := Traced.bind_outcome_eq_ok.mp h
      have hraw := MembersInside.of_map (hv raw knot rfl)
      cases found with
      | none => exact ih hrest hmerged h
      | some p => exact ih hrest (hmerged.put (readParameter_from hraw hfound)) h
    | _ => cases h

/-- The mappings among the elements of a part of a description are parts of it. -/
theorem elementsOf_inside {v : Value} {items : List Value}
    (hv : v.Inside root ∨ v = .seq [] 0) (h : elementsOf v = .ok items) :
    ∀ w ∈ items, ∀ raw knot, w = .map raw knot → w.Inside root := by
  intro w hw raw knot hmap
  rcases hv with hv | rfl
  · cases v with
    | seq found k =>
      cases h
      exact (Value.Inside.item hw .whole).trans hv
    | pair a b =>
      cases h
      rcases List.mem_pair.mp hw with rfl | rfl
      · exact (Value.Inside.first .whole).trans hv
      · exact (Value.Inside.second .whole).trans hv
    | map members k =>
      cases h
      obtain ⟨_, _, rfl⟩ := List.mem_map.mp hw
      cases hmap
    | set members =>
      cases h
      obtain ⟨_, _, rfl⟩ := List.mem_map.mp hw
      cases hmap
    | scalar s =>
      cases s with
      | str s =>
        cases h
        obtain ⟨_, _, rfl⟩ := List.mem_map.mp hw
        cases hmap
      | bytes octets =>
        cases h
        obtain ⟨_, _, rfl⟩ := List.mem_map.mp hw
        cases hmap
      | _ => cases h
    | endless => cases h
  · cases h
    cases hw

/-! ## Whole descriptions -/

/-- The schemas of an operation come from a description, and its parameters differ. -/
structure PartsFrom (root : Value) (op : Operation) : Prop where
  body : ∀ body, op.requestBody = some body → body.schema.From root
  response : ∀ schema, op.response = some schema → schema.From root
  parameters : Merged root op.parameters

theorem readOperation_parts {method : String} {path : Scalar} {shared : Value} {raw : Members}
    {op : Operation} (hraw : MembersInside root raw) (hshared : shared.Inside root ∨ shared = .seq [] 0)
    (h : (readOperation root method path shared raw).outcome = .ok op) : PartsFrom root op := by
  obtain ⟨_, place, sharedItems, ownItems, hbody, hresponse, hsharedItems, hownItems, hparameters⟩ :=
    readOperation_eq_ok h
  refine ⟨fun body hsome => ?_, fun schema hsome => ?_, ?_⟩
  · rw [hsome] at hbody
    exact readBody_from hraw hbody
  · rw [hsome] at hresponse
    exact readResponse_from hraw hresponse
  · have hitems := List.forall_mem_append.mpr ⟨elementsOf_inside hshared hsharedItems,
      elementsOf_inside (orEmptySeq_inside hraw "parameters") hownItems⟩
    exact readParameters_merged hitems ⟨List.forall_mem_nil _, List.nodup_nil⟩ hparameters

theorem OperationFrom.parts {op : Operation} (h : OperationFrom root op) : PartsFrom root op := by
  obtain ⟨path, shared, raw, knot, hraw, hshared, hread⟩ := h.source
  exact readOperation_parts (.of_map hraw) hshared hread

theorem read_of_readNameless {raw : Value} {s : Schema} (h : (readNameless raw).outcome = .ok s) :
    (Schema.read "" raw).outcome = .ok s := by
  unfold readNameless at h
  cases hread : (Schema.read "" raw).outcome with
  | error i =>
    simp only [hread] at h
    split at h <;> cases h
  | ok found =>
    simp only [hread] at h
    cases found with
    | array t items low high => cases h
    | object t properties required =>
      cases properties with
      | nil => exact h
      | cons p ps => cases h
    | _ => exact h

theorem readComponent_from {name : Scalar} {raw : Value} {s : Schema} (hraw : raw.Inside root)
    (h : (readComponent name raw).outcome = .ok s) : s.From root := by
  unfold readComponent at h
  split at h
  next place _ => exact ⟨place, raw, .inl hraw, h⟩
  next => exact ⟨"", raw, .inl hraw, read_of_readNameless h⟩

theorem From.component {d : Document} (h : From root d) {c : String × Schema} (hc : c ∈ d.schemas) :
    c.2.From root := by
  obtain ⟨raw, hraw, hcomponents⟩ := h.schemas
  obtain ⟨m, hm, hread⟩ := exists_left_of_forall₂ hcomponents hc
  exact readComponent_from (hraw m hm) hread.read

end Document

end ApiContract

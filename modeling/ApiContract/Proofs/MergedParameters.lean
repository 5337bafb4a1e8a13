import ApiContract.Proofs.ReadingAgreement
import Mathlib.Data.List.Induction

/-!
The parameters of an operation. A path and an operation list parameters, and a name and a location
may be listed any number of times: the first mention settles the place in the result, the last one
settles what stands there. Mentions of headers, cookies and the like leave no trace.
-/

namespace ApiContract

/-! ## The latest entry of each key -/

section Latest

variable {α κ : Type} {key : α → κ} {xs ys : List α} {x y : α}

/-- An entry with no other one of its key behind it. -/
def LastOfKey (key : α → κ) (xs : List α) (x : α) : Prop :=
  ∃ before after, xs = before ++ x :: after ∧ key x ∉ after.map key

theorem LastOfKey.mem (h : LastOfKey key xs x) : x ∈ xs := by
  obtain ⟨before, after, rfl, -⟩ := h
  simp

theorem LastOfKey.append_left (h : LastOfKey key ys x) : LastOfKey key (xs ++ ys) x := by
  obtain ⟨before, after, rfl, hafter⟩ := h
  exact ⟨xs ++ before, after, (List.append_assoc ..).symm, hafter⟩

theorem LastOfKey.append_right (h : LastOfKey key xs x) (hnew : key x ∉ ys.map key) :
    LastOfKey key (xs ++ ys) x := by
  obtain ⟨before, after, rfl, hafter⟩ := h
  refine ⟨before, after ++ ys, by rw [List.append_assoc, List.cons_append], ?_⟩
  rw [List.map_append, List.mem_append, not_or]
  exact ⟨hafter, hnew⟩

theorem lastOfKey_snoc (key : α → κ) (xs : List α) (x : α) : LastOfKey key (xs ++ [x]) x :=
  ⟨xs, [], rfl, by simp⟩

variable [BEq κ]

/-- The entries of a list by key: a key stands where it was first entered, with its last entry. -/
def latest (key : α → κ) (xs : List α) : List α :=
  (xs.map key).eraseDups.filterMap fun k => xs.reverse.find? (key · == k)

/-- What a search finds in both lists are partners, if it looks for what partners agree on. -/
theorem rel_find? {β : Type} {R : α → β → Prop} {p : α → Bool} {q : β → Bool} {xs : List α}
    {ys : List β} (h : List.Forall₂ R xs ys) (hpq : ∀ x y, R x y → p x = q y) :
    Option.Rel R (xs.find? p) (ys.find? q) := by
  induction h with
  | nil => exact .none
  | @cons x y _ _ hxy _ ih =>
    rw [List.find?_cons, List.find?_cons, ← hpq x y hxy]
    cases p x with
    | true => exact .some hxy
    | false => exact ih

/-- Partners with the same keys are among the latest entries together. -/
theorem latest_forall₂ {β : Type} {R : α → β → Prop} (key : α → κ) (key' : β → κ) {xs : List α}
    {ys : List β} (h : List.Forall₂ R xs ys) (hkey : ∀ x y, R x y → key' y = key x) :
    List.Forall₂ R (latest key xs) (latest key' ys) := by
  have hfind : ∀ k, Option.Rel R (xs.reverse.find? (key · == k)) (ys.reverse.find? (key' · == k)) :=
    fun k => rel_find? (List.rel_reverse h) fun x y hxy => by rw [hkey x y hxy]
  rw [latest, latest, map_eq_of_forall₂ h hkey]
  refine List.rel_filterMap (R := Eq) (fun k _ hk => hk ▸ hfind k) ?_
  rw [List.forall₂_eq_eq_eq]

variable [LawfulBEq κ]

/-- A search from the end finds the last entry of its key. -/
theorem find?_reverse_iff {k : κ} :
    xs.reverse.find? (key · == k) = some x ↔ LastOfKey key xs x ∧ key x = k := by
  rw [List.find?_eq_some_iff_append]
  constructor
  · rintro ⟨hkey, after, before, hxs, hafter⟩
    have hkey := eq_of_beq hkey
    subst hkey
    have hxs : xs = before.reverse ++ x :: after.reverse := by
      rw [← List.reverse_reverse xs, hxs]
      simp
    refine ⟨⟨_, _, hxs, fun hmem => ?_⟩, rfl⟩
    obtain ⟨y, hy, hyx⟩ := List.mem_map.mp hmem
    simpa [hyx] using hafter y (List.mem_reverse.mp hy)
  · rintro ⟨⟨before, after, rfl, hafter⟩, rfl⟩
    refine ⟨beq_self_eq_true _, after.reverse, before.reverse, by simp, fun y hy => ?_⟩
    have hne : key y ≠ key x := fun h =>
      hafter (List.mem_map.mpr ⟨y, List.mem_reverse.mp hy, h⟩)
    simpa using hne

theorem exists_lastOfKey {k : κ} (h : k ∈ xs.map key) : ∃ x, LastOfKey key xs x ∧ key x = k := by
  obtain ⟨y, hy, rfl⟩ := List.mem_map.mp h
  cases hfind : xs.reverse.find? (key · == key y) with
  | none => simpa using List.find?_eq_none.mp hfind y (List.mem_reverse.mpr hy)
  | some x => exact ⟨x, find?_reverse_iff.mp hfind⟩

/-- Entries with the right keys, each the last of its key, are the latest entries. -/
theorem eq_latest (hkeys : ys.map key = (xs.map key).eraseDups)
    (hlast : ∀ y ∈ ys, LastOfKey key xs y) : ys = latest key xs := by
  rw [latest, ← hkeys, List.filterMap_map]
  calc ys = ys.filterMap some := List.filterMap_some.symm
    _ = ys.filterMap ((fun k => xs.reverse.find? (key · == k)) ∘ key) :=
      List.filterMap_congr fun y hy => (find?_reverse_iff.mpr ⟨hlast y hy, rfl⟩).symm

theorem map_key_latest (key : α → κ) (xs : List α) :
    (latest key xs).map key = (xs.map key).eraseDups := by
  have hfind : ∀ k ∈ (xs.map key).eraseDups,
      (xs.reverse.find? (key · == k)).map key = some k := by
    intro k hk
    obtain ⟨x, hx, hkey⟩ := exists_lastOfKey (List.mem_eraseDups.mp hk)
    rw [find?_reverse_iff.mpr ⟨hx, hkey⟩, Option.map_some, hkey]
  rw [latest, List.map_filterMap, List.filterMap_congr hfind, List.filterMap_some]

theorem mem_latest : x ∈ latest key xs ↔ LastOfKey key xs x := by
  rw [latest, List.mem_filterMap]
  constructor
  · rintro ⟨k, -, hfind⟩
    exact (find?_reverse_iff.mp hfind).1
  · intro h
    have hkey : key x ∈ (xs.map key).eraseDups := List.mem_eraseDups.mpr (List.mem_map_of_mem h.mem)
    exact ⟨key x, hkey, find?_reverse_iff.mpr ⟨h, rfl⟩⟩

theorem nodup_eraseDups (ks : List κ) : ks.eraseDups.Nodup := by
  induction hn : ks.length using Nat.strongRecOn generalizing ks with
  | ind n ih =>
    cases ks with
    | nil => simp
    | cons k ks =>
      rw [List.eraseDups_cons, List.nodup_cons]
      have hshort : (ks.filter fun b => !b == k).length < n := by
        rw [← hn, List.length_cons]
        exact Nat.lt_succ_of_le (List.length_filter_le ..)
      exact ⟨by simp [List.mem_eraseDups], ih _ hshort _ rfl⟩

theorem eraseDups_snoc (ks : List κ) (k : κ) : (ks ++ [k]).eraseDups =
    if k ∈ ks then ks.eraseDups else ks.eraseDups ++ [k] := by
  rw [List.eraseDups_append]
  by_cases h : k ∈ ks <;> simp [List.removeAll, h, List.eraseDups_cons]

/-- Keys that are all there already add nothing. -/
theorem eraseDups_append_self (ks : List κ) : (ks ++ ks).eraseDups = ks.eraseDups := by
  have hnone : ks.removeAll ks = [] := by simp [List.removeAll]
  rw [List.eraseDups_append, hnone]
  simp

theorem latest_append_self (key : α → κ) (xs : List α) : latest key (xs ++ xs) = latest key xs := by
  refine (eq_latest ?_ fun x hx => (mem_latest.mp hx).append_left).symm
  rw [map_key_latest, List.map_append, eraseDups_append_self]

/-- Filtering by key commutes with erasing repetitions. -/
theorem filter_eraseDups (p : κ → Bool) (ks : List κ) :
    (ks.filter p).eraseDups = ks.eraseDups.filter p := by
  induction ks using List.reverseRecOn with
  | nil => rfl
  | append_singleton ks k ih =>
    rw [List.filter_append, eraseDups_snoc]
    by_cases hp : p k = true
    · rw [List.filter_cons_of_pos hp, List.filter_nil, eraseDups_snoc, ih]
      by_cases hk : k ∈ ks
      · simp [hk, hp]
      · simp [hk, hp]
    · rw [List.filter_cons_of_neg hp, List.filter_nil, List.append_nil, ih]
      by_cases hk : k ∈ ks
      · simp [hk]
      · simp [hk, hp]

theorem eraseDups_append (ks others : List κ) : (ks ++ others).eraseDups =
    ks.eraseDups ++ others.eraseDups.filter fun k => !ks.contains k := by
  rw [List.eraseDups_append, List.removeAll, filter_eraseDups]

theorem any_latest (key : α → κ) (xs : List α) (k : κ) :
    (latest key xs).any (key · == k) = (xs.map key).contains k := by
  have hkeys : (latest key xs).any (key · == k) = ((latest key xs).map key).any (· == k) := by
    rw [List.any_map]
    rfl
  rw [hkeys, map_key_latest, Bool.eq_iff_iff]
  simp

/-- Of two lists one after the other: what the second one has takes the place of what the first one
has under the same key, and the rest of it follows. -/
theorem latest_append (key : α → κ) (xs ys : List α) : latest key (xs ++ ys) =
    ((latest key xs).map fun x => ((latest key ys).find? (key · == key x)).getD x) ++
      (latest key ys).filter fun y => !(latest key xs).any (key · == key y) := by
  simp only [any_latest]
  have hplaces : (latest key xs).map
      (key ∘ fun x => ((latest key ys).find? (key · == key x)).getD x) = (latest key xs).map key := by
    refine List.map_congr_left fun x _ => ?_
    cases hfind : (latest key ys).find? (key · == key x) with
    | none => simp [hfind]
    | some y => simpa [hfind] using List.find?_some hfind
  symm
  refine eq_latest ?_ fun z hz => ?_
  · rw [List.map_append, List.map_map, hplaces, map_key_latest, List.map_append, eraseDups_append,
      ← map_key_latest key ys, List.filter_map]
    rfl
  · rcases List.mem_append.mp hz with hz | hz
    · obtain ⟨x, hx, rfl⟩ := List.mem_map.mp hz
      cases hfind : (latest key ys).find? (key · == key x) with
      | none =>
        have hnew : key x ∉ ys.map key := by
          intro hmem
          rw [← List.mem_eraseDups, ← map_key_latest] at hmem
          obtain ⟨y, hy, hkey⟩ := List.mem_map.mp hmem
          simpa [hkey] using List.find?_eq_none.mp hfind y hy
        exact (mem_latest.mp hx).append_right hnew
      | some y => exact (mem_latest.mp (List.mem_of_find?_eq_some hfind)).append_left
    · exact (mem_latest.mp (List.mem_of_mem_filter hz)).append_left

end Latest

/-- Partners of two lists one after the other stand one after the other. -/
theorem forall₂_append_left {α β : Type} {R : α → β → Prop} {xs xs' : List α} {zs : List β}
    (h : List.Forall₂ R (xs ++ xs') zs) :
    ∃ ys ys', List.Forall₂ R xs ys ∧ List.Forall₂ R xs' ys' ∧ zs = ys ++ ys' := by
  induction xs generalizing zs with
  | nil => exact ⟨[], zs, .nil, h, rfl⟩
  | cons x xs ih =>
    obtain ⟨y, rest, hxy, hrest, rfl⟩ := List.forall₂_cons_left_iff.mp h
    obtain ⟨ys, ys', hys, hys', rfl⟩ := ih hrest
    exact ⟨y :: ys, ys', .cons hxy hys, hys', rfl⟩

namespace Document

/-! ## What is mentioned -/

/-- The mapping that an entry of a list of parameters is or refers to. -/
def objectOf? (root : Value) : Value → Option Members
  | .map raw _ => (dereference root raw).toOption
  | _ => none

/-- The name and location under which a mapping is a parameter. -/
def pairOf? (found : Members) : Option (String × ParameterLocation) := do
  let name ← Value.present? (found.get? "name")
  let given ← Value.present? (found.get? "in")
  let location ← locationOf? given
  let text ← (Field.text name).toOption
  return (text, location)

/-- The name and location that an entry mentions, if it stands in a path or a query. -/
def mention? (root item : Value) : Option (String × ParameterLocation) :=
  (objectOf? root item).bind pairOf?

/-- The names and locations that a list mentions, in order. -/
def mentions (root : Value) (items : List Value) : List (String × ParameterLocation) :=
  items.filterMap (mention? root)

/-- An entry for a header, a cookie or anything else that is neither a path nor a query. -/
def PassedOver (root item : Value) : Prop :=
  ∃ found name given, objectOf? root item = some found ∧
    Value.present? (found.get? "name") = some name ∧
    Value.present? (found.get? "in") = some given ∧ locationOf? given = none

/-- What one entry alone is read as. -/
def ReadAs (root : Value) (place : String) (item : Value) (found : Option Parameter) : Prop :=
  ∃ raw knot, item = .map raw knot ∧ (readParameter root place raw).outcome = .ok found

/-- What a parameter says itself goes before what its schema says. -/
structure Completed (found : Members) (p : Parameter) : Prop where
  required : p.required = ((found.get? "required").map Value.truthy).getD false
  nullable : p.nullable = ((found.get? "nullable").map Value.truthy).getD p.schema.traits.nullable
  default : p.default = (found.get? "default" <|> p.schema.traits.default)
  description : ((found.get? "description").elim (.ok p.schema.traits.description) fun v =>
    Field.optional "description" Field.text (some v)) = .ok p.description

section Merging

variable {root : Value} {place : String}

/-- A finished parameter has the name, location and schema it was given, and is completed. -/
theorem finishParameter_eq_ok {here : String} {raw : Members} {name : Value}
    {location : ParameterLocation} {schema : Schema} {p : Parameter}
    (h : finishParameter here raw name location schema = .ok p) :
    Field.text name = .ok p.name ∧ p.location = location ∧ p.schema = schema ∧ Completed raw p := by
  obtain ⟨text, htext, h⟩ := bind_eq_ok.mp h
  have hname : Field.text name = .ok text := by
    rw [fieldResult_eq_ok] at htext
    cases hfound : Field.text name with
    | error fault =>
      rw [hfound] at htext
      cases htext
    | ok s =>
      rw [hfound] at htext
      cases htext
      rfl
  split at h
  next hdescription =>
    cases pure_eq_ok.mp h
    refine ⟨hname, rfl, rfl, rfl, rfl, rfl, ?_⟩
    rw [hdescription]
    rfl
  next v hdescription =>
    obtain ⟨description, hread, h⟩ := bind_eq_ok.mp h
    cases pure_eq_ok.mp h
    refine ⟨hname, rfl, rfl, rfl, rfl, rfl, ?_⟩
    rw [hdescription]
    exact fieldResult_eq_ok.mp hread

theorem readFound_eq_some {found : Members} {p : Parameter}
    (h : (readFound place found).outcome = .ok (some p)) : pairOf? found = some (keyOf p) ∧
      (∃ here, (Schema.read here ((found.get? "schema").getD .null)).outcome = .ok p.schema) ∧
      Completed found p := by
  unfold readFound at h
  split at h
  next name given hname hgiven =>
    cases hlocation : locationOf? given with
    | none =>
      rw [hlocation] at h
      cases h
    | some location =>
      rw [hlocation] at h
      obtain ⟨_, _, h⟩ := Traced.bind_outcome_eq_ok.mp h
      obtain ⟨schema, hschema, h⟩ := Traced.bind_outcome_eq_ok.mp h
      obtain ⟨p, hp, h⟩ := Traced.bind_outcome_eq_ok.mp h
      cases h
      obtain ⟨htext, rfl, rfl, hcompleted⟩ := finishParameter_eq_ok hp
      refine ⟨?_, ⟨_, hschema⟩, hcompleted⟩
      simp [pairOf?, hname, hgiven, hlocation, htext, Except.toOption, keyOf]
  next => cases h

/-- What is read as nothing stands neither in a path nor in a query. -/
theorem readFound_eq_none {found : Members} (h : (readFound place found).outcome = .ok none) :
    ∃ name given, Value.present? (found.get? "name") = some name ∧
      Value.present? (found.get? "in") = some given ∧ locationOf? given = none := by
  unfold readFound at h
  split at h
  next name given hname hgiven =>
    cases hlocation : locationOf? given with
    | none => exact ⟨name, given, hname, hgiven, hlocation⟩
    | some location =>
      rw [hlocation] at h
      obtain ⟨_, _, h⟩ := Traced.bind_outcome_eq_ok.mp h
      obtain ⟨_, _, h⟩ := Traced.bind_outcome_eq_ok.mp h
      obtain ⟨_, _, h⟩ := Traced.bind_outcome_eq_ok.mp h
      cases h
  next => cases h

theorem ReadAs.exists_object {item : Value} {o : Option Parameter} (h : ReadAs root place item o) :
    ∃ found, objectOf? root item = some found ∧ (readFound place found).outcome = .ok o := by
  obtain ⟨raw, knot, rfl, h⟩ := h
  rw [readParameter_eq] at h
  obtain ⟨found, hfound, h⟩ := Traced.bind_outcome_eq_ok.mp h
  rw [Traced.outcome_ofExcept] at hfound
  refine ⟨found, ?_, h⟩
  rw [objectOf?, hfound]
  rfl

theorem ReadAs.mention {item : Value} {p : Parameter} (h : ReadAs root place item (some p)) :
    mention? root item = some (keyOf p) := by
  obtain ⟨found, hobject, hread⟩ := h.exists_object
  rw [mention?, hobject]
  exact (readFound_eq_some hread).1

theorem ReadAs.passedOver {item : Value} (h : ReadAs root place item none) :
    PassedOver root item := by
  obtain ⟨found, hobject, hread⟩ := h.exists_object
  obtain ⟨name, given, hname, hgiven, hlocation⟩ := readFound_eq_none hread
  exact ⟨found, name, given, hobject, hname, hgiven, hlocation⟩

theorem PassedOver.mention {item : Value} (h : PassedOver root item) :
    mention? root item = none := by
  obtain ⟨found, name, given, hobject, hname, hgiven, hlocation⟩ := h
  simp [mention?, hobject, pairOf?, hname, hgiven, hlocation]

/-- What was read mentions what the entries mention. -/
theorem mentions_eq {items : List Value} {found : List (Option Parameter)}
    (h : List.Forall₂ (ReadAs root place) items found) :
    mentions root items = (found.filterMap id).map keyOf := by
  induction h with
  | nil => rfl
  | @cons item o _ _ hitem _ ih =>
    rw [mentions] at ih ⊢
    cases o with
    | none =>
      rw [List.filterMap_cons_none hitem.passedOver.mention, ih]
      rfl
    | some p =>
      rw [List.filterMap_cons_some hitem.mention, ih]
      rfl

/-- An entry that is passed over reads as nothing, whatever else it says. -/
theorem PassedOver.readAs {item : Value} (h : PassedOver root item) : ReadAs root place item none := by
  obtain ⟨found, name, given, hobject, hname, hgiven, hlocation⟩ := h
  cases item with
  | map raw knot =>
    refine ⟨raw, knot, rfl, ?_⟩
    rw [readParameter_eq]
    refine Traced.bind_outcome_eq_ok.mpr ⟨found, ?_, ?_⟩
    · rw [objectOf?] at hobject
      cases hfound : dereference root raw with
      | error i =>
        rw [hfound] at hobject
        cases hobject
      | ok members =>
        rw [hfound] at hobject
        cases hobject
        rfl
    · simp only [readFound, hname, hgiven, hlocation]
      rfl
  | _ => cases hobject

/-! ## The loop -/

/-- A list is accepted exactly if each entry is read, and what was read is put in place in turn. -/
theorem readParameters_eq_ok {index : Nat} {merged ps : List Parameter} {items : List Value} :
    (readParameters root place index merged items).outcome = .ok ps ↔
      ∃ found, List.Forall₂ (ReadAs root place) items found ∧
        ps = (found.filterMap id).foldl (fun qs p => putParameter p qs) merged := by
  induction items generalizing index merged with
  | nil =>
    simp only [List.forall₂_nil_left_iff, exists_eq_left]
    exact pure_eq_ok.trans eq_comm
  | cons item rest ih =>
    simp only [List.forall₂_cons_left_iff]
    by_cases hitem : ∃ raw knot, item = .map raw knot
    · obtain ⟨raw, knot, rfl⟩ := hitem
      rw [readParameters, Traced.bind_outcome_eq_ok]
      constructor
      · rintro ⟨o, ho, h⟩
        obtain ⟨found, hfound, rfl⟩ := ih.mp h
        refine ⟨o :: found, ⟨o, found, ⟨raw, knot, rfl, ho⟩, hfound, rfl⟩, ?_⟩
        cases o <;> rfl
      · rintro ⟨_, ⟨o, found, ⟨_, _, hmap, ho⟩, hfound, rfl⟩, rfl⟩
        cases hmap
        refine ⟨o, ho, ih.mpr ⟨found, hfound, ?_⟩⟩
        cases o <;> rfl
    · rw [readParameters_other fun raw knot h => hitem ⟨raw, knot, h⟩]
      constructor
      · intro h
        cases h
      · rintro ⟨_, ⟨_, _, ⟨raw, knot, hmap, _⟩, _⟩, _⟩
        exact absurd ⟨raw, knot, hmap⟩ hitem

/-- A parameter that is put in place displaces the one of its name and location. -/
theorem keyOf_ne_of_mem_putParameter {p q : Parameter} {ps : List Parameter}
    (hdistinct : (ps.map keyOf).Nodup) (h : q ∈ putParameter p ps) (hne : q ≠ p) :
    q ∈ ps ∧ keyOf q ≠ keyOf p := by
  induction ps with
  | nil => exact absurd (List.mem_singleton.mp h) hne
  | cons r rs ih =>
    rw [List.map_cons, List.nodup_cons] at hdistinct
    rw [putParameter] at h
    by_cases hsame : sameParameter r p = true
    · rw [if_pos hsame] at h
      have hq := (List.mem_cons.mp h).resolve_left hne
      refine ⟨List.mem_cons_of_mem _ hq, fun hkey => hdistinct.1 ?_⟩
      rw [sameParameter_iff.mp hsame, ← hkey]
      exact List.mem_map_of_mem hq
    · rw [if_neg hsame] at h
      rcases List.mem_cons.mp h with rfl | hq
      · exact ⟨List.mem_cons_self, fun hkey => hsame (sameParameter_iff.mpr hkey)⟩
      · exact (ih hdistinct.2 hq).imp_left (List.mem_cons_of_mem _)

theorem putParameter_latest (p : Parameter) (ps : List Parameter) :
    putParameter p (latest keyOf ps) = latest keyOf (ps ++ [p]) := by
  have hkeys := map_key_latest keyOf ps
  refine eq_latest ?_ fun q hq => ?_
  · rw [putParameter_keys, hkeys, List.map_append, List.map_singleton, eraseDups_snoc]
    simp only [List.mem_eraseDups]
  · by_cases hqp : q = p
    · rw [hqp]
      exact lastOfKey_snoc ..
    · have hdistinct : ((latest keyOf ps).map keyOf).Nodup := hkeys ▸ nodup_eraseDups _
      obtain ⟨hmem, hne⟩ := keyOf_ne_of_mem_putParameter hdistinct hq hqp
      refine (mem_latest.mp hmem).append_right ?_
      simpa using hne

/-- Putting parameters in place in turn leaves the latest of each name and location. -/
theorem foldl_putParameter (ps : List Parameter) :
    ps.foldl (fun qs p => putParameter p qs) [] = latest keyOf ps := by
  induction ps using List.reverseRecOn with
  | nil => rfl
  | append_singleton ps p ih => rw [List.foldl_concat, ih, putParameter_latest]

/-! ## The outcome -/

/-- A list of parameters is accepted and comes to these. -/
def MergesTo (root : Value) (place : String) (items : List Value) (ps : List Parameter) : Prop :=
  (readParameters root place 0 [] items).outcome = .ok ps

/-- A list of parameters comes to the latest of what its entries are read as. -/
theorem mergesTo_iff {ps : List Parameter} {items : List Value} : MergesTo root place items ps ↔
    ∃ found, List.Forall₂ (ReadAs root place) items found ∧
      ps = latest keyOf (found.filterMap id) := by
  rw [MergesTo, readParameters_eq_ok]
  simp only [foldl_putParameter]

/-- An entry that is passed over might as well not be there. -/
theorem mergesTo_passedOver {before after : List Value} {item : Value} {ps : List Parameter}
    (h : PassedOver root item) : MergesTo root place (before ++ item :: after) ps ↔
      MergesTo root place (before ++ after) ps := by
  rw [mergesTo_iff, mergesTo_iff]
  constructor
  · rintro ⟨found, hfound, rfl⟩
    obtain ⟨first, rest, hfirst, hrest, rfl⟩ := forall₂_append_left hfound
    obtain ⟨o, others, hitem, hothers, rfl⟩ := List.forall₂_cons_left_iff.mp hrest
    cases o with
    | none => exact ⟨first ++ others, List.rel_append hfirst hothers, by simp⟩
    | some p =>
      have hmention := hitem.mention
      rw [h.mention] at hmention
      cases hmention
  · rintro ⟨found, hfound, rfl⟩
    obtain ⟨first, rest, hfirst, hrest, rfl⟩ := forall₂_append_left hfound
    exact ⟨first ++ none :: rest, List.rel_append hfirst (.cons h.readAs hrest), by simp⟩

/-- The last parameter of its name and location is what the last entry that mentions them is read
as. -/
theorem exists_lastMention {items : List Value} {found : List (Option Parameter)} {p : Parameter}
    (h : List.Forall₂ (ReadAs root place) items found)
    (hlast : LastOfKey keyOf (found.filterMap id) p) :
    ∃ before item after, items = before ++ item :: after ∧ ReadAs root place item (some p) ∧
      mention? root item = some (keyOf p) ∧ keyOf p ∉ mentions root after := by
  obtain ⟨ps, qs, hsplit, hqs⟩ := hlast
  obtain ⟨first, rest, rfl, -, hrest⟩ := List.filterMap_eq_append_iff.mp hsplit
  obtain ⟨skipped, _, others, rfl, -, rfl, rfl⟩ := List.filterMap_eq_cons_iff.mp hrest
  rw [← List.append_assoc] at h
  obtain ⟨before, tail, -, htail, rfl⟩ := forall₂_append_left h.flip
  obtain ⟨item, after, hitem, hafter, rfl⟩ := List.forall₂_cons_left_iff.mp htail
  have hitem : ReadAs root place item (some p) := hitem
  refine ⟨before, item, after, rfl, hitem, hitem.mention, ?_⟩
  rw [mentions_eq hafter.flip]
  exact hqs

/-- What a list of parameters comes to after another one, of a path and of one of its operations. -/
structure MergeOf (root : Value) (place : String) (shared own : List Value)
    (ps : List Parameter) : Prop where
  /-- One for each name and location that is mentioned, in the order of first mention. -/
  keys : ps.map keyOf = (mentions root (shared ++ own)).eraseDups
  distinct : (ps.map keyOf).Nodup
  mentioned : ∀ pair, pair ∈ ps.map keyOf ↔ ∃ item ∈ shared ++ own, mention? root item = some pair
  /-- Each is what the last mention of its name and location is read as. -/
  last : ∀ p ∈ ps, ∃ before item after, shared ++ own = before ++ item :: after ∧
    ReadAs root place item (some p) ∧ mention? root item = some (keyOf p) ∧
    keyOf p ∉ mentions root after
  /-- An entry that mentions nothing stands neither in a path nor in a query. -/
  others : ∀ item ∈ shared ++ own, mention? root item = none ↔ PassedOver root item
  /-- Such entries make no difference, be they there or not. -/
  dropped : ∀ before item after, shared ++ own = before ++ item :: after → PassedOver root item →
    MergesTo root place (before ++ after) ps
  added : ∀ before item after, shared ++ own = before ++ after → PassedOver root item →
    MergesTo root place (before ++ item :: after) ps
  /-- What the operation lists takes the place of what the path lists, or follows it. -/
  override : ∃ qs os, MergesTo root place shared qs ∧ MergesTo root place own os ∧
    ps = (qs.map fun q => (os.find? (sameParameter · q)).getD q) ++
      os.filter fun p => !qs.any (sameParameter · p)
  /-- Listing all of it once more changes nothing. -/
  again : MergesTo root place ((shared ++ own) ++ (shared ++ own)) ps

/-- Parameters of a path and of an operation, whatever is repeated in them and passed over. -/
theorem parameters_merged (root : Value) (place : String) (shared own : List Value)
    (ps : List Parameter)
    (h : (readParameters root place 0 [] (shared ++ own)).outcome = .ok ps) :
    MergeOf root place shared own ps := by
  obtain ⟨found, hfound, hps⟩ := mergesTo_iff.mp h
  have hkeys : ps.map keyOf = (mentions root (shared ++ own)).eraseDups := by
    rw [hps, map_key_latest, mentions_eq hfound]
  have hreadAs : ∀ item ∈ shared ++ own, ∃ o, ReadAs root place item o :=
    exists_forall₂.mp ⟨found, hfound⟩
  constructor
  · exact hkeys
  · rw [hkeys]
    exact nodup_eraseDups _
  · intro pair
    rw [hkeys, List.mem_eraseDups, mentions, List.mem_filterMap]
  · intro p hp
    rw [hps] at hp
    exact exists_lastMention hfound (mem_latest.mp hp)
  · intro item hitem
    refine ⟨fun hnone => ?_, PassedOver.mention⟩
    obtain ⟨o, ho⟩ := hreadAs item hitem
    cases o with
    | none => exact ho.passedOver
    | some p =>
      rw [ho.mention] at hnone
      cases hnone
  · intro before item after hitems hpassed
    exact (mergesTo_passedOver hpassed).mp (hitems ▸ h)
  · intro before item after hitems hpassed
    exact (mergesTo_passedOver hpassed).mpr (hitems ▸ h)
  · obtain ⟨first, rest, hfirst, hrest, rfl⟩ := forall₂_append_left hfound
    refine ⟨_, _, mergesTo_iff.mpr ⟨first, hfirst, rfl⟩, mergesTo_iff.mpr ⟨rest, hrest, rfl⟩, ?_⟩
    rw [hps, List.filterMap_append, latest_append]
    rfl
  · refine mergesTo_iff.mpr ⟨found ++ found, List.rel_append hfound hfound, ?_⟩
    rw [hps, List.filterMap_append, latest_append_self]

end Merging

/-- A mapping for a parameter, of a name, a location and a type. -/
def sampleParameter (name location type : String) : Value :=
  .map [(.str "name", .str name), (.str "in", .str location),
    (.str "schema", .map [(.str "type", .str type)] 0)] 0

/-- The path has `id` and a header; the operation has `limit` by reference, another `id` in the
query and, last, an `id` of its own. -/
theorem parameters_merged_limit :
    let root : Value := .map [(.str "limit", sampleParameter "limit" "query" "integer")] 0
    let shared := [sampleParameter "id" "path" "string", sampleParameter "trace" "header" "string"]
    let own := [.map [(.str "$ref", .str "#/limit")] 0, sampleParameter "id" "query" "boolean",
      sampleParameter "id" "path" "integer"]
    ∃ ps, (readParameters root "GET /" 0 [] (shared ++ own)).outcome = .ok ps ∧
      ps.map keyOf = [("id", .path), ("limit", .query), ("id", .query)] ∧
      MergeOf root "GET /" shared own ps := by
  intro root shared own
  have hread : ∃ ps, (readParameters root "GET /" 0 [] (shared ++ own)).outcome = .ok ps ∧
      ps.map keyOf = [("id", .path), ("limit", .query), ("id", .query)] := ⟨_, rfl, rfl⟩
  obtain ⟨ps, hps, hkeys⟩ := hread
  exact ⟨ps, hps, hkeys, parameters_merged root "GET /" shared own ps hps⟩

end Document

end ApiContract

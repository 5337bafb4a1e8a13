import ApiContract.Proofs.Reordering

/-!
Descriptions that differ in order are read alike: a pointer leads to mappings that say the same, and
each section gives the same schemas and operations in its own order.
-/

namespace ApiContract.Document

variable {v w root root' : Value}

/-! ## References -/

/-- What a pointer leads to in a description, and in one of another order. -/
inductive Moved : Value → Value → Prop
  | listing {v w : Value} : v.Relisted w → Moved v w
  | components {v w : Value} : v.Recomposed w → Moved v w
  | paths {v w : Value} : v.Repathed w →
      (∀ members knot, v = .map members knot → AllMaps members) → Moved v w

theorem Moved.refl (v : Value) : Moved v v := .listing .same

theorem Moved.cases_map (h : Moved v w) : (∃ members others knot knot',
    v = .map members knot ∧ w = .map others knot') ∨
      (v = w ∧ ∀ members knot, v ≠ .map members knot) := by
  cases h with
  | listing h => exact h.cases_map
  | components h => exact h.cases_map
  | paths h _ => exact h.cases_map

section Maps

variable {members others : Members} {knot knot' : Nat}

theorem Moved.get? (h : Moved (.map members knot) (.map others knot')) (key : String) :
    Option.Rel Moved (members.get? key) (others.get? key) := by
  cases h with
  | listing h =>
    rw [h.get? key]
    exact rel_refl Moved.refl _
  | components h =>
    refine rel_mono (h.get? key) fun v w hvw => ?_
    split at hvw
    · exact .listing hvw
    · exact hvw ▸ .refl v
  | paths h _ => exact rel_mono (h.alike.get? key) fun _ _ => .listing

theorem itemAlike_of_relisted (h : (Value.map members knot).Relisted (.map others knot')) :
    ItemAlike (.map members knot) (.map others knot') := by
  refine .intro ?_ (h.get? mediaType)
  rw [← List.length_eq_zero_iff, ← List.length_eq_zero_iff, h.perm.length_eq]

theorem Moved.readAlike (h : Moved (.map members knot) (.map others knot')) :
    ReadAlike members others := by
  cases h with
  | listing h => exact .of_get? fun key _ => h.get? key
  | components h =>
    refine .of_get? fun key hkey => ?_
    have hget := h.get? key
    have hother : key ≠ "schemas" := by
      intro heq
      simp [heq, entryKeys] at hkey
    simp only [hother, if_false] at hget
    exact eq_of_rel hget
  | paths h hmaps =>
    refine .of_items fun key _ => ?_
    refine rel_of_mem (h.alike.get? key) fun v w hv hvw => ?_
    obtain ⟨item, k, rfl⟩ := hmaps _ _ rfl _ (Members.mem_of_get? hv)
    obtain ⟨_, _, _, _, heq, rfl⟩ | ⟨rfl, _⟩ := hvw.cases_map
    · cases heq
      exact itemAlike_of_relisted hvw
    · exact itemAlike_of_relisted .same

end Maps

theorem Moved.saysAlike (h : Moved v w) : SaysAlike v w := by
  obtain ⟨members, others, knot, knot', rfl, rfl⟩ | ⟨rfl, _⟩ := h.cases_map
  · exact .ok h.readAlike
  · exact .refl v

theorem Moved.follow? (h : Moved v w) (keys : List String) :
    Option.Rel Moved (Pointer.follow? v keys) (Pointer.follow? w keys) := by
  induction keys generalizing v w with
  | nil => exact .some h
  | cons key keys ih =>
    obtain ⟨members, others, knot, knot', rfl, rfl⟩ | ⟨rfl, _⟩ := h.cases_map
    · have hget := Moved.get? h key
      rw [Pointer.follow?, Pointer.follow?]
      generalize Members.get? key members = given at hget ⊢
      generalize Members.get? key others = other at hget ⊢
      cases hget with
      | none => exact .none
      | some hmoved => exact ih hmoved
    · exact rel_refl Moved.refl _

theorem keys?_ne_nil {ref : String} : Pointer.keys? ref ≠ some [] := by
  unfold Pointer.keys?
  split
  next rest _ =>
    intro h
    exact Text.splitAt_ne_nil '/' rest (by simpa using h)
  next => nofun

theorem leadsAlike_of_reordered (h : root.Reordered root') (hmaps : PathsAreMaps root)
    (raw : Members) : LeadsAlike root root' raw raw := by
  refine leadsAlike_of_follow? fun ref keys _ hkeys => ?_
  cases keys with
  | nil => exact absurd hkeys keys?_ne_nil
  | cons key keys =>
    obtain ⟨members, others, knot, knot', rfl, rfl⟩ | ⟨rfl, _⟩ := h.cases_map
    · have hget := rel_of_mem (S := Moved) (Value.Reordered.get? h key) fun v w hv hvw => by
        split at hvw
        · exact .components hvw
        · split at hvw
          next hkey =>
            refine .paths hvw fun paths k heq => ?_
            rw [hkey, heq] at hv
            exact hmaps members knot rfl paths k hv
          next => exact hvw ▸ .refl v
      rw [Pointer.follow?, Pointer.follow?]
      generalize Members.get? key members = given at hget ⊢
      generalize Members.get? key others = other at hget ⊢
      cases hget with
      | none => exact .none
      | some hmoved => exact rel_mono (hmoved.follow? keys) fun _ _ => Moved.saysAlike
    · exact rel_refl SaysAlike.refl _

/-! ## Sections -/

theorem orEmptyMap_shuffled {R : Scalar → Value → Value → Prop} {given other : Option Value}
    (h : Option.Rel (Value.Shuffled R) given other) :
    Value.Shuffled R (orEmptyMap given) (orEmptyMap other) :=
  orEmptyMap_rel (fun _ _ => Value.Shuffled.truthy) .same h

variable {members others : Members} {knot knot' : Nat}

theorem schemaSection_agree (h : (Value.map members knot).Reordered (.map others knot')) :
    Agree Value.Relisted (schemaSection (.map members knot))
      (schemaSection (.map others knot')) := by
  have hcomponents : (orEmptyMap (members.get? "components")).Recomposed
      (orEmptyMap (others.get? "components")) :=
    orEmptyMap_shuffled (rel_mono (h.get? "components") fun _ _ hvw => by simpa using hvw)
  simp only [schemaSection, membersOf, bind, Except.bind]
  generalize orEmptyMap (members.get? "components") = v at hcomponents ⊢
  generalize orEmptyMap (others.get? "components") = w at hcomponents ⊢
  obtain ⟨_, _, _, _, rfl, rfl⟩ | ⟨rfl, _⟩ := hcomponents.cases_map
  · refine .ok (orEmptyMap_shuffled (rel_mono (hcomponents.get? "schemas") fun _ _ hvw => ?_))
    simpa using hvw
  · exact .same fun _ _ => .same

theorem paths_repathed (h : (Value.map members knot).Reordered (.map others knot')) :
    (orEmptyMap (members.get? "paths")).Repathed (orEmptyMap (others.get? "paths")) :=
  orEmptyMap_shuffled (rel_mono (h.get? "paths") fun _ _ hvw => by simpa using hvw)

theorem serverUrls_reordered (h : (Value.map members knot).Reordered (.map others knot')) :
    serverUrls (.map members knot) = serverUrls (.map others knot') :=
  serverUrls_congr _ _ (eq_of_rel (rel_mono (h.get? "servers") fun _ _ hvw => by simpa using hvw))

/-! ## Schemas and operations -/

theorem readListing_agree (h : v.Relisted w) :
    Agree List.Perm (readListing v).outcome (readListing w).outcome := by
  obtain ⟨members, others, _, _, rfl, rfl⟩ | ⟨rfl, _⟩ := h.cases_map
  · rw [readListing, readListing, readSchemas_outcome, readSchemas_outcome]
    exact .mapM_perm h.perm
  · exact .same fun _ _ => .refl _

theorem readPath_agree (hleads : ∀ raw, LeadsAlike root root' raw raw)
    (h : (Value.map members knot).Relisted (.map others knot')) (path : Scalar) :
    Agree List.Perm (readPath root (path, .map members knot))
      (readPath root' (path, .map others knot')) := by
  have hsame := readPath_same (m := (path, .map members knot)) (fun raw _ _ => hleads raw) .whole
  refine hsame.trans (S := List.Perm) ?_ fun ops _ _ heq hperm => heq ▸ hperm
  simp only [readPath, ← h.get? "parameters"]
  rw [readPathItem_outcome, readPathItem_outcome]
  exact (Agree.mapM_perm h.perm).map fun _ _ hfound => hfound.filterMap id

theorem flatten_perm_of_forall₂ {α : Type} {xs ys : List (List α)}
    (h : List.Forall₂ List.Perm xs ys) : xs.flatten.Perm ys.flatten := by
  induction h with
  | nil => exact .refl _
  | cons hxy _ ih => exact hxy.append ih

theorem allMaps_of_repathed (h : (Value.map members knot).Repathed (.map others knot'))
    (hmaps : AllMaps others) : AllMaps members := by
  obtain ⟨between, hmatched, hperm⟩ := h.alike.matched
  intro m hm
  obtain ⟨n, hn, _, hitem⟩ := exists_right_of_forall₂ hmatched hm
  obtain ⟨item, k, hmap⟩ := hmaps n (hperm.mem_iff.mp hn)
  obtain ⟨item', _, k', _, hmap', _⟩ | ⟨heq, _⟩ := hitem.cases_map
  · exact ⟨item', k', hmap'⟩
  · exact ⟨item, k, heq.trans hmap⟩

theorem readPaths_perm (hleads : ∀ raw, LeadsAlike root root' raw raw)
    (h : (Value.map members knot).Repathed (.map others knot')) (hmaps : AllMaps members) :
    Agree List.Perm (readPaths root members).outcome (readPaths root' others).outcome := by
  obtain ⟨between, hmatched, hperm⟩ := h.alike.matched
  have hpaths : List.Forall₂ (fun m n => Agree List.Perm (readPath root m) (readPath root' n))
      members between := by
    refine Members.Matched.forall₂ hmatched hmaps fun path v w hmap hitem => ?_
    obtain ⟨item, k, rfl⟩ := hmap
    obtain ⟨_, _, _, _, heq, rfl⟩ | ⟨rfl, _⟩ := hitem.cases_map
    · cases heq
      exact readPath_agree hleads hitem path
    · exact readPath_agree hleads .same path
  rw [readPaths_outcome, readPaths_outcome]
  refine ((Agree.mapM hpaths).trans (T := fun xs ys => xs.flatten.Perm ys.flatten)
    (Agree.mapM_perm hperm) ?_).map fun _ _ h => h
  intro xs ys zs hxy hyz
  exact (flatten_perm_of_forall₂ hxy).trans hyz.flatten

/-! ## Whole descriptions -/

/-- The same servers, and the same schemas and operations in another order. -/
structure Permuted (d d' : Document) : Prop where
  servers : d.servers = d'.servers
  schemas : d.schemas.Perm d'.schemas
  operations : d.operations.Perm d'.operations

/-- A schema under the text of its key. -/
def named (s : Scalar × Schema) : Except FieldFault (String × Schema) :=
  (Field.text (.scalar s.1)).map (·, s.2)

theorem names_agree (schemas : List (Scalar × Schema)) (field : Nat → String) (index : Nat) :
    Agree (fun names found => names.zip (schemas.map (·.2)) = found)
      (Field.texts field index (schemas.map fun s => .scalar s.1)) (schemas.mapM named) := by
  induction schemas generalizing index with
  | nil => exact .ok rfl
  | cons s rest ih =>
    rw [List.mapM_cons, named]
    simp only [List.map_cons, Field.texts]
    cases Field.text (.scalar s.1) with
    | error fault => exact .error
    | ok name =>
      change Agree _ (Field.texts field (index + 1) _ >>= fun names => pure (name :: names))
        (rest.mapM named >>= fun found => pure ((name, s.2) :: found))
      refine (ih (index + 1)).bind fun names found heq => ?_
      rw [← heq]
      exact .ok rfl

theorem fieldResult_agree {α β : Type} {R : α → β → Prop} {x : Except FieldIssue α}
    {y : Except FieldIssue β} (h : Agree R x y) (place : String) :
    Agree R (fieldResult place x) (fieldResult place y) := by
  cases h with
  | ok hab => exact .ok hab
  | error => exact .error

theorem finish_agree {schemas schemas' : List (Scalar × Schema)} {ops ops' : List Operation}
    (hschemas : schemas.Perm schemas') (hops : ops.Perm ops') (urls : List Value) :
    Agree Permuted (finish schemas ops urls) (finish schemas' ops' urls) := by
  refine Agree.bind (.of_eq rfl) fun servers _ hservers => ?_
  cases hservers
  have hnames := (names_agree schemas (fun i => s!"schemas.{i}.0") 0).trans
    (T := fun names found => (names.zip (schemas.map (·.2))).Perm found)
    (Agree.mapM_perm hschemas) fun _ _ _ heq hperm => heq ▸ hperm
  have hboth := hnames.trans (T := fun names names' =>
      (names.zip (schemas.map (·.2))).Perm (names'.zip (schemas'.map (·.2))))
    (names_agree schemas' (fun i => s!"schemas.{i}.0") 0).symm fun _ _ _ hperm heq => heq ▸ hperm
  refine (fieldResult_agree hboth "document").bind fun names names' hperm => ?_
  exact .ok ⟨rfl, hperm, hops⟩

theorem readSection_agree (h : (Value.map members knot).Reordered (.map others knot')) :
    Agree List.Perm
      (readSection (.map members knot) (orEmptyMap (members.get? "paths"))).outcome
      (readSection (.map others knot') (orEmptyMap (others.get? "paths"))).outcome := by
  have hpaths := paths_repathed h
  cases hsection : orEmptyMap (members.get? "paths") with
  | map paths k =>
    rw [hsection] at hpaths
    obtain ⟨_, paths', _, k', _, hsection'⟩ | ⟨_, hother⟩ := hpaths.cases_map
    · rw [hsection'] at hpaths ⊢
      refine readPaths_agree (allMaps_of_repathed hpaths) fun hmaps => ?_
      exact readPaths_perm (leadsAlike_of_reordered h (pathsAreMaps hsection hmaps)) hpaths hmaps
    · exact absurd rfl (hother paths k)
  | _ =>
    rw [hsection] at hpaths
    obtain ⟨_, _, _, _, hmap, _⟩ | ⟨heq, _⟩ := hpaths.cases_map
    · cases hmap
    · rw [← heq]
      exact .error

/-- A description in another order reads as the same one in another order, or neither reads. -/
theorem read_agree (h : root.Reordered root') :
    Agree Permuted (read root).outcome (read root').outcome := by
  obtain ⟨members, others, knot, knot', rfl, rfl⟩ | ⟨rfl, hother⟩ := h.cases_map
  · rw [read_outcome, read_outcome, ← serverUrls_reordered h]
    refine (schemaSection_agree h).bind fun listing listing' hlisting => ?_
    refine (readListing_agree hlisting).bind fun schemas schemas' hschemas => ?_
    refine (readSection_agree h).bind fun ops ops' hops => ?_
    refine Agree.bind (.of_eq rfl) fun urls _ hurls => ?_
    cases hurls
    exact finish_agree hschemas hops urls
  · exact .same fun d _ => ⟨rfl, .refl _, .refl _⟩

end ApiContract.Document

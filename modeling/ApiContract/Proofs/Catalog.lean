import ApiContract.Catalog.Cycle
import ApiContract.Proofs.Outcome
import Mathlib.Data.List.Nodup

/-!
What a catalog that was built holds: the entries of the components and of the operations in order,
no name twice, and no reference out of the components.
-/

namespace ApiContract

theorem Naming.Slot.mem_all (slot : Naming.Slot) : slot ∈ Naming.Slot.all := by
  cases slot <;> decide

namespace Operation

theorem slotEntry?_eq_ok {op : Operation} {slot : Naming.Slot} {found : Option NamedSchema} :
    op.slotEntry? slot = .ok found ↔
      (op.slotExpr slot = none ∧ found = none) ∨
      ∃ e, op.slotExpr slot = some (.ok e) ∧
        found = some ⟨op.slotName slot, e, .operation slot⟩ := by
  unfold slotEntry?
  cases op.slotExpr slot with
  | none => simp [eq_comm]
  | some e => cases e <;> simp [bind, Except.bind, pure, Except.pure, eq_comm]

/-- The entries of an operation are those of the slots that it has something for. -/
theorem mem_entries {op : Operation} {es : List NamedSchema} (h : op.entries = .ok es)
    {s : NamedSchema} : s ∈ es ↔ ∃ slot e, op.slotExpr slot = some (.ok e) ∧
      s = ⟨op.slotName slot, e, .operation slot⟩ := by
  obtain ⟨found, hf, hes⟩ := bind_eq_ok.mp h
  cases pure_eq_ok.mp hes
  have hslots := mapM_eq_ok.mp hf
  constructor
  · intro hs
    obtain ⟨entry, hentry, rfl⟩ := List.mem_filterMap.mp hs
    obtain ⟨slot, _, hslot⟩ := exists_left_of_forall₂ hslots hentry
    rcases slotEntry?_eq_ok.mp hslot with ⟨_, hnone⟩ | ⟨e, he, hsome⟩
    · cases hnone
    · cases hsome
      exact ⟨slot, e, he, rfl⟩
  · intro h
    obtain ⟨slot, e, he, rfl⟩ := h
    obtain ⟨entry, hentry, hslot⟩ := exists_right_of_forall₂ hslots slot.mem_all
    rcases slotEntry?_eq_ok.mp hslot with ⟨hnone, _⟩ | ⟨e', he', rfl⟩
    · rw [he] at hnone; cases hnone
    · rw [he] at he'; cases he'
      exact List.mem_filterMap.mpr ⟨_, hentry, rfl⟩

end Operation

namespace Catalog

theorem firstRepeated?_eq_none {seen ns : List String} :
    firstRepeated? seen ns = none ↔ ns.Nodup ∧ ∀ n ∈ ns, n ∉ seen := by
  induction ns generalizing seen with
  | nil => simp [firstRepeated?]
  | cons n ns ih =>
    by_cases hn : n ∈ seen
    · simp [firstRepeated?, hn]
    · rw [firstRepeated?, if_neg (by simpa using hn), ih]
      grind

theorem danglingIn?_eq_none {components : List String} {s : NamedSchema} :
    danglingIn? components s = none ↔ ∀ t ∈ s.expr.refs, t ∈ components := by
  simp [danglingIn?]

theorem fault?_eq_none {components : List String} {catalog : List NamedSchema} :
    fault? components catalog = none ↔
      (names catalog).Nodup ∧ ∀ s ∈ catalog, ∀ t ∈ s.expr.refs, t ∈ components := by
  have hr := @firstRepeated?_eq_none [] (names catalog)
  cases h : firstRepeated? [] (names catalog) with
  | some n =>
    rw [h] at hr
    simp at hr
    simp [fault?, h, hr]
  | none =>
    rw [fault?, h, List.findSome?_eq_none_iff]
    simp only [danglingIn?_eq_none, (hr.mp h).1, true_and]

/-- The parts of a catalog that was built. -/
structure Built (d : Document) (catalog : List NamedSchema) : Prop where
  entries : entries d = .ok catalog
  nodup : (names catalog).Nodup
  closed : ∀ s ∈ catalog, ∀ t ∈ s.expr.refs, t ∈ d.componentNames

theorem build_eq_ok {d : Document} {catalog : List NamedSchema} :
    build d = .ok catalog ↔ Built d catalog := by
  rw [build, bind_eq_ok]
  constructor
  · intro h
    obtain ⟨found, he, h⟩ := h
    cases hf : fault? d.componentNames found with
    | some f => rw [hf] at h; cases h
    | none =>
      rw [hf] at h
      cases pure_eq_ok.mp h
      obtain ⟨hn, hc⟩ := fault?_eq_none.mp hf
      exact ⟨he, hn, hc⟩
  · intro h
    obtain ⟨he, hn, hc⟩ := h
    refine ⟨catalog, he, ?_⟩
    rw [fault?_eq_none.mpr ⟨hn, hc⟩]
    rfl

theorem componentEntry_eq_ok {c : String × Schema} {s : NamedSchema} :
    componentEntry c = .ok s ↔
      ∃ e, Validator.Expr.ofSchema c.1 c.2 = .ok e ∧ s = ⟨c.1, e, .component⟩ := by
  rw [componentEntry, bind_eq_ok]
  exact exists_congr fun e => and_congr_right fun _ => by rw [pure_eq_ok, eq_comm]

/-- An entry is that of a declared component or of a slot of an operation. -/
theorem Built.mem_iff {d : Document} {catalog : List NamedSchema} (h : Built d catalog)
    {s : NamedSchema} : s ∈ catalog ↔
      (∃ c ∈ d.schemas, componentEntry c = .ok s) ∨
      ∃ op ∈ d.operations, ∃ slot e, op.slotExpr slot = some (.ok e) ∧
        s = ⟨op.slotName slot, e, .operation slot⟩ := by
  obtain ⟨components, hcomponents, hrest⟩ := bind_eq_ok.mp h.entries
  obtain ⟨operations, hoperations, hall⟩ := bind_eq_ok.mp hrest
  cases pure_eq_ok.mp hall
  have hc := mapM_eq_ok.mp hcomponents
  have ho := mapM_eq_ok.mp hoperations
  rw [List.mem_append, List.mem_flatten]
  refine or_congr ⟨exists_left_of_forall₂ hc, ?_⟩ ⟨?_, ?_⟩
  · intro h
    obtain ⟨c, hmem, hentry⟩ := h
    obtain ⟨s', hs', hentry'⟩ := exists_right_of_forall₂ hc hmem
    rw [hentry] at hentry'
    cases hentry'
    exact hs'
  · intro h
    obtain ⟨es, hes, hs⟩ := h
    obtain ⟨op, hop, hentries⟩ := exists_left_of_forall₂ ho hes
    exact ⟨op, hop, (Operation.mem_entries hentries).mp hs⟩
  · intro h
    obtain ⟨op, hop, hs⟩ := h
    obtain ⟨es, hes, hentries⟩ := exists_right_of_forall₂ ho hop
    exact ⟨es, hes, (Operation.mem_entries hentries).mpr hs⟩

/-- What an operation has for a slot was translated, and is listed under the name of the slot. -/
theorem Built.slot_mem {d : Document} {catalog : List NamedSchema} (h : Built d catalog)
    {op : Operation} (hop : op ∈ d.operations) {slot : Naming.Slot}
    {r : Except Issue Validator.Expr} (hr : op.slotExpr slot = some r) :
    ∃ e, r = .ok e ∧ ⟨op.slotName slot, e, .operation slot⟩ ∈ catalog := by
  obtain ⟨components, _, hrest⟩ := bind_eq_ok.mp h.entries
  obtain ⟨operations, hoperations, _⟩ := bind_eq_ok.mp hrest
  obtain ⟨es, _, hes⟩ := exists_right_of_forall₂ (mapM_eq_ok.mp hoperations) hop
  obtain ⟨found, hfound, _⟩ := bind_eq_ok.mp hes
  obtain ⟨entry, _, hentry⟩ := exists_right_of_forall₂ (mapM_eq_ok.mp hfound) slot.mem_all
  rcases Operation.slotEntry?_eq_ok.mp hentry with ⟨hnone, _⟩ | ⟨e, he, _⟩
  · rw [hr] at hnone; cases hnone
  · rw [hr] at he; cases he
    exact ⟨e, rfl, h.mem_iff.mpr (.inr ⟨op, hop, slot, e, hr, rfl⟩)⟩

/-- The component entries are the validators of the declared schemas. -/
theorem Built.mem_component_iff {d : Document} {catalog : List NamedSchema} (h : Built d catalog)
    {s : NamedSchema} : (s ∈ catalog ∧ isComponent s = true) ↔
      ∃ schema, (s.name, schema) ∈ d.schemas ∧
        Validator.Expr.ofSchema s.name schema = .ok s.expr ∧ s.provenance = .component := by
  rw [h.mem_iff]
  constructor
  · intro h
    rcases h with ⟨⟨c, hmem, hentry⟩ | ⟨op, _, slot, e, _, rfl⟩, hs⟩
    · obtain ⟨e, he, rfl⟩ := componentEntry_eq_ok.mp hentry
      exact ⟨c.2, hmem, he, rfl⟩
    · cases hs
  · intro h
    obtain ⟨schema, hmem, he, hp⟩ := h
    refine ⟨.inl ⟨(s.name, schema), hmem, componentEntry_eq_ok.mpr ⟨s.expr, he, ?_⟩⟩, ?_⟩
    · rw [← hp]
    · simp [isComponent, hp]

theorem names_components {schemas : List (String × Schema)} {components : List NamedSchema}
    (h : List.Forall₂ (fun c s => componentEntry c = .ok s) schemas components) :
    names components = schemas.map (·.1) := by
  induction h with
  | nil => rfl
  | cons hentry _ ih =>
    obtain ⟨e, _, rfl⟩ := componentEntry_eq_ok.mp hentry
    rw [names, List.map_cons, List.map_cons, ← ih]
    rfl

/-- No component is declared twice. -/
theorem Built.schemas_nodup {d : Document} {catalog : List NamedSchema} (h : Built d catalog) :
    d.componentNames.Nodup := by
  obtain ⟨components, hcomponents, hrest⟩ := bind_eq_ok.mp h.entries
  obtain ⟨operations, _, hall⟩ := bind_eq_ok.mp hrest
  cases pure_eq_ok.mp hall
  have hnodup := h.nodup
  rw [names, List.map_append] at hnodup
  rw [Document.componentNames, ← names_components (mapM_eq_ok.mp hcomponents)]
  exact hnodup.of_append_left

/-- What some schema of a name has, the one that is declared has. -/
theorem Built.exists_schema_iff {d : Document} {catalog : List NamedSchema} (h : Built d catalog)
    {name : String} {schema : Schema} (hs : (name, schema) ∈ d.schemas) {P : Schema → Prop} :
    (∃ s, (name, s) ∈ d.schemas ∧ P s) ↔ P schema := by
  constructor
  · intro hex
    obtain ⟨s, hmem, hp⟩ := hex
    cases List.inj_on_of_nodup_map h.schemas_nodup hmem hs rfl
    exact hp
  · intro hp
    exact ⟨schema, hs, hp⟩

/-- An entry is the only one of its name. -/
theorem filter_name_eq {catalog : List NamedSchema} (h : (names catalog).Nodup) {s : NamedSchema}
    (hs : s ∈ catalog) : catalog.filter (·.name == s.name) = [s] := by
  induction catalog with
  | nil => cases hs
  | cons t rest ih =>
    obtain ⟨ht, hrest⟩ := List.nodup_cons.mp h
    rcases List.mem_cons.mp hs with rfl | hs
    · rw [List.filter_cons_of_pos (by simp), List.filter_eq_nil_iff.mpr]
      intro u hu hname
      exact ht (List.mem_map.mpr ⟨u, hu, by simpa using hname⟩)
    · have hne : t.name ≠ s.name := fun heq => ht (List.mem_map.mpr ⟨s, hs, heq.symm⟩)
      rw [List.filter_cons_of_neg (by simpa using hne)]
      exact ih hrest hs

/-- Of two entries of one name there is only one. -/
theorem Built.eq_of_name {d : Document} {catalog : List NamedSchema} (h : Built d catalog)
    {s t : NamedSchema} (hs : s ∈ catalog) (ht : t ∈ catalog) (hn : s.name = t.name) : s = t :=
  List.inj_on_of_nodup_map h.nodup hs ht hn

theorem Built.isComponent_of_recursive {d : Document} {catalog : List NamedSchema}
    (h : Built d catalog) {s : NamedSchema} (hs : s ∈ catalog)
    (hr : s.name ∈ recursiveComponents catalog) : isComponent s = true := by
  obtain ⟨hname, _⟩ := List.mem_filter.mp hr
  obtain ⟨t, ht, hn⟩ := List.mem_map.mp hname
  obtain ⟨ht, hc⟩ := List.mem_filter.mp ht
  rwa [h.eq_of_name ht hs hn] at hc

theorem ofDocument_eq_ok {d : Document} {catalog : List NamedSchema} :
    (ofDocument d).outcome = .ok catalog ↔ Built d catalog := by
  rw [ofDocument, Traced.bind_outcome_eq_ok, ← build_eq_ok]
  constructor
  · intro h
    obtain ⟨found, hb, h⟩ := h
    obtain ⟨_, _, h⟩ := Traced.bind_outcome_eq_ok.mp h
    cases h
    exact hb
  · intro hb
    exact ⟨catalog, hb, rfl⟩

end Catalog

end ApiContract

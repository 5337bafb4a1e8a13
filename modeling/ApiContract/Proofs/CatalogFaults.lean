import ApiContract.Proofs.Declarations
import ApiContract.Proofs.References

/-!
What keeps a catalog from being built once all schemas are translated: a name that stands twice, or
a reference that leads out of the components. A catalog that is built lists the components and then
the slots of each operation, and every reference node in it is written with the constant of one of
its components.
-/

namespace ApiContract

/-! ## What a document refers to -/

namespace Operation

/-- The schemas of an operation: that of its body, that of its response, and those of its
parameters. -/
def RefersTo (op : Operation) (t : String) : Prop :=
  (∃ body, op.requestBody = some body ∧ body.schema.RefersTo t) ∨
  (∃ schema, op.response = some schema ∧ schema.RefersTo t) ∨
  ∃ p ∈ op.parameters, p.schema.RefersTo t

/-- The references in what an operation has for a slot. -/
def RefersAt (op : Operation) (t : String) : Naming.Slot → Prop
  | .requestBody => ∃ body, op.requestBody = some body ∧ body.schema.RefersTo t
  | .responseBody => ∃ schema, op.response = some schema ∧ schema.RefersTo t
  | .pathParams => ∃ p ∈ op.parameters.filter (·.location = .path), p.schema.RefersTo t
  | .queryParams => ∃ p ∈ op.parameters.filter (·.location = .query), p.schema.RefersTo t

/-- Every parameter has its slot. -/
theorem refersTo_iff_refersAt {op : Operation} {t : String} :
    op.RefersTo t ↔ ∃ slot, op.RefersAt t slot := by
  constructor
  · rintro (h | h | ⟨p, hp, hs⟩)
    · exact ⟨.requestBody, h⟩
    · exact ⟨.responseBody, h⟩
    · cases hloc : p.location with
      | path => exact ⟨.pathParams, p, List.mem_filter.mpr ⟨hp, by simp [hloc]⟩, hs⟩
      | query => exact ⟨.queryParams, p, List.mem_filter.mpr ⟨hp, by simp [hloc]⟩, hs⟩
  · rintro ⟨slot, h⟩
    cases slot with
    | requestBody => exact .inl h
    | responseBody => exact .inr (.inl h)
    | pathParams | queryParams =>
      obtain ⟨p, hp, hs⟩ := h
      exact .inr (.inr ⟨p, (List.mem_filter.mp hp).1, hs⟩)

/-- An operation refers to nothing in a slot that it has nothing for. -/
theorem has_of_refersAt {op : Operation} {t : String} {slot : Naming.Slot}
    (h : op.RefersAt t slot) : op.has slot = true := by
  rw [← Bool.not_eq_false, has_eq_false_iff]
  intro hlacks
  cases slot with
  | requestBody => obtain ⟨body, hbody, _⟩ := h; rw [hlacks] at hbody; cases hbody
  | responseBody => obtain ⟨schema, hschema, _⟩ := h; rw [hlacks] at hschema; cases hschema
  | pathParams | queryParams =>
    obtain ⟨p, hp, _⟩ := h
    obtain ⟨hp, hloc⟩ := List.mem_filter.mp hp
    exact hlacks p hp (by simpa using hloc)

theorem mentions_of_translates {op : Operation} {e : Validator.Expr} {slot : Naming.Slot}
    (h : op.Translates e slot) {t : String} : e.Mentions t ↔ op.RefersAt t slot := by
  cases slot with
  | requestBody =>
    obtain ⟨body, hbody, he⟩ := h
    rw [Validator.mentions_ofSchema he, RefersAt, hbody]
    simp
  | responseBody =>
    obtain ⟨schema, hschema, he⟩ := h
    rw [Validator.mentions_ofSchema he, RefersAt, hschema]
    simp
  | pathParams | queryParams => exact Validator.mentions_ofParameters h

theorem linked_of_translates {op : Operation} {e : Validator.Expr} {slot : Naming.Slot}
    (h : op.Translates e slot) : e.Linked := by
  cases slot with
  | requestBody => obtain ⟨_, _, he⟩ := h; exact Validator.linked_ofSchema he
  | responseBody => obtain ⟨_, _, he⟩ := h; exact Validator.linked_ofSchema he
  | pathParams | queryParams => exact Validator.linked_ofParameters h

end Operation

/-! ## The listing of a document -/

/-- What a catalog has an entry for. -/
inductive Subject where
  | component (name : String) (schema : Schema)
  | part (op : Operation) (slot : Naming.Slot)

namespace Subject

def name : Subject → String
  | component name _ => name
  | part op slot => op.slotName slot

def provenance : Subject → Provenance
  | component .. => .component
  | part _ slot => .operation slot

def Translates : Subject → Validator.Expr → Prop
  | component name schema, e => Validator.Expr.ofSchema name schema = .ok e
  | part op slot, e => op.Translates e slot

/-- An entry is that of a subject. -/
structure Describes (subject : Subject) (s : NamedSchema) : Prop where
  name : s.name = subject.name
  provenance : s.provenance = subject.provenance
  translates : subject.Translates s.expr

def RefersTo (t : String) : Subject → Prop
  | component _ schema => schema.RefersTo t
  | part op slot => op.RefersAt t slot

theorem mentions_iff {subject : Subject} {s : NamedSchema} (h : subject.Describes s) {t : String} :
    s.expr.Mentions t ↔ subject.RefersTo t := by
  cases subject with
  | component name schema => exact Validator.mentions_ofSchema h.translates
  | part op slot => exact Operation.mentions_of_translates h.translates

theorem linked {subject : Subject} {s : NamedSchema} (h : subject.Describes s) :
    s.expr.Linked := by
  cases subject with
  | component name schema => exact Validator.linked_ofSchema h.translates
  | part op slot => exact Operation.linked_of_translates h.translates

end Subject

/-- The slots that an operation has something for, in order. -/
def Operation.subjects (op : Operation) : List Subject :=
  (Naming.Slot.all.filter op.has).map (.part op)

namespace Document

/-- The components as declared, then for each operation its slots. -/
def subjects (d : Document) : List Subject :=
  d.schemas.map (fun c => .component c.1 c.2) ++ d.operations.flatMap Operation.subjects

/-- The names of all entries, in order. -/
def entryNames (d : Document) : List String := d.subjects.map Subject.name

/-- All schemas of a document have a validator. -/
structure Translatable (d : Document) : Prop where
  components : ∀ c ∈ d.schemas, ∃ e, Validator.Expr.ofSchema c.1 c.2 = .ok e
  operations : ∀ op ∈ d.operations, ∀ slot, op.Lacks slot ∨ ∃ e, op.Translates e slot

/-- The references in components and operations. -/
def RefersTo (d : Document) (t : String) : Prop :=
  (∃ c ∈ d.schemas, c.2.RefersTo t) ∨ ∃ op ∈ d.operations, op.RefersTo t

theorem component_mem_subjects {d : Document} {c : String × Schema} (hc : c ∈ d.schemas) :
    .component c.1 c.2 ∈ d.subjects :=
  List.mem_append_left _ (List.mem_map.mpr ⟨c, hc, rfl⟩)

theorem part_mem_subjects {d : Document} {op : Operation} (hop : op ∈ d.operations)
    {slot : Naming.Slot} (hhas : op.has slot = true) : .part op slot ∈ d.subjects := by
  have hslot : slot ∈ Naming.Slot.all.filter op.has := List.mem_filter.mpr ⟨slot.mem_all, hhas⟩
  have hpart : .part op slot ∈ op.subjects := List.mem_map.mpr ⟨slot, hslot, rfl⟩
  exact List.mem_append_right _ (List.mem_flatMap.mpr ⟨op, hop, hpart⟩)

theorem refersTo_iff {d : Document} {t : String} :
    d.RefersTo t ↔ ∃ subject ∈ d.subjects, subject.RefersTo t := by
  constructor
  · rintro (⟨c, hc, hs⟩ | ⟨op, hop, hs⟩)
    · exact ⟨_, component_mem_subjects hc, hs⟩
    · obtain ⟨slot, hs⟩ := Operation.refersTo_iff_refersAt.mp hs
      exact ⟨_, part_mem_subjects hop (Operation.has_of_refersAt hs), hs⟩
  · rintro ⟨subject, hmem, hs⟩
    rcases List.mem_append.mp hmem with hmem | hmem
    · obtain ⟨c, hc, rfl⟩ := List.mem_map.mp hmem
      exact .inl ⟨c, hc, hs⟩
    · obtain ⟨op, hop, hmem⟩ := List.mem_flatMap.mp hmem
      obtain ⟨slot, _, rfl⟩ := List.mem_map.mp hmem
      exact .inr ⟨op, hop, Operation.refersTo_iff_refersAt.mpr ⟨slot, hs⟩⟩

end Document

namespace Operation

theorem slotExpr_eq_none_iff {op : Operation} {slot : Naming.Slot} :
    op.slotExpr slot = none ↔ op.has slot = false := by
  cases slot <;> simp [slotExpr, has]

/-- A slot has the translation of what is there, if it has one. -/
theorem slotExpr_of_translates {op : Operation} {slot : Naming.Slot} {e : Validator.Expr}
    (hhas : op.has slot = true) (h : op.Translates e slot) : op.slotExpr slot = some (.ok e) := by
  cases slot with
  | requestBody =>
    obtain ⟨body, hbody, he⟩ := h
    simp [slotExpr, hbody, he]
  | responseBody =>
    obtain ⟨schema, hschema, he⟩ := h
    simp [slotExpr, hschema, he]
  | pathParams => exact (if_pos hhas).trans (congrArg some h)
  | queryParams => exact (if_pos hhas).trans (congrArg some h)

theorem exists_slotEntry {op : Operation} {slot : Naming.Slot}
    (h : op.Lacks slot ∨ ∃ e, op.Translates e slot) : ∃ entry, op.slotEntry? slot = .ok entry := by
  cases hhas : op.has slot with
  | false =>
    have hnone := slotExpr_eq_none_iff.mpr hhas
    exact ⟨none, slotEntry?_eq_ok.mpr (.inl ⟨hnone, rfl⟩)⟩
  | true =>
    have hlacks : ¬ op.Lacks slot := by
      rw [← has_eq_false_iff, hhas]
      simp
    obtain ⟨e, he⟩ := h.resolve_left hlacks
    have hsome := slotExpr_of_translates hhas he
    exact ⟨_, slotEntry?_eq_ok.mpr (.inr ⟨e, hsome, rfl⟩)⟩

theorem exists_entries {op : Operation} (h : ∀ slot, op.Lacks slot ∨ ∃ e, op.Translates e slot) :
    ∃ es, op.entries = .ok es := by
  have hslots : ∀ slot ∈ Naming.Slot.all, ∃ entry, op.slotEntry? slot = .ok entry :=
    fun slot _ => exists_slotEntry (h slot)
  obtain ⟨found, hfound⟩ := exists_mapM_iff.mpr hslots
  exact ⟨_, bind_eq_ok.mpr ⟨found, hfound, rfl⟩⟩

end Operation

namespace Catalog

/-- The entries of some slots of an operation describe those that it has something for. -/
theorem slots_describe {op : Operation} {slots : List Naming.Slot}
    {found : List (Option NamedSchema)}
    (h : List.Forall₂ (fun slot entry => op.slotEntry? slot = .ok entry) slots found) :
    List.Forall₂ Subject.Describes ((slots.filter op.has).map (.part op)) (found.filterMap id) := by
  induction h with
  | nil => exact .nil
  | @cons slot entry slots found hentry _ ih =>
    rcases Operation.slotEntry?_eq_ok.mp hentry with ⟨hnone, rfl⟩ | ⟨e, he, rfl⟩
    · have hhas := Operation.slotExpr_eq_none_iff.mp hnone
      rw [List.filter_cons_of_neg (by simp [hhas])]
      exact ih
    · have hhas : op.has slot = true := by
        rw [← Bool.not_eq_false, ← Operation.slotExpr_eq_none_iff, he]
        exact Option.some_ne_none _
      rw [List.filter_cons_of_pos hhas]
      exact .cons ⟨rfl, rfl, Operation.translates_of_slotExpr he⟩ ih

theorem operation_describes {op : Operation} {es : List NamedSchema} (h : op.entries = .ok es) :
    List.Forall₂ Subject.Describes op.subjects es := by
  obtain ⟨found, hfound, hes⟩ := bind_eq_ok.mp h
  cases pure_eq_ok.mp hes
  exact slots_describe (mapM_eq_ok.mp hfound)

/-- The entries of a document describe its subjects, one by one. -/
theorem entries_describe {d : Document} {catalog : List NamedSchema}
    (h : entries d = .ok catalog) : List.Forall₂ Subject.Describes d.subjects catalog := by
  obtain ⟨components, hcomponents, h⟩ := bind_eq_ok.mp h
  obtain ⟨operations, hoperations, h⟩ := bind_eq_ok.mp h
  cases pure_eq_ok.mp h
  refine List.rel_append ?_ ?_
  · rw [List.forall₂_map_left_iff]
    refine (mapM_eq_ok.mp hcomponents).imp fun c s hs => ?_
    obtain ⟨e, he, rfl⟩ := componentEntry_eq_ok.mp hs
    exact ⟨rfl, rfl, he⟩
  · refine List.rel_flatten ?_
    rw [List.forall₂_map_left_iff]
    exact (mapM_eq_ok.mp hoperations).imp fun op es hes => operation_describes hes

theorem exists_entries {d : Document} (h : d.Translatable) :
    ∃ catalog, entries d = .ok catalog := by
  obtain ⟨components, hcomponents⟩ := exists_mapM_iff.mpr fun c hc => by
    obtain ⟨e, he⟩ := h.components c hc
    exact ⟨_, componentEntry_eq_ok.mpr ⟨e, he, rfl⟩⟩
  obtain ⟨operations, hoperations⟩ := exists_mapM_iff.mpr fun op hop =>
    Operation.exists_entries (h.operations op hop)
  exact ⟨_, bind_eq_ok.mpr ⟨components, hcomponents, bind_eq_ok.mpr ⟨operations, hoperations, rfl⟩⟩⟩

/-- The entries can be listed exactly if all schemas have a validator. -/
theorem translatable_iff {d : Document} :
    d.Translatable ↔ ∃ catalog, entries d = .ok catalog := by
  refine ⟨exists_entries, ?_⟩
  rintro ⟨catalog, h⟩
  have hdescribe := entries_describe h
  refine ⟨fun c hc => ?_, fun op hop slot => ?_⟩
  · obtain ⟨s, _, hs⟩ := exists_right_of_forall₂ hdescribe (Document.component_mem_subjects hc)
    exact ⟨s.expr, hs.translates⟩
  · cases hhas : op.has slot with
    | false => exact .inl (Operation.has_eq_false_iff.mp hhas)
    | true =>
      obtain ⟨s, _, hs⟩ := exists_right_of_forall₂ hdescribe
        (Document.part_mem_subjects hop hhas)
      exact .inr ⟨s.expr, hs.translates⟩

theorem names_eq_entryNames {d : Document} {catalog : List NamedSchema}
    (h : entries d = .ok catalog) : names catalog = d.entryNames :=
  map_eq_of_forall₂ (entries_describe h) fun _ _ hs => hs.name

/-- The entries mention what the document refers to. -/
theorem exists_mentions_iff {d : Document} {catalog : List NamedSchema}
    (h : entries d = .ok catalog) {t : String} :
    (∃ s ∈ catalog, s.expr.Mentions t) ↔ d.RefersTo t := by
  have hdescribe := entries_describe h
  rw [Document.refersTo_iff]
  constructor
  · rintro ⟨s, hs, hm⟩
    obtain ⟨subject, hsubject, hds⟩ := exists_left_of_forall₂ hdescribe hs
    exact ⟨subject, hsubject, (Subject.mentions_iff hds).mp hm⟩
  · rintro ⟨subject, hsubject, hm⟩
    obtain ⟨s, hs, hds⟩ := exists_right_of_forall₂ hdescribe hsubject
    exact ⟨s, hs, (Subject.mentions_iff hds).mpr hm⟩

/-! ## Faults -/

/-- A name is the first of a list that repeats an earlier one. -/
def FirstRepeat (names : List String) (n : String) : Prop :=
  ∃ before after, names = before ++ n :: after ∧ before.Nodup ∧ n ∈ before

/-- What stands before the name that is found is new and free of repetitions. -/
theorem firstRepeated?_eq_some {seen ns : List String} {n : String}
    (h : firstRepeated? seen ns = some n) :
    ∃ before after, ns = before ++ n :: after ∧ before.Nodup ∧ (∀ x ∈ before, x ∉ seen) ∧
      (n ∈ before ∨ n ∈ seen) := by
  induction ns generalizing seen with
  | nil => cases h
  | cons m ns ih =>
    rw [firstRepeated?] at h
    by_cases hm : m ∈ seen
    · rw [if_pos (by simpa using hm)] at h
      cases h
      exact ⟨[], ns, rfl, List.nodup_nil, List.forall_mem_nil _, .inr hm⟩
    · rw [if_neg (by simpa using hm)] at h
      obtain ⟨before, after, rfl, hnodup, hnew, hn⟩ := ih h
      refine ⟨m :: before, after, rfl, ?_, ?_, ?_⟩
      · have hfresh : m ∉ before := fun hmem => hnew m hmem List.mem_cons_self
        exact List.nodup_cons.mpr ⟨hfresh, hnodup⟩
      · intro x hx
        rcases List.mem_cons.mp hx with rfl | hx
        · exact hm
        · exact fun hseen => hnew x hx (List.mem_cons_of_mem _ hseen)
      · rcases hn with hn | hn
        · exact .inl (List.mem_cons_of_mem _ hn)
        · rcases List.mem_cons.mp hn with rfl | hn
          · exact .inl List.mem_cons_self
          · exact .inr hn

/-- What an entry of some name describes refers to a target that no component has for its name. -/
def Dangling (d : Document) (schema target : String) : Prop :=
  ∃ subject ∈ d.subjects, subject.name = schema ∧ subject.RefersTo target ∧
    target ∉ d.componentNames

/-- A fault is the first repeated name, or else a reference that leads nowhere. -/
theorem fault?_eq_some {d : Document} {catalog : List NamedSchema} {f : GenerationFault}
    (h : entries d = .ok catalog) (hf : fault? d.componentNames catalog = some f) :
    (∃ n, f = .duplicateSchema n ∧ FirstRepeat d.entryNames n) ∨
    ∃ schema target, f = .undeclared schema target ∧ d.entryNames.Nodup ∧
      Dangling d schema target := by
  rw [fault?, names_eq_entryNames h] at hf
  cases hrepeat : firstRepeated? [] d.entryNames with
  | some n =>
    rw [hrepeat] at hf
    cases hf
    obtain ⟨before, after, hnames, hnodup, _, hn⟩ := firstRepeated?_eq_some hrepeat
    exact .inl ⟨n, rfl, before, after, hnames, hnodup, hn.resolve_right List.not_mem_nil⟩
  | none =>
    rw [hrepeat] at hf
    obtain ⟨s, hs, hdangling⟩ := List.exists_of_findSome?_eq_some hf
    obtain ⟨target, htarget, rfl⟩ := Option.map_eq_some_iff.mp hdangling
    obtain ⟨subject, hsubject, hds⟩ := exists_left_of_forall₂ (entries_describe h) hs
    have hmentions := Validator.Expr.mem_refs_iff_mentions.mp (List.mem_of_find?_eq_some htarget)
    have hrefers := (Subject.mentions_iff hds).mp hmentions
    have hout : target ∉ d.componentNames := by simpa using List.find?_some htarget
    have hnodup := (firstRepeated?_eq_none.mp hrepeat).1
    exact .inr ⟨s.name, target, rfl, hnodup, subject, hsubject, hds.name.symm, hrefers, hout⟩

theorem outcome_ofDocument (d : Document) : (ofDocument d).outcome = build d := by
  rw [ofDocument, Traced.outcome_bind, Traced.outcome_ofExcept]
  cases build d <;> rfl

theorem build_eq_error_iff {d : Document} {catalog : List NamedSchema}
    (h : entries d = .ok catalog) {i : Issue} :
    build d = .error i ↔ ∃ f, i = .generation f ∧ fault? d.componentNames catalog = some f := by
  cases hf : fault? d.componentNames catalog with
  | some f => simp [build, h, hf, bind, Except.bind, eq_comm]
  | none => simp [build, h, hf, bind, Except.bind, pure, Except.pure]

/-- Building fails at the names, or at what is referred to. -/
theorem build_fails_iff {d : Document} {catalog : List NamedSchema} (h : entries d = .ok catalog) :
    (∃ f, build d = .error (.generation f)) ↔
      ¬ d.entryNames.Nodup ∨ ∃ t, d.RefersTo t ∧ t ∉ d.componentNames := by
  have hfault : (∃ f, build d = .error (.generation f)) ↔ fault? d.componentNames catalog ≠ none := by
    simp [build_eq_error_iff h, Option.ne_none_iff_exists']
  have hclosed : (∀ s ∈ catalog, ∀ t ∈ s.expr.refs, t ∈ d.componentNames) ↔
      ∀ t, d.RefersTo t → t ∈ d.componentNames := by
    simp only [← exists_mentions_iff h, Validator.Expr.mem_refs_iff_mentions]
    exact ⟨fun hall t ⟨s, hs, hm⟩ => hall s hs t hm, fun hall s hs t hm => hall t ⟨s, hs, hm⟩⟩
  rw [hfault, Ne, fault?_eq_none, names_eq_entryNames h, hclosed, not_and_or]
  simp only [not_forall, exists_prop]

/-- A reference node of an entry of a catalog that was built names a component of it, and is written
with the constant of that component. -/
theorem Built.text_lazy {d : Document} {catalog : List NamedSchema} (h : Built d catalog)
    {s : NamedSchema} (hs : s ∈ catalog) {e : Validator.Expr} (he : e.Within s.expr)
    (hkind : e.kind = .lazy) : ∃ c ∈ catalog, isComponent c = true ∧ e.ref = some c.name ∧
      ∀ style depth, e.text style depth = (Validator.chainText style e.checks).map
        ("z.lazy(() => " ++ Naming.const c.name ++ ")" ++ ·) := by
  obtain ⟨subject, _, hdescribes⟩ := exists_left_of_forall₂ (entries_describe h.entries) hs
  obtain ⟨t, ht⟩ := Subject.linked hdescribes e he hkind
  have hmentions := Validator.Expr.mem_refs_iff_mentions.mpr (he.mentions ht)
  obtain ⟨c, hc, rfl⟩ := List.mem_map.mp (h.closed s hs t hmentions)
  obtain ⟨components, hcomponents, hrest⟩ := bind_eq_ok.mp h.entries
  obtain ⟨entry, _, hentry⟩ := exists_right_of_forall₂ (mapM_eq_ok.mp hcomponents) hc
  have hmem : entry ∈ catalog := h.mem_iff.mpr (.inl ⟨c, hc, hentry⟩)
  obtain ⟨e', _, rfl⟩ := componentEntry_eq_ok.mp hentry
  exact ⟨_, hmem, rfl, ht, Validator.Expr.text_lazy hkind ht⟩

/-- A document whose schemas all have validators fails to give a catalog exactly if two names
coincide or a reference leads out of the components. The first repeated name goes before any
reference. A catalog that is built lists the components as declared and then the slots of each
operation, and its references are all written with constants of its components. -/
theorem ofDocument_fails_iff (d : Document) (h : d.Translatable) :
    ((∃ f, (ofDocument d).outcome = .error (.generation f)) ↔
      ¬ d.entryNames.Nodup ∨ ∃ t, d.RefersTo t ∧ t ∉ d.componentNames) ∧
    (∀ i, (ofDocument d).outcome = .error i →
      (∃ n, i = .generation (.duplicateSchema n) ∧ FirstRepeat d.entryNames n) ∨
      ∃ schema target, i = .generation (.undeclared schema target) ∧ d.entryNames.Nodup ∧
        Dangling d schema target) ∧
    ∀ catalog, (ofDocument d).outcome = .ok catalog →
      List.Forall₂ Subject.Describes d.subjects catalog ∧
      ∀ s ∈ catalog, ∀ e : Validator.Expr, e.Within s.expr → e.kind = .lazy →
        ∃ c ∈ catalog, isComponent c = true ∧ e.ref = some c.name ∧
          ∀ style depth, e.text style depth = (Validator.chainText style e.checks).map
            ("z.lazy(() => " ++ Naming.const c.name ++ ")" ++ ·) := by
  obtain ⟨entries, hentries⟩ := exists_entries h
  rw [outcome_ofDocument]
  refine ⟨build_fails_iff hentries, ?_, ?_⟩
  · intro i hi
    obtain ⟨f, rfl, hf⟩ := (build_eq_error_iff hentries).mp hi
    rcases fault?_eq_some hentries hf with ⟨n, rfl, hn⟩ | ⟨schema, target, rfl, hdangling⟩
    · exact .inl ⟨n, rfl, hn⟩
    · exact .inr ⟨schema, target, rfl, hdangling⟩
  · intro catalog hcatalog
    have hb := build_eq_ok.mp hcatalog
    exact ⟨entries_describe hb.entries, fun s hs e he hkind => hb.text_lazy hs he hkind⟩

/-- A component has the name of the query of an operation, and an item of a property leads out of the
components. -/
def clashingDocument : Document where
  servers := []
  schemas := [
    ("Pet", .object .none [("owners", .array .none (.ref .none "Owner") none none)] []),
    ("GetPetsQueryParams", .boolean .none)]
  operations := [
    { method := "get"
      path := "/pets"
      requestBody := none
      response := none
      parameters := [⟨"like", .query, .ref .none "Pet", false, false, none, none⟩]
      summary := none
      description := none }]

/-- The repeated name is reported, and not the reference in an earlier entry. -/
theorem ofDocument_fails_iff_clashing :
    clashingDocument.Translatable ∧ clashingDocument.RefersTo "Owner" ∧
      "Owner" ∉ clashingDocument.componentNames ∧
      (∃ f, (ofDocument clashingDocument).outcome = .error (.generation f)) ∧
      FirstRepeat clashingDocument.entryNames "GetPetsQueryParams" ∧
      List.Forall₂ Subject.Describes Declaration.petDocument.subjects Declaration.petCatalog := by
  have hclashing : clashingDocument.Translatable := translatable_iff.mpr ⟨_, rfl⟩
  obtain ⟨hfails, hreported, _⟩ := ofDocument_fails_iff clashingDocument hclashing
  have hnames : ¬ clashingDocument.entryNames.Nodup := by decide
  have howner : clashingDocument.RefersTo "Owner" :=
    .inl ⟨_, List.mem_cons_self, .property List.mem_cons_self (.item .here)⟩
  have hfirst : FirstRepeat clashingDocument.entryNames "GetPetsQueryParams" := by
    rcases hreported (.generation (.duplicateSchema "GetPetsQueryParams")) rfl with
      ⟨n, hn, hfirst⟩ | ⟨_, _, hn, _⟩
    · cases hn
      exact hfirst
    · cases hn
  -- A document without faults beside it.
  have hpet : Declaration.petDocument.Translatable := translatable_iff.mpr ⟨_, rfl⟩
  obtain ⟨_, _, hlisted⟩ := ofDocument_fails_iff Declaration.petDocument hpet
  exact ⟨hclashing, howner, by decide, hfails.mpr (.inl hnames), hfirst, (hlisted _ rfl).1⟩

end Catalog

end ApiContract

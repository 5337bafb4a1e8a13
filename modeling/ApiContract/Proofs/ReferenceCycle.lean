import ApiContract.Proofs.Pipeline
import Mathlib.Algebra.Order.BigOperators.Group.List
import Mathlib.Algebra.Order.Ring.Nat
import Mathlib.Logic.Relation

/-!
The search for components on a reference cycle finds exactly those that reach themselves along
references, and it always comes to an end. So the components whose types are left to inference have
no cycle among them.
-/

namespace ApiContract.Validator.Expr

/-- A target is mentioned by an expression if a node of it, at whatever depth, refers to it. -/
inductive Mentions : Expr → String → Prop
  | here {e : Expr} {t : String} : e.ref = some t → Mentions e t
  | item {e i : Expr} {t : String} : e.item = some i → Mentions i t → Mentions e t
  | property {e p : Expr} {key t : String} :
      (key, p) ∈ e.properties → Mentions p t → Mentions e t

theorem mem_propertyRefs {properties : List (String × Expr)} {t : String} :
    t ∈ propertyRefs properties ↔ ∃ key p, (key, p) ∈ properties ∧ t ∈ p.refs := by
  induction properties with
  | nil => simp [propertyRefs]
  | cons property rest ih =>
    rw [propertyRefs, List.mem_append, ih]
    grind

theorem mem_refs {e : Expr} {t : String} : t ∈ e.refs ↔
    e.ref = some t ∨ (∃ i, e.item = some i ∧ t ∈ i.refs) ∨
      ∃ key p, (key, p) ∈ e.properties ∧ t ∈ p.refs := by
  obtain ⟨kind, values, item, properties, ref, checks⟩ := e
  rw [refs, List.mem_append, List.mem_append, mem_propertyRefs, or_assoc]
  cases item <;> simp [itemRefs]

mutual

theorem mentions_of_mem_refs {t : String} : ∀ e : Expr, t ∈ e.refs → e.Mentions t
  | ⟨_, _, item, properties, _, _⟩, h => by
    rw [refs, List.mem_append, List.mem_append] at h
    rcases h with (h | h) | h
    · exact .here (by simpa using h)
    · obtain ⟨i, hi, hm⟩ := mentions_of_mem_itemRefs item h
      exact .item hi hm
    · obtain ⟨key, p, hp, hm⟩ := mentions_of_mem_propertyRefs properties h
      exact .property hp hm

theorem mentions_of_mem_itemRefs {t : String} :
    ∀ item : Option Expr, t ∈ itemRefs item → ∃ i, item = some i ∧ i.Mentions t
  | none, h => by cases h
  | some i, h => ⟨i, rfl, mentions_of_mem_refs i h⟩

theorem mentions_of_mem_propertyRefs {t : String} :
    ∀ properties : List (String × Expr), t ∈ propertyRefs properties →
      ∃ key p, (key, p) ∈ properties ∧ p.Mentions t
  | [], h => by cases h
  | (key, p) :: rest, h => by
    rw [propertyRefs, List.mem_append] at h
    rcases h with h | h
    · exact ⟨key, p, List.mem_cons_self, mentions_of_mem_refs p h⟩
    · obtain ⟨key', p', hp, hm⟩ := mentions_of_mem_propertyRefs rest h
      exact ⟨key', p', List.mem_cons_of_mem _ hp, hm⟩

end

/-- The listed references are those at any depth. -/
theorem mem_refs_iff_mentions {e : Expr} {t : String} : t ∈ e.refs ↔ e.Mentions t := by
  refine ⟨mentions_of_mem_refs e, fun h => ?_⟩
  induction h with
  | here h => exact mem_refs.mpr (.inl h)
  | item hi _ ih => exact mem_refs.mpr (.inr (.inl ⟨_, hi, ih⟩))
  | property hp _ ih => exact mem_refs.mpr (.inr (.inr ⟨_, _, hp, ih⟩))

end ApiContract.Validator.Expr

namespace ApiContract.Catalog

open Relation (TransGen)

/-! ## The search -/

section Search

variable {next : String → List String} {goal : String}

/-- The edges a search follows. -/
def Leads (next : String → List String) (a b : String) : Prop := b ∈ next a

/-- What holds of a search whenever it looks at its stack: it holds only names reached from the
goal, and what the expanded names lead to is expanded too or still on the stack. -/
structure Frontier (next : String → List String) (goal : String)
    (visited stack : List String) : Prop where
  reached : ∀ n ∈ stack, TransGen (Leads next) goal n
  unfound : goal ∉ visited
  started : ∀ t ∈ next goal, t ∈ visited ∨ t ∈ stack
  closed : ∀ n ∈ visited, ∀ t ∈ next n, t ∈ visited ∨ t ∈ stack

theorem Frontier.init : Frontier next goal [] (next goal) where
  reached _ hn := .single hn
  unfound := List.not_mem_nil
  started _ ht := .inr ht
  closed _ hn := by cases hn

/-- A name that was expanded before is dropped. -/
theorem Frontier.skip {visited stack : List String} {name : String}
    (h : Frontier next goal visited (name :: stack)) (hv : name ∈ visited) :
    Frontier next goal visited stack where
  reached n hn := h.reached n (List.mem_cons_of_mem _ hn)
  unfound := h.unfound
  started t ht := by grind [h.started t ht]
  closed n hn t ht := by grind [h.closed n hn t ht]

/-- A new name other than the goal makes room for what it leads to. -/
theorem Frontier.expand {visited stack : List String} {name : String}
    (h : Frontier next goal visited (name :: stack)) (hg : name ≠ goal) :
    Frontier next goal (name :: visited) (next name ++ stack) where
  reached n hn := by
    rcases List.mem_append.mp hn with hn | hn
    · exact (h.reached name List.mem_cons_self).tail hn
    · exact h.reached n (List.mem_cons_of_mem _ hn)
  unfound := by grind [h.unfound]
  started t ht := by grind [h.started t ht]
  closed n hn t ht := by
    rcases List.mem_cons.mp hn with rfl | hn
    · exact .inr (List.mem_append_left _ ht)
    · grind [h.closed n hn t ht]

/-- With nothing left on the stack the expanded names are all that the goal reaches. -/
theorem Frontier.exhausted {visited : List String} (h : Frontier next goal visited []) :
    ¬ TransGen (Leads next) goal goal := by
  have hall : ∀ n, TransGen (Leads next) goal n → n ∈ visited := by
    intro n hn
    induction hn with
    | single ht => exact (h.started _ ht).resolve_right List.not_mem_nil
    | tail _ ht ih => exact (h.closed _ ih _ ht).resolve_right List.not_mem_nil
  exact fun hg => h.unfound (hall goal hg)

/-- A search that comes to an end says whether the goal reaches itself. -/
theorem search_eq_some {fuel : Nat} {visited stack : List String} {found : Bool}
    (h : Frontier next goal visited stack)
    (hs : search next goal fuel visited stack = some found) :
    found = true ↔ TransGen (Leads next) goal goal := by
  induction fuel generalizing visited stack with
  | zero => cases hs
  | succ fuel ih =>
    cases stack with
    | nil =>
      cases hs
      exact iff_of_false Bool.false_ne_true h.exhausted
    | cons name stack =>
      rw [search] at hs
      by_cases hg : name = goal
      · rw [if_pos (by simpa using hg)] at hs
        cases hs
        exact iff_of_true rfl (hg ▸ h.reached name List.mem_cons_self)
      · rw [if_neg (by simpa using hg)] at hs
        by_cases hv : name ∈ visited
        · rw [if_pos (by simpa using hv)] at hs
          exact ih (h.skip hv) hs
        · rw [if_neg (by simpa using hv)] at hs
          exact ih (h.expand hg) hs

/-- How many names the expansion of `nodes` can still put on the stack. -/
def pending (next : String → List String) (nodes visited : List String) : Nat :=
  ((nodes.filter (!visited.contains ·)).map fun n => (next n).length).sum

theorem pending_cons (next : String → List String) (n : String) (nodes visited : List String) :
    pending next (n :: nodes) visited =
      (if n ∈ visited then 0 else (next n).length) + pending next nodes visited := by
  by_cases hn : n ∈ visited <;> simp [pending, hn]

theorem pending_le (next : String → List String) (nodes visited : List String) (name : String) :
    pending next nodes (name :: visited) ≤ pending next nodes visited := by
  induction nodes with
  | nil => rfl
  | cons n nodes ih =>
    rw [pending_cons, pending_cons]
    by_cases hn : n ∈ visited
    · rw [if_pos hn, if_pos (List.mem_cons_of_mem _ hn)]; omega
    · rw [if_neg hn]; split <;> omega

/-- What an expansion puts on the stack is no longer pending. -/
theorem pending_expand (next : String → List String) {nodes visited : List String}
    {name : String} (hn : name ∈ nodes)
    (hv : name ∉ visited) :
    (next name).length + pending next nodes (name :: visited) ≤ pending next nodes visited := by
  induction nodes with
  | nil => cases hn
  | cons n nodes ih =>
    rw [pending_cons, pending_cons]
    by_cases heq : n = name
    · subst heq
      have hle := pending_le next nodes visited n
      rw [if_pos List.mem_cons_self, if_neg hv]
      omega
    · have hrest := ih (by grind)
      have hsame : n ∈ name :: visited ↔ n ∈ visited := by simp [heq]
      simp only [hsame]
      omega

/-- Each step takes one name off the stack, and only an expansion puts new ones on it. -/
theorem search_terminates (nodes : List String) (hnodes : ∀ n, next n ≠ [] → n ∈ nodes)
    {fuel : Nat} {visited stack : List String}
    (hf : stack.length + pending next nodes visited < fuel) :
    ∃ found, search next goal fuel visited stack = some found := by
  induction fuel generalizing visited stack with
  | zero => omega
  | succ fuel ih =>
    cases stack with
    | nil => exact ⟨false, rfl⟩
    | cons name stack =>
      rw [List.length_cons] at hf
      rw [search]
      split
      · exact ⟨true, rfl⟩
      split
      · exact ih (by omega)
      · rename_i hv
        apply ih
        rw [List.length_append]
        by_cases hname : next name = []
        · have hle := pending_le next nodes visited name
          rw [hname, List.length_nil]
          omega
        · have hle := pending_expand next (hnodes name hname) (by simpa using hv)
          omega

end Search

/-! ## The reference graph of a catalog -/

/-- The edges of the reference graph go from a component to what its expression mentions. -/
def Refers (catalog : List NamedSchema) (a b : String) : Prop :=
  ∃ s ∈ catalog, isComponent s = true ∧ s.name = a ∧ s.expr.Mentions b

section Graph

variable {catalog : List NamedSchema}

/-- No two components of a catalog share a name. -/
def DistinctComponents (catalog : List NamedSchema) : Prop :=
  (names (catalog.filter isComponent)).Nodup

theorem targets_of_mem (h : DistinctComponents catalog) {s : NamedSchema} (hs : s ∈ catalog)
    (hc : isComponent s = true) : targets catalog s.name = s.expr.refs := by
  unfold targets
  split
  · rename_i t ht
    have htc := List.find?_some ht
    simp only [Bool.and_eq_true, beq_iff_eq] at htc
    have hmem := List.mem_filter.mpr ⟨List.mem_of_find?_eq_some ht, htc.1⟩
    have heq := List.inj_on_of_nodup_map h hmem (List.mem_filter.mpr ⟨hs, hc⟩) htc.2
    rw [heq]
  · rename_i hnone
    have hno := List.find?_eq_none.mp hnone s hs
    simp [hc] at hno

theorem exists_of_mem_targets {a b : String} (hb : b ∈ targets catalog a) :
    ∃ s ∈ catalog, isComponent s = true ∧ s.name = a ∧ b ∈ s.expr.refs := by
  unfold targets at hb
  split at hb
  · rename_i s hs
    have hsc := List.find?_some hs
    simp only [Bool.and_eq_true, beq_iff_eq] at hsc
    exact ⟨s, List.mem_of_find?_eq_some hs, hsc.1, hsc.2, hb⟩
  · cases hb

theorem leads_targets (h : DistinctComponents catalog) :
    Leads (targets catalog) = Refers catalog := by
  funext a b
  refine propext ⟨fun hb => ?_, ?_⟩
  · obtain ⟨s, hs, hc, ha, hb⟩ := exists_of_mem_targets hb
    exact ⟨s, hs, hc, ha, Validator.Expr.mem_refs_iff_mentions.mp hb⟩
  · rintro ⟨s, hs, hc, rfl, hm⟩
    change b ∈ targets catalog s.name
    rw [targets_of_mem h hs hc]
    exact Validator.Expr.mem_refs_iff_mentions.mpr hm

theorem referenceCount_eq (catalog : List NamedSchema) :
    referenceCount catalog = (catalog.map fun s => s.expr.refs.length).sum := by
  unfold referenceCount
  induction catalog with
  | nil => rfl
  | cons s rest ih => rw [List.foldr_cons, List.map_cons, List.sum_cons, ih]

theorem length_targets_le (name : String) :
    (targets catalog name).length ≤ referenceCount catalog := by
  rw [referenceCount_eq]
  unfold targets
  split
  · rename_i s hs
    have hs := List.mem_of_find?_eq_some hs
    exact List.single_le_sum (by simp) _ (List.mem_map_of_mem hs)
  · exact Nat.zero_le _

theorem pending_targets_le (h : DistinctComponents catalog) :
    pending (targets catalog) (names (catalog.filter isComponent)) [] ≤ referenceCount catalog := by
  have heq : (names (catalog.filter isComponent)).map (fun n => (targets catalog n).length) =
      (catalog.filter isComponent).map fun s => s.expr.refs.length := by
    rw [names, List.map_map]
    refine List.map_congr_left fun s hs => ?_
    obtain ⟨hs, hc⟩ := List.mem_filter.mp hs
    simp [targets_of_mem h hs hc]
  have hsub := (List.filter_sublist (l := catalog) (p := isComponent)).map
    fun s => s.expr.refs.length
  simp only [pending, List.contains_nil, Bool.not_false, List.filter_true, heq, referenceCount_eq]
  exact hsub.sum_le_sum (by simp)

/-- The steps suffice for every search in a catalog. -/
theorem searchFrom_terminates (h : DistinctComponents catalog) (name : String) :
    ∃ found, searchFrom catalog name = some found := by
  apply search_terminates (names (catalog.filter isComponent))
  · intro n hn
    obtain ⟨b, hb⟩ := List.exists_mem_of_ne_nil _ hn
    obtain ⟨s, hs, hc, rfl, _⟩ := exists_of_mem_targets hb
    exact List.mem_map_of_mem (List.mem_filter.mpr ⟨hs, hc⟩)
  · have hstack := @length_targets_le catalog name
    have hpending := pending_targets_le h
    rw [stepBound]
    omega

theorem isRecursive_iff (h : DistinctComponents catalog) {name : String} :
    isRecursive catalog name = true ↔ TransGen (Refers catalog) name name := by
  obtain ⟨found, hf⟩ := searchFrom_terminates h name
  have hfound := search_eq_some Frontier.init hf
  rw [leads_targets h] at hfound
  rw [isRecursive, hf, ← hfound]
  simp

/-- The recursive components are the names that lie on a cycle. -/
theorem mem_recursiveComponents (h : DistinctComponents catalog) {name : String} :
    name ∈ recursiveComponents catalog ↔ TransGen (Refers catalog) name name := by
  rw [recursiveComponents, List.mem_filter, isRecursive_iff h, and_iff_right_iff_imp]
  intro hcycle
  obtain ⟨_, ⟨s, hs, hc, rfl, _⟩, _⟩ := Relation.TransGen.head'_iff.mp hcycle
  exact List.mem_map_of_mem (List.mem_filter.mpr ⟨hs, hc⟩)

end Graph

/-! ## Components whose types are inferred -/

/-- A component whose type is left to inference: it is written without an annotation. -/
def Inferred (content : Module.Content) (name : String) : Prop :=
  ∃ t ∈ content.schemas, t.name = name ∧ t.annotation = none

/-- The names of components are among those of a catalog that names nothing twice. -/
theorem distinctComponents_of_nodup {catalog : List NamedSchema} (h : (names catalog).Nodup) :
    DistinctComponents catalog :=
  h.sublist (List.filter_sublist.map _)

theorem not_recursive_of_inferred {mark : Text.QuoteMark} {catalog : List NamedSchema}
    {content : Module.Content} (h : Generation.schemaTexts mark catalog = .ok content.schemas)
    {name : String} (hi : Inferred content name) : name ∉ recursiveComponents catalog := by
  obtain ⟨t, ht, rfl, hnone⟩ := hi
  obtain ⟨s, _, hs⟩ := exists_left_of_forall₂ (Generation.schemaTexts_forall₂ h) ht
  obtain ⟨hname, hannotated, _⟩ := Generation.schemaText_eq_ok hs
  intro hr
  rw [hname] at hr
  rw [(hannotated hr).1] at hnone
  cases hnone

/-- The references between components whose types are inferred. -/
def InferredRefers (catalog : List NamedSchema) (content : Module.Content) (a b : String) : Prop :=
  Refers catalog a b ∧ Inferred content a ∧ Inferred content b

/-- A catalog whose components have distinct names is searched to the end, and its recursive
components are exactly those that reach themselves. So in every module that is generated, the
components without an annotation refer to each other without a cycle. -/
theorem recursiveComponents_exact :
    (∀ catalog, DistinctComponents catalog →
      (∀ name, ∃ found, searchFrom catalog name = some found) ∧
      ∀ name, name ∈ recursiveComponents catalog ↔ TransGen (Refers catalog) name name) ∧
    ∀ source options selection content,
      (Generation.content source options selection).outcome = .ok content →
      ∃ document catalog, (Generation.normalize source).outcome = .ok document ∧
        build document = .ok catalog ∧ content.schemas.map (·.name) = names catalog ∧
        ∀ name, ¬ TransGen (InferredRefers catalog content) name name := by
  refine ⟨fun catalog h => ⟨searchFrom_terminates h, fun _ => mem_recursiveComponents h⟩, ?_⟩
  intro source options selection content h
  obtain ⟨document, catalog, hd, hb, _, hs⟩ := Generation.content_eq_ok.mp h
  refine ⟨document, catalog, hd, hb, Generation.schemaTexts_names hs, fun name hcycle => ?_⟩
  have hdistinct := distinctComponents_of_nodup (build_eq_ok.mp hb).nodup
  have hall : TransGen (Refers catalog) name name :=
    hcycle.lift id fun _ _ hab => hab.1
  obtain ⟨_, ⟨_, hi, _⟩, _⟩ := TransGen.head'_iff.mp hcycle
  exact not_recursive_of_inferred hs hi ((mem_recursiveComponents hdistinct).mpr hall)

/-- A ring of two that is entered from outside, and a component that refers to itself. -/
def ringDocument : Document where
  servers := []
  schemas := [
    ("Entry", .ref .none "Left"),
    ("Left", .object .none [("right", .ref .none "Right"), ("other", .ref .none "Right")] []),
    ("Right", .array .none (.ref .none "Left") none none),
    ("Tree", .array .none (.object .none [("child", .ref .none "Tree")] []) none none),
    ("Leaf", .string .none none none none none)]
  operations := []

/-- The entries of `ringDocument`. -/
def ringCatalog : List NamedSchema := ((build ringDocument).toOption).getD []

theorem recursiveComponents_ring :
    DistinctComponents ringCatalog ∧ TransGen (Refers ringCatalog) "Left" "Left" ∧
      ¬ TransGen (Refers ringCatalog) "Entry" "Entry" ∧
      ∃ content, (Generation.content (.normalized ringDocument) .standard .everything).outcome =
        .ok content ∧ ¬ TransGen (InferredRefers ringCatalog content) "Entry" "Entry" := by
  have hdistinct : DistinctComponents ringCatalog := by unfold DistinctComponents; decide
  have hexact := (recursiveComponents_exact.1 ringCatalog hdistinct).2
  refine ⟨hdistinct, (hexact "Left").mp (by decide), fun h => ?_, _, rfl, fun h => ?_⟩
  · exact absurd ((hexact "Entry").mpr h) (by decide)
  · obtain ⟨document, catalog, hd, hb, _, hfree⟩ := recursiveComponents_exact.2
      (.normalized ringDocument) .standard .everything _ rfl
    cases hd
    have hcatalog : build ringDocument = .ok ringCatalog := rfl
    rw [hcatalog] at hb
    cases hb
    exact hfree "Entry" h

end ApiContract.Catalog

import ApiContract.Issue
import ApiContract.Proofs.Outcome

/-!
Runs that stop at misfits: values that a step has neither a rule nor a wording for. A step is
described by when it stops at one, where whatever else stops it is reported; steps in a row are
described by their parts, and walks along a list by the first member that does not pass.
-/

namespace ApiContract

variable {α β : Type}

/-- A fault of a description, which is reported in words of its own. -/
def Issue.IsReported : Issue → Prop
  | .document _ => True
  | .schema _ => True
  | _ => False

/-- A run stops at a misfit exactly if `S` holds, and whatever else stops it is reported. -/
structure StumblesIff (S : Prop) (x : Except Issue α) : Prop where
  only : ∀ kind, x = .error (.misfit kind) → S
  stops : S → ∃ kind, x = .error (.misfit kind)
  reported : ∀ i, x = .error i → i.IsReported ∨ ∃ kind, i = .misfit kind

/-- A run that stops at no misfit. -/
abbrev Steady (x : Except Issue α) : Prop := StumblesIff False x

namespace StumblesIff

variable {S S' : Prop}

theorem ok (a : α) : Steady (.ok a) := ⟨nofun, False.elim, nofun⟩

theorem fault {i : Issue} (h : i.IsReported) : Steady (.error i : Except Issue α) := by
  refine ⟨?_, False.elim, ?_⟩
  · rintro kind hi
    cases hi
    exact h
  · rintro _ ⟨⟩
    exact .inl h

theorem schema (f : SchemaFault) : Steady (.error (.schema f) : Except Issue α) := fault trivial

theorem document (f : DocumentFault) : Steady (.error (.document f) : Except Issue α) :=
  fault trivial

theorem misfit (kind : Misfit) : StumblesIff True (.error (.misfit kind) : Except Issue α) := by
  refine ⟨fun _ _ => trivial, fun _ => ⟨kind, rfl⟩, ?_⟩
  rintro _ ⟨⟩
  exact .inr ⟨kind, rfl⟩

theorem congr {x : Except Issue α} (h : StumblesIff S x) (hS : S ↔ S') : StumblesIff S' x :=
  ⟨fun kind hx => hS.mp (h.only kind hx), fun hs => h.stops (hS.mpr hs), h.reported⟩

/-- Of two steps the second one is taken if the first one succeeds. -/
theorem bind {x : Except Issue α} {f : α → Except Issue β} {T : α → Prop} (hx : StumblesIff S x)
    (hf : ∀ a, x = .ok a → StumblesIff (T a) (f a)) :
    StumblesIff (S ∨ ∃ a, x = .ok a ∧ T a) (x >>= f) := by
  cases x with
  | error i =>
    have hstop : (Except.error i >>= f) = .error i := rfl
    rw [hstop]
    constructor
    · intro kind hi
      cases hi
      exact .inl (hx.only kind rfl)
    · intro h
      rcases h with h | ⟨a, ha, _⟩
      · obtain ⟨kind, hi⟩ := hx.stops h
        cases hi
        exact ⟨kind, rfl⟩
      · cases ha
    · intro j hj
      cases hj
      exact hx.reported i rfl
  | ok a =>
    have hgoes : (Except.ok a >>= f) = f a := rfl
    rw [hgoes]
    refine (hf a rfl).congr ⟨fun h => .inr ⟨a, rfl, h⟩, fun h => ?_⟩
    rcases h with h | ⟨b, hb, h⟩
    · obtain ⟨kind, hx⟩ := hx.stops h
      cases hx
    · cases hb
      exact h

/-- The second step makes no difference if it stops at no misfit. -/
theorem bind_steady {x : Except Issue α} {f : α → Except Issue β} (hx : StumblesIff S x)
    (hf : ∀ a, x = .ok a → Steady (f a)) : StumblesIff S (x >>= f) :=
  (hx.bind hf).congr ⟨fun h => h.resolve_right fun ⟨_, _, hfalse⟩ => hfalse, .inl⟩

theorem map {x : Except Issue α} (h : StumblesIff S x) (f : α → β) : StumblesIff S (x.map f) := by
  have hmap : x.map f = x >>= fun a => .ok (f a) := by cases x <;> rfl
  rw [hmap]
  exact h.bind_steady fun _ _ => .ok _

/-- The same with entries written on the way. -/
theorem trace {x : Traced α} {f : α → Traced β} {T : α → Prop} (hx : StumblesIff S x.outcome)
    (hf : ∀ a, x.outcome = .ok a → StumblesIff (T a) (f a).outcome) :
    StumblesIff (S ∨ ∃ a, x.outcome = .ok a ∧ T a) (x >>= f).outcome := by
  rw [Traced.outcome_bind]
  exact hx.bind hf

theorem trace_steady {x : Traced α} {f : α → Traced β} (hx : StumblesIff S x.outcome)
    (hf : ∀ a, x.outcome = .ok a → Steady (f a).outcome) : StumblesIff S (x >>= f).outcome := by
  rw [Traced.outcome_bind]
  exact hx.bind_steady hf

/-- The same for a first step that may find nothing to go on with. -/
theorem trace_option {x : Except Issue (Option α)} {f : Option α → Traced β} {T : α → Prop}
    (hx : StumblesIff S x) (hnone : Steady (f none).outcome)
    (hsome : ∀ a, x = .ok (some a) → StumblesIff (T a) (f (some a)).outcome) :
    StumblesIff (S ∨ ∃ a, x = .ok (some a) ∧ T a) (Traced.ofExcept x >>= f).outcome := by
  rw [Traced.outcome_bind, Traced.outcome_ofExcept]
  refine (hx.bind (T := fun found => ∃ a, found = some a ∧ T a) fun found hfound => ?_).congr ?_
  · cases found with
    | none => exact hnone.congr (by simp)
    | some a => exact (hsome a hfound).congr (by simp)
  · simp

end StumblesIff

/-- A run gives something, or it reports a fault of the description or of a schema. -/
def Answers (x : Except Issue α) : Prop :=
  (∃ a, x = .ok a) ∨ (∃ fault, x = .error (.document fault)) ∨ ∃ fault, x = .error (.schema fault)

theorem not_answers_iff {x : Except Issue α} {S : Prop} (h : StumblesIff S x) :
    ¬ Answers x ↔ ∃ kind, x = .error (.misfit kind) := by
  constructor
  · intro hno
    cases x with
    | ok a => exact (hno (.inl ⟨a, rfl⟩)).elim
    | error i =>
      rcases h.reported i rfl with hi | ⟨kind, rfl⟩
      · cases i with
        | document fault => exact (hno (.inr (.inl ⟨fault, rfl⟩))).elim
        | schema fault => exact (hno (.inr (.inr ⟨fault, rfl⟩))).elim
        | _ => exact hi.elim
      · exact ⟨kind, rfl⟩
  · rintro ⟨kind, rfl⟩ (⟨_, ha⟩ | ⟨_, hf⟩ | ⟨_, hf⟩)
    · cases ha
    · cases hf
    · cases hf

/-- A walk along a list stops at the first step that fails, those before it passing. -/
def FirstFails (passes fails : α → Prop) (xs : List α) : Prop :=
  ∃ before x after, xs = before ++ x :: after ∧ (∀ y ∈ before, passes y) ∧ fails x

section FirstFails

variable {passes fails : α → Prop}

theorem firstFails_nil : ¬ FirstFails passes fails [] := by
  rintro ⟨before, x, after, h, _⟩
  simp at h

theorem firstFails_cons {x : α} {xs : List α} : FirstFails passes fails (x :: xs) ↔
    fails x ∨ passes x ∧ FirstFails passes fails xs := by
  constructor
  · rintro ⟨before, y, after, h, hbefore, hy⟩
    cases before with
    | nil =>
      cases h
      exact .inl hy
    | cons z before =>
      cases h
      exact .inr ⟨hbefore _ List.mem_cons_self,
        before, y, after, rfl, fun w hw => hbefore w (List.mem_cons_of_mem _ hw), hy⟩
  · intro h
    rcases h with hx | ⟨hx, before, y, after, rfl, hbefore, hy⟩
    · exact ⟨[], x, xs, rfl, List.forall_mem_nil _, hx⟩
    · exact ⟨x :: before, y, after, rfl, List.forall_mem_cons.mpr ⟨hx, hbefore⟩, hy⟩

end FirstFails

/-! ## Values -/

namespace Value

theorem present?_eq_some {given : Option Value} {v : Value} :
    present? given = some v ↔ given = some v ∧ v.truthy = true := by
  cases given with
  | none => simp [present?]
  | some w =>
    by_cases h : w.truthy = true
    · simp [present?, h]
      grind
    · simp [present?, h]
      grind

theorem present?_eq_none {given : Option Value} :
    present? given = none ↔ ∀ v, given = some v → v.truthy = false := by
  cases given with
  | none => simp [present?]
  | some w => by_cases h : w.truthy = true <;> simp [present?, h]

/-- A section is left out, or it is a mapping. -/
def Mapped (given : Option Value) : Prop :=
  ∀ v, present? given = some v → ∃ members knot, v = .map members knot

theorem mapped_of_get? {given : Option Value} {members : Members} {knot : Nat}
    (h : given = some (.map members knot)) : Mapped given := by
  intro v hv
  obtain ⟨hget, _⟩ := present?_eq_some.mp hv
  rw [h] at hget
  cases hget
  exact ⟨members, knot, rfl⟩

end Value

theorem Value.spelled_stumbles (v : Value) : StumblesIff (v.hasSpelling = false) v.spelled := by
  rw [Value.spelled]
  split
  next h => exact (StumblesIff.ok _).congr (by simp [h])
  next h => exact (StumblesIff.misfit _).congr (by simpa using h)

theorem Value.spelledPlain_stumbles (v : Value) :
    StumblesIff (v.hasSpelling = false) v.spelledPlain := by
  rw [Value.spelledPlain]
  split
  next h => exact (StumblesIff.ok _).congr (by simp [h])
  next h => exact (StumblesIff.misfit _).congr (by simpa using h)

theorem Scalar.spelledPlain_stumbles (s : Scalar) :
    StumblesIff (s.hasSpelling = false) s.spelledPlain := by
  rw [Scalar.spelledPlain]
  split
  next h => exact (StumblesIff.ok _).congr (by simp [h])
  next h => exact (StumblesIff.misfit _).congr (by simpa using h)

theorem Value.spelledPlain_eq_ok {v : Value} {text : String} :
    v.spelledPlain = .ok text ↔ v.hasSpelling = true ∧ v.plain = text := by
  rw [Value.spelledPlain]
  split <;> simp_all

theorem Scalar.spelledPlain_eq_ok {s : Scalar} {text : String} :
    s.spelledPlain = .ok text ↔ s.hasSpelling = true ∧ s.plain = text := by
  rw [Scalar.spelledPlain]
  split <;> simp_all

end ApiContract

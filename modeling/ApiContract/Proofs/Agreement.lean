import ApiContract.Proofs.Outcome
import Mathlib.Data.List.Perm.Basic

/-!
Runs that agree: both give a result, and the results are related, or both fail, with whatever issue.
Along lists, runs agree if they do so member by member; and steps that do not depend on each other
may be taken in any order. Where only the success of the one run is known, its result carries over
to the other.
-/

namespace ApiContract

variable {ε ε' α β γ δ : Type}

/-! ## Things that may be left out -/

section Rel

variable {R : α → β → Prop} {given : Option α} {other : Option β}

theorem rel_of_mem {S : α → β → Prop} (h : Option.Rel R given other)
    (hRS : ∀ a b, given = some a → R a b → S a b) : Option.Rel S given other := by
  cases h with
  | none => exact .none
  | some hab => exact .some (hRS _ _ rfl hab)

theorem rel_mono {S : α → β → Prop} (h : Option.Rel R given other)
    (hRS : ∀ a b, R a b → S a b) : Option.Rel S given other :=
  rel_of_mem h fun a b _ => hRS a b

theorem rel_refl {R : α → α → Prop} (hR : ∀ a, R a a) (given : Option α) :
    Option.Rel R given given := by
  cases given with
  | none => exact .none
  | some a => exact .some (hR a)

theorem eq_of_rel {given other : Option α} (h : Option.Rel Eq given other) : given = other := by
  cases h with
  | none => rfl
  | some hab => rw [hab]

theorem isSome_of_rel (h : Option.Rel R given other) : given.isSome = other.isSome := by
  cases h with
  | none => rfl
  | some _ => rfl

end Rel

/-! ## Runs -/

/-- Two runs agree on whether they give a result, and on what they give up to a relation. -/
inductive Agree (R : α → β → Prop) : Except ε α → Except ε' β → Prop
  | ok {a : α} {b : β} : R a b → Agree R (.ok a) (.ok b)
  | error {i : ε} {j : ε'} : Agree R (.error i) (.error j)

namespace Agree

variable {R : α → β → Prop} {x : Except ε α} {y : Except ε' β}

theorem exists_right (h : Agree R x y) {a : α} (hx : x = .ok a) : ∃ b, y = .ok b ∧ R a b := by
  cases h with
  | ok hab =>
    cases hx
    exact ⟨_, rfl, hab⟩
  | error => cases hx

theorem exists_left (h : Agree R x y) {b : β} (hy : y = .ok b) : ∃ a, x = .ok a ∧ R a b := by
  cases h with
  | ok hab =>
    cases hy
    exact ⟨_, rfl, hab⟩
  | error => cases hy

/-- Runs agree if a result of either comes with one of the other. -/
theorem intro (hxy : ∀ a, x = .ok a → ∃ b, y = .ok b ∧ R a b)
    (hyx : ∀ b, y = .ok b → ∃ a, x = .ok a) : Agree R x y := by
  cases hx : x with
  | ok a =>
    obtain ⟨b, rfl, hab⟩ := hxy a hx
    exact .ok hab
  | error i =>
    cases hy : y with
    | ok b =>
      obtain ⟨a, ha⟩ := hyx b hy
      rw [hx] at ha
      cases ha
    | error j => exact .error

theorem same {R : α → α → Prop} {x : Except ε α} (h : ∀ a, x = .ok a → R a a) :
    Agree R x x := by
  cases x with
  | ok a => exact .ok (h a rfl)
  | error i => exact .error

theorem of_eq {x y : Except ε α} (h : x = y) : Agree Eq x y := by
  rw [h]
  exact same fun _ _ => rfl

theorem mono {S : α → β → Prop} (h : Agree R x y) (hRS : ∀ a b, R a b → S a b) : Agree S x y := by
  cases h with
  | ok hab => exact .ok (hRS _ _ hab)
  | error => exact .error

theorem symm (h : Agree R x y) : Agree (flip R) y x := by
  cases h with
  | ok hab => exact .ok hab
  | error => exact .error

theorem trans {ε₃ : Type} {S : β → γ → Prop} {T : α → γ → Prop} {z : Except ε₃ γ} (h : Agree R x y)
    (h' : Agree S y z) (htrans : ∀ a b c, R a b → S b c → T a c) : Agree T x z := by
  cases h with
  | ok hab =>
    cases h' with
    | ok hbc => exact .ok (htrans _ _ _ hab hbc)
  | error =>
    cases h' with
    | error => exact .error

theorem bind {S : γ → δ → Prop} {f : α → Except ε γ} {g : β → Except ε' δ}
    (h : Agree R x y) (hfg : ∀ a b, R a b → Agree S (f a) (g b)) :
    Agree S (x >>= f) (y >>= g) := by
  cases h with
  | ok hab => exact hfg _ _ hab
  | error => exact .error

theorem map {S : γ → δ → Prop} {f : α → γ} {g : β → δ} (h : Agree R x y)
    (hfg : ∀ a b, R a b → S (f a) (g b)) : Agree S (x.map f) (y.map g) := by
  cases h with
  | ok hab => exact .ok (hfg _ _ hab)
  | error => exact .error

/-- The same with entries written on the way. -/
theorem trace {S : γ → δ → Prop} {x : Traced α} {y : Traced β} {f : α → Traced γ}
    {g : β → Traced δ} (h : Agree R x.outcome y.outcome)
    (hfg : ∀ a b, R a b → Agree S (f a).outcome (g b).outcome) :
    Agree S (x >>= f).outcome (y >>= g).outcome := by
  rw [Traced.outcome_bind, Traced.outcome_bind]
  exact h.bind hfg

/-- Steps that agree one by one agree along lists. -/
theorem mapM {S : γ → δ → Prop} {f : α → Except ε γ} {g : β → Except ε' δ} {xs : List α}
    {ys : List β} (h : List.Forall₂ (fun a b => Agree S (f a) (g b)) xs ys) :
    Agree (List.Forall₂ S) (xs.mapM f) (ys.mapM g) := by
  induction h with
  | nil => exact .ok .nil
  | cons hab _ ih =>
    rw [List.mapM_cons, List.mapM_cons]
    exact hab.bind fun c d hcd => ih.bind fun cs ds hrest => .ok (.cons hcd hrest)

theorem mapM_same {S : γ → δ → Prop} {f : α → Except ε γ} {g : α → Except ε' δ} {xs : List α}
    (h : ∀ x ∈ xs, Agree S (f x) (g x)) : Agree (List.Forall₂ S) (xs.mapM f) (xs.mapM g) :=
  mapM (List.forall₂_same.mpr h)

theorem mapM_eq {f : α → Except ε γ} {g : β → Except ε' γ} {xs : List α} {ys : List β}
    (h : List.Forall₂ (fun a b => Agree Eq (f a) (g b)) xs ys) :
    Agree Eq (xs.mapM f) (ys.mapM g) := by
  refine (mapM h).mono fun cs ds heq => ?_
  rwa [List.forall₂_eq_eq_eq] at heq

/-- The order of independent steps makes no difference but to the order of what they give. -/
theorem mapM_perm {f : α → Except ε β} {xs ys : List α} (h : xs.Perm ys) :
    Agree List.Perm (xs.mapM f) (ys.mapM f) := by
  have hcarry : ∀ {xs ys : List α}, xs.Perm ys → ∀ zs, xs.mapM f = .ok zs →
      ∃ ws, ys.mapM f = .ok ws ∧ zs.Perm ws := by
    intro xs ys h zs hzs
    obtain ⟨ws, hws, hperm⟩ := List.perm_comp_forall₂ h.symm (mapM_eq_ok.mp hzs)
    exact ⟨ws, mapM_eq_ok.mpr hws, hperm.symm⟩
  refine intro (hcarry h) fun ws hws => ?_
  obtain ⟨zs, hzs, _⟩ := hcarry h.symm ws hws
  exact ⟨zs, hzs⟩

end Agree

/-! ## One way only -/

/-- A result of the one run comes with a related result of the other. -/
def Carries (R : α → β → Prop) (x : Except ε α) (y : Except ε β) : Prop :=
  ∀ a, x = .ok a → ∃ b, y = .ok b ∧ R a b

namespace Carries

variable {R : α → β → Prop} {S : γ → δ → Prop} {x : Except ε α} {y : Except ε β}

theorem ok {a : α} {b : β} (h : R a b) :
    Carries R (.ok a : Except ε α) (.ok b : Except ε β) := by
  rintro _ ⟨⟩
  exact ⟨b, rfl, h⟩

theorem error (i : ε) : Carries R (.error i) y := by
  rintro _ ⟨⟩

theorem of_eq {x y : Except ε α} (h : y = x) : Carries Eq x y := by
  rintro a rfl
  exact ⟨a, h, rfl⟩

/-- What a result is known to be is kept beside what it is related to. -/
theorem known (h : Carries R x y) : Carries (fun a b => x = .ok a ∧ R a b) x y := by
  intro a ha
  obtain ⟨b, hb, hab⟩ := h a ha
  exact ⟨b, hb, ha, hab⟩

theorem mono {T : α → β → Prop} (h : Carries R x y) (hRT : ∀ a b, R a b → T a b) :
    Carries T x y := by
  intro a ha
  obtain ⟨b, hb, hab⟩ := h a ha
  exact ⟨b, hb, hRT a b hab⟩

theorem bind {f : α → Except ε γ} {g : β → Except ε δ} (h : Carries R x y)
    (hfg : ∀ a b, R a b → Carries S (f a) (g b)) : Carries S (x >>= f) (y >>= g) := by
  intro c hc
  obtain ⟨a, ha, hc⟩ := bind_eq_ok.mp hc
  obtain ⟨b, hb, hab⟩ := h a ha
  obtain ⟨d, hd, hcd⟩ := hfg a b hab c hc
  exact ⟨d, bind_eq_ok.mpr ⟨b, hb, hd⟩, hcd⟩

theorem map {f : α → γ} {g : β → δ} (h : Carries R x y) (hfg : ∀ a b, R a b → S (f a) (g b)) :
    Carries S (x.map f) (y.map g) := by
  intro c hc
  obtain ⟨a, ha, rfl⟩ := map_eq_ok.mp hc
  obtain ⟨b, hb, hab⟩ := h a ha
  exact ⟨g b, map_eq_ok.mpr ⟨b, hb, rfl⟩, hfg a b hab⟩

/-- The same with entries written on the way. -/
theorem trace {x : Traced α} {y : Traced β} {f : α → Traced γ} {g : β → Traced δ}
    (h : Carries R x.outcome y.outcome)
    (hfg : ∀ a b, R a b → Carries S (f a).outcome (g b).outcome) :
    Carries S (x >>= f).outcome (y >>= g).outcome := by
  rw [Traced.outcome_bind, Traced.outcome_bind]
  exact h.bind hfg

/-- A first step with the same result needs no more to be said of that. -/
theorem trace_eq {x y : Traced α} {f : α → Traced γ} {g : α → Traced δ}
    (h : Carries Eq x.outcome y.outcome) (hfg : ∀ a, Carries S (f a).outcome (g a).outcome) :
    Carries S (x >>= f).outcome (y >>= g).outcome := by
  refine h.trace ?_
  rintro a _ rfl
  exact hfg a

/-- Steps that carry over one by one carry over along lists. -/
theorem mapM {f : α → Except ε γ} {g : β → Except ε δ} {xs : List α} {ys : List β}
    (h : List.Forall₂ (fun a b => Carries S (f a) (g b)) xs ys) :
    Carries (List.Forall₂ S) (xs.mapM f) (ys.mapM g) := by
  induction h with
  | nil => exact .ok .nil
  | cons hab _ ih =>
    rw [List.mapM_cons, List.mapM_cons]
    exact hab.bind fun c d hcd => ih.bind fun cs ds hrest => .ok (.cons hcd hrest)

end Carries

end ApiContract

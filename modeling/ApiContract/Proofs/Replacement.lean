import ApiContract.Proofs.ReadingAgreement
import Mathlib.Logic.Relation

/-!
Putting another value in the place of one part of a description. A place is an address: the steps
that lead down to it. A pointer that does not pass through the place finds the same as before, or it
stops above the place, at a mapping with the same members but one.
-/

namespace ApiContract

/-- A step down into a value: to what stands under a key, or to one of the items. -/
inductive Value.Step where
  | key (k : Scalar)
  | item

/-- Two mappings that differ in the value of one member, as the relation says. -/
inductive Value.At (key : Scalar) (R : Value → Value → Prop) : Value → Value → Prop
  | intro {before after : Members} {v w : Value} {knot knot' : Nat} : R v w →
      At key R (.map (before ++ (key, v) :: after) knot) (.map (before ++ (key, w) :: after) knot')

/-- Two sequences that differ in one item, as the relation says. -/
inductive Value.Among (R : Value → Value → Prop) : Value → Value → Prop
  | intro {before after : List Value} {v w : Value} {knot knot' : Nat} : R v w →
      Among R (.seq (before ++ v :: after) knot) (.seq (before ++ w :: after) knot')

/-- The second value is the first one with `target` in the place of the `entry` at an address. -/
def Value.Replaced (entry target : Value) : List Value.Step → Value → Value → Prop
  | [] => fun v w => v = entry ∧ w = target
  | .key k :: rest => Value.At k (Value.Replaced entry target rest)
  | .item :: rest => Value.Among (Value.Replaced entry target rest)

/-- A pointer with these keys leads to the place at an address or into it. -/
def Value.Passes : List Value.Step → List String → Prop
  | [], _ => True
  | .key k :: rest, key :: keys => k = .str key ∧ Passes rest keys
  | _, _ => False

open Relation (ReflGen)

namespace Value.At

variable {key : Scalar} {R : Value → Value → Prop} {v w : Value}

theorem cases_map (h : At key R v w) : ∃ members others knot knot',
    v = .map members knot ∧ w = .map others knot' := by
  cases h
  exact ⟨_, _, _, _, rfl, rfl⟩

section Maps

variable {members others : Members} {knot knot' : Nat}

/-- Member by member, the values are the same, or they are related and stand under the key. -/
theorem matched (h : At key R (.map members knot) (.map others knot')) :
    Members.Matched (fun k => ReflGen fun v w => key = k ∧ R v w) members others := by
  cases h with
  | intro hvw =>
    have hsame : ∀ ms : Members,
        Members.Matched (fun k => ReflGen fun v w => key = k ∧ R v w) ms ms :=
      fun ms => List.forall₂_same.mpr fun _ _ => ⟨rfl, .refl⟩
    exact List.rel_append (hsame _) (.cons ⟨rfl, .single ⟨rfl, hvw⟩⟩ (hsame _))

theorem get? (h : At key R (.map members knot) (.map others knot')) (text : String) :
    Option.Rel (ReflGen fun v w => key = .str text ∧ R v w) (members.get? text)
      (others.get? text) :=
  h.matched.get? text

theorem get?_reflGen (h : At key R (.map members knot) (.map others knot')) (text : String) :
    Option.Rel (ReflGen R) (members.get? text) (others.get? text) :=
  rel_mono (h.get? text) fun _ _ hvw => hvw.mono fun _ _ hkey => hkey.2

theorem get?_of_ne (h : At key R (.map members knot) (.map others knot')) {text : String}
    (hne : key ≠ .str text) : members.get? text = others.get? text := by
  refine eq_of_rel (rel_mono (h.get? text) fun v w hvw => ?_)
  cases hvw with
  | refl => rfl
  | single hkey => exact absurd hkey.1 hne

theorem get?_of_ne_text {name : String}
    (h : At (.str name) R (.map members knot) (.map others knot')) {text : String}
    (hne : name ≠ text) : members.get? text = others.get? text :=
  h.get?_of_ne (by simpa using hne)

end Maps

theorem truthy (h : At key R v w) : v.truthy = w.truthy := by
  obtain ⟨members, others, _, _, rfl, rfl⟩ := h.cases_map
  have hlength := h.matched.length_eq
  rw [Value.truthy, Value.truthy, Bool.eq_iff_iff]
  simp [← List.length_eq_zero_iff, hlength]

theorem truthy_of_reflGen (h : ReflGen (At key R) v w) : v.truthy = w.truthy := by
  cases h with
  | refl => rfl
  | single h => exact h.truthy

/-- If one member at most differs, both are mappings with the same keys, or they are the same. -/
theorem cases_reflGen (h : ReflGen (At key R) v w) : (∃ members others knot knot',
      v = .map members knot ∧ w = .map others knot' ∧
        Members.Matched (fun k => ReflGen fun v w => key = k ∧ R v w) members others) ∨
    (v = w ∧ ∀ members knot, v ≠ .map members knot) := by
  cases h with
  | single h =>
    obtain ⟨members, others, knot, knot', rfl, rfl⟩ := h.cases_map
    exact .inl ⟨members, others, knot, knot', rfl, rfl, h.matched⟩
  | refl =>
    cases v with
    | map members knot =>
      exact .inl ⟨members, members, knot, knot, rfl, rfl,
        List.forall₂_same.mpr fun _ _ => ⟨rfl, .refl⟩⟩
    | _ => exact .inr ⟨rfl, nofun⟩

end Value.At

end ApiContract

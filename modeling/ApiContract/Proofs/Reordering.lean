import ApiContract.Proofs.ReadingAgreement
import ApiContract.Proofs.RequiredMarks

/-!
Reading a description whose members were put in another order: the description itself, its
components, the named schemas, the paths and each path item. What is looked up by key is found in
either order, so references lead to mappings that are read alike; and what is read member by member
comes out in the order of the members.
-/

namespace ApiContract

/-! ## Mappings in another order -/

/-- The same value, or a mapping with the same keys in another order, under which values may differ
as the relation allows. -/
inductive Value.Shuffled (R : Scalar → Value → Value → Prop) : Value → Value → Prop
  | same {v : Value} : Shuffled R v v
  | members {members matched others : Members} {knot knot' : Nat} : Members.Keyed members →
      List.Forall₂ (fun m n => m.1 = n.1 ∧ R m.1 m.2 n.2) members matched →
      matched.Perm others → Shuffled R (.map members knot) (.map others knot')

/-- No text is the key of two members. -/
def Members.TextsOnce (members : Members) : Prop :=
  members.Pairwise fun m n => ∀ s, m.1 = .str s → n.1 ≠ .str s

theorem Members.Keyed.textsOnce {members : Members} (h : members.Keyed) : members.TextsOnce := by
  refine h.imp fun hdiffer s hm hn => ?_
  rw [hm, hn] at hdiffer
  have hself : (Scalar.str s).sameKey (.str s) = true := by simp [Scalar.sameKey, Scalar.whole?]
  rw [hdiffer] at hself
  cases hself

theorem Members.TextsOnce.perm {members others : Members} (h : members.TextsOnce)
    (hperm : members.Perm others) : others.TextsOnce :=
  (hperm.pairwise_iff fun hmn s hn hm => hmn s hm hn).mp h

theorem Members.get?_eq_some_iff {key : String} {members : Members} {v : Value}
    (h : members.TextsOnce) : members.get? key = some v ↔ (.str key, v) ∈ members := by
  refine ⟨mem_of_get?, fun hmem => ?_⟩
  induction members with
  | nil => cases hmem
  | cons m rest ih =>
    obtain ⟨k, w⟩ := m
    obtain ⟨hhead, hrest⟩ := List.pairwise_cons.mp h
    rw [get?]
    rcases List.mem_cons.mp hmem with heq | hmem
    · cases heq
      rw [if_pos rfl]
    · rw [if_neg fun hk => hhead _ hmem key hk rfl]
      exact ih hrest hmem

/-- The order of members makes no difference to what is found under a key. -/
theorem Members.get?_perm {members others : Members} (h : members.TextsOnce)
    (hperm : members.Perm others) (key : String) : members.get? key = others.get? key := by
  refine Option.ext fun v => ?_
  rw [get?_eq_some_iff h, get?_eq_some_iff (h.perm hperm)]
  exact hperm.mem_iff

theorem Members.Matched.textsOnce {R : Scalar → Value → Value → Prop} {members others : Members}
    (h : Members.Matched R members others) (honce : members.TextsOnce) : others.TextsOnce := by
  have hkeys : others.map (·.1) = members.map (·.1) :=
    map_eq_of_forall₂ h fun _ _ hmn => hmn.1.symm
  have honce' : (members.map (·.1)).Pairwise fun a b => ∀ s, a = .str s → b ≠ .str s :=
    List.pairwise_map.mpr honce
  rw [← hkeys] at honce'
  exact List.pairwise_map.mp honce'

/-- What two mappings that differ only in order have in common. -/
structure Members.Alike (R : Scalar → Value → Value → Prop) (members others : Members) : Prop where
  get? : ∀ key, Option.Rel (R (.str key)) (members.get? key) (others.get? key)
  matched : ∃ between, Members.Matched R members between ∧ between.Perm others

namespace Value.Shuffled

variable {R : Scalar → Value → Value → Prop} {v w : Value}

theorem alike (hR : ∀ key v, R key v v) {members others : Members} {knot knot' : Nat}
    (h : Shuffled R (.map members knot) (.map others knot')) : Members.Alike R members others := by
  cases h with
  | same =>
    have hsame : Members.Matched R members members :=
      List.forall₂_same.mpr fun m _ => ⟨rfl, hR m.1 m.2⟩
    exact ⟨hsame.get?, members, hsame, .refl _⟩
  | members hkeyed hmatched hperm =>
    refine ⟨fun key => ?_, _, hmatched, hperm⟩
    rw [← Members.get?_perm (Members.Matched.textsOnce hmatched hkeyed.textsOnce) hperm]
    exact Members.Matched.get? hmatched key

theorem of_perm (hR : ∀ key v, R key v v) {members others : Members} {knot knot' : Nat}
    (hkeyed : members.Keyed) (hperm : members.Perm others) :
    Shuffled R (.map members knot) (.map others knot') :=
  .members hkeyed (List.forall₂_same.mpr fun m _ => ⟨rfl, hR m.1 m.2⟩) hperm

theorem of_matched {members others : Members} {knot knot' : Nat} (hkeyed : members.Keyed)
    (hmatched : Members.Matched R members others) :
    Shuffled R (.map members knot) (.map others knot') :=
  .members hkeyed hmatched (.refl _)

/-- Either both values are mappings or they are the same. -/
theorem cases_map (h : Shuffled R v w) : (∃ members others knot knot',
    v = .map members knot ∧ w = .map others knot') ∨
      (v = w ∧ ∀ members knot, v ≠ .map members knot) := by
  cases h with
  | same =>
    cases v with
    | map members knot => exact .inl ⟨members, members, knot, knot, rfl, rfl⟩
    | _ => exact .inr ⟨rfl, nofun⟩
  | members => exact .inl ⟨_, _, _, _, rfl, rfl⟩

theorem truthy (h : Shuffled R v w) : v.truthy = w.truthy := by
  cases h with
  | same => rfl
  | members _ hmatched hperm =>
    have hlength := hmatched.length_eq.trans hperm.length_eq
    rw [Value.truthy, Value.truthy, Bool.eq_iff_iff]
    simp [← List.length_eq_zero_iff, hlength]

end Value.Shuffled

/-! ## Descriptions in another order -/

/-- The same members in another order. -/
abbrev Value.Relisted : Value → Value → Prop := Value.Shuffled fun _ => Eq

/-- Paths in another order, and the members of each of them. -/
abbrev Value.Repathed : Value → Value → Prop := Value.Shuffled fun _ => Value.Relisted

/-- Components in another order, and the named schemas among them. -/
abbrev Value.Recomposed : Value → Value → Prop :=
  Value.Shuffled fun key v w => if key = .str "schemas" then v.Relisted w else v = w

/-- A description in another order: its sections, the components, the named schemas, the paths and
the members of each path. -/
abbrev Value.Reordered : Value → Value → Prop :=
  Value.Shuffled fun key v w =>
    if key = .str "components" then v.Recomposed w
    else if key = .str "paths" then v.Repathed w
    else v = w

namespace Value

theorem Relisted.alike {members others : Members} {knot knot' : Nat}
    (h : (Value.map members knot).Relisted (.map others knot')) :
    members.Alike (fun _ => Eq) others :=
  Shuffled.alike (fun _ _ => rfl) h

theorem Relisted.get? {members others : Members} {knot knot' : Nat}
    (h : (Value.map members knot).Relisted (.map others knot')) (key : String) :
    members.get? key = others.get? key :=
  eq_of_rel (h.alike.get? key)

theorem Relisted.perm {members others : Members} {knot knot' : Nat}
    (h : (Value.map members knot).Relisted (.map others knot')) : members.Perm others := by
  obtain ⟨between, hmatched, hperm⟩ := h.alike.matched
  have heq : members = between := by
    rw [← List.forall₂_eq_eq_eq]
    exact hmatched.imp fun m n hmn => Prod.ext hmn.1 hmn.2
  rw [heq]
  exact hperm

theorem Repathed.alike {members others : Members} {knot knot' : Nat}
    (h : (Value.map members knot).Repathed (.map others knot')) :
    members.Alike (fun _ => Relisted) others :=
  Shuffled.alike (fun _ _ => .same) h

theorem Recomposed.get? {members others : Members} {knot knot' : Nat}
    (h : (Value.map members knot).Recomposed (.map others knot')) (key : String) :
    Option.Rel (fun v w => if key = "schemas" then v.Relisted w else v = w) (members.get? key)
      (others.get? key) := by
  have hget := (Shuffled.alike ?_ h).get? key
  · simpa using hget
  · intro key v
    split
    · exact .same
    · rfl

theorem Reordered.get? {members others : Members} {knot knot' : Nat}
    (h : (Value.map members knot).Reordered (.map others knot')) (key : String) :
    Option.Rel (fun v w => if key = "components" then v.Recomposed w
      else if key = "paths" then v.Repathed w else v = w) (members.get? key)
      (others.get? key) := by
  have hget := (Shuffled.alike ?_ h).get? key
  · simpa using hget
  · intro key v
    split
    · exact .same
    · split
      · exact .same
      · rfl

end Value

end ApiContract

import ApiContract.Schema.Reading
import ApiContract.Proofs.Stumbling

/-!
The place of a schema makes no difference to what is read, only to what is said about faults.
-/

namespace ApiContract

variable {α β : Type}

/-- The one run gives what the other gives, if that gives anything. -/
def Repeats (y x : Except Issue α) : Prop := ∀ a, x = .ok a → y = .ok a

namespace Repeats

protected theorem rfl {x : Except Issue α} : Repeats x x := fun _ h => h

theorem error {y : Except Issue α} (i : Issue) : Repeats y (.error i) := nofun

theorem bind {x y : Except Issue α} {f g : α → Except Issue β} (h : Repeats y x)
    (hfg : ∀ a, Repeats (g a) (f a)) : Repeats (y >>= g) (x >>= f) := by
  intro b hb
  obtain ⟨a, ha, hb⟩ := bind_eq_ok.mp hb
  exact bind_eq_ok.mpr ⟨a, h a ha, hfg a b hb⟩

/-- The same with entries written on the way. -/
theorem trace {x y : Traced α} {f g : α → Traced β} (h : Repeats y.outcome x.outcome)
    (hfg : ∀ a, Repeats (g a).outcome (f a).outcome) :
    Repeats (y >>= g).outcome (x >>= f).outcome := by
  rw [Traced.outcome_bind, Traced.outcome_bind]
  exact h.bind hfg

theorem map {x y : Except Issue α} (h : Repeats y x) (f : α → β) : Repeats (y.map f) (x.map f) := by
  intro b hb
  cases x with
  | error i => cases hb
  | ok a =>
    rw [h a rfl]
    exact hb

end Repeats

namespace Schema

theorem checkProperties_eq_ok {place : String} {raw : Members} :
    checkProperties place raw = .ok () ↔ Value.Mapped (raw.get? "properties") := by
  unfold checkProperties Value.Mapped
  split <;> simp_all

section Keywords

variable (p q : String) (raw : Members)

theorem fieldResult_place (x : Except FieldIssue α) : Repeats (fieldResult q x) (fieldResult p x) := by
  cases x with
  | error i => exact .error _
  | ok a => exact .rfl

theorem readTraits_place : Repeats (readTraits q raw) (readTraits p raw) :=
  .bind (fieldResult_place p q _) fun _ => .rfl

theorem readRef_place (pointer : Value) : Repeats (readRef q raw pointer) (readRef p raw pointer) := by
  unfold readRef
  cases targetOf? pointer with
  | none =>
    intro s h
    obtain ⟨_, _, h⟩ := bind_eq_ok.mp h
    cases h
  | some target => exact .bind (readTraits_place p q raw) fun _ => .rfl

theorem readEnum_place (values : Value) : Repeats (readEnum q raw values) (readEnum p raw values) := by
  unfold readEnum
  split
  · exact .bind .rfl fun _ => .bind (readTraits_place p q raw) fun _ => .rfl
  · exact .error _

theorem readString_place : Repeats (readString q raw) (readString p raw) := by
  refine .bind (readTraits_place p q raw) fun _ => ?_
  refine .bind (fieldResult_place p q _) fun _ => ?_
  refine .bind (fieldResult_place p q _) fun _ => ?_
  refine .bind (fieldResult_place p q _) fun _ => ?_
  exact .bind (fieldResult_place p q _) fun _ => .rfl

theorem readNumber_place (integer : Bool) :
    Repeats (readNumber q raw integer) (readNumber p raw integer) := by
  refine .bind (readTraits_place p q raw) fun _ => ?_
  refine .bind (fieldResult_place p q _) fun _ => ?_
  exact .bind (fieldResult_place p q _) fun _ => .rfl

theorem finishArray_place (items : Schema) :
    Repeats (finishArray q raw items) (finishArray p raw items) := by
  refine .bind (readTraits_place p q raw) fun _ => ?_
  refine .bind (fieldResult_place p q _) fun _ => ?_
  exact .bind (fieldResult_place p q _) fun _ => .rfl

theorem finishObject_place (properties : List (Scalar × Schema)) (required : List Value) :
    Repeats (finishObject q raw properties required) (finishObject p raw properties required) := by
  refine .bind (readTraits_place p q raw) fun _ => ?_
  refine .bind (fieldResult_place p q _) fun _ => ?_
  exact .bind (fieldResult_place p q _) fun _ => .rfl

theorem checkProperties_place : Repeats (checkProperties q raw) (checkProperties p raw) :=
  fun _ h => checkProperties_eq_ok.mpr (checkProperties_eq_ok.mp h)

theorem requiredNames_place : Repeats (requiredNames q raw) (requiredNames p raw) := by
  unfold requiredNames
  split
  · exact .rfl
  · exact .rfl
  · exact .rfl
  · exact .error _

end Keywords

theorem noteMark_outcome (place : String) (name : Scalar) (raw : Value) (required : List Value) :
    (noteMark place name raw required).outcome =
      .ok (if marksItself raw && !required.any (·.sameKey (.scalar name)) then
        required ++ [.scalar name] else required) := by
  unfold noteMark
  split <;> rfl

/-- A mapping is read by its kind; an empty one is of the kind that says nothing. -/
theorem read_map (place : String) (members : Members) (knot : Nat) :
    read place (.map members knot) = match kindOf members with
      | .ref pointer => .ofExcept (readRef place members pointer)
      | .enum values => .ofExcept (readEnum place members values)
      | .string => .ofExcept (readString place members)
      | .number integer => .ofExcept (readNumber place members integer)
      | .boolean => .ofExcept ((readTraits place members).map .boolean)
      | .array => do
        let items ← readItems (place ++ "[]") members
        .ofExcept (finishArray place members items)
      | .object => do
        .ofExcept (checkProperties place members)
        let required ← Traced.ofExcept (requiredNames place members)
        let (properties, required) ← readProperties place required members
        .ofExcept (finishObject place members properties required)
      | .any => .ofExcept ((readTraits place members).map .any) := by
  cases members with
  | nil => rfl
  | cons m ms => rfl

theorem readEach_cons (place : String) (required : List Value) (name : Scalar) (raw : Value)
    (rest : List (Scalar × Value)) : readEach place required ((name, raw) :: rest) =
      (Traced.ofExcept name.spelledPlain >>= fun text =>
        noteMark (place ++ "." ++ text) name raw required >>= fun required =>
          read (place ++ "." ++ text) raw >>= fun schema =>
            readEach place required rest >>= fun found =>
              pure ((name, schema) :: found.1, found.2)) := by
  rw [readEach]

mutual

theorem read_place : ∀ (p q : String) (v : Value), Repeats (read q v).outcome (read p v).outcome
  | _, _, .scalar .null => .rfl
  | p, q, .map members knot => by
    rw [read_map, read_map]
    cases kindOf members with
    | ref pointer => exact readRef_place p q members pointer
    | enum values => exact readEnum_place p q members values
    | string => exact readString_place p q members
    | number integer => exact readNumber_place p q members integer
    | boolean => exact (readTraits_place p q members).map _
    | array =>
      exact .trace (readItems_place _ _ members) fun items => finishArray_place p q members items
    | object =>
      refine .trace (checkProperties_place p q members) fun _ => ?_
      refine .trace (requiredNames_place p q members) fun required => ?_
      refine .trace (readProperties_place p q required members) fun found => ?_
      exact finishObject_place p q members found.1 found.2
    | any => exact (readTraits_place p q members).map _
  | _, _, .endless => .error _
  | _, _, .scalar (.bool _) => .error _
  | _, _, .scalar (.int _) => .error _
  | _, _, .scalar (.float _) => .error _
  | _, _, .scalar (.str _) => .error _
  | _, _, .scalar (.date _) => .error _
  | _, _, .scalar (.moment _) => .error _
  | _, _, .scalar (.bytes _) => .error _
  | _, _, .seq _ _ => .error _
  | _, _, .pair _ _ => .error _
  | _, _, .set _ => .error _

theorem readItems_place : ∀ (p q : String) (members : List (Scalar × Value)),
    Repeats (readItems q members).outcome (readItems p members).outcome
  | _, _, [] => .rfl
  | p, q, (k, v) :: rest => by
    rw [readItems, readItems]
    split
    · exact read_place p q v
    · exact readItems_place p q rest

theorem readProperties_place : ∀ (p q : String) (required : List Value)
    (members : List (Scalar × Value)),
    Repeats (readProperties q required members).outcome (readProperties p required members).outcome
  | _, _, _, [] => .rfl
  | p, q, required, (k, v) :: rest => by
    by_cases hk : k = .str "properties"
    · cases v with
      | map properties knot =>
        rw [readProperties, readProperties, if_pos hk, if_pos hk]
        exact readEach_place p q required properties
      | _ =>
        simp only [readProperties, if_pos hk]
        exact .rfl
    · cases v with
      | _ =>
        simp only [readProperties, if_neg hk]
        exact readProperties_place p q required rest

theorem readEach_place : ∀ (p q : String) (required : List Value)
    (properties : List (Scalar × Value)),
    Repeats (readEach q required properties).outcome (readEach p required properties).outcome
  | _, _, _, [] => .rfl
  | p, q, required, (name, raw) :: rest => by
    rw [readEach_cons, readEach_cons]
    refine .trace .rfl fun text => ?_
    refine .trace ?_ fun noted => ?_
    · rw [noteMark_outcome, noteMark_outcome]
      exact .rfl
    · refine .trace (read_place _ _ raw) fun schema => ?_
      exact .trace (readEach_place p q noted rest) fun _ => .rfl

end

end Schema

end ApiContract

import ApiContract.Proofs.SchemaGrammar

/-!
Which schemas are visited, and what is reported of them. A reader looks at the shape of a schema,
then visits those inside it, depth first and in order, and then looks at its keywords. It accepts a
value exactly if every look passes, and reports the place of the first one that does not.
-/

namespace ApiContract

variable {α β : Type}

def SchemaFault.place : SchemaFault → String
  | .shape place _ => place
  | .reference place _ => place
  | .emptyEnum place => place
  | .propertiesShape place => place
  | .requiredShape place => place
  | .field place _ => place
  | .infiniteDefault place _ => place
  | .defaultType place _ => place
  | .infiniteBound place _ => place

/-- Every message about a schema begins with its place. -/
theorem SchemaFault.message_starts (fault : SchemaFault) :
    (fault.place ++ ": ").toList <+: fault.message.toList := by
  cases fault <;>
    simp [place, message, FieldIssue.message, toString]

namespace Schema

/-! ## Looks -/

inductive Aspect where
  | shape
  | keywords

/-- One look at a schema, at its shape or at its keywords. -/
structure Look where
  aspect : Aspect
  place : String
  raw : Value

instance {raw : Members} {form : Form} : Decidable (HasForm raw form) :=
  decidable_of_iff _ hasForm_iff.symm

mutual

/-- The looks at a schema and at the schemas inside it, in order. -/
def looks (place : String) : Value → List Look
  | .map members knot =>
    ⟨.shape, place, .map members knot⟩ :: ((if HasForm members .array then
        itemLooks (place ++ "[]") members
      else if HasForm members .object then propertyLooks place members
      else []) ++ [⟨.keywords, place, .map members knot⟩])
  | v => [⟨.shape, place, v⟩]

/-- The looks at the schema under `items`. -/
def itemLooks (place : String) : List (Scalar × Value) → List Look
  | [] => []
  | (k, v) :: rest => if k = .str "items" then looks place v else itemLooks place rest

/-- The looks at the schemas under `properties`. -/
def propertyLooks (place : String) : List (Scalar × Value) → List Look
  | [] => []
  | (k, v) :: rest =>
    if k = .str "properties" then
      match v with
      | .map properties _ => eachLooks place properties
      | _ => []
    else propertyLooks place rest

def eachLooks (place : String) : List (Scalar × Value) → List Look
  | [] => []
  | (name, v) :: rest => looks (place ++ "." ++ name.plain) v ++ eachLooks place rest

end

section Forms

variable {place : String} {members : Members} {knot : Nat} {form : Form}

theorem looks_array (h : HasForm members .array) : looks place (.map members knot) =
    ⟨.shape, place, .map members knot⟩ ::
      (itemLooks (place ++ "[]") members ++ [⟨.keywords, place, .map members knot⟩]) := by
  rw [looks, if_pos h]

theorem looks_object (h : HasForm members .object) : looks place (.map members knot) =
    ⟨.shape, place, .map members knot⟩ ::
      (propertyLooks place members ++ [⟨.keywords, place, .map members knot⟩]) := by
  have harray : ¬ HasForm members .array := by
    intro harray
    cases harray.unique h
  rw [looks, if_neg harray, if_pos h]

/-- Schemas of the other forms have none inside. -/
theorem looks_leaf (h : HasForm members form) (hform : form ≠ .array ∧ form ≠ .object) :
    looks place (.map members knot) =
      [⟨.shape, place, .map members knot⟩, ⟨.keywords, place, .map members knot⟩] := by
  rw [looks, if_neg fun harray => hform.1 (h.unique harray),
    if_neg fun hobject => hform.2 (h.unique hobject)]
  rfl

end Forms

namespace Look

variable (look : Look)

/-- The schema is valid in the aspect that is looked at. -/
def Valid : Prop :=
  match look.aspect with
  | .shape => Shaped look.raw
  | .keywords => ∀ members knot, look.raw = .map members knot → Keyworded members

/-- The look comes upon a value that it has to write and that cannot be written. -/
def Fails : Prop :=
  match look.aspect with
  | .shape => Unwritable look.raw
  | .keywords => False

def Passes : Prop := look.Valid ∧ ¬ look.Fails

/-- The names that an object lists as required are texts. -/
def ListsTexts : Prop :=
  ∀ (members : Members) (knot : Nat), look.raw = .map members knot → HasForm members .object →
    ∀ (items : List Value) (k : Nat), members.get? "required" = some (.seq items k) →
      ∀ v ∈ items, ∃ name, v = .str name

/-- What comes out of a look that does not pass: a fault whose message begins with the place, if no
value stands in the way that cannot be written. -/
structure Reports (i : Issue) : Prop where
  fails : look.Fails → i = .misfit .outOfRange
  fault : ¬ look.Fails → ∃ fault, i = .schema fault ∧
    (look.place ++ ": ").toList <+: fault.message.toList

end Look

/-! ## Runs that take looks -/

/-- A run takes looks in order, and stops at the first that does not pass. -/
inductive Follows : List Look → Except Issue α → Prop
  | done {a : α} : Follows [] (.ok a)
  | pass {look : Look} {rest : List Look} {x : Except Issue α} : look.Passes → Follows rest x →
      Follows (look :: rest) x
  | halt {look : Look} {rest : List Look} {i : Issue} : ¬ look.Passes → look.Reports i →
      Follows (look :: rest) (.error i)

namespace Follows

variable {ls ms : List Look} {look : Look} {x : Except Issue α}

theorem bind {f : α → Except Issue β} (h : Follows ls x) (hf : ∀ a, x = .ok a → Follows ms (f a)) :
    Follows (ls ++ ms) (x >>= f) := by
  induction h with
  | done => exact hf _ rfl
  | pass hlook _ ih => exact .pass hlook (ih hf)
  | halt hlook hreports => exact .halt hlook hreports

theorem trace {x : Traced α} {f : α → Traced β} (h : Follows ls x.outcome)
    (hf : ∀ a, x.outcome = .ok a → Follows ms (f a).outcome) :
    Follows (ls ++ ms) (x >>= f).outcome := by
  rw [Traced.outcome_bind]
  exact h.bind hf

theorem exists_ok_iff (h : Follows ls x) : (∃ a, x = .ok a) ↔ ∀ look ∈ ls, look.Passes := by
  induction h with
  | done => simp
  | pass hlook _ ih => rw [ih, List.forall_mem_cons, and_iff_right hlook]
  | halt hlook _ => simp [hlook]

theorem first_reported (h : Follows ls x) {before after : List Look}
    (hls : ls = before ++ look :: after) (hbefore : ∀ earlier ∈ before, earlier.Passes)
    (hlook : ¬ look.Passes) : ∃ i, x = .error i ∧ look.Reports i := by
  induction h generalizing before with
  | done => simp at hls
  | pass hfirst _ ih =>
    cases before with
    | nil =>
      cases hls
      exact absurd hfirst hlook
    | cons b bs =>
      cases hls
      exact ih rfl (List.forall_mem_cons.mp hbefore).2
  | halt hfirst hreports =>
    cases before with
    | nil =>
      cases hls
      exact ⟨_, rfl, hreports⟩
    | cons b bs =>
      cases hls
      exact absurd (List.forall_mem_cons.mp hbefore).1 hfirst

end Follows

/-! ## Keywords -/

/-- A run that checks keywords: it succeeds if they are as they should be, and else reports the
place. -/
structure Checks (P : Prop) (place : String) (x : Except Issue α) : Prop where
  succeeds : P → ∃ a, x = .ok a
  reports : ¬ P → ∃ issue, x = .error (.schema (.field place issue))

namespace Checks

variable {P Q : Prop} {place : String} {x : Except Issue α}

theorem ok (a : α) : Checks True place (.ok a : Except Issue α) :=
  ⟨fun _ => ⟨a, rfl⟩, fun h => absurd trivial h⟩

theorem congr (h : Checks P place x) (hPQ : P ↔ Q) : Checks Q place x :=
  ⟨fun hq => h.succeeds (hPQ.mpr hq), fun hq => h.reports fun hp => hq (hPQ.mp hp)⟩

theorem bind {f : α → Except Issue β} (h : Checks P place x)
    (hf : ∀ a, Checks Q place (f a)) : Checks (P ∧ Q) place (x >>= f) := by
  by_cases hp : P
  · obtain ⟨a, rfl⟩ := h.succeeds hp
    exact (hf a).congr (and_iff_right hp).symm
  · obtain ⟨issue, rfl⟩ := h.reports hp
    exact ⟨fun hpq => absurd hpq.1 hp, fun _ => ⟨issue, rfl⟩⟩

theorem bind_ok {f : α → Except Issue β} (h : Checks P place x)
    (hf : ∀ a, ∃ b, f a = .ok b) : Checks P place (x >>= f) := by
  refine (h.bind (Q := True) fun a => ?_).congr (and_iff_left trivial)
  obtain ⟨b, hb⟩ := hf a
  rw [hb]
  exact .ok b

theorem map (h : Checks P place x) (f : α → β) : Checks P place (x.map f) := by
  have hmap : x.map f = x >>= fun a => .ok (f a) := by cases x <;> rfl
  rw [hmap]
  exact h.bind_ok fun a => ⟨f a, rfl⟩

end Checks

section Keywords

variable {place : String} {raw : Members} {form : Form}

theorem optional_checks {type : KeywordType} {field : String} {given : Option Value}
    {read : Value → Except FieldFault α}
    (h : ∀ v, given = some v → v ≠ .null → ((∃ a, read v = .ok a) ↔ Fits type (some v))) :
    Checks (Fits type given) place (fieldResult place (Field.optional field read given)) := by
  cases given with
  | none => exact (Checks.ok none).congr (iff_of_true trivial .absent)
  | some v =>
    by_cases hnull : v = .null
    · rw [hnull]
      exact (Checks.ok none).congr (iff_of_true trivial .null)
    · have hoptional : Field.optional field read (some v) =
          ((read v).map some).mapError (⟨field, ·⟩) := by
        unfold Field.optional
        split
        · next heq => cases heq
        · next heq => exact absurd (Option.some.inj heq) hnull
        · next heq =>
          cases heq
          cases read v <;> rfl
      rw [hoptional]
      refine Checks.congr ?_ (h v rfl hnull)
      cases read v with
      | ok a => exact (Checks.ok (some a)).congr (iff_of_true trivial ⟨a, rfl⟩)
      | error fault => exact ⟨fun hok => absurd hok (by simp), fun _ => ⟨⟨field, fault⟩, rfl⟩⟩

variable (hjson : ∀ key v, raw.get? key = some v → v.OfJson)

include hjson

theorem text_checks (key field : String) :
    Checks (Fits .text (raw.get? key)) place
      (fieldResult place (Field.optional field Field.text (raw.get? key))) := by
  refine optional_checks fun v hv hnull => (text_reads (hjson key v hv)).trans ?_
  constructor
  · intro htext
    obtain ⟨s, rfl⟩ := htext
    exact .text
  · intro hfits
    cases hfits with
    | null => exact absurd rfl hnull
    | text => exact ⟨_, rfl⟩

theorem integer_checks (key field : String) :
    Checks (Fits .integer (raw.get? key)) place
      (fieldResult place (Field.optional field Field.integer (raw.get? key))) := by
  refine optional_checks fun v hv hnull => (integer_reads (hjson key v hv)).trans ?_
  constructor
  · intro hinteger
    exact .integer hinteger
  · intro hfits
    cases hfits with
    | null => exact absurd rfl hnull
    | integer hinteger => exact hinteger

theorem numeral_checks (key field : String) :
    Checks (Fits .numeral (raw.get? key)) place
      (fieldResult place (Field.optional field Field.numeral (raw.get? key))) := by
  refine optional_checks fun v hv hnull => (numeral_reads (hjson key v hv)).trans ?_
  constructor
  · intro hnumeral
    obtain hinteger | ⟨x, rfl⟩ | ⟨s, x, rfl, hx⟩ := hnumeral
    · exact .whole hinteger
    · exact .float
    · exact .floatText hx
  · intro hfits
    cases hfits with
    | null => exact absurd rfl hnull
    | whole hinteger => exact .inl hinteger
    | float => exact .inr (.inl ⟨_, rfl⟩)
    | floatText hx => exact .inr (.inr ⟨_, _, rfl, hx⟩)

theorem readTraits_checks :
    Checks (Fits .text (raw.get? "description")) place (readTraits place raw) :=
  (text_checks hjson "description" "description").bind_ok fun _ => ⟨_, rfl⟩

theorem readString_checks (h : HasForm raw .string) :
    Checks (Keyworded raw) place (readString place raw) := by
  refine Checks.congr ?_ (keyworded_iff h).symm
  refine ((readTraits_checks hjson).bind fun _ => (text_checks hjson "format" "format").bind fun _ =>
    (text_checks hjson "pattern" "pattern").bind fun _ =>
      (integer_checks hjson "minLength" "min_length").bind fun _ =>
        (integer_checks hjson "maxLength" "max_length").bind_ok fun _ => ⟨_, rfl⟩).congr ?_
  simp [keywords]

theorem readNumber_checks (h : HasForm raw .number) (integer : Bool) :
    Checks (Keyworded raw) place (readNumber place raw integer) := by
  refine Checks.congr ?_ (keyworded_iff h).symm
  refine ((readTraits_checks hjson).bind fun _ =>
    (numeral_checks hjson "minimum" "minimum.int").bind fun _ =>
      (numeral_checks hjson "maximum" "maximum.int").bind_ok fun _ => ⟨_, rfl⟩).congr ?_
  simp [keywords]

theorem finishArray_checks (h : HasForm raw .array) (items : Schema) :
    Checks (Keyworded raw) place (finishArray place raw items) := by
  refine Checks.congr ?_ (keyworded_iff h).symm
  refine ((readTraits_checks hjson).bind fun _ =>
    (integer_checks hjson "minItems" "min_items").bind fun _ =>
      (integer_checks hjson "maxItems" "max_items").bind_ok fun _ => ⟨_, rfl⟩).congr ?_
  simp [keywords]

omit hjson

theorem texts_of_texts {field : Nat → String} {index : Nat} {vs : List Value}
    (h : ∀ v ∈ vs, ∃ s, v = .str s) : ∃ names, Field.texts field index vs = .ok names := by
  induction vs generalizing index with
  | nil => exact ⟨[], rfl⟩
  | cons v vs ih =>
    obtain ⟨⟨s, rfl⟩, hrest⟩ := List.forall_mem_cons.mp h
    obtain ⟨names, hnames⟩ := @ih (index + 1) hrest
    exact ⟨s :: names, by rw [Field.texts, hnames]; rfl⟩

/-- Names that are texts are of their type as they stand. -/
theorem finishObject_checks (hjson : ∀ key v, raw.get? key = some v → v.OfJson)
    (h : HasForm raw .object) {properties : List (Scalar × Schema)} {required : List Value}
    (hkeys : ∀ p ∈ properties, ∃ key, p.1 = .str key) (hrequired : ∀ v ∈ required, ∃ s, v = .str s) :
    Checks (Keyworded raw) place (finishObject place raw properties required) := by
  refine Checks.congr ?_ (keyworded_iff h).symm
  have hnames : ∀ v ∈ properties.map fun p => Value.scalar p.1, ∃ s, v = .str s := by
    intro v hv
    obtain ⟨p, hp, rfl⟩ := List.mem_map.mp hv
    obtain ⟨key, hkey⟩ := hkeys p hp
    exact ⟨key, congrArg Value.scalar hkey⟩
  refine ((readTraits_checks hjson).bind_ok fun t => ?_).congr (by simp [keywords])
  obtain ⟨names, hnames⟩ := @texts_of_texts (fun i => s!"properties.{i}.0") 0 _ hnames
  obtain ⟨listed, hlisted⟩ := @texts_of_texts (fun i => s!"required.{i}") 0 _ hrequired
  rw [hnames, hlisted]
  exact ⟨_, rfl⟩

end Keywords

/-! ## Looks at shapes -/

namespace Look

variable {place : String} {raw : Value} {members : Members} {knot : Nat} {fault : SchemaFault}

theorem reports_fault {look : Look} (h : ¬ look.Fails) (hplace : fault.place = look.place) :
    look.Reports (.schema fault) :=
  ⟨fun hfails => absurd hfails h, fun _ => ⟨fault, rfl, hplace ▸ fault.message_starts⟩⟩

theorem reports_misfit {look : Look} (h : look.Fails) : look.Reports (.misfit .outOfRange) :=
  ⟨fun _ => rfl, fun hno => absurd h hno⟩

theorem passes_keywords :
    (Look.mk .keywords place (.map members knot)).Passes ↔ Keyworded members := by
  constructor
  · intro h
    exact h.1 members knot rfl
  · intro h
    refine ⟨?_, id⟩
    intro members' knot' heq
    cases heq
    exact h

end Look

section Shapes

variable {place : String} {members : Members} {knot : Nat} {form : Form}

/-- What is left of a schema after its shape and its children is a check of its keywords. -/
theorem Checks.follows {x : Except Issue α} (h : Checks (Keyworded members) place x) :
    Follows [⟨.keywords, place, .map members knot⟩] x := by
  by_cases hall : Keyworded members
  · obtain ⟨a, rfl⟩ := h.succeeds hall
    exact .pass (Look.passes_keywords.mpr hall) .done
  · obtain ⟨issue, rfl⟩ := h.reports hall
    exact .halt (mt Look.passes_keywords.mp hall) (Look.reports_fault id rfl)

theorem shape_passes (h : HasForm members form) (hform : form ∉ [Form.ref, .enum, .object]) :
    (Look.mk .shape place (.map members knot)).Passes := by
  refine ⟨.other h hform, not_unwritable h ?_⟩
  intro hmem
  simp only [List.mem_cons, List.not_mem_nil, or_false] at hmem
  obtain rfl | rfl := hmem
  · simp at hform
  · simp at hform

/-- A schema without schemas inside, in whose shape nothing can be wrong. -/
theorem leaf_follows {x : Except Issue α} (h : HasForm members form)
    (hform : form ∉ [Form.ref, .enum, .array, .object])
    (hx : Checks (Keyworded members) place x) : Follows (looks place (.map members knot)) x := by
  simp only [List.mem_cons, List.not_mem_nil, or_false, not_or] at hform
  rw [looks_leaf h ⟨hform.2.2.1, hform.2.2.2⟩]
  exact .pass (shape_passes h (by simp [hform])) hx.follows

theorem plain_checks (hjson : ∀ key v, members.get? key = some v → v.OfJson)
    (h : HasForm members form) (hform : form ∉ [Form.string, .number, .array]) :
    Checks (Keyworded members) place (readTraits place members) := by
  refine Checks.congr ((readTraits_checks hjson).congr ?_) (keyworded_iff h).symm
  cases form <;> simp_all [keywords]

/-- What is neither null nor a mapping is no schema. -/
theorem wrong_shape {v : Value} {found : String} (hshape : ¬ Shaped v) (hfails : ¬ Unwritable v) :
    Follows [⟨.shape, place, v⟩] (.error (.schema (.shape place found)) : Except Issue α) :=
  .halt (fun h => hshape h.1) (Look.reports_fault hfails rfl)

theorem targetOf?_eq_some_iff {pointer : Value} : (∃ target, targetOf? pointer = some target) ↔
    ∃ s : String, pointer = .str s ∧ componentPointer.toList <+: s.toList := by
  unfold targetOf?
  split
  · next s =>
    split
    · next hprefix => exact iff_of_true ⟨_, rfl⟩ ⟨s, rfl, List.isPrefixOf_iff_prefix.mp hprefix⟩
    · next hprefix =>
      refine iff_of_false (by simp) ?_
      intro h
      obtain ⟨_, heq, h⟩ := h
      cases heq
      exact hprefix (List.isPrefixOf_iff_prefix.mpr h)
  · next hother =>
    refine iff_of_false (by simp) ?_
    intro h
    obtain ⟨s, rfl, _⟩ := h
    exact hother s rfl

theorem readRef_follows (hjson : ∀ key v, members.get? key = some v → v.OfJson) {pointer : Value}
    (hget : members.get? "$ref" = some pointer) :
    Follows [⟨.shape, place, .map members knot⟩, ⟨.keywords, place, .map members knot⟩]
      (readRef place members pointer) := by
  have hform : HasForm members .ref := .ref ⟨_, hget⟩
  have hfails := @unwritable_ref_iff members knot pointer hget
  unfold readRef
  cases htarget : targetOf? pointer with
  | none =>
    have hstop : ¬ (Look.mk .shape place (.map members knot)).Passes := by
      intro h
      obtain ⟨s, hget', hprefix⟩ := (shaped_ref_iff hform).mp h.1
      rw [hget] at hget'
      obtain ⟨target, h⟩ := targetOf?_eq_some_iff.mpr ⟨s, Option.some.inj hget', hprefix⟩
      rw [htarget] at h
      cases h
    change Follows _ (pointer.spelled >>= fun shown => .error (.schema (.reference place shown)))
    have hspelling := (hjson _ _ hget).hasSpelling_iff
    by_cases hlong : pointer.HoldsOverlong
    · rw [Value.spelled, if_neg fun h => hspelling.mp h hlong]
      exact .halt hstop (Look.reports_misfit (hfails.mpr hlong))
    · rw [Value.spelled, if_pos (hspelling.mpr hlong)]
      exact .halt hstop (Look.reports_fault (mt hfails.mp hlong) rfl)
  | some target =>
    obtain ⟨s, rfl, hprefix⟩ := targetOf?_eq_some_iff.mp ⟨target, htarget⟩
    refine .pass ⟨.ref hform hget hprefix, fun h => ?_⟩ ?_
    · obtain ⟨n, hn, _⟩ := Value.holdsOverlong_scalar.mp (hfails.mp h)
      cases hn
    · exact ((plain_checks hjson hform (by simp)).bind_ok fun _ => ⟨_, rfl⟩).follows

theorem enumText_fails {v : Value} (h : v.OfJson) :
    FailsIff v.HoldsOverlong (.misfit .outOfRange) (enumText v) := by
  unfold enumText
  split
  · next s => exact .ok (by simp [Value.holdsOverlong_scalar]) s
  · exact h.text_fails.mapError _

theorem readEnum_follows (hjson : ∀ key v, members.get? key = some v → v.OfJson) {values : Value}
    (hform : HasForm members .enum) (hget : members.get? "enum" = some values) :
    Follows [⟨.shape, place, .map members knot⟩, ⟨.keywords, place, .map members knot⟩]
      (readEnum place members values) := by
  have hshaped := @shaped_enum_iff members knot hform
  have hfails := @unwritable_enum_iff members knot hform
  rw [hget] at hshaped hfails
  unfold readEnum
  split
  · next v vs k =>
    have hitems : ∀ w ∈ v :: vs, w.OfJson := by
      cases hjson _ _ hget with
      | seq hall => exact hall
    have htexts : FailsIff (∃ w ∈ v :: vs, w.HoldsOverlong) (.misfit .outOfRange)
        ((v :: vs).mapM enumText) :=
      FailsIff.mapM fun w hw => enumText_fails (hitems w hw)
    by_cases hlong : ∃ w ∈ v :: vs, w.HoldsOverlong
    · have hlook : (Look.mk .shape place (.map members knot)).Fails :=
        hfails.mpr ⟨_, k, rfl, hlong⟩
      rw [htexts.fails hlong]
      exact .halt (fun h => h.2 hlook) (Look.reports_misfit hlook)
    · obtain ⟨texts, htexts⟩ := htexts.succeeds hlong
      rw [htexts]
      refine .pass ⟨hshaped.mpr ⟨_, k, rfl, List.cons_ne_nil v vs⟩, fun h => ?_⟩ ?_
      · obtain ⟨items, _, heq, hitem⟩ := hfails.mp h
        cases heq
        exact hlong hitem
      · exact ((plain_checks hjson hform (by simp)).bind_ok fun _ => ⟨_, rfl⟩).follows
  · next hother =>
    have hempty : ∀ items k, some values = some (.seq items k) → items = [] := by
      intro items k heq
      cases items with
      | nil => rfl
      | cons w ws => exact absurd (Option.some.inj heq) (hother w ws k)
    refine .halt (fun h => ?_) (Look.reports_fault (fun h => ?_) rfl)
    · obtain ⟨items, k, heq, hne⟩ := hshaped.mp h.1
      exact hne (hempty items k heq)
    · obtain ⟨items, k, heq, v, hv, _⟩ := hfails.mp h
      rw [hempty items k heq] at hv
      cases hv

/-! ## Objects -/

theorem mem_of_mem_distinct {v : Value} {vs : List Value} (h : v ∈ distinct vs) : v ∈ vs := by
  have hfold : ∀ seen : List Value, v ∈ vs.foldl (fun seen w =>
      if seen.any (·.sameKey w) then seen else seen ++ [w]) seen → v ∈ seen ∨ v ∈ vs := by
    clear h
    induction vs with
    | nil => exact fun _ h => .inl h
    | cons w ws ih =>
      intro seen h
      rw [List.foldl_cons] at h
      obtain h | h := ih _ h
      · split at h
        · exact .inl h
        · obtain h | h := List.mem_append.mp h
          · exact .inl h
          · exact .inr (List.mem_singleton.mp h ▸ List.mem_cons_self)
      · exact .inr (List.mem_cons_of_mem _ h)
  exact (hfold [] h).resolve_left List.not_mem_nil

/-- Required names that are texts are found exactly if they stand where an object lists them. -/
theorem requiredNames_cases (htexts : ∀ items k, members.get? "required" = some (.seq items k) →
      ∀ v ∈ items, ∃ name, v = .str name) :
    (ListsRequired (members.get? "required") ∧ ∃ names, requiredNames place members = .ok names ∧
        ∀ v ∈ names, ∃ name, v = .str name) ∨
      ¬ ListsRequired (members.get? "required") ∧
        requiredNames place members = .error (.schema (.requiredShape place)) := by
  unfold requiredNames
  split
  · next h =>
    refine .inl ⟨?_, [], rfl, by simp⟩
    cases hget : members.get? "required" with
    | none => exact .absent
    | some v => exact .falsy (Value.present?_eq_none.mp h v hget)
  · next b h =>
    rw [(Value.present?_eq_some.mp h).1]
    exact .inl ⟨.mark, [], rfl, by simp⟩
  · next items k h =>
    have hget := (Value.present?_eq_some.mp h).1
    have hitems := htexts items k hget
    have hhashable : items.all Value.isHashable = true := by
      refine List.all_eq_true.mpr fun v hv => ?_
      obtain ⟨name, rfl⟩ := hitems v hv
      rfl
    rw [hget, if_pos hhashable]
    exact .inl ⟨.names, _, rfl, fun v hv => hitems v (mem_of_mem_distinct hv)⟩
  · next v hbool hseq h =>
    obtain ⟨hget, htruthy⟩ := Value.present?_eq_some.mp h
    refine .inr ⟨?_, rfl⟩
    rw [hget]
    intro hlists
    cases hlists with
    | falsy hfalsy =>
      rw [htruthy] at hfalsy
      cases hfalsy
    | mark => exact hbool _ rfl
    | names => exact hseq _ _ rfl

/-- Reading properties with texts as keys leaves texts, as keys and as required names. -/
theorem readEach_texts {required : List Value} {found : List (Scalar × Schema) × List Value}
    (hkeys : ∀ m ∈ members, ∃ key, m.1 = .str key) (hrequired : ∀ v ∈ required, ∃ name, v = .str name)
    (h : (readEach place required members).outcome = .ok found) :
    (∀ p ∈ found.1, ∃ key, p.1 = .str key) ∧ ∀ v ∈ found.2, ∃ name, v = .str name := by
  induction members generalizing required found with
  | nil =>
    cases h
    exact ⟨by simp, hrequired⟩
  | cons m rest ih =>
    obtain ⟨name, raw⟩ := m
    obtain ⟨⟨key, rfl⟩, hrest⟩ := List.forall_mem_cons.mp hkeys
    obtain ⟨_, _, noted, hnoted, schema, _, others, hothers, rfl⟩ := readEach_cons_eq_ok.mp h
    have htexts : ∀ v ∈ noted, ∃ name, v = .str name := by
      rw [noteMark_outcome] at hnoted
      cases hnoted
      split
      · intro v hv
        obtain hv | hv := List.mem_append.mp hv
        · exact hrequired v hv
        · exact ⟨key, List.mem_singleton.mp hv⟩
      · exact hrequired
    obtain ⟨hfound, hothers⟩ := ih hrest htexts hothers
    exact ⟨List.forall_mem_cons.mpr ⟨⟨key, rfl⟩, hfound⟩, hothers⟩

theorem propertiesOf_keys (h : (Value.map members knot).OfJson) :
    ∀ m ∈ propertiesOf members, ∃ key, m.1 = .str key := by
  unfold propertiesOf
  split
  · next properties k hget => exact (h.get? hget).keys
  · simp

theorem checkProperties_eq_error (h : ¬ Value.Mapped (members.get? "properties")) :
    checkProperties place members = .error (.schema (.propertiesShape place)) := by
  rw [← @checkProperties_eq_ok place] at h
  unfold checkProperties at h ⊢
  split at h
  · exact absurd rfl h
  · exact absurd rfl h
  · rfl

/-- An object is looked at, its properties are read, and then its keywords. -/
theorem readObject_follows {ls : List Look} (hjson : (Value.map members knot).OfJson)
    (hform : HasForm members .object)
    (htexts : (Look.mk .shape place (.map members knot)).ListsTexts)
    (heach : ∀ required,
      Follows ls (readProperties place required members).outcome) :
    Follows (⟨.shape, place, .map members knot⟩ :: (ls ++ [⟨.keywords, place, .map members knot⟩]))
      (do
        .ofExcept (checkProperties place members)
        let required ← Traced.ofExcept (requiredNames place members)
        let (properties, required) ← readProperties place required members
        .ofExcept (finishObject place members properties required) : Traced Schema).outcome := by
  have hwritable := @not_unwritable _ members knot hform (by simp)
  have hshaped := @shaped_object_iff members knot hform
  rw [Traced.outcome_bind, Traced.outcome_ofExcept]
  by_cases hmapped : Value.Mapped (members.get? "properties")
  · rw [checkProperties_eq_ok.mpr hmapped]
    change Follows _ (Traced.ofExcept (requiredNames place members) >>= _).outcome
    rw [Traced.outcome_bind, Traced.outcome_ofExcept]
    obtain ⟨hlists, names, hnames, htexts⟩ | ⟨hlists, hnames⟩ :=
      @requiredNames_cases place members (htexts members knot rfl hform)
    · rw [hnames]
      refine .pass ⟨hshaped.mpr ⟨hmapped, hlists⟩, hwritable⟩ ?_
      refine (heach names).trace fun found hfound => ?_
      rw [readProperties_eq] at hfound
      obtain ⟨hkeys, hrequired⟩ := readEach_texts (propertiesOf_keys hjson) htexts hfound
      exact (finishObject_checks (fun key v => hjson.get?) hform hkeys hrequired).follows
    · rw [hnames]
      exact .halt (fun h => hlists (hshaped.mp h.1).2) (Look.reports_fault hwritable rfl)
  · rw [checkProperties_eq_error hmapped]
    exact .halt (fun h => hmapped (hshaped.mp h.1).1) (Look.reports_fault hwritable rfl)

end Shapes

/-! ## All looks -/

mutual

theorem read_follows : ∀ (place : String) (v : Value), v.OfJson →
    (∀ look ∈ looks place v, look.ListsTexts) → Follows (looks place v) (read place v).outcome
  | place, .scalar .null, _, _ => .pass ⟨.null, nofun⟩ .done
  | place, .map members knot, h, htexts => by
    have hjson : ∀ key v, Members.get? key members = some v → v.OfJson := fun key v => h.get?
    rw [read_map]
    cases hkind : kindOf members with
    | ref pointer =>
      have hform : HasForm members .ref := hasForm_of_kindOf hkind
      rw [looks_leaf hform (by simp)]
      exact readRef_follows hjson (get?_of_kindOf_ref hkind)
    | enum values =>
      have hform : HasForm members .enum := hasForm_of_kindOf hkind
      rw [looks_leaf hform (by simp)]
      exact readEnum_follows hjson hform (get?_of_kindOf_enum hkind)
    | string =>
      have hform : HasForm members .string := hasForm_of_kindOf hkind
      exact leaf_follows hform (by simp) (readString_checks hjson hform)
    | number integer =>
      have hform : HasForm members .number := hasForm_of_kindOf hkind
      exact leaf_follows hform (by simp) (readNumber_checks hjson hform integer)
    | boolean =>
      have hform : HasForm members .boolean := hasForm_of_kindOf hkind
      exact leaf_follows hform (by simp) ((plain_checks hjson hform (by simp)).map _)
    | array =>
      have hform : HasForm members .array := hasForm_of_kindOf hkind
      rw [looks_array hform] at htexts ⊢
      refine .pass (shape_passes hform (by simp)) ?_
      refine (readItems_follows (place ++ "[]") members h.members fun look hlook => ?_).trace
        fun items _ => (finishArray_checks hjson hform items).follows
      exact htexts look (by simp [hlook])
    | object =>
      have hform : HasForm members .object := hasForm_of_kindOf hkind
      rw [looks_object hform] at htexts ⊢
      refine readObject_follows h hform (htexts _ List.mem_cons_self) fun required => ?_
      refine readProperties_follows place required members h.members fun look hlook => ?_
      exact htexts look (by simp [hlook])
    | any =>
      have hform : HasForm members .any := hasForm_of_kindOf hkind
      exact leaf_follows hform (by simp) ((plain_checks hjson hform (by simp)).map _)
  | place, .scalar (.bool _), _, _ => wrong_shape nofun nofun
  | place, .scalar (.int _), _, _ => wrong_shape nofun nofun
  | place, .scalar (.float _), _, _ => wrong_shape nofun nofun
  | place, .scalar (.str _), _, _ => wrong_shape nofun nofun
  | place, .seq _ _, _, _ => wrong_shape nofun nofun
  | place, .scalar (.date _), h, _ => nomatch h
  | place, .scalar (.moment _), h, _ => nomatch h
  | place, .scalar (.bytes _), h, _ => nomatch h
  | place, .pair _ _, h, _ => nomatch h
  | place, .set _, h, _ => nomatch h
  | place, .endless, h, _ => nomatch h

theorem readItems_follows : ∀ (place : String) (members : List (Scalar × Value)),
    (∀ m ∈ members, m.2.OfJson) → (∀ look ∈ itemLooks place members, look.ListsTexts) →
    Follows (itemLooks place members) (readItems place members).outcome
  | _, [], _, _ => .done
  | place, (k, v) :: rest, h, htexts => by
    rw [itemLooks] at htexts ⊢
    rw [readItems]
    split
    · next hk =>
      rw [if_pos hk] at htexts
      exact read_follows place v (List.forall_mem_cons.mp h).1 htexts
    · next hk =>
      rw [if_neg hk] at htexts
      exact readItems_follows place rest (List.forall_mem_cons.mp h).2 htexts

theorem readProperties_follows : ∀ (place : String) (required : List Value)
    (members : List (Scalar × Value)), (∀ m ∈ members, m.2.OfJson) →
    (∀ look ∈ propertyLooks place members, look.ListsTexts) →
    Follows (propertyLooks place members) (readProperties place required members).outcome
  | _, _, [], _, _ => .done
  | place, required, (k, v) :: rest, h, htexts => by
    obtain ⟨hv, hrest⟩ := List.forall_mem_cons.mp h
    by_cases hk : k = .str "properties"
    · cases v with
      | map properties knot =>
        rw [propertyLooks, if_pos hk] at htexts ⊢
        rw [readProperties, if_pos hk]
        exact readEach_follows place required properties hv.keys hv.members htexts
      | _ =>
        simp only [readProperties, propertyLooks, if_pos hk]
        exact .done
    · cases v with
      | _ =>
        simp only [readProperties, propertyLooks, if_neg hk] at htexts ⊢
        exact readProperties_follows place required rest hrest htexts

theorem readEach_follows : ∀ (place : String) (required : List Value)
    (properties : List (Scalar × Value)), (∀ m ∈ properties, ∃ key, m.1 = .str key) →
    (∀ m ∈ properties, m.2.OfJson) → (∀ look ∈ eachLooks place properties, look.ListsTexts) →
    Follows (eachLooks place properties) (readEach place required properties).outcome
  | _, _, [], _, _, _ => .done
  | place, required, (name, raw) :: rest, hkeys, h, htexts => by
    obtain ⟨⟨key, hkey⟩, hkeys⟩ := List.forall_mem_cons.mp hkeys
    obtain ⟨hraw, hrest⟩ := List.forall_mem_cons.mp h
    have hspelled : name.spelledPlain = .ok name.plain := by
      change name = .str key at hkey
      rw [hkey]
      rfl
    rw [eachLooks] at htexts ⊢
    obtain ⟨hfirst, hothers⟩ := List.forall_mem_append.mp htexts
    rw [readEach_cons, hspelled]
    change Follows _ (noteMark (place ++ "." ++ name.plain) name raw required >>= _).outcome
    rw [Traced.outcome_bind, noteMark_outcome]
    refine (read_follows (place ++ "." ++ name.plain) raw hraw hfirst).trace fun schema _ => ?_
    rw [← List.append_nil (eachLooks place rest)]
    exact (readEach_follows place _ rest hkeys hrest hothers).trace fun found _ => .done

end

/-! ## What is not looked at -/

/-- The keys under which a schema of some form is read, once its form is known. -/
def keysRead : Form → List String
  | .ref => ["nullable", "default", "description", "$ref"]
  | .enum => ["nullable", "default", "description", "enum"]
  | .string => ["nullable", "default", "description", "format", "pattern", "minLength", "maxLength"]
  | .number => ["nullable", "default", "description", "type", "minimum", "maximum"]
  | .array => ["nullable", "default", "description", "items", "minItems", "maxItems"]
  | .object => ["nullable", "default", "description", "properties", "required"]
  | _ => ["nullable", "default", "description"]

section Unread

variable {place : String} {members others : Members} {form : Form}

theorem integer_of_kindOf {integer : Bool} (h : kindOf members = .number integer) :
    integer = ((members.get? "type").getD .null).isStr "integer" := by
  cases hasForm_of_kindOf h with
  | number href htyped =>
    have href := not_has_iff.mp href
    obtain htyped | htyped := htyped
    · have htype : members.get? "type" = some (.str "number") := htyped
      simp only [kindOf, href, htype] at h
      rw [htype]
      cases henum : members.get? "enum" with
      | _ =>
        rw [henum] at h
        cases h
        rfl
    · have htype : members.get? "type" = some (.str "integer") := htyped
      simp only [kindOf, href, htype] at h
      rw [htype]
      cases henum : members.get? "enum" with
      | _ =>
        rw [henum] at h
        cases h
        rfl

/-- A form with what its own keys say is a kind. -/
def Form.kind (raw : Members) : Form → Kind
  | .ref => .ref ((raw.get? "$ref").getD .null)
  | .enum => .enum ((raw.get? "enum").getD .null)
  | .string => .string
  | .number => .number (((raw.get? "type").getD .null).isStr "integer")
  | .boolean => .boolean
  | .array => .array
  | .object => .object
  | .any => .any

theorem kindOf_eq (h : HasForm members form) : kindOf members = form.kind members := by
  have hform := hasForm_iff.mp h
  subst hform
  cases hkind : kindOf members with
  | ref pointer => simp [Kind.form, Form.kind, get?_of_kindOf_ref hkind]
  | enum values => simp [Kind.form, Form.kind, get?_of_kindOf_enum hkind]
  | number integer => simp [Kind.form, Form.kind, ← integer_of_kindOf hkind]
  | _ => rfl

/-- Two mappings of one form are read alike if they say the same under the keys of that form. -/
theorem read_eq_of_agree {knot k : Nat} (h : HasForm members form) (h' : HasForm others form)
    (hsame : ∀ key ∈ keysRead form, members.get? key = others.get? key) :
    (read place (.map members knot)).outcome = (read place (.map others k)).outcome := by
  have htraits : readTraits place members = readTraits place others := by
    unfold readTraits
    rw [hsame "nullable" (by cases form <;> simp [keysRead]),
      hsame "default" (by cases form <;> simp [keysRead]),
      hsame "description" (by cases form <;> simp [keysRead])]
  rw [read_map, read_map, kindOf_eq h, kindOf_eq h']
  cases form with
  | ref =>
    have hpointer := hsame "$ref" (by simp [keysRead])
    simp only [Form.kind, readRef, htraits, hpointer]
  | enum =>
    have hvalues := hsame "enum" (by simp [keysRead])
    simp only [Form.kind, readEnum, htraits, hvalues]
  | string =>
    have hformat := hsame "format" (by simp [keysRead])
    have hpattern := hsame "pattern" (by simp [keysRead])
    have hmin := hsame "minLength" (by simp [keysRead])
    have hmax := hsame "maxLength" (by simp [keysRead])
    simp only [Form.kind, readString, htraits, hformat, hpattern, hmin, hmax]
  | number =>
    have htype := hsame "type" (by simp [keysRead])
    have hmin := hsame "minimum" (by simp [keysRead])
    have hmax := hsame "maximum" (by simp [keysRead])
    simp only [Form.kind, readNumber, htraits, htype, hmin, hmax]
  | array =>
    have hitems := hsame "items" (by simp [keysRead])
    have hmin := hsame "minItems" (by simp [keysRead])
    have hmax := hsame "maxItems" (by simp [keysRead])
    simp only [Form.kind, readItems_eq, finishArray, htraits, hitems, hmin, hmax]
  | object =>
    have hproperties := hsame "properties" (by simp [keysRead])
    have hrequired := hsame "required" (by simp [keysRead])
    simp only [Form.kind, checkProperties, requiredNames, readProperties_eq, propertiesOf,
      finishObject, htraits, hproperties, hrequired]
  | boolean => simp only [Form.kind, htraits]
  | any => simp only [Form.kind, htraits]

end Unread

/-! ## What is accepted -/

/-- A schema is read exactly if every look passes; if one does not, the first such is reported, and
whatever the keys hold that a form does not read makes no difference. -/
theorem read_accepts_grammar {raw : Value} (place : String) (hjson : raw.OfJson)
    (htexts : ∀ look ∈ looks place raw, look.ListsTexts) :
    ((∃ s, (read place raw).outcome = .ok s) ↔ ∀ look ∈ looks place raw, look.Passes) ∧
    (∀ (before : List Look) (look : Look) (after : List Look),
      looks place raw = before ++ look :: after → (∀ earlier ∈ before, earlier.Passes) →
      ¬ look.Passes → ∃ i, (read place raw).outcome = .error i ∧ look.Reports i) ∧
    ∀ (members others : Members) (knot k : Nat) (form : Form), raw = .map members knot →
      HasForm members form → HasForm others form →
      (∀ key ∈ keysRead form, members.get? key = others.get? key) →
      (read place raw).outcome = (read place (.map others k)).outcome := by
  have hfollows := read_follows place raw hjson htexts
  refine ⟨hfollows.exists_ok_iff, fun before look after => hfollows.first_reported, ?_⟩
  intro members others knot k form hraw hform hother hsame
  rw [hraw]
  exact read_eq_of_agree hform hother hsame

/-- A name whose least length is no number. -/
def dogName : Members := [(.str "type", .str "string"), (.str "minLength", .str "short")]

def dog : Members :=
  [(.str "required", .seq [.str "name"] 0),
    (.str "properties", .map [(.str "name", .map dogName 0), (.str "owner", .int 5)] 0)]

def doghouse : Members := [(.str "items", .map dog 0)]

/-- The keywords of the name are looked at before the owner, which is no schema. -/
theorem read_accepts_grammar_doghouse : (Value.map doghouse 0).OfJson ∧
    (∀ look ∈ looks "kennel" (.map doghouse 0), look.ListsTexts) ∧
    ∃ fault, (read "kennel" (.map doghouse 0)).outcome = .error (.schema fault) ∧
      "kennel[].name: ".toList <+: fault.message.toList := by
  have hname : (Value.map dogName 0).OfJson := by
    refine .map (by simp [dogName]) ?_
    simp only [dogName, List.forall_mem_cons]
    exact ⟨.str, .str, by simp⟩
  have hproperties :
      (Value.map [(.str "name", .map dogName 0), (.str "owner", .int 5)] 0).OfJson := by
    refine .map (by simp) ?_
    simp only [List.forall_mem_cons]
    exact ⟨hname, .int, by simp⟩
  have hdog : (Value.map dog 0).OfJson := by
    refine .map (by simp [dog]) ?_
    simp only [dog, List.forall_mem_cons]
    exact ⟨.seq (by simpa using .str), hproperties, by simp⟩
  have hjson : (Value.map doghouse 0).OfJson := by
    refine .map (by simp [doghouse]) ?_
    simp only [doghouse, List.forall_mem_cons]
    exact ⟨hdog, by simp⟩
  have hlooks : looks "kennel" (.map doghouse 0) =
      [⟨.shape, "kennel", .map doghouse 0⟩, ⟨.shape, "kennel[]", .map dog 0⟩,
        ⟨.shape, "kennel[].name", .map dogName 0⟩] ++
      ⟨.keywords, "kennel[].name", .map dogName 0⟩ ::
      [⟨.shape, "kennel[].owner", .int 5⟩, ⟨.keywords, "kennel[]", .map dog 0⟩,
        ⟨.keywords, "kennel", .map doghouse 0⟩] := rfl
  have harray : HasForm doghouse .array := by decide
  have hobject : HasForm dog .object := by decide
  have hstring : HasForm dogName .string := by decide
  have htexts : ∀ look ∈ looks "kennel" (.map doghouse 0), look.ListsTexts := by
    intro look hlook members knot hraw hform items k hget
    rw [hlooks] at hlook
    simp only [List.cons_append, List.nil_append, List.mem_cons, List.not_mem_nil, or_false] at hlook
    have hitems : items = [.str "name"] := by
      obtain rfl | rfl | rfl | rfl | rfl | rfl | rfl := hlook
      all_goals cases hraw
      all_goals cases hget
      all_goals rfl
    simp [hitems]
  have hbefore : ∀ earlier ∈ [⟨.shape, "kennel", .map doghouse 0⟩,
      ⟨.shape, "kennel[]", .map dog 0⟩, ⟨.shape, "kennel[].name", .map dogName 0⟩],
      Look.Passes earlier := by
    have hshaped : Shaped (.map dog 0) := .object hobject (Value.mapped_of_get? rfl) .names
    simp only [List.forall_mem_cons]
    exact ⟨shape_passes harray (by simp), ⟨hshaped, not_unwritable hobject (by simp)⟩,
      shape_passes hstring (by simp), by simp⟩
  have hstop : ¬ (Look.mk .keywords "kennel[].name" (.map dogName 0)).Passes := by
    intro hpasses
    have hfits := hpasses.1 dogName 0 rfl .string hstring ("minLength", .integer)
      (by simp [keywords])
    cases hfits with
    | integer hinteger =>
      cases hinteger with
      | text hread => cases hread
  obtain ⟨i, hi, hreports⟩ :=
    (read_accepts_grammar "kennel" hjson htexts).2.1 _ _ _ hlooks hbefore hstop
  obtain ⟨fault, rfl, hmessage⟩ := hreports.fault id
  exact ⟨hjson, htexts, fault, hi, hmessage⟩

/-- The least whole number of too many digits. -/
def overlong : Int := Nat.pow 10 Text.maxDigits

def overlongEnum : Members := [(.str "enum", .seq [.int overlong] 0)]

/-- A whole number of too many digits is a value of JSON, and an enumeration of it is valid in every
aspect, but it is neither read nor reported. -/
theorem read_accepts_grammar_fails : (Value.map overlongEnum 0).OfJson ∧
    (∀ look ∈ looks "schema" (.map overlongEnum 0), look.ListsTexts ∧ look.Valid) ∧
    (read "schema" (.map overlongEnum 0)).outcome = .error (.misfit .outOfRange) := by
  have hjson : (Value.map overlongEnum 0).OfJson := by
    refine .map (by simp [overlongEnum]) ?_
    simp only [overlongEnum, List.forall_mem_cons]
    exact ⟨.seq (by simpa using .int), by simp⟩
  have henum : HasForm overlongEnum .enum := hasForm_iff.mpr rfl
  have hlooks : looks "schema" (.map overlongEnum 0) =
      [⟨.shape, "schema", .map overlongEnum 0⟩, ⟨.keywords, "schema", .map overlongEnum 0⟩] :=
    looks_leaf henum (by simp)
  have hvalid : ∀ look ∈ looks "schema" (.map overlongEnum 0), look.ListsTexts ∧ look.Valid := by
    have hobject : ¬ HasForm overlongEnum .object := fun hobject => by cases henum.unique hobject
    rw [hlooks]
    simp only [List.forall_mem_cons]
    refine ⟨⟨?_, .enum henum rfl (by simp)⟩, ⟨?_, ?_⟩, by simp⟩
    · intro members knot hraw hform
      cases hraw
      exact absurd hform hobject
    · intro members knot hraw hform
      cases hraw
      exact absurd hform hobject
    · intro members knot hraw
      cases hraw
      refine (keyworded_iff henum).mpr ?_
      simp only [keywords, List.forall_mem_cons]
      exact ⟨.absent, by simp⟩
  have hlong : Text.hasDigits overlong = false :=
    decide_eq_false (by rw [overlong, Int.natAbs_natCast]; exact lt_irrefl _)
  have hfails : (Look.mk .shape "schema" (.map overlongEnum 0)).Fails :=
    .value henum rfl List.mem_cons_self ⟨_, .whole, hlong⟩
  have hfollows := read_follows "schema" (.map overlongEnum 0) hjson fun look hlook =>
    (hvalid look hlook).1
  obtain ⟨i, hi, hreports⟩ := @Follows.first_reported _ _ _ _ hfollows [] _ hlooks (by simp)
    fun hpasses => hpasses.2 hfails
  rw [hreports.fails hfails] at hi
  exact ⟨hjson, hvalid, hi⟩

end Schema

end ApiContract

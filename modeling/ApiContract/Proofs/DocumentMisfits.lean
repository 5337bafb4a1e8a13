import ApiContract.Proofs.OperationMisfits

/-!
Misfits in descriptions. A description is checked in many places, and a fault that is found there is
reported; the places that are not checked are listed here. Reading a description stops at one of
them exactly if it is the first thing that is wrong.
-/

namespace ApiContract

variable {α β : Type}

namespace Document

variable {root : Value}

/-! ## Paths -/

/-- An entry of a path item is passed over, or its operation can be read. -/
def EntryReads (root : Value) (path : Scalar) (shared : Value) (entry : Scalar × Value) : Prop :=
  methodOf? entry.1 = .ok none ∨ ∃ method members knot op, methodOf? entry.1 = .ok (some method) ∧
    entry.2 = .map members knot ∧ (readOperation root method path shared members).outcome = .ok op

/-- The first thing in an entry of a path item that cannot be read is a misfit. -/
inductive EntryTrips (root : Value) (path : Scalar) (shared : Value) : Scalar × Value → Prop
  | key {key : Scalar} {raw : Value} : (∀ s, key ≠ .str s) → (∀ octets, key ≠ .bytes octets) →
      EntryTrips root path shared (key, raw)
  | shape {key : Scalar} {raw : Value} {method : String} : methodOf? key = .ok (some method) →
      (∀ members knot, raw ≠ .map members knot) → path.hasSpelling = false →
      EntryTrips root path shared (key, raw)
  | operation {key : Scalar} {members : Members} {knot : Nat} {method : String} :
      methodOf? key = .ok (some method) → OperationTrips root path shared members →
      EntryTrips root path shared (key, .map members knot)

theorem methodOf?_eq_error {key : Scalar} {i : Issue} (h : methodOf? key = .error i) :
    i = .misfit .noMembers ∧ (∀ s, key ≠ .str s) ∧ ∀ octets, key ≠ .bytes octets := by
  cases key with
  | str s => cases h
  | bytes octets => cases h
  | _ =>
    cases h
    exact ⟨rfl, nofun, nofun⟩

theorem key_of_methodOf? {key : Scalar} {found : Option String} (h : methodOf? key = .ok found)
    (htext : ∀ s, key ≠ .str s) : ∃ octets, key = .bytes octets := by
  cases key with
  | str s => exact absurd rfl (htext s)
  | bytes octets => exact ⟨octets, rfl⟩
  | _ => cases h

section Entry

variable {path key : Scalar} {shared raw : Value} {method : String}

theorem not_entryTrips (hkey : methodOf? key = .ok none) :
    ¬ EntryTrips root path shared (key, raw) := by
  intro h
  cases h with
  | key htext hoctets =>
    obtain ⟨octets, h⟩ := key_of_methodOf? hkey htext
    exact hoctets octets h
  | shape hfound _ _ =>
    rw [hkey] at hfound
    cases hfound
  | operation hfound _ =>
    rw [hkey] at hfound
    cases hfound

theorem entryReads_iff (hkey : methodOf? key = .ok (some method)) :
    EntryReads root path shared (key, raw) ↔ ∃ members knot op, raw = .map members knot ∧
      (readOperation root method path shared members).outcome = .ok op := by
  constructor
  · rintro (hnone | ⟨_, members, knot, op, hmethod, hraw, hop⟩)
    · cases hkey.symm.trans hnone
    · cases hkey.symm.trans hmethod
      exact ⟨members, knot, op, hraw, hop⟩
  · rintro ⟨members, knot, op, hraw, hop⟩
    exact .inr ⟨method, members, knot, op, hkey, hraw, hop⟩

theorem entryTrips_iff (hkey : methodOf? key = .ok (some method)) :
    EntryTrips root path shared (key, raw) ↔
      (∃ members knot, raw = .map members knot ∧ OperationTrips root path shared members) ∨
      (∀ members knot, raw ≠ .map members knot) ∧ path.hasSpelling = false := by
  constructor
  · intro h
    cases h with
    | key htext hoctets =>
      obtain ⟨octets, h⟩ := key_of_methodOf? hkey htext
      exact absurd h (hoctets octets)
    | shape _ hshape hno => exact .inr ⟨hshape, hno⟩
    | operation _ htrips => exact .inl ⟨_, _, rfl, htrips⟩
  · rintro (⟨members, knot, rfl, htrips⟩ | ⟨hshape, hno⟩)
    · exact .operation hkey htrips
    · exact .shape hkey hshape hno

end Entry

theorem readPathItem_stumbles (root : Value) (path : Scalar) (shared : Value)
    (item : List (Scalar × Value)) :
    StumblesIff (FirstFails (EntryReads root path shared) (EntryTrips root path shared) item)
      (readPathItem root path shared item).outcome := by
  induction item with
  | nil => exact (StumblesIff.ok []).congr (iff_of_false id firstFails_nil)
  | cons entry rest ih =>
    obtain ⟨key, raw⟩ := entry
    rw [firstFails_cons, readPathItem, Traced.outcome_bind, Traced.outcome_ofExcept]
    cases hkey : methodOf? key with
    | error i =>
      obtain ⟨rfl, htext, hoctets⟩ := methodOf?_eq_error hkey
      exact (StumblesIff.misfit _).congr (iff_of_true trivial (.inl (.key htext hoctets)))
    | ok found =>
      cases found with
      | none =>
        refine ih.congr ?_
        rw [or_iff_right (not_entryTrips hkey), and_iff_right (.inl hkey)]
      | some method =>
        rw [entryReads_iff hkey, entryTrips_iff hkey]
        cases raw with
        | map members knot =>
          have hboth := (readOperation_stumbles root method path shared members).trace
            (f := fun op => readPathItem root path shared rest >>= fun ops => pure (op :: ops))
            fun op _ => ih.trace_steady fun ops _ => .ok (op :: ops)
          refine hboth.congr ?_
          constructor
          · rintro (htrips | ⟨op, hop, hrest⟩)
            · exact .inl (.inl ⟨members, knot, rfl, htrips⟩)
            · exact .inr ⟨⟨members, knot, op, rfl, hop⟩, hrest⟩
          · rintro ((⟨_, _, ⟨⟩, htrips⟩ | ⟨hshape, _⟩) | ⟨⟨_, _, op, ⟨⟩, hop⟩, hrest⟩)
            · exact .inl htrips
            · exact absurd rfl (hshape members knot)
            · exact .inr ⟨op, hop, hrest⟩
        | _ =>
          have hstop := path.spelledPlain_stumbles.trace_steady (x := .ofExcept path.spelledPlain)
            (f := fun text => .fail (.document (.operationShape
              (String.ofList (Text.upper key.plain.toList) ++ " " ++ text))))
            fun _ _ => StumblesIff.document (α := List Operation) _
          exact hstop.congr (by simp)

/-- The operations of a path can be read. -/
def PathReads (root : Value) (entry : Scalar × Value) : Prop :=
  ∃ item knot ops, entry.2 = .map item knot ∧
    (readPathItem root entry.1 (orEmptySeq (Members.get? "parameters" item)) item).outcome = .ok ops

/-- The first thing in a path that cannot be read is a misfit. -/
inductive PathTrips (root : Value) : Scalar × Value → Prop
  | shape {path : Scalar} {raw : Value} : (∀ item knot, raw ≠ .map item knot) →
      path.hasSpelling = false → PathTrips root (path, raw)
  | entry {path : Scalar} {item : Members} {knot : Nat} :
      FirstFails (EntryReads root path (orEmptySeq (item.get? "parameters")))
        (EntryTrips root path (orEmptySeq (item.get? "parameters"))) item →
      PathTrips root (path, .map item knot)

theorem readPaths_stumbles (root : Value) (paths : List (Scalar × Value)) :
    StumblesIff (FirstFails (PathReads root) (PathTrips root) paths)
      (readPaths root paths).outcome := by
  induction paths with
  | nil => exact (StumblesIff.ok []).congr (iff_of_false id firstFails_nil)
  | cons entry rest ih =>
    obtain ⟨path, raw⟩ := entry
    rw [firstFails_cons]
    cases raw with
    | map item knot =>
      refine StumblesIff.congr (.trace (readPathItem_stumbles root path _ item) fun ops _ =>
        ih.trace_steady fun _ _ => .ok _) ?_
      constructor
      · rintro (htrips | ⟨ops, hops, hrest⟩)
        · exact .inl (.entry htrips)
        · exact .inr ⟨⟨item, knot, ops, rfl, hops⟩, hrest⟩
      · rintro (htrips | ⟨⟨_, _, ops, ⟨⟩, hops⟩, hrest⟩)
        · cases htrips with
          | shape hshape _ => exact absurd rfl (hshape item knot)
          | entry htrips => exact .inl htrips
        · exact .inr ⟨ops, hops, hrest⟩
    | _ =>
      refine StumblesIff.congr (path.spelledPlain_stumbles.trace_steady fun _ _ => .document _) ?_
      constructor
      · exact fun hno => .inl (.shape nofun hno)
      · rintro (⟨_, hno⟩ | ⟨⟨_, _, _, ⟨⟩, _⟩, _⟩)
        exact hno

/-! ## Components -/

/-- A schema without parts that would have to be named. -/
def Unparted : Schema → Prop
  | .array .. => False
  | .object _ (_ :: _) _ => False
  | _ => True

theorem message?_of_reported {i : Issue} (h : i.IsReported) : i.message?.isSome = true := by
  cases i with
  | document f => rfl
  | schema f => rfl
  | _ => exact h.elim

theorem readNameless_stumbles (raw : Value) :
    StumblesIff (¬ ∃ s, (Schema.read "" raw).outcome = .ok s ∧ Unparted s)
      (readNameless raw).outcome := by
  have hreported := (Schema.read_stumbles "" raw).reported
  unfold readNameless
  cases h : (Schema.read "" raw).outcome with
  | error i =>
    have hno : ¬ ∃ s, (.error i : Except Issue Schema) = .ok s ∧ Unparted s := by simp
    simp only [h]
    split
    next => exact (StumblesIff.misfit _).congr (iff_of_true trivial hno)
    next hsilent =>
      rcases hreported i h with hi | ⟨kind, rfl⟩
      · exact absurd (message?_of_reported hi) hsilent
      · exact (StumblesIff.misfit kind).congr (iff_of_true trivial hno)
  | ok s =>
    simp only [h, Except.ok.injEq, exists_eq_left']
    cases s with
    | array traits items min max =>
      exact (StumblesIff.misfit _).congr (iff_of_true trivial id)
    | object traits properties required =>
      cases properties with
      | nil => exact (StumblesIff.ok _).congr (iff_of_false id (not_not_intro trivial))
      | cons p ps => exact (StumblesIff.misfit _).congr (iff_of_true trivial id)
    | _ => exact (StumblesIff.ok _).congr (iff_of_false id (not_not_intro trivial))

/-- The first thing in a named schema that cannot be read is a misfit. A name that cannot be written
is one as soon as something has to be said about the schema. -/
inductive ComponentTrips : Scalar × Value → Prop
  | schema {name : Scalar} {raw : Value} : name.hasSpelling = true → Schema.Trips raw →
      ComponentTrips (name, raw)
  | name {name : Scalar} {raw : Value} : name.hasSpelling = false →
      (¬ ∃ s, (Schema.read "" raw).outcome = .ok s ∧ Unparted s) → ComponentTrips (name, raw)

theorem readComponent_stumbles (name : Scalar) (raw : Value) :
    StumblesIff (ComponentTrips (name, raw)) (readComponent name raw).outcome := by
  unfold readComponent Scalar.spelledPlain
  by_cases h : name.hasSpelling = true
  · rw [if_pos h]
    refine (Schema.read_stumbles name.plain raw).congr ⟨.schema h, ?_⟩
    rintro (⟨_, htrips⟩ | ⟨hno, _⟩)
    · exact htrips
    · rw [h] at hno
      cases hno
  · rw [if_neg h]
    refine (readNameless_stumbles raw).congr ⟨.name (by simpa using h), ?_⟩
    rintro (⟨hspelled, _⟩ | ⟨_, hraw⟩)
    · exact absurd hspelled h
    · exact hraw

/-- A named schema can be read. -/
def ComponentReads (entry : Scalar × Value) : Prop :=
  ∃ s, (readComponent entry.1 entry.2).outcome = .ok s

theorem readSchemas_stumbles (components : List (Scalar × Value)) :
    StumblesIff (FirstFails ComponentReads ComponentTrips components)
      (readSchemas components).outcome := by
  induction components with
  | nil => exact (StumblesIff.ok []).congr (iff_of_false id firstFails_nil)
  | cons entry rest ih =>
    obtain ⟨name, raw⟩ := entry
    rw [firstFails_cons]
    refine StumblesIff.congr (.trace (readComponent_stumbles name raw) fun s _ =>
      ih.trace_steady fun _ _ => .ok _) ?_
    exact or_congr_right exists_and_right

/-! ## Descriptions -/

theorem finish_steady (schemas : List (Scalar × Schema)) (ops : List Operation)
    (urls : List Value) : Steady (finish schemas ops urls) := by
  refine (fieldResult_steady _ _).bind_steady fun _ _ => ?_
  exact (fieldResult_steady _ _).bind_steady fun _ _ => .ok _

/-- The named schemas of a description can be read. -/
def SchemasRead (root : Value) : Prop :=
  ∃ raw knot schemas, schemaSection root = .ok (.map raw knot) ∧
    (readSchemas raw).outcome = .ok schemas

/-- The operations of a description can be read. -/
def PathsRead (root : Value) : Prop :=
  ∃ raw knot ops, pathSection root = .ok (.map raw knot) ∧ (readPaths root raw).outcome = .ok ops

/-- The first thing in a description that cannot be read is a misfit. Named schemas come first, then
paths, then servers. -/
inductive Trips : Value → Prop
  | components {members : Members} {knot : Nat} :
      ¬ Value.Mapped (members.get? "components") → Trips (.map members knot)
  | component {members raw : Members} {knot k : Nat} :
      schemaSection (.map members knot) = .ok (.map raw k) →
      FirstFails ComponentReads ComponentTrips raw → Trips (.map members knot)
  | path {members raw : Members} {knot k : Nat} : SchemasRead (.map members knot) →
      pathSection (.map members knot) = .ok (.map raw k) →
      FirstFails (PathReads (.map members knot)) (PathTrips (.map members knot)) raw →
      Trips (.map members knot)
  | servers {members : Members} {knot : Nat} : SchemasRead (.map members knot) →
      PathsRead (.map members knot) → (orEmptySeq (members.get? "servers")).loops = false →
      Trips (.map members knot)

theorem schemaSection_stumbles (members : Members) (knot : Nat) :
    StumblesIff (¬ Value.Mapped (members.get? "components"))
      (schemaSection (.map members knot)) :=
  (section_stumbles (members.get? "components")).bind_steady fun _ _ => .ok _

theorem pathSection_steady (members : Members) (knot : Nat) :
    Steady (pathSection (.map members knot)) :=
  .ok _

theorem serverUrls_stumbles (members : Members) (knot : Nat) :
    StumblesIff ((orEmptySeq (members.get? "servers")).loops = false)
      (serverUrls (.map members knot)) :=
  (elementsOf_stumbles (orEmptySeq (members.get? "servers"))).bind_steady fun _ _ => .ok _

/-- A section has to be a mapping; then its members are walked through, and then what is left. -/
theorem walk_stumbles {x : Except Issue Value} {h : Value → Traced β} {f : Members → Traced α}
    {k : α → Traced β} {S U : Prop} {T : Members → Prop} (hx : StumblesIff S x)
    (hmap : ∀ raw knot, h (.map raw knot) = f raw >>= k)
    (hother : ∀ v, (∀ raw knot, v ≠ .map raw knot) → Steady (h v).outcome)
    (hf : ∀ raw, StumblesIff (T raw) (f raw).outcome) (hk : ∀ a, StumblesIff U (k a).outcome) :
    StumblesIff (S ∨ (∃ raw knot, x = .ok (.map raw knot) ∧ T raw) ∨
        (∃ raw knot a, x = .ok (.map raw knot) ∧ (f raw).outcome = .ok a) ∧ U)
      (Traced.ofExcept x >>= h).outcome := by
  rw [Traced.outcome_bind, Traced.outcome_ofExcept]
  refine (hx.bind (T := fun v => ∃ raw knot, v = .map raw knot ∧
    (T raw ∨ ∃ a, (f raw).outcome = .ok a ∧ U)) fun v _ => ?_).congr ?_
  · cases v with
    | map raw knot =>
      rw [hmap]
      exact ((hf raw).trace fun a _ => hk a).congr (by simp)
    | _ =>
      refine StumblesIff.congr (hother _ ?_) (by simp)
      nofun
  · refine or_congr_right ⟨?_, ?_⟩
    · rintro ⟨_, hv, raw, knot, rfl, hraw | ⟨a, ha, hu⟩⟩
      · exact .inl ⟨raw, knot, hv, hraw⟩
      · exact .inr ⟨⟨raw, knot, a, hv, ha⟩, hu⟩
    · rintro (⟨raw, knot, hv, hraw⟩ | ⟨⟨raw, knot, a, hv, ha⟩, hu⟩)
      · exact ⟨_, hv, raw, knot, rfl, .inl hraw⟩
      · exact ⟨_, hv, raw, knot, rfl, .inr ⟨a, ha, hu⟩⟩

theorem read_stumbles (v : Value) : StumblesIff (Trips v) (read v).outcome := by
  cases v with
  | map members knot =>
    have hrest (schemas : List (Scalar × Schema)) (operations : List Operation) :=
      StumblesIff.trace_steady (x := .ofExcept (serverUrls (.map members knot)))
        (f := fun urls => .ofExcept (finish schemas operations urls))
        (serverUrls_stumbles members knot) fun urls _ => finish_steady schemas operations urls
    refine StumblesIff.congr (walk_stumbles (schemaSection_stumbles members knot)
      (fun _ _ => rfl) (fun v hv => ?_) readSchemas_stumbles fun schemas =>
        walk_stumbles (pathSection_steady members knot) (fun _ _ => rfl) (fun v hv => ?_)
          (readPaths_stumbles _) fun operations => hrest schemas operations) ?_
    · cases v with
      | map raw k => exact absurd rfl (hv raw k)
      | _ => exact .document _
    · cases v with
      | map raw k => exact absurd rfl (hv raw k)
      | _ => exact .document _
    · constructor
      · rintro (hno | ⟨raw, k, hraw, hfirst⟩ | ⟨hschemas, hfalse | ⟨raw, k, hraw, hfirst⟩ | hservers⟩)
        · exact .components hno
        · exact .component hraw hfirst
        · exact hfalse.elim
        · exact .path hschemas hraw hfirst
        · exact .servers hschemas hservers.1 hservers.2
      · rintro (hno | ⟨hraw, hfirst⟩ | ⟨hschemas, hraw, hfirst⟩ | ⟨hschemas, hpaths, hservers⟩)
        · exact .inl hno
        · exact .inr (.inl ⟨_, _, hraw, hfirst⟩)
        · exact .inr (.inr ⟨hschemas, .inr (.inl ⟨_, _, hraw, hfirst⟩)⟩)
        · exact .inr (.inr ⟨hschemas, .inr (.inr ⟨hpaths, hservers⟩)⟩)
  | _ => exact (StumblesIff.document _).congr (iff_of_false id nofun)

/-- A description gives a document, or what is wrong with it is reported as a fault of the description
or of a schema, unless the first thing wrong in it is a misfit. -/
theorem read_answers_iff (v : Value) : Answers (read v).outcome ↔ ¬ Trips v := by
  have hread := read_stumbles v
  rw [← not_iff_not, not_not, not_answers_iff hread]
  exact ⟨fun ⟨kind, hkind⟩ => hread.only kind hkind, hread.stops⟩

/-- Components that are a list and no mapping. -/
def listedComponents : Value := .map [(.str "components", .seq [.str "Pet"] 0)] 0

theorem read_answers_fails : ¬ Answers (read listedComponents).outcome :=
  (not_answers_iff (read_stumbles _)).mpr ⟨.noMembers, rfl⟩

end Document

end ApiContract

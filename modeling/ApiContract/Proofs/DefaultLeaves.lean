import ApiContract.Proofs.SchemaVisits
import ApiContract.Validator.Construction

/-!
Which defaults have a literal. A walk through a value, depth first and in order, comes by its keys
and its leaves. Each key has to be spelled and each leaf has to be data that JSON has; the first
that fails stops the walk, and a leaf is then reported with the path that leads to it. A literal
that is made has the shape of its value.
-/

namespace ApiContract

variable {α β : Type}

/-! ## The walk -/

/-- A step down into a value, to an item or to what stands under a key. -/
inductive Value.Turn where
  | item (index : Nat)
  | member (key : Scalar)

def Value.Turn.text : Value.Turn → String
  | item index => s!"[{index}]"
  | member key => "." ++ key.plain

/-- A place extended by a path. -/
def Value.placeAt (place : String) (path : List Value.Turn) : String :=
  path.foldl (fun here turn => here ++ turn.text) place

/-- What a walk through a value comes by. -/
inductive Value.Visit where
  | key (k : Scalar)
  | leaf (path : List Value.Turn) (v : Value)

namespace Value

@[simp] theorem placeAt_nil (place : String) : placeAt place [] = place := rfl

theorem placeAt_snoc (place : String) (path : List Turn) (turn : Turn) :
    placeAt place (path ++ [turn]) = placeAt place path ++ turn.text := by
  rw [placeAt, List.foldl_append]
  rfl

mutual

/-- The keys and leaves of a value at a path, depth first and in order. -/
def visits (path : List Turn) : Value → List Visit
  | .seq items _ => itemVisits path 0 items
  | .map members _ => memberVisits path members
  | .pair a b => visits (path ++ [.item 0]) a ++ visits (path ++ [.item 1]) b
  | v => [.leaf path v]

/-- The visits to items, the first of them with number `index`. -/
def itemVisits (path : List Turn) (index : Nat) : List Value → List Visit
  | [] => []
  | v :: vs => visits (path ++ [.item index]) v ++ itemVisits path (index + 1) vs

def memberVisits (path : List Turn) : List (Scalar × Value) → List Visit
  | [] => []
  | (k, v) :: rest => .key k :: (visits (path ++ [.member k]) v ++ memberVisits path rest)

end

/-- A leaf that is null, a truth value, a finite number or a text. -/
inductive Suits : Value → Prop
  | null : Suits .null
  | bool {b : Bool} : Suits (.bool b)
  | int {n : Int} : Suits (.int n)
  | float {x : Binary64} : x.isFinite = true → Suits (.float x)
  | str {s : String} : Suits (.str s)

/-- A float that is not finite, or a leaf that is neither null nor a truth value, number or text. -/
inductive Offends : Value → Prop
  | float {x : Binary64} : x.isFinite = false → Offends (.float x)
  | date {d : Date} : Offends (.scalar (.date d))
  | moment {t : Moment} : Offends (.scalar (.moment t))
  | bytes {octets : List UInt8} : Offends (.scalar (.bytes octets))
  | set {members : List Scalar} : Offends (.set members)

namespace Visit

/-- The walk goes on. A value that goes on without end never lets it. -/
def Passes : Visit → Prop
  | .key k => k.hasSpelling = true
  | .leaf _ v => v.Suits

/-- The walk comes by a leaf that offends. -/
def Offends : Visit → Prop
  | .key _ => False
  | .leaf _ v => v.Offends

/-- What a leaf at a place stops a walk with, if it does. -/
def leafIssue? (place : String) : Value → Option Issue
  | .scalar .null => none
  | .scalar (.bool _) => none
  | .scalar (.int _) => none
  | .scalar (.str _) => none
  | .scalar (.float x) => if x.isFinite then none else some (.schema (.infiniteDefault place x))
  | .scalar (.date _) => some (.schema (.defaultType place "date"))
  | .scalar (.moment _) => some (.schema (.defaultType place "datetime"))
  | .scalar (.bytes _) => some (.schema (.defaultType place "bytes"))
  | .set _ => some (.schema (.defaultType place "set"))
  | _ => some (.misfit .tooDeep)

/-- What stops a walk from a place, if the visit does. -/
def issue? (place : String) : Visit → Option Issue
  | .key k => if k.hasSpelling then none else some (.misfit .outOfRange)
  | .leaf path v => leafIssue? (placeAt place path) v

variable {place : String} {visit : Visit}

theorem issue?_eq_none_iff : visit.issue? place = none ↔ visit.Passes := by
  cases visit with
  | key k => simp [issue?, Passes]
  | leaf path v =>
    rw [issue?, Passes]
    constructor
    · intro h
      unfold leafIssue? at h
      split at h
      · exact .null
      · exact .bool
      · exact .int
      · exact .str
      · next x =>
        by_cases hfinite : x.isFinite = true
        · exact .float hfinite
        · simp [hfinite] at h
      all_goals cases h
    · intro h
      cases h with
      | float hfinite => simp [leafIssue?, hfinite]
      | _ => rfl

theorem issue?_of_offends {path : List Turn} {v : Value} (h : v.Offends) :
    ∃ fault, issue? place (.leaf path v) = some (.schema fault) ∧
      fault.place = placeAt place path := by
  cases h with
  | @float x hinfinite =>
    exact ⟨.infiniteDefault (placeAt place path) x, by simp [issue?, leafIssue?, hinfinite], rfl⟩
  | _ => exact ⟨_, rfl, rfl⟩

theorem offends_of_issue? {fault : SchemaFault} (h : visit.issue? place = some (.schema fault)) :
    visit.Offends := by
  cases visit with
  | key k =>
    rw [issue?] at h
    split at h <;> cases h
  | leaf path v =>
    rw [issue?] at h
    rw [Offends]
    unfold leafIssue? at h
    split at h
    case h_5 x =>
      by_cases hfinite : x.isFinite = true
      · simp [hfinite] at h
      · exact .float (Bool.eq_false_iff.mpr hfinite)
    case h_6 => exact .date
    case h_7 => exact .moment
    case h_8 => exact .bytes
    case h_9 => exact .set
    all_goals cases h

end Visit

end Value

/-! ## Runs that walk -/

/-- If every member passes or fails, the first that fails is there as soon as one is. -/
theorem firstFails_iff_exists {passes fails : α → Prop} {xs : List α}
    (h : ∀ x ∈ xs, passes x ∨ fails x) : FirstFails passes fails xs ↔ ∃ x ∈ xs, fails x := by
  induction xs with
  | nil => simp [firstFails_nil]
  | cons x xs ih =>
    obtain ⟨hx, hxs⟩ := List.forall_mem_cons.mp h
    rw [firstFails_cons, ih hxs, List.exists_mem_cons_iff]
    constructor
    · rintro (hfails | ⟨_, hlater⟩)
      · exact .inl hfails
      · exact .inr hlater
    · rintro (hfails | hlater)
      · exact .inl hfails
      · exact hx.symm.imp_right fun hpasses => ⟨hpasses, hlater⟩

/-- A run ends with an issue, or with none. -/
def Ends (first : Option Issue) (x : Except Issue α) : Prop := ∀ i, x = .error i ↔ first = some i

namespace Ends

variable {first second : Option Issue} {x : Except Issue α}

theorem ok (a : α) : Ends none (.ok a) := fun i => by simp

theorem error (i : Issue) : Ends (some i) (.error i : Except Issue α) := fun j => by simp

theorem eq_none {a : α} (h : Ends first (.ok a)) : first = none := by
  cases first with
  | none => rfl
  | some i => cases (h i).mpr rfl

theorem bind {f : α → Except Issue β} (h : Ends first x) (hf : ∀ a, x = .ok a → Ends second (f a)) :
    Ends (first.or second) (x >>= f) := by
  cases x with
  | error i =>
    obtain rfl := (h i).mp rfl
    exact .error i
  | ok a =>
    obtain rfl := h.eq_none
    exact hf a rfl

theorem bind_ok {f : α → Except Issue β} (h : Ends first x) (hf : ∀ a, ∃ b, f a = .ok b) :
    Ends first (x >>= f) := by
  have hgoes (a : α) : Ends none (f a) := by
    obtain ⟨b, hb⟩ := hf a
    rw [hb]
    exact .ok b
  rw [← Option.or_none (o := first)]
  exact h.bind fun a _ => hgoes a

theorem exists_ok_iff (h : Ends first x) : (∃ a, x = .ok a) ↔ first = none := by
  cases x with
  | error i => simp [(h i).mp rfl]
  | ok a => simp [h.eq_none]

end Ends

theorem Scalar.spelledPlain_ends (k : Scalar) (place : String) :
    Ends (Value.Visit.issue? place (.key k)) k.spelledPlain := by
  rw [Value.Visit.issue?, Scalar.spelledPlain]
  split
  · exact .ok _
  · exact .error _

namespace Validator.Literal

open Value (Turn Visit visits itemVisits memberVisits placeAt)

/-- The first visit that stops a walk, and what it stops with. -/
abbrev firstIssue (place : String) (vs : List Visit) : Option Issue :=
  vs.findSome? (Visit.issue? place)

theorem placeAt_item (place : String) (path : List Turn) (index : Nat) :
    s!"{placeAt place path}[{index}]" = placeAt place (path ++ [.item index]) := by
  rw [Value.placeAt_snoc, Turn.text]
  simp [String.append_assoc, toString]

theorem placeAt_member (place : String) (path : List Turn) (key : Scalar) :
    s!"{placeAt place path}.{key.plain}" = placeAt place (path ++ [.member key]) := by
  rw [Value.placeAt_snoc, Turn.text]
  simp [String.append_assoc, toString]

theorem firstIssue_leaf (place : String) (path : List Turn) (v : Value) :
    firstIssue place [.leaf path v] = Visit.issue? place (.leaf path v) := by
  rw [firstIssue, List.findSome?_cons]
  cases Visit.issue? place (.leaf path v) <;> rfl

mutual

/-- A literal is made of a value if no visit stops the walk through it. -/
theorem ofValue_ends (place : String) : ∀ (path : List Turn) (v : Value),
    Ends (firstIssue place (visits path v)) (ofValue (placeAt place path) v)
  | path, .scalar .null => .ok _
  | path, .scalar (.bool _) => .ok _
  | path, .scalar (.int _) => .ok _
  | path, .scalar (.str _) => .ok _
  | path, .scalar (.float x) => by
    have hvisits : visits path (.scalar (.float x)) = [.leaf path (.scalar (.float x))] := rfl
    rw [hvisits, firstIssue_leaf, Visit.issue?, Visit.leafIssue?, ofValue]
    split
    · exact .ok _
    · exact .error _
  | path, .scalar (.date _) => .error _
  | path, .scalar (.moment _) => .error _
  | path, .scalar (.bytes _) => .error _
  | path, .set _ => .error _
  | path, .endless => .error _
  | path, .seq items _ => by
    rw [visits, ofValue]
    exact (ofItems_ends place path 0 items).bind_ok fun _ => ⟨_, rfl⟩
  | path, .map members _ => by
    rw [visits, ofValue]
    exact (ofMembers_ends place path members).bind_ok fun _ => ⟨_, rfl⟩
  | path, .pair a b => by
    have hfirst := ofValue_ends place (path ++ [.item 0]) a
    have hsecond := ofValue_ends place (path ++ [.item 1]) b
    rw [Value.placeAt_snoc] at hfirst hsecond
    rw [visits, ofValue, firstIssue, List.findSome?_append]
    exact hfirst.bind fun _ _ => hsecond.bind_ok fun _ => ⟨_, rfl⟩

theorem ofItems_ends (place : String) : ∀ (path : List Turn) (index : Nat) (items : List Value),
    Ends (firstIssue place (itemVisits path index items))
      (ofItems (placeAt place path) index items)
  | path, index, [] => .ok _
  | path, index, v :: vs => by
    have hfirst := ofValue_ends place (path ++ [.item index]) v
    rw [itemVisits, ofItems, firstIssue, List.findSome?_append, placeAt_item]
    exact hfirst.bind fun _ _ => (ofItems_ends place path (index + 1) vs).bind_ok fun _ => ⟨_, rfl⟩

theorem ofMembers_ends (place : String) : ∀ (path : List Turn) (members : List (Scalar × Value)),
    Ends (firstIssue place (memberVisits path members)) (ofMembers (placeAt place path) members)
  | path, [] => .ok _
  | path, (k, v) :: rest => by
    have hfirst := ofValue_ends place (path ++ [.member k]) v
    have hvisits : firstIssue place (memberVisits path ((k, v) :: rest)) =
        (Visit.issue? place (.key k)).or ((firstIssue place (visits (path ++ [.member k]) v)).or
          (firstIssue place (memberVisits path rest))) := by
      rw [memberVisits, firstIssue, List.findSome?_cons, List.findSome?_append]
      cases Visit.issue? place (.key k) <;> rfl
    rw [hvisits, ofMembers]
    refine (k.spelledPlain_ends place).bind fun key hkey => ?_
    obtain ⟨_, rfl⟩ := Scalar.spelledPlain_eq_ok.mp hkey
    rw [placeAt_member]
    exact hfirst.bind fun _ _ => (ofMembers_ends place path rest).bind_ok fun _ => ⟨_, rfl⟩

end

/-! ## Shapes -/

/-- A literal has the shape of a value, and its leaves. -/
inductive Mirrors : Value → Literal → Prop
  | null : Mirrors .null .null
  | bool {b : Bool} : Mirrors (.bool b) (.boolean b)
  | int {n : Int} : Mirrors (.int n) (.number (.int n))
  | float {x : Binary64} : Mirrors (.float x) (.number (.float x))
  | str {s : String} : Mirrors (.str s) (.string s)
  | seq {items : List Value} {knot : Nat} {ls : List Literal} :
      List.Forall₂ Mirrors items ls → Mirrors (.seq items knot) (.array ls)
  | pair {a b : Value} {l m : Literal} : Mirrors a l → Mirrors b m →
      Mirrors (.pair a b) (.array [l, m])
  | map {members : Members} {knot : Nat} {ls : List (String × Literal)} :
      ls.map (·.1) = members.map (·.1.plain) →
      List.Forall₂ Mirrors (members.map (·.2)) (ls.map (·.2)) →
      Mirrors (.map members knot) (.object ls)

mutual

theorem mirrors_ofValue : ∀ (place : String) (v : Value) {l : Literal},
    ofValue place v = .ok l → Mirrors v l
  | _, .scalar .null, _, rfl => .null
  | _, .scalar (.bool _), _, rfl => .bool
  | _, .scalar (.int _), _, rfl => .int
  | _, .scalar (.str _), _, rfl => .str
  | _, .scalar (.float x), _, h => by
    rw [ofValue] at h
    split at h
    · cases h
      exact .float
    · cases h
  | place, .seq items _, _, h => by
    obtain ⟨ls, hitems, hl⟩ := bind_eq_ok.mp h
    cases pure_eq_ok.mp hl
    exact .seq (mirrors_ofItems place 0 items hitems)
  | place, .map members _, _, h => by
    obtain ⟨ls, hmembers, hl⟩ := bind_eq_ok.mp h
    cases pure_eq_ok.mp hl
    obtain ⟨hkeys, hvalues⟩ := mirrors_ofMembers place members hmembers
    exact .map hkeys hvalues
  | place, .pair a b, _, h => by
    obtain ⟨first, hfirst, h⟩ := bind_eq_ok.mp h
    obtain ⟨second, hsecond, hl⟩ := bind_eq_ok.mp h
    cases hl
    exact .pair (mirrors_ofValue _ a hfirst) (mirrors_ofValue _ b hsecond)

theorem mirrors_ofItems : ∀ (place : String) (index : Nat) (items : List Value) {ls : List Literal},
    ofItems place index items = .ok ls → List.Forall₂ Mirrors items ls
  | _, _, [], _, rfl => .nil
  | place, index, v :: vs, _, h => by
    obtain ⟨l, hfirst, h⟩ := bind_eq_ok.mp h
    obtain ⟨ls, hrest, hl⟩ := bind_eq_ok.mp h
    cases pure_eq_ok.mp hl
    exact .cons (mirrors_ofValue _ v hfirst) (mirrors_ofItems place (index + 1) vs hrest)

theorem mirrors_ofMembers : ∀ (place : String) (members : List (Scalar × Value))
    {ls : List (String × Literal)}, ofMembers place members = .ok ls →
      ls.map (·.1) = members.map (·.1.plain) ∧
        List.Forall₂ Mirrors (members.map (·.2)) (ls.map (·.2))
  | _, [], _, rfl => ⟨rfl, .nil⟩
  | place, (k, v) :: rest, _, h => by
    obtain ⟨key, hkey, h⟩ := bind_eq_ok.mp h
    obtain ⟨l, hfirst, h⟩ := bind_eq_ok.mp h
    obtain ⟨ls, hrest, hl⟩ := bind_eq_ok.mp h
    cases pure_eq_ok.mp hl
    obtain ⟨_, rfl⟩ := Scalar.spelledPlain_eq_ok.mp hkey
    obtain ⟨hkeys, hvalues⟩ := mirrors_ofMembers place rest hrest
    exact ⟨congrArg (k.plain :: ·) hkeys, .cons (mirrors_ofValue _ v hfirst) hvalues⟩

end

/-! ## Reports -/

section Reports

variable {place : String} {v : Value} {vs : List Visit}

theorem firstIssue_eq_none_iff :
    firstIssue place vs = none ↔ ∀ visit ∈ vs, visit.Passes := by
  simp only [firstIssue, List.findSome?_eq_none_iff, Visit.issue?_eq_none_iff]

theorem firstIssue_eq_some_iff {i : Issue} : firstIssue place vs = some i ↔
    FirstFails Visit.Passes (fun visit => visit.issue? place = some i) vs := by
  simp only [firstIssue, FirstFails, List.findSome?_eq_some_iff, Visit.issue?_eq_none_iff]
  constructor
  · rintro ⟨before, visit, after, hvs, hissue, hbefore⟩
    exact ⟨before, visit, after, hvs, hbefore, hissue⟩
  · rintro ⟨before, visit, after, hvs, hbefore, hissue⟩
    exact ⟨before, visit, after, hvs, hissue, hbefore⟩

theorem ofValue_walks (place : String) (v : Value) :
    Ends (firstIssue place (v.visits [])) (ofValue place v) :=
  ofValue_ends place [] v

/-- The first leaf that offends is reported with its path. -/
theorem exists_report {before after : List Visit} {path : List Turn} {leaf : Value}
    (hvisits : v.visits [] = before ++ .leaf path leaf :: after)
    (hbefore : ∀ earlier ∈ before, earlier.Passes) (hleaf : leaf.Offends) :
    ∃ fault, ofValue place v = .error (.schema fault) ∧ fault.place = placeAt place path := by
  obtain ⟨fault, hissue, hplace⟩ := @Visit.issue?_of_offends place path leaf hleaf
  refine ⟨fault, (ofValue_walks place v _).mpr (firstIssue_eq_some_iff.mpr ?_), hplace⟩
  exact ⟨before, _, after, hvisits, hbefore, hissue⟩

theorem exists_fault_iff : (∃ fault, ofValue place v = .error (.schema fault)) ↔
    FirstFails Visit.Passes Visit.Offends (v.visits []) := by
  constructor
  · rintro ⟨fault, hfault⟩
    have hfirst := (ofValue_walks place v _).mp hfault
    obtain ⟨before, visit, after, hvisits, hbefore, hissue⟩ := firstIssue_eq_some_iff.mp hfirst
    exact ⟨before, visit, after, hvisits, hbefore, Visit.offends_of_issue? hissue⟩
  · rintro ⟨before, visit, after, hvisits, hbefore, hoffends⟩
    cases visit with
    | key k => exact hoffends.elim
    | leaf path leaf =>
      obtain ⟨fault, hfault, _⟩ := @exists_report place v _ _ _ _ hvisits hbefore hoffends
      exact ⟨fault, hfault⟩

end Reports

/-- A default is refused exactly if a walk through it comes by a leaf that offends and by nothing
before it that stops the walk, and the message begins with the place of that leaf. So if every key
can be spelled and the value comes to an end, it is refused exactly if some leaf offends. A literal
that is made has the shape of the value, and one is made if nothing stops the walk. -/
theorem ofValue_reports (place : String) (v : Value) :
    ((∃ fault, ofValue place v = .error (.schema fault)) ↔
      FirstFails Visit.Passes Visit.Offends (v.visits [])) ∧
    (∀ (before after : List Visit) (path : List Turn) (leaf : Value),
      v.visits [] = before ++ .leaf path leaf :: after →
      (∀ earlier ∈ before, earlier.Passes) → leaf.Offends →
      ∃ fault, ofValue place v = .error (.schema fault) ∧
        (placeAt place path ++ ": ").toList <+: fault.message.toList) ∧
    ((∀ visit ∈ v.visits [], visit.Passes ∨ visit.Offends) →
      ((∃ fault, ofValue place v = .error (.schema fault)) ↔
        ∃ visit ∈ v.visits [], visit.Offends)) ∧
    ((∃ l, ofValue place v = .ok l) ↔ ∀ visit ∈ v.visits [], visit.Passes) ∧
    ∀ l, ofValue place v = .ok l → Mirrors v l := by
  refine ⟨exists_fault_iff, ?_, ?_, ?_, fun l => mirrors_ofValue place v⟩
  · intro before after path leaf hvisits hbefore hleaf
    obtain ⟨fault, hfault, hplace⟩ := exists_report hvisits hbefore hleaf
    exact ⟨fault, hfault, hplace ▸ fault.message_starts⟩
  · intro hall
    rw [exists_fault_iff, firstFails_iff_exists hall]
  · rw [(ofValue_walks place v).exists_ok_iff, firstIssue_eq_none_iff]

/-- A list in a mapping, with an infinite number before octets. -/
def readings : Value :=
  .map [(.str "a", .seq [.bool true,
    .map [(.null, .float (.infinite false)), (.str "c", .scalar (.bytes []))] 0] 0)] 0

theorem ofValue_reports_readings :
    FirstFails Visit.Passes Visit.Offends (readings.visits []) ∧
    ∃ fault, ofValue "x" readings = .error (.schema fault) ∧
      "x.a[1].None: ".toList <+: fault.message.toList := by
  have hvisits : readings.visits [] =
      [.key (.str "a"), .leaf [.member (.str "a"), .item 0] (.bool true), .key .null] ++
        .leaf [.member (.str "a"), .item 1, .member .null] (.float (.infinite false)) ::
        [.key (.str "c"),
          .leaf [.member (.str "a"), .item 1, .member (.str "c")] (.scalar (.bytes []))] := rfl
  have hbefore : ∀ earlier ∈ [Visit.key (.str "a"),
      .leaf [.member (.str "a"), .item 0] (.bool true), .key .null], earlier.Passes := by
    simp only [List.forall_mem_cons]
    exact ⟨rfl, .bool, rfl, by simp⟩
  have hplace : placeAt "x" [.member (.str "a"), .item 1, .member .null] ++ ": " =
      "x.a[1].None: " := by decide
  have hreport := (ofValue_reports "x" readings).2.1 _ _ _ _ hvisits hbefore (.float rfl)
  rw [hplace] at hreport
  exact ⟨⟨_, _, _, hvisits, hbefore, .float rfl⟩, hreport⟩

/-- A mapping whose first key has too many digits to be spelled, and a number that is not finite. -/
def overlongKeyed : Value :=
  .map [(.int Schema.overlong, .int 1), (.str "b", .float (.infinite false))] 0

/-- A number that is not finite goes unreported if a key before it cannot be spelled. -/
theorem ofValue_reports_fails :
    .leaf [.member (.str "b")] (.float (.infinite false)) ∈ overlongKeyed.visits [] ∧
    (Value.float (.infinite false)).Offends ∧
    ∀ place, ofValue place overlongKeyed = .error (.misfit .outOfRange) := by
  have hlong : Text.hasDigits Schema.overlong = false :=
    decide_eq_false (by rw [Schema.overlong, Int.natAbs_natCast]; exact lt_irrefl _)
  refine ⟨by simp [overlongKeyed, Value.visits, memberVisits], .float rfl, fun place => ?_⟩
  refine (ofValue_walks place overlongKeyed _).mpr ?_
  rw [overlongKeyed, Value.visits, memberVisits, firstIssue, List.findSome?_cons, Visit.issue?,
    Scalar.hasSpelling, hlong]
  rfl

end Validator.Literal

end ApiContract

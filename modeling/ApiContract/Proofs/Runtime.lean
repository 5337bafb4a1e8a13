import ApiContract.Validator.Construction
import Mathlib.Data.List.Forall2
import Mathlib.Data.Rat.Cast.Defs

/-!
What validators do with values when the generated module runs. A validator is a relation between
what goes in and what comes out; it takes a value if something comes out. The checks of a chain wrap
what stands before them, one after the other. An object reads a key that is not there as
`undefined`, and leaves such a key out again if `undefined` comes out for it.
-/

namespace ApiContract

/-- A value at run time. A key of an object may be there and hold `undefined`. -/
inductive Datum where
  | undefined
  | null
  | bool (b : Bool)
  | number (q : ℚ)
  | string (s : String)
  | array (items : List Datum)
  | object (members : List (String × Datum))

namespace Datum

/-- The value of a key that is there. Of several members of one key the last one counts. -/
def member? (key : String) : List (String × Datum) → Option Datum
  | [] => none
  | (k, d) :: rest => (member? key rest).or (if k = key then some d else none)

def read (key : String) (members : List (String × Datum)) : Datum :=
  (member? key members).getD .undefined

/-- What an object puts out for a key, if anything: what comes out for it, but for `undefined` where
the key was not there. -/
def kept? : Datum → Option Datum → Option Datum
  | .undefined, none => none
  | d, _ => some d

def put (key : String) : Option Datum → List (String × Datum) → List (String × Datum)
  | none, others => others
  | some d, others => (key, d) :: others

theorem kept?_of_ne {d : Datum} (h : d ≠ .undefined) (found : Option Datum) :
    d.kept? found = some d := by
  cases d
  case undefined => exact absurd rfl h
  all_goals rfl

theorem member?_put_self {key : String} {d : Option Datum} {others : List (String × Datum)}
    (h : member? key others = none) : member? key (put key d others) = d := by
  cases d with
  | none => exact h
  | some d => rw [put, member?, h, if_pos rfl, Option.none_or]

theorem member?_put_of_ne {key k : String} {d : Option Datum} {others : List (String × Datum)}
    (h : k ≠ key) : member? k (put key d others) = member? k others := by
  cases d with
  | none => rfl
  | some d => rw [put, member?, if_neg h.symm, Option.or_none]

end Datum

/-- The entries that count: of several with one key the last. -/
def effective {α : Type} : List (String × α) → List (String × α)
  | [] => []
  | (key, a) :: rest =>
    if key ∈ rest.map (·.1) then effective rest else (key, a) :: effective rest

theorem mem_of_mem_effective {α : Type} {p : String × α} {entries : List (String × α)}
    (h : p ∈ effective entries) : p ∈ entries := by
  induction entries with
  | nil => cases h
  | cons q rest ih =>
    rw [effective] at h
    split at h
    · exact List.mem_cons_of_mem _ (ih h)
    · rcases List.mem_cons.mp h with rfl | h
      · exact List.mem_cons_self
      · exact List.mem_cons_of_mem _ (ih h)

/-- Lists that agree entry by entry, and on the keys, agree on the entries that count. -/
theorem effective_forall₂ {α β : Type} {R : String × α → String × β → Prop}
    (hkey : ∀ p q, R p q → q.1 = p.1) {ps : List (String × α)} {qs : List (String × β)}
    (h : List.Forall₂ R ps qs) :
    qs.map (·.1) = ps.map (·.1) ∧ List.Forall₂ R (effective ps) (effective qs) := by
  induction h with
  | nil => exact ⟨rfl, .nil⟩
  | @cons p q ps qs hr _ ih =>
    obtain ⟨key, a⟩ := p
    obtain ⟨_, b⟩ := q
    obtain rfl := hkey _ _ hr
    obtain ⟨hkeys, hall⟩ := ih
    refine ⟨by rw [List.map_cons, List.map_cons, hkeys], ?_⟩
    rw [effective, effective, hkeys]
    split
    · exact hall
    · exact .cons hr hall

/-- The exact number that a finite double is. -/
def Binary64.value? : Binary64 → Option ℚ
  | .finite negative m e =>
    let (num, den) := ratio m e
    some (if negative then -((num : ℚ) / den) else (num : ℚ) / den)
  | _ => none

def Numeral.value? : Numeral → Option ℚ
  | .int n => some n
  | .float x => x.value?

def Scalar.datum? : Scalar → Option Datum
  | .null => some .null
  | .bool b => some (.bool b)
  | .int n => some (.number n)
  | .float x => x.value?.map .number
  | .str s => some (.string s)
  | _ => none

mutual

/-- The value at run time that a value of a description stands for, if it is one of JSON. Keys are
texts there. -/
def Value.datum? : Value → Option Datum
  | .scalar s => s.datum?
  | .seq items _ => (Value.itemData? items).map .array
  | .map members _ => (Value.memberData? members).map .object
  | .pair a b => do return .array [← a.datum?, ← b.datum?]
  | _ => none

def Value.itemData? : List Value → Option (List Datum)
  | [] => some []
  | v :: vs => do return (← v.datum?) :: (← Value.itemData? vs)

def Value.memberData? : List (Scalar × Value) → Option (List (String × Datum))
  | [] => some []
  | (k, v) :: rest => do return (k.plain, ← v.datum?) :: (← Value.memberData? rest)

end

namespace Validator

mutual

/-- The value that a literal writes. -/
def Literal.datum? : Literal → Option Datum
  | .leaf .null _ => some .null
  | .leaf .boolean s => some (.bool s.truthy)
  | .leaf .number s => s.datum?
  | .leaf .string s => s.datum?
  | .leaf _ _ => none
  | .array items => (Literal.itemData? items).map .array
  | .object members => (Literal.memberData? members).map .object

def Literal.itemData? : List Literal → Option (List Datum)
  | [] => some []
  | l :: ls => do return (← l.datum?) :: (← Literal.itemData? ls)

def Literal.memberData? : List (String × Literal) → Option (List (String × Datum))
  | [] => some []
  | (key, l) :: rest => do return (key, ← l.datum?) :: (← Literal.memberData? rest)

end

/-- The formats that texts can be checked for. -/
inductive Format where
  | email
  | uuid
  | dateTime
  | date
  | uri

namespace Format

/-- The format that a description names. -/
def ofName? : String → Option Format
  | "email" => some .email
  | "uuid" => some .uuid
  | "date-time" => some .dateTime
  | "date" => some .date
  | "uri" => some .uri
  | _ => none

/-- The format that a check of a chain looks for. -/
def ofCheck? : CheckName → Option Format
  | .email => some .email
  | .uuid => some .uuid
  | .datetime => some .dateTime
  | .date => some .date
  | .url => some .uri
  | _ => none

end Format

/-- What goes in and what comes out. -/
abbrev Run := Datum → Datum → Prop

/-- What neither validators nor schemas say themselves: what the validators of components do, which
texts have a format or match a pattern, and how long a text is. -/
structure Interpretation where
  component : String → Run
  format : Format → String → Prop
  pattern : String → String → Prop
  length : String → Nat

/-- The number that a bound bounds: a number itself, and the length of a text or an array. -/
def Interpretation.size? (I : Interpretation) : Datum → Option ℚ
  | .number q => some q
  | .string s => some (I.length s)
  | .array items => some items.length
  | _ => none

/-- One more check, wrapped around what stands before it. Modifiers look at what goes in, all other
checks at what comes out. -/
def Check.run (I : Interpretation) (c : Check) (inner : Run) (v o : Datum) : Prop :=
  match c.name, c.arg with
  | .nullable, _ => match v with
    | .null => o = .null
    | v => inner v o
  | .optional, _ => match v with
    | .undefined => o = .undefined
    | v => inner v o
  | .default, .literal l => match v with
    | .undefined => ∃ d, l.datum? = some d ∧ inner d o
    | v => inner v o
  | .describe, _ => inner v o
  | .min, .numeral n => inner v o ∧ ∃ b q, n.value? = some b ∧ I.size? o = some q ∧ b ≤ q
  | .max, .numeral n => inner v o ∧ ∃ b q, n.value? = some b ∧ I.size? o = some q ∧ q ≤ b
  | .int, _ => inner v o ∧ ∃ q, o = .number q ∧ q.isInt = true
  | .regex, .text p => inner v o ∧ ∃ s, o = .string s ∧ I.pattern p s
  | name, _ => inner v o ∧ ∃ f s, Format.ofCheck? name = some f ∧ o = .string s ∧ I.format f s

/-- A chain of checks behind a base. -/
def runChain (I : Interpretation) (checks : List Check) (base : Run) : Run :=
  checks.foldl (fun inner c => c.run I inner) base

@[simp] theorem runChain_nil (I : Interpretation) (base : Run) : runChain I [] base = base := rfl

@[simp] theorem runChain_cons (I : Interpretation) (c : Check) (checks : List Check) (base : Run) :
    runChain I (c :: checks) base = runChain I checks (c.run I base) := rfl

@[simp] theorem runChain_append (I : Interpretation) (before after : List Check) (base : Run) :
    runChain I (before ++ after) base = runChain I after (runChain I before base) :=
  List.foldl_append

mutual

/-- What a validator makes of a value: `e.Yields I v o` if it takes `v` and puts out `o`. -/
def Expr.Yields (I : Interpretation) : Expr → Datum → Datum → Prop
  | ⟨kind, values, item, properties, ref, checks⟩ => runChain I checks fun v o =>
    match kind with
    | .string => o = v ∧ ∃ s, v = .string s
    | .number => o = v ∧ ∃ q, v = .number q
    | .boolean => o = v ∧ ∃ b, v = .bool b
    | .any => o = v
    | .enum => o = v ∧ ∃ s ∈ values, v = .string s
    | .array => ∃ vs os, v = .array vs ∧ o = .array os ∧ List.Forall₂ (Expr.ItemYields I item) vs os
    | .object => ∃ ms os, v = .object ms ∧ o = .object os ∧
        (∀ m ∈ ms, m.1 ∈ properties.map (·.1)) ∧ Expr.EachYields I ms properties os
    | .lazy => ∃ t, ref = some t ∧ I.component t v o
    | .other _ => o = v

def Expr.ItemYields (I : Interpretation) : Option Expr → Datum → Datum → Prop
  | none, _, _ => False
  | some e, v, o => Expr.Yields I e v o

/-- What the properties of an object make of its members. A later property of the same key takes
the place of an earlier one. -/
def Expr.EachYields (I : Interpretation) (members : List (String × Datum)) :
    List (String × Expr) → List (String × Datum) → Prop
  | [], os => os = []
  | (key, e) :: rest, os =>
    if key ∈ rest.map (·.1) then Expr.EachYields I members rest os
    else ∃ r others, Expr.Yields I e (Datum.read key members) r ∧
      Expr.EachYields I members rest others ∧
      os = Datum.put key (Datum.kept? r (Datum.member? key members)) others

end

/-- A validator takes a value if something comes out for it. -/
def Expr.Accepts (I : Interpretation) (e : Expr) (v : Datum) : Prop := ∃ o, e.Yields I v o

namespace Expr

variable {I : Interpretation} {v o : Datum}

theorem string_yields {checks : List Check} : (string checks).Yields I v o ↔
    runChain I checks (fun v o => o = v ∧ ∃ s, v = .string s) v o := Iff.rfl

theorem number_yields {checks : List Check} : (number checks).Yields I v o ↔
    runChain I checks (fun v o => o = v ∧ ∃ q, v = .number q) v o := Iff.rfl

theorem boolean_yields : boolean.Yields I v o ↔ o = v ∧ ∃ b, v = .bool b := Iff.rfl

theorem any_yields : any.Yields I v o ↔ o = v := Iff.rfl

theorem enum_yields {values : List String} :
    (enum values).Yields I v o ↔ o = v ∧ ∃ s ∈ values, v = .string s := Iff.rfl

theorem array_yields {item : Expr} {checks : List Check} : (array item checks).Yields I v o ↔
    runChain I checks (fun v o => ∃ vs os, v = .array vs ∧ o = .array os ∧
      List.Forall₂ (item.Yields I) vs os) v o := Iff.rfl

theorem object_yields {properties : List (String × Expr)} : (object properties).Yields I v o ↔
    ∃ ms os, v = .object ms ∧ o = .object os ∧ (∀ m ∈ ms, m.1 ∈ properties.map (·.1)) ∧
      EachYields I ms properties os := Iff.rfl

theorem lazy_yields {target : String} : (lazy target).Yields I v o ↔ I.component target v o := by
  change (∃ t, some target = some t ∧ I.component t v o) ↔ _
  simp

section EachYields

variable {members os : List (String × Datum)} {key : String} {e : Expr}
  {rest : List (String × Expr)}

theorem eachYields_nil : EachYields I members [] os ↔ os = [] := Iff.rfl

theorem eachYields_cons_of_mem (h : key ∈ rest.map (·.1)) :
    EachYields I members ((key, e) :: rest) os ↔ EachYields I members rest os := by
  rw [EachYields, if_pos h]

theorem eachYields_cons_of_notMem (h : key ∉ rest.map (·.1)) :
    EachYields I members ((key, e) :: rest) os ↔ ∃ r others,
      e.Yields I (Datum.read key members) r ∧ EachYields I members rest others ∧
        os = Datum.put key (Datum.kept? r (Datum.member? key members)) others := by
  rw [EachYields, if_neg h]

/-- What an object puts out has, for each key that counts, what its validator puts out for it, and
no other key. -/
theorem eachYields_member? {es : List (String × Expr)} (h : EachYields I members es os) :
    (∀ key, key ∉ es.map (·.1) → Datum.member? key os = none) ∧
      ∀ q ∈ effective es, ∃ r, q.2.Yields I (Datum.read q.1 members) r ∧
        Datum.member? q.1 os = Datum.kept? r (Datum.member? q.1 members) := by
  induction es generalizing os with
  | nil =>
    cases eachYields_nil.mp h
    exact ⟨fun _ _ => rfl, fun q hq => absurd hq List.not_mem_nil⟩
  | cons q rest ih =>
    obtain ⟨key, e⟩ := q
    by_cases hkey : key ∈ rest.map (·.1)
    · obtain ⟨hother, heach⟩ := ih ((eachYields_cons_of_mem hkey).mp h)
      rw [effective, if_pos hkey]
      exact ⟨fun k hk => hother k fun hmem => hk (List.mem_cons_of_mem _ hmem), heach⟩
    · obtain ⟨r, others, hr, hothers, rfl⟩ := (eachYields_cons_of_notMem hkey).mp h
      obtain ⟨hother, heach⟩ := ih hothers
      rw [effective, if_neg hkey]
      refine ⟨fun k hk => ?_, fun q hq => ?_⟩
      · rw [Datum.member?_put_of_ne (List.ne_of_not_mem_cons hk),
          hother k (List.not_mem_of_not_mem_cons hk)]
      · rcases List.mem_cons.mp hq with rfl | hq
        · exact ⟨r, hr, Datum.member?_put_self (hother _ hkey)⟩
        · have hne : q.1 ≠ key := fun heq =>
            hkey (heq ▸ List.mem_map_of_mem (mem_of_mem_effective hq))
          obtain ⟨r', hr', hm⟩ := heach q hq
          exact ⟨r', hr', by rw [Datum.member?_put_of_ne hne, hm]⟩

end EachYields

theorem yields_withChecks (e : Expr) (checks : List Check) :
    (e.withChecks checks).Yields I = runChain I checks (e.Yields I) := by
  obtain ⟨kind, values, item, properties, ref, before⟩ := e
  unfold withChecks Yields
  rw [runChain_append]

end Expr

/-! ## What components do -/

section Components

variable {I : Interpretation} {x y : String → Run}

/-- A check lets more through if more comes out before it. -/
theorem Check.run_mono (c : Check) {inner inner' : Run} (h : inner ≤ inner') :
    c.run { I with component := x } inner ≤ c.run { I with component := y } inner' := by
  obtain ⟨name, arg⟩ := c
  intro v o
  unfold Check.run
  dsimp only
  split
  · cases v <;> first | exact id | exact h _ _
  · cases v <;> first | exact id | exact h _ _
  · cases v
    case undefined => exact fun ⟨d, hd, hv⟩ => ⟨d, hd, h _ _ hv⟩
    all_goals exact h _ _
  · exact h _ _
  all_goals exact And.imp_left (h _ _)

theorem runChain_mono (checks : List Check) {base base' : Run} (h : base ≤ base') :
    runChain { I with component := x } checks base ≤
      runChain { I with component := y } checks base' := by
  induction checks generalizing base base' with
  | nil => exact h
  | cons c checks ih => exact ih (c.run_mono h)

mutual

/-- A validator puts out more if components do. -/
theorem Expr.yields_mono (h : x ≤ y) : ∀ e : Expr,
    e.Yields { I with component := x } ≤ e.Yields { I with component := y }
  | ⟨kind, values, item, properties, ref, checks⟩ => by
    unfold Expr.Yields
    refine runChain_mono checks fun v o hv => ?_
    cases kind with
    | array =>
      obtain ⟨vs, os, hvs, hos, hall⟩ := hv
      exact ⟨vs, os, hvs, hos, hall.imp (Expr.itemYields_mono h item)⟩
    | object =>
      obtain ⟨ms, os, hms, hos, hkeys, hall⟩ := hv
      exact ⟨ms, os, hms, hos, hkeys, Expr.eachYields_mono h properties ms os hall⟩
    | lazy =>
      obtain ⟨t, ht, hv⟩ := hv
      exact ⟨t, ht, h t v o hv⟩
    | _ => exact hv

theorem Expr.itemYields_mono (h : x ≤ y) : ∀ item : Option Expr,
    Expr.ItemYields { I with component := x } item ≤ Expr.ItemYields { I with component := y } item
  | none => le_rfl
  | some e => Expr.yields_mono h e

theorem Expr.eachYields_mono (h : x ≤ y) : ∀ (properties : List (String × Expr))
    (ms os : List (String × Datum)), Expr.EachYields { I with component := x } ms properties os →
      Expr.EachYields { I with component := y } ms properties os
  | [], _, _, hos => hos
  | (key, e) :: rest, ms, os, hos => by
    by_cases hkey : key ∈ rest.map (·.1)
    · rw [Expr.eachYields_cons_of_mem hkey] at hos ⊢
      exact Expr.eachYields_mono h rest ms os hos
    · rw [Expr.eachYields_cons_of_notMem hkey] at hos ⊢
      obtain ⟨r, others, hr, hothers, hos⟩ := hos
      exact ⟨r, others, Expr.yields_mono h e _ _ hr,
        Expr.eachYields_mono h rest ms others hothers, hos⟩

end

end Components

end Validator

end ApiContract

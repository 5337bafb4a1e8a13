import ApiContract.Proofs.DocumentSource
import ApiContract.Proofs.References

/-!
Well-formed validators. Each node has what its kind needs, its checks are known ones with arguments
of their types, and numbers are finite; modifiers stand on properties of objects only. The
translation makes such validators of schemas whose enumerations have values, and their objects name
a property twice exactly if the objects of the schema do.
-/

namespace ApiContract.Validator

/-! ## Definitions -/

/-- A literal whose leaves hold what their kinds say. -/
inductive Literal.WellFormed : Literal → Prop
  | null : WellFormed .null
  | boolean {b : Bool} : WellFormed (.boolean b)
  | number {n : Numeral} : n.isFinite = true → WellFormed (.number n)
  | string {s : String} : WellFormed (.string s)
  | array {items : List Literal} : (∀ l ∈ items, l.WellFormed) → WellFormed (.array items)
  | object {members : List (String × Literal)} :
      (∀ m ∈ members, m.2.WellFormed) → WellFormed (.object members)

/-- A known check with an argument of its type. -/
inductive Check.WellFormed : Check → Prop
  | bare {name : CheckName} :
      name ∈ CheckName.formats ++ [.nullable, .optional] → WellFormed (.bare name)
  | bound {name : CheckName} {n : Numeral} : name ∈ [CheckName.min, .max] → n.isFinite = true →
      WellFormed ⟨name, .numeral n⟩
  | text {name : CheckName} {s : String} : name ∈ [CheckName.regex, .describe] →
      WellFormed ⟨name, .text s⟩
  | default {l : Literal} : l.WellFormed → WellFormed ⟨.default, .literal l⟩

/-- A node has what its kind needs, and no children that are not of its kind. -/
structure Expr.NodeWellFormed (e : Expr) : Prop where
  kind : ∀ name, e.kind ≠ .other name
  item : e.kind = .array ↔ ∃ i, e.item = some i
  flat : e.kind ≠ .object → e.properties = []
  target : e.kind = .lazy → ∃ t, e.ref = some t
  values : e.kind = .enum → e.values ≠ []
  checks : ∀ c ∈ e.checks, c.WellFormed

def Expr.WellFormed (e : Expr) : Prop := e.Each Expr.NodeWellFormed

/-- What a property adds to its validator. -/
def CheckName.isMark : CheckName → Bool
  | .nullable | .optional | .default | .describe => true
  | _ => false

def Expr.Unmarked (e : Expr) : Prop := ∀ c ∈ e.checks, c.name.isMark = false

/-- Neither the whole validator nor any item in it has the marks of a property. -/
structure Expr.MarksProperties (e : Expr) : Prop where
  whole : e.Unmarked
  items : e.Each fun sub => ∀ i, sub.item = some i → i.Unmarked

/-- In no object of a validator two properties have the same name. -/
def Expr.KeysDistinct (e : Expr) : Prop := e.Each fun sub => (sub.properties.map (·.1)).Nodup

/-! ## Checks -/

theorem Refinement.wellFormed {c : Check} (h : Refinement c) : c.WellFormed := by
  cases h with
  | format hname => exact .bare (List.mem_append_left _ hname)
  | low hn => exact .bound (by simp) hn
  | high hn => exact .bound (by simp) hn
  | pattern => exact .text (by simp)

theorem Refinement.not_mark {c : Check} (h : Refinement c) : c.name.isMark = false := by
  cases h with
  | format hname => exact (by decide : ∀ name ∈ CheckName.formats, name.isMark = false) _ hname
  | low _ => rfl
  | high _ => rfl
  | pattern => rfl

mutual

/-- A default that was accepted has a well-formed literal. -/
theorem Literal.wellFormed_ofValue : ∀ (place : String) (v : Value) (l : Literal),
    Literal.ofValue place v = .ok l → l.WellFormed
  | _, .scalar .null, _, h => by cases h; exact .null
  | _, .scalar (.bool b), _, h => by cases h; exact .boolean
  | _, .scalar (.int n), _, h => by cases h; exact .number rfl
  | _, .scalar (.float x), _, h => by
    rw [Literal.ofValue] at h
    split at h
    next hx =>
      cases h
      exact .number hx
    next => cases h
  | _, .scalar (.str s), _, h => by cases h; exact .string
  | place, .seq items _, _, h => by
    obtain ⟨ls, hls, h⟩ := bind_eq_ok.mp h
    cases pure_eq_ok.mp h
    exact .array (Literal.wellFormed_ofItems place 0 items ls hls)
  | place, .map members _, _, h => by
    obtain ⟨ls, hls, h⟩ := bind_eq_ok.mp h
    cases pure_eq_ok.mp h
    exact .object (Literal.wellFormed_ofMembers place members ls hls)
  | place, .pair a b, _, h => by
    obtain ⟨first, ha, h⟩ := bind_eq_ok.mp h
    obtain ⟨second, hb, h⟩ := bind_eq_ok.mp h
    cases pure_eq_ok.mp h
    have hfirst := Literal.wellFormed_ofValue _ a first ha
    have hsecond := Literal.wellFormed_ofValue _ b second hb
    exact .array (List.forall_mem_cons.mpr ⟨hfirst, List.forall_mem_singleton.mpr hsecond⟩)

theorem Literal.wellFormed_ofItems : ∀ (place : String) (index : Nat) (vs : List Value)
    (ls : List Literal), Literal.ofItems place index vs = .ok ls → ∀ l ∈ ls, l.WellFormed
  | _, _, [], _, h => by cases h; exact List.forall_mem_nil _
  | place, index, v :: vs, _, h => by
    obtain ⟨l, hl, h⟩ := bind_eq_ok.mp h
    obtain ⟨ls, hls, h⟩ := bind_eq_ok.mp h
    cases pure_eq_ok.mp h
    exact List.forall_mem_cons.mpr ⟨Literal.wellFormed_ofValue _ v l hl,
      Literal.wellFormed_ofItems place (index + 1) vs ls hls⟩

theorem Literal.wellFormed_ofMembers : ∀ (place : String) (members : List (Scalar × Value))
    (ls : List (String × Literal)), Literal.ofMembers place members = .ok ls →
      ∀ m ∈ ls, m.2.WellFormed
  | _, [], _, h => by cases h; exact List.forall_mem_nil _
  | place, (k, v) :: rest, _, h => by
    obtain ⟨key, _, h⟩ := bind_eq_ok.mp h
    obtain ⟨l, hl, h⟩ := bind_eq_ok.mp h
    obtain ⟨ls, hls, h⟩ := bind_eq_ok.mp h
    cases pure_eq_ok.mp h
    exact List.forall_mem_cons.mpr ⟨Literal.wellFormed_ofValue _ v l hl,
      Literal.wellFormed_ofMembers place rest ls hls⟩

end

/-- The checks of modifiers are well formed. -/
theorem Modifiers.wellFormed_checks {m : Modifiers} {place : String} {checks : List Check}
    (h : m.checks place = .ok checks) : ∀ c ∈ checks, c.WellFormed := by
  obtain ⟨fallback, rfl, hfallback⟩ := Modifiers.checks_cases h
  have hbare : ∀ (given : Bool) (name : CheckName), name ∈ [CheckName.nullable, .optional] →
      ∀ c ∈ (if given then [Check.bare name] else []), c.WellFormed := by
    intro given name hname c hc
    cases given with
    | false => cases hc
    | true =>
      cases List.mem_singleton.mp hc
      exact .bare (List.mem_append_right _ hname)
  simp only [List.forall_mem_append]
  refine ⟨⟨⟨hbare _ _ (by decide), hbare _ _ (by decide)⟩, ?_⟩, ?_⟩
  · rcases hfallback with ⟨_, rfl⟩ | ⟨v, l, _, hl, rfl⟩
    · exact List.forall_mem_nil _
    · exact List.forall_mem_singleton.mpr (.default (Literal.wellFormed_ofValue place v l hl))
  · intro c hc
    obtain ⟨s, _, rfl⟩ := Option.map_eq_some_iff.mp (Option.mem_toList.mp hc)
    exact .text (by decide)

/-! ## Nodes -/

theorem nodeWellFormed_modify {e e' : Expr} {m : Modifiers} {place : String}
    (h : modify e m place = .ok e') (he : e.NodeWellFormed) : e'.NodeWellFormed := by
  obtain ⟨checks, hchecks, rfl⟩ := modify_eq_ok h
  refine ⟨he.kind, he.item, he.flat, he.target, he.values, ?_⟩
  exact List.forall_mem_append.mpr ⟨he.checks, Modifiers.wellFormed_checks hchecks⟩

/-- A node of a kind without parts. -/
theorem nodeWellFormed_basic {kind : Kind} {checks : List Check} (hchecks : ∀ c ∈ checks, c.WellFormed)
    (hkind : kind ∈ [Kind.string, .number, .boolean, .any]) :
    (Expr.basic kind checks).NodeWellFormed := by
  simp only [List.mem_cons, List.not_mem_nil, or_false] at hkind
  rcases hkind with rfl | rfl | rfl | rfl <;>
    exact ⟨by simp [Expr.basic], by simp [Expr.basic], fun _ => rfl, by simp [Expr.basic],
      by simp [Expr.basic], hchecks⟩

theorem nodeWellFormed_object (es : List (String × Expr)) : (Expr.object es).NodeWellFormed := by
  constructor <;> simp [Expr.object]

theorem nodeWellFormed_ofSchema {s : Schema} (hs : ∀ t, s ≠ .enum t []) {place : String} {e : Expr}
    (h : Expr.ofSchema place s = .ok e) : e.NodeWellFormed := by
  have hchecks : ∀ c ∈ e.checks, c.WellFormed := fun c hc =>
    (ofSchema_refinement h c hc).wellFormed
  cases s with
  | string t format pattern low high => cases h; exact nodeWellFormed_basic hchecks (by decide)
  | enum t values =>
    cases h
    have hvalues : values ≠ [] := fun hnone => hs t (congrArg _ hnone)
    exact ⟨by simp [Expr.enum], by simp [Expr.enum], fun _ => rfl, by simp [Expr.enum],
      fun _ => hvalues, hchecks⟩
  | number t integer low high =>
    cases numberExpr_eq_ok h
    exact nodeWellFormed_basic hchecks (by decide)
  | boolean t => cases h; exact nodeWellFormed_basic hchecks (by decide)
  | any t => cases h; exact nodeWellFormed_basic hchecks (by decide)
  | array t items low high =>
    obtain ⟨item, _, h⟩ := bind_eq_ok.mp h
    cases pure_eq_ok.mp h
    exact ⟨by simp [Expr.array], by simp [Expr.array], fun _ => rfl, by simp [Expr.array],
      by simp [Expr.array], hchecks⟩
  | object t properties required =>
    obtain ⟨es, _, h⟩ := bind_eq_ok.mp h
    cases pure_eq_ok.mp h
    exact nodeWellFormed_object es
  | ref t target =>
    cases h
    exact ⟨by simp [Expr.lazy], by simp [Expr.lazy], fun _ => rfl, fun _ => ⟨target, rfl⟩,
      by simp [Expr.lazy], hchecks⟩

theorem wellFormed_ofSchema {s : Schema} (hs : s.Filled) {place : String} {e : Expr}
    (h : Expr.ofSchema place s = .ok e) : e.WellFormed := by
  refine each_ofSchema nodeWellFormed_modify (fun sub hsub => nodeWellFormed_ofSchema ?_) h
  rintro t rfl
  exact hs t [] hsub rfl

theorem wellFormed_ofParameters {ps : List Parameter} (hps : ∀ p ∈ ps, p.schema.Filled)
    {place : String} {e : Expr} (h : Expr.ofParameters place ps = .ok e) : e.WellFormed := by
  refine each_ofParameters nodeWellFormed_modify (fun es _ => nodeWellFormed_object es)
    (fun p hp sub hsub => nodeWellFormed_ofSchema ?_) h
  rintro t rfl
  exact hps p hp t [] hsub rfl

/-! ## Marks -/

theorem unmarked_ofSchema {s : Schema} {place : String} {e : Expr}
    (h : Expr.ofSchema place s = .ok e) : e.Unmarked :=
  fun c hc => (ofSchema_refinement h c hc).not_mark

theorem itemUnmarked_modify {e e' : Expr} {m : Modifiers} {place : String}
    (h : modify e m place = .ok e') (he : ∀ i, e.item = some i → i.Unmarked) :
    ∀ i, e'.item = some i → i.Unmarked := by
  obtain ⟨checks, _, rfl⟩ := modify_eq_ok h
  exact he

theorem itemUnmarked_ofSchema {s : Schema} {place : String} {e : Expr}
    (h : Expr.ofSchema place s = .ok e) : ∀ i, e.item = some i → i.Unmarked := by
  cases s with
  | number t integer low high => cases numberExpr_eq_ok h; nofun
  | array t items low high =>
    obtain ⟨item, hitem, h⟩ := bind_eq_ok.mp h
    cases pure_eq_ok.mp h
    rintro i ⟨⟩
    exact unmarked_ofSchema hitem
  | object t properties required =>
    obtain ⟨es, _, h⟩ := bind_eq_ok.mp h
    cases pure_eq_ok.mp h
    nofun
  | _ => cases h; nofun

theorem marksProperties_ofSchema {s : Schema} {place : String} {e : Expr}
    (h : Expr.ofSchema place s = .ok e) : e.MarksProperties :=
  ⟨unmarked_ofSchema h, each_ofSchema itemUnmarked_modify (fun _ _ => itemUnmarked_ofSchema) h⟩

theorem marksProperties_ofParameters {ps : List Parameter} {place : String} {e : Expr}
    (h : Expr.ofParameters place ps = .ok e) : e.MarksProperties := by
  refine ⟨?_, each_ofParameters itemUnmarked_modify (fun _ _ => nofun)
    (fun _ _ _ _ => itemUnmarked_ofSchema) h⟩
  obtain ⟨es, rfl, _⟩ := ofParameters_eq_ok h
  exact List.forall_mem_nil _

/-! ## Keys -/

theorem keys_modify {e e' : Expr} {m : Modifiers} {place : String}
    (h : modify e m place = .ok e') (he : (e.properties.map (·.1)).Nodup) :
    (e'.properties.map (·.1)).Nodup := by
  obtain ⟨checks, _, rfl⟩ := modify_eq_ok h
  exact he

/-- An object has the names of its schema's properties. -/
theorem keys_ofProperties {t : Traits} {properties : List (String × Schema)} {required : List String}
    {place : String} {e : Expr} (h : Expr.ofSchema place (.object t properties required) = .ok e) :
    e.properties.map (·.1) = properties.map (·.1) := by
  obtain ⟨es, hes, h⟩ := bind_eq_ok.mp h
  cases pure_eq_ok.mp h
  exact map_eq_of_forall₂ (ofProperties_forall₂ hes) fun _ _ hq => hq.key

theorem keysDistinct_ofSchema {s : Schema} {place : String} {e : Expr}
    (h : Expr.ofSchema place s = .ok e) : e.KeysDistinct ↔ s.KeysDistinct := by
  constructor
  · intro he t properties required hsub
    obtain ⟨place', base, checks, hbase, hwithin⟩ := exists_within_of_part hsub h
    rw [← keys_ofProperties hbase]
    exact he (base.withChecks checks) hwithin
  · intro hs
    refine each_ofSchema keys_modify (fun sub hsub => ?_) h
    intro place e he
    cases sub with
    | object t properties required =>
      rw [keys_ofProperties he]
      exact hs t properties required hsub
    | number t integer low high => cases numberExpr_eq_ok he; exact List.nodup_nil
    | array t items low high =>
      obtain ⟨_, _, he⟩ := bind_eq_ok.mp he
      cases pure_eq_ok.mp he
      exact List.nodup_nil
    | _ => cases he; exact List.nodup_nil

theorem keysDistinct_modify {e e' : Expr} {m : Modifiers} {place : String}
    (h : modify e m place = .ok e') : e'.KeysDistinct ↔ e.KeysDistinct := by
  obtain ⟨checks, _, rfl⟩ := modify_eq_ok h
  rw [Expr.KeysDistinct, Expr.KeysDistinct, Expr.each_iff, Expr.each_iff]
  rfl

/-- The validator of parameters has a property for each of them. -/
theorem keysDistinct_ofParameters {ps : List Parameter} (hps : (ps.map (·.name)).Nodup)
    {place : String} {e : Expr} (h : Expr.ofParameters place ps = .ok e) :
    e.KeysDistinct ↔ ∀ p ∈ ps, p.schema.KeysDistinct := by
  obtain ⟨es, rfl, hes⟩ := ofParameters_eq_ok h
  have hkeys : es.map (·.1) = ps.map (·.name) := map_eq_of_forall₂ hes fun _ _ hq => hq.key
  have hhere : ((Expr.object es).properties.map (·.1)).Nodup := by
    rw [Expr.object, hkeys]
    exact hps
  rw [Expr.KeysDistinct, Expr.each_iff, and_iff_right hhere, and_iff_right (by simp [Expr.object])]
  refine (forall_iff_of_forall₂ hes fun p _ q _ hq => ?_).symm
  obtain ⟨_, place, e, he, hmodify⟩ := hq
  exact (keysDistinct_ofSchema he).symm.trans (keysDistinct_modify hmodify).symm

end ApiContract.Validator

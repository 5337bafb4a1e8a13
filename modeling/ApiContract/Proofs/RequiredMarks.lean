import ApiContract.Proofs.SchemaSource

/-!
Properties that mark themselves as required. The mark is for the object around the property: the
property itself reads as it does without it. A mark that the object's own list does not name is
warned about, once for each, and an object before what stands inside it.
-/

namespace ApiContract

/-! ## Keys -/

/-- No two members of a mapping have the same key. -/
def Members.Keyed (members : Members) : Prop :=
  members.Pairwise fun m n => m.1.sameKey n.1 = false

/-- Every mapping inside a value has distinct keys. -/
def Value.Keyed (v : Value) : Prop :=
  ∀ members knot, (Value.map members knot).Inside v → Members.Keyed members

theorem Value.keyed_scalar (s : Scalar) : (Value.scalar s).Keyed := nofun

theorem Value.keyed_seq {items : List Value} {knot : Nat} (h : ∀ v ∈ items, v.Keyed) :
    (Value.seq items knot).Keyed := by
  intro members k hinside
  cases hinside with
  | item hv hinside => exact h _ hv members k hinside

theorem Value.keyed_map {members : Members} {knot : Nat} (hkeyed : Members.Keyed members)
    (h : ∀ m ∈ members, m.2.Keyed) : (Value.map members knot).Keyed := by
  intro inner k hinside
  cases hinside with
  | whole => exact hkeyed
  | member hm hinside => exact h _ hm inner k hinside

theorem Members.key_of_mem_put {key : Scalar} {value : Value} {members : Members}
    {m : Scalar × Value} (h : m ∈ members.put key value) :
    m.1 = key ∨ ∃ n ∈ members, n.1 = m.1 := by
  induction members with
  | nil =>
    rw [Members.put, List.mem_singleton] at h
    exact .inl (congrArg Prod.fst h)
  | cons n rest ih =>
    obtain ⟨k, v⟩ := n
    rw [Members.put] at h
    split at h
    · rcases List.mem_cons.mp h with rfl | h
      · exact .inr ⟨(k, v), List.mem_cons_self, rfl⟩
      · exact .inr ⟨m, List.mem_cons_of_mem _ h, rfl⟩
    · rcases List.mem_cons.mp h with rfl | h
      · exact .inr ⟨(k, v), List.mem_cons_self, rfl⟩
      · refine (ih h).imp_right ?_
        intro hn
        obtain ⟨n, hn, heq⟩ := hn
        exact ⟨n, List.mem_cons_of_mem _ hn, heq⟩

theorem Members.Keyed.put {members : Members} (h : members.Keyed) (key : Scalar) (value : Value) :
    (members.put key value).Keyed := by
  induction members with
  | nil => exact List.pairwise_singleton _ _
  | cons n rest ih =>
    obtain ⟨k, v⟩ := n
    obtain ⟨hhead, hrest⟩ := List.pairwise_cons.mp h
    rw [Members.put]
    split
    · exact List.pairwise_cons.mpr ⟨hhead, hrest⟩
    next hk =>
      refine List.pairwise_cons.mpr ⟨fun m hm => ?_, ih hrest⟩
      rcases key_of_mem_put hm with heq | ⟨n, hn, heq⟩
      · rw [heq]
        simpa using hk
      · rw [← heq]
        exact hhead n hn

/-- Mappings are put together key by key, so their keys are distinct. -/
theorem Members.keyed_ofList (pairs : List (Scalar × Value)) : (Members.ofList pairs).Keyed := by
  have hfold : ∀ members : Members, members.Keyed →
      (pairs.foldl (fun ms p => ms.put p.1 p.2) members).Keyed := by
    induction pairs with
    | nil => exact fun _ h => h
    | cons p pairs ih => exact fun members h => ih _ (h.put p.1 p.2)
  exact hfold [] .nil

theorem Members.put_of_absent {members : Members} {key : Scalar}
    (h : ∀ m ∈ members, m.1.sameKey key = false) (value : Value) :
    members.put key value = members ++ [(key, value)] := by
  induction members with
  | nil => rfl
  | cons m rest ih =>
    obtain ⟨hm, hrest⟩ := List.forall_mem_cons.mp h
    rw [Members.put, hm, if_neg Bool.false_ne_true, ih hrest, List.cons_append]

/-- Members with distinct keys are put together as they stand. -/
theorem Members.ofList_of_keyed {members : Members} (h : members.Keyed) :
    Members.ofList members = members := by
  have hfold : ∀ before : Members, (before ++ members).Keyed →
      members.foldl (fun ms p => ms.put p.1 p.2) before = before ++ members := by
    clear h
    induction members with
    | nil => simp
    | cons m rest ih =>
      intro before hkeyed
      have habsent := (List.pairwise_append.mp hkeyed).2.2
      rw [List.foldl_cons, put_of_absent fun n hn => habsent n hn m List.mem_cons_self]
      simpa using ih (before ++ [m]) (by simpa using hkeyed)
  exact hfold [] h

theorem Scalar.sameKey_iff_of_whole {a b : Scalar} (hwhole : b.whole? = none)
    (hmoment : ∀ t, b ≠ .moment t) (hnan : b ≠ .float .nan) : a.sameKey b = true ↔ a = b := by
  unfold sameKey
  split
  next t => exact absurd rfl (hmoment t)
  next =>
    rw [hwhole]
    cases ha : a.whole? with
    | none =>
      simp only [Bool.and_eq_true, beq_iff_eq, bne_iff_ne, and_iff_left_iff_imp]
      intro heq
      rw [heq]
      exact hnan
    | some m =>
      refine iff_of_false Bool.false_ne_true ?_
      intro heq
      rw [heq, hwhole] at ha
      cases ha

/-- What reads as a text is the same key as itself only. -/
theorem Value.sameKey_iff {v w : Value} {name : String} (h : Field.text v = .ok name) :
    w.sameKey v = true ↔ w = v := by
  cases v with
  | scalar b =>
    have hkey : ∀ a : Scalar, a.sameKey b = true ↔ a = b := by
      intro a
      cases b with
      | str s => exact Scalar.sameKey_iff_of_whole rfl nofun nofun
      | bytes octets => exact Scalar.sameKey_iff_of_whole rfl nofun nofun
      | _ => cases h
    cases w with
    | scalar a => simp [sameKey, hkey]
    | _ => simp [sameKey]
  | _ => cases h

namespace Schema

theorem any_sameKey_iff {v : Value} {name : String} (h : Field.text v = .ok name)
    {vs : List Value} : vs.any (·.sameKey v) = true ↔ v ∈ vs := by
  rw [List.any_eq_true]
  constructor
  · intro hex
    obtain ⟨w, hw, hsame⟩ := hex
    rwa [← (Value.sameKey_iff h).mp hsame]
  · intro hv
    exact ⟨v, hv, (Value.sameKey_iff h).mpr rfl⟩

theorem mem_distinct {v : Value} {name : String} (h : Field.text v = .ok name) {vs : List Value} :
    v ∈ distinct vs ↔ v ∈ vs := by
  have hfold : ∀ seen, v ∈ vs.foldl
      (fun seen w => if seen.any (·.sameKey w) then seen else seen ++ [w]) seen ↔
        v ∈ seen ∨ v ∈ vs := by
    induction vs with
    | nil => simp
    | cons w vs ih =>
      intro seen
      rw [List.foldl_cons, ih, List.mem_cons, ← or_assoc]
      refine or_congr_left ?_
      split
      next hseen =>
        refine (or_iff_left_of_imp ?_).symm
        rintro rfl
        exact (any_sameKey_iff h).mp hseen
      next => rw [List.mem_append, List.mem_singleton]
  rw [distinct, hfold []]
  simp

/-! ## Names an object lists -/

/-- Whether an object's own list of required names has a key. -/
def lists (raw : Members) (key : Scalar) : Bool :=
  match raw.get? "required" with
  | some (.seq items _) => items.any (·.sameKey (.scalar key))
  | _ => false

theorem mem_requiredNames {place : String} {raw : Members} {required : List Value}
    (h : requiredNames place raw = .ok required) {key : Scalar} {name : String}
    (htext : Field.text (.scalar key) = .ok name) :
    .scalar key ∈ required ↔ lists raw key = true := by
  unfold requiredNames at h
  unfold lists
  split at h
  next hnone =>
    cases h
    split
    next items knot hget =>
      -- A list that counts as left out is empty.
      have hempty := Value.present?_eq_none.mp hnone _ hget
      have hnil : items = [] := by simpa [Value.truthy] using hempty
      simp [hnil]
    next => simp
  next b hb =>
    cases h
    rw [(Value.present?_eq_some.mp hb).1]
    simp
  next items knot hitems =>
    rw [(Value.present?_eq_some.mp hitems).1]
    split at h
    · cases h
      simp only [mem_distinct htext, any_sameKey_iff htext]
    · cases h
  next => cases h

/-- After a look at one property its key is required as well if the property marks itself. -/
theorem mem_noteMark {place : String} {key name : Scalar} {raw : Value}
    {required noted : List Value} (h : (noteMark place name raw required).outcome = .ok noted)
    {text : String} (htext : Field.text (.scalar key) = .ok text) :
    .scalar key ∈ noted ↔ .scalar key ∈ required ∨ marksItself raw = true ∧ name = key := by
  rw [noteMark_outcome] at h
  cases h
  by_cases hmark : marksItself raw = true
  · cases hlisted : required.any (·.sameKey (.scalar name)) with
    | false => simp [hmark, eq_comm]
    | true =>
      simp only [hmark, Bool.not_true, Bool.and_false, Bool.false_eq_true, if_false, true_and]
      refine (or_iff_left_of_imp ?_).symm
      intro heq
      rw [heq] at hlisted
      exact (any_sameKey_iff htext).mp hlisted
  · simp [hmark]

/-! ## Warnings -/

/-- A property as it is come across: where it stands, in which object, and under which key. -/
structure Site where
  place : String
  parent : Members
  key : Scalar
  value : Value

mutual

/-- The properties of all objects in a schema. A property comes before those inside it. -/
def sites (place : String) : Value → List Site
  | .map members _ =>
    match kindOf members with
    | .array => itemSites (place ++ "[]") members
    | .object => propertySites place members members
    | _ => []
  | _ => []

def itemSites (place : String) : List (Scalar × Value) → List Site
  | [] => []
  | (k, v) :: rest => if k = .str "items" then sites place v else itemSites place rest

def propertySites (place : String) (parent : Members) : List (Scalar × Value) → List Site
  | [] => []
  | (k, v) :: rest =>
    if k = .str "properties" then
      match v with
      | .map properties _ => eachSites place parent properties
      | _ => []
    else propertySites place parent rest

def eachSites (place : String) (parent : Members) : List (Scalar × Value) → List Site
  | [] => []
  | (key, raw) :: rest =>
    let here := place ++ "." ++ key.plain
    ⟨here, parent, key, raw⟩ :: (sites here raw ++ eachSites place parent rest)

end

/-- A property marks itself as required, and its object does not list it. -/
def Site.unlisted (site : Site) : Bool := marksItself site.value && !lists site.parent site.key

/-- The warnings for properties that mark themselves. -/
def warnings (found : List Site) : List Entry :=
  (found.filter Site.unlisted).map fun site => ⟨.warning, none, .text (deprecation site.place)⟩

theorem warnings_append (found others : List Site) :
    warnings (found ++ others) = warnings found ++ warnings others := by
  simp [warnings]

theorem sites_map (place : String) (members : Members) (knot : Nat) :
    sites place (.map members knot) = match kindOf members with
      | .array => itemSites (place ++ "[]") members
      | .object => propertySites place members members
      | _ => [] := by
  rw [sites]

/-- Names that were required so far are those the object lists, as far as the properties go that
are still to come. -/
def Tracks (required : List Value) (parent properties : Members) : Prop :=
  ∀ m ∈ properties, .scalar m.1 ∈ required ↔ lists parent m.1 = true

theorem noteMark_entries (place : String) {name : Scalar} (raw : Value) {required : List Value}
    {parent : Members} {text : String} (htext : Field.text (.scalar name) = .ok text)
    (htracks : .scalar name ∈ required ↔ lists parent name = true) :
    (noteMark place name raw required).entries = warnings [⟨place, parent, name, raw⟩] := by
  have hlisted : required.any (·.sameKey (.scalar name)) = lists parent name := by
    rw [Bool.eq_iff_iff, any_sameKey_iff htext, htracks]
  unfold noteMark
  rw [hlisted]
  cases hunlisted : marksItself raw && !lists parent name with
  | true => simp [warnings, Site.unlisted, hunlisted]; rfl
  | false => simp [warnings, Site.unlisted, hunlisted]

/-- The keys of all members read as texts. -/
def Named (members : Members) : Prop := ∀ m ∈ members, ∃ name, Field.text (.scalar m.1) = .ok name

theorem Tracks.note {place : String} {name : Scalar} {raw : Value} {required noted : List Value}
    {parent rest : Members} (hkeyed : Members.Keyed ((name, raw) :: rest)) (hnamed : Named rest)
    (h : Tracks required parent ((name, raw) :: rest))
    (hnoted : (noteMark place name raw required).outcome = .ok noted) :
    Tracks noted parent rest := by
  intro m hm
  obtain ⟨text, htext⟩ := hnamed m hm
  have hapart : name ≠ m.1 := by
    intro heq
    have hdiffer := (List.pairwise_cons.mp hkeyed).1 m hm
    have hsame := (Value.sameKey_iff htext).mpr (congrArg Value.scalar heq)
    rw [Value.sameKey, hdiffer] at hsame
    cases hsame
  rw [mem_noteMark hnoted htext, h m (List.mem_cons_of_mem _ hm)]
  simp [hapart]

mutual

/-- What is written while a schema is read are the warnings for its properties. -/
theorem read_entries : ∀ (place : String) (v : Value) (s : Schema), v.Keyed →
    (read place v).outcome = .ok s → (read place v).entries = warnings (sites place v)
  | _, .scalar .null, _, _, _ => rfl
  | place, .map members knot, s, hkeyed, h => by
    have hmembers : ∀ m ∈ members, m.2.Keyed := fun m hm inner k hinside =>
      hkeyed inner k (.member hm hinside)
    rw [read_map] at h ⊢
    rw [sites_map]
    cases hkind : kindOf members with
    | array =>
      rw [hkind] at h
      obtain ⟨items, hitems, h⟩ := Traced.bind_outcome_eq_ok.mp h
      simp only [Traced.entries_bind hitems, Traced.entries_ofExcept, List.append_nil]
      exact readItems_entries _ members items hmembers hitems
    | object =>
      rw [hkind] at h
      obtain ⟨_, hchecked, h⟩ := Traced.bind_outcome_eq_ok.mp h
      obtain ⟨required, hrequired, h⟩ := Traced.bind_outcome_eq_ok.mp h
      obtain ⟨found, hfound, h⟩ := Traced.bind_outcome_eq_ok.mp h
      obtain ⟨_, names, _, _, hnames, _⟩ := finishObject_named h
      have hnamed : Named (propertiesOf members) := by
        rw [readProperties_eq] at hfound
        intro m hm
        obtain ⟨p, hp, hkey, _⟩ := exists_right_of_forall₂ (readEach_forall₂ hfound) hm
        obtain ⟨name, _, hname⟩ := exists_right_of_forall₂ hnames hp
        rw [hkey] at hname
        exact ⟨name, hname⟩
      have htracks : Tracks required members (propertiesOf members) := by
        intro m hm
        obtain ⟨name, hname⟩ := hnamed m hm
        exact mem_requiredNames hrequired hname
      have hproperties : Members.Keyed (propertiesOf members) := by
        rcases propertiesOf_cases members with hnone | ⟨k, hget⟩
        · rw [hnone]
          exact .nil
        · exact hkeyed _ k (Value.inside_of_get? hget)
      simp only [Traced.entries_bind hchecked, Traced.entries_bind hrequired,
        Traced.entries_bind hfound, Traced.entries_ofExcept, List.append_nil, List.nil_append]
      exact readProperties_entries _ members required members found hmembers hproperties hnamed
        htracks hfound
    | _ => rfl
  | _, .endless, _, _, h => nomatch h
  | _, .scalar (.bool _), _, _, h => nomatch h
  | _, .scalar (.int _), _, _, h => nomatch h
  | _, .scalar (.float _), _, _, h => nomatch h
  | _, .scalar (.str _), _, _, h => nomatch h
  | _, .scalar (.date _), _, _, h => nomatch h
  | _, .scalar (.moment _), _, _, h => nomatch h
  | _, .scalar (.bytes _), _, _, h => nomatch h
  | _, .seq _ _, _, _, h => nomatch h
  | _, .pair _ _, _, _, h => nomatch h
  | _, .set _, _, _, h => nomatch h

theorem readItems_entries : ∀ (place : String) (members : List (Scalar × Value)) (s : Schema),
    (∀ m ∈ members, m.2.Keyed) → (readItems place members).outcome = .ok s →
      (readItems place members).entries = warnings (itemSites place members)
  | _, [], _, _, _ => rfl
  | place, (k, v) :: rest, s, hkeyed, h => by
    obtain ⟨hv, hrest⟩ := List.forall_mem_cons.mp hkeyed
    rw [readItems] at h ⊢
    rw [itemSites]
    split
    next hk =>
      rw [if_pos hk] at h
      exact read_entries place v s hv h
    next hk =>
      rw [if_neg hk] at h
      exact readItems_entries place rest s hrest h

theorem readProperties_entries : ∀ (place : String) (parent : Members) (required : List Value)
    (members : List (Scalar × Value)) (found : List (Scalar × Schema) × List Value),
    (∀ m ∈ members, m.2.Keyed) → Members.Keyed (propertiesOf members) →
      Named (propertiesOf members) → Tracks required parent (propertiesOf members) →
      (readProperties place required members).outcome = .ok found →
      (readProperties place required members).entries =
        warnings (propertySites place parent members)
  | _, _, _, [], _, _, _, _, _, _ => rfl
  | place, parent, required, (k, v) :: rest, found, hkeyed, hproperties, hnamed, htracks, h => by
    obtain ⟨hv, hrest⟩ := List.forall_mem_cons.mp hkeyed
    by_cases hk : k = .str "properties"
    · cases v with
      | map properties knot =>
        have hsame : propertiesOf ((k, .map properties knot) :: rest) = properties := by
          simp [propertiesOf, Members.get?, hk]
        rw [hsame] at hproperties hnamed htracks
        rw [readProperties, if_pos hk] at h ⊢
        rw [propertySites, if_pos hk]
        refine readEach_entries place parent required properties found ?_ hproperties hnamed
          htracks h
        exact fun m hm inner k hinside => hv inner k (.member hm hinside)
      | _ => simp [readProperties, propertySites, hk, warnings]
    · have hsame : propertiesOf ((k, v) :: rest) = propertiesOf rest := by
        simp [propertiesOf, Members.get?, hk]
      rw [hsame] at hproperties hnamed htracks
      have hread : readProperties place required ((k, v) :: rest) =
          readProperties place required rest := by
        cases v <;> simp [readProperties, hk]
      have hsites : propertySites place parent ((k, v) :: rest) =
          propertySites place parent rest := by
        cases v <;> simp [propertySites, hk]
      rw [hread] at h ⊢
      rw [hsites]
      exact readProperties_entries place parent required rest found hrest hproperties hnamed
        htracks h

theorem readEach_entries : ∀ (place : String) (parent : Members) (required : List Value)
    (properties : List (Scalar × Value)) (found : List (Scalar × Schema) × List Value),
    (∀ m ∈ properties, m.2.Keyed) → Members.Keyed properties → Named properties →
      Tracks required parent properties →
      (readEach place required properties).outcome = .ok found →
      (readEach place required properties).entries = warnings (eachSites place parent properties)
  | _, _, _, [], _, _, _, _, _, _ => rfl
  | place, parent, required, (name, raw) :: rest, found, hvalues, hkeyed, hnamed, htracks, h => by
    obtain ⟨hraw, hrest⟩ := List.forall_mem_cons.mp hvalues
    obtain ⟨⟨text, htext⟩, hnamedRest⟩ := List.forall_mem_cons.mp hnamed
    rw [readEach_cons] at h ⊢
    obtain ⟨spelled, hspelled, h⟩ := Traced.bind_outcome_eq_ok.mp h
    obtain ⟨noted, hnoted, h⟩ := Traced.bind_outcome_eq_ok.mp h
    obtain ⟨schema, hschema, h⟩ := Traced.bind_outcome_eq_ok.mp h
    obtain ⟨others, hothers, h⟩ := Traced.bind_outcome_eq_ok.mp h
    obtain ⟨_, rfl⟩ := Scalar.spelledPlain_eq_ok.mp hspelled
    have hmark := noteMark_entries (place ++ "." ++ name.plain) raw htext
      (htracks (name, raw) List.mem_cons_self)
    have hinner := read_entries (place ++ "." ++ name.plain) raw schema hraw hschema
    have houter := readEach_entries place parent noted rest others hrest
      (List.pairwise_cons.mp hkeyed).2 hnamedRest (htracks.note hkeyed hnamedRest hnoted) hothers
    rw [Traced.entries_bind hspelled, Traced.entries_bind hnoted, Traced.entries_bind hschema,
      Traced.entries_bind hothers, hmark, hinner, houter, eachSites]
    simp only [Traced.entries_ofExcept, Traced.entries_pure, List.nil_append, List.append_nil,
      ← warnings_append, List.singleton_append]

end

/-! ## The marked property itself -/

/-- A mapping without its mark. -/
def unmarked (members : Members) : Members := members.filter fun m => m.1 != .str "required"

theorem get?_unmarked (members : Members) :
    Members.get? "required" (unmarked members) = none := by
  induction members with
  | nil => rfl
  | cons m rest ih =>
    obtain ⟨k, v⟩ := m
    by_cases hk : k = .str "required"
    · simpa [unmarked, hk] using ih
    · simpa [unmarked, hk, Members.get?] using ih

theorem get?_unmarked_of_ne {key : String} (hkey : key ≠ "required") (members : Members) :
    Members.get? key (unmarked members) = members.get? key := by
  induction members with
  | nil => rfl
  | cons m rest ih =>
    obtain ⟨k, v⟩ := m
    by_cases hk : k = .str "required"
    · simpa [unmarked, hk, Members.get?, hkey.symm] using ih
    · by_cases hk' : k = .str key
      · simp [unmarked, hk', Members.get?, hkey]
      · simpa [unmarked, hk, hk', Members.get?] using ih

/-- Two mappings that say the same under all keys but `required`, and require the same names, are
read alike. -/
theorem read_congr {members others : Members}
    (h : ∀ key, key ≠ "required" → members.get? key = others.get? key)
    (hrequired : ∀ place, requiredNames place members = requiredNames place others)
    (place : String) (knot knot' : Nat) :
    read place (.map members knot) = read place (.map others knot') := by
  have htraits : ∀ place, readTraits place members = readTraits place others := fun place => by
    simp only [readTraits, h "description" (by decide), h "nullable" (by decide),
      h "default" (by decide)]
  have hkind : kindOf members = kindOf others := by
    simp only [kindOf, h "$ref" (by decide), h "type" (by decide), h "enum" (by decide),
      h "items" (by decide), h "properties" (by decide)]
  have hproperties : propertiesOf members = propertiesOf others := by
    simp only [propertiesOf, h "properties" (by decide)]
  simp only [read_map, readRef, readEnum, readString, readNumber, readItems_eq, finishArray,
    checkProperties, readProperties_eq, finishObject, hkind, htraits, hproperties, hrequired,
    h "format" (by decide), h "pattern" (by decide), h "minLength" (by decide),
    h "maxLength" (by decide), h "minimum" (by decide), h "maximum" (by decide),
    h "items" (by decide), h "minItems" (by decide), h "maxItems" (by decide),
    h "properties" (by decide)]

/-- A truth value under `required` makes no difference to the schema that says it. -/
theorem read_unmarked {members : Members} {b : Bool}
    (h : members.get? "required" = some (.bool b)) (place : String) (knot : Nat) :
    read place (.map members knot) = read place (.map (unmarked members) knot) := by
  refine read_congr (fun key hkey => (get?_unmarked_of_ne hkey members).symm) ?_ place knot knot
  intro place
  unfold requiredNames
  rw [get?_unmarked, h]
  cases b <;> rfl

end Schema

end ApiContract

import ApiContract.Proofs.Replacement

/-!
A parameter, a body or a response that is given as a reference is read as the mapping it refers to:
putting that mapping in its place gives the same document. A reference is followed once, so a
reference in that mapping is not looked at, and what it would lead to is lost.
-/

namespace ApiContract.Document

open Relation (ReflGen)
open Value (Step At Among Replaced Passes)

/-! ## Places of entries -/

/-- The place of a body, a response for success or a parameter in an operation. -/
inductive OperationPlace : List Step → Prop
  | body : OperationPlace [.key (.str "requestBody")]
  | response {code : Scalar} : code = .str "200" ∨ code.sameKey (.int 200) = true →
      OperationPlace [.key (.str "responses"), .key code]
  | parameter : OperationPlace [.key (.str "parameters"), .item]

/-- The place of such an entry in a path item, whose parameters are shared by its operations. -/
inductive ItemPlace : List Step → Prop
  | operation {key : Scalar} {method : String} {rest : List Step} :
      methodOf? key = .ok (some method) → OperationPlace rest → ItemPlace (.key key :: rest)
  | shared : ItemPlace [.key (.str "parameters"), .item]

/-- The place of such an entry in a description. -/
inductive EntryPlace : List Step → Prop
  | path {path : Scalar} {rest : List Step} :
      ItemPlace rest → EntryPlace (.key (.str "paths") :: .key path :: rest)

/-- A key under which nothing is read of the target of a reference. -/
def Unread (k : Scalar) : Prop := ∀ key ∈ entryKeys, k ≠ .str key

theorem unread_text {text : String} (h : text ∉ entryKeys) : Unread (.str text) := by
  intro key hkey heq
  cases heq
  exact h hkey

theorem methodOf?_entryKeys : ∀ key ∈ entryKeys, methodOf? (.str key) = .ok none := by
  simp only [entryKeys, List.forall_mem_cons]
  exact ⟨rfl, rfl, rfl, rfl, rfl, rfl, rfl, rfl, List.forall_mem_nil _⟩

theorem unread_of_method {key : Scalar} {method : String}
    (h : methodOf? key = .ok (some method)) : Unread key := by
  intro text htext heq
  rw [heq, methodOf?_entryKeys text htext] at h
  cases h

theorem OperationPlace.unread {address : List Step} (h : OperationPlace address) {k : Scalar}
    (hk : .key k ∈ address) : Unread k := by
  cases h with
  | body =>
    simp only [List.mem_singleton, Step.key.injEq] at hk
    exact hk ▸ unread_text (by decide)
  | response hcode =>
    simp only [List.mem_cons, Step.key.injEq, List.not_mem_nil, or_false] at hk
    rcases hk with rfl | rfl
    · exact unread_text (by decide)
    · rcases hcode with rfl | hcode
      · exact unread_text (by decide)
      · intro key _ heq
        rw [heq] at hcode
        cases hcode
  | parameter =>
    simp only [List.mem_cons, Step.key.injEq, List.not_mem_nil, or_false, reduceCtorEq] at hk
    exact hk ▸ unread_text (by decide)

theorem ItemPlace.unread {address : List Step} (h : ItemPlace address) {k : Scalar}
    (hk : .key k ∈ address) : Unread k := by
  cases h with
  | operation hmethod hplace =>
    rcases List.mem_cons.mp hk with heq | hk
    · cases heq
      exact unread_of_method hmethod
    · exact hplace.unread hk
  | shared => exact OperationPlace.parameter.unread hk

/-! ## Pointers that stop above a place -/

variable {root root' entry target : Value} {address : List Step}

theorem saysAlike_at {k : Scalar} {R : Value → Value → Prop} {v w : Value} (h : At k R v w)
    (hk : Unread k) : SaysAlike v w := by
  obtain ⟨members, others, _, _, rfl, rfl⟩ := h.cases_map
  exact .ok (.of_get? fun key hkey => h.get?_of_ne (hk key hkey))

theorem follow?_at {k : Scalar} {R : Value → Value → Prop} {v w : Value} (h : At k R v w)
    (key : String) (keys : List String)
    (hstep : ∀ members knot x y, v = .map members knot → Members.get? key members = some x →
      k = .str key → R x y →
        Option.Rel SaysAlike (Pointer.follow? x keys) (Pointer.follow? y keys)) :
    Option.Rel SaysAlike (Pointer.follow? v (key :: keys)) (Pointer.follow? w (key :: keys)) := by
  obtain ⟨members, others, knot, _, rfl, rfl⟩ := h.cases_map
  have hget := h.get? key
  rw [Pointer.follow?, Pointer.follow?]
  generalize hgiven : Members.get? key members = given at hget ⊢
  generalize Members.get? key others = other at hget ⊢
  cases hget with
  | none => exact .none
  | some hxy =>
    cases hxy with
    | refl => exact rel_refl SaysAlike.refl _
    | single hR => exact hstep members knot _ _ rfl hgiven hR.1 hR.2

theorem follow?_among {R : Value → Value → Prop} {v w : Value} (h : Among R v w)
    (keys : List String) :
    Option.Rel SaysAlike (Pointer.follow? v keys) (Pointer.follow? w keys) := by
  cases h
  cases keys with
  | nil => exact .some .error
  | cons key keys => exact .none

theorem follow?_replaced {v w : Value} (h : Replaced entry target address v w)
    (hunread : ∀ k, .key k ∈ address → Unread k) {keys : List String}
    (hpass : ¬ Passes address keys) :
    Option.Rel SaysAlike (Pointer.follow? v keys) (Pointer.follow? w keys) := by
  induction address generalizing v w keys with
  | nil => exact absurd (by simp [Passes]) hpass
  | cons step rest ih =>
    cases step with
    | item => exact follow?_among h keys
    | key k =>
      cases keys with
      | nil => exact .some (saysAlike_at h (hunread k List.mem_cons_self))
      | cons key keys =>
        refine follow?_at h key keys fun _ _ x y _ _ hk hxy => ?_
        have hrest : ∀ k, .key k ∈ rest → Unread k :=
          fun k hk => hunread k (List.mem_cons_of_mem _ hk)
        exact ih hxy hrest fun hrest' => hpass ⟨hk, hrest'⟩

/-- No reference in a description leads to a place or into it. -/
def Clear (root : Value) (address : List Step) : Prop :=
  ∀ members knot, (Value.map members knot).Inside root → ∀ ref keys,
    Members.get? "$ref" members = some (.str ref) → Pointer.keys? ref = some keys →
      ¬ Passes address keys

/-- No pointer leads to an item of a sequence. -/
theorem not_passes_item (before after : List Step) (keys : List String) :
    ¬ Passes (before ++ .item :: after) keys := by
  induction before generalizing keys with
  | nil => cases keys <;> exact id
  | cons step rest ih =>
    cases step with
    | item => cases keys <;> exact id
    | key k =>
      cases keys with
      | nil => exact id
      | cons key keys => exact fun hpass => ih keys hpass.2

theorem replaced_map {v w : Value} {k : Scalar} {rest : List Step}
    (h : Replaced entry target (.key k :: rest) v w) : ∃ members others knot knot',
      v = .map members knot ∧ w = .map others knot' :=
  At.cases_map h

theorem ItemPlace.cases_key (h : ItemPlace address) :
    ∃ k rest, address = .key k :: rest ∧ k ≠ .str mediaType := by
  cases h with
  | operation hmethod _ =>
    refine ⟨_, _, rfl, fun hk => ?_⟩
    rw [hk, show methodOf? (.str mediaType) = .ok none from rfl] at hmethod
    cases hmethod
  | shared => exact ⟨_, _, rfl, by simp [mediaType]⟩

/-- The paths of a description say the same if an entry is replaced in one of them. -/
theorem saysAlike_paths {path : Scalar} {v w : Value} (hplace : ItemPlace address)
    (h : At path (Replaced entry target address) v w)
    (hmaps : ∀ paths k, v = .map paths k → AllMaps paths) : SaysAlike v w := by
  obtain ⟨members, others, knot, _, rfl, rfl⟩ := h.cases_map
  refine .ok (.of_items fun key _ => ?_)
  refine rel_of_mem (h.get? key) fun x y hx hxy => ?_
  cases hxy with
  | refl =>
    obtain ⟨item, k, rfl⟩ := hmaps members knot rfl _ (Members.mem_of_get? hx)
    exact .intro Iff.rfl rfl
  | single hR =>
    obtain ⟨k, rest, rfl, hmedia⟩ := hplace.cases_key
    obtain ⟨item, other, _, _, rfl, rfl⟩ := replaced_map hR.2
    have hlength := (At.matched hR.2).length_eq
    refine .intro ?_ (At.get?_of_ne hR.2 hmedia)
    rw [← List.length_eq_zero_iff, ← List.length_eq_zero_iff, hlength]

/-- A reference that does not lead into the place says the same in both descriptions. -/
theorem resolvesAlike (hplace : EntryPlace address)
    (h : Replaced entry target address root root') (hmaps : PathsAreMaps root)
    (hclear : Clear root address) : ResolvesAlike root root' root := by
  intro members knot hinside
  refine leadsAlike_of_follow? fun ref keys href hkeys => ?_
  have hpass := hclear members knot hinside ref keys href hkeys
  cases hplace with
  | @path path rest hitem =>
    cases keys with
    | nil => exact .some (saysAlike_at h (unread_text (by decide)))
    | cons key keys =>
      refine follow?_at h key keys fun sections k v w heq hv hkey hvw => ?_
      cases hkey
      cases keys with
      | nil => exact .some (saysAlike_paths hitem hvw fun paths _ hpaths =>
          hmaps sections k heq paths _ (hpaths ▸ hv))
      | cons key keys =>
        refine follow?_at hvw key keys fun _ _ x y _ _ hkey hxy => ?_
        exact follow?_replaced hxy (fun _ hk => hitem.unread hk) fun hrest =>
          hpass ⟨rfl, hkey, hrest⟩

/-! ## Operations -/

/-- An entry that is a reference, and a mapping without one that is read as its target. -/
def Stands (root root' entry target : Value) : Prop :=
  ∃ members found knot knot', entry = .map members knot ∧ target = .map found knot' ∧
    LeadsAlike root root' members found

/-- The same value, or the entry and what takes its place. -/
abbrev Exchanged (entry target : Value) : Value → Value → Prop :=
  ReflGen fun v w => v = entry ∧ w = target

theorem orEmptySeq_among (before after : List Value) (v : Value) (knot : Nat) :
    orEmptySeq (some (.seq (before ++ v :: after) knot)) = .seq (before ++ v :: after) knot := by
  simp [orEmptySeq, Value.present?, Value.truthy]

theorem success?_exchanged {code : Scalar} {members others : Members} {knot knot' : Nat}
    (h : At code (Replaced entry target []) (.map members knot) (.map others knot')) :
    Option.Rel (Exchanged entry target) (success? members) (success? others) := by
  have hexchange : ∀ {k : Scalar} {v w : Value},
      ReflGen (fun v w => code = k ∧ Replaced entry target [] v w) v w →
        Exchanged entry target v w :=
    fun hvw => hvw.mono fun _ _ hkey => hkey.2
  unfold success?
  have htext := h.get? "200"
  have hnumber := h.matched.find? (·.sameKey (.int 200))
  generalize members.get? "200" = given at htext ⊢
  generalize others.get? "200" = other at htext ⊢
  cases htext with
  | some hvw => exact .some (hexchange hvw)
  | none => exact rel_mono hnumber fun _ _ hvw => hexchange hvw.choose_spec

section Alike

variable (hresolves : ResolvesAlike root root' root) (hstands : Stands root root' entry target)

include hresolves hstands

theorem holdsAlike_exchanged {given other : Option Value}
    (h : Option.Rel (Exchanged entry target) given other)
    (hinside : ∀ v, given = some v → v.Inside root) : HoldsAlike root root' given other := by
  cases h with
  | none => exact .ok .none
  | some hvw =>
    cases hvw with
    | refl => exact holdsAlike_same hresolves hinside
    | single heq =>
      obtain ⟨rfl, rfl⟩ := heq
      obtain ⟨members, found, knot, knot', rfl, rfl, hleads⟩ := hstands
      exact hleads.map fun _ _ halike => .some halike

theorem parameterAlike_exchanged {v w : Value} (h : Exchanged entry target v w)
    (hinside : ∀ raw knot, v = .map raw knot → v.Inside root) : ParameterAlike root root' v w := by
  cases h with
  | refl => exact parameterAlike_same hresolves hinside
  | single heq =>
    obtain ⟨rfl, rfl⟩ := heq
    obtain ⟨members, found, knot, knot', rfl, rfl, hleads⟩ := hstands
    exact .map hleads

/-- The parameters of a path or of an operation, one of them exchanged. -/
theorem parametersAlike_replaced {members others : Members}
    (hget : Option.Rel (ReflGen (Replaced entry target [.item])) (members.get? "parameters")
      (others.get? "parameters")) (hinside : MembersInside root members) :
    Agree (List.Forall₂ (ParameterAlike root root'))
      (elementsOf (orEmptySeq (members.get? "parameters")))
      (elementsOf (orEmptySeq (others.get? "parameters"))) := by
  have hparts := orEmptySeq_inside hinside "parameters"
  generalize members.get? "parameters" = given at hget hparts ⊢
  generalize others.get? "parameters" = other at hget ⊢
  cases hget with
  | none => exact parametersAlike_same hresolves hparts
  | some hvw =>
    cases hvw with
    | refl => exact parametersAlike_same hresolves hparts
    | single hitem =>
      cases hitem with
      | @intro before after v w knot knot' hvw =>
        rw [orEmptySeq_among] at hparts
        rw [orEmptySeq_among, orEmptySeq_among]
        have hitems := elementsOf_inside hparts rfl
        have hsame : ∀ items : List Value, (∀ x ∈ items, x ∈ before ++ v :: after) →
            List.Forall₂ (ParameterAlike root root') items items :=
          fun items hmem => List.forall₂_same.mpr fun x hx =>
            parameterAlike_same hresolves (hitems x (hmem x hx))
        refine .ok (List.rel_append (hsame before (by simp +contextual)) (.cons ?_ ?_))
        · exact parameterAlike_exchanged hresolves hstands (.single hvw) (hitems v (by simp))
        · exact hsame after (by simp +contextual)

/-- The responses of an operation, one for success exchanged. -/
theorem responses_replaced {code : Scalar} {given other : Option Value}
    (hget : Option.Rel (ReflGen (At code (Replaced entry target []))) given other)
    (hinside : ∀ members, membersOf (orEmptyMap given) = .ok members → MembersInside root members) :
    Agree (fun responses others =>
        HoldsAlike root root' (success? responses) (success? others))
      (membersOf (orEmptyMap given)) (membersOf (orEmptyMap other)) := by
  have hsection := orEmptyMap_rel (fun _ _ => At.truthy_of_reflGen) .refl hget
  generalize orEmptyMap given = v at hsection hinside ⊢
  generalize orEmptyMap other = w at hsection ⊢
  cases hsection with
  | refl =>
    exact .same fun members hmembers => holdsAlike_same hresolves fun _ hsuccess =>
      success?_inside (hinside members hmembers) hsuccess
  | single hat =>
    obtain ⟨members, others, _, _, rfl, rfl⟩ := hat.cases_map
    exact .ok (holdsAlike_exchanged hresolves hstands (success?_exchanged hat) fun _ hsuccess =>
      success?_inside (hinside members rfl) hsuccess)

theorem operationAlike_replaced (hplace : OperationPlace address) {raw raw' : Members}
    {knot knot' : Nat} (h : Replaced entry target address (.map raw knot) (.map raw' knot'))
    {shared : Value} (hshared : shared.Inside root ∨ shared = .seq [] 0)
    (hraw : MembersInside root raw) : OperationAlike root root' shared shared raw raw' := by
  have hsame := operationAlike_same hresolves (parametersAlike_same hresolves hshared) hraw
  cases hplace with
  | body =>
    have hget : ∀ {text : String}, "requestBody" ≠ text → raw.get? text = raw'.get? text :=
      h.get?_of_ne_text
    exact {
      body := by
        have hbody : Option.Rel (Exchanged entry target) (raw.get? "requestBody")
            (raw'.get? "requestBody") := h.get?_reflGen "requestBody"
        exact holdsAlike_exchanged hresolves hstands hbody fun _ hget => hraw.get? hget
      response := by
        rw [← hget (by decide)]
        exact hsame.response
      shared := hsame.shared
      own := by
        rw [← hget (by decide)]
        exact hsame.own
      summary := hget (by decide)
      description := hget (by decide) }
  | @response code _ =>
    have hget : ∀ {text : String}, "responses" ≠ text → raw.get? text = raw'.get? text :=
      h.get?_of_ne_text
    exact {
      body := by
        rw [← hget (by decide)]
        exact hsame.body
      response := by
        have hresponses : Option.Rel (ReflGen (At code (Replaced entry target [])))
            (raw.get? "responses") (raw'.get? "responses") := h.get?_reflGen "responses"
        exact responses_replaced hresolves hstands hresponses fun _ => section_inside hraw
      shared := hsame.shared
      own := by
        rw [← hget (by decide)]
        exact hsame.own
      summary := hget (by decide)
      description := hget (by decide) }
  | parameter =>
    have hget : ∀ {text : String}, "parameters" ≠ text → raw.get? text = raw'.get? text :=
      h.get?_of_ne_text
    exact {
      body := by
        rw [← hget (by decide)]
        exact hsame.body
      response := by
        rw [← hget (by decide)]
        exact hsame.response
      shared := hsame.shared
      own := by
        exact parametersAlike_replaced hresolves hstands (h.get?_reflGen "parameters") hraw
      summary := hget (by decide)
      description := hget (by decide) }

/-! ## Paths -/

omit hresolves hstands in
theorem methodOf?_parameters : methodOf? (.str "parameters") = .ok none := rfl

omit hresolves hstands in
theorem OperationPlace.cases_map (hplace : OperationPlace address) {v w : Value}
    (h : Replaced entry target address v w) : ∃ members others knot knot',
      v = .map members knot ∧ w = .map others knot' := by
  cases hplace with
  | body => exact replaced_map h
  | response => exact replaced_map h
  | parameter => exact replaced_map h

theorem readPath_replaced (hplace : ItemPlace address) {item item' : Members} {knot knot' : Nat}
    (h : Replaced entry target address (.map item knot) (.map item' knot'))
    (hinside : MembersInside root item) (path : Scalar) :
    Agree Eq (readPath root (path, .map item knot)) (readPath root' (path, .map item' knot')) := by
  refine readPathItem_agree ?_ path
  have hshared := orEmptySeq_inside hinside "parameters"
  cases hplace with
  | @operation key method rest hmethod hplace =>
    have hkey : key ≠ .str "parameters" := by
      intro heq
      rw [heq, methodOf?_parameters] at hmethod
      cases hmethod
    rw [← At.get?_of_ne h hkey]
    refine Members.Matched.forall₂ (At.matched h) hinside fun k v w hm hvw => ?_
    cases hvw with
    | refl => exact memberAlike_same hresolves (parametersAlike_same hresolves hshared) hm
    | single hR =>
      obtain ⟨raw, raw', _, _, rfl, rfl⟩ := hplace.cases_map hR.2
      exact .operation (operationAlike_replaced hresolves hstands hplace hR.2 hshared (.of_map hm))
  | shared =>
    have hparts :=
      parametersAlike_replaced hresolves hstands (At.get?_reflGen h "parameters") hinside
    refine Members.Matched.forall₂ (At.matched h) hinside fun k v w hm hvw => ?_
    cases hvw with
    | refl => exact memberAlike_same hresolves hparts hm
    | single hR =>
      refine .passed fun method hmethod => ?_
      obtain ⟨rfl, _⟩ : .str "parameters" = k ∧ _ := hR
      rw [methodOf?_parameters] at hmethod
      cases hmethod

theorem readPaths_replaced (hplace : ItemPlace address) {path : Scalar} {paths paths' : Members}
    (h : Members.Matched (fun k => ReflGen fun v w => path = k ∧ Replaced entry target address v w)
      paths paths') (hinside : MembersInside root paths) :
    Agree Eq (readPaths root paths).outcome (readPaths root' paths').outcome := by
  have hpaths : List.Forall₂ (fun m n => Agree Eq (readPath root m) (readPath root' n))
      paths paths' := by
    refine Members.Matched.forall₂ h hinside fun k v w hm hvw => ?_
    cases hvw with
    | refl => exact readPath_same hresolves hm
    | single hR =>
      obtain ⟨_, _, rfl, _⟩ := hplace.cases_key
      obtain ⟨item, item', _, _, rfl, rfl⟩ := replaced_map hR.2
      exact readPath_replaced hresolves hstands hplace hR.2 (.of_map hm) k
  rw [readPaths_outcome, readPaths_outcome]
  exact (Agree.mapM_eq hpaths).map fun _ _ => congrArg List.flatten

end Alike

theorem allMaps_of_replaced (hplace : ItemPlace address) {path : Scalar} {paths paths' : Members}
    (h : Members.Matched (fun k => ReflGen fun v w => path = k ∧ Replaced entry target address v w)
      paths paths') (hmaps : AllMaps paths') : AllMaps paths := by
  intro m hm
  obtain ⟨n, hn, _, hvw⟩ := exists_right_of_forall₂ h hm
  obtain ⟨item, k, hitem⟩ := hmaps n hn
  generalize m.2 = v at hvw ⊢
  cases hvw with
  | refl => exact ⟨item, k, hitem⟩
  | single hR =>
    obtain ⟨_, _, rfl, _⟩ := hplace.cases_key
    obtain ⟨raw, _, knot, _, rfl, _⟩ := replaced_map hR.2
    exact ⟨raw, knot, rfl⟩

/-! ## Whole descriptions -/

theorem leadsAlike_of_resolved {members found target : Members} {ref : String} {knot : Nat}
    (href : members.get? "$ref" = some (.str ref))
    (hfound : Pointer.resolve root ref = .ok (.map found knot))
    (hbare : target.get? "$ref" = none)
    (hsame : ∀ key, key ≠ "$ref" → target.get? key = found.get? key) (root' : Value) :
    LeadsAlike root root' members target := by
  have hentry : dereference root members = .ok found := by
    simp only [dereference, href, Pointer.resolveValue, hfound]
    rfl
  have htarget : dereference root' target = .ok target := by
    rw [dereference, hbare]
  unfold LeadsAlike
  rw [hentry, htarget]
  refine .ok (.of_get? fun key hkey => (hsame key ?_).symm)
  intro heq
  simp [heq, entryKeys] at hkey

theorem readSection_replaced (hstands : Stands root root' entry target) (hplace : ItemPlace address)
    {path : Scalar} {v w : Value} (h : ReflGen (At path (Replaced entry target address)) v w)
    (hinside : ∀ paths k, v = .map paths k → MembersInside root paths)
    (hresolves : ∀ paths k, v = .map paths k → AllMaps paths → ResolvesAlike root root' root) :
    Agree Eq (readSection root v).outcome (readSection root' w).outcome := by
  obtain ⟨paths, paths', _, _, rfl, rfl, hmatched⟩ | ⟨rfl, hother⟩ := At.cases_reflGen h
  · refine readPaths_agree (allMaps_of_replaced hplace hmatched) fun hmaps => ?_
    exact readPaths_replaced (hresolves paths _ rfl hmaps) hstands hplace hmatched
      (hinside paths _ rfl)
  · cases v with
    | map paths k => exact absurd rfl (hother paths k)
    | _ => exact .error

/-- An entry that is a reference is read as the mapping it leads to, without the reference that
this mapping may be itself: putting that in its place gives the same document. -/
theorem read_replaced {members found target : Members} {ref : String} {knot knot' k : Nat}
    (hplace : EntryPlace address) (href : members.get? "$ref" = some (.str ref))
    (hfound : Pointer.resolve root ref = .ok (.map found k))
    (hbare : target.get? "$ref" = none)
    (hsame : ∀ key, key ≠ "$ref" → target.get? key = found.get? key)
    (hclear : Clear root address)
    (h : Replaced (.map members knot) (.map target knot') address root root') :
    Agree Eq (read root).outcome (read root').outcome := by
  have hstands : Stands root root' (.map members knot) (.map target knot') :=
    ⟨members, target, knot, knot', rfl, rfl, leadsAlike_of_resolved href hfound hbare hsame root'⟩
  have hresolves := fun hmaps => resolvesAlike hplace h hmaps hclear
  cases hplace with
  | @path path rest hitem =>
    obtain ⟨sections, sections', knot₁, knot₂, rfl, rfl⟩ := replaced_map h
    have hget : ∀ {text : String}, "paths" ≠ text →
        Members.get? text sections = Members.get? text sections' :=
      At.get?_of_ne_text h
    have hroot : MembersInside (.map sections knot₁) sections := .of_map .whole
    have hpaths :=
      orEmptyMap_rel (fun _ _ => At.truthy_of_reflGen) .refl (At.get?_reflGen h "paths")
    have hoperations := readSection_replaced hstands hitem hpaths
      (fun _ _ => orEmptyMap_inside hroot) fun _ _ heq hmaps => hresolves (pathsAreMaps heq hmaps)
    rw [read_outcome, read_outcome,
      schemaSection_congr knot₁ knot₂ (hget (by decide)),
      serverUrls_congr knot₁ knot₂ (hget (by decide))]
    refine Agree.bind (.of_eq rfl) fun listing _ hlisting => ?_
    cases hlisting
    refine Agree.bind (.of_eq rfl) fun schemas _ hschemas => ?_
    cases hschemas
    refine hoperations.bind fun operations _ heq => ?_
    cases heq
    exact .of_eq rfl

/-- A mapping that is a reference, and the one without a reference at the end of its chain. -/
inductive Chain (root : Value) : Members → Members → Prop
  | last {members found : Members} {ref : String} {knot : Nat} :
      members.get? "$ref" = some (.str ref) → Pointer.resolve root ref = .ok (.map found knot) →
      found.get? "$ref" = none → Chain root members found
  | next {members found final : Members} {ref : String} {knot : Nat} :
      members.get? "$ref" = some (.str ref) → Pointer.resolve root ref = .ok (.map found knot) →
      Chain root found final → Chain root members final

/-- A mapping that is nothing but a reference. -/
def referring (ref : String) : Members := [(.str "$ref", .str ref)]

def limitParameter : Members := [(.str "name", .str "limit"), (.str "in", .str "query")]

def orderBody : Members :=
  let schema : Value := .map [(.str "type", .str "string")] 0
  [(.str "content", .map [(.str "application/json", .map [(.str "schema", schema)] 0)] 0)]

/-- Parameters and bodies by name; one of the bodies is a reference to the other. -/
def orderComponents : Members :=
  let bodies : Members := [(.str "Alias", .map (referring "#/components/requestBodies/Order") 0),
    (.str "Order", .map orderBody 0)]
  [(.str "parameters", .map [(.str "Limit", .map limitParameter 0)] 0),
    (.str "requestBodies", .map bodies 0)]

/-- A description of one operation. -/
def orderSpec (parameter body : Members) : Value :=
  let operation : Members :=
    [(.str "parameters", .seq [.map parameter 0] 0), (.str "requestBody", .map body 0)]
  .map [(.str "paths", .map [(.str "/orders", .map [(.str "post", .map operation 0)] 0)] 0),
    (.str "components", .map orderComponents 0)] 0

/-- The steps down to the operation of `orderSpec`. -/
def orderPlace (rest : List Step) : List Step :=
  .key (.str "paths") :: .key (.str "/orders") :: .key (.str "post") :: rest

theorem replaced_parameter (parameter other body : Members) :
    Replaced (.map parameter 0) (.map other 0) (orderPlace [.key (.str "parameters"), .item])
      (orderSpec parameter body) (orderSpec other body) :=
  @At.intro _ _ [] _ _ _ 0 0 <| @At.intro _ _ [] [] _ _ 0 0 <| @At.intro _ _ [] [] _ _ 0 0 <|
    @At.intro _ _ [] _ _ _ 0 0 <| @Among.intro _ [] [] _ _ 0 0 ⟨rfl, rfl⟩

theorem replaced_body (parameter body other : Members) :
    Replaced (.map body 0) (.map other 0) (orderPlace [.key (.str "requestBody")])
      (orderSpec parameter body) (orderSpec parameter other) :=
  @At.intro _ _ [] _ _ _ 0 0 <| @At.intro _ _ [] [] _ _ 0 0 <| @At.intro _ _ [] [] _ _ 0 0 <|
    @At.intro _ _ [_] [] _ _ 0 0 ⟨rfl, rfl⟩

/-- The parameter by name, put in the place of a reference to it. -/
theorem read_replaced_limit :
    ∃ d, (read (orderSpec (referring "#/components/parameters/Limit") orderBody)).outcome = .ok d ∧
      (read (orderSpec limitParameter orderBody)).outcome = .ok d ∧
      d.operations.flatMap (·.parameters.map (·.name)) = ["limit"] := by
  have hplace : EntryPlace (orderPlace [.key (.str "parameters"), .item]) :=
    .path (.operation rfl .parameter)
  have hclear : ∀ root, Clear root (orderPlace [.key (.str "parameters"), .item]) :=
    fun _ _ _ _ _ keys _ _ => not_passes_item [_, _, _, _] [] keys
  have hagree := read_replaced hplace rfl rfl rfl (fun _ _ => rfl) (hclear _)
    (replaced_parameter (referring "#/components/parameters/Limit") limitParameter orderBody)
  obtain ⟨d, hd, heq⟩ := hagree.exists_right rfl
  cases heq
  exact ⟨_, rfl, hd, rfl⟩

/-- A body that is a reference to a reference is not read at all. -/
theorem read_chain_fails : ¬ ∀ (root root' : Value) (address : List Step)
    (members final : Members) (knot knot' : Nat), EntryPlace address → Chain root members final →
      Replaced (.map members knot) (.map final knot') address root root' →
        (read root').outcome = (read root).outcome := by
  intro h
  have hsame := h (orderSpec limitParameter (referring "#/components/requestBodies/Alias"))
    (orderSpec limitParameter orderBody) (orderPlace [.key (.str "requestBody")]) _ _ 0 0
    (.path (.operation rfl .body)) (.next rfl rfl (.last rfl rfl rfl)) (replaced_body _ _ _)
  have hbodies := congrArg (fun outcome => outcome.toOption.map fun d =>
    d.operations.map (·.requestBody.isSome)) hsame
  have hnone : some [true] = some [false] := hbodies
  cases hnone

end ApiContract.Document

import ApiContract.Pointer
import ApiContract.Proofs.Lines
import ApiContract.Proofs.StringLiterals

/-!
Pointers as the keys they are written from. A key is written with its tildes replaced first and its
slashes next, and read with the two replacements undone in the other order; so whatever the keys
hold, a pointer leads where its keys lead through nested mappings, and nowhere if one of them is
missing on the way.
-/

namespace ApiContract.Pointer

open Text (replaced)

/-! ## Keys in pointers -/

/-- A key as a part of a pointer: each tilde is replaced, and after that each slash. -/
def escapedKey (key : String) : String :=
  String.ofList (replaced ['/'] ['~', '1'] 0 (replaced ['~'] ['~', '0'] 0 key.toList))

/-- The key of a part: `~1` is replaced in the whole part, and after that `~0`. -/
def unescapedKey (part : String) : String :=
  String.ofList (replaced ['~', '0'] ['~'] 0 (replaced ['~', '1'] ['/'] 0 part.toList))

/-- The pointer that names keys. -/
def ofKeys (keys : List String) : String := "#/" ++ "/".intercalate (keys.map escapedKey)

theorem escape_eq (cs : List Char) :
    escape cs = replaced ['/'] ['~', '1'] 0 (replaced ['~'] ['~', '0'] 0 cs) := by
  rw [Text.replaced_one, Text.replaced_one, List.flatMap_assoc, escape]
  congr 1
  funext c
  by_cases htilde : c = '~'
  · simp [escapeChar, htilde]
  · by_cases hslash : c = '/'
    · simp [escapeChar, hslash]
    · simp [escapeChar, htilde, hslash]

theorem toList_escapedKey (key : String) : (escapedKey key).toList = escape key.toList := by
  rw [escapedKey, String.toList_ofList, escape_eq]

theorem slash_notMem_escape (cs : List Char) : '/' ∉ escape cs := by
  rw [escape, List.mem_flatMap]
  rintro ⟨c, _, hc⟩
  unfold escapeChar at hc
  split at hc
  · simp at hc
  · split at hc
    · simp at hc
    · next hslash => exact hslash (List.mem_singleton.mp hc).symm

/-! ## Parts of pointers -/

section Parts

variable {c d : Char} {cs : List Char}

theorem replaced_pair_cons (new : List Char) (h : c ≠ '~' ∨ cs.head? ≠ some d) :
    replaced ['~', d] new 0 (c :: cs) = c :: replaced ['~', d] new 0 cs := by
  have hprefix : ['~', d].isPrefixOf (c :: cs) = false := by
    cases cs with
    | nil => simp [List.isPrefixOf]
    | cons e cs =>
      rcases h with h | h
      · simp [List.isPrefixOf, Ne.symm h]
      · have hne : d ≠ e := fun heq => h (by rw [heq]; rfl)
        simp [List.isPrefixOf, hne]
  rw [replaced, hprefix, if_neg Bool.false_ne_true]

theorem replaced_pair (new cs : List Char) :
    replaced ['~', d] new 0 ('~' :: d :: cs) = new ++ replaced ['~', d] new 0 cs := by
  rw [replaced, if_pos (by simp [List.isPrefixOf])]
  rfl

/-- Slashes that come into a part bring no zero to its start. -/
theorem head?_replaced_slash (h : cs.head? ≠ some '0') :
    (replaced ['~', '1'] ['/'] 0 cs).head? ≠ some '0' := by
  cases cs with
  | nil => simp [replaced]
  | cons c cs =>
    rw [replaced]
    split
    · simp
    · simpa using h

/-- Reading an escape at a time is the same as replacing all of one kind, and then all of the other:
a slash that comes in leaves no new escape behind. -/
theorem unescape_eq (cs : List Char) :
    unescape cs = replaced ['~', '0'] ['~'] 0 (replaced ['~', '1'] ['/'] 0 cs) := by
  fun_induction unescape cs with
  | case1 cs ih =>
    rw [replaced_pair, List.cons_append, List.nil_append, replaced_pair_cons _ (.inl (by decide)),
      ih]
  | case2 cs ih =>
    have hpass : replaced ['~', '1'] ['/'] 0 ('~' :: '0' :: cs) =
        '~' :: '0' :: replaced ['~', '1'] ['/'] 0 cs := by
      rw [replaced_pair_cons _ (.inr (by simp)), replaced_pair_cons _ (.inl (by decide))]
    rw [hpass, replaced_pair, ih]
    rfl
  | case3 c cs hone hzero ih =>
    have hplain (d : Char) (hd : d = '0' ∨ d = '1') : c ≠ '~' ∨ cs.head? ≠ some d := by
      by_contra hcontra
      obtain ⟨hc, hhead⟩ := not_or.mp hcontra
      obtain ⟨rest, rfl⟩ := List.head?_eq_some_iff.mp (not_not.mp hhead)
      rcases hd with rfl | rfl
      · exact hzero rest (not_not.mp hc) rfl
      · exact hone rest (not_not.mp hc) rfl
    have hrest : c ≠ '~' ∨ (replaced ['~', '1'] ['/'] 0 cs).head? ≠ some '0' :=
      (hplain '0' (.inl rfl)).imp_right head?_replaced_slash
    rw [replaced_pair_cons _ (hplain '1' (.inr rfl)), replaced_pair_cons _ hrest, ih]
  | case4 => rfl

theorem unescapedKey_eq (part : String) :
    unescapedKey part = String.ofList (unescape part.toList) := by
  rw [unescapedKey, unescape_eq]

theorem unescapedKey_escapedKey (key : String) : unescapedKey (escapedKey key) = key := by
  rw [unescapedKey_eq, toList_escapedKey, unescape_escape, String.ofList_toList]

end Parts

/-- The keys of a pointer are the parts between its slashes, each with its escapes undone. -/
theorem keys?_ofKeys {keys : List String} (hne : keys ≠ []) : keys? (ofKeys keys) = some keys := by
  have hparts : (keys.map escapedKey).map String.toList = keys.map (escape ·.toList) := by
    rw [List.map_map]
    exact List.map_congr_left fun key _ => toList_escapedKey key
  have htext : (ofKeys keys).toList =
      '#' :: '/' :: ['/'].intercalate (keys.map (escape ·.toList)) := by
    rw [ofKeys, String.toList_append, String.toList_intercalate, hparts]
    rfl
  have hpieces : ∀ piece ∈ keys.map (escape ·.toList), '/' ∉ piece := by
    intro piece hpiece
    obtain ⟨key, _, rfl⟩ := List.mem_map.mp hpiece
    exact slash_notMem_escape _
  rw [keys?, htext]
  simp only [Text.splitAt_intercalate (mt List.map_eq_nil_iff.mp hne) hpieces, List.map_map]
  refine congrArg some ((List.map_congr_left fun key _ => ?_).trans (List.map_id keys))
  simp

theorem keys?_eq_none_iff {ref : String} : keys? ref = none ↔ ¬ "#/".toList <+: ref.toList := by
  unfold keys?
  split
  · next rest heq => simp [heq]
  · next hother =>
    refine iff_of_true rfl fun hprefix => ?_
    obtain ⟨rest, hrest⟩ := hprefix
    exact hother rest hrest.symm

/-! ## Walks through nested mappings -/

/-- Keys lead from a value to another one, each through a mapping that holds it. -/
inductive Leads : Value → List String → Value → Prop
  | here {v : Value} : Leads v [] v
  | step {members : Members} {knot : Nat} {key : String} {keys : List String} {v target : Value} :
      members.get? key = some v → Leads v keys target →
      Leads (.map members knot) (key :: keys) target

/-- One of the keys meets a mapping without it, or a value that is no mapping. -/
def Blocked (root : Value) (keys : List String) : Prop :=
  ∃ before key after v, keys = before ++ key :: after ∧ Leads root before v ∧
    ∀ members knot, v = .map members knot → Members.get? key members = none

section Walks

variable {root v : Value} {keys : List String}

theorem follow?_eq_some_iff : follow? root keys = some v ↔ Leads root keys v := by
  constructor
  · intro h
    induction keys generalizing root with
    | nil =>
      cases h
      exact .here
    | cons key keys ih =>
      cases root with
      | map members knot =>
        rw [follow?] at h
        split at h
        · next hget => exact .step hget (ih h)
        · cases h
      | _ => cases h
  · intro h
    induction h with
    | here => rfl
    | step hget _ ih =>
      rw [follow?, hget]
      exact ih

theorem follow?_eq_none_iff : follow? root keys = none ↔ Blocked root keys := by
  constructor
  · intro h
    induction keys generalizing root with
    | nil => cases h
    | cons key keys ih =>
      cases root with
      | map members knot =>
        cases hget : Members.get? key members with
        | none =>
          refine ⟨[], key, keys, _, rfl, .here, fun _ _ heq => ?_⟩
          cases heq
          exact hget
        | some w =>
          rw [follow?, hget] at h
          obtain ⟨before, missing, after, found, rfl, hleads, hblocked⟩ := ih h
          exact ⟨key :: before, missing, after, found, rfl, .step hget hleads, hblocked⟩
      | _ => exact ⟨[], key, keys, _, rfl, .here, by simp⟩
  · rintro ⟨before, key, after, found, rfl, hleads, hblocked⟩
    induction hleads with
    | @here w =>
      cases w with
      | map members knot => rw [List.nil_append, follow?, hblocked members knot rfl]
      | _ => rfl
    | step hget _ ih =>
      rw [List.cons_append, follow?, hget]
      exact ih hblocked

end Walks

/-! ## Resolution -/

/-- The parts of a reference between its slashes are its keys, each with the two replacements. -/
theorem keys?_of_parts {ref : String} {rest : List Char} (h : ref.toList = '#' :: '/' :: rest) :
    keys? ref =
      some ((Text.splitAt '/' rest).map fun part => unescapedKey (String.ofList part)) := by
  rw [keys?, h]
  refine congrArg some (List.map_congr_left fun part _ => ?_)
  rw [unescapedKey_eq, String.toList_ofList]

/-- A pointer written from keys resolves to what they lead to, and to nothing exactly if one of them
is missing. A reference that starts otherwise than a pointer is never resolved; in one that
does not, every part is freed of its escapes by two replacements, which undo those of any key. -/
theorem resolve_ofKeys :
    (∀ (root : Value) (keys : List String), keys ≠ [] →
      (∀ v, resolve root (ofKeys keys) = .ok v ↔ Leads root keys v) ∧
      (resolve root (ofKeys keys) = .error (.document (.unresolvable (ofKeys keys))) ↔
        Blocked root keys) ∧
      ((∃ v, Leads root keys v) ∨ Blocked root keys)) ∧
    (∀ (root : Value) (ref : String), ¬ "#/".toList <+: ref.toList →
      resolve root ref = .error (.document (.remoteReference ref))) ∧
    (∀ (ref : String) (rest : List Char), ref.toList = '#' :: '/' :: rest → keys? ref =
      some ((Text.splitAt '/' rest).map fun part => unescapedKey (String.ofList part))) ∧
    ∀ key, unescapedKey (escapedKey key) = key := by
  refine ⟨fun root keys hne => ?_, fun root ref hstart => ?_, fun _ _ => keys?_of_parts,
    unescapedKey_escapedKey⟩
  · simp only [resolve, keys?_ofKeys hne, ← follow?_eq_some_iff, ← follow?_eq_none_iff]
    cases follow? root keys <;> simp
  · rw [resolve, keys?_eq_none_iff.mpr hstart]

/-- Mappings with an escape, nothing and a slash in their keys. -/
def crossings : Value :=
  .map [(.str "~01", .map [(.str "", .map [(.str "a/b", .int 7)] 0)] 0)] 0

theorem resolve_ofKeys_crossings : ["~01", "", "a/b"] ≠ [] ∧
    ofKeys ["~01", "", "a/b"] = "#/~001//a~1b" ∧
    resolve crossings (ofKeys ["~01", "", "a/b"]) = .ok (.int 7) ∧
    resolve crossings (ofKeys ["~1"]) = .error (.document (.unresolvable (ofKeys ["~1"]))) ∧
    ¬ "#/".toList <+: "other.yaml#/~01".toList ∧
    resolve crossings "other.yaml#/~01" =
      .error (.document (.remoteReference "other.yaml#/~01")) := by
  have hpath : Leads crossings ["~01", "", "a/b"] (.int 7) :=
    .step rfl (.step rfl (.step rfl .here))
  have hblocked : Blocked crossings ["~1"] := by
    refine ⟨[], "~1", [], crossings, rfl, .here, fun members knot heq => ?_⟩
    cases heq
    rfl
  have hstart : ¬ "#/".toList <+: "other.yaml#/~01".toList := by decide
  exact ⟨by decide, by decide, ((resolve_ofKeys.1 crossings _ (by decide)).1 _).mpr hpath,
    (resolve_ofKeys.1 crossings _ (by decide)).2.1.mpr hblocked, hstart,
    resolve_ofKeys.2.1 crossings _ hstart⟩

end ApiContract.Pointer

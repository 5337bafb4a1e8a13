import Mathlib.Data.List.Nodup
import Mathlib.Tactic.TFAE
import ApiContract.Proofs.DerivedNames
import ApiContract.Proofs.Lines
import ApiContract.Proofs.UniqueReading

/-!
When operations share a name. A path gives its token piece by piece, and no method begins another
one, in lower case or capitalized; so each name of an operation tells its method and its token, and
two operations that share one of their names share all of them.
-/

namespace ApiContract

namespace Document

/-- A known method, in any letter case. -/
def IsMethod (text : String) : Prop := String.ofList (Text.lower text.toList) ∈ methods

instance (text : String) : Decidable (IsMethod text) := inferInstanceAs (Decidable (_ ∈ methods))

theorem isMethod_of_mem : ∀ method ∈ methods, IsMethod method := by
  decide

theorem IsMethod.lower_ne_nil {text : String} (h : IsMethod text) :
    Text.lower text.toList ≠ [] := by
  intro hnil
  rw [IsMethod, hnil] at h
  exact absurd h (by decide)

end Document

namespace Naming

open Document (IsMethod)

/-! ## Tokens -/

theorem segmentToken_append_underscore (as bs : List Char) :
    segmentToken (as ++ '_' :: bs) = segmentToken as ++ segmentToken bs := by
  have hbare : ('_' :: bs).filter (fun c => c ≠ '\x7b' && c ≠ '\x7d') =
      '_' :: bs.filter fun c => c ≠ '\x7b' && c ≠ '\x7d' :=
    List.filter_cons_of_pos (by decide)
  rw [segmentToken, List.filter_append, hbare, Text.splitAt_append_cons, List.flatMap_append]
  rfl

theorem tokenChars_append_slash (as bs : List Char) :
    tokenChars (as ++ '/' :: bs) = tokenChars as ++ tokenChars bs := by
  rw [tokenChars, Text.splitAt_append_cons, List.flatMap_append]
  rfl

/-- An underscore parts a path as a slash does, although it stands inside a segment. -/
theorem tokenChars_append_underscore (as bs : List Char) :
    tokenChars (as ++ '_' :: bs) = tokenChars as ++ tokenChars bs := by
  obtain hnil | ⟨front, last, hfront⟩ := List.eq_nil_or_concat (Text.splitAt '/' as)
  · exact absurd hnil (Text.splitAt_ne_nil '/' as)
  rw [List.concat_eq_append] at hfront
  obtain ⟨first, rest, hrest⟩ := List.exists_cons_of_ne_nil (Text.splitAt_ne_nil '/' bs)
  have hunderscore : Text.splitAt '/' ('_' :: bs) = ('_' :: first) :: rest := by
    rw [Text.splitAt, if_neg (by decide), hrest]
    rfl
  -- The last segment of `as`, the underscore and the first segment of `bs` are one segment.
  calc tokenChars (as ++ '_' :: bs)
    _ = (front ++ (last ++ '_' :: first) :: rest).flatMap segmentToken := by
      rw [tokenChars, Text.splitAt_append hfront hunderscore]
    _ = (front ++ [last]).flatMap segmentToken ++ (first :: rest).flatMap segmentToken := by
      simp [segmentToken_append_underscore]
    _ = tokenChars as ++ tokenChars bs := by
      rw [tokenChars, tokenChars, hfront, hrest]

theorem tokenChars_of_word {word : List Char} (hslash : '/' ∉ word) (hunderscore : '_' ∉ word) :
    tokenChars word = Text.capitalize (word.filter fun c => c ≠ '\x7b' && c ≠ '\x7d') := by
  have hbare : '_' ∉ word.filter fun c => c ≠ '\x7b' && c ≠ '\x7d' :=
    fun hmem => hunderscore (List.mem_filter.mp hmem).1
  rw [tokenChars, Text.splitAt_of_notMem hslash, List.flatMap_singleton, segmentToken,
    Text.splitAt_of_notMem hbare, List.flatMap_singleton]

/-! ## Methods at the beginning of names -/

/-- The two ways in which a name begins with a method. -/
inductive Initial where
  | small
  | capital
deriving DecidableEq

def Initial.apply : Initial → List Char → List Char
  | .small, word => word
  | .capital, word => Text.capitalize word

/-- Every method in both ways. -/
def beginnings : List (Initial × String) :=
  Document.methods.flatMap fun method => [(.small, method), (.capital, method)]

theorem mem_beginnings {method : String} (h : method ∈ Document.methods) (initial : Initial) :
    (initial, method) ∈ beginnings := by
  refine List.mem_flatMap.mpr ⟨method, h, ?_⟩
  cases initial with
  | small => exact List.mem_cons_self
  | capital => exact List.mem_cons_of_mem _ List.mem_cons_self

/-- No method begins another one, whether each is in lower case or capitalized. -/
theorem headsApart_beginnings :
    HeadsApart (fun b => String.ofList (b.1.apply b.2.toList)) beginnings := by
  unfold HeadsApart
  decide

/-- What the names of an operation tell of it: the method up to letter case, and the token of the
path. -/
def SameStem (method path method' path' : String) : Prop :=
  Text.lower method.toList = Text.lower method'.toList ∧
    tokenChars path.toList = tokenChars path'.toList

section Operations

variable {method method' : String} (hmethod : IsMethod method) (hmethod' : IsMethod method')

include hmethod hmethod'

/-- Texts that begin with methods are the same only if the methods are, and begin the same way. -/
theorem eq_of_beginning {initial initial' : Initial} {rest rest' : List Char}
    (h : initial.apply (Text.lower method.toList) ++ rest =
      initial'.apply (Text.lower method'.toList) ++ rest') :
    initial = initial' ∧ Text.lower method.toList = Text.lower method'.toList := by
  have hsame := headsApart_beginnings.eq_of_append (mem_beginnings hmethod initial)
    (mem_beginnings hmethod' initial') (by simpa only [String.toList_ofList] using h)
  obtain ⟨hinitial, hlower⟩ := Prod.mk.inj hsame
  exact ⟨hinitial, String.ofList_injective hlower⟩

variable (path path' : String)

/-- Names of one form tell the stem: they begin in the same way and have the same suffix. -/
theorem form_eq_iff (initial : Initial) (suffix : List Char) :
    initial.apply (Text.lower method.toList) ++ tokenChars path.toList ++ suffix =
        initial.apply (Text.lower method'.toList) ++ tokenChars path'.toList ++ suffix ↔
      SameStem method path method' path' := by
  rw [List.append_left_inj]
  constructor
  · intro heq
    -- Methods differ in length, so they have to be the same before the tokens can be compared.
    have hlower := (eq_of_beginning hmethod hmethod' heq).2
    rw [hlower] at heq
    exact ⟨hlower, List.append_cancel_left heq⟩
  · rintro ⟨hlower, htoken⟩
    rw [hlower, htoken]

theorem handler_eq_iff :
    handler method path = handler method' path' ↔ SameStem method path method' path' := by
  rw [← String.toList_inj, toList_handler, toList_handler]
  exact form_eq_iff hmethod hmethod' path path' .small _

theorem client_eq_iff :
    client method path = client method' path' ↔ SameStem method path method' path' := by
  rw [← String.toList_inj, toList_client, toList_client, ← List.append_left_inj []]
  exact form_eq_iff hmethod hmethod' path path' .small []

theorem clientArgs_eq_iff :
    clientArgs method path = clientArgs method' path' ↔ SameStem method path method' path' := by
  rw [← String.toList_inj, toList_clientArgs hmethod.lower_ne_nil,
    toList_clientArgs hmethod'.lower_ne_nil]
  exact form_eq_iff hmethod hmethod' path path' .capital _

theorem schema_eq_iff (slot : Slot) :
    schema method path slot = schema method' path' slot ↔ SameStem method path method' path' := by
  rw [← String.toList_inj, toList_schema, toList_schema]
  exact form_eq_iff hmethod hmethod' path path' .capital _

/-- The functions of clients and the arguments of clients have no name in common. -/
theorem client_ne_clientArgs : client method path ≠ clientArgs method' path' := by
  intro heq
  rw [← String.toList_inj, toList_client, toList_clientArgs hmethod'.lower_ne_nil,
    List.append_assoc] at heq
  have hinitial : Initial.small = Initial.capital := (eq_of_beginning hmethod hmethod' heq).1
  cases hinitial

end Operations

/-! ## Collisions -/

/-- Tokens are put together piece by piece, at slashes and at underscores, and a piece without
either gives itself without braces, capitalized. Two operations share the name of the handler if and
only if they share that of the client, that of the arguments, that of the schema in some slot, and
those of the schemas in all slots: that is, if they have the same method up to letter case and their
paths the same token. -/
theorem names_coincide :
    (∀ p q : String,
      tokenChars (p ++ "/" ++ q).toList = tokenChars p.toList ++ tokenChars q.toList ∧
      tokenChars (p ++ "_" ++ q).toList = tokenChars p.toList ++ tokenChars q.toList) ∧
    (∀ word : List Char, '/' ∉ word → '_' ∉ word →
      tokenChars word = Text.capitalize (word.filter fun c => c ≠ '\x7b' && c ≠ '\x7d')) ∧
    ∀ method path method' path' : String, IsMethod method → IsMethod method' →
      [handler method path = handler method' path',
        client method path = client method' path',
        clientArgs method path = clientArgs method' path',
        ∃ slot, schema method path slot = schema method' path' slot,
        ∀ slot, schema method path slot = schema method' path' slot,
        SameStem method path method' path'].TFAE := by
  refine ⟨fun p q => ⟨?_, ?_⟩, fun word => tokenChars_of_word, ?_⟩
  · simpa using tokenChars_append_slash p.toList q.toList
  · simpa using tokenChars_append_underscore p.toList q.toList
  intro method path method' path' hmethod hmethod'
  have hschema := schema_eq_iff hmethod hmethod' path path'
  tfae_have 1 ↔ 6 := handler_eq_iff hmethod hmethod' path path'
  tfae_have 2 ↔ 6 := client_eq_iff hmethod hmethod' path path'
  tfae_have 3 ↔ 6 := clientArgs_eq_iff hmethod hmethod' path path'
  tfae_have 4 → 6 := fun ⟨slot, heq⟩ => (hschema slot).mp heq
  tfae_have 6 → 5 := fun hstem slot => (hschema slot).mpr hstem
  tfae_have 5 → 4 := fun hall => ⟨.requestBody, hall .requestBody⟩
  tfae_finish

/-- Two paths parted in different places come to one name; two methods never do. -/
theorem names_coincide_tools :
    ('/' ∉ "\x7btool\x7d".toList ∧ '_' ∉ "\x7btool\x7d".toList ∧
      tokenChars "\x7btool\x7d".toList = "Tool".toList) ∧
    IsMethod "GET" ∧ IsMethod "get" ∧ IsMethod "patch" ∧
    handler "GET" "/tools/\x7btool_id\x7d" = "getToolsToolIdHandler" ∧
    handler "get" "/tools_tool/Id" = "getToolsToolIdHandler" ∧
    (∀ slot, schema "GET" "/tools/\x7btool_id\x7d" slot = schema "get" "/tools_tool/Id" slot) ∧
    ∀ slot, schema "get" "/tools" slot ≠ schema "patch" "/tools" slot := by
  have hword : '/' ∉ "\x7btool\x7d".toList ∧ '_' ∉ "\x7btool\x7d".toList := by decide
  have hupper : IsMethod "GET" := by decide
  have hlower : IsMethod "get" := by decide
  have hpatch : IsMethod "patch" := by decide
  have hname : handler "GET" "/tools/\x7btool_id\x7d" = "getToolsToolIdHandler" := by decide
  have hname' : handler "get" "/tools_tool/Id" = "getToolsToolIdHandler" := by decide
  have hcollide :=
    names_coincide.2.2 "GET" "/tools/\x7btool_id\x7d" "get" "/tools_tool/Id" hupper hlower
  have hdiffer := names_coincide.2.2 "get" "/tools" "patch" "/tools" hlower hpatch
  refine ⟨⟨hword.1, hword.2, ?_⟩, hupper, hlower, hpatch, hname, hname', ?_, ?_⟩
  · rw [names_coincide.2.1 _ hword.1 hword.2]
    decide
  · exact (hcollide.out 0 4).mp (hname.trans hname'.symm)
  · intro slot heq
    have hsome : ∃ slot, schema "get" "/tools" slot = schema "patch" "/tools" slot :=
      ⟨slot, heq⟩
    have hhandlers : handler "get" "/tools" = handler "patch" "/tools" :=
      (hdiffer.out 3 0).mp hsome
    exact absurd hhandlers (by decide)

end Naming

namespace Declaration

/-- The names of the clients of a document are distinct exactly if those of its handlers are. -/
theorem nodup_clientNames_iff {d : Document} (hknown : Document.KnownMethods d.operations) :
    (clientNames d).Nodup ↔ (handlerNames d).Nodup := by
  have hmethod {op : Operation} (hop : op ∈ d.operations) : Document.IsMethod op.method :=
    Document.isMethod_of_mem _ (hknown op hop)
  have hpair {op op' : Operation} (hop : op ∈ d.operations) (hop' : op' ∈ d.operations) :
      [Naming.client op.method op.path, Naming.clientArgs op.method op.path].Disjoint
          [Naming.client op'.method op'.path, Naming.clientArgs op'.method op'.path] ↔
        Naming.handler op.method op.path ≠ Naming.handler op'.method op'.path := by
    have hcross := Naming.client_ne_clientArgs (hmethod hop) (hmethod hop') op.path op'.path
    have hcross' := Naming.client_ne_clientArgs (hmethod hop') (hmethod hop) op'.path op.path
    simp [List.Disjoint, hcross, Ne.symm hcross', Naming.client_eq_iff (hmethod hop) (hmethod hop'),
      Naming.clientArgs_eq_iff (hmethod hop) (hmethod hop'),
      Naming.handler_eq_iff (hmethod hop) (hmethod hop')]
  have hown : ∀ op ∈ d.operations,
      [Naming.client op.method op.path, Naming.clientArgs op.method op.path].Nodup := by
    intro op hop
    simp [Naming.client_ne_clientArgs (hmethod hop) (hmethod hop) op.path op.path]
  rw [clientNames, handlerNames, List.nodup_flatMap, and_iff_right hown, List.Nodup,
    List.pairwise_map]
  exact List.Pairwise.iff_of_mem hpair

end Declaration

end ApiContract

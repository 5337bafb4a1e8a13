import ApiContract.Proofs.DerivedNames
import Mathlib.Data.List.Flatten

/-!
What a module declares, in the two spaces of its language: the names of types and those of values.
The parts that never change declare names of their own, which are read off their lines. Nobody
checks these: a name is declared twice exactly if a component has one of them.
-/

namespace ApiContract.Module

/-- Types and values have names apart from each other. -/
inductive Space where
  | type
  | value
deriving DecidableEq, Repr

/-- The ways in which a module declares a name. -/
inductive Form where
  | imported
  | typeAlias
  | interface
  | classOf
  | const
deriving DecidableEq, Repr

namespace Form

def all : List Form := [imported, typeAlias, interface, classOf, const]

/-- What an import brings in and a class stand in both spaces. -/
def declaresIn : Form → Space → Bool
  | imported, _ => true
  | classOf, _ => true
  | typeAlias, space => space == .type
  | interface, space => space == .type
  | const, space => space == .value

/-- How the line of a declaration begins. -/
def head : Form → String
  | imported => "import \x7b "
  | typeAlias => "export type "
  | interface => "export interface "
  | classOf => "export class "
  | const => "export const "

/-- The name behind the head: an import may rename what it brings in, so there it is the last word
before the brace. -/
def nameIn (form : Form) (rest : List Char) : List Char :=
  match form with
  | imported =>
    let words := (Text.splitAt ' ' (rest.takeWhile (· ≠ '\x7d'))).filter (!·.isEmpty)
    words.getLast?.getD []
  | _ => rest.takeWhile fun c => c.isAlphanum || c == '_' || c == '$'

end Form

structure Declared where
  form : Form
  name : String
deriving DecidableEq, Repr

namespace Declared

/-- The declaration that begins on a line. -/
def ofLine? (line : String) : Option Declared :=
  (Form.all.find? fun form => line.startsWith form.head).map fun form =>
    ⟨form, String.ofList (form.nameIn (line.toList.drop form.head.length))⟩

end Declared

/-- The names that are declared in a space. -/
def namesIn (space : Space) (ds : List Declared) : List String :=
  (ds.filter (·.form.declaresIn space)).map (·.name)

/-- The declarations that do not depend on the document: the import of the schema library, and those
of the parts for handlers and for clients. -/
def fixedDeclared (handlers clients : Bool) : List Declared :=
  ⟨.imported, "z"⟩ :: (if handlers then serverLines.filterMap Declared.ofLine? else []) ++
    (if clients then clientLines.filterMap Declared.ofLine? else [])

namespace Content

def fixed (c : Content) : List Declared := fixedDeclared c.includesHandlers c.includesClients

/-- The declarations of the schemas, the handlers and the clients. -/
def generated (c : Content) : List Declared :=
  c.schemas.map (fun s => ⟨.const, s.const⟩) ++ c.schemas.map (fun s => ⟨.typeAlias, s.name⟩) ++
    c.handlers.map (fun h => ⟨.typeAlias, h.name⟩) ++
    c.clients.flatMap fun c => [⟨.interface, c.argsName⟩, ⟨.const, c.name⟩]

/-- No name is declared twice in a space. -/
def DeclaresOnce (c : Content) : Prop := ∀ space, (namesIn space (c.fixed ++ c.generated)).Nodup

end Content

/-! ## Lines and declarations -/

/-- A name of letters, digits, underscores and dollar signs, as it is read off a line. -/
def IsWord (name : String) : Prop :=
  ∀ c ∈ name.toList, (c.isAlphanum || c == '_' || c == '$') = true

instance (name : String) : Decidable (IsWord name) :=
  decidable_of_iff (name.toList.all fun c => c.isAlphanum || c == '_' || c == '$') List.all_eq_true

namespace Declared

variable {line : String}

/-- The heads of declarations are told apart as soon as one is read. -/
theorem eq_of_head {form other : Form} {cs : List Char} (h : form.head.toList <+: cs)
    (hother : other.head.toList <+: cs) : form = other := by
  have hapart : ∀ form ∈ Form.all, ∀ other ∈ Form.all,
      form.head.toList <+: other.head.toList → form = other := by
    decide
  have hall : ∀ form : Form, form ∈ Form.all := by
    intro form
    cases form <;> decide
  rcases List.prefix_or_prefix_of_prefix h hother with hle | hle
  · exact hapart form (hall form) other (hall other) hle
  · exact (hapart other (hall other) form (hall form) hle).symm

theorem ofLine?_eq_none_iff :
    ofLine? line = none ↔ ∀ form ∈ Form.all, ¬ form.head.toList <+: line.toList := by
  simp only [ofLine?, Option.map_eq_none_iff, List.find?_eq_none, String.startsWith_string_iff]

/-- A line that begins a silent one is silent. -/
theorem ofLine?_of_begins {more : String} (h : line.toList <+: more.toList)
    (hmore : ofLine? more = none) : ofLine? line = none := by
  rw [ofLine?_eq_none_iff] at hmore ⊢
  exact fun form hform hhead => hmore form hform (hhead.trans h)

theorem ofLine?_of_head (h : line.toList.head? ≠ some 'i' ∧ line.toList.head? ≠ some 'e') :
    ofLine? line = none := by
  have hheads : ∀ form ∈ Form.all, form.head.toList.head? = some 'i' ∨
      form.head.toList.head? = some 'e' := by
    decide
  rw [ofLine?_eq_none_iff]
  rintro form hform ⟨rest, hrest⟩
  rw [← hrest, List.head?_append] at h
  rcases hheads form hform with hhead | hhead
  · rw [hhead] at h
    exact h.1 rfl
  · rw [hhead] at h
    exact h.2 rfl

/-- A line that begins with the head of a declaration and a name declares that name. -/
theorem ofLine?_heading {form : Form} (hform : form ≠ .imported) {name : String}
    (hname : IsWord name) {c : Char} (hc : (c.isAlphanum || c == '_' || c == '$') = false)
    {rest : List Char} (hline : line.toList = form.head.toList ++ (name.toList ++ c :: rest)) :
    ofLine? line = some ⟨form, name⟩ := by
  have hhead : form.head.toList <+: line.toList := hline ▸ List.prefix_append _ _
  have hfind : Form.all.find? (fun other => line.startsWith other.head) = some form := by
    have hsame : ∀ other : Form, line.startsWith other.head = decide (other = form) := by
      intro other
      rw [Bool.eq_iff_iff, String.startsWith_string_iff, decide_eq_true_eq]
      refine ⟨fun hother => eq_of_head hother hhead, ?_⟩
      rintro rfl
      exact hhead
    simp only [hsame]
    cases form <;> rfl
  have hnamed : form.nameIn (line.toList.drop form.head.length) = name.toList := by
    have hword : (name.toList ++ c :: rest).takeWhile
        (fun c => c.isAlphanum || c == '_' || c == '$') = name.toList := by
      rw [List.takeWhile_append_of_pos hname, List.takeWhile_cons_of_neg (by rw [hc]; decide),
        List.append_nil]
    rw [hline, ← String.length_toList, List.drop_left]
    cases form with
    | imported => exact absurd rfl hform
    | _ => exact hword
  rw [ofLine?, hfind, Option.map_some, hnamed, String.ofList_toList]

end Declared

/-! ## The fixed declarations -/

theorem serverLines_declared : serverLines.filterMap Declared.ofLine? =
    [⟨.imported, "ExpressRequest"⟩, ⟨.interface, "Request"⟩, ⟨.typeAlias, "Response"⟩,
      ⟨.interface, "Handler"⟩] := by
  decide +kernel

theorem clientLines_declared : clientLines.filterMap Declared.ofLine? =
    [⟨.classOf, "HttpError"⟩, ⟨.interface, "HttpRequestArgs"⟩, ⟨.const, "httpRequest"⟩] := by
  decide +kernel

/-- All declarations that do not depend on the document. -/
theorem fixedDeclared_all : fixedDeclared true true =
    [⟨.imported, "z"⟩, ⟨.imported, "ExpressRequest"⟩, ⟨.interface, "Request"⟩,
      ⟨.typeAlias, "Response"⟩, ⟨.interface, "Handler"⟩, ⟨.classOf, "HttpError"⟩,
      ⟨.interface, "HttpRequestArgs"⟩, ⟨.const, "httpRequest"⟩] := by
  rw [fixedDeclared, if_pos rfl, if_pos rfl, serverLines_declared, clientLines_declared]
  rfl

theorem fixedDeclared_sublist (handlers clients : Bool) :
    List.Sublist (fixedDeclared handlers clients) (fixedDeclared true true) := by
  refine .append (.cons_cons _ ?_) ?_
  · cases handlers with
    | false => exact List.nil_sublist _
    | true => exact List.Sublist.refl _
  · cases clients with
    | false => exact List.nil_sublist _
    | true => exact List.Sublist.refl _

theorem namesIn_fixed_sublist (space : Space) (c : Content) :
    List.Sublist (namesIn space c.fixed) (namesIn space (fixedDeclared true true)) :=
  ((fixedDeclared_sublist _ _).filter _).map _

theorem fixed_nodup (space : Space) (c : Content) : (namesIn space c.fixed).Nodup := by
  refine List.Nodup.sublist (namesIn_fixed_sublist space c) ?_
  rw [fixedDeclared_all]
  cases space with
  | type => decide
  | value => decide

theorem mem_fixed {space : Space} {c : Content} {n : String} (h : n ∈ namesIn space c.fixed) :
    n ∈ (fixedDeclared true true).map (·.name) :=
  (List.filter_sublist.map _).subset ((namesIn_fixed_sublist space c).subset h)

/-- No fixed name begins with a method. -/
theorem fixed_unlike_derived {space : Space} {c : Content} {n : String}
    (h : ∃ method ∈ Document.methods, Naming.BeginsWith method n) : n ∉ namesIn space c.fixed := by
  have hall : ∀ n ∈ (fixedDeclared true true).map (·.name), ∀ method ∈ Document.methods,
      ¬ Naming.BeginsWith method n := by
    rw [fixedDeclared_all]
    decide
  obtain ⟨method, hmethod, hbegins⟩ := h
  exact fun hfixed => hall n (mem_fixed hfixed) method hmethod hbegins

/-- No fixed name is that of a constant. -/
theorem fixed_unlike_const {space : Space} {c : Content} {n : String}
    (h : n ∈ namesIn space c.fixed) (name : String) : n ≠ Naming.const name := by
  have hall : ∀ n ∈ (fixedDeclared true true).map (·.name), ¬ "Schema".toList <:+ n.toList := by
    rw [fixedDeclared_all]
    decide
  rintro rfl
  refine hall _ (mem_fixed h) ?_
  rw [Naming.toList_const]
  exact List.suffix_append _ _

/-! ## The declarations of the document -/

theorem namesIn_append (space : Space) (ds es : List Declared) :
    namesIn space (ds ++ es) = namesIn space ds ++ namesIn space es := by
  rw [namesIn, List.filter_append, List.map_append]
  rfl

theorem namesIn_cons (space : Space) (d : Declared) (ds : List Declared) : namesIn space (d :: ds) =
    if d.form.declaresIn space then d.name :: namesIn space ds else namesIn space ds := by
  rw [namesIn, List.filter_cons]
  split
  · rfl
  · rfl

theorem namesIn_map {α : Type} (space : Space) (form : Form) (name : α → String) (xs : List α) :
    namesIn space (xs.map fun x => ⟨form, name x⟩) =
      if form.declaresIn space then xs.map name else [] := by
  induction xs with
  | nil => exact (ite_self _).symm
  | cons x xs ih =>
    rw [List.map_cons, namesIn_cons, ih]
    split
    · rfl
    · rfl

namespace Content

variable (c : Content)

/-- What a space holds of the schemas. -/
def schemaNames : Space → List String
  | .type => c.schemas.map (·.name)
  | .value => c.schemas.map (·.const)

/-- What a space holds of the operations. -/
def operationNames : Space → List String
  | .type => c.handlers.map (·.name) ++ c.clients.map (·.argsName)
  | .value => c.clients.map (·.name)

end Content

theorem namesIn_clients (space : Space) (cs : List ClientDeclaration) :
    namesIn space (cs.flatMap fun c => [⟨.interface, c.argsName⟩, ⟨.const, c.name⟩]) =
      cs.map fun c => match space with
        | .type => c.argsName
        | .value => c.name := by
  induction cs with
  | nil => rfl
  | cons c cs ih =>
    rw [List.flatMap_cons, namesIn_append, ih, List.map_cons]
    cases space with
    | type => rfl
    | value => rfl

theorem namesIn_generated (space : Space) (c : Content) :
    namesIn space c.generated = c.schemaNames space ++ c.operationNames space := by
  rw [Content.generated, namesIn_append, namesIn_append, namesIn_append, namesIn_map, namesIn_map,
    namesIn_map, namesIn_clients]
  cases space with
  | type => simp [Form.declaresIn, Content.schemaNames, Content.operationNames]
  | value => simp [Form.declaresIn, Content.schemaNames, Content.operationNames]

theorem operationNames_sublist (space : Space) (c : Content) :
    (c.operationNames space).Sublist c.declarationNames := by
  cases space with
  | type =>
    refine .append (List.Sublist.refl _) ?_
    rw [List.map_eq_flatMap]
    exact .flatMap_right _ fun client _ => .cons _ (List.Sublist.refl _)
  | value =>
    refine List.Sublist.trans ?_ (List.sublist_append_right _ _)
    rw [Content.operationNames, List.map_eq_flatMap]
    exact .flatMap_right _ fun client _ => .cons_cons _ (List.nil_sublist _)

section Generation

variable {source : Generation.Source} {options : Options} {selection : Generation.Selection}
  {c : Content}

/-- What comes from the document is declared once. -/
theorem generated_nodup (h : (Generation.content source options selection).outcome = .ok c)
    (space : Space) : (namesIn space c.generated).Nodup := by
  obtain ⟨catalog, hnodup, hnames, hconsts, hfree⟩ := Declaration.exists_free_of_content h
  have hsublist := operationNames_sublist space c
  have hschemas : (c.schemaNames space).Nodup ∧
      ∀ n ∈ c.schemaNames space, n ∈ Declaration.exportedNames catalog := by
    cases space with
    | type =>
      rw [Content.schemaNames, hnames]
      exact ⟨hnodup, fun n hn => List.mem_append_left _ hn⟩
    | value =>
      rw [Content.schemaNames, hconsts]
      exact ⟨hnodup.map Declaration.const_injective, fun n hn => List.mem_append_right _ hn⟩
  rw [namesIn_generated, List.nodup_append']
  exact ⟨hschemas.1, hfree.nodup.sublist hsublist,
    fun n hschema hn => hfree.untaken n (hsublist.subset hn) (hschemas.2 n hschema)⟩

/-- So only a fixed name can be declared once more. -/
theorem declaresOnce_iff_apart (h : (Generation.content source options selection).outcome = .ok c) :
    c.DeclaresOnce ↔ ∀ space, ∀ n ∈ namesIn space c.generated, n ∉ namesIn space c.fixed := by
  refine forall_congr' fun space => ?_
  rw [namesIn_append, List.nodup_append']
  constructor
  · rintro ⟨_, _, hdisjoint⟩ n hgenerated hfixed
    exact hdisjoint hfixed hgenerated
  · intro hapart
    exact ⟨fixed_nodup space c, generated_nodup h space,
      fun n hfixed hgenerated => hapart n hgenerated hfixed⟩

/-- Of the names that come from the document, only those of components can be fixed ones. -/
theorem apart_iff {d : Document} (hnamed : Generation.NamedAfter d selection c)
    (hknown : Document.KnownMethods d.operations) :
    (∀ space, ∀ n ∈ namesIn space c.generated, n ∉ namesIn space c.fixed) ↔
      ∀ n ∈ d.componentNames, n ∉ namesIn .type c.fixed := by
  simp only [namesIn_generated, List.forall_mem_append]
  constructor
  · intro h n hn
    refine (h .type).1 n ?_
    rw [Content.schemaNames, hnamed.schemas]
    exact Document.mem_entryNames.mpr (.inl hn)
  · intro h space
    refine ⟨fun n hschema => ?_, fun n hn => ?_⟩
    · cases space with
      | type =>
        rcases hnamed.component_or_beginsWith hknown hschema with hcomponent | hbegins
        · exact h n hcomponent
        · exact fixed_unlike_derived hbegins
      | value =>
        rw [Content.schemaNames, hnamed.consts] at hschema
        obtain ⟨name, _, rfl⟩ := List.mem_map.mp hschema
        exact fun hfixed => fixed_unlike_const hfixed name rfl
    · exact fixed_unlike_derived
        (hnamed.beginsWith hknown ((operationNames_sublist space c).subset hn))

end Generation

/-- A description with one component and one path. -/
def describe (component path : String) : Value :=
  .map [(.str "servers", .seq [.map [(.str "url", .str "/v1")] 0] 0),
    (.str "paths", .map [(.str path, .map [(.str "get", .map [] 0)] 0)] 0),
    (.str "components", .map
      [(.str "schemas", .map [(.str component, .map [(.str "type", .str "object")] 0)] 0)] 0)] 0

end ApiContract.Module

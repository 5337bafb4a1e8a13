import ApiContract.Proofs.CatalogFaults
import ApiContract.Proofs.DeclarationNames
import ApiContract.Proofs.Operations

/-!
The names in a module, from the names in its document: every name is that of a component or is
derived from the method and the path of an operation, and a derived name begins with its method.
-/

namespace ApiContract

namespace Naming

theorem capitalize_append {cs : List Char} (h : cs ≠ []) (rest : List Char) :
    Text.capitalize (cs ++ rest) = Text.capitalize cs ++ rest := by
  cases cs with
  | nil => exact absurd rfl h
  | cons c cs => simp [Text.capitalize]

theorem toList_handler (method path : String) : (handler method path).toList =
    Text.lower method.toList ++ tokenChars path.toList ++ "Handler".toList := by
  simp [handler, derive, stemChars]

theorem toList_client (method path : String) : (client method path).toList =
    Text.lower method.toList ++ tokenChars path.toList := by
  simp [client, derive, stemChars]

theorem toList_clientArgs {method : String} (h : Text.lower method.toList ≠ []) (path : String) :
    (clientArgs method path).toList = Text.capitalize (Text.lower method.toList) ++
      tokenChars path.toList ++ "Args".toList := by
  simp [clientArgs, toList_client, capitalize_append h]

theorem toList_schema (method path : String) (slot : Slot) : (schema method path slot).toList =
    Text.capitalize (Text.lower method.toList) ++ tokenChars path.toList ++ slot.suffix.toList := by
  simp [schema, deriveUpper]

theorem toList_const (name : String) : (const name).toList = name.toList ++ "Schema".toList := by
  simp [const]

theorem lower_ne_nil : ∀ method ∈ Document.methods, Text.lower method.toList ≠ [] := by
  decide

/-- A name begins with a method, in lower case or capitalized. -/
def BeginsWith (method : String) (name : String) : Prop :=
  Text.lower method.toList <+: name.toList ∨
    Text.capitalize (Text.lower method.toList) <+: name.toList

instance (method name : String) : Decidable (BeginsWith method name) :=
  inferInstanceAs (Decidable (_ ∨ _))

theorem beginsWith_handler (method path : String) : BeginsWith method (handler method path) := by
  rw [BeginsWith, toList_handler, List.append_assoc]
  exact .inl (List.prefix_append _ _)

theorem beginsWith_client (method path : String) : BeginsWith method (client method path) := by
  rw [BeginsWith, toList_client]
  exact .inl (List.prefix_append _ _)

theorem beginsWith_clientArgs {method : String} (h : Text.lower method.toList ≠ [])
    (path : String) : BeginsWith method (clientArgs method path) := by
  rw [BeginsWith, toList_clientArgs h, List.append_assoc]
  exact .inr (List.prefix_append _ _)

theorem beginsWith_schema (method path : String) (slot : Slot) :
    BeginsWith method (schema method path slot) := by
  rw [BeginsWith, toList_schema, List.append_assoc]
  exact .inr (List.prefix_append _ _)

end Naming

/-- The names of all entries are those of the components and of the slots in use. -/
theorem Document.mem_entryNames {d : Document} {n : String} : n ∈ d.entryNames ↔
    n ∈ d.componentNames ∨ ∃ op ∈ d.operations, ∃ slot, op.has slot = true ∧ n = op.slotName slot := by
  rw [entryNames, List.mem_map]
  constructor
  · rintro ⟨subject, hsubject, rfl⟩
    rcases List.mem_append.mp hsubject with hsubject | hsubject
    · obtain ⟨c, hc, rfl⟩ := List.mem_map.mp hsubject
      exact .inl (List.mem_map_of_mem hc)
    · obtain ⟨op, hop, hsubject⟩ := List.mem_flatMap.mp hsubject
      obtain ⟨slot, hslot, rfl⟩ := List.mem_map.mp hsubject
      exact .inr ⟨op, hop, slot, (List.mem_filter.mp hslot).2, rfl⟩
  · rintro (hn | ⟨op, hop, slot, hhas, rfl⟩)
    · obtain ⟨c, hc, rfl⟩ := List.mem_map.mp hn
      exact ⟨_, component_mem_subjects hc, rfl⟩
    · exact ⟨_, part_mem_subjects hop hhas, rfl⟩

namespace Generation

/-- The names in a module, by what declares them. -/
structure NamedAfter (d : Document) (selection : Selection) (c : Module.Content) : Prop where
  schemas : c.schemas.map (·.name) = d.entryNames
  consts : c.schemas.map (·.const) = d.entryNames.map Naming.const
  handlers : c.handlers.map (·.name) =
    if selection.handlers then Declaration.handlerNames d else []
  clients : c.clients.flatMap (fun c => [c.name, c.argsName]) =
    if selection.clients then Declaration.clientNames d else []

/-- The names of handlers, clients and arguments begin with a method. -/
theorem NamedAfter.beginsWith {d : Document} {selection : Selection} {c : Module.Content}
    (h : NamedAfter d selection c) (hknown : Document.KnownMethods d.operations) {n : String}
    (hn : n ∈ c.declarationNames) : ∃ method ∈ Document.methods, Naming.BeginsWith method n := by
  rcases List.mem_append.mp hn with hn | hn
  · rw [h.handlers] at hn
    split at hn
    · obtain ⟨op, hop, rfl⟩ := List.mem_map.mp hn
      exact ⟨_, hknown op hop, Naming.beginsWith_handler _ _⟩
    · cases hn
  · rw [h.clients] at hn
    split at hn
    · obtain ⟨op, hop, hn⟩ := List.mem_flatMap.mp hn
      have hmethod := hknown op hop
      simp only [List.mem_cons, List.not_mem_nil, or_false] at hn
      rcases hn with rfl | rfl
      · exact ⟨_, hmethod, Naming.beginsWith_client _ _⟩
      · exact ⟨_, hmethod, Naming.beginsWith_clientArgs (Naming.lower_ne_nil _ hmethod) _⟩
    · cases hn

/-- The names of schemas are those of the components, or begin with a method. -/
theorem NamedAfter.component_or_beginsWith {d : Document} {selection : Selection}
    {c : Module.Content} (h : NamedAfter d selection c)
    (hknown : Document.KnownMethods d.operations) {n : String} (hn : n ∈ c.schemas.map (·.name)) :
    n ∈ d.componentNames ∨ ∃ method ∈ Document.methods, Naming.BeginsWith method n := by
  rw [h.schemas, Document.mem_entryNames] at hn
  rcases hn with hn | ⟨op, hop, slot, _, rfl⟩
  · exact .inl hn
  · exact .inr ⟨_, hknown op hop, Naming.beginsWith_schema _ _ _⟩

section Declared

variable {d : Document} {catalog : List NamedSchema} {selection : Selection}

theorem handlers_names (hb : Catalog.Built d catalog) {hs : List HandlerDeclaration}
    (h : Declaration.handlers d catalog = .ok hs) :
    hs.map (·.name) = Declaration.handlerNames d := by
  rcases Declaration.handlers_cases hb with ⟨hs', hok, hall⟩ | ⟨_, herror⟩
  · rw [hok] at h
    cases h
    exact Declaration.names_of_handlers hall
  · rw [herror] at h
    cases h

theorem clients_names (hb : Catalog.Built d catalog) {reserved : List String}
    {cs : List ClientDeclaration} (h : Declaration.clients d catalog reserved = .ok cs) :
    cs.flatMap (fun c => [c.name, c.argsName]) = Declaration.clientNames d := by
  rcases Declaration.clients_cases hb reserved with ⟨cs', hok, hall⟩ | hservers | ⟨_, herror⟩
  · rw [hok] at h
    cases h
    exact Declaration.names_of_clients hall
  · rw [hservers] at h
    cases h
  · rw [herror] at h
    cases h

end Declared

/-- A document that came from a description has operations of known methods. -/
theorem knownMethods_of_raw {source : Source} {d : Document}
    (h : (normalize source).outcome = .ok d) (value : Value) (hraw : source = .raw value) :
    Document.KnownMethods d.operations := by
  subst hraw
  exact Document.read_known h

/-- A module that is generated takes its names from the document. -/
theorem exists_namedAfter {source : Source} {options : Options} {selection : Selection}
    {c : Module.Content} (h : (content source options selection).outcome = .ok c) :
    ∃ d, (normalize source).outcome = .ok d ∧ NamedAfter d selection c := by
  obtain ⟨d, catalog, hnormalize, hbuild, hdeclare, hschemas⟩ := content_eq_ok.mp h
  have hb := Catalog.build_eq_ok.mp hbuild
  have hnames := Catalog.names_eq_entryNames hb.entries
  obtain ⟨hhandlers, hclients⟩ := declare_eq_ok.mp hdeclare
  refine ⟨d, hnormalize, ?_, ?_, ?_, ?_⟩
  · rw [← hnames, schemaTexts_names hschemas]
  · rw [← hnames, schemaTexts_consts hschemas]
  · by_cases hselected : selection.handlers = true
    · rw [if_pos hselected] at hhandlers ⊢
      exact handlers_names hb hhandlers
    · rw [if_neg hselected] at hhandlers ⊢
      rw [← pure_eq_ok.mp hhandlers]
      rfl
  · by_cases hselected : selection.clients = true
    · rw [if_pos hselected] at hclients ⊢
      exact clients_names hb hclients
    · rw [if_neg hselected] at hclients ⊢
      rw [← pure_eq_ok.mp hclients]
      rfl

end Generation

end ApiContract

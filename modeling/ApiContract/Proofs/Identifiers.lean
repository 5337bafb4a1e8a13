import ApiContract.Proofs.ModuleDeclarations

/-!
Which names of a module can be declared at all: identifiers that are not reserved words. Names are
taken from components as they are, and from paths with only braces, slashes and underscores taken
out, so this comes down to the names of the components and to the characters of the paths.
-/

namespace ApiContract

/-- Letters and digits, beyond ASCII whichever the language knows. -/
structure Alphabet where
  letter : Char → Bool
  digit : Char → Bool
  letter_ascii : ∀ c, c.toNat < 128 → letter c = c.isAlpha
  digit_ascii : ∀ c, c.toNat < 128 → digit c = c.isDigit

/-- The words that a module must not declare. -/
def reservedWords : List String :=
  ["await", "break", "case", "catch", "class", "const", "continue", "debugger", "default", "delete",
    "do", "else", "enum", "export", "extends", "false", "finally", "for", "function", "if",
    "implements", "import", "in", "instanceof", "interface", "let", "new", "null", "package",
    "private", "protected", "public", "return", "static", "super", "switch", "this", "throw",
    "true", "try", "typeof", "var", "void", "while", "with", "yield"]

namespace Alphabet

variable (a : Alphabet)

def isStart (c : Char) : Bool := a.letter c || c == '_' || c == '$'

def isPart (c : Char) : Bool := a.isStart c || a.digit c

/-- A name begins with a letter, an underscore or a dollar sign; digits may follow. -/
def Identifies (name : List Char) : Prop :=
  ∃ c rest, name = c :: rest ∧ a.isStart c = true ∧ ∀ r ∈ rest, a.isPart r = true

/-- A name that can be declared. -/
structure Declarable (name : String) : Prop where
  identifies : a.Identifies name.toList
  unreserved : name ∉ reservedWords

/-- All characters that a path gives to a name can stand in one. -/
def Spells (path : String) : Prop := ∀ c ∈ Naming.tokenChars path.toList, a.isPart c = true

/-- The alphabet that ends with ASCII. -/
def ascii : Alphabet := ⟨Char.isAlpha, Char.isDigit, fun _ _ => rfl, fun _ _ => rfl⟩

end Alphabet

/-! ## Words -/

theorem toNat_of_isAlpha {c : Char} (h : c.isAlpha = true) : c.toNat < 128 := by
  have hcases : c.isUpper = true ∨ c.isLower = true := Bool.or_eq_true_iff.mp h
  rcases hcases with hupper | hlower
  · have hle : c.val ≤ 'Z'.val := (of_decide_eq_true hupper).2
    exact Nat.lt_of_le_of_lt (UInt32.le_iff_toNat_le.mp hle) (by decide)
  · have hle : c.val ≤ 'z'.val := of_decide_eq_true (Bool.and_eq_true_iff.mp hlower).2
    exact Nat.lt_of_le_of_lt (UInt32.le_iff_toNat_le.mp hle) (by decide)

namespace Alphabet

variable {a : Alphabet}

theorem isStart_of_isAlpha {c : Char} (h : c.isAlpha = true) : a.isStart c = true := by
  rw [isStart, a.letter_ascii c (toNat_of_isAlpha h), h]
  rfl

theorem isPart_of_isStart {c : Char} (h : a.isStart c = true) : a.isPart c = true := by
  rw [isPart, h]
  rfl

theorem isPart_of_letters {word : List Char} (h : word.all Char.isAlpha = true) :
    ∀ c ∈ word, a.isPart c = true := by
  intro c hc
  exact isPart_of_isStart (isStart_of_isAlpha (List.all_eq_true.mp h c hc))

theorem Identifies.append {name more : List Char} (h : a.Identifies name)
    (hmore : ∀ c ∈ more, a.isPart c = true) : a.Identifies (name ++ more) := by
  obtain ⟨c, rest, rfl, hstart, hrest⟩ := h
  exact ⟨c, rest ++ more, rfl, hstart, List.forall_mem_append.mpr ⟨hrest, hmore⟩⟩

theorem Identifies.isPart {name : List Char} (h : a.Identifies name) :
    ∀ c ∈ name, a.isPart c = true := by
  obtain ⟨c, rest, rfl, hstart, hrest⟩ := h
  exact List.forall_mem_cons.mpr ⟨isPart_of_isStart hstart, hrest⟩

theorem identifies_letters {word : List Char} (hword : word ≠ [])
    (h : word.all Char.isAlpha = true) : a.Identifies word := by
  obtain ⟨c, rest, rfl⟩ := List.exists_cons_of_ne_nil hword
  have hparts := isPart_of_letters (a := a) h
  have hc := List.all_eq_true.mp h c List.mem_cons_self
  exact ⟨c, rest, rfl, isStart_of_isAlpha hc, (List.forall_mem_cons.mp hparts).2⟩

end Alphabet

theorem lower_of_reserved : ∀ word ∈ reservedWords, word.toList.all Char.isLower = true := by
  decide

/-- Of the words that are reserved only one begins with a method. -/
theorem method_of_reserved : ∀ word ∈ reservedWords, ∀ method ∈ Document.methods,
    Text.lower method.toList <+: word.toList → word = "delete" ∧ method = "delete" := by
  decide

theorem unreserved_of_capital {name : String} (h : name.toList.all Char.isLower = false) :
    name ∉ reservedWords := by
  intro hreserved
  rw [lower_of_reserved name hreserved] at h
  cases h

/-! ## The names of an operation -/

theorem letters_of_method : ∀ method ∈ Document.methods,
    (Text.lower method.toList).all Char.isAlpha = true ∧
      Text.capitalize (Text.lower method.toList) ≠ [] ∧
      (Text.capitalize (Text.lower method.toList)).all Char.isAlpha = true := by
  decide

namespace Naming

/-- What stands at the end of names. -/
def suffixes : List String := ["Handler", "Args", "Schema"] ++ Slot.all.map Slot.suffix

/-- All suffixes are of letters, one of them a capital. -/
theorem letters_of_suffix : ∀ suffix ∈ suffixes,
    suffix.toList.all Char.isAlpha = true ∧ suffix.toList.all Char.isLower = false := by
  decide

theorem unreserved_of_suffix {name suffix : String} {front : List Char}
    (hname : name.toList = front ++ suffix.toList) (hsuffix : suffix ∈ suffixes) :
    name ∉ reservedWords := by
  refine unreserved_of_capital ?_
  rw [hname, List.all_append, (letters_of_suffix suffix hsuffix).2, Bool.and_false]

variable {a : Alphabet}

/-- A token between words of letters makes an identifier if its characters can stand in one. -/
theorem identifies_iff_token {word token suffix : List Char} (hword : word ≠ [])
    (hletters : word.all Char.isAlpha = true) (hsuffix : suffix.all Char.isAlpha = true) :
    a.Identifies (word ++ token ++ suffix) ↔ ∀ c ∈ token, a.isPart c = true := by
  constructor
  · intro h c hc
    exact h.isPart c (List.mem_append_left _ (List.mem_append_right _ hc))
  · intro h
    have hstart := Alphabet.identifies_letters (a := a) hword hletters
    exact (hstart.append h).append (Alphabet.isPart_of_letters hsuffix)

/-- With a suffix, it is not a reserved word either. -/
theorem declarable_iff_token {name suffix : String} {word token : List Char}
    (hname : name.toList = word ++ token ++ suffix.toList) (hword : word ≠ [])
    (hletters : word.all Char.isAlpha = true) (hsuffix : suffix ∈ suffixes) :
    a.Declarable name ↔ ∀ c ∈ token, a.isPart c = true := by
  rw [← identifies_iff_token hword hletters (letters_of_suffix suffix hsuffix).1, ← hname]
  constructor
  · exact fun h => h.identifies
  · exact fun h => ⟨h, unreserved_of_suffix hname hsuffix⟩

theorem declarable_const {name : String} (h : a.Declarable name) : a.Declarable (const name) := by
  have hsuffix : "Schema" ∈ suffixes := by decide
  refine ⟨?_, unreserved_of_suffix (toList_const name) hsuffix⟩
  rw [toList_const]
  exact h.identifies.append (Alphabet.isPart_of_letters (letters_of_suffix _ hsuffix).1)

section Operation

variable {method : String} (hmethod : method ∈ Document.methods) (path : String)

include hmethod

theorem declarable_handler : a.Declarable (handler method path) ↔ a.Spells path :=
  declarable_iff_token (toList_handler method path) (lower_ne_nil method hmethod)
    (letters_of_method method hmethod).1 (by decide)

theorem declarable_clientArgs : a.Declarable (clientArgs method path) ↔ a.Spells path := by
  obtain ⟨_, hne, hletters⟩ := letters_of_method method hmethod
  exact declarable_iff_token (toList_clientArgs (lower_ne_nil method hmethod) path) hne hletters
    (by decide)

theorem declarable_schema (slot : Slot) :
    a.Declarable (schema method path slot) ↔ a.Spells path := by
  obtain ⟨_, hne, hletters⟩ := letters_of_method method hmethod
  refine declarable_iff_token (toList_schema method path slot) hne hletters ?_
  cases slot <;> decide

/-- A client has no suffix, so the method can be left alone. -/
theorem client_mem_reserved : client method path ∈ reservedWords ↔
    method = "delete" ∧ tokenChars path.toList = [] := by
  constructor
  · intro hreserved
    have hprefix : Text.lower method.toList <+: (client method path).toList := by
      rw [toList_client]
      exact List.prefix_append _ _
    obtain ⟨hword, rfl⟩ := method_of_reserved _ hreserved method hmethod hprefix
    have hlength := congrArg (fun word => word.toList.length) hword
    simp only [toList_client, List.length_append] at hlength
    have hdelete : (Text.lower "delete".toList).length = "delete".toList.length := by decide
    exact ⟨rfl, List.eq_nil_of_length_eq_zero (by omega)⟩
  · rintro ⟨rfl, htoken⟩
    have hname : client "delete" path = "delete" := by
      rw [← String.toList_inj, toList_client, htoken]
      decide
    rw [hname]
    decide

theorem declarable_client : a.Declarable (client method path) ↔
    a.Spells path ∧ ¬ (method = "delete" ∧ tokenChars path.toList = []) := by
  have hidentifies : a.Identifies (client method path).toList ↔ a.Spells path := by
    rw [toList_client, ← List.append_nil (_ ++ _)]
    exact identifies_iff_token (lower_ne_nil method hmethod) (letters_of_method method hmethod).1 rfl
  rw [← client_mem_reserved hmethod path, ← hidentifies]
  exact ⟨fun h => ⟨h.identifies, h.unreserved⟩, fun h => ⟨h.1, h.2⟩⟩

end Operation

/-! ## The characters of a path -/

section Characters

variable {P : Char → Prop} {cs : List Char}

theorem mem_of_piece {sep : Char} {piece : List Char} (hpiece : piece ∈ Text.splitAt sep cs)
    {c : Char} (hc : c ∈ piece) : c ∈ cs := by
  have hmem := List.mem_flatten_of_mem hpiece hc
  rw [Text.flatten_splitAt] at hmem
  exact (List.mem_filter.mp hmem).1

theorem forall_pieces {sep : Char} :
    (∀ piece ∈ Text.splitAt sep cs, ∀ c ∈ piece, P c) ↔ ∀ c ∈ cs, c = sep ∨ P c := by
  have hflatten : (∀ c ∈ (Text.splitAt sep cs).flatten, P c) ↔ ∀ c ∈ cs, c = sep ∨ P c := by
    rw [Text.flatten_splitAt]
    simp only [List.mem_filter, decide_eq_true_eq, and_imp]
    exact forall₂_congr fun c _ => Classical.or_iff_not_imp_left.symm
  rw [← hflatten]
  constructor
  · intro h c hc
    obtain ⟨piece, hpiece, hc⟩ := List.mem_flatten.mp hc
    exact h piece hpiece c hc
  · intro h piece hpiece c hc
    exact h c (List.mem_flatten_of_mem hpiece hc)

/-- Where upper case keeps a property, capitalizing does. -/
theorem forall_capitalize (hupper : ∀ c ∈ cs, (∀ u ∈ Text.upperChar c, P u) ↔ P c) :
    (∀ u ∈ Text.capitalize cs, P u) ↔ ∀ c ∈ cs, P c := by
  cases cs with
  | nil => rfl
  | cons c cs =>
    rw [Text.capitalize, List.forall_mem_append, List.forall_mem_cons,
      hupper c List.mem_cons_self]

theorem forall_segmentToken (hupper : ∀ c ∈ cs, (∀ u ∈ Text.upperChar c, P u) ↔ P c) :
    (∀ u ∈ segmentToken cs, P u) ↔ ∀ c ∈ cs, c = '\x7b' ∨ c = '\x7d' ∨ c = '_' ∨ P c := by
  rw [segmentToken, List.forall_mem_flatMap]
  have hcapitalize (piece : List Char)
      (hpiece : piece ∈ Text.splitAt '_' (cs.filter fun c => c ≠ '\x7b' && c ≠ '\x7d')) :
      (∀ u ∈ Text.capitalize piece, P u) ↔ ∀ c ∈ piece, P c :=
    forall_capitalize fun c hc => hupper c (List.mem_filter.mp (mem_of_piece hpiece hc)).1
  rw [forall₂_congr hcapitalize, forall_pieces]
  refine forall_congr' fun c => ?_
  simp only [List.mem_filter, Bool.and_eq_true, decide_eq_true_eq]
  grind

/-- A path gives its characters to names, but for slashes, braces and underscores. -/
theorem forall_tokenChars (hupper : ∀ c ∈ cs, (∀ u ∈ Text.upperChar c, P u) ↔ P c) :
    (∀ u ∈ tokenChars cs, P u) ↔
      ∀ c ∈ cs, c = '/' ∨ c = '\x7b' ∨ c = '\x7d' ∨ c = '_' ∨ P c := by
  rw [tokenChars, List.forall_mem_flatMap]
  have hsegment (segment : List Char) (hsegment : segment ∈ Text.splitAt '/' cs) :
      (∀ u ∈ segmentToken segment, P u) ↔
        ∀ c ∈ segment, c = '\x7b' ∨ c = '\x7d' ∨ c = '_' ∨ P c :=
    forall_segmentToken fun c hc => hupper c (mem_of_piece hsegment hc)
  rw [forall₂_congr hsegment, forall_pieces]

end Characters

end Naming

namespace Alphabet

variable (a : Alphabet)

theorem isPart_ascii {c : Char} (h : c.toNat < 128) :
    a.isPart c = (c.isAlphanum || c == '_' || c == '$') := by
  rw [isPart, isStart, a.letter_ascii c h, a.digit_ascii c h, Char.isAlphanum]
  grind

/-- In ASCII, upper case keeps what can stand in a name. -/
theorem isPart_toUpper {c : Char} (h : c.toNat < 128) : a.isPart c.toUpper = a.isPart c := by
  have hall : ∀ n < 128, (Char.ofNat n).toUpper.toNat < 128 ∧
      ((Char.ofNat n).toUpper.isAlphanum || (Char.ofNat n).toUpper == '_' ||
        (Char.ofNat n).toUpper == '$') =
      ((Char.ofNat n).isAlphanum || Char.ofNat n == '_' || Char.ofNat n == '$') := by
    decide
  obtain ⟨hupper, hsame⟩ := hall c.toNat h
  rw [Char.ofNat_toNat] at hupper hsame
  rw [a.isPart_ascii hupper, a.isPart_ascii h, hsame]

/-- Of a path in ASCII, every character but slashes and braces has to be a letter, a digit, an
underscore or a dollar sign. -/
theorem spells_iff_of_ascii {path : String} (h : ∀ c ∈ path.toList, c.toNat < 128) :
    a.Spells path ↔ ∀ c ∈ path.toList, c = '/' ∨ c = '\x7b' ∨ c = '\x7d' ∨ a.isPart c = true := by
  have hupper (c : Char) (hc : c ∈ path.toList) :
      (∀ u ∈ Text.upperChar c, a.isPart u = true) ↔ a.isPart c = true := by
    rw [Text.upperChar, if_pos (h c hc), List.forall_mem_singleton, a.isPart_toUpper (h c hc)]
  have hunderscore (c : Char) (hc : c = '_') : a.isPart c = true := by
    subst hc
    rw [a.isPart_ascii (by decide)]
    rfl
  rw [Spells, Naming.forall_tokenChars hupper]
  refine forall₂_congr fun c _ => ?_
  grind

end Alphabet

/-! ## The names of a module -/

namespace Module

variable {c : Content}

/-- What is declared is named after schemas, after their constants, and after the operations. -/
theorem forall_generated {P : String → Prop} : (∀ x ∈ c.generated, P x.name) ↔
    ((∀ n ∈ c.schemas.map (·.const), P n) ∧ ∀ n ∈ c.schemas.map (·.name), P n) ∧
      ∀ n ∈ c.declarationNames, P n := by
  have hclients : (∀ x ∈ c.clients.flatMap fun client =>
      [(⟨.interface, client.argsName⟩ : Declared), ⟨.const, client.name⟩], P x.name) ↔
        ∀ n ∈ c.clients.flatMap fun client => [client.name, client.argsName], P n := by
    rw [List.forall_mem_flatMap, List.forall_mem_flatMap]
    refine forall₂_congr fun client _ => ?_
    rw [List.forall_mem_cons, List.forall_mem_singleton, List.forall_mem_cons,
      List.forall_mem_singleton, and_comm]
  simp only [Content.generated, Content.declarationNames, List.forall_mem_append, hclients,
    List.forall_mem_map, and_assoc]

end Module

namespace Generation

/-- Whether the operation gives its name to anything in the module. -/
def Derives (selection : Selection) (op : Operation) : Prop :=
  selection.handlers = true ∨ selection.clients = true ∨ ∃ slot, op.has slot = true

section Named

variable {d : Document} {selection : Selection} {c : Module.Content} (a : Alphabet)

/-- Schemas: the names of the components, and the paths of the operations that have one. -/
theorem declarable_entryNames (hknown : Document.KnownMethods d.operations) :
    (∀ n ∈ d.entryNames, a.Declarable n) ↔ (∀ n ∈ d.componentNames, a.Declarable n) ∧
      ∀ op ∈ d.operations, (∃ slot, op.has slot = true) → a.Spells op.path := by
  simp only [Document.mem_entryNames]
  constructor
  · intro h
    refine ⟨fun n hn => h n (.inl hn), ?_⟩
    rintro op hop ⟨slot, hhas⟩
    exact (Naming.declarable_schema (hknown op hop) _ slot).mp (h _ (.inr ⟨op, hop, slot, hhas, rfl⟩))
  · rintro ⟨hcomponents, hoperations⟩ n (hn | ⟨op, hop, slot, hhas, rfl⟩)
    · exact hcomponents n hn
    · exact (Naming.declarable_schema (hknown op hop) _ slot).mpr (hoperations op hop ⟨slot, hhas⟩)

theorem declarable_handlers (h : NamedAfter d selection c)
    (hknown : Document.KnownMethods d.operations) :
    (∀ n ∈ c.handlers.map (·.name), a.Declarable n) ↔
      ∀ op ∈ d.operations, selection.handlers = true → a.Spells op.path := by
  rw [h.handlers]
  split
  · rename_i hselected
    rw [Declaration.handlerNames, List.forall_mem_map]
    refine forall₂_congr fun op hop => ?_
    simp only [hselected, forall_const]
    exact Naming.declarable_handler (hknown op hop) _
  · rename_i hselected
    simp [hselected]

theorem declarable_clients (h : NamedAfter d selection c)
    (hknown : Document.KnownMethods d.operations) :
    (∀ n ∈ c.clients.flatMap fun client => [client.name, client.argsName], a.Declarable n) ↔
      ∀ op ∈ d.operations, selection.clients = true → a.Spells op.path ∧
        ¬ (op.method = "delete" ∧ Naming.tokenChars op.path.toList = []) := by
  rw [h.clients]
  split
  · rename_i hselected
    rw [Declaration.clientNames, List.forall_mem_flatMap]
    refine forall₂_congr fun op hop => ?_
    simp only [hselected, forall_const]
    rw [List.forall_mem_cons, List.forall_mem_singleton, Naming.declarable_client (hknown op hop),
      Naming.declarable_clientArgs (hknown op hop)]
    exact and_iff_left_of_imp And.left
  · rename_i hselected
    simp [hselected]

theorem declarable_generated (h : NamedAfter d selection c)
    (hknown : Document.KnownMethods d.operations) :
    (∀ x ∈ c.generated, a.Declarable x.name) ↔ (∀ n ∈ d.componentNames, a.Declarable n) ∧
      ∀ op ∈ d.operations, (Derives selection op → a.Spells op.path) ∧
        (selection.clients = true →
          ¬ (op.method = "delete" ∧ Naming.tokenChars op.path.toList = [])) := by
  have hschemas : ((∀ n ∈ c.schemas.map (·.const), a.Declarable n) ∧
      ∀ n ∈ c.schemas.map (·.name), a.Declarable n) ↔ ∀ n ∈ d.entryNames, a.Declarable n := by
    rw [h.consts, h.schemas, List.forall_mem_map]
    exact and_iff_right_of_imp fun hall n hn => Naming.declarable_const (hall n hn)
  rw [Module.forall_generated, hschemas, declarable_entryNames a hknown,
    Module.Content.declarationNames, List.forall_mem_append, declarable_handlers a h hknown,
    declarable_clients a h hknown]
  simp only [Derives]
  grind

end Named

/-- All names in a module can be declared exactly if those of the components can, every operation
that gives its name to something has a path of characters that can stand in a name, and no client
is called just `delete`. Nothing in a path is escaped, so one in ASCII has to be made of slashes,
braces, letters, digits, underscores and dollar signs. -/
theorem generated_declarable_iff (a : Alphabet) {source : Source} {options : Options}
    {selection : Selection} {c : Module.Content}
    (h : (content source options selection).outcome = .ok c) :
    ∃ d, (normalize source).outcome = .ok d ∧
      (Document.KnownMethods d.operations →
        ((∀ x ∈ c.generated, a.Declarable x.name) ↔ (∀ n ∈ d.componentNames, a.Declarable n) ∧
          ∀ op ∈ d.operations, (Derives selection op → a.Spells op.path) ∧
            (selection.clients = true →
              ¬ (op.method = "delete" ∧ Naming.tokenChars op.path.toList = [])))) ∧
      (∀ value, source = .raw value → Document.KnownMethods d.operations) ∧
      ∀ op ∈ d.operations, (∀ ch ∈ op.path.toList, ch.toNat < 128) →
        (a.Spells op.path ↔ ∀ ch ∈ op.path.toList,
          ch = '/' ∨ ch = '\x7b' ∨ ch = '\x7d' ∨ a.isPart ch = true) := by
  obtain ⟨d, hnormalize, hnamed⟩ := exists_namedAfter h
  exact ⟨d, hnormalize, fun hknown => declarable_generated a hnamed hknown,
    knownMethods_of_raw hnormalize, fun op _ hascii => a.spells_iff_of_ascii hascii⟩

theorem generated_declarable_iff_pets : ∃ c,
    (content (.raw (Module.describe "Pet" "/pets_2/\x7bid\x7d")) .standard .everything).outcome =
        .ok c ∧
      ∀ x ∈ c.generated, Alphabet.ascii.Declarable x.name := by
  refine ⟨_, rfl, ?_⟩
  obtain ⟨d, hnormalize, hdeclarable, hknown, hascii⟩ := @generated_declarable_iff Alphabet.ascii
    (.raw (Module.describe "Pet" "/pets_2/\x7bid\x7d")) .standard .everything _ rfl
  cases hnormalize
  refine (hdeclarable (hknown _ rfl)).mpr ⟨?_, ?_⟩
  · intro n hn
    cases List.mem_singleton.mp hn
    exact ⟨Alphabet.identifies_letters (by decide) (by decide),
      unreserved_of_capital (by decide)⟩
  · intro op hop
    have hspells := hascii op hop
    obtain ⟨hmethod, hpath⟩ : op.method = "get" ∧ op.path = "/pets_2/\x7bid\x7d" := by
      cases List.mem_singleton.mp hop
      exact ⟨rfl, rfl⟩
    rw [hpath] at hspells
    rw [hmethod, hpath]
    refine ⟨fun _ => (hspells ?_).mpr ?_, fun _ => by decide⟩
    · simp
    · simp [Alphabet.isPart, Alphabet.isStart, Alphabet.ascii]

/-- A hyphen in a path reaches the module, in whichever alphabet. -/
theorem generated_declarable_hyphen_fails : ∃ c text,
    (content (.raw (Module.describe "Pet" "/pet-store")) .standard ⟨true, false⟩).outcome = .ok c ∧
      (moduleText .standard c).outcome = .ok text ∧
      ∃ x ∈ c.generated, ∀ a : Alphabet, ¬ a.Declarable x.name := by
  refine ⟨_, _, rfl, rfl, ⟨.typeAlias, "getPet-storeHandler"⟩, by decide, ?_⟩
  intro a hdeclarable
  have hpart := hdeclarable.identifies.isPart '-' (by decide)
  rw [a.isPart_ascii (by decide)] at hpart
  cases hpart

end Generation

end ApiContract

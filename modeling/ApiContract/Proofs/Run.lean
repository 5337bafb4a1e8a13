import ApiContract.Proofs.Drafts
import ApiContract.Proofs.Pipeline
import ApiContract.Proofs.SummaryLine
import ApiContract.Proofs.Workspace

/-!
What a run does to the files. It ends well exactly if a module was made, and its file and the last
line could be written; then the file holds the module. A run that fails leaves all files as they
were, unless half a surrogate pair is in the way of the writing itself: the module is encoded after
its file was emptied, and the path is printed after the file was written.
-/

namespace ApiContract.CommandLine

variable {w : Workspace} {r : Request} {options : Options} {value : Value} {c : Module.Content}
  {text : String}

/-- The stages that give a request its module: the options, the description, what is made of it,
and the text. -/
structure Makes (w : Workspace) (r : Request) (options : Options) (value : Value)
    (c : Module.Content) (text : String) : Prop where
  configured : r.options = .ok options
  loaded : ∃ content, w.fileAt? r.schema = some content ∧
    Loading.load (Path.ofText r.schema) content = .ok value
  built : (Generation.content (.raw value) options r.selection).outcome = .ok c
  rendered : (Generation.moduleText options c).outcome = .ok text

/-- The output of a request can be written. -/
def Savable (w : Workspace) (r : Request) : Prop :=
  (w.save (Path.ofText r.output) ByteArray.empty).2 = none

/-- How a request calls its output. -/
def shownOutput (r : Request) : String := Text.dropControls (Path.ofText r.output).text

/-- The octets that are written of a text: none, if half a surrogate pair is in it. -/
def octetsOf (text : String) : ByteArray :=
  ((Text.plain? text).map String.toUTF8).getD ByteArray.empty

/-- What a run is that carried out its request. -/
structure Completed (w : Workspace) (r : Request) (c : Module.Content) (text : String)
    (result : Result) : Prop where
  file : ∃ plain, Text.plain? text = some plain ∧
    w.Wrote (Path.ofText r.output) plain.toUTF8 result.workspace
  line : ∃ shown, Text.plain? (shownOutput r) = some shown ∧
    result.out = "Generated " ++ shown ++ countsText c ++ "\n"

theorem plain?_eq_none_iff {s : String} : Text.plain? s = none ↔ Text.hasHalf s = true := by
  rw [Text.plain?, Text.hasHalf]
  split
  next h => exact iff_of_true rfl h
  next h => exact iff_of_false (by simp) h

theorem exists_plain_iff {s : String} :
    (∃ plain, Text.plain? s = some plain) ↔ Text.hasHalf s = false := by
  rw [← Option.isSome_iff_exists, ← Bool.not_eq_true, ← plain?_eq_none_iff, Option.isSome_iff_ne_none]

theorem generate_eq_ok {content : ByteArray} :
    (generate r options content).outcome = .ok (c, text) ↔ ∃ value,
      Loading.load (Path.ofText r.schema) content = .ok value ∧
        (Generation.content (.raw value) options r.selection).outcome = .ok c ∧
        (Generation.moduleText options c).outcome = .ok text := by
  simp only [generate, Traced.bind_outcome_eq_ok, Traced.outcome_stage, Traced.outcome_ofExcept]
  constructor
  · intro h
    obtain ⟨value, hvalue, c', hc, text', htext, hsame⟩ := h
    cases hsame
    exact ⟨value, hvalue, hc, htext⟩
  · intro h
    obtain ⟨value, hvalue, hc, htext⟩ := h
    exact ⟨value, hvalue, c, hc, text, htext, rfl⟩

/-! ## The writing -/

theorem savable_iff (content : ByteArray) :
    (w.save (Path.ofText r.output) content).2 = none ↔ Savable w r := by
  rw [Savable, Workspace.save_fault w (Path.ofText r.output) content ByteArray.empty]

theorem finish_eq (w : Workspace) (r : Request) (log : String) (c : Module.Content)
    (text : String) : finish w r log c text =
      match w.save (Path.ofText r.output) (octetsOf text) with
      | (w', some fault) => ⟨1, "", log, some (.file fault), w'⟩
      | (w', none) =>
        match Text.plain? text, Text.plain? (summaryLine (Path.ofText r.output) c) with
        | some _, some line => ⟨0, line, log, none, w'⟩
        | _, _ => ⟨1, "", log, some (.issue (.misfit .loneHalf)), w'⟩ := by
  unfold finish
  rfl

/-- How a run ends: with a fault that is in the way of the file, or with the file and, if both can be
encoded, the line. -/
inductive Finished (w : Workspace) (r : Request) (c : Module.Content) (text : String)
    (result : Result) : Prop
  | unsaved (fault : ¬ Savable w r) (exit : result.exit = 1)
      (files : result.workspace.files = w.files)
  | completed (saves : Savable w r) (encodes : Text.hasHalf text = false)
      (shows : Text.hasHalf (shownOutput r) = false) (exit : result.exit = 0)
      (completed : Completed w r c text result)
  | spoilt (saves : Savable w r)
      (half : Text.hasHalf text = true ∨ Text.hasHalf (shownOutput r) = true)
      (exit : result.exit = 1)
      (wrote : w.Wrote (Path.ofText r.output) (octetsOf text) result.workspace)

theorem finish_finished (w : Workspace) (r : Request) (log : String) (c : Module.Content)
    (text : String) : Finished w r c text (finish w r log c text) := by
  have hsavable := savable_iff (w := w) (r := r) (octetsOf text)
  rw [finish_eq]
  cases hsave : w.save (Path.ofText r.output) (octetsOf text) with
  | mk w' fault =>
    rw [hsave] at hsavable
    cases fault with
    | some fault =>
      have hlost : ¬ Savable w r := fun h => by cases hsavable.mpr h
      exact .unsaved hlost rfl (Workspace.save_failed hsave)
    | none =>
      have hsaves := hsavable.mp rfl
      have hwrote := Workspace.save_wrote (Path.ofText_parts r.output) hsave
      have hline := summaryLine_eq (Path.ofText r.output) c
      rw [← shownOutput] at hline
      rw [hline]
      cases hplain : Text.plain? text with
      | none => exact .spoilt hsaves (.inl (plain?_eq_none_iff.mp hplain)) rfl hwrote
      | some plain =>
        cases hshown : Text.plain? (shownOutput r) with
        | none => exact .spoilt hsaves (.inr (plain?_eq_none_iff.mp hshown)) rfl hwrote
        | some shown =>
          have hoctets : octetsOf text = plain.toUTF8 := by rw [octetsOf, hplain]; rfl
          rw [hoctets] at hwrote
          exact .completed hsaves (exists_plain_iff.mp ⟨plain, hplain⟩)
            (exists_plain_iff.mp ⟨shown, hshown⟩) rfl ⟨⟨plain, hplain, hwrote⟩, shown, hshown, rfl⟩

/-! ## The run -/

/-- The stages are functions. -/
theorem Makes.unique {options' : Options} {value' : Value} {c' : Module.Content} {text' : String}
    (h : Makes w r options value c text) (h' : Makes w r options' value' c' text') :
    c' = c ∧ text' = text := by
  obtain ⟨content, hcontent, hvalue⟩ := h.loaded
  obtain ⟨content', hcontent', hvalue'⟩ := h'.loaded
  cases h.configured.symm.trans h'.configured
  cases hcontent.symm.trans hcontent'
  cases hvalue.symm.trans hvalue'
  cases h.built.symm.trans h'.built
  cases h.rendered.symm.trans h'.rendered
  exact ⟨rfl, rfl⟩

theorem serve_of_makes (stamp : Stamp) (h : Makes w r options value c text) :
    ∃ log, serve stamp w r = finish w r log c text := by
  obtain ⟨content, hcontent, hvalue⟩ := h.loaded
  have houtcome := generate_eq_ok.mpr ⟨value, hvalue, h.built, h.rendered⟩
  rw [serve, h.configured]
  dsimp only
  rw [hcontent]
  dsimp only
  rw [houtcome]
  exact ⟨_, rfl⟩

/-- A request has no module, and then nothing is touched; or it has one, and it is written. -/
theorem serve_cases (stamp : Stamp) (w : Workspace) (r : Request) :
    ((¬ ∃ options value c text, Makes w r options value c text) ∧ (serve stamp w r).exit = 1 ∧
      (serve stamp w r).workspace = w) ∨
    ∃ options value c text, Makes w r options value c text ∧
      Finished w r c text (serve stamp w r) := by
  have hfailed : ∀ log i, (failed w log i).exit = 1 ∧ (failed w log i).workspace = w := by
    intro log i
    rw [failed]
    split <;> exact ⟨rfl, rfl⟩
  rw [serve]
  cases hoptions : r.options with
  | error i =>
    refine .inl ⟨?_, hfailed "" i⟩
    intro hmakes
    obtain ⟨options, value, c, text, hmakes⟩ := hmakes
    cases hoptions.symm.trans hmakes.configured
  | ok options =>
    cases hcontent : w.fileAt? r.schema with
    | none =>
      refine .inl ⟨?_, rfl, rfl⟩
      intro hmakes
      obtain ⟨options, value, c, text, hmakes⟩ := hmakes
      obtain ⟨content, hfound, _⟩ := hmakes.loaded
      cases hcontent.symm.trans hfound
    | some content =>
      cases houtcome : (generate r options content).outcome with
      | error i =>
        dsimp only
        rw [houtcome]
        refine .inl ⟨?_, hfailed _ i⟩
        intro hmakes
        obtain ⟨options', value, c, text, hmakes⟩ := hmakes
        obtain ⟨content', hfound, hvalue⟩ := hmakes.loaded
        cases hoptions.symm.trans hmakes.configured
        cases hcontent.symm.trans hfound
        have hok := generate_eq_ok.mpr ⟨value, hvalue, hmakes.built, hmakes.rendered⟩
        cases houtcome.symm.trans hok
      | ok made =>
        obtain ⟨c, text⟩ := made
        obtain ⟨value, hvalue, hbuilt, hrendered⟩ := generate_eq_ok.mp houtcome
        dsimp only
        rw [houtcome]
        exact .inr ⟨options, value, c, text, ⟨hoptions, ⟨content, hcontent, hvalue⟩, hbuilt, hrendered⟩,
          finish_finished _ _ _ _ _⟩

theorem Finished.exit_eq_zero_iff {result : Result} (h : Finished w r c text result) :
    result.exit = 0 ↔ Savable w r ∧ Text.hasHalf text = false ∧
      Text.hasHalf (shownOutput r) = false := by
  cases h with
  | unsaved hfault hexit _ => simp [hexit, hfault]
  | completed hsaves hencodes hshows hexit _ => exact iff_of_true hexit ⟨hsaves, hencodes, hshows⟩
  | spoilt _ hhalf hexit _ =>
    rcases hhalf with hhalf | hhalf
    · simp [hexit, hhalf]
    · simp [hexit, hhalf]

theorem serve_exit_eq_zero_iff (stamp : Stamp) : (serve stamp w r).exit = 0 ↔
    ∃ options value c text, Makes w r options value c text ∧ Savable w r ∧
      Text.hasHalf text = false ∧ Text.hasHalf (shownOutput r) = false := by
  rcases serve_cases stamp w r with ⟨hnone, hfails, _⟩ | ⟨options, value, c, text, hmakes, hends⟩
  · refine iff_of_false (by simp [hfails]) ?_
    intro h
    obtain ⟨options, value, c, text, hmakes, _⟩ := h
    exact hnone ⟨options, value, c, text, hmakes⟩
  · rw [hends.exit_eq_zero_iff]
    constructor
    · intro hplain
      exact ⟨options, value, c, text, hmakes, hplain⟩
    · intro h
      obtain ⟨_, _, _, _, hmakes', hplain⟩ := h
      obtain ⟨rfl, rfl⟩ := hmakes.unique hmakes'
      exact hplain

theorem serve_completed {stamp : Stamp} (h : (serve stamp w r).exit = 0) :
    ∃ options value c text, Makes w r options value c text ∧
      Completed w r c text (serve stamp w r) := by
  rcases serve_cases stamp w r with ⟨_, hfails, _⟩ | ⟨options, value, c, text, hmakes, hends⟩
  · simp [hfails] at h
  · cases hends with
    | unsaved _ hfails _ => simp [hfails] at h
    | completed _ _ _ _ hcompleted => exact ⟨options, value, c, text, hmakes, hcompleted⟩
    | spoilt _ _ hfails _ => simp [hfails] at h

theorem serve_failed {stamp : Stamp} (h : (serve stamp w r).exit ≠ 0) :
    (serve stamp w r).workspace.files = w.files ∨
      ∃ options value c text, Makes w r options value c text ∧ Savable w r ∧
        (Text.hasHalf text = true ∨ Text.hasHalf (shownOutput r) = true) ∧
        w.Wrote (Path.ofText r.output) (octetsOf text) (serve stamp w r).workspace := by
  rcases serve_cases stamp w r with ⟨_, _, hsame⟩ | ⟨options, value, c, text, hmakes, hends⟩
  · exact .inl (by rw [hsame])
  · cases hends with
    | unsaved _ _ hsame => exact .inl hsame
    | completed _ _ _ hexit _ => exact absurd hexit h
    | spoilt hsaves hhalf _ hwrote =>
      exact .inr ⟨options, value, c, text, hmakes, hsaves, hhalf, hwrote⟩

/-- A text in which nothing holds half a surrogate pair. -/
def Unmarked (s : String) : Prop := Text.heldMark ∉ s.toList

instance (s : String) : Decidable (Unmarked s) := inferInstanceAs (Decidable (_ ∉ _))

theorem Unmarked.append {s t : String} (hs : Unmarked s) (ht : Unmarked t) : Unmarked (s ++ t) := by
  rw [Unmarked, String.toList_append, List.mem_append, not_or]
  exact ⟨hs, ht⟩

theorem unmarked_join {α : Type} {f : α → String} {xs : List α} (h : ∀ x ∈ xs, Unmarked (f x)) :
    Unmarked (String.join (xs.map f)) := by
  rw [Unmarked, Module.toList_join_map, List.mem_flatMap]
  rintro ⟨x, hx, hmem⟩
  exact h x hx hmem

theorem unmarked_unlines {lines : List String} (h : ∀ l ∈ lines, Unmarked l) :
    Unmarked (Module.unlines lines) :=
  unmarked_join fun l hl => (h l hl).append (by decide)

theorem unmarked_serverLines : ∀ l ∈ Module.serverLines, Unmarked l :=
  fun l hl => (Module.ascii_serverLines l hl).notMem (by decide)

theorem unmarked_clientLines : ∀ l ∈ Module.clientLines, Unmarked l :=
  fun l hl => (Module.ascii_clientLines l hl).notMem (by decide)

theorem unmarked_opening (options : Options) : Text.heldMark ∉ Module.opening options.mark := by
  have hall : ∀ style : QuoteStyle, Text.heldMark ∉ Module.opening style.mark := by
    intro style
    cases style <;> decide
  exact hall options.quoteStyle

/-- The parts of a module that come from the description hold no half. -/
structure UnmarkedParts (mark : Text.QuoteMark) (c : Module.Content) : Prop where
  consts : ∀ s ∈ c.schemas, Unmarked (Module.constText s)
  types : ∀ s ∈ c.schemas, Unmarked (Module.typeText s)
  handlers : ∀ h ∈ c.handlers, Unmarked (Module.handlerText h)
  clients : ∀ k ∈ c.clients, Unmarked (Module.clientText mark k)

/-- The parts that never change hold no half, so that only the description can bring one into a
module. -/
theorem hasHalf_text_of_unmarked {options : Options} {c : Module.Content}
    (h : UnmarkedParts options.mark c) : Text.hasHalf (Module.text options c) = false := by
  have hserver : Unmarked (if c.includesHandlers then Module.serverSection c.handlers else "") := by
    split
    · exact (((by decide : Unmarked _).append (unmarked_unlines unmarked_serverLines)).append
        (by decide)).append (unmarked_join h.handlers)
    · decide
  have hclient : Unmarked
      (if c.includesClients then Module.clientSection options.mark c.clients else "") := by
    split
    · exact ((by decide : Unmarked _).append (unmarked_unlines unmarked_clientLines)).append
        (unmarked_join h.clients)
    · decide
  have hheading : Unmarked "/* TYPES */\n\n" := by decide
  refine Text.hasHalf_of_notMem fun hmem => ?_
  rw [Module.text, Layout.format, String.toList_ofList, Module.draft_eq] at hmem
  have hmem := Layout.mem_of_mem_formatChars (by decide) hmem
  simp only [Module.sections, List.mem_append] at hmem
  rcases hmem with hmem | hmem | hmem | hmem | hmem | hmem
  · exact unmarked_opening options hmem
  · exact unmarked_join h.consts hmem
  · exact hheading hmem
  · exact unmarked_join h.types hmem
  · exact hserver hmem
  · exact hclient hmem

/-! ## Two runs -/

/-- A workspace with a description and the output of an earlier run. -/
def pairOfFiles (content old : ByteArray) : Workspace where
  files := [(["s.json"], content), (["api.ts"], old)]
  directories := []

/-- What is asked for with these two files and nothing else. -/
def pairRequest : Request := ⟨"s.json", "api.ts", true, true, 2, .lf, .double, false⟩

theorem read_pair (content old : ByteArray) :
    read (pairOfFiles content old) ["s.json", "-o", "api.ts"] = .ok (.request pairRequest) := rfl

theorem save_pair (content old octets : ByteArray) :
    (pairOfFiles content old).save (Path.ofText pairRequest.output) octets =
      (pairOfFiles content octets, none) := rfl

theorem fromUTF8?_toUTF8 (s : String) : String.fromUTF8? s.toUTF8 = some s := by
  have hvalid : s.toUTF8.IsValidUTF8 := s.isValidUTF8
  rw [String.fromUTF8?, dif_pos hvalid]
  rfl

/-- A description given as JSON on a single line, and what is made of it. -/
theorem makes_pair {description : String} {members : List (Scalar × Value)} {knot : Nat}
    (hlines : String.ofList (Loading.unifyLines description.toList) = description)
    (hread : Json.read description = .ok (.map members knot)) {c : Module.Content}
    (hcontent : (Generation.content (.raw (.map members knot)) .standard ⟨true, true⟩).outcome =
      .ok c) (old : ByteArray) :
    Makes (pairOfFiles description.toUTF8 old) pairRequest .standard (.map members knot) c
      (Module.text .standard c) := by
  have hjson : Loading.isJson (Path.ofText "s.json") = true := by decide
  have hdecode : Loading.decode description.toUTF8 = .ok description := by
    rw [Loading.decode, fromUTF8?_toUTF8]
    exact congrArg Except.ok hlines
  have hvalue : Loading.readValue (Path.ofText "s.json") description = .ok (.map members knot) := by
    rw [Loading.readValue, if_pos hjson, hread]
  have hload : Loading.load (Path.ofText "s.json") description.toUTF8 = .ok (.map members knot) := by
    rw [Loading.load]
    exact bind_eq_ok.mpr ⟨_, hdecode, bind_eq_ok.mpr ⟨_, hvalue, rfl⟩⟩
  exact ⟨rfl, ⟨_, rfl, hload⟩, hcontent, Generation.moduleText_eq_ok.mpr ⟨rfl, rfl⟩⟩

/-- A module whose text has half a surrogate pair costs the earlier one. -/
theorem run_pair_of_half {content old : ByteArray} (stamp : Stamp)
    (h : Makes (pairOfFiles content old) pairRequest options value c text)
    (hhalf : Text.hasHalf text = true) :
    (run stamp (pairOfFiles content old) ["s.json", "-o", "api.ts"]).exit = 1 ∧
      (run stamp (pairOfFiles content old) ["s.json", "-o", "api.ts"]).workspace =
        pairOfFiles content ByteArray.empty := by
  have hplain := plain?_eq_none_iff.mpr hhalf
  obtain ⟨log, hserve⟩ := serve_of_makes stamp h
  have hrespond : respond stamp (pairOfFiles content old) ["s.json", "-o", "api.ts"] =
      finish (pairOfFiles content old) pairRequest log c text := by
    rw [respond, read_pair]
    exact hserve
  rw [finish_eq, save_pair, octetsOf, hplain] at hrespond
  rw [run, hrespond]
  exact ⟨rfl, rfl⟩

theorem hasHalf_text (options : Options) (c : Module.Content) :
    Text.hasHalf (Module.text options c) = (Text.points (Layout.formatChars options
      (Module.opening options.mark ++ Module.sections options.mark c))).any Text.isHalf := by
  rw [Text.hasHalf, Module.text, Layout.format, String.toList_ofList, Module.draft_eq]

theorem hasHalf_shownOutput : Text.hasHalf (shownOutput pairRequest) = false := by decide

/-- A component and a path with one operation. -/
def petsDescription : String :=
  "\x7b\"servers\":[\x7b\"url\":\"/v1\"\x7d],\"components\":\x7b\"schemas\":\x7b\"Pet\":" ++
    "\x7b\"type\":\"object\"\x7d\x7d\x7d,\"paths\":\x7b\"/pets\":\x7b\"get\":\x7b\x7d\x7d\x7d\x7d"

def petsMembers : List (Scalar × Value) :=
  [(.str "servers", .seq [.map [(.str "url", .str "/v1")] 0] 0),
    (.str "components", .map [(.str "schemas", .map [(.str "Pet",
      .map [(.str "type", .str "object")] 0)] 0)] 0),
    (.str "paths", .map [(.str "/pets", .map [(.str "get", .map [] 0)] 0)] 0)]

def petsContent : Module.Content where
  schemas := [⟨"Pet", "PetSchema", "z.object(\x7b\x7d).strict()", none, none⟩]
  handlers := [⟨"getPetsHandler", ⟨none, none, none, none⟩⟩]
  clients := [⟨"getPets", "GetPetsArgs", "GET", "/pets", "/v1", ⟨none, none, none, none⟩, false,
    none⟩]

theorem petsContent_unmarked : UnmarkedParts Options.standard.mark petsContent := by
  refine ⟨?_, ?_, ?_, ?_⟩
  · decide
  · decide
  · decide
  · intro k hk
    cases List.mem_singleton.mp hk
    rw [Module.clientText_eq]
    exact (unmarked_unlines (by decide)).append (Unmarked.append (by decide)
      (unmarked_unlines (by decide)))

/-- A property that is described by half a surrogate pair. -/
def halfDescription : String :=
  "\x7b\"components\":\x7b\"schemas\":\x7b\"A\":\x7b\"type\":\"object\",\"properties\":" ++
    "\x7b\"p\":\x7b\"type\":\"string\",\"description\":\"\\ud800\"\x7d\x7d\x7d\x7d\x7d\x7d"

def halfMembers : List (Scalar × Value) :=
  [(.str "components", .map [(.str "schemas", .map [(.str "A", .map
    [(.str "type", .str "object"), (.str "properties", .map [(.str "p", .map
      [(.str "type", .str "string"), (.str "description", .str "\uffff\ue000")] 0)] 0)] 0)] 0)] 0)]

def halfContent : Module.Content where
  schemas := [⟨"A", "ASchema", "z.object(\x7b\n  \"p\": " ++
    "z.string().optional().describe(\"\uffff\ue000\")\n\x7d).strict()", none, none⟩]
  handlers := []
  clients := []

end ApiContract.CommandLine

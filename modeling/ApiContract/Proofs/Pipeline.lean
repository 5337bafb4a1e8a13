import ApiContract.Generation
import ApiContract.Proofs.Catalog

/-! The stages of a generation, taken apart: what each of them gives when the whole succeeds. -/

namespace ApiContract.Generation

/-- The content of a module comes from a document, its catalog, and what is declared and written
for that catalog. -/
theorem content_eq_ok {source : Source} {options : Options} {selection : Selection}
    {c : Module.Content} :
    (content source options selection).outcome = .ok c ↔
      ∃ d catalog, (normalize source).outcome = .ok d ∧ Catalog.build d = .ok catalog ∧
        declare d catalog selection = .ok (c.handlers, c.clients) ∧
        schemaTexts options.mark catalog = .ok c.schemas := by
  simp only [content, Traced.bind_outcome_eq_ok, Traced.outcome_stage, Traced.outcome_ofExcept,
    Catalog.ofDocument_eq_ok, Catalog.build_eq_ok]
  constructor
  · intro h
    obtain ⟨d, hd, catalog, hb, ⟨handlers, clients⟩, hdeclare, schemas, hs, hc⟩ := h
    cases hc
    exact ⟨d, catalog, hd, hb, hdeclare, hs⟩
  · intro h
    obtain ⟨d, catalog, hd, hb, hdeclare, hs⟩ := h
    exact ⟨d, hd, catalog, hb, _, hdeclare, _, hs, rfl⟩

/-- What is not selected is not declared; clients keep clear of the handlers. -/
theorem declare_eq (d : Document) (catalog : List NamedSchema) (selection : Selection) :
    declare d catalog selection =
      (if selection.handlers then Declaration.handlers d catalog else pure []) >>= fun hs =>
      (if selection.clients then Declaration.clients d catalog (hs.map (·.name)) else pure []) >>=
        fun cs => pure (hs, cs) := by
  obtain ⟨handlers, clients⟩ := selection
  cases handlers <;> cases clients <;> rfl

theorem declare_eq_ok {d : Document} {catalog : List NamedSchema} {selection : Selection}
    {hs : List HandlerDeclaration} {cs : List ClientDeclaration} :
    declare d catalog selection = .ok (hs, cs) ↔
      (if selection.handlers then Declaration.handlers d catalog else pure []) = .ok hs ∧
        (if selection.clients then Declaration.clients d catalog (hs.map (·.name)) else pure []) =
          .ok cs := by
  rw [declare_eq]
  constructor
  · intro h
    obtain ⟨_, hhandlers, h⟩ := bind_eq_ok.mp h
    obtain ⟨_, hclients, h⟩ := bind_eq_ok.mp h
    cases pure_eq_ok.mp h
    exact ⟨hhandlers, hclients⟩
  · intro h
    exact bind_eq_ok.mpr ⟨hs, h.1, bind_eq_ok.mpr ⟨cs, h.2, rfl⟩⟩

/-- A schema is written under its own name, with an annotation and a type exactly if it is
recursive. -/
theorem schemaText_eq_ok {mark : Text.QuoteMark} {recursive : List String} {s : NamedSchema}
    {t : Module.SchemaText} (h : schemaText mark recursive s = .ok t) :
    t.name = s.name ∧
      (s.name ∈ recursive → t.annotation = some (Validator.annotation s.name) ∧
        s.expr.type? (Validator.Style.ofMark mark) 0 = .ok t.typeCode) ∧
      (s.name ∉ recursive → t.annotation = none ∧ t.typeCode = none) := by
  obtain ⟨code, _, h⟩ := bind_eq_ok.mp h
  by_cases hr : s.name ∈ recursive
  · rw [if_pos (by simpa using hr)] at h
    obtain ⟨type, htype, h⟩ := bind_eq_ok.mp h
    cases pure_eq_ok.mp h
    exact ⟨rfl, fun _ => ⟨rfl, htype⟩, absurd hr⟩
  · rw [if_neg (by simpa using hr)] at h
    cases pure_eq_ok.mp h
    exact ⟨rfl, fun hr' => absurd hr' hr, fun _ => ⟨rfl, rfl⟩⟩

theorem schemaTexts_forall₂ {mark : Text.QuoteMark} {catalog : List NamedSchema}
    {texts : List Module.SchemaText} (h : schemaTexts mark catalog = .ok texts) :
    List.Forall₂ (fun s t => schemaText mark (Catalog.recursiveComponents catalog) s = .ok t)
      catalog texts :=
  mapM_eq_ok.mp h

/-- Every entry is written, in order and under its name. -/
theorem schemaTexts_names {mark : Text.QuoteMark} {catalog : List NamedSchema}
    {texts : List Module.SchemaText} (h : schemaTexts mark catalog = .ok texts) :
    texts.map (·.name) = Catalog.names catalog := by
  have htexts := schemaTexts_forall₂ h
  clear h
  generalize Catalog.recursiveComponents catalog = recursive at htexts
  induction htexts with
  | nil => rfl
  | cons ht _ ih =>
    rw [List.map_cons, ih, (schemaText_eq_ok ht).1]
    rfl

theorem schemaText_const {mark : Text.QuoteMark} {recursive : List String} {s : NamedSchema}
    {t : Module.SchemaText} (h : schemaText mark recursive s = .ok t) :
    t.const = Naming.const s.name := by
  obtain ⟨code, _, h⟩ := bind_eq_ok.mp h
  split at h
  · obtain ⟨type, _, h⟩ := bind_eq_ok.mp h
    cases pure_eq_ok.mp h
    rfl
  · cases pure_eq_ok.mp h
    rfl

theorem schemaText_code {mark : Text.QuoteMark} {recursive : List String} {s : NamedSchema}
    {t : Module.SchemaText} (h : schemaText mark recursive s = .ok t) :
    s.expr.text (Validator.Style.ofMark mark) 0 = .ok t.code := by
  obtain ⟨code, hcode, h⟩ := bind_eq_ok.mp h
  split at h
  · obtain ⟨type, _, h⟩ := bind_eq_ok.mp h
    cases pure_eq_ok.mp h
    exact hcode
  · cases pure_eq_ok.mp h
    exact hcode

/-- Every entry has a constant, in order and named after it. -/
theorem schemaTexts_consts {mark : Text.QuoteMark} {catalog : List NamedSchema}
    {texts : List Module.SchemaText} (h : schemaTexts mark catalog = .ok texts) :
    texts.map (·.const) = (Catalog.names catalog).map Naming.const := by
  rw [Catalog.names, List.map_map]
  exact map_eq_of_forall₂ (schemaTexts_forall₂ h) fun _ _ ht => schemaText_const ht

theorem moduleText_eq_ok {options : Options} {c : Module.Content} {t : String} :
    (moduleText options c).outcome = .ok t ↔
      Layout.widthMisfit? options.indentation = none ∧ t = Module.text options c := by
  have houtcome : (moduleText options c).outcome = Layout.checkWidth options.indentation >>=
      fun _ => pure (Module.text options c) := rfl
  rw [houtcome, Layout.checkWidth]
  cases Layout.widthMisfit? options.indentation with
  | none => simp [bind, Except.bind, pure, Except.pure, eq_comm]
  | some => simp [bind, Except.bind]

end ApiContract.Generation

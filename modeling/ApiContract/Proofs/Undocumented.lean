import ApiContract.Proofs.Pipeline
import ApiContract.Proofs.Summaries

/-!
Documents without summaries. Nothing but the comments of clients is made from a summary, so two
documents that differ in their summaries only have contents that do.
-/

namespace ApiContract

def Operation.undocumented (op : Operation) : Operation := { op with summary := none }

/-- The document with all summaries left out. -/
def Document.undocumented (d : Document) : Document :=
  { d with operations := d.operations.map Operation.undocumented }

/-- Steps that give the same but for a last touch do so along a list. -/
theorem mapM_map_touch {ε α β γ : Type} {f : α → Except ε β} {g : α → Except ε γ} {touch : β → γ}
    (h : ∀ x, g x = (f x).map touch) (xs : List α) :
    xs.mapM g = (xs.mapM f).map (List.map touch) := by
  induction xs with
  | nil => rfl
  | cons x xs ih =>
    rw [List.mapM_cons, List.mapM_cons, h, ih]
    cases f x with
    | error e => rfl
    | ok y => cases xs.mapM f <;> rfl

theorem mapM_undocumented {α : Type} {f : Operation → Except Issue α}
    (h : ∀ op : Operation, f op.undocumented = f op) (ops : List Operation) :
    (ops.map Operation.undocumented).mapM f = ops.mapM f := by
  rw [List.mapM_map]
  exact congrArg (List.mapM · ops) (funext h)

namespace Catalog

theorem build_undocumented (d : Document) : build d.undocumented = build d := by
  have hentries : entries d.undocumented = entries d := by
    have hoperations := mapM_undocumented (f := Operation.entries) (fun _ => rfl) d.operations
    unfold entries Document.undocumented
    rw [hoperations]
  rw [build, hentries]
  rfl

end Catalog

namespace Declaration

theorem handlers_undocumented (d : Document) (catalog : List NamedSchema) :
    handlers d.undocumented catalog = handlers d catalog := by
  have hoperations := mapM_undocumented (f := handlerOf (Catalog.names catalog)) (fun _ => rfl)
    d.operations
  unfold handlers Document.undocumented
  rw [hoperations]

theorem clientOf_undocumented (known : List String) (baseUrl : String) (op : Operation) :
    clientOf known baseUrl op.undocumented =
      (clientOf known baseUrl op).map ClientDeclaration.undocumented := by
  have htypes : slotTypes op.undocumented known = slotTypes op known := rfl
  unfold clientOf
  rw [htypes]
  cases slotTypes op known <;> rfl

theorem clients_undocumented (d : Document) (catalog : List NamedSchema) (reserved : List String) :
    clients d.undocumented catalog reserved =
      (clients d catalog reserved).map (List.map ClientDeclaration.undocumented) := by
  have hpaths : d.undocumented.hasPaths = d.hasPaths := by
    simp [Document.hasPaths, Document.undocumented]
  have hservers : d.undocumented.servers = d.servers := rfl
  unfold clients
  rw [hpaths, hservers]
  split
  next =>
    cases d.servers with
    | nil => rfl
    | cons baseUrl others =>
      have hoperations : d.undocumented.operations.mapM (clientOf (Catalog.names catalog) baseUrl) =
          (d.operations.mapM (clientOf (Catalog.names catalog) baseUrl)).map
            (List.map ClientDeclaration.undocumented) := by
        rw [Document.undocumented, List.mapM_map]
        exact mapM_map_touch (clientOf_undocumented _ _) _
      simp only [hoperations]
      cases d.operations.mapM (clientOf (Catalog.names catalog) baseUrl) with
      | error i => rfl
      | ok ks =>
        have hnames : (ks.map ClientDeclaration.undocumented).flatMap
            (fun k => [k.name, k.argsName]) = ks.flatMap fun k => [k.name, k.argsName] := by
          rw [List.flatMap_map]
          rfl
        simp only [Except.map, bind, Except.bind, hnames]
        cases ensureUnique (ks.flatMap fun k => [k.name, k.argsName])
          (exportedNames catalog ++ reserved) <;> rfl
  next => rfl

end Declaration

namespace Generation

/-- Documents that agree but for summaries have contents that do. -/
theorem content_undocumented {source source' : Source} {options : Options} {selection : Selection}
    {d d' : Document} {c : Module.Content} (hd : (normalize source).outcome = .ok d)
    (hd' : (normalize source').outcome = .ok d') (hsame : d'.undocumented = d.undocumented)
    (hc : (content source options selection).outcome = .ok c) :
    ∃ c', (content source' options selection).outcome = .ok c' ∧ c'.undocumented = c.undocumented := by
  obtain ⟨d₀, catalog, hd₀, hbuild, hdeclare, hschemas⟩ := content_eq_ok.mp hc
  rw [hd] at hd₀
  cases hd₀
  obtain ⟨hhandlers, hclients⟩ := declare_eq_ok.mp hdeclare
  have hbuild' : Catalog.build d' = .ok catalog := by
    rw [← Catalog.build_undocumented, hsame, Catalog.build_undocumented, hbuild]
  have hhandlers' : Declaration.handlers d' catalog = Declaration.handlers d catalog := by
    rw [← Declaration.handlers_undocumented, hsame, Declaration.handlers_undocumented]
  have hclients' : ∃ ks, (if selection.clients then
      Declaration.clients d' catalog (c.handlers.map (·.name)) else pure []) = .ok ks ∧
        ks.map ClientDeclaration.undocumented = c.clients.map ClientDeclaration.undocumented := by
    by_cases hselected : selection.clients = true
    · rw [if_pos hselected] at hclients ⊢
      have hplain : (Declaration.clients d' catalog (c.handlers.map (·.name))).map
          (List.map ClientDeclaration.undocumented) =
            .ok (c.clients.map ClientDeclaration.undocumented) := by
        rw [← Declaration.clients_undocumented, hsame, Declaration.clients_undocumented, hclients]
        rfl
      cases hks : Declaration.clients d' catalog (c.handlers.map (·.name)) with
      | error i =>
        rw [hks] at hplain
        cases hplain
      | ok ks =>
        rw [hks] at hplain
        exact ⟨ks, rfl, Except.ok.inj hplain⟩
    · rw [if_neg hselected] at hclients ⊢
      exact ⟨c.clients, hclients, rfl⟩
  obtain ⟨ks, hks, hkssame⟩ := hclients'
  rw [← hhandlers'] at hhandlers
  refine ⟨⟨c.schemas, c.handlers, ks⟩, content_eq_ok.mpr ⟨d', catalog, hd', hbuild',
    declare_eq_ok.mpr ⟨hhandlers, hks⟩, hschemas⟩, ?_⟩
  exact congrArg (fun ks => (⟨c.schemas, c.handlers, ks⟩ : Module.Content)) hkssame

end Generation

end ApiContract

import ApiContract.Proofs.ExpressionForms
import ApiContract.Proofs.Identifiers
import ApiContract.Proofs.ReferenceCycle
import ApiContract.Proofs.UniqueLiterals

/-!
Validators are told apart by their texts: two expressions that are written alike are the same, in
every kind, name, reference and check. The text of each part begins with what no other begins with,
and it ends where the next part cannot go on with it.
-/

namespace ApiContract

/-! ## Heads -/

/-- No head is the beginning of the head of another thing. -/
def HeadsApart {α : Type} (head : α → String) (as : List α) : Prop :=
  ∀ a ∈ as, ∀ b ∈ as, (head a).toList <+: (head b).toList → a = b

theorem HeadsApart.eq_of_append {α : Type} {head : α → String} {as : List α}
    (h : HeadsApart head as) {a b : α} (ha : a ∈ as) (hb : b ∈ as) {r r' : List Char}
    (heq : (head a).toList ++ r = (head b).toList ++ r') : a = b := by
  have hleft : (head a).toList <+: (head a).toList ++ r := List.prefix_append _ _
  have hright : (head b).toList <+: (head a).toList ++ r := heq ▸ List.prefix_append _ _
  obtain hprefix | hprefix := List.prefix_or_prefix_of_prefix hleft hright
  · exact h a ha b hb hprefix
  · exact (h b hb a ha hprefix).symm

/-- What stands before the first of some character. -/
theorem eq_of_append_cons {c : Char} {cs ds r r' : List Char} (hc : c ∉ cs) (hd : c ∉ ds)
    (heq : cs ++ c :: r = ds ++ c :: r') : cs = ds ∧ r = r' := by
  induction cs generalizing ds with
  | nil =>
    cases ds with
    | nil => exact ⟨rfl, (List.cons.inj heq).2⟩
    | cons d ds => exact absurd (List.cons.inj heq).1 (List.ne_of_not_mem_cons hd)
  | cons b cs ih =>
    cases ds with
    | nil => exact absurd (List.cons.inj heq).1.symm (List.ne_of_not_mem_cons hc)
    | cons d ds =>
      obtain ⟨rfl, htail⟩ := List.cons.inj heq
      obtain ⟨rfl, hrest⟩ :=
        ih (List.not_mem_of_not_mem_cons hc) (List.not_mem_of_not_mem_cons hd) htail
      exact ⟨rfl, hrest⟩

namespace Validator

variable {quotes : QuoteStyle} {width depth : Nat} {t : String}

/-! ## Checks -/

/-- A float is a bound, or it stands in a default. -/
inductive Check.HoldsFloat (x : Binary64) : Check → Prop
  | bound {name : CheckName} : HoldsFloat x ⟨name, .numeral (.float x)⟩
  | default {name : CheckName} {l : Literal} : l.HoldsFloat x → HoldsFloat x ⟨name, .literal l⟩

/-- A known check with an argument of its type, the floats in it doubles. -/
structure Check.Exact (c : Check) : Prop where
  wellFormed : c.WellFormed
  doubles : ∀ x, c.HoldsFloat x → x.IsDouble

/-- What a check begins with, up to its argument. -/
def CheckName.head : CheckName → String
  | .email => ".email()"
  | .uuid => ".uuid()"
  | .datetime => ".datetime(\x7b offset: true \x7d)"
  | .date => ".regex(" ++ dateRegex ++ ")"
  | .url => ".url()"
  | .int => ".int()"
  | .nullable => ".nullable()"
  | .optional => ".optional()"
  | .min => ".min("
  | .max => ".max("
  | .regex => ".regex(new RegExp("
  | .default => ".default("
  | .describe => ".describe("
  | .other name => name

theorem CheckName.headsApart : HeadsApart CheckName.head CheckName.known := by
  unfold HeadsApart
  decide

theorem Check.mem_known_of_wellFormed {c : Check} (h : c.WellFormed) :
    c.name ∈ CheckName.known := by
  cases h with
  | bare hname =>
    exact (by decide : ∀ name ∈ CheckName.formats ++ [.nullable, .optional],
      name ∈ CheckName.known) _ hname
  | bound hname =>
    exact (by decide : ∀ name ∈ [CheckName.min, .max], name ∈ CheckName.known) _ hname
  | text hname =>
    exact (by decide : ∀ name ∈ [CheckName.regex, .describe], name ∈ CheckName.known) _ hname
  | default => simp [CheckName.known]

/-- An argument as it stands in a check. -/
def Argument.inside (style : Style) : Argument → Except Issue String
  | .none => .ok ""
  | .numeral n => (Value.scalar n.toScalar).spelled
  | .text s => .ok (style.quote s)
  | .literal l => l.text style

/-- What a check ends with, behind its argument. -/
def CheckName.close : CheckName → String
  | .min | .max | .default | .describe => ")"
  | .regex => "))"
  | _ => ""

theorem Check.text_eq {c : Check} (h : c.WellFormed) (style : Style) :
    c.text style = do return c.name.head ++ (← c.arg.inside style) ++ c.name.close := by
  cases h with
  | @bare name hname =>
    simp only [CheckName.formats, List.cons_append, List.nil_append, List.mem_cons,
      List.not_mem_nil, or_false] at hname
    obtain rfl | rfl | rfl | rfl | rfl | rfl | rfl | rfl := hname <;> rfl
  | @bound name n hname _ => obtain rfl | rfl := List.mem_pair.mp hname <;> rfl
  | @text name s hname => obtain rfl | rfl := List.mem_pair.mp hname <;> rfl
  | default => rfl

theorem endsNumber_close {name : CheckName} (hname : name ∈ [.min, .max, .default])
    (rest : List Char) : EndsNumber (name.close.toList ++ rest) := by
  simp only [List.mem_cons, List.not_mem_nil, or_false] at hname
  obtain rfl | rfl | rfl := hname <;> exact endsNumber_cons (by decide) rest

/-- How a check is printed. -/
def Check.Prints (quotes : QuoteStyle) (width : Nat) (c : Check) (t : String) : Prop :=
  c.Exact ∧ c.text ⟨quotes.mark, width⟩ = .ok t

/-- Checks of one name have arguments of one type, and a bracket ends what has no end of its own. -/
theorem Check.Exact.unmistakable {c : Check} (h : c.Exact) :
    Unmistakable (Check.Prints quotes width) (fun _ => True) c := by
  rintro d s t r r' ⟨⟨hform, hdoubles⟩, hs⟩ ⟨⟨hform', hdoubles'⟩, ht⟩ - - heq
  rw [Check.text_eq hform] at hs
  rw [Check.text_eq hform'] at ht
  obtain ⟨body, hbody, hs⟩ := bind_eq_ok.mp hs
  obtain ⟨body', hbody', ht⟩ := bind_eq_ok.mp ht
  cases pure_eq_ok.mp hs
  cases pure_eq_ok.mp ht
  simp only [String.toList_append, List.append_assoc] at heq
  have hname : c.name = d.name :=
    CheckName.headsApart.eq_of_append (mem_known_of_wellFormed hform)
      (mem_known_of_wellFormed hform') heq
  rw [hname] at heq
  -- No name stands with arguments of two types, so that the other cases contradict it.
  have hinside := List.append_cancel_left heq
  cases hform with
  | @bare name hknown =>
    cases hform' with
    | bare =>
      cases hname
      cases hbody
      cases hbody'
      exact ⟨rfl, List.append_cancel_left hinside⟩
    | _ => grind [CheckName.formats, Check.bare]
  | @bound name n hknown hn =>
    cases hform' with
    | @bound name' n' _ hn' =>
      cases hname
      have hexact : n.Exact := ⟨hn, fun x hx => hdoubles x (hx ▸ .bound)⟩
      have hexact' : n'.Exact := ⟨hn', fun x hx => hdoubles' x (hx ▸ .bound)⟩
      have hends : ∀ rest, EndsNumber (name.close.toList ++ rest) :=
        endsNumber_close (by grind)
      obtain ⟨rfl, hrest⟩ := hexact.unmistakable n' _ _ _ _ ⟨hexact, hbody⟩ ⟨hexact', hbody'⟩
        (hends _) (hends _) hinside
      exact ⟨rfl, List.append_cancel_left hrest⟩
    | _ => grind [CheckName.formats, Check.bare]
  | @text name s hknown =>
    cases hform' with
    | @text name' s' =>
      cases hname
      cases hbody
      cases hbody'
      obtain ⟨rfl, hrest⟩ := quote_unmistakable quotes hinside
      exact ⟨rfl, List.append_cancel_left hrest⟩
    | _ => grind [CheckName.formats, Check.bare]
  | @default l hl =>
    cases hform' with
    | @default l' hl' =>
      have hexact : l.Exact := ⟨hl, fun x hx => hdoubles x (.default hx)⟩
      have hexact' : l'.Exact := ⟨hl', fun x hx => hdoubles' x (.default hx)⟩
      have hends : ∀ rest, EndsNumber (CheckName.default.close.toList ++ rest) :=
        endsNumber_close (by simp)
      obtain ⟨rfl, hrest⟩ := hexact.unmistakable l' _ _ _ _ ⟨hexact, hbody⟩ ⟨hexact', hbody'⟩
        (hends _) (hends _) hinside
      exact ⟨rfl, List.append_cancel_left hrest⟩
    | _ => grind [CheckName.formats, Check.bare]

/-! ## Chains -/

/-- A rest that does not go on with a chain. -/
def EndsChain (rest : List Char) : Prop := rest.head? ≠ some '.'

theorem Check.Exact.head {c : Check} (h : c.Exact) (ht : c.text ⟨quotes.mark, width⟩ = .ok t) :
    t.toList.head? = some '.' := by
  rw [Check.text_eq h.wellFormed] at ht
  obtain ⟨body, _, ht⟩ := bind_eq_ok.mp ht
  cases pure_eq_ok.mp ht
  rw [String.append_assoc, String.toList_append, List.head?_append,
    (by decide : ∀ name ∈ CheckName.known, name.head.toList.head? = some '.') c.name
      (mem_known_of_wellFormed h.wellFormed)]
  rfl

theorem chain_unmistakable {checks : List Check} (h : ∀ c ∈ checks, c.Exact) : Unmistakable
    (fun checks t => (∀ c ∈ checks, c.Exact) ∧ chainText ⟨quotes.mark, width⟩ checks = .ok t)
      EndsChain checks := by
  rintro checks' s t r r' ⟨-, hs⟩ ⟨h', ht⟩ hr hr' heq
  obtain ⟨ss, hss, hs⟩ := bind_eq_ok.mp hs
  obtain ⟨ts, hts, ht⟩ := bind_eq_ok.mp ht
  cases pure_eq_ok.mp hs
  cases pure_eq_ok.mp ht
  exact unmistakable_join (fun c t ht => ht.1.head ht.2) (fun c hc => (h c hc).unmistakable)
    ((List.forall₂_and_left _ _).mpr ⟨h, mapM_eq_ok.mp hss⟩)
    ((List.forall₂_and_left _ _).mpr ⟨h', mapM_eq_ok.mp hts⟩) hr hr' heq

/-! ## Expressions -/

namespace Expr

/-- A float stands in a check behind some node. -/
def HoldsFloat (x : Binary64) (e : Expr) : Prop :=
  ∃ sub : Expr, sub.Within e ∧ ∃ c ∈ sub.checks, c.HoldsFloat x

/-- An expression of a form that schemas are translated to, the floats in it doubles; its references
do not end where they stand. -/
structure Exact (e : Expr) : Prop where
  formed : e.Formed
  doubles : ∀ x, e.HoldsFloat x → x.IsDouble
  targets : ∀ t, e.Mentions t → ')' ∉ t.toList

/-- How an expression is printed. -/
def Prints (quotes : QuoteStyle) (width depth : Nat) (e : Expr) (t : String) : Prop :=
  e.Exact ∧ e.text ⟨quotes.mark, width⟩ depth = .ok t

theorem Exact.checks {e : Expr} (h : e.Exact) : ∀ c ∈ e.checks, c.Exact := fun c hc =>
  ⟨h.formed.checks c hc, fun x hx => h.doubles x ⟨e, .whole, c, hc, hx⟩⟩

theorem Exact.item {e item : Expr} (h : e.Exact) (hitem : item.Formed) (he : e.item = some item) :
    item.Exact := by
  refine ⟨hitem, ?_, fun t ht => h.targets t (.item he ht)⟩
  rintro x ⟨sub, hsub, hx⟩
  exact h.doubles x ⟨sub, .item he hsub, hx⟩

theorem Exact.property {e : Expr} {q : String × Expr} (h : e.Exact) (hproperty : q.2.Formed)
    (hq : q ∈ e.properties) : q.2.Exact := by
  refine ⟨hproperty, ?_, fun t ht => h.targets t (.property hq ht)⟩
  rintro x ⟨sub, hsub, hx⟩
  exact h.doubles x ⟨sub, .property hq hsub, hx⟩

end Expr

/-- What a node of a kind begins with. -/
def Kind.head : Kind → String
  | .string => "z.string()"
  | .number => "z.number()"
  | .boolean => "z.boolean()"
  | .any => "z.any()"
  | .enum => "z.enum(["
  | .array => "z.array("
  | .object => "z.object("
  | .lazy => "z.lazy(() => "
  | .other _ => "z.any()"

def Kind.known : List Kind := [.string, .number, .boolean, .any, .enum, .array, .object, .lazy]

theorem Kind.headsApart : HeadsApart Kind.head Kind.known := by
  unfold HeadsApart
  decide

/-- What a node of a kind ends with, before its chain. -/
def Kind.close : Kind → String
  | .enum => "])"
  | .array | .lazy => ")"
  | .object => ").strict()"
  | _ => ""

namespace Expr

/-- What stands in a node between its ends. -/
def inside (style : Style) (depth : Nat) (e : Expr) : Except Issue String :=
  match e.kind with
  | .enum => .ok (", ".intercalate (e.values.map style.quote))
  | .array => itemText style depth e.item
  | .lazy => .ok (Naming.const (nameOr e.ref))
  | .object =>
    (propertyTexts style (depth + 1) e.properties).map (braced style depth ",\n")
  | _ => .ok ""

theorem Formed.text_eq {e : Expr} (h : e.Formed) (style : Style) (depth : Nat) :
    e.text style depth = do
      return e.kind.head ++ (← e.inside style depth) ++ e.kind.close ++
        (← chainText style e.checks) := by
  cases h with
  | @basic kind checks hkind =>
    simp only [List.mem_cons, List.not_mem_nil, or_false] at hkind
    obtain rfl | rfl | rfl | rfl := hkind <;> rfl
  | enum => rfl
  | @array item =>
    rw [text, inside, itemText]
    cases item.text style depth <;> rfl
  | @object properties =>
    rw [text, inside]
    cases propertyTexts style (depth + 1) properties <;> rfl
  | lazy => rfl

theorem Formed.kind_mem {e : Expr} (h : e.Formed) : e.kind ∈ Kind.known := by
  cases h with
  | basic hkind =>
    exact (by decide : ∀ kind ∈ [Kind.string, .number, .boolean, .any], kind ∈ Kind.known) _ hkind
  | _ => simp [Kind.known]

/-- An expression without its chain. -/
def node (e : Expr) : Expr := ⟨e.kind, e.values, e.item, e.properties, e.ref, []⟩

theorem eq_of_node {e e' : Expr} (h : e.node = e'.node) (hchecks : e.checks = e'.checks) : e = e' := by
  cases e
  cases e'
  cases h
  cases hchecks
  rfl

/-- A node is told from what is printed if what stands in it is, by nodes of its kind. -/
theorem Exact.unmistakable_of_inside {e : Expr} (h : e.Exact)
    (hinside : ∀ (e' : Expr) (body body' : String) (r r' : List Char), e'.Exact → e.kind = e'.kind →
      e.inside ⟨quotes.mark, width⟩ depth = .ok body →
      e'.inside ⟨quotes.mark, width⟩ depth = .ok body' →
      body.toList ++ (e.kind.close.toList ++ r) = body'.toList ++ (e.kind.close.toList ++ r') →
      e.node = e'.node ∧ r = r') :
    Unmistakable (Prints quotes width depth) EndsChain e := by
  rintro e' s t r r' ⟨-, hs⟩ ⟨h', ht⟩ hr hr' heq
  rw [h.formed.text_eq] at hs
  rw [h'.formed.text_eq] at ht
  obtain ⟨body, hbody, hs⟩ := bind_eq_ok.mp hs
  obtain ⟨chain, hchain, hs⟩ := bind_eq_ok.mp hs
  obtain ⟨body', hbody', ht⟩ := bind_eq_ok.mp ht
  obtain ⟨chain', hchain', ht⟩ := bind_eq_ok.mp ht
  cases pure_eq_ok.mp hs
  cases pure_eq_ok.mp ht
  simp only [String.toList_append, List.append_assoc] at heq
  have hkind : e.kind = e'.kind :=
    Kind.headsApart.eq_of_append h.formed.kind_mem h'.formed.kind_mem heq
  rw [← hkind] at heq
  obtain ⟨hnode, hrest⟩ :=
    hinside e' body body' _ _ h' hkind hbody hbody' (List.append_cancel_left heq)
  obtain ⟨hchecks, hrest⟩ := chain_unmistakable h.checks e'.checks chain chain' r r'
    ⟨h.checks, hchain⟩ ⟨h'.checks, hchain'⟩ hr hr' hrest
  exact ⟨eq_of_node hnode hchecks, hrest⟩

theorem values_unmistakable {values values' : List String} {r r' : List Char}
    (heq : (", ".intercalate (values.map (⟨quotes.mark, width⟩ : Style).quote)).toList ++
        ("])".toList ++ r) =
      (", ".intercalate (values'.map (⟨quotes.mark, width⟩ : Style).quote)).toList ++
        ("])".toList ++ r')) : values = values' ∧ r = r' := by
  have hprints : ∀ values : List String, List.Forall₂ (fun v t => t = Text.quote quotes.mark v)
      values (values.map (⟨quotes.mark, width⟩ : Style).quote) := fun values =>
    List.forall₂_map_right_iff.mpr (List.forall₂_same.mpr fun _ _ => rfl)
  have hopen : ∀ (v t : String) (r r' : List Char), t = Text.quote quotes.mark v →
      t.toList ++ r ≠ "])".toList ++ r' := by
    rintro v _ r r' rfl heq
    have hfirst := congrArg List.head? heq
    rw [List.head?_append, Script.head_quote] at hfirst
    cases quotes <;> cases hfirst
  refine @unmistakable_list _ _ (fun _ => True) _ _ (fun _ => trivial) (fun _ => trivial)
    (fun _ _ h => by cases h) hopen _ ?_ _ _ _ _ _ (hprints values) (hprints values') heq
  rintro v - v' _ _ r r' rfl rfl - - heq
  exact quote_unmistakable quotes heq

theorem const_unmistakable {target target' : String} {r r' : List Char}
    (htarget : ')' ∉ target.toList) (htarget' : ')' ∉ target'.toList)
    (heq : (Naming.const target).toList ++ (")".toList ++ r) =
      (Naming.const target').toList ++ (")".toList ++ r')) :
    target = target' ∧ ")".toList ++ r = ")".toList ++ r' := by
  have hbracket : ∀ {target : String}, ')' ∉ target.toList →
      ')' ∉ (Naming.const target).toList := by
    intro target htarget
    rw [Naming.const, String.toList_append]
    exact List.not_mem_append htarget (by decide)
  obtain ⟨hnames, rfl⟩ := eq_of_append_cons (hbracket htarget) (hbracket htarget') heq
  rw [Naming.const, Naming.const, String.toList_append, String.toList_append] at hnames
  exact ⟨String.toList_inj.mp (List.append_cancel_right hnames), rfl⟩

/-- How a property is printed as a line of an object. -/
def PrintsProperty (quotes : QuoteStyle) (width depth : Nat) : String × Expr → String → Prop :=
  PrintsNamed quotes ((⟨quotes.mark, width⟩ : Style).indent depth) (Prints quotes width depth)

theorem printsProperty_of_texts {properties : List (String × Expr)}
    (h : ∀ q ∈ properties, q.2.Exact) {ss : List String}
    (hss : propertyTexts ⟨quotes.mark, width⟩ depth properties = .ok ss) :
    List.Forall₂ (PrintsProperty quotes width depth) properties ss := by
  rw [propertyTexts_eq] at hss
  exact printsNamed_of_texts h hss

/-- The braces of an object are apart where it has no properties. -/
theorem braced_unmistakable {properties properties' : List (String × Expr)} {ss ts : List String}
    {r r' : List Char}
    (h : ∀ q ∈ properties, Unmistakable (Prints quotes width (depth + 1)) EndsChain q.2)
    (hss : List.Forall₂ (PrintsProperty quotes width (depth + 1)) properties ss)
    (hts : List.Forall₂ (PrintsProperty quotes width (depth + 1)) properties' ts)
    (heq : (braced ⟨quotes.mark, width⟩ depth ",\n" ss).toList ++ r =
      (braced ⟨quotes.mark, width⟩ depth ",\n" ts).toList ++ r') :
    properties = properties' ∧ r = r' := by
  have hnone : ∀ rest : List Char, (braced ⟨quotes.mark, width⟩ depth ",\n" []).toList ++ rest =
      '\x7b' :: '\x7d' :: rest := fun rest => by simp [braced]
  have hmany : ∀ (s : String) (ss : List String) (rest : List Char),
      (braced ⟨quotes.mark, width⟩ depth ",\n" (s :: ss)).toList ++ rest =
        '\x7b' :: '\n' :: ((",\n".intercalate (s :: ss)).toList ++
          ('\n' :: (List.replicate (width * depth) ' ' ++ ['\x7d']) ++ rest)) := by
    intro s ss rest
    simp [braced, Style.indent, String.toList_append]
  cases hss with
  | nil =>
    cases hts with
    | nil => exact ⟨rfl, List.append_cancel_left heq⟩
    | cons _ _ =>
      rw [hnone, hmany] at heq
      cases heq
  | cons hs hss =>
    cases hts with
    | nil =>
      rw [hnone, hmany] at heq
      cases heq
    | cons ht hts =>
      rw [hmany, hmany] at heq
      have hseparator : ∀ rest, EndsChain (",\n".toList ++ rest) := fun _ h => by cases h
      have hclose : ∀ rest,
          EndsChain ('\n' :: (List.replicate (width * depth) ' ' ++ ['\x7d']) ++ rest) :=
        fun _ h => by cases h
      exact unmistakable_intercalate hseparator hclose (fun _ _ h => by cases h)
        (fun q hq => unmistakable_named quotes _ (h q hq)) (.cons hs hss) (.cons ht hts)
        (List.cons_ne_nil _ _) (List.cons_ne_nil _ _) (List.cons.inj (List.cons.inj heq).2).2

/-- A validator is told from what is printed. -/
theorem Exact.unmistakable {e : Expr} (h : e.Exact) :
    Unmistakable (Prints quotes width depth) EndsChain e := by
  obtain ⟨hform, hdoubles, htargets⟩ := h
  -- An item stands at the depth of its array, a property one level further in.
  induction hform generalizing depth with
  | @basic kind checks hkind hchecks =>
    refine Exact.unmistakable_of_inside ⟨.basic hkind hchecks, hdoubles, htargets⟩ ?_
    intro e' body body' r r' h' hsame hbody hbody' heq
    cases h'.formed with
    | @basic kind' checks' hkind' =>
      cases hsame
      simp only [List.mem_cons, List.not_mem_nil, or_false] at hkind
      obtain rfl | rfl | rfl | rfl := hkind
      all_goals
        cases hbody
        cases hbody'
        exact ⟨rfl, heq⟩
    | _ => cases hsame; simp at hkind
  | @enum values checks hchecks =>
    refine Exact.unmistakable_of_inside ⟨.enum hchecks, hdoubles, htargets⟩ ?_
    intro e' body body' r r' h' hsame hbody hbody' heq
    cases h'.formed with
    | @enum values' checks' =>
      cases hbody
      cases hbody'
      obtain ⟨rfl, hrest⟩ := values_unmistakable heq
      exact ⟨rfl, hrest⟩
    | basic hkind' => cases hsame; simp at hkind'
    | _ => cases hsame
  | @array item checks hchecks hitem ih =>
    have hexact : Exact ⟨.array, [], some item, [], none, checks⟩ :=
      ⟨.array hchecks hitem, hdoubles, htargets⟩
    refine hexact.unmistakable_of_inside ?_
    intro e' body body' r r' h' hsame hbody hbody' heq
    cases h'.formed with
    | @array item' checks' _ hitem' =>
      have hhere := hexact.item hitem rfl
      have hends : ∀ rest, EndsChain (")".toList ++ rest) := fun _ h => by cases h
      obtain ⟨rfl, hrest⟩ := ih hhere.doubles hhere.targets item' body body' _ _ ⟨hhere, hbody⟩
        ⟨h'.item hitem' rfl, hbody'⟩ (hends r) (hends r') heq
      exact ⟨rfl, List.append_cancel_left hrest⟩
    | basic hkind' => cases hsame; simp at hkind'
    | _ => cases hsame
  | @object properties checks hchecks hproperties ih =>
    have hexact : Exact ⟨.object, [], none, properties, none, checks⟩ :=
      ⟨.object hchecks hproperties, hdoubles, htargets⟩
    refine hexact.unmistakable_of_inside ?_
    intro e' body body' r r' h' hsame hbody hbody' heq
    cases h'.formed with
    | @object properties' checks' _ hproperties' =>
      obtain ⟨ss, hss, rfl⟩ := map_eq_ok.mp hbody
      obtain ⟨ts, hts, rfl⟩ := map_eq_ok.mp hbody'
      have hhere := fun q hq => hexact.property (hproperties q hq) hq
      have hthere := fun q hq => h'.property (hproperties' q hq) hq
      obtain ⟨rfl, hrest⟩ := braced_unmistakable
        (fun q hq => ih q hq (hhere q hq).doubles (hhere q hq).targets)
        (printsProperty_of_texts hhere hss) (printsProperty_of_texts hthere hts) heq
      exact ⟨rfl, List.append_cancel_left hrest⟩
    | basic hkind' => cases hsame; simp at hkind'
    | _ => cases hsame
  | @lazy target checks hchecks =>
    refine Exact.unmistakable_of_inside ⟨.lazy hchecks, hdoubles, htargets⟩ ?_
    intro e' body body' r r' h' hsame hbody hbody' heq
    cases h'.formed with
    | @lazy target' checks' =>
      cases hbody
      cases hbody'
      obtain ⟨rfl, hrest⟩ := const_unmistakable (htargets target (.here rfl))
        (h'.targets target' (.here rfl)) heq
      exact ⟨rfl, List.append_cancel_left hrest⟩
    | basic hkind' => cases hsame; simp at hkind'
    | _ => cases hsame

end Expr

/-! ## The whole -/

theorem Expr.Translated.exact {a : Alphabet} {e : Expr} (h : e.Translated)
    (htargets : ∀ t ∈ e.refs, ∀ c ∈ t.toList, a.isPart c = true)
    (hdoubles : ∀ x, e.HoldsFloat x → x.IsDouble) : e.Exact := by
  refine ⟨h.formed, hdoubles, fun t ht hbracket => ?_⟩
  have hpart := htargets t (Expr.mem_refs_iff_mentions.mpr ht) ')' hbracket
  rw [a.isPart_ascii (by decide)] at hpart
  cases hpart

/-- Whatever the quote marks, the depth and the width: expressions that are written alike are the
same, if their references are made of letters, digits and underscores. The floats in them are
doubles, which is what can be read (`Binary64.isDouble_iff`). -/
theorem text_unique {a : Alphabet} {e e' : Expr} (h : e.Translated) (h' : e'.Translated)
    (htargets : ∀ t ∈ e.refs, ∀ c ∈ t.toList, a.isPart c = true)
    (htargets' : ∀ t ∈ e'.refs, ∀ c ∈ t.toList, a.isPart c = true)
    (hdoubles : ∀ x, e.HoldsFloat x → x.IsDouble) (hdoubles' : ∀ x, e'.HoldsFloat x → x.IsDouble)
    (quotes : QuoteStyle) (width depth : Nat) {t : String}
    (ht : e.text ⟨quotes.mark, width⟩ depth = .ok t)
    (ht' : e'.text ⟨quotes.mark, width⟩ depth = .ok t) : e = e' := by
  have hexact := h.exact htargets hdoubles
  have hexact' := h'.exact htargets' hdoubles'
  have hends : EndsChain [] := by simp [EndsChain]
  exact (hexact.unmistakable e' t t [] [] ⟨hexact, ht⟩ ⟨hexact', ht'⟩ hends hends rfl).1

/-- A float for a bound. -/
def rate : Binary64 := .ofRatio false 5 2

/-- An object whose properties hold a bound that is a float, a default and a reference. -/
def rates : Schema :=
  .object .none
    [("rate), 'x'", .number ⟨true, some (.scalar (.int 2)), none⟩ false (some (.float rate)) none),
      ("Of", .array .none (.ref .none "Rate_1") none none)]
    ["rate), 'x'"]

/-- The same said of parameters. -/
def rateParameters : List Parameter :=
  [⟨"rate), 'x'", .query, .number .none false (some (.float rate)) none, true, true,
      some (.scalar (.int 2)), none⟩,
    ⟨"Of", .query, .array .none (.ref .none "Rate_1") none none, false, false, none, none⟩]

def ratesExpr : Expr :=
  .object
    [("rate), 'x'", .number [⟨.min, .numeral (.float rate)⟩, .bare .nullable,
        ⟨.default, .literal (.number (.int 2))⟩]),
      ("Of", .array (.lazy "Rate_1") [.bare .optional])]

theorem text_unique_rates :
    ∃ e e' : Expr, Expr.ofSchema "rates" rates = .ok e ∧
      Expr.ofParameters "rates" rateParameters = .ok e' ∧
      (∀ t ∈ e.refs, ∀ c ∈ t.toList, Alphabet.ascii.isPart c = true) ∧
      (∀ t ∈ e'.refs, ∀ c ∈ t.toList, Alphabet.ascii.isPart c = true) ∧
      (∀ x, e.HoldsFloat x → x.IsDouble) ∧ (∀ x, e'.HoldsFloat x → x.IsDouble) ∧
      e.text ⟨.single, 2⟩ 0 = .ok ("z.object(\x7b\n  'rate), \\'x\\'': " ++
        "z.number().min(2.5).nullable().default(2),\n  'Of': " ++
        "z.array(z.lazy(() => Rate_1Schema)).optional()\n\x7d).strict()") ∧
      e.text ⟨.single, 2⟩ 0 = e'.text ⟨.single, 2⟩ 0 ∧ e = e' := by
  have hmade : Expr.ofSchema "rates" rates = .ok ratesExpr := rfl
  have hmade' : Expr.ofParameters "rates" rateParameters = .ok ratesExpr := rfl
  have htargets : ∀ t ∈ ratesExpr.refs, ∀ c ∈ t.toList, Alphabet.ascii.isPart c = true :=
    List.forall_mem_singleton.mpr (forall_mem_of_all (by decide))
  have hdoubles : ∀ x, ratesExpr.HoldsFloat x → x.IsDouble := by
    rintro x ⟨sub, hsub, c, hc, hx⟩
    have hrate : Check.HoldsFloat x ⟨.min, .numeral (.float rate)⟩ → x.IsDouble := by
      rintro ⟨⟩
      decide
    have hdefault : ¬ Check.HoldsFloat x ⟨.default, .literal (.number (.int 2))⟩ := by
      rintro (_ | hx)
      cases hx
    have hbare : ∀ name, ¬ Check.HoldsFloat x (.bare name) := by
      intro name hx
      cases hx
    have heach : ratesExpr.Each fun sub => ∀ c ∈ sub.checks, c.HoldsFloat x → x.IsDouble := by
      have hnone : ∀ {P : Expr → Prop}, ∀ i, (none : Option Expr) = some i → P i := by
        intro P i hi
        cases hi
      refine Expr.each_iff.mpr ⟨List.forall_mem_nil _, hnone, List.forall_mem_cons.mpr ⟨?_, ?_⟩⟩
      · refine Expr.each_iff.mpr ⟨?_, hnone, List.forall_mem_nil _⟩
        simpa [Expr.number, Expr.basic, hdefault, hbare] using hrate
      · refine List.forall_mem_singleton.mpr (Expr.each_iff.mpr ⟨?_, ?_, List.forall_mem_nil _⟩)
        · simp [Expr.array, hbare]
        · rintro i ⟨⟩
          exact Expr.each_iff.mpr ⟨List.forall_mem_nil _, hnone, List.forall_mem_nil _⟩
    exact heach sub hsub c hc hx
  have htext : ratesExpr.text ⟨QuoteStyle.single.mark, 2⟩ 0 =
      .ok ("z.object(\x7b\n  'rate), \\'x\\'': " ++
        "z.number().min(2.5).nullable().default(2),\n  'Of': " ++
        "z.array(z.lazy(() => Rate_1Schema)).optional()\n\x7d).strict()") := by decide +kernel
  exact ⟨ratesExpr, ratesExpr, hmade, hmade', htargets, htargets, hdoubles, hdoubles, htext, rfl,
    text_unique (.schema hmade) (.parameters hmade') htargets htargets hdoubles hdoubles .single 2 0
      htext htext⟩

end Validator

end ApiContract

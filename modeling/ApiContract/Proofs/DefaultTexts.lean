import ApiContract.Proofs.JsonReading

/-!
Defaults read back. A value of the kinds that JSON has is accepted as a default; what is written of
it between the marks of JSON is read as the value again, and between apostrophes only the string
literals look different. A whole number of too many digits is accepted, but not written.
-/

namespace ApiContract

/-! ## Held texts -/

namespace Text

theorem ofPlain_append (s t : String) : ofPlain (s ++ t) = ofPlain s ++ ofPlain t := by
  rw [← String.toList_inj, String.toList_append, ofPlain_toList, ofPlain_toList, ofPlain_toList,
    String.toList_append, List.flatMap_append]

/-- A text without the mark for halves holds itself. -/
theorem ofPlain_of_notMem {s : String} (h : heldMark ∉ s.toList) : ofPlain s = s := by
  rw [← String.toList_inj, ofPlain_toList, flatMap_held h]

theorem ofPlain_intercalate {separator : String} (h : heldMark ∉ separator.toList)
    (parts : List String) :
    ofPlain (separator.intercalate parts) = separator.intercalate (parts.map ofPlain) := by
  induction parts with
  | nil => rfl
  | cons part parts ih =>
    cases parts with
    | nil => rw [List.map_singleton, String.intercalate_singleton, String.intercalate_singleton]
    | cons next parts =>
      rw [List.map_cons] at ih
      rw [String.intercalate_cons_cons, List.map_cons, List.map_cons, String.intercalate_cons_cons,
        ofPlain_append, ofPlain_append, ofPlain_of_notMem h, ih]

theorem ofPlain_enclosed {opening closing : String} (hopening : heldMark ∉ opening.toList)
    (hclosing : heldMark ∉ closing.toList) (parts : List String) :
    ofPlain (opening ++ ", ".intercalate parts ++ closing) =
      opening ++ ", ".intercalate (parts.map ofPlain) ++ closing := by
  rw [ofPlain_append, ofPlain_append, ofPlain_intercalate (by decide), ofPlain_of_notMem hopening,
    ofPlain_of_notMem hclosing]

end Text

def Scalar.held : Scalar → Scalar
  | .str s => .str (Text.ofPlain s)
  | s => s

mutual

/-- A value of plain texts as a document holds it. -/
def Value.held : Value → Value
  | .scalar s => .scalar s.held
  | .seq items knot => .seq (Value.heldItems items) knot
  | .map members knot => .map (Value.heldMembers members) knot
  | .pair a b => .pair a.held b.held
  | .set members => .set (members.map Scalar.held)
  | .endless => .endless

def Value.heldItems : List Value → List Value
  | [] => []
  | v :: vs => v.held :: Value.heldItems vs

def Value.heldMembers : List (Scalar × Value) → List (Scalar × Value)
  | [] => []
  | (k, v) :: rest => (k.held, v.held) :: Value.heldMembers rest

end

theorem Value.heldItems_eq (vs : List Value) : Value.heldItems vs = vs.map Value.held := by
  induction vs with
  | nil => rfl
  | cons v vs ih => rw [Value.heldItems, ih, List.map_cons]

/-- The mapping with these texts as its keys. -/
def Value.object (ms : List (String × Value)) : Value := .map (ms.map fun m => (.str m.1, m.2)) 0

theorem Value.held_object (ms : List (String × Value)) :
    (Value.object ms).held = .object (ms.map fun m => (Text.ofPlain m.1, m.2.held)) := by
  have hmembers : Value.heldMembers (ms.map fun m => (.str m.1, m.2)) =
      ms.map fun m => (.str (Text.ofPlain m.1), m.2.held) := by
    induction ms with
    | nil => rfl
    | cons m ms ih =>
      rw [List.map_cons, Value.heldMembers, ih]
      rfl
  rw [Value.object, Value.held, hmembers, Value.object, List.map_map]
  rfl

namespace Validator

mutual

/-- A literal of plain texts as it is made of what a document holds. -/
def Literal.held : Literal → Literal
  | .leaf kind value => .leaf kind value.held
  | .array items => .array (Literal.heldItems items)
  | .object members => .object (Literal.heldMembers members)

def Literal.heldItems : List Literal → List Literal
  | [] => []
  | l :: ls => l.held :: Literal.heldItems ls

def Literal.heldMembers : List (String × Literal) → List (String × Literal)
  | [] => []
  | (key, l) :: rest => (Text.ofPlain key, l.held) :: Literal.heldMembers rest

end

theorem Literal.heldItems_eq (ls : List Literal) : Literal.heldItems ls = ls.map Literal.held := by
  induction ls with
  | nil => rfl
  | cons l ls ih => rw [Literal.heldItems, ih, List.map_cons]

theorem Literal.heldMembers_eq (ms : List (String × Literal)) :
    Literal.heldMembers ms = ms.map fun m => (Text.ofPlain m.1, m.2.held) := by
  induction ms with
  | nil => rfl
  | cons m ms ih => rw [Literal.heldMembers, ih, List.map_cons]

/-- What is written of held texts is what is written of the texts, held. -/
theorem Literal.text_held {l : Literal} (h : l.WellFormed) (quotes : QuoteStyle) (width : Nat) :
    l.held.text ⟨quotes.mark, width⟩ = (l.text ⟨quotes.mark, width⟩).map Text.ofPlain := by
  induction h with
  | null => exact congrArg Except.ok (Text.ofPlain_of_notMem (by decide)).symm
  | @boolean b =>
    cases b with
    | true => exact congrArg Except.ok (Text.ofPlain_of_notMem (by decide)).symm
    | false => exact congrArg Except.ok (Text.ofPlain_of_notMem (by decide)).symm
  | @number n _ =>
    have hheld : (Literal.number n).held = .number n := by cases n <;> rfl
    rw [hheld]
    change (Value.scalar n.toScalar).spelled = ((Value.scalar n.toScalar).spelled).map Text.ofPlain
    cases ht : (Value.scalar n.toScalar).spelled with
    | error e => rfl
    | ok t =>
      have hmark : Text.heldMark ∉ t.toList := (numeric_spelled ht).notMem (by decide)
      exact congrArg Except.ok (Text.ofPlain_of_notMem hmark).symm
  | @string s => exact congrArg Except.ok (Text.quote_ofPlain quotes s)
  | @array items _ ih =>
    rw [Literal.held, Literal.heldItems_eq, Literal.text, Literal.text, Literal.itemTexts_eq,
      Literal.itemTexts_eq, mapM_map_congr ih]
    cases items.mapM (Literal.text ⟨quotes.mark, width⟩) with
    | error e => rfl
    | ok ts => exact congrArg Except.ok (Text.ofPlain_enclosed (by decide) (by decide) ts).symm
  | @object members _ ih =>
    have hstep : ∀ m ∈ members, (m.2.held.text ⟨quotes.mark, width⟩).map
        (Text.quote quotes.mark (Text.ofPlain m.1) ++ ": " ++ ·) =
        ((m.2.text ⟨quotes.mark, width⟩).map (Text.quote quotes.mark m.1 ++ ": " ++ ·)).map
          Text.ofPlain := by
      intro m hm
      have hcolon : Text.ofPlain ": " = ": " := Text.ofPlain_of_notMem (by decide)
      rw [ih m hm]
      cases m.2.text ⟨quotes.mark, width⟩ with
      | error e => rfl
      | ok t =>
        refine congrArg Except.ok ?_
        rw [Text.ofPlain_append, Text.ofPlain_append, Text.quote_ofPlain, hcolon]
    rw [Literal.held, Literal.heldMembers_eq, Literal.text, Literal.text, Literal.memberTexts_eq,
      Literal.memberTexts_eq]
    simp only [Style.quote]
    rw [mapM_map_congr hstep]
    cases members.mapM fun m =>
        (m.2.text ⟨quotes.mark, width⟩).map (Text.quote quotes.mark m.1 ++ ": " ++ ·) with
    | error e => rfl
    | ok ts => exact congrArg Except.ok (Text.ofPlain_enclosed (by decide) (by decide) ts).symm

end Validator

/-! ## Requoted texts -/

/-- The same text but for its string literals: they stand between apostrophes instead of the marks
of JSON, and stand for the same texts. -/
inductive Requoted : List Char → List Char → Prop
  | nil : Requoted [] []
  | plain {c : Char} {cs ds : List Char} : c ≠ '"' → c ≠ '\'' → Requoted cs ds →
      Requoted (c :: cs) (c :: ds)
  | literal {s double single : String} {cs ds : List Char} : Script.LiteralOf '"' s double →
      Script.LiteralOf '\'' s single → Requoted cs ds →
      Requoted (double.toList ++ cs) (single.toList ++ ds)

namespace Requoted

variable {cs ds es fs : List Char}

theorem append (h : Requoted cs ds) (h' : Requoted es fs) : Requoted (cs ++ es) (ds ++ fs) := by
  induction h with
  | nil => exact h'
  | plain hdouble hsingle _ ih => exact .plain hdouble hsingle ih
  | literal hdouble hsingle _ ih =>
    rw [List.append_assoc, List.append_assoc]
    exact .literal hdouble hsingle ih

theorem same (hdouble : '"' ∉ cs) (hsingle : '\'' ∉ cs) : Requoted cs cs := by
  induction cs with
  | nil => exact .nil
  | cons c cs ih =>
    rw [List.mem_cons, not_or] at hdouble hsingle
    exact .plain (Ne.symm hdouble.1) (Ne.symm hsingle.1) (ih hdouble.2 hsingle.2)

theorem quote (s : String) :
    Requoted (Text.quote .double s).toList (Text.quote .single s).toList := by
  have h := literal (Script.literalOf_quote .double s) (Script.literalOf_quote .single s) nil
  rwa [List.append_nil, List.append_nil] at h

theorem intercalate {separator : String} (hdouble : '"' ∉ separator.toList)
    (hsingle : '\'' ∉ separator.toList) {ts us : List String}
    (h : List.Forall₂ (fun t u => Requoted t.toList u.toList) ts us) :
    Requoted (separator.intercalate ts).toList (separator.intercalate us).toList := by
  induction h with
  | nil => exact nil
  | cons hhead hrest ih =>
    cases hrest with
    | nil => 
      rw [String.intercalate_singleton, String.intercalate_singleton]
      exact hhead
    | cons =>
      rw [String.intercalate_cons_cons, String.intercalate_cons_cons]
      simp only [String.toList_append]
      exact (hhead.append (same hdouble hsingle)).append ih

theorem enclosed {opening closing : String} (hopening : '"' ∉ opening.toList ∧
    '\'' ∉ opening.toList) (hclosing : '"' ∉ closing.toList ∧ '\'' ∉ closing.toList)
    {ts us : List String} (h : List.Forall₂ (fun t u => Requoted t.toList u.toList) ts us) :
    Requoted (opening ++ ", ".intercalate ts ++ closing).toList
      (opening ++ ", ".intercalate us ++ closing).toList := by
  simp only [String.toList_append]
  exact ((same hopening.1 hopening.2).append
    (intercalate (by decide) (by decide) h)).append (.same hclosing.1 hclosing.2)

end Requoted

/-! ## Defaults -/

/-- A value of the kinds that JSON has, with at most so many collections inside one another. A
double is one that is read back from its own text. -/
inductive Value.IsJson : Value → Nat → Prop
  | null {depth : Nat} : IsJson .null depth
  | bool {b : Bool} {depth : Nat} : IsJson (.bool b) depth
  | int {n : Int} {depth : Nat} : IsJson (.int n) depth
  | float {x : Binary64} {depth : Nat} : x.isFinite = true → Json.ReadsBack x →
      IsJson (.float x) depth
  | str {s : String} {depth : Nat} : IsJson (.str s) depth
  | seq {items : List Value} {depth : Nat} : (∀ v ∈ items, v.IsJson depth) →
      IsJson (.seq items 0) (depth + 1)
  | object {members : List (String × Value)} {depth : Nat} : (members.map (·.1)).Nodup →
      (∀ m ∈ members, m.2.IsJson depth) →
      IsJson (.object members) (depth + 1)

namespace Validator

/-- The literal of a value of plain texts, and how its texts are read. -/
structure Literal.Renders (l : Literal) (depth : Nat) (v : Value) : Prop where
  made : ∀ place, Literal.ofValue place v = .ok l
  heldMade : ∀ place, Literal.ofValue place v.held = .ok l.held
  holds : ∀ n, l.Holds n ↔ (Value.int n).Inside v
  read : ∀ width t, l.text ⟨.double, width⟩ = .ok t → Json.ReadsAs depth t.toList v.held
  requoted : ∀ width t, l.text ⟨.double, width⟩ = .ok t →
    ∃ u, l.text ⟨.single, width⟩ = .ok u ∧ Requoted t.toList u.toList

variable {depth : Nat} {l : Literal} {v : Value}

/-- What is written without quote marks is written alike between whatever marks. -/
theorem Literal.renders_bare {s : Scalar} {x : Except Issue String}
    (hmade : ∀ place, Literal.ofValue place (.scalar s) = .ok l)
    (hheld : s.held = s ∧ l.held = l) (hholds : ∀ n, l.Holds n ↔ .int n = s)
    (htext : ∀ style, l.text style = x)
    (hx : ∀ t, x = .ok t → Json.ReadsAs depth t.toList (.scalar s) ∧ '"' ∉ t.toList ∧
      '\'' ∉ t.toList) : l.Renders depth (.scalar s) := by
  have hvalue : (Value.scalar s).held = .scalar s := congrArg Value.scalar hheld.1
  refine ⟨hmade, fun place => ?_, fun n => (hholds n).trans ?_, fun width t ht => ?_,
    fun width t ht => ?_⟩
  · rw [hvalue, hheld.2, hmade]
  · constructor
    · rintro rfl
      exact .whole
    · rintro ⟨⟩
      rfl
  · rw [hvalue]
    exact (hx t ((htext _).symm.trans ht)).1
  · obtain ⟨_, hdouble, hsingle⟩ := hx t ((htext _).symm.trans ht)
    exact ⟨t, (htext _).trans ((htext _).symm.trans ht), .same hdouble hsingle⟩

theorem Literal.renders_null : Literal.null.Renders depth .null := by
  refine Literal.renders_bare (fun _ => rfl) ⟨rfl, rfl⟩ (fun n => ?_) (fun _ => rfl) ?_
  · exact iff_of_false nofun nofun
  · rintro _ ⟨⟩
    exact ⟨Json.readsAs_null depth, by decide, by decide⟩

theorem Literal.renders_bool (b : Bool) : (Literal.boolean b).Renders depth (.bool b) := by
  refine Literal.renders_bare (fun _ => rfl) ⟨rfl, rfl⟩ (fun n => ?_) (fun _ => rfl) ?_
  · exact iff_of_false nofun nofun
  · rintro _ ⟨⟩
    exact ⟨Json.readsAs_bool depth b, by cases b <;> decide, by cases b <;> decide⟩

/-- A number is written as messages show it, which takes no quote marks. -/
theorem Literal.renders_number {n : Numeral}
    (hmade : ∀ place, Literal.ofValue place (.scalar n.toScalar) = .ok (.number n))
    (hread : ∀ t, (Value.scalar n.toScalar).spelled = .ok t →
      Json.ReadsAs depth t.toList (.scalar n.toScalar)) :
    (Literal.number n).Renders depth (.scalar n.toScalar) := by
  have hheld : n.toScalar.held = n.toScalar ∧ (Literal.number n).held = .number n := by
    cases n <;> exact ⟨rfl, rfl⟩
  refine Literal.renders_bare hmade hheld (fun m => ?_) (fun _ => rfl) fun t ht => ?_
  · constructor
    · intro h
      cases n with
      | int n =>
        cases h
        rfl
      | float x => cases h
    · intro h
      cases n with
      | int n =>
        cases h
        exact .here
      | float x => cases h
  · have hnumeric := numeric_spelled ht
    exact ⟨hread t ht, hnumeric.notMem (by decide), hnumeric.notMem (by decide)⟩

theorem Literal.renders_int (n : Int) : (Literal.number (.int n)).Renders depth (.int n) := by
  refine Literal.renders_number (n := .int n) (fun _ => rfl) fun t ht => ?_
  rw [Value.spelled] at ht
  split at ht
  next hdigits =>
    cases ht
    exact Json.readsAs_int depth hdigits
  next => cases ht

theorem Literal.renders_float {x : Binary64} (hx : x.isFinite = true) (hback : Json.ReadsBack x) :
    (Literal.number (.float x)).Renders depth (.float x) := by
  refine Literal.renders_number (n := .float x) (fun _ => if_pos hx) fun t ht => ?_
  cases ht
  exact Json.readsAs_float depth hx hback

theorem Literal.renders_str (s : String) : (Literal.string s).Renders depth (.str s) := by
  refine ⟨fun _ => rfl, fun _ => rfl, fun n => iff_of_false nofun ?_, fun width t ht => ?_,
    fun width t ht => ?_⟩
  · nofun
  · cases ht
    rw [Style.quote, Text.quote, String.toList_ofList]
    exact Json.readsAs_string depth s
  · cases ht
    exact ⟨_, rfl, .quote s⟩

/-! ## Collections -/

theorem Literal.ofValue_seq {vs : List Value} {ls : List Literal}
    (h : List.Forall₂ (fun v l => ∀ place, Literal.ofValue place v = .ok l) vs ls)
    (place : String) : Literal.ofValue place (.seq vs 0) = .ok (.array ls) := by
  have hitems : ∀ index, Literal.ofItems place index vs = .ok ls := by
    induction h with
    | nil => exact fun _ => rfl
    | cons hv _ ih =>
      intro index
      rw [Literal.ofItems, hv, ih]
      rfl
  rw [Literal.ofValue, hitems]
  rfl

theorem Literal.ofValue_object {ms : List (String × Value)} {ls : List (String × Literal)}
    (h : List.Forall₂ (fun m p => m.1 = p.1 ∧ ∀ place, Literal.ofValue place m.2 = .ok p.2) ms ls)
    (place : String) : Literal.ofValue place (.object ms) = .ok (.object ls) := by
  have hmembers : Literal.ofMembers place (ms.map fun m => (.str m.1, m.2)) = .ok ls := by
    induction h with
    | nil => rfl
    | @cons m p _ _ hhead _ ih =>
      obtain ⟨hkey, hmade⟩ := hhead
      obtain ⟨key, l⟩ := p
      cases hkey
      exact bind_eq_ok.mpr ⟨_, rfl, bind_eq_ok.mpr ⟨l, hmade _, bind_eq_ok.mpr ⟨_, ih, rfl⟩⟩⟩
  rw [Value.object, Literal.ofValue, hmembers]
  rfl

theorem Literal.renders_array {vs : List Value} {ls : List Literal}
    (h : List.Forall₂ (fun v l => Literal.Renders l depth v) vs ls) :
    (Literal.array ls).Renders (depth + 1) (.seq vs 0) := by
  constructor
  case made =>
    intro place
    exact Literal.ofValue_seq (h.imp fun _ _ hr => hr.made) place
  case heldMade =>
    intro place
    have hheld : List.Forall₂ (fun v l => ∀ place, Literal.ofValue place v = .ok l)
        (vs.map Value.held) (ls.map Literal.held) := List.rel_map (fun _ _ hr => hr.heldMade) h
    rw [Value.held, Value.heldItems_eq, Literal.held, Literal.heldItems_eq]
    exact Literal.ofValue_seq hheld place
  case holds =>
    intro n
    constructor
    · intro hn
      cases hn with
      | item hl hn =>
        obtain ⟨v, hv, hr⟩ := exists_left_of_forall₂ h hl
        exact .item hv ((hr.holds n).mp hn)
    · intro hn
      cases hn with
      | item hv hn =>
        obtain ⟨l, hl, hr⟩ := exists_right_of_forall₂ h hv
        exact .item hl ((hr.holds n).mpr hn)
  case read =>
    intro width t ht
    rw [Literal.text, Literal.itemTexts_eq] at ht
    obtain ⟨ts, hts, ht⟩ := bind_eq_ok.mp ht
    cases pure_eq_ok.mp ht
    have hread : List.Forall₂ (fun v t => Json.ReadsAs depth (String.toList t) v.held) vs ts :=
      forall₂_trans h (mapM_eq_ok.mp hts) fun v l t hr ht => hr.read width t ht
    have hparts : List.Forall₂ (Json.ReadsAs depth) (ts.map String.toList) (vs.map Value.held) :=
      List.forall₂_map_left_iff.mpr (List.forall₂_map_right_iff.mpr hread.flip)
    rw [Json.toList_enclosed, Value.held, Value.heldItems_eq]
    exact Json.readsAs_seq hparts
  case requoted =>
    intro width t ht
    rw [Literal.text, Literal.itemTexts_eq] at ht
    obtain ⟨ts, hts, ht⟩ := bind_eq_ok.mp ht
    cases pure_eq_ok.mp ht
    obtain ⟨us, hus, hrequoted⟩ := exists_mapM_beside (g := Literal.text ⟨.single, width⟩) hts
      fun l hl t ht =>
        (exists_left_of_forall₂ h hl).elim fun _ hr => hr.2.requoted width t ht
    refine ⟨_, ?_, Requoted.enclosed (by decide) (by decide) hrequoted⟩
    rw [Literal.text, Literal.itemTexts_eq, hus]
    rfl

section

variable {p : String × Literal} {width : Nat} {t : String}

theorem Literal.Renders.read_member (h : p.2.Renders depth v)
    (ht : (p.2.text ⟨.double, width⟩).map (Style.quote ⟨.double, width⟩ p.1 ++ ": " ++ ·) =
      .ok t) : Json.MemberAs depth t.toList (p.1, v.held) := by
  obtain ⟨inner, hinner, rfl⟩ := map_eq_ok.mp ht
  refine ⟨inner.toList, ?_, h.read width inner hinner⟩
  rw [String.toList_append, String.toList_append, Style.quote, Text.quote, String.toList_ofList,
    List.append_assoc]
  rfl

theorem Literal.Renders.requoted_member (h : p.2.Renders depth v)
    (ht : (p.2.text ⟨.double, width⟩).map (Style.quote ⟨.double, width⟩ p.1 ++ ": " ++ ·) =
      .ok t) :
    ∃ u, (p.2.text ⟨.single, width⟩).map (Style.quote ⟨.single, width⟩ p.1 ++ ": " ++ ·) = .ok u ∧
      Requoted t.toList u.toList := by
  obtain ⟨inner, hinner, rfl⟩ := map_eq_ok.mp ht
  obtain ⟨u, hu, hsame⟩ := h.requoted width inner hinner
  refine ⟨_, map_eq_ok.mpr ⟨u, hu, rfl⟩, ?_⟩
  simp only [String.toList_append]
  exact ((Requoted.quote p.1).append (.same (by decide) (by decide))).append hsame

end

theorem Literal.renders_object {ms : List (String × Value)} {ps : List (String × Literal)}
    (hnames : (ms.map (·.1)).Nodup)
    (h : List.Forall₂ (fun m p => m.1 = p.1 ∧ Literal.Renders p.2 depth m.2) ms ps) :
    (Literal.object ps).Renders (depth + 1) (.object ms) := by
  constructor
  case made =>
    intro place
    exact Literal.ofValue_object (h.imp fun _ _ hr => ⟨hr.1, hr.2.made⟩) place
  case heldMade =>
    intro place
    have hheld : List.Forall₂ (fun m p => m.1 = p.1 ∧ ∀ place, Literal.ofValue place m.2 = .ok p.2)
        (ms.map fun m => (Text.ofPlain m.1, m.2.held))
        (ps.map fun p => (Text.ofPlain p.1, p.2.held)) :=
      List.rel_map (fun _ _ hr => ⟨congrArg Text.ofPlain hr.1, hr.2.heldMade⟩) h
    rw [Value.held_object, Literal.held, Literal.heldMembers_eq]
    exact Literal.ofValue_object hheld place
  case holds =>
    intro n
    constructor
    · intro hn
      cases hn with
      | member hp hn =>
        obtain ⟨m, hm, hr⟩ := exists_left_of_forall₂ h hp
        exact .member (List.mem_map.mpr ⟨m, hm, rfl⟩) ((hr.2.holds n).mp hn)
    · intro hn
      cases hn with
      | member hm hn =>
        obtain ⟨m, hmem, rfl⟩ := List.mem_map.mp hm
        obtain ⟨p, hp, hr⟩ := exists_right_of_forall₂ h hmem
        exact .member hp ((hr.2.holds n).mpr hn)
  case read =>
    intro width t ht
    rw [Literal.text, Literal.memberTexts_eq] at ht
    obtain ⟨ts, hts, ht⟩ := bind_eq_ok.mp ht
    cases pure_eq_ok.mp ht
    have hread : List.Forall₂ (fun m t => Json.MemberAs depth (String.toList t) (m.1, m.2.held))
        ms ts := forall₂_trans h (mapM_eq_ok.mp hts) fun m p t hr ht =>
      hr.1 ▸ hr.2.read_member ht
    have hheldNames : ((ms.map fun m => (m.1, m.2.held)).map (·.1)).Nodup := by
      rwa [List.map_map]
    have hparts : List.Forall₂ (Json.MemberAs depth) (ts.map String.toList)
        (ms.map fun m => (m.1, m.2.held)) :=
      List.forall₂_map_left_iff.mpr (List.forall₂_map_right_iff.mpr hread.flip)
    have hmap := Json.readsAs_map hheldNames hparts
    rw [List.map_map] at hmap
    rw [Json.toList_enclosed, Value.held_object, Value.object, List.map_map]
    exact hmap
  case requoted =>
    intro width t ht
    rw [Literal.text, Literal.memberTexts_eq] at ht
    obtain ⟨ts, hts, ht⟩ := bind_eq_ok.mp ht
    cases pure_eq_ok.mp ht
    obtain ⟨us, hus, hrequoted⟩ := exists_mapM_beside hts fun p hp t ht =>
      (exists_left_of_forall₂ h hp).elim fun _ hr => hr.2.2.requoted_member ht
    refine ⟨_, ?_, Requoted.enclosed (by decide) (by decide) hrequoted⟩
    rw [Literal.text, Literal.memberTexts_eq, hus]
    rfl

/-! ## Reading back -/

/-- A given default has a literal, which is written unless a whole number is too long for it. What
is written between the marks of JSON, its characters taken in some way, is read as a value, and only
its string literals look different between apostrophes. -/
structure Literal.Survives (l : Literal) (taken : String → Option String) (depth : Nat)
    (given found : Value) : Prop where
  made : ∀ place, Literal.ofValue place given = .ok l
  written : ∀ style, (∃ t, l.text style = .ok t) ↔
    ∀ n, (Value.int n).Inside given → Text.hasDigits n = true
  readBack : ∀ width t, l.text ⟨.double, width⟩ = .ok t → ∃ u p q,
    l.text ⟨.single, width⟩ = .ok u ∧ taken t = some p ∧ taken u = some q ∧
    Json.readWithin depth p = .ok found ∧ Requoted p.toList q.toList

theorem Literal.Renders.wellFormed (h : l.Renders depth v) : l.WellFormed :=
  Literal.wellFormed_ofValue "" v l (h.made "")

theorem Literal.Renders.survives (h : l.Renders depth v) : l.Survives some depth v v.held := by
  refine ⟨h.made, fun style => ?_, fun width t ht => ?_⟩
  · simp only [Literal.exists_text_iff h.wellFormed, h.holds]
  · obtain ⟨u, hu, hsame⟩ := h.requoted width t ht
    exact ⟨u, t, u, hu, rfl, rfl, (h.read width t ht).readWithin, hsame⟩

/-- What is written for a value that holds its texts is what is written for the texts, held. -/
theorem Literal.Renders.held_survives (h : l.Renders depth v)
    (hheld : l.held.Renders depth v.held) :
    l.held.Survives Text.plain? depth v.held v.held := by
  refine ⟨h.heldMade, hheld.survives.written, fun width t ht => ?_⟩
  have hdouble := Literal.text_held h.wellFormed .double width
  have hsingle := Literal.text_held h.wellFormed .single width
  obtain ⟨p, hp, rfl⟩ := map_eq_ok.mp (hdouble.symm.trans ht)
  obtain ⟨q, hq, hsame⟩ := h.requoted width p hp
  have hu := hsingle.trans (map_eq_ok.mpr ⟨q, hq, rfl⟩)
  exact ⟨_, p, q, hu, Text.plain?_ofPlain p, Text.plain?_ofPlain q,
    (h.read width p hp).readWithin, hsame⟩

end Validator

open Validator

variable {depth : Nat} {v : Value}

theorem Value.IsJson.renders (h : v.IsJson depth) : ∃ l : Literal, l.Renders depth v := by
  induction h with
  | null => exact ⟨_, Literal.renders_null⟩
  | bool => exact ⟨_, Literal.renders_bool _⟩
  | int => exact ⟨_, Literal.renders_int _⟩
  | float hx hback => exact ⟨_, Literal.renders_float hx hback⟩
  | str => exact ⟨_, Literal.renders_str _⟩
  | seq _ ih =>
    obtain ⟨ls, hls⟩ := exists_forall₂.mpr ih
    exact ⟨.array ls, Literal.renders_array hls⟩
  | @object ms _ hnames _ ih =>
    have hall : ∀ m ∈ ms, ∃ p : String × Literal, m.1 = p.1 ∧ p.2.Renders _ m.2 := fun m hm =>
      (ih m hm).elim fun l hl => ⟨(m.1, l), rfl, hl⟩
    obtain ⟨ps, hps⟩ := exists_forall₂.mpr hall
    exact ⟨.object ps, Literal.renders_object hnames hps⟩

theorem Value.IsJson.held (h : v.IsJson depth) : v.held.IsJson depth := by
  induction h with
  | null => exact .null
  | bool => exact .bool
  | int => exact .int
  | float hx hback => exact .float hx hback
  | str => exact .str
  | seq _ ih =>
    rw [Value.held, Value.heldItems_eq]
    exact .seq (List.forall_mem_map.mpr ih)
  | @object ms _ hnames _ ih =>
    rw [Value.held_object]
    refine .object ?_ (List.forall_mem_map.mpr ih)
    have hheld := hnames.map (f := Text.ofPlain) fun s t => Text.ofPlain_inj
    rwa [List.map_map] at hheld ⊢

/-- Defaults survive translation and rendering. A document holds the texts of a value, and what is
written for it is a text of characters whose value the document's is; taken character by character,
a text that holds halves survives as well. With `Json.maxDepth` the reading is that of `Json.read`. -/
theorem Value.default_survives (h : v.IsJson depth) :
    (∃ l : Literal, l.Survives Text.plain? depth v.held v.held) ∧
    ∃ l : Literal, l.Survives some depth v v.held := by
  obtain ⟨l, hl⟩ := h.renders
  obtain ⟨l', hl'⟩ := h.held.renders
  obtain rfl : l' = l.held := Except.ok.inj ((hl'.made "").symm.trans (hl.heldMade ""))
  exact ⟨⟨_, hl.held_survives hl'⟩, l, hl.survives⟩

/-- A list of each kind of number, a truth value and a text, and nothing under a key with a mark. -/
def sampleDefault : Value :=
  .object [("a", .seq [.int 1, .float (.ofRatio false 1 2), .bool true, .str "it's"] 0),
    ("b\"", .null)]

theorem Value.default_survives_sample : sampleDefault.IsJson 2 ∧
    (∃ l : Literal, l.Survives Text.plain? 2 sampleDefault.held sampleDefault.held) ∧
    ∃ l : Literal, l.Survives some 2 sampleDefault sampleDefault.held := by
  have hhalf : (Value.float (.ofRatio false 1 2)).IsJson 0 := .float rfl rfl
  have hjson : sampleDefault.IsJson 2 := by
    refine .object (by decide) ?_
    simp only [List.forall_mem_cons, List.not_mem_nil, false_implies, implies_true, and_true]
    refine ⟨.seq ?_, .null⟩
    simp only [List.forall_mem_cons, List.not_mem_nil, false_implies, implies_true, and_true]
    exact ⟨.int, hhalf, .bool, .str⟩
  exact ⟨hjson, Value.default_survives hjson⟩

example : ((Literal.ofValue "" sampleDefault).bind (Literal.text ⟨.single, 2⟩)).toOption =
    some "\x7b'a': [1, 0.5, true, 'it\\'s'], 'b\"': null\x7d" := by
  decide +kernel

/-- The least whole number of too many digits has a literal that cannot be written. -/
theorem Value.default_survives_fails :
    (Value.int (Nat.pow 10 Text.maxDigits)).IsJson 0 ∧
    ∃ l : Literal, (∀ place, Literal.ofValue place (.int (Nat.pow 10 Text.maxDigits)) = .ok l) ∧
      ∀ style, ¬∃ t, l.text style = .ok t := by
  refine ⟨.int, _, fun _ => rfl, fun style ht => ?_⟩
  have hwell : (Literal.number (.int (Nat.pow 10 Text.maxDigits))).WellFormed := .number rfl
  have hdigits := (Literal.exists_text_iff hwell style).mp ht _ .here
  have hno : Text.hasDigits (Nat.pow 10 Text.maxDigits) = false :=
    decide_eq_false (by rw [Int.natAbs_natCast]; exact lt_irrefl _)
  rw [hno] at hdigits
  cases hdigits

end ApiContract

import ApiContract.Json.Reader
import ApiContract.Proofs.Printing

/-!
Quoted texts as string literals. `Script` reads a literal by the rules of ECMAScript, in strict code
and with all its escapes, up to the mark that closes it; a quoted text is such a literal, and what
is read from it is the text. Literals hold code units, two for a character beyond the first plane.
-/

namespace ApiContract

namespace Script

/-! ## Reading a string literal -/

/-- The code units that a code point takes. -/
def units (n : Nat) : List Nat :=
  if n < 0x10000 then [n]
  else [0xD800 + (n - 0x10000) / 0x400, 0xDC00 + (n - 0x10000) % 0x400]

def utf16 (cs : List Char) : List Nat := cs.flatMap fun c => units c.toNat

/-- The characters that end a line. -/
def isLineEnd (c : Char) : Bool := c == '\n' || c == '\r' || c == '\u2028' || c == '\u2029'

/-- The letters that stand for a control character behind a backslash. -/
def letterEscape? : Char → Option Nat
  | 'b' => some 8
  | 't' => some 9
  | 'n' => some 10
  | 'v' => some 11
  | 'f' => some 12
  | 'r' => some 13
  | _ => none

/-- The number that the first characters of a text write in hexadecimal digits. -/
def hexPrefix? (width : Nat) (cs : List Char) : Option Nat :=
  if width ≤ cs.length then Json.hexNumber? (cs.take width) else none

/-- What stands behind `\u`: four digits, or any number of them in braces. -/
def codeEscape? : List Char → Option (List Nat × Nat)
  | '\x7b' :: cs =>
    let digits := cs.takeWhile (· != '\x7d')
    if digits.isEmpty || digits.length = cs.length then none
    else do
      let n ← Json.hexNumber? digits
      if n ≤ 0x10FFFF then some (units n, digits.length + 3) else none
  | cs => (hexPrefix? 4 cs).map fun n => ([n], 5)

/-- The code units of the escape behind a backslash, and the number of its characters. A line end
goes on with the literal in the next line; a digit other than a zero on its own is no escape. -/
def escapeUnits? : List Char → Option (List Nat × Nat)
  | [] => none
  | c :: cs =>
    if c = 'u' then codeEscape? cs
    else if c = 'x' then (hexPrefix? 2 cs).map fun n => ([n], 3)
    else if isLineEnd c then some ([], if c = '\r' && cs.head? == some '\n' then 2 else 1)
    else if c.isDigit then
      if c = '0' && !cs.head?.any Char.isDigit then some ([0], 1) else none
    else
      match letterEscape? c with
      | some n => some ([n], 1)
      | none => some (units c.toNat, 1)

/-- The code units up to the mark that closes a literal, and what follows it; the first characters
belong to an escape that was read. -/
def closed? (mark : Char) : Nat → List Char → Option (List Nat × List Char)
  | _, [] => none
  | skip + 1, _ :: cs => closed? mark skip cs
  | 0, c :: cs =>
    if c = mark then some ([], cs)
    else if c = '\\' then do
      let (ns, used) ← escapeUnits? cs
      let (rest, tail) ← closed? mark used cs
      return (ns ++ rest, tail)
    else if c = '\n' || c = '\r' then none
    else do
      let (rest, tail) ← closed? mark 0 cs
      return (units c.toNat ++ rest, tail)

/-- The code units of the literal at the start of a text, and what follows it. -/
def literal? : List Char → Option (List Nat × List Char)
  | '"' :: cs => closed? '"' 0 cs
  | '\'' :: cs => closed? '\'' 0 cs
  | _ => none

/-- The text that a literal is read as, if nothing follows it. -/
def value? (text : String) : Option String :=
  match literal? text.toList with
  | some (ns, []) => some (String.ofList ((Text.joinHalves ns).map Char.ofNat))
  | _ => none

/-- What may stand between two marks: no bare mark, no line end, and behind each backslash one more
character that belongs to it. -/
inductive Enclosed (mark : Char) : List Char → Prop
  | nil : Enclosed mark []
  | plain {c : Char} {cs : List Char} : c ≠ mark → c ≠ '\\' → c ≠ '\n' → c ≠ '\r' →
      Enclosed mark cs → Enclosed mark (c :: cs)
  | escaped {c : Char} {cs : List Char} : c ≠ '\n' → c ≠ '\r' →
      Enclosed mark cs → Enclosed mark ('\\' :: c :: cs)

/-- A text is a string literal between two marks and stands for a value. -/
structure LiteralOf (mark : Char) (value text : String) : Prop where
  enclosed : ∃ body, text.toList = mark :: (body ++ [mark]) ∧ Enclosed mark body
  oneLine : '\n' ∉ text.toList ∧ '\r' ∉ text.toList
  read : ∀ rest, literal? (text.toList ++ rest) = some (utf16 value.toList, rest)
  value : value? text = some value

/-! ## Code units -/

theorem joinHalves_cons {n : Nat} (h : Text.isHighHalf n = false) (ns : List Nat) :
    Text.joinHalves (n :: ns) = n :: Text.joinHalves ns := by
  cases ns with
  | nil => rfl
  | cons m ns => rw [Text.joinHalves, h, Bool.false_and, if_neg Bool.false_ne_true]

/-- A code point is put together from its units, whatever follows. -/
theorem joinHalves_units {n : Nat} (h : n.isValidChar) (ns : List Nat) :
    Text.joinHalves (units n ++ ns) = n :: Text.joinHalves ns := by
  have hvalid : n < 0xD800 ∨ 0xDFFF < n ∧ n < 0x110000 := h
  rw [units]
  split
  next hlow =>
    refine joinHalves_cons ?_ ns
    simp only [Text.isHighHalf, Bool.and_eq_false_iff, decide_eq_false_iff_not]
    omega
  next hhigh =>
    have hhalves : (Text.isHighHalf (0xD800 + (n - 0x10000) / 0x400) &&
        Text.isLowHalf (0xDC00 + (n - 0x10000) % 0x400)) = true := by
      simp only [Text.isHighHalf, Text.isLowHalf, Bool.and_eq_true, decide_eq_true_eq]
      omega
    have hjoined : 0x10000 + (0xD800 + (n - 0x10000) / 0x400 - 0xD800) * 0x400 +
        (0xDC00 + (n - 0x10000) % 0x400 - 0xDC00) = n := by omega
    rw [List.cons_append, List.cons_append, List.nil_append, Text.joinHalves, if_pos hhalves,
      hjoined]

theorem isValidChar_toNat (c : Char) : c.toNat.isValidChar := c.valid

theorem joinHalves_utf16 (cs : List Char) : Text.joinHalves (utf16 cs) = cs.map Char.toNat := by
  induction cs with
  | nil => rfl
  | cons c cs ih =>
    rw [utf16, List.flatMap_cons, joinHalves_units (isValidChar_toNat c), ← utf16, ih]
    rfl

end Script

namespace Text

/-! ## How one character is escaped -/

/-- The control characters that have a short escape, each with its letter. -/
def letters : List (Char × Char) :=
  [('\x08', 'b'), ('\t', 't'), ('\n', 'n'), ('\x0c', 'f'), ('\r', 'r')]

/-- The ways in which a character stands between two marks. -/
inductive Escaped (mark : QuoteMark) (c : Char) : List Char → Prop
  | itself : c = mark.guarded ∨ c = '\\' → Escaped mark c ['\\', c]
  | letter {e : Char} : (c, e) ∈ letters → Escaped mark c ['\\', e]
  | code : c.toNat < 32 → Escaped mark c (unicodeEscape c.toNat)
  | plain : c ≠ mark.guarded → c ≠ '\\' → 32 ≤ c.toNat → Escaped mark c [c]

theorem escaped_escape (mark : QuoteMark) (c : Char) : Escaped mark c (escape mark c) := by
  rw [escape]
  by_cases hguarded : c = mark.guarded
  · rw [if_pos hguarded]
    exact .itself (.inl hguarded)
  · rw [if_neg hguarded]
    fun_cases shortEscape? c with
    | case1 => exact .itself (.inr rfl)
    | case7 c hbackslash =>
      by_cases hcontrol : c.toNat < 32
      · simp only [if_pos hcontrol]
        exact .code hcontrol
      · simp only [if_neg hcontrol]
        exact .plain hguarded hbackslash (Nat.le_of_not_lt hcontrol)
    | _ => exact .letter (by decide)

theorem guarded_cases (mark : QuoteMark) : mark.guarded = '\'' ∨ mark.guarded = '"' := by
  cases mark <;> simp [QuoteMark.guarded]

/-! ## Hexadecimal digits -/

theorem hexValue?_hexDigit (n : Nat) : Json.hexValue? (hexDigit n) = some (n % 16) := by
  have hdigit : ∀ k < 16, Json.hexValue? (Nat.digitChar k) = some k := by decide
  exact hdigit _ (Nat.mod_lt n (by decide))

theorem length_hexDigits (width n : Nat) : (hexDigits width n).length = width := by
  induction width generalizing n with
  | zero => rfl
  | succ width ih => rw [hexDigits, List.length_append, ih, List.length_singleton]

theorem mem_hexDigits {width n : Nat} {d : Char} (h : d ∈ hexDigits width n) :
    ∃ k < 16, d = Nat.digitChar k := by
  induction width generalizing n with
  | zero => cases h
  | succ width ih =>
    rw [hexDigits, List.mem_append, List.mem_singleton] at h
    rcases h with h | rfl
    · exact ih h
    · exact ⟨n % 16, Nat.mod_lt n (by decide), rfl⟩

theorem hexNumber?_hexDigits (width n : Nat) :
    Json.hexNumber? (hexDigits width n) = some (n % Nat.pow 16 width) := by
  induction width generalizing n with
  | zero => simp [hexDigits, Json.hexNumber?, Nat.mod_one]
  | succ width ih =>
    have hsplit : n % Nat.pow 16 (width + 1) = 16 * (n / 16 % Nat.pow 16 width) + n % 16 := by
      have hpow : Nat.pow 16 (width + 1) = 16 * Nat.pow 16 width := Nat.pow_succ'
      rw [hpow, Nat.mod_mul]
      omega
    rw [hexDigits, Json.hexNumber?, List.foldlM_append, ← Json.hexNumber?, ih, hsplit]
    simp [hexValue?_hexDigit]

/-- The characters of escapes, hexadecimal digits apart. -/
def escapeLetters : List Char := ['\\', 'u', 'b', 't', 'n', 'f', 'r']

/-- A character that no escape is made of is only there if it is the one that is escaped. -/
theorem Escaped.notMem {mark : QuoteMark} {c d : Char} {text : List Char}
    (h : Escaped mark c text) (hletter : d ∉ escapeLetters)
    (hdigit : ∀ k < 16, Nat.digitChar k ≠ d) (hne : d ≠ c) : d ∉ text := by
  simp only [escapeLetters, List.mem_cons, List.not_mem_nil, or_false, not_or] at hletter
  obtain ⟨hbackslash, hu, hb, ht, hn, hf, hr⟩ := hletter
  cases h with
  | itself => simp [hbackslash, hne]
  | letter he =>
    simp only [letters, List.mem_cons, Prod.mk.injEq, List.not_mem_nil, or_false] at he
    rcases he with ⟨_, rfl⟩ | ⟨_, rfl⟩ | ⟨_, rfl⟩ | ⟨_, rfl⟩ | ⟨_, rfl⟩ <;>
      simp [hbackslash, hb, ht, hn, hf, hr]
  | code =>
    rw [unicodeEscape, List.mem_cons, List.mem_cons, not_or, not_or]
    refine ⟨hbackslash, hu, fun hmem => ?_⟩
    obtain ⟨k, hk, heq⟩ := mem_hexDigits hmem
    exact hdigit k hk heq.symm
  | plain => simpa using hne

end Text

namespace Script

variable {mark : Text.QuoteMark} {c : Char} {cs rest text : List Char}

/-! ## What is read between two marks -/

theorem hexPrefix?_hexDigits (width n : Nat) (rest : List Char) :
    hexPrefix? width (Text.hexDigits width n ++ rest) = some (n % Nat.pow 16 width) := by
  have hlength := Text.length_hexDigits width n
  rw [hexPrefix?, if_pos (by rw [List.length_append, hlength]; omega),
    List.take_left' hlength, Text.hexNumber?_hexDigits]

theorem units_of_ascii {n : Nat} (h : n < 128) : units n = [n] := by
  rw [units, if_pos (by omega)]

/-- A step over a character that stands for itself. -/
theorem closed?_plain {m : Char} (hmark : c ≠ m) (hbackslash : c ≠ '\\') (hfeed : c ≠ '\n')
    (hreturn : c ≠ '\r') (rest : List Char) :
    closed? m 0 (c :: rest) = (closed? m 0 rest).map fun r => (units c.toNat ++ r.1, r.2) := by
  rw [closed?, if_neg hmark, if_neg hbackslash, if_neg (by simp [hfeed, hreturn])]
  cases closed? m 0 rest <;> rfl

/-- A step over an escape. -/
theorem closed?_escape {m : Char} (hmark : m ≠ '\\') (text : List Char) {ns : List Nat}
    (h : escapeUnits? (text ++ rest) = some (ns, text.length)) :
    closed? m 0 ('\\' :: (text ++ rest)) =
      (closed? m 0 rest).map fun r => (ns ++ r.1, r.2) := by
  have hskip : ∀ ds : List Char, closed? m ds.length (ds ++ rest) = closed? m 0 rest := by
    intro ds
    induction ds with
    | nil => rfl
    | cons d ds ih => rw [List.cons_append, List.length_cons, closed?, ih]
  rw [closed?, if_neg hmark.symm, if_pos rfl, h]
  change (closed? m text.length (text ++ rest)).bind _ = _
  rw [hskip text]
  cases closed? m 0 rest <;> rfl

theorem escapeUnits?_unicodeEscape {n : Nat} (h : n < 0x10000) (rest : List Char) :
    escapeUnits? ('u' :: Text.hexDigits 4 n ++ rest) = some ([n], 5) := by
  have hbrace : ∀ k, Text.hexDigit k ≠ '\x7b' := by
    have hdigit : ∀ k < 16, Nat.digitChar k ≠ '\x7b' := by decide
    exact fun k => hdigit _ (Nat.mod_lt k (by decide))
  have hcode : codeEscape? (Text.hexDigits 4 n ++ rest) =
      (hexPrefix? 4 (Text.hexDigits 4 n ++ rest)).map fun n => ([n], 5) := by
    refine codeEscape?.eq_2 _ ?_
    intro cs hcs
    simp only [Text.hexDigits, List.nil_append, List.cons_append] at hcs
    exact hbrace _ (List.cons.inj hcs).1
  rw [List.cons_append, escapeUnits?, if_pos rfl, hcode, hexPrefix?_hexDigits,
    Nat.mod_eq_of_lt (by simpa using h)]
  rfl

/-- An escaped character is read as itself, whatever follows it. -/
theorem closed?_escaped (h : Text.Escaped mark c text) (rest : List Char) :
    closed? mark.guarded 0 (text ++ rest) =
      (closed? mark.guarded 0 rest).map fun r => (units c.toNat ++ r.1, r.2) := by
  have hmark : mark.guarded ≠ '\\' := by
    rcases Text.guarded_cases mark with hm | hm <;> rw [hm] <;> decide
  cases h with
  | itself hc =>
    have hc : c = '\'' ∨ c = '"' ∨ c = '\\' := by
      rcases hc with rfl | rfl
      · exact (Text.guarded_cases mark).imp_right .inl
      · exact .inr (.inr rfl)
    refine closed?_escape hmark [c] ?_
    rcases hc with rfl | rfl | rfl <;> rfl
  | @letter e he =>
    refine closed?_escape hmark [e] ?_
    simp only [Text.letters, List.mem_cons, Prod.mk.injEq, List.not_mem_nil, or_false] at he
    rcases he with ⟨rfl, rfl⟩ | ⟨rfl, rfl⟩ | ⟨rfl, rfl⟩ | ⟨rfl, rfl⟩ | ⟨rfl, rfl⟩ <;> rfl
  | code hc =>
    refine closed?_escape hmark ('u' :: Text.hexDigits 4 c.toNat) ?_
    rw [escapeUnits?_unicodeEscape (by omega), units_of_ascii (by omega), List.length_cons,
      Text.length_hexDigits]
  | plain hguarded hbackslash hc =>
    refine closed?_plain hguarded hbackslash ?_ ?_ rest
    · rintro rfl
      simp at hc
    · rintro rfl
      simp at hc

theorem Enclosed.append {m : Char}
    (h : ∀ c ∈ cs, c ≠ m ∧ c ≠ '\\' ∧ c ≠ '\n' ∧ c ≠ '\r') (hrest : Enclosed m rest) :
    Enclosed m (cs ++ rest) := by
  induction cs with
  | nil => exact hrest
  | cons c cs ih =>
    obtain ⟨⟨hmark, hbackslash, hfeed, hreturn⟩, hcs⟩ := List.forall_mem_cons.mp h
    exact .plain hmark hbackslash hfeed hreturn (ih hcs)

theorem enclosed_escaped (h : Text.Escaped mark c text) (hrest : Enclosed mark.guarded rest) :
    Enclosed mark.guarded (text ++ rest) := by
  have hguarded := Text.guarded_cases mark
  cases h with
  | itself hc =>
    have hne : c ≠ '\n' ∧ c ≠ '\r' := by
      rcases hc with rfl | rfl
      · rcases hguarded with hm | hm <;> rw [hm] <;> decide
      · decide
    exact .escaped hne.1 hne.2 hrest
  | letter he =>
    simp only [Text.letters, List.mem_cons, Prod.mk.injEq, List.not_mem_nil, or_false] at he
    rcases he with ⟨rfl, rfl⟩ | ⟨rfl, rfl⟩ | ⟨rfl, rfl⟩ | ⟨rfl, rfl⟩ | ⟨rfl, rfl⟩ <;>
      exact .escaped (by decide) (by decide) hrest
  | code hc =>
    have hdigit : ∀ k < 16, (Nat.digitChar k ≠ '\'' ∧ Nat.digitChar k ≠ '"') ∧
        Nat.digitChar k ≠ '\\' ∧ Nat.digitChar k ≠ '\n' ∧ Nat.digitChar k ≠ '\r' := by decide
    refine .escaped (by decide) (by decide) (Enclosed.append (fun d hd => ?_) hrest)
    obtain ⟨k, hk, rfl⟩ := Text.mem_hexDigits hd
    obtain ⟨⟨hsingle, hdouble⟩, hother⟩ := hdigit k hk
    refine ⟨?_, hother⟩
    rcases hguarded with hm | hm <;> rw [hm]
    · exact hsingle
    · exact hdouble
  | plain hmark hbackslash hc =>
    refine .plain hmark hbackslash ?_ ?_ hrest
    · rintro rfl
      simp at hc
    · rintro rfl
      simp at hc

/-! ## Quoted texts -/

theorem closed?_body (mark : Text.QuoteMark) (cs rest : List Char) :
    closed? mark.guarded 0 (cs.flatMap (Text.escape mark) ++ mark.guarded :: rest) =
      some (utf16 cs, rest) := by
  induction cs with
  | nil => rw [List.flatMap_nil, List.nil_append, closed?, if_pos rfl]; rfl
  | cons c cs ih =>
    rw [List.flatMap_cons, List.append_assoc, closed?_escaped (Text.escaped_escape mark c), ih]
    rfl

theorem enclosed_body (mark : Text.QuoteMark) (cs : List Char) :
    Enclosed mark.guarded (cs.flatMap (Text.escape mark)) := by
  induction cs with
  | nil => exact .nil
  | cons c cs ih => exact enclosed_escaped (Text.escaped_escape mark c) ih

theorem Enclosed.oneLine {m : Char} (h : Enclosed m cs) : '\n' ∉ cs ∧ '\r' ∉ cs := by
  induction h with
  | nil => simp
  | plain _ _ hfeed hreturn _ ih => simp [hfeed.symm, hreturn.symm, ih]
  | escaped hfeed hreturn _ ih => simp [hfeed.symm, hreturn.symm, ih]

theorem toList_quote (style : QuoteStyle) (t : String) : (Text.quote style.mark t).toList =
    style.mark.guarded :: (t.toList.flatMap (Text.escape style.mark) ++ [style.mark.guarded]) := by
  cases style <;> simp [Text.quote, Text.quoteChars, QuoteStyle.mark, Text.QuoteMark.chars,
    Text.QuoteMark.guarded]

theorem head_quote (style : QuoteStyle) (t : String) :
    (Text.quote style.mark t).toList.head? = some style.mark.guarded := by
  rw [toList_quote]
  rfl

theorem literalOf_quote (style : QuoteStyle) (t : String) :
    LiteralOf style.mark.guarded t (Text.quote style.mark t) := by
  have htext := toList_quote style t
  have hbody := enclosed_body style.mark t.toList
  have hread : ∀ rest, literal? ((Text.quote style.mark t).toList ++ rest) =
      some (utf16 t.toList, rest) := by
    intro rest
    rw [htext, List.cons_append, List.append_assoc]
    have hclosed := closed?_body style.mark t.toList rest
    cases style <;> exact hclosed
  have hmark : style.mark.guarded ≠ '\n' ∧ style.mark.guarded ≠ '\r' := by cases style <;> decide
  refine ⟨⟨_, htext, hbody⟩, ?_, hread, ?_⟩
  · rw [htext]
    obtain ⟨hfeed, hreturn⟩ := hbody.oneLine
    generalize t.toList.flatMap (Text.escape style.mark) = body at hfeed hreturn
    simp [hfeed, hreturn, hmark.1.symm, hmark.2.symm]
  · have hwhole := hread []
    rw [List.append_nil] at hwhole
    rw [value?, hwhole]
    simp only [joinHalves_utf16, Text.map_ofNat_toNat, String.ofList_toList]

end Script

namespace Text

/-! ## Held texts -/

theorem ofPlain_toList (s : String) : (ofPlain s).toList = s.toList.flatMap fun c => held c.toNat := by
  rw [ofPlain, ofPoints, String.toList_ofList, List.flatMap_map]

theorem isHalf_toNat (c : Char) : isHalf c.toNat = false := by
  simpa using any_isHalf_map_toNat [c]

theorem held_toNat {c : Char} (h : c ≠ heldMark) : held c.toNat = [c] := by
  have hhalf := isHalf_toNat c
  have hne : c.toNat ≠ heldMark.toNat := fun heq => h (Char.toNat_inj.mp heq)
  rw [held, hhalf, if_neg Bool.false_ne_true, if_neg hne, Char.ofNat_toNat]

/-- A text without the mark for halves holds itself. -/
theorem flatMap_held {cs : List Char} (h : heldMark ∉ cs) :
    cs.flatMap (fun c => held c.toNat) = cs := by
  induction cs with
  | nil => rfl
  | cons c cs ih =>
    rw [List.mem_cons, not_or] at h
    rw [List.flatMap_cons, held_toNat (Ne.symm h.1), ih h.2]
    rfl

theorem plain?_ofPlain (s : String) : plain? (ofPlain s) = some s := by
  have hpoints : points (ofPlain s).toList = s.toList.map Char.toNat := by
    refine points_ofPoints fun n hn => ?_
    obtain ⟨c, _, rfl⟩ := List.mem_map.mp hn
    exact .inr (Script.isValidChar_toNat c)
  rw [plain?, hpoints, any_isHalf_map_toNat, if_neg Bool.false_ne_true, map_ofNat_toNat,
    String.ofList_toList]

theorem ofPlain_inj {s t : String} (h : ofPlain s = ofPlain t) : s = t :=
  Option.some.inj (by rw [← plain?_ofPlain s, h, plain?_ofPlain])

/-- Quoting a held text holds the quoted text: what holds a half is never escaped. -/
theorem quote_ofPlain (style : QuoteStyle) (s : String) :
    quote style.mark (ofPlain s) = ofPlain (quote style.mark s) := by
  have hchar : ∀ c : Char, (held c.toNat).flatMap (escape style.mark) =
      (escape style.mark c).flatMap fun d => held d.toNat := by
    intro c
    by_cases hc : c = heldMark
    · subst hc
      cases style <;> decide
    · have hnone : heldMark ∉ escape style.mark c :=
        (escaped_escape style.mark c).notMem (by decide) (by decide) (Ne.symm hc)
      rw [held_toNat hc, flatMap_held hnone]
      simp
  have hmark : heldMark ∉ style.mark.chars := by cases style <;> decide
  rw [← String.toList_inj, ofPlain_toList, quote, quote, String.toList_ofList, String.toList_ofList,
    quoteChars, quoteChars, ofPlain_toList, List.flatMap_append, List.flatMap_append,
    flatMap_held hmark, List.flatMap_assoc, List.flatMap_assoc]
  simp only [hchar]

end Text

/-! ## The single-quoted form -/

namespace Text

/-- A text with each occurrence of a pattern replaced, from the left; the first characters belong to
an occurrence that was replaced. -/
def replaced (pattern new : List Char) : Nat → List Char → List Char
  | _, [] => []
  | skip + 1, _ :: cs => replaced pattern new skip cs
  | 0, c :: cs =>
    if pattern.isPrefixOf (c :: cs) then new ++ replaced pattern new (pattern.length - 1) cs
    else c :: replaced pattern new 0 cs

theorem replaced_one (c : Char) (new cs : List Char) :
    replaced [c] new 0 cs = cs.flatMap fun d => if d = c then new else [d] := by
  induction cs with
  | nil => rfl
  | cons d cs ih =>
    rw [List.flatMap_cons, ← ih, replaced]
    by_cases hd : d = c
    · simp [hd]
    · simp [hd, Ne.symm hd]

section

/-- The escaped mark of JSON. -/
def escapedQuote : List Char := ['\\', '"']

variable {c : Char} {cs ds : List Char}

theorem replaced_append (ds : List Char) (h : ∀ d ∈ ds, d ≠ '\\') (new cs : List Char) :
    replaced escapedQuote new 0 (ds ++ cs) = ds ++ replaced escapedQuote new 0 cs := by
  induction ds with
  | nil => rfl
  | cons d ds ih =>
    obtain ⟨hd, hds⟩ := List.forall_mem_cons.mp h
    rw [List.cons_append, replaced, if_neg (by simp [escapedQuote, hd.symm]), ih hds]
    rfl

theorem replaced_backslash (h : cs.head? ≠ some '"') (new : List Char) :
    replaced escapedQuote new 0 ('\\' :: cs) = '\\' :: replaced escapedQuote new 0 cs := by
  have hprefix : escapedQuote.isPrefixOf ('\\' :: cs) = false := by
    cases cs with
    | nil => rfl
    | cons c cs =>
      have hc : c ≠ '"' := by simpa using h
      simp [escapedQuote, List.isPrefixOf, hc.symm]
  rw [replaced, hprefix, if_neg Bool.false_ne_true]

/-- The escape of a character in JSON, its mark left bare. -/
def bareEscape (c : Char) : List Char := if c = '"' then [c] else escape .double c

/-- Escapes do not begin with a bare mark, so none stands behind a backslash that is escaped. -/
theorem head?_escape_double (cs : List Char) : (cs.flatMap (escape .double)).head? ≠ some '"' := by
  cases cs with
  | nil => simp
  | cons c cs =>
    rw [List.flatMap_cons]
    have hescaped := escaped_escape .double c
    generalize escape .double c = text at hescaped
    cases hescaped with
    | itself => simp
    | letter => simp
    | code => simp [unicodeEscape]
    | plain hmark => simpa [QuoteMark.guarded] using hmark

theorem replaced_escape (c : Char) (h : cs.head? ≠ some '"') :
    replaced escapedQuote ['"'] 0 (escape .double c ++ cs) =
      bareEscape c ++ replaced escapedQuote ['"'] 0 cs := by
  by_cases hquote : c = '"'
  · subst hquote
    rfl
  · rw [bareEscape, if_neg hquote]
    have hescaped := escaped_escape .double c
    generalize escape .double c = text at hescaped
    cases hescaped with
    | itself hc =>
      obtain rfl := hc.resolve_left hquote
      exact (replaced_backslash (by simp) _).trans (congrArg _ (replaced_backslash h _))
    | @letter e he =>
      have hletter : e ≠ '"' ∧ e ≠ '\\' := by
        simp only [letters, List.mem_cons, Prod.mk.injEq, List.not_mem_nil, or_false] at he
        rcases he with ⟨_, rfl⟩ | ⟨_, rfl⟩ | ⟨_, rfl⟩ | ⟨_, rfl⟩ | ⟨_, rfl⟩ <;> decide
      refine (replaced_backslash (by simpa using hletter.1) _).trans (congrArg _ ?_)
      exact replaced_append [e] (by simpa using hletter.2) _ cs
    | code =>
      refine (replaced_backslash (by simp) _).trans (congrArg _ ?_)
      refine replaced_append ('u' :: hexDigits 4 c.toNat) ?_ _ cs
      have hdigit : ∀ k < 16, Nat.digitChar k ≠ '\\' := by decide
      refine List.forall_mem_cons.mpr ⟨by decide, fun d hd => ?_⟩
      obtain ⟨k, hk, rfl⟩ := mem_hexDigits hd
      exact hdigit k hk
    | plain _ hbackslash => exact replaced_append [c] (by simpa using hbackslash) _ cs

theorem flatMap_of_notMem {d : Char} (h : d ∉ cs) (new : List Char) :
    cs.flatMap (fun c => if c = d then new else [c]) = cs := by
  induction cs with
  | nil => rfl
  | cons c cs ih =>
    rw [List.mem_cons, not_or] at h
    rw [List.flatMap_cons, if_neg (Ne.symm h.1), ih h.2]
    rfl

/-- With the mark bare and apostrophes escaped, an escape is one between apostrophes. -/
theorem flatMap_bareEscape (c : Char) :
    (bareEscape c).flatMap (fun d => if d = '\'' then ['\\', '\''] else [d]) =
      escape .single c := by
  by_cases hquote : c = '"'
  · subst hquote
    decide
  · by_cases hapostrophe : c = '\''
    · subst hapostrophe
      decide
    · have hsame : escape .single c = escape .double c := by
        rw [escape, escape, QuoteMark.guarded, QuoteMark.guarded, if_neg hapostrophe, if_neg hquote]
        simp
      have hnone : '\'' ∉ escape .double c :=
        (escaped_escape .double c).notMem (by decide) (by decide) (Ne.symm hapostrophe)
      rw [bareEscape, if_neg hquote, hsame, flatMap_of_notMem hnone]

/-- What stands between apostrophes is what stands between the marks of JSON, first with its escaped
marks bare and then with its apostrophes escaped, each in one pass over the whole text. -/
theorem flatMap_escape_single (cs : List Char) : cs.flatMap (escape .single) =
    replaced ['\''] ['\\', '\''] 0
      (replaced escapedQuote ['"'] 0 (cs.flatMap (escape .double))) := by
  rw [replaced_one]
  induction cs with
  | nil => rfl
  | cons c cs ih =>
    rw [List.flatMap_cons, List.flatMap_cons, replaced_escape c (head?_escape_double cs),
      List.flatMap_append, flatMap_bareEscape, ih]

end

end Text

/-! ## Faithfulness -/

/-- Two texts are the same if a literal stands for both. -/
theorem Script.LiteralOf.value_inj {mark : Char} {s t text : String} (hs : LiteralOf mark s text)
    (ht : LiteralOf mark t text) : s = t :=
  Option.some.inj (hs.value.symm.trans ht.value)

/-- A quoted text is one string literal that stands for the text, with either mark and for every
text; so no two texts are quoted alike. -/
theorem quote_faithful (style : QuoteStyle) :
    (∀ t : String, Text.plain? (Text.quote style.mark (Text.ofPlain t)) =
        some (Text.quote style.mark t) ∧
      Script.LiteralOf style.mark.guarded t (Text.quote style.mark t)) ∧
    Function.Injective (Text.quote style.mark) := by
  refine ⟨fun t => ⟨?_, Script.literalOf_quote style t⟩, fun s t h => ?_⟩
  · rw [Text.quote_ofPlain, Text.plain?_ofPlain]
  · have hs := Script.literalOf_quote style s
    rw [h] at hs
    exact hs.value_inj (Script.literalOf_quote style t)

end ApiContract

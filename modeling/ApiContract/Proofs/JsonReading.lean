import ApiContract.Proofs.RequiredMarks
import ApiContract.Proofs.StringLiterals
import ApiContract.Proofs.SummaryLine

/-!
Reading JSON text piece by piece. What is read from a piece does not depend on what stands behind
it, as long as that cannot go on with a number; so a collection is read once its members are.
-/

namespace ApiContract.Json

/-! ## Ends of values -/

/-- What may stand behind a value: nothing, a separator or a closing bracket. -/
def Ends : List Char → Prop
  | [] => True
  | c :: _ => c = ',' ∨ c = ']' ∨ c = '\x7d'

theorem Ends.head {c : Char} {rest : List Char} (h : Ends (c :: rest)) :
    c.isDigit = false ∧ c ≠ '.' ∧ c ≠ 'e' ∧ c ≠ 'E' ∧ c ≠ '+' ∧ c ≠ '-' := by
  rcases h with rfl | rfl | rfl <;> decide

theorem ends_comma (rest : List Char) : Ends (',' :: rest) := .inl rfl

theorem ends_bracket (rest : List Char) : Ends (']' :: rest) := .inr (.inl rfl)

theorem ends_brace (rest : List Char) : Ends ('\x7d' :: rest) := .inr (.inr rfl)

theorem Ends.takeWhile {rest : List Char} (h : Ends rest) : rest.takeWhile Char.isDigit = [] := by
  cases rest with
  | nil => rfl
  | cons c rest => exact List.takeWhile_cons_of_neg (by simp [h.head.1])

variable {cs rest : List Char}

theorem takeWhile_digits (h : Ends rest) :
    (cs ++ rest).takeWhile Char.isDigit = cs.takeWhile Char.isDigit :=
  Text.takeWhile_append_of_stop h.takeWhile

theorem dropWhile_digits (h : Ends rest) :
    (cs ++ rest).dropWhile Char.isDigit = cs.dropWhile Char.isDigit ++ rest := by
  induction cs with
  | nil =>
    cases rest with
    | nil => rfl
    | cons c rest => exact List.dropWhile_cons_of_neg (by simp [h.head.1])
  | cons c cs ih =>
    rw [List.cons_append]
    by_cases hc : c.isDigit = true
    · rw [List.dropWhile_cons_of_pos hc, List.dropWhile_cons_of_pos hc, ih]
    · rw [List.dropWhile_cons_of_neg hc, List.dropWhile_cons_of_neg hc, List.cons_append]

/-! ## Numbers -/

theorem fractionPart_append (h : Ends rest) :
    fractionPart (cs ++ rest) = ((fractionPart cs).1, (fractionPart cs).2 ++ rest) := by
  cases cs with
  | nil =>
    cases rest with
    | nil => rfl
    | cons c rest => simp [fractionPart, h.head.2.1]
  | cons c cs =>
    by_cases hc : c = '.'
    · subst hc
      simp only [List.cons_append, fractionPart, takeWhile_digits h, dropWhile_digits h]
      split <;> rfl
    · simp [fractionPart, hc]

/-- The sign of an exponent and what follows it. -/
def signPart (cs : List Char) : List Char × List Char :=
  match cs with
  | '+' :: r => (['+'], r)
  | '-' :: r => (['-'], r)
  | _ => ([], cs)

theorem signPart_append (h : Ends rest) :
    signPart (cs ++ rest) = ((signPart cs).1, (signPart cs).2 ++ rest) := by
  cases cs with
  | nil =>
    cases rest with
    | nil => rfl
    | cons c rest => simp [signPart, h.head]
  | cons c cs =>
    by_cases hplus : c = '+'
    · subst hplus
      rfl
    · by_cases hminus : c = '-'
      · subst hminus
        rfl
      · simp [signPart, hplus, hminus]

theorem exponentPart_cons (e : Char) (cs : List Char) : exponentPart (e :: cs) =
    if e = 'e' || e = 'E' then
      if ((signPart cs).2.takeWhile Char.isDigit).isEmpty then ([], e :: cs)
      else (e :: (signPart cs).1 ++ (signPart cs).2.takeWhile Char.isDigit,
        (signPart cs).2.dropWhile Char.isDigit)
    else ([], e :: cs) := rfl

theorem exponentPart_append (h : Ends rest) :
    exponentPart (cs ++ rest) = ((exponentPart cs).1, (exponentPart cs).2 ++ rest) := by
  cases cs with
  | nil =>
    cases rest with
    | nil => rfl
    | cons c rest => simp [exponentPart, h.head]
  | cons e cs =>
    rw [List.cons_append, exponentPart_cons, exponentPart_cons, signPart_append h]
    simp only [takeWhile_digits h, dropWhile_digits h]
    split
    · split <;> rfl
    · rfl

/-- The whole part of a number and what follows it. -/
def wholePart (cs : List Char) : List Char × List Char :=
  match cs with
  | '0' :: r => (['0'], r)
  | r => (r.takeWhile Char.isDigit, r.dropWhile Char.isDigit)

/-- The rest of a number, its whole part read already. -/
def numberBehind (negative : Bool) (whole rest : List Char) : Except Issue (Parsed Value) :=
  if whole.isEmpty then malformed
  else
    let (fraction, rest) := fractionPart rest
    let (exponent, rest) := exponentPart rest
    if fraction.isEmpty && exponent.isEmpty then
      if Text.maxDigits < whole.length then .error (.misfit .outOfRange)
      else
        let n : Int := Binary64.digitsValue whole
        .ok (.int (if negative then -n else n), rest)
    else
      (ofOption (Binary64.unsigned? negative (whole ++ fraction ++ exponent))).map (.float ·, rest)

theorem number_eq (negative : Bool) (cs : List Char) :
    number negative cs = numberBehind negative (wholePart cs).1 (wholePart cs).2 := rfl

theorem wholePart_of_head (h : cs.head? ≠ some '0') :
    wholePart cs = (cs.takeWhile Char.isDigit, cs.dropWhile Char.isDigit) := by
  cases cs with
  | nil => rfl
  | cons c cs => simp [wholePart, show c ≠ '0' by simpa using h]

theorem wholePart_append (h : Ends rest) :
    wholePart (cs ++ rest) = ((wholePart cs).1, (wholePart cs).2 ++ rest) := by
  by_cases hzero : cs.head? = some '0'
  · obtain ⟨cs, rfl⟩ := List.head?_eq_some_iff.mp hzero
    rfl
  · have happend : (cs ++ rest).head? ≠ some '0' := by
      cases cs with
      | nil =>
        cases rest with
        | nil => simp
        | cons c rest =>
          rintro ⟨⟩
          exact absurd h.head.1 (by decide)
      | cons c cs => exact hzero
    rw [wholePart_of_head hzero, wholePart_of_head happend, takeWhile_digits h, dropWhile_digits h]

theorem numberBehind_append (negative : Bool) (whole : List Char) (h : Ends rest) :
    numberBehind negative whole (cs ++ rest) =
      (numberBehind negative whole cs).map fun found => (found.1, found.2 ++ rest) := by
  unfold numberBehind
  simp only [fractionPart_append h, exponentPart_append h]
  split
  · rfl
  · split
    · split <;> rfl
    · cases Binary64.unsigned? negative _ <;> rfl

/-- A number is read the same whatever stands behind it. -/
theorem number_append (negative : Bool) (h : Ends rest) : number negative (cs ++ rest) =
    (number negative cs).map fun found => (found.1, found.2 ++ rest) := by
  rw [number_eq, number_eq, wholePart_append h, numberBehind_append negative _ h]

/-- A number begins with a digit. -/
theorem digit_of_number {negative : Bool} {found : Parsed Value}
    (h : number negative cs = .ok found) : ∃ d ds, cs = d :: ds ∧ d.isDigit = true := by
  cases cs with
  | nil => cases h
  | cons d ds =>
    refine ⟨d, ds, rfl, ?_⟩
    by_contra hd
    have hzero : d ≠ '0' := by
      rintro rfl
      exact hd (by decide)
    have hwhole : (wholePart (d :: ds)).1 = [] := by
      rw [wholePart_of_head (by simpa using hzero)]
      exact List.takeWhile_cons_of_neg hd
    rw [number_eq, numberBehind, hwhole, if_pos List.isEmpty_nil] at h
    cases h

theorem notMem_of_digit {d : Char} (hd : d.isDigit = true) (cs : List Char)
    (h : cs.any Char.isDigit = false) : d ∉ cs := by
  intro hmem
  rw [List.any_eq_true.mpr ⟨d, hmem, hd⟩] at h
  cases h

/-- A number with its sign. -/
def signed (negative : Bool) (cs : List Char) : List Char := if negative then '-' :: cs else cs

/-- What begins like a number is read as a number and not as a word. -/
theorem bare_signed (negative : Bool) {d : Char} (hd : d.isDigit = true) (cs : List Char) :
    bare (signed negative (d :: cs)) = number negative (d :: cs) := by
  have hnone := notMem_of_digit hd ['n', 't', 'f', 'N', 'I', '-'] (by decide)
  simp only [List.mem_cons, not_or] at hnone
  obtain ⟨hn, ht, hf, hN, hI, hminus, _⟩ := hnone
  have hwords : (words.findSome? fun w =>
      (word? w.1 (signed negative (d :: cs))).map (w.2, ·)) = none := by
    cases negative <;>
      simp [words, word?, signed, Ne.symm hn, Ne.symm ht, Ne.symm hf, Ne.symm hN, Ne.symm hI,
        Ne.symm hminus]
  unfold bare
  rw [hwords]
  cases negative with
  | true => rfl
  | false => simp [signed, hminus]

/-- A number with its sign, as a value. -/
theorem bare_signed_append {negative : Bool} {found : Parsed Value}
    (h : number negative cs = .ok found) (hrest : Ends rest) :
    bare (signed negative cs ++ rest) = .ok (found.1, found.2 ++ rest) := by
  obtain ⟨d, ds, rfl, hd⟩ := digit_of_number h
  have hsigned : signed negative (d :: ds) ++ rest = signed negative (d :: (ds ++ rest)) := by
    cases negative <;> rfl
  have happend : number negative ((d :: ds) ++ rest) =
      (number negative (d :: ds)).map fun found => (found.1, found.2 ++ rest) :=
    number_append negative hrest
  rw [List.cons_append, h] at happend
  rw [hsigned, bare_signed negative hd, happend]
  rfl

/-! ## Whole numbers -/

theorem digitsValue_toDigits (n : Nat) : Binary64.digitsValue (Nat.toDigits 10 n) = n := by
  have hvalue := Nat.ofDigitChars_toDigits (b := 10) (n := n) (by decide) (by decide)
  rwa [Nat.ofDigitChars_eq_foldl] at hvalue

/-- No zero leads a positive number. -/
theorem head?_toDigits {n : Nat} (h : 0 < n) : (Nat.toDigits 10 n).head? ≠ some '0' := by
  induction n using Nat.strongRecOn with
  | ind n ih =>
    by_cases hbase : 10 ≤ n
    · rw [Nat.toDigits_of_base_le (by decide) hbase,
        List.head?_append_of_ne_nil _ Nat.toDigits_ne_nil]
      exact ih (n / 10) (Nat.div_lt_self h (by decide)) (Nat.div_pos hbase (by decide))
    · have hdigit : ∀ k < 10, 0 < k → Nat.digitChar k ≠ '0' := by decide
      rw [Nat.toDigits_of_lt_base (Nat.lt_of_not_le hbase)]
      simpa using hdigit n (Nat.lt_of_not_le hbase) h

theorem wholePart_toDigits (n : Nat) : wholePart (Nat.toDigits 10 n) = (Nat.toDigits 10 n, []) := by
  have hdigits : ∀ c ∈ Nat.toDigits 10 n, c.isDigit = true := fun c hc =>
    Nat.isDigit_of_mem_toDigits (by decide) (by decide) hc
  by_cases hzero : n = 0
  · subst hzero
    rfl
  · rw [wholePart_of_head (head?_toDigits (Nat.pos_of_ne_zero hzero)),
      List.takeWhile_eq_self_iff.mpr hdigits, List.dropWhile_eq_nil_iff.mpr hdigits]

theorem length_toDigits_le {n k : Nat} (hk : 0 < k) (h : n < Nat.pow 10 k) :
    (Nat.toDigits 10 n).length ≤ k :=
  (Nat.length_toDigits_le_iff (by decide) hk).mpr h

theorem number_toDigits (negative : Bool) {n : Nat} (h : Text.hasDigits n = true) :
    number negative (Nat.toDigits 10 n) =
      .ok (.int (if negative then -(n : Int) else n), []) := by
  rw [Text.hasDigits, decide_eq_true_iff, Int.natAbs_natCast] at h
  have hlength : (Nat.toDigits 10 n).length ≤ Text.maxDigits := length_toDigits_le (by decide) h
  have hne : (Nat.toDigits 10 n).isEmpty = false := by simp
  rw [number_eq, wholePart_toDigits, numberBehind, hne]
  simp [fractionPart, exponentPart, digitsValue_toDigits, Nat.not_lt.mpr hlength]

/-! ## Strings -/

variable {c : Char} {text : List Char}

/-- A step over an escape of one character. -/
theorem stringUnits_escape {e v : Char} (he : escapeValue? e = some v) (hu : e ≠ 'u')
    (rest : List Char) : stringUnits ('\\' :: e :: rest) =
      (stringUnits rest).map fun found => (v.toNat :: found.1, found.2) := by
  rw [stringUnits, he]
  · cases stringUnits rest <;> rfl
  · intro _ _ _ _ _ hsame
    exact absurd hsame hu

/-- A step over a character that stands for itself. -/
theorem stringUnits_plain (hquote : c ≠ '"') (hbackslash : c ≠ '\\') (hc : 32 ≤ c.toNat)
    (rest : List Char) : stringUnits (c :: rest) =
      (stringUnits rest).map fun found => (c.toNat :: found.1, found.2) := by
  rw [stringUnits.eq_5 c rest hquote (fun _ _ _ _ _ hsame => absurd hsame hbackslash)
    (fun _ _ hsame => absurd hsame hbackslash), if_neg (by simp [hbackslash, hc])]
  cases stringUnits rest <;> rfl

/-- An escaped character is read as itself, whatever follows it. -/
theorem stringUnits_escaped (h : Text.Escaped .double c text) (rest : List Char) :
    stringUnits (text ++ rest) =
      (stringUnits rest).map fun found => (c.toNat :: found.1, found.2) := by
  cases h with
  | itself hc =>
    rcases hc with rfl | rfl
    · exact stringUnits_escape rfl (by decide) rest
    · exact stringUnits_escape rfl (by decide) rest
  | letter he =>
    simp only [Text.letters, List.mem_cons, Prod.mk.injEq, List.not_mem_nil, or_false] at he
    rcases he with ⟨rfl, rfl⟩ | ⟨rfl, rfl⟩ | ⟨rfl, rfl⟩ | ⟨rfl, rfl⟩ | ⟨rfl, rfl⟩ <;>
      exact stringUnits_escape rfl (by decide) rest
  | code hc =>
    have hnumber := Text.hexNumber?_hexDigits 4 c.toNat
    rw [Nat.mod_eq_of_lt (by simp; omega)] at hnumber
    simp only [Text.hexDigits, List.nil_append, List.cons_append] at hnumber
    rw [Text.unicodeEscape]
    simp only [Text.hexDigits, List.nil_append, List.cons_append]
    rw [stringUnits, hnumber]
    cases stringUnits rest <;> rfl
  | plain hquote hbackslash hc => exact stringUnits_plain hquote hbackslash hc rest

theorem stringUnits_body (cs rest : List Char) :
    stringUnits (cs.flatMap (Text.escape .double) ++ '"' :: rest) =
      some (cs.map Char.toNat, rest) := by
  induction cs with
  | nil => rfl
  | cons c cs ih =>
    rw [List.flatMap_cons, List.append_assoc, stringUnits_escaped (Text.escaped_escape .double c), ih]
    rfl

theorem joinHalves_chars (cs : List Char) :
    Text.joinHalves (cs.map Char.toNat) = cs.map Char.toNat := by
  induction cs with
  | nil => rfl
  | cons c cs ih =>
    have hhigh : Text.isHighHalf c.toNat = false :=
      (Bool.or_eq_false_iff.mp (Text.isHalf_toNat c)).1
    rw [List.map_cons, Script.joinHalves_cons hhigh, ih]

/-- What stands between the marks of a quoted text is read as the text. -/
theorem stringBody_quoted (s : String) (rest : List Char) :
    stringBody (s.toList.flatMap (Text.escape .double) ++ '"' :: rest) =
      .ok (Text.ofPlain s, rest) := by
  rw [stringBody, stringUnits_body]
  change Except.ok (Text.ofPoints (Text.joinHalves (s.toList.map Char.toNat)), rest) = _
  rw [joinHalves_chars]
  rfl

/-! ## Values -/

/-- A text is read as a value inside of which `depth` collections may open, whatever stands behind
it. It begins neither with a space nor with a closing bracket. -/
structure ReadsAs (depth : Nat) (cs : List Char) (v : Value) : Prop where
  head : ∃ c ds, cs = c :: ds ∧ isSpace c = false ∧ c ≠ ']'
  read : ∀ fuel rest, cs.length ≤ fuel → Ends rest →
    value depth fuel (cs ++ rest) = .ok (v, rest)

variable {depth : Nat} {v : Value}

theorem skipSpace_of_head {d : Char} (h : isSpace d = false) (ds : List Char) :
    skipSpace (d :: ds) = d :: ds :=
  List.dropWhile_cons_of_neg (by simp [h])

theorem ReadsAs.skipSpace (h : ReadsAs depth cs v) (rest : List Char) :
    skipSpace (cs ++ rest) = cs ++ rest := by
  obtain ⟨d, ds, rfl, hd, _⟩ := h.head
  exact skipSpace_of_head hd _

/-- A word or a number is read by itself. -/
theorem readsAs_bare {d : Char} {ds : List Char} (hcs : cs = d :: ds) (hspace : isSpace d = false)
    (hd : d ∉ ['"', '[', ']', '\x7b'])
    (h : ∀ rest, Ends rest → bare (cs ++ rest) = .ok (v, rest)) : ReadsAs depth cs v := by
  simp only [List.mem_cons, List.not_mem_nil, or_false, not_or] at hd
  obtain ⟨hquote, hopen, hclose, hbrace⟩ := hd
  refine ⟨⟨d, ds, hcs, hspace, hclose⟩, fun fuel rest hfuel hrest => ?_⟩
  cases fuel with
  | zero => simp [hcs] at hfuel
  | succ fuel =>
    have hread := h rest hrest
    rw [hcs, List.cons_append] at hread ⊢
    rw [value, hread]
    · exact fun _ hsame => hquote (List.cons.inj hsame).1
    · exact fun _ hsame => hopen (List.cons.inj hsame).1
    · exact fun _ hsame => hbrace (List.cons.inj hsame).1

theorem readsAs_string (depth : Nat) (s : String) :
    ReadsAs depth (Text.quoteChars .double s.toList) (.str (Text.ofPlain s)) := by
  refine ⟨⟨'"', _, rfl, by decide, by decide⟩, fun fuel rest hfuel _ => ?_⟩
  cases fuel with
  | zero => simp [Text.quoteChars, Text.QuoteMark.chars] at hfuel
  | succ fuel =>
    have hbody := stringBody_quoted s rest
    have htext : Text.quoteChars .double s.toList ++ rest =
        '"' :: (s.toList.flatMap (Text.escape .double) ++ '"' :: rest) := by
      simp [Text.quoteChars, Text.QuoteMark.chars]
    rw [htext, value, hbody]
    rfl

theorem readsAs_null (depth : Nat) : ReadsAs depth "null".toList .null :=
  readsAs_bare rfl rfl (by decide) fun _ _ => rfl

theorem readsAs_bool (depth : Nat) (b : Bool) :
    ReadsAs depth (if b then "true" else "false").toList (.bool b) := by
  cases b with
  | true => exact readsAs_bare rfl rfl (by decide) fun _ _ => rfl
  | false => exact readsAs_bare rfl rfl (by decide) fun _ _ => rfl

theorem readsAs_number (negative : Bool) (h : number negative cs = .ok (v, [])) :
    ReadsAs depth (signed negative cs) v := by
  obtain ⟨d, ds, rfl, hd⟩ := digit_of_number h
  have hread : ∀ rest, Ends rest → bare (signed negative (d :: ds) ++ rest) = .ok (v, rest) :=
    fun rest hrest => bare_signed_append h hrest
  cases negative with
  | true => exact readsAs_bare rfl rfl (by decide) hread
  | false =>
    refine readsAs_bare rfl ?_ ?_ hread
    · have hspace := notMem_of_digit hd [' ', '\t', '\n', '\r'] (by decide)
      simpa [isSpace, and_assoc] using hspace
    · exact notMem_of_digit hd _ (by decide)

theorem readsAs_int (depth : Nat) {n : Int} (h : Text.hasDigits n = true) :
    ReadsAs depth (toString n).toList (.int n) := by
  cases n with
  | ofNat n =>
    have htext : (toString (Int.ofNat n)).toList = signed false (Nat.toDigits 10 n) :=
      String.toList_ofList
    rw [htext]
    exact readsAs_number false (number_toDigits false h)
  | negSucc n =>
    have htext : (toString (Int.negSucc n)).toList = signed true (Nat.toDigits 10 (n + 1)) := by
      change ("-" ++ toString (n + 1)).toList = _
      rw [String.toList_append]
      exact congrArg _ String.toList_ofList
    rw [htext]
    exact readsAs_number true (number_toDigits true h)

/-- A number with a fraction or an exponent is what its text is read as. -/
def ReadsBack (x : Binary64) : Prop := bare x.text.toList = .ok (.float x, [])

theorem readsAs_float (depth : Nat) {x : Binary64} (hx : x.isFinite = true) (h : ReadsBack x) :
    ReadsAs depth x.text.toList (.float x) := by
  have hwords : ∀ found, (words.findSome? fun w => (word? w.1 x.text.toList).map (w.2, ·)) =
      some found → found.1 ≠ .float x := by
    intro found hfound
    obtain ⟨w, hw, hword⟩ := List.exists_of_findSome?_eq_some hfound
    obtain ⟨r, _, rfl⟩ := Option.map_eq_some_iff.mp hword
    have hall : ∀ w ∈ words, ∀ y : Binary64, w.2 = .float y → y.isFinite = false := by
      simp [words, Binary64.isFinite]
    rintro heq
    rw [hall w hw x heq] at hx
    cases hx
  unfold ReadsBack bare at h
  split at h
  next found hfound =>
    cases h
    exact absurd rfl (hwords _ hfound)
  next =>
    split at h
    next r hr =>
      rw [hr]
      exact readsAs_number true h
    next => exact readsAs_number false h

/-! ## Collections -/

/-- Texts with a comma and a space between them. -/
def listed (parts : List (List Char)) : List Char := [',', ' '].intercalate parts

theorem listed_cons {part next : List Char} {parts : List (List Char)} :
    listed (part :: next :: parts) = part ++ ',' :: ' ' :: listed (next :: parts) := by
  rw [listed, List.intercalate_cons_cons, List.append_assoc]
  rfl

theorem listed_singleton (part : List Char) : listed [part] = part := List.intercalate_singleton

theorem toList_enclosed (opening closing : String) (parts : List String) :
    (opening ++ ", ".intercalate parts ++ closing).toList =
      opening.toList ++ (listed (parts.map String.toList) ++ closing.toList) := by
  rw [String.toList_append, String.toList_append, String.toList_intercalate, List.append_assoc]
  rfl

theorem head_listed (c : Char) (ds : List Char) (parts : List (List Char)) :
    ∃ es, listed ((c :: ds) :: parts) = c :: es := by
  cases parts with
  | nil => exact ⟨ds, listed_singleton _⟩
  | cons next parts => exact ⟨_, listed_cons⟩

theorem ReadsAs.head_listed {part : List Char} (h : ReadsAs depth part v)
    (parts : List (List Char)) :
    ∃ c ds, listed (part :: parts) = c :: ds ∧ isSpace c = false ∧ c ≠ ']' := by
  obtain ⟨c, ds, rfl, hc⟩ := h.head
  obtain ⟨es, hes⟩ := Json.head_listed c ds parts
  exact ⟨c, es, hes, hc⟩

theorem items_listed {part : List Char} {parts : List (List Char)} {vs : List Value}
    (hfirst : ReadsAs depth part v) (h : List.Forall₂ (ReadsAs depth) parts vs) (fuel : Nat)
    (rest : List Char) (hfuel : (listed (part :: parts)).length < fuel) :
    items depth fuel (listed (part :: parts) ++ ']' :: rest) = .ok (v :: vs, rest) := by
  induction h generalizing part v fuel with
  | nil =>
    obtain ⟨fuel, rfl⟩ := Nat.exists_eq_add_one_of_ne_zero (Nat.ne_zero_of_lt hfuel)
    rw [listed_singleton] at hfuel ⊢
    rw [items, hfirst.read fuel _ (Nat.le_of_lt_succ hfuel) (ends_bracket rest)]
    rfl
  | @cons next w parts vs hnext _ ih =>
    obtain ⟨fuel, rfl⟩ := Nat.exists_eq_add_one_of_ne_zero (Nat.ne_zero_of_lt hfuel)
    rw [listed_cons] at hfuel ⊢
    rw [List.length_append, List.length_cons, List.length_cons] at hfuel
    rw [List.append_assoc, List.cons_append, List.cons_append, items,
      hfirst.read fuel _ (by omega) (ends_comma _)]
    have hspace : skipSpace (listed (next :: parts) ++ ']' :: rest) =
        listed (next :: parts) ++ ']' :: rest := by
      obtain ⟨c, ds, hlist, hc, _⟩ := hnext.head_listed parts
      rw [hlist]
      exact skipSpace_of_head hc _
    change (items depth fuel (skipSpace (listed (next :: parts) ++ ']' :: rest)) >>= fun found =>
      pure (v :: found.1, found.2)) = _
    rw [hspace, ih hnext fuel (by omega)]
    rfl

theorem readsAs_seq {parts : List (List Char)} {vs : List Value}
    (h : List.Forall₂ (ReadsAs depth) parts vs) :
    ReadsAs (depth + 1) ('[' :: (listed parts ++ [']'])) (.seq vs 0) := by
  refine ⟨⟨'[', _, rfl, by decide, by decide⟩, fun fuel rest hfuel _ => ?_⟩
  obtain ⟨fuel, rfl⟩ : ∃ k, fuel = k + 1 :=
    Nat.exists_eq_add_one_of_ne_zero (by rintro rfl; simp at hfuel)
  rw [List.cons_append, List.append_assoc, List.singleton_append, value,
    if_neg (Nat.succ_ne_zero depth)]
  cases h with
  | nil => rfl
  | @cons part w parts vs hpart hparts =>
    have hitems := items_listed hpart hparts fuel rest (by simp at hfuel; omega)
    obtain ⟨c, ds, hlist, hc, hclose⟩ := hpart.head_listed parts
    rw [hlist] at hitems ⊢
    rw [List.cons_append] at hitems ⊢
    rw [skipSpace_of_head hc]
    split
    next hsame => exact absurd (List.cons.inj hsame).1 hclose
    next =>
      rw [Nat.add_sub_cancel, hitems]
      rfl

/-- A member of an object: its key, and a text of its value. -/
def memberText (key : String) (part : List Char) : List Char :=
  Text.quoteChars .double key.toList ++ ':' :: ' ' :: part

theorem memberText_eq (key : String) (part : List Char) : memberText key part =
    '"' :: (key.toList.flatMap (Text.escape .double) ++ '"' :: ':' :: ' ' :: part) := by
  simp [memberText, Text.quoteChars, Text.QuoteMark.chars]

/-- Behind a member stands the end of the object or the next member. -/
theorem members_memberText {part : List Char} (key : String) (h : ReadsAs depth part v)
    (fuel : Nat) (rest : List Char) (hfuel : part.length ≤ fuel) (hrest : Ends rest) :
    members depth (fuel + 1) (memberText key part ++ rest) =
      match skipSpace rest with
      | '\x7d' :: r => .ok ([(.str (Text.ofPlain key), v)], r)
      | ',' :: r => (members depth fuel (skipSpace r)).map fun found =>
          ((.str (Text.ofPlain key), v) :: found.1, found.2)
      | _ => malformed := by
  rw [memberText_eq, List.cons_append, List.append_assoc, List.cons_append, members,
    stringBody_quoted]
  change ((value depth fuel (skipSpace (part ++ rest))) >>= fun found => _) = _
  rw [h.skipSpace, h.read fuel rest hfuel hrest]
  change (match skipSpace rest with
    | '\x7d' :: r => _
    | ',' :: r => _
    | _ => _) = _
  split
  next => rfl
  next r _ => cases members depth fuel (skipSpace r) <;> rfl
  next => rfl

/-- A member is read as its key and what its value is read as. -/
def MemberAs (depth : Nat) (cs : List Char) (m : String × Value) : Prop :=
  ∃ part, cs = memberText m.1 part ∧ ReadsAs depth part m.2

theorem MemberAs.head_listed {cs : List Char} {m : String × Value} (h : MemberAs depth cs m)
    (parts : List (List Char)) : ∃ es, listed (cs :: parts) = '"' :: es := by
  obtain ⟨part, rfl, _⟩ := h
  rw [memberText_eq]
  exact Json.head_listed _ _ parts

theorem members_listed {cs : List Char} {m : String × Value} {parts : List (List Char)}
    {ms : List (String × Value)} (hfirst : MemberAs depth cs m)
    (h : List.Forall₂ (MemberAs depth) parts ms) (fuel : Nat) (rest : List Char)
    (hfuel : (listed (cs :: parts)).length < fuel) :
    members depth fuel (listed (cs :: parts) ++ '\x7d' :: rest) =
      .ok ((m :: ms).map fun m => (.str (Text.ofPlain m.1), m.2), rest) := by
  obtain ⟨fuel, rfl⟩ := Nat.exists_eq_add_one_of_ne_zero (Nat.ne_zero_of_lt hfuel)
  induction h generalizing cs m fuel with
  | nil =>
    obtain ⟨part, rfl, hpart⟩ := hfirst
    rw [listed_singleton] at hfuel ⊢
    rw [members_memberText _ hpart fuel _ (by simp [memberText] at hfuel; omega) (ends_brace rest)]
    rfl
  | @cons next n parts ms hnext _ ih =>
    obtain ⟨part, rfl, hpart⟩ := hfirst
    rw [listed_cons] at hfuel ⊢
    rw [List.length_append, List.length_cons, List.length_cons] at hfuel
    rw [List.append_assoc, List.cons_append, List.cons_append,
      members_memberText _ hpart fuel _ (by simp [memberText] at hfuel; omega) (ends_comma _)]
    obtain ⟨k, rfl⟩ : ∃ k, fuel = k + 1 := Nat.exists_eq_add_one_of_ne_zero (by omega)
    obtain ⟨es, hes⟩ := hnext.head_listed parts
    have hread := ih hnext k (by omega)
    rw [hes, List.cons_append] at hread ⊢
    change (members depth (k + 1) (skipSpace ('"' :: (es ++ '\x7d' :: rest)))).map _ = _
    rw [skipSpace_of_head (by decide), hread]
    rfl

theorem keyed_texts {ms : List (String × Value)} (h : (ms.map (·.1)).Nodup) :
    Members.Keyed (ms.map fun m => (.str (Text.ofPlain m.1), m.2)) := by
  have hkey : ∀ s t : String, (Scalar.str s).sameKey (.str t) = true → s = t := by
    intro s t hsame
    simpa [Scalar.sameKey, Scalar.whole?] using hsame
  refine List.pairwise_map.mpr ((List.pairwise_map.mp h).imp fun hne => ?_)
  exact Bool.eq_false_iff.mpr fun hsame => hne (Text.ofPlain_inj (hkey _ _ hsame))

theorem readsAs_map {parts : List (List Char)} {ms : List (String × Value)}
    (hnames : (ms.map (·.1)).Nodup) (h : List.Forall₂ (MemberAs depth) parts ms) :
    ReadsAs (depth + 1) ('\x7b' :: (listed parts ++ ['\x7d']))
      (.map (ms.map fun m => (.str (Text.ofPlain m.1), m.2)) 0) := by
  refine ⟨⟨'\x7b', _, rfl, by decide, by decide⟩, fun fuel rest hfuel _ => ?_⟩
  obtain ⟨fuel, rfl⟩ : ∃ k, fuel = k + 1 :=
    Nat.exists_eq_add_one_of_ne_zero (by rintro rfl; simp at hfuel)
  rw [List.cons_append, List.append_assoc, List.singleton_append, value,
    if_neg (Nat.succ_ne_zero depth)]
  cases h with
  | nil => rfl
  | @cons part m parts ms hpart hparts =>
    have hmembers := members_listed hpart hparts fuel rest (by simp at hfuel; omega)
    obtain ⟨es, hes⟩ := hpart.head_listed parts
    rw [hes, List.cons_append] at hmembers ⊢
    rw [skipSpace_of_head (by decide)]
    change (members (depth + 1 - 1) fuel ('"' :: (es ++ '\x7d' :: rest))).map _ = _
    rw [Nat.add_sub_cancel, hmembers]
    change Except.ok (Value.map (Members.ofList _) 0, rest) = _
    rw [Members.ofList_of_keyed (keyed_texts hnames)]

/-! ## Whole texts -/

/-- Reading a text in which collections stand no deeper inside one another than this. -/
def readWithin (depth : Nat) (text : String) : Except Issue Value := do
  let cs := text.toList
  let (v, r) ← value depth (cs.length + 1) (skipSpace cs)
  if (skipSpace r).isEmpty then return v else malformed

theorem read_eq (text : String) : read text = readWithin maxDepth text := rfl

theorem ReadsAs.readWithin {text : String} (h : ReadsAs depth text.toList v) :
    readWithin depth text = .ok v := by
  have hspace := h.skipSpace []
  have hread := h.read (text.toList.length + 1) [] (Nat.le_succ _) trivial
  rw [List.append_nil] at hspace hread
  rw [Json.readWithin, hspace, hread]
  rfl

end ApiContract.Json

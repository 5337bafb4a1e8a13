import ApiContract.Binary64.Decimal
import ApiContract.Proofs.JsonReading
import ApiContract.Proofs.Rounding

/-!
The text of a double is read as the double. Its decimal is one that reads back, and where the point
and the exponent stand in the text makes no difference to what the digits are worth.
-/

namespace ApiContract.Binary64

/-! ## Digits -/

section Digits

variable {cs ds : List Char}

theorem digitsValue_append (cs ds : List Char) :
    digitsValue (cs ++ ds) = digitsValue cs * 10 ^ ds.length + digitsValue ds := by
  have hfrom : ∀ (ds : List Char) (n : Nat),
      ds.foldl (fun n c => 10 * n + (c.toNat - '0'.toNat)) n =
        n * 10 ^ ds.length + digitsValue ds := by
    intro ds
    induction ds with
    | nil => intro n; simp [digitsValue]
    | cons d ds ih =>
      intro n
      have hcons : digitsValue (d :: ds) = _ := ih (10 * 0 + (d.toNat - '0'.toNat))
      rw [List.foldl_cons, ih, hcons, List.length_cons, Nat.pow_succ]
      ring
  rw [digitsValue, List.foldl_append, hfrom]
  rfl

theorem digitsValue_zeros (j : Nat) : digitsValue (List.replicate j '0') = 0 := by
  induction j with
  | zero => rfl
  | succ j ih => rw [List.replicate_succ', digitsValue_append, ih]; rfl

/-- Zeros in front are worth nothing. -/
theorem digitsValue_zeros_append (j : Nat) (ds : List Char) :
    digitsValue (List.replicate j '0' ++ ds) = digitsValue ds := by
  rw [digitsValue_append, digitsValue_zeros, Nat.zero_mul, Nat.zero_add]

/-- Zeros behind are worth a power of ten each. -/
theorem digitsValue_append_zeros (ds : List Char) (j : Nat) :
    digitsValue (ds ++ List.replicate j '0') = digitsValue ds * 10 ^ j := by
  rw [digitsValue_append, digitsValue_zeros, List.length_replicate, Nat.add_zero]

/-- The zeros at the end of a number are dropped, and nothing else. -/
theorem dropTrailingZeros_append (h : ∃ c ∈ cs, c ≠ '0') :
    dropTrailingZeros cs ≠ [] ∧ ∃ j, cs = dropTrailingZeros cs ++ List.replicate j '0' := by
  have hkept : (cs.reverse.dropWhile (· == '0')).reverse ≠ [] := by
    obtain ⟨c, hc, hne⟩ := h
    rw [ne_eq, List.reverse_eq_nil_iff, List.dropWhile_eq_nil_iff]
    intro hall
    exact hne (by simpa using hall c (List.mem_reverse.mpr hc))
  have hdrop : dropTrailingZeros cs = (cs.reverse.dropWhile (· == '0')).reverse :=
    if_neg (by simpa using hkept)
  have hzeros : cs.reverse.takeWhile (· == '0') =
      List.replicate (cs.reverse.takeWhile (· == '0')).length '0' := by
    refine List.eq_replicate_iff.mpr ⟨rfl, fun c hc => ?_⟩
    simpa using List.mem_takeWhile_imp hc
  rw [hdrop]
  refine ⟨hkept, (cs.reverse.takeWhile (· == '0')).length, ?_⟩
  rw [← List.reverse_replicate, ← hzeros, ← List.reverse_append, List.takeWhile_append_dropWhile,
    List.reverse_reverse]

end Digits

/-! ## Decimals of doubles -/

section Shortest

variable {m : Nat} {e : Int}

theorem exactDecimal_value (m : Nat) (e : Int) :
    ((exactDecimal m e).digits : ℚ) * 10 ^ (exactDecimal m e).exponent = m * 2 ^ e := by
  unfold exactDecimal
  split
  · next he =>
    obtain ⟨k, rfl⟩ := Int.eq_ofNat_of_zero_le he
    simp
  · next he =>
    obtain ⟨k, hk⟩ := Int.eq_ofNat_of_zero_le (show 0 ≤ -e by omega)
    have hte : e = -(k : Int) := by omega
    subst hte
    have hten : (10 : ℚ) ^ k = 2 ^ k * 5 ^ k := by rw [← mul_pow]; norm_num
    simp only [neg_neg, Int.toNat_natCast, Nat.pow_eq, Nat.cast_mul, Nat.cast_pow, Nat.cast_ofNat,
      zpow_neg, zpow_natCast, hten]
    field_simp

/-- A decimal is chosen only if it reads back. -/
theorem ofDecimal_of_decimalOf? {count : Nat} {d : Decimal} (h : decimalOf? m e count = some d) :
    ofDecimal false d.digits d.exponent = .finite false m e := by
  unfold decimalOf? at h
  dsimp only at h
  obtain ⟨q, hq, rfl⟩ := Option.map_eq_some_iff.mp h
  have hreads := List.find?_some hq
  exact eq_of_beq hreads

/-- The decimal that is chosen for a double is read as the double. -/
theorem ofDecimal_shortestDecimal (hm : 0 < m) (h : Canonical m e) :
    ofDecimal false (shortestDecimal m e).digits (shortestDecimal m e).exponent =
      .finite false m e := by
  unfold shortestDecimal
  cases hfound : (List.range 17).findSome? fun i => decimalOf? m e (i + 1) with
  | none => exact ofDecimal_exact hm h (exactDecimal_value m e) false
  | some d =>
    obtain ⟨i, _, hi⟩ := List.exists_of_findSome?_eq_some hfound
    exact ofDecimal_of_decimalOf? hi

end Shortest

/-! ## Reading -/

section Reading

variable {whole fraction ds : List Char} {negative : Bool}

/-- Digits behind which something else stands. -/
theorem span_digits {rest : List Char} (h : ∀ c ∈ whole, c.isDigit = true)
    (hrest : ∀ c, rest.head? = some c → c.isDigit = false) :
    (whole ++ rest).takeWhile Char.isDigit = whole ∧
      (whole ++ rest).dropWhile Char.isDigit = rest := by
  rw [List.takeWhile_append_of_pos h, List.dropWhile_append_of_pos h]
  cases rest with
  | nil => simp
  | cons c rest => simp [hrest c rfl]

theorem unsigned?_point (hwhole : ∀ c ∈ whole, c.isDigit = true) (hne : whole ≠ [])
    (hfraction : ∀ c ∈ fraction, c.isDigit = true) :
    unsigned? negative (whole ++ '.' :: fraction) =
      some (ofDecimal negative (digitsValue (whole ++ fraction)) (0 - fraction.length)) := by
  obtain ⟨htake, hdrop⟩ := @span_digits whole ('.' :: fraction) hwhole (by simp)
  obtain ⟨htake', hdrop'⟩ := @span_digits fraction [] hfraction (by simp)
  rw [List.append_nil] at htake' hdrop'
  simp [unsigned?, htake, hdrop, htake', hdrop', hne]

theorem unsigned?_exponent {exponent : List Char} {shift : Int}
    (hwhole : ∀ c ∈ whole, c.isDigit = true) (hne : whole ≠ [])
    (hshift : exponentValue? exponent = some shift) :
    unsigned? negative (whole ++ 'e' :: exponent) =
      some (ofDecimal negative (digitsValue whole) shift) := by
  obtain ⟨htake, hdrop⟩ := @span_digits whole ('e' :: exponent) hwhole (by simp)
  simp [unsigned?, htake, hdrop, hne, hshift]

theorem unsigned?_point_exponent {exponent : List Char} {shift : Int}
    (hwhole : ∀ c ∈ whole, c.isDigit = true) (hne : whole ≠ [])
    (hfraction : ∀ c ∈ fraction, c.isDigit = true) (hshift : exponentValue? exponent = some shift) :
    unsigned? negative (whole ++ '.' :: (fraction ++ 'e' :: exponent)) =
      some (ofDecimal negative (digitsValue (whole ++ fraction)) (shift - fraction.length)) := by
  obtain ⟨htake, hdrop⟩ := @span_digits whole ('.' :: (fraction ++ 'e' :: exponent)) hwhole (by simp)
  obtain ⟨htake', hdrop'⟩ := @span_digits fraction ('e' :: exponent) hfraction (by simp)
  simp [unsigned?, htake, hdrop, htake', hdrop', hne, hshift]

theorem exponentValue?_exponentText (e : Int) : exponentValue? (exponentText e).toList = some e := by
  have hdigits : ∃ ds : List Char, (exponentText e).toList = (if e < 0 then '-' else '+') :: ds ∧
      ds ≠ [] ∧ (∀ c ∈ ds, c.isDigit = true) ∧ digitsValue ds = e.natAbs := by
    have hall : ∀ c ∈ Nat.toDigits 10 e.natAbs, c.isDigit = true := fun c hc =>
      Nat.isDigit_of_mem_toDigits (by decide) (by decide) hc
    have hvalue := Json.digitsValue_toDigits e.natAbs
    have hsign : (if e < 0 then "-" else "+" : String).toList = [if e < 0 then '-' else '+'] := by
      split <;> rfl
    unfold exponentText
    dsimp only
    rw [String.toList_append, hsign, Nat.toString_eq_repr]
    by_cases hshort : e.natAbs.repr.length < 2
    · rw [if_pos hshort]
      refine ⟨'0' :: Nat.toDigits 10 e.natAbs, ?_, by simp, ?_, ?_⟩
      · rw [String.toList_append, Nat.toList_repr]
        rfl
      · exact List.forall_mem_cons.mpr ⟨rfl, hall⟩
      · exact (digitsValue_zeros_append 1 _).trans hvalue
    · rw [if_neg hshort]
      refine ⟨Nat.toDigits 10 e.natAbs, ?_, Nat.toDigits_ne_nil, hall, hvalue⟩
      rw [Nat.toList_repr]
      rfl
  obtain ⟨ds, htext, hne, hall, hvalue⟩ := hdigits
  have hdigits : ds.all Char.isDigit = true := List.all_eq_true.mpr hall
  rw [htext]
  split
  · simp only [exponentValue?, hdigits, hvalue, List.isEmpty_eq_false_iff.mpr hne]
    simp [-Nat.cast_natAbs]
    omega
  · simp only [exponentValue?, hdigits, hvalue, List.isEmpty_eq_false_iff.mpr hne]
    simp [-Nat.cast_natAbs]
    omega

theorem isDigit_zeros (n : Nat) : ∀ c ∈ List.replicate n '0', c.isDigit = true := by
  intro c hc
  rw [List.eq_of_mem_replicate hc]
  rfl

/-- The point before the digits, with zeros between them. -/
theorem unsigned?_zeros_before (hds : ∀ c ∈ ds, c.isDigit = true) {point : Int} (hpoint : point ≤ 0) :
    unsigned? negative
        ("0." ++ String.ofList (List.replicate (-point).toNat '0' ++ ds)).toList =
      some (ofDecimal negative (digitsValue ds) (point - ds.length)) := by
  have htext : ("0." ++ String.ofList (List.replicate (-point).toNat '0' ++ ds)).toList =
      ['0'] ++ '.' :: (List.replicate (-point).toNat '0' ++ ds) := by
    simp
  have hvalue : digitsValue (['0'] ++ (List.replicate (-point).toNat '0' ++ ds)) = digitsValue ds :=
    (digitsValue_zeros_append 1 _).trans (digitsValue_zeros_append _ ds)
  rw [htext, unsigned?_point (by simp) (by simp)
    (List.forall_mem_append.mpr ⟨isDigit_zeros _, hds⟩), hvalue, List.length_append,
    List.length_replicate]
  congr 2
  omega

/-- The point behind the digits, with zeros between them. -/
theorem unsigned?_zeros_behind (hds : ∀ c ∈ ds, c.isDigit = true) (hne : ds ≠ []) {point : Int}
    (hpoint : ds.length ≤ point.toNat) :
    unsigned? negative
        (String.ofList (ds ++ List.replicate (point.toNat - ds.length) '0') ++ ".0").toList =
      some (ofDecimal negative (digitsValue ds) (point - ds.length)) := by
  have hlength : 0 < ds.length := List.length_pos_iff.mpr hne
  have htext : (String.ofList (ds ++ List.replicate (point.toNat - ds.length) '0') ++
      ".0").toList = (ds ++ List.replicate (point.toNat - ds.length) '0') ++ '.' :: ['0'] := by
    simp
  have hvalue : digitsValue (ds ++ List.replicate (point.toNat - ds.length) '0' ++ ['0']) =
      digitsValue ds * 10 ^ (point.toNat - ds.length + 1) := by
    rw [List.append_assoc, ← List.replicate_succ', digitsValue_append_zeros]
  rw [htext, unsigned?_point (List.forall_mem_append.mpr ⟨hds, isDigit_zeros _⟩) (by simp [hne])
    (by simp), hvalue, ofDecimal_mul_pow]
  congr 2
  push_cast
  simp only [List.length_singleton]
  omega

/-- The point among the digits. -/
theorem unsigned?_within (hds : ∀ c ∈ ds, c.isDigit = true) (hne : ds ≠ []) {point : Int}
    (hfirst : 0 < point) (hlast : point.toNat < ds.length) :
    unsigned? negative (String.ofList (ds.take point.toNat) ++ "." ++
        String.ofList (ds.drop point.toNat)).toList =
      some (ofDecimal negative (digitsValue ds) (point - ds.length)) := by
  have htext : (String.ofList (ds.take point.toNat) ++ "." ++
      String.ofList (ds.drop point.toNat)).toList =
        ds.take point.toNat ++ '.' :: ds.drop point.toNat := by
    simp
  have htake : ds.take point.toNat ≠ [] := by
    rw [ne_eq, List.take_eq_nil_iff]
    simp [hne]
    omega
  rw [htext, unsigned?_point (fun c hc => hds c (List.mem_of_mem_take hc)) htake
    (fun c hc => hds c (List.mem_of_mem_drop hc)), List.take_append_drop, List.length_drop]
  congr 2
  omega

/-- The point behind the first digit, if there are more, and an exponent. -/
theorem unsigned?_scientific (hds : ∀ c ∈ ds, c.isDigit = true) (hne : ds ≠ []) (point : Int) :
    unsigned? negative (String.ofList (ds.take 1) ++
        (if (ds.drop 1).isEmpty then "" else "." ++ String.ofList (ds.drop 1)) ++ "e" ++
          exponentText (point - 1)).toList =
      some (ofDecimal negative (digitsValue ds) (point - ds.length)) := by
  obtain ⟨d, rest, rfl⟩ := List.exists_cons_of_ne_nil hne
  obtain ⟨hd, hrest⟩ := List.forall_mem_cons.mp hds
  have hexponent := exponentValue?_exponentText (point - 1)
  have hfirst : ∀ c ∈ [d], c.isDigit = true := List.forall_mem_singleton.mpr hd
  cases rest with
  | nil =>
    have htext : (String.ofList ([d].take 1) ++
        (if ([d].drop 1).isEmpty then "" else "." ++ String.ofList ([d].drop 1)) ++ "e" ++
          exponentText (point - 1)).toList = [d] ++ 'e' :: (exponentText (point - 1)).toList := by
      simp
    rw [htext, unsigned?_exponent hfirst (by simp) hexponent]
    simp
  | cons c rest =>
    have htext : (String.ofList ((d :: c :: rest).take 1) ++
        (if ((d :: c :: rest).drop 1).isEmpty then ""
          else "." ++ String.ofList ((d :: c :: rest).drop 1)) ++ "e" ++
            exponentText (point - 1)).toList =
          [d] ++ '.' :: ((c :: rest) ++ 'e' :: (exponentText (point - 1)).toList) := by
      simp
    rw [htext, unsigned?_point_exponent hfirst (by simp) hrest hexponent]
    congr 2
    simp only [List.length_cons]
    omega

/-- Digits with a point and an exponent are worth what they are without. -/
theorem unsigned?_placePoint (hds : ∀ c ∈ ds, c.isDigit = true) (hne : ds ≠ []) (point : Int) :
    unsigned? negative (placePoint ds point).toList =
      some (ofDecimal negative (digitsValue ds) (point - ds.length)) := by
  unfold placePoint
  dsimp only
  split
  · split
    · next hpoint => exact unsigned?_zeros_before hds hpoint
    · next hpoint =>
      split
      · next hshort => exact unsigned?_zeros_behind hds hne hshort
      · next hlong => exact unsigned?_within hds hne (by omega) (by omega)
  · exact unsigned?_scientific hds hne point

/-- A number begins with a digit or a point. -/
theorem head_of_unsigned? {cs : List Char} {x : Binary64} (h : unsigned? negative cs = some x) :
    ∃ c rest, cs = c :: rest ∧ (c.isDigit = true ∨ c = '.') := by
  cases cs with
  | nil => cases h
  | cons c rest =>
    refine ⟨c, rest, rfl, ?_⟩
    by_contra hno
    rw [not_or, Bool.not_eq_true] at hno
    have hnone : unsigned? negative (c :: rest) = none := by
      unfold unsigned?
      rw [List.takeWhile_cons, List.dropWhile_cons, hno.1, if_neg (by decide), if_neg (by decide)]
      dsimp only
      split
      · next r heq =>
        cases heq
        exact absurd rfl hno.2
      · rfl
    rw [hnone] at h
    cases h

end Reading

section Texts

variable {m : Nat} {e : Int}

/-- The text of a magnitude is read as it, with either sign. -/
theorem unsigned?_magnitudeText (h : Canonical m e) (negative : Bool) :
    unsigned? negative (magnitudeText m e).toList = some (.finite negative m e) := by
  unfold magnitudeText
  split
  · next hzero =>
    have he : e = minExponent := by
      obtain ⟨_, he⟩ | ⟨hge, _⟩ := h
      · exact he
      · rw [hzero] at hge
        exact absurd hge (by decide)
    rw [hzero, he]
    rfl
  · next hzero =>
    have hm := Nat.pos_of_ne_zero hzero
    have hdecimal := ofDecimal_shortestDecimal hm h
    generalize shortestDecimal m e = d at hdecimal
    have hdigits : 0 < d.digits := by
      refine Nat.pos_of_ne_zero fun hnone => ?_
      rw [ofDecimal, if_pos hnone] at hdecimal
      cases hdecimal
      exact hzero rfl
    have hall : ∀ c ∈ Nat.toDigits 10 d.digits, c.isDigit = true := fun c hc =>
      Nat.isDigit_of_mem_toDigits (by decide) (by decide) hc
    have hfirst : ∃ c ∈ Nat.toDigits 10 d.digits, c ≠ '0' := by
      obtain ⟨c, rest, hcons⟩ := List.exists_cons_of_ne_nil (@Nat.toDigits_ne_nil d.digits 10)
      refine ⟨c, by simp [hcons], fun hc => Json.head?_toDigits hdigits ?_⟩
      rw [hcons, hc]
      rfl
    obtain ⟨hne, j, hcut⟩ := dropTrailingZeros_append hfirst
    dsimp only
    generalize dropTrailingZeros (Nat.toDigits 10 d.digits) = ds at hne hcut
    have hds : ∀ c ∈ ds, c.isDigit = true := fun c hc => hall c (by rw [hcut]; simp [hc])
    have hvalue : d.digits = digitsValue ds * 10 ^ j := by
      rw [← digitsValue_append_zeros, ← hcut, Json.digitsValue_toDigits]
    have hlength : (Nat.toDigits 10 d.digits).length = ds.length + j := by
      rw [hcut, List.length_append, List.length_replicate]
    rw [unsigned?_placePoint hds hne, hlength,
      show ((ds.length + j : Nat) : Int) + d.exponent - ds.length = d.exponent + j by
        push_cast; ring,
      ← ofDecimal_mul_pow, ← hvalue]
    exact congrArg some (ofDecimal_negative hdecimal negative)

/-- Neither a sign nor a name begins as a number does. -/
theorem head_ne {c d : Char} (h : c.isDigit = true ∨ c = '.') (hd : d ∈ ['-', '+', 'i', 'n']) :
    c ≠ d := by
  have hall : ∀ d ∈ ['-', '+', 'i', 'n'], ¬ (d.isDigit = true ∨ d = '.') :=
    forall_mem_of_all (by decide)
  intro heq
  exact hall d hd (heq ▸ h)

theorem toLower_head {c : Char} (h : c.isDigit = true ∨ c = '.') : c.toLower = c := by
  obtain h | rfl := h
  · obtain ⟨_, hhigh⟩ := CommandLine.toNat_of_isDigit h
    refine dif_neg fun hupper => ?_
    have hlow : 65 ≤ c.toNat := UInt32.le_iff_toNat_le.mp hupper.1
    omega
  · rfl

theorem name_ne {c : Char} {rest : List Char} (h : c.isDigit = true ∨ c = '.') :
    ∀ name ∈ ["inf", "infinity", "nan"],
      (String.ofList ((c :: rest).map Char.toLower) == name) = false := by
  intro name hname
  refine beq_false_of_ne fun heq => ?_
  have hlist := congrArg String.toList heq
  rw [String.toList_ofList, List.map_cons, toLower_head h] at hlist
  simp only [List.mem_cons, List.not_mem_nil, or_false] at hname
  obtain rfl | rfl | rfl := hname
  · exact @head_ne c 'i' h (by simp) (List.cons.inj hlist).1
  · exact @head_ne c 'i' h (by simp) (List.cons.inj hlist).1
  · exact @head_ne c 'n' h (by simp) (List.cons.inj hlist).1

/-- The text of a double is read as the double. -/
theorem ofText?_text {x : Binary64} (h : x.IsDouble) : ofText? x.text.toList = some x := by
  cases x with
  | nan => rfl
  | infinite negative => cases negative <;> rfl
  | finite negative m e =>
    have hreads := unsigned?_magnitudeText h negative
    obtain ⟨c, rest, hcons, hc⟩ := head_of_unsigned? hreads
    rw [hcons] at hreads
    have hinf := @name_ne c rest hc "inf" (by simp)
    have hinfinity := @name_ne c rest hc "infinity" (by simp)
    have hnan := @name_ne c rest hc "nan" (by simp)
    cases negative with
    | true =>
      have htext : (finite true m e).text.toList = '-' :: c :: rest := by
        rw [text, if_pos rfl, String.toList_append, hcons]
        rfl
      rw [htext, ofText?]
      simp only [hinf, hinfinity, hnan, Bool.or_false, Bool.false_eq_true, if_false]
      exact hreads
    | false =>
      have htext : (finite false m e).text.toList = c :: rest := by
        rw [text, if_neg (by decide), String.toList_append, hcons]
        rfl
      rw [htext, ofText?]
      · simp only [hinf, hinfinity, hnan, Bool.or_false, Bool.false_eq_true, if_false]
        exact hreads
      · intro r heq
        exact head_ne hc (by simp) (List.cons.inj heq).1
      · intro r heq
        exact head_ne hc (by simp) (List.cons.inj heq).1

theorem isDouble_of_unsigned? {cs : List Char} {x : Binary64} (h : unsigned? negative cs = some x) :
    x.IsDouble := by
  unfold unsigned? at h
  dsimp only at h
  split at h
  all_goals
    split at h
    · cases h
    · obtain ⟨shift, _, rfl⟩ := Option.map_eq_some_iff.mp h
      exact isDouble_ofDecimal _ _ _

theorem isDouble_of_ofText? {cs : List Char} {x : Binary64} (h : ofText? cs = some x) :
    x.IsDouble := by
  have hnamed : ∀ {name : String} {negative : Bool} {body : List Char},
      (if name == "inf" || name == "infinity" then some (infinite negative)
        else if name == "nan" then some nan else unsigned? negative body) = some x →
      x.IsDouble := by
    intro name negative body h
    split at h
    · cases h
      trivial
    · split at h
      · cases h
        trivial
      · exact isDouble_of_unsigned? h
  exact hnamed h

/-- The doubles are what can be read. -/
theorem isDouble_iff {x : Binary64} : x.IsDouble ↔ ∃ cs, ofText? cs = some x := by
  constructor
  · intro h
    exact ⟨_, ofText?_text h⟩
  · rintro ⟨cs, h⟩
    exact isDouble_of_ofText? h

theorem text_injective {x y : Binary64} (hx : x.IsDouble) (hy : y.IsDouble) (h : x.text = y.text) :
    x = y := by
  have hread := ofText?_text hx
  rw [h, ofText?_text hy] at hread
  exact (Option.some.inj hread).symm

end Texts

end ApiContract.Binary64

import ApiContract.CommandLine.Run
import Mathlib.Data.List.TakeWhile

/-!
The line that a run ends with. What stands around the path in it is plain ASCII, which neither ends
a control sequence in the path nor is part of one, so the numbers are always shown as they are.
-/

namespace ApiContract

namespace Text

variable {cs ds : List Char} {d : Char}

/-- A character of plain text: one of ASCII that begins no control sequence. -/
def isOrdinary (c : Char) : Bool := c.toNat < 128 && c != '\x1b'

/-! ## Control sequences -/

theorem takeWhile_append_of_stop {p : Char → Bool} (h : ds.takeWhile p = []) :
    (cs ++ ds).takeWhile p = cs.takeWhile p := by
  rw [List.takeWhile_append, h, List.append_nil]
  split
  next hall => exact ((List.takeWhile_prefix p).eq_of_length hall).symm
  next => rfl

theorem length_takeWhile_le (p : Char → Bool) (cs : List Char) :
    (cs.takeWhile p).length ≤ cs.length := (List.takeWhile_sublist p).length_le

/-- A control sequence that begins in a text ends in it, if a blank, a bracket and a digit follow. -/
theorem controlLength?_append (hintermediate : isIntermediate d = false) (hfinal : isFinal d = false)
    (hne : cs ≠ []) : controlLength? (cs ++ ' ' :: '(' :: d :: ds) = controlLength? cs := by
  obtain ⟨c, cs, rfl⟩ := List.exists_cons_of_ne_nil hne
  cases cs with
  | nil => simp [controlLength?]
  | cons bracket cs =>
    by_cases hstart : c = '\x1b' ∧ bracket = '['
    · obtain ⟨rfl, rfl⟩ := hstart
      have hparameters : (cs ++ ' ' :: '(' :: d :: ds).takeWhile isParameter =
          cs.takeWhile isParameter :=
        takeWhile_append_of_stop (List.takeWhile_cons_of_neg (by decide))
      have hrest : (' ' :: '(' :: d :: ds).takeWhile isIntermediate = [' ', '('] := by
        rw [List.takeWhile_cons_of_pos (by decide), List.takeWhile_cons_of_pos (by decide),
          List.takeWhile_cons_of_neg (by simp [hintermediate])]
      rw [List.cons_append, List.cons_append, controlLength?, controlLength?]
      rw [hparameters, List.drop_append_of_le_length (length_takeWhile_le _ _)]
      generalize cs.drop (cs.takeWhile isParameter).length = more
      rw [List.takeWhile_append, hrest]
      by_cases hall : (more.takeWhile isIntermediate).length = more.length
      · have hwhole := (List.takeWhile_prefix isIntermediate).eq_of_length hall
        have hdrop : (more ++ ' ' :: '(' :: d :: ds).drop (more ++ [' ', '(']).length = d :: ds := by
          rw [List.length_append, List.drop_append, List.drop_of_length_le (Nat.le_add_right _ _)]
          simp
        rw [if_pos hall, hdrop, hwhole, List.drop_length]
        simp [hfinal]
      · have hlt : (more.takeWhile isIntermediate).length < more.length :=
          lt_of_le_of_ne (length_takeWhile_le _ _) hall
        rw [if_neg hall, List.drop_append_of_le_length hlt.le]
        cases hdrop : more.drop (more.takeWhile isIntermediate).length with
        | nil => exact absurd (List.drop_eq_nil_iff.mp hdrop) (not_le.mpr hlt)
        | cons => rfl
    · have hnone : ∀ rest : List Char, controlLength? (c :: bracket :: rest) = none := by
        intro rest
        rw [controlLength?]
        intro _ hsame
        obtain ⟨hc, hsame⟩ := List.cons.inj hsame
        exact hstart ⟨hc, (List.cons.inj hsame).1⟩
      rw [List.cons_append, List.cons_append, hnone, hnone]

theorem controlLength?_le {n : Nat} (h : controlLength? cs = some n) : n ≤ cs.length := by
  revert h
  fun_cases controlLength? cs with
  | case1 cs parameters more intermediates c rest hrest hfinal =>
    rintro ⟨⟩
    have hlength := congrArg List.length hrest
    have hmore : more.length = cs.length - parameters.length := List.length_drop
    rw [List.length_drop, List.length_cons] at hlength
    simp only [List.length_cons]
    omega
  | case2 => nofun
  | case3 => nofun
  | case4 => nofun

theorem controlLength?_of_ne {c : Char} (h : c ≠ '\x1b') (cs : List Char) :
    controlLength? (c :: cs) = none := by
  rw [controlLength?]
  intro _ hsame
  exact h (List.cons.inj hsame).1

/-- Ordinary characters before a text stay. -/
theorem dropControlsFrom_append_left (h : ∀ c ∈ cs, c ≠ '\x1b') (ds : List Char) :
    dropControlsFrom 0 (cs ++ ds) = cs ++ dropControlsFrom 0 ds := by
  induction cs with
  | nil => rfl
  | cons c cs ih =>
    obtain ⟨hc, hcs⟩ := List.forall_mem_cons.mp h
    rw [List.cons_append, dropControlsFrom, controlLength?_of_ne hc, ih hcs, List.cons_append]

/-- So do those behind one, if they begin with a blank, a bracket and a digit. -/
theorem dropControlsFrom_append_right (hintermediate : isIntermediate d = false)
    (hfinal : isFinal d = false) (h : ∀ c ∈ ' ' :: '(' :: d :: ds, c ≠ '\x1b') {skip : Nat}
    (hskip : skip ≤ cs.length) : dropControlsFrom skip (cs ++ ' ' :: '(' :: d :: ds) =
      dropControlsFrom skip cs ++ ' ' :: '(' :: d :: ds := by
  induction cs generalizing skip with
  | nil =>
    obtain rfl : skip = 0 := Nat.le_zero.mp hskip
    have hkept := dropControlsFrom_append_left h []
    rwa [List.append_nil, dropControlsFrom, List.append_nil] at hkept
  | cons c cs ih =>
    have hsame : controlLength? (c :: cs ++ ' ' :: '(' :: d :: ds) = controlLength? (c :: cs) :=
      controlLength?_append hintermediate hfinal (List.cons_ne_nil c cs)
    cases skip with
    | succ n => exact ih (Nat.le_of_succ_le_succ hskip)
    | zero =>
      rw [List.cons_append] at hsame ⊢
      rw [dropControlsFrom, hsame, dropControlsFrom]
      cases hlength : controlLength? (c :: cs) with
      | none => exact congrArg (c :: ·) (ih (Nat.zero_le _))
      | some n =>
        have hle := controlLength?_le hlength
        refine ih ?_
        rw [List.length_cons] at hle
        omega

/-! ## Plain texts -/

theorem heldMark_not_ascii {c : Char} (h : c.toNat < 128) : c ≠ heldMark := by
  rintro rfl
  exact absurd h (by decide)

theorem points_append_left (h : ∀ c ∈ cs, c.toNat < 128) (ds : List Char) :
    points (cs ++ ds) = cs.map Char.toNat ++ points ds := by
  induction cs with
  | nil => rfl
  | cons c cs ih =>
    obtain ⟨hc, hcs⟩ := List.forall_mem_cons.mp h
    rw [List.cons_append, points_cons (heldMark_not_ascii hc), ih hcs]
    rfl

theorem markedPoints_ascii {c : Char} (h : c.toNat < 128) :
    markedPoints c = [heldMark.toNat, c.toNat] := by
  have hnone : half? c = none := by
    have hzero : c.toNat - halfShift = 0 := Nat.sub_eq_zero_of_le (by unfold halfShift; omega)
    rw [half?, hzero]
    rfl
  rw [markedPoints, if_neg (heldMark_not_ascii h), hnone]

/-- A mark at the end of a text holds nothing that follows in ASCII. -/
theorem points_append_right {c : Char} (h : c.toNat < 128) (cs ds : List Char) :
    points (cs ++ c :: ds) = points cs ++ points (c :: ds) := by
  have hgeneral : ∀ marked, pointsAfter marked (cs ++ c :: ds) =
      pointsAfter marked cs ++ points (c :: ds) := by
    induction cs with
    | nil =>
      intro marked
      cases marked with
      | false => rfl
      | true =>
        rw [points_cons (heldMark_not_ascii h)]
        simp [pointsAfter, markedPoints_ascii h, points]
    | cons other cs ih =>
      intro marked
      rw [List.cons_append, pointsAfter, pointsAfter]
      split
      next => rw [ih, List.append_assoc]
      next =>
        split
        next => exact ih true
        next => rw [ih, List.cons_append]
  exact hgeneral false

/-- ASCII around a text is shown as it is. -/
theorem plain?_append {front back : List Char} {c : Char} (hfront : ∀ x ∈ front, x.toNat < 128)
    (hback : ∀ x ∈ c :: back, x.toNat < 128) (s : String) :
    plain? (String.ofList (front ++ (s.toList ++ c :: back))) =
      (plain? s).map fun shown => String.ofList (front ++ (shown.toList ++ c :: back)) := by
  have hpoints : points (front ++ (s.toList ++ c :: back)) =
      front.map Char.toNat ++ (points s.toList ++ (c :: back).map Char.toNat) := by
    have hlast := points_append_left hback []
    rw [List.append_nil] at hlast
    rw [points_append_left hfront, points_append_right (hback c List.mem_cons_self), hlast]
    simp [points, pointsAfter]
  rw [plain?, plain?, String.toList_ofList, hpoints]
  rw [List.any_append, List.any_append, any_isHalf_map_toNat, any_isHalf_map_toNat, Bool.false_or,
    Bool.or_false, List.map_append, List.map_append, map_ofNat_toNat, map_ofNat_toNat]
  split
  next => rfl
  next => simp

end Text

namespace CommandLine

/-- The numbers that a run ends with. -/
def countsText (c : Module.Content) : String :=
  " (" ++ toString c.schemas.length ++ " schemas, " ++ toString c.handlers.length ++ " handlers, " ++
    toString c.clients.length ++ " clients)"

/-- A text of ordinary characters. -/
def Ordinary (s : String) : Prop := ∀ x ∈ s.toList, Text.isOrdinary x = true

instance (s : String) : Decidable (Ordinary s) :=
  decidable_of_iff (s.toList.all Text.isOrdinary = true) List.all_eq_true

theorem Ordinary.append {s t : String} (hs : Ordinary s) (ht : Ordinary t) : Ordinary (s ++ t) := by
  rw [Ordinary, String.toList_append]
  exact List.forall_mem_append.mpr ⟨hs, ht⟩

theorem lt_of_isOrdinary {c : Char} (h : Text.isOrdinary c = true) : c.toNat < 128 := by
  simp only [Text.isOrdinary, Bool.and_eq_true, decide_eq_true_eq] at h
  exact h.1

theorem ne_escape_of_isOrdinary {c : Char} (h : Text.isOrdinary c = true) : c ≠ '\x1b' := by
  simp only [Text.isOrdinary, Bool.and_eq_true, bne_iff_ne] at h
  exact h.2

theorem toNat_of_isDigit {c : Char} (h : c.isDigit = true) : 48 ≤ c.toNat ∧ c.toNat ≤ 57 := by
  simpa [Char.isDigit, UInt32.le_iff_toNat_le] using h

theorem ordinary_of_isDigit {c : Char} (h : c.isDigit = true) : Text.isOrdinary c = true := by
  obtain ⟨_, hhigh⟩ := toNat_of_isDigit h
  have hescape : c ≠ '\x1b' := by
    rintro rfl
    cases h
  have hascii : c.toNat < 128 := lt_of_le_of_lt hhigh (by decide)
  simp [Text.isOrdinary, hascii, hescape]

theorem ordinary_nat (n : Nat) : Ordinary (toString n) := by
  intro x hx
  rw [Nat.toString_eq_repr, Nat.toList_repr] at hx
  exact ordinary_of_isDigit (Nat.isDigit_of_mem_toDigits (by decide) (by decide) hx)

theorem ordinary_countsText (c : Module.Content) : Ordinary (countsText c) :=
  ((((((by decide : Ordinary " (").append (ordinary_nat _)).append (by decide)).append
    (ordinary_nat _)).append (by decide)).append (ordinary_nat _)).append (by decide)

/-- The numbers begin with a blank, a bracket and a digit. -/
theorem toList_countsText (c : Module.Content) : ∃ d ds, (countsText c).toList = ' ' :: '(' :: d :: ds ∧
    Text.isIntermediate d = false ∧ Text.isFinal d = false := by
  have hdigits : ∀ n : Nat, ∃ d ds, (toString n).toList = d :: ds ∧ d.isDigit = true := by
    intro n
    rw [Nat.toString_eq_repr, Nat.toList_repr]
    cases hn : Nat.toDigits 10 n with
    | nil => exact absurd hn Nat.toDigits_ne_nil
    | cons d ds =>
      have hd : d ∈ Nat.toDigits 10 n := by rw [hn]; exact List.mem_cons_self
      exact ⟨d, ds, rfl, Nat.isDigit_of_mem_toDigits (by decide) (by decide) hd⟩
  obtain ⟨d, ds, hn, hd⟩ := hdigits c.schemas.length
  obtain ⟨hlow, hhigh⟩ := toNat_of_isDigit hd
  refine ⟨d, ds ++ (" schemas, " ++ (toString c.handlers.length ++ (" handlers, " ++
    (toString c.clients.length ++ " clients)")))).toList, ?_, ?_, ?_⟩
  · simp only [countsText, String.append_assoc]
    rw [String.toList_append, String.toList_append, hn]
    rfl
  · simp [Text.isIntermediate, Text.isBetween]
    omega
  · simp [Text.isFinal, Text.isBetween]
    omega

theorem dropControls_line (output : Path) (c : Module.Content) :
    (Text.dropControls ("Generated " ++ (output.text ++ countsText c))).toList =
      "Generated ".toList ++ ((Text.dropControls output.text).toList ++ (countsText c).toList) := by
  obtain ⟨d, ds, hcounts, hintermediate, hfinal⟩ := toList_countsText c
  have hordinary := ordinary_countsText c
  rw [Ordinary, hcounts] at hordinary
  have hescape : ∀ x ∈ ' ' :: '(' :: d :: ds, x ≠ '\x1b' :=
    fun x hx => ne_escape_of_isOrdinary (hordinary x hx)
  have hword : ∀ x ∈ "Generated ".toList, x ≠ '\x1b' :=
    fun x hx => ne_escape_of_isOrdinary ((by decide : Ordinary "Generated ") x hx)
  have hshown : ∀ s, (Text.dropControls s).toList = Text.dropControlsFrom 0 s.toList :=
    fun s => String.toList_ofList
  rw [hshown, hshown, String.toList_append, Text.dropControlsFrom_append_left hword,
    String.toList_append, hcounts,
    Text.dropControlsFrom_append_right hintermediate hfinal hescape (Nat.zero_le _)]

/-- The line names the path, without control sequences, and then the numbers. -/
theorem summaryLine_eq (output : Path) (c : Module.Content) : Text.plain? (summaryLine output c) =
    (Text.plain? (Text.dropControls output.text)).map fun shown =>
      "Generated " ++ shown ++ countsText c ++ "\n" := by
  obtain ⟨d, ds, hcounts, _, _⟩ := toList_countsText c
  have hordinary := ordinary_countsText c
  rw [Ordinary, hcounts] at hordinary
  have hascii : ∀ x ∈ ' ' :: ('(' :: d :: ds ++ ['\n']), x.toNat < 128 := by
    intro x hx
    rw [← List.cons_append] at hx
    rcases List.mem_append.mp hx with hx | hx
    · exact lt_of_isOrdinary (hordinary x hx)
    · rw [List.mem_singleton.mp hx]
      decide
  have hline : summaryLine output c =
      Text.dropControls ("Generated " ++ (output.text ++ countsText c)) ++ "\n" := by
    unfold summaryLine printed countsText
    simp only [toString, String.append_assoc]
  have hfeed : "\n".toList = ['\n'] := rfl
  have hchars : summaryLine output c = String.ofList ("Generated ".toList ++
      ((Text.dropControls output.text).toList ++ ' ' :: ('(' :: d :: ds ++ ['\n']))) := by
    rw [← String.toList_inj, String.toList_ofList, hline, String.toList_append, dropControls_line,
      hcounts, hfeed]
    simp only [List.append_assoc, List.cons_append]
  have hword : ∀ x ∈ "Generated ".toList, x.toNat < 128 :=
    fun x hx => lt_of_isOrdinary ((by decide : Ordinary "Generated ") x hx)
  rw [hchars, Text.plain?_append hword hascii]
  refine congrArg (Option.map · _) (funext fun shown => ?_)
  rw [← String.toList_inj, String.toList_ofList, String.toList_append, String.toList_append,
    String.toList_append, hcounts, hfeed]
  simp only [List.append_assoc, List.cons_append]

end CommandLine

end ApiContract

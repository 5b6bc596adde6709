import Blockwright.Emit.Loops
import Blockwright.Number.Read
import Blockwright.Number.Text
import Blockwright.Proofs.Names.Identifiers
import Blockwright.Proofs.Names.Unreserved
import Blockwright.Proofs.Number.Arithmetic
import Blockwright.Proofs.Number.Shortest
import Blockwright.Proofs.Number.Wholes
import Blockwright.Proofs.Operators.Lexing
/-!
# Printed numbers read back

A decimal is written with digits, perhaps a point and more digits, and perhaps an exponent. Code
takes it for one leaf, and it reads as the number nearest to its value. What a finite number is
printed as is such a decimal, and it reads as the number.
-/

namespace Blockwright.Double

open Text

/-- A decimal without a sign. -/
structure Numeral where
  /-- The digits in front of the point. -/
  whole : List Char
  /-- The digits behind the point; without any there is no point. -/
  fraction : List Char
  /-- The sign and the digits of the exponent. -/
  exponent : Option (Bool × List Char)

/-- The number that digits spell behind others. -/
def digitsFrom (n : Nat) (ds : List Char) : Nat := ds.foldl (fun n c => n * 10 + (c.toNat - 48)) n

theorem digitsFrom_append (n : Nat) (ds ds' : List Char) : digitsFrom n (ds ++ ds') = digitsFrom (digitsFrom n ds) ds' :=
  List.foldl_append

theorem digitsFrom_toDigits (n : Nat) : digitsFrom 0 (Nat.toDigits 10 n) = n := digitsValue_toDigits n

theorem digitsFrom_zeros (n z : Nat) : digitsFrom n (List.replicate z '0') = n * 10 ^ z := by
  induction z generalizing n with
  | zero => simp [digitsFrom]
  | succ z ih =>
    have hstep : digitsFrom n (List.replicate (z + 1) '0') = digitsFrom (n * 10) (List.replicate z '0') := rfl
    rw [hstep, ih, Nat.pow_succ, Nat.mul_assoc, Nat.mul_comm 10]

namespace Numeral

/-- The exponent as it is written. -/
def exponentChars : Option (Bool × List Char) → List Char
  | none => []
  | some (negative, ds) => 'e' :: (if negative then '-' else '+') :: ds

/-- The value of the exponent. -/
def exponentValue : Option (Bool × List Char) → Int
  | none => 0
  | some (negative, ds) => if negative then -(digitsFrom 0 ds : Int) else digitsFrom 0 ds

/-- The point and what stands behind it. -/
def fractionChars (fraction : List Char) : List Char := if fraction = [] then [] else '.' :: fraction

/-- A decimal as it is written. -/
def chars (n : Numeral) : List Char := n.whole ++ (fractionChars n.fraction ++ exponentChars n.exponent)

/-- The digits as one number. -/
def units (n : Numeral) : Nat := digitsFrom 0 (n.whole ++ n.fraction)

/-- The power of ten that the digits count. -/
def scale (n : Numeral) : Int := exponentValue n.exponent - n.fraction.length

/-- There is a digit in front of the point, and the exponent is not too long. -/
structure Proper (n : Numeral) : Prop where
  ne_nil : n.whole ≠ []
  whole : ∀ c ∈ n.whole, isDigit c = true
  fraction : ∀ c ∈ n.fraction, isDigit c = true
  exponent : ∀ e ∈ n.exponent, e.2 ≠ [] ∧ (∀ c ∈ e.2, isDigit c = true) ∧ digitsFrom 0 e.2 < 10000

end Numeral

/-! ## Reading decimals -/

theorem digitValue?_of_isDigit {c : Char} (h : isDigit c = true) (hex : Bool) : digitValue? hex c = some (c.toNat - 48) :=
  if_pos h

theorem ne_of_isDigit {c d : Char} (h : isDigit c = true) (hd : isDigit d = false) : c ≠ d := by
  rintro rfl
  exact absurd h (by simp [hd])

theorem mantissa_digits (M : Mantissa) {ds : List Char} (hds : ∀ c ∈ ds, isDigit c = true) (rest : List Char) :
    mantissa false M (ds ++ rest) =
      mantissa false { M with
        value := digitsFrom M.value ds
        any := M.any || !ds.isEmpty
        places := if M.point then M.places + ds.length else M.places } rest := by
  induction ds generalizing M with
  | nil => simp [digitsFrom]
  | cons c ds ih =>
    have hc := hds c List.mem_cons_self
    have hscore : c ≠ '_' := ne_of_isDigit hc (by decide)
    have hpoint : c ≠ '.' := ne_of_isDigit hc (by decide)
    rw [List.cons_append, mantissa, if_neg hscore, if_neg (by simp [hpoint]), digitValue?_of_isDigit hc]
    dsimp only
    rw [ih _ fun d hd => hds d (List.mem_cons_of_mem _ hd)]
    cases M.point <;> simp [digitsFrom, Nat.add_comm, Nat.add_left_comm]

theorem exponentDigits_digits {n : Nat} {ds : List Char} (hds : ∀ c ∈ ds, isDigit c = true) (hsmall : digitsFrom n ds < 10000) :
    exponentDigits n ds = (digitsFrom n ds, []) := by
  induction ds generalizing n with
  | nil => rfl
  | cons c ds ih =>
    have hc := hds c List.mem_cons_self
    have hscore : c ≠ '_' := ne_of_isDigit hc (by decide)
    have hstep : digitsFrom n (c :: ds) = digitsFrom (n * 10 + (c.toNat - 48)) ds := rfl
    have hle : ∀ k (ds : List Char), k ≤ digitsFrom k ds := by
      intro k ds
      induction ds generalizing k with
      | nil => exact le_refl _
      | cons d ds ih =>
        have hd := ih (k * 10 + (d.toNat - 48))
        have hstep : digitsFrom k (d :: ds) = digitsFrom (k * 10 + (d.toNat - 48)) ds := rfl
        omega
    have hn : n < 10000 := by
      have := hle (n * 10 + (c.toNat - 48)) ds
      omega
    rw [exponentDigits, if_neg hscore, if_pos hc, if_pos hn, hstep]
    exact ih (fun d hd => hds d (List.mem_cons_of_mem _ hd)) (hstep ▸ hsmall)

variable {n : Numeral}

theorem exponent?_exponentChars (h : n.Proper) : exponent? false (Numeral.exponentChars n.exponent) =
    some (Numeral.exponentValue n.exponent) := by
  cases hexponent : n.exponent with
  | none => rfl
  | some e =>
    obtain ⟨negative, ds⟩ := e
    obtain ⟨hne, hds, hsmall⟩ := h.exponent (negative, ds) (by simp [hexponent])
    obtain ⟨d, ds, rfl⟩ := List.exists_cons_of_ne_nil hne
    have hd := hds d List.mem_cons_self
    have hread := exponentDigits_digits hds hsmall
    cases negative <;>
      simp [Numeral.exponentChars, Numeral.exponentValue, exponent?, Decimal.sign, hd, hread, lowerLetter]

theorem mantissa_chars (h : n.Proper) : mantissa false ⟨0, false, false, 0⟩ n.chars =
    (⟨n.units, true, !n.fraction.isEmpty, n.fraction.length⟩, Numeral.exponentChars n.exponent) := by
  have hends : ∀ M : Mantissa, mantissa false M (Numeral.exponentChars n.exponent) = (M, Numeral.exponentChars n.exponent) := by
    intro M
    cases n.exponent with
    | none => rfl
    | some e => simp [Numeral.exponentChars, mantissa, digitValue?, isDigit]
  have hwhole : n.whole.isEmpty = false := by simpa using h.ne_nil
  rw [Numeral.chars, mantissa_digits _ h.whole]
  unfold Numeral.fractionChars
  by_cases hfraction : n.fraction = []
  · rw [if_pos hfraction, List.nil_append, hends]
    simp [Numeral.units, hfraction, hwhole]
  · rw [if_neg hfraction, List.cons_append, mantissa, if_neg (by decide), if_pos (by simp), mantissa_digits _ h.fraction, hends]
    simp [Numeral.units, digitsFrom_append, hfraction, hwhole]

/-! ## Reading texts -/

theorem lowerLetter_of_isDigit {c : Char} (h : isDigit c = true) : lowerLetter c = c := by
  refine if_neg fun hletter => ?_
  simp only [isDigit, Bool.and_eq_true, decide_eq_true_eq, Char.le_def, UInt32.le_iff_toNat_le] at h hletter
  have h9 : '9'.val.toNat = 57 := rfl
  have hA : 'A'.val.toNat = 65 := rfl
  omega

/-- A decimal is made of digits, the point, and the letter and the sign of the exponent. -/
theorem mem_chars (h : n.Proper) : ∀ c ∈ n.chars, isDigit c = true ∨ c ∈ ['.', 'e', '+', '-'] := by
  intro c hc
  rcases List.mem_append.1 hc with hc | hc
  · exact .inl (h.whole c hc)
  rcases List.mem_append.1 hc with hc | hc
  · unfold Numeral.fractionChars at hc
    split at hc
    · cases hc
    · rcases List.mem_cons.1 hc with rfl | hc
      · exact .inr (by decide)
      · exact .inl (h.fraction c hc)
  · cases hexponent : n.exponent with
    | none =>
      rw [hexponent] at hc
      cases hc
    | some e =>
      obtain ⟨-, hds, -⟩ := h.exponent e hexponent
      rw [hexponent] at hc
      rcases List.mem_cons.1 hc with rfl | hc
      · exact .inr (by decide)
      rcases List.mem_cons.1 hc with rfl | hc
      · exact .inr (by cases e.1 <;> decide)
      · exact .inl (hds c hc)

theorem head_chars (h : n.Proper) : ∃ c cs, n.chars = c :: cs ∧ isDigit c = true := by
  obtain ⟨c, cs, hwhole⟩ := List.exists_cons_of_ne_nil h.ne_nil
  refine ⟨c, cs ++ (Numeral.fractionChars n.fraction ++ Numeral.exponentChars n.exponent), ?_, h.whole c (by simp [hwhole])⟩
  rw [Numeral.chars, hwhole, List.cons_append]

/-- What is read of the value of digits: a number that is too large is out of range. -/
def inRange : Double → Except ReadError Double
  | .infinity _ => .error .outOfRange
  | x => .ok x

theorem readDigits_chars (h : n.Proper) (negative : Bool) :
    readDigits negative false n.chars n.chars = inRange (ofScientific negative n.units n.scale) := by
  have hscore : n.chars.contains '_' = false := by
    rw [Bool.eq_false_iff]
    intro hmem
    rcases mem_chars h _ (List.contains_iff_mem.1 hmem) with hdigit | hmark
    · exact absurd hdigit (by decide)
    · exact absurd hmark (by decide)
  rw [readDigits, mantissa_chars h]
  dsimp only
  rw [exponent?_exponentChars h]
  dsimp only
  rw [hscore]
  simp only [Bool.not_true, Bool.false_and, Bool.or_self, Bool.false_eq_true, if_false]
  show _ = inRange (ofScientific negative n.units (Numeral.exponentValue n.exponent - n.fraction.length))
  generalize ofScientific negative n.units _ = x
  cases x <;> rfl

/-- The words for what is no decimal begin with a letter. -/
theorem lowered_ne {c : Char} {cs : List Char} (hc : isLetter (lowerLetter c) = false) {w : String}
    (hw : ∃ d ds, w.toList = d :: ds ∧ isLetter d = true) : String.ofList ((c :: cs).map lowerLetter) ≠ w := by
  rintro rfl
  obtain ⟨d, ds, hchars, hd⟩ := hw
  rw [String.toList_ofList, List.map_cons] at hchars
  rw [← (List.cons.inj hchars).1, hc] at hd
  cases hd

/-- A decimal, perhaps behind a minus sign, reads as the number nearest to its value. -/
theorem read_chars (h : n.Proper) (negative : Bool) :
    read ((if negative then "-" else "") ++ String.ofList n.chars) = inRange (ofScientific negative n.units n.scale) := by
  obtain ⟨c, cs, hchars, hdigit⟩ := head_chars h
  have hsign : Decimal.sign ((if negative then "-" else "") ++ String.ofList n.chars).toList = (negative, n.chars) := by
    cases negative
    · have hminus : c ≠ '-' := ne_of_isDigit hdigit (by decide)
      have hplus : c ≠ '+' := ne_of_isDigit hdigit (by decide)
      simp [Decimal.sign, hchars, hminus, hplus]
    · simp [Decimal.sign]
  have hc : isLetter (lowerLetter c) = false := by
    rw [lowerLetter_of_isDigit hdigit, Bool.eq_false_iff]
    exact fun hletter => absurd hdigit (by simp [Operators.isDigit_of_isLetter hletter])
  have hbare : ∀ w : String, (∃ d ds, w.toList = d :: ds ∧ isLetter d = true) → String.ofList (n.chars.map lowerLetter) ≠ w :=
    fun w hw => hchars ▸ lowered_ne hc hw
  have hsigned : String.ofList (((if negative then "-" else "") ++ String.ofList n.chars).toList.map lowerLetter) ≠ "nan" := by
    cases negative
    · simpa using hbare "nan" ⟨_, _, rfl, by decide⟩
    · simpa using @lowered_ne '-' n.chars (by decide) "nan" ⟨_, _, rfl, by decide⟩
  rw [read, hsign]
  dsimp only
  rw [if_neg (by simp [hbare "inf" ⟨_, _, rfl, by decide⟩, hbare "infinity" ⟨_, _, rfl, by decide⟩]), if_neg hsigned]
  split
  · rename_i x d rest heq
    have hmarks : ∀ x ∈ ['.', 'e', '+', '-'], lowerLetter x ≠ 'x' := by simp [lowerLetter]
    have hx : lowerLetter x ≠ 'x' := by
      rcases mem_chars h x (by simp [heq]) with hd | hmark
      · rw [lowerLetter_of_isDigit hd]
        exact ne_of_isDigit hd (by decide)
      · exact hmarks x hmark
    rw [if_neg hx]
    exact readDigits_chars h negative
  · exact readDigits_chars h negative

/-! ## Decimals as leaves -/

theorem scan_run {phase : Operators.Phase} (hphase : ∀ c, isDigit c = true → phase.next? c = some phase) {ds : List Char}
    (hds : ∀ c ∈ ds, isDigit c = true) (rest : List Char) :
    Operators.scan phase (ds ++ rest) = (Operators.scan phase rest).map fun r => (ds ++ r.1, r.2) := by
  induction ds with
  | nil => simp
  | cons c ds ih =>
    rw [List.cons_append, Operators.scan, hphase c (hds c List.mem_cons_self)]
    dsimp only
    rw [ih fun d hd => hds d (List.mem_cons_of_mem _ hd), Option.map_map]
    rfl

theorem scan_exponentChars (h : n.Proper) {phase : Operators.Phase} (hend : phase.mayEnd = true)
    (hmark : phase.next? 'e' = some .mark) :
    Operators.scan phase (Numeral.exponentChars n.exponent) = some (Numeral.exponentChars n.exponent, []) := by
  cases hexponent : n.exponent with
  | none => simp [Numeral.exponentChars, Operators.scan, hend]
  | some e =>
    obtain ⟨hne, hds, -⟩ := h.exponent e hexponent
    obtain ⟨d, ds, hcons⟩ := List.exists_cons_of_ne_nil hne
    have hd : isDigit d = true := hds d (by simp [hcons])
    have hfirst : Operators.Phase.next? .sign d = some .exponent := by simp [Operators.Phase.next?, hd]
    have hsign : Operators.Phase.next? .mark (if e.1 then '-' else '+') = some .sign := by cases e.1 <;> decide
    have hrun : Operators.scan .exponent ds = some (ds, []) := by
      have hscan : Operators.scan .exponent (ds ++ []) = _ :=
        scan_run (fun c hc => by simp [Operators.Phase.next?, hc]) (fun c hc => hds c (by simp [hcons, hc])) []
      rw [List.append_nil] at hscan
      rw [hscan]
      simp [Operators.scan, Operators.Phase.mayEnd]
    simp only [Numeral.exponentChars, hcons, Operators.scan, hmark, hsign, hfirst, hrun, Option.map_some]

/-- Code takes a decimal for one leaf. -/
theorem isDecimal_chars (h : n.Proper) : Operators.isDecimal (String.ofList n.chars) = true := by
  obtain ⟨c, cs, hwhole⟩ := List.exists_cons_of_ne_nil h.ne_nil
  have hcs : ∀ d ∈ cs, isDigit d = true := fun d hd => h.whole d (by simp [hwhole, hd])
  have hscan : Operators.scan .whole (cs ++ (Numeral.fractionChars n.fraction ++ Numeral.exponentChars n.exponent)) =
      some (cs ++ (Numeral.fractionChars n.fraction ++ Numeral.exponentChars n.exponent), []) := by
    rw [scan_run (fun c hc => by simp [Operators.Phase.next?, hc]) hcs]
    unfold Numeral.fractionChars
    by_cases hfraction : n.fraction = []
    · rw [if_pos hfraction, List.nil_append, scan_exponentChars h rfl rfl]
      rfl
    · have hpoint : Operators.Phase.next? .whole '.' = some .fraction := by decide
      rw [if_neg hfraction, List.cons_append, Operators.scan, hpoint]
      dsimp only
      rw [scan_run (fun c hc => by simp [Operators.Phase.next?, hc]) h.fraction, scan_exponentChars h rfl rfl]
      rfl
  have hchars : n.chars = c :: (cs ++ (Numeral.fractionChars n.fraction ++ Numeral.exponentChars n.exponent)) := by
    rw [Numeral.chars, hwhole, List.cons_append]
  have hc : isDigit c = true := h.whole c (by simp [hwhole])
  simp [Operators.isDecimal, hchars, hc, hscan]

/-! ## Printed numbers -/

theorem digitCount_mul_pow {k : Nat} (hk : k ≠ 0) (z : Nat) : digitCount (k * 10 ^ z) = digitCount k + z := by
  induction z with
  | zero => simp
  | succ z ih =>
    rw [Nat.pow_succ, ← Nat.mul_assoc, digitCount_mul_ten (Nat.mul_ne_zero hk (Nat.pow_pos (by decide)).ne'), ih]
    rfl

/-- A decimal has the digits of a value, perhaps with zeros behind them, and its point is where the value has it. -/
structure Numeral.Spells (n : Numeral) (value : Nat) (point : Int) : Prop where
  proper : n.Proper
  digits : ∃ z : Nat, n.units = value * 10 ^ z ∧ n.scale = point - digitCount value - z

theorem isDigit_of_mem_toDigits {k : Nat} : ∀ c ∈ Nat.toDigits 10 k, isDigit c = true :=
  fun _ hc => Identifier.isDigit_of_mem_toDigits hc

theorem isDigit_of_mem_zeros {k : Nat} : ∀ c ∈ List.replicate k '0', isDigit c = true := by
  intro c hc
  rw [List.eq_of_mem_replicate hc]
  decide

theorem digitsFrom_zeros_append (k : Nat) (ds : List Char) : digitsFrom 0 (List.replicate k '0' ++ ds) = digitsFrom 0 ds := by
  rw [digitsFrom_append, digitsFrom_zeros, Nat.zero_mul]

/-- Digits are written around the point. -/
theorem exists_positional (value : Nat) (point : Int) :
    ∃ n : Numeral, positional (Nat.toDigits 10 value) point = n.chars ∧ n.Spells value point := by
  have hcount : (Nat.toDigits 10 value).length = digitCount value := rfl
  have hpos := digitCount_pos value
  unfold positional
  split
  · rename_i hpoint
    refine ⟨⟨['0'], List.replicate (-point).toNat '0' ++ Nat.toDigits 10 value, none⟩, ?_, ?_, 0, ?_, ?_⟩
    · simp [Numeral.chars, Numeral.fractionChars, Numeral.exponentChars, Nat.toDigits_ne_nil]
    · exact ⟨by simp, by simp; decide, List.forall_mem_append.2 ⟨isDigit_of_mem_zeros, isDigit_of_mem_toDigits⟩, by simp⟩
    · have hunits : digitsFrom 0 (List.replicate 1 '0' ++ (List.replicate (-point).toNat '0' ++ Nat.toDigits 10 value)) = value := by
        rw [digitsFrom_zeros_append, digitsFrom_zeros_append, digitsFrom_toDigits]
      simpa [Numeral.units] using hunits
    · simp only [Numeral.scale, Numeral.exponentValue, List.length_append, List.length_replicate, hcount]
      omega
  split
  · rename_i hpoint hlength
    refine ⟨⟨Nat.toDigits 10 value ++ List.replicate (point.toNat - (Nat.toDigits 10 value).length) '0', [], none⟩, ?_, ?_,
      point.toNat - digitCount value, ?_, ?_⟩
    · simp [Numeral.chars, Numeral.fractionChars, Numeral.exponentChars]
    · exact ⟨by simp [Nat.toDigits_ne_nil], List.forall_mem_append.2 ⟨isDigit_of_mem_toDigits, isDigit_of_mem_zeros⟩, by simp,
        by simp⟩
    · rw [Numeral.units, List.append_nil, digitsFrom_append, digitsFrom_toDigits, digitsFrom_zeros, hcount]
    · simp only [Numeral.scale, Numeral.exponentValue, List.length_nil]
      omega
  · rename_i hpoint hlength
    have hsplit : (Nat.toDigits 10 value).take point.toNat ++ (Nat.toDigits 10 value).drop point.toNat = Nat.toDigits 10 value :=
      List.take_append_drop _ _
    refine ⟨⟨(Nat.toDigits 10 value).take point.toNat, (Nat.toDigits 10 value).drop point.toNat, none⟩, ?_, ?_, 0, ?_, ?_⟩
    · have hdrop : (Nat.toDigits 10 value).drop point.toNat ≠ [] := by
        rw [Ne, List.drop_eq_nil_iff]
        omega
      simp [Numeral.chars, Numeral.fractionChars, Numeral.exponentChars, hdrop]
    · refine ⟨?_, fun c hc => isDigit_of_mem_toDigits c (List.mem_of_mem_take hc),
        fun c hc => isDigit_of_mem_toDigits c (List.mem_of_mem_drop hc), by simp⟩
      rw [Ne, List.take_eq_nil_iff]
      exact not_or.2 ⟨by omega, Nat.toDigits_ne_nil⟩
    · rw [Numeral.units, hsplit, digitsFrom_toDigits, Nat.pow_zero, Nat.mul_one]
    · simp only [Numeral.scale, Numeral.exponentValue, List.length_drop]
      omega

/-- Digits are written with one of them in front of the point and an exponent. -/
theorem exists_scientific (width value : Nat) {point : Int} (hpoint : (point - 1).natAbs < 10000) :
    ∃ n : Numeral, scientific width (Nat.toDigits 10 value) (point - 1) = n.chars ∧ n.Spells value point := by
  have hcount : (Nat.toDigits 10 value).length = digitCount value := rfl
  obtain ⟨d, ds, hdigits⟩ := List.exists_cons_of_ne_nil (Nat.toDigits_ne_nil (b := 10) (n := value))
  have hd : ∀ c ∈ d :: ds, isDigit c = true := hdigits ▸ isDigit_of_mem_toDigits
  have hpadded : (Decimal.padded width (point - 1).natAbs).toList =
      List.replicate (width - (Nat.toDigits 10 (point - 1).natAbs).length) '0' ++ Nat.toDigits 10 (point - 1).natAbs := by
    rw [Decimal.padded, String.toList_ofList]
  have hexponent : digitsFrom 0 (Decimal.padded width (point - 1).natAbs).toList = (point - 1).natAbs := by
    rw [hpadded, digitsFrom_zeros_append, digitsFrom_toDigits]
  refine ⟨⟨[d], ds, some (decide (point - 1 < 0), (Decimal.padded width (point - 1).natAbs).toList)⟩, ?_, ?_, 0, ?_, ?_⟩
  · rw [hdigits]
    cases ds <;> simp [scientific, Numeral.chars, Numeral.fractionChars, Numeral.exponentChars]
  · refine ⟨by simp, fun c hc => hd c (by simp_all), fun c hc => hd c (by simp [hc]), ?_⟩
    rintro e ⟨⟩
    refine ⟨?_, ?_, by rw [hexponent]; exact hpoint⟩
    · rw [hpadded]
      simp [Nat.toDigits_ne_nil]
    · rw [hpadded]
      exact List.forall_mem_append.2 ⟨isDigit_of_mem_zeros, isDigit_of_mem_toDigits⟩
  · rw [Numeral.units, Nat.pow_zero, Nat.mul_one, List.singleton_append, ← hdigits, digitsFrom_toDigits]
  · have hlength : digitCount value = ds.length + 1 := by rw [← hcount, hdigits, List.length_cons]
    simp only [Numeral.scale, Numeral.exponentValue, hexponent, hlength, decide_eq_true_eq]
    split <;> omega

/-- What stands behind the sign of a printed number. -/
theorem exists_body {style : Style} {m : Nat} {e : Int} (hnormal : Normal m e) (hm : m ≠ 0) :
    ∃ n : Numeral, n.Spells (shortest m e).value (shortest m e).point ∧
      ∀ negative, toText style (.finite negative m e) = (if negative then "-" else "") ++ String.ofList n.chars := by
  obtain ⟨-, -, hlow, hhigh⟩ := shortest_spec hnormal hm
  have hbounds := pointOf_bounds hnormal hm
  have hpoint : ((shortest m e).point - 1).natAbs < 10000 := by omega
  obtain ⟨s, hs, hspells⟩ := exists_scientific style.exponentWidth (shortest m e).value hpoint
  obtain ⟨p, hp, hspells'⟩ := exists_positional (shortest m e).value (shortest m e).point
  have htext : ∀ negative, toText style (.finite negative m e) = (if negative then "-" else "") ++ String.ofList
      (if (shortest m e).point - 1 < style.low || style.high ≤ (shortest m e).point - 1 then
        scientific style.exponentWidth (Nat.toDigits 10 (shortest m e).value) ((shortest m e).point - 1)
      else positional (Nat.toDigits 10 (shortest m e).value) (shortest m e).point) := fun negative => by
    rw [toText, if_neg hm]
  by_cases hexponent : ((shortest m e).point - 1 < style.low || style.high ≤ (shortest m e).point - 1) = true
  · refine ⟨s, hspells, fun negative => ?_⟩
    rw [htext, if_pos hexponent, hs]
  · refine ⟨p, hspells', fun negative => ?_⟩
    rw [htext, if_neg hexponent, hp]

/-- The value that a printed number spells is rounded to the number. -/
theorem ofScientific_of_spells {m : Nat} {e : Int} (hnormal : Normal m e) (hm : m ≠ 0)
    (h : n.Spells (shortest m e).value (shortest m e).point) (negative : Bool) :
    ofScientific negative n.units n.scale = .finite negative m e := by
  obtain ⟨hne, hrounds, hlow, hhigh⟩ := shortest_spec hnormal hm
  have hbounds := pointOf_bounds hnormal hm
  obtain ⟨z, hunits, hscale⟩ := h.digits
  have hnonzero : n.units ≠ 0 := by
    rw [hunits]
    exact Nat.mul_ne_zero hne (Nat.pow_pos (by decide)).ne'
  have hcount : ((Nat.toDigits 10 n.units).length : Int) = digitCount (shortest m e).value + z := by
    have hmul := digitCount_mul_pow hne z
    rw [← hunits] at hmul
    exact_mod_cast hmul
  have hvalue : ((shortest m e).value : ℚ) * 10 ^ ((shortest m e).point - digitCount (shortest m e).value) =
      n.units * 10 ^ n.scale := by
    have hten : (10 : ℚ) ≠ 0 := by norm_num
    have hpower : (10 : ℚ) ^ (z : Int) * 10 ^ n.scale = 10 ^ ((shortest m e).point - digitCount (shortest m e).value) := by
      rw [← zpow_add₀ hten, hscale, show (z : Int) + ((shortest m e).point - digitCount (shortest m e).value - z) =
        (shortest m e).point - digitCount (shortest m e).value by omega]
    rw [hunits, Nat.cast_mul, Nat.cast_pow, Nat.cast_ofNat, mul_assoc, ← zpow_natCast, hpower]
  rw [hvalue] at hrounds
  unfold ofScientific
  dsimp only
  rw [if_neg hnonzero, if_neg (by omega), if_neg (by omega)]
  split
  · rename_i hle
    obtain ⟨k, hk⟩ := Int.eq_ofNat_of_zero_le hle
    rw [hk] at hrounds ⊢
    exact hrounds one_ne_zero (by simp [ratio]) negative
  · rename_i hlt
    obtain ⟨k, hk⟩ : ∃ k : Nat, n.scale = -(k : Int) := ⟨(-n.scale).toNat, by omega⟩
    rw [hk] at hrounds ⊢
    rw [Int.neg_neg, Int.toNat_natCast]
    exact hrounds (tenTo_ne_zero k) (by simp [ratio, div_eq_mul_inv]) negative

/-- A finite number that is printed reads back, in every style; only zero may lose its sign. -/
theorem read_toText (style : Style) {m : Nat} {e : Int} (hnormal : Normal m e) {negative : Bool}
    (hsign : m = 0 → negative = true → style.signedZero = true) :
    read (toText style (.finite negative m e)) = .ok (.finite negative m e) := by
  by_cases hm : m = 0
  · subst hm
    have hleast : e = minExponent := hnormal.leading.resolve_left (by norm_num)
    have hproper : Numeral.Proper ⟨['0'], [], none⟩ := ⟨by simp, by simp; decide, by simp, by simp⟩
    have hread := read_chars hproper (style.signedZero && negative)
    have htext : toText style (.finite negative 0 e) =
        (if (style.signedZero && negative) = true then "-" else "") ++ String.ofList ['0'] := by
      rw [toText, if_pos rfl]
      cases style.signedZero && negative <;> rfl
    have hnegative : (style.signedZero && negative) = negative := by
      cases negative
      · exact Bool.and_false _
      · rw [hsign rfl rfl]
        rfl
    rw [htext, hleast]
    refine hread.trans ?_
    rw [hnegative]
    rfl
  · obtain ⟨n, hspells, htext⟩ := @exists_body style m e hnormal hm
    rw [htext, read_chars hspells.proper, ofScientific_of_spells hnormal hm hspells]
    rfl

end Blockwright.Double

/-!
## Numbers as literals

A finite number in normal form that is not a zero with a minus sign is what its literal in generated code
stands for. The decimal digits of a whole number read as such a number, unless it is too great.
-/

namespace Blockwright.Double

open Text

variable {x : Double}

/-- The number has a literal. -/
def HasLiteral (x : Double) : Prop := ∃ s m e, x = .finite s m e ∧ Normal m e ∧ (m = 0 → s = false)

theorem HasLiteral.abs (h : x.HasLiteral) : x.abs.HasLiteral := by
  obtain ⟨s, m, e, rfl, hnormal, -⟩ := h
  exact ⟨false, m, e, rfl, hnormal, fun _ => rfl⟩

/-- The number nearest to a whole number has a literal, unless it is infinite. -/
theorem hasLiteral_ofInt {k : Int} {s : Bool} {m : Nat} {e : Int} (h : ofInt k = .finite s m e) : (ofInt k).HasLiteral :=
  ⟨s, m, e, h, normal_of_ofInt h, (ofInt_eq_zero h).2⟩

/-- The text of a number is a decimal, behind a minus sign if the number is below zero. -/
theorem exists_decimal {m : Nat} {e : Int} (hnormal : Normal m e) : ∃ n : Numeral, n.Proper ∧
    ∀ s, (m = 0 → s = false) → (Double.finite s m e).format = (if s then "-" else "") ++ String.ofList n.chars := by
  by_cases hm : m = 0
  · subst hm
    refine ⟨⟨['0'], [], none⟩, ⟨by simp, by simp; decide, by simp, by simp⟩, fun s hs => ?_⟩
    rw [hs rfl]
    rfl
  · obtain ⟨n, hspells, htext⟩ := @exists_body codeStyle m e hnormal hm
    exact ⟨n, hspells.proper, fun s _ => htext s⟩

theorem not_isBlank_of_mem_chars {n : Numeral} (h : n.Proper) : ∀ c ∈ n.chars, isBlank c = false := by
  intro c hc
  rcases mem_chars h c hc with hdigit | hmark
  · exact not_isBlank_of_isWordChar (Identifier.isWordChar_of_isDigit hdigit)
  · have hmarks : ∀ c ∈ ['.', 'e', '+', '-'], isBlank c = false := by simp [isBlank]
    exact hmarks c hmark

/-- A decimal behind a minus sign or without one has no white space around it. -/
theorem trim_signed {n : Numeral} (h : n.Proper) (negative : Bool) :
    trim ((if negative then "-" else "") ++ String.ofList n.chars) = (if negative then "-" else "") ++ String.ofList n.chars := by
  have hsign : ∀ c ∈ (if negative then "-" else "").toList, isBlank c = false := by cases negative <;> simp [isBlank]
  rw [trim, trimChars_eq_self, String.ofList_toList]
  rw [String.toList_append, String.toList_ofList]
  exact List.forall_mem_append.2 ⟨hsign, not_isBlank_of_mem_chars h⟩

theorem HasLiteral.trim_format (h : x.HasLiteral) : trim x.format = x.format := by
  obtain ⟨s, m, e, rfl, hnormal, hsign⟩ := h
  obtain ⟨n, hproper, hformat⟩ := exists_decimal hnormal
  rw [hformat s hsign, trim_signed hproper]

/-- A literal stands for its number. -/
theorem HasLiteral.literalValue_format (h : x.HasLiteral) : Emit.literalValue x.format = x := by
  have htrim := h.trim_format
  obtain ⟨s, m, e, rfl, hnormal, hsign⟩ := h
  have hread : read (Double.finite s m e).format = .ok (.finite s m e) := by
    refine read_toText codeStyle hnormal fun hm hs => ?_
    rw [hsign hm] at hs
    cases hs
  unfold Emit.literalValue
  dsimp only
  rw [htrim, hread]

/-- A number that has a literal is negative if its sign says so. -/
theorem isNegative_finite {s : Bool} {m : Nat} (hsign : m = 0 → s = false) (e : Int) : isNegative (.finite s m e) = s := by
  rw [isNegative, zero, le_finite, le_finite, value_zero]
  cases s with
  | false => simp [zero_le_value m e]
  | true =>
    have hne : value false m e ≠ 0 := fun hzero => Bool.noConfusion (hsign (value_eq_zero_iff.1 hzero))
    have hpos : 0 < value false m e := lt_of_le_of_ne (zero_le_value m e) hne.symm
    rw [value_true]
    simp [hpos, hpos.le]

/-! ## Whole numbers -/

/-- What the digits of a whole number spell is rounded as the number itself, unless that is infinite. -/
theorem ofScientific_natAbs {k : Int} {s : Bool} {m : Nat} {e : Int} (h : ofInt k = .finite s m e) :
    ofScientific (k < 0) k.natAbs 0 = ofInt k := by
  by_cases hk : k = 0
  · subst hk
    rfl
  · have hbound := (bounds_of_ofInt hk h).2
    have hne : k.natAbs ≠ 0 := Int.natAbs_ne_zero.2 hk
    have height : 2 ^ (3 * (digitCount k.natAbs - 1)) = 8 ^ (digitCount k.natAbs - 1) := Nat.pow_mul 2 3 _
    have hpow : 2 ^ (3 * (digitCount k.natAbs - 1)) ≤ k.natAbs :=
      height ▸ (Nat.pow_le_pow_left (by decide) _).trans (pow_le_of_ne_zero hne)
    have hlength : 3 * ((Nat.toDigits 10 k.natAbs).length - 1) ≤ k.natAbs.log2 := (Nat.le_log2 hne).2 hpow
    unfold ofScientific
    dsimp only
    rw [if_neg hne, if_neg (by omega), if_neg (by omega), if_pos (le_refl _)]
    exact congrArg (ofFraction _ · 1) (Nat.mul_one _)

/-- The digits of a whole number, behind a minus sign if it is negative, read as the number nearest to it unless
that is infinite. -/
theorem read_ofInt {k : Int} {s : Bool} {m : Nat} {e : Int} (h : ofInt k = .finite s m e) :
    read (trim (Text.ofInt k)) = .ok (ofInt k) := by
  have hproper : Numeral.Proper ⟨Nat.toDigits 10 k.natAbs, [], none⟩ :=
    ⟨Nat.toDigits_ne_nil, isDigit_of_mem_toDigits, by simp, by simp⟩
  have hchars : Numeral.chars ⟨Nat.toDigits 10 k.natAbs, [], none⟩ = Nat.toDigits 10 k.natAbs := List.append_nil _
  have htext : Text.ofInt k = (if decide (k < 0) then "-" else "") ++ String.ofList (Nat.toDigits 10 k.natAbs) := by
    rw [Text.ofInt]
    split <;> simp [ofNat, *]
  have hunits : Numeral.units ⟨Nat.toDigits 10 k.natAbs, [], none⟩ = k.natAbs := by
    rw [Numeral.units, List.append_nil, digitsFrom_toDigits]
  have hscale : Numeral.scale ⟨Nat.toDigits 10 k.natAbs, [], none⟩ = 0 := rfl
  have htrim := trim_signed hproper (k < 0)
  have hread := read_chars hproper (k < 0)
  rw [hunits, hscale, ofScientific_natAbs h] at hread
  rw [hchars, ← htext] at htrim hread
  rw [htrim, hread, h]
  rfl

end Blockwright.Double

import SwarrmVerify.Core.Panics
import SwarrmVerify.L4Dispute.Texts

/-!
# Texts of floats (`dispute.rs`)

`float_text` takes the text that `serde_json` prints for a float apart and puts
it together again as Python prints it. Here it runs step by step: the
arithmetic is that of `i32`, and every slice may be out of range.

The text that it is given is a numeral (`Core.Numeral`), and what it makes of
it is one as well. That the number is kept is shown in two halves which meet in
the significant digits and the place of the first of them. A text is read as
these (`normalForm_text`, `scientific_value`), and from these another is written
(`renderFloat_value`): with a point as long as the first digit stands between
the fourth place after the point and the sixteenth before it, and else with
one digit before the point and an exponent.

**Results.**
* `floatTextRun_eq`: on a text far from the limits of `i32` nothing overflows
  and no slice is out of range. A double is printed far from them.
* `wide_value`: whether the text gets an exponent is read off the number, since
  the power of the first digit is its logarithm.
* `float_text_exact`: on every numeral with its exponent well inside `i32` the
  text returned is a numeral of the same number and sign, of Python's form.
-/
namespace SwarrmVerify.L4.Dispute
open Numeral Panics

/-! ## Runs -/

/-- An `i32` operation; an overflow counts as a panic, as it is one in a debug
build. -/
def i32 (i : Int) : Run Int := if -(2 ^ 31) ≤ i ∧ i < 2 ^ 31 then .ok i else .error .range

/-- `as i32`, which wraps and never fails. -/
def asI32 (n : Nat) : Int := Int.bmod n (2 ^ 32)

theorem i32_of_range {i : Int} (h : -(2 ^ 31) ≤ i ∧ i < 2 ^ 31) : i32 i = .ok i := if_pos h

theorem asI32_of_lt {n : Nat} (h : n < 2 ^ 31) : asI32 n = n := by
  unfold asI32
  apply Int.bmod_eq_of_le <;> omega

/-- The digits with an exponent or a point, by the power of the first of them.
mirrors verify-rs/src/dispute.rs:124-136 -/
def renderRun (digits : List Char) (power : Int) : Run (List Char) :=
  if ¬(-4 ≤ power ∧ power < 16) then do
    let fraction ← if 1 < digits.length then ('.' :: ·) <$> sliceOf digits 1 digits.length else pure []
    return (← sliceOf digits 0 1) ++ fraction ++ 'e' :: powerText power
  else do
    let point ← i32 (power + 1)
    if point ≤ 0 then
      let zeros ← i32 (-point)
      return '0' :: '.' :: (List.replicate zeros.toNat '0' ++ digits)
    else if digits.length ≤ point.toNat then
      let zeros ← sub point.toNat digits.length
      return digits ++ List.replicate zeros '0' ++ ['.', '0']
    else return (← sliceOf digits 0 point.toNat) ++ '.' :: (← sliceOf digits point.toNat digits.length)

/-- A mantissa shifted by an exponent: sign, digits without the zeros around
them, and the power of the first.
mirrors verify-rs/src/dispute.rs:113-136 -/
def mantissaRun (mantissa : List Char) (exponent : Int) : Run (List Char) := do
  let sign := if mantissa.head? = some '-' then ['-'] else []
  let unsigned := mantissa.dropWhile (· = '-')
  let point := asI32 (unsigned.takeWhile (· ≠ '.')).length
  let digits := unsigned.filter (· ≠ '.')
  let zeros := (digits.takeWhile (· = '0')).length
  if zeros = digits.length then return sign ++ ['0', '.', '0']
  else
    let shifted ← i32 (point + exponent)
    let first ← i32 (shifted - asI32 zeros)
    let power ← i32 (first - 1)
    let digits ← sliceOf digits zeros digits.length
    return sign ++ (← renderRun (digits.rdropWhile (· = '0')) power)

/-- `float_text` with its `i32` arithmetic and its slices. The text is ASCII: a
character is a byte.
mirrors verify-rs/src/dispute.rs:109-137 -/
def floatTextRun (raw : List Char) : Attempt (List Char) := do
  let (mantissa, exponent) := splitExponent raw
  let exponent ← OptionT.mk (pure (parseI32 exponent))
  mantissaRun mantissa exponent

theorem renderRun_eq {digits : List Char} {power : Int} (hne : digits ≠ []) :
    renderRun digits power = .ok (renderDigits digits power) := by
  have hlength := List.length_pos_iff.mpr hne
  have hdrop : ∀ {n : Nat}, n ≤ digits.length → sliceOf digits n digits.length = .ok (digits.drop n) := by
    intro n hn
    rw [sliceOf_of_le hn le_rfl, List.take_length]
  have htake : ∀ {n : Nat}, n ≤ digits.length → sliceOf digits 0 n = .ok (digits.take n) := by
    intro n hn
    rw [sliceOf_of_le (Nat.zero_le _) hn, List.drop_zero]
  unfold renderRun renderDigits
  by_cases hwide : ¬(-4 ≤ power ∧ power < 16)
  · rw [if_pos hwide, if_pos hwide, htake hlength]
    by_cases hlong : 1 < digits.length
    · rw [if_pos hlong, if_pos hlong, hdrop hlong.le]
      rfl
    · rw [if_neg hlong, if_neg hlong]
      rfl
  · rw [if_neg hwide, if_neg hwide, i32_of_range (by omega), ok_bind]
    dsimp only
    by_cases hlow : power + 1 ≤ 0
    · rw [if_pos hlow, if_pos hlow, i32_of_range (by omega)]
      rfl
    · rw [if_neg hlow, if_neg hlow]
      by_cases hshort : digits.length ≤ (power + 1).toNat
      · rw [if_pos hshort, if_pos hshort, sub_eq_ok.mpr ⟨hshort, rfl⟩]
        rfl
      · rw [if_neg hshort, if_neg hshort, htake (by omega), hdrop (by omega)]
        rfl

theorem mantissaRun_eq {mantissa : List Char} {e : Int} (h : (mantissa.length : Int) + |e| < 2 ^ 31) :
    mantissaRun mantissa e = .ok (renderFloat (scientific mantissa e)) := by
  have he := abs_lt.mp (by omega : |e| < 2 ^ 31 - mantissa.length)
  unfold mantissaRun scientific
  dsimp only
  have hunsigned : (mantissa.dropWhile (· = '-')).length ≤ mantissa.length := (List.dropWhile_suffix _).length_le
  generalize mantissa.dropWhile (· = '-') = unsigned at hunsigned
  have hpoint : (unsigned.takeWhile (· ≠ '.')).length ≤ unsigned.length := (List.takeWhile_prefix _).length_le
  have hdigits : (unsigned.filter (· ≠ '.')).length ≤ unsigned.length := List.length_filter_le _ _
  generalize unsigned.filter (· ≠ '.') = digits at hdigits
  have hzeros : (digits.takeWhile (· = '0')).length ≤ digits.length := (List.takeWhile_prefix _).length_le
  by_cases hall : (digits.takeWhile (· = '0')).length = digits.length
  · rw [if_pos hall, if_pos hall, renderFloat]
    simp only [decide_eq_true_eq]
    rfl
  · have htrim := trimmed_ne hall
    rw [if_neg hall, if_neg hall, renderFloat, asI32_of_lt (by omega), asI32_of_lt (by omega),
      i32_of_range (by omega), ok_bind, i32_of_range (by omega), ok_bind, i32_of_range (by omega), ok_bind,
      sliceOf_of_le hzeros le_rfl, ok_bind, List.take_length, drop_zeros, renderRun_eq htrim, ok_bind, if_neg htrim]
    simp only [decide_eq_true_eq]
    rfl

theorem mantissa_length (raw : List Char) : (splitExponent raw).1.length ≤ raw.length := by
  unfold splitExponent
  split
  · exact (List.takeWhile_prefix _).length_le
  · exact le_rfl

/-- **No panic.** Far enough from the limits of `i32` nothing overflows and no
slice is out of range. -/
theorem floatTextRun_eq {raw : List Char}
    (h : ∀ e, parseI32 (splitExponent raw).2 = some e → (raw.length : Int) + |e| < 2 ^ 31) :
    (floatTextRun raw).run = .ok (floatText raw) := by
  unfold floatTextRun floatText normalForm
  dsimp only
  cases he : parseI32 (splitExponent raw).2 with
  | none => rfl
  | some e =>
    have hmantissa := mantissa_length raw
    have hfits := h e he
    have hrun : mantissaRun (splitExponent raw).1 e = .ok (renderFloat (scientific (splitExponent raw).1 e)) :=
      mantissaRun_eq (by omega)
    have hsome : (OptionT.mk (pure (some e)) : Attempt Int) = OptionT.mk (Except.ok (some e)) := rfl
    rw [hsome, attempt_some_bind, hrun]
    rfl

/-! ## What is read -/

/-- The number of the digits and their power, with the sign. -/
def Scientific.value (s : Scientific) : ℚ := (if s.negative then -1 else 1) * placed s.digits s.power

/-- The exponent is well inside the limits of `i32`, with room for the digits,
as it is for whatever a crate prints of a float. -/
def InRange (l : Lexeme) : Prop := (l.text.length : Int) + |l.shift| < 2 ^ 31

/-- A numeral without its exponent, which is what the code shifts. -/
def mantissaOf (l : Lexeme) : List Char := l.signText ++ (l.whole ++ l.fractionText)

theorem text_eq (l : Lexeme) : l.text = mantissaOf l ++ l.exponentText := by
  simp only [Lexeme.text, mantissaOf, List.append_assoc]

theorem fraction_point (l : Lexeme) :
    l.fractionText = [] ∧ l.fraction = [] ∨ l.fractionText = '.' :: l.fraction := by
  unfold Lexeme.fractionText
  split
  · rename_i hnil
    exact .inl ⟨rfl, hnil⟩
  · exact .inr rfl

theorem parseI32_signed (sign : Sign) {ds : List Char} (hds : ds ≠ [] ∧ ∀ c ∈ ds, c.isDigit = true)
    (hn : (coefficient ds : Int) < 2 ^ 31) : parseI32 (sign.text ++ ds) = some (sign.apply (coefficient ds)) := by
  have hgood : (ds.isEmpty || !ds.all Char.isDigit) = false := by
    rw [List.all_eq_true.mpr hds.2, List.isEmpty_eq_false_iff.mpr hds.1]
    rfl
  cases sign with
  | bare =>
    rw [Sign.text, List.nil_append]
    unfold parseI32
    split
    rename_i negative digits hsplit
    have hstart : ∀ {c : Char} {r : List Char}, c.isDigit = false → ds ≠ c :: r := by
      rintro c r hc rfl
      rw [hds.2 c (by simp)] at hc
      cases hc
    split at hsplit
    · rename_i r
      exact absurd rfl (hstart (r := r) (by decide))
    · rename_i r
      exact absurd rfl (hstart (r := r) (by decide))
    · cases hsplit
      simp only [hgood, Bool.false_eq_true, if_false]
      exact if_pos ⟨by omega, hn⟩
  | plus =>
    rw [Sign.text, List.singleton_append, parseI32]
    simp only [hgood, Bool.false_eq_true, if_false]
    exact if_pos ⟨by omega, hn⟩
  | minus =>
    rw [Sign.text, List.singleton_append, parseI32]
    simp only [hgood, Bool.false_eq_true, if_false, if_true]
    rw [coefficient] at hn
    exact if_pos ⟨by omega, by omega⟩

theorem shift_abs {sign : Sign} {n : Nat} : |sign.apply n| = n := by
  cases sign with
  | minus => rw [Sign.apply, abs_neg, Nat.abs_cast]
  | bare => exact Nat.abs_cast n
  | plus => exact Nat.abs_cast n

/-- A numeral in range is read as its digits and its exponent, since its text
splits where its exponent begins. -/
theorem normalForm_text {l : Lexeme} (h : InRange l) :
    parseI32 (splitExponent l.text).2 = some l.shift ∧
    normalForm l.text = some (scientific (mantissaOf l) l.shift) := by
  have hmark : 'e' ∉ mantissaOf l := mark_not_mem l.negative (fraction_point l) l.whole_digit l.fraction_digit
  have hparse : (splitExponent l.text).1 = mantissaOf l ∧ parseI32 (splitExponent l.text).2 = some l.shift := by
    rw [text_eq, Lexeme.exponentText, Lexeme.shift]
    cases he : l.exponent with
    | none =>
      dsimp only
      rw [List.append_nil, splitExponent_none hmark]
      exact ⟨rfl, (by decide : parseI32 ['0'] = some 0)⟩
    | some e =>
      dsimp only
      rw [splitExponent_mark hmark]
      refine ⟨rfl, parseI32_signed e.1 (l.exponent_digit e he) ?_⟩
      have hshift : |l.shift| = coefficient e.2 := by
        rw [Lexeme.shift, he]
        exact shift_abs
      unfold InRange at h
      omega
  exact ⟨hparse.2, by rw [normalForm, hparse.2, hparse.1]; rfl⟩

/-- What is read off a numeral has its value, and its sign even where the value
is zero. -/
theorem scientific_value (l : Lexeme) :
    Normal (scientific (mantissaOf l) l.shift) ∧ (scientific (mantissaOf l) l.shift).negative = l.negative ∧
    (scientific (mantissaOf l) l.shift).value = l.value := by
  obtain ⟨a, b, core, hall, hfirst, hlast⟩ := zeros_around (l.whole ++ l.fraction)
  have hvalue := l.value_among hall
  by_cases hnil : core = []
  · subst hnil
    rw [List.append_nil, ← List.replicate_add] at hall
    rw [mantissaOf, Lexeme.signText,
      scientific_zero l.negative l.shift (fraction_point l) l.whole_digit l.fraction_digit l.whole_ne hall]
    refine ⟨⟨⟨nofun, nofun, nofun⟩, fun _ => rfl⟩, rfl, ?_⟩
    rw [hvalue, Scientific.value, placed_nil, placed_nil]
  · have hdigit : ∀ c ∈ core, c.isDigit = true := by
      intro c hc
      have hmem : c ∈ l.whole ++ l.fraction := by
        rw [hall]
        simp [hc]
      rcases List.mem_append.mp hmem with hw | hf
      · exact l.whole_digit c hw
      · exact l.fraction_digit c hf
    have hcore : Significant core := ⟨hdigit, hfirst, hlast⟩
    rw [mantissaOf, Lexeme.signText, scientific_eq l.negative l.shift (fraction_point l) l.whole_digit l.fraction_digit
      l.whole_ne hcore hnil hall]
    refine ⟨⟨hcore, fun h => absurd h hnil⟩, rfl, ?_⟩
    rw [hvalue, Scientific.value, add_comm (l.whole.length : Int)]

/-! ## What is written -/

/-- The decimal exponent of the first significant digit, for which Python writes
an exponent. -/
def Wide (q : ℚ) : Prop := q ≠ 0 ∧ (Int.log 10 |q| < -4 ∨ 16 ≤ Int.log 10 |q|)

/-- A point and no exponent; no zero ends the fraction unless it is all of it. -/
structure Positional (m : Lexeme) : Prop where
  exponent : m.exponent = none
  point : m.fraction ≠ []
  short : 1 < m.fraction.length → m.fraction.getLast? ≠ some '0'

/-- One digit before the point, and a signed exponent of two digits at least. -/
structure Exponential (m : Lexeme) : Prop where
  exponent : ∃ sign ds, m.exponent = some (sign, ds) ∧ sign ≠ .bare ∧ 2 ≤ ds.length
  whole : ∃ c, m.whole = [c] ∧ c ≠ '0'
  short : m.fraction.getLast? ≠ some '0'

def powerSign (p : Int) : Sign := if p < 0 then .minus else .plus

def powerDigits (p : Int) : List Char :=
  if p.natAbs < 10 then '0' :: Nat.toDigits 10 p.natAbs else Nat.toDigits 10 p.natAbs

theorem powerText_eq (p : Int) : powerText p = (powerSign p).text ++ powerDigits p := by
  unfold powerText powerSign powerDigits
  by_cases hneg : p < 0
  · rw [if_pos hneg, if_pos hneg]
    rfl
  · rw [if_neg hneg, if_neg hneg]
    rfl

theorem powerDigits_digit (p : Int) : ∀ c ∈ powerDigits p, c.isDigit = true := by
  intro c hc
  unfold powerDigits at hc
  split at hc
  · rcases List.mem_cons.mp hc with rfl | hc
    · decide
    · exact toDigits_digit _ c hc
  · exact toDigits_digit _ c hc

theorem powerDigits_coefficient (p : Int) : coefficient (powerDigits p) = p.natAbs := by
  unfold powerDigits
  split
  · have hzero : '0'.toNat - 48 = 0 := rfl
    rw [coefficient_cons, hzero, zero_mul, zero_add]
    exact Nat.ofDigitChars_ten_toDigits
  · exact Nat.ofDigitChars_ten_toDigits

theorem powerDigits_length (p : Int) : 2 ≤ (powerDigits p).length := by
  unfold powerDigits
  split
  · have := List.length_pos_iff.mpr (Nat.toDigits_ne_nil (n := p.natAbs) (b := 10))
    rw [List.length_cons]
    omega
  · rename_i hbig
    by_contra hshort
    have hlt := coefficient_lt (toDigits_digit p.natAbs)
    have hpow : 10 ^ (Nat.toDigits 10 p.natAbs).length ≤ 10 ^ 1 := Nat.pow_le_pow_right (by decide) (by omega)
    rw [coefficient, Nat.ofDigitChars_ten_toDigits] at hlt
    omega

theorem powerSign_apply (p : Int) : (powerSign p).apply (coefficient (powerDigits p)) = p := by
  rw [powerDigits_coefficient]
  unfold powerSign
  split
  · rw [Sign.apply]
    omega
  · show (p.natAbs : Int) = p
    omega

section Written

variable {ds : List Char} {p : Int}

/-- One digit, the others as a fraction, and the power as the exponent. -/
theorem exponent_written (negative : Bool) (hds : Significant ds) (hne : ds ≠ []) (hwide : ¬(-4 ≤ p ∧ p < 16)) :
    ∃ m : Lexeme, m.text = (if negative then ['-'] else []) ++ renderDigits ds p ∧ m.negative = negative ∧
      m.value = (if negative then -1 else 1) * placed ds p ∧ Exponential m := by
  obtain ⟨c, rest, rfl⟩ := List.exists_cons_of_ne_nil hne
  have hdigit := List.forall_mem_cons.mp hds.digit
  let m : Lexeme :=
    { negative := negative, whole := [c], fraction := rest, exponent := some (powerSign p, powerDigits p)
      whole_ne := by simp
      whole_digit := by simpa using hdigit.1
      fraction_digit := hdigit.2
      exponent_digit := by
        rintro _ ⟨⟩
        exact ⟨List.length_pos_iff.mp (Nat.lt_of_lt_of_le Nat.zero_lt_two (powerDigits_length p)),
          powerDigits_digit p⟩ }
  have hshift : m.shift = p := powerSign_apply p
  refine ⟨m, ?_, rfl, ?_, ⟨⟨_, _, rfl, ?_, powerDigits_length p⟩, ⟨c, rfl, ?_⟩, ?_⟩⟩
  · have hfraction : m.fractionText = if 1 < (c :: rest).length then '.' :: rest else [] := by
      show (if rest = [] then [] else '.' :: rest) = _
      cases rest with
      | nil => rfl
      | cons d rest => simp
    rw [renderDigits, if_pos hwide, Lexeme.text, hfraction, powerText_eq]
    simp only [m, Lexeme.signText, Lexeme.exponentText, List.take_succ_cons, List.take_zero, List.drop_succ_cons,
      List.drop_zero, List.append_assoc]
  · have hall : m.whole ++ m.fraction = List.replicate 0 '0' ++ (c :: rest) ++ List.replicate 0 '0' := by simp [m]
    rw [m.value_among hall, hshift]
    simp [m]
  · unfold powerSign
    split <;> decide
  · rintro rfl
    exact hds.first rfl
  · intro hlast
    have := hds.last
    rw [List.getLast?_cons, show rest.getLast? = some '0' from hlast] at this
    exact this rfl

/-- A numeral without an exponent, from its parts. -/
def pointed (negative : Bool) (whole fraction : List Char) (hne : whole ≠ []) (hw : ∀ c ∈ whole, c.isDigit = true)
    (hf : ∀ c ∈ fraction, c.isDigit = true) : Lexeme :=
  { negative := negative, whole := whole, fraction := fraction, exponent := none
    whole_ne := hne, whole_digit := hw, fraction_digit := hf, exponent_digit := nofun }

theorem pointed_written (negative : Bool) (whole fraction : List Char) {a b : Nat} (hne : whole ≠ [])
    (hw : ∀ c ∈ whole, c.isDigit = true) (hf : ∀ c ∈ fraction, c.isDigit = true) (hpoint : fraction ≠ [])
    (hlast : 1 < fraction.length → fraction.getLast? ≠ some '0')
    (hall : whole ++ fraction = List.replicate a '0' ++ ds ++ List.replicate b '0') (hp : p = whole.length - a - 1)
    {text : List Char} (htext : text = whole ++ '.' :: fraction) :
    ∃ m : Lexeme, m.text = (if negative then ['-'] else []) ++ text ∧ m.negative = negative ∧
      m.value = (if negative then -1 else 1) * placed ds p ∧ Positional m := by
  refine ⟨pointed negative whole fraction hne hw hf, ?_, rfl, ?_, ⟨rfl, hpoint, hlast⟩⟩
  · have hfraction : (pointed negative whole fraction hne hw hf).fractionText = '.' :: fraction := if_neg hpoint
    rw [htext, Lexeme.text, hfraction]
    simp only [pointed, Lexeme.signText, Lexeme.exponentText, List.append_nil]
    rfl
  · have hshift : (pointed negative whole fraction hne hw hf).shift = 0 := rfl
    rw [Lexeme.value_among _ hall, hp, hshift, zero_add]
    rfl

theorem point_written (negative : Bool) (hds : Significant ds) (hne : ds ≠ []) (hnear : -4 ≤ p ∧ p < 16) :
    ∃ m : Lexeme, m.text = (if negative then ['-'] else []) ++ renderDigits ds p ∧ m.negative = negative ∧
      m.value = (if negative then -1 else 1) * placed ds p ∧ Positional m := by
  obtain ⟨whole, fraction, a, b, htext, hwhole, hw, hf, hpoint, hlast, hall, hp⟩ := renderDigits_point hds hne hnear
  exact pointed_written negative whole fraction hwhole hw hf hpoint hlast hall hp htext

end Written

/-- The text gets an exponent: the power is outside the range in which a point
is written. -/
def FarPower (s : Scientific) : Prop := s.digits ≠ [] ∧ ¬(-4 ≤ s.power ∧ s.power < 16)

/-- What is written is a numeral of the same value, in the one form or in the
other. -/
theorem renderFloat_value {s : Scientific} (h : Normal s) :
    ∃ m : Lexeme, m.text = renderFloat s ∧ m.negative = s.negative ∧ m.value = s.value ∧
      (FarPower s → Exponential m) ∧ (¬FarPower s → Positional m) := by
  obtain ⟨negative, ds, p⟩ := s
  by_cases hnil : ds = []
  · have hall : ['0'] ++ ['0'] = List.replicate 2 '0' ++ ([] : List Char) ++ List.replicate 0 '0' := rfl
    obtain ⟨m, htext, hsign, hvalue, hshape⟩ :=
      pointed_written negative ['0'] ['0'] (by simp) (by simp) (by simp) (by simp) (by simp) hall rfl rfl
    refine ⟨m, ?_, hsign, ?_, fun hfar => absurd hnil hfar.1, fun _ => hshape⟩
    · rw [htext, renderFloat, if_pos hnil]
      rfl
    · rw [hvalue, Scientific.value, hnil, placed_nil, placed_nil]
  · by_cases hwide : ¬(-4 ≤ p ∧ p < 16)
    · obtain ⟨m, htext, hsign, hvalue, hshape⟩ := exponent_written negative h.significant hnil hwide
      refine ⟨m, ?_, hsign, hvalue, fun _ => hshape, fun hnot => absurd ⟨hnil, hwide⟩ hnot⟩
      rw [htext, renderFloat, if_neg hnil]
    · have hnear := not_not.mp hwide
      obtain ⟨m, htext, hsign, hvalue, hshape⟩ := point_written negative h.significant hnil hnear
      refine ⟨m, ?_, hsign, hvalue, fun hfar => absurd hnear hfar.2, fun _ => hshape⟩
      rw [htext, renderFloat, if_neg hnil]

/-- The power of the first digit is the logarithm of the number, so the form
depends on the number only. -/
theorem wide_value {s : Scientific} (h : Normal s) : Wide s.value ↔ FarPower s := by
  obtain ⟨negative, ds, p⟩ := s
  have habs : |Scientific.value ⟨negative, ds, p⟩| = placed ds p := by
    have hnonneg := placed_nonneg ds p
    cases negative with
    | true =>
      show |-1 * placed ds p| = _
      rw [neg_one_mul, abs_neg, abs_of_nonneg hnonneg]
    | false =>
      show |1 * placed ds p| = _
      rw [one_mul, abs_of_nonneg hnonneg]
  unfold Wide FarPower
  rw [habs, ← abs_pos, habs]
  cases ds with
  | nil => simp [placed_nil]
  | cons c rest =>
    have hc : c ≠ '0' := by
      rintro rfl
      exact h.significant.first rfl
    have hpos := placed_pos h.significant.digit hc p
    rw [log_placed h.significant.digit hc p]
    simp only [hpos, true_and, ne_eq, List.cons_ne_nil, not_false_eq_true]
    omega

/-! ## The text of a float -/

/-- **Float texts are exact.** A numeral with its exponent well inside `i32`
gets a text without a panic. The text is a numeral of the same value and sign,
with an exponent if the decimal exponent of its first digit is below -4 or at
least 16, and with a point otherwise; numerals with one text have one value. -/
theorem float_text_exact (l : Lexeme) (h : InRange l) :
    ∃ m : Lexeme, (floatTextRun l.text).run = .ok (some m.text) ∧ m.value = l.value ∧ m.negative = l.negative ∧
      (Wide l.value → Exponential m) ∧ (¬Wide l.value → Positional m) ∧
      ∀ k : Lexeme, InRange k → (floatTextRun k.text).run = (floatTextRun l.text).run →
        k.value = l.value ∧ k.negative = l.negative := by
  have hrun : ∀ k : Lexeme, InRange k → ∃ m : Lexeme, (floatTextRun k.text).run = .ok (some m.text) ∧
      m.value = k.value ∧ m.negative = k.negative ∧ (Wide k.value → Exponential m) ∧
      (¬Wide k.value → Positional m) := by
    intro k hk
    obtain ⟨hparse, hform⟩ := normalForm_text hk
    obtain ⟨hnormal, hsign, hvalue⟩ := scientific_value k
    obtain ⟨m, htext, hnegative, hm, hfar, hnear⟩ := renderFloat_value hnormal
    have hfits : ∀ e, parseI32 (splitExponent k.text).2 = some e → (k.text.length : Int) + |e| < 2 ^ 31 := by
      intro e he
      rw [hparse, Option.some.injEq] at he
      rwa [← he]
    have hwide : Wide k.value ↔ FarPower (scientific (mantissaOf k) k.shift) := by
      rw [← hvalue]
      exact wide_value hnormal
    refine ⟨m, ?_, hm.trans hvalue, hnegative.trans hsign, fun hw => hfar (hwide.mp hw),
      fun hw => hnear fun hp => hw (hwide.mpr hp)⟩
    rw [floatTextRun_eq hfits, floatText, hform, Option.map_some, htext]
  obtain ⟨m, htext, hvalue, hsign, hfar, hnear⟩ := hrun l h
  refine ⟨m, htext, hvalue, hsign, hfar, hnear, fun k hk he => ?_⟩
  obtain ⟨n, hn, hnvalue, hnsign, -, -⟩ := hrun k hk
  rw [hn, htext, Except.ok.injEq, Option.some.injEq] at he
  obtain rfl := Lexeme.text_inj he
  exact ⟨hnvalue.symm.trans hvalue, hnsign.symm.trans hsign⟩

/-- `-1.5e300`, as `serde_json` prints it. -/
def printed : Lexeme :=
  { negative := true, whole := ['1'], fraction := ['5'], exponent := some (.bare, ['3', '0', '0'])
    whole_ne := by simp
    whole_digit := by simp
    fraction_digit := by simp
    exponent_digit := by simp }

theorem float_text_printed : ∃ m : Lexeme, m.text = ['-', '1', '.', '5', 'e', '+', '3', '0', '0'] ∧
    m.value = printed.value ∧ m.negative = true := by
  have h : InRange printed := by
    unfold InRange
    decide
  have hrun : (floatTextRun printed.text).run = .ok (some ['-', '1', '.', '5', 'e', '+', '3', '0', '0']) := by
    decide +kernel
  obtain ⟨m, htext, hvalue, hsign, -⟩ := float_text_exact printed h
  rw [hrun, Except.ok.injEq, Option.some.injEq] at htext
  exact ⟨m, htext.symm, hvalue, hsign⟩

end SwarrmVerify.L4.Dispute

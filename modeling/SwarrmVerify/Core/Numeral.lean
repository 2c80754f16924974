import Mathlib.Tactic
import Mathlib.Data.Int.Log

/-!
# Decimal numerals

A numeral is a text `[-]digits[.digits][e[+-]digits]`, and stands for a
rational number. The same number has many numerals: zeros may stand before and
after its digits, the point may be anywhere, the exponent may make up for it.
What they have in common is their significant digits and the place of the first
of them. A change of notation that keeps these keeps the number, and this is
how a printer is compared with a reader.

`coefficient ds` is the number that digits stand for as a whole, `placed p ds`
that of the digits of which the first counts powers `p` of ten. A `Lexeme` is a
numeral with its parts.

* `placed_zeros`: zeros before the digits move the first one, and zeros after
  them do nothing.
* `log_placed`: where the first digit stands is the logarithm of the number,
  provided that digit is not zero.
* `Lexeme.value_among`: the value of a numeral by its significant digits,
  whatever zeros stand around them.
* `Lexeme.text_inj`: a text is of one numeral at most. A run of digits is told
  from what follows it by the first character that is no digit.
-/
namespace Numeral

/-! ## Digits -/

/-- The number that digits stand for, most significant digit first. -/
abbrev coefficient (ds : List Char) : Nat := Nat.ofDigitChars 10 ds 0

theorem coefficient_append (a b : List Char) :
    coefficient (a ++ b) = 10 ^ b.length * coefficient a + coefficient b := by
  rw [coefficient, Nat.ofDigitChars_append, Nat.ofDigitChars_eq_ofDigitChars_zero]

theorem coefficient_replicate (n : Nat) : coefficient (List.replicate n '0') = 0 := by
  simp [coefficient]

theorem coefficient_cons (c : Char) (ds : List Char) :
    coefficient (c :: ds) = (c.toNat - 48) * 10 ^ ds.length + coefficient ds := by
  rw [coefficient, Nat.ofDigitChars_cons, Nat.ofDigitChars_eq_ofDigitChars_zero, mul_comm, mul_zero, zero_add]
  rfl

theorem digit_range {c : Char} (h : c.isDigit = true) : 48 ≤ c.toNat ∧ c.toNat ≤ 57 := by
  simp only [Char.isDigit, Bool.and_eq_true, decide_eq_true_eq] at h
  exact ⟨h.1, h.2⟩

theorem coefficient_lt {ds : List Char} (h : ∀ c ∈ ds, c.isDigit = true) : coefficient ds < 10 ^ ds.length := by
  induction ds with
  | nil => simp [coefficient]
  | cons c ds ih =>
    rw [List.forall_mem_cons] at h
    have hrest := ih h.2
    have hc : c.toNat - 48 ≤ 9 := by
      have := (digit_range h.1).2
      omega
    calc coefficient (c :: ds) = (c.toNat - 48) * 10 ^ ds.length + coefficient ds := coefficient_cons c ds
      _ < 9 * 10 ^ ds.length + 10 ^ ds.length := add_lt_add_of_le_of_lt (Nat.mul_le_mul_right _ hc) hrest
      _ = 10 ^ (c :: ds).length := by rw [List.length_cons, pow_succ]; ring

/-- The first digit is not zero, so the number has as many digits as are
written. -/
theorem coefficient_ge {c : Char} {ds : List Char} (h : c.isDigit = true) (hc : c ≠ '0') :
    10 ^ ds.length ≤ coefficient (c :: ds) := by
  have hpos : 1 ≤ c.toNat - 48 := by
    have hne : c.toNat ≠ '0'.toNat := fun he => hc (Char.toNat_inj.mp he)
    have hzero : '0'.toNat = 48 := rfl
    have := (digit_range h).1
    omega
  rw [coefficient_cons]
  calc 10 ^ ds.length = 1 * 10 ^ ds.length := (one_mul _).symm
    _ ≤ (c.toNat - 48) * 10 ^ ds.length := Nat.mul_le_mul_right _ hpos
    _ ≤ _ := Nat.le_add_right _ _

theorem zeros_after (ds : List Char) : ∃ (core : List Char) (b : Nat), ds = core ++ List.replicate b '0' ∧
    core.getLast? ≠ some '0' := by
  induction ds using List.reverseRecOn with
  | nil => exact ⟨[], 0, rfl, nofun⟩
  | append_singleton ds c ih =>
    by_cases hc : c = '0'
    · obtain ⟨core, b, rfl, hlast⟩ := ih
      refine ⟨core, b + 1, ?_, hlast⟩
      rw [hc, List.replicate_succ', List.append_assoc]
    · refine ⟨ds ++ [c], 0, (List.append_nil _).symm, ?_⟩
      simp [hc]

/-- The significant digits and the zeros around them. Of zeros alone there are
no significant digits. -/
theorem zeros_around (ds : List Char) : ∃ (a b : Nat) (core : List Char),
    ds = List.replicate a '0' ++ core ++ List.replicate b '0' ∧ core.head? ≠ some '0' ∧ core.getLast? ≠ some '0' := by
  induction ds with
  | nil => exact ⟨0, 0, [], rfl, nofun, nofun⟩
  | cons c ds ih =>
    by_cases hc : c = '0'
    · obtain ⟨a, b, core, rfl, hfirst, hlast⟩ := ih
      exact ⟨a + 1, b, core, by rw [hc, List.replicate_succ]; rfl, hfirst, hlast⟩
    · obtain ⟨core, b, heq, hlast⟩ := zeros_after (c :: ds)
      refine ⟨0, b, core, heq, ?_, hlast⟩
      cases core with
      | nil => exact nofun
      | cons d core =>
        have hdc : c = d := (List.cons.inj heq).1
        simp [← hdc, hc]

/-! ## Places -/

/-- The number of digits the first of which counts powers `p` of ten. It is how
a value is written without regard to the point. -/
def placed (ds : List Char) (p : Int) : ℚ := coefficient ds * 10 ^ (p + 1 - ds.length)

theorem placed_nil (p : Int) : placed [] p = 0 := by
  simp [placed, coefficient]

/-- Zeros before the digits move the first one, zeros after them do nothing. -/
theorem placed_zeros (ds : List Char) (a b : Nat) (p : Int) :
    placed (List.replicate a '0' ++ ds ++ List.replicate b '0') p = placed ds (p - a) := by
  have hten : (10 : ℚ) ≠ 0 := by norm_num
  have hcoefficient : (coefficient (List.replicate a '0' ++ ds ++ List.replicate b '0') : ℚ) =
      10 ^ (b : Int) * coefficient ds := by
    rw [coefficient_append, coefficient_append, coefficient_replicate, coefficient_replicate, List.length_replicate,
      zpow_natCast]
    push_cast
    ring
  have hplace : p + 1 - ((List.replicate a '0' ++ ds ++ List.replicate b '0').length : Int) =
      p - a + 1 - ds.length - b := by
    simp only [List.length_append, List.length_replicate]
    push_cast
    ring
  unfold placed
  rw [hcoefficient, hplace, zpow_sub₀ hten (p - a + 1 - ds.length)]
  field_simp

theorem placed_nonneg (ds : List Char) (p : Int) : 0 ≤ placed ds p := by
  unfold placed
  positivity

section Leading

variable {c : Char} {ds : List Char} (h : ∀ d ∈ c :: ds, d.isDigit = true) (hc : c ≠ '0') (p : Int)

include h hc

theorem placed_bounds : (10 : ℚ) ^ p ≤ placed (c :: ds) p ∧ placed (c :: ds) p < 10 ^ (p + 1) := by
  have hten : (10 : ℚ) ≠ 0 := by norm_num
  have hpos : (0 : ℚ) < 10 ^ (p + 1 - ((c :: ds).length : Int)) := zpow_pos (by norm_num) _
  have hlow : ((10 ^ ds.length : Nat) : ℚ) ≤ coefficient (c :: ds) := by
    exact_mod_cast coefficient_ge (h c (by simp)) hc
  have hhigh : (coefficient (c :: ds) : ℚ) < ((10 ^ (c :: ds).length : Nat) : ℚ) := by
    exact_mod_cast coefficient_lt h
  have hone : (10 : ℚ) ^ p = ((10 ^ ds.length : Nat) : ℚ) * 10 ^ (p + 1 - ((c :: ds).length : Int)) := by
    rw [Nat.cast_pow, Nat.cast_ofNat, ← zpow_natCast, ← zpow_add₀ hten]
    congr 1
    rw [List.length_cons]
    push_cast
    ring
  have htwo : (10 : ℚ) ^ (p + 1) = ((10 ^ (c :: ds).length : Nat) : ℚ) * 10 ^ (p + 1 - ((c :: ds).length : Int)) := by
    rw [Nat.cast_pow, Nat.cast_ofNat, ← zpow_natCast, ← zpow_add₀ hten]
    congr 1
    ring
  rw [hone, htwo]
  exact ⟨mul_le_mul_of_nonneg_right hlow hpos.le, mul_lt_mul_of_pos_right hhigh hpos⟩

theorem placed_pos : 0 < placed (c :: ds) p :=
  (zpow_pos (by norm_num) p).trans_le (placed_bounds h hc p).1

theorem log_placed : Int.log 10 (placed (c :: ds) p) = p := by
  have hpos := placed_pos h hc p
  obtain ⟨hlow, hhigh⟩ := placed_bounds h hc p
  have hge : p ≤ Int.log 10 (placed (c :: ds) p) := by
    apply (Int.zpow_le_iff_le_log (by norm_num) hpos).mp
    exact_mod_cast hlow
  have hlt : Int.log 10 (placed (c :: ds) p) < p + 1 := by
    apply (Int.lt_zpow_iff_log_lt (by norm_num) hpos).mp
    exact_mod_cast hhigh
  omega

end Leading

/-! ## Numerals -/

inductive Sign where
  | bare
  | plus
  | minus
  deriving DecidableEq, Repr

def Sign.text : Sign → List Char
  | .bare => []
  | .plus => ['+']
  | .minus => ['-']

/-- The number with its sign; an explicit plus is as good as none. -/
def Sign.apply : Sign → Nat → Int
  | .minus, n => -n
  | _, n => n

/-- A decimal numeral, well formed by its fields. No fraction stands for no
point, and a sign without digits is no exponent. -/
@[ext] structure Lexeme where
  negative : Bool
  whole : List Char
  fraction : List Char
  exponent : Option (Sign × List Char)
  whole_ne : whole ≠ []
  whole_digit : ∀ c ∈ whole, c.isDigit = true
  fraction_digit : ∀ c ∈ fraction, c.isDigit = true
  exponent_digit : ∀ e ∈ exponent, e.2 ≠ [] ∧ ∀ c ∈ e.2, c.isDigit = true
  deriving DecidableEq

namespace Lexeme

def signText (l : Lexeme) : List Char := if l.negative then ['-'] else []

def fractionText (l : Lexeme) : List Char := if l.fraction = [] then [] else '.' :: l.fraction

def exponentText (l : Lexeme) : List Char :=
  match l.exponent with
  | none => []
  | some (sign, ds) => 'e' :: (sign.text ++ ds)

def text (l : Lexeme) : List Char := l.signText ++ (l.whole ++ (l.fractionText ++ l.exponentText))

/-- The exponent, zero where none is written. -/
def shift (l : Lexeme) : Int :=
  match l.exponent with
  | none => 0
  | some (sign, ds) => sign.apply (coefficient ds)

def value (l : Lexeme) : ℚ :=
  (if l.negative then -1 else 1) * (coefficient (l.whole ++ l.fraction) * 10 ^ (l.shift - l.fraction.length))

/-- The value by the significant digits: the exponent and the length of the
whole part say which power the first of them counts. -/
theorem value_among (l : Lexeme) {ds : List Char} {a b : Nat}
    (h : l.whole ++ l.fraction = List.replicate a '0' ++ ds ++ List.replicate b '0') :
    l.value = (if l.negative then -1 else 1) * placed ds (l.shift + l.whole.length - a - 1) := by
  have hplace : l.shift + l.whole.length - 1 + 1 - ((l.whole ++ l.fraction).length : Int) =
      l.shift - l.fraction.length := by
    rw [List.length_append]
    push_cast
    ring
  have hall : placed (l.whole ++ l.fraction) (l.shift + l.whole.length - 1) =
      coefficient (l.whole ++ l.fraction) * 10 ^ (l.shift - l.fraction.length) := by
    rw [placed, hplace]
  have hmoved : l.shift + l.whole.length - a - 1 = l.shift + l.whole.length - 1 - a := by omega
  rw [value, ← hall, h, placed_zeros, hmoved]

end Lexeme

/-! ## Texts -/

/-- Elements of a kind are told apart from what follows them, if that is of no
such kind or nothing. -/
theorem run_unique {α : Type} {p : α → Bool} {a b r s : List α} (ha : ∀ x ∈ a, p x = true) (hb : ∀ x ∈ b, p x = true)
    (hr : ∀ x ∈ r.head?, p x = false) (hs : ∀ x ∈ s.head?, p x = false) (h : a ++ r = b ++ s) : a = b ∧ r = s := by
  induction a generalizing b with
  | nil =>
    cases b with
    | nil => exact ⟨rfl, h⟩
    | cons y b =>
      have hy := hr y (by rw [← List.nil_append r, h]; rfl)
      rw [hb y (by simp)] at hy
      cases hy
  | cons x a ih =>
    cases b with
    | nil =>
      have hx := hs x (by rw [← List.nil_append s, ← h]; rfl)
      rw [ha x (by simp)] at hx
      cases hx
    | cons y b =>
      rw [List.forall_mem_cons] at ha hb
      simp only [List.cons_append, List.cons.injEq] at h
      obtain ⟨rfl, hrest⟩ := ih ha.2 hb.2 h.2
      exact ⟨by rw [h.1], hrest⟩

namespace Lexeme

theorem exponentText_head (l : Lexeme) : ∀ x ∈ l.exponentText.head?, x = 'e' := by
  intro x hx
  unfold exponentText at hx
  cases he : l.exponent with
  | none =>
    rw [he] at hx
    cases hx
  | some e =>
    rw [he] at hx
    exact (Option.some.inj hx).symm

/-- After the digits comes a point, an exponent or nothing, so the digits end
where they seem to. -/
theorem rest_head (l : Lexeme) : ∀ x ∈ (l.fractionText ++ l.exponentText).head?, x.isDigit = false := by
  intro x hx
  unfold fractionText at hx
  split at hx
  · rw [exponentText_head l x hx]
    rfl
  · rw [List.cons_append, List.head?_cons, Option.mem_some_iff] at hx
    rw [← hx]
    rfl

theorem whole_head (l : Lexeme) (r : List Char) : (l.whole ++ r).head? ≠ some '-' := by
  obtain ⟨c, t, hct⟩ := List.exists_cons_of_ne_nil l.whole_ne
  have hdigit := l.whole_digit c (by simp [hct])
  rw [hct, List.cons_append, List.head?_cons, Ne, Option.some.injEq]
  rintro rfl
  cases hdigit

theorem sign_unique {l m : Lexeme} {r s : List Char} (h : l.signText ++ (l.whole ++ r) = m.signText ++ (m.whole ++ s)) :
    l.negative = m.negative ∧ l.whole ++ r = m.whole ++ s := by
  unfold signText at h
  cases hl : l.negative with
  | true =>
    cases hm : m.negative with
    | true =>
      rw [hl, hm] at h
      exact ⟨rfl, (List.cons.inj h).2⟩
    | false =>
      rw [hl, hm] at h
      exact absurd (congrArg List.head? h).symm (m.whole_head s)
  | false =>
    cases hm : m.negative with
    | true =>
      rw [hl, hm] at h
      exact absurd (congrArg List.head? h) (l.whole_head r)
    | false =>
      rw [hl, hm] at h
      exact ⟨rfl, h⟩

theorem fraction_unique {l m : Lexeme} (h : l.fractionText ++ l.exponentText = m.fractionText ++ m.exponentText) :
    l.fraction = m.fraction ∧ l.exponentText = m.exponentText := by
  have hpoint : ∀ (l : Lexeme) (r : List Char), l.exponentText ≠ '.' :: r := by
    intro l r he
    have := exponentText_head l '.' (by rw [he]; rfl)
    cases this
  have hend : ∀ (l : Lexeme), ∀ x ∈ l.exponentText.head?, x.isDigit = false := by
    intro l x hx
    rw [exponentText_head l x hx]
    rfl
  unfold fractionText at h
  split at h
  · rename_i hl
    split at h
    · rename_i hm
      exact ⟨hl.trans hm.symm, h⟩
    · exact absurd h (hpoint l _)
  · split at h
    · exact absurd h.symm (hpoint m _)
    · exact run_unique l.fraction_digit m.fraction_digit (hend l) (hend m) (List.cons.inj h).2

theorem signed_unique {s t : Sign} {ds es : List Char} (hds : ds ≠ [] ∧ ∀ c ∈ ds, c.isDigit = true)
    (hes : es ≠ [] ∧ ∀ c ∈ es, c.isDigit = true) (h : s.text ++ ds = t.text ++ es) : s = t ∧ ds = es := by
  have hno : ∀ {xs : List Char} {c : Char} {r : List Char}, (∀ c ∈ xs, c.isDigit = true) → c.isDigit = false →
      xs ≠ c :: r := by
    rintro _ c r hxs hc rfl
    rw [hxs c (by simp)] at hc
    cases hc
  cases s <;> cases t <;> simp only [Sign.text, List.nil_append, List.cons_append, List.cons.injEq] at h
  · exact ⟨rfl, h⟩
  · exact absurd h (hno hds.2 rfl)
  · exact absurd h (hno hds.2 rfl)
  · exact absurd h.symm (hno hes.2 rfl)
  · exact ⟨rfl, h.2⟩
  · exact absurd h.1 (by decide)
  · exact absurd h.symm (hno hes.2 rfl)
  · exact absurd h.1 (by decide)
  · exact ⟨rfl, h.2⟩

theorem exponent_unique {l m : Lexeme} (h : l.exponentText = m.exponentText) : l.exponent = m.exponent := by
  unfold exponentText at h
  cases hl : l.exponent with
  | none =>
    cases hm : m.exponent with
    | none => rfl
    | some e =>
      rw [hl, hm] at h
      cases h
  | some e =>
    cases hm : m.exponent with
    | none =>
      rw [hl, hm] at h
      cases h
    | some f =>
      rw [hl, hm] at h
      obtain ⟨hsign, hdigits⟩ :=
        signed_unique (l.exponent_digit e hl) (m.exponent_digit f hm) (List.cons.inj h).2
      rw [Prod.ext hsign hdigits]

/-- A text is of one numeral: sign, digits, point and exponent are each told
from what follows. -/
theorem text_inj {l m : Lexeme} (h : l.text = m.text) : l = m := by
  obtain ⟨hsign, hrest⟩ := sign_unique h
  obtain ⟨hwhole, hrest⟩ := run_unique l.whole_digit m.whole_digit l.rest_head m.rest_head hrest
  obtain ⟨hfraction, hrest⟩ := fraction_unique hrest
  exact Lexeme.ext hsign hwhole hfraction (exponent_unique hrest)

end Lexeme

end Numeral

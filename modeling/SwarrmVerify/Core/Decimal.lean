import Mathlib.Tactic

/-!
# Decimal texts

Digits by their ASCII codes, the first digit the most significant. Two orders
are at hand for such texts, that of the numbers and that of the texts, and code
that compares numbers often never converts one. It may: numbers without leading
zeros compare by their length, and those of one length as texts.

* `value_lt_of_length_lt`: a longer number without a leading zero is greater.
* `value_le_of_le`, `value_lt_iff`, `value_inj`: numbers of one length are
  ordered, and told apart, as texts are.
* `value_append_zeros`: zeros on the right scale the number.
* `padded k n`: the last `k` digits of `n`, with leading zeros; `value_padded`
  and `padded_value` go round, and `padded_lt_iff` has the order.
-/
namespace Decimal

/-- The code of a digit. -/
def Digit (d : Nat) : Prop := 48 ≤ d ∧ d ≤ 57

/-- The number that a text of digits stands for. -/
def value (ds : List Nat) : Nat := ds.foldl (fun n d => 10 * n + (d - 48)) 0

theorem foldl_value (ds : List Nat) (n : Nat) :
    ds.foldl (fun n d => 10 * n + (d - 48)) n = n * 10 ^ ds.length + value ds := by
  induction ds generalizing n with
  | nil => simp [value]
  | cons d ds ih =>
    rw [value, List.foldl_cons, List.foldl_cons, ih, ih (10 * 0 + (d - 48)), List.length_cons, pow_succ]
    ring

theorem value_cons (d : Nat) (ds : List Nat) : value (d :: ds) = (d - 48) * 10 ^ ds.length + value ds := by
  rw [value, List.foldl_cons, foldl_value]
  simp

theorem value_lt {ds : List Nat} (h : ∀ d ∈ ds, Digit d) : value ds < 10 ^ ds.length := by
  induction ds with
  | nil => simp [value]
  | cons d ds ih =>
    rw [List.forall_mem_cons] at h
    have hrest := ih h.2
    have hd : d - 48 ≤ 9 := by
      have := h.1.2
      omega
    calc value (d :: ds) = (d - 48) * 10 ^ ds.length + value ds := value_cons d ds
      _ < 9 * 10 ^ ds.length + 10 ^ ds.length := add_lt_add_of_le_of_lt (Nat.mul_le_mul_right _ hd) hrest
      _ = 10 ^ (d :: ds).length := by rw [List.length_cons, pow_succ]; ring

/-- A longer number without a leading zero is greater. -/
theorem value_lt_of_length_lt {ds es : List Nat} {e : Nat} (hd : ∀ d ∈ ds, Digit d) (he : 48 < e)
    (h : ds.length < (e :: es).length) : value ds < value (e :: es) := by
  have hlength : ds.length ≤ es.length := by
    rw [List.length_cons] at h
    omega
  calc value ds < 10 ^ ds.length := value_lt hd
    _ ≤ 10 ^ es.length := Nat.pow_le_pow_right (by decide) hlength
    _ = 1 * 10 ^ es.length := (one_mul _).symm
    _ ≤ (e - 48) * 10 ^ es.length := Nat.mul_le_mul_right _ (by omega)
    _ ≤ value (e :: es) := by rw [value_cons]; omega

/-- Numbers of one length compare as texts. -/
theorem value_le_of_le {ds es : List Nat} (hd : ∀ d ∈ ds, Digit d) (he : ∀ e ∈ es, Digit e)
    (hlength : ds.length = es.length) (h : ds ≤ es) : value ds ≤ value es := by
  induction ds generalizing es with
  | nil => simp [value]
  | cons d ds ih =>
    cases es with
    | nil => cases hlength
    | cons e es =>
      rw [List.forall_mem_cons] at hd he
      simp only [List.length_cons, Nat.add_right_cancel_iff] at hlength
      rw [value_cons, value_cons, hlength]
      have hnot := not_lt.mpr h
      rw [List.cons_lt_cons_iff, not_or, not_and] at hnot
      rcases lt_or_eq_of_le (not_lt.mp hnot.1) with hlt | heq
      · have hrest := value_lt hd.2
        rw [hlength] at hrest
        have hstep : (d - 48) + 1 ≤ e - 48 := by
          have := hd.1.1
          omega
        have := Nat.mul_le_mul_right (10 ^ es.length) hstep
        rw [add_mul, one_mul] at this
        omega
      · have := ih hd.2 he.2 hlength (not_lt.mp (hnot.2 heq.symm))
        rw [heq]
        omega

theorem value_inj {ds es : List Nat} (hd : ∀ d ∈ ds, Digit d) (he : ∀ e ∈ es, Digit e)
    (hlength : ds.length = es.length) (h : value ds = value es) : ds = es := by
  induction ds generalizing es with
  | nil => exact (List.length_eq_zero_iff.mp hlength.symm).symm
  | cons d ds ih =>
    cases es with
    | nil => cases hlength
    | cons e es =>
      rw [List.forall_mem_cons] at hd he
      simp only [List.length_cons, Nat.add_right_cancel_iff] at hlength
      rw [value_cons, value_cons, hlength] at h
      have hrest := value_lt hd.2
      have hrest' := value_lt he.2
      rw [hlength] at hrest
      have hpos : 0 < 10 ^ es.length := by positivity
      -- the leading digit is the quotient
      have hlead : d - 48 = e - 48 := by
        have hquot := congrArg (· / 10 ^ es.length) h
        simpa [Nat.mul_add_div, mul_comm, hpos, Nat.div_eq_of_lt hrest, Nat.div_eq_of_lt hrest'] using hquot
      have hde : d = e := by
        have := hd.1.1
        have := he.1.1
        omega
      rw [hde, ih hd.2 he.2 hlength (by rw [hlead] at h; omega)]

/-- Numbers of one length are ordered as texts are. -/
theorem value_lt_iff {ds es : List Nat} (hd : ∀ d ∈ ds, Digit d) (he : ∀ e ∈ es, Digit e)
    (hlength : ds.length = es.length) : value ds < value es ↔ ds < es := by
  constructor
  · intro h
    by_contra hnot
    have := value_le_of_le he hd hlength.symm (not_lt.mp hnot)
    omega
  · intro h
    refine lt_of_le_of_ne (value_le_of_le hd he hlength (le_of_lt h)) fun heq => ?_
    rw [value_inj hd he hlength heq] at h
    exact lt_irrefl _ h

/-! ## Fixed width -/

/-- The last `k` digits, the first of them the most significant. -/
def padded : Nat → Nat → List Nat
  | 0, _ => []
  | k + 1, n => padded k (n / 10) ++ [48 + n % 10]

@[simp] theorem length_padded (k n : Nat) : (padded k n).length = k := by
  induction k generalizing n with
  | zero => rfl
  | succ k ih => simp [padded, ih]

theorem digit_of_mem_padded {k n d : Nat} (h : d ∈ padded k n) : Digit d := by
  induction k generalizing n with
  | zero => cases h
  | succ k ih =>
    rw [padded, List.mem_append, List.mem_singleton] at h
    rcases h with h | rfl
    · exact ih h
    · unfold Digit
      omega

theorem value_concat (ds : List Nat) (d : Nat) : value (ds ++ [d]) = 10 * value ds + (d - 48) := by
  rw [value, List.foldl_append]
  rfl

theorem value_padded {k n : Nat} (h : n < 10 ^ k) : value (padded k n) = n := by
  induction k generalizing n with
  | zero =>
    rw [pow_zero] at h
    have : n = 0 := by omega
    rw [this]
    rfl
  | succ k ih =>
    rw [pow_succ] at h
    rw [padded, value_concat, ih (by omega)]
    omega

theorem padded_value {ds : List Nat} (h : ∀ d ∈ ds, Digit d) : padded ds.length (value ds) = ds :=
  value_inj (fun _ => digit_of_mem_padded) h (length_padded _ _) (value_padded (value_lt h))

theorem padded_lt_iff {k m n : Nat} (hm : m < 10 ^ k) (hn : n < 10 ^ k) : padded k m < padded k n ↔ m < n := by
  rw [← value_lt_iff (fun _ => digit_of_mem_padded) (fun _ => digit_of_mem_padded) (by simp), value_padded hm,
    value_padded hn]

theorem padded_inj {k m n : Nat} (hm : m < 10 ^ k) (hn : n < 10 ^ k) (h : padded k m = padded k n) : m = n := by
  rw [← value_padded hm, h, value_padded hn]

/-- Zeros on the right scale the number. -/
theorem value_append_zeros (ds : List Nat) (k : Nat) : value (ds ++ List.replicate k 48) = value ds * 10 ^ k := by
  induction k with
  | zero => simp
  | succ k ih =>
    rw [List.replicate_succ', ← List.append_assoc, value_concat, ih, pow_succ]
    ring

end Decimal

import SwarrmVerify.Core.Decimal
import SwarrmVerify.L1Encoding.Stamps
import SwarrmVerify.L4Handshake.Reads

/-!
# The order of amounts

Limits are texts of up to 78 digits, more than any machine integer holds, and
no check of `b28.rs` converts one: the shorter text is the smaller amount, and
texts of one length compare as texts. On the texts that `decimal` accepts,
digits without a leading zero, this is the order of the numbers. So an accepted
grant exposes no more than its ceiling.

The comparison is applied to members of documents, which may be of any kind or
missing; what is no accepted text is at most nothing, and nothing is at most
it. No hypothesis is made about either side.

* `canonicalDecimal_iff`: the accepted texts are the digits of a number without
  a leading zero, within the length.
* `amount_inj`, `amount_le_iff`: no two amounts are one number, and the shorter
  text, or the smaller of two of one length, is the smaller number.
* `decimal_order`: for every two values the comparison returns, and it holds
  exactly of texts of amounts in the order of their numbers.
-/
namespace SwarrmVerify.L5.Amounts
open Panics SwarrmVerify.L1.CborWire SwarrmVerify.L4.Handshake
open Decimal (Digit value)

/-- Zero, or one to 78 digits of which the first is not zero. -/
def IsAmount (s : String) : Prop :=
  s = "0" ∨ 1 ≤ (utf8 s).length ∧ (utf8 s).length ≤ 78 ∧ (∀ b ∈ utf8 s, Digit b.toNat) ∧
    ∀ b, (utf8 s).head? = some b → b.toNat ≠ 48

/-- The number that a text stands for. -/
def amount (s : String) : Nat := value (byteOrder (utf8 s))

theorem nonzeroDigit_iff {b : UInt8} : nonzeroDigit b = true ↔ 49 ≤ b.toNat ∧ b.toNat ≤ 57 := by
  simp [nonzeroDigit, UInt8.le_iff_toNat_le]

theorem canonicalDecimal_iff (s : String) : canonicalDecimal s = .ok true ↔ IsAmount s := by
  unfold canonicalDecimal IsAmount
  dsimp only
  split
  · rename_i h
    have hs : s = "0" := by simpa using h
    simp [hs, pure, Except.pure]
  · rename_i h
    have hs : s ≠ "0" := by simpa using h
    rw [allOf_eq_true]
    cases hb : utf8 s with
    | nil => simp [hs, pure, Except.pure]
    | cons b t =>
      have hitem : item (b :: t) 0 = .ok b := rfl
      have hslice : sliceOf (b :: t) 1 (b :: t).length = .ok t := by
        rw [sliceOf_of_le (by simp) le_rfl, List.take_length, List.drop_one, List.tail_cons]
      simp only [List.forall_mem_cons, List.not_mem_nil, hitem, hslice, ok_bind, run_pure, Except.ok.injEq, hs,
        false_or, nonzeroDigit_iff, List.all_eq_true, asciiDigit_iff, Digit, decide_eq_true_eq, List.head?_cons,
        Option.some.injEq, forall_eq']
      constructor
      · rintro ⟨-, hlen, hfirst, hrest, -⟩
        exact ⟨by simp, hlen, ⟨⟨by omega, hfirst.2⟩, hrest⟩, by omega⟩
      · rintro ⟨-, hlen, ⟨hfirst, hrest⟩, hne⟩
        exact ⟨rfl, hlen, ⟨by omega, hfirst.2⟩, hrest, fun _ hm => hm.elim⟩

/-! ## Digits -/

section Digits

variable {s t : String}

/-- An amount is one digit, or it does not begin with zero. -/
theorem digits_of_amount (h : IsAmount s) : (∀ d ∈ byteOrder (utf8 s), Digit d) ∧
    (byteOrder (utf8 s) = [48] ∨ ∃ e es, byteOrder (utf8 s) = e :: es ∧ 48 < e) := by
  rcases h with rfl | ⟨hpos, -, hdigits, hfirst⟩
  · have hzero : byteOrder (utf8 "0") = [48] := by decide
    rw [hzero]
    refine ⟨?_, .inl rfl⟩
    intro d hd
    rw [List.mem_singleton.mp hd]
    exact ⟨by decide, by decide⟩
  · refine ⟨?_, .inr ?_⟩
    · intro d hd
      obtain ⟨b, hb, rfl⟩ := List.mem_map.mp hd
      exact hdigits b hb
    · cases hb : utf8 s with
      | nil =>
        rw [hb] at hpos
        cases hpos
      | cons b t =>
        rw [hb] at hdigits hfirst
        have hdigit := hdigits b List.mem_cons_self
        have hne := hfirst b rfl
        refine ⟨b.toNat, byteOrder t, rfl, ?_⟩
        have := hdigit.1
        omega

theorem length_byteOrder (b : Bytes) : (byteOrder b).length = b.length := List.length_map _

theorem amount_lt_of_length_lt (hs : IsAmount s) (ht : IsAmount t) (h : (utf8 s).length < (utf8 t).length) :
    amount s < amount t := by
  obtain ⟨hdigits, hfirst⟩ := digits_of_amount hs
  obtain ⟨-, hfirst'⟩ := digits_of_amount ht
  rw [← length_byteOrder, ← length_byteOrder] at h
  rw [amount, amount]
  rcases hfirst' with hzero | ⟨e, es, hcons, he⟩
  · -- nothing is shorter than one digit
    rw [hzero, List.length_singleton] at h
    rcases hfirst with hz | ⟨d, ds, hcons, -⟩
    · rw [hz, List.length_singleton] at h
      omega
    · rw [hcons, List.length_cons] at h
      omega
  · rw [hcons] at h ⊢
    exact Decimal.value_lt_of_length_lt hdigits he h

theorem amount_lt_iff (hs : IsAmount s) (ht : IsAmount t) (h : (utf8 s).length = (utf8 t).length) :
    amount s < amount t ↔ byteOrder (utf8 s) < byteOrder (utf8 t) := by
  refine Decimal.value_lt_iff (digits_of_amount hs).1 (digits_of_amount ht).1 ?_
  rw [length_byteOrder, length_byteOrder, h]

/-- No two amounts are one number. -/
theorem amount_inj (hs : IsAmount s) (ht : IsAmount t) (h : amount s = amount t) : s = t := by
  have hlength : (utf8 s).length = (utf8 t).length := by
    rcases lt_trichotomy (utf8 s).length (utf8 t).length with hlt | heq | hgt
    · have := amount_lt_of_length_lt hs ht hlt
      omega
    · exact heq
    · have := amount_lt_of_length_lt ht hs hgt
      omega
  apply utf8_inj
  have hbytes : byteOrder (utf8 s) = byteOrder (utf8 t) := by
    refine Decimal.value_inj (digits_of_amount hs).1 (digits_of_amount ht).1 ?_ h
    rw [length_byteOrder, length_byteOrder, hlength]
  exact List.map_injective_iff.mpr (fun _ _ => UInt8.toNat_inj.mp) hbytes

/-- The shorter text, or the smaller one of two of one length, is the smaller number. -/
theorem amount_le_iff (hs : IsAmount s) (ht : IsAmount t) : amount s ≤ amount t ↔
    (utf8 s).length < (utf8 t).length ∨
      (utf8 s).length = (utf8 t).length ∧ byteOrder (utf8 s) ≤ byteOrder (utf8 t) := by
  rcases lt_trichotomy (utf8 s).length (utf8 t).length with hlt | heq | hgt
  · have := amount_lt_of_length_lt hs ht hlt
    simp only [hlt, true_or, iff_true]
    omega
  · simp only [heq, lt_irrefl, true_and, false_or]
    rw [← not_lt, ← not_lt, amount_lt_iff ht hs heq.symm]
  · have := amount_lt_of_length_lt ht hs hgt
    constructor
    · intro h
      omega
    · intro h
      omega

end Digits

/-! ## The comparison -/

theorem decimal_eq_some {v : C} {s : String} :
    L4.Handshake.decimal v = .ok (some s) ↔ v = .text s ∧ IsAmount s := by
  constructor
  · intro h
    cases v with
    | text t =>
      obtain ⟨b, hb, h⟩ := bind_eq_ok.mp h
      cases b with
      | false => cases h
      | true =>
        cases h
        exact ⟨rfl, (canonicalDecimal_iff s).mp hb⟩
    | _ => cases h
  · intro h
    obtain ⟨rfl, hs⟩ := h
    have hs := (canonicalDecimal_iff s).mpr hs
    simp only [L4.Handshake.decimal, L4.Handshake.text, hs, ok_bind]
    rfl

theorem decimalAtMost_iff (v w : C) : decimalAtMost v w = .ok true ↔
    ∃ s t, v = .text s ∧ w = .text t ∧ IsAmount s ∧ IsAmount t ∧ amount s ≤ amount t := by
  constructor
  · intro h
    obtain ⟨a, ha, h⟩ := bind_eq_ok.mp h
    obtain ⟨b, hb, h⟩ := bind_eq_ok.mp h
    cases a with
    | none => cases h
    | some s =>
      cases b with
      | none => cases h
      | some t =>
        obtain ⟨hv, hs⟩ := decimal_eq_some.mp ha
        obtain ⟨hw, ht⟩ := decimal_eq_some.mp hb
        have h := Except.ok.inj h
        rw [Bool.or_eq_true, Bool.and_eq_true, decide_eq_true_eq, decide_eq_true_eq, beq_iff_eq] at h
        exact ⟨s, t, hv, hw, hs, ht, (amount_le_iff hs ht).mpr h⟩
  · intro h
    obtain ⟨s, t, rfl, rfl, hs, ht, hle⟩ := h
    have h := (amount_le_iff hs ht).mp hle
    rw [decimalAtMost, decimal_eq_some.mpr ⟨rfl, hs⟩, ok_bind, decimal_eq_some.mpr ⟨rfl, ht⟩, ok_bind]
    refine congrArg Except.ok ?_
    rw [Bool.or_eq_true, Bool.and_eq_true, decide_eq_true_eq, decide_eq_true_eq, beq_iff_eq]
    exact h

/-- **Limits compare as numbers.** For every two values `decimalAtMost` returns,
and it holds exactly of the texts of amounts of which the first is at most the
second. On these texts it is a total order, the one of the numbers, and an
accepted grant has its exposure below its ceiling. -/
theorem decimal_order :
    (∀ v w : C, ∃ r, decimalAtMost v w = .ok r ∧ (r = true ↔
      ∃ s t, v = .text s ∧ w = .text t ∧ IsAmount s ∧ IsAmount t ∧ amount s ≤ amount t)) ∧
    (∀ s, IsAmount s → decimalAtMost (.text s) (.text s) = .ok true) ∧
    (∀ s t, decimalAtMost (.text s) (.text t) = .ok true → decimalAtMost (.text t) (.text s) = .ok true → s = t) ∧
    (∀ s t u, decimalAtMost (.text s) (.text t) = .ok true → decimalAtMost (.text t) (.text u) = .ok true →
      decimalAtMost (.text s) (.text u) = .ok true) ∧
    (∀ s t, IsAmount s → IsAmount t →
      decimalAtMost (.text s) (.text t) = .ok true ∨ decimalAtMost (.text t) (.text s) = .ok true) ∧
    ∀ v : C, grantShape.validate v = .ok true → ∃ doc exposure ceiling, plain v = some doc ∧
      get doc "max_unresolved_exposure" = .text exposure ∧ get doc "ceiling" = .text ceiling ∧
      IsAmount exposure ∧ IsAmount ceiling ∧ amount exposure ≤ amount ceiling := by
  have htexts : ∀ s t, decimalAtMost (.text s) (.text t) = .ok true ↔ IsAmount s ∧ IsAmount t ∧ amount s ≤ amount t := by
    intro s t
    rw [decimalAtMost_iff]
    constructor
    · rintro ⟨s', t', hs, ht, h⟩
      cases hs
      cases ht
      exact h
    · intro h
      exact ⟨s, t, rfl, rfl, h⟩
  simp only [htexts]
  refine ⟨?_, ?_, ?_, ?_, ?_, ?_⟩
  · intro v w
    obtain ⟨r, hr⟩ := decimalAtMost_safe v w
    refine ⟨r, hr, ?_⟩
    rw [← decimalAtMost_iff, hr, Except.ok.injEq]
  · intro s hs
    exact ⟨hs, hs, le_rfl⟩
  · intro s t h h'
    exact amount_inj h.1 h.2.1 (le_antisymm h.2.2 h'.2.2)
  · intro s t u h h'
    exact ⟨h.1, h'.2.1, h.2.2.trans h'.2.2⟩
  · intro s t hs ht
    rcases le_total (amount s) (amount t) with h | h
    · exact .inl ⟨hs, ht, h⟩
    · exact .inr ⟨ht, hs, h⟩
  · intro v h
    obtain ⟨doc, hdoc, hholds⟩ := Shape.validate_holds h
    have hrules := hholds.rule
    simp only [grantShape, Rule.tenantRoot, List.cons_append, List.nil_append, List.forall_mem_cons] at hrules
    obtain ⟨-, -, -, -, -, -, -, -, -, -, -, -, -, hlimit, -⟩ := hrules
    obtain ⟨s, t, hs, ht, hboth⟩ := (decimalAtMost_iff _ _).mp (Rule.two_holds hlimit)
    exact ⟨doc, s, t, hdoc, hs, ht, hboth⟩

end SwarrmVerify.L5.Amounts

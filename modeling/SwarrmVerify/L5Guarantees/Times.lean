import SwarrmVerify.L1Encoding.Stamps
import SwarrmVerify.L4Action.Rows

/-!
# Two orders of time

The bundle layer compares timestamps by their microseconds, the authority layer
by the texts of `nts`, whose fractions have six digits. A log that is in order
for one has to be in order for the other, or an interval could be inverted
between the two. Both give one order, that of the calendar and the clock.

A timestamp is its stamp (`L1Encoding.Stamps`), and stamps are ordered by their
fields in turn. The count of microseconds follows that order because each field
is within its range; the texts follow it because every field is padded to one
width (`Core.Decimal`).

**Results.**
* `nts_text`: the normal form of a stamp is its text with six digits of
  fraction.
* `micros_lt_iff`, `nts_order`: the microseconds are in the order of the
  normalised texts.
* `time_exact`: what a canonical timestamp is, how many microseconds it counts,
  and how two of them compare, for all texts.
* `interval_ordered`: in every bundle the interval of every leaf is read from
  rows in order of size and of time, and is never inverted.
-/
namespace SwarrmVerify.L5.Times
open SwarrmVerify.L4.Action
open Decimal (Digit value padded)

/-! ## Normalised stamps -/

/-- The fraction with six digits. -/
def widened (t : Stamp) : Stamp :=
  { t with fraction := t.fraction ++ List.replicate (6 - t.fraction.length) 48 }

theorem widened_valid {t : Stamp} (h : t.Valid) : (widened t).Valid := by
  refine ⟨h.date, h.year, h.hour, h.minute, h.second, fun d hd => ?_, ?_⟩
  · rcases List.mem_append.mp hd with hd | hd
    · exact h.digits d hd
    · rw [List.eq_of_mem_replicate hd]
      exact ⟨le_refl _, by decide⟩
  · have := h.width
    simp only [widened, List.length_append, List.length_replicate]
    omega

theorem length_widened {t : Stamp} (h : t.Valid) : (widened t).fraction.length = 6 := by
  have := h.width
  simp only [widened, List.length_append, List.length_replicate]
  omega

theorem value_widened (t : Stamp) : value (widened t).fraction = t.millionths := Decimal.value_append_zeros _ _

theorem codes_widened (t : Stamp) (h : t.Valid) :
    (widened t).codes = t.wholeCodes ++ 46 :: ((widened t).fraction ++ [90]) := by
  have hne : (widened t).fraction ≠ [] := by
    rw [← List.length_pos_iff, length_widened h]
    decide
  rw [Stamp.codes, fractionCodes, if_neg hne]
  rfl

/-- No point before the fraction. -/
theorem point_not_mem_wholeCodes (t : Stamp) : 46 ∉ t.wholeCodes := by
  have hdigit : ∀ {k n : Nat}, 46 ∉ padded k n := fun hmem => by
    have := (Decimal.digit_of_mem_padded hmem).1
    omega
  simp [Stamp.wholeCodes, hdigit]

theorem ofNat_eq_point {c : Nat} (h : c < 128) : Char.ofNat c = '.' ↔ c = 46 := by
  revert c
  decide

/-- The normal form of a stamp is its text with six digits of fraction. -/
theorem nts_text {t : Stamp} (h : t.Valid) : nts (.string t.text) = some (widened t).text := by
  have hascii := ascii_of_mem_codes h
  have hwhole : ∀ c ∈ t.wholeCodes.map Char.ofNat, (c != '.') = true := by
    intro c hc
    obtain ⟨n, hn, rfl⟩ := List.mem_map.mp hc
    rw [bne_iff_ne, Ne, ofNat_eq_point (hascii n (List.mem_append_left _ hn))]
    rintro rfl
    exact point_not_mem_wholeCodes t hn
  have hbase : t.text.toList.dropLast = t.wholeCodes.map Char.ofNat ++ (fractionCodes t.fraction).map Char.ofNat := by
    rw [Stamp.text, String.toList_ofList, Stamp.codes, ← List.append_assoc, List.map_append, List.map_singleton,
      List.dropLast_concat, List.map_append]
  have htake : (t.text.toList.dropLast).takeWhile (· != '.') = t.wholeCodes.map Char.ofNat := by
    rw [hbase, List.takeWhile_append_of_pos hwhole]
    unfold fractionCodes
    split
    · simp
    · simp
  have hdrop : ((t.text.toList.dropLast).dropWhile (· != '.')).drop 1 = t.fraction.map Char.ofNat := by
    rw [hbase, List.dropWhile_append_of_pos hwhole]
    unfold fractionCodes
    split
    · rename_i hnil
      rw [hnil]
      rfl
    · simp
  simp only [nts, Value.asStr, Option.bind_eq_bind, Option.bind_some, canonicalUtc_text h, Bool.not_true,
    Bool.false_eq_true, if_false, htake, hdrop]
  rw [Stamp.text, codes_widened t h]
  simp [widened]

/-! ## Order -/

/-- Lists that start with as many elements. -/
theorem append_lt_append_iff {a b c d : List Nat} (h : a.length = b.length) :
    a ++ c < b ++ d ↔ a < b ∨ a = b ∧ c < d := by
  induction a generalizing b with
  | nil =>
    obtain rfl : b = [] := List.eq_nil_of_length_eq_zero h.symm
    simp
  | cons x a ih =>
    cases b with
    | nil => cases h
    | cons y b =>
      rw [List.length_cons, List.length_cons, Nat.add_right_cancel_iff] at h
      rw [List.cons_append, List.cons_append, List.cons_lt_cons_iff, List.cons_lt_cons_iff, ih h, List.cons.injEq]
      tauto

theorem padded_append_lt {k m n : Nat} (hm : m < 10 ^ k) (hn : n < 10 ^ k) {x : Nat} {c d : List Nat} :
    padded k m ++ x :: c < padded k n ++ x :: d ↔ m < n ∨ m = n ∧ c < d := by
  rw [append_lt_append_iff (by simp), Decimal.padded_lt_iff hm hn, List.cons_lt_cons_iff]
  have hinj : padded k m = padded k n ↔ m = n := ⟨Decimal.padded_inj hm hn, fun h => by rw [h]⟩
  rw [hinj]
  simp

theorem toNat_ofNat_ascii : ∀ c < 128, (Char.ofNat c).toNat = c := by decide

theorem map_ofNat_lt {cs ds : List Nat} (hc : ∀ c ∈ cs, c < 128) (hd : ∀ d ∈ ds, d < 128) :
    cs.map Char.ofNat < ds.map Char.ofNat ↔ cs < ds := by
  induction cs generalizing ds with
  | nil =>
    cases ds with
    | nil => simp
    | cons d ds => simp
  | cons c cs ih =>
    cases ds with
    | nil => simp
    | cons d ds =>
      rw [List.forall_mem_cons] at hc hd
      have hcode := toNat_ofNat_ascii c hc.1
      have hcode' := toNat_ofNat_ascii d hd.1
      have hlt : Char.ofNat c < Char.ofNat d ↔ c < d := by
        rw [Char.lt_def, UInt32.lt_iff_toNat_lt]
        change (Char.ofNat c).toNat < (Char.ofNat d).toNat ↔ c < d
        rw [hcode, hcode']
      have heq : Char.ofNat c = Char.ofNat d ↔ c = d := by
        rw [← Char.toNat_inj, hcode, hcode']
      rw [List.map_cons, List.map_cons, List.cons_lt_cons_iff, List.cons_lt_cons_iff, ih hc.2 hd.2, hlt, heq]

/-- Earlier by date, then by the time of day. -/
def Earlier (t u : Stamp) : Prop :=
  t.date.Before u.date ∨ t.date = u.date ∧
    (t.secondOfDay < u.secondOfDay ∨ t.secondOfDay = u.secondOfDay ∧ t.millionths < u.millionths)

theorem secondOfDay_lt {t : Stamp} (h : t.Valid) : t.secondOfDay < 86400 := by
  have := h.hour
  have := h.minute
  have := h.second
  unfold Stamp.secondOfDay
  omega

/-- The count of microseconds is in the order of the calendar and the clock. -/
theorem micros_lt_iff_earlier {t u : Stamp} (ht : t.Valid) (hu : u.Valid) : t.micros < u.micros ↔ Earlier t u := by
  have hdate := Calendar.dayNumber_lt_iff ht.date hu.date
  have hsame : Calendar.dayNumber t.date = Calendar.dayNumber u.date ↔ t.date = u.date :=
    ⟨Calendar.dayNumber_inj ht.date hu.date, fun h => by rw [h]⟩
  have := secondOfDay_lt ht
  have := secondOfDay_lt hu
  have := millionths_lt ht
  have := millionths_lt hu
  unfold Earlier Stamp.micros Calendar.epochDay
  rw [← hdate, ← hsame]
  omega

/-- The codes of normal forms are in that order too. -/
theorem codes_lt_iff_earlier {t u : Stamp} (ht : t.Valid) (hu : u.Valid) :
    (widened t).codes < (widened u).codes ↔ Earlier t u := by
  have hfraction : (widened t).fraction ++ [90] < (widened u).fraction ++ [90] ↔ t.millionths < u.millionths := by
    have hlength : (widened t).fraction.length = (widened u).fraction.length := by
      rw [length_widened ht, length_widened hu]
    rw [append_lt_append_iff hlength, ← Decimal.value_lt_iff (widened_valid ht).digits (widened_valid hu).digits hlength,
      value_widened, value_widened]
    simp
  have hday := le_trans ht.date.day.2 (Calendar.monthLength_bounds _ _).2
  have hday' := le_trans hu.date.day.2 (Calendar.monthLength_bounds _ _).2
  have := ht.year
  have := hu.year
  have := ht.date.month
  have := hu.date.month
  have := ht.hour
  have := hu.hour
  have := ht.minute
  have := hu.minute
  have := ht.second
  have := hu.second
  rw [codes_widened t ht, codes_widened u hu]
  simp only [Stamp.wholeCodes, List.append_assoc, List.cons_append]
  rw [padded_append_lt (by omega) (by omega), padded_append_lt (by omega) (by omega),
    padded_append_lt (by omega) (by omega), padded_append_lt (by omega) (by omega),
    padded_append_lt (by omega) (by omega), padded_append_lt (by omega) (by omega), hfraction]
  obtain ⟨⟨y, m, d⟩, h, mi, s, f⟩ := t
  obtain ⟨⟨y', m', d'⟩, h', mi', s', f'⟩ := u
  unfold Earlier Calendar.Date.Before Stamp.secondOfDay
  simp only [Calendar.Date.mk.injEq] at *
  omega

/-- The microseconds are in the order of the normalised texts. -/
theorem micros_lt_iff {t u : Stamp} (ht : t.Valid) (hu : u.Valid) :
    (widened t).text < (widened u).text ↔ t.micros < u.micros := by
  have htext := ascii_of_mem_codes (widened_valid ht)
  have htext' := ascii_of_mem_codes (widened_valid hu)
  rw [String.lt_iff_toList_lt, Stamp.text, Stamp.text, String.toList_ofList, String.toList_ofList,
    map_ofNat_lt htext htext', codes_lt_iff_earlier ht hu, micros_lt_iff_earlier ht hu]

theorem micros_eq_iff {t u : Stamp} (ht : t.Valid) (hu : u.Valid) :
    (widened t).text = (widened u).text ↔ t.micros = u.micros := by
  have hlt := micros_lt_iff ht hu
  have hgt := micros_lt_iff hu ht
  constructor
  · intro h
    rw [h] at hlt hgt
    have := hlt.not.mp (lt_irrefl _)
    have := hgt.not.mp (lt_irrefl _)
    omega
  · intro h
    rw [h] at hlt hgt
    exact le_antisymm (not_lt.mp (hgt.not.mpr (lt_irrefl _))) (not_lt.mp (hlt.not.mpr (lt_irrefl _)))

/-- Two canonical times: their normal forms compare as their microseconds do. -/
theorem nts_order {s s' : String} (h : canonicalUtc s = true) (h' : canonicalUtc s' = true) :
    ∃ n n' m m', nts (.string s) = some n ∧ nts (.string s') = some n' ∧ utcEpochMicros s = some m ∧
      utcEpochMicros s' = some m' ∧ (n < n' ↔ m < m') ∧ (n = n' ↔ m = m') ∧ (n' < n ↔ m' < m) := by
  obtain ⟨t, ht, rfl⟩ := (canonicalUtc_iff s).mp h
  obtain ⟨u, hu, rfl⟩ := (canonicalUtc_iff s').mp h'
  exact ⟨_, _, _, _, nts_text ht, nts_text hu, utcEpochMicros_text ht, utcEpochMicros_text hu, micros_lt_iff ht hu,
    micros_eq_iff ht hu, micros_lt_iff hu ht⟩

/-- Every text is either a stamp of the grammar and the calendar, with the
microseconds that counting its days gives, or refused; nothing panics or
overflows, and normalised texts compare as the microseconds do. -/
theorem time_exact :
    (∀ s, canonicalUtcRun s = .ok (canonicalUtc s) ∧ (canonicalUtc s = true ↔ ∃ t : Stamp, t.Valid ∧ s = t.text)) ∧
      (∀ s, utcEpochMicrosRun s = .ok (utcEpochMicros s)) ∧
      (∀ t : Stamp, t.Valid → utcEpochMicros t.text = some t.micros) ∧
      ∀ s s', canonicalUtc s = true → canonicalUtc s' = true →
        ∃ n n' m m', nts (.string s) = some n ∧ nts (.string s') = some n' ∧ utcEpochMicros s = some m ∧
          utcEpochMicros s' = some m' ∧ (n < n' ↔ m < m') ∧ (n = n' ↔ m = m') ∧ (n' < n ↔ m' < m) :=
  ⟨fun s => ⟨canonicalUtcRun_eq s, canonicalUtc_iff s⟩, utcEpochMicrosRun_eq, fun _ => utcEpochMicros_text,
    fun _ _ => nts_order⟩

/-! ## Intervals -/

theorem canonical_of_nts {v : Value} {n : String} (h : nts v = some n) :
    ∃ s, v = .string s ∧ canonicalUtc s = true := by
  unfold nts at h
  cases v with
  | string s =>
    refine ⟨s, rfl, ?_⟩
    by_contra hs
    simp [Value.asStr, hs] at h
  | _ => cases h

/-- Normal forms in order are instants in order. -/
theorem micros_le_of_nts_le {v w : Value} {n n' : String} (hv : nts v = some n) (hw : nts w = some n')
    (h : n ≤ n') :
    ∃ s s' m m', v = .string s ∧ w = .string s' ∧ canonicalUtc s = true ∧ canonicalUtc s' = true ∧
      utcEpochMicros s = some m ∧ utcEpochMicros s' = some m' ∧ m ≤ m' := by
  obtain ⟨s, rfl, hs⟩ := canonical_of_nts hv
  obtain ⟨s', rfl, hs'⟩ := canonical_of_nts hw
  obtain ⟨k, k', m, m', hk, hk', hm, hm', -, -, hgt⟩ := nts_order hs hs'
  cases hv.symm.trans hk
  cases hw.symm.trans hk'
  exact ⟨s, s', m, m', rfl, rfl, hs, hs', hm, hm', not_lt.mp (hgt.not.mp (not_lt.mpr h))⟩

/-- A bound that is not null is the time of a row, so it has a normal form. -/
theorem bounds_normal (X : Crates) (bundle : Value) (leaf : Int) :
    ((intervalFor X bundle leaf).lower ≠ .null → ∃ n, nts (intervalFor X bundle leaf).lower = some n) ∧
      ((intervalFor X bundle leaf).upper ≠ .null → ∃ n, nts (intervalFor X bundle leaf).upper = some n) := by
  obtain ⟨hlower, hupper⟩ := intervalFor_bounded X bundle leaf
  have hnormal := (clampedTimes_ordered X bundle).2
  constructor
  · intro h
    obtain ⟨r, hr, -, heq⟩ := hlower.resolve_left h
    exact ⟨r.2.1, by rw [heq]; exact hnormal r hr⟩
  · intro h
    obtain ⟨r, hr, -, heq⟩ := hupper.resolve_left h
    exact ⟨r.2.1, by rw [heq]; exact hnormal r hr⟩

/-- An interval is never inverted, and the rows it is read from are in order of
size and of time, whatever the records of the bundle name. -/
theorem interval_ordered (X : Crates) (bundle : Value) :
    (∀ leaf, (intervalFor X bundle leaf).lower ≠ .null → (intervalFor X bundle leaf).upper ≠ .null →
      ∃ lower upper m m', (intervalFor X bundle leaf).lower = .string lower ∧
        (intervalFor X bundle leaf).upper = .string upper ∧ canonicalUtc lower = true ∧ canonicalUtc upper = true ∧
        utcEpochMicros lower = some m ∧ utcEpochMicros upper = some m' ∧ m ≤ m') ∧
      (clampedTimes X bundle).Pairwise fun a b => a.1 ≤ b.1 ∧ a.2.1 ≤ b.2.1 := by
  refine ⟨fun leaf hlower hupper => ?_, (clampedTimes_ordered X bundle).1⟩
  obtain ⟨n, hn⟩ := (bounds_normal X bundle leaf).1 hlower
  obtain ⟨n', hn'⟩ := (bounds_normal X bundle leaf).2 hupper
  exact micros_le_of_nts_le hn hn' (intervalFor_ordered hn hn')

end SwarrmVerify.L5.Times

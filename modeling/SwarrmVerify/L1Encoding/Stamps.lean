import SwarrmVerify.L1Encoding.Reference
import SwarrmVerify.L1Encoding.Text
import SwarrmVerify.Core.Calendar
import SwarrmVerify.Core.Decimal
import SwarrmVerify.Core.Panics

/-!
# What a canonical timestamp says

The grammar `YYYY-MM-DDTHH:MM:SS[.f]Z` with one to six digits of fraction, as a
record (`Stamp`) and its text. `canonical_utc` and `utc_epoch_micros`
(`verify-rs/src/lib.rs`) work on byte positions of a text and on days counted
by the formula of the Gregorian calendar; the record has none of that, and the
two are connected here.

The first half reads a text. The byte tests give a frame of separators, the
frame with its numbers gives a stamp whose text it is, and the text of a valid
stamp passes every test. The second half is about the machine: the same
functions once more with every index, slice, `unwrap` and addition as an
operation that may fail, and a proof that none does. No hypothesis is made
about the text; a byte of a longer character is refused before it is sliced.

**Results.**
* `canonicalUtc_iff`: the byte tests accept the texts of valid stamps, with a
  date of the calendar, and nothing else.
* `utcEpochMicros_text`: the microseconds of a text are those of the days
  counted from 1970-01-01, of its time of day and of its fraction.
* `canonicalUtcRun_eq`, `utcEpochMicrosRun_eq`: neither function indexes out of
  range, slices inside a character or overflows; each returns what the function
  without panics says.
-/
namespace SwarrmVerify
open Decimal (Digit value padded)

/-! ## Stamps -/

/-- A point in time as it is written: a date, a time of day, and the fraction by
the codes of its digits, since `.5` and `.50` are two texts of one time. -/
structure Stamp where
  date : Calendar.Date
  hour : Nat
  minute : Nat
  second : Nat
  fraction : List Nat

/-- The date is one of the calendar, the time is one of a day without leap
seconds, and the fraction has at most six digits. -/
structure Stamp.Valid (t : Stamp) : Prop where
  date : t.date.Valid
  year : t.date.year ≤ 9999
  hour : t.hour < 24
  minute : t.minute < 60
  second : t.second < 60
  digits : ∀ d ∈ t.fraction, Digit d
  width : t.fraction.length ≤ 6

/-- The fraction with its point, or nothing. -/
def fractionCodes (fraction : List Nat) : List Nat := if fraction = [] then [] else 46 :: fraction

/-- Up to the seconds. -/
def Stamp.wholeCodes (t : Stamp) : List Nat :=
  padded 4 t.date.year ++ 45 :: (padded 2 t.date.month ++ 45 :: (padded 2 t.date.day ++ 84 ::
    (padded 2 t.hour ++ 58 :: (padded 2 t.minute ++ 58 :: padded 2 t.second))))

def Stamp.codes (t : Stamp) : List Nat := t.wholeCodes ++ (fractionCodes t.fraction ++ [90])

def Stamp.text (t : Stamp) : String := String.ofList (t.codes.map Char.ofNat)

example : Stamp.text ⟨⟨2026, 1, 2⟩, 3, 4, 5, [53]⟩ = "2026-01-02T03:04:05.5Z" := by decide

def Stamp.bytes (t : Stamp) : Bytes := t.codes.map UInt8.ofNat

/-- The seconds since the start of the day. -/
def Stamp.secondOfDay (t : Stamp) : Nat := t.hour * 3600 + t.minute * 60 + t.second

/-- The fraction in millionths. -/
def Stamp.millionths (t : Stamp) : Nat := value t.fraction * 10 ^ (6 - t.fraction.length)

/-- The microseconds from 1970-01-01T00:00:00Z, by counting days. There is no
formula in it. -/
def Stamp.micros (t : Stamp) : Int :=
  (Calendar.epochDay t.date * 86400 + t.secondOfDay) * 1000000 + t.millionths

@[simp] theorem length_wholeCodes (t : Stamp) : t.wholeCodes.length = 19 := by
  simp [Stamp.wholeCodes]

theorem ascii_of_mem_codes {t : Stamp} (h : t.Valid) : ∀ c ∈ t.codes, c < 128 := by
  intro c hc
  have hdigit : ∀ {k n : Nat}, c ∈ padded k n → c < 128 := by
    intro k n hmem
    have := (Decimal.digit_of_mem_padded hmem).2
    omega
  have hfraction : c ∈ fractionCodes t.fraction → c < 128 := by
    intro hmem
    unfold fractionCodes at hmem
    split at hmem
    · cases hmem
    · rcases List.mem_cons.mp hmem with rfl | hmem
      · decide
      · have := (h.digits c hmem).2
        omega
  simp only [Stamp.codes, Stamp.wholeCodes, List.mem_append, List.mem_cons, List.not_mem_nil, or_false] at hc
  rcases hc with (hc | rfl | hc | rfl | hc | rfl | hc | rfl | hc | rfl | hc) | hc | rfl <;>
    first
    | decide
    | exact hdigit hc
    | exact hfraction hc

/-- The text of ASCII codes has those bytes. -/
theorem utf8_codes {cs : List Nat} (h : ∀ c ∈ cs, c < 128) :
    utf8 (String.ofList (cs.map Char.ofNat)) = cs.map UInt8.ofNat := by
  rw [utf8_ofList]
  induction cs with
  | nil => rfl
  | cons c cs ih =>
    rw [List.forall_mem_cons] at h
    rw [List.map_cons, List.flatMap_cons, Octets.utf8EncodeChar_ascii c h.1, ih h.2]
    rfl

theorem utf8_text {t : Stamp} (h : t.Valid) : utf8 t.text = t.bytes := utf8_codes (ascii_of_mem_codes h)

/-! ## Digits -/

theorem asciiDigit_iff {c : UInt8} : asciiDigit c = true ↔ Digit c.toNat := by
  simp [asciiDigit, Digit, UInt8.le_iff_toNat_le]

/-- `decimal` folds from the left: it fails at the first byte that is no digit,
and has read a number by then. -/
theorem decimal_foldlM (b : Bytes) (n : Nat) :
    b.foldlM (fun n c => if asciiDigit c then some (n * 10 + (c.toNat - 48)) else none) n =
      if b.all asciiDigit then some (n * 10 ^ b.length + value (b.map UInt8.toNat)) else none := by
  induction b generalizing n with
  | nil => simp [value]
  | cons c b ih =>
    rw [List.foldlM_cons, List.all_cons]
    cases hc : asciiDigit c with
    | false => rfl
    | true =>
      rw [if_pos rfl, Option.bind_eq_bind, Option.bind_some, ih, Bool.true_and, List.map_cons, Decimal.value_cons,
        List.length_map, List.length_cons, pow_succ]
      congr 2
      ring

theorem decimal_eq (b : Bytes) :
    decimal b = if b.all asciiDigit then some (value (b.map UInt8.toNat)) else none := by
  rw [decimal, decimal_foldlM]
  simp

theorem decimal_eq_some {b : Bytes} {n : Nat} :
    decimal b = some n ↔ (∀ c ∈ b, Digit c.toNat) ∧ value (b.map UInt8.toNat) = n := by
  simp only [decimal_eq, Option.ite_none_right_eq_some, Option.some.injEq, List.all_eq_true, asciiDigit_iff]

theorem map_ofNat_toNat (b : Bytes) : (b.map UInt8.toNat).map UInt8.ofNat = b := by
  rw [List.map_map]
  exact (List.map_congr_left fun c _ => UInt8.ofNat_toNat).trans (List.map_id b)

theorem map_toNat_ofNat {cs : List Nat} (h : ∀ c ∈ cs, c < 128) : (cs.map UInt8.ofNat).map UInt8.toNat = cs := by
  rw [List.map_map]
  refine (List.map_congr_left fun c hc => ?_).trans (List.map_id cs)
  have := h c hc
  rw [Function.comp_apply, UInt8.toNat_ofNat', Nat.mod_eq_of_lt (by omega)]
  rfl

theorem decimal_codes {cs : List Nat} (h : ∀ c ∈ cs, Digit c) : decimal (cs.map UInt8.ofNat) = some (value cs) := by
  have hsmall : ∀ c ∈ cs, c < 128 := fun c hc => by
    have := (h c hc).2
    omega
  rw [decimal_eq_some, map_toNat_ofNat hsmall]
  refine ⟨fun c hc => ?_, rfl⟩
  obtain ⟨d, hd, rfl⟩ := List.mem_map.mp hc
  have := hsmall d hd
  rw [UInt8.toNat_ofNat', Nat.mod_eq_of_lt (by omega)]
  exact h d hd

theorem decimal_padded {k n : Nat} (h : n < 10 ^ k) : decimal ((padded k n).map UInt8.ofNat) = some n := by
  rw [decimal_codes fun _ => Decimal.digit_of_mem_padded, Decimal.value_padded h]

/-- Digits that are read as a number are the number padded to their length, so a
field of fixed width is determined by what it says. -/
theorem padded_of_decimal {b : Bytes} {k n : Nat} (hk : b.length = k) (h : decimal b = some n) :
    b = (padded k n).map UInt8.ofNat := by
  obtain ⟨hdigits, rfl⟩ := decimal_eq_some.mp h
  have hmap : ∀ d ∈ b.map UInt8.toNat, Digit d := by simpa using hdigits
  have hround := Decimal.padded_value hmap
  rw [List.length_map, hk] at hround
  rw [hround, map_ofNat_toNat]

theorem decimal_lt {b : Bytes} {n : Nat} (h : decimal b = some n) : n < 10 ^ b.length := by
  obtain ⟨hdigits, rfl⟩ := decimal_eq_some.mp h
  have := @Decimal.value_lt (b.map UInt8.toNat) (by simpa using hdigits)
  rwa [List.length_map] at this

/-! ## The grammar -/

/-- The tests of `canonical_utc` on single bytes: the length, the separators and
the last byte. -/
structure Framed (b : Bytes) : Prop where
  length : b.length = 20 ∨ 22 ≤ b.length ∧ b.length ≤ 27
  yearDash : b.getD 4 0 = 45
  monthDash : b.getD 7 0 = 45
  dateEnd : b.getD 10 0 = 84
  hourColon : b.getD 13 0 = 58
  minuteColon : b.getD 16 0 = 58
  last : b.getD (b.length - 1) 0 = 90
  point : 20 < b.length → b.getD 19 0 = 46
  fraction : 20 < b.length → (decimal (slice b 20 (b.length - 1))).isSome = true

/-- The numbers of `canonical_utc`, read as a date and a time of day off the
places between the separators. -/
structure Reads (b : Bytes) (t : Stamp) : Prop where
  year : decimal (slice b 0 4) = some t.date.year
  month : decimal (slice b 5 7) = some t.date.month
  day : decimal (slice b 8 10) = some t.date.day
  hour : decimal (slice b 11 13) = some t.hour
  minute : decimal (slice b 14 16) = some t.minute
  second : decimal (slice b 17 19) = some t.second

theorem monthDays_getD (y : Nat) {m : Nat} (hm : 1 ≤ m) (hm' : m ≤ 12) :
    (monthDays (Calendar.leap y)).getD (m - 1) 0 = Calendar.monthLength y m := by
  interval_cases m <;> rfl

/-- `canonical_utc` as its separators, its numbers and their ranges. Everything
after this is about these three and not about the function. -/
theorem canonicalUtc_eq_true (s : String) :
    canonicalUtc s = true ↔ Framed (utf8 s) ∧ ∃ t : Stamp, Reads (utf8 s) t ∧ t.date.Valid ∧ t.hour < 24 ∧
      t.minute < 60 ∧ t.second < 60 := by
  generalize hb : utf8 s = b
  have hframe : Framed b ↔ (!(b.length == 20 || (22 ≤ b.length && b.length ≤ 27)) || b.getD 4 0 != 45 ||
      b.getD 7 0 != 45 || b.getD 10 0 != 84 || b.getD 13 0 != 58 || b.getD 16 0 != 58 ||
      b.getD (b.length - 1) 0 != 90 ||
      (20 < b.length && (b.getD 19 0 != 46 || (decimal (slice b 20 (b.length - 1))).isNone))) = false := by
    simp only [Bool.or_eq_false_iff, Bool.not_eq_false', Bool.or_eq_true, beq_iff_eq, Bool.and_eq_true,
      decide_eq_true_eq, bne_eq_false_iff_eq, Bool.and_eq_false_iff, decide_eq_false_iff_not,
      Option.isNone_eq_false_iff]
    constructor
    · intro h
      refine ⟨⟨⟨⟨⟨⟨⟨h.length, h.yearDash⟩, h.monthDash⟩, h.dateEnd⟩, h.hourColon⟩, h.minuteColon⟩, h.last⟩, ?_⟩
      by_cases hlong : 20 < b.length
      · exact .inr ⟨h.point hlong, h.fraction hlong⟩
      · exact .inl hlong
    · rintro ⟨⟨⟨⟨⟨⟨⟨hlength, h4⟩, h7⟩, h10⟩, h13⟩, h16⟩, hlast⟩, hfraction⟩
      exact ⟨hlength, h4, h7, h10, h13, h16, hlast, fun hlong => (hfraction.resolve_left (not_not_intro hlong)).1,
        fun hlong => (hfraction.resolve_left (not_not_intro hlong)).2⟩
  rw [hframe]
  simp only [canonicalUtc, hb]
  split
  · rename_i hbad
    refine ⟨nofun, fun h => ?_⟩
    rw [hbad] at h
    exact absurd h.1 (by decide)
  · rename_i hgood
    rw [Bool.not_eq_true] at hgood
    simp only [hgood, true_and]
    split
    · rename_i y m d h mi sec hy hm hd hh hmi hsec
      constructor
      · intro hok
        simp only [Bool.and_eq_true, decide_eq_true_eq] at hok
        obtain ⟨⟨⟨⟨⟨⟨hypos, hmonth⟩, hdpos⟩, hday⟩, hhour⟩, hminute⟩, hsecond⟩ := hok
        refine ⟨⟨⟨y, m, d⟩, h, mi, sec, []⟩, ⟨hy, hm, hd, hh, hmi, hsec⟩, ⟨hypos, hmonth, hdpos, ?_⟩, hhour, hminute,
          hsecond⟩
        rw [← monthDays_getD y hmonth.1 hmonth.2]
        exact hday
      · rintro ⟨⟨⟨y', m', d'⟩, h', mi', sec', fraction⟩, ⟨hy', hm', hd', hh', hmi', hsec'⟩, hdate, hhour, hminute, hsecond⟩
        simp only at hy' hm' hd' hh' hmi' hsec' hhour hminute hsecond
        cases hy.symm.trans hy'
        cases hm.symm.trans hm'
        cases hd.symm.trans hd'
        cases hh.symm.trans hh'
        cases hmi.symm.trans hmi'
        cases hsec.symm.trans hsec'
        obtain ⟨hypos, hmonth, hdpos, hday⟩ := hdate
        simp only at hypos hmonth hdpos hday
        rw [← monthDays_getD y hmonth.1 hmonth.2] at hday
        simp only [Bool.and_eq_true, decide_eq_true_eq]
        exact ⟨⟨⟨⟨⟨⟨hypos, hmonth⟩, hdpos⟩, hday⟩, hhour⟩, hminute⟩, hsecond⟩
    · rename_i hnone
      refine ⟨nofun, fun ⟨t, hreads, _⟩ => ?_⟩
      exact (hnone _ _ _ _ _ _ hreads.year hreads.month hreads.day hreads.hour hreads.minute hreads.second).elim

/-! ### From the text to the stamp -/

theorem length_slice {b : Bytes} {i j : Nat} (h : j ≤ b.length) : (slice b i j).length = j - i := by
  rw [slice, List.length_drop, List.length_take, Nat.min_eq_left h]

/-- A slice, the byte after it and the rest. -/
theorem drop_eq_slice {b : Bytes} {i j : Nat} (hij : i ≤ j) (hj : j < b.length) :
    b.drop i = slice b i j ++ b.getD j 0 :: b.drop (j + 1) := by
  have hcut : b.getD j 0 :: b.drop (j + 1) = b.drop j := by
    rw [List.getD_eq_getElem _ _ hj, List.drop_eq_getElem_cons hj]
  have htake : (b.drop i).take (j - i) = slice b i j := by
    rw [slice, List.drop_take]
  have hdrop : (b.drop i).drop (j - i) = b.drop j := by
    rw [List.drop_drop]
    congr 1
    omega
  rw [hcut, ← htake, ← hdrop, List.take_append_drop]

/-- What follows the seconds. -/
theorem Framed.tail {b : Bytes} (h : Framed b) :
    b.drop 19 = (if 20 < b.length then 46 :: slice b 20 (b.length - 1) else []) ++ [90] := by
  have hlong : 20 ≤ b.length := by
    have := h.length
    omega
  have hend : b.drop (b.length - 1 + 1) = [] := List.drop_eq_nil_of_le (by omega)
  have hlast := drop_eq_slice (b := b) (i := 19) (j := b.length - 1) (by omega) (by omega)
  rw [h.last, hend] at hlast
  split
  · rename_i hmore
    have hpoint := drop_eq_slice (b := b) (i := 19) (j := 19) (le_refl _) (by omega)
    have hrest := drop_eq_slice (b := b) (i := 20) (j := b.length - 1) (by omega) (by omega)
    have hnil : slice b 19 19 = [] := List.eq_nil_of_length_eq_zero (length_slice (by omega))
    rw [hpoint, hnil, h.point hmore, hrest, h.last, hend]
    rfl
  · have hshort : b.length - 1 = 19 := by omega
    have hnil : slice b 19 19 = [] := List.eq_nil_of_length_eq_zero (length_slice (by omega))
    rw [hlast, hshort, hnil]

/-- The bytes in the order of the grammar: the parts between the separators,
with the separators between them. -/
theorem Framed.bytes_eq {b : Bytes} (h : Framed b) :
    b = slice b 0 4 ++ 45 :: (slice b 5 7 ++ 45 :: (slice b 8 10 ++ 84 :: (slice b 11 13 ++ 58 ::
      (slice b 14 16 ++ 58 :: (slice b 17 19 ++ b.drop 19))))) := by
  have hlong : 20 ≤ b.length := by
    have := h.length
    omega
  have hseconds : b.drop 17 = slice b 17 19 ++ b.drop 19 := by
    have := drop_eq_slice (b := b) (i := 17) (j := 19) (by omega) (by omega)
    have hpoint := drop_eq_slice (b := b) (i := 19) (j := 19) (le_refl _) (by omega)
    have hnil : slice b 19 19 = [] := List.eq_nil_of_length_eq_zero (length_slice (by omega))
    rw [hnil, List.nil_append] at hpoint
    rw [this, hpoint]
  calc b = b.drop 0 := rfl
    _ = slice b 0 4 ++ b.getD 4 0 :: b.drop 5 := drop_eq_slice (by omega) (by omega)
    _ = slice b 0 4 ++ b.getD 4 0 :: (slice b 5 7 ++ b.getD 7 0 :: b.drop 8) := by
      rw [← drop_eq_slice (b := b) (i := 5) (by omega) (by omega)]
    _ = slice b 0 4 ++ b.getD 4 0 :: (slice b 5 7 ++ b.getD 7 0 :: (slice b 8 10 ++ b.getD 10 0 :: b.drop 11)) := by
      rw [← drop_eq_slice (b := b) (i := 8) (by omega) (by omega)]
    _ = slice b 0 4 ++ b.getD 4 0 :: (slice b 5 7 ++ b.getD 7 0 :: (slice b 8 10 ++ b.getD 10 0 ::
        (slice b 11 13 ++ b.getD 13 0 :: b.drop 14))) := by
      rw [← drop_eq_slice (b := b) (i := 11) (by omega) (by omega)]
    _ = slice b 0 4 ++ b.getD 4 0 :: (slice b 5 7 ++ b.getD 7 0 :: (slice b 8 10 ++ b.getD 10 0 ::
        (slice b 11 13 ++ b.getD 13 0 :: (slice b 14 16 ++ b.getD 16 0 :: b.drop 17)))) := by
      rw [← drop_eq_slice (b := b) (i := 14) (by omega) (by omega)]
    _ = _ := by rw [h.yearDash, h.monthDash, h.dateEnd, h.hourColon, h.minuteColon, hseconds]

/-- A frame with its numbers is a text of the grammar. The fraction is what
stands between the point and the last byte. -/
theorem exists_stamp {b : Bytes} (h : Framed b) {t : Stamp} (hreads : Reads b t) (hdate : t.date.Valid)
    (hhour : t.hour < 24) (hminute : t.minute < 60) (hsecond : t.second < 60) :
    ∃ u : Stamp, u.Valid ∧ b = u.bytes := by
  have hlength := h.length
  let fraction := if 20 < b.length then (slice b 20 (b.length - 1)).map UInt8.toNat else []
  have hdigits : ∀ d ∈ fraction, Digit d := by
    intro d hd
    by_cases hmore : 20 < b.length
    · simp only [fraction, if_pos hmore] at hd
      obtain ⟨n, hn⟩ := Option.isSome_iff_exists.mp (h.fraction hmore)
      obtain ⟨c, hc, rfl⟩ := List.mem_map.mp hd
      exact (decimal_eq_some.mp hn).1 c hc
    · simp [fraction, hmore] at hd
  have hyear : t.date.year < 10 ^ 4 := by
    have := decimal_lt hreads.year
    rwa [length_slice (by omega)] at this
  have htail : b.drop 19 = (fractionCodes fraction ++ [90]).map UInt8.ofNat := by
    rw [h.tail, List.map_append]
    by_cases hmore : 20 < b.length
    · have hne : fraction ≠ [] := by
        rw [← List.length_pos_iff]
        simp only [fraction, if_pos hmore, List.length_map]
        rw [length_slice (by omega)]
        omega
      rw [if_pos hmore, fractionCodes, if_neg hne, List.map_cons]
      simp only [fraction, if_pos hmore, map_ofNat_toNat]
      rfl
    · simp [fraction, hmore, fractionCodes]
  refine ⟨{ t with fraction := fraction }, ⟨hdate, by simp only; omega, hhour, hminute, hsecond, hdigits, ?_⟩, ?_⟩
  · by_cases hmore : 20 < b.length
    · simp only [fraction, if_pos hmore, List.length_map]
      rw [length_slice (by omega)]
      omega
    · simp [fraction, hmore]
  · have pad : ∀ {i j k n : Nat}, j ≤ b.length → j - i = k → decimal (slice b i j) = some n →
        slice b i j = (padded k n).map UInt8.ofNat :=
      fun hj hk hn => padded_of_decimal ((length_slice hj).trans hk) hn
    conv_lhs => rw [h.bytes_eq, pad (by omega) rfl hreads.year, pad (by omega) rfl hreads.month,
      pad (by omega) rfl hreads.day, pad (by omega) rfl hreads.hour, pad (by omega) rfl hreads.minute,
      pad (by omega) rfl hreads.second, htail]
    simp only [Stamp.bytes, Stamp.codes, Stamp.wholeCodes, List.map_append, List.map_cons, List.append_assoc,
      List.cons_append]
    rfl

/-! ### From the stamp to the text -/

theorem slice_middle {p m r : Bytes} {i j : Nat} (hi : p.length = i) (hj : i + m.length = j) :
    slice (p ++ (m ++ r)) i j = m := by
  have htake : (p ++ (m ++ r)).take j = p ++ m := by
    rw [← List.append_assoc, ← hj, ← hi, ← List.length_append, List.take_left]
  rw [slice, htake, ← hi, List.drop_left]

theorem reads_bytes {t : Stamp} (h : t.Valid) : Reads t.bytes t := by
  have hyear := h.year
  have hmonth := h.date.month
  have hday : t.date.day ≤ 31 := le_trans h.date.day.2 (Calendar.monthLength_bounds _ _).2
  have hhour := h.hour
  have hminute := h.minute
  have hsecond := h.second
  exact ⟨decimal_padded (k := 4) (by omega), decimal_padded (k := 2) (by omega), decimal_padded (k := 2) (by omega),
    decimal_padded (k := 2) (by omega), decimal_padded (k := 2) (by omega), decimal_padded (k := 2) (by omega)⟩

theorem length_bytes (t : Stamp) : t.bytes.length = 20 + (fractionCodes t.fraction).length := by
  simp only [Stamp.bytes, Stamp.codes, List.length_map, List.length_append, length_wholeCodes, List.length_singleton]
  omega

theorem fraction_ne_nil {t : Stamp} (h : 20 < t.bytes.length) : t.fraction ≠ [] := by
  intro hnil
  rw [length_bytes, hnil] at h
  exact absurd h (by decide)

/-- A fraction lies between the point and the last byte. -/
theorem fraction_bytes {t : Stamp} (h : 20 < t.bytes.length) :
    slice t.bytes 20 (t.bytes.length - 1) = t.fraction.map UInt8.ofNat := by
  have hne := fraction_ne_nil h
  have hlength := length_bytes t
  rw [fractionCodes, if_neg hne, List.length_cons] at hlength
  have hbytes : t.bytes = (t.wholeCodes ++ [46]).map UInt8.ofNat ++ (t.fraction.map UInt8.ofNat ++ [90]) := by
    simp [Stamp.bytes, Stamp.codes, fractionCodes, hne]
  conv_lhs => rw [hbytes]
  apply slice_middle
  · simp
  · simp only [← hbytes, List.length_map]
    omega

theorem framed_bytes {t : Stamp} (h : t.Valid) : Framed t.bytes where
  length := by
    have hwidth := h.width
    rw [length_bytes, fractionCodes]
    split
    · exact .inl rfl
    · rename_i hne
      have := List.length_pos_iff.mpr hne
      rw [List.length_cons]
      omega
  yearDash := rfl
  monthDash := rfl
  dateEnd := rfl
  hourColon := rfl
  minuteColon := rfl
  last := by
    have hlast : t.bytes.getLast? = some 90 := by
      simp [Stamp.bytes, Stamp.codes]
    rw [List.getLast?_eq_getElem?] at hlast
    rw [List.getD_eq_getElem?_getD, hlast]
    rfl
  point := by
    intro hmore
    rw [length_bytes] at hmore
    cases hfraction : t.fraction with
    | nil =>
      rw [hfraction] at hmore
      exact absurd hmore (by decide)
    | cons d ds =>
      rw [Stamp.bytes, Stamp.codes, hfraction]
      rfl
  fraction := by
    intro hmore
    rw [fraction_bytes hmore, decimal_codes h.digits]
    rfl

/-- The accepted texts are those of the grammar, with a date of the calendar and
at most six digits of fraction, and no others. -/
theorem canonicalUtc_iff (s : String) : canonicalUtc s = true ↔ ∃ t : Stamp, t.Valid ∧ s = t.text := by
  rw [canonicalUtc_eq_true]
  constructor
  · rintro ⟨hframed, t, hreads, hdate, hhour, hminute, hsecond⟩
    obtain ⟨u, hu, hbytes⟩ := exists_stamp hframed hreads hdate hhour hminute hsecond
    exact ⟨u, hu, utf8_inj (hbytes.trans (utf8_text hu).symm)⟩
  · rintro ⟨t, ht, rfl⟩
    rw [utf8_text ht]
    exact ⟨framed_bytes ht, t, reads_bytes ht, ht.date, ht.hour, ht.minute, ht.second⟩

theorem canonicalUtc_text {t : Stamp} (h : t.Valid) : canonicalUtc t.text = true :=
  (canonicalUtc_iff t.text).mpr ⟨t, h, rfl⟩

/-! ## Microseconds -/

theorem decimal_millionths {t : Stamp} (h : t.Valid) :
    decimal (t.fraction.map UInt8.ofNat ++ List.replicate (6 - (t.fraction.map UInt8.ofNat).length) 48) =
      some t.millionths := by
  have hcodes : t.fraction.map UInt8.ofNat ++ List.replicate (6 - (t.fraction.map UInt8.ofNat).length) 48 =
      (t.fraction ++ List.replicate (6 - t.fraction.length) 48).map UInt8.ofNat := by
    rw [List.map_append, List.map_replicate, List.length_map]
    rfl
  have hdigits : ∀ d ∈ t.fraction ++ List.replicate (6 - t.fraction.length) 48, Digit d := by
    intro d hd
    rcases List.mem_append.mp hd with hd | hd
    · exact h.digits d hd
    · rw [List.eq_of_mem_replicate hd]
      exact ⟨le_refl _, by decide⟩
  rw [hcodes, decimal_codes hdigits, Decimal.value_append_zeros]
  rfl

theorem millionths_eq_zero {t : Stamp} (h : ¬20 < t.bytes.length) : t.millionths = 0 := by
  have hnil : t.fraction = [] := by
    by_contra hne
    rw [length_bytes, fractionCodes, if_neg hne, List.length_cons] at h
    omega
  rw [Stamp.millionths, hnil]
  rfl

/-- The microseconds of a text count the days of its date. The formula of the
source is that of `Calendar.daysFromCivil_eq`. -/
theorem utcEpochMicros_text {t : Stamp} (h : t.Valid) : utcEpochMicros t.text = some t.micros := by
  have hreads := reads_bytes h
  rw [utcEpochMicros, canonicalUtc_text h]
  simp only [Bool.not_true, Bool.false_eq_true, if_false, utf8_text h, hreads.year, hreads.month, hreads.day,
    hreads.hour, hreads.minute, hreads.second, Option.map_some, Option.bind_eq_bind, Option.bind_some]
  have hvalue : ∀ f : Int, (Calendar.daysFromCivil t.date.year t.date.month t.date.day * 86400 + t.hour * 3600 +
      t.minute * 60 + t.second) * 1000000 + f =
      (Calendar.epochDay t.date * 86400 + t.secondOfDay) * 1000000 + f := by
    intro f
    rw [Calendar.daysFromCivil_eq h.date, Stamp.secondOfDay]
    push_cast
    ring
  split
  · rename_i hmore
    rw [fraction_bytes hmore, decimal_millionths h]
    exact congrArg some (hvalue t.millionths)
  · rename_i hnone
    rw [Stamp.micros, millionths_eq_zero hnone]
    exact congrArg some (hvalue 0)

/-! ## With every panic

The same two functions with what Rust checks at run time: an index, the bounds
of a slice and its character boundaries, and the range of each result. -/

open Panics (Run Attempt item sliceOf allOf sub)

def u32 (n : Nat) : Run Nat := if n < 2 ^ 32 then .ok n else .error .range

def i64 (x : Int) : Run Int := if -2 ^ 63 ≤ x ∧ x < 2 ^ 63 then .ok x else .error .range

/-- mirrors verify-rs/src/lib.rs:256-258 -/
def decimalRun : Bytes → Nat → Run (Option Nat)
  | [], n => .ok (some n)
  | c :: b, n =>
    if asciiDigit c then do
      let tens ← u32 (n * 10)
      let digit ← sub c.toNat 48
      decimalRun b (← u32 (tens + digit))
    else .ok none

/-- The `||` chain of refusals, as the `&&` chain of their negations: the same
tests in the same order.
mirrors verify-rs/src/lib.rs:260-269 -/
def canonicalUtcRun (s : String) : Run Bool := do
  let b := utf8 s
  let n := b.length
  let good ← allOf [
    pure (n == 20 || (22 ≤ n && n ≤ 27)),
    do return (← item b 4) == 45,
    do return (← item b 7) == 45,
    do return (← item b 10) == 84,
    do return (← item b 13) == 58,
    do return (← item b 16) == 58,
    do return (← Panics.unwrap b.getLast?) == 90,
    if 20 < n then
      allOf [
        do return (← item b 19) == 46,
        do return (← decimalRun (← sliceOf b 20 (← sub n 1)) 0).isSome]
    else pure true]
  if !good then return false
  let y ← decimalRun (← sliceOf b 0 4) 0
  let m ← decimalRun (← sliceOf b 5 7) 0
  let d ← decimalRun (← sliceOf b 8 10) 0
  let h ← decimalRun (← sliceOf b 11 13) 0
  let mi ← decimalRun (← sliceOf b 14 16) 0
  let sec ← decimalRun (← sliceOf b 17 19) 0
  match y, m, d, h, mi, sec with
  | some y, some m, some d, some h, some mi, some sec =>
    let leap := y % 4 == 0 && (y % 100 != 0 || y % 400 == 0)
    let days := [0, 31, if leap then 29 else 28, 31, 30, 31, 30, 31, 31, 30, 31, 30, 31]
    allOf [
      pure (decide (0 < y)),
      pure (1 ≤ m && m ≤ 12),
      pure (decide (0 < d)),
      do return decide (d ≤ (← item days m)),
      pure (decide (h < 24)),
      pure (decide (mi < 60)),
      pure (decide (sec < 60))]
  | _, _, _, _, _, _ => return false

/-- A byte that does not continue a character. -/
def startsChar (c : UInt8) : Bool := c &&& 0xC0 != 0x80

/-- `str::is_char_boundary`. -/
def isCharBoundary (b : Bytes) (i : Nat) : Bool :=
  i == 0 || (match b[i]? with
    | some c => startsChar c
    | none => i == b.length)

/-- `&s[i..j]`, which panics out of range and inside a character. -/
def strSlice (s : String) (i j : Nat) : Run Bytes :=
  if isCharBoundary (utf8 s) i && isCharBoundary (utf8 s) j then sliceOf (utf8 s) i j else .error .range

/-- At least one digit, and a value that fits. -/
def signedI64 (negative : Bool) (digits : Bytes) : Option Int :=
  if digits.isEmpty then none
  else do
    let n ← decimal digits
    let x : Int := if negative then -n else n
    if -2 ^ 63 ≤ x ∧ x < 2 ^ 63 then some x else none

/-- `str::parse::<i64>`: an optional sign, then digits. -/
def parseI64 : Bytes → Option Int
  | 43 :: digits => signedI64 false digits
  | 45 :: digits => signedI64 true digits
  | digits => signedI64 false digits

/-- `format!` to six characters, padded on the right with zeros. -/
def padRight (b : Bytes) : Bytes := b ++ List.replicate (6 - (b.filter startsChar).length) 48

/-- The day of `utc_epoch_micros`; `/` truncates towards zero.
mirrors verify-rs/src/lib.rs:288-293 -/
def civilDaysRun (y m d : Int) : Run Int := do
  let years ← (if m ≤ 2 then i64 (y - 1) else pure y)
  let era := years.tdiv 400
  let yoe ← i64 (years - (← i64 (era * 400)))
  let march ← (if m > 2 then i64 (m - 3) else i64 (m + 9))
  let scaled ← i64 ((← i64 (153 * march)) + 2)
  let doy ← i64 ((← i64 (scaled.tdiv 5 + d)) - 1)
  let ordinary ← i64 (yoe * 365)
  let withLeap ← i64 (ordinary + yoe.tdiv 4)
  let beforeYear ← i64 (withLeap - yoe.tdiv 100)
  let doe ← i64 (beforeYear + doy)
  let days ← i64 ((← i64 (era * 146097)) + doe)
  i64 (days - 719468)

/-- The sum of the last line. mirrors verify-rs/src/lib.rs:294 -/
def microsRun (days h mi s micros : Int) : Run Int := do
  let seconds ← i64 ((← i64 (days * 86400)) + (← i64 (h * 3600)))
  let seconds ← i64 (seconds + (← i64 (mi * 60)))
  let seconds ← i64 (seconds + s)
  i64 ((← i64 (seconds * 1000000)) + micros)

/-- mirrors verify-rs/src/lib.rs:278-295 -/
def utcEpochMicrosRun (ts : String) : Run (Option Int) := OptionT.run do
  if !(← canonicalUtcRun ts) then failure
  let num (a z : Nat) : Attempt Int := OptionT.mk do return parseI64 (← strSlice ts a z)
  let y ← num 0 4
  let m ← num 5 7
  let d ← num 8 10
  let h ← num 11 13
  let mi ← num 14 16
  let s ← num 17 19
  let n := (utf8 ts).length
  let micros ← (if 20 < n then
      OptionT.mk do return parseI64 (padRight (← strSlice ts 20 (← sub n 1)))
    else pure 0)
  let days ← civilDaysRun y m d
  microsRun days h mi s micros

/-! ### They return -/

theorem u32_of_lt {n : Nat} (h : n < 2 ^ 32) : u32 n = .ok n := if_pos h

theorem i64_of_fits {x : Int} (h : -2 ^ 63 ≤ x ∧ x < 2 ^ 63) : i64 x = .ok x := if_pos h

/-- Nine digits fit into 32 bits, so neither the product nor the sum overflows
on the way. -/
theorem decimalRun_foldlM {b : Bytes} {n : Nat} (h : (n + 1) * 10 ^ b.length ≤ 10 ^ 9) :
    decimalRun b n =
      .ok (b.foldlM (fun n c => if asciiDigit c then some (n * 10 + (c.toNat - 48)) else none) n) := by
  induction b generalizing n with
  | nil => rfl
  | cons c b ih =>
    rw [decimalRun, List.foldlM_cons]
    cases hc : asciiDigit c with
    | false => rfl
    | true =>
      have hdigit := asciiDigit_iff.mp hc
      have hlow : 48 ≤ c.toNat := hdigit.1
      have hhigh := hdigit.2
      rw [List.length_cons, pow_succ] at h
      have hpow : 1 ≤ 10 ^ b.length := Nat.one_le_pow _ _ (by decide)
      have hnext : (n * 10 + (c.toNat - 48) + 1) * 10 ^ b.length ≤ 10 ^ 9 :=
        calc (n * 10 + (c.toNat - 48) + 1) * 10 ^ b.length ≤ (n * 10 + 10) * 10 ^ b.length :=
              Nat.mul_le_mul_right _ (by omega)
          _ = (n + 1) * (10 ^ b.length * 10) := by ring
          _ ≤ 10 ^ 9 := h
      have hbound : n * 10 + (c.toNat - 48) + 1 ≤ 10 ^ 9 := le_trans (Nat.le_mul_of_pos_right _ hpow) hnext
      rw [if_pos rfl, u32_of_lt (by omega), Panics.ok_bind, Panics.sub_eq_ok.mpr ⟨hlow, rfl⟩, Panics.ok_bind,
        u32_of_lt (by omega), Panics.ok_bind, ih hnext]
      rfl

theorem decimalRun_eq {b : Bytes} (h : b.length ≤ 9) : decimalRun b 0 = .ok (decimal b) :=
  decimalRun_foldlM (by rw [zero_add, one_mul]; exact Nat.pow_le_pow_right (by decide) h)

theorem sliceOf_eq {b : Bytes} {i j : Nat} (hij : i ≤ j) (hj : j ≤ b.length) : sliceOf b i j = .ok (slice b i j) :=
  Panics.sliceOf_of_le hij hj

/-- A number of up to nine bytes is read. -/
theorem decimalRun_slice {b : Bytes} {i j : Nat} (hij : i ≤ j) (hj : j ≤ b.length) (h : j - i ≤ 9) :
    (do decimalRun (← sliceOf b i j) 0) = .ok (decimal (slice b i j)) := by
  rw [sliceOf_eq hij hj, Panics.ok_bind, decimalRun_eq (by rw [length_slice hj]; exact h)]

theorem item_eq {b : Bytes} {i : Nat} (h : i < b.length) : item b i = .ok (b.getD i 0) := by
  rw [Panics.item_of_lt h, List.getD_eq_getElem _ _ h]

theorem unwrap_getLast {b : Bytes} (h : b ≠ []) : Panics.unwrap b.getLast? = .ok (b.getD (b.length - 1) 0) := by
  have hlt : b.length - 1 < b.length := by
    have := List.length_pos_iff.mpr h
    omega
  rw [List.getLast?_eq_getElem?, List.getElem?_eq_getElem hlt, List.getD_eq_getElem _ _ hlt]
  rfl

/-- The fraction is looked at only if there is one, so its first byte is
there. -/
theorem fraction_allOf {b : Bytes} (h : 20 ≤ b.length ∧ b.length ≤ 27) :
    (if 20 < b.length then
      allOf [
        do return (← item b 19) == 46,
        do return (← decimalRun (← sliceOf b 20 (← sub b.length 1)) 0).isSome]
    else pure true) =
      .ok (!(20 < b.length && (b.getD 19 0 != 46 || (decimal (slice b 20 (b.length - 1))).isNone))) := by
  split
  · rename_i hmore
    rw [item_eq (by omega), Panics.sub_eq_ok.mpr ⟨by omega, rfl⟩, Panics.ok_bind, Panics.ok_bind,
      sliceOf_eq (by omega) (by omega), Panics.ok_bind, decimalRun_eq (by rw [length_slice (by omega)]; omega)]
    refine (Panics.allOf_ok [b.getD 19 0 == 46, (decimal (slice b 20 (b.length - 1))).isSome]).trans ?_
    simp [hmore, bne]
  · rename_i hnone
    simp [hnone, Panics.run_pure]

/-- The last test looks up the length of the month, after the month has been
checked to be one of twelve. -/
theorem ranges_allOf (y m d h mi sec : Nat) (leap : Bool) :
    allOf [
      pure (decide (0 < y)),
      pure (1 ≤ m && m ≤ 12),
      pure (decide (0 < d)),
      do return decide (d ≤ (← item [0, 31, if leap then 29 else 28, 31, 30, 31, 30, 31, 31, 30, 31, 30, 31] m)),
      pure (decide (h < 24)),
      pure (decide (mi < 60)),
      pure (decide (sec < 60))] =
      .ok (decide (0 < y) && (1 ≤ m && m ≤ 12) && decide (0 < d) && d ≤ (monthDays leap).getD (m - 1) 0 &&
        h < 24 && mi < 60 && sec < 60) := by
  cases hmonth : ((1 ≤ m && m ≤ 12 : Bool)) with
  | false =>
    cases hyear : decide (0 < y) <;> rfl
  | true =>
    simp only [Bool.and_eq_true, decide_eq_true_eq] at hmonth
    have hitem : item [0, 31, if leap then 29 else 28, 31, 30, 31, 30, 31, 31, 30, 31, 30, 31] m =
        .ok ((monthDays leap).getD (m - 1) 0) := by
      obtain ⟨hlow, hhigh⟩ := hmonth
      interval_cases m <;> rfl
    rw [hitem, Panics.ok_bind]
    refine (Panics.allOf_ok [decide (0 < y), true, decide (0 < d), decide (d ≤ (monthDays leap).getD (m - 1) 0),
      decide (h < 24), decide (mi < 60), decide (sec < 60)]).trans ?_
    simp only [List.all_cons, List.all_nil, id, Bool.and_true, Bool.true_and, Bool.and_assoc]

/-- `canonical_utc` returns on every text, of whatever length and characters. -/
theorem canonicalUtcRun_eq (s : String) : canonicalUtcRun s = .ok (canonicalUtc s) := by
  unfold canonicalUtcRun canonicalUtc
  generalize utf8 s = b
  simp only
  cases hlength : (b.length == 20 || (22 ≤ b.length && b.length ≤ 27)) with
  | false => rfl
  | true =>
    have hlong : 20 ≤ b.length ∧ b.length ≤ 27 := by
      simp only [Bool.or_eq_true, beq_iff_eq, Bool.and_eq_true, decide_eq_true_eq] at hlength
      omega
    have hne : b ≠ [] := by
      rw [← List.length_pos_iff]
      omega
    -- every index of the chain is below twenty
    rw [item_eq (by omega), item_eq (by omega), item_eq (by omega), item_eq (by omega), item_eq (by omega),
      unwrap_getLast hne, fraction_allOf hlong]
    have hgood := Panics.allOf_ok [true, b.getD 4 0 == 45, b.getD 7 0 == 45, b.getD 10 0 == 84, b.getD 13 0 == 58,
      b.getD 16 0 == 58, b.getD (b.length - 1) 0 == 90,
      !(20 < b.length && (b.getD 19 0 != 46 || (decimal (slice b 20 (b.length - 1))).isNone))]
    simp only [List.map_cons, List.map_nil] at hgood
    simp only [Panics.ok_bind, Panics.run_pure]
    rw [hgood, Panics.ok_bind]
    have hbad : (!true || b.getD 4 0 != 45 || b.getD 7 0 != 45 || b.getD 10 0 != 84 || b.getD 13 0 != 58 ||
        b.getD 16 0 != 58 || b.getD (b.length - 1) 0 != 90 ||
        (20 < b.length && (b.getD 19 0 != 46 || (decimal (slice b 20 (b.length - 1))).isNone))) =
        !([true, b.getD 4 0 == 45, b.getD 7 0 == 45, b.getD 10 0 == 84, b.getD 13 0 == 58, b.getD 16 0 == 58,
          b.getD (b.length - 1) 0 == 90,
          !(20 < b.length && (b.getD 19 0 != 46 || (decimal (slice b 20 (b.length - 1))).isNone))].all id) := by
      simp only [List.all_cons, List.all_nil, id, bne, Bool.not_and, Bool.not_or, Bool.not_not, Bool.and_true,
        Bool.or_assoc]
    rw [hbad]
    split
    · rfl
    · rw [← bind_assoc, decimalRun_slice (by omega) (by omega) (by omega), Panics.ok_bind,
        ← bind_assoc, decimalRun_slice (by omega) (by omega) (by omega), Panics.ok_bind,
        ← bind_assoc, decimalRun_slice (by omega) (by omega) (by omega), Panics.ok_bind,
        ← bind_assoc, decimalRun_slice (by omega) (by omega) (by omega), Panics.ok_bind,
        ← bind_assoc, decimalRun_slice (by omega) (by omega) (by omega), Panics.ok_bind,
        ← bind_assoc, decimalRun_slice (by omega) (by omega) (by omega), Panics.ok_bind]
      cases decimal (slice b 0 4) with
      | none => rfl
      | some y =>
        cases decimal (slice b 5 7) with
        | none => rfl
        | some m =>
          cases decimal (slice b 8 10) with
          | none => rfl
          | some d =>
            cases decimal (slice b 11 13) with
            | none => rfl
            | some h =>
              cases decimal (slice b 14 16) with
              | none => rfl
              | some mi =>
                cases decimal (slice b 17 19) with
                | none => rfl
                | some sec => exact ranges_allOf y m d h mi sec _

/-! The arithmetic of a date in the first ten thousand years. -/

theorem civilDaysRun_eq {y m d : Int} (hy : 1 ≤ y ∧ y ≤ 9999) (hm : 1 ≤ m ∧ m ≤ 12) (hd : 1 ≤ d ∧ d ≤ 31) :
    civilDaysRun y m d = .ok (Calendar.daysFromCivil y m d) := by
  have hyears : (if m ≤ 2 then i64 (y - 1) else pure y) = .ok (if m ≤ 2 then y - 1 else y) := by
    split
    · exact i64_of_fits (by omega)
    · rfl
  have hmarch : (if m > 2 then i64 (m - 3) else i64 (m + 9)) = .ok (if m > 2 then m - 3 else m + 9) := by
    split <;> exact i64_of_fits (by omega)
  unfold civilDaysRun Calendar.daysFromCivil
  rw [hyears, hmarch, Panics.ok_bind]
  generalize hYears : (if m ≤ 2 then y - 1 else y) = years
  generalize hMarch : (if m > 2 then m - 3 else m + 9) = march
  have hyearsBound : 0 ≤ years ∧ years ≤ 9999 := by
    rw [← hYears]
    split <;> omega
  have hmarchBound : 0 ≤ march ∧ march ≤ 11 := by
    rw [← hMarch]
    split <;> omega
  have hera : years.tdiv 400 = years / 400 := Int.tdiv_eq_ediv_of_nonneg hyearsBound.1
  simp only [hera]
  generalize hEra : years / 400 = era
  have heraBound : 0 ≤ era ∧ era ≤ 24 := by omega
  rw [i64_of_fits (by omega), Panics.ok_bind, i64_of_fits (by omega), Panics.ok_bind]
  generalize hYoe : years - era * 400 = yoe
  have hyoeBound : 0 ≤ yoe ∧ yoe ≤ 399 := by omega
  rw [Panics.ok_bind, i64_of_fits (by omega), Panics.ok_bind, i64_of_fits (by omega), Panics.ok_bind,
    Int.tdiv_eq_ediv_of_nonneg (by omega), Int.tdiv_eq_ediv_of_nonneg hyoeBound.1,
    Int.tdiv_eq_ediv_of_nonneg hyoeBound.1]
  have hdoyBound : 0 ≤ (153 * march + 2) / 5 ∧ (153 * march + 2) / 5 ≤ 337 := by omega
  generalize (153 * march + 2) / 5 = doy at *
  rw [i64_of_fits (by omega), Panics.ok_bind, i64_of_fits (by omega), Panics.ok_bind, i64_of_fits (by omega),
    Panics.ok_bind, i64_of_fits (by omega), Panics.ok_bind, i64_of_fits (by omega), Panics.ok_bind,
    i64_of_fits (by omega), Panics.ok_bind, i64_of_fits (by omega), Panics.ok_bind, i64_of_fits (by omega),
    Panics.ok_bind, i64_of_fits (by omega)]

/-- The days of the years that four digits can name. -/
theorem epochDay_bounds {d : Calendar.Date} (h : d.Valid) (hy : d.year ≤ 9999) :
    -719528 ≤ Calendar.epochDay d ∧ Calendar.epochDay d ≤ 2932897 := by
  have hbefore := Calendar.daysBeforeYear_eq d.year
  have hday := Calendar.dayOfYear_le h
  have hlength : Calendar.yearLength d.year ≤ 366 := by
    unfold Calendar.yearLength
    split <;> omega
  have hepoch := Calendar.dayNumber_epoch
  have hnumber : Calendar.dayNumber d = Calendar.daysBeforeYear d.year +
      (Calendar.daysBeforeMonth d.year d.month + d.day) := Nat.add_assoc _ _ _
  unfold Calendar.epochDay
  omega

/-- The microseconds of these years are well within 64 bits, at every step of
the sum. -/
theorem microsRun_eq {days h mi s micros : Int} (hdays : -719528 ≤ days ∧ days ≤ 2932897) (hh : 0 ≤ h ∧ h < 24)
    (hmi : 0 ≤ mi ∧ mi < 60) (hs : 0 ≤ s ∧ s < 60) (hmicros : 0 ≤ micros ∧ micros < 1000000) :
    microsRun days h mi s micros = .ok ((days * 86400 + h * 3600 + mi * 60 + s) * 1000000 + micros) := by
  unfold microsRun
  rw [i64_of_fits (by omega), Panics.ok_bind, i64_of_fits (by omega), Panics.ok_bind, i64_of_fits (by omega),
    Panics.ok_bind, i64_of_fits (by omega), Panics.ok_bind, i64_of_fits (by omega), Panics.ok_bind,
    i64_of_fits (by omega), Panics.ok_bind, i64_of_fits (by omega), Panics.ok_bind, i64_of_fits (by omega)]

/-! The slices of an accepted text. -/

theorem startsChar_ascii : ∀ n < 128, startsChar (UInt8.ofNat n) = true := by decide

theorem isCharBoundary_ascii {cs : List Nat} (h : ∀ c ∈ cs, c < 128) {i : Nat} (hi : i ≤ cs.length) :
    isCharBoundary (cs.map UInt8.ofNat) i = true := by
  unfold isCharBoundary
  rw [Bool.or_eq_true]
  right
  rw [List.getElem?_map]
  cases hc : cs[i]? with
  | none =>
    rw [List.getElem?_eq_none_iff] at hc
    rw [Option.map_none, beq_iff_eq, List.length_map]
    omega
  | some c => exact startsChar_ascii c (h c (List.mem_of_getElem? hc))

/-- The text of a stamp is ASCII, so every place in it is the start of a
character. -/
theorem strSlice_text {t : Stamp} (h : t.Valid) {i j : Nat} (hij : i ≤ j) (hj : j ≤ t.bytes.length) :
    strSlice t.text i j = .ok (slice t.bytes i j) := by
  have hascii := ascii_of_mem_codes h
  have hlength : t.bytes.length = t.codes.length := List.length_map _
  unfold strSlice
  rw [utf8_text h]
  have hstart : isCharBoundary t.bytes i = true := isCharBoundary_ascii hascii (by omega)
  have hstop : isCharBoundary t.bytes j = true := isCharBoundary_ascii hascii (by omega)
  rw [hstart, hstop]
  exact sliceOf_eq hij hj

/-- Digits that fit are read without a sign. -/
theorem parseI64_of_decimal {b : Bytes} {n : Nat} (hb : b ≠ []) (h : decimal b = some n) (hn : n < 2 ^ 63) :
    parseI64 b = some (n : Int) := by
  obtain ⟨c, rest, rfl⟩ := List.exists_cons_of_ne_nil hb
  have hdigit : Digit c.toNat := (decimal_eq_some.mp h).1 c List.mem_cons_self
  have hplus : c ≠ 43 := by
    rintro rfl
    exact absurd hdigit.1 (by decide)
  have hminus : c ≠ 45 := by
    rintro rfl
    exact absurd hdigit.1 (by decide)
  unfold parseI64
  split
  · rename_i heq
    exact absurd (List.cons.inj heq).1 hplus
  · rename_i heq
    exact absurd (List.cons.inj heq).1 hminus
  · rw [signedI64, List.isEmpty_cons, if_neg Bool.false_ne_true, h, Option.bind_eq_bind, Option.bind_some]
    exact if_pos (by rw [if_neg Bool.false_ne_true]; omega)

theorem padRight_codes {cs : List Nat} (h : ∀ c ∈ cs, c < 128) :
    padRight (cs.map UInt8.ofNat) = cs.map UInt8.ofNat ++ List.replicate (6 - (cs.map UInt8.ofNat).length) 48 := by
  have hall : (cs.map UInt8.ofNat).filter startsChar = cs.map UInt8.ofNat := by
    rw [List.filter_eq_self]
    intro b hb
    obtain ⟨c, hc, rfl⟩ := List.mem_map.mp hb
    exact startsChar_ascii c (h c hc)
  rw [padRight, hall]

theorem millionths_lt {t : Stamp} (h : t.Valid) : t.millionths < 1000000 := by
  have hvalue := Decimal.value_lt h.digits
  calc t.millionths < 10 ^ t.fraction.length * 10 ^ (6 - t.fraction.length) :=
        Nat.mul_lt_mul_of_pos_right hvalue (by positivity)
    _ = 10 ^ 6 := by rw [← pow_add, Nat.add_sub_cancel' h.width]

/-- The fraction padded with zeros. -/
theorem parseI64_padRight {t : Stamp} (h : t.Valid) (hne : t.fraction ≠ []) :
    parseI64 (padRight (t.fraction.map UInt8.ofNat)) = some (t.millionths : Int) := by
  have hascii : ∀ c ∈ t.fraction, c < 128 := fun c hc => by
    have := (h.digits c hc).2
    omega
  rw [padRight_codes hascii]
  refine parseI64_of_decimal ?_ (decimal_millionths h) (lt_trans (millionths_lt h) (by decide))
  simp [hne]

theorem parse_slice {t : Stamp} {i j n : Nat} (hij : i < j) (hj : j ≤ t.bytes.length)
    (hw : j - i ≤ 4) (hn : decimal (slice t.bytes i j) = some n) :
    parseI64 (slice t.bytes i j) = some (n : Int) := by
  have hlength := length_slice (b := t.bytes) (i := i) hj
  have hlt : n < 10 ^ 4 :=
    lt_of_lt_of_le (decimal_lt hn) (Nat.pow_le_pow_right (by decide) (by omega))
  refine parseI64_of_decimal (List.length_pos_iff.mp (by omega)) hn (by omega)

/-- `utc_epoch_micros` returns on every text. It slices the text only after
`canonical_utc` has accepted it. -/
theorem utcEpochMicrosRun_eq (s : String) : utcEpochMicrosRun s = .ok (utcEpochMicros s) := by
  unfold utcEpochMicrosRun
  rw [canonicalUtcRun_eq]
  cases hs : canonicalUtc s with
  | false =>
    rw [utcEpochMicros, hs]
    rfl
  | true =>
    obtain ⟨t, ht, rfl⟩ := (canonicalUtc_iff s).mp hs
    have hreads := reads_bytes ht
    have hlong : 20 ≤ t.bytes.length := by
      rw [length_bytes]
      omega
    rw [utcEpochMicros_text ht, Panics.attempt_ok_bind]
    have num : ∀ {i j n : Nat}, i < j → j ≤ 20 → j - i ≤ 4 → decimal (slice t.bytes i j) = some n →
        (do return parseI64 (← strSlice t.text i j) : Run (Option Int)) = .ok (some (n : Int)) := by
      intro i j n hij hj hw hn
      rw [strSlice_text ht (by omega) (by omega), Panics.ok_bind, parse_slice hij (by omega) hw hn]
      rfl
    have hmicros : (if 20 < (utf8 t.text).length then
        OptionT.mk do return parseI64 (padRight (← strSlice t.text 20 (← sub (utf8 t.text).length 1)))
      else pure 0 : Attempt Int) = OptionT.mk (.ok (some (t.millionths : Int))) := by
      rw [utf8_text ht]
      split
      · rename_i hmore
        rw [Panics.sub_eq_ok.mpr ⟨by omega, rfl⟩, Panics.ok_bind, strSlice_text ht (by omega) (by omega),
          Panics.ok_bind, fraction_bytes hmore, parseI64_padRight ht (fraction_ne_nil hmore)]
        rfl
      · rename_i hnone
        rw [millionths_eq_zero hnone]
        rfl
    have hdate := ht.date
    have hyear := ht.year
    have hypos := hdate.year
    have hmonth := hdate.month
    have hday := hdate.day.1
    have hday' := le_trans hdate.day.2 (Calendar.monthLength_bounds t.date.year t.date.month).2
    have hhour := ht.hour
    have hminute := ht.minute
    have hsecond := ht.second
    have hmillionths := millionths_lt ht
    have hsum : (Calendar.epochDay t.date * 86400 + t.hour * 3600 + t.minute * 60 + t.second) * 1000000 +
        t.millionths = t.micros := by
      rw [Stamp.micros, Stamp.secondOfDay]
      push_cast
      ring
    simp only [num (by omega) (by omega) (by omega) hreads.year, num (by omega) (by omega) (by omega) hreads.month,
      num (by omega) (by omega) (by omega) hreads.day, num (by omega) (by omega) (by omega) hreads.hour,
      num (by omega) (by omega) (by omega) hreads.minute, num (by omega) (by omega) (by omega) hreads.second, hmicros,
      Panics.attempt_some_bind]
    rw [civilDaysRun_eq (by omega) (by omega) (by omega), Calendar.daysFromCivil_eq hdate, Panics.attempt_ok_bind,
      microsRun_eq (epochDay_bounds hdate hyear) (by omega) (by omega) (by omega) (by omega), hsum]
    rfl

end SwarrmVerify

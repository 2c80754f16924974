import Mathlib.Data.List.TakeWhile
import SwarrmVerify.Core.JsonText

/-!
# Reading JSON texts

A reader of the grammar of `JsonText`, by recursive descent: the first byte of
a value says which kind it is, and white space is skipped wherever the grammar
allows it. The reader spends one unit of fuel on every value, item and member,
and the length of the text is enough, since each of them has a byte of its own.

That a text has one document is proved through the reader. One direction goes
along the grammar: a value is read whatever follows it, except that a number
must not go on. The other goes along the fuel: what was read was written, and
there is one lemma for each kind of value, under the hypothesis that it holds
with less fuel (`Sound`).

* `readQuoted_quoted`, `takeWhile_number`: strings end at their quote, and
  numbers where no byte of a number follows.
* `readValue_val`, `readItems_items`, `readMembers_members`: a value is read as
  itself, with what follows left over.
* `string_sound`, `word_sound`, `number_sound`, `array_sound`, `object_sound`:
  each kind of value, and `sound` for all.
* `read_iff`: exactly the texts are read, each as its document.
* `Text.unique`: a text has one document.
-/
namespace JsonText

/-! ## The reader -/

/-- The input from the first byte on that is no white space. -/
def skip (inp : Bytes) : Bytes := inp.dropWhile isSpace

/-- Behind `\u`. -/
def readUnit (inp : Bytes) : Option (Bytes × Bytes) :=
  (codeUnit (inp.take 4)).bind fun m =>
    let rest := inp.drop 4
    if surrogate m = false then some (encoded m, rest)
    else if m < 0xdc00 ∧ rest.take 2 = [92, 117] then
      (codeUnit ((rest.drop 2).take 4)).bind fun n =>
        if surrogate n = true ∧ 0xdc00 ≤ n then
          some (encoded (0x10000 + (m - 0xd800) * 0x400 + (n - 0xdc00)), (rest.drop 2).drop 4)
        else none
    else none

/-- One piece of a string: a plain byte, an escaped one, or a code unit by its
number. A bare quote and the control characters are none. -/
def readPiece : Bytes → Option (Bytes × Bytes)
  | [] => none
  | b :: r =>
    if b = 92 then
      if r.head? = some 117 then readUnit r.tail
      else (r.head?.bind fun e => escapes.lookup e).map fun c => ([c], r.tail)
    else if 32 ≤ b ∧ b ≠ 34 then some ([b], r)
    else none

/-- Up to the closing quote. -/
def readPieces : Nat → Bytes → Option (Bytes × Bytes)
  | 0, _ => none
  | n + 1, inp =>
    if inp.head? = some 34 then some ([], inp.tail)
    else (readPiece inp).bind fun p => (readPieces n p.2).map fun q => (p.1 ++ q.1, q.2)

/-- A string between quotes, if its pieces make up UTF-8. -/
def readQuoted (inp : Bytes) : Option (String × Bytes) :=
  if inp.head? = some 34 then
    (readPieces inp.length inp.tail).bind fun p => (String.fromUTF8? ⟨p.1.toArray⟩).map fun s => (s, p.2)
  else none

mutual
def readValue : Nat → Bytes → Option (Doc × Bytes)
  | 0, _ => none
  | n + 1, inp =>
    if inp.head? = some 34 then (readQuoted inp).map fun p => (.string p.1, p.2)
    else if inp.head? = some 91 then
      if (skip inp.tail).head? = some 93 then some (.array [], (skip inp.tail).tail)
      else (readItems n inp.tail).map fun p => (.array p.1, p.2)
    else if inp.head? = some 123 then
      if (skip inp.tail).head? = some 125 then some (.object [], (skip inp.tail).tail)
      else (readMembers n inp.tail).map fun p => (.object p.1, p.2)
    else if inp.head? = some 110 then if inp.take 4 = nullText then some (.null, inp.drop 4) else none
    else if inp.head? = some 116 then if inp.take 4 = boolText true then some (.bool true, inp.drop 4) else none
    else if inp.head? = some 102 then if inp.take 5 = boolText false then some (.bool false, inp.drop 5) else none
    else if numeral (inp.takeWhile numberByte) then
      some (.number (inp.takeWhile numberByte), inp.dropWhile numberByte)
    else none
def readItems : Nat → Bytes → Option (List Doc × Bytes)
  | 0, _ => none
  | n + 1, inp =>
    (readValue n (skip inp)).bind fun p =>
      if (skip p.2).head? = some 93 then some ([p.1], (skip p.2).tail)
      else if (skip p.2).head? = some 44 then
        (readItems n (skip p.2).tail).map fun q => (p.1 :: q.1, q.2)
      else none
def readMembers : Nat → Bytes → Option (List (String × Doc) × Bytes)
  | 0, _ => none
  | n + 1, inp =>
    (readQuoted (skip inp)).bind fun k =>
      if (skip k.2).head? = some 58 then
        (readValue n (skip (skip k.2).tail)).bind fun p =>
          if (skip p.2).head? = some 125 then some ([(k.1, p.1)], (skip p.2).tail)
          else if (skip p.2).head? = some 44 then
            (readMembers n (skip p.2).tail).map fun q => ((k.1, p.1) :: q.1, q.2)
          else none
      else none
end

/-- The document of a text. -/
def read (raw : Bytes) : Option Doc :=
  (readValue raw.length (skip raw)).bind fun p => if skip p.2 = [] then some p.1 else none

/-! ## White space -/

theorem skip_space {w : Bytes} (hw : Space w) (r : Bytes) : skip (w ++ r) = skip r :=
  List.dropWhile_append_of_pos hw

theorem skip_eq {r : Bytes} (h : ∀ b, r.head? = some b → isSpace b = false) : skip r = r := by
  cases r with
  | nil => rfl
  | cons b r => rw [skip, List.dropWhile_cons_of_neg (by rw [h b rfl]; decide)]

/-- Skipping cuts white space off the front, and nothing else. -/
theorem skip_cut (inp : Bytes) : ∃ w, Space w ∧ inp = w ++ skip inp :=
  ⟨inp.takeWhile isSpace, fun _ hb => List.mem_takeWhile_imp hb, List.takeWhile_append_dropWhile.symm⟩

/-! ## Numbers -/

/-- What may follow a value. -/
def Ends (r : Bytes) : Prop := ∀ b, r.head? = some b → numberByte b = false

theorem numberByte_digit {b : UInt8} (h : digit b = true) : numberByte b = true := by
  rw [numberByte, h]
  rfl

theorem numberByte_space {b : UInt8} (h : isSpace b = true) : numberByte b = false := by
  simp only [isSpace, Bool.or_eq_true, beq_iff_eq] at h
  rcases h with ((rfl | rfl) | rfl) | rfl <;> rfl

/-- White space or a delimiter behind it ends a number. -/
theorem ends_space {w : Bytes} (hw : Space w) {r : Bytes} (hr : Ends r) : Ends (w ++ r) := by
  cases w with
  | nil => exact hr
  | cons b w =>
    intro c hc
    cases hc
    exact numberByte_space (hw b List.mem_cons_self)

theorem ends_cons {b : UInt8} (h : numberByte b = false) (r : Bytes) : Ends (b :: r) := by
  intro c hc
  cases hc
  exact h

theorem digits_bytes {ds : Bytes} (h : digits ds = true) : ∀ b ∈ ds, numberByte b = true := by
  rw [digits, Bool.and_eq_true, List.all_eq_true] at h
  exact fun b hb => numberByte_digit (h.2 b hb)

theorem exponent_bytes {t : Bytes} (h : exponent t = true) : ∀ b ∈ t, numberByte b = true := by
  cases t with
  | nil => simp
  | cons e r =>
    rw [exponent, Bool.and_eq_true] at h
    obtain ⟨he, hr⟩ := h
    rw [List.forall_mem_cons]
    constructor
    · rw [Bool.or_eq_true, beq_iff_eq, beq_iff_eq] at he
      rcases he with rfl | rfl <;> rfl
    · split at hr
      · rename_i hsign
        cases r with
        | nil => simp
        | cons s ds =>
          rw [List.forall_mem_cons]
          refine ⟨?_, digits_bytes hr⟩
          simp only [List.head?_cons, Option.some.injEq] at hsign
          rcases hsign with rfl | rfl <;> rfl
      · exact digits_bytes hr

theorem digitRun_bytes {t : Bytes} (h : ∀ b ∈ t.dropWhile digit, numberByte b = true) : ∀ b ∈ t, numberByte b = true := by
  intro b hb
  rw [← List.takeWhile_append_dropWhile (p := digit) (l := t), List.mem_append] at hb
  rcases hb with hb | hb
  · exact numberByte_digit (List.mem_takeWhile_imp hb)
  · exact h b hb

theorem fraction_bytes {t : Bytes} (h : fraction t = true) : ∀ b ∈ t, numberByte b = true := by
  rw [fraction] at h
  split at h
  · rename_i hpoint
    cases t with
    | nil => cases hpoint
    | cons c r =>
      cases hpoint
      rw [Bool.and_eq_true] at h
      rw [List.forall_mem_cons]
      exact ⟨rfl, digitRun_bytes (exponent_bytes h.2)⟩
  · exact exponent_bytes h

/-- A numeral begins with a digit and consists of number bytes, so that a reader
may take the longest run of these. -/
theorem unsignedNumeral_bytes {t : Bytes} (h : unsignedNumeral t = true) :
    (∃ d r, t = d :: r ∧ digit d = true) ∧ ∀ b ∈ t, numberByte b = true := by
  cases t with
  | nil => cases h
  | cons d r =>
    rw [unsignedNumeral] at h
    rw [List.forall_mem_cons]
    split at h
    · rename_i hd
      rw [beq_iff_eq] at hd
      subst hd
      exact ⟨⟨48, r, rfl, rfl⟩, rfl, fraction_bytes h⟩
    · rw [Bool.and_eq_true] at h
      exact ⟨⟨d, r, rfl, h.1⟩, numberByte_digit h.1, digitRun_bytes (fraction_bytes h.2)⟩

/-- Every byte of a numeral is a byte of numbers, so a reader that takes such
bytes takes all of it. -/
theorem numeral_bytes {t : Bytes} (h : numeral t = true) :
    (∃ b r, t = b :: r ∧ (digit b = true ∨ b = 45)) ∧ ∀ b ∈ t, numberByte b = true := by
  rw [numeral, unsigned] at h
  split at h
  · rename_i hsign
    cases t with
    | nil => cases hsign
    | cons b r =>
      cases hsign
      rw [List.forall_mem_cons]
      exact ⟨⟨45, r, rfl, .inr rfl⟩, rfl, (unsignedNumeral_bytes h).2⟩
  · obtain ⟨⟨d, r, ht, hd⟩, hall⟩ := unsignedNumeral_bytes h
    exact ⟨⟨d, r, ht, .inl hd⟩, hall⟩

/-- What is taken is the numeral, where it is followed by a byte of another kind
or by the end. -/
theorem takeWhile_number {t r : Bytes} (ht : ∀ b ∈ t, numberByte b = true) (hr : Ends r) :
    (t ++ r).takeWhile numberByte = t ∧ (t ++ r).dropWhile numberByte = r := by
  have hstop : r.takeWhile numberByte = [] ∧ r.dropWhile numberByte = r := by
    cases r with
    | nil => exact ⟨rfl, rfl⟩
    | cons b r =>
      have hb : ¬ numberByte b = true := by rw [hr b rfl]; decide
      exact ⟨List.takeWhile_cons_of_neg hb, List.dropWhile_cons_of_neg hb⟩
  rw [List.takeWhile_append_of_pos ht, List.dropWhile_append_of_pos ht, hstop.1, hstop.2, List.append_nil]
  exact ⟨rfl, rfl⟩

/-- A numeral without a point and an exponent is its magnitude: neither part is
written. -/
theorem exponent_integral {t : Bytes} (h : exponent t = true) (hint : Integral t) : t = [] := by
  cases t with
  | nil => rfl
  | cons e r =>
    rw [exponent, Bool.and_eq_true, Bool.or_eq_true, beq_iff_eq, beq_iff_eq] at h
    obtain ⟨-, hE, he⟩ := hint e List.mem_cons_self
    rcases h.1 with rfl | rfl
    · exact absurd rfl he
    · exact absurd rfl hE

theorem fraction_integral {t : Bytes} (h : fraction t = true) (hint : Integral t) : t = [] := by
  rw [fraction] at h
  split at h
  · rename_i hpoint
    cases t with
    | nil => rfl
    | cons c r =>
      cases hpoint
      exact absurd rfl (hint 46 List.mem_cons_self).1
  · exact exponent_integral h hint

theorem mem_unsigned {t : Bytes} {b : UInt8} (h : b ∈ unsigned t) : b ∈ t := by
  rw [unsigned] at h
  split at h
  · exact List.mem_of_mem_tail h
  · exact h

/-- An integral token is digits after its sign. -/
theorem integral_digits {t : Bytes} (h : numeral t = true) (hint : Integral t) :
    unsigned t ≠ [] ∧ ∀ b ∈ unsigned t, digit b = true := by
  have hint' : Integral (unsigned t) := fun b hb => hint b (mem_unsigned hb)
  rw [numeral] at h
  generalize unsigned t = u at h hint'
  cases u with
  | nil => cases h
  | cons d r =>
    refine ⟨List.cons_ne_nil d r, ?_⟩
    have hrest : Integral r := fun b hb => hint' b (List.mem_cons_of_mem d hb)
    rw [unsignedNumeral] at h
    rw [List.forall_mem_cons]
    split at h
    · rename_i hd
      rw [fraction_integral h hrest]
      rw [beq_iff_eq] at hd
      subst hd
      exact ⟨rfl, by simp⟩
    · rw [Bool.and_eq_true] at h
      have hend := fraction_integral h.2 fun b hb => hrest b ((List.dropWhile_suffix digit).subset hb)
      exact ⟨h.1, List.dropWhile_eq_nil_iff.mp hend⟩

theorem size_integral {t : Bytes} (hint : Integral t) : size t = magnitude t := by
  have hmark : ∀ b ∈ unsigned t, (b != 69 && b != 101) = true := by
    intro b hb
    obtain ⟨-, hE, he⟩ := hint b (mem_unsigned hb)
    rw [Bool.and_eq_true, bne_iff_ne, bne_iff_ne]
    exact ⟨hE, he⟩
  have hpoint : ∀ b ∈ unsigned t, (b != 46) = true := fun b hb => bne_iff_ne.mpr (hint b (mem_unsigned hb)).1
  rw [size]
  simp only [List.takeWhile_eq_self_iff.mpr hmark, List.dropWhile_eq_nil_iff.mpr hmark,
    List.takeWhile_eq_self_iff.mpr hpoint, List.dropWhile_eq_nil_iff.mpr hpoint, List.tail_nil, List.append_nil]
  simp [exponentValue, decimalValue, Decimal.value, magnitude]

/-- An integral numeral below the largest double is finite. -/
theorem finite_integral {t : Bytes} (hint : Integral t) (h : magnitude t < 2 ^ 64) : Finite64 t := by
  rw [Finite64, size_integral hint]
  have hcast : (magnitude t : ℚ) < 2 ^ 64 := by exact_mod_cast h
  have hlarge : (2 : ℚ) ^ 64 ≤ 2 ^ 970 := pow_le_pow_right₀ (by norm_num) (by norm_num)
  have hlimit : (2 : ℚ) ^ 1024 = 2 ^ 970 * 2 ^ 54 := by rw [← pow_add]
  rw [hlimit]
  generalize (2 : ℚ) ^ 970 = x at hlarge ⊢
  linarith

/-! ## Strings -/

theorem codeUnit_length {q : Bytes} {n : Nat} (h : codeUnit q = some n) : q.length = 4 := by
  unfold codeUnit at h
  split at h
  · rfl
  · cases h

theorem hexValue_plain {b : UInt8} {n : Nat} (h : hexValue b = some n) : b ≠ 34 ∧ b ≠ 92 := by
  constructor
  · rintro rfl
    cases h
  · rintro rfl
    cases h

/-- The digits of a code unit are neither quotes nor backslashes, so they end no
string. -/
theorem codeUnit_plain {q : Bytes} {n : Nat} (h : codeUnit q = some n) : ∀ b ∈ q, b ≠ 34 ∧ b ≠ 92 := by
  unfold codeUnit at h
  split at h
  · simp only [Option.bind_eq_bind, Option.bind_eq_some_iff] at h
    obtain ⟨a, ha, b, hb, c, hc, d, hd, -⟩ := h
    simp only [List.forall_mem_cons, hexValue_plain ha, hexValue_plain hb, hexValue_plain hc, hexValue_plain hd,
      ne_eq, not_false_eq_true, and_self, List.not_mem_nil, false_implies, implies_true]
  · cases h

/-- A code unit that is no half of a pair stands for itself. -/
theorem readUnit_unit {q : Bytes} {n : Nat} (hq : codeUnit q = some n) (h : surrogate n = false) (r : Bytes) :
    readUnit (q ++ r) = some (encoded n, r) := by
  have hlen := codeUnit_length hq
  rw [readUnit, List.take_left' hlen, hq, Option.bind_some, List.drop_left' hlen, if_pos h]

/-- Two halves of a pair stand for one character; the second must follow at
once. -/
theorem readUnit_pair {q r : Bytes} {m n : Nat} (hq : codeUnit q = some m) (hr : codeUnit r = some n)
    (hm : surrogate m = true) (hm' : m < 0xdc00) (hn : surrogate n = true) (hn' : 0xdc00 ≤ n) (rest : Bytes) :
    readUnit (q ++ 92 :: 117 :: (r ++ rest)) =
      some (encoded (0x10000 + (m - 0xd800) * 0x400 + (n - 0xdc00)), rest) := by
  have hlen := codeUnit_length hq
  have hlen' := codeUnit_length hr
  rw [readUnit, List.take_left' hlen, hq, Option.bind_some, List.drop_left' hlen, if_neg (by rw [hm]; decide),
    if_pos ⟨hm', rfl⟩]
  rw [List.drop_succ_cons, List.drop_succ_cons, List.drop_zero, List.take_left' hlen', hr, Option.bind_some,
    if_pos ⟨hn, hn'⟩, List.drop_left' hlen']

/-- One character of a string: as itself, as a short escape, or as one or two
code units. -/
theorem readPiece_piece {u t : Bytes} (h : Piece u t) (r : Bytes) : readPiece (t ++ r) = some (u, r) := by
  cases h with
  | @plain b h hq hs => rw [List.cons_append, readPiece, if_neg hs, if_pos ⟨h, hq⟩, List.nil_append]
  | @escape e c h =>
    have hne : e ≠ 117 := by
      intro he
      subst he
      cases h
    rw [List.cons_append, List.cons_append, readPiece, if_pos rfl, List.head?_cons,
      if_neg (fun he => hne (Option.some.inj he)), Option.bind_some, h]
    rfl
  | unit hq h =>
    rw [List.cons_append, List.cons_append, readPiece, if_pos rfl, List.head?_cons, if_pos rfl, List.tail_cons,
      readUnit_unit hq h]
  | pair hq hr hm hm' hn hn' =>
    rw [List.cons_append, List.cons_append, readPiece, if_pos rfl, List.head?_cons, if_pos rfl, List.tail_cons,
      List.append_assoc, List.cons_append, List.cons_append, readUnit_pair hq hr hm hm' hn hn']

/-- No piece begins with a quote, so a quote ends the string. -/
theorem Piece.head {u t : Bytes} (h : Piece u t) : ∃ b r, t = b :: r ∧ b ≠ 34 := by
  cases h with
  | plain h hq hs => exact ⟨_, _, rfl, hq⟩
  | escape h => exact ⟨_, _, rfl, by decide⟩
  | unit hq h => exact ⟨_, _, rfl, by decide⟩
  | pair => exact ⟨_, _, rfl, by decide⟩

/-- The characters of a string up to the quote, with enough fuel for each. -/
theorem readPieces_pieces {us ts : Bytes} (h : Pieces us ts) : ∀ n r, ts.length < n →
    readPieces n (ts ++ 34 :: r) = some (us, r) := by
  induction h with
  | nil =>
    intro n r hn
    obtain ⟨n, rfl⟩ := Nat.exists_eq_succ_of_ne_zero (show n ≠ 0 by omega)
    rfl
  | @cons u t us ts h hs ih =>
    intro n r hn
    obtain ⟨n, rfl⟩ := Nat.exists_eq_succ_of_ne_zero (show n ≠ 0 by omega)
    obtain ⟨b, t', ht, hb⟩ := h.head
    have hpos : 0 < t.length := by rw [ht]; exact Nat.succ_pos _
    rw [List.length_append] at hn
    have hhead : (t ++ ts ++ 34 :: r).head? ≠ some 34 := by
      rw [ht]
      exact fun he => hb (Option.some.inj he)
    rw [readPieces, if_neg hhead, List.append_assoc, readPiece_piece h, Option.bind_some, ih n r (by omega)]
    rfl

theorem fromUTF8_utf8 (s : String) : String.fromUTF8? ⟨(utf8 s).toArray⟩ = some s := by
  have hbytes : (⟨(utf8 s).toArray⟩ : ByteArray) = s.toByteArray := by rw [utf8, Array.toArray_toList]
  rw [hbytes, String.fromUTF8?, dif_pos s.isValidUTF8]
  rfl

/-- A string is read back whatever follows it. -/
theorem readQuoted_quoted {s : String} {b : Bytes} (h : Quoted s b) (r : Bytes) : readQuoted (b ++ r) = some (s, r) := by
  obtain ⟨t, ht, rfl⟩ := h
  have hread := readPieces_pieces ht ((34 :: (t ++ [34])) ++ r).length r (by simp)
  have hhead : ((34 :: (t ++ [34])) ++ r).head? = some 34 := rfl
  rw [readQuoted, if_pos hhead]
  have htail : ((34 :: (t ++ [34])) ++ r).tail = t ++ 34 :: r := by simp
  rw [htail, hread, Option.bind_some, fromUTF8_utf8]
  rfl

theorem Quoted.head {s : String} {b : Bytes} (h : Quoted s b) : ∃ r, b = 34 :: r := by
  obtain ⟨t, -, rfl⟩ := h
  exact ⟨_, rfl⟩

/-! ## Values -/

/-- The first byte of a value says which kind it is, and is no white space. -/
theorem Val.head {d : Doc} {b : Bytes} (h : Val d b) :
    ∃ c r, b = c :: r ∧ isSpace c = false ∧ c ≠ 93 ∧ c ≠ 125 := by
  cases h with
  | null => exact ⟨_, _, rfl, rfl, by decide, by decide⟩
  | bool b => cases b <;> exact ⟨_, _, rfl, rfl, by decide, by decide⟩
  | number h =>
    obtain ⟨⟨c, r, rfl, hc⟩, -⟩ := numeral_bytes h
    refine ⟨c, r, rfl, ?_⟩
    rcases hc with hc | rfl
    · simp only [digit, Bool.and_eq_true, decide_eq_true_eq, UInt8.le_iff_toNat_le, UInt8.reduceToNat] at hc
      refine ⟨?_, ?_, ?_⟩
      · simp only [isSpace, Bool.or_eq_false_iff, beq_eq_false_iff_ne, ne_eq, ← UInt8.toNat_inj, UInt8.reduceToNat]
        omega
      · simp only [ne_eq, ← UInt8.toNat_inj, UInt8.reduceToNat]
        omega
      · simp only [ne_eq, ← UInt8.toNat_inj, UInt8.reduceToNat]
        omega
    · exact ⟨rfl, by decide, by decide⟩
  | string h =>
    obtain ⟨r, rfl⟩ := h.head
    exact ⟨_, _, rfl, rfl, by decide, by decide⟩
  | emptyArray => exact ⟨_, _, rfl, rfl, by decide, by decide⟩
  | array => exact ⟨_, _, rfl, rfl, by decide, by decide⟩
  | emptyObject => exact ⟨_, _, rfl, rfl, by decide, by decide⟩
  | object => exact ⟨_, _, rfl, rfl, by decide, by decide⟩

theorem skip_cons {c : UInt8} (hc : isSpace c = false) {w : Bytes} (hw : Space w) (r : Bytes) :
    skip (w ++ c :: r) = c :: r := by
  rw [skip_space hw]
  refine skip_eq fun b hb => ?_
  cases hb
  exact hc

/-- No value begins with white space, so skipping it stops at the value. -/
theorem skip_val {d : Doc} {b : Bytes} (h : Val d b) {w : Bytes} (hw : Space w) (r : Bytes) :
    skip (w ++ (b ++ r)) = b ++ r := by
  obtain ⟨c, t, rfl, hc, -⟩ := h.head
  exact skip_cons hc hw (t ++ r)

theorem skip_quoted {s : String} {b : Bytes} (h : Quoted s b) {w : Bytes} (hw : Space w) (r : Bytes) :
    skip (w ++ (b ++ r)) = b ++ r := by
  obtain ⟨t, rfl⟩ := h.head
  exact skip_cons rfl hw (t ++ r)

/-- A bracket that opens a list is not followed by the closing one, unless the
list is empty. -/
theorem Items.head {xs : List Doc} {b : Bytes} (h : Items xs b) (r : Bytes) : (skip (b ++ r)).head? ≠ some 93 := by
  cases h with
  | last hw h hz =>
    obtain ⟨c, t, rfl, -, hc, -⟩ := h.head
    rw [List.append_assoc, List.append_assoc, skip_val h hw]
    exact fun he => hc (Option.some.inj he)
  | cons hw h hz hs =>
    obtain ⟨c, t, rfl, -, hc, -⟩ := h.head
    rw [List.append_assoc, List.append_assoc, skip_val h hw]
    exact fun he => hc (Option.some.inj he)

theorem Members.head {m : List (String × Doc)} {b : Bytes} (h : Members m b) (r : Bytes) :
    (skip (b ++ r)).head? ≠ some 125 := by
  cases h with
  | last hw hk =>
    obtain ⟨t, rfl⟩ := hk.head
    rw [List.append_assoc, List.append_assoc, skip_quoted hk hw]
    exact nofun
  | cons hw hk =>
    obtain ⟨t, rfl⟩ := hk.head
    rw [List.append_assoc, List.append_assoc, skip_quoted hk hw]
    exact nofun

theorem readValue_quote (n : Nat) (t : Bytes) :
    readValue (n + 1) (34 :: t) = (readQuoted (34 :: t)).map fun p => (.string p.1, p.2) := rfl

/-- A list by its first byte: empty, or read item by item. -/
theorem readValue_bracket (n : Nat) (t : Bytes) : readValue (n + 1) (91 :: t) =
    if (skip t).head? = some 93 then some (.array [], (skip t).tail)
    else (readItems n t).map fun p => (.array p.1, p.2) := rfl

/-- An object by its first byte: empty, or read member by member. -/
theorem readValue_brace (n : Nat) (t : Bytes) : readValue (n + 1) (123 :: t) =
    if (skip t).head? = some 125 then some (.object [], (skip t).tail)
    else (readMembers n t).map fun p => (.object p.1, p.2) := rfl

/-- A numeral is read as far as number bytes go, and what follows it is none. -/
theorem readValue_number {t : Bytes} (h : numeral t = true) (n : Nat) {r : Bytes} (hr : Ends r) :
    readValue (n + 1) (t ++ r) = some (.number t, r) := by
  obtain ⟨⟨c, t', ht, hc⟩, hall⟩ := numeral_bytes h
  obtain ⟨htake, hdrop⟩ := takeWhile_number hall hr
  have hne : ∀ b : UInt8, numberByte b = false → (t ++ r).head? ≠ some b := by
    intro b hb he
    rw [ht] at he
    cases he
    rw [hall c (by rw [ht]; exact List.mem_cons_self)] at hb
    cases hb
  rw [readValue, if_neg (hne 34 rfl), if_neg (hne 91 rfl), if_neg (hne 123 rfl), if_neg (hne 110 rfl),
    if_neg (hne 116 rfl), if_neg (hne 102 rfl), htake, hdrop, if_pos h]

mutual
/-- A value is read as itself, with what follows left over. By induction on the
grammar; after a number must come something that does not go on with it. -/
theorem readValue_val : ∀ {d : Doc} {b : Bytes}, Val d b → ∀ n r, b.length ≤ n → Ends r →
    readValue n (b ++ r) = some (d, r)
  | _, _, .null => by
    intro n r hn hr
    cases n with
    | zero => cases hn
    | succ n => rfl
  | _, _, .bool c => by
    intro n r hn hr
    cases n with
    | zero => cases c <;> cases hn
    | succ n => cases c <;> rfl
  | _, _, .number h => by
    intro n r hn hr
    obtain ⟨⟨c, t', rfl, hc⟩, -⟩ := numeral_bytes h
    cases n with
    | zero => cases hn
    | succ n => exact readValue_number h n hr
  | _, _, .string h => by
    intro n r hn hr
    obtain ⟨t, rfl⟩ := h.head
    cases n with
    | zero => cases hn
    | succ n =>
      have hread := readQuoted_quoted h r
      rw [List.cons_append] at hread ⊢
      rw [readValue_quote, hread]
      rfl
  | _, _, @Val.emptyArray w hw => by
    intro n r hn hr
    cases n with
    | zero => cases hn
    | succ n =>
      have hskip : skip (w ++ [93] ++ r) = 93 :: r := by
        rw [List.append_assoc]
        exact skip_cons rfl hw r
      rw [List.cons_append, readValue_bracket, hskip]
      rfl
  | _, _, @Val.array xs b h => by
    intro n r hn hr
    cases n with
    | zero => cases hn
    | succ n =>
      rw [List.cons_append, readValue_bracket, if_neg (h.head r), readItems_items h n r (Nat.le_of_succ_le_succ hn)]
      rfl
  | _, _, @Val.emptyObject w hw => by
    intro n r hn hr
    cases n with
    | zero => cases hn
    | succ n =>
      have hskip : skip (w ++ [125] ++ r) = 125 :: r := by
        rw [List.append_assoc]
        exact skip_cons rfl hw r
      rw [List.cons_append, readValue_brace, hskip]
      rfl
  | _, _, @Val.object m b h => by
    intro n r hn hr
    cases n with
    | zero => cases hn
    | succ n =>
      rw [List.cons_append, readValue_brace, if_neg (h.head r), readMembers_members h n r (Nat.le_of_succ_le_succ hn)]
      rfl
/-- The items of an array, up to its bracket. -/
theorem readItems_items : ∀ {xs : List Doc} {b : Bytes}, Items xs b → ∀ n r, b.length ≤ n →
    readItems n (b ++ r) = some (xs, r)
  | _, _, @Items.last x w b z hw h hz => by
    intro n r hn
    simp only [List.length_append, List.length_cons, List.length_nil] at hn
    obtain ⟨n, rfl⟩ := Nat.exists_eq_succ_of_ne_zero (show n ≠ 0 by omega)
    have hread := readValue_val h n (z ++ 93 :: r) (by omega) (ends_space hz (ends_cons rfl r))
    simp only [List.append_assoc, List.singleton_append]
    rw [readItems, skip_val h hw, hread, Option.bind_some, skip_cons rfl hz]
    rfl
  | _, _, @Items.cons x xs w b z bs hw h hz hs => by
    intro n r hn
    simp only [List.length_append, List.length_cons] at hn
    obtain ⟨n, rfl⟩ := Nat.exists_eq_succ_of_ne_zero (show n ≠ 0 by omega)
    have hread := readValue_val h n (z ++ 44 :: (bs ++ r)) (by omega) (ends_space hz (ends_cons rfl _))
    simp only [List.append_assoc, List.cons_append]
    rw [readItems, skip_val h hw, hread, Option.bind_some, skip_cons rfl hz, List.head?_cons, if_neg (by decide), if_pos rfl,
      List.tail_cons, readItems_items hs n r (by omega)]
    rfl
/-- The members of an object, up to its bracket, with white space wherever the
grammar allows it. -/
theorem readMembers_members : ∀ {m : List (String × Doc)} {b : Bytes}, Members m b → ∀ n r, b.length ≤ n →
    readMembers n (b ++ r) = some (m, r)
  | _, _, @Members.last k x w kb u v b z hw hk hu hv h hz => by
    intro n r hn
    simp only [List.length_append, List.length_cons, List.length_nil] at hn
    obtain ⟨n, rfl⟩ := Nat.exists_eq_succ_of_ne_zero (show n ≠ 0 by omega)
    have hread := readValue_val h n (z ++ 125 :: r) (by omega) (ends_space hz (ends_cons rfl r))
    simp only [List.append_assoc, List.cons_append, List.nil_append]
    rw [readMembers, skip_quoted hk hw, readQuoted_quoted hk, Option.bind_some, skip_cons rfl hu, List.head?_cons,
      if_pos rfl, List.tail_cons, skip_val h hv, hread, Option.bind_some, skip_cons rfl hz]
    rfl
  | _, _, @Members.cons k x m w kb u v b z bs hw hk hu hv h hz hs => by
    intro n r hn
    simp only [List.length_append, List.length_cons] at hn
    obtain ⟨n, rfl⟩ := Nat.exists_eq_succ_of_ne_zero (show n ≠ 0 by omega)
    have hread := readValue_val h n (z ++ 44 :: (bs ++ r)) (by omega) (ends_space hz (ends_cons rfl _))
    simp only [List.append_assoc, List.cons_append]
    rw [readMembers, skip_quoted hk hw, readQuoted_quoted hk, Option.bind_some, skip_cons rfl hu, List.head?_cons,
      if_pos rfl, List.tail_cons, skip_val h hv, hread, Option.bind_some, skip_cons rfl hz,
      List.head?_cons, if_neg (by decide), if_pos rfl, List.tail_cons, readMembers_members hs n r (by omega)]
    rfl
end

/-- A text is read with its length as fuel: every value, item and member has a
byte of its own. -/
theorem Text.read {d : Doc} {raw : Bytes} (h : Text d raw) : JsonText.read raw = some d := by
  obtain ⟨w, b, z, hw, hb, hz, rfl⟩ := h
  have hend : Ends z := by
    have := ends_space hz (r := []) nofun
    rwa [List.append_nil] at this
  have hread := readValue_val hb (w ++ (b ++ z)).length z (by simp only [List.length_append]; omega) hend
  have hskip : skip z = [] := by
    have := skip_space hz []
    rwa [List.append_nil] at this
  rw [JsonText.read, skip_val hb hw, hread, Option.bind_some, if_pos hskip]

/-- A text has one document, since the reader returns one. -/
theorem Text.unique {d e : Doc} {raw : Bytes} (h : Text d raw) (h' : Text e raw) : d = e := by
  rw [← Option.some.injEq, ← h.read, h'.read]

/-! ## What is read -/

theorem head_cons {c : UInt8} {inp : Bytes} (h : inp.head? = some c) : inp = c :: inp.tail := by
  cases inp with
  | nil => cases h
  | cons b r =>
    cases h
    rfl

/-- What is read as a code unit is one piece of the grammar. -/
theorem readUnit_sound {inp u r : Bytes} (h : readUnit inp = some (u, r)) :
    ∃ t, Piece u (92 :: 117 :: t) ∧ inp = t ++ r := by
  rw [readUnit, Option.bind_eq_some_iff] at h
  obtain ⟨m, hm, h⟩ := h
  dsimp only at h
  split at h
  · rename_i hplain
    cases h
    exact ⟨inp.take 4, .unit hm hplain, (List.take_append_drop 4 inp).symm⟩
  · rename_i hsurrogate
    split at h
    · rename_i hhigh
      obtain ⟨n, hn, h⟩ := Option.bind_eq_some_iff.mp h
      split at h
      · rename_i hlow
        rw [Option.some.injEq, Prod.mk.injEq] at h
        obtain ⟨rfl, rfl⟩ := h
        refine ⟨_, .pair hm hn (by simpa using hsurrogate) hhigh.1 hlow.1 hlow.2, ?_⟩
        have hsecond : inp.drop 4 = 92 :: 117 :: (inp.drop 4).drop 2 := by
          have := List.take_append_drop 2 (inp.drop 4)
          rw [hhigh.2] at this
          exact this.symm
        rw [List.append_assoc, List.cons_append, List.cons_append, List.take_append_drop, ← hsecond,
          List.take_append_drop]
      · cases h
    · cases h

/-- What is read as a character was written as one; a lone surrogate is not. -/
theorem readPiece_sound {inp u r : Bytes} (h : readPiece inp = some (u, r)) : ∃ t, Piece u t ∧ inp = t ++ r := by
  cases inp with
  | nil => cases h
  | cons b rest =>
    rw [readPiece] at h
    split at h
    · rename_i hescape
      subst hescape
      split at h
      · rename_i hu
        obtain ⟨t, hpiece, ht⟩ := readUnit_sound h
        refine ⟨92 :: 117 :: t, hpiece, ?_⟩
        rw [head_cons hu, ht]
        rfl
      · obtain ⟨c, hc, he⟩ := Option.map_eq_some_iff.mp h
        obtain ⟨e, hhead, hlookup⟩ := Option.bind_eq_some_iff.mp hc
        cases he
        refine ⟨[92, e], .escape hlookup, ?_⟩
        rw [head_cons hhead]
        rfl
    · rename_i hplain
      split at h
      · rename_i hbyte
        cases h
        exact ⟨[b], .plain hbyte.1 hbyte.2 hplain, rfl⟩
      · cases h

/-- What is read up to the quote are pieces of the grammar. By induction on the
fuel. -/
theorem readPieces_sound (n : Nat) : ∀ {inp us r : Bytes}, readPieces n inp = some (us, r) →
    ∃ ts, Pieces us ts ∧ inp = ts ++ 34 :: r := by
  induction n with
  | zero => intro inp us r h; cases h
  | succ n ih =>
    intro inp us r h
    rw [readPieces] at h
    split at h
    · rename_i hquote
      cases h
      exact ⟨[], .nil, head_cons hquote⟩
    · obtain ⟨p, hp, h⟩ := Option.bind_eq_some_iff.mp h
      obtain ⟨q, hq, he⟩ := Option.map_eq_some_iff.mp h
      cases he
      obtain ⟨t, hpiece, rfl⟩ := readPiece_sound hp
      obtain ⟨ts, hpieces, hcut⟩ := ih hq
      exact ⟨t ++ ts, .cons hpiece hpieces, by rw [hcut, List.append_assoc]⟩

/-- What is read as a string was quoted, and its bytes are UTF-8. -/
theorem readQuoted_sound {inp : Bytes} {s : String} {r : Bytes} (h : readQuoted inp = some (s, r)) :
    ∃ b, Quoted s b ∧ inp = b ++ r := by
  rw [readQuoted] at h
  split at h
  · rename_i hquote
    obtain ⟨⟨us, rest⟩, hp, h⟩ := Option.bind_eq_some_iff.mp h
    obtain ⟨s', hs, he⟩ := Option.map_eq_some_iff.mp h
    cases he
    obtain ⟨ts, hpieces, hcut⟩ := readPieces_sound _ hp
    have hbytes : utf8 s = us := by
      rw [String.fromUTF8?] at hs
      split at hs
      · cases hs
        rfl
      · cases hs
    refine ⟨34 :: (ts ++ [34]), ⟨ts, hbytes ▸ hpieces, rfl⟩, ?_⟩
    rw [head_cons hquote, hcut]
    simp
  · cases h

/-- What stands before an item that was read. -/
theorem skip_read {inp b r : Bytes} (h : skip inp = b ++ r) : ∃ w, Space w ∧ inp = w ++ (b ++ r) := by
  obtain ⟨w, hw, hcut⟩ := skip_cut inp
  exact ⟨w, hw, by rw [← h]; exact hcut⟩

/-- What stands before a delimiter. -/
theorem skip_head {c : UInt8} {inp : Bytes} (h : (skip inp).head? = some c) :
    ∃ w, Space w ∧ inp = w ++ c :: (skip inp).tail := by
  obtain ⟨w, hw, hcut⟩ := skip_cut inp
  refine ⟨w, hw, ?_⟩
  rw [← head_cons h]
  exact hcut

/-- What this much fuel reads stands in front of the rest. -/
structure Sound (n : Nat) : Prop where
  value : ∀ {inp d r}, readValue n inp = some (d, r) → ∃ b, Val d b ∧ inp = b ++ r
  items : ∀ {inp xs r}, readItems n inp = some (xs, r) → ∃ b, Items xs b ∧ inp = b ++ r
  members : ∀ {inp m r}, readMembers n inp = some (m, r) → ∃ b, Members m b ∧ inp = b ++ r

section
variable {n k : Nat} {inp r : Bytes} {d : Doc}

/-- What is read as a string is one. -/
theorem string_sound (h : ((readQuoted inp).map fun p => (Doc.string p.1, p.2)) = some (d, r)) :
    ∃ b, Val d b ∧ inp = b ++ r := by
  obtain ⟨⟨s, rest⟩, hs, he⟩ := Option.map_eq_some_iff.mp h
  cases he
  obtain ⟨b, hb, hcut⟩ := readQuoted_sound hs
  exact ⟨b, .string hb, hcut⟩

/-- `null`, `true` and `false`. -/
theorem word_sound {word : Bytes} {e : Doc} (hword : Val e word)
    (h : (if inp.take k = word then some (e, inp.drop k) else none) = some (d, r)) : ∃ b, Val d b ∧ inp = b ++ r := by
  split at h
  · rename_i htake
    cases h
    exact ⟨word, hword, by rw [← htake, List.take_append_drop]⟩
  · cases h

/-- What is read as a number is a numeral. -/
theorem number_sound (h : (if numeral (inp.takeWhile numberByte) then
      some (Doc.number (inp.takeWhile numberByte), inp.dropWhile numberByte) else none) = some (d, r)) :
    ∃ b, Val d b ∧ inp = b ++ r := by
  split at h
  · rename_i hnumeral
    cases h
    exact ⟨_, .number hnumeral, List.takeWhile_append_dropWhile.symm⟩
  · cases h

/-- Behind an opening bracket. -/
theorem array_sound (hn : Sound n) (hopen : inp.head? = some 91)
    (h : (if (skip inp.tail).head? = some 93 then some (Doc.array [], (skip inp.tail).tail)
      else (readItems n inp.tail).map fun p => (.array p.1, p.2)) = some (d, r)) : ∃ b, Val d b ∧ inp = b ++ r := by
  rw [head_cons hopen]
  split at h
  · rename_i hclose
    obtain ⟨w, hw, hcut⟩ := skip_head hclose
    generalize (skip inp.tail).tail = t at h hcut
    cases h
    refine ⟨91 :: (w ++ [93]), .emptyArray hw, ?_⟩
    rw [hcut]
    simp
  · obtain ⟨⟨xs, rest⟩, hxs, he⟩ := Option.map_eq_some_iff.mp h
    cases he
    obtain ⟨b, hb, hcut⟩ := hn.items hxs
    exact ⟨91 :: b, .array hb, by rw [hcut]; rfl⟩

/-- Behind an opening brace. -/
theorem object_sound (hn : Sound n) (hopen : inp.head? = some 123)
    (h : (if (skip inp.tail).head? = some 125 then some (Doc.object [], (skip inp.tail).tail)
      else (readMembers n inp.tail).map fun p => (.object p.1, p.2)) = some (d, r)) : ∃ b, Val d b ∧ inp = b ++ r := by
  rw [head_cons hopen]
  split at h
  · rename_i hclose
    obtain ⟨w, hw, hcut⟩ := skip_head hclose
    generalize (skip inp.tail).tail = t at h hcut
    cases h
    refine ⟨123 :: (w ++ [125]), .emptyObject hw, ?_⟩
    rw [hcut]
    simp
  · obtain ⟨⟨m, rest⟩, hm, he⟩ := Option.map_eq_some_iff.mp h
    cases he
    obtain ⟨b, hb, hcut⟩ := hn.members hm
    exact ⟨123 :: b, .object hb, by rw [hcut]; rfl⟩

/-- A value by its first byte, one kind after the other. -/
theorem value_sound (hn : Sound n) (h : readValue (n + 1) inp = some (d, r)) : ∃ b, Val d b ∧ inp = b ++ r := by
  rw [readValue] at h
  split at h
  · exact string_sound h
  split at h
  · exact array_sound hn ‹_› h
  split at h
  · exact object_sound hn ‹_› h
  split at h
  · exact word_sound .null h
  split at h
  · exact word_sound (.bool true) h
  split at h
  · exact word_sound (.bool false) h
  · exact number_sound h

/-- Items, by the fuel that is left behind the first. -/
theorem items_sound (hn : Sound n) {xs : List Doc} (h : readItems (n + 1) inp = some (xs, r)) :
    ∃ b, Items xs b ∧ inp = b ++ r := by
  rw [readItems] at h
  obtain ⟨⟨x, rest⟩, hx, h⟩ := Option.bind_eq_some_iff.mp h
  obtain ⟨b, hb, hskip⟩ := hn.value hx
  obtain ⟨w, hw, hcut⟩ := skip_read hskip
  dsimp only at h
  split at h
  · rename_i hclose
    obtain ⟨z, hz, hcut'⟩ := skip_head hclose
    generalize (skip rest).tail = t at h hcut'
    cases h
    refine ⟨_, .last hw hb hz, ?_⟩
    rw [hcut, hcut']
    simp
  split at h
  · rename_i hcomma
    obtain ⟨z, hz, hcut'⟩ := skip_head hcomma
    obtain ⟨⟨ys, rest'⟩, hys, he⟩ := Option.map_eq_some_iff.mp h
    cases he
    obtain ⟨bs, hbs, hcut''⟩ := hn.items hys
    refine ⟨_, .cons hw hb hz hbs, ?_⟩
    rw [hcut, hcut', hcut'']
    simp
  · cases h

/-- A name, a colon and a value, and a comma or the closing brace behind
them. -/
theorem members_sound (hn : Sound n) {m : List (String × Doc)} (h : readMembers (n + 1) inp = some (m, r)) :
    ∃ b, Members m b ∧ inp = b ++ r := by
  rw [readMembers] at h
  obtain ⟨⟨k, rest⟩, hk, h⟩ := Option.bind_eq_some_iff.mp h
  obtain ⟨kb, hkb, hskip⟩ := readQuoted_sound hk
  obtain ⟨w, hw, hcut⟩ := skip_read hskip
  dsimp only at h
  split at h
  · rename_i hcolon
    obtain ⟨u, hu, hcut'⟩ := skip_head hcolon
    obtain ⟨⟨x, rest'⟩, hx, h⟩ := Option.bind_eq_some_iff.mp h
    obtain ⟨b, hb, hskip'⟩ := hn.value hx
    obtain ⟨v, hv, hcut''⟩ := skip_read hskip'
    dsimp only at h
    split at h
    · rename_i hclose
      obtain ⟨z, hz, hlast⟩ := skip_head hclose
      generalize (skip rest').tail = t at h hlast
      cases h
      refine ⟨_, .last hw hkb hu hv hb hz, ?_⟩
      rw [hcut, hcut', hcut'', hlast]
      simp
    split at h
    · rename_i hcomma
      obtain ⟨z, hz, hlast⟩ := skip_head hcomma
      obtain ⟨⟨m', rest''⟩, hm, he⟩ := Option.map_eq_some_iff.mp h
      cases he
      obtain ⟨bs, hbs, hrest⟩ := hn.members hm
      refine ⟨_, .cons hw hkb hu hv hb hz hbs, ?_⟩
      rw [hcut, hcut', hcut'', hlast, hrest]
      simp
    · cases h
  · cases h

end

/-- What is read stands in front of what is left over. By induction on the fuel,
since a container spends some before it reads what it holds. -/
theorem sound (n : Nat) : Sound n := by
  induction n with
  | zero => exact ⟨nofun, nofun, nofun⟩
  | succ n ih => exact ⟨value_sound ih, items_sound ih, members_sound ih⟩

/-- Exactly the texts are read, each as its document. -/
theorem read_iff {raw : Bytes} {d : Doc} : JsonText.read raw = some d ↔ Text d raw := by
  constructor
  · intro h
    obtain ⟨⟨d', r⟩, hread, h⟩ := Option.bind_eq_some_iff.mp h
    dsimp only at h
    split at h
    · rename_i hend
      cases h
      obtain ⟨b, hb, hskip⟩ := (sound _).value hread
      obtain ⟨w, hw, hcut⟩ := skip_read hskip
      obtain ⟨z, hz, hcut'⟩ := skip_cut r
      rw [hend, List.append_nil] at hcut'
      exact ⟨w, b, r, hw, hb, hcut' ▸ hz, hcut⟩
    · cases h
  · exact fun h => h.read

end JsonText

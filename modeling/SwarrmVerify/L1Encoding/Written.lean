import SwarrmVerify.L1Encoding.Serde

/-!
# Reading what was written

A canonical text is a JSON text. The writer (`verify-rs/src/jcs.rs`) and the
parser of `serde_json` are two functions on the same texts; here the first is
followed into the grammar of the second. A value that is written has a
document, which is unique: its objects list their members in the order of their
UTF-16 code units, it is no deeper than the writer allows, and the parser makes
the value of it that was written, if that holds no float.

**Hypotheses.**
* `Writes`: a string is quoted as RFC 8259 quotes it, and a finite number is
  written as a JSON number with a small exponent mark. The first is what
  `serde_json` promises, the second what `ryu-js` promises.
* `HoldsNumbers`: an integral numeral in range is read as the integer it is.
* `Keyed`: no object repeats a name, as in every map.

**Results.**
* `utf16_inj`, `utf16Le_iff`: the order of names is that of their code units,
  and no two names have the same ones.
* `number_text`: an integer is read back as it was held.
* `writeValue_doc`: a written value has a document (`Documents`), and is read
  back from it if it holds no float.
* `writeValue_shuffled`: the order in which an object lists its members, at any
  depth, does not change the text.
-/
namespace SwarrmVerify.L1.Written
open SwarrmVerify.L1.Jcs SwarrmVerify.L1.Serde
open JsonText (Doc Text Val Items Members Quoted Space numeral magnitude)

/-! ## The order of names -/

/-- The first code unit tells how many belong to a character. -/
theorem encodeUtf16_cancel {c d : Char} {r s : List Nat} (h : encodeUtf16 c ++ r = encodeUtf16 d ++ s) : c = d ∧ r = s := by
  have hc := scalar_range c
  have hd := scalar_range d
  unfold encodeUtf16 at h
  split at h
  · split at h
    · simp only [List.cons_append, List.nil_append, List.cons.injEq] at h
      exact ⟨Char.toNat_inj.mp h.1, h.2⟩
    · simp only [List.cons_append, List.nil_append, List.cons.injEq] at h
      omega
  · split at h
    · simp only [List.cons_append, List.nil_append, List.cons.injEq] at h
      omega
    · simp only [List.cons_append, List.nil_append, List.cons.injEq] at h
      exact ⟨Char.toNat_inj.mp (by omega), h.2.2⟩

theorem encodeUtf16_ne_nil (c : Char) : encodeUtf16 c ≠ [] := by
  unfold encodeUtf16
  split <;> simp

/-- Characters are told apart by their code units: a pair is never the beginning
of anything else. -/
theorem flatMap_encodeUtf16_inj : ∀ {cs ds : List Char}, cs.flatMap encodeUtf16 = ds.flatMap encodeUtf16 → cs = ds
  | [], [], _ => rfl
  | [], d :: ds, h => by
    rw [List.flatMap_cons] at h
    exact absurd (List.append_eq_nil_iff.mp h.symm).1 (encodeUtf16_ne_nil d)
  | c :: cs, [], h => by
    rw [List.flatMap_cons] at h
    exact absurd (List.append_eq_nil_iff.mp h).1 (encodeUtf16_ne_nil c)
  | c :: cs, d :: ds, h => by
    rw [List.flatMap_cons, List.flatMap_cons] at h
    obtain ⟨rfl, hrest⟩ := encodeUtf16_cancel h
    rw [flatMap_encodeUtf16_inj hrest]

/-- A text is determined by its code units, since the first unit of a character
tells how many belong to it. -/
theorem utf16_inj {s t : String} (h : utf16 s = utf16 t) : s = t := String.toList_injective (flatMap_encodeUtf16_inj h)

/-- The order of the writer is the lexicographic one of the library, by its code
units. -/
theorem unitsLe_iff : ∀ {a b : List Nat}, unitsLe a b = true ↔ ¬ b < a
  | [], b => by simp [unitsLe, List.not_lt_nil]
  | a :: as, [] => by simp [unitsLe]
  | a :: as, b :: bs => by
    rw [unitsLe, List.cons_lt_cons_iff, Bool.or_eq_true, Bool.and_eq_true, decide_eq_true_eq, beq_iff_eq, unitsLe_iff]
    rcases Nat.lt_trichotomy a b with h | h | h
    · simp [h, Nat.lt_asymm h, Nat.ne_of_gt h]
    · simp [h]
    · simp [h, Nat.lt_asymm h, Nat.ne_of_gt h]

/-- The writer's comparison of members is the lexicographic order of the code
units of their names, which is linear. -/
theorem utf16Le_iff {a b : String × Bytes} : utf16Le a b ↔ utf16 a.1 ≤ utf16 b.1 := by
  rw [utf16Le, unitsLe_iff, not_lt]

instance : IsTrans (String × Bytes) utf16Le where
  trans a b c hab hbc := by
    rw [utf16Le_iff] at *
    exact le_trans hab hbc

instance : Std.Total utf16Le where
  total a b := by
    rw [utf16Le_iff, utf16Le_iff]
    exact le_total _ _

/-- Distinct names are sorted strictly. The sort itself is stable and would keep
repeated ones next to each other. -/
theorem sortMembers_increasing {ms : List (String × Bytes)} (h : (ms.map Prod.fst).Nodup) :
    ((sortMembers ms).map Prod.fst).Pairwise fun j k => utf16 j < utf16 k := by
  have hsorted : (sortMembers ms).Pairwise utf16Le := List.pairwise_insertionSort utf16Le ms
  have hnodup : ((sortMembers ms).map Prod.fst).Nodup :=
    ((List.perm_insertionSort utf16Le ms).map Prod.fst).nodup_iff.mpr h
  rw [List.pairwise_map]
  rw [List.Nodup, List.pairwise_map] at hnodup
  refine (hsorted.and hnodup).imp fun {a b} hab => ?_
  have hle := utf16Le_iff.mp hab.1
  exact lt_of_le_of_ne hle fun he => hab.2 (utf16_inj he)

/-! ## Integers -/

theorem digitChar_bytes : ∀ k < 10, String.utf8EncodeChar (Nat.digitChar k) = [UInt8.ofNat (48 + k)] := by decide

theorem repr_small {n : Nat} (h : n < 10) : utf8 n.repr = [UInt8.ofNat (48 + n)] := by
  rw [Nat.repr_eq_ofList_toDigits, utf8_ofList, Nat.toDigits_of_lt_base h, List.flatMap_singleton, digitChar_bytes n h]

/-- Digits are written from the front: the last one is the remainder by ten. The
recursion that the facts below go by. -/
theorem repr_large {n : Nat} (h : 10 ≤ n) : utf8 n.repr = utf8 (n / 10).repr ++ [UInt8.ofNat (48 + n % 10)] := by
  rw [Nat.repr_eq_ofList_toDigits, Nat.repr_eq_ofList_toDigits, utf8_ofList, utf8_ofList,
    Nat.toDigits_of_base_le (by decide) h, List.flatMap_append, List.flatMap_singleton,
    digitChar_bytes _ (Nat.mod_lt n (by decide))]

theorem decimalValue_concat (ds : Bytes) (b : UInt8) :
    JsonText.decimalValue (ds ++ [b]) = 10 * JsonText.decimalValue ds + (b.toNat - 48) := by
  rw [JsonText.decimalValue, List.map_append, List.map_singleton, Decimal.value_concat, JsonText.decimalValue]

theorem toNat_digit {k : Nat} (h : k < 10) : (UInt8.ofNat (48 + k)).toNat = 48 + k := by
  rw [UInt8.toNat_ofNat', Nat.mod_eq_of_lt (by omega)]

/-- The decimal text of a natural number reads back as it. -/
theorem decimalValue_repr (n : Nat) : JsonText.decimalValue (utf8 n.repr) = n := by
  induction n using Nat.strong_induction_on with
  | _ n ih =>
    by_cases h : n < 10
    · rw [repr_small h, ← List.nil_append [_], decimalValue_concat, toNat_digit h]
      simp [JsonText.decimalValue, Decimal.value]
    · rw [repr_large (by omega), decimalValue_concat, ih (n / 10) (by omega), toNat_digit (Nat.mod_lt n (by decide))]
      omega

/-- A positive number has no leading zero, as the grammar of numerals asks. -/
theorem repr_head {n : Nat} (h : 0 < n) : ∃ b r, utf8 n.repr = b :: r ∧ b ≠ 48 := by
  induction n using Nat.strong_induction_on with
  | _ n ih =>
    by_cases hsmall : n < 10
    · refine ⟨_, [], repr_small hsmall, fun he => ?_⟩
      have hvalue := congrArg UInt8.toNat he
      rw [toNat_digit hsmall] at hvalue
      have : (48 : UInt8).toNat = 48 := rfl
      omega
    · obtain ⟨b, r, hb, hne⟩ := ih (n / 10) (by omega) (by omega)
      exact ⟨b, r ++ [_], by rw [repr_large (by omega), hb, List.cons_append], hne⟩

theorem digit_repr (n : Nat) : ∀ b ∈ utf8 n.repr, JsonText.digit b = true := by
  intro b hb
  have h := (repr_bytes n).2 b hb
  simp [JsonText.digit, h.1, h.2]

/-- The decimal text of a natural number is a numeral, as it has no zero in
front. -/
theorem unsignedNumeral_repr (n : Nat) : JsonText.unsignedNumeral (utf8 n.repr) = true := by
  have hdigits := digit_repr n
  rcases Nat.eq_zero_or_pos n with rfl | hpos
  · rfl
  · obtain ⟨b, r, hb, hne⟩ := repr_head hpos
    rw [hb, List.forall_mem_cons] at hdigits
    rw [hb, JsonText.unsignedNumeral, if_neg (by simpa using hne), hdigits.1,
      List.dropWhile_eq_nil_iff.mpr hdigits.2]
    rfl

theorem head_repr (n : Nat) : (utf8 n.repr).head? ≠ some 45 := by
  intro h
  have hmem : (45 : UInt8) ∈ utf8 n.repr := List.mem_of_mem_head? h
  exact absurd (digit_repr n 45 hmem) (by decide)

theorem unsigned_repr (n : Nat) : JsonText.unsigned (utf8 n.repr) = utf8 n.repr := by
  rw [JsonText.unsigned, if_neg (head_repr n)]

theorem integral_digit {b : UInt8} (h : JsonText.digit b = true) : b ≠ 46 ∧ b ≠ 69 ∧ b ≠ 101 := by
  refine ⟨?_, ?_, ?_⟩ <;> rintro rfl <;> exact absurd h (by decide)

/-- The decimal text of a natural number has no point and no exponent. -/
theorem integral_repr (n : Nat) : JsonText.Integral (utf8 n.repr) := fun b hb => integral_digit (digit_repr n b hb)

/-- A written natural number is a numeral of the grammar. -/
theorem numeral_repr (n : Nat) : numeral (utf8 n.repr) = true := by
  rw [numeral, unsigned_repr, unsignedNumeral_repr]

/-- So its magnitude is the number. -/
theorem magnitude_repr (n : Nat) : magnitude (utf8 n.repr) = n := by
  rw [magnitude, unsigned_repr, decimalValue_repr]

theorem utf8_negSucc (k : Nat) : utf8 (Int.repr (.negSucc k)) = 45 :: utf8 (k + 1).repr := utf8_append "-" (k + 1).repr

theorem unsigned_minus (t : Bytes) : JsonText.unsigned (45 :: t) = t := rfl

/-- The decimal text of an integer is a numeral, with the sign if it is
negative. -/
theorem numeral_int (i : Int) : numeral (utf8 i.repr) = true := by
  cases i with
  | ofNat n => exact numeral_repr n
  | negSucc k => rw [utf8_negSucc, numeral, unsigned_minus, unsignedNumeral_repr]

/-- An integer is read back as it was held, non-negative or negative: its text
is a numeral of its magnitude, and the parser holds such a numeral in the form
for its sign. -/
theorem number_text {X : Crates} {number : Numbers} (hnumber : HoldsNumbers number) {n : Number} {t : String}
    (hheld : heldNumber n) (hfloat : n.isF64 = false) (h : numberText X n = some t) : number (utf8 t) = some n := by
  have ht := numberText_integer hfloat h
  subst ht
  cases n with
  | posInt u =>
    have hread := hnumber.natural _ (numeral_repr u.toNat) (integral_repr _) (head_repr _)
      (by rw [magnitude_repr]; exact u.toNat_lt)
    rw [magnitude_repr, UInt64.ofNat_toNat] at hread
    exact hread
  | negInt i =>
    obtain ⟨k, hk⟩ := Int.eq_negSucc_of_lt_zero hheld
    have hmagnitude : magnitude (45 :: utf8 (k + 1).repr) = k + 1 := by
      rw [magnitude, unsigned_minus, decimalValue_repr]
    have hnumeral : numeral (45 :: utf8 (k + 1).repr) = true := by
      rw [numeral, unsigned_minus, unsignedNumeral_repr]
    have hintegral : JsonText.Integral (45 :: utf8 (k + 1).repr) := by
      rw [JsonText.Integral, List.forall_mem_cons]
      exact ⟨by decide, integral_repr _⟩
    have hlow := i.le_toInt
    have hread := hnumber.negative _ hnumeral hintegral rfl (by omega) (by omega)
    have hvalue : -((k + 1 : Nat) : Int) = i.toInt := by omega
    rw [hmagnitude, hvalue, Int64.ofInt_toInt] at hread
    rw [integer, hk, utf8_negSucc]
    exact hread
  | float f => cases hfloat

/-! ## What is written -/

mutual
/-- The writer has a text exactly where the check of numbers and depth
passes. -/
theorem isSome_writeValue {X : Crates} : ∀ (v : Value) (limit : Int),
    (writeValue X v limit).isSome = numbersMatch X false v limit
  | .null, limit => by
    simp only [writeValue, numbersMatch]
    split <;> simp <;> omega
  | .bool b, limit => by
    simp only [writeValue, numbersMatch]
    split <;> simp <;> omega
  | .string s, limit => by
    simp only [writeValue, numbersMatch]
    split <;> simp <;> omega
  | .number n, limit => by
    simp only [writeValue, numbersMatch]
    split
    · simp
      omega
    · simp
      omega
  | .array xs, limit => by
    simp only [writeValue, numbersMatch]
    split
    · simp
      omega
    · rw [Option.isSome_map, isSome_writeItems]
      simp
      omega
  | .object m, limit => by
    simp only [writeValue, numbersMatch]
    split
    · simp
      omega
    · rw [Option.isSome_map, isSome_writeMembers]
      simp
      omega
theorem isSome_writeItems {X : Crates} : ∀ (xs : List Value) (limit : Int),
    (writeItems X xs limit).isSome = numbersMatchItems X false xs limit
  | [], limit => rfl
  | x :: xs, limit => by
    rw [writeItems, numbersMatchItems, ← isSome_writeValue x limit, ← isSome_writeItems xs limit]
    cases writeValue X x limit <;> cases writeItems X xs limit <;> rfl
theorem isSome_writeMembers {X : Crates} : ∀ (m : List (String × Value)) (limit : Int),
    (writeMembers X m limit).isSome = numbersMatchMembers X false m limit
  | [], limit => rfl
  | (k, x) :: m, limit => by
    rw [writeMembers, numbersMatchMembers, ← isSome_writeValue x limit, ← isSome_writeMembers m limit]
    cases writeValue X x limit <;> cases writeMembers X m limit <;> rfl
end

/-! ## Documents -/

/-- What `serde_json` promises of a text: strings as RFC 8259 quotes them, and
of `ryu-js`: finite numbers as JSON numbers with a small exponent mark. -/
structure Writes (X : Crates) : Prop where
  string : ∀ s, Quoted s (X.writeStr s)
  finite : ∀ f : F64, f.isFinite = true → numeral (utf8 (X.formatFinite f)) = true ∧ 69 ∉ utf8 (X.formatFinite f)

/-- A writer that escapes as the grammar says satisfies the laws that the bundle
layer assumes. -/
theorem Writes.laws {X : Crates} (h : Writes X) : WriterLaws X where
  quote s := (h.string s).head
  read := ⟨JsonText.readQuoted, fun s r => JsonText.readQuoted_quoted (h.string s) r⟩
  finite f hf := by
    obtain ⟨hnumeral, hmark⟩ := h.finite f hf
    obtain ⟨⟨b, r, hb, hfirst⟩, hall⟩ := JsonText.numeral_bytes hnumeral
    refine ⟨⟨b, r, hb, hfirst.imp_left fun hdigit => ?_⟩, fun c hc => ?_⟩
    · simpa [JsonText.digit] using hdigit
    · have hnumber := hall c hc
      have hne : c ≠ 69 := fun he => hmark (he ▸ hc)
      simp only [JsonText.numberByte, JsonText.digit, Bool.or_eq_true, beq_iff_eq, hne, or_false] at hnumber
      simpa [numberByte] using hnumber

/-- A number is written as JSON writes it. For a float this is the hypothesis on
`ryu-js`, for an integer a fact. -/
theorem numeral_text {X : Crates} (hwrite : Writes X) {n : Number} {t : String} (h : numberText X n = some t) :
    numeral (utf8 t) = true := by
  unfold numberText at h
  split at h
  · split at h
    · cases h
      exact numeral_int _
    · cases h
  · split at h
    · split at h
      · cases h
        exact numeral_repr _
      · cases h
    · split at h
      · rename_i hf
        cases h
        exact (hwrite.finite _ hf).1
      · cases h

mutual
/-- No object repeats a name. -/
def Keyed : Value → Prop
  | .array xs => KeyedItems xs
  | .object m => (m.map Prod.fst).Nodup ∧ KeyedMembers m
  | _ => True
def KeyedItems : List Value → Prop
  | [] => True
  | x :: xs => Keyed x ∧ KeyedItems xs
def KeyedMembers : List (String × Value) → Prop
  | [] => True
  | (_, x) :: m => Keyed x ∧ KeyedMembers m
end

theorem keyedItems_iff {xs : List Value} : KeyedItems xs ↔ ∀ x ∈ xs, Keyed x := by
  induction xs with
  | nil => simp [KeyedItems]
  | cons x xs ih => rw [KeyedItems, ih, List.forall_mem_cons]

theorem keyedMembers_iff {m : List (String × Value)} : KeyedMembers m ↔ ∀ e ∈ m, Keyed e.2 := by
  induction m with
  | nil => simp [KeyedMembers]
  | cons e m ih => rw [KeyedMembers, ih, List.forall_mem_cons]

mutual
theorem keyed_held : ∀ {v : Value}, Held v → Keyed v
  | .null, _ | .bool _, _ | .string _, _ | .number _, _ => trivial
  | .array _, h => keyedItems_held h
  | .object _, h => ⟨h.1.keys.imp ne_of_lt, keyedMembers_held h.2⟩
theorem keyedItems_held : ∀ {xs : List Value}, HeldItems xs → KeyedItems xs
  | [], _ => trivial
  | _ :: _, h => ⟨keyed_held h.1, keyedItems_held h.2⟩
theorem keyedMembers_held : ∀ {m : List (String × Value)}, HeldMembers m → KeyedMembers m
  | [], _ => trivial
  | _ :: _, h => ⟨keyed_held h.1, keyedMembers_held h.2⟩
end

mutual
/-- The map that is read repeats no name, whatever the document repeats: of each
name the last member is kept. -/
theorem keyed_collapse : ∀ v : Value, Keyed (collapse v)
  | .null | .bool _ | .string _ | .number _ => trivial
  | .array xs => keyedItems_iff.mpr (keyed_collapseItems xs)
  | .object m => by
    refine ⟨(SortedMap.sorted_ofList _).keys.imp ne_of_lt, keyedMembers_iff.mpr fun e he => ?_⟩
    exact keyed_collapseMembers m e (SortedMap.mem_of_mem_ofList he)
theorem keyed_collapseItems : ∀ xs : List Value, ∀ x ∈ collapseItems xs, Keyed x
  | [], _, h => by cases h
  | y :: ys, x, h => by
    rcases List.mem_cons.mp h with rfl | h
    · exact keyed_collapse y
    · exact keyed_collapseItems ys x h
theorem keyed_collapseMembers : ∀ m : List (String × Value), ∀ e ∈ collapseMembers m, Keyed e.2
  | [], _, h => by cases h
  | (k, y) :: m, e, h => by
    rcases List.mem_cons.mp h with rfl | h
    · exact keyed_collapse y
    · exact keyed_collapseMembers m e h
end

/-- Promotion touches numbers only, no name. -/
theorem promoteMembers_keys : ∀ m : List (String × Value), (promoteMembers m).map Prod.fst = m.map Prod.fst
  | [] => rfl
  | (k, x) :: m => by rw [promoteMembers, List.map_cons, List.map_cons, promoteMembers_keys m]

mutual
/-- Promotion of integers changes numbers only, and so keeps names distinct. -/
theorem keyed_promote : ∀ {v : Value}, Keyed v → Keyed (promoteJcsIntegerLexemes v)
  | .null, _ | .bool _, _ | .string _, _ | .number _, _ => trivial
  | .array _, h => keyed_promoteItems h
  | .object m, h => ⟨by rw [promoteMembers_keys]; exact h.1, keyed_promoteMembers h.2⟩
theorem keyed_promoteItems : ∀ {xs : List Value}, KeyedItems xs → KeyedItems (promoteItems xs)
  | [], _ => trivial
  | _ :: _, h => ⟨keyed_promote h.1, keyed_promoteItems h.2⟩
theorem keyed_promoteMembers : ∀ {m : List (String × Value)}, KeyedMembers m → KeyedMembers (promoteMembers m)
  | [], _ => trivial
  | _ :: _, h => ⟨keyed_promote h.1, keyed_promoteMembers h.2⟩
end

/-- The names of every object increase in their code units. -/
def Increasing (d : Doc) : Prop :=
  ∀ p ∈ d.parts, ∀ m, p = .object m → (m.map Prod.fst).Pairwise fun j k => utf16 j < utf16 k

theorem increasing_array (xs : List Doc) : Increasing (.array xs) ↔ ∀ x ∈ xs, Increasing x := by
  rw [Increasing, JsonText.forall_parts_array]
  simp [Increasing]

theorem increasing_object (m : List (String × Doc)) : Increasing (.object m) ↔
    ((m.map Prod.fst).Pairwise fun j k => utf16 j < utf16 k) ∧ ∀ e ∈ m, Increasing e.2 := by
  rw [Increasing, JsonText.forall_parts_object]
  simp [Increasing]

/-- Names in strict order are distinct. -/
theorem Increasing.distinct {d : Doc} (h : Increasing d) : d.Distinct :=
  fun p hp m hm => (h p hp m hm).imp fun {j k} hjk he => by
    subst he
    exact lt_irrefl _ hjk

theorem depthItems_le {xs : List Doc} {n : Nat} (h : ∀ x ∈ xs, x.depth ≤ n) : Doc.depthItems xs ≤ n := by
  induction xs with
  | nil => exact Nat.zero_le n
  | cons x xs ih =>
    rw [List.forall_mem_cons] at h
    exact max_le h.1 (ih h.2)

theorem depthMembers_le {m : List (String × Doc)} {n : Nat} (h : ∀ e ∈ m, e.2.depth ≤ n) : Doc.depthMembers m ≤ n := by
  induction m with
  | nil => exact Nat.zero_le n
  | cons e m ih =>
    rw [List.forall_mem_cons] at h
    exact max_le h.1 (ih h.2)

/-- A list is one deeper than its deepest item, as the writer counts. -/
theorem depth_array {ds : List Doc} {limit : Int} (hlimit : 0 ≤ limit) (h : ∀ d ∈ ds, (d.depth : Int) ≤ limit - 1) :
    ((Doc.array ds).depth : Int) ≤ limit := by
  cases ds with
  | nil => exact hlimit
  | cons d ds =>
    have hfirst := h d List.mem_cons_self
    have hall := @depthItems_le (d :: ds) (limit - 1).toNat fun x hx => by
      have := h x hx
      omega
    rw [Doc.depthItems] at hall
    rw [Doc.depth]
    omega

/-- An object is one deeper than its deepest member. -/
theorem depth_object {ds : List (String × Doc)} {limit : Int} (hlimit : 0 ≤ limit)
    (h : ∀ e ∈ ds, (e.2.depth : Int) ≤ limit - 1) : ((Doc.object ds).depth : Int) ≤ limit := by
  cases ds with
  | nil => exact hlimit
  | cons e ds =>
    obtain ⟨k, d⟩ := e
    have hfirst := h (k, d) List.mem_cons_self
    have hall := @depthMembers_le ((k, d) :: ds) (limit - 1).toNat fun x hx => by
      have := h x hx
      omega
    rw [Doc.depthMembers] at hall
    rw [Doc.depth]
    omega

/-- Items separated by commas, as the writer joins them and as the grammar has
them. -/
theorem items_text {ds : List Doc} {bs : List Bytes} (h : List.Forall₂ Val ds bs) (hne : ds ≠ []) :
    Items ds (joinComma bs ++ [93]) := by
  induction h with
  | nil => exact absurd rfl hne
  | @cons d b ds bs hd hs ih =>
    cases hs with
    | nil => exact .last JsonText.space_nil hd JsonText.space_nil
    | @cons d' b' ds bs hd' hs' =>
      rw [joinComma_cons b [93] (b' :: bs) (List.cons_ne_nil _ _)]
      exact .cons JsonText.space_nil hd JsonText.space_nil (ih (List.cons_ne_nil _ _))

/-- Written members between commas are members of the grammar, closed by the
brace. -/
theorem members_text {X : Crates} (hwrite : Writes X) {ds : List (String × Doc)} {es : List (String × Bytes)}
    (h : List.Forall₂ (fun d e => d.1 = e.1 ∧ Val d.2 e.2) ds es) (hne : ds ≠ []) :
    Members ds (joinComma (es.map (memberText X)) ++ [125]) := by
  induction h with
  | nil => exact absurd rfl hne
  | @cons d e ds es hd hs ih =>
    obtain ⟨k, x⟩ := d
    obtain ⟨j, b⟩ := e
    obtain ⟨rfl, hval⟩ : k = j ∧ Val x b := hd
    have hspace := JsonText.space_nil
    cases hs with
    | nil =>
      have htext : joinComma ([(k, b)].map (memberText X)) ++ [125] = X.writeStr k ++ 58 :: (b ++ [125]) := by
        simp [joinComma, memberText]
      rw [htext]
      exact .last hspace (hwrite.string k) hspace hspace hval hspace
    | @cons d' e' ds es hd' hs' =>
      rw [List.map_cons, joinComma_cons _ [125] _ (by simp), memberText, List.append_assoc, List.cons_append]
      exact .cons hspace (hwrite.string k) hspace hspace hval hspace (ih (List.cons_ne_nil _ _))

/-! ## What is read back -/

/-- A list has the values of its items. -/
theorem value_array {number : Numbers} {ds : List Doc} {xs : List Value}
    (h : List.Forall₂ (fun d x => value number d = some x) ds xs) : value number (.array ds) = some (.array xs) := by
  have hitems : ∃ ys, treeItems number ds = some ys ∧ collapseItems ys = xs := by
    induction h with
    | nil => exact ⟨[], rfl, rfl⟩
    | cons hd hs ih =>
      obtain ⟨ys, hys, hxs⟩ := ih
      rw [value, Option.map_eq_some_iff] at hd
      obtain ⟨y, hy, rfl⟩ := hd
      exact ⟨y :: ys, by rw [treeItems, hy, hys]; rfl, by rw [collapseItems, hxs]⟩
  obtain ⟨ys, hys, hxs⟩ := hitems
  rw [value, tree, hys, Option.map_some, Option.map_some, collapse, hxs]

/-- The members that a reader keeps are members of the object, whichever of
equal names it keeps. -/
theorem treeMembers_values {number : Numbers} {m : List (String × Value)} : ∀ {ds : List (String × Doc)},
    (∀ e ∈ ds, ∃ v, (e.1, v) ∈ m ∧ value number e.2 = some v) →
    ∃ ys, treeMembers number ds = some ys ∧ ∀ e ∈ collapseMembers ys, e ∈ m
  | [], _ => ⟨[], rfl, by simp [collapseMembers]⟩
  | (k, d) :: ds, h => by
    rw [List.forall_mem_cons] at h
    obtain ⟨⟨v, hmem, hv⟩, hrest⟩ := h
    obtain ⟨ys, hys, hin⟩ := treeMembers_values hrest
    rw [value, Option.map_eq_some_iff] at hv
    obtain ⟨y, hy, rfl⟩ := hv
    refine ⟨(k, y) :: ys, by rw [treeMembers, hy, hys]; rfl, ?_⟩
    rw [collapseMembers, List.forall_mem_cons]
    exact ⟨hmem, hin⟩

/-- The order in which members are read does not matter, because the map is
sorted by its names, and no two members have one. -/
theorem value_object {number : Numbers} {ds : List (String × Doc)} {m : List (String × Value)}
    (hsorted : SortedMap.Sorted m) (hkeys : (ds.map Prod.fst).Perm (m.map Prod.fst))
    (h : ∀ e ∈ ds, ∃ v, (e.1, v) ∈ m ∧ value number e.2 = some v) : value number (.object ds) = some (.object m) := by
  obtain ⟨ys, hys, hin⟩ := treeMembers_values h
  have hnames : (collapseMembers ys).map Prod.fst = ds.map Prod.fst := treeMembers_keys hys
  have hnodup : ((collapseMembers ys).map Prod.fst).Nodup := by
    rw [hnames, hkeys.nodup_iff]
    exact hsorted.keys.imp ne_of_lt
  have hmem : ∀ e, e ∈ SortedMap.ofList (collapseMembers ys) ↔ e ∈ m := by
    intro e
    rw [SortedMap.mem_ofList hnodup]
    refine ⟨hin e, fun he => ?_⟩
    have hkey : e.1 ∈ (collapseMembers ys).map Prod.fst := by
      rw [hnames, hkeys.mem_iff]
      exact List.mem_map_of_mem he
    obtain ⟨c, hc, hce⟩ := List.mem_map.mp hkey
    have hfirst := hsorted.lookup_iff.mpr (hin c hc)
    rw [hce, hsorted.lookup_iff.mpr he, Option.some.injEq] at hfirst
    rwa [Prod.ext hce hfirst.symm] at hc
  have hmap : SortedMap.ofList (collapseMembers ys) = m := by
    refine SortedMap.ext_of_sorted (SortedMap.sorted_ofList _) hsorted fun k => Option.ext fun v => ?_
    rw [(SortedMap.sorted_ofList _).lookup_iff, hsorted.lookup_iff, hmem]
  rw [value, tree, hys, Option.map_some, Option.map_some, collapse, hmap]

/-- What is known of the document of a written value: the text is one of it, its
names increase, it is within the depth, and the parser makes the value of it if
that has no float. -/
structure Documents (X : Crates) (number : Numbers) (v : Value) (limit : Int) (a : Bytes) (d : Doc) : Prop where
  val : Val d a
  increasing : Increasing d
  depth : (d.depth : Int) ≤ limit
  back : Integral X v → value number d = some v

theorem joined {α β : Type} {P : α → β → Prop} {es : List β} (h : ∀ e ∈ es, ∃ d, P d e) :
    ∃ ds, List.Forall₂ P ds es := by
  induction es with
  | nil => exact ⟨[], .nil⟩
  | cons e es ih =>
    rw [List.forall_mem_cons] at h
    obtain ⟨⟨d, hd⟩, hrest⟩ := h
    obtain ⟨ds, hds⟩ := ih hrest
    exact ⟨d :: ds, .cons hd hds⟩

theorem joined_left {α β : Type} {P : α → β → Prop} {ds : List α} {es : List β} (h : List.Forall₂ P ds es) :
    ∀ d ∈ ds, ∃ e ∈ es, P d e := by
  induction h with
  | nil => simp
  | cons hd hs ih =>
    rw [List.forall_mem_cons]
    refine ⟨⟨_, List.mem_cons_self, hd⟩, fun d hmem => ?_⟩
    obtain ⟨e, he, hP⟩ := ih d hmem
    exact ⟨e, List.mem_cons_of_mem _ he, hP⟩

theorem joined_keys {α β : Type} {ds : List (String × α)} {es : List (String × β)}
    (h : List.Forall₂ (fun d e => d.1 = e.1) ds es) : ds.map Prod.fst = es.map Prod.fst := by
  induction h with
  | nil => rfl
  | cons hd hs ih => rw [List.map_cons, List.map_cons, hd, ih]

mutual
/-- A written value has a document. The induction is on the value; items and
members are written one level down, and the sort of members is followed by the
order of the document. -/
theorem writeValue_doc {X : Crates} {number : Numbers} (hwrite : Writes X) (hnumber : HoldsNumbers number) :
    ∀ {v : Value} {limit : Int} {a : Bytes}, Keyed v → writeValue X v limit = some a → ∃ d, Documents X number v limit a d
  | .null, limit, a, _, h => by
    simp only [writeValue] at h
    split at h
    · cases h
    · cases h
      exact ⟨.null, .null, by simp [Increasing, Doc.parts], by simp [Doc.depth]; omega, fun _ => rfl⟩
  | .bool b, limit, a, _, h => by
    simp only [writeValue] at h
    split at h
    · cases h
    · cases h
      have hval : Val (.bool b) (utf8 (if b then "true" else "false")) := by
        cases b
        · exact .bool false
        · exact .bool true
      exact ⟨.bool b, hval, by simp [Increasing, Doc.parts], by simp [Doc.depth]; omega, fun _ => rfl⟩
  | .string s, limit, a, _, h => by
    simp only [writeValue] at h
    split at h
    · cases h
    · cases h
      exact ⟨.string s, .string (hwrite.string s), by simp [Increasing, Doc.parts], by simp [Doc.depth]; omega,
        fun _ => rfl⟩
  | .number n, limit, a, _, h => by
    simp only [writeValue] at h
    split at h
    · cases h
    · rw [Option.map_eq_some_iff] at h
      obtain ⟨t, ht, rfl⟩ := h
      refine ⟨.number (utf8 t), .number (numeral_text hwrite ht), by simp [Increasing, Doc.parts],
        by simp [Doc.depth]; omega, fun hint => ?_⟩
      rw [value, tree, number_text hnumber hint.number.1 hint.number.2 ht]
      rfl
  | .array xs, limit, a, hk, h => by
    simp only [writeValue] at h
    split at h
    · cases h
    · rw [Option.map_eq_some_iff] at h
      obtain ⟨bs, hbs, rfl⟩ := h
      obtain ⟨ds, hval, hall, hback⟩ := writeItems_docs hwrite hnumber hk hbs
      have htext : Val (.array ds) (91 :: (joinComma bs ++ [93])) := by
        cases hval with
        | nil => exact .emptyArray JsonText.space_nil
        | cons hd hs => exact .array (items_text (.cons hd hs) (List.cons_ne_nil _ _))
      exact ⟨.array ds, htext, (increasing_array ds).mpr fun d hd => (hall d hd).1,
        depth_array (by omega) fun d hd => (hall d hd).2, fun hint => value_array (hback hint.items)⟩
  | .object m, limit, a, hk, h => by
    simp only [writeValue] at h
    split at h
    · cases h
    · rw [Option.map_eq_some_iff] at h
      obtain ⟨ms, hms, rfl⟩ := h
      obtain ⟨hkeys, hall⟩ := writeMembers_docs hwrite hnumber hk.2 hms
      obtain ⟨ds, hds⟩ := @joined (String × Doc) (String × Bytes)
        (fun d e => d.1 = e.1 ∧ ∃ v, (e.1, v) ∈ m ∧ Documents X number v (limit - 1) e.2 d.2) (sortMembers ms) fun e he => by
          obtain ⟨v, hv, d, hd⟩ := hall e (mem_sortMembers.mp he)
          exact ⟨(e.1, d), rfl, v, hv, hd⟩
      have hnames := joined_keys (hds.imp fun d e h => h.1)
      have hdocs : ∀ d ∈ ds, ∃ v, (d.1, v) ∈ m ∧ ∃ a, Documents X number v (limit - 1) a d.2 := by
        intro d hd
        obtain ⟨e, -, hkey, v, hv, hdoc⟩ := joined_left hds d hd
        exact ⟨v, hkey ▸ hv, e.2, hdoc⟩
      have htext : Val (.object ds) (123 :: (joinComma ((sortMembers ms).map (memberText X)) ++ [125])) := by
        have hvals : List.Forall₂ (fun d e => d.1 = e.1 ∧ Val d.2 e.2) ds (sortMembers ms) :=
          hds.imp fun d e ⟨hkey, _, _, hdoc⟩ => ⟨hkey, hdoc.val⟩
        revert hvals
        generalize sortMembers ms = es
        intro hvals
        cases hvals with
        | nil => exact .emptyObject JsonText.space_nil
        | cons hd hs => exact .object (members_text hwrite (.cons hd hs) (List.cons_ne_nil _ _))
      refine ⟨.object ds, htext, (increasing_object ds).mpr ⟨?_, fun d hd => ?_⟩, depth_object (by omega) fun d hd => ?_,
        fun hint => ?_⟩
      · rw [hnames]
        exact sortMembers_increasing (by rw [hkeys]; exact hk.1)
      · obtain ⟨v, -, a, hdoc⟩ := hdocs d hd
        exact hdoc.increasing
      · obtain ⟨v, -, a, hdoc⟩ := hdocs d hd
        exact hdoc.depth
      · refine value_object hint.members.1 ?_ fun d hd => ?_
        · rw [hnames, ← hkeys]
          exact (List.perm_insertionSort utf16Le ms).map Prod.fst
        · obtain ⟨v, hv, a, hdoc⟩ := hdocs d hd
          exact ⟨v, hv, hdoc.back (hint.members.2 (d.1, v) hv)⟩
theorem writeItems_docs {X : Crates} {number : Numbers} (hwrite : Writes X) (hnumber : HoldsNumbers number) :
    ∀ {xs : List Value} {limit : Int} {bs : List Bytes}, KeyedItems xs → writeItems X xs limit = some bs →
    ∃ ds, List.Forall₂ Val ds bs ∧ (∀ d ∈ ds, Increasing d ∧ (d.depth : Int) ≤ limit) ∧
      ((∀ x ∈ xs, Integral X x) → List.Forall₂ (fun d x => value number d = some x) ds xs)
  | [], limit, bs, _, h => by
    cases h
    exact ⟨[], .nil, by simp, fun _ => .nil⟩
  | x :: xs, limit, bs, hk, h => by
    simp only [writeItems, Option.bind_eq_bind, Option.bind_eq_some_iff, Option.pure_def, Option.some.injEq] at h
    obtain ⟨b, hb, bs, hbs, rfl⟩ := h
    obtain ⟨d, hd⟩ := writeValue_doc hwrite hnumber hk.1 hb
    obtain ⟨ds, hval, hall, hback⟩ := writeItems_docs hwrite hnumber hk.2 hbs
    refine ⟨d :: ds, .cons hd.val hval, ?_, fun hint => ?_⟩
    · rw [List.forall_mem_cons]
      exact ⟨⟨hd.increasing, hd.depth⟩, hall⟩
    · rw [List.forall_mem_cons] at hint
      exact .cons (hd.back hint.1) (hback hint.2)
theorem writeMembers_docs {X : Crates} {number : Numbers} (hwrite : Writes X) (hnumber : HoldsNumbers number) :
    ∀ {m : List (String × Value)} {limit : Int} {ms : List (String × Bytes)}, KeyedMembers m →
    writeMembers X m limit = some ms → ms.map Prod.fst = m.map Prod.fst ∧
      ∀ e ∈ ms, ∃ v, (e.1, v) ∈ m ∧ ∃ d, Documents X number v limit e.2 d
  | [], limit, ms, _, h => by
    cases h
    simp
  | (k, x) :: m, limit, ms, hk, h => by
    simp only [writeMembers, Option.bind_eq_bind, Option.bind_eq_some_iff, Option.pure_def, Option.some.injEq] at h
    obtain ⟨b, hb, bs, hbs, rfl⟩ := h
    obtain ⟨d, hd⟩ := writeValue_doc hwrite hnumber hk.1 hb
    obtain ⟨hkeys, hall⟩ := writeMembers_docs hwrite hnumber hk.2 hbs
    refine ⟨by rw [List.map_cons, List.map_cons, hkeys], ?_⟩
    rw [List.forall_mem_cons]
    refine ⟨⟨x, List.mem_cons_self, d, hd⟩, fun e he => ?_⟩
    obtain ⟨v, hv, hdoc⟩ := hall e he
    exact ⟨v, List.mem_cons_of_mem _ hv, hdoc⟩
end

/-! ## The order of members -/

/-- The congruence that reorders the members of objects, at any depth. -/
inductive Shuffled : Value → Value → Prop where
  | refl (v : Value) : Shuffled v v
  | trans {u v w : Value} (h : Shuffled u v) (h' : Shuffled v w) : Shuffled u w
  | item {x y : Value} (l r : List Value) (h : Shuffled x y) : Shuffled (.array (l ++ x :: r)) (.array (l ++ y :: r))
  | member {x y : Value} (k : String) (l r : List (String × Value)) (h : Shuffled x y) :
      Shuffled (.object (l ++ (k, x) :: r)) (.object (l ++ (k, y) :: r))
  | members {m n : List (String × Value)} (hnodup : (m.map Prod.fst).Nodup) (h : m.Perm n) :
      Shuffled (.object m) (.object n)

section

variable {X : Crates}

/-- Equal texts in one place give equal texts of the list. -/
theorem writeItems_congr {x y : Value} (h : ∀ limit, writeValue X x limit = writeValue X y limit) (l r : List Value)
    (limit : Int) : writeItems X (l ++ x :: r) limit = writeItems X (l ++ y :: r) limit := by
  induction l with
  | nil => rw [List.nil_append, List.nil_append, writeItems, writeItems, h]
  | cons z l ih => rw [List.cons_append, List.cons_append, writeItems, writeItems, ih]

/-- Equal texts of one member give equal texts of the members. -/
theorem writeMembers_congr {x y : Value} (h : ∀ limit, writeValue X x limit = writeValue X y limit) (k : String)
    (l r : List (String × Value)) (limit : Int) :
    writeMembers X (l ++ (k, x) :: r) limit = writeMembers X (l ++ (k, y) :: r) limit := by
  induction l with
  | nil => rw [List.nil_append, List.nil_append, writeMembers, writeMembers, h]
  | cons e l ih =>
    obtain ⟨j, z⟩ := e
    rw [List.cons_append, List.cons_append, writeMembers, writeMembers, ih]

/-- Members are written under their names, in the order they stand. -/
theorem writeMembers_keys : ∀ {m : List (String × Value)} {limit : Int} {ms : List (String × Bytes)},
    writeMembers X m limit = some ms → ms.map Prod.fst = m.map Prod.fst
  | [], _, _, h => by
    cases h
    rfl
  | (k, x) :: m, limit, _, h => by
    simp only [writeMembers, Option.bind_eq_bind, Option.bind_eq_some_iff, Option.pure_def, Option.some.injEq] at h
    obtain ⟨b, -, bs, hbs, rfl⟩ := h
    rw [List.map_cons, List.map_cons, writeMembers_keys hbs]

/-- Members in another order are written in that order, each to the same
text. -/
theorem writeMembers_perm {m n : List (String × Value)} (h : m.Perm n) {limit : Int} : ∀ {ms : List (String × Bytes)},
    writeMembers X m limit = some ms → ∃ ns, writeMembers X n limit = some ns ∧ ms.Perm ns := by
  induction h with
  | nil => exact fun h => ⟨_, h, .refl _⟩
  | cons e _ ih =>
    intro ms h
    obtain ⟨k, x⟩ := e
    simp only [writeMembers, Option.bind_eq_bind, Option.bind_eq_some_iff, Option.pure_def, Option.some.injEq] at h
    obtain ⟨b, hb, bs, hbs, rfl⟩ := h
    obtain ⟨ns, hns, hperm⟩ := ih hbs
    exact ⟨(k, b) :: ns, by rw [writeMembers, hb, hns]; rfl, hperm.cons _⟩
  | swap e f l =>
    intro ms h
    obtain ⟨k, x⟩ := e
    obtain ⟨j, y⟩ := f
    simp only [writeMembers, Option.bind_eq_bind, Option.bind_eq_some_iff, Option.pure_def, Option.some.injEq] at h
    obtain ⟨b, hb, _, ⟨c, hc, bs, hbs, rfl⟩, rfl⟩ := h
    exact ⟨(k, c) :: (j, b) :: bs, by simp only [writeMembers, hb, hc, hbs]; rfl, .swap _ _ _⟩
  | trans _ _ ih ih' =>
    intro ms h
    obtain ⟨ns, hns, hperm⟩ := ih h
    obtain ⟨os, hos, hperm'⟩ := ih' hns
    exact ⟨os, hos, hperm.trans hperm'⟩

/-- Distinct names are sorted in one way. -/
theorem sortMembers_perm {ms ns : List (String × Bytes)} (hnodup : (ms.map Prod.fst).Nodup) (h : ms.Perm ns) :
    sortMembers ms = sortMembers ns := by
  have hperm : (sortMembers ms).Perm (sortMembers ns) :=
    (List.perm_insertionSort utf16Le ms).trans (h.trans (List.perm_insertionSort utf16Le ns).symm)
  refine hperm.eq_of_pairwise (fun a b ha hb hab hba => ?_) (List.pairwise_insertionSort utf16Le ms)
    (List.pairwise_insertionSort utf16Le ns)
  have hkey : a.1 = b.1 := utf16_inj (le_antisymm (utf16Le_iff.mp hab) (utf16Le_iff.mp hba))
  have ha' := (SortedMap.lookup_iff_of_nodup hnodup).mpr (mem_sortMembers.mp ha)
  have hb' := (SortedMap.lookup_iff_of_nodup hnodup).mpr (h.mem_iff.mpr (mem_sortMembers.mp hb))
  rw [hkey, hb', Option.some.injEq] at ha'
  exact Prod.ext hkey ha'.symm

/-- Values that differ in the order of their members have one text, for there is
one way to sort distinct names. -/
theorem writeValue_shuffled {v w : Value} (h : Shuffled v w) : ∀ limit, writeValue X v limit = writeValue X w limit := by
  induction h with
  | refl v => exact fun _ => rfl
  | trans _ _ ih ih' => exact fun limit => (ih limit).trans (ih' limit)
  | item l r _ ih =>
    intro limit
    rw [writeValue, writeValue, writeItems_congr ih]
  | member k l r _ ih =>
    intro limit
    rw [writeValue, writeValue, writeMembers_congr ih]
  | @members m n hnodup h =>
    intro limit
    have hsorted : (writeMembers X m (limit - 1)).map sortMembers = (writeMembers X n (limit - 1)).map sortMembers := by
      cases hm : writeMembers X m (limit - 1) with
      | some ms =>
        obtain ⟨ns, hns, hperm⟩ := writeMembers_perm h hm
        rw [hns, Option.map_some, Option.map_some, sortMembers_perm (by rw [writeMembers_keys hm]; exact hnodup) hperm]
      | none =>
        cases hn : writeMembers X n (limit - 1) with
        | none => rfl
        | some ns =>
          obtain ⟨ms, hms, -⟩ := writeMembers_perm h.symm hn
          rw [hm] at hms
          cases hms
    have htext : ∀ o : Option (List (String × Bytes)),
        (o.map fun ms => 123 :: (joinComma ((sortMembers ms).map (memberText X)) ++ [125])) =
          (o.map sortMembers).map fun ms => 123 :: (joinComma (ms.map (memberText X)) ++ [125]) := by
      intro o
      cases o <;> rfl
    rw [writeValue, writeValue, htext, hsorted, ← htext]

end

end SwarrmVerify.L1.Written

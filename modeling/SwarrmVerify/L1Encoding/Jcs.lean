import Mathlib
import SwarrmVerify.L1Encoding.Crates
import SwarrmVerify.L1Encoding.Text

/-!
# Canonical JSON (`jcs.rs`)

`writeValue` is the RFC 8785 writer. The source writes into one buffer and
returns `false` on failure; here the written bytes are the result and `none` is
the failure. Members are written first and sorted by their names' UTF-16 code
units afterwards, which gives the same bytes, since a member's text does not
depend on its place. Names in ASCII are compared by their bytes, which are
their code units (`utf16_of_ascii`).

A text is told from what follows it. `Delim` says of one text, among the texts
of a set, that if it and another are each followed by an end then both and
their rests agree; `join_delim` lifts that to lists with commas and a closing
byte. The first byte of a text says which kind of value it is (`item_head`), a
string ends by its quote, and a number by the first byte that is none of its
own. `Item` is the set of texts that the writer can produce.

The crates obey `WriterLaws`: strings are read back from the front of any text,
and a finite double is written in the bytes of numbers.

**Results.**
* `item_delim`: two written values followed by a delimiter that agree as byte
  strings agree as texts, so a canonical text has one reading.
* `canonical_get`: two objects with the same canonical bytes have the same
  member names, and members of one name have the same canonical bytes;
  `canonical_getStr` and `canonical_getU64` for the values of these.
-/
namespace SwarrmVerify.L1.Jcs

/-! ## The model -/

def maxDepth : Int := 64

def maxSafeInteger : Int := 9007199254740991

/-- The text of a number: integers within the exact range in decimal digits,
floats by the text that the crate gives. An integer outside the range has none.
mirrors verify-rs/src/jcs.rs:16-24 -/
def numberText (X : Crates) (n : Number) : Option String :=
  match n.asI64 with
  | some v => if -maxSafeInteger ≤ v ∧ v ≤ maxSafeInteger then some (toString v) else none
  | none =>
    match n.asU64 with
    | some v => if (v.toNat : Int) ≤ maxSafeInteger then some (toString v.toNat) else none
    | none => if n.asF64.isFinite then some (X.formatFinite n.asF64) else none

mutual
/-- Every number of a value has a text, within a depth and, if asked, without
floats. It walks the value as the writer does.
mirrors verify-rs/src/jcs.rs:26-36 -/
def numbersMatch (X : Crates) (integersOnly : Bool) : Value → Int → Bool
  | .number n, limit => decide (0 ≤ limit) && (!integersOnly || !n.isF64) && (numberText X n).isSome
  | .array xs, limit => decide (0 ≤ limit) && numbersMatchItems X integersOnly xs (limit - 1)
  | .object m, limit => decide (0 ≤ limit) && numbersMatchMembers X integersOnly m (limit - 1)
  | _, limit => decide (0 ≤ limit)
def numbersMatchItems (X : Crates) (integersOnly : Bool) : List Value → Int → Bool
  | [], _ => true
  | x :: xs, limit => numbersMatch X integersOnly x limit && numbersMatchItems X integersOnly xs limit
def numbersMatchMembers (X : Crates) (integersOnly : Bool) : List (String × Value) → Int → Bool
  | [], _ => true
  | (_, x) :: xs, limit =>
    numbersMatch X integersOnly x limit && numbersMatchMembers X integersOnly xs limit
end

/-- What the gates ask of a value before it is written.
mirrors verify-rs/src/jcs.rs:38-40 -/
def numbersWithinProfile (X : Crates) (v : Value) : Bool := numbersMatch X false v maxDepth

/-- An integer outside the exact binary64 range, whichever of the two integer
types holds it. -/
def unsafeInteger (n : Number) : Bool :=
  (n.asI64.any fun v => !(decide (-maxSafeInteger ≤ v) && decide (v ≤ maxSafeInteger))) ||
    n.asU64.any fun v => decide ((v.toNat : Int) > maxSafeInteger)

mutual
/-- Integers outside the exact range become floats; a conversion to a finite
float never fails, so neither does the source's function.
mirrors verify-rs/src/jcs.rs:46-59 -/
def promoteJcsIntegerLexemes : Value → Value
  | .number n => .number (if unsafeInteger n then .float n.asF64 else n)
  | .array xs => .array (promoteItems xs)
  | .object m => .object (promoteMembers m)
  | v => v
def promoteItems : List Value → List Value
  | [] => []
  | x :: xs => promoteJcsIntegerLexemes x :: promoteItems xs
def promoteMembers : List (String × Value) → List (String × Value)
  | [] => []
  | (k, x) :: xs => (k, promoteJcsIntegerLexemes x) :: promoteMembers xs
end

/-- `str::encode_utf16`: the code units of a string, in the order in which the
canonical form compares names. -/
def utf16 (s : String) : List Nat := s.toList.flatMap encodeUtf16

/-- Lexicographic `≤` on code units; a prefix comes first. -/
def unitsLe : List Nat → List Nat → Bool
  | [], _ => true
  | _ :: _, [] => false
  | a :: as, b :: bs => decide (a < b) || (a == b && unitsLe as bs)

/-- The order of members. It looks at the names only, so two members of one name
are equal to it.
mirrors verify-rs/src/jcs.rs:114-116 -/
def utf16Le (a b : String × Bytes) : Prop := unitsLe (utf16 a.1) (utf16 b.1) = true

/-- The code units of ASCII text are its bytes. -/
theorem utf16_of_ascii {s : String} (h : ∀ b ∈ utf8 s, b < 128) : utf16 s = (utf8 s).map UInt8.toNat := by
  rw [← String.ofList_toList (s := s), utf8_ofList] at h ⊢
  rw [utf16, String.toList_ofList]
  generalize s.toList = cs at h ⊢
  induction cs with
  | nil => rfl
  | cons c cs ih =>
    rw [List.flatMap_cons] at h
    have hc : c.toNat < 128 := Octets.toNat_lt_of_ascii fun b hb => h b (List.mem_append_left _ hb)
    have hbytes := Octets.utf8EncodeChar_ascii _ hc
    rw [Char.ofNat_toNat] at hbytes
    have hbyte : (UInt8.ofNat c.toNat).toNat = c.toNat := by
      rw [UInt8.toNat_ofNat', Nat.mod_eq_of_lt (by omega)]
    rw [List.flatMap_cons, List.flatMap_cons, List.map_append, hbytes, List.map_singleton, hbyte,
      ih fun b hb => h b (List.mem_append_right _ hb), encodeUtf16, if_pos (by omega)]

/-- ASCII names are compared by their bytes, which evaluates faster. -/
instance : DecidableRel utf16Le := fun a b =>
  if h : ((utf8 a.1).all (· < 128) && (utf8 b.1).all (· < 128)) = true then
    decidable_of_iff (unitsLe ((utf8 a.1).map UInt8.toNat) ((utf8 b.1).map UInt8.toNat) = true) (by
      simp only [Bool.and_eq_true, List.all_eq_true, decide_eq_true_eq] at h
      rw [utf16Le, utf16_of_ascii h.1, utf16_of_ascii h.2])
  else inferInstanceAs (Decidable (unitsLe (utf16 a.1) (utf16 b.1) = true))

/-- Members in increasing order of their names; the sort is stable, so members
of one name stay as they were. -/
def sortMembers (ms : List (String × Bytes)) : List (String × Bytes) := ms.insertionSort utf16Le

/-- Elements separated by commas, without a comma at either end. -/
def joinComma : List Bytes → Bytes
  | [] => []
  | [b] => b
  | b :: bs => b ++ 44 :: joinComma bs

/-- `"name":value`, with the name written as a string. -/
def memberText (X : Crates) (m : String × Bytes) : Bytes := X.writeStr m.1 ++ 58 :: m.2

mutual
/-- The canonical text of a value, if it has one: without blanks, members
sorted, and nested no deeper than the limit.
mirrors verify-rs/src/jcs.rs:72-112 -/
def writeValue (X : Crates) : Value → Int → Option Bytes
  | .null, limit => if limit < 0 then none else some (utf8 "null")
  | .bool b, limit => if limit < 0 then none else some (utf8 (if b then "true" else "false"))
  | .string s, limit => if limit < 0 then none else some (X.writeStr s)
  | .number n, limit => if limit < 0 then none else (numberText X n).map utf8
  | .array xs, limit =>
    if limit < 0 then none
    else (writeItems X xs (limit - 1)).map fun bs => 91 :: (joinComma bs ++ [93])
  | .object m, limit =>
    if limit < 0 then none
    else (writeMembers X m (limit - 1)).map fun ms =>
      123 :: (joinComma ((sortMembers ms).map (memberText X)) ++ [125])
def writeItems (X : Crates) : List Value → Int → Option (List Bytes)
  | [], _ => some []
  | x :: xs, limit => do
    let b ← writeValue X x limit
    let bs ← writeItems X xs limit
    return b :: bs
def writeMembers (X : Crates) : List (String × Value) → Int → Option (List (String × Bytes))
  | [], _ => some []
  | (k, x) :: xs, limit => do
    let b ← writeValue X x limit
    let bs ← writeMembers X xs limit
    return (k, b) :: bs
end

/-- The canonical bytes within the depth that every document has.
mirrors verify-rs/src/jcs.rs:63-70 -/
def canonicalChecked (X : Crates) (v : Value) : Option Bytes := writeValue X v maxDepth

/-! ## Number texts -/

theorem utf8_append (s t : String) : utf8 (s ++ t) = utf8 s ++ utf8 t := by
  unfold utf8
  rw [String.toByteArray_append, ByteArray.data_append, Array.toList_append]

theorem utf8EncodeChar_digit {c : Char} (h : c.isDigit = true) :
    ∃ b : UInt8, String.utf8EncodeChar c = [b] ∧ 48 ≤ b ∧ b ≤ 57 := by
  simp only [Char.isDigit, ge_iff_le, Bool.and_eq_true, decide_eq_true_eq, UInt32.le_iff_toNat_le] at h
  have h1 : 48 ≤ c.val.toNat := h.1
  have h2 : c.val.toNat ≤ 57 := h.2
  have hb : (UInt8.ofNat c.val.toNat).toNat = c.val.toNat := by rw [UInt8.toNat_ofNat']; omega
  refine ⟨UInt8.ofNat c.val.toNat, ?_, ?_, ?_⟩
  · rw [String.utf8EncodeChar_eq_singleton (Char.utf8Size_eq_one_iff.mpr (by
      rw [UInt32.le_iff_toNat_le]; exact Nat.le_trans h2 (by decide)))]
    rfl
  · rw [UInt8.le_iff_toNat_le, hb]; exact h1
  · rw [UInt8.le_iff_toNat_le, hb]; exact h2

theorem digits_bytes (cs : List Char) (h : ∀ c ∈ cs, c.isDigit = true) :
    (cs.flatMap String.utf8EncodeChar).length = cs.length ∧
      ∀ b ∈ cs.flatMap String.utf8EncodeChar, 48 ≤ b ∧ b ≤ 57 := by
  induction cs with
  | nil => simp
  | cons c cs ih =>
    obtain ⟨b, hb, h1, h2⟩ := utf8EncodeChar_digit (h c (by simp))
    obtain ⟨h3, h4⟩ := ih fun x hx => h x (by simp [hx])
    rw [List.flatMap_cons, hb]
    refine ⟨by simp [h3], ?_⟩
    intro x hx
    simp only [List.cons_append, List.nil_append, List.mem_cons] at hx
    rcases hx with rfl | hx
    · exact ⟨h1, h2⟩
    · exact h4 x hx

/-- A natural number is written in digits, at least one, so its text is no text
of another kind. -/
theorem repr_bytes (n : Nat) : (∃ b r, utf8 n.repr = b :: r ∧ 48 ≤ b ∧ b ≤ 57) ∧
    ∀ b ∈ utf8 n.repr, 48 ≤ b ∧ b ≤ 57 := by
  rw [Nat.repr_eq_ofList_toDigits, utf8_ofList]
  obtain ⟨h1, h2⟩ := digits_bytes (Nat.toDigits 10 n) fun c hc =>
    Nat.isDigit_of_mem_toDigits (by decide) (by decide) hc
  refine ⟨?_, h2⟩
  have hpos : 0 < (Nat.toDigits 10 n).length := by
    rw [List.length_pos_iff]; exact Nat.toDigits_ne_nil
  cases he : (Nat.toDigits 10 n).flatMap String.utf8EncodeChar with
  | nil => rw [he] at h1; simp at h1; omega
  | cons b r => exact ⟨b, r, rfl, h2 b (by simp [he])⟩

theorem numberByte_digit {b : UInt8} (h : 48 ≤ b ∧ b ≤ 57) : numberByte b = true := by
  simp [numberByte, h.1, h.2]

theorem numberText_repr (n : Nat) : NumberText (utf8 n.repr) := by
  obtain ⟨⟨b, r, he, hb⟩, hall⟩ := repr_bytes n
  exact ⟨⟨b, r, he, Or.inl hb⟩, fun x hx => numberByte_digit (hall x hx)⟩

theorem numberText_int (v : Int) : NumberText (utf8 (toString v)) := by
  cases v with
  | ofNat n => exact numberText_repr n
  | negSucc n =>
    have he : utf8 (toString (Int.negSucc n)) = 45 :: utf8 (n + 1).repr :=
      utf8_append "-" (n + 1).repr
    rw [he]
    refine ⟨⟨45, _, rfl, Or.inr rfl⟩, fun x hx => ?_⟩
    rcases List.mem_cons.mp hx with rfl | hx
    · rfl
    · exact (numberText_repr (n + 1)).2 x hx

theorem numberText_bytes {X : Crates} (hX : WriterLaws X) {n : Number} {t : String}
    (h : numberText X n = some t) : NumberText (utf8 t) := by
  unfold numberText at h
  split at h
  · split at h
    · cases h; exact numberText_int _
    · cases h
  · split at h
    · split at h
      · cases h; exact numberText_repr _
      · cases h
    · split at h
      · rename_i hf
        cases h; exact hX.finite _ hf
      · cases h

/-- The text of an unsigned integer is its decimal digits, whether it is written
as a signed or as an unsigned one. -/
theorem numberText_posInt {X : Crates} {u : UInt64} {t : String}
    (h : numberText X (.posInt u) = some t) : t = u.toNat.repr := by
  unfold numberText Number.asI64 Number.asU64 at h
  by_cases hu : u.toNat < 2 ^ 63
  · simp only [hu, if_true] at h
    split at h
    · simp only [Option.some.injEq] at h; rw [← h]; rfl
    · cases h
  · simp only [hu, if_false] at h
    split at h
    · simp only [Option.some.injEq] at h; rw [← h]; rfl
    · cases h

/-! ## One reading of a canonical text -/

/-- The texts `writeValue` can produce, without the values they come from.
Reading is argued on these. -/
inductive Item (X : Crates) : Bytes → Prop where
  | lit (w : String) (h : w ∈ ["null", "true", "false"]) : Item X (utf8 w)
  | str (s : String) : Item X (X.writeStr s)
  | num (t : Bytes) (h : NumberText t) : Item X t
  | arr (bs : List Bytes) (h : ∀ b ∈ bs, Item X b) : Item X (91 :: (joinComma bs ++ [93]))
  | obj (ms : List (String × Bytes)) (h : ∀ m ∈ ms, Item X m.2) :
      Item X (123 :: (joinComma (ms.map (memberText X)) ++ [125]))

theorem mem_sortMembers {ms : List (String × Bytes)} {m : String × Bytes} :
    m ∈ sortMembers ms ↔ m ∈ ms := List.mem_insertionSort utf16Le

mutual
theorem writeValue_item {X : Crates} (hX : WriterLaws X) :
    ∀ v l a, writeValue X v l = some a → Item X a
  | .null, l, a, h => by
    simp only [writeValue] at h; split at h
    · cases h
    · cases h; exact .lit "null" (by simp)
  | .bool b, l, a, h => by
    simp only [writeValue] at h; split at h
    · cases h
    · cases h; cases b
      · exact .lit "false" (by simp)
      · exact .lit "true" (by simp)
  | .string s, l, a, h => by
    simp only [writeValue] at h; split at h
    · cases h
    · cases h; exact .str s
  | .number n, l, a, h => by
    simp only [writeValue] at h; split at h
    · cases h
    · rw [Option.map_eq_some_iff] at h
      obtain ⟨t, ht, rfl⟩ := h
      exact .num _ (numberText_bytes hX ht)
  | .array xs, l, a, h => by
    simp only [writeValue] at h; split at h
    · cases h
    · rw [Option.map_eq_some_iff] at h
      obtain ⟨bs, hbs, rfl⟩ := h
      exact .arr bs (writeItems_item hX xs _ bs hbs)
  | .object m, l, a, h => by
    simp only [writeValue] at h; split at h
    · cases h
    · rw [Option.map_eq_some_iff] at h
      obtain ⟨ms, hms, rfl⟩ := h
      exact .obj _ fun x hx => writeMembers_item hX m _ ms hms x (mem_sortMembers.mp hx)
theorem writeItems_item {X : Crates} (hX : WriterLaws X) :
    ∀ xs l bs, writeItems X xs l = some bs → ∀ b ∈ bs, Item X b
  | [], _, bs, h, b, hb => by simp only [writeItems] at h; cases h; cases hb
  | x :: xs, l, bs, h, b, hb => by
    simp only [writeItems, Option.bind_eq_bind, Option.bind_eq_some_iff, Option.pure_def,
      Option.some.injEq] at h
    obtain ⟨c, hc, cs, hcs, rfl⟩ := h
    rcases List.mem_cons.mp hb with rfl | hb
    · exact writeValue_item hX x l b hc
    · exact writeItems_item hX xs l cs hcs b hb
theorem writeMembers_item {X : Crates} (hX : WriterLaws X) :
    ∀ m l ms, writeMembers X m l = some ms → ∀ x ∈ ms, Item X x.2
  | [], _, ms, h, x, hx => by simp only [writeMembers] at h; cases h; cases hx
  | (k, v) :: m, l, ms, h, x, hx => by
    simp only [writeMembers, Option.bind_eq_bind, Option.bind_eq_some_iff, Option.pure_def,
      Option.some.injEq] at h
    obtain ⟨c, hc, cs, hcs, rfl⟩ := h
    rcases List.mem_cons.mp hx with rfl | hx
    · exact writeValue_item hX v l c hc
    · exact writeMembers_item hX m l cs hcs x hx
end

theorem utf8_null : utf8 "null" = [110, 117, 108, 108] := rfl

theorem utf8_true : utf8 "true" = [116, 114, 117, 101] := rfl

theorem utf8_false : utf8 "false" = [102, 97, 108, 115, 101] := rfl

/-- What may follow a value: nothing, or a byte that is no number byte. Only a
number does not end by itself. -/
def Ends (r : Bytes) : Prop := ∀ b t, r = b :: t → numberByte b = false

/-- Among the texts of `Q`, the text `a` can be told from what follows it. -/
def Delim (Q : Bytes → Prop) (a : Bytes) : Prop :=
  ∀ b r r', Q b → Ends r → Ends r' → a ++ r = b ++ r' → a = b ∧ r = r'

theorem ends_cons {b : UInt8} {t : Bytes} (h : numberByte b = false) : Ends (b :: t) := by
  intro b' t' he; cases he; exact h

theorem joinComma_cons (b r : Bytes) (cs : List Bytes) (h : cs ≠ []) :
    joinComma (b :: cs) ++ r = b ++ (44 :: (joinComma cs ++ r)) := by
  cases cs with
  | nil => exact absurd rfl h
  | cons c cs => simp [joinComma]

/-- A closed list of texts has one reading. `c` is the closing byte, which no
text of the list begins with. By induction on the list. -/
theorem join_delim {Q : Bytes → Prop} {c : UInt8} (hc : numberByte c = false) (hc' : c ≠ 44)
    (hhead : ∀ b, Q b → ∃ h t, b = h :: t ∧ h ≠ c) :
    ∀ (bs cs : List Bytes) (r r' : Bytes), (∀ b ∈ bs, Q b ∧ Delim Q b) → (∀ b ∈ cs, Q b) →
      joinComma bs ++ c :: r = joinComma cs ++ c :: r' → bs = cs ∧ r = r' := by
  -- the closing byte never starts a text, so neither list can end first
  have first : ∀ (b : Bytes) (bs : List Bytes) (r r' : Bytes), Q b →
      c :: r ≠ joinComma (b :: bs) ++ c :: r' := by
    intro b bs r r' hb he
    obtain ⟨h, t, rfl, hne⟩ := hhead b hb
    cases bs with
    | nil => simp only [joinComma, List.cons_append, List.cons.injEq] at he; exact hne he.1.symm
    | cons d ds =>
      rw [joinComma_cons _ _ _ (by simp)] at he
      simp only [List.cons_append, List.cons.injEq] at he; exact hne he.1.symm
  intro bs
  induction bs with
  | nil =>
    intro cs r r' _ hcs he
    cases cs with
    | nil => simp only [joinComma, List.nil_append, List.cons.injEq, true_and] at he; exact ⟨rfl, he⟩
    | cons d ds => exact absurd he (first d ds r r' (hcs d (by simp)))
  | cons b bs ih =>
    intro cs r r' hbs hcs he
    obtain ⟨hb, hdelim⟩ := hbs b (by simp)
    cases cs with
    | nil => exact absurd he.symm (first b bs r' r hb)
    | cons d ds =>
      have hd := hcs d (by simp)
      by_cases h1 : bs = [] <;> by_cases h2 : ds = []
      · subst h1; subst h2
        obtain ⟨rfl, h⟩ := hdelim d _ _ hd (ends_cons hc) (ends_cons hc) (by simpa [joinComma] using he)
        exact ⟨rfl, (List.cons.inj h).2⟩
      · subst h1
        rw [joinComma_cons d _ ds h2] at he
        obtain ⟨_, h⟩ := hdelim d _ _ hd (ends_cons hc) (ends_cons rfl) (by simpa [joinComma] using he)
        exact absurd (List.cons.inj h).1 hc'
      · subst h2
        rw [joinComma_cons b _ bs h1] at he
        obtain ⟨_, h⟩ := hdelim d _ _ hd (ends_cons rfl) (ends_cons hc) (by simpa [joinComma] using he)
        exact absurd (List.cons.inj h).1.symm hc'
      · rw [joinComma_cons b _ bs h1, joinComma_cons d _ ds h2] at he
        obtain ⟨rfl, h⟩ := hdelim d _ _ hd (ends_cons rfl) (ends_cons rfl) he
        obtain ⟨rfl, h'⟩ := ih ds r r' (fun x hx => hbs x (by simp [hx])) (fun x hx => hcs x (by simp [hx]))
          (List.cons.inj h).2
        exact ⟨rfl, h'⟩

theorem number_delim {a b r r' : Bytes} (ha : ∀ x ∈ a, numberByte x = true)
    (hb : ∀ x ∈ b, numberByte x = true) (hr : Ends r) (hr' : Ends r') (he : a ++ r = b ++ r') :
    a = b ∧ r = r' := by
  induction a generalizing b with
  | nil =>
    cases b with
    | nil => exact ⟨rfl, he⟩
    | cons y ys =>
      have := hr y (ys ++ r') he
      rw [hb y (by simp)] at this; cases this
  | cons x xs ih =>
    cases b with
    | nil =>
      have := hr' x (xs ++ r) he.symm
      rw [ha x (by simp)] at this; cases this
    | cons y ys =>
      simp only [List.cons_append, List.cons.injEq] at he
      obtain ⟨rfl, h⟩ := ih (fun z hz => ha z (by simp [hz])) (fun z hz => hb z (by simp [hz])) he.2
      exact ⟨by rw [he.1], h⟩

/-- The first byte of a text tells which kind of value it is, so texts of two
kinds are never equal. -/
theorem item_head {X : Crates} (hX : WriterLaws X) {b : Bytes} (h : Item X b) :
    ∃ c t, b = c :: t ∧
      ((c = 110 ∧ b = utf8 "null") ∨ (c = 116 ∧ b = utf8 "true") ∨ (c = 102 ∧ b = utf8 "false") ∨
        (c = 34 ∧ ∃ s, b = X.writeStr s) ∨ ((48 ≤ c ∧ c ≤ 57 ∨ c = 45) ∧ NumberText b) ∨
        (c = 91 ∧ ∃ bs, (∀ x ∈ bs, Item X x) ∧ b = 91 :: (joinComma bs ++ [93])) ∨
        (c = 123 ∧ ∃ ms : List (String × Bytes), (∀ m ∈ ms, Item X m.2) ∧
          b = 123 :: (joinComma (ms.map (memberText X)) ++ [125]))) := by
  cases h with
  | lit w hw =>
    simp only [List.mem_cons, List.not_mem_nil, or_false] at hw
    rcases hw with rfl | rfl | rfl
    · exact ⟨110, [117, 108, 108], utf8_null, Or.inl ⟨rfl, rfl⟩⟩
    · exact ⟨116, [114, 117, 101], utf8_true, Or.inr (Or.inl ⟨rfl, rfl⟩)⟩
    · exact ⟨102, [97, 108, 115, 101], utf8_false, Or.inr (Or.inr (Or.inl ⟨rfl, rfl⟩))⟩
  | str s =>
    obtain ⟨r, hr⟩ := hX.quote s
    exact ⟨34, r, hr, by simp⟩
  | num t ht =>
    obtain ⟨c, r, rfl, hc⟩ := ht.1
    exact ⟨c, r, rfl, Or.inr (Or.inr (Or.inr (Or.inr (Or.inl ⟨hc, ht⟩))))⟩
  | arr bs hbs =>
    exact ⟨91, _, rfl, Or.inr (Or.inr (Or.inr (Or.inr (Or.inr (Or.inl ⟨rfl, bs, hbs, rfl⟩)))))⟩
  | obj ms hms =>
    exact ⟨123, _, rfl, Or.inr (Or.inr (Or.inr (Or.inr (Or.inr (Or.inr ⟨rfl, ms, hms, rfl⟩)))))⟩

/-- A text of an object's member. -/
def MemberItem (X : Crates) (t : Bytes) : Prop := ∃ m : String × Bytes, Item X m.2 ∧ t = memberText X m

theorem member_delim {X : Crates} (hX : WriterLaws X) {m : String × Bytes} (h : Delim (Item X) m.2) :
    Delim (MemberItem X) (memberText X m) := by
  rintro b r r' ⟨m', hm', rfl⟩ hr hr' he
  simp only [memberText, List.append_assoc, List.cons_append] at he ⊢
  obtain ⟨hk, ht⟩ := hX.str_inj he
  obtain ⟨hv, rfl⟩ := h m'.2 r r' hm' hr hr' (List.cons.inj ht).2
  exact ⟨by rw [hk, hv], rfl⟩

/-- Two equal closed object texts have the same member texts: the name ends at
its quote, and the value is told from what follows. -/
theorem object_delim {X : Crates} (hX : WriterLaws X) {ms ms' : List (String × Bytes)} {r r' : Bytes}
    (h : ∀ m ∈ ms, Item X m.2 ∧ Delim (Item X) m.2) (h' : ∀ m ∈ ms', Item X m.2)
    (he : joinComma (ms.map (memberText X)) ++ 125 :: r = joinComma (ms'.map (memberText X)) ++ 125 :: r') :
    ms.map (memberText X) = ms'.map (memberText X) ∧ r = r' := by
  refine join_delim (Q := MemberItem X) (c := 125) rfl (by decide) ?_ _ _ r r' ?_ ?_ he
  · rintro b ⟨m, _, rfl⟩
    obtain ⟨t, ht⟩ := hX.quote m.1
    exact ⟨34, t ++ 58 :: m.2, by simp [memberText, ht], by decide⟩
  · intro b hb
    obtain ⟨m, hm, rfl⟩ := List.mem_map.mp hb
    exact ⟨⟨m, (h m hm).1, rfl⟩, member_delim hX (h m hm).2⟩
  · intro b hb
    obtain ⟨m, hm, rfl⟩ := List.mem_map.mp hb
    exact ⟨m, h' m hm, rfl⟩

/-- Two equal closed array texts have the same element texts, in the same
order. -/
theorem array_delim {X : Crates} (hX : WriterLaws X) {bs cs : List Bytes} {r r' : Bytes}
    (h : ∀ b ∈ bs, Item X b ∧ Delim (Item X) b) (h' : ∀ b ∈ cs, Item X b)
    (he : joinComma bs ++ 93 :: r = joinComma cs ++ 93 :: r') : bs = cs ∧ r = r' := by
  refine join_delim (c := 93) rfl (by decide) ?_ bs cs r r' h h' he
  intro b hb
  obtain ⟨c, t, rfl, hk⟩ := item_head hX hb
  refine ⟨c, t, rfl, ?_⟩
  rintro rfl
  simp at hk

/-- A written value can be told from what follows it: the first byte fixes the
kind, and inside an array or an object the induction reads the elements. -/
theorem item_delim {X : Crates} (hX : WriterLaws X) {a : Bytes} (ha : Item X a) : Delim (Item X) a := by
  induction ha with
  | lit w hw =>
    intro b r r' hb hr hr' he
    obtain ⟨c, t, hb', hcase⟩ := item_head hX hb
    simp only [List.mem_cons, List.not_mem_nil, or_false] at hw
    rcases hw with rfl | rfl | rfl
    · obtain rfl : 110 = c := by rw [utf8_null, hb'] at he; exact (List.cons.inj he).1
      simp at hcase
      rw [hcase] at he ⊢; exact ⟨rfl, List.append_cancel_left he⟩
    · obtain rfl : 116 = c := by rw [utf8_true, hb'] at he; exact (List.cons.inj he).1
      simp at hcase
      rw [hcase] at he ⊢; exact ⟨rfl, List.append_cancel_left he⟩
    · obtain rfl : 102 = c := by rw [utf8_false, hb'] at he; exact (List.cons.inj he).1
      simp at hcase
      rw [hcase] at he ⊢; exact ⟨rfl, List.append_cancel_left he⟩
  | str s =>
    intro b r r' hb hr hr' he
    obtain ⟨q, hq⟩ := hX.quote s
    obtain ⟨c, t, hb', hcase⟩ := item_head hX hb
    obtain rfl : 34 = c := by rw [hq, hb'] at he; exact (List.cons.inj he).1
    simp at hcase
    obtain ⟨s', rfl⟩ := hcase
    obtain ⟨rfl, h⟩ := hX.str_inj he
    exact ⟨rfl, h⟩
  | num t ht =>
    intro b r r' hb hr hr' he
    obtain ⟨d, q, hq, hd⟩ := ht.1
    obtain ⟨c, u, hb', hcase⟩ := item_head hX hb
    obtain rfl : d = c := by rw [hq, hb'] at he; exact (List.cons.inj he).1
    have hnum : NumberText b := by
      rcases hd with ⟨h1, h2⟩ | rfl
      · rcases hcase with ⟨h, _⟩ | ⟨h, _⟩ | ⟨h, _⟩ | ⟨h, _⟩ | ⟨_, h⟩ | ⟨h, _⟩ | ⟨h, _⟩
        all_goals first | exact h | (subst h; exact absurd (And.intro h1 h2) (by decide))
      · simp at hcase; exact hcase
    exact number_delim ht.2 hnum.2 hr hr' he
  | arr bs hbs ih =>
    intro b r r' hb hr hr' he
    obtain ⟨c, t, hb', hcase⟩ := item_head hX hb
    obtain rfl : 91 = c := by rw [hb'] at he; exact (List.cons.inj he).1
    simp at hcase
    obtain ⟨cs, hcs, rfl⟩ := hcase
    simp only [List.cons_append, List.append_assoc, List.nil_append, List.cons.injEq, true_and] at he
    obtain ⟨rfl, h⟩ := array_delim hX (fun x hx => ⟨hbs x hx, ih x hx⟩) hcs he
    exact ⟨rfl, h⟩
  | obj ms hms ih =>
    intro b r r' hb hr hr' he
    obtain ⟨c, t, hb', hcase⟩ := item_head hX hb
    obtain rfl : 123 = c := by rw [hb'] at he; exact (List.cons.inj he).1
    simp at hcase
    obtain ⟨ms', hms', rfl⟩ := hcase
    simp only [List.cons_append, List.append_assoc, List.nil_append, List.cons.injEq, true_and] at he
    obtain ⟨hmap, h⟩ := object_delim hX (fun m hm => ⟨hms m hm, ih m hm⟩)
      (fun m hm => hms' m.1 m.2 hm) he
    exact ⟨by rw [hmap], h⟩

/-! ## Members of a canonical object -/

theorem unitsLe_refl (a : List Nat) : unitsLe a a = true := by
  induction a with
  | nil => rfl
  | cons x xs ih => simp [unitsLe, ih]

/-- The sort is stable: an insertion puts a member before its equals, so that
the first of a name stays the first. -/
theorem lookup_orderedInsert (k : String) (m : String × Bytes) (ms : List (String × Bytes)) :
    (ms.orderedInsert utf16Le m).lookup k = (m :: ms).lookup k := by
  induction ms with
  | nil => rfl
  | cons b ms ih =>
    rw [List.orderedInsert_cons]
    split
    · rfl
    · rename_i hlt
      have hne : m.1 ≠ b.1 := by
        intro he
        exact hlt (by unfold utf16Le; rw [he]; exact unitsLe_refl _)
      obtain ⟨i, v⟩ := m
      obtain ⟨j, w⟩ := b
      rw [List.lookup_cons, ih]
      simp only [List.lookup_cons]
      by_cases hj : k = j
      · subst hj
        simp [beq_false_of_ne (Ne.symm hne)]
      · simp [beq_false_of_ne hj]

theorem lookup_sortMembers (k : String) (ms : List (String × Bytes)) :
    (sortMembers ms).lookup k = ms.lookup k := by
  unfold sortMembers
  induction ms with
  | nil => rfl
  | cons m ms ih =>
    rw [List.insertionSort_cons, lookup_orderedInsert, List.lookup_cons, List.lookup_cons, ih]

theorem writeMembers_lookup {X : Crates} {k : String} :
    ∀ {m : List (String × Value)} {l : Int} {ms : List (String × Bytes)},
      writeMembers X m l = some ms → ms.lookup k = (m.lookup k).bind fun v => writeValue X v l
  | [], _, ms, h => by simp only [writeMembers] at h; cases h; rfl
  | (j, v) :: m, l, ms, h => by
    simp only [writeMembers, Option.bind_eq_bind, Option.bind_eq_some_iff, Option.pure_def,
      Option.some.injEq] at h
    obtain ⟨c, hc, cs, hcs, rfl⟩ := h
    rw [List.lookup_cons, List.lookup_cons, writeMembers_lookup hcs]
    cases k == j with
    | true => exact hc.symm
    | false => rfl

theorem writeMembers_writes {X : Crates} {k : String} {v : Value} :
    ∀ {m : List (String × Value)} {l : Int} {ms : List (String × Bytes)},
      writeMembers X m l = some ms → m.lookup k = some v → ∃ t, writeValue X v l = some t
  | [], _, _, _, hv => by cases hv
  | (j, w) :: m, l, ms, h, hv => by
    simp only [writeMembers, Option.bind_eq_bind, Option.bind_eq_some_iff, Option.pure_def,
      Option.some.injEq] at h
    obtain ⟨c, hc, cs, hcs, rfl⟩ := h
    rw [List.lookup_cons] at hv
    split at hv
    · cases hv; exact ⟨c, hc⟩
    · exact writeMembers_writes hcs hv

theorem memberText_inj {X : Crates} (hX : WriterLaws X) {m m' : String × Bytes}
    (h : memberText X m = memberText X m') : m = m' := by
  obtain ⟨h1, h2⟩ := hX.str_inj h
  exact Prod.ext h1 (List.cons.inj h2).2

/-- Two objects with one text have the same written members in the same order,
each with its text. -/
theorem sorted_delim {X : Crates} (hX : WriterLaws X) {m m' : List (String × Value)} {l l' : Int}
    {ms ms' : List (String × Bytes)} (hms : writeMembers X m l = some ms) (hms' : writeMembers X m' l' = some ms')
    (he : joinComma ((sortMembers ms).map (memberText X)) ++ [125] =
      joinComma ((sortMembers ms').map (memberText X)) ++ [125]) : sortMembers ms = sortMembers ms' := by
  have hitem : ∀ x ∈ sortMembers ms, Item X x.2 :=
    fun x hx => writeMembers_item hX m _ ms hms x (mem_sortMembers.mp hx)
  have hitem' : ∀ x ∈ sortMembers ms', Item X x.2 :=
    fun x hx => writeMembers_item hX m' _ ms' hms' x (mem_sortMembers.mp hx)
  obtain ⟨hmap, _⟩ := object_delim hX (fun x hx => ⟨hitem x hx, item_delim hX (hitem x hx)⟩) hitem' he
  exact List.map_injective_iff.mpr (fun x y => memberText_inj hX) hmap

/-- Two objects with the same canonical bytes agree, member by member, on the
canonical bytes of their values. -/
theorem canonical_get {X : Crates} (hX : WriterLaws X) {m m' : List (String × Value)} {a : Bytes}
    (h : canonicalChecked X (.object m) = some a) (h' : canonicalChecked X (.object m') = some a)
    (k : String) :
    ((Value.object m).get k).bind (fun v => writeValue X v (maxDepth - 1)) =
      ((Value.object m').get k).bind (fun v => writeValue X v (maxDepth - 1)) := by
  simp only [canonicalChecked, writeValue] at h h'
  rw [if_neg (by decide), Option.map_eq_some_iff] at h h'
  obtain ⟨ms, hms, rfl⟩ := h
  obtain ⟨ms', hms', he⟩ := h'
  simp only [Value.get]
  rw [← writeMembers_lookup hms, ← writeMembers_lookup hms', ← lookup_sortMembers,
    sorted_delim hX hms hms' (List.cons.inj he).2.symm, lookup_sortMembers]

theorem canonical_writes {X : Crates} {m : List (String × Value)} {a : Bytes}
    (h : canonicalChecked X (.object m) = some a) {k : String} {v : Value}
    (hv : (Value.object m).get k = some v) : ∃ t, writeValue X v (maxDepth - 1) = some t := by
  simp only [canonicalChecked, writeValue] at h
  rw [if_neg (by decide), Option.map_eq_some_iff] at h
  obtain ⟨ms, hms, _⟩ := h
  exact writeMembers_writes hms hv

/-- Only the string itself is written as a string: quotes begin no other
text. -/
theorem writeValue_eq_str {X : Crates} (hX : WriterLaws X) {v : Value} {l : Int} {s : String}
    (h : writeValue X v l = some (X.writeStr s)) : v = .string s := by
  obtain ⟨q, hq⟩ := hX.quote s
  cases v with
  | null =>
    simp only [writeValue] at h
    split at h
    · cases h
    · rw [utf8_null, hq] at h; simp at h
  | bool b =>
    simp only [writeValue] at h
    split at h
    · cases h
    · cases b <;> simp [hq, utf8_true, utf8_false] at h
  | number n =>
    simp only [writeValue] at h
    split at h
    · cases h
    · obtain ⟨t, ht, he⟩ := Option.map_eq_some_iff.mp h
      obtain ⟨c, r, hc, hd⟩ := (numberText_bytes hX ht).1
      rw [hc, hq] at he
      obtain ⟨rfl, _⟩ := List.cons.inj he
      exact absurd hd (by decide)
  | string t =>
    simp only [writeValue] at h
    split at h
    · cases h
    · have he : X.writeStr t ++ [] = X.writeStr s ++ [] := by rw [Option.some.inj h]
      rw [(hX.str_inj he).1]
  | array xs =>
    simp only [writeValue] at h
    split at h
    · cases h
    · obtain ⟨t, _, he⟩ := Option.map_eq_some_iff.mp h
      rw [hq] at he
      exact absurd (List.cons.inj he).1 (by decide)
  | object m =>
    simp only [writeValue] at h
    split at h
    · cases h
    · obtain ⟨t, _, he⟩ := Option.map_eq_some_iff.mp h
      rw [hq] at he
      exact absurd (List.cons.inj he).1 (by decide)

/-- Equal canonical bytes give equal string members, whatever else the objects
hold. -/
theorem canonical_getStr {X : Crates} (hX : WriterLaws X) {m m' : List (String × Value)} {a : Bytes}
    (h : canonicalChecked X (.object m) = some a) (h' : canonicalChecked X (.object m') = some a)
    {k s : String} (hs : (Value.object m).getStr k = some s) : (Value.object m').getStr k = some s := by
  have hget := canonical_get hX h h' k
  obtain ⟨v, hv, hvs⟩ := Option.bind_eq_some_iff.mp hs
  obtain rfl := Value.asStr_eq_some hvs
  have hw : writeValue X (.string s) (maxDepth - 1) = some (X.writeStr s) := by simp [writeValue, maxDepth]
  rw [hv, Option.bind_some, hw] at hget
  obtain ⟨v', hv', hw'⟩ := Option.bind_eq_some_iff.mp hget.symm
  unfold Value.getStr
  rw [hv', writeValue_eq_str hX hw']
  rfl

/-- Equal canonical bytes give equal unsigned integers where both members are
such. A float of the same text is no such integer. -/
theorem canonical_getU64 {X : Crates} (hX : WriterLaws X) {m m' : List (String × Value)} {a : Bytes}
    (h : canonicalChecked X (.object m) = some a) (h' : canonicalChecked X (.object m') = some a)
    {k : String} {u w : UInt64} (hu : (Value.object m).getU64 k = some u)
    (hw : (Value.object m').getU64 k = some w) : u = w := by
  have hget := canonical_get hX h h' k
  obtain ⟨v, hv, hvu⟩ := Option.bind_eq_some_iff.mp hu
  obtain ⟨v', hv', hvw⟩ := Option.bind_eq_some_iff.mp hw
  obtain rfl := Value.asU64_eq_some hvu
  obtain rfl := Value.asU64_eq_some hvw
  -- a member that is present is written, so both texts exist
  obtain ⟨t, ht⟩ := canonical_writes h hv
  rw [hv, hv', Option.bind_some, Option.bind_some, ht] at hget
  simp only [writeValue] at ht hget
  rw [if_neg (by decide), Option.map_eq_some_iff] at ht
  rw [if_neg (by decide), eq_comm, Option.map_eq_some_iff] at hget
  obtain ⟨s, hs, rfl⟩ := ht
  obtain ⟨s', hs', he⟩ := hget
  have : u.toNat.repr = w.toNat.repr := by
    rw [← numberText_posInt hs, ← numberText_posInt hs', utf8_inj he]
  exact UInt64.toNat_inj.mp (Nat.repr_injective this)

end SwarrmVerify.L1.Jcs

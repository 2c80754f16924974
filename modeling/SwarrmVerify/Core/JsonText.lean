import SwarrmVerify.Core.Decimal
import SwarrmVerify.Core.Octets

/-!
# JSON texts

The grammar of RFC 8259 over bytes, as relations with no parser behind them. A
text has a document: number tokens as they stand, strings after unescaping, the
members of an object in order and as often as they are written. What a parser
then makes of a document, which numbers it holds and which of two members of a
name it keeps, is not a matter of the grammar and is left to its readers.

* `Quoted`, `numeral`: strings with their escapes and surrogate pairs, and the
  tokens of numbers.
* `Val`, `Text`: a value, and a value between white space, with its document.
* `Doc.parts`: everything a document consists of; `Doc.Tokens` and
  `Doc.Distinct` say what holds of its numbers and of its names.
* `Doc.depth`, `Doc.nesting`: how many containers lie above a value, and how
  many are open at once; `Doc.nesting_le` compares them, for an empty container
  may lie below all the others.
-/
namespace JsonText

abbrev Bytes := List UInt8

inductive Doc where
  | null
  | bool (b : Bool)
  | number (token : Bytes)
  | string (s : String)
  | array (items : List Doc)
  | object (members : List (String × Doc))

/-- `ws` -/
def isSpace (b : UInt8) : Bool := b == 32 || b == 9 || b == 10 || b == 13

def Space (w : Bytes) : Prop := ∀ b ∈ w, isSpace b = true

/-! ## Numbers -/

def digit (b : UInt8) : Bool := 48 ≤ b && b ≤ 57

/-- A byte that a number token may hold. -/
def numberByte (b : UInt8) : Bool := digit b || b == 43 || b == 45 || b == 46 || b == 69 || b == 101

def digits (ds : Bytes) : Bool := !ds.isEmpty && ds.all digit

/-- `[ exp ]` -/
def exponent : Bytes → Bool
  | [] => true
  | e :: r =>
    (e == 101 || e == 69) && if r.head? = some 43 ∨ r.head? = some 45 then digits r.tail else digits r

/-- `[ frac ] [ exp ]` -/
def fraction (t : Bytes) : Bool :=
  if t.head? = some 46 then !(t.tail.takeWhile digit).isEmpty && exponent (t.tail.dropWhile digit) else exponent t

/-- `int [ frac ] [ exp ]` -/
def unsignedNumeral : Bytes → Bool
  | [] => false
  | d :: r => if d == 48 then fraction r else digit d && fraction (r.dropWhile digit)

/-- A token without its minus sign. -/
def unsigned (t : Bytes) : Bytes := if t.head? = some 45 then t.tail else t

/-- `number` -/
def numeral (t : Bytes) : Bool := unsignedNumeral (unsigned t)

/-- A token with neither fraction nor exponent. -/
def Integral (t : Bytes) : Prop := ∀ b ∈ t, b ≠ 46 ∧ b ≠ 69 ∧ b ≠ 101

instance (t : Bytes) : Decidable (Integral t) := List.decidableBAll (fun b => b ≠ 46 ∧ b ≠ 69 ∧ b ≠ 101) t

def decimalValue (ds : Bytes) : Nat := Decimal.value (ds.map UInt8.toNat)

/-- The absolute value of an integral token. -/
def magnitude (t : Bytes) : Nat := decimalValue (unsigned t)

/-- The exponent that is written after its mark. -/
def exponentValue (t : Bytes) : Int :=
  if t.head? = some 45 then -(decimalValue t.tail : Int)
  else if t.head? = some 43 then decimalValue t.tail
  else decimalValue t

/-- The absolute value of a token. -/
def size (t : Bytes) : ℚ :=
  let mark := fun b : UInt8 => b != 69 && b != 101
  let mantissa := (unsigned t).takeWhile mark
  let whole := mantissa.takeWhile (· != 46)
  let frac := (mantissa.dropWhile (· != 46)).tail
  decimalValue (whole ++ frac) * 10 ^ (exponentValue ((unsigned t).dropWhile mark).tail - frac.length)

/-- Rounding to nearest gives a finite binary64: the value lies below the
middle between the largest one and `2 ^ 1024`. -/
def Finite64 (t : Bytes) : Prop := size t < 2 ^ 1024 - 2 ^ 970

/-! ## Strings -/

/-- The bytes of a string. -/
def utf8 (s : String) : Bytes := s.toByteArray.data.toList

/-- The bytes of a code point. -/
def encoded (n : Nat) : Bytes := String.utf8EncodeChar (Char.ofNat n)

def hexValue (b : UInt8) : Option Nat :=
  if 48 ≤ b && b ≤ 57 then some (b.toNat - 48)
  else if 97 ≤ b && b ≤ 102 then some (b.toNat - 87)
  else if 65 ≤ b && b ≤ 70 then some (b.toNat - 55)
  else none

/-- `4HEXDIG` -/
def codeUnit : Bytes → Option Nat
  | [a, b, c, d] => do
    let a ← hexValue a
    let b ← hexValue b
    let c ← hexValue c
    let d ← hexValue d
    return ((a * 16 + b) * 16 + c) * 16 + d
  | _ => none

/-- The escapes of one character and what they stand for. -/
def escapes : List (UInt8 × UInt8) :=
  [(34, 34), (92, 92), (47, 47), (98, 8), (102, 12), (110, 10), (114, 13), (116, 9)]

def surrogate (n : Nat) : Bool := 0xd800 ≤ n && n < 0xe000

/-- What a piece of a string stands for, and how it is written. A byte that
needs no escape stands for itself; the whole must be UTF-8. -/
inductive Piece : Bytes → Bytes → Prop where
  | plain {b : UInt8} (h : 32 ≤ b) (hq : b ≠ 34) (hs : b ≠ 92) : Piece [b] [b]
  | escape {e c : UInt8} (h : escapes.lookup e = some c) : Piece [c] [92, e]
  | unit {q : Bytes} {n : Nat} (hq : codeUnit q = some n) (h : surrogate n = false) :
      Piece (encoded n) (92 :: 117 :: q)
  | pair {q r : Bytes} {m n : Nat} (hq : codeUnit q = some m) (hr : codeUnit r = some n) (hm : surrogate m = true)
      (hm' : m < 0xdc00) (hn : surrogate n = true) (hn' : 0xdc00 ≤ n) :
      Piece (encoded (0x10000 + (m - 0xd800) * 0x400 + (n - 0xdc00))) (92 :: 117 :: (q ++ 92 :: 117 :: r))

inductive Pieces : Bytes → Bytes → Prop where
  | nil : Pieces [] []
  | cons {u t us ts : Bytes} (h : Piece u t) (hs : Pieces us ts) : Pieces (u ++ us) (t ++ ts)

/-- `string` -/
def Quoted (s : String) (b : Bytes) : Prop := ∃ t, Pieces (utf8 s) t ∧ b = 34 :: (t ++ [34])

/-! ## Values -/

def nullText : Bytes := [110, 117, 108, 108]

def boolText (b : Bool) : Bytes := if b then [116, 114, 117, 101] else [102, 97, 108, 115, 101]

mutual
/-- `value` without the white space around it. -/
inductive Val : Doc → Bytes → Prop where
  | null : Val .null nullText
  | bool (b : Bool) : Val (.bool b) (boolText b)
  | number {t : Bytes} (h : numeral t = true) : Val (.number t) t
  | string {s : String} {b : Bytes} (h : Quoted s b) : Val (.string s) b
  | emptyArray {w : Bytes} (hw : Space w) : Val (.array []) (91 :: (w ++ [93]))
  | array {xs : List Doc} {b : Bytes} (h : Items xs b) : Val (.array xs) (91 :: b)
  | emptyObject {w : Bytes} (hw : Space w) : Val (.object []) (123 :: (w ++ [125]))
  | object {m : List (String × Doc)} {b : Bytes} (h : Members m b) : Val (.object m) (123 :: b)
/-- Items up to the bracket that closes the array. -/
inductive Items : List Doc → Bytes → Prop where
  | last {x : Doc} {w b z : Bytes} (hw : Space w) (h : Val x b) (hz : Space z) : Items [x] (w ++ (b ++ (z ++ [93])))
  | cons {x : Doc} {xs : List Doc} {w b z bs : Bytes} (hw : Space w) (h : Val x b) (hz : Space z) (hs : Items xs bs) :
      Items (x :: xs) (w ++ (b ++ (z ++ 44 :: bs)))
/-- Members up to the brace that closes the object. -/
inductive Members : List (String × Doc) → Bytes → Prop where
  | last {k : String} {x : Doc} {w kb u v b z : Bytes} (hw : Space w) (hk : Quoted k kb) (hu : Space u) (hv : Space v)
      (h : Val x b) (hz : Space z) : Members [(k, x)] (w ++ (kb ++ (u ++ 58 :: (v ++ (b ++ (z ++ [125]))))))
  | cons {k : String} {x : Doc} {m : List (String × Doc)} {w kb u v b z bs : Bytes} (hw : Space w) (hk : Quoted k kb)
      (hu : Space u) (hv : Space v) (h : Val x b) (hz : Space z) (hs : Members m bs) :
      Members ((k, x) :: m) (w ++ (kb ++ (u ++ 58 :: (v ++ (b ++ (z ++ 44 :: bs))))))
end

/-- `JSON-text` -/
def Text (d : Doc) (raw : Bytes) : Prop := ∃ w b z, Space w ∧ Val d b ∧ Space z ∧ raw = w ++ (b ++ z)

theorem space_nil : Space [] := List.forall_mem_nil _

theorem Val.text {d : Doc} {b : Bytes} (h : Val d b) : Text d b :=
  ⟨[], b, [], space_nil, h, space_nil, by rw [List.nil_append, List.append_nil]⟩

/-! ## Documents -/

mutual
/-- A document and all that it consists of. -/
def Doc.parts : Doc → List Doc
  | .array xs => .array xs :: partsItems xs
  | .object m => .object m :: partsMembers m
  | d => [d]
def Doc.partsItems : List Doc → List Doc
  | [] => []
  | x :: xs => x.parts ++ partsItems xs
def Doc.partsMembers : List (String × Doc) → List Doc
  | [] => []
  | (_, x) :: m => x.parts ++ partsMembers m
end

mutual
/-- The most containers above one value. -/
def Doc.depth : Doc → Nat
  | .array (x :: xs) => 1 + max x.depth (depthItems xs)
  | .object ((_, x) :: m) => 1 + max x.depth (depthMembers m)
  | _ => 0
def Doc.depthItems : List Doc → Nat
  | [] => 0
  | x :: xs => max x.depth (depthItems xs)
def Doc.depthMembers : List (String × Doc) → Nat
  | [] => 0
  | (_, x) :: m => max x.depth (depthMembers m)
end

mutual
/-- The most containers that are open at once. -/
def Doc.nesting : Doc → Nat
  | .array xs => 1 + nestingItems xs
  | .object m => 1 + nestingMembers m
  | _ => 0
def Doc.nestingItems : List Doc → Nat
  | [] => 0
  | x :: xs => max x.nesting (nestingItems xs)
def Doc.nestingMembers : List (String × Doc) → Nat
  | [] => 0
  | (_, x) :: m => max x.nesting (nestingMembers m)
end

theorem mem_partsItems {p : Doc} {xs : List Doc} : p ∈ Doc.partsItems xs ↔ ∃ x ∈ xs, p ∈ x.parts := by
  induction xs with
  | nil => simp [Doc.partsItems]
  | cons x xs ih => rw [Doc.partsItems, List.mem_append, ih, List.exists_mem_cons_iff]

theorem mem_partsMembers {p : Doc} {m : List (String × Doc)} : p ∈ Doc.partsMembers m ↔ ∃ e ∈ m, p ∈ e.2.parts := by
  induction m with
  | nil => simp [Doc.partsMembers]
  | cons e m ih => rw [Doc.partsMembers, List.mem_append, ih, List.exists_mem_cons_iff]

theorem forall_parts_array {P : Doc → Prop} {xs : List Doc} :
    (∀ p ∈ (Doc.array xs).parts, P p) ↔ P (.array xs) ∧ ∀ x ∈ xs, ∀ p ∈ x.parts, P p := by
  rw [Doc.parts, List.forall_mem_cons]
  simp only [mem_partsItems]
  exact and_congr_right fun _ => ⟨fun h x hx p hp => h p ⟨x, hx, hp⟩, fun h p ⟨x, hx, hp⟩ => h x hx p hp⟩

theorem forall_parts_object {P : Doc → Prop} {m : List (String × Doc)} :
    (∀ p ∈ (Doc.object m).parts, P p) ↔ P (.object m) ∧ ∀ e ∈ m, ∀ p ∈ e.2.parts, P p := by
  rw [Doc.parts, List.forall_mem_cons]
  simp only [mem_partsMembers]
  exact and_congr_right fun _ => ⟨fun h e he p hp => h p ⟨e, he, hp⟩, fun h p ⟨e, he, hp⟩ => h e he p hp⟩

/-- Every number token. -/
def Doc.Tokens (P : Bytes → Prop) (d : Doc) : Prop := ∀ p ∈ d.parts, ∀ t, p = .number t → P t

/-- No object repeats a name. -/
def Doc.Distinct (d : Doc) : Prop := ∀ p ∈ d.parts, ∀ m, p = .object m → (m.map Prod.fst).Nodup

section

variable {P Q : Bytes → Prop} {d : Doc}

@[simp] theorem Doc.tokens_number (t : Bytes) : (Doc.number t).Tokens P ↔ P t := by
  simp [Tokens, parts]

@[simp] theorem Doc.tokens_array (xs : List Doc) : (Doc.array xs).Tokens P ↔ ∀ x ∈ xs, x.Tokens P := by
  rw [Tokens, forall_parts_array]
  simp [Tokens]

@[simp] theorem Doc.tokens_object (m : List (String × Doc)) : (Doc.object m).Tokens P ↔ ∀ e ∈ m, e.2.Tokens P := by
  rw [Tokens, forall_parts_object]
  simp [Tokens]

theorem Doc.Tokens.and (hP : d.Tokens P) (hQ : d.Tokens Q) : d.Tokens fun t => P t ∧ Q t :=
  fun p hp t h => ⟨hP p hp t h, hQ p hp t h⟩

theorem Doc.Tokens.imp (hP : d.Tokens P) (h : ∀ t, P t → Q t) : d.Tokens Q := fun p hp t ht => h t (hP p hp t ht)

@[simp] theorem Doc.distinct_array (xs : List Doc) : (Doc.array xs).Distinct ↔ ∀ x ∈ xs, x.Distinct := by
  rw [Distinct, forall_parts_array]
  simp [Distinct]

@[simp] theorem Doc.distinct_object (m : List (String × Doc)) :
    (Doc.object m).Distinct ↔ (m.map Prod.fst).Nodup ∧ ∀ e ∈ m, e.2.Distinct := by
  rw [Distinct, forall_parts_object]
  simp [Distinct]

end

mutual
/-- The number tokens of a text are written as numbers are. -/
theorem Val.numerals : ∀ {d : Doc} {b : Bytes}, Val d b → d.Tokens fun t => numeral t = true
  | _, _, .null => by simp [Doc.Tokens, Doc.parts]
  | _, _, .bool _ => by simp [Doc.Tokens, Doc.parts]
  | _, _, .number h => by simpa using h
  | _, _, .string _ => by simp [Doc.Tokens, Doc.parts]
  | _, _, .emptyArray _ => by simp
  | _, _, .array h => by simpa using Items.numerals h
  | _, _, .emptyObject _ => by simp
  | _, _, .object h => by simpa using Members.numerals h
theorem Items.numerals : ∀ {xs : List Doc} {b : Bytes}, Items xs b → ∀ x ∈ xs, x.Tokens fun t => numeral t = true
  | _, _, .last _ h _ => by simpa using Val.numerals h
  | _, _, .cons _ h _ hs => by
    rw [List.forall_mem_cons]
    exact ⟨Val.numerals h, Items.numerals hs⟩
theorem Members.numerals : ∀ {m : List (String × Doc)} {b : Bytes}, Members m b →
    ∀ e ∈ m, e.2.Tokens fun t => numeral t = true
  | _, _, .last _ _ _ _ h _ => by
    rw [List.forall_mem_singleton]
    exact Val.numerals h
  | _, _, .cons _ _ _ _ h _ hs => by
    rw [List.forall_mem_cons]
    exact ⟨Val.numerals h, Members.numerals hs⟩
end

theorem Text.numerals {d : Doc} {raw : Bytes} (h : Text d raw) : d.Tokens fun t => numeral t = true := by
  obtain ⟨w, b, z, -, hval, -, -⟩ := h
  exact hval.numerals

mutual
/-- An empty container may lie below all the others. -/
theorem Doc.nesting_le : ∀ d : Doc, d.nesting ≤ d.depth + 1
  | .null => by simp [nesting]
  | .bool _ => by simp [nesting]
  | .number _ => by simp [nesting]
  | .string _ => by simp [nesting]
  | .array [] => by simp [nesting, nestingItems]
  | .array (x :: xs) => by
    have hx := nesting_le x
    have hxs := nestingItems_le xs
    simp only [nesting, nestingItems, depth]
    omega
  | .object [] => by simp [nesting, nestingMembers]
  | .object ((k, x) :: m) => by
    have hx := nesting_le x
    have hm := nestingMembers_le m
    simp only [nesting, nestingMembers, depth]
    omega
theorem Doc.nestingItems_le : ∀ xs : List Doc, nestingItems xs ≤ depthItems xs + 1
  | [] => by simp [nestingItems]
  | x :: xs => by
    have hx := nesting_le x
    have hxs := nestingItems_le xs
    simp only [nestingItems, depthItems]
    omega
theorem Doc.nestingMembers_le : ∀ m : List (String × Doc), nestingMembers m ≤ depthMembers m + 1
  | [] => by simp [nestingMembers]
  | (k, x) :: m => by
    have hx := nesting_le x
    have hm := nestingMembers_le m
    simp only [nestingMembers, depthMembers]
    omega
end

end JsonText

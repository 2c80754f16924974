import Mathlib.Data.List.DropRight
import SwarrmVerify.Core.Numeral
import SwarrmVerify.L1Encoding.Crates
import SwarrmVerify.L1Encoding.Text

/-!
# Texts of values (`dispute.rs`)

Reconciliation compares values by a text of its own: Python's
`json.dumps(sort_keys=True)` with ASCII escapes and Python's spelling of
floats. Two parties write the same text for the same value, and that is what
the code needs; that different values have different texts is what a reader
needs, and is proved here. Texts are lists of characters.

**Hypotheses (`SerdeLaws`).** `serde_json` quotes a string with its escapes of
quotes, backslashes and control characters; the mantissa it prints for a finite
double consists of digits and a point; and what it prints identifies the double
it was printed for. The last is what a shortest round-trip printer promises.

**The argument.** A text is told from what follows it (`Delimited`): a string
by its closing quote, which starts no character (`asciiString_delim`); a number
by the first character that belongs to none; a list by its brackets, one item
after the other (`join_delim`). The kinds of values differ in their first
character (`kindOf_eq`). A rendered number is read back to its sign, digits and
exponent (`renderFloat_reads`), so that the change from Rust's spelling to
Python's loses nothing.

**Results.**
* `renderFloat_inj`: rendered numbers are told apart.
* `numberKey_inj`: numbers with one text are equal, kinds included.
* `valueKey_inj`: values with one text are equal, types included.
-/
namespace SwarrmVerify.L4.Dispute

/-- What only this layer calls. -/
structure Serde extends Crates where
  /-- `serde_json::to_string` of a string -/
  stringText : String → List Char
  /-- `serde_json::Number::to_string` of a float -/
  floatNumber : F64 → List Char

/-! ## Strings -/

/-- Four hexadecimal digits, `{unit:04x}` of a code unit. -/
def hex4 (n : Nat) : List Char :=
  [hexDigit (n / 4096 % 16), hexDigit (n / 256 % 16), hexDigit (n / 16 % 16), hexDigit (n % 16)]

/-- What is written for one character of the encoded string: itself if it is
ASCII, else the escapes of its code units. -/
def asciiChar (c : Char) : List Char :=
  if c.toNat < 128 && c.toNat != 127 then [c] else (encodeUtf16 c).flatMap fun unit => '\\' :: 'u' :: hex4 unit

/-- mirrors verify-rs/src/dispute.rs:94-107 -/
def asciiString (S : Serde) (text : String) : List Char := (S.stringText text).flatMap asciiChar

/-! ## Floats -/

/-- `str::parse::<i32>` -/
def parseI32 (t : List Char) : Option Int :=
  let (negative, digits) := match t with
    | '-' :: ds => (true, ds)
    | '+' :: ds => (false, ds)
    | ds => (false, ds)
  if digits.isEmpty || !digits.all Char.isDigit then none
  else
    let n : Int := Nat.ofDigitChars 10 digits 0
    let i := if negative then -n else n
    if -(2 ^ 31) ≤ i ∧ i < 2 ^ 31 then some i else none

/-- `raw.split_once('e').unwrap_or((raw, "0"))` -/
def splitExponent (raw : List Char) : List Char × List Char :=
  if 'e' ∈ raw then (raw.takeWhile (· ≠ 'e'), (raw.dropWhile (· ≠ 'e')).drop 1) else (raw, ['0'])

/-- A decimal as it is taken apart: the sign, the significant digits and the
power of ten of the first one; no digits for a zero. -/
structure Scientific where
  negative : Bool
  digits : List Char
  power : Int
  deriving DecidableEq

/-- The digits of a mantissa, shifted by an exponent. -/
def scientific (mantissa : List Char) (exponent : Int) : Scientific :=
  let unsigned := mantissa.dropWhile (· = '-')
  let point : Int := (unsigned.takeWhile (· ≠ '.')).length
  let digits := unsigned.filter (· ≠ '.')
  let zeros := (digits.takeWhile (· = '0')).length
  if zeros = digits.length then ⟨mantissa.head? = some '-', [], 0⟩
  else ⟨mantissa.head? = some '-', (digits.drop zeros).rdropWhile (· = '0'), point + exponent - zeros - 1⟩

/-- `{power:+03}` -/
def powerText (power : Int) : List Char :=
  (if power < 0 then '-' else '+') ::
    (if power.natAbs < 10 then '0' :: Nat.toDigits 10 power.natAbs else Nat.toDigits 10 power.natAbs)

/-- The digits with a point, or with an exponent. -/
def renderDigits (digits : List Char) (power : Int) : List Char :=
  if ¬(-4 ≤ power ∧ power < 16) then
    digits.take 1 ++ (if 1 < digits.length then '.' :: digits.drop 1 else []) ++ 'e' :: powerText power
  else
    let point := power + 1
    if point ≤ 0 then '0' :: '.' :: (List.replicate (-point).toNat '0' ++ digits)
    else if digits.length ≤ point.toNat then digits ++ List.replicate (point.toNat - digits.length) '0' ++ ['.', '0']
    else digits.take point.toNat ++ '.' :: digits.drop point.toNat

def renderFloat (s : Scientific) : List Char :=
  (if s.negative then ['-'] else []) ++ (if s.digits = [] then ['0', '.', '0'] else renderDigits s.digits s.power)

/-- The normal form of a printed float: its digits, wherever the printer has put
the point and the exponent. -/
def normalForm (raw : List Char) : Option Scientific :=
  (parseI32 (splitExponent raw).2).map fun exponent => scientific (splitExponent raw).1 exponent

/-- mirrors verify-rs/src/dispute.rs:109-137 -/
def floatText (raw : List Char) : Option (List Char) := (normalForm raw).map renderFloat

/-! ## Values -/

/-- A number that `serde_json` can hold: `NegInt` is negative and a float is
finite. Any other has no text. -/
def numberKey (S : Serde) : Number → Option (List Char)
  | .posInt n => some (Nat.toDigits 10 n.toNat)
  | .negInt i => if i.toInt < 0 then some ('-' :: Nat.toDigits 10 i.toInt.natAbs) else none
  | .float f => if f.isFinite then floatText (S.floatNumber f) else none

/-- `join(", ")` -/
def joinTexts : List (List Char) → List Char
  | [] => []
  | [t] => t
  | t :: ts => t ++ ',' :: ' ' :: joinTexts ts

mutual
/-- mirrors verify-rs/src/dispute.rs:139-150 -/
def valueKey (S : Serde) : Value → Option (List Char)
  | .null => some ['n', 'u', 'l', 'l']
  | .bool true => some ['t', 'r', 'u', 'e']
  | .bool false => some ['f', 'a', 'l', 's', 'e']
  | .number n => numberKey S n
  | .string text => some (asciiString S text)
  | .array items => (itemKeys S items).map fun ts => '[' :: (joinTexts ts ++ [']'])
  | .object members => (memberKeys S members).map fun ts => '\x7b' :: (joinTexts ts ++ ['\x7d'])
def itemKeys (S : Serde) : List Value → Option (List (List Char))
  | [] => some []
  | x :: xs => do
    let t ← valueKey S x
    let ts ← itemKeys S xs
    return t :: ts
def memberKeys (S : Serde) : List (String × Value) → Option (List (List Char))
  | [] => some []
  | (k, x) :: m => do
    let t ← valueKey S x
    let ts ← memberKeys S m
    return (asciiString S k ++ ':' :: ' ' :: t) :: ts
end

/-! ## What the texts rely on -/

/-- The characters with an escape of two characters. -/
def escapes : List (Char × Char) :=
  [('"', '"'), ('\\', '\\'), ('\x08', 'b'), ('\x0c', 'f'), ('\n', 'n'), ('\r', 'r'), ('\t', 't')]

/-- A character inside a JSON string. -/
def jsonEscape (c : Char) : List Char :=
  match escapes.lookup c with
  | some e => ['\\', e]
  | none =>
    if c.toNat < 32 then ['\\', 'u', '0', '0', hexDigit (c.toNat / 16), hexDigit (c.toNat % 16)] else [c]

/-- `serde_json` escapes quotes, backslashes and control characters, and the
decimal that it prints for a double identifies the double. -/
structure SerdeLaws (S : Serde) : Prop where
  strings : ∀ s, S.stringText s = '"' :: (s.toList.flatMap jsonEscape ++ ['"'])
  mantissa : ∀ f : F64, f.isFinite = true →
    ∀ c ∈ (splitExponent (S.floatNumber f)).1.dropWhile (· = '-'), c.isDigit = true ∨ c = '.'
  decimal : ∀ f g : F64, f.isFinite = true → g.isFinite = true → ∀ s, normalForm (S.floatNumber f) = some s →
    normalForm (S.floatNumber g) = some s → f = g

/-! ## Strings are delimited -/

/-- What is written for one character of a string. -/
def written (c : Char) : List Char := (jsonEscape c).flatMap asciiChar

theorem asciiString_eq {S : Serde} (h : SerdeLaws S) (s : String) :
    asciiString S s = '"' :: (s.toList.flatMap written ++ ['"']) := by
  have hquote : asciiChar '"' = ['"'] := by decide
  rw [asciiString, h.strings, List.flatMap_cons, List.flatMap_append, List.flatMap_assoc, List.flatMap_singleton, hquote]
  rfl

theorem hexDigit_ascii : ∀ n < 16, asciiChar (hexDigit n) = [hexDigit n] := by decide

/-- Four hexadecimal digits tell a code unit. -/
theorem hex4_inj {m n : Nat} (hm : m < 65536) (hn : n < 65536) (h : hex4 m = hex4 n) : m = n := by
  simp only [hex4, List.cons.injEq, and_true] at h
  obtain ⟨h3, h2, h1, h0⟩ := h
  have := hexDigit_inj _ (by omega) _ (by omega) h3
  have := hexDigit_inj _ (by omega) _ (by omega) h2
  have := hexDigit_inj _ (by omega) _ (by omega) h1
  have := hexDigit_inj _ (by omega) _ (by omega) h0
  omega

/-- The escapes of code units. -/
def unitTexts (units : List Nat) : List Char := units.flatMap fun unit => '\\' :: 'u' :: hex4 unit

theorem lookup_escapes {c e : Char} (h : escapes.lookup c = some e) : (c, e) ∈ escapes := by
  obtain ⟨l, r, heq, -⟩ := List.lookup_eq_some_iff.mp h
  rw [heq]
  simp

/-- A character is written as a short escape, as itself or as code units. -/
theorem written_cases (c : Char) :
    (∃ e, (c, e) ∈ escapes ∧ written c = ['\\', e]) ∨
    (c ≠ '"' ∧ c ≠ '\\' ∧ written c = [c]) ∨ written c = unitTexts (encodeUtf16 c) := by
  unfold written jsonEscape
  cases he : escapes.lookup c with
  | some e =>
    have hmem := lookup_escapes he
    refine .inl ⟨e, hmem, ?_⟩
    have hall : ∀ q ∈ escapes, ['\\', q.2].flatMap asciiChar = ['\\', q.2] := by decide
    exact hall (c, e) hmem
  | none =>
    have hne : ∀ q ∈ escapes, c ≠ q.1 := by
      intro q hq hc
      have := List.lookup_eq_none_iff.mp he q hq
      rw [hc] at this
      simp at this
    dsimp only
    split
    · rename_i hlow
      refine .inr (.inr ?_)
      have hunits : encodeUtf16 c = [c.toNat] := if_pos (by omega)
      have hhex : hex4 c.toNat = ['0', '0', hexDigit (c.toNat / 16), hexDigit (c.toNat % 16)] := by
        have h3 : c.toNat / 4096 % 16 = 0 := by omega
        have h2 : c.toNat / 256 % 16 = 0 := by omega
        have h1 : c.toNat / 16 % 16 = c.toNat / 16 := by omega
        rw [hex4, h3, h2, h1]
        rfl
      have hzero : asciiChar '0' = ['0'] ∧ asciiChar '\\' = ['\\'] ∧ asciiChar 'u' = ['u'] := by decide
      rw [hunits, unitTexts, List.flatMap_singleton, hhex]
      simp only [List.flatMap_cons, List.flatMap_nil, hzero, hexDigit_ascii _ (by omega : c.toNat / 16 < 16),
        hexDigit_ascii _ (by omega : c.toNat % 16 < 16), List.cons_append, List.nil_append]
    · rw [List.flatMap_singleton]
      by_cases hascii : (c.toNat < 128 && c.toNat != 127) = true
      · refine .inr (.inl ⟨hne ('"', '"') (by decide), hne ('\\', '\\') (by decide), ?_⟩)
        rw [asciiChar, if_pos hascii]
      · refine .inr (.inr ?_)
        rw [asciiChar, if_neg hascii]
        rfl

theorem unitTexts_head (c : Char) : ∃ t, unitTexts (encodeUtf16 c) = '\\' :: 'u' :: t := by
  unfold encodeUtf16 unitTexts
  split
  · exact ⟨_, rfl⟩
  · exact ⟨_, rfl⟩

/-- The escape of a code unit is six characters long, so what follows it is
found. -/
theorem unit_delim {m n : Nat} (hm : m < 65536) (hn : n < 65536) {r r' : List Char}
    (h : unitTexts [m] ++ r = unitTexts [n] ++ r') : m = n ∧ r = r' := by
  simp only [unitTexts, List.flatMap_singleton, List.cons_append, List.cons.injEq, true_and] at h
  have hsplit := List.append_inj h rfl
  exact ⟨hex4_inj hm hn hsplit.1, hsplit.2⟩

theorem unitTexts_cons (m : Nat) (units : List Nat) : unitTexts (m :: units) = unitTexts [m] ++ unitTexts units := by
  simp [unitTexts]

/-- The escapes of a character tell it, whether it has one code unit or two. -/
theorem units_delim {c d : Char} {r r' : List Char}
    (h : unitTexts (encodeUtf16 c) ++ r = unitTexts (encodeUtf16 d) ++ r') : c = d ∧ r = r' := by
  have hc := scalar_range c
  have hd := scalar_range d
  have heq : ∀ {c d : Char}, c.toNat = d.toNat → c = d := fun h => Char.toNat_inj.mp h
  unfold encodeUtf16 at h
  split at h
  · split at h
    · obtain ⟨hunit, hr⟩ := unit_delim (by omega) (by omega) h
      exact ⟨heq hunit, hr⟩
    · rw [unitTexts_cons (0xd800 + _), List.append_assoc] at h
      obtain ⟨hunit, -⟩ := unit_delim (by omega) (by omega) h
      omega
  · split at h
    · rw [unitTexts_cons (0xd800 + _), List.append_assoc] at h
      obtain ⟨hunit, -⟩ := unit_delim (by omega) (by omega) h
      omega
    · rw [unitTexts_cons (0xd800 + _), unitTexts_cons (0xd800 + _), List.append_assoc, List.append_assoc] at h
      obtain ⟨hhigh, h⟩ := unit_delim (by omega) (by omega) h
      obtain ⟨hlow, hr⟩ := unit_delim (by omega) (by omega) h
      exact ⟨heq (by omega), hr⟩

/-- What is written for a character ends by itself. The cases are those of
`written_cases`: escapes begin with a backslash, which stands for itself in none
of them. -/
theorem written_delim {c d : Char} {r r' : List Char} (h : written c ++ r = written d ++ r') : c = d ∧ r = r' := by
  have hshort : ∀ q ∈ escapes, q.2 ≠ 'u' := by decide
  have hinj : ∀ p ∈ escapes, ∀ q ∈ escapes, p.2 = q.2 → p.1 = q.1 := by decide
  obtain ⟨tc, htc⟩ := unitTexts_head c
  obtain ⟨td, htd⟩ := unitTexts_head d
  rcases written_cases c with ⟨e, he, hc⟩ | ⟨-, hcs, hc⟩ | hc <;>
    rcases written_cases d with ⟨f, hf, hd⟩ | ⟨-, hds, hd⟩ | hd <;> rw [hc, hd] at h
  · simp only [List.cons_append, List.nil_append, List.cons.injEq, true_and] at h
    exact ⟨hinj _ he _ hf h.1, h.2⟩
  · simp only [List.cons_append, List.nil_append, List.cons.injEq] at h
    exact absurd h.1.symm hds
  · rw [htd] at h
    simp only [List.cons_append, List.nil_append, List.cons.injEq, true_and] at h
    exact absurd h.1 (hshort _ he)
  · simp only [List.cons_append, List.nil_append, List.cons.injEq] at h
    exact absurd h.1 hcs
  · simp only [List.cons_append, List.nil_append, List.cons.injEq] at h
    exact h
  · rw [htd] at h
    simp only [List.cons_append, List.nil_append, List.cons.injEq] at h
    exact absurd h.1 hcs
  · rw [htc] at h
    simp only [List.cons_append, List.nil_append, List.cons.injEq, true_and] at h
    exact absurd h.1.symm (hshort _ hf)
  · rw [htc] at h
    simp only [List.cons_append, List.nil_append, List.cons.injEq] at h
    exact absurd h.1.symm hds
  · exact units_delim h

/-- The closing quote starts no character. -/
theorem written_ne_quote (c : Char) (r t : List Char) : written c ++ r ≠ '"' :: t := by
  obtain ⟨tc, htc⟩ := unitTexts_head c
  rcases written_cases c with ⟨e, -, hc⟩ | ⟨hq, -, hc⟩ | hc
  · rw [hc]
    simp
  · rw [hc]
    simp [hq]
  · rw [hc, htc]
    simp

theorem characters_delim {x y : List Char} {r r' : List Char}
    (h : x.flatMap written ++ '"' :: r = y.flatMap written ++ '"' :: r') : x = y ∧ r = r' := by
  induction x generalizing y with
  | nil =>
    cases y with
    | nil => exact ⟨rfl, (List.cons.inj h).2⟩
    | cons d y =>
      rw [List.flatMap_cons, List.append_assoc] at h
      exact absurd h.symm (written_ne_quote d _ _)
  | cons c x ih =>
    rw [List.flatMap_cons, List.append_assoc] at h
    cases y with
    | nil => exact absurd h (written_ne_quote c _ _)
    | cons d y =>
      rw [List.flatMap_cons, List.append_assoc] at h
      obtain ⟨rfl, hrest⟩ := written_delim h
      obtain ⟨rfl, hr⟩ := ih hrest
      exact ⟨rfl, hr⟩

/-- A written string is told from whatever follows it, since its closing quote
starts no character. -/
theorem asciiString_delim {S : Serde} (hS : SerdeLaws S) {s t : String} {r r' : List Char}
    (h : asciiString S s ++ r = asciiString S t ++ r') : s = t ∧ r = r' := by
  rw [asciiString_eq hS, asciiString_eq hS] at h
  simp only [List.cons_append, List.append_assoc, List.nil_append, List.cons.injEq, true_and] at h
  obtain ⟨hst, hr⟩ := characters_delim h
  exact ⟨String.toList_inj.mp hst, hr⟩

/-! ## Floats -/

/-- Digits without a zero at either end, so that two numbers with the same
digits and the same first place are one. -/
structure Significant (digits : List Char) : Prop where
  digit : ∀ c ∈ digits, c.isDigit = true
  first : digits.head? ≠ some '0'
  last : digits.getLast? ≠ some '0'

structure Normal (s : Scientific) : Prop where
  significant : Significant s.digits
  zero : s.digits = [] → s.power = 0

theorem toDigits_inj {m n : Nat} (h : Nat.toDigits 10 m = Nat.toDigits 10 n) : m = n := by
  rw [← Nat.ofDigitChars_ten_toDigits (n := m), h, Nat.ofDigitChars_ten_toDigits]

/-- A power with its sign and at least two digits is read back. -/
theorem powerText_inj {p q : Int} (h : powerText p = powerText q) : p = q := by
  have hvalue : ∀ p : Int, Nat.ofDigitChars 10 (powerText p).tail 0 = p.natAbs := by
    intro p
    rw [powerText, List.tail_cons]
    split
    · rw [Nat.ofDigitChars_cons]
      exact Nat.ofDigitChars_ten_toDigits
    · exact Nat.ofDigitChars_ten_toDigits
  have habs : p.natAbs = q.natAbs := by rw [← hvalue p, h, hvalue]
  have hsign := congrArg List.head? h
  simp only [powerText, List.head?_cons, Option.some.injEq] at hsign
  split at hsign <;> split at hsign
  · omega
  · exact absurd hsign (by decide)
  · exact absurd hsign (by decide)
  · omega

theorem splitExponent_mark {m r : List Char} (hm : 'e' ∉ m) : splitExponent (m ++ 'e' :: r) = (m, r) := by
  have hall : ∀ c ∈ m, decide (c ≠ 'e') = true := fun c hc => by
    rw [decide_eq_true_eq]
    exact fun he => hm (he ▸ hc)
  rw [splitExponent, if_pos (by simp), List.takeWhile_append_of_pos hall, List.dropWhile_append_of_pos hall]
  simp

theorem splitExponent_none {m : List Char} (hm : 'e' ∉ m) : splitExponent m = (m, ['0']) := if_neg hm

theorem rdropWhile_zeros {ds : List Char} (hlast : ds.getLast? ≠ some '0') (b : Nat) :
    (ds ++ List.replicate b '0').rdropWhile (· = '0') = ds := by
  induction b with
  | zero =>
    rw [List.replicate_zero, List.append_nil, List.rdropWhile_eq_self_iff]
    intro hne
    rw [decide_eq_true_eq]
    intro he
    exact hlast (he ▸ List.getLast?_eq_some_getLast hne)
  | succ b ih =>
    rw [List.replicate_succ', ← List.append_assoc, List.rdropWhile_concat_pos]
    · exact ih
    · rfl

/-- Significant digits among zeros: how many zeros stand before them, and what
is left when all are taken away. -/
theorem significant_among {ds : List Char} (h : Significant ds) (hne : ds ≠ []) (a b : Nat) :
    ((List.replicate a '0' ++ ds ++ List.replicate b '0').takeWhile (· = '0')).length = a ∧
    ((List.replicate a '0' ++ ds ++ List.replicate b '0').drop a).rdropWhile (· = '0') = ds := by
  have hzeros : ∀ c ∈ List.replicate a '0', decide (c = '0') = true := fun c hc => by
    rw [List.eq_of_mem_replicate hc]
    rfl
  rw [List.append_assoc]
  constructor
  · rw [List.takeWhile_append_of_pos hzeros]
    cases ds with
    | nil => exact absurd rfl hne
    | cons c t =>
      have hc : c ≠ '0' := fun he => h.first (he ▸ rfl)
      simp [hc]
  · have hdrop := @List.drop_left _ (List.replicate a '0') (ds ++ List.replicate b '0')
    rw [List.length_replicate] at hdrop
    rw [hdrop]
    exact rdropWhile_zeros h.last b

theorem digit_ne {c d : Char} (h : c.isDigit = true) (hd : d.isDigit = false) : c ≠ d := by
  intro he
  rw [he, hd] at h
  cases h

/-- The sign, the digits before the point and all digits of a text with its
point, or without one. -/
theorem mantissa_parts (negative : Bool) {ip fp pt : List Char} (hpt : pt = [] ∧ fp = [] ∨ pt = '.' :: fp)
    (hip : ∀ c ∈ ip, c.isDigit = true) (hfp : ∀ c ∈ fp, c.isDigit = true) (hne : ip ≠ []) :
    ((if negative then ['-'] else []) ++ (ip ++ pt)).dropWhile (· = '-') = ip ++ pt ∧
    decide (((if negative then ['-'] else []) ++ (ip ++ pt)).head? = some '-') = negative ∧
    (ip ++ pt).takeWhile (· ≠ '.') = ip ∧ (ip ++ pt).filter (· ≠ '.') = ip ++ fp := by
  obtain ⟨c, t, rfl⟩ := List.exists_cons_of_ne_nil hne
  have hc : c ≠ '-' := digit_ne (hip c (by simp)) (by decide)
  refine ⟨?_, ?_, ?_, ?_⟩
  · cases negative <;> simp [hc]
  · cases negative <;> simp [hc]
  · have hpos : ∀ x ∈ c :: t, decide (x ≠ '.') = true := fun x hx => by
      rw [decide_eq_true_eq]
      exact digit_ne (hip x hx) (by decide)
    rw [List.takeWhile_append_of_pos hpos]
    rcases hpt with ⟨rfl, -⟩ | rfl <;> simp
  · have hself : ∀ l : List Char, (∀ x ∈ l, x.isDigit = true) → l.filter (· ≠ '.') = l := by
      intro l hl
      rw [List.filter_eq_self]
      intro x hx
      rw [decide_eq_true_eq]
      exact digit_ne (hl x hx) (by decide)
    rw [List.filter_append, hself _ hip]
    rcases hpt with ⟨rfl, rfl⟩ | rfl
    · rfl
    · rw [List.filter_cons_of_neg (by simp), hself _ hfp]

/-- The digits of a text with its point, or without one. What the point and the
exponent do to the first place adds up. -/
theorem scientific_eq (negative : Bool) {ip fp pt ds : List Char} {a b : Nat} (e : Int)
    (hpt : pt = [] ∧ fp = [] ∨ pt = '.' :: fp) (hip : ∀ c ∈ ip, c.isDigit = true) (hfp : ∀ c ∈ fp, c.isDigit = true)
    (hne : ip ≠ []) (hds : Significant ds) (hds' : ds ≠ [])
    (hall : ip ++ fp = List.replicate a '0' ++ ds ++ List.replicate b '0') :
    scientific ((if negative then ['-'] else []) ++ (ip ++ pt)) e = ⟨negative, ds, ip.length + e - a - 1⟩ := by
  obtain ⟨hdropped, hsign, hpoint, hfilter⟩ := mantissa_parts negative hpt hip hfp hne
  obtain ⟨hzeros, hdigits⟩ := significant_among hds hds' a b
  unfold scientific
  simp only [hdropped, hpoint, hfilter, hsign, hall, hzeros, hdigits]
  have hlong : a ≠ (List.replicate a '0' ++ ds ++ List.replicate b '0').length := by
    have := List.length_pos_iff.mpr hds'
    simp only [List.length_append, List.length_replicate]
    omega
  rw [if_neg hlong]

/-- Nothing but zeros. -/
theorem scientific_zero (negative : Bool) {ip fp pt : List Char} {n : Nat} (e : Int)
    (hpt : pt = [] ∧ fp = [] ∨ pt = '.' :: fp) (hip : ∀ c ∈ ip, c.isDigit = true) (hfp : ∀ c ∈ fp, c.isDigit = true)
    (hne : ip ≠ []) (hall : ip ++ fp = List.replicate n '0') :
    scientific ((if negative then ['-'] else []) ++ (ip ++ pt)) e = ⟨negative, [], 0⟩ := by
  obtain ⟨hdropped, hsign, hpoint, hfilter⟩ := mantissa_parts negative hpt hip hfp hne
  have hzeros : (List.replicate n '0').takeWhile (· = '0') = List.replicate n '0' := by
    rw [List.takeWhile_eq_self_iff]
    intro c hc
    rw [List.eq_of_mem_replicate hc]
    rfl
  unfold scientific
  simp only [hdropped, hpoint, hfilter, hsign, hall, hzeros, if_true]

/-- The exponent of a rendered number and the number without it. -/
def partsOf (s : Scientific) : List Char × Scientific :=
  if s.digits ≠ [] ∧ ¬(-4 ≤ s.power ∧ s.power < 16) then (powerText s.power, { s with power := 0 }) else (['0'], s)

theorem replicate_digit (n : Nat) : ∀ c ∈ List.replicate n '0', c.isDigit = true := fun c hc => by
  rw [List.eq_of_mem_replicate hc]
  rfl

theorem mark_not_mem (negative : Bool) {ip fp pt : List Char} (hpt : pt = [] ∧ fp = [] ∨ pt = '.' :: fp)
    (hip : ∀ c ∈ ip, c.isDigit = true) (hfp : ∀ c ∈ fp, c.isDigit = true) :
    'e' ∉ (if negative then ['-'] else []) ++ (ip ++ pt) := by
  have hno : ∀ l : List Char, (∀ c ∈ l, c.isDigit = true) → 'e' ∉ l := fun l hl he => absurd (hl _ he) (by decide)
  rcases hpt with ⟨rfl, -⟩ | rfl
  · cases negative <;> simp [hno ip hip]
  · cases negative <;> simp [hno ip hip, hno fp hfp]

/-- A text with a point and no exponent is read back. -/
theorem positional_reads (negative : Bool) (ip fp : List Char) {pt ds : List Char} {a b : Nat} {p : Int}
    (hpt : pt = [] ∧ fp = [] ∨ pt = '.' :: fp) (hip : ∀ c ∈ ip, c.isDigit = true) (hfp : ∀ c ∈ fp, c.isDigit = true)
    (hne : ip ≠ []) (hds : Significant ds) (hds' : ds ≠ [])
    (hall : ip ++ fp = List.replicate a '0' ++ ds ++ List.replicate b '0') (hp : p = ip.length - a - 1)
    {text : List Char} (htext : text = (if negative then ['-'] else []) ++ (ip ++ pt)) :
    ((splitExponent text).2, scientific (splitExponent text).1 0) = (['0'], ⟨negative, ds, p⟩) := by
  rw [htext, splitExponent_none (mark_not_mem negative hpt hip hfp),
    scientific_eq negative 0 hpt hip hfp hne hds hds' hall, hp, add_zero]

section Rendered

variable {ds : List Char} {p : Int}

/-- One digit before the point, and an exponent. -/
theorem exponent_reads (negative : Bool) (hds : Significant ds) (hne : ds ≠ []) (hwide : ¬(-4 ≤ p ∧ p < 16)) :
    ((splitExponent ((if negative then ['-'] else []) ++ renderDigits ds p)).2,
      scientific (splitExponent ((if negative then ['-'] else []) ++ renderDigits ds p)).1 0) =
      (powerText p, ⟨negative, ds, 0⟩) := by
  have hlength := List.length_pos_iff.mpr hne
  have hip : ∀ c ∈ ds.take 1, c.isDigit = true := fun c hc => hds.digit c (List.mem_of_mem_take hc)
  have hfp : ∀ c ∈ ds.drop 1, c.isDigit = true := fun c hc => hds.digit c (List.mem_of_mem_drop hc)
  have hone : (ds.take 1).length = 1 := by
    rw [List.length_take]
    omega
  have hfirst : ds.take 1 ≠ [] := List.length_pos_iff.mp (by omega)
  have hpt : (if 1 < ds.length then '.' :: ds.drop 1 else []) = [] ∧ ds.drop 1 = [] ∨
      (if 1 < ds.length then '.' :: ds.drop 1 else []) = '.' :: ds.drop 1 := by
    by_cases hlong : 1 < ds.length
    · rw [if_pos hlong]
      exact .inr rfl
    · rw [if_neg hlong]
      exact .inl ⟨rfl, List.drop_eq_nil_of_le (by omega)⟩
  have hall : ds.take 1 ++ ds.drop 1 = List.replicate 0 '0' ++ ds ++ List.replicate 0 '0' := by
    rw [List.take_append_drop, List.replicate_zero, List.nil_append, List.append_nil]
  rw [renderDigits, if_pos hwide, ← List.append_assoc, splitExponent_mark (mark_not_mem negative hpt hip hfp),
    scientific_eq negative 0 hpt hip hfp hfirst hds hne hall, hone]
  simp

/-- No exponent: zeros before the digits, zeros after them, or a point inside.
In each of the three the digits stand among zeros, and the first place is that
of the number. -/
theorem renderDigits_point (hds : Significant ds) (hne : ds ≠ []) (hnear : -4 ≤ p ∧ p < 16) :
    ∃ (whole fraction : List Char) (a b : Nat), renderDigits ds p = whole ++ '.' :: fraction ∧ whole ≠ [] ∧
      (∀ c ∈ whole, c.isDigit = true) ∧ (∀ c ∈ fraction, c.isDigit = true) ∧ fraction ≠ [] ∧
      (1 < fraction.length → fraction.getLast? ≠ some '0') ∧
      whole ++ fraction = List.replicate a '0' ++ ds ++ List.replicate b '0' ∧ p = whole.length - a - 1 := by
  have hlength := List.length_pos_iff.mpr hne
  have hpadded : ∀ {n : Nat} {c : Char}, c ∈ List.replicate n '0' ∨ c ∈ ds → c.isDigit = true := by
    intro n c hc
    rcases hc with hc | hc
    · exact replicate_digit _ c hc
    · exact hds.digit c hc
  rw [renderDigits, if_neg (not_not.mpr hnear)]
  dsimp only
  by_cases hlow : p + 1 ≤ 0
  · rw [if_pos hlow]
    refine ⟨['0'], List.replicate (-(p + 1)).toNat '0' ++ ds, (-(p + 1)).toNat + 1, 0, rfl, by simp, by simp, ?_,
      by simp [hne], ?_, by simp [List.replicate_succ], ?_⟩
    · exact fun c hc => hpadded (List.mem_append.mp hc)
    · rw [List.getLast?_append_of_ne_nil _ hne]
      exact fun _ => hds.last
    · simp only [List.length_singleton]
      omega
  · rw [if_neg hlow]
    by_cases hshort : ds.length ≤ (p + 1).toNat
    · rw [if_pos hshort]
      refine ⟨ds ++ List.replicate ((p + 1).toNat - ds.length) '0', ['0'], 0, (p + 1).toNat - ds.length + 1, by simp,
        by simp [hne], ?_, by simp, by simp, by simp, by simp [List.replicate_succ'], ?_⟩
      · exact fun c hc => hpadded (List.mem_append.mp hc).symm
      · simp only [List.length_append, List.length_replicate]
        omega
    · rw [if_neg hshort]
      refine ⟨ds.take (p + 1).toNat, ds.drop (p + 1).toNat, 0, 0, rfl, List.length_pos_iff.mp ?_,
        fun c hc => hds.digit c (List.mem_of_mem_take hc), fun c hc => hds.digit c (List.mem_of_mem_drop hc), ?_, ?_,
        by simp, ?_⟩
      · rw [List.length_take]
        omega
      · rw [Ne, List.drop_eq_nil_iff]
        omega
      · rw [List.getLast?_drop, if_neg (by omega)]
        exact fun _ => hds.last
      · rw [List.length_take]
        omega

theorem point_reads (negative : Bool) (hds : Significant ds) (hne : ds ≠ []) (hnear : -4 ≤ p ∧ p < 16) :
    ((splitExponent ((if negative then ['-'] else []) ++ renderDigits ds p)).2,
      scientific (splitExponent ((if negative then ['-'] else []) ++ renderDigits ds p)).1 0) =
      (['0'], ⟨negative, ds, p⟩) := by
  obtain ⟨whole, fraction, a, b, htext, hwhole, hw, hf, -, -, hall, hp⟩ := renderDigits_point hds hne hnear
  rw [htext]
  exact positional_reads negative whole fraction (.inr rfl) hw hf hwhole hds hne hall hp rfl

end Rendered

/-- A rendered number is read back to its exponent and its digits, so that the
spelling of Python keeps what the spelling of Rust said. -/
theorem renderFloat_reads {s : Scientific} (h : Normal s) :
    ((splitExponent (renderFloat s)).2, scientific (splitExponent (renderFloat s)).1 0) = partsOf s := by
  obtain ⟨negative, ds, p⟩ := s
  by_cases hnil : ds = []
  · subst hnil
    have hp : p = 0 := h.zero rfl
    subst hp
    cases negative <;> decide
  · rw [renderFloat, if_neg hnil, partsOf]
    by_cases hwide : ¬(-4 ≤ p ∧ p < 16)
    · exact (exponent_reads negative h.significant hnil hwide).trans (if_pos ⟨hnil, hwide⟩).symm
    · have hnear := not_not.mp hwide
      exact (point_reads negative h.significant hnil hnear).trans (if_neg fun hc => hc.2 hnear).symm

/-- Rendered numbers are told apart. -/
theorem renderFloat_inj {s t : Scientific} (hs : Normal s) (ht : Normal t) (h : renderFloat s = renderFloat t) :
    s = t := by
  have hparts : partsOf s = partsOf t := by rw [← renderFloat_reads hs, h, renderFloat_reads ht]
  have hpower : ∀ p, powerText p ≠ ['0'] := by
    intro p he
    have hhead := (List.cons.inj he).1
    split at hhead
    · exact absurd hhead (by decide)
    · exact absurd hhead (by decide)
  obtain ⟨ns, ds, ps⟩ := s
  obtain ⟨nt, dt, pt⟩ := t
  unfold partsOf at hparts
  split at hparts <;> split at hparts
  · simp only [Prod.mk.injEq, Scientific.mk.injEq] at hparts
    obtain ⟨hp, rfl, rfl, -⟩ := hparts
    rw [powerText_inj hp]
  · exact absurd (congrArg Prod.fst hparts) (hpower _)
  · exact absurd (congrArg Prod.fst hparts).symm (hpower _)
  · exact congrArg Prod.snd hparts

theorem dropWhile_head {l : List Char} : (l.dropWhile (· = '0')).head? ≠ some '0' := by
  intro h
  have := List.head?_dropWhile_not (· = '0') l
  rw [h] at this
  exact absurd this (by decide)

theorem drop_zeros (digits : List Char) :
    digits.drop (digits.takeWhile (· = '0')).length = digits.dropWhile (· = '0') := by
  have hleft := @List.drop_left _ (digits.takeWhile (· = '0')) (digits.dropWhile (· = '0'))
  rwa [List.takeWhile_append_dropWhile] at hleft

/-- Not all digits are zeros. -/
theorem digits_start {digits : List Char} (h : (digits.takeWhile (· = '0')).length ≠ digits.length) :
    ∃ c t, digits.dropWhile (· = '0') = c :: t ∧ c ≠ '0' := by
  have hne : digits.dropWhile (· = '0') ≠ [] := by
    intro hnil
    have hall := List.takeWhile_append_dropWhile (p := fun c => decide (c = '0')) (l := digits)
    rw [hnil, List.append_nil] at hall
    exact h (by rw [hall])
  obtain ⟨c, t, hct⟩ := List.exists_cons_of_ne_nil hne
  refine ⟨c, t, hct, fun he => dropWhile_head (l := digits) ?_⟩
  rw [hct, he]
  rfl

theorem trimmed_ne {digits : List Char} (h : (digits.takeWhile (· = '0')).length ≠ digits.length) :
    (digits.dropWhile (· = '0')).rdropWhile (· = '0') ≠ [] := by
  obtain ⟨c, t, hct, hc⟩ := digits_start h
  intro hnil
  rw [List.rdropWhile_eq_nil_iff] at hnil
  have := hnil c (by simp [hct])
  exact hc (by simpa using this)

/-- What is read off a mantissa of digits and a point is in normal form. -/
theorem scientific_normal {mantissa : List Char} (e : Int)
    (h : ∀ c ∈ mantissa.dropWhile (· = '-'), c.isDigit = true ∨ c = '.') : Normal (scientific mantissa e) := by
  unfold scientific
  dsimp only
  have hdigit : ∀ c ∈ (mantissa.dropWhile (· = '-')).filter (· ≠ '.'), c.isDigit = true := by
    intro c hc
    rw [List.mem_filter, decide_eq_true_eq] at hc
    exact (h c hc.1).resolve_right hc.2
  generalize (mantissa.dropWhile (· = '-')).filter (· ≠ '.') = digits at hdigit
  split
  · exact ⟨⟨nofun, nofun, nofun⟩, fun _ => rfl⟩
  · rename_i hzeros
    rw [drop_zeros]
    obtain ⟨c, t, hct, hc⟩ := digits_start hzeros
    have hkept := trimmed_ne hzeros
    have hstart : (digits.dropWhile (· = '0')).rdropWhile (· = '0') <+: digits.dropWhile (· = '0') :=
      List.rdropWhile_prefix _ _
    refine ⟨⟨fun d hd => ?_, fun hfirst => ?_, fun hlast => ?_⟩, fun hnil => absurd hnil hkept⟩
    · exact hdigit d ((List.dropWhile_suffix _).subset (hstart.subset hd))
    · obtain ⟨d, u, hdu⟩ := List.exists_cons_of_ne_nil hkept
      rw [hdu] at hfirst hstart
      rw [hct, List.cons_prefix_cons] at hstart
      have hd : d = '0' := by simpa using hfirst
      exact hc (hstart.1.symm.trans hd)
    · have hnot := List.rdropWhile_last_not (fun c => decide (c = '0')) _ hkept
      rw [List.getLast?_eq_some_getLast hkept, Option.some.injEq] at hlast
      exact hnot (by simpa using hlast)

/-! ## Numbers -/

def numberChar (c : Char) : Bool := c.isDigit || c == '+' || c == '-' || c == '.' || c == 'e'

theorem numberChar_digit {c : Char} (h : c.isDigit = true) : numberChar c = true := by simp [numberChar, h]

theorem toDigits_digit (n : Nat) : ∀ c ∈ Nat.toDigits 10 n, c.isDigit = true := fun _ hc =>
  Nat.isDigit_of_mem_toDigits (by decide) (by decide) hc

theorem powerText_chars (p : Int) : ∀ c ∈ powerText p, numberChar c = true := by
  intro c hc
  rw [powerText, List.mem_cons] at hc
  rcases hc with rfl | hc
  · split <;> decide
  · refine numberChar_digit ?_
    split at hc
    · rcases List.mem_cons.mp hc with rfl | hc
      · decide
      · exact toDigits_digit _ c hc
    · exact toDigits_digit _ c hc

/-- A rendered number has a point or an exponent. -/
theorem renderDigits_chars {ds : List Char} (p : Int) (hds : ∀ c ∈ ds, c.isDigit = true) :
    (∀ c ∈ renderDigits ds p, numberChar c = true) ∧ ('.' ∈ renderDigits ds p ∨ 'e' ∈ renderDigits ds p) := by
  have hds : ∀ c ∈ ds, numberChar c = true := fun c hc => numberChar_digit (hds c hc)
  have htake : ∀ n, ∀ c ∈ ds.take n, numberChar c = true := fun n c hc => hds c (List.mem_of_mem_take hc)
  have hdrop : ∀ n, ∀ c ∈ ds.drop n, numberChar c = true := fun n c hc => hds c (List.mem_of_mem_drop hc)
  have hzeros : ∀ n, ∀ c ∈ List.replicate n '0', numberChar c = true := fun n c hc =>
    numberChar_digit (replicate_digit n c hc)
  have hpoint : numberChar '.' = true ∧ numberChar 'e' = true ∧ numberChar '0' = true := by decide
  unfold renderDigits
  dsimp only
  split
  · refine ⟨?_, .inr (by simp)⟩
    simp only [List.forall_mem_append, List.forall_mem_cons]
    refine ⟨⟨htake 1, ?_⟩, hpoint.2.1, powerText_chars p⟩
    split
    · exact List.forall_mem_cons.mpr ⟨hpoint.1, hdrop 1⟩
    · exact List.forall_mem_nil _
  · split
    · refine ⟨?_, .inl (by simp)⟩
      simp only [List.forall_mem_append, List.forall_mem_cons]
      exact ⟨hpoint.2.2, hpoint.1, hzeros _, hds⟩
    · split
      · refine ⟨?_, .inl (by simp)⟩
        simp only [List.forall_mem_append, List.forall_mem_cons]
        exact ⟨⟨hds, hzeros _⟩, hpoint.1, hpoint.2.2, List.forall_mem_nil _⟩
      · refine ⟨?_, .inl (by simp)⟩
        simp only [List.forall_mem_append, List.forall_mem_cons]
        exact ⟨htake _, hpoint.1, hdrop _⟩

theorem renderDigits_head {ds : List Char} (p : Int) (hds : ∀ c ∈ ds, c.isDigit = true) (hne : ds ≠ []) :
    ∃ c t, renderDigits ds p = c :: t ∧ c.isDigit = true := by
  obtain ⟨c, t, rfl⟩ := List.exists_cons_of_ne_nil hne
  have hc := hds c (by simp)
  unfold renderDigits
  dsimp only
  split
  · exact ⟨c, _, rfl, hc⟩
  · split
    · exact ⟨'0', _, rfl, by decide⟩
    · split
      · exact ⟨c, _, rfl, hc⟩
      · rename_i hpos hlong
        obtain ⟨n, hn⟩ : ∃ n, (p + 1).toNat = n + 1 := ⟨(p + 1).toNat - 1, by omega⟩
        rw [hn]
        exact ⟨c, _, rfl, hc⟩

/-- The characters of a number's text, and its first one: a digit or a minus
sign, by which it is told from every other kind of value. -/
structure NumberLike (t : List Char) : Prop where
  chars : ∀ c ∈ t, numberChar c = true
  head : ∃ c r, t = c :: r ∧ (c.isDigit = true ∨ c = '-')

theorem renderFloat_like {s : Scientific} (h : Normal s) :
    NumberLike (renderFloat s) ∧ ('.' ∈ renderFloat s ∨ 'e' ∈ renderFloat s) := by
  obtain ⟨negative, ds, p⟩ := s
  unfold renderFloat
  dsimp only
  by_cases hnil : ds = []
  · rw [if_pos hnil]
    have hchars : ∀ c ∈ ['0', '.', '0'], numberChar c = true := List.all_eq_true.mp (by decide)
    cases negative
    · exact ⟨⟨hchars, '0', _, rfl, .inl (by decide)⟩, .inl (by simp)⟩
    · exact ⟨⟨List.forall_mem_cons.mpr ⟨by decide, hchars⟩, '-', _, rfl, .inr rfl⟩, .inl (by simp)⟩
  · rw [if_neg hnil]
    obtain ⟨hchars, hmark⟩ := renderDigits_chars p h.significant.digit
    obtain ⟨c, t, hct, hc⟩ := renderDigits_head p h.significant.digit hnil
    cases negative
    · exact ⟨⟨hchars, c, t, hct, .inl hc⟩, hmark⟩
    · refine ⟨⟨?_, '-', _, rfl, .inr rfl⟩, ?_⟩
      · exact List.forall_mem_cons.mpr ⟨by decide, hchars⟩
      · exact hmark.imp (List.mem_cons_of_mem _) (List.mem_cons_of_mem _)

theorem negInt_form {S : Serde} {i : Int64} {t : List Char} (h : numberKey S (.negInt i) = some t) :
    i.toInt < 0 ∧ t = '-' :: Nat.toDigits 10 i.toInt.natAbs := by
  rw [numberKey] at h
  split at h
  · rename_i hlt
    cases h
    exact ⟨hlt, rfl⟩
  · cases h

/-- The text of an integer has neither a point nor an exponent; that of a float
always has one of them. So the integer 1 and the float 1.0 have two texts. -/
theorem int_unmarked {S : Serde} {n : Number} {t : List Char} (h : numberKey S n = some t) (hn : n.isF64 = false) :
    ¬('.' ∈ t ∨ 'e' ∈ t) := by
  have hplain : ∀ k, ¬('.' ∈ Nat.toDigits 10 k ∨ 'e' ∈ Nat.toDigits 10 k) := by
    intro k hk
    rcases hk with hk | hk
    · exact absurd (toDigits_digit k _ hk) (by decide)
    · exact absurd (toDigits_digit k _ hk) (by decide)
  cases n with
  | posInt n =>
    cases h
    exact hplain _
  | negInt i =>
    obtain ⟨-, rfl⟩ := negInt_form h
    simpa using hplain _
  | float f => cases hn

section NumberKeys

variable {S : Serde} (hS : SerdeLaws S)

include hS

theorem float_form {f : F64} {t : List Char} (h : numberKey S (.float f) = some t) :
    f.isFinite = true ∧ ∃ s, normalForm (S.floatNumber f) = some s ∧ Normal s ∧ t = renderFloat s := by
  rw [numberKey] at h
  split at h
  · rename_i hf
    obtain ⟨s, hs, rfl⟩ := Option.map_eq_some_iff.mp h
    refine ⟨hf, s, hs, ?_, rfl⟩
    obtain ⟨e, -, rfl⟩ := Option.map_eq_some_iff.mp hs
    exact scientific_normal e (hS.mantissa f hf)
  · cases h

theorem numberKey_like {n : Number} {t : List Char} (h : numberKey S n = some t) : NumberLike t := by
  cases n with
  | posInt n =>
    cases h
    obtain ⟨c, r, hcr⟩ := List.exists_cons_of_ne_nil (Nat.toDigits_ne_nil (n := n.toNat) (b := 10))
    have hdigits := toDigits_digit n.toNat
    exact ⟨fun c hc => numberChar_digit (hdigits c hc), c, r, hcr, .inl (hdigits c (by simp [hcr]))⟩
  | negInt i =>
    rw [numberKey] at h
    split at h
    · cases h
      refine ⟨List.forall_mem_cons.mpr ⟨by decide, ?_⟩, '-', _, rfl, .inr rfl⟩
      exact fun c hc => numberChar_digit (toDigits_digit _ c hc)
    · cases h
  | float f =>
    obtain ⟨-, s, -, hs, rfl⟩ := float_form hS h
    exact (renderFloat_like hs).1

theorem float_mark {f : F64} {t : List Char} (h : numberKey S (.float f) = some t) : '.' ∈ t ∨ 'e' ∈ t := by
  obtain ⟨-, s, -, hs, rfl⟩ := float_form hS h
  exact (renderFloat_like hs).2

/-- Numbers with one text are equal, kinds included. For floats this rests on
the printer, which tells doubles apart. -/
theorem numberKey_inj {m n : Number} {t : List Char} (hm : numberKey S m = some t) (hn : numberKey S n = some t) :
    m = n := by
  have hminus : ∀ (k : Nat) (r : List Char), Nat.toDigits 10 k ≠ '-' :: r := fun k r he =>
    absurd (toDigits_digit k '-' (by simp [he])) (by decide)
  cases m with
  | posInt m =>
    cases n with
    | posInt n =>
      have hdigits := Option.some.inj (hm.trans hn.symm)
      rw [UInt64.toNat_inj.mp (toDigits_inj hdigits)]
    | negInt i =>
      obtain ⟨-, ht⟩ := negInt_form hn
      exact absurd ((Option.some.inj hm).trans ht) (hminus _ _)
    | float f => exact absurd (float_mark hS hn) (int_unmarked hm rfl)
  | negInt i =>
    obtain ⟨hi, ht⟩ := negInt_form hm
    cases n with
    | posInt n => exact absurd ((Option.some.inj hn).trans ht) (hminus _ _)
    | negInt j =>
      obtain ⟨hj, ht'⟩ := negInt_form hn
      have habs := toDigits_inj (List.cons.inj (ht.symm.trans ht')).2
      rw [Int64.toInt_inj.mp (by omega : i.toInt = j.toInt)]
    | float f => exact absurd (float_mark hS hn) (int_unmarked hm rfl)
  | float f =>
    cases n with
    | posInt n => exact absurd (float_mark hS hm) (int_unmarked hn rfl)
    | negInt j => exact absurd (float_mark hS hm) (int_unmarked hn rfl)
    | float g =>
      obtain ⟨hf, s, hs, hnormal, ht⟩ := float_form hS hm
      obtain ⟨hg, u, hu, hnormal', ht'⟩ := float_form hS hn
      obtain rfl := renderFloat_inj hnormal hnormal' (ht.symm.trans ht')
      rw [hS.decimal f g hf hg s hs hu]

end NumberKeys

/-! ## Values -/

/-- What may follow a value: nothing, or a character of no number. -/
def Ends (r : List Char) : Prop := ∀ c t, r = c :: t → numberChar c = false

theorem ends_cons {c : Char} {t : List Char} (h : numberChar c = false) : Ends (c :: t) := by
  intro d u he
  cases he
  exact h

theorem Ends.head {r : List Char} (h : Ends r) : ∀ c ∈ r.head?, numberChar c = false := by
  intro c hc
  cases r with
  | nil => cases hc
  | cons d t =>
    cases hc
    exact h c t rfl

theorem number_delim {a b r r' : List Char} (ha : ∀ c ∈ a, numberChar c = true) (hb : ∀ c ∈ b, numberChar c = true)
    (hr : Ends r) (hr' : Ends r') (he : a ++ r = b ++ r') : a = b ∧ r = r' :=
  Numeral.run_unique ha hb hr.head hr'.head he

inductive Kind where
  | null
  | yes
  | no
  | number
  | string
  | array
  | object
  deriving DecidableEq

def kindOf : Value → Kind
  | .null => .null
  | .bool true => .yes
  | .bool false => .no
  | .number _ => .number
  | .string _ => .string
  | .array _ => .array
  | .object _ => .object

/-- The kind of a value by the first character of its text. -/
def startOf (c : Char) : Option Kind :=
  if c.isDigit || c == '-' then some .number
  else [('n', Kind.null), ('t', .yes), ('f', .no), ('"', .string), ('[', .array), ('\x7b', .object)].lookup c

section Starts

variable {S : Serde} (hS : SerdeLaws S)

include hS

theorem valueKey_starts {v : Value} {t : List Char} (h : valueKey S v = some t) :
    ∃ c r, t = c :: r ∧ startOf c = some (kindOf v) := by
  cases v with
  | null =>
    rw [valueKey] at h
    cases h
    exact ⟨_, _, rfl, by decide⟩
  | bool b =>
    cases b <;> rw [valueKey] at h <;> cases h <;> exact ⟨_, _, rfl, by decide⟩
  | number n =>
    rw [valueKey] at h
    obtain ⟨c, r, hcr, hc⟩ := (numberKey_like hS h).head
    refine ⟨c, r, hcr, if_pos ?_⟩
    rwa [Bool.or_eq_true, beq_iff_eq]
  | string s =>
    rw [valueKey] at h
    cases h
    exact ⟨_, _, asciiString_eq hS s, (by decide : startOf '"' = some .string)⟩
  | array xs =>
    rw [valueKey] at h
    obtain ⟨ts, -, rfl⟩ := Option.map_eq_some_iff.mp h
    exact ⟨_, _, rfl, (by decide : startOf '[' = some .array)⟩
  | object m =>
    rw [valueKey] at h
    obtain ⟨ts, -, rfl⟩ := Option.map_eq_some_iff.mp h
    exact ⟨_, _, rfl, (by decide : startOf '\x7b' = some .object)⟩

/-- Texts that begin alike are of values of one kind. -/
theorem kindOf_eq {v w : Value} {a b r r' : List Char} (ha : valueKey S v = some a) (hb : valueKey S w = some b)
    (he : a ++ r = b ++ r') : kindOf v = kindOf w := by
  obtain ⟨c, t, rfl, hc⟩ := valueKey_starts hS ha
  obtain ⟨d, u, rfl, hd⟩ := valueKey_starts hS hb
  have hcd : c = d := (List.cons.inj he).1
  rw [hcd, hd] at hc
  exact (Option.some.inj hc).symm

end Starts

/-- A text can be told from what follows it. -/
def Delimited {α : Type} (f : α → Option (List Char)) (x : α) : Prop :=
  ∀ y a b r r', f x = some a → f y = some b → Ends r → Ends r' → a ++ r = b ++ r' → x = y ∧ r = r'

theorem joinTexts_cons (t : List Char) (ts : List (List Char)) (r : List Char) :
    joinTexts (t :: ts) ++ r = t ++ if ts = [] then r else ',' :: ' ' :: (joinTexts ts ++ r) := by
  cases ts with
  | nil => simp [joinTexts]
  | cons u us => simp [joinTexts]

/-- A closed list of texts has one reading: each item ends by itself, and what
follows it is a comma or the closing bracket. -/
theorem join_delim {α : Type} {f : α → Option (List Char)} {close : Char} (hclose : numberChar close = false)
    (hcomma : close ≠ ',') (hhead : ∀ x a, f x = some a → ∃ c t, a = c :: t ∧ c ≠ close) (xs : List α) :
    ∀ (ys : List α) (as bs : List (List Char)) (r r' : List Char), (∀ x ∈ xs, Delimited f x) → xs.mapM f = some as →
      ys.mapM f = some bs → joinTexts as ++ close :: r = joinTexts bs ++ close :: r' → xs = ys ∧ r = r' := by
  -- the closing character starts no text, so neither list can end first
  have hfirst : ∀ (y : α) (b : List Char) (bs : List (List Char)) (r r' : List Char), f y = some b →
      close :: r ≠ joinTexts (b :: bs) ++ close :: r' := by
    intro y b bs r r' hb he
    obtain ⟨c, t, rfl, hne⟩ := hhead y b hb
    rw [joinTexts_cons, List.cons_append, List.cons.injEq] at he
    exact hne he.1.symm
  have hends : ∀ (ts : List (List Char)) (r : List Char),
      Ends (if ts = [] then close :: r else ',' :: ' ' :: (joinTexts ts ++ close :: r)) := by
    intro ts r
    split
    · exact ends_cons hclose
    · exact ends_cons (by decide)
  induction xs with
  | nil =>
    intro ys as bs r r' _ ha hb he
    cases ha
    cases ys with
    | nil =>
      cases hb
      exact ⟨rfl, (List.cons.inj he).2⟩
    | cons y ys =>
      rw [List.mapM_cons, Option.bind_eq_bind, Option.bind_eq_some_iff] at hb
      obtain ⟨b, hfb, hb⟩ := hb
      obtain ⟨bs', -, hb⟩ := Option.bind_eq_some_iff.mp hb
      cases hb
      exact absurd he (hfirst y b bs' r r' hfb)
  | cons x xs ih =>
    intro ys as bs r r' hx ha hb he
    rw [List.forall_mem_cons] at hx
    rw [List.mapM_cons, Option.bind_eq_bind, Option.bind_eq_some_iff] at ha
    obtain ⟨a, hfa, ha⟩ := ha
    obtain ⟨as', has', ha⟩ := Option.bind_eq_some_iff.mp ha
    cases ha
    cases ys with
    | nil =>
      cases hb
      exact absurd he.symm (hfirst x a as' r' r hfa)
    | cons y ys =>
      rw [List.mapM_cons, Option.bind_eq_bind, Option.bind_eq_some_iff] at hb
      obtain ⟨b, hfb, hb⟩ := hb
      obtain ⟨bs', hbs', hb⟩ := Option.bind_eq_some_iff.mp hb
      cases hb
      rw [joinTexts_cons, joinTexts_cons] at he
      obtain ⟨rfl, hrest⟩ := hx.1 y a b _ _ hfa hfb (hends as' r) (hends bs' r') he
      by_cases has : as' = []
      · by_cases hbs : bs' = []
        · rw [has, hbs] at hrest
          simp only [if_true] at hrest
          have hempty : ∀ l : List α, l.mapM f = some [] → l = [] := by
            intro l hl
            cases l with
            | nil => rfl
            | cons z l =>
              rw [List.mapM_cons, Option.bind_eq_bind, Option.bind_eq_some_iff] at hl
              obtain ⟨c, -, hl⟩ := hl
              obtain ⟨cs, -, hl⟩ := Option.bind_eq_some_iff.mp hl
              cases hl
          rw [hempty xs (has ▸ has'), hempty ys (hbs ▸ hbs')]
          exact ⟨rfl, (List.cons.inj hrest).2⟩
        · rw [if_pos has, if_neg hbs] at hrest
          exact absurd (List.cons.inj hrest).1 hcomma
      · by_cases hbs : bs' = []
        · rw [if_neg has, if_pos hbs] at hrest
          exact absurd (List.cons.inj hrest).1.symm hcomma
        · rw [if_neg has, if_neg hbs] at hrest
          obtain ⟨rfl, hr⟩ := ih ys as' bs' r r' hx.2 has' hbs' (by simpa using hrest)
          exact ⟨rfl, hr⟩

/-- A member of an object. -/
def memberKey (S : Serde) (e : String × Value) : Option (List Char) :=
  (valueKey S e.2).map fun t => asciiString S e.1 ++ ':' :: ' ' :: t

theorem itemKeys_eq (S : Serde) (xs : List Value) : itemKeys S xs = xs.mapM (valueKey S) := by
  induction xs with
  | nil => rw [itemKeys]; rfl
  | cons x xs ih => rw [itemKeys, List.mapM_cons, ih]

theorem memberKeys_eq (S : Serde) (m : List (String × Value)) : memberKeys S m = m.mapM (memberKey S) := by
  induction m with
  | nil => rw [memberKeys]; rfl
  | cons e m ih =>
    obtain ⟨k, x⟩ := e
    rw [memberKeys, List.mapM_cons, ih, memberKey]
    cases valueKey S x with
    | none => rfl
    | some t => rfl

section Values

variable {S : Serde} (hS : SerdeLaws S)

include hS

theorem memberKey_delimited {e : String × Value} (h : Delimited (valueKey S) e.2) : Delimited (memberKey S) e := by
  intro d a b r r' ha hb hr hr' he
  obtain ⟨s, hs, rfl⟩ := Option.map_eq_some_iff.mp ha
  obtain ⟨t, ht, rfl⟩ := Option.map_eq_some_iff.mp hb
  rw [List.append_assoc, List.append_assoc] at he
  obtain ⟨hkey, hrest⟩ := asciiString_delim hS he
  simp only [List.cons_append, List.cons.injEq, true_and] at hrest
  obtain ⟨hvalue, hr⟩ := h d.2 s t r r' hs ht hr hr' hrest
  exact ⟨Prod.ext hkey hvalue, hr⟩

theorem items_delimited {xs ys : List Value} {a b r r' : List Char} (hx : ∀ x ∈ xs, Delimited (valueKey S) x)
    (ha : valueKey S (.array xs) = some a) (hb : valueKey S (.array ys) = some b) (he : a ++ r = b ++ r') :
    xs = ys ∧ r = r' := by
  rw [valueKey, itemKeys_eq] at ha hb
  obtain ⟨as, has, rfl⟩ := Option.map_eq_some_iff.mp ha
  obtain ⟨bs, hbs, rfl⟩ := Option.map_eq_some_iff.mp hb
  simp only [List.cons_append, List.append_assoc, List.nil_append, List.cons.injEq, true_and] at he
  refine join_delim (by decide) (by decide) ?_ xs ys as bs r r' hx has hbs he
  intro x t ht
  obtain ⟨c, u, rfl, hc⟩ := valueKey_starts hS ht
  refine ⟨c, u, rfl, ?_⟩
  intro he
  have hnone : startOf ']' = none := by decide
  rw [he, hnone] at hc
  cases hc

theorem members_delimited {m n : List (String × Value)} {a b r r' : List Char}
    (hm : ∀ e ∈ m, Delimited (valueKey S) e.2) (ha : valueKey S (.object m) = some a)
    (hb : valueKey S (.object n) = some b) (he : a ++ r = b ++ r') : m = n ∧ r = r' := by
  rw [valueKey, memberKeys_eq] at ha hb
  obtain ⟨as, has, rfl⟩ := Option.map_eq_some_iff.mp ha
  obtain ⟨bs, hbs, rfl⟩ := Option.map_eq_some_iff.mp hb
  simp only [List.cons_append, List.append_assoc, List.nil_append, List.cons.injEq, true_and] at he
  refine join_delim (by decide) (by decide) ?_ m n as bs r r' (fun e h => memberKey_delimited hS (hm e h)) has hbs he
  intro e t ht
  obtain ⟨u, -, rfl⟩ := Option.map_eq_some_iff.mp ht
  rw [asciiString_eq hS]
  exact ⟨'"', _, rfl, by decide⟩

/-- The text of a value can be told from what follows it. By induction on the
value; the kinds are told by their first characters. -/
theorem valueKey_delimited (v : Value) : Delimited (valueKey S) v := by
  intro w a b r r' ha hb hr hr' he
  have hkind := kindOf_eq hS ha hb he
  match v with
  | .null =>
    cases w with
    | null =>
      cases ha.symm.trans hb
      exact ⟨rfl, List.append_cancel_left he⟩
    | bool c => cases c <;> cases hkind
    | _ => cases hkind
  | .bool d =>
    cases w with
    | bool c =>
      have hdc : d = c := by cases d <;> cases c <;> first | rfl | cases hkind
      subst hdc
      cases ha.symm.trans hb
      exact ⟨rfl, List.append_cancel_left he⟩
    | _ => cases d <;> cases hkind
  | .number m =>
    cases w with
    | number n =>
      rw [valueKey] at ha hb
      obtain ⟨rfl, hrest⟩ := number_delim (numberKey_like hS ha).chars (numberKey_like hS hb).chars hr hr' he
      exact ⟨by rw [numberKey_inj hS ha hb], hrest⟩
    | bool c => cases c <;> cases hkind
    | _ => cases hkind
  | .string s =>
    cases w with
    | string t =>
      rw [valueKey] at ha hb
      cases ha
      cases hb
      obtain ⟨rfl, hrest⟩ := asciiString_delim hS he
      exact ⟨rfl, hrest⟩
    | bool c => cases c <;> cases hkind
    | _ => cases hkind
  | .array xs =>
    cases w with
    | array ys =>
      have hitems : ∀ x ∈ xs, Delimited (valueKey S) x := fun x hx => valueKey_delimited x
      obtain ⟨rfl, hrest⟩ := items_delimited hS hitems ha hb he
      exact ⟨rfl, hrest⟩
    | bool c => cases c <;> cases hkind
    | _ => cases hkind
  | .object m =>
    cases w with
    | object n =>
      have hmembers : ∀ e ∈ m, Delimited (valueKey S) e.2 := fun e he => valueKey_delimited e.2
      obtain ⟨rfl, hrest⟩ := members_delimited hS hmembers ha hb he
      exact ⟨rfl, hrest⟩
    | bool c => cases c <;> cases hkind
    | _ => cases hkind
termination_by sizeOf v
decreasing_by
  · have := List.sizeOf_lt_of_mem hx
    simp only [Value.array.sizeOf_spec]
    omega
  · have := List.sizeOf_lt_of_mem he
    obtain ⟨k, x⟩ := e
    simp only [Value.object.sizeOf_spec]
    simp only [Prod.mk.sizeOf_spec] at this ⊢
    omega

/-- **Texts are exact.** Values with one text are equal, types included. -/
theorem valueKey_inj {v w : Value} {t : List Char} (hv : valueKey S v = some t) (hw : valueKey S w = some t) : v = w :=
  (valueKey_delimited hS v w t t [] [] hv hw nofun nofun rfl).1

end Values

end SwarrmVerify.L4.Dispute

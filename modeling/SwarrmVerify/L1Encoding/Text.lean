import SwarrmVerify.L1Encoding.Json

/-!
# Hex, timestamps and the text profiles of receipts

The byte-level text checks of `lib.rs` and the one hex decoder of `scitt.rs`.
They are written on bytes as in the source, with the ranges of characters that
the source tests, so that a text of other characters is refused by its first
byte that is out of range.

* `hexToBytes_hex`: bytes written in hex are read back. The decoder accepts
  capital digits as well, so that the converse does not hold.
* `hex_inj`: equal hex digests are equal digests, since they are read back as
  the same bytes.
-/
namespace SwarrmVerify

/-! ## Hex -/

/-- A hexadecimal digit in either case. mirrors verify-rs/src/scitt.rs:55-62 -/
def hexNibble (b : UInt8) : Option UInt8 :=
  if 48 ≤ b && b ≤ 57 then some (b - 48)
  else if 97 ≤ b && b ≤ 102 then some (b - 97 + 10)
  else if 65 ≤ b && b ≤ 70 then some (b - 65 + 10)
  else none

def hexPairs : Bytes → Option Bytes
  | [] => some []
  | [_] => none
  | a :: b :: rest => do
    let x ← hexNibble a
    let y ← hexNibble b
    let out ← hexPairs rest
    return (x <<< 4 ||| y) :: out

/-- Bytes from their digits, two for each.
mirrors verify-rs/src/scitt.rs:69-81 -/
def hexToBytes (s : String) : Option Bytes := hexPairs (utf8 s)

def hexDigit (n : Nat) : Char := if n < 10 then Char.ofNat (48 + n) else Char.ofNat (87 + n)

theorem hexDigit_inj : ∀ m < 16, ∀ n < 16, hexDigit m = hexDigit n → m = n := by decide

/-- The byte of a digit. -/
def hexCode (n : Nat) : UInt8 := UInt8.ofNat (hexDigit n).toNat

theorem hexCode_lt : ∀ n < 16, hexCode n < 128 := by decide

theorem hexNibble_hexCode : ∀ n < 16, hexNibble (hexCode n) = some (UInt8.ofNat n) := by decide

/-- The bytes of the digits, the high digit of each byte first. -/
def hexCodes (b : Bytes) : Bytes := b.flatMap fun x => [hexCode (x.toNat / 16), hexCode (x.toNat % 16)]

theorem hexCodes_ascii (b : Bytes) : ∀ c ∈ hexCodes b, c < 128 := by
  intro c hc
  obtain ⟨x, -, hx⟩ := List.mem_flatMap.mp hc
  have hlt := x.toNat_lt
  simp only [List.mem_cons, List.not_mem_nil, or_false] at hx
  rcases hx with rfl | rfl
  · exact hexCode_lt _ (by omega)
  · exact hexCode_lt _ (by omega)

/-- Bytes as digits in lower case. mirrors verify-rs/src/lib.rs:582-584 -/
def hex (b : Bytes) : String := Octets.ascii (hexCodes b) (hexCodes_ascii b)

theorem nibbles : ∀ n < 256, UInt8.ofNat (n / 16) <<< 4 ||| UInt8.ofNat (n % 16) = UInt8.ofNat n := by
  decide +kernel

theorem hexPairs_hexCodes (b : Bytes) : hexPairs (hexCodes b) = some b := by
  induction b with
  | nil => rfl
  | cons x b ih =>
    have hx := x.toNat_lt
    have hbyte := nibbles x.toNat hx
    rw [UInt8.ofNat_toNat] at hbyte
    rw [hexCodes, List.flatMap_cons, List.cons_append, List.cons_append, List.nil_append, hexPairs,
      hexNibble_hexCode _ (by omega), hexNibble_hexCode _ (by omega)]
    change (do let out ← hexPairs (hexCodes b); pure _) = _
    rw [ih]
    simp only [Option.bind_eq_bind, Option.bind_some, Option.pure_def, hbyte]

/-- Bytes written in hex are read back. -/
theorem hexToBytes_hex (b : Bytes) : hexToBytes (hex b) = some b := hexPairs_hexCodes b

theorem hex_inj {a b : Bytes} (h : hex a = hex b) : a = b := by
  have hread := hexToBytes_hex a
  rw [h, hexToBytes_hex, Option.some.injEq] at hread
  exact hread.symm

/-! ## Text profiles -/

def asciiDigit (b : UInt8) : Bool := 48 ≤ b && b ≤ 57

def asciiLower (b : UInt8) : Bool := 97 ≤ b && b ≤ 122

def asciiAlphanumeric (b : UInt8) : Bool := asciiDigit b || asciiLower b || (65 ≤ b && b ≤ 90)

/-- An action type of two parts at least, in lower case and digits.
mirrors verify-rs/src/lib.rs:210-213 -/
def namespacedAction (value : String) : Bool :=
  let parts := (utf8 value).splitOnP fun b => b == 46 || b == 95 || b == 45
  decide (1 < parts.length) &&
    parts.all fun part => !part.isEmpty && part.all fun b => asciiLower b || asciiDigit b

/-- The digits of a hash in lower case. mirrors verify-rs/src/lib.rs:215-217 -/
def lowerSha256 (value : String) : Bool :=
  (utf8 value).length == 64 && (utf8 value).all fun b => asciiDigit b || (97 ≤ b && b ≤ 102)

/-- A text of visible ASCII characters. mirrors verify-rs/src/lib.rs:219-221 -/
def safeIdentityText (value : String) : Bool :=
  !(utf8 value).isEmpty && (utf8 value).all fun b => 33 ≤ b && b ≤ 126

/-- A text without control characters. mirrors verify-rs/src/lib.rs:223-225 -/
def disclosureText (value : String) : Bool :=
  !(utf8 value).isEmpty &&
    value.toList.all fun c => !(c.toNat ≤ 0x1f || (0x7f ≤ c.toNat && c.toNat ≤ 0x9f))

/-- The last part of an origin, which names the tenant.
mirrors verify-rs/src/lib.rs:252-254 -/
def tenantFromOrigin (origin : String) : Option String :=
  if safeIdentityText origin then
    (((origin.toList.splitOnP (· == '/')).getLast?).map String.ofList).filter fun t => t != ""
  else none

/-! ## Timestamps -/

/-- A number in decimal digits; without a digit it is zero.
mirrors verify-rs/src/lib.rs:256-258 -/
def decimal (b : Bytes) : Option Nat :=
  b.foldlM (fun n c => if asciiDigit c then some (n * 10 + (c.toNat - 48)) else none) 0

/-- `b[a..z]`. -/
def slice (b : Bytes) (a z : Nat) : Bytes := (b.take z).drop a

/-- Days of each month, January first. -/
def monthDays (leap : Bool) : List Nat :=
  [31, if leap then 29 else 28, 31, 30, 31, 30, 31, 31, 30, 31, 30, 31]

/-- mirrors verify-rs/src/lib.rs:260-269
The length test comes first, so every index below is in range. -/
def canonicalUtc (s : String) : Bool :=
  let b := utf8 s
  let n := b.length
  if !(n == 20 || (22 ≤ n && n ≤ 27)) || b.getD 4 0 != 45 || b.getD 7 0 != 45 || b.getD 10 0 != 84 ||
      b.getD 13 0 != 58 || b.getD 16 0 != 58 || b.getD (n - 1) 0 != 90 ||
      (20 < n && (b.getD 19 0 != 46 || (decimal (slice b 20 (n - 1))).isNone)) then false
  else
    match decimal (slice b 0 4), decimal (slice b 5 7), decimal (slice b 8 10),
        decimal (slice b 11 13), decimal (slice b 14 16), decimal (slice b 17 19) with
    | some y, some m, some d, some h, some mi, some sec =>
      let leap := y % 4 == 0 && (y % 100 != 0 || y % 400 == 0)
      decide (0 < y) && (1 ≤ m && m ≤ 12) && decide (0 < d) && d ≤ (monthDays leap).getD (m - 1) 0 &&
        h < 24 && mi < 60 && sec < 60
    | _, _, _, _, _, _ => false

/-- Microseconds since the Unix epoch, by days-from-civil arithmetic.
mirrors verify-rs/src/lib.rs:278-295 -/
def utcEpochMicros (ts : String) : Option Int :=
  if !canonicalUtc ts then none
  else do
    let b := utf8 ts
    let num a z := (decimal (slice b a z)).map Int.ofNat
    let y ← num 0 4
    let m ← num 5 7
    let d ← num 8 10
    let h ← num 11 13
    let mi ← num 14 16
    let s ← num 17 19
    -- the fraction is padded on the right to six digits
    let frac := slice b 20 (b.length - 1)
    let micros ← if 20 < b.length then
        (decimal (frac ++ List.replicate (6 - frac.length) 48)).map Int.ofNat
      else some 0
    let years := if m ≤ 2 then y - 1 else y
    let era := years / 400
    let yoe := years - era * 400
    let doy := (153 * (if m > 2 then m - 3 else m + 9) + 2) / 5 + d - 1
    let doe := yoe * 365 + yoe / 4 - yoe / 100 + doy
    let days := era * 146097 + doe - 719468
    return (days * 86400 + h * 3600 + mi * 60 + s) * 1000000 + micros

example : utcEpochMicros "1970-01-02T00:00:01.5Z" = some 86401500000 := rfl

end SwarrmVerify

import Mathlib.Tactic
import SwarrmVerify.Core.Octets

/-!
# Base64

The standard alphabet with padding and the URL-safe one without, on byte lists.
The decoder is strict: it accepts the one canonical encoding of a byte string
and nothing else, so trailing bits have to be zero and padding has to be
complete. Both are defined on the groups of six bits that a text spells; the
decoder encodes what it has read and compares.

* `sextet_char`: the alphabet is read back, character by character.
* `takeWhile_encode`: the padding starts where the reader stops.
* `decode_encode`: the encoding of a byte string decodes to it.
* `encode_ascii`: an encoding is ASCII.
-/
namespace Base64

inductive Alphabet where
  | standard
  | urlSafe
  deriving DecidableEq

/-- The character of a sextet. -/
def char (A : Alphabet) (n : Nat) : UInt8 :=
  if n < 26 then UInt8.ofNat (65 + n)
  else if n < 52 then UInt8.ofNat (71 + n)
  else if n < 62 then UInt8.ofNat (n - 4)
  else match A with
    | .standard => if n = 62 then 43 else 47
    | .urlSafe => if n = 62 then 45 else 95

/-- The sextet of a character; other bytes read as anything. -/
def sextet (A : Alphabet) (c : UInt8) : Nat :=
  let n := c.toNat
  if 97 ≤ n then n - 71
  else if 65 ≤ n ∧ n ≤ 90 then n - 65
  else if 48 ≤ n ∧ n ≤ 57 then n + 4
  else match A with
    | .standard => if n = 43 then 62 else 63
    | .urlSafe => if n = 45 then 62 else 63

theorem sextet_char (A : Alphabet) : ∀ n < 64, sextet A (char A n) = n := by
  cases A <;> decide

/-- A character is ASCII and is not the padding character. -/
theorem char_range (A : Alphabet) : ∀ n < 64, char A n < 128 ∧ char A n ≠ 61 := by
  cases A <;> decide

/-- The encoding without padding. -/
def body (A : Alphabet) : List UInt8 → List UInt8
  | [] => []
  | [a] => [char A (a.toNat / 4), char A (a.toNat % 4 * 16)]
  | [a, b] => [char A (a.toNat / 4), char A (a.toNat % 4 * 16 + b.toNat / 16), char A (b.toNat % 16 * 4)]
  | a :: b :: c :: rest =>
    char A (a.toNat / 4) :: char A (a.toNat % 4 * 16 + b.toNat / 16) ::
      char A (b.toNat % 16 * 4 + c.toNat / 64) :: char A (c.toNat % 64) :: body A rest

def padding : Alphabet → Nat → List UInt8
  | .standard, n => List.replicate ((3 - n % 3) % 3) 61
  | .urlSafe, _ => []

def encode (A : Alphabet) (b : List UInt8) : List UInt8 := body A b ++ padding A b.length

/-- The bytes of a text without padding. -/
def unbody (A : Alphabet) : List UInt8 → List UInt8
  | [p, q] => [UInt8.ofNat (sextet A p * 4 + sextet A q / 16)]
  | [p, q, r] =>
    [UInt8.ofNat (sextet A p * 4 + sextet A q / 16), UInt8.ofNat (sextet A q % 16 * 16 + sextet A r / 4)]
  | p :: q :: r :: s :: rest =>
    UInt8.ofNat (sextet A p * 4 + sextet A q / 16) :: UInt8.ofNat (sextet A q % 16 * 16 + sextet A r / 4) ::
      UInt8.ofNat (sextet A r % 4 * 64 + sextet A s) :: unbody A rest
  | _ => []

/-- Only a canonical text is the encoding of what it decodes to. -/
def decode (A : Alphabet) (text : List UInt8) : Option (List UInt8) :=
  let b := unbody A (text.takeWhile (· != 61))
  if encode A b = text then some b else none

theorem ofNat_toNat {n : Nat} {a : UInt8} (h : n = a.toNat) : UInt8.ofNat n = a := by
  rw [h, UInt8.ofNat_toNat]

theorem unbody_body (A : Alphabet) (b : List UInt8) : unbody A (body A b) = b := by
  fun_induction body A b with
  | case1 => rfl
  | case2 a =>
    have ha := a.toNat_lt
    simp only [unbody, sextet_char A (a.toNat / 4) (by omega), sextet_char A (a.toNat % 4 * 16) (by omega)]
    rw [ofNat_toNat (a := a) (by omega)]
  | case3 a b =>
    have ha := a.toNat_lt
    have hb := b.toNat_lt
    simp only [unbody, sextet_char A (a.toNat / 4) (by omega),
      sextet_char A (a.toNat % 4 * 16 + b.toNat / 16) (by omega), sextet_char A (b.toNat % 16 * 4) (by omega)]
    rw [ofNat_toNat (a := a) (by omega), ofNat_toNat (a := b) (by omega)]
  | case4 a b c rest ih =>
    have ha := a.toNat_lt
    have hb := b.toNat_lt
    have hc := c.toNat_lt
    simp only [unbody, sextet_char A (a.toNat / 4) (by omega),
      sextet_char A (a.toNat % 4 * 16 + b.toNat / 16) (by omega),
      sextet_char A (b.toNat % 16 * 4 + c.toNat / 64) (by omega), sextet_char A (c.toNat % 64) (by omega), ih]
    rw [ofNat_toNat (a := a) (by omega), ofNat_toNat (a := b) (by omega), ofNat_toNat (a := c) (by omega)]

theorem body_range (A : Alphabet) (b : List UInt8) : ∀ c ∈ body A b, c < 128 ∧ c ≠ 61 := by
  fun_induction body A b with
  | case1 => simp
  | case2 a =>
    have ha := a.toNat_lt
    intro c hc
    simp only [List.mem_cons, List.not_mem_nil, or_false] at hc
    rcases hc with rfl | rfl <;> exact char_range A _ (by omega)
  | case3 a b =>
    have ha := a.toNat_lt
    have hb := b.toNat_lt
    intro c hc
    simp only [List.mem_cons, List.not_mem_nil, or_false] at hc
    rcases hc with rfl | rfl | rfl <;> exact char_range A _ (by omega)
  | case4 a b c rest ih =>
    have ha := a.toNat_lt
    have hb := b.toNat_lt
    have hc := c.toNat_lt
    intro x hx
    simp only [List.mem_cons] at hx
    rcases hx with rfl | rfl | rfl | rfl | hx
    · exact char_range A _ (by omega)
    · exact char_range A _ (by omega)
    · exact char_range A _ (by omega)
    · exact char_range A _ (by omega)
    · exact ih x hx

theorem padding_eq (A : Alphabet) (n : Nat) : ∀ c ∈ padding A n, c = 61 := by
  cases A with
  | standard => exact fun c hc => List.eq_of_mem_replicate hc
  | urlSafe => exact fun c hc => absurd hc List.not_mem_nil

/-- The padding starts where the reader stops. -/
theorem takeWhile_encode (A : Alphabet) (b : List UInt8) :
    (encode A b).takeWhile (· != 61) = body A b := by
  unfold encode
  rw [List.takeWhile_append_of_pos fun c hc => by simpa using (body_range A b c hc).2]
  cases hp : padding A b.length with
  | nil => simp
  | cons x xs =>
    have hx := padding_eq A b.length x (by simp [hp])
    simp [hx]

theorem decode_encode (A : Alphabet) (b : List UInt8) : decode A (encode A b) = some b := by
  simp [decode, takeWhile_encode, unbody_body]

theorem encode_ascii (A : Alphabet) (b : List UInt8) : ∀ c ∈ encode A b, c < 128 := by
  intro c hc
  rcases List.mem_append.mp hc with hc | hc
  · exact (body_range A b c hc).1
  · rw [padding_eq A _ c hc]; decide

end Base64

import Mathlib.Tactic

/-!
# Octets

Byte strings as lists of bytes, and the text that they encode if they are
ASCII. Byte strings are compared by the numbers of their bytes: that is
equality (`same_iff`), and the kernel evaluates it several times faster than
the comparison of lists, as it compares numbers natively.

* `ascii`: the string of ASCII bytes. Building it is linear in its length,
  where building a string of characters is not.
* `toNat_lt_of_ascii`: a character whose bytes are ASCII is ASCII, since the
  first byte of a longer encoding is not.
-/
namespace Octets

/-! ## Equality -/

/-- The same bytes, by their numbers. -/
def same : List UInt8 → List UInt8 → Bool
  | [], [] => true
  | a :: as, b :: bs => Nat.beq a.toNat b.toNat && same as bs
  | _, _ => false

theorem same_iff {a b : List UInt8} : same a b = true ↔ a = b := by
  induction a generalizing b with
  | nil => cases b <;> simp [same]
  | cons x a ih =>
    cases b with
    | nil => simp [same]
    | cons y b => rw [same, Bool.and_eq_true, Nat.beq_eq, UInt8.toNat_inj, ih, List.cons.injEq]

/-- Declared later, it is found before the instance for lists. -/
instance bytesDecEq : DecidableEq (List UInt8) := fun _ _ => decidable_of_iff _ same_iff

/-! ## ASCII text -/

theorem utf8EncodeChar_ascii : ∀ n < 128, String.utf8EncodeChar (Char.ofNat n) = [UInt8.ofNat n] := by
  decide

theorem ascii_flatMap {l : List UInt8} (h : ∀ b ∈ l, b < 128) :
    (l.map fun b => Char.ofNat b.toNat).flatMap String.utf8EncodeChar = l := by
  induction l with
  | nil => rfl
  | cons b l ih =>
    rw [List.map_cons, List.flatMap_cons,
      utf8EncodeChar_ascii _ (UInt8.lt_iff_toNat_lt.mp (h b (by simp))), UInt8.ofNat_toNat,
      ih fun c hc => h c (List.mem_cons_of_mem _ hc)]
    rfl

/-- The string of ASCII bytes. -/
def ascii (l : List UInt8) (h : ∀ b ∈ l, b < 128) : String :=
  ⟨⟨⟨l⟩⟩, ⟨l.map fun b => Char.ofNat b.toNat, by
    rw [List.utf8Encode, ascii_flatMap h]
    exact ByteArray.ext (Array.toList_inj.mp List.toList_data_toByteArray.symm)⟩⟩

theorem mod_lt_of_ofNat_lt {n : Nat} (h : UInt8.ofNat n < 128) : n % 256 < 128 := by
  rw [UInt8.lt_iff_toNat_lt, UInt8.toNat_ofNat'] at h
  exact h

/-- A character whose bytes are ASCII is ASCII. -/
theorem toNat_lt_of_ascii {c : Char} (h : ∀ b ∈ String.utf8EncodeChar c, b < 128) : c.toNat < 128 := by
  by_contra hbig
  have hval : ¬ c.val.toNat < 128 := hbig
  have hrange := c.valid
  simp only [String.utf8EncodeChar] at h
  split at h
  · omega
  · split at h
    · have hhead := mod_lt_of_ofNat_lt (h _ List.mem_cons_self)
      omega
    · split at h
      · have hhead := mod_lt_of_ofNat_lt (h _ List.mem_cons_self)
        omega
      · have hhead := mod_lt_of_ofNat_lt (h _ List.mem_cons_self)
        omega

end Octets

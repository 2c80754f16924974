import Mathlib.Tactic
import SwarrmVerify.Core.Sha256

/-!
# CBOR data items

Values and the byte strings that are well-formed definite-length items of them,
without tags and floats. A head may have any width that holds its argument and
map members come in any order, so a value has many items; an item has one
value. Which of its items a deterministic writer chooses is not a matter of the
grammar.

The grammar is given twice, once with values (`Item`) and once without
(`Frame`). A scan that steps over strings and counts members sees frames, and
it cannot tell a text from bytes that are no UTF-8; what it is used for is to
bound depth and number before anything is decoded.

* `Head`, `Item`: the wire format, as relations.
* `items`, `height`: the number of data items and the nesting of a value; the
  order of members does not count (`itemsMembers_perm`).
* `flatten`: the keys and values of a map, one after the other, which is how a
  scan meets them.
* `Frame`: an item whatever its strings hold, with its nesting and size; every
  item is one (`Item.frame`).
* `beNat_inj`: numbers of one width are told apart by their bytes.
-/
namespace Cbor

/-- A data item's value; integers are those of majors 0 and 1. -/
inductive Value where
  | integer (i : Int)
  | bytes (b : List UInt8)
  | float (bits : UInt64)
  | text (s : String)
  | bool (b : Bool)
  | null
  | tag (t : UInt64) (v : Value)
  | array (xs : List Value)
  | map (m : List (Value × Value))

/-! ## Heads -/

/-- The initial byte: three bits of major type, five of additional
information. -/
def initial (major info : UInt8) : UInt8 := (major <<< 5) ||| info

theorem initial_split : ∀ m : Fin 8, ∀ i : Fin 32,
    initial (UInt8.ofNat m) (UInt8.ofNat i) >>> 5 = UInt8.ofNat m ∧
      initial (UInt8.ofNat m) (UInt8.ofNat i) &&& 0x1f = UInt8.ofNat i := by
  decide +kernel

theorem initial_join (b : UInt8) : initial (b >>> 5) (b &&& 0x1f) = b := by
  apply UInt8.toNat_inj.mp
  have hmask : b.toNat &&& 31 = b.toNat % 2 ^ 5 := Nat.and_two_pow_sub_one_eq_mod _ 5
  have hb := b.toNat_lt
  have hhigh : (b.toNat >>> 5) <<< 5 % 2 ^ 8 = 2 ^ 5 * (b.toNat / 2 ^ 5) := by
    rw [Nat.shiftLeft_eq, Nat.shiftRight_eq_div_pow]
    omega
  rw [initial, UInt8.toNat_or, UInt8.toNat_shiftLeft, UInt8.toNat_shiftRight, UInt8.toNat_and]
  simp only [UInt8.reduceToNat, Nat.reduceMod]
  rw [hmask, hhigh, ← Nat.two_pow_add_eq_or_of_lt (Nat.mod_lt _ (by decide)), Nat.div_add_mod]

/-- A number from its bytes, most significant first. -/
def beNat (b : List UInt8) : Nat := b.foldl (fun n x => n * 256 + x.toNat) 0

theorem beFold_bytesBE (k n acc : Nat) :
    (Sha256.bytesBE k n).foldl (fun n x => n * 256 + x.toNat) acc = acc * 256 ^ k + n % 256 ^ k := by
  induction k generalizing acc with
  | zero => simp [Sha256.bytesBE, Nat.mod_one]
  | succ k ih =>
    rw [Sha256.bytesBE, List.foldl_cons, ih, UInt8.toNat_ofNat', Nat.shiftRight_eq_div_pow, Nat.pow_mul,
      show 2 ^ 8 = 256 from rfl, Nat.pow_succ 256 k, Nat.mod_mul, Nat.add_mul, Nat.mul_assoc,
      Nat.mul_comm 256 (256 ^ k), Nat.mul_comm (n / 256 ^ k % 256)]
    omega

theorem beNat_bytesBE {k n : Nat} (h : n < 256 ^ k) : beNat (Sha256.bytesBE k n) = n := by
  rw [beNat, beFold_bytesBE, Nat.mod_eq_of_lt h]
  omega

theorem beNat_cons (x : UInt8) (b : List UInt8) : beNat (x :: b) = x.toNat * 256 ^ b.length + beNat b := by
  have hfold : ∀ (b : List UInt8) (n : Nat), b.foldl (fun n x => n * 256 + x.toNat) n = n * 256 ^ b.length + beNat b := by
    intro b
    induction b with
    | nil => intro n; simp [beNat]
    | cons y b ih =>
      intro n
      rw [beNat, List.foldl_cons, List.foldl_cons, ih, ih (0 * 256 + y.toNat), List.length_cons, pow_succ]
      ring
  rw [beNat, List.foldl_cons, hfold]
  simp

theorem beNat_lt (b : List UInt8) : beNat b < 256 ^ b.length := by
  induction b with
  | nil => simp [beNat]
  | cons x b ih =>
    have hx : x.toNat + 1 ≤ 256 := x.toNat_lt
    have := Nat.mul_le_mul_right (256 ^ b.length) hx
    rw [add_mul, one_mul] at this
    rw [beNat_cons, List.length_cons, pow_succ, mul_comm (256 ^ b.length)]
    omega

/-- Numbers of one width are told apart by their bytes. -/
theorem beNat_inj {a b : List UInt8} (hlength : a.length = b.length) (h : beNat a = beNat b) : a = b := by
  induction a generalizing b with
  | nil => exact (List.length_eq_zero_iff.mp hlength.symm).symm
  | cons x a ih =>
    cases b with
    | nil => cases hlength
    | cons y b =>
      simp only [List.length_cons, Nat.add_right_cancel_iff] at hlength
      have ha := beNat_lt a
      have hb := beNat_lt b
      have hpos : 0 < 256 ^ b.length := by positivity
      rw [hlength] at ha
      rw [beNat_cons, beNat_cons, hlength] at h
      have hxy : x.toNat = y.toNat := by
        have hquot := congrArg (· / 256 ^ b.length) h
        simpa [Nat.mul_add_div, mul_comm, hpos, Nat.div_eq_of_lt ha, Nat.div_eq_of_lt hb] using hquot
      rw [UInt8.toNat_inj.mp hxy, ih hlength (by rw [hxy] at h; omega)]

theorem bytesBE_beNat (b : List UInt8) : Sha256.bytesBE b.length (beNat b) = b :=
  beNat_inj (Sha256.bytesBE_length _ _) (beNat_bytesBE (beNat_lt b))

/-- The heads of a major type and argument: in the initial byte, or behind it
in one, two, four or eight bytes. -/
inductive Head (major : UInt8) : Nat → List UInt8 → Prop where
  | short {n : Nat} (h : n < 24) : Head major n [initial major (UInt8.ofNat n)]
  | long {n : Nat} (w : Nat) (hw : w < 4) (h : n < 256 ^ 2 ^ w) :
      Head major n (initial major (UInt8.ofNat (24 + w)) :: Sha256.bytesBE (2 ^ w) n)

theorem Head.length_pos {major : UInt8} {n : Nat} {hd : List UInt8} (h : Head major n hd) : 0 < hd.length := by
  cases h <;> simp

/-! ## Items -/

/-- The bytes of a text string. -/
def textBytes (s : String) : List UInt8 := s.toByteArray.data.toList

mutual
/-- The well-formed definite-length items of a value. -/
inductive Item : Value → List UInt8 → Prop where
  | null : Item .null [0xf6]
  | bool (b : Bool) : Item (.bool b) [if b then 0xf5 else 0xf4]
  | uint {n : Nat} {hd : List UInt8} (h : Head 0 n hd) : Item (.integer n) hd
  | nint {n : Nat} {hd : List UInt8} (h : Head 1 n hd) : Item (.integer (-1 - n)) hd
  | bytes {b hd : List UInt8} (h : Head 2 b.length hd) : Item (.bytes b) (hd ++ b)
  | text {s : String} {hd : List UInt8} (h : Head 3 (textBytes s).length hd) : Item (.text s) (hd ++ textBytes s)
  | array {xs : List Value} {hd body : List UInt8} (h : Head 4 xs.length hd) (hs : Items xs body) :
      Item (.array xs) (hd ++ body)
  | map {m : List (Value × Value)} {hd body : List UInt8} (h : Head 5 m.length hd) (hs : Members m body) :
      Item (.map m) (hd ++ body)
/-- Items one after the other. -/
inductive Items : List Value → List UInt8 → Prop where
  | nil : Items [] []
  | cons {x : Value} {xs : List Value} {b bs : List UInt8} (h : Item x b) (hs : Items xs bs) :
      Items (x :: xs) (b ++ bs)
/-- Keys and values one after the other. -/
inductive Members : List (Value × Value) → List UInt8 → Prop where
  | nil : Members [] []
  | cons {k x : Value} {m : List (Value × Value)} {kb b bs : List UInt8} (hk : Item k kb) (h : Item x b)
      (hs : Members m bs) : Members ((k, x) :: m) (kb ++ (b ++ bs))
end

theorem Item.length_pos {v : Value} {b : List UInt8} (h : Item v b) : 0 < b.length := by
  cases h with
  | null => simp
  | bool b => simp
  | uint h => exact h.length_pos
  | nint h => exact h.length_pos
  | bytes h => have := h.length_pos; simp; omega
  | text h => have := h.length_pos; simp; omega
  | array h => have := h.length_pos; simp; omega
  | map h => have := h.length_pos; simp; omega

/-- Every element has at least one byte. -/
theorem Items.length_le {xs : List Value} : ∀ {b : List UInt8}, Items xs b → xs.length ≤ b.length := by
  induction xs with
  | nil => intro b _; exact Nat.zero_le _
  | cons x xs ih =>
    intro b h
    cases h with
    | cons h hs =>
      have := h.length_pos
      have := ih hs
      simp only [List.length_cons, List.length_append]
      omega

/-- Every key and every value has at least one byte. -/
theorem Members.length_le {m : List (Value × Value)} :
    ∀ {b : List UInt8}, Members m b → 2 * m.length ≤ b.length := by
  induction m with
  | nil => intro b _; exact Nat.zero_le _
  | cons p m ih =>
    intro b h
    cases h with
    | cons hk h hs =>
      have := hk.length_pos
      have := h.length_pos
      have := ih hs
      simp only [List.length_cons, List.length_append]
      omega

/-! ## Measures -/

mutual
/-- The data items of a value, itself included. -/
def items : Value → Nat
  | .array xs => 1 + itemsList xs
  | .map m => 1 + itemsMembers m
  | .tag _ v => 1 + items v
  | _ => 1
def itemsList : List Value → Nat
  | [] => 0
  | x :: xs => items x + itemsList xs
def itemsMembers : List (Value × Value) → Nat
  | [] => 0
  | (k, x) :: m => items k + items x + itemsMembers m
end

mutual
/-- How deep containers with members are nested. -/
def height : Value → Nat
  | .array [] => 0
  | .array (x :: xs) => 1 + max (height x) (heightList xs)
  | .map [] => 0
  | .map ((k, x) :: m) => 1 + max (max (height k) (height x)) (heightMembers m)
  | .tag _ v => height v
  | _ => 0
def heightList : List Value → Nat
  | [] => 0
  | x :: xs => max (height x) (heightList xs)
def heightMembers : List (Value × Value) → Nat
  | [] => 0
  | (k, x) :: m => max (max (height k) (height x)) (heightMembers m)
end

/-! ## Members as a sequence -/

/-- Keys and values in one list. -/
def flatten (m : List (Value × Value)) : List Value := m.flatMap fun q => [q.1, q.2]

theorem heightList_flatten (m : List (Value × Value)) : heightList (flatten m) = heightMembers m := by
  induction m with
  | nil => rfl
  | cons q m ih =>
    show heightList (q.1 :: q.2 :: flatten m) = _
    simp only [heightList, heightMembers, ih, Nat.max_assoc]

theorem height_array (xs : List Value) (h : xs ≠ []) : height (.array xs) = 1 + heightList xs := by
  cases xs with
  | nil => exact absurd rfl h
  | cons x xs => rfl

theorem height_map (m : List (Value × Value)) (h : m ≠ []) : height (.map m) = 1 + heightMembers m := by
  cases m with
  | nil => exact absurd rfl h
  | cons q m => rfl

theorem mem_flatten {m : List (Value × Value)} {x : Value} (h : x ∈ flatten m) :
    ∃ q ∈ m, x = q.1 ∨ x = q.2 := by
  simpa [flatten] using h

theorem heightList_le {xs : List Value} {n : Int} (h0 : 0 ≤ n) (h : ∀ x ∈ xs, (height x : Int) ≤ n) :
    (heightList xs : Int) ≤ n := by
  induction xs with
  | nil => exact h0
  | cons x xs ih =>
    have h1 := h x (by simp)
    have h2 := ih fun y hy => h y (List.mem_cons_of_mem _ hy)
    simp only [heightList, Nat.cast_max]
    exact max_le h1 h2

theorem heightMembers_le {m : List (Value × Value)} {n : Int} (h0 : 0 ≤ n)
    (h : ∀ q ∈ m, (height q.1 : Int) ≤ n ∧ (height q.2 : Int) ≤ n) : (heightMembers m : Int) ≤ n := by
  rw [← heightList_flatten]
  refine heightList_le h0 fun x hx => ?_
  obtain ⟨q, hq, rfl | rfl⟩ := mem_flatten hx
  · exact (h q hq).1
  · exact (h q hq).2

mutual
/-- One item, with the depth to which containers with members are nested in it
and the number of items it comprises. -/
inductive Frame : Nat → Nat → List UInt8 → Prop where
  | simple {b : UInt8} (h : b = 0xf4 ∨ b = 0xf5 ∨ b = 0xf6) : Frame 0 1 [b]
  | int {m : UInt8} {n : Nat} {hd : List UInt8} (hm : m = 0 ∨ m = 1) (h : Head m n hd) : Frame 0 1 hd
  | string {m : UInt8} {s hd : List UInt8} (hm : m = 2 ∨ m = 3) (h : Head m s.length hd) : Frame 0 1 (hd ++ s)
  | empty {m : UInt8} {hd : List UInt8} (hm : m = 4 ∨ m = 5) (h : Head m 0 hd) : Frame 0 1 hd
  | array {n d k : Nat} {hd body : List UInt8} (h : Head 4 (n + 1) hd) (hs : Frames (n + 1) d k body) :
      Frame (1 + d) (1 + k) (hd ++ body)
  | map {n d k : Nat} {hd body : List UInt8} (h : Head 5 (n + 1) hd) (hs : Frames (2 * (n + 1)) d k body) :
      Frame (1 + d) (1 + k) (hd ++ body)
/-- A number of items one after the other. -/
inductive Frames : Nat → Nat → Nat → List UInt8 → Prop where
  | nil : Frames 0 0 0 []
  | cons {n d e k l : Nat} {b bs : List UInt8} (h : Frame d k b) (hs : Frames n e l bs) :
      Frames (n + 1) (max d e) (k + l) (b ++ bs)
end

theorem Frame.length_pos {d k : Nat} {b : List UInt8} (h : Frame d k b) : 0 < b.length := by
  cases h with
  | simple h => simp
  | int hm h => exact h.length_pos
  | string hm h => have := h.length_pos; simp; omega
  | empty hm h => exact h.length_pos
  | array h hs => have := h.length_pos; simp; omega
  | map h hs => have := h.length_pos; simp; omega

/-- Every item has at least one byte. -/
theorem Frames.length_le {n d k : Nat} {b : List UInt8} (h : Frames n d k b) : n ≤ b.length := by
  induction n generalizing d k b with
  | zero => exact Nat.zero_le _
  | succ n ih =>
    cases h with
    | cons h hs =>
      have := h.length_pos
      have := ih hs
      rw [List.length_append]
      omega

mutual
theorem Item.frame : ∀ {v : Value} {b : List UInt8}, Item v b → Frame (height v) (items v) b
  | _, _, .null => .simple (.inr (.inr rfl))
  | _, _, .bool true => .simple (.inr (.inl rfl))
  | _, _, .bool false => .simple (.inl rfl)
  | _, _, .uint h => .int (.inl rfl) h
  | _, _, .nint h => .int (.inr rfl) h
  | _, _, .bytes h => .string (.inl rfl) h
  | _, _, .text h => .string (.inr rfl) h
  | _, _, @Item.array [] _ _ h .nil => by
    rw [List.append_nil]
    exact .empty (.inl rfl) h
  | _, _, @Item.array (x :: xs) _ _ h hs => .array h (Items.frames hs)
  | _, _, @Item.map [] _ _ h .nil => by
    rw [List.append_nil]
    exact .empty (.inr rfl) h
  | _, _, @Item.map ((k, x) :: m) _ _ h hs => .map h (Members.frames hs)
theorem Items.frames : ∀ {xs : List Value} {b : List UInt8}, Items xs b → Frames xs.length (heightList xs) (itemsList xs) b
  | _, _, .nil => .nil
  | _, _, .cons h hs => .cons h.frame hs.frames
theorem Members.frames : ∀ {m : List (Value × Value)} {b : List UInt8}, Members m b →
    Frames (2 * m.length) (heightMembers m) (itemsMembers m) b
  | _, _, .nil => .nil
  | _, _, .cons hk h hs => by
    have := Frames.cons hk.frame (.cons h.frame hs.frames)
    rw [← Nat.max_assoc, ← Nat.add_assoc] at this
    exact this
end

end Cbor

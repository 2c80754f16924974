import SwarrmVerify.Core.Cbor
import SwarrmVerify.L1Encoding.Json

/-!
# Deterministic CBOR (`cbor_wire.rs`, `cbor.rs`, `cose.rs`)

One emitter and one bounded scan serve the certificate and the COSE profile.
The decoder scans, lets `ciborium` materialise the value, and accepts it when
emitting it gives the bytes back. `ciborium::de::from_reader` is a parameter;
scan and emitter are translated.

The emitter sorts the members of a map by their encoded keys and refuses a key
that is repeated; a profile says which simple values and which integers it may
write. The scan knows neither: it reads heads, steps over strings, and keeps a
stack of how many members are still to come, within a limit of depth and a
budget of items. What the two have in common is the grammar of items (`Item`),
and every later result about either goes through it.

**Results.**
* `writeValue_item`: emitted bytes are an item of the value with its members
  in the order of their encoded keys, within the depth limit.
* `scanLoop_frame`, `scanLoop_item`: the scan walks an item that is not nested
  too deeply and spends one unit of its budget on each data item.
* `Restricted`, `arrange`: the values of a profile with their members in order,
  and what becomes of a value when its members are arranged so.
-/
namespace SwarrmVerify.L1.CborWire
open Cbor Sha256

/-- `&[u8]`: at most `isize::MAX` bytes. The bound is what keeps the counts of
the scan from wrapping. -/
abbrev Slice := { b : Bytes // b.length < 2 ^ 63 }

/-- The value-model choices that distinguish the deterministic profiles: integer
keys, and booleans. -/
structure Profile where
  intKeys : Bool
  bools : Bool

/-! ## The emitter -/

/-- The shortest head for an argument, which is the only one that is canonical.
mirrors verify-rs/src/cbor_wire.rs:115-132 -/
def writeHead (major : UInt8) (arg : Nat) : Bytes :=
  if arg ≤ 23 then [initial major (UInt8.ofNat arg)]
  else if arg ≤ 0xff then initial major 24 :: bytesBE 1 arg
  else if arg ≤ 0xffff then initial major 25 :: bytesBE 2 arg
  else if arg ≤ 0xffffffff then initial major 26 :: bytesBE 4 arg
  else initial major 27 :: bytesBE 8 arg

/-- An integer within `i64`, a negative one by its complement. The source has no
type for others.
mirrors verify-rs/src/cbor_wire.rs:26-37 -/
def writeInt (i : Int) : Option Bytes :=
  if i < -2 ^ 63 || i > 2 ^ 63 - 1 then none
  else if 0 ≤ i then some (writeHead 0 i.toNat)
  else some (writeHead 1 (-1 - i).toNat)

/-- A text with the number of its bytes, not of its characters.
mirrors verify-rs/src/cbor_wire.rs:39-42 -/
def writeText (s : String) : Bytes := writeHead 3 (textBytes s).length ++ textBytes s

/-- A key is a text or, in a profile that has them, an integer; nothing else is
a key.
mirrors verify-rs/src/cbor_wire.rs:74-83 -/
def writeKey (p : Profile) : Cbor.Value → Option Bytes
  | .integer i => if p.intKeys then writeInt i else none
  | .text s => some (writeText s)
  | _ => none

/-- The order of `Vec<u8>`: lexicographic in the bytes, a prefix first. -/
def byteOrder (b : Bytes) : List Nat := b.map UInt8.toNat

def pairLe (a b : Bytes × Bytes) : Prop := byteOrder a.1 ≤ byteOrder b.1

instance : DecidableRel pairLe := fun a b => inferInstanceAs (Decidable (byteOrder a.1 ≤ byteOrder b.1))

/-- `windows(2).any` over the keys. In a sorted list it finds every
repetition. -/
def repeats : List (Bytes × Bytes) → Bool
  | a :: b :: rest => a.1 == b.1 || repeats (b :: rest)
  | _ => false

/-- The members in the order of their encoded keys. A repeated key has no
encoding.
mirrors verify-rs/src/cbor_wire.rs:95-105 -/
def joinPairs (pairs : List (Bytes × Bytes)) : Option Bytes :=
  let sorted := pairs.insertionSort pairLe
  if repeats sorted then none
  else some (writeHead 5 sorted.length ++ sorted.flatMap fun q => q.1 ++ q.2)

mutual
/-- The canonical encoding of a value in a profile, if it has one. Each
container spends one of the depth.
mirrors verify-rs/src/cbor_wire.rs:47-72 -/
def writeValue (p : Profile) : Cbor.Value → Int → Option Bytes
  | .null, limit => if limit < 0 then none else some [0xf6]
  | .bool b, limit => if limit < 0 || !p.bools then none else some [if b then 0xf5 else 0xf4]
  | .integer i, limit => if limit < 0 then none else writeInt i
  | .text s, limit => if limit < 0 then none else some (writeText s)
  | .bytes b, limit => if limit < 0 then none else some (writeHead 2 b.length ++ b)
  | .array xs, limit =>
    if limit < 0 then none else (writeItems p xs (limit - 1)).map (writeHead 4 xs.length ++ ·)
  | .map m, limit => if limit < 0 then none else (writePairs p m (limit - 1)).bind joinPairs
  | .float _, _ => none
  | .tag _ _, _ => none
def writeItems (p : Profile) : List Cbor.Value → Int → Option Bytes
  | [], _ => some []
  | x :: xs, limit => do
    let b ← writeValue p x limit
    let bs ← writeItems p xs limit
    return b ++ bs
/-- mirrors verify-rs/src/cbor_wire.rs:88-94 -/
def writePairs (p : Profile) : List (Cbor.Value × Cbor.Value) → Int → Option (List (Bytes × Bytes))
  | [], _ => some []
  | (k, x) :: m, limit => do
    let kb ← writeKey p k
    let b ← writeValue p x limit
    let bs ← writePairs p m limit
    return (kb, b) :: bs
end

/-- The arguments in the order of the source.
mirrors verify-rs/src/cbor_wire.rs:108-111 -/
def canonicalBytes (v : Cbor.Value) (limit : Int) (p : Profile) : Option Bytes := writeValue p v limit

/-! ## The scan -/

/-- The scanned data is a suffix, where the source keeps an index.
mirrors verify-rs/src/cbor_wire.rs:136-159 -/
def readHead : Bytes → Option (UInt8 × Nat × Bytes)
  | [] => none
  | byte :: rest =>
    let major := byte >>> 5
    let info := byte &&& 0x1f
    if major == 6 then none
    else if major == 7 then if 20 ≤ info && info ≤ 22 then some (major, 0, rest) else none
    else if info < 24 then some (major, info.toNat, rest)
    else if info > 27 then none
    else
      let width := 1 <<< (info.toNat - 24)
      if rest.length < width then none else some (major, beNat (rest.take width), rest.drop width)

/-- A string is skipped, if all of it is there.
mirrors verify-rs/src/cbor_wire.rs:163-168 -/
def scanString (rest : Bytes) (arg : Nat) : Option Bytes :=
  if arg ≤ rest.length then some (rest.drop arg) else none

/-- The members still to come, or `none` when there are none.
mirrors verify-rs/src/cbor_wire.rs:170-183 -/
def scanContainer (rest : Bytes) (major : UInt8) (arg : Nat) (stack : List Nat) (maxDepth : Nat) :
    Option (Option (List Nat)) :=
  let count := if major == 4 then arg else 2 * arg
  if 2 ^ 64 ≤ count then none
  else if count > rest.length then none
  else if count = 0 then some none
  else if stack.length ≥ maxDepth then none
  else some (some (count :: stack))

/-- What follows the item and, if it opened a container, the new stack.
mirrors verify-rs/src/cbor_wire.rs:185-191 -/
def scanItem (rest : Bytes) (major : UInt8) (arg : Nat) (stack : List Nat) (maxDepth : Nat) :
    Option (Bytes × Option (List Nat)) :=
  if major == 2 || major == 3 then (scanString rest arg).map fun rest => (rest, none)
  else if major == 4 || major == 5 then (scanContainer rest major arg stack maxDepth).map fun opened => (rest, opened)
  else some (rest, none)

/-- `none` when the whole stack is complete.
mirrors verify-rs/src/cbor_wire.rs:193-202 -/
def completeItem : List Nat → Option (List Nat)
  | [] => none
  | top :: stack => if top - 1 > 0 then some ((top - 1) :: stack) else completeItem stack

/-- The loop, with the items it may still visit.
mirrors verify-rs/src/cbor_wire.rs:209-221 -/
def scanLoop (maxDepth : Nat) : Nat → List Nat → Bytes → Option Bytes
  | 0, _, _ => none
  | budget + 1, stack, rest => do
    let (major, arg, rest) ← readHead rest
    match ← scanItem rest major arg stack maxDepth with
    | (rest, some opened) => scanLoop maxDepth budget opened rest
    | (rest, none) =>
      match completeItem stack with
      | none => some rest
      | some stack => scanLoop maxDepth budget stack rest

/-- mirrors verify-rs/src/cbor_wire.rs:204-222 -/
def structuralScan (data : Bytes) (maxDepth maxItems : Nat) : Option Nat :=
  (scanLoop maxDepth maxItems [] data).map fun rest => data.length - rest.length

/-! ## The decoders -/

def maxDepth : Nat := 64

def maxItems : Nat := 100000

/-- The certificate profile: text keys and booleans, as in JSON. -/
def certProfile : Profile := ⟨false, true⟩

/-- The COSE profile: integer or text keys and no booleans, as in header
maps. -/
def coseProfile : Profile := ⟨true, false⟩

/-- The canonical bytes of a certificate. mirrors verify-rs/src/cbor.rs:40-42 -/
def canonicalCbor (v : Cbor.Value) : Option Bytes := canonicalBytes v maxDepth certProfile

/-- Decoding is a scan for structure, a parse by the crate, and a comparison
with the canonical bytes. The parser is a parameter.
mirrors verify-rs/src/cbor.rs:50-56 -/
def decodeCbor (ciborium : Bytes → Option Cbor.Value) (data : Slice) (maxDepth maxBytes : Nat) : Option Cbor.Value := do
  if data.val.length > maxBytes then none
  else
    let scanned ← structuralScan data.val maxDepth maxItems
    if scanned ≠ data.val.length then none
    else
      let value ← ciborium data.val
      let canon ← canonicalCbor value
      if canon = data.val then some value else none

/-- `max_depth as i64` is the depth limit of the emitter.
mirrors verify-rs/src/cose.rs:39-45 -/
def decodeCanonical (ciborium : Bytes → Option Cbor.Value) (data : Slice) (maxDepth : Nat) : Option Cbor.Value := do
  let scanned ← structuralScan data.val maxDepth maxItems
  if scanned ≠ data.val.length then none
  else
    let value ← ciborium data.val
    let canon ← canonicalBytes value (Int64.ofNat maxDepth).toInt coseProfile
    if canon = data.val then some value else none

/-! ## Heads -/

theorem writeHead_head (major : UInt8) {arg : Nat} (h : arg < 2 ^ 64) : Head major arg (writeHead major arg) := by
  unfold writeHead
  split
  · exact .short (by omega)
  split
  · exact .long 0 (by decide) (by norm_num; omega)
  split
  · exact .long 1 (by decide) (by norm_num; omega)
  split
  · exact .long 2 (by decide) (by norm_num; omega)
  · exact .long 3 (by decide) (by norm_num; omega)

theorem initial_shift {m i : Nat} (hm : m < 8) (hi : i < 32) :
    initial (UInt8.ofNat m) (UInt8.ofNat i) >>> 5 = UInt8.ofNat m :=
  (initial_split ⟨m, hm⟩ ⟨i, hi⟩).1

theorem initial_info {m i : Nat} (hm : m < 8) (hi : i < 32) :
    initial (UInt8.ofNat m) (UInt8.ofNat i) &&& 0x1f = UInt8.ofNat i :=
  (initial_split ⟨m, hm⟩ ⟨i, hi⟩).2

/-- A head of any width is read back, whatever follows it. Whether it is the
shortest one is not asked here. -/
theorem readHead_head {m arg : Nat} {hd : Bytes} (hm : m < 6) (h : Head (UInt8.ofNat m) arg hd) (rest : Bytes) :
    readHead (hd ++ rest) = some (UInt8.ofNat m, arg, rest) := by
  have hmajor : ∀ k, k < 8 → 6 ≤ k → (UInt8.ofNat m == UInt8.ofNat k) = false := by
    intro k hk hk'
    rw [beq_eq_false_iff_ne]
    intro he
    have := congrArg UInt8.toNat he
    rw [UInt8.toNat_ofNat', UInt8.toNat_ofNat'] at this
    omega
  cases h with
  | short hn =>
    have hinfo : UInt8.ofNat arg < 24 := by
      rw [UInt8.lt_iff_toNat_lt, UInt8.toNat_ofNat']
      exact lt_of_le_of_lt (Nat.mod_le _ _) hn
    simp only [List.cons_append, List.nil_append, readHead, initial_shift (by omega : m < 8) (by omega : arg < 32),
      initial_info (by omega : m < 8) (by omega : arg < 32)]
    rw [show (6 : UInt8) = UInt8.ofNat 6 from rfl, show (7 : UInt8) = UInt8.ofNat 7 from rfl,
      hmajor 6 (by omega) (by omega), hmajor 7 (by omega) (by omega)]
    simp only [Bool.false_eq_true, if_false, if_pos hinfo, UInt8.toNat_ofNat']
    rw [Nat.mod_eq_of_lt (by omega)]
  | long w hw hn =>
    have hnat : (UInt8.ofNat (24 + w)).toNat = 24 + w := by rw [UInt8.toNat_ofNat']; omega
    have hlow : ¬ UInt8.ofNat (24 + w) < 24 := by
      rw [UInt8.lt_iff_toNat_lt, hnat]; simp
    have hhigh : ¬ UInt8.ofNat (24 + w) > 27 := by
      rw [gt_iff_lt, UInt8.lt_iff_toNat_lt, hnat]
      simp; omega
    simp only [List.cons_append, readHead, initial_shift (by omega : m < 8) (by omega : 24 + w < 32),
      initial_info (by omega : m < 8) (by omega : 24 + w < 32)]
    rw [show (6 : UInt8) = UInt8.ofNat 6 from rfl, show (7 : UInt8) = UInt8.ofNat 7 from rfl,
      hmajor 6 (by omega) (by omega), hmajor 7 (by omega) (by omega)]
    have hlen : (bytesBE (2 ^ w) arg).length = 2 ^ w := bytesBE_length _ _
    simp only [Bool.false_eq_true, if_false, if_neg hlow, if_neg hhigh, hnat, Nat.add_sub_cancel_left,
      Nat.one_shiftLeft, List.length_append, hlen]
    rw [if_neg (by omega), List.take_left' hlen, List.drop_left' hlen, beNat_bytesBE hn]

/-! ## The scan over an item -/

/-- What the loop does once an item is complete: it closes the containers that
the item completes, and goes on if one is left open. -/
def afterItem (depth budget : Nat) (stack : List Nat) (rest : Bytes) : Option Bytes :=
  match completeItem stack with
  | none => some rest
  | some stack => scanLoop depth budget stack rest

theorem afterItem_push (depth budget n : Nat) (stack : List Nat) (rest : Bytes) :
    afterItem depth budget ((n + 1) :: stack) rest =
      if n > 0 then scanLoop depth budget (n :: stack) rest else afterItem depth budget stack rest := by
  simp only [afterItem, completeItem, Nat.add_sub_cancel]
  by_cases hn : n > 0
  · simp only [if_pos hn]
  · simp only [if_neg hn]

/-- One turn of the loop on a head that opens nothing: the item is complete at
once. -/
theorem scanLoop_leaf {depth : Nat} {data rest rest' : Bytes} {major : UInt8} {arg : Nat} {stack : List Nat}
    (hhead : readHead data = some (major, arg, rest))
    (hitem : scanItem rest major arg stack depth = some (rest', none)) (budget : Nat) :
    scanLoop depth budget stack data = if 1 ≤ budget then afterItem depth (budget - 1) stack rest' else none := by
  cases budget with
  | zero => rfl
  | succ budget =>
    simp only [scanLoop, hhead, Option.bind_eq_bind, Option.bind_some, hitem]
    rw [if_pos (by omega), Nat.add_sub_cancel, afterItem]

/-- One turn of the loop on a head that opens a container: the stack grows by
its count. -/
theorem scanLoop_open {depth : Nat} {data rest : Bytes} {major : UInt8} {arg : Nat} {stack opened : List Nat}
    (hhead : readHead data = some (major, arg, rest))
    (hitem : scanItem rest major arg stack depth = some (rest, some opened)) (budget : Nat) :
    scanLoop depth (budget + 1) stack data = scanLoop depth budget opened rest := by
  simp only [scanLoop, hhead, Option.bind_eq_bind, Option.bind_some, hitem]

/-- A container whose members are walked: if these cost `k`, the container costs
one more. -/
theorem scanLoop_opened {depth n k : Nat} {data rest rest' : Bytes} {major : UInt8} {arg : Nat} {stack : List Nat}
    (hhead : readHead data = some (major, arg, rest))
    (hitem : scanItem rest major arg stack depth = some (rest, some (n :: stack)))
    (hbody : ∀ budget, scanLoop depth budget (n :: stack) rest =
      if k ≤ budget then afterItem depth (budget - k) stack rest' else none) (budget : Nat) :
    scanLoop depth budget stack data =
      if 1 + k ≤ budget then afterItem depth (budget - (1 + k)) stack rest' else none := by
  cases budget with
  | zero => rw [if_neg (by omega)]; rfl
  | succ budget =>
    rw [scanLoop_open hhead hitem, hbody]
    by_cases hk : k ≤ budget
    · rw [if_pos hk, if_pos (by omega), Nat.add_comm 1 k, Nat.add_sub_add_right]
    · rw [if_neg hk, if_neg (by omega)]

/-- A count is less than what `checked_mul` refuses, and its members fit, as
each takes a byte at least. -/
theorem scanItem_container {rest : Bytes} {major : UInt8} {arg n : Nat} (hmajor : major = 4 ∨ major = 5)
    (hcount : (if major == 4 then arg else 2 * arg) = n) (hfit : n ≤ rest.length) (hlen : rest.length < 2 ^ 64)
    (stack : List Nat) (depth : Nat) :
    scanItem rest major arg stack depth =
      if n = 0 then some (rest, none) else if stack.length ≥ depth then none else some (rest, some (n :: stack)) := by
  have hitem : scanItem rest major arg stack depth =
      (scanContainer rest major arg stack depth).map fun opened => (rest, opened) := by
    rcases hmajor with rfl | rfl <;> rfl
  rw [hitem]
  simp only [scanContainer, hcount]
  rw [if_neg (by omega), if_neg (by omega)]
  split
  · rfl
  · split <;> rfl

mutual
/-- The scan walks an item that is not nested too deeply, and spends its budget.
By induction on the frame of the item. -/
theorem scanLoop_frame (depth : Nat) : ∀ {d k : Nat} {b : Bytes}, Frame d k b → ∀ budget stack rest,
    (b ++ rest).length < 2 ^ 64 → stack.length + d ≤ depth → scanLoop depth budget stack (b ++ rest) =
      if k ≤ budget then afterItem depth (budget - k) stack rest else none
  | _, _, _, .simple h => by
    intro budget stack rest _ _
    rcases h with rfl | rfl | rfl <;> exact @scanLoop_leaf _ _ rest _ _ _ _ rfl rfl budget
  | _, _, _, .int hm h => by
    intro budget stack rest _ _
    rcases hm with rfl | rfl
    · exact scanLoop_leaf (readHead_head (m := 0) (by decide) h rest) rfl budget
    · exact scanLoop_leaf (readHead_head (m := 1) (by decide) h rest) rfl budget
  | _, _, _, @Frame.string m s hd hm h => by
    intro budget stack rest _ _
    rw [List.append_assoc]
    rcases hm with rfl | rfl
    · refine scanLoop_leaf (readHead_head (m := 2) (by decide) h (s ++ rest)) ?_ budget
      simp [scanItem, scanString]
    · refine scanLoop_leaf (readHead_head (m := 3) (by decide) h (s ++ rest)) ?_ budget
      simp [scanItem, scanString]
  | _, _, _, .empty hm h => by
    intro budget stack rest hlen _
    rw [List.length_append] at hlen
    rcases hm with rfl | rfl
    · exact scanLoop_leaf (readHead_head (m := 4) (by decide) h rest)
        (scanItem_container (.inl rfl) rfl (Nat.zero_le _) (by omega) stack depth) budget
    · exact scanLoop_leaf (readHead_head (m := 5) (by decide) h rest)
        (scanItem_container (.inr rfl) rfl (Nat.zero_le _) (by omega) stack depth) budget
  | _, _, _, @Frame.array n d k hd body h hs => by
    intro budget stack rest hlen hdepth
    have hle := hs.length_le
    rw [List.append_assoc] at hlen ⊢
    simp only [List.length_append] at hlen
    have hitem := @scanItem_container (body ++ rest) 4 (n + 1) (n + 1) (.inl rfl) rfl
      (by rw [List.length_append]; omega) (by rw [List.length_append]; omega) stack depth
    rw [if_neg (by omega), if_neg (by omega)] at hitem
    refine scanLoop_opened (readHead_head (m := 4) (by decide) h (body ++ rest)) hitem (fun budget => ?_) budget
    exact scanLoop_frames depth hs (Nat.succ_pos n) budget stack rest (by rw [List.length_append]; omega) (by omega)
  | _, _, _, @Frame.map n d k hd body h hs => by
    intro budget stack rest hlen hdepth
    have hle := hs.length_le
    rw [List.append_assoc] at hlen ⊢
    simp only [List.length_append] at hlen
    have hitem := @scanItem_container (body ++ rest) 5 (n + 1) (2 * (n + 1)) (.inr rfl) rfl
      (by rw [List.length_append]; omega) (by rw [List.length_append]; omega) stack depth
    rw [if_neg (by omega), if_neg (by omega)] at hitem
    refine scanLoop_opened (readHead_head (m := 5) (by decide) h (body ++ rest)) hitem (fun budget => ?_) budget
    exact scanLoop_frames depth hs (by omega) budget stack rest (by rw [List.length_append]; omega) (by omega)
/-- The members of a container, on top of the stack. -/
theorem scanLoop_frames (depth : Nat) : ∀ {n d k : Nat} {b : Bytes}, Frames n d k b → 0 < n → ∀ budget stack rest,
    (b ++ rest).length < 2 ^ 64 → stack.length + 1 + d ≤ depth → scanLoop depth budget (n :: stack) (b ++ rest) =
      if k ≤ budget then afterItem depth (budget - k) stack rest else none
  | _, _, _, _, .nil, hn => absurd hn (lt_irrefl 0)
  | _, _, _, _, @Frames.cons n d e k l b bs h hs, _ => by
    intro budget stack rest hlen hdepth
    rw [List.append_assoc] at hlen ⊢
    simp only [List.length_append] at hlen
    rw [scanLoop_frame depth h budget _ (bs ++ rest) (by simp only [List.length_append]; omega)
      (by rw [List.length_cons]; omega)]
    by_cases hk : k ≤ budget
    · rw [if_pos hk, afterItem_push]
      by_cases hn : n = 0
      · subst hn
        cases hs
        rw [if_neg (by omega), if_pos (by omega), List.nil_append, Nat.add_zero]
      · rw [if_pos (by omega), scanLoop_frames depth hs (by omega) (budget - k) stack rest
          (by rw [List.length_append]; omega) (by omega), Nat.sub_sub]
        by_cases hl : l ≤ budget - k
        · rw [if_pos hl, if_pos (by omega)]
        · rw [if_neg hl, if_neg (by omega)]
    · rw [if_neg hk, if_neg (by omega)]
end

/-- `i64`: the range of the integers that have an encoding. -/
def IsI64 (i : Int) : Prop := -2 ^ 63 ≤ i ∧ i < 2 ^ 63

def KeyOk (p : Profile) : Cbor.Value → Prop
  | .text _ => True
  | .integer i => p.intKeys = true ∧ IsI64 i
  | _ => False

def keyBytes (p : Profile) (k : Cbor.Value) : Bytes := (writeKey p k).getD []

def keyOrder (p : Profile) (q : Cbor.Value × Cbor.Value) : List Nat := byteOrder (keyBytes p q.1)

mutual
/-- The values of a profile with their members in the order of the encoded keys,
no key twice. These are the values that bytes can stand for. -/
def Restricted (p : Profile) : Cbor.Value → Prop
  | .null => True
  | .bool _ => p.bools = true
  | .integer i => IsI64 i
  | .text _ => True
  | .bytes _ => True
  | .array xs => RestrictedItems p xs
  | .map m => RestrictedMembers p m ∧ m.Pairwise fun q r => keyOrder p q < keyOrder p r
  | .float _ => False
  | .tag _ _ => False
def RestrictedItems (p : Profile) : List Cbor.Value → Prop
  | [] => True
  | x :: xs => Restricted p x ∧ RestrictedItems p xs
def RestrictedMembers (p : Profile) : List (Cbor.Value × Cbor.Value) → Prop
  | [] => True
  | (k, x) :: m => KeyOk p k ∧ Restricted p x ∧ RestrictedMembers p m
end

def memberLe (p : Profile) (q r : Cbor.Value × Cbor.Value) : Prop := keyOrder p q ≤ keyOrder p r

instance (p : Profile) : DecidableRel (memberLe p) := fun q r =>
  inferInstanceAs (Decidable (keyOrder p q ≤ keyOrder p r))

mutual
/-- The value with the members of its maps in the order of the encoded keys, at
every depth. -/
def arrange (p : Profile) : Cbor.Value → Cbor.Value
  | .array xs => .array (arrangeItems p xs)
  | .map m => .map ((arrangeMembers p m).insertionSort (memberLe p))
  | v => v
def arrangeItems (p : Profile) : List Cbor.Value → List Cbor.Value
  | [] => []
  | x :: xs => arrange p x :: arrangeItems p xs
def arrangeMembers (p : Profile) : List (Cbor.Value × Cbor.Value) → List (Cbor.Value × Cbor.Value)
  | [] => []
  | (k, x) :: m => (k, arrange p x) :: arrangeMembers p m
end

section
variable {p : Profile}

theorem restrictedItems_iff {xs : List Cbor.Value} : RestrictedItems p xs ↔ ∀ x ∈ xs, Restricted p x := by
  induction xs with
  | nil => simp [RestrictedItems]
  | cons x xs ih => simp [RestrictedItems, ih]

theorem restrictedMembers_iff {m : List (Cbor.Value × Cbor.Value)} :
    RestrictedMembers p m ↔ ∀ q ∈ m, KeyOk p q.1 ∧ Restricted p q.2 := by
  induction m with
  | nil => simp [RestrictedMembers]
  | cons q m ih =>
    obtain ⟨k, x⟩ := q
    simp [RestrictedMembers, ih, and_assoc]

theorem arrangeItems_eq (xs : List Cbor.Value) : arrangeItems p xs = xs.map (arrange p) := by
  induction xs with
  | nil => rfl
  | cons x xs ih => rw [arrangeItems, ih, List.map_cons]

/-- A member with its value arranged; the key stays. -/
def arrangeMember (p : Profile) (q : Cbor.Value × Cbor.Value) : Cbor.Value × Cbor.Value := (q.1, arrange p q.2)

theorem arrangeMembers_eq (m : List (Cbor.Value × Cbor.Value)) : arrangeMembers p m = m.map (arrangeMember p) := by
  induction m with
  | nil => rfl
  | cons q m ih =>
    obtain ⟨k, x⟩ := q
    rw [arrangeMembers, ih, List.map_cons, arrangeMember]

/-- Arranging the values leaves the keys, so it may come after the sort as well
as before it. -/
theorem arrange_map (m : List (Cbor.Value × Cbor.Value)) :
    arrange p (.map m) = .map ((m.insertionSort (memberLe p)).map (arrangeMember p)) := by
  rw [arrange, arrangeMembers_eq, List.map_insertionSort (memberLe p) (memberLe p)]
  intro q _ r _
  exact Iff.rfl

theorem writeInt_item {i : Int} {b : Bytes} (h : writeInt i = some b) : Item (.integer i) b ∧ IsI64 i := by
  unfold writeInt at h
  split at h
  · cases h
  rename_i hrange
  simp only [Bool.or_eq_true, decide_eq_true_eq, not_or, not_lt] at hrange
  have hi : IsI64 i := ⟨by omega, by omega⟩
  split at h
  · rename_i hpos
    cases h
    have hitem := Item.uint (writeHead_head 0 (show i.toNat < 2 ^ 64 by omega))
    rw [Int.toNat_of_nonneg hpos] at hitem
    exact ⟨hitem, hi⟩
  · cases h
    have hitem := Item.nint (writeHead_head 1 (show (-1 - i).toNat < 2 ^ 64 by omega))
    rw [show -1 - ((-1 - i).toNat : Int) = i by omega] at hitem
    exact ⟨hitem, hi⟩

theorem writeText_item {s : String} (h : (writeText s).length < 2 ^ 64) : Item (.text s) (writeText s) := by
  refine Item.text (writeHead_head 3 ?_)
  simp only [writeText, List.length_append] at h
  omega

theorem writeKey_item {k : Cbor.Value} {b : Bytes} (h : writeKey p k = some b) (hb : b.length < 2 ^ 64) :
    Item k b ∧ KeyOk p k ∧ height k = 0 ∧ keyBytes p k = b := by
  have hbytes : keyBytes p k = b := by rw [keyBytes, h]; rfl
  cases k with
  | integer i =>
    simp only [writeKey] at h
    split at h
    · rename_i hp
      obtain ⟨hitem, hi⟩ := writeInt_item h
      exact ⟨hitem, ⟨hp, hi⟩, rfl, hbytes⟩
    · cases h
  | text s =>
    simp only [writeKey, Option.some.injEq] at h
    subst h
    exact ⟨writeText_item hb, trivial, rfl, hbytes⟩
  | _ => cases h

/-- What is known of emitted bytes: they are an item of the arranged value,
which is of the profile, within the limit, and emitted to the same bytes. -/
structure Emitted (p : Profile) (v : Cbor.Value) (limit : Int) (b : Bytes) : Prop where
  item : Item (arrange p v) b
  restricted : Restricted p (arrange p v)
  height : (height (arrange p v) : Int) ≤ limit
  again : writeValue p (arrange p v) limit = some b

/-- Whatever is emitted for `v` is so, at every limit: the form in which the
recursion carries it. -/
def Emits (p : Profile) (v : Cbor.Value) : Prop :=
  ∀ limit b, writeValue p v limit = some b → b.length < 2 ^ 64 → Emitted p v limit b

theorem writeItems_emitted {xs : List Cbor.Value} (hx : ∀ x ∈ xs, Emits p x) {limit : Int} :
    ∀ {body}, writeItems p xs limit = some body → body.length < 2 ^ 64 →
      Items (xs.map (arrange p)) body ∧ (∀ x ∈ xs.map (arrange p), Restricted p x ∧ (height x : Int) ≤ limit) ∧
        writeItems p (xs.map (arrange p)) limit = some body := by
  induction xs with
  | nil =>
    intro body h _
    cases h
    exact ⟨.nil, by simp, rfl⟩
  | cons x xs ih =>
    intro body h hlen
    simp only [writeItems, Option.bind_eq_bind, Option.bind_eq_some_iff, Option.pure_def, Option.some.injEq] at h
    obtain ⟨b, hb, bs, hbs, rfl⟩ := h
    simp only [List.length_append] at hlen
    have he := hx x (by simp) limit b hb (by omega)
    obtain ⟨h1, h2, h3⟩ := ih (fun y hy => hx y (List.mem_cons_of_mem _ hy)) hbs (by omega)
    refine ⟨.cons he.item h1, ?_, ?_⟩
    · rw [List.map_cons, List.forall_mem_cons]
      exact ⟨⟨he.restricted, he.height⟩, h2⟩
    · rw [List.map_cons, writeItems, he.again, h3]
      rfl

/-- A member of the input as it is emitted, before the sort. -/
def pairBytes (p : Profile) (limit : Int) (q : Cbor.Value × Cbor.Value) : Bytes × Bytes :=
  (keyBytes p q.1, (writeValue p q.2 limit).getD [])

theorem writePairs_eq_some {m : List (Cbor.Value × Cbor.Value)} {limit : Int} {pairs : List (Bytes × Bytes)} :
    writePairs p m limit = some pairs ↔
      (∀ q ∈ m, (writeKey p q.1).isSome ∧ (writeValue p q.2 limit).isSome) ∧ pairs = m.map (pairBytes p limit) := by
  induction m generalizing pairs with
  | nil =>
    simp only [writePairs, Option.some.injEq, List.not_mem_nil, false_implies, implies_true, List.map_nil,
      true_and]
    exact eq_comm
  | cons q m ih =>
    obtain ⟨k, x⟩ := q
    simp only [writePairs, Option.bind_eq_bind, Option.bind_eq_some_iff, Option.pure_def, Option.some.injEq,
      List.forall_mem_cons, List.map_cons, pairBytes, keyBytes, ih]
    constructor
    · intro h
      obtain ⟨kb, hk, b, hb, bs, ⟨hall, hbs⟩, he⟩ := h
      simp only [hk, hb, Option.isSome_some, Option.getD_some, true_and]
      exact ⟨hall, by rw [← he, hbs]⟩
    · intro h
      obtain ⟨⟨⟨hk, hb⟩, hall⟩, he⟩ := h
      obtain ⟨kb, hk⟩ := Option.isSome_iff_exists.mp hk
      obtain ⟨b, hb⟩ := Option.isSome_iff_exists.mp hb
      simp only [hk, hb, Option.getD_some] at he
      exact ⟨kb, hk, b, hb, _, ⟨hall, rfl⟩, he.symm⟩

/-- Sorted pairs without neighbours of one key are strictly sorted, and so
without any repetition. -/
theorem strict_of_repeats {l : List (Bytes × Bytes)} (hs : l.Pairwise pairLe) (h : repeats l = false) :
    l.Pairwise fun a b => byteOrder a.1 < byteOrder b.1 := by
  induction l with
  | nil => exact .nil
  | cons a l ih =>
    cases l with
    | nil => simp
    | cons b rest =>
      simp only [repeats, Bool.or_eq_false_iff, beq_eq_false_iff_ne] at h
      have hrest := ih hs.tail h.2
      have hab : byteOrder a.1 < byteOrder b.1 := by
        refine lt_of_le_of_ne ((List.pairwise_cons.mp hs).1 b (by simp)) fun he => h.1 ?_
        exact List.map_injective_iff.mpr (fun _ _ => UInt8.toNat_inj.mp) he
      refine List.pairwise_cons.mpr ⟨fun c hc => ?_, hrest⟩
      rcases List.mem_cons.mp hc with rfl | hc
      · exact hab
      · exact hab.trans ((List.pairwise_cons.mp hrest).1 c hc)

/-- Emitted members, one after the other: each is an item of its key and one of
its value. -/
theorem members_emitted {m : List (Cbor.Value × Cbor.Value)} {limit : Int} (hx : ∀ q ∈ m, Emits p q.2)
    (hall : ∀ q ∈ m, (writeKey p q.1).isSome ∧ (writeValue p q.2 limit).isSome)
    (hlen : ((m.map (pairBytes p limit)).flatMap fun q => q.1 ++ q.2).length < 2 ^ 64) :
    Members (m.map (arrangeMember p)) ((m.map (pairBytes p limit)).flatMap fun q => q.1 ++ q.2) ∧
      (∀ q ∈ m.map (arrangeMember p), (KeyOk p q.1 ∧ Restricted p q.2) ∧ height q.1 = 0 ∧
        (height q.2 : Int) ≤ limit) ∧
      writePairs p (m.map (arrangeMember p)) limit = some (m.map (pairBytes p limit)) := by
  induction m with
  | nil => exact ⟨.nil, by simp, rfl⟩
  | cons q m ih =>
    obtain ⟨k, x⟩ := q
    obtain ⟨hk, hb⟩ := hall (k, x) (by simp)
    obtain ⟨kb, hk⟩ := Option.isSome_iff_exists.mp hk
    obtain ⟨b, hb⟩ := Option.isSome_iff_exists.mp hb
    have hpair : pairBytes p limit (k, x) = (kb, b) := by
      simp only [pairBytes, keyBytes, hk, hb, Option.getD_some]
    simp only [List.map_cons, List.flatMap_cons, hpair, List.length_append] at hlen ⊢
    obtain ⟨h1, h2, h3⟩ := ih (fun r hr => hx r (List.mem_cons_of_mem _ hr))
      (fun r hr => hall r (List.mem_cons_of_mem _ hr)) (by omega)
    obtain ⟨hkitem, hkok, hkheight, _⟩ := writeKey_item hk (by omega)
    have he := hx (k, x) (by simp) limit b hb (by omega)
    refine ⟨?_, ?_, ?_⟩
    · rw [List.append_assoc]
      exact .cons hkitem he.item h1
    · rw [List.forall_mem_cons]
      exact ⟨⟨⟨hkok, he.restricted⟩, hkheight, he.height⟩, h2⟩
    · simp only [arrangeMember, writePairs, hk, he.again, Option.bind_eq_bind, Option.bind_some]
      rw [h3]
      rfl

theorem pairwise_sorted (l : List (Bytes × Bytes)) : (l.insertionSort pairLe).Pairwise pairLe := by
  have : Std.Total pairLe := ⟨fun a b => le_total (byteOrder a.1) (byteOrder b.1)⟩
  have : IsTrans (Bytes × Bytes) pairLe := ⟨fun a b c => le_trans (a := byteOrder a.1)⟩
  exact List.pairwise_insertionSort _ _

/-- The pairs of a map are sorted like its members, since only the encoded keys
are compared. -/
theorem sort_pairs (m : List (Cbor.Value × Cbor.Value)) (limit : Int) :
    (m.map (pairBytes p limit)).insertionSort pairLe =
      (m.insertionSort (memberLe p)).map (pairBytes p limit) := by
  rw [List.map_insertionSort (memberLe p) pairLe]
  intro q _ r _
  exact Iff.rfl

theorem map_emitted {m : List (Cbor.Value × Cbor.Value)} (hx : ∀ q ∈ m, Emits p q.2) : Emits p (.map m) := by
  intro limit b h hlen
  simp only [writeValue] at h
  split at h
  · cases h
  rename_i hlimit
  obtain ⟨pairs, hpairs, hjoin⟩ := Option.bind_eq_some_iff.mp h
  obtain ⟨hall, rfl⟩ := writePairs_eq_some.mp hpairs
  simp only [joinPairs, sort_pairs] at hjoin
  split at hjoin
  · cases hjoin
  rename_i hrep
  cases hjoin
  have hmem : ∀ q, q ∈ m.insertionSort (memberLe p) ↔ q ∈ m := fun q => List.mem_insertionSort _
  simp only [List.length_append] at hlen
  obtain ⟨h1, h2, h3⟩ := @members_emitted p _ (limit - 1)
    (fun q hq => hx q ((hmem q).mp hq)) (fun q hq => hall q ((hmem q).mp hq)) (by omega)
  have hsorted : ((m.insertionSort (memberLe p)).map (pairBytes p (limit - 1))).Pairwise pairLe := by
    rw [← sort_pairs]
    exact pairwise_sorted _
  have hstrict := strict_of_repeats hsorted (by simpa using hrep)
  rw [List.pairwise_map] at hstrict
  refine ⟨?_, ?_, ?_, ?_⟩
  · have hcount := h1.length_le
    simp only [List.length_map] at hcount hlen ⊢
    rw [arrange_map]
    refine Item.map ?_ h1
    rw [List.length_map]
    exact writeHead_head 5 (by omega)
  · rw [arrange_map, Restricted, restrictedMembers_iff]
    exact ⟨fun q hq => (h2 q hq).1, List.pairwise_map.mpr hstrict⟩
  · rw [arrange_map]
    by_cases hm : (m.insertionSort (memberLe p)).map (arrangeMember p) = []
    · rw [hm]
      simp only [Cbor.height, Nat.cast_zero]
      omega
    · rw [height_map _ hm]
      obtain ⟨q, hq⟩ := List.exists_mem_of_ne_nil _ hm
      have hpos : 0 ≤ limit - 1 := le_trans (Int.natCast_nonneg _) (h2 q hq).2.2
      have := heightMembers_le hpos fun q hq => ⟨by rw [(h2 q hq).2.1]; exact hpos, (h2 q hq).2.2⟩
      push_cast
      omega
  · rw [arrange_map, writeValue, if_neg hlimit, h3, Option.bind_some, joinPairs]
    simp only [hsorted.insertionSort_eq]
    rw [if_neg hrep]

/-- A value that is no container is emitted as it is, so all that is left is its
item and its place in the profile. -/
theorem scalar_emitted {v : Cbor.Value} {limit : Int} {b : Bytes} (h : writeValue p v limit = some b)
    (hsame : arrange p v = v) (hheight : height v = 0) (hlimit : ¬ limit < 0) (hitem : Item v b)
    (hres : Restricted p v) : Emitted p v limit b := by
  refine ⟨?_, ?_, ?_, ?_⟩ <;> rw [hsame]
  · exact hitem
  · exact hres
  · rw [hheight]
    exact not_lt.mp hlimit
  · exact h

/-- Emitted bytes are an item of the arranged value within the limit. By
recursion on the value, a case for each kind. -/
theorem writeValue_item (v : Cbor.Value) : Emits p v := by
  match v with
  | .null =>
    intro limit b h _
    have hw := h
    simp only [writeValue] at h
    split at h
    · cases h
    · rename_i hl
      cases h
      exact scalar_emitted hw rfl rfl hl .null trivial
  | .bool c =>
    intro limit b h _
    have hw := h
    simp only [writeValue] at h
    split at h
    · cases h
    · rename_i hl
      cases h
      simp only [Bool.or_eq_true, decide_eq_true_eq, Bool.not_eq_true', not_or, Bool.not_eq_false] at hl
      exact scalar_emitted hw rfl rfl hl.1 (.bool c) hl.2
  | .integer i =>
    intro limit b h _
    have hw := h
    simp only [writeValue] at h
    split at h
    · cases h
    · rename_i hl
      obtain ⟨hitem, hi⟩ := writeInt_item h
      exact scalar_emitted hw rfl rfl hl hitem hi
  | .text s =>
    intro limit b h hlen
    have hw := h
    simp only [writeValue] at h
    split at h
    · cases h
    · rename_i hl
      cases h
      exact scalar_emitted hw rfl rfl hl (writeText_item hlen) trivial
  | .bytes c =>
    intro limit b h hlen
    have hw := h
    simp only [writeValue] at h
    split at h
    · cases h
    · rename_i hl
      cases h
      simp only [List.length_append] at hlen
      exact scalar_emitted hw rfl rfl hl (.bytes (writeHead_head 2 (by omega))) trivial
  | .array xs =>
    intro limit b h hlen
    simp only [writeValue] at h
    split at h
    · cases h
    rename_i hlimit
    obtain ⟨body, hbody, rfl⟩ := Option.map_eq_some_iff.mp h
    simp only [List.length_append] at hlen
    obtain ⟨h1, h2, h3⟩ := writeItems_emitted (fun x _ => writeValue_item x) hbody (by omega)
    refine ⟨?_, ?_, ?_, ?_⟩
    · rw [arrange, arrangeItems_eq]
      have hcount := h1.length_le
      rw [List.length_map] at hcount
      refine Item.array ?_ h1
      rw [List.length_map]
      exact writeHead_head 4 (by omega)
    · rw [arrange, arrangeItems_eq, Restricted, restrictedItems_iff]
      exact fun x hx => (h2 x hx).1
    · rw [arrange, arrangeItems_eq]
      by_cases hm : xs.map (arrange p) = []
      · rw [hm]
        simp only [Cbor.height, Nat.cast_zero]
        omega
      · rw [height_array _ hm]
        obtain ⟨x, hx⟩ := List.exists_mem_of_ne_nil _ hm
        have hpos : 0 ≤ limit - 1 := le_trans (Int.natCast_nonneg _) (h2 x hx).2
        have := heightList_le hpos fun x hx => (h2 x hx).2
        push_cast
        omega
    · rw [arrange, arrangeItems_eq, writeValue, if_neg hlimit, h3, List.length_map]
      rfl
  | .map m => exact map_emitted fun q _ => writeValue_item q.2
  | .float _ => intro limit b h _; cases h
  | .tag _ _ => intro limit b h _; cases h
termination_by sizeOf v
decreasing_by
  · have := List.sizeOf_lt_of_mem ‹x ∈ xs›
    simp only [Cbor.Value.array.sizeOf_spec]
    omega
  · have := List.sizeOf_lt_of_mem ‹q ∈ m›
    have hq' : sizeOf q = 1 + sizeOf q.1 + sizeOf q.2 := by cases q; rfl
    simp only [Cbor.Value.map.sizeOf_spec]
    omega

end

end SwarrmVerify.L1.CborWire

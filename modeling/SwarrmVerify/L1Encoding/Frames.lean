import SwarrmVerify.L1Encoding.CborWire

/-!
# The scan and the grammar

The scan of `cbor_wire.rs` keeps the numbers of members still to come on a
stack and walks the bytes once. What it accepts is the recursive grammar of
items: `Frame`, within the limits of depth and number. A stack of counts is a
continuation of the grammar, written down: the top says how many items of the
innermost container are missing, the one below how many of the next, and so on.
`Walked` is what a walk has consumed when the top of its stack is done.

There are two directions. That a framed item is walked to its end was shown
with the scan. Here is the converse, which has no item to start from: it takes
a walk that ended, finds the head it began with (`readHead_inv`), and gives to
each container the members that the walk went through.

* `members_sound`: the members of the container on top of the stack, by
  induction on their number.
* `scanLoop_sound`: a finished walk has consumed one item, and spent one unit
  of its budget on every head of it.
* `scan_iff_frame`: for every byte string and all limits, the scan ends at `k`
  exactly if the first `k` bytes are one item of the grammar within the limits.
-/
namespace SwarrmVerify.L1.Frames
open Cbor CborWire

/-! ## Heads -/

/-- The bytes of a head that was read, and what they say. -/
inductive HeadRead (major : UInt8) (arg : Nat) (hd : Bytes) : Prop where
  | counted (hm : major.toNat < 6) (h : Head major arg hd)
  | simple (b : UInt8) (hm : major = 7) (hb : b = 0xf4 ∨ b = 0xf5 ∨ b = 0xf6) (h : hd = [b])

theorem simple_byte {byte : UInt8} (hmajor : byte >>> 5 = 7) (hlow : 20 ≤ byte &&& 0x1f) (hhigh : byte &&& 0x1f ≤ 22) :
    byte = 0xf4 ∨ byte = 0xf5 ∨ byte = 0xf6 := by
  have hjoin := initial_join byte
  rw [hmajor] at hjoin
  rw [UInt8.le_iff_toNat_le] at hlow hhigh
  have hinfo : byte &&& 0x1f = 20 ∨ byte &&& 0x1f = 21 ∨ byte &&& 0x1f = 22 := by
    simp only [← UInt8.toNat_inj]
    simp only [UInt8.reduceToNat] at hlow hhigh ⊢
    omega
  rcases hinfo with h | h | h
  · rw [h] at hjoin
    exact .inl hjoin.symm
  · rw [h] at hjoin
    exact .inr (.inl hjoin.symm)
  · rw [h] at hjoin
    exact .inr (.inr hjoin.symm)

theorem readHead_inv {data rest : Bytes} {major : UInt8} {arg : Nat} (h : readHead data = some (major, arg, rest)) :
    ∃ hd, data = hd ++ rest ∧ HeadRead major arg hd := by
  cases data with
  | nil => cases h
  | cons byte tail =>
    have hjoin := initial_join byte
    have hmajor : (byte >>> 5).toNat < 8 := by
      rw [UInt8.toNat_shiftRight, Nat.shiftRight_eq_div_pow]
      have := byte.toNat_lt
      simp only [UInt8.reduceToNat, Nat.reduceMod, Nat.reducePow]
      omega
    have hnat : (byte &&& 0x1f).toNat < 32 := by
      rw [UInt8.toNat_and]
      exact lt_of_le_of_lt Nat.and_le_right (by decide)
    dsimp only [readHead] at h
    split at h
    · cases h
    rename_i hsix
    split at h
    · rename_i hseven
      split at h
      · rename_i hinfo
        cases h
        rw [beq_iff_eq] at hseven
        rw [Bool.and_eq_true, decide_eq_true_eq, decide_eq_true_eq] at hinfo
        exact ⟨[byte], rfl, .simple byte hseven (simple_byte hseven hinfo.1 hinfo.2) rfl⟩
      · cases h
    rename_i hseven
    have hm : (byte >>> 5).toNat < 6 := by
      rw [beq_iff_eq, ← UInt8.toNat_inj] at hsix hseven
      simp only [UInt8.reduceToNat] at hsix hseven
      omega
    split at h
    · rename_i hinfo
      cases h
      refine ⟨[byte], rfl, .counted hm ?_⟩
      have hshort := @Head.short (byte >>> 5) _ (UInt8.lt_iff_toNat_lt.mp hinfo)
      rwa [UInt8.ofNat_toNat, hjoin] at hshort
    rename_i hlow
    split at h
    · cases h
    rename_i hhigh
    split at h
    · cases h
    rename_i hlen
    cases h
    rw [UInt8.lt_iff_toNat_lt] at hlow
    rw [gt_iff_lt, UInt8.lt_iff_toNat_lt] at hhigh
    simp only [UInt8.reduceToNat] at hlow hhigh
    rw [Nat.one_shiftLeft] at hlen ⊢
    have htake : (tail.take (2 ^ ((byte &&& 0x1f).toNat - 24))).length = 2 ^ ((byte &&& 0x1f).toNat - 24) := by
      rw [List.length_take]
      omega
    refine ⟨byte :: tail.take (2 ^ ((byte &&& 0x1f).toNat - 24)), by rw [List.cons_append, List.take_append_drop],
      .counted hm ?_⟩
    have hlt := beNat_lt (tail.take (2 ^ ((byte &&& 0x1f).toNat - 24)))
    have hbytes := bytesBE_beNat (tail.take (2 ^ ((byte &&& 0x1f).toNat - 24)))
    rw [htake] at hlt hbytes
    have hlong := @Head.long (byte >>> 5) _ ((byte &&& 0x1f).toNat - 24) (by omega) hlt
    rwa [hbytes, show 24 + ((byte &&& 0x1f).toNat - 24) = (byte &&& 0x1f).toNat by omega, UInt8.ofNat_toNat, hjoin] at hlong

/-! ## What a walk has consumed -/

/-- The item at the front of the data and what is left of the budget behind it. -/
def Walked (depth budget : Nat) (stack : List Nat) (data rest : Bytes) : Prop :=
  ∃ d k b data', Frame d k b ∧ data = b ++ data' ∧ stack.length + d ≤ depth ∧ k ≤ budget ∧
    afterItem depth (budget - k) stack data' = some rest

/-- The members of the container on top of the stack. -/
theorem members_sound {depth bound : Nat} (ih : ∀ budget < bound, ∀ stack data rest, stack.length ≤ depth →
      scanLoop depth budget stack data = some rest → Walked depth budget stack data rest) (n : Nat) :
    ∀ budget < bound, ∀ stack data rest, stack.length < depth → 0 < n →
      scanLoop depth budget (n :: stack) data = some rest →
      ∃ d k b data', Frames n d k b ∧ data = b ++ data' ∧ stack.length + 1 + d ≤ depth ∧ k ≤ budget ∧
        afterItem depth (budget - k) stack data' = some rest := by
  induction n with
  | zero =>
    intro budget _ stack data rest _ hn
    exact absurd hn (lt_irrefl 0)
  | succ n ihn =>
    intro budget hbound stack data rest hstack _ h
    obtain ⟨d, k, b, data', hframe, rfl, hdepth, hk, hafter⟩ := ih budget hbound (_ :: stack) _ _ hstack h
    rw [afterItem_push] at hafter
    rw [List.length_cons] at hdepth
    by_cases hn : n > 0
    · rw [if_pos hn] at hafter
      obtain ⟨e, l, bs, data'', hframes, rfl, hdepth', hl, hafter⟩ :=
        ihn (budget - k) (by omega) stack data' rest hstack hn hafter
      refine ⟨max d e, k + l, b ++ bs, data'', .cons hframe hframes, (List.append_assoc _ _ _).symm, ?_, by omega, ?_⟩
      · omega
      · rwa [Nat.sub_sub] at hafter
    · rw [if_neg hn] at hafter
      obtain rfl : n = 0 := by omega
      refine ⟨d, k, b, data', ?_, rfl, hdepth, hk, hafter⟩
      have := Frames.cons hframe .nil
      rwa [List.append_nil, Nat.max_zero, Nat.add_zero] at this

theorem counted_cases {major : UInt8} (h : major.toNat < 6) :
    (major = 0 ∨ major = 1) ∨ (major = 2 ∨ major = 3) ∨ (major = 4 ∨ major = 5) := by
  simp only [← UInt8.toNat_inj]
  simp only [UInt8.reduceToNat]
  omega

/-- A head is an item with what belongs to it, or it opens a container. -/
theorem scanItem_inv {major : UInt8} {arg depth : Nat} {hd tail after : Bytes} {stack : List Nat}
    {opened : Option (List Nat)} (hread : HeadRead major arg hd)
    (h : scanItem tail major arg stack depth = some (after, opened)) :
    (opened = none ∧ ∃ b, Frame 0 1 b ∧ hd ++ tail = b ++ after) ∨
      ∃ n, 0 < n ∧ opened = some (n :: stack) ∧ after = tail ∧ stack.length < depth ∧
        ∀ d k body, Frames n d k body → Frame (1 + d) (1 + k) (hd ++ body) := by
  cases hread with
  | simple b hm hb hhd =>
    subst hm hhd
    cases h
    exact .inl ⟨rfl, [b], .simple hb, rfl⟩
  | counted hm hhead =>
    rcases counted_cases hm with hint | hstring | hcontainer
    · have hleaf : scanItem tail major arg stack depth = some (tail, none) := by
        rcases hint with rfl | rfl <;> rfl
      rw [hleaf] at h
      cases h
      exact .inl ⟨rfl, hd, .int hint hhead, rfl⟩
    · have hscan : scanItem tail major arg stack depth = (scanString tail arg).map fun rest => (rest, none) := by
        rcases hstring with rfl | rfl <;> rfl
      rw [hscan, scanString] at h
      split at h
      · rename_i hfit
        cases h
        have htake : (tail.take arg).length = arg := List.length_take_of_le hfit
        rw [← htake] at hhead
        exact .inl ⟨rfl, hd ++ tail.take arg, .string hstring hhead, by rw [List.append_assoc, List.take_append_drop]⟩
      · cases h
    · have hscan : scanItem tail major arg stack depth =
          (scanContainer tail major arg stack depth).map fun opened => (tail, opened) := by
        rcases hcontainer with rfl | rfl <;> rfl
      rw [hscan] at h
      obtain ⟨opened', hopened, h⟩ := Option.map_eq_some_iff.mp h
      cases h
      dsimp only [scanContainer] at hopened
      generalize hcount : (if major == 4 then arg else 2 * arg) = n at hopened
      split at hopened
      · cases hopened
      split at hopened
      · cases hopened
      split at hopened
      · rename_i hzero
        cases hopened
        have harg : arg = 0 := by
          rcases hcontainer with rfl | rfl
          · exact hcount.trans hzero
          · have hcount : 2 * arg = n := hcount
            omega
        subst harg
        exact .inl ⟨rfl, hd, .empty hcontainer hhead, rfl⟩
      rename_i hpos
      split at hopened
      · cases hopened
      rename_i hdepth
      cases hopened
      refine .inr ⟨n, Nat.pos_of_ne_zero hpos, rfl, rfl, by omega, ?_⟩
      intro d k body hbody
      rcases hcontainer with rfl | rfl
      · obtain rfl : arg = n := hcount
        obtain ⟨n, rfl⟩ := Nat.exists_eq_succ_of_ne_zero hpos
        exact .array hhead hbody
      · obtain rfl : 2 * arg = n := hcount
        obtain ⟨n, rfl⟩ : ∃ n, arg = n + 1 := Nat.exists_eq_succ_of_ne_zero (by omega)
        exact .map hhead hbody

/-- The head, what it opens and, if that is a container, its members. -/
theorem scanLoop_sound (depth : Nat) : ∀ budget stack data rest, stack.length ≤ depth →
    scanLoop depth budget stack data = some rest → Walked depth budget stack data rest := by
  intro budget
  induction budget using Nat.strong_induction_on with
  | _ budget ih =>
    intro stack data rest hstack h
    cases budget with
    | zero => cases h
    | succ budget =>
      simp only [scanLoop, Option.bind_eq_bind, Option.bind_eq_some_iff] at h
      obtain ⟨⟨major, arg, tail⟩, hhead, ⟨after, opened⟩, hitem, h⟩ := h
      obtain ⟨hd, rfl, hread⟩ := readHead_inv hhead
      rcases scanItem_inv hread hitem with ⟨rfl, b, hframe, hcut⟩ | ⟨n, hn, rfl, rfl, hdepth, hwrap⟩
      · exact ⟨0, 1, b, after, hframe, hcut, hstack, by omega, h⟩
      · obtain ⟨d, k, body, data', hframes, rfl, hdepth', hk, hafter⟩ :=
          members_sound ih n budget (Nat.lt_succ_self budget) stack _ rest hdepth hn h
        refine ⟨1 + d, 1 + k, hd ++ body, data', hwrap d k body hframes, (List.append_assoc _ _ _).symm, by omega,
          by omega, ?_⟩
        rwa [Nat.add_comm 1 k, Nat.add_sub_add_right]

/-- **The scan is the grammar.** For every byte string and all limits: the scan
ends at `k` exactly if the first `k` bytes are one item whose containers with
members are nested at most `depth` deep and which comprises at most `limit`
items. -/
theorem scan_iff_frame (data : Slice) (depth limit k : Nat) :
    structuralScan data.val depth limit = some k ↔
      k ≤ data.val.length ∧ ∃ d n, Frame d n (data.val.take k) ∧ d ≤ depth ∧ n ≤ limit := by
  have hlen := data.property
  constructor
  · intro h
    obtain ⟨rest, hscan, rfl⟩ := Option.map_eq_some_iff.mp h
    obtain ⟨d, n, b, data', hframe, hcut, hdepth, hn, hafter⟩ := scanLoop_sound depth limit [] _ _ (Nat.zero_le _) hscan
    cases hafter
    rw [hcut, List.length_append, Nat.add_sub_cancel, List.take_left]
    exact ⟨Nat.le_add_right _ _, d, n, hframe, by simpa using hdepth, hn⟩
  · intro h
    obtain ⟨hk, d, n, hframe, hdepth, hn⟩ := h
    have hscan := scanLoop_frame depth hframe limit [] (data.val.drop k)
      (by rw [List.take_append_drop]; omega) (by simpa using hdepth)
    rw [List.take_append_drop, if_pos hn] at hscan
    rw [structuralScan, hscan]
    simp only [afterItem, completeItem, Option.map_some, List.length_drop, Option.some.injEq]
    omega

end SwarrmVerify.L1.Frames

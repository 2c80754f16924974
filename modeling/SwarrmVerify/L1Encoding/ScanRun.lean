import SwarrmVerify.Core.Panics
import SwarrmVerify.L1Encoding.CborWire

/-!
# The arithmetic of the scan

The structural scan of `cbor_wire.rs` as it is written: on an index into the
data, with words of the machine and 64-bit arguments, a stack of counts and a
loop that is left by `return`. Every addition, subtraction and narrowing is one
that fails where the machine's would wrap or truncate, and every slice one that
fails out of range. The machine is a parameter (`Target`), with 16 to 64 bits
to a word; data spans at most half of its address space, as Rust guarantees of
a slice.

A turn of the loop reads one item head. `Sound` is what holds whenever a turn
begins: the offset is in the data and at least the number of turns taken, that
number is within the limit, and every count on the stack is positive. It keeps
the subtraction from the top of the stack from going below zero, and makes the
loop end, since every turn takes a byte.

* `readHeadRun_spec` to `scanItemRun_spec`: each part of a turn fails nowhere,
  and what it computes.
* `turn_spec`: a turn from a sound state goes on from a sound state one item
  further, or is over.
* `scan_runs`: on every machine, for every byte string and all limits, no turn
  fails, the loop ends within the items or the bytes that there are, and it
  returns what the scan without machine words says.
-/
namespace SwarrmVerify.L1.ScanRun
open Panics CborWire

/-- A machine: the width of `usize`. -/
structure Target where
  bits : Nat
  least : 16 ≤ bits
  most : bits ≤ 64

/-- A slice spans at most half of the address space. -/
abbrev Target.Data (t : Target) := { b : Bytes // b.length < 2 ^ (t.bits - 1) }

/-- `a + b` on words. -/
def add (bits a b : Nat) : Run Nat := if a + b < 2 ^ bits then .ok (a + b) else .error .range

/-- `n as` a word that holds it. -/
def narrow (bits n : Nat) : Run Nat := if n < 2 ^ bits then .ok n else .error .range

/-- `n as u64` -/
def asU64 (n : Nat) : Run UInt64 := do return UInt64.ofNat (← narrow 64 n)

/-- `data.get(i..j)` -/
def getRange (data : Bytes) (i j : Nat) : Option Bytes :=
  if i ≤ j ∧ j ≤ data.length then some ((data.take j).drop i) else none

/-- `arg.checked_mul(2)` -/
def doubled (arg : UInt64) : Option UInt64 := if 2 * arg.toNat < 2 ^ 64 then some (2 * arg) else none

section
variable (t : Target)

/-- mirrors verify-rs/src/cbor_wire.rs:136-159 -/
def readHeadRun (data : Bytes) (i : Nat) : Run (Option (UInt8 × UInt64 × Nat)) :=
  match data[i]? with
  | none => return none
  | some byte => do
    let major := byte >>> 5
    let info := byte &&& 0x1f
    let i ← add t.bits i 1
    if major == 6 then return none
    else if major == 7 then return if 20 ≤ info && info ≤ 22 then some (major, 0, i) else none
    else if info < 24 then return some (major, info.toUInt64, i)
    else if info > 27 then return none
    else
      let width := 1 <<< (← sub info.toNat 24)
      match getRange data i (← add t.bits i width) with
      | none => return none
      | some raw =>
        let arg := raw.foldl (fun (arg : UInt64) byte => (arg <<< 8) ||| byte.toUInt64) 0
        return some (major, arg, ← add t.bits i width)

/-- mirrors verify-rs/src/cbor_wire.rs:163-168 -/
def scanStringRun (data : Bytes) (i : Nat) (arg : UInt64) : Run (Option Nat) :=
  if i ≤ data.length then do
    if arg ≤ (← asU64 (data.length - i)) then return some (← add t.bits i (← narrow t.bits arg.toNat))
    else return none
  else return none

/-- mirrors verify-rs/src/cbor_wire.rs:170-183 -/
def scanContainerRun (data : Bytes) (i : Nat) (major : UInt8) (arg : UInt64) (stack : List UInt64) (maxDepth : Nat) :
    Run (Option (Option (List UInt64))) :=
  match if major == 4 then some arg else doubled arg with
  | none => return none
  | some count => do
    if count > (← asU64 (← sub data.length i)) then return none
    else if count == 0 then return some none
    else if stack.length ≥ maxDepth then return none
    else return some (some (count :: stack))

/-- mirrors verify-rs/src/cbor_wire.rs:185-191 -/
def scanItemRun (data : Bytes) (i : Nat) (major : UInt8) (arg : UInt64) (stack : List UInt64) (maxDepth : Nat) :
    Run (Option (Nat × Option (List UInt64))) := do
  if major == 2 || major == 3 then return (← scanStringRun t data i arg).map fun i => (i, none)
  else if major == 4 || major == 5 then
    return (← scanContainerRun data i major arg stack maxDepth).map fun opened => (i, opened)
  else return some (i, none)

/-- mirrors verify-rs/src/cbor_wire.rs:193-202 -/
def completeItemRun : List UInt64 → Run (Option (List UInt64))
  | [] => return none
  | top :: stack => do
    let left ← sub top.toNat 1
    if left > 0 then return some (UInt64.ofNat left :: stack) else completeItemRun stack

structure State where
  offset : Nat
  stack : List UInt64
  items : Nat

inductive Step where
  | next (s : State)
  | done (r : Option Nat)

/-- One turn of the loop. mirrors verify-rs/src/cbor_wire.rs:209-221 -/
def turn (data : Bytes) (maxDepth maxItems : Nat) (s : State) : Run Step :=
  -- `checked_add` of a word
  if s.items + 1 ≥ 2 ^ t.bits then return .done none
  else if s.items + 1 > maxItems then return .done none
  else do
    match ← readHeadRun t data s.offset with
    | none => return .done none
    | some (major, arg, i) =>
      match ← scanItemRun t data i major arg s.stack maxDepth with
      | none => return .done none
      | some (i, some opened) => return .next ⟨i, opened, s.items + 1⟩
      | some (i, none) =>
        match ← completeItemRun s.stack with
        | none => return .done (some i)
        | some stack => return .next ⟨i, stack, s.items + 1⟩

def State.initial : State := ⟨0, [], 0⟩

/-- At most so many turns; `none` when they did not end the loop.
mirrors verify-rs/src/cbor_wire.rs:204-222 -/
def turns (data : Bytes) (maxDepth maxItems : Nat) : Nat → State → Run (Option (Option Nat))
  | 0, _ => return none
  | n + 1, s => do
    match ← turn t data maxDepth maxItems s with
    | .done r => return some r
    | .next s => turns data maxDepth maxItems n s

/-- The states in which a turn begins. -/
inductive Visits (data : Bytes) (maxDepth maxItems : Nat) : State → Prop where
  | initial : Visits data maxDepth maxItems .initial
  | next {s s' : State} (h : Visits data maxDepth maxItems s) (hturn : turn t data maxDepth maxItems s = .ok (.next s')) :
      Visits data maxDepth maxItems s'

end

/-! ## No operation fails -/

theorem add_ok {bits a b : Nat} (h : a + b < 2 ^ bits) : add bits a b = .ok (a + b) := if_pos h

theorem narrow_ok {bits n : Nat} (h : n < 2 ^ bits) : narrow bits n = .ok n := if_pos h

theorem asU64_ok {n : Nat} (h : n < 2 ^ 64) : asU64 n = .ok (UInt64.ofNat n) := by
  rw [asU64, narrow_ok h, ok_bind]
  rfl

theorem sub_ok {a b : Nat} (h : b ≤ a) : sub a b = .ok (a - b) := if_pos h

/-- Eight bytes fit into the argument. -/
theorem foldl_shift : ∀ (raw : Bytes) (a : UInt64), (a.toNat + 1) * 256 ^ raw.length ≤ 2 ^ 64 →
    (raw.foldl (fun (arg : UInt64) byte => (arg <<< 8) ||| byte.toUInt64) a).toNat =
      raw.foldl (fun n x => n * 256 + x.toNat) a.toNat
  | [], _, _ => rfl
  | x :: raw, a, h => by
    rw [List.length_cons, pow_succ, mul_comm (256 ^ raw.length), ← mul_assoc] at h
    have hpos : 1 ≤ 256 ^ raw.length := Nat.one_le_two_pow.trans (Nat.pow_le_pow_left (by decide) _)
    have hx := x.toNat_lt
    have hroom : (a.toNat + 1) * 256 ≤ 2 ^ 64 := le_trans (Nat.le_mul_of_pos_right _ hpos) h
    have hstep : ((a <<< 8) ||| x.toUInt64).toNat = a.toNat * 256 + x.toNat := by
      rw [UInt64.toNat_or, UInt64.toNat_shiftLeft, UInt8.toNat_toUInt64]
      have hshift : a.toNat <<< (8 % 64) % 2 ^ 64 = 2 ^ 8 * a.toNat := by
        rw [show 8 % 64 = 8 from rfl, Nat.shiftLeft_eq, Nat.mod_eq_of_lt (by omega)]
        omega
      have height : (8 : UInt64).toNat = 8 := rfl
      rw [height, hshift, ← Nat.two_pow_add_eq_or_of_lt hx]
      omega
    rw [List.foldl_cons, List.foldl_cons, foldl_shift raw _ ?_, hstep]
    rw [hstep]
    exact le_trans (Nat.mul_le_mul_right _ (by omega)) h

section
variable (t : Target) (data : t.Data)

theorem Target.half_le : 2 ^ (t.bits - 1) + 2 ^ (t.bits - 1) = 2 ^ t.bits := by
  have h := t.least
  conv_rhs => rw [show t.bits = t.bits - 1 + 1 by omega]
  rw [pow_succ]
  omega

/-- There is room for a head behind every offset. -/
theorem Target.room {n : Nat} (h : n ≤ data.val.length + 9) : n < 2 ^ t.bits := by
  have hlen := data.property
  have hhalf := t.half_le
  have h15 : 2 ^ 15 ≤ 2 ^ (t.bits - 1) := Nat.pow_le_pow_right (by decide) (by have := t.least; omega)
  omega

theorem Target.wide {n : Nat} (h : n ≤ data.val.length) : n < 2 ^ 64 := by
  have hroom := t.room data (n := n) (by omega)
  exact lt_of_lt_of_le hroom (Nat.pow_le_pow_right (by decide) t.most)

theorem readHeadRun_spec {i : Nat} :
    Returns (readHeadRun t data.val i) fun o => match o with
      | none => readHead (data.val.drop i) = none
      | some (major, arg, j) => i < j ∧ j ≤ data.val.length ∧
          readHead (data.val.drop i) = some (major, arg.toNat, data.val.drop j) := by
  unfold readHeadRun
  rcases Nat.lt_or_ge i data.val.length with hlt | hge
  · have hbyte : data.val[i]? = some data.val[i] := List.getElem?_eq_getElem hlt
    rw [hbyte, List.drop_eq_getElem_cons hlt]
    dsimp only
    rw [add_ok (t.room data (by omega)), ok_bind]
    generalize data.val[i] = byte
    dsimp only [readHead]
    by_cases hsix : (byte >>> 5 == 6) = true
    · rw [if_pos hsix, if_pos hsix]
      exact ⟨_, rfl, rfl⟩
    rw [if_neg hsix, if_neg hsix]
    by_cases hseven : (byte >>> 5 == 7) = true
    · rw [if_pos hseven, if_pos hseven]
      by_cases hinfo : (20 ≤ byte &&& 0x1f && byte &&& 0x1f ≤ 22) = true
      · rw [if_pos hinfo, if_pos hinfo]
        exact ⟨_, rfl, Nat.lt_succ_self i, hlt, rfl⟩
      · rw [if_neg hinfo, if_neg hinfo]
        exact ⟨_, rfl, rfl⟩
    rw [if_neg hseven, if_neg hseven]
    by_cases hlow : byte &&& 0x1f < 24
    · rw [if_pos hlow, if_pos hlow]
      exact ⟨_, rfl, Nat.lt_succ_self i, hlt, by rw [UInt8.toNat_toUInt64]⟩
    rw [if_neg hlow, if_neg hlow]
    by_cases hhigh : byte &&& 0x1f > 27
    · rw [if_pos hhigh, if_pos hhigh]
      exact ⟨_, rfl, rfl⟩
    rw [if_neg hhigh, if_neg hhigh]
    rw [UInt8.lt_iff_toNat_lt] at hlow
    rw [gt_iff_lt, UInt8.lt_iff_toNat_lt] at hhigh
    simp only [UInt8.reduceToNat] at hlow hhigh
    generalize (byte &&& 0x1f).toNat = info at hlow hhigh
    have hwidth : 1 <<< (info - 24) ≤ 8 := by
      rw [Nat.one_shiftLeft]
      exact Nat.pow_le_pow_right (by decide) (by omega : info - 24 ≤ 3)
    rw [sub_ok (by omega), ok_bind]
    generalize 1 <<< (info - 24) = width at hwidth
    rw [add_ok (t.room data (by omega)), ok_bind, List.length_drop]
    unfold getRange
    by_cases hfit : i + 1 + width ≤ data.val.length
    · rw [if_pos ⟨by omega, hfit⟩, if_neg (by omega)]
      refine ⟨_, rfl, by omega, hfit, ?_⟩
      have hraw : (data.val.take (i + 1 + width)).drop (i + 1) = (data.val.drop (i + 1)).take width := by
        rw [List.drop_take, Nat.add_sub_cancel_left]
      have hpow : 256 ^ ((data.val.drop (i + 1)).take width).length ≤ 2 ^ 64 := by
        refine le_trans (Nat.pow_le_pow_right (by decide) (le_trans (List.length_take_le _ _) hwidth)) (by decide)
      rw [hraw, foldl_shift _ 0 (by simpa using hpow), List.drop_drop]
      rfl
    · rw [if_neg (by omega), if_pos (by omega)]
      exact ⟨_, rfl, rfl⟩
  · rw [List.getElem?_eq_none hge, List.drop_eq_nil_of_le hge]
    exact ⟨_, rfl, rfl⟩

theorem scanStringRun_spec {i : Nat} (hi : i ≤ data.val.length) (arg : UInt64) :
    Returns (scanStringRun t data.val i arg) fun o => match o with
      | none => scanString (data.val.drop i) arg.toNat = none
      | some j => i ≤ j ∧ j ≤ data.val.length ∧ scanString (data.val.drop i) arg.toNat = some (data.val.drop j) := by
  have hleft : data.val.length - i < 2 ^ 64 := t.wide data (by omega)
  unfold scanStringRun scanString
  rw [if_pos hi, asU64_ok hleft, ok_bind, List.length_drop]
  have hle : arg ≤ UInt64.ofNat (data.val.length - i) ↔ arg.toNat ≤ data.val.length - i := by
    rw [UInt64.le_iff_toNat_le, UInt64.toNat_ofNat_of_lt' hleft]
  by_cases hfit : arg.toNat ≤ data.val.length - i
  · rw [if_pos (hle.mpr hfit), if_pos hfit, narrow_ok (t.room data (by omega)), ok_bind,
      add_ok (t.room data (by omega)), ok_bind]
    exact ⟨_, rfl, by omega, by omega, by rw [List.drop_drop]⟩
  · rw [if_neg fun h => hfit (hle.mp h), if_neg hfit]
    exact ⟨_, rfl, rfl⟩

/-- The counts as numbers. -/
def counts (stack : List UInt64) : List Nat := stack.map UInt64.toNat

theorem scanContainerRun_spec {i : Nat} (hi : i ≤ data.val.length) (major : UInt8) (arg : UInt64)
    (stack : List UInt64) (depth : Nat) :
    Returns (scanContainerRun data.val i major arg stack depth) fun o =>
      scanContainer (data.val.drop i) major arg.toNat (counts stack) depth = o.map (Option.map counts) ∧
        ∀ opened, o = some (some opened) → ∃ n, opened = n :: stack ∧ 1 ≤ n.toNat := by
  have hleft : data.val.length - i < 2 ^ 64 := t.wide data (by omega)
  unfold scanContainerRun
  have hcount : (if (major == 4) = true then some arg else doubled arg) = none ∧
        2 ^ 64 ≤ (if (major == 4) = true then arg.toNat else 2 * arg.toNat) ∨
      ∃ n : UInt64, (if (major == 4) = true then some arg else doubled arg) = some n ∧
        (if (major == 4) = true then arg.toNat else 2 * arg.toNat) = n.toNat := by
    cases major == 4 with
    | true => exact .inr ⟨arg, rfl, rfl⟩
    | false =>
      by_cases h : 2 * arg.toNat < 2 ^ 64
      · refine .inr ⟨2 * arg, if_pos h, ?_⟩
        show 2 * arg.toNat = (2 * arg).toNat
        rw [UInt64.toNat_mul]
        exact (Nat.mod_eq_of_lt h).symm
      · exact .inl ⟨if_neg h, not_lt.mp h⟩
  dsimp only [scanContainer]
  rcases hcount with ⟨hnone, hbig⟩ | ⟨n, hsome, hn⟩
  · rw [hnone, if_pos hbig]
    exact ⟨_, rfl, rfl, nofun⟩
  · have hlt := n.toNat_lt
    rw [hsome, hn, if_neg (by omega), List.length_drop]
    dsimp only
    rw [sub_ok hi, ok_bind, asU64_ok hleft, ok_bind]
    have hgt : n > UInt64.ofNat (data.val.length - i) ↔ n.toNat > data.val.length - i := by
      rw [gt_iff_lt, UInt64.lt_iff_toNat_lt, UInt64.toNat_ofNat_of_lt' hleft]
    have hzero : (n == 0) = true ↔ n.toNat = 0 := by
      rw [beq_iff_eq, ← UInt64.toNat_inj]
      rfl
    by_cases hfit : n.toNat > data.val.length - i
    · rw [if_pos (hgt.mpr hfit), if_pos hfit]
      exact ⟨_, rfl, rfl, nofun⟩
    rw [if_neg fun h => hfit (hgt.mp h), if_neg hfit]
    by_cases hz : n.toNat = 0
    · rw [if_pos (hzero.mpr hz), if_pos hz]
      exact ⟨_, rfl, rfl, nofun⟩
    rw [if_neg fun h => hz (hzero.mp h), if_neg hz, counts, List.length_map]
    by_cases hdepth : stack.length ≥ depth
    · rw [if_pos hdepth, if_pos hdepth]
      exact ⟨_, rfl, rfl, nofun⟩
    · rw [if_neg hdepth, if_neg hdepth]
      refine ⟨_, rfl, rfl, ?_⟩
      intro opened h
      cases h
      exact ⟨n, rfl, by omega⟩

theorem completeItemRun_spec (stack : List UInt64) (h : ∀ c ∈ stack, 1 ≤ c.toNat) :
    Returns (completeItemRun stack) fun o => completeItem (counts stack) = o.map counts ∧
      ∀ left, o = some left → ∀ c ∈ left, 1 ≤ c.toNat := by
  induction stack with
  | nil => exact ⟨_, rfl, rfl, nofun⟩
  | cons top stack ih =>
    rw [List.forall_mem_cons] at h
    have htop := top.toNat_lt
    rw [completeItemRun, sub_ok h.1, ok_bind, counts, List.map_cons, completeItem]
    by_cases hleft : top.toNat - 1 > 0
    · have hnat : (UInt64.ofNat (top.toNat - 1)).toNat = top.toNat - 1 :=
        UInt64.toNat_ofNat_of_lt' (lt_of_le_of_lt (Nat.sub_le _ _) htop)
      rw [if_pos hleft, if_pos hleft]
      refine ⟨_, rfl, ?_, ?_⟩
      · rw [Option.map_some, counts, List.map_cons, hnat]
      · intro left hl
        cases hl
        rw [List.forall_mem_cons, hnat]
        exact ⟨hleft, h.2⟩
    · rw [if_neg hleft, if_neg hleft]
      exact ih h.2

theorem scanItemRun_spec {i : Nat} (hi : i ≤ data.val.length) (major : UInt8) (arg : UInt64) (stack : List UInt64)
    (depth : Nat) :
    Returns (scanItemRun t data.val i major arg stack depth) fun o => match o with
      | none => scanItem (data.val.drop i) major arg.toNat (counts stack) depth = none
      | some (j, opened) => i ≤ j ∧ j ≤ data.val.length ∧
          scanItem (data.val.drop i) major arg.toNat (counts stack) depth =
            some (data.val.drop j, opened.map counts) ∧
          ∀ new, opened = some new → ∃ n, new = n :: stack ∧ 1 ≤ n.toNat := by
  unfold scanItemRun scanItem
  by_cases hstring : (major == 2 || major == 3) = true
  · rw [if_pos hstring, if_pos hstring]
    refine (scanStringRun_spec t data hi arg).bind fun o ho => ?_
    cases o with
    | none => exact ⟨_, rfl, by rw [ho]; rfl⟩
    | some j =>
      obtain ⟨hij, hj, hscan⟩ := ho
      exact ⟨_, rfl, hij, hj, by rw [hscan]; rfl, nofun⟩
  rw [if_neg hstring, if_neg hstring]
  by_cases hcontainer : (major == 4 || major == 5) = true
  · rw [if_pos hcontainer, if_pos hcontainer]
    refine (scanContainerRun_spec t data hi major arg stack depth).bind fun o ho => ?_
    obtain ⟨hscan, hopened⟩ := ho
    cases o with
    | none => exact ⟨_, rfl, by rw [hscan]; rfl⟩
    | some opened => exact ⟨_, rfl, le_refl i, hi, by rw [hscan]; rfl, fun new hnew => hopened new (by rw [hnew])⟩
  · rw [if_neg hcontainer, if_neg hcontainer]
    exact ⟨_, rfl, le_refl i, hi, rfl, nofun⟩

/-! ## The loop -/

/-- The offset is in the data and at least the number of turns, which is within
the limit; every container has members to come. -/
structure Sound (limit : Nat) (s : State) : Prop where
  offset : s.offset ≤ data.val.length
  counts : ∀ c ∈ s.stack, 1 ≤ c
  items : s.items ≤ limit
  progress : s.items ≤ s.offset

theorem sound_initial (limit : Nat) : Sound t data limit .initial :=
  ⟨Nat.zero_le _, nofun, Nat.zero_le _, Nat.le_refl 0⟩

theorem one_le_iff {c : UInt64} : 1 ≤ c ↔ 1 ≤ c.toNat := UInt64.le_iff_toNat_le

/-- The walk from a state on. -/
def State.scan (depth limit : Nat) (s : State) : Option Bytes :=
  scanLoop depth (limit - s.items) (counts s.stack) (data.val.drop s.offset)

/-- One turn: it goes on from a sound state, one item further, or it is over. -/
theorem turn_spec {depth limit : Nat} (hlimit : limit < 2 ^ t.bits) {s : State} (h : Sound t data limit s) :
    Returns (turn t data.val depth limit s) fun step => match step with
      | .next s' => Sound t data limit s' ∧ s'.items = s.items + 1 ∧ s.items < limit ∧ s.offset < s'.offset ∧
          s.scan t data depth limit = s'.scan t data depth limit
      | .done none => s.scan t data depth limit = none
      | .done (some k) => k ≤ data.val.length ∧ s.scan t data depth limit = some (data.val.drop k) := by
  have hstack : ∀ c ∈ s.stack, 1 ≤ c.toNat := fun c hc => one_le_iff.mp (h.counts c hc)
  unfold turn
  by_cases hover : s.items + 1 > limit
  · have hzero : s.scan t data depth limit = none := by
      rw [State.scan, show limit - s.items = 0 by omega]
      rfl
    by_cases hword : s.items + 1 ≥ 2 ^ t.bits
    · rw [if_pos hword]
      exact ⟨_, rfl, hzero⟩
    · rw [if_neg hword, if_pos hover]
      exact ⟨_, rfl, hzero⟩
  · rw [if_neg (by omega), if_neg hover]
    obtain ⟨budget, hbudget⟩ : ∃ budget, limit - s.items = budget + 1 := ⟨limit - s.items - 1, by omega⟩
    have hnext : limit - (s.items + 1) = budget := by omega
    refine (readHeadRun_spec t data).bind fun o ho => ?_
    cases o with
    | none =>
      refine ⟨_, rfl, ?_⟩
      show State.scan t data depth limit s = none
      rw [State.scan, hbudget, scanLoop, ho]
      rfl
    | some head =>
      obtain ⟨major, arg, i⟩ := head
      obtain ⟨hi, hlen, hhead⟩ := ho
      refine (scanItemRun_spec t data hlen major arg s.stack depth).bind fun o ho => ?_
      cases o with
      | none =>
        refine ⟨_, rfl, ?_⟩
        show State.scan t data depth limit s = none
        simp only [State.scan, hbudget, scanLoop, hhead, ho, Option.bind_eq_bind, Option.bind_some, Option.bind_none]
      | some item =>
        obtain ⟨j, opened⟩ := item
        obtain ⟨hij, hj, hitem, hnew⟩ := ho
        cases opened with
        | some stack =>
          obtain ⟨n, rfl, hn⟩ := hnew stack rfl
          refine ⟨_, rfl, ⟨hj, ?_, not_lt.mp hover, ?_⟩, rfl, not_lt.mp hover, ?_, ?_⟩
          · rw [List.forall_mem_cons]
            exact ⟨one_le_iff.mpr hn, h.counts⟩
          · have := h.progress
            show s.items + 1 ≤ j
            omega
          · show s.offset < j
            omega
          · simp only [State.scan, hbudget, hnext, scanLoop, hhead, hitem, Option.bind_eq_bind, Option.bind_some,
              Option.map_some]
        | none =>
          refine (completeItemRun_spec s.stack hstack).bind fun o ho => ?_
          obtain ⟨hcomplete, hleft⟩ := ho
          cases o with
          | none =>
            refine ⟨_, rfl, hj, ?_⟩
            simp only [State.scan, hbudget, scanLoop, hhead, hitem, hcomplete, Option.bind_eq_bind, Option.bind_some,
              Option.map_none]
          | some stack =>
            refine ⟨_, rfl, ⟨hj, ?_, not_lt.mp hover, ?_⟩, rfl, not_lt.mp hover, ?_, ?_⟩
            · intro c hc
              exact one_le_iff.mpr (hleft stack rfl c hc)
            · have := h.progress
              show s.items + 1 ≤ j
              omega
            · show s.offset < j
              omega
            · simp only [State.scan, hbudget, hnext, scanLoop, hhead, hitem, hcomplete, Option.bind_eq_bind,
                Option.bind_some, Option.map_none, Option.map_some]

theorem visits_sound {depth limit : Nat} (hlimit : limit < 2 ^ t.bits) {s : State}
    (h : Visits t data.val depth limit s) : Sound t data limit s := by
  induction h with
  | initial => exact sound_initial t data limit
  | next _ hturn ih =>
    obtain ⟨step, hstep, hnext⟩ := turn_spec t data hlimit ih
    rw [hturn] at hstep
    cases hstep
    exact hnext.1

/-- Every turn takes a byte and one of the items. -/
theorem turns_end {depth limit : Nat} (hlimit : limit < 2 ^ t.bits) (n : Nat) : ∀ {s : State}, Sound t data limit s →
    min limit data.val.length + 1 ≤ n + s.items → ∃ r, turns t data.val depth limit n s = .ok (some r) ∧
      match r with
      | none => s.scan t data depth limit = none
      | some k => k ≤ data.val.length ∧ s.scan t data depth limit = some (data.val.drop k) := by
  induction n with
  | zero =>
    intro s h hn
    have := h.items
    have := h.progress
    have := h.offset
    omega
  | succ n ih =>
    intro s h hn
    obtain ⟨step, hstep, hspec⟩ := turn_spec t data hlimit h
    rw [turns, hstep, ok_bind]
    cases step with
    | done r =>
      refine ⟨r, rfl, ?_⟩
      cases r <;> exact hspec
    | next s' =>
      obtain ⟨hsound, hitems, -, -, hscan⟩ := hspec
      obtain ⟨r, hr, hspec⟩ := ih hsound (by omega)
      rw [hscan]
      exact ⟨r, hr, hspec⟩

/-- **The scan computes without a fault and ends.** On every machine, for every
byte string and all limits: whenever a turn begins the offset is in the data
and every count on the stack is positive, no operation of the turn wraps,
truncates or falls below zero, and after as many turns as there are bytes or
items to visit, and one, the loop has ended with the result of the scan. -/
theorem scan_runs (depth limit : Fin (2 ^ t.bits)) :
    (∀ s, Visits t data.val depth limit s → s.offset ≤ data.val.length ∧ (∀ c ∈ s.stack, 1 ≤ c) ∧
      Safe (turn t data.val depth limit s)) ∧
    turns t data.val depth limit (min limit.val data.val.length + 1) .initial =
      .ok (some (structuralScan data.val depth limit)) := by
  constructor
  · intro s h
    have hsound := visits_sound t data limit.isLt h
    exact ⟨hsound.offset, hsound.counts, (turn_spec t data limit.isLt hsound).safe⟩
  · obtain ⟨r, hr, hspec⟩ := @turns_end t data depth limit limit.isLt (min limit.val data.val.length + 1) _
      (sound_initial t data limit) (by simp [State.initial])
    rw [hr, structuralScan]
    have hscan : State.initial.scan t data depth limit = scanLoop depth limit [] data.val := rfl
    cases r with
    | none =>
      rw [← hscan, hspec]
      rfl
    | some k =>
      rw [← hscan, hspec.2, Option.map_some, List.length_drop]
      rw [show data.val.length - (data.val.length - k) = k by have := hspec.1; omega]

end

end SwarrmVerify.L1.ScanRun

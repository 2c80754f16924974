import SwarrmVerify.Core.Rfc6962
import SwarrmVerify.L1Encoding.Reference

/-!
# Inclusion and consistency proofs (`merkle.rs`)

The verifier's two loops, on `u64` counters as in the source, against the
recursive definitions of `Rfc6962` over `node X`. The loops never see a tree:
they shift two counters and hash what the proof brings. The recursion never
sees a counter. What connects them is a walk (`Core.Rfc6962`): the sequence of
sides on which the siblings stand, which the counters spell out bit by bit and
the recursion level by level.

A loop that accepts has climbed the walk to its root (`inclusionLoop_iff`,
`consistencyLoop_iff`), and a climb of the right length to the root of a tree
is the genuine proof, by collision-freeness from the top down. The consistency
loop climbs to two roots at once, the old one over the left siblings only.

Both results assume only that SHA-256 has no collision among the byte strings
hashed by this call and by building the tree.

* `verifyInclusion_iff`: for every tree the loop accepts exactly the leaf at
  the index with its audit path.
* `verifyConsistency_iff`: for every tree and every old size the loop accepts
  exactly the old root with its consistency proof.
* `inclusion_member`: an accepted proof for a tree of whatever size and shape
  shows a leaf of the tree that the root stands for.
* `inclusion_unique`: under one root no index has two leaves.
-/
namespace SwarrmVerify.L2.Merkle
open SwarrmVerify.L1.Reference (sha256 blank)
open Rfc6962 (Side walk climb climbPairs lefts meet NoCollision mth path proof stripZeros stripOnes
  leafRoute prefixRoute sub sibs steps)

/-! ## The model -/

/-- What `node` hashes. -/
def nodeInput (l r : Digest) : Bytes := 0x01 :: (l.val ++ r.val)

/-- The hash of an inner node, over its two children under their own prefix.
mirrors verify-rs/src/merkle.rs:6-12 -/
def node (X : Crates) (l r : Digest) : Digest := X.sha256 (nodeInput l r)

/-- The lowest bit: whether the node is a right child.
mirrors verify-rs/src/merkle.rs:14-16 -/
def lsb (n : UInt64) : Bool := n &&& 1 == 1

/-- `while !lsb(fnn) && fnn != 0 { fnn >>= 1; sn >>= 1; }`. A `u64` allows at
most 64 rounds (`shiftEven_eq`).
mirrors verify-rs/src/merkle.rs:34-37,105-108 -/
def shiftEven : Nat → UInt64 → UInt64 → UInt64 × UInt64
  | 0, f, s => (f, s)
  | k + 1, f, s => if !lsb f && f != 0 then shiftEven k (f >>> 1) (s >>> 1) else (f, s)

/-- `while lsb(fnn) { fnn >>= 1; sn >>= 1; }`.
mirrors verify-rs/src/merkle.rs:58-61 -/
def shiftOdd : Nat → UInt64 → UInt64 → UInt64 × UInt64
  | 0, f, s => (f, s)
  | k + 1, f, s => if lsb f then shiftOdd k (f >>> 1) (s >>> 1) else (f, s)

/-- The loop of `verify_inclusion`; `none` is its early `return false`.
mirrors verify-rs/src/merkle.rs:27-44 -/
def inclusionLoop (X : Crates) : List Digest → UInt64 → UInt64 → Digest → Option (UInt64 × Digest)
  | [], _, sn, r => some (sn, r)
  | p :: ps, fn, sn, r =>
    if sn == 0 then none
    else if lsb fn || fn == sn then
      let (fn', sn') := if !lsb fn then shiftEven 64 fn sn else (fn, sn)
      inclusionLoop X ps (fn' >>> 1) (sn' >>> 1) (node X p r)
    else inclusionLoop X ps (fn >>> 1) (sn >>> 1) (node X r p)

/-- The walk from a leaf up to the root, reading the sides off the index and the
size.
mirrors verify-rs/src/merkle.rs:19-46 -/
def verifyInclusion (X : Crates) (leafHash : Bytes) (leafIndex treeSize : UInt64)
    (proof : List Digest) (root : Bytes) : Bool :=
  if leafIndex ≥ treeSize then false
  else match toDigest leafHash with
    | none => false
    | some r =>
      match inclusionLoop X proof leafIndex (treeSize - 1) r with
      | none => false
      | some (sn, r) => sn == 0 && r.val == root

/-- mirrors verify-rs/src/merkle.rs:81-92
The seed, and what is left of the proof. -/
def consistencySeed (fn : UInt64) (firstRoot : Bytes) (proof : List Digest) :
    Option (Digest × List Digest) :=
  if fn != 0 then
    match proof with
    | [] => none
    | c :: cs => some (c, cs)
  else (toDigest firstRoot).map fun a => (a, proof)

/-- One turn: the next hash belongs to both roots or only to the new one.
mirrors verify-rs/src/merkle.rs:94-113 -/
def consistencyStep (X : Crates) (c : Digest) (fn sn : UInt64) (fr sr : Digest) :
    Option (UInt64 × UInt64 × Digest × Digest) :=
  if sn == 0 then none
  else if lsb fn || fn == sn then
    let (fn', sn') := if !lsb fn then shiftEven 64 fn sn else (fn, sn)
    some (fn' >>> 1, sn' >>> 1, node X c fr, node X c sr)
  else some (fn >>> 1, sn >>> 1, fr, node X sr c)

def consistencyLoop (X : Crates) : List Digest → UInt64 → UInt64 → Digest → Digest →
    Option (UInt64 × Digest × Digest)
  | [], _, sn, fr, sr => some (sn, fr, sr)
  | c :: cs, fn, sn, fr, sr =>
    match consistencyStep X c fn sn fr sr with
    | none => none
    | some (fn', sn', fr', sr') => consistencyLoop X cs fn' sn' fr' sr'

/-- The walk that rebuilds both roots from one proof. Equal sizes need equal
roots and no proof.
mirrors verify-rs/src/merkle.rs:49-79 -/
def verifyConsistency (X : Crates) (first second : UInt64) (firstRoot secondRoot : Bytes)
    (proof : List Digest) : Bool :=
  if first > second || first == 0 then false
  else if first == second then proof.isEmpty && firstRoot == secondRoot
  else
    let (fn, sn) := shiftOdd 64 (first - 1) (second - 1)
    match consistencySeed fn firstRoot proof with
    | none => false
    | some (seed, rest) =>
      match consistencyLoop X rest fn sn seed seed with
      | none => false
      | some (sn, fr, sr) => sn == 0 && fr.val == firstRoot && sr.val == secondRoot

/-- `MTH` over a list of leaf hashes. -/
def treeHash (X : Crates) (D : List Digest) : Digest := mth (node X) (X.sha256 []) D

/-- `PATH` over a list of leaf hashes. -/
def auditPath (X : Crates) (i : Nat) (D : List Digest) : List Digest :=
  path (node X) (X.sha256 []) i D

/-- `PROOF` over a list of leaf hashes. -/
def consistencyProof (X : Crates) (m : Nat) (D : List Digest) : List Digest :=
  Rfc6962.proof (node X) (X.sha256 []) m D

/-- Every byte string hashed by `treeHash X D` (the empty tree's apart). -/
def treeInputs (X : Crates) (D : List Digest) : List Bytes :=
  (Rfc6962.mthPairs (node X) (X.sha256 []) D).map fun p => nodeInput p.1 p.2

/-- Every byte string `verifyInclusion` hashes on a proof of the right length. -/
def inclusionInputs (X : Crates) (leafHash : Bytes) (i n : UInt64) (proof : List Digest) :
    List Bytes :=
  match toDigest leafHash with
  | none => []
  | some r => (climbPairs (node X) r ((walk i.toNat (n.toNat - 1)).zip proof)).map
      fun p => nodeInput p.1 p.2

/-- Every byte string `verifyConsistency` hashes towards the new root on a
proof of the right length. -/
def consistencyInputs (X : Crates) (m n : UInt64) (firstRoot : Bytes) (proof : List Digest) :
    List Bytes :=
  match consistencySeed (shiftOdd 64 (m - 1) (n - 1)).1 firstRoot proof with
  | none => []
  | some (seed, rest) =>
    let fs := shiftOdd 64 (m - 1) (n - 1)
    (climbPairs (node X) seed ((walk fs.1.toNat fs.2.toNat).zip rest)).map
      fun p => nodeInput p.1 p.2

/-! ## Counters as naturals -/

theorem lsb_iff (n : UInt64) : lsb n = true ↔ n.toNat % 2 = 1 := by
  unfold lsb
  rw [beq_iff_eq, ← UInt64.toNat_inj, UInt64.toNat_and, UInt64.toNat_one, Nat.and_one_is_mod]

theorem lsb_eq (n : UInt64) : lsb n = decide (n.toNat % 2 = 1) := by
  rw [Bool.eq_iff_iff, lsb_iff, decide_eq_true_iff]

theorem shr_one (n : UInt64) : (n >>> 1).toNat = n.toNat / 2 := by
  rw [UInt64.toNat_shiftRight]; simp [Nat.shiftRight_eq_div_pow]

theorem toNat_eq_zero (n : UInt64) : n = 0 ↔ n.toNat = 0 := by
  rw [← UInt64.toNat_inj, UInt64.toNat_zero]

theorem shiftEven_aux (k : Nat) : ∀ f s : UInt64, f.toNat < 2 ^ k →
    ((shiftEven k f s).1.toNat, (shiftEven k f s).2.toNat) = stripZeros f.toNat s.toNat := by
  induction k with
  | zero =>
    intro f s h
    rw [stripZeros, if_neg (by omega)]; rfl
  | succ k ih =>
    intro f s h
    rw [shiftEven, stripZeros]
    by_cases hc : f.toNat % 2 = 0 ∧ f.toNat ≠ 0
    · have hl : (!lsb f && f != 0) = true := by
        simp only [lsb_eq, Bool.and_eq_true, Bool.not_eq_true', decide_eq_false_iff_not, bne_iff_ne,
          ne_eq, toNat_eq_zero]
        exact ⟨by omega, hc.2⟩
      rw [if_pos hl, if_pos hc, ih _ _ (by rw [shr_one]; rw [Nat.pow_succ] at h; omega), shr_one,
        shr_one]
    · have hl : ¬(!lsb f && f != 0) = true := by
        simp only [lsb_eq, Bool.and_eq_true, Bool.not_eq_true', decide_eq_false_iff_not, bne_iff_ne,
          ne_eq, toNat_eq_zero]
        omega
      rw [if_neg hl, if_neg hc]

theorem shiftEven_eq (f s : UInt64) :
    ((shiftEven 64 f s).1.toNat, (shiftEven 64 f s).2.toNat) = stripZeros f.toNat s.toNat :=
  shiftEven_aux 64 f s f.toNat_lt

theorem shiftOdd_aux (k : Nat) : ∀ f s : UInt64, f.toNat < 2 ^ k →
    ((shiftOdd k f s).1.toNat, (shiftOdd k f s).2.toNat) = stripOnes f.toNat s.toNat := by
  induction k with
  | zero =>
    intro f s h
    rw [stripOnes, if_neg (by omega)]; rfl
  | succ k ih =>
    intro f s h
    rw [shiftOdd, stripOnes]
    by_cases hc : f.toNat % 2 = 1
    · rw [if_pos ((lsb_iff f).mpr hc), if_pos hc,
        ih _ _ (by rw [shr_one]; rw [Nat.pow_succ] at h; omega), shr_one, shr_one]
    · rw [if_neg (fun h => hc ((lsb_iff f).mp h)), if_neg hc]

theorem shiftOdd_eq (f s : UInt64) :
    ((shiftOdd 64 f s).1.toNat, (shiftOdd 64 f s).2.toNat) = stripOnes f.toNat s.toNat :=
  shiftOdd_aux 64 f s f.toNat_lt

/-- The counters after one left step are those of the walk. -/
theorem leftStep_eq (f s : UInt64) :
    let p := if !lsb f then shiftEven 64 f s else (f, s)
    ((p.1 >>> 1).toNat, (p.2 >>> 1).toNat) =
      ((stripZeros f.toNat s.toNat).1 / 2, (stripZeros f.toNat s.toNat).2 / 2) := by
  intro p
  have h : (p.1.toNat, p.2.toNat) = stripZeros f.toNat s.toNat := by
    show ((if !lsb f then shiftEven 64 f s else (f, s)).1.toNat,
      (if !lsb f then shiftEven 64 f s else (f, s)).2.toNat) = _
    by_cases hl : lsb f = true
    · rw [hl, Rfc6962.stripZeros_odd ((lsb_iff f).mp hl)]; rfl
    · rw [if_pos (by simpa using hl)]; exact shiftEven_eq f s
  rw [shr_one, shr_one, ← h]

/-! ## The loops as climbs -/

/-- The inclusion loop ends with `sn = 0` exactly on proofs as long as the
walk, and then holds the climb. -/
theorem inclusionLoop_iff (X : Crates) (proof : List Digest) : ∀ (fn sn : UInt64) (r r' : Digest),
    inclusionLoop X proof fn sn r = some (0, r') ↔
      proof.length = (walk fn.toNat sn.toNat).length ∧
        r' = climb (node X) r ((walk fn.toNat sn.toNat).zip proof) := by
  induction proof with
  | nil =>
    intro fn sn r r'
    rw [inclusionLoop, Option.some.injEq, Prod.mk.injEq, toNat_eq_zero, ← Rfc6962.walk_eq_nil,
      List.zip_nil_right, List.length_nil, eq_comm (a := 0), List.length_eq_zero_iff]
    exact and_congr_right fun _ => eq_comm
  | cons p ps ih =>
    intro fn sn r r'
    by_cases hs : sn.toNat = 0
    · rw [inclusionLoop, if_pos (by simpa [toNat_eq_zero] using hs), hs, Rfc6962.walk_zero]
      simp
    · rw [inclusionLoop, if_neg (by simpa [toNat_eq_zero] using hs)]
      by_cases hl : fn.toNat % 2 = 1 ∨ fn.toNat = sn.toNat
      · rw [if_pos (by simpa [lsb_eq, ← UInt64.toNat_inj] using hl), Rfc6962.walk_strip hs hl]
        have hst := leftStep_eq fn sn
        simp only [Prod.mk.injEq] at hst
        simp only [ih, hst.1, hst.2, List.length_cons, List.zip_cons_cons, climb, meet,
          Nat.add_right_cancel_iff]
      · rw [if_neg (by simpa [lsb_eq, ← UInt64.toNat_inj] using hl),
          Rfc6962.walk_even hs (by omega) (by omega)]
        simp only [ih, shr_one, List.length_cons, List.zip_cons_cons, climb, meet,
          Nat.add_right_cancel_iff]

/-- The consistency loop climbs to both roots at once: the new one over every
sibling, the old one over the left siblings. -/
theorem consistencyLoop_iff (X : Crates) (proof : List Digest) :
    ∀ (fn sn : UInt64) (fr sr fr' sr' : Digest),
    consistencyLoop X proof fn sn fr sr = some (0, fr', sr') ↔
      proof.length = (walk fn.toNat sn.toNat).length ∧
        fr' = climb (node X) fr (lefts ((walk fn.toNat sn.toNat).zip proof)) ∧
        sr' = climb (node X) sr ((walk fn.toNat sn.toNat).zip proof) := by
  induction proof with
  | nil =>
    intro fn sn fr sr fr' sr'
    rw [consistencyLoop, Option.some.injEq, Prod.mk.injEq, Prod.mk.injEq, toNat_eq_zero,
      ← Rfc6962.walk_eq_nil, List.zip_nil_right, List.length_nil, eq_comm (a := 0),
      List.length_eq_zero_iff]
    exact and_congr_right fun _ => and_congr eq_comm eq_comm
  | cons c cs ih =>
    intro fn sn fr sr fr' sr'
    rw [consistencyLoop, consistencyStep]
    by_cases hs : sn.toNat = 0
    · rw [if_pos (by simpa [toNat_eq_zero] using hs), hs, Rfc6962.walk_zero]
      simp
    · rw [if_neg (by simpa [toNat_eq_zero] using hs)]
      by_cases hl : fn.toNat % 2 = 1 ∨ fn.toNat = sn.toNat
      · rw [if_pos (by simpa [lsb_eq, ← UInt64.toNat_inj] using hl), Rfc6962.walk_strip hs hl]
        have hst := leftStep_eq fn sn
        simp only [Prod.mk.injEq] at hst
        simp only [ih, hst.1, hst.2, List.length_cons, List.zip_cons_cons, climb, meet, lefts,
          List.filter_cons, decide_true, if_true, Nat.add_right_cancel_iff]
      · rw [if_neg (by simpa [lsb_eq, ← UInt64.toNat_inj] using hl),
          Rfc6962.walk_even hs (by omega) (by omega)]
        simp only [ih, shr_one, List.length_cons, List.zip_cons_cons, climb, meet, lefts,
          List.filter_cons, decide_false, reduceCtorEq, Bool.false_eq_true, if_false,
          Nat.add_right_cancel_iff]

/-- `verifyInclusion` accepts exactly a climb of the right length that ends
at the root. -/
theorem verifyInclusion_eq_climb (X : Crates) (h : Bytes) (i n : UInt64) (proof : List Digest)
    (root : Bytes) :
    verifyInclusion X h i n proof root = true ↔
      i < n ∧ ∃ r, toDigest h = some r ∧ proof.length = (walk i.toNat (n.toNat - 1)).length ∧
        (climb (node X) r ((walk i.toNat (n.toNat - 1)).zip proof)).val = root := by
  unfold verifyInclusion
  by_cases hin : i < n
  · have hn : (n - 1).toNat = n.toNat - 1 := by
      have := UInt64.lt_iff_toNat_lt.mp hin
      rw [UInt64.toNat_sub_of_le _ _ (UInt64.le_iff_toNat_le.mpr (by rw [UInt64.toNat_one]; omega)),
        UInt64.toNat_one]
    rw [if_neg (by simpa using hin)]
    cases hd : toDigest h with
    | none => simp
    | some r =>
      have key : ∀ r', inclusionLoop X proof i (n - 1) r = some (0, r') ↔ _ :=
        inclusionLoop_iff X proof i (n - 1) r
      rw [hn] at key
      cases hl : inclusionLoop X proof i (n - 1) r with
      | none =>
        simp only [hl, Bool.false_eq_true, Option.some.injEq, exists_eq_left', false_iff, not_and]
        intro _ hlen _
        have := (key _).mpr ⟨hlen, rfl⟩
        rw [hl] at this; cases this
      | some q =>
        obtain ⟨sn, r'⟩ := q
        simp only [hl, hin, true_and, Option.some.injEq, exists_eq_left', Bool.and_eq_true, beq_iff_eq]
        constructor
        · rintro ⟨rfl, hr⟩
          obtain ⟨h1, h2⟩ := (key r').mp hl
          exact ⟨h1, by rw [← h2]; exact hr⟩
        · rintro ⟨hlen, hr⟩
          have := (key _).mpr ⟨hlen, rfl⟩
          rw [hl] at this
          simp only [Option.some.injEq, Prod.mk.injEq] at this
          exact ⟨this.1, by rw [this.2]; exact hr⟩
  · rw [if_pos (by simpa using hin)]
    simp [hin]

/-- `verifyConsistency` between different sizes accepts exactly a double
climb of the right length that ends at both roots. -/
theorem verifyConsistency_eq_climb (X : Crates) (m n : UInt64) (r1 r2 : Bytes)
    (proof : List Digest) (h0 : 0 < m) (hmn : m < n) :
    verifyConsistency X m n r1 r2 proof = true ↔
      ∃ seed rest, consistencySeed (shiftOdd 64 (m - 1) (n - 1)).1 r1 proof = some (seed, rest) ∧
        rest.length = (walk (shiftOdd 64 (m - 1) (n - 1)).1.toNat
          (shiftOdd 64 (m - 1) (n - 1)).2.toNat).length ∧
        (climb (node X) seed (lefts ((walk (shiftOdd 64 (m - 1) (n - 1)).1.toNat
          (shiftOdd 64 (m - 1) (n - 1)).2.toNat).zip rest))).val = r1 ∧
        (climb (node X) seed ((walk (shiftOdd 64 (m - 1) (n - 1)).1.toNat
          (shiftOdd 64 (m - 1) (n - 1)).2.toNat).zip rest)).val = r2 := by
  have hm := UInt64.lt_iff_toNat_lt.mp hmn
  have h0' := UInt64.lt_iff_toNat_lt.mp h0
  unfold verifyConsistency
  rw [if_neg (by
      simp only [Bool.or_eq_true, decide_eq_true_eq, beq_iff_eq, gt_iff_lt, toNat_eq_zero,
        UInt64.lt_iff_toNat_lt]
      rw [UInt64.toNat_zero] at h0'; omega),
    if_neg (by simp only [beq_iff_eq, ← UInt64.toNat_inj]; omega)]
  generalize shiftOdd 64 (m - 1) (n - 1) = p
  obtain ⟨fn, sn⟩ := p
  cases hd : consistencySeed fn r1 proof with
  | none => simp [hd]
  | some q =>
    obtain ⟨seed, rest⟩ := q
    have key := consistencyLoop_iff X rest fn sn seed seed
    simp only [hd, Option.some.injEq, Prod.mk.injEq]
    constructor
    · intro h
      refine ⟨seed, rest, ⟨rfl, rfl⟩, ?_⟩
      split at h
      · cases h
      · rename_i sn' fr' sr' hl
        simp only [Bool.and_eq_true, beq_iff_eq] at h
        obtain ⟨⟨rfl, hf⟩, hs⟩ := h
        obtain ⟨h1, h2, h3⟩ := (key fr' sr').mp hl
        exact ⟨h1, by rw [← h2]; exact hf, by rw [← h3]; exact hs⟩
    · rintro ⟨_, _, ⟨rfl, rfl⟩, h1, h2, h3⟩
      rw [(key _ _).mpr ⟨h1, rfl, rfl⟩]
      simp [h2, h3]

/-! ## Exactness -/

theorem nodeInput_inj {l r l' r' : Digest} (h : nodeInput l r = nodeInput l' r') :
    (l, r) = (l', r') := by
  unfold nodeInput at h
  simp only [List.cons.injEq, true_and] at h
  obtain ⟨h1, h2⟩ := List.append_inj h (by rw [l.2, l'.2])
  rw [Subtype.ext h1, Subtype.ext h2]

theorem noCollision_node {X : Crates} {P : List (Digest × Digest)}
    (h : CollisionFree X (P.map fun p => nodeInput p.1 p.2)) : NoCollision (node X) P := by
  intro a ha b hb he
  exact nodeInput_inj (h _ (List.mem_map_of_mem ha) _ (List.mem_map_of_mem hb) he)

theorem toDigest_iff {h : Bytes} {r : Digest} : toDigest h = some r ↔ h = r.val := by
  constructor
  · exact fun e => (toDigest_val e).symm
  · rintro rfl; simp [toDigest, r.2]

theorem toNat_ofNat_length {D : List Digest} (hn : D.length < 2 ^ 64) :
    (UInt64.ofNat D.length).toNat = D.length := by
  rw [UInt64.toNat_ofNat']; exact Nat.mod_eq_of_lt hn

/-- An accepted climb to a tree's root is the leaf at the index with its
audit path. -/
theorem inclusion_sound (X : Crates) (D : List Digest) (hn : D.length < 2 ^ 64) (i : UInt64)
    (h : Bytes) (proof : List Digest)
    (hc : CollisionFree X (inclusionInputs X h i (UInt64.ofNat D.length) proof ++ treeInputs X D))
    (hv : verifyInclusion X h i (UInt64.ofNat D.length) proof (treeHash X D).val = true) :
    i.toNat < D.length ∧ D[i.toNat]?.map Subtype.val = some h ∧ proof = auditPath X i.toNat D := by
  rw [verifyInclusion_eq_climb, UInt64.lt_iff_toNat_lt, toNat_ofNat_length hn] at hv
  obtain ⟨hi, r, hr, hlen, he⟩ := hv
  have hd : D[i.toNat]? = some D[i.toNat] := List.getElem?_eq_getElem hi
  rw [Rfc6962.walk_eq_leafRoute _ _ hi] at hlen he
  have hcol : NoCollision (node X) (climbPairs (node X) r ((leafRoute i.toNat D.length).reverse.zip
      proof) ++ Rfc6962.mthPairs (node X) (X.sha256 []) D) := by
    apply noCollision_node
    rw [List.map_append]
    unfold inclusionInputs treeInputs at hc
    rw [hr, toNat_ofNat_length hn, Rfc6962.walk_eq_leafRoute _ _ hi] at hc
    exact hc
  obtain ⟨h1, h2⟩ := Rfc6962.climb_eq_mth (node X) (X.sha256 []) D _
    (Rfc6962.fits_leafRoute D.length i.toNat) r proof (by simpa using hlen) hcol (Subtype.ext he)
  rw [Rfc6962.sub_leafRoute D i.toNat _ hd] at h1
  refine ⟨hi, ?_, ?_⟩
  · rw [toDigest_iff.mp hr, h1, hd]; simp [mth]
  · rw [h2, auditPath, Rfc6962.path_eq_sibs]

/-- A proof for a tree of whatever size and shape shows a leaf of the tree that
the root stands for: leaf inputs start with 0x00 and node inputs with 0x01. -/
theorem inclusion_member (X : Crates) (L : List Bytes) (b : Bytes) (i n : UInt64) (proof : List Digest)
    (hc : CollisionFree X ([] :: (0 :: b) :: L.map (0 :: ·) ++ (inclusionInputs X (X.sha256 (0 :: b)).val i n proof ++
      treeInputs X (L.map fun x => X.sha256 (0 :: x)))))
    (hv : verifyInclusion X (X.sha256 (0 :: b)).val i n proof
      (treeHash X (L.map fun x => X.sha256 (0 :: x))).val = true) : b ∈ L := by
  rw [verifyInclusion_eq_climb] at hv
  obtain ⟨-, r, hr, -, he⟩ := hv
  have hr' : r = X.sha256 (0 :: b) := Subtype.ext (toDigest_iff.mp hr).symm
  subst hr'
  unfold inclusionInputs treeInputs at hc
  rw [hr] at hc
  dsimp only at hc
  -- inputs of the three kinds are different, so their digests are
  have hnode : ∀ p ∈ climbPairs (node X) (X.sha256 (0 :: b)) ((walk i.toNat (n.toNat - 1)).zip proof) ++
      Rfc6962.mthPairs (node X) (X.sha256 []) (L.map fun x => X.sha256 (0 :: x)),
      ∀ x ∈ [] :: (0 :: b) :: L.map (0 :: ·), node X p.1 p.2 ≠ X.sha256 x := by
    intro p hp x hx heq
    have hin : nodeInput p.1 p.2 = x := by
      refine hc _ (List.mem_append_right _ ?_) _ (List.mem_append_left _ hx) heq
      rw [← List.map_append]
      exact List.mem_map_of_mem hp
    rw [← hin] at hx
    simp [nodeInput] at hx
  have hempty : X.sha256 (0 :: b) ≠ X.sha256 [] := by
    intro heq
    have := hc (0 :: b) (by simp) [] (by simp) heq
    cases this
  have hmem := Rfc6962.climb_mem (node X) (X.sha256 []) _ (L.map fun x => X.sha256 (0 :: x))
    (noCollision_node (hc.mono ?_)) (fun p hp => hnode p (List.mem_append_right _ hp) _ (by simp))
    (fun p hp hin => ?_) hempty (Subtype.ext he)
  · obtain ⟨x, hx, heq⟩ := List.mem_map.mp hmem
    have := hc (0 :: x) (by simp [hx]) (0 :: b) (by simp) heq
    rw [List.cons.injEq] at this
    exact this.2 ▸ hx
  · rw [List.map_append]
    exact List.subset_append_right _ _
  · rcases List.mem_cons.mp hin with heq | hin
    · exact hnode p (List.mem_append_left _ hp) [] (by simp) heq
    · obtain ⟨x, hx, heq⟩ := List.mem_map.mp hin
      exact hnode p (List.mem_append_left _ hp) (0 :: x) (by simp [hx]) heq.symm

/-- The genuine proof is always accepted. -/
theorem inclusion_complete (X : Crates) (D : List Digest) (hn : D.length < 2 ^ 64) (i : UInt64)
    (hi : i.toNat < D.length) {h : Bytes} (hh : D[i.toNat]?.map Subtype.val = some h) :
    verifyInclusion X h i (UInt64.ofNat D.length) (auditPath X i.toNat D) (treeHash X D).val = true := by
  have hd : D[i.toNat]? = some D[i.toNat] := List.getElem?_eq_getElem hi
  rw [hd, Option.map_some, Option.some.injEq] at hh
  rw [verifyInclusion_eq_climb, UInt64.lt_iff_toNat_lt, toNat_ofNat_length hn,
    Rfc6962.walk_eq_leafRoute _ _ hi, auditPath, Rfc6962.path_eq_sibs]
  refine ⟨hi, D[i.toNat], toDigest_iff.mpr hh.symm, by simp [Rfc6962.length_sibs], ?_⟩
  have := Rfc6962.climb_steps (node X) (X.sha256 []) _ D (Rfc6962.fits_leafRoute D.length i.toNat)
  rw [Rfc6962.sub_leafRoute D i.toNat _ hd] at this
  simp only [mth, steps] at this
  rw [this]; rfl

/-- **Inclusion proofs are exact.** -/
theorem verifyInclusion_iff (X : Crates) (D : List Digest) (hn : D.length < 2 ^ 64) (i : UInt64)
    (h : Bytes) (proof : List Digest)
    (hc : CollisionFree X
      (inclusionInputs X h i (UInt64.ofNat D.length) proof ++ treeInputs X D)) :
    verifyInclusion X h i (UInt64.ofNat D.length) proof (treeHash X D).val = true ↔
      i.toNat < D.length ∧ D[i.toNat]?.map Subtype.val = some h ∧ proof = auditPath X i.toNat D := by
  constructor
  · exact inclusion_sound X D hn i h proof hc
  · rintro ⟨hi, hh, rfl⟩
    exact inclusion_complete X D hn i hi hh

def threeLeaves : List Digest := [sha256 [1], sha256 [2], sha256 [3]]

/-- The second of three leaves, under SHA-256 itself. -/
theorem verifyInclusion_threeLeaves :
    CollisionFree blank (inclusionInputs blank (sha256 [2]).val 1 3 (auditPath blank 1 threeLeaves) ++
      treeInputs blank threeLeaves) ∧
    verifyInclusion blank (sha256 [2]).val 1 3 (auditPath blank 1 threeLeaves)
      (treeHash blank threeLeaves).val = true := by
  have hc : CollisionFree blank (inclusionInputs blank (sha256 [2]).val 1 3 (auditPath blank 1 threeLeaves) ++
      treeInputs blank threeLeaves) := by decide +kernel
  exact ⟨hc, (verifyInclusion_iff blank threeLeaves (by decide) 1 _ _ hc).mpr ⟨by decide, rfl, rfl⟩⟩

/-- Under one root no index has two leaves. -/
theorem inclusion_unique (X : Crates) (h h' root : Bytes) (i n : UInt64) (proof proof' : List Digest)
    (hc : CollisionFree X (inclusionInputs X h i n proof ++ inclusionInputs X h' i n proof'))
    (hv : verifyInclusion X h i n proof root = true) (hv' : verifyInclusion X h' i n proof' root = true) :
    h = h' := by
  rw [verifyInclusion_eq_climb] at hv hv'
  obtain ⟨_, r, hr, hlen, he⟩ := hv
  obtain ⟨_, r', hr', hlen', he'⟩ := hv'
  unfold inclusionInputs at hc
  rw [hr, hr', ← List.map_append] at hc
  obtain ⟨rfl, _⟩ := Rfc6962.climb_inj (node X) _ r r' proof proof' hlen hlen' (noCollision_node hc)
    (Subtype.ext (he.trans he'.symm))
  rw [toDigest_iff.mp hr, toDigest_iff.mp hr']

/-- The counters of the consistency loop walk the route to the end of the old
tree; the seed is taken from the proof exactly when a left sibling is on it. -/
theorem consistency_route (m n : UInt64) (h0 : 0 < m.toNat) (hmn : m.toNat < n.toNat) :
    walk (shiftOdd 64 (m - 1) (n - 1)).1.toNat (shiftOdd 64 (m - 1) (n - 1)).2.toNat =
        (prefixRoute m.toNat n.toNat).reverse ∧
      ((shiftOdd 64 (m - 1) (n - 1)).1 = 0 ↔ .left ∉ prefixRoute m.toNat n.toNat) := by
  have pred : ∀ k : UInt64, 0 < k.toNat → (k - 1).toNat = k.toNat - 1 := fun k hk => by
    rw [UInt64.toNat_sub_of_le _ _ (UInt64.le_iff_toNat_le.mpr (by rw [UInt64.toNat_one]; omega)),
      UInt64.toNat_one]
  have hs := shiftOdd_eq (m - 1) (n - 1)
  rw [pred m h0, pred n (by omega)] at hs
  obtain ⟨t, g, h1, h2, h3⟩ := Rfc6962.stripOnes_spec (m.toNat - 1) (n.toNat - 1)
  rw [h1, Prod.mk.injEq] at hs
  have hm : m.toNat = 2 ^ t * (g + 1) := by omega
  have hw := Rfc6962.walk_eq_prefixRoute n.toNat m.toNat t g h2 hm hmn
  rw [hs.1, hs.2, toNat_eq_zero, hs.1, ← List.mem_reverse, ← hw]
  refine ⟨rfl, ?_, ?_⟩
  · rintro rfl; exact Rfc6962.walk_zero_left _
  · refine Rfc6962.walk_no_left _ g ?_
    rw [Nat.le_div_iff_mul_le (Nat.two_pow_pos t), Nat.mul_comm]
    rw [Nat.mul_succ] at hm
    have := Nat.two_pow_pos t
    omega

/-- Between different sizes, a seed that climbs to the new root is the old
tree's last block, and the siblings are those of its route. -/
theorem consistency_seed_genuine (X : Crates) (D : List Digest) (hn : D.length < 2 ^ 64) (m : UInt64)
    (h0 : 0 < m.toNat) (hm : m.toNat < D.length) (r1 : Bytes) (proof rest : List Digest) (seed : Digest)
    (hc : CollisionFree X
      (consistencyInputs X m (UInt64.ofNat D.length) r1 proof ++ treeInputs X D))
    (hs : consistencySeed (shiftOdd 64 (m - 1) (UInt64.ofNat D.length - 1)).1 r1 proof =
      some (seed, rest))
    (hl : rest.length = (prefixRoute m.toNat D.length).length)
    (he : climb (node X) seed ((prefixRoute m.toNat D.length).reverse.zip rest) = treeHash X D) :
    seed = treeHash X (sub D (prefixRoute m.toNat D.length)) ∧
      rest = sibs (node X) (X.sha256 []) D (prefixRoute m.toNat D.length) := by
  have hlen := toNat_ofNat_length hn
  refine Rfc6962.climb_eq_mth (node X) (X.sha256 []) D _ (Rfc6962.fits_prefixRoute _ _) seed rest hl ?_ he
  apply noCollision_node
  rw [List.map_append]
  unfold consistencyInputs treeInputs at hc
  have hw := (consistency_route m (UInt64.ofNat D.length) h0 (by omega)).1
  rw [hlen] at hw
  rw [hs] at hc
  simp only [hw] at hc
  exact hc

/-- An accepted consistency proof shows the old tree's root and is the
genuine one. -/
theorem consistency_sound (X : Crates) (D : List Digest) (hn : D.length < 2 ^ 64) (m : UInt64)
    (r1 : Bytes) (proof : List Digest)
    (hc : CollisionFree X (consistencyInputs X m (UInt64.ofNat D.length) r1 proof ++ treeInputs X D))
    (hv : verifyConsistency X m (UInt64.ofNat D.length) r1 (treeHash X D).val proof = true) :
    0 < m.toNat ∧ m.toNat ≤ D.length ∧ r1 = (treeHash X (D.take m.toNat)).val ∧
      proof = consistencyProof X m.toNat D := by
  have hlen := toNat_ofNat_length hn
  have hguard : m ≤ UInt64.ofNat D.length ∧ m ≠ 0 := by
    unfold verifyConsistency at hv
    split at hv
    · cases hv
    · rename_i hg
      simpa using hg
  have h0 : 0 < m.toNat := Nat.pos_of_ne_zero fun h => hguard.2 ((toNat_eq_zero m).mpr h)
  have hle : m.toNat ≤ D.length := by
    have := UInt64.le_iff_toNat_le.mp hguard.1
    omega
  refine ⟨h0, hle, ?_⟩
  rcases Nat.lt_or_eq_of_le hle with hlt | heq
  · -- different sizes: the double climb along the route
    rw [verifyConsistency_eq_climb X m _ _ _ _
      (UInt64.lt_iff_toNat_lt.mpr (by rw [UInt64.toNat_zero]; omega))
      (UInt64.lt_iff_toNat_lt.mpr (by rw [hlen]; exact hlt))] at hv
    obtain ⟨hw, hseed⟩ := consistency_route m (UInt64.ofNat D.length) h0 (by omega)
    rw [hlen] at hw hseed
    rw [hw] at hv
    obtain ⟨seed, rest, hs, hl, h1, h2⟩ := hv
    obtain ⟨rfl, rfl⟩ := consistency_seed_genuine X D hn m h0 hlt r1 proof rest seed hc hs
      (by simpa using hl) (Subtype.ext h2)
    have hproof := Rfc6962.subproof_eq (node X) (X.sha256 []) D m.toNat true h0 (by omega)
    simp only [true_and] at hproof
    rw [consistencyProof, Rfc6962.proof, hproof]
    refine ⟨?_, ?_⟩
    · rw [← h1]
      exact congrArg Subtype.val (Rfc6962.climb_lefts (node X) (X.sha256 []) D m.toNat h0 (by omega))
    · unfold consistencySeed at hs
      by_cases hz : (shiftOdd 64 (m - 1) (UInt64.ofNat D.length - 1)).1 = 0
      · rw [if_neg (by simpa using hz), Option.map_eq_some_iff] at hs
        obtain ⟨a, _, ha⟩ := hs
        rw [if_pos (hseed.mp hz)]
        exact (Prod.mk.inj ha).2
      · rw [if_pos (by simpa using hz)] at hs
        rw [if_neg (fun h => hz (hseed.mpr h))]
        cases proof with
        | nil => cases hs
        | cons c cs =>
          simp only [Option.some.injEq, Prod.mk.injEq] at hs
          rw [hs.1, hs.2]; rfl
  · -- equal sizes
    have hmn : m = UInt64.ofNat D.length := UInt64.toNat_inj.mp (by omega)
    unfold verifyConsistency at hv
    rw [← hmn, if_neg (by simp [toNat_eq_zero]; omega), if_pos (by simp), Bool.and_eq_true,
      List.isEmpty_iff, beq_iff_eq] at hv
    rw [consistencyProof, Rfc6962.proof, Rfc6962.subproof, if_pos heq, heq, List.take_length]
    exact ⟨hv.2, hv.1⟩

/-- The genuine consistency proof is always accepted. -/
theorem consistency_complete (X : Crates) (D : List Digest) (hn : D.length < 2 ^ 64) (m : UInt64)
    (h0 : 0 < m.toNat) (hle : m.toNat ≤ D.length) :
    verifyConsistency X m (UInt64.ofNat D.length) (treeHash X (D.take m.toNat)).val (treeHash X D).val
      (consistencyProof X m.toNat D) = true := by
  have hlen := toNat_ofNat_length hn
  rcases Nat.lt_or_eq_of_le hle with hlt | heq
  · rw [verifyConsistency_eq_climb X m _ _ _ _
      (UInt64.lt_iff_toNat_lt.mpr (by rw [UInt64.toNat_zero]; omega))
      (UInt64.lt_iff_toNat_lt.mpr (by rw [hlen]; exact hlt))]
    obtain ⟨hw, hseed⟩ := consistency_route m (UInt64.ofNat D.length) h0 (by omega)
    rw [hlen] at hw hseed
    have hlefts := Rfc6962.climb_lefts (node X) (X.sha256 []) D m.toNat h0 (by omega)
    have hclimb := Rfc6962.climb_steps (node X) (X.sha256 []) _ D
      (Rfc6962.fits_prefixRoute D.length m.toNat)
    have hproof := Rfc6962.subproof_eq (node X) (X.sha256 []) D m.toNat true h0 (by omega)
    simp only [true_and] at hproof
    rw [hw, consistencyProof, Rfc6962.proof, hproof]
    refine ⟨treeHash X (sub D (prefixRoute m.toNat D.length)),
      sibs (node X) (X.sha256 []) D (prefixRoute m.toNat D.length), ?_,
      by simp [Rfc6962.length_sibs], congrArg Subtype.val hlefts, congrArg Subtype.val hclimb⟩
    unfold consistencySeed
    by_cases hz : (shiftOdd 64 (m - 1) (UInt64.ofNat D.length - 1)).1 = 0
    · have hnl := hseed.mp hz
      -- without left siblings the old tree is the block itself
      rw [steps, Rfc6962.lefts_eq_nil hnl] at hlefts
      rw [if_neg (by simpa using hz), if_pos hnl]
      rw [show treeHash X (D.take m.toNat) = treeHash X (sub D (prefixRoute m.toNat D.length)) from
        hlefts.symm, toDigest_iff.mpr rfl]
      rfl
    · rw [if_pos (by simpa using hz), if_neg (fun h => hz (hseed.mpr h))]; rfl
  · have hmn : m = UInt64.ofNat D.length := UInt64.toNat_inj.mp (by omega)
    unfold verifyConsistency
    rw [← hmn, if_neg (by simp [toNat_eq_zero]; omega), if_pos (by simp), consistencyProof, Rfc6962.proof,
      Rfc6962.subproof, if_pos heq, heq, List.take_length]
    simp

/-- **Consistency proofs are exact.** -/
theorem verifyConsistency_iff (X : Crates) (D : List Digest) (hn : D.length < 2 ^ 64) (m : UInt64)
    (r1 : Bytes) (proof : List Digest)
    (hc : CollisionFree X
      (consistencyInputs X m (UInt64.ofNat D.length) r1 proof ++ treeInputs X D)) :
    verifyConsistency X m (UInt64.ofNat D.length) r1 (treeHash X D).val proof = true ↔
      0 < m.toNat ∧ m.toNat ≤ D.length ∧ r1 = (treeHash X (D.take m.toNat)).val ∧
        proof = consistencyProof X m.toNat D := by
  constructor
  · exact consistency_sound X D hn m r1 proof hc
  · rintro ⟨h0, hle, rfl, rfl⟩
    exact consistency_complete X D hn m h0 hle

/-- The first two of three leaves, under SHA-256 itself. -/
theorem verifyConsistency_threeLeaves :
    CollisionFree blank (consistencyInputs blank 2 3 (treeHash blank (threeLeaves.take 2)).val
      (consistencyProof blank 2 threeLeaves) ++ treeInputs blank threeLeaves) ∧
    verifyConsistency blank 2 3 (treeHash blank (threeLeaves.take 2)).val (treeHash blank threeLeaves).val
      (consistencyProof blank 2 threeLeaves) = true := by
  have hc : CollisionFree blank (consistencyInputs blank 2 3 (treeHash blank (threeLeaves.take 2)).val
      (consistencyProof blank 2 threeLeaves) ++ treeInputs blank threeLeaves) := by decide +kernel
  exact ⟨hc, (verifyConsistency_iff blank threeLeaves (by decide) 2 _ _ hc).mpr ⟨by decide, by decide, rfl, rfl⟩⟩

end SwarrmVerify.L2.Merkle

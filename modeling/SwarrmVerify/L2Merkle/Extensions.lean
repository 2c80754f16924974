import SwarrmVerify.Core.Openings
import SwarrmVerify.L2Merkle.Proofs

/-!
# Proofs about roots of unknown trees

`Proofs` reads accepted proofs against a list of leaves. A relying party has no
such list: it holds roots, and a log may have made them up. Here accepted
proofs are read as openings and extensions of the roots themselves
(`Core.Openings`), along the pairs that the verifier hashed when it checked
them. Nothing is assumed of what stands behind a root.

**Hypothesis.** The pairs hashed by the calls in question do not collide.

**Results.**
* `inclusion_opens`, `consistency_follows`: what the two verifiers establish,
  of any root, size and proof they accept.
* `Follows.same_size`, `Follows.one_leaf`: roots of one size that precede one
  root are equal, and no index has two leaves under roots that precede one.
* `no_rejoin`: two roots that are both consistent with one later root show one
  leaf at every index, and are equal when their sizes are. So a log that has
  once shown two histories can never prove both consistent with one head.
-/
namespace SwarrmVerify.L2.Merkle
open SwarrmVerify.L1.Reference (sha256 blank)
open Rfc6962 (Side walk climb climbPairs lefts leafRoute prefixRoute Opens Extends Separates)

/-- Every byte string `verifyConsistency` hashes towards the old root on a
proof of the right length. -/
def oldRootInputs (X : Crates) (m n : UInt64) (firstRoot : Bytes) (proof : List Digest) : List Bytes :=
  match consistencySeed (shiftOdd 64 (m - 1) (n - 1)).1 firstRoot proof with
  | none => []
  | some (seed, rest) =>
    let fs := shiftOdd 64 (m - 1) (n - 1)
    (climbPairs (node X) seed (lefts ((walk fs.1.toNat fs.2.toNat).zip rest))).map
      fun p => nodeInput p.1 p.2

/-- What `verifyConsistency` hashes, towards both roots. -/
def bothRootInputs (X : Crates) (m n : UInt64) (firstRoot : Bytes) (proof : List Digest) : List Bytes :=
  consistencyInputs X m n firstRoot proof ++ oldRootInputs X m n firstRoot proof

/-- The pairs of digests whose node input is among `L`. -/
def hashedPairs (L : List Bytes) : Set (Digest × Digest) := {p | nodeInput p.1 p.2 ∈ L}

theorem separates_hashedPairs {X : Crates} {L : List Bytes} (hc : CollisionFree X L) :
    Separates (node X) (hashedPairs L) :=
  fun _ ha _ hb he => nodeInput_inj (hc _ ha _ hb he)

theorem mem_hashedPairs {P : List (Digest × Digest)} {L : List Bytes}
    (h : (P.map fun p => nodeInput p.1 p.2) ⊆ L) : ∀ x ∈ P, x ∈ hashedPairs L :=
  fun _ hx => h (List.mem_map_of_mem hx)

/-- An accepted inclusion proof opens the root at the index. -/
theorem inclusion_opens {X : Crates} {h root : Bytes} {i n : UInt64} {proof : List Digest} {L : List Bytes}
    (hL : inclusionInputs X h i n proof ⊆ L) (hv : verifyInclusion X h i n proof root = true) :
    i.toNat < n.toNat ∧ ∃ d r, h = d.val ∧ root = r.val ∧
      Opens (node X) (hashedPairs L) n.toNat i.toNat r d := by
  rw [verifyInclusion_eq_climb] at hv
  obtain ⟨hi, d, hd, hlen, he⟩ := hv
  have hi' := UInt64.lt_iff_toNat_lt.mp hi
  unfold inclusionInputs at hL
  rw [hd, Rfc6962.walk_eq_leafRoute _ _ hi'] at hL
  rw [Rfc6962.walk_eq_leafRoute _ _ hi'] at hlen he
  exact ⟨hi', d, _, toDigest_iff.mp hd, he.symm,
    Rfc6962.opens_climb _ _ d proof hi' (by simpa using hlen) (mem_hashedPairs hL)⟩

/-- The second root is the first, or extends it. -/
def Follows (X : Crates) (L : List Bytes) (m n : UInt64) (r t : Bytes) : Prop :=
  (m = n ∧ r = t) ∨ ∃ a b, r = a.val ∧ t = b.val ∧ Extends (node X) (hashedPairs L) m.toNat n.toNat a b

/-- An accepted consistency proof extends the old root to the new one. -/
theorem consistency_follows {X : Crates} {m n : UInt64} {r t : Bytes} {proof : List Digest} {L : List Bytes}
    (hL : bothRootInputs X m n r proof ⊆ L) (hv : verifyConsistency X m n r t proof = true) :
    0 < m.toNat ∧ Follows X L m n r t := by
  have hguard : m ≤ n ∧ m ≠ 0 := by
    unfold verifyConsistency at hv
    split at hv
    · cases hv
    · rename_i hg
      simpa using hg
  have h0 : 0 < m.toNat := Nat.pos_of_ne_zero fun h => hguard.2 ((toNat_eq_zero m).mpr h)
  refine ⟨h0, ?_⟩
  have hle := UInt64.le_iff_toNat_le.mp hguard.1
  rcases Nat.lt_or_eq_of_le hle with hlt | heq
  · -- different sizes: both folds run along the route to the end of the old tree
    rw [verifyConsistency_eq_climb X m n r t proof (UInt64.lt_iff_toNat_lt.mpr (by simpa using h0))
      (UInt64.lt_iff_toNat_lt.mpr hlt)] at hv
    obtain ⟨seed, rest, hs, hlen, hr, ht⟩ := hv
    obtain ⟨hnew, hold⟩ := List.append_subset.mp hL
    unfold consistencyInputs at hnew
    unfold oldRootInputs at hold
    have hw := (consistency_route m n h0 hlt).1
    simp only [hs, hw] at hnew hold hlen hr ht
    exact .inr ⟨_, _, hr.symm, ht.symm, Rfc6962.extends_climb _ _ seed rest h0 hle (by simpa using hlen)
      (mem_hashedPairs hold) (mem_hashedPairs hnew)⟩
  · obtain rfl : m = n := UInt64.toNat_inj.mp heq
    unfold verifyConsistency at hv
    rw [if_neg (by simp [toNat_eq_zero]; omega), if_pos (by simp), Bool.and_eq_true, beq_iff_eq] at hv
    exact .inl ⟨rfl, hv.2⟩

section
variable {X : Crates} {L : List Bytes} {m n p : UInt64} {r s t : Bytes}

theorem Follows.extends {a : Digest} (h : Follows X L m n r t) (hr : r = a.val) :
    ∃ b, t = b.val ∧ Extends (node X) (hashedPairs L) m.toNat n.toNat a b := by
  rcases h with ⟨rfl, rfl⟩ | ⟨a', b, rfl, hb, he⟩
  · exact ⟨a, hr, .refl⟩
  · obtain rfl := Subtype.ext hr
    exact ⟨b, hb, he⟩

theorem Follows.extends_of {b : Digest} (h : Follows X L m n r t) (ht : t = b.val) :
    ∃ a, r = a.val ∧ Extends (node X) (hashedPairs L) m.toNat n.toNat a b := by
  rcases h with ⟨rfl, rfl⟩ | ⟨a, b', ha, rfl, he⟩
  · exact ⟨b, ht, .refl⟩
  · obtain rfl := Subtype.ext ht
    exact ⟨a, ha, he⟩

/-- Roots of one size that precede one root are equal. -/
theorem Follows.same_size (hc : CollisionFree X L) (h : Follows X L m p r t) (h' : Follows X L m p s t) :
    r = s := by
  rcases h with ⟨rfl, rfl⟩ | ⟨a, b, rfl, hb, he⟩
  · rcases h' with ⟨-, rfl⟩ | ⟨a, b, rfl, rfl, he⟩
    · rfl
    · rw [he.self]
  · obtain ⟨c, rfl, he'⟩ := h'.extends_of hb
    rw [(he'.compare (separates_hashedPairs hc) (Nat.le_refl _) he).self]

/-- No index has two leaves under roots that precede one root. -/
theorem Follows.one_leaf {i : UInt64} {h h' : Bytes} {q q' : List Digest} (hc : CollisionFree X L)
    (hm : Follows X L m p r t) (hn : Follows X L n p s t) (hL : inclusionInputs X h i m q ⊆ L)
    (hL' : inclusionInputs X h' i n q' ⊆ L) (hv : verifyInclusion X h i m q r = true)
    (hv' : verifyInclusion X h' i n q' s = true) : h = h' := by
  have hsep := separates_hashedPairs hc
  obtain ⟨hi, d, a, rfl, hra, ho⟩ := inclusion_opens hL hv
  obtain ⟨hi', d', a', rfl, hsa, ho'⟩ := inclusion_opens hL' hv'
  obtain ⟨b, htb, he⟩ := hm.extends hra
  obtain ⟨b', htb', he'⟩ := hn.extends hsa
  obtain rfl : b = b' := Subtype.ext (htb.symm.trans htb')
  -- both leaves are seen below the later root
  rw [(he.opens hsep hi ho).unique hsep (he'.opens hsep hi' ho')]

end

/-- **A forked log never joins again.** Two roots with accepted consistency
proofs to one later root are equal if their sizes are, and no index has
accepted inclusion proofs of two leaves under them. No list of leaves is assumed
to stand behind any of the three roots. -/
theorem no_rejoin (X : Crates) (m n p i : UInt64) (r s t h h' : Bytes) (c c' q q' : List Digest)
    (hc : CollisionFree X (bothRootInputs X m p r c ++ bothRootInputs X n p s c' ++
      (inclusionInputs X h i m q ++ inclusionInputs X h' i n q')))
    (hm : verifyConsistency X m p r t c = true) (hn : verifyConsistency X n p s t c' = true) :
    (m = n → r = s) ∧
      (verifyInclusion X h i m q r = true → verifyInclusion X h' i n q' s = true → h = h') := by
  have hsub := List.append_subset.mp (List.Subset.refl (bothRootInputs X m p r c ++
    bothRootInputs X n p s c' ++ (inclusionInputs X h i m q ++ inclusionInputs X h' i n q')))
  obtain ⟨hcm, hcn⟩ := List.append_subset.mp hsub.1
  obtain ⟨hqm, hqn⟩ := List.append_subset.mp hsub.2
  have hfm := (consistency_follows hcm hm).2
  have hfn := (consistency_follows hcn hn).2
  refine ⟨?_, hfm.one_leaf hc hfn hqm hqn⟩
  rintro rfl
  exact hfm.same_size hc hfn

/-- The trees of two and of three leaves against that of three, under SHA-256
itself: their proofs of the second leaf are accepted. -/
theorem no_rejoin_threeLeaves :
    (verifyInclusion blank (sha256 [2]).val 1 2 (auditPath blank 1 (threeLeaves.take 2))
        (treeHash blank (threeLeaves.take 2)).val = true ∧
      verifyInclusion blank (sha256 [2]).val 1 3 (auditPath blank 1 threeLeaves)
        (treeHash blank threeLeaves).val = true) ∧
    (((2 : UInt64) = 3 → (treeHash blank (threeLeaves.take 2)).val = (treeHash blank threeLeaves).val) ∧
      (verifyInclusion blank (sha256 [2]).val 1 2 (auditPath blank 1 (threeLeaves.take 2))
          (treeHash blank (threeLeaves.take 2)).val = true →
        verifyInclusion blank (sha256 [2]).val 1 3 (auditPath blank 1 threeLeaves)
          (treeHash blank threeLeaves).val = true → (sha256 [2]).val = (sha256 [2]).val)) := by
  refine ⟨by decide +kernel, no_rejoin blank 2 3 3 1 _ _ (treeHash blank threeLeaves).val _ _
    (consistencyProof blank 2 threeLeaves) [] _ _ ?_ ?_ ?_⟩ <;> decide +kernel

end SwarrmVerify.L2.Merkle

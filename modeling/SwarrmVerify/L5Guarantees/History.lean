import SwarrmVerify.L4Bundle.Bundle

/-!
# Append-only history

Nothing compares a chain checkpoint with the target, and no proof leads from
one to the other directly. The law follows backwards from the head: its body
has the target's canonical bytes, so it commits to the leaves that the target
commits to, and each consistency proof carries the root one checkpoint back.

**Hypotheses.** The bundle verifies. `D` is any list of leaves whose number and
tree hash are the size and root of the target; there need not be another way to
know it. The bytes that the verification hashes and those of the tree over each
presented prefix of `D` do not collide. The crates obey `WriterLaws`.

**Results.**
* `link_backward`: one step back. A consistency proof to a committed prefix of
  `D` commits its predecessor to a shorter one.
* `chain_backward`: the whole chain, by induction from its end.
* `head_commits`: the head of a verified chain commits to the target's leaves,
  since two checkpoints with one body hash say the same root and size.
* `append_only_history`: in a verified bundle every chain checkpoint commits to
  a prefix of `D`, sizes do not decrease along the chain, and checkpoints of
  one size have one root.
-/
namespace SwarrmVerify.L5.History
open SwarrmVerify.L1.Jcs SwarrmVerify.L2.Merkle SwarrmVerify.L3.Receipt SwarrmVerify.L3.Keys
open SwarrmVerify.L4.Checkpoint SwarrmVerify.L4.Bundle

variable {X : Crates}

/-- The checkpoint commits to a non-empty prefix of the leaves `D`. -/
def Commits (X : Crates) (D : List Digest) (cp : Value) : Prop :=
  ∃ s, bodyU64 cp "tree_size" = some s ∧ 1 ≤ s.toNat ∧ s.toNat ≤ D.length ∧
    (bodyStr cp "root_hash").bind hexToBytes = some (treeHash X (D.take s.toNat)).val

theorem checkChainLink_spec {prev cp entry : Value} {sparse : Bool}
    (h : checkChainLink X prev cp entry sparse = true) :
    (bodyU64 prev "tree_size").getD 0 ≤ (bodyU64 cp "tree_size").getD 0 ∧
      (0 < (bodyU64 prev "tree_size").getD 0 → checkChainConsistency X prev cp entry
        ((bodyU64 prev "tree_size").getD 0) ((bodyU64 cp "tree_size").getD 0) = true) := by
  unfold checkChainLink at h
  split at h
  · cases h
  dsimp only at h
  split at h
  · cases h
  split at h
  · cases h
  rename_i hsize
  split at h
  · cases h
  split at h
  · cases h
  rename_i hcons
  refine ⟨UInt64.not_lt.mp hsize, fun hpos => ?_⟩
  simpa [hpos] using hcons

/-- One step back: a consistency proof to a committed prefix of `D` commits
its predecessor to a shorter one. -/
theorem link_backward {D : List Digest} {p q : Value × Value} {sparse : Bool} {m : UInt64} {L : List Bytes}
    (hn : D.length < 2 ^ 64) (hlink : checkChainLink X p.1 q.1 q.2 sparse = true)
    (hm : bodyU64 p.1 "tree_size" = some m) (hpos : 0 < m) (hq : Commits X D q.1)
    (hc : CollisionFree X L) (hlinkL : linkHashed X p q ⊆ L)
    (htreeL : treeInputs X (D.take (targetSize q.1).toNat) ⊆ L) : Commits X D p.1 := by
  obtain ⟨n, hsize, _, hle, hroot⟩ := hq
  obtain ⟨_, hcons⟩ := checkChainLink_spec hlink
  rw [hm, hsize, Option.getD_some, Option.getD_some] at hcons
  have hcons := hcons hpos
  unfold checkChainConsistency at hcons
  split at hcons
  case h_2 => cases hcons
  rename_i proof pr cr hproof hpr hcr
  have hcr' : cr = (treeHash X (D.take n.toNat)).val := by
    rw [root_getD hroot] at hcr; exact (Option.some.inj hcr).symm
  -- the consistency proof is one over the first `n` leaves
  have hlen : (D.take n.toNat).length = n.toNat := by rw [List.length_take]; omega
  have hofNat : UInt64.ofNat (D.take n.toNat).length = n := by rw [hlen, UInt64.ofNat_toNat]
  have hhashed : linkHashed X p q = consistencyInputs X m n pr proof := by
    unfold linkHashed targetSize
    rw [hproof, hpr, hm, hsize]; rfl
  have htsize : targetSize q.1 = n := by simp [targetSize, hsize]
  rw [htsize] at htreeL
  rw [hhashed] at hlinkL
  obtain ⟨h0, hmn, hpr', _⟩ := consistency_sound X (D.take n.toNat) (by omega) m pr proof
    (hc.mono (by rw [hofNat]; exact List.append_subset.mpr ⟨hlinkL, htreeL⟩))
    (by rw [hofNat, ← hcr']; exact hcons)
  rw [hlen] at hmn
  refine ⟨m, hm, h0, by omega, ?_⟩
  rw [List.take_take, Nat.min_eq_left hmn] at hpr'
  exact root_present (by rw [hpr, hpr'])

/-- Backwards along the chain: when the last checkpoint commits to a prefix of
`D`, so does every one, and the sizes do not decrease. -/
theorem chain_backward {D : List Digest} {kl : KeyLog} {sparse : Bool} {L : List Bytes}
    (hn : D.length < 2 ^ 64) (hc : CollisionFree X L) :
    ∀ (l : List (Value × Value)) (prev : Option Value), chainLoop X kl sparse prev l = true →
      (∀ p ∈ l, ∃ s, bodyU64 p.1 "tree_size" = some s ∧ 0 < s) → linksHashed X l ⊆ L →
      (∀ p ∈ l, treeInputs X (D.take (targetSize p.1).toNat) ⊆ L) →
      (∀ q, l.getLast? = some q → Commits X D q.1) →
      (∀ p ∈ l, Commits X D p.1) ∧ l.IsChain fun p q => targetSize p.1 ≤ targetSize q.1
  | [], _, _, _, _, _, _ => by
    refine ⟨?_, .nil⟩
    intro p hp; cases hp
  | [p], _, _, _, _, _, hlast => by
    refine ⟨?_, .singleton _⟩
    intro p' hp'
    obtain rfl := List.mem_singleton.mp hp'
    exact hlast _ rfl
  | p :: q :: rest, prev, h, hsizes, hlinks, htrees, hlast => by
    simp only [chainLoop, Bool.and_eq_true, Option.all_some] at h
    have hrest : chainLoop X kl sparse (some p.1) (q :: rest) = true := by
      simp only [chainLoop, Bool.and_eq_true, Option.all_some]; exact h.2
    obtain ⟨hall, hmono⟩ := chain_backward hn hc (q :: rest) (some p.1) hrest
      (fun x hx => hsizes x (List.mem_cons_of_mem _ hx))
      (fun b hb => hlinks (List.mem_append_right _ hb))
      (fun x hx => htrees x (List.mem_cons_of_mem _ hx))
      (fun x hx => hlast x (by rw [List.getLast?_cons_cons]; exact hx))
    obtain ⟨m, hm, hpos⟩ := hsizes p (by simp)
    have hp := link_backward hn h.2.1.2 hm hpos (hall q (by simp)) hc
      (fun b hb => hlinks (List.mem_append_left _ hb)) (htrees q (by simp))
    refine ⟨?_, List.isChain_cons_cons.mpr ⟨(checkChainLink_spec h.2.1.2).1, hmono⟩⟩
    intro x hx
    rcases List.mem_cons.mp hx with rfl | hx
    · exact hp
    · exact hall x hx

/-! ## The head -/

/-- A checkpoint whose signature verifies has an object for a body. -/
theorem body_object {cp : Value} {keys : Table Digest} (h : verifyCheckpointSig X cp keys = true) :
    ∃ m, cp.get "body" = some (.object m) := by
  unfold verifyCheckpointSig at h
  split at h
  case h_2 => cases h
  rename_i kid body sig _ hbody _
  split at h
  case h_2 => cases h
  rename_i object _ _ _ hobj _ _
  exact ⟨object, by rw [hbody, Value.asObject_eq_some hobj]⟩

theorem checkpointBodyHash_spec {cp : Value} {m : List (String × Value)} {hash : String}
    (hb : cp.get "body" = some (.object m)) (h : checkpointBodyHash X cp = some hash) :
    ∃ canon, canonicalChecked X (.object m) = some canon ∧ canon ∈ checkpointHashed X cp ∧
      hash = hex (X.sha256 canon).val := by
  unfold checkpointBodyHash at h
  rw [hb] at h
  simp only [Option.bind_eq_bind, Option.bind_some, Option.bind_eq_some_iff, Option.pure_def,
    Option.some.injEq] at h
  obtain ⟨canon, hcanon, rfl⟩ := h
  exact ⟨canon, hcanon, by simp [checkpointHashed, hb, hcanon], rfl⟩

/-- Two checkpoints with one body hash say the same root and size. -/
theorem same_body (hX : WriterLaws X) {a b : Value} {keys : Table Digest} {hash : String} {L : List Bytes}
    (hc : CollisionFree X L) (haL : checkpointHashed X a ⊆ L) (hbL : checkpointHashed X b ⊆ L)
    (ha : verifyCheckpointSig X a keys = true) (hb : verifyCheckpointSig X b keys = true)
    (hah : checkpointBodyHash X a = some hash) (hbh : checkpointBodyHash X b = some hash) :
    (∀ s, bodyStr a "root_hash" = some s → bodyStr b "root_hash" = some s) ∧
      ∀ m n, bodyU64 a "tree_size" = some m → bodyU64 b "tree_size" = some n → m = n := by
  obtain ⟨ma, hma⟩ := body_object ha
  obtain ⟨mb, hmb⟩ := body_object hb
  obtain ⟨ca, hca, hain, hha⟩ := checkpointBodyHash_spec hma hah
  obtain ⟨cb, hcb, hbin, hhb⟩ := checkpointBodyHash_spec hmb hbh
  have heq : ca = cb := hc ca (haL hain) cb (hbL hbin) (Subtype.ext (hex_inj (hha.symm.trans hhb)))
  subst heq
  simp only [bodyStr, bodyU64, hma, hmb, Option.bind_some]
  exact ⟨fun s hs => canonical_getStr hX hca hcb hs, fun m n hm hn => canonical_getU64 hX hca hcb hm hn⟩

/-! ## Verified bundles -/

theorem covers_size {chain : List Value} {covers : List (UInt64 × Int)}
    (h : checkpointCoverDeadlines chain = some covers) {cp : Value} (hcp : cp ∈ chain) :
    ∃ s, bodyU64 cp "tree_size" = some s := by
  obtain ⟨b, _, hb⟩ := mem_of_mapM h hcp
  simp only [coverDeadline, Option.bind_eq_bind] at hb
  obtain ⟨s, hs, _⟩ := Option.bind_eq_some_iff.mp hb
  exact ⟨s, hs⟩

/-- The authority check bounds the size from below: no key is active at 0. -/
theorem authority_size {kl : KeyLog} {cp : Value} {s : UInt64} (h : checkpointAuthority kl cp = true)
    (hs : bodyU64 cp "tree_size" = some s) : 0 < s := by
  unfold checkpointAuthority at h
  rw [hs, Option.getD_some, Bool.and_eq_true] at h
  obtain ⟨st, t, _, _, hlt, _⟩ := L3.KeyRun.keyActive_iff.mp h.2
  exact UInt64.lt_of_le_of_lt UInt64.zero_le hlt

/-- What building the tree over every presented prefix hashes. -/
def prefixInputs (X : Crates) (bundle : Value) (D : List Digest) : List Bytes :=
  (chainOf bundle).flatMap fun cp => treeInputs X (D.take (targetSize cp).toNat)

/-- The head of a verified chain commits to the target's leaves. -/
theorem head_commits {bundle target : Value} {entries chainEntries chain : List Value} {kl : KeyLog}
    {root : Bytes} {sparse : Bool} {D : List Digest} {L : List Bytes} (hX : WriterLaws X)
    (h : Accepted X bundle entries kl target chainEntries chain root sparse)
    (hsize : (bodyU64 target "tree_size").map UInt64.toNat = some D.length)
    (hroot : (bodyStr target "root_hash").bind hexToBytes = some (treeHash X D).val)
    (hc : CollisionFree X L) (hL : ∀ cp ∈ target :: chain, checkpointHashed X cp ⊆ L) {head : Value}
    (hhead : chain.getLast? = some head) : Commits X D head := by
  have hmem : head ∈ chain := List.mem_of_getLast? hhead
  have hauth := h.authority
  rw [h.target_eq, h.chain_eq] at hauth
  obtain ⟨hsig, ha⟩ := hauth head (List.mem_cons_of_mem _ hmem)
  have hmatch := h.hhead
  unfold chainHeadMatches at hmatch
  rw [hhead, Option.bind_some] at hmatch
  split at hmatch
  case h_2 => cases hmatch
  rename_i hh want hhh hwant
  rw [eq_of_beq hmatch] at hhh
  obtain ⟨hstr, hnum⟩ := same_body hX hc (hL target (by simp)) (hL head (List.mem_cons_of_mem _ hmem))
    (hauth target (by simp)).1 hsig hwant hhh
  obtain ⟨covers, hcovers⟩ := h.hcovers
  obtain ⟨s, hs⟩ := covers_size hcovers hmem
  obtain ⟨n, hn, hlen⟩ := Option.map_eq_some_iff.mp hsize
  obtain ⟨r, hr, hdec⟩ := Option.bind_eq_some_iff.mp hroot
  obtain rfl := hnum n s hn hs
  have hpos := UInt64.lt_iff_toNat_lt.mp (authority_size ha hs)
  refine ⟨n, hs, hpos, by omega, ?_⟩
  rw [hstr r hr, Option.bind_some, hdec, hlen, List.take_length]

/-- **Append-only history.** In a verified bundle every chain checkpoint
commits to a prefix of whatever leaves the target commits to, the sizes do not
decrease, and equal sizes have equal roots. -/
theorem append_only_history (X : Crates) (hX : WriterLaws X) (bundle : Value) (trust : Option Value)
    (h : (verifyBundleFacts X bundle trust).ok = true) (D : List Digest)
    (hsize : (bodyU64 (targetOf bundle) "tree_size").map UInt64.toNat = some D.length)
    (hroot : (bodyStr (targetOf bundle) "root_hash").bind hexToBytes = some (treeHash X D).val)
    (hc : CollisionFree X (hashedBytes X bundle ++ prefixInputs X bundle D)) :
    (∀ cp ∈ chainOf bundle, ∃ s, bodyU64 cp "tree_size" = some s ∧ 1 ≤ s.toNat ∧ s.toNat ≤ D.length ∧
      (bodyStr cp "root_hash").bind hexToBytes = some (treeHash X (D.take s.toNat)).val) ∧
    ((chainOf bundle).Pairwise fun a b => targetSize a ≤ targetSize b) ∧
    ∀ a ∈ chainOf bundle, ∀ b ∈ chainOf bundle, bodyU64 a "tree_size" = bodyU64 b "tree_size" →
      (bodyStr a "root_hash").bind hexToBytes = (bodyStr b "root_hash").bind hexToBytes := by
  obtain ⟨entries, kl, target, chainEntries, chain, root, sparse, hacc⟩ := accepted_of_ok h
  obtain ⟨covers, hcovers⟩ := hacc.hcovers
  have hlinks := hacc.links_eq
  have hchain := hacc.chain_eq
  have hmem : ∀ p ∈ linksOf bundle, p.1 ∈ chainOf bundle := fun p hp => List.mem_map_of_mem hp
  have hn : D.length < 2 ^ 64 := by
    obtain ⟨n, _, hlen⟩ := Option.map_eq_some_iff.mp hsize
    rw [← hlen]; exact n.toNat_lt
  have hhashed : ∀ cp ∈ targetOf bundle :: chainOf bundle,
      checkpointHashed X cp ⊆ hashedBytes X bundle ++ prefixInputs X bundle D := by
    intro cp hcp b hb
    refine List.mem_append_left _ (List.mem_append_left _ (List.mem_append_right _ ?_))
    exact List.mem_flatMap.mpr ⟨cp, hcp, hb⟩
  obtain ⟨hall, hmono⟩ := chain_backward hn hc (linksOf bundle) none (by rw [hlinks]; exact hacc.chainLoop)
    (by
      intro p hp
      obtain ⟨s, hs⟩ := covers_size hcovers (hchain ▸ hmem p hp)
      exact ⟨s, hs, authority_size (hacc.authority p.1 (List.mem_cons_of_mem _ (hmem p hp))).2 hs⟩)
    (fun b hb => List.mem_append_left _ (List.mem_append_right _ hb))
    (fun p hp b hb => List.mem_append_right _ (List.mem_flatMap.mpr ⟨p.1, hmem p hp, hb⟩))
    (by
      intro q hq
      have hlast : chain.getLast? = some q.1 := by rw [← hchain, chainOf, List.getLast?_map, hq]; rfl
      rw [hacc.target_eq] at hsize hroot hhashed
      rw [hchain] at hhashed
      exact head_commits hX hacc hsize hroot hc hhashed hlast)
  have hcommits : ∀ cp ∈ chainOf bundle, Commits X D cp := by
    intro cp hcp
    obtain ⟨p, hp, rfl⟩ := List.mem_map.mp hcp
    exact hall p hp
  refine ⟨hcommits, ?_, ?_⟩
  · have hpair : (linksOf bundle).Pairwise fun p q => targetSize p.1 ≤ targetSize q.1 :=
      List.isChain_iff_pairwise.mp hmono
    exact List.pairwise_map.mpr hpair
  · intro a ha b hb he
    obtain ⟨s, hs, _, _, hra⟩ := hcommits a ha
    obtain ⟨t, ht, _, _, hrb⟩ := hcommits b hb
    rw [hs, ht] at he; cases he
    rw [hra, hrb]

section
open SwarrmVerify.L1.Reference SwarrmVerify.L3.Published

/-- The checkpoint at size 2 of the published log commits to its first two
leaves. -/
theorem published_history :
    (verifyBundleFacts crates published none).ok = true ∧
      ∀ cp ∈ chainOf published, ∃ s, bodyU64 cp "tree_size" = some s ∧ 1 ≤ s.toNat ∧ s.toNat ≤ 4 ∧
        (bodyStr cp "root_hash").bind hexToBytes =
          some (treeHash crates ([leaf0, leaf1, leaf2, leaf3].take s.toNat)).val := by
  have hc : CollisionFree crates (hashedBytes crates published ++
      prefixInputs crates published [leaf0, leaf1, leaf2, leaf3]) :=
    published_collisionFree (by decide +kernel)
  exact ⟨published_ok, (append_only_history crates (reference_writerLaws _ _ _) published none published_ok
    [leaf0, leaf1, leaf2, leaf3] (by decide +kernel) (by decide +kernel) hc).1⟩

end

end SwarrmVerify.L5.History

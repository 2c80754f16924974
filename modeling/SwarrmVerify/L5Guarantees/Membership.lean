import SwarrmVerify.L4Bundle.Bundle

/-!
# Entry membership

Every entry of a verified bundle is the receipt at its leaf of whatever
receipts the target's root stands for. So one leaf is never shown with two
contents, and neither is one sequence number of an agent.

**Hypotheses.** The bundle verifies. `R` is any list of receipts whose number
and tree hash are those of the target. The bytes hashed by the verification and
by the tree over `R` do not collide, with a leaf and an inner node told apart
by their first byte. No trust context is needed.

The entry's audit path is accepted under the target's root, so the hash of its
leaf is that of the receipt at the index (`L2Merkle.Proofs`), and a leaf hash
fixes the receipt hash it was made of. Two entries are compared through the
same leaf, with no list of receipts behind it.

**Results.**
* `receipt_at_leaf`: an entry is the receipt of its leaf.
* `same_leaf_payload`: entries of one leaf have one payload.
* `same_seq_payload`: entries of one agent and sequence number have one.
* `entry_membership`: all of it, for every verified bundle.
-/
namespace SwarrmVerify.L5.Membership
open SwarrmVerify.L2.Merkle SwarrmVerify.L3.Receipt SwarrmVerify.L3.Keys
open SwarrmVerify.L4.Checkpoint SwarrmVerify.L4.Entries SwarrmVerify.L4.Bundle

variable {X : Crates}

/-- The leaf hash over a receipt hash. -/
def leafHash (X : Crates) (r : Digest) : Digest := X.sha256 (0x00 :: r.val)

/-- What hashing the receipts into a tree hashes. -/
def receiptInputs (X : Crates) (R : List Digest) : List Bytes :=
  R.map (fun r => 0x00 :: r.val) ++ treeInputs X (R.map (leafHash X))

/-! ## What an entry hashes -/

section
variable {e : Value} {kl : KeyLog} {size leaf : UInt64} {root payload : Bytes} {body : Value}
  {sigs : List Value} {proof : List Digest}

theorem entryHashed_eq (h : Checked X e kl size root payload body leaf sigs proof) :
    entryHashed X size e = payload :: leafInput X payload ::
      inclusionInputs X (X.sha256 (leafInput X payload)).val leaf size proof := by
  unfold entryHashed
  rw [h.hpayload, h.hproof, h.hleaf]
  rfl

theorem entryHashed_subset {bundle : Value} (he : e ∈ entriesOf bundle) :
    entryHashed X (targetSize (targetOf bundle)) e ⊆ hashedBytes X bundle := by
  intro b hb
  refine List.mem_append_left _ (List.mem_append_left _ ?_)
  exact List.mem_flatMap.mpr ⟨e, he, hb⟩

end

/-- Two entries checked at one leaf under one root have one payload. -/
theorem same_leaf_payload {e e' : Value} {kl : KeyLog} {size leaf : UInt64} {root payload payload' : Bytes}
    {body body' : Value} {sigs sigs' : List Value} {proof proof' : List Digest} {L : List Bytes}
    (hc : CollisionFree X L) (h : Checked X e kl size root payload body leaf sigs proof)
    (h' : Checked X e' kl size root payload' body' leaf sigs' proof')
    (hL : entryHashed X size e ⊆ L) (hL' : entryHashed X size e' ⊆ L) : payload = payload' := by
  rw [entryHashed_eq h] at hL
  rw [entryHashed_eq h'] at hL'
  simp only [List.cons_subset] at hL hL'
  have hleaf := inclusion_unique X _ _ root leaf size proof proof'
    (hc.mono (List.append_subset.mpr ⟨hL.2.2, hL'.2.2⟩)) h.hincluded h'.hincluded
  have hinput := hc _ hL.2.1 _ hL'.2.1 (Subtype.ext hleaf)
  exact hc _ hL.1 _ hL'.1 (Subtype.ext (List.cons.inj hinput).2)

/-- The receipt hash of a checked entry. -/
theorem receiptHash_checked {e : Value} {kl : KeyLog} {size leaf : UInt64} {root payload : Bytes} {body : Value}
    {sigs : List Value} {proof : List Digest} (h : Checked X e kl size root payload body leaf sigs proof) :
    ∃ agent seq, body.getStr "agent_id" = some agent ∧ body.getU64 "seq" = some seq ∧
      seqKey X e = some ((agent, (seq.toNat : Int)), hex (X.sha256 payload).val) := by
  obtain ⟨raw, _, _, hvalid⟩ := bodyOf_eq_some h.hbody
  have hv := validBody_of hvalid
  obtain ⟨agent, hagent⟩ := hv.agent
  obtain ⟨seq, hseq, _, hmax⟩ := hv.seq
  refine ⟨agent, seq, hagent, hseq, ?_⟩
  have henv : e.get "envelope" = some (e.index "envelope") := by
    cases he : e.get "envelope" with
    | none =>
      have hp := h.hpayload
      have hnull : e.index "envelope" = .null := by simp [Value.index, he]
      rw [hnull] at hp; cases hp
    | some env => simp [Value.index, he]
  -- a valid sequence number is a small unsigned integer, read the same as signed
  have hint : body.getI64 "seq" = some (seq.toNat : Int) := by
    obtain ⟨v, hv, hu⟩ := Option.bind_eq_some_iff.mp hseq
    obtain rfl := Value.asU64_eq_some hu
    have hlt : seq.toNat < 2 ^ 63 := by
      have : L1.Jcs.maxSafeInteger = 9007199254740991 := rfl
      omega
    simp only [Value.getI64, hv, Option.bind_some, Value.asI64, Number.asI64]
    rw [if_pos hlt]
  unfold seqKey
  rw [henv]
  simp [h.hbody, receiptHashHex, h.hpayload, hagent, hint]

/-- Two checked entries of one agent and sequence number have one payload. -/
theorem same_seq_payload {entries : List Value} {e e' : Value} {kl : KeyLog} {size leaf leaf' : UInt64}
    {root payload payload' : Bytes} {body body' : Value} {sigs sigs' : List Value}
    {proof proof' : List Digest} {L : List Bytes} (hc : CollisionFree X L)
    (hseq : checkSeqUniqueness X entries = true) (he : e ∈ entries) (he' : e' ∈ entries)
    (h : Checked X e kl size root payload body leaf sigs proof)
    (h' : Checked X e' kl size root payload' body' leaf' sigs' proof')
    (hagent : body.getStr "agent_id" = body'.getStr "agent_id")
    (hnum : body.getU64 "seq" = body'.getU64 "seq")
    (hL : payload ∈ L) (hL' : payload' ∈ L) : payload = payload' := by
  obtain ⟨a, s, ha, hs, hkey⟩ := receiptHash_checked h
  obtain ⟨a', s', ha', hs', hkey'⟩ := receiptHash_checked h'
  rw [ha, ha'] at hagent
  rw [hs, hs'] at hnum
  cases hagent; cases hnum
  have hhash := checkSeqUniqueness_spec hseq he he' hkey hkey'
  exact hc _ hL _ hL' (Subtype.ext (hex_inj hhash))

/-- An entry checked at a leaf of the tree over the receipts `R` is the receipt
of that leaf: the leaf hashes agree, so their inputs do, so the digests do. -/
theorem receipt_at_leaf {e : Value} {kl : KeyLog} {leaf : UInt64} {payload : Bytes} {body : Value}
    {sigs : List Value} {proof : List Digest} {R : List Digest} {L : List Bytes} (hn : R.length < 2 ^ 64)
    (hc : CollisionFree X L)
    (h : Checked X e kl (UInt64.ofNat R.length) (treeHash X (R.map (leafHash X))).val payload body leaf sigs proof)
    (hL : entryHashed X (UInt64.ofNat R.length) e ⊆ L) (hR : receiptInputs X R ⊆ L) :
    leaf.toNat < R.length ∧ R[leaf.toNat]? = some (X.sha256 payload) := by
  rw [entryHashed_eq h, List.cons_subset, List.cons_subset] at hL
  have hlen : (R.map (leafHash X)).length = R.length := List.length_map ..
  have hinc := h.hincluded
  rw [← hlen] at hL hinc
  obtain ⟨hi, hget, _⟩ := inclusion_sound X (R.map (leafHash X)) (by rw [hlen]; exact hn) leaf _ proof
    (hc.mono (List.append_subset.mpr ⟨hL.2.2, fun b hb => hR (List.mem_append_right _ hb)⟩)) hinc
  rw [hlen] at hi
  refine ⟨hi, ?_⟩
  rw [List.getElem?_map, List.getElem?_eq_getElem hi, Option.map_some, Option.map_some,
    Option.some.injEq] at hget
  have hmem : (0x00 :: R[leaf.toNat].val : Bytes) ∈ L :=
    hR (List.mem_append_left _ (List.mem_map.mpr ⟨_, List.getElem_mem hi, rfl⟩))
  have hinput := hc _ hmem _ hL.2.1 (Subtype.ext hget)
  rw [List.getElem?_eq_getElem hi, Option.some.injEq]
  exact Subtype.ext (List.cons.inj hinput).2

/-- **Entry membership and no equivocation.** -/
theorem entry_membership (X : Crates) (bundle : Value) (trust : Option Value)
    (h : (verifyBundleFacts X bundle trust).ok = true) (R : List Digest)
    (hsize : (bodyU64 (targetOf bundle) "tree_size").map UInt64.toNat = some R.length)
    (hroot : (bodyStr (targetOf bundle) "root_hash").bind hexToBytes =
      some (treeHash X (R.map (leafHash X))).val)
    (hc : CollisionFree X (hashedBytes X bundle ++ receiptInputs X R)) :
    (∀ e ∈ entriesOf bundle, ∃ i payload, e.getU64 "leaf_index" = some i ∧ i.toNat < R.length ∧
      payloadOf X (e.index "envelope") = some payload ∧ R[i.toNat]? = some (X.sha256 payload)) ∧
    (∀ e ∈ entriesOf bundle, ∀ e' ∈ entriesOf bundle,
      e.getU64 "leaf_index" = e'.getU64 "leaf_index" →
        payloadOf X (e.index "envelope") = payloadOf X (e'.index "envelope")) ∧
    ∀ e ∈ entriesOf bundle, ∀ e' ∈ entriesOf bundle, ∀ b b',
      bodyOf X (e.index "envelope") = some b → bodyOf X (e'.index "envelope") = some b' →
      b.getStr "agent_id" = b'.getStr "agent_id" → b.getU64 "seq" = b'.getU64 "seq" →
        payloadOf X (e.index "envelope") = payloadOf X (e'.index "envelope") := by
  obtain ⟨entries, kl, target, chainEntries, chain, root, sparse, hacc⟩ := accepted_of_ok h
  have hentries := hacc.entries_eq
  have htarget := hacc.target_eq
  have hL : ∀ e ∈ entriesOf bundle, entryHashed X (targetSize target) e ⊆
      hashedBytes X bundle ++ receiptInputs X R := by
    intro e he b hb
    refine List.mem_append_left _ (entryHashed_subset he ?_)
    rw [htarget]; exact hb
  refine ⟨?_, ?_, ?_⟩
  · intro e he
    obtain ⟨payload, body, leaf, sigs, proof, hchk⟩ := hacc.hchecked e (hentries ▸ he)
    obtain ⟨n, hn, hlen⟩ := Option.map_eq_some_iff.mp hsize
    rw [htarget] at hn hroot
    have hrt : root = (treeHash X (R.map (leafHash X))).val := by
      have := hacc.hroot
      rw [root_getD hroot] at this; exact (Option.some.inj this).symm
    have hts : targetSize target = UInt64.ofNat R.length := by
      rw [← hlen, UInt64.ofNat_toNat, targetSize, hn]; rfl
    have hin := hL e he
    rw [hts] at hchk hin
    rw [hrt] at hchk
    obtain ⟨hi, hget⟩ := receipt_at_leaf (by rw [← hlen]; exact n.toNat_lt) hc hchk hin
      (fun b hb => List.mem_append_right _ hb)
    exact ⟨leaf, payload, hchk.hleaf, hi, hchk.hpayload, hget⟩
  · intro e he e' he' hleaf
    obtain ⟨payload, body, leaf, sigs, proof, hchk⟩ := hacc.hchecked e (hentries ▸ he)
    obtain ⟨payload', body', leaf', sigs', proof', hchk'⟩ := hacc.hchecked e' (hentries ▸ he')
    rw [hchk.hleaf, hchk'.hleaf] at hleaf; cases hleaf
    rw [hchk.hpayload, hchk'.hpayload, same_leaf_payload hc hchk hchk' (hL e he) (hL e' he')]
  · intro e he e' he' b b' hb hb' hagent hnum
    obtain ⟨payload, body, leaf, sigs, proof, hchk⟩ := hacc.hchecked e (hentries ▸ he)
    obtain ⟨payload', body', leaf', sigs', proof', hchk'⟩ := hacc.hchecked e' (hentries ▸ he')
    rw [hchk.hbody] at hb; rw [hchk'.hbody] at hb'
    cases hb; cases hb'
    have hin := hL e he
    have hin' := hL e' he'
    rw [entryHashed_eq hchk] at hin
    rw [entryHashed_eq hchk'] at hin'
    rw [hchk.hpayload, hchk'.hpayload, same_seq_payload hc hacc.hseq (hentries ▸ he) (hentries ▸ he') hchk
      hchk' hagent hnum (hin (by simp)) (hin' (by simp))]

section
open SwarrmVerify.L3.Published

/-- Every entry of the published log is a receipt of it. -/
theorem published_membership :
    (verifyBundleFacts crates published none).ok = true ∧
      ∀ e ∈ entriesOf published, ∃ i payload, e.getU64 "leaf_index" = some i ∧ i.toNat < 4 ∧
        payloadOf crates (e.index "envelope") = some payload ∧
        [receipt0, receipt1, receipt2, receipt3][i.toNat]? = some (crates.sha256 payload) := by
  have hc : CollisionFree crates (hashedBytes crates published ++
      receiptInputs crates [receipt0, receipt1, receipt2, receipt3]) :=
    published_collisionFree (by decide +kernel)
  exact ⟨published_ok, (entry_membership crates published none published_ok
    [receipt0, receipt1, receipt2, receipt3] (by decide +kernel) (by decide +kernel) hc).1⟩

end

end SwarrmVerify.L5.Membership

import SwarrmVerify.L4Bundle.Reported

/-!
# The table of checkpoints

A verified bundle keeps its chain as a table from body hashes to times and
sizes. The attestation records are looked up in it: a timestamp names a body
hash, and what it is compared with is the entry of the table. The sizes of the
table are reported.

Two checkpoints of one body hash have one entry, and the one that comes last
stays. This is harmless, since their bodies are the same.

**Results.**
* `checkpointFacts_spec`: the table has the body hash of every checkpoint of
  the chain, with the time and size of one that has it, and nothing else.
* `verified_checkpoints`: a verified bundle has such a table (`Tabled`), and
  its attestation records were checked against it.
* `reattested_ok`: the attestation records of a verified bundle can be
  exchanged for others that check out against its table; the rest of the
  verification does not read them.
-/
namespace SwarrmVerify.L4.Bundle
open SwarrmVerify.L3.Keys SwarrmVerify.L4.Checkpoint

variable {X : Crates}

/-! ## Tables -/

section
variable {α : Type}

theorem lookup_inserted (l : List (String × α)) {k : String} {v : α} : ∀ t : Table α,
    (l.foldl (fun t f => t.insert f.1 f.2) t).lookup k = some v → (k, v) ∈ l ∨ t.lookup k = some v := by
  induction l with
  | nil => exact fun _ h => .inr h
  | cons e l ih =>
    intro t h
    rcases ih _ h with hl | ht
    · exact .inl (List.mem_cons_of_mem _ hl)
    · rcases L3.KeyRun.lookup_insert_cases ht with ⟨rfl, rfl⟩ | ⟨_, ht⟩
      · exact .inl List.mem_cons_self
      · exact .inr ht

theorem isSome_lookup_inserted (l : List (String × α)) {k : String} : ∀ t : Table α,
    (k ∈ l.map Prod.fst ∨ (t.lookup k).isSome = true) →
      ((l.foldl (fun t f => t.insert f.1 f.2) t).lookup k).isSome = true := by
  induction l with
  | nil => simp
  | cons e l ih =>
    intro t h
    refine ih _ ?_
    by_cases hk : k = e.1
    · subst hk
      exact .inr (by simp)
    · rw [AList.lookup_insert_ne hk]
      simpa [hk] using h

end

/-- The sizes that stand in a table of checkpoints. -/
theorem lookup_sizes (l : List (Sigma fun _ : String => String × UInt64)) (k : String) :
    (l.foldr (fun e t => t.insert e.1 e.2.2) (∅ : Table UInt64)).lookup k = (l.dlookup k).map Prod.snd := by
  induction l with
  | nil => rfl
  | cons e l ih =>
    obtain ⟨j, x⟩ := e
    rw [List.foldr_cons]
    by_cases hk : k = j
    · subst hk
      rw [AList.lookup_insert, List.dlookup_cons_eq, Option.map_some]
    · rw [AList.lookup_insert_ne hk, ih, List.dlookup_cons_ne l ⟨j, x⟩ hk]

/-! ## Checkpoints -/

/-- What a table of checkpoints says of a chain. -/
theorem checkpointFacts_spec {chain : List Value} {checkpoints : CheckpointFacts}
    (h : checkpointFacts X chain = some checkpoints) :
    (∀ k v, checkpoints.lookup k = some v → ∃ cp ∈ chain, checkpointBodyHash X cp = some k ∧
      bodyStr cp "ts" = some v.1 ∧ bodyU64 cp "tree_size" = some v.2) ∧
    ∀ cp ∈ chain, ∀ k, checkpointBodyHash X cp = some k → (checkpoints.lookup k).isSome = true := by
  simp only [checkpointFacts, Option.bind_eq_bind, Option.bind_eq_some_iff, Option.pure_def, Option.some.injEq] at h
  obtain ⟨facts, hfacts, rfl⟩ := h
  refine ⟨?_, ?_⟩
  · intro k v hv
    rcases lookup_inserted facts _ hv with hmem | hnone
    · obtain ⟨cp, hcp, hread⟩ := mem_mapM hfacts hmem
      simp only [Option.bind_eq_some_iff, Option.some.injEq] at hread
      obtain ⟨hash, hhash, ts, hts, size, hsize, rfl, rfl⟩ := hread
      exact ⟨cp, hcp, hhash, hts, hsize⟩
    · simp at hnone
  · intro cp hcp k hk
    obtain ⟨f, hf, hread⟩ := mem_of_mapM hfacts hcp
    simp only [hk, Option.bind_some, Option.bind_eq_some_iff, Option.some.injEq] at hread
    obtain ⟨ts, -, size, -, rfl⟩ := hread
    exact isSome_lookup_inserted facts _ (.inl (List.mem_map_of_mem hf))

/-- The table of a verified bundle. -/
structure Tabled (X : Crates) (bundle : Value) (trust : Option Value) (checkpoints : CheckpointFacts) : Prop where
  chain : checkpointFacts X (chainOf bundle) = some checkpoints
  records : (checkAttestationRecords X bundle checkpoints trust).1 = true
  trusted : (verifyBundleFacts X bundle trust).trustedTstCheckpoints =
    (checkAttestationRecords X bundle checkpoints trust).2
  sizes : ∀ k, (verifyBundleFacts X bundle trust).chainSizes.lookup k = (checkpoints.lookup k).map Prod.snd

theorem verified_checkpoints {bundle : Value} {trust : Option Value}
    (h : (verifyBundleFacts X bundle trust).ok = true) :
    ∃ checkpoints, Tabled X bundle trust checkpoints := by
  obtain ⟨_, _, _, _, _, _, _, hacc⟩ := accepted_of_ok h
  suffices hfacts : ∃ checkpoints, checkpointFacts X (chainOf bundle) = some checkpoints ∧
      (checkAttestationRecords X bundle checkpoints trust).1 = true ∧
      (verifyBundleFacts X bundle trust).trustedTstCheckpoints =
        (checkAttestationRecords X bundle checkpoints trust).2 ∧
      ∀ k, (verifyBundleFacts X bundle trust).chainSizes.lookup k = (checkpoints.lookup k).map Prod.snd by
    obtain ⟨checkpoints, hchain, hrecords, htrusted, hsizes⟩ := hfacts
    exact ⟨checkpoints, hchain, hrecords, htrusted, hsizes⟩
  rw [hacc.chain_eq]
  unfold verifyBundleFacts at h ⊢
  split at h
  · cases h
  rename_i entries kl hadm
  dsimp only at h ⊢
  split at h
  case isFalse => cases h
  rename_i hr
  rw [if_pos hr]
  unfold checkCheckpointsAndEntries at hr ⊢
  rw [hacc.htarget, hacc.hpresented] at hr ⊢
  dsimp only at hr ⊢
  split at hr
  · cases hr
  rename_i hne
  rw [if_neg hne]
  split at hr
  · cases hr
  rename_i hset
  rw [if_neg hset]
  split at hr
  · cases hr
  rename_i hlinks
  rw [if_neg hlinks]
  split at hr
  · cases hr
  rename_i checkpoints hcheckpoints
  split at hr
  · cases hr
  rename_i hrecords
  rw [hcheckpoints]
  rw [if_neg hrecords]
  exact ⟨checkpoints, rfl, by simpa using hrecords, rfl, fun k => lookup_sizes checkpoints.entries k⟩

/-! ## Other attestation records -/

/-- Two bundles that differ in their attestation records only. -/
structure Reattested (X : Crates) (b b' : Value) : Prop where
  get : ∀ k, k ≠ "tst_records" → k ≠ "anchor_records" → b'.get k = b.get k
  caps : withinCaps X b' = withinCaps X b

theorem reattested_ok {b b' : Value} {trust : Option Value} (h : Reattested X b b')
    (hok : (verifyBundleFacts X b trust).ok = true) {checkpoints : CheckpointFacts}
    (htable : checkpointFacts X (chainOf b) = some checkpoints) :
    (verifyBundleFacts X b' trust).ok = (checkAttestationRecords X b' checkpoints trust).1 := by
  obtain ⟨_, _, target, chainEntries, chain, _, _, hacc⟩ := accepted_of_ok hok
  rw [hacc.chain_eq] at htable
  have horigin := h.get "origin" (by decide) (by decide)
  have hentries : b'.getArray "entries" = b.getArray "entries" := by
    rw [Value.getArray, Value.getArray, h.get _ (by decide) (by decide)]
  have hjwks : ∀ kl, checkJwksMatchLog X b' kl = checkJwksMatchLog X b kl := by
    intro kl
    simp only [checkJwksMatchLog, h.get "jwks" (by decide) (by decide)]
  have hadmitted : admitted X b' = admitted X b := by
    simp only [admitted, h.caps, hentries, getStr_agree (h.get "schema" (by decide) (by decide)), hjwks]
  have htarget : b'.get "target_checkpoint" = some target := by
    rw [h.get _ (by decide) (by decide), hacc.htarget]
  have hpresented : presentedChain b' = some (chainEntries, chain) := by
    rw [presentedChain_agree (h.get _ (by decide) (by decide)), hacc.hpresented]
  unfold verifyBundleFacts at hok ⊢
  rw [hadmitted]
  split at hok
  · cases hok
  rename_i entries kl hadm
  dsimp only at hok ⊢
  split at hok
  case isFalse => cases hok
  rename_i hr
  -- the stages before the records agree
  suffices hsame : (checkCheckpointsAndEntries X b' entries kl trust {}).1 =
      (checkAttestationRecords X b' checkpoints trust).1 by
    rw [hsame]
    split
    · rename_i hpass
      exact hpass.symm
    · rename_i hfail
      exact (Bool.not_eq_true _ |>.mp hfail).symm
  unfold checkCheckpointsAndEntries at hr ⊢
  rw [hacc.htarget, hacc.hpresented] at hr
  rw [htarget, hpresented]
  dsimp only at hr ⊢
  rw [checkEntrySet_agree horigin (h.get _ (by decide) (by decide)),
    checkChainAndLineage_agree horigin (h.get _ (by decide) (by decide)), htable]
  split at hr
  · cases hr
  rename_i hne
  rw [if_neg hne]
  split at hr
  · cases hr
  rename_i hset
  rw [if_neg hset]
  split at hr
  · cases hr
  rename_i hlinks
  rw [if_neg hlinks]
  dsimp only
  split
  · rename_i hfail
    simpa using hfail
  · rename_i hpass
    simpa using hpass

end SwarrmVerify.L4.Bundle

import SwarrmVerify.L4Bundle.Bundle

/-!
# What a verified bundle reports

Beside its verdict a verification reports facts: the recorder's attested
leaves, the sizes along the chain, the cover of the continuity assertions,
completeness, the origin. The stages of the check compute them on their way and
hand them on. Here each is stated as the value of the function that computes
it, on the parts of the bundle (`Reported`), so that later results can speak of
a fact without running through the stages.

**Results.**
* `verified_facts`: the parts of a verified bundle, and what is reported of
  them.
* `checkEntrySet_agree`, `checkChainAndLineage_agree`,
  `checkAttestationRecords_agree`: a stage reads the members of the bundle that
  it names, and two bundles that agree on these pass it alike.
* `chain_sizes`: by induction along an accepted chain, each checkpoint is at
  least as large as what came before it.
* `chain_canonical`, `canonical_u64`: the checkpoints of the chain have
  canonical bodies, and a canonical body holds no unsigned integer beyond the
  exact ones, so the sizes that are reported are the sizes that were signed.
-/
namespace SwarrmVerify.L4.Bundle
open SwarrmVerify.L1.Jcs SwarrmVerify.L3.Receipt SwarrmVerify.L3.Keys SwarrmVerify.L4.Checkpoint
open SwarrmVerify.L4.Entries SwarrmVerify.L4.Continuity

variable {X : Crates}

/-- The parts of a verified bundle, and what is reported of them. -/
structure Reported (X : Crates) (bundle : Value) (trust : Option Value) (entries : List Value) (kl : KeyLog)
    (target : Value) (chain : List Value) : Prop where
  passed : (checkEntries X entries target chain kl trust).1 = true
  recorder : (verifyBundleFacts X bundle trust).recorderAttested = (checkEntries X entries target chain kl trust).2
  continuity : ((verifyBundleFacts X bundle trust).continuityPresent, (verifyBundleFacts X bundle trust).continuityOk,
    (verifyBundleFacts X bundle trust).continuityGaps) = assessContinuity X bundle chain kl

/-- What the checks report when they pass. -/
theorem checks_facts {bundle : Value} {entries : List Value} {kl : KeyLog} {trust : Option Value} {target : Value}
    {chainEntries chain : List Value} (htarget : bundle.get "target_checkpoint" = some target)
    (hpresented : presentedChain bundle = some (chainEntries, chain))
    (h : (checkCheckpointsAndEntries X bundle entries kl trust {}).1 = true) :
    (checkEntries X entries target chain kl trust).1 = true ∧
      (checkCheckpointsAndEntries X bundle entries kl trust {}).2.recorderAttested =
        (checkEntries X entries target chain kl trust).2 ∧
      ((checkCheckpointsAndEntries X bundle entries kl trust {}).2.continuityPresent,
        (checkCheckpointsAndEntries X bundle entries kl trust {}).2.continuityOk,
        (checkCheckpointsAndEntries X bundle entries kl trust {}).2.continuityGaps) =
          assessContinuity X bundle chain kl := by
  unfold checkCheckpointsAndEntries at h ⊢
  rw [htarget, hpresented] at h ⊢
  dsimp only at h ⊢
  split at h
  · cases h
  rename_i hne
  rw [if_neg hne]
  split at h
  · cases h
  rename_i hset
  rw [if_neg hset]
  split at h
  · cases h
  rename_i hlinks
  rw [if_neg hlinks]
  split at h
  · cases h
  rename_i checkpoints hcheckpoints
  split at h
  · cases h
  rename_i hrecords
  simp only [checkEntrySet, Bool.not_eq_true', Bool.not_eq_false, Bool.and_eq_true] at hset
  rw [if_neg hrecords]
  exact ⟨hset.1.1, rfl, rfl⟩

theorem verified_facts {bundle : Value} {trust : Option Value} (h : (verifyBundleFacts X bundle trust).ok = true) :
    ∃ entries kl target chainEntries chain root sparse,
      Accepted X bundle entries kl target chainEntries chain root sparse ∧
        Reported X bundle trust entries kl target chain := by
  cases hadm : admitted X bundle with
  | none =>
    rw [verifyBundleFacts, hadm] at h
    cases h
  | some p =>
    obtain ⟨entries, kl⟩ := p
    have hr : (checkCheckpointsAndEntries X bundle entries kl trust {}).1 = true := by
      by_contra hr
      rw [verifyBundleFacts, hadm] at h
      simp only [if_neg hr] at h
      cases h
    obtain ⟨hentries, hreplay, hok, hjwks⟩ := admitted_spec hadm
    obtain ⟨target, chainEntries, chain, root, sparse, haccepted⟩ := accepted_of_checks hentries hreplay hok hjwks hr
    obtain ⟨hpassed, hrecorder, hcontinuity⟩ := checks_facts haccepted.htarget haccepted.hpresented hr
    have hfacts : verifyBundleFacts X bundle trust =
        { (checkCheckpointsAndEntries X bundle entries kl trust {}).2 with
          ok := true, originAttested := originAttested X bundle kl trust } := by
      rw [verifyBundleFacts, hadm]
      simp only [if_pos hr]
    exact ⟨entries, kl, target, chainEntries, chain, root, sparse, haccepted, hpassed, by rw [hfacts]; exact hrecorder,
      by rw [hfacts]; exact hcontinuity⟩

/-! ## What is read of a bundle

Each check reads some members of the bundle, and no others. -/

variable {b b' : Value}

theorem getStr_agree {k : String} (h : b'.get k = b.get k) : b'.getStr k = b.getStr k := by
  rw [Value.getStr, Value.getStr, h]

theorem getSome_agree {k : String} (h : b'.get k = b.get k) : b'.getSome k = b.getSome k := by
  rw [Value.getSome, Value.getSome, h]

theorem presentedChain_agree (h : b'.get "checkpoint_chain" = b.get "checkpoint_chain") :
    presentedChain b' = presentedChain b := by
  simp only [presentedChain, Value.getArray, h]

theorem checkEntrySet_agree (horigin : b'.get "origin" = b.get "origin")
    (hmanifest : b'.get "export_manifest" = b.get "export_manifest") (es : List Value) (target : Value)
    (chain : List Value) (kl : KeyLog) (trust : Option Value) (facts : BundleFacts) :
    checkEntrySet X b' es target chain kl trust facts = checkEntrySet X b es target chain kl trust facts := by
  simp only [checkEntrySet, checkExportManifest, manifestTargetTime, getStr_agree horigin, getSome_agree hmanifest]

theorem checkChainAndLineage_agree (horigin : b'.get "origin" = b.get "origin")
    (hprofile : b'.get "checkpoint_chain_profile" = b.get "checkpoint_chain_profile") (es : List Value)
    (target : Value) (chain chainEntries : List Value) (kl : KeyLog) :
    checkChainAndLineage X b' es target chain chainEntries kl = checkChainAndLineage X b es target chain chainEntries kl := by
  simp only [checkChainAndLineage, chainProfile, checkBundleOrigin, getStr_agree horigin, hprofile]

theorem checkAttestationRecords_agree (htst : b'.get "tst_records" = b.get "tst_records")
    (hanchors : b'.get "anchor_records" = b.get "anchor_records") (checkpoints : CheckpointFacts) (trust : Option Value) :
    checkAttestationRecords X b' checkpoints trust = checkAttestationRecords X b checkpoints trust := by
  simp only [checkAttestationRecords, getSome_agree htst, getSome_agree hanchors]

/-! ## The chain -/

theorem chainLink_size {prev cp entry : Value} {sparse : Bool} (h : checkChainLink X prev cp entry sparse = true) :
    (bodyU64 prev "tree_size").getD 0 ≤ (bodyU64 cp "tree_size").getD 0 := by
  unfold checkChainLink at h
  split at h
  · cases h
  dsimp only at h
  split at h
  · cases h
  split at h
  · cases h
  rename_i hsize
  exact UInt64.not_lt.mp hsize

/-- Along the chain, by induction: each checkpoint is at least as large as
what came before. -/
theorem chainLoop_sizes {kl : KeyLog} {sparse : Bool} (l : List (Value × Value)) :
    ∀ prev : Option Value, chainLoop X kl sparse prev l = true →
      (∀ p ∈ prev, ∀ q ∈ l, (bodyU64 p "tree_size").getD 0 ≤ (bodyU64 q.1 "tree_size").getD 0) ∧
        l.Pairwise fun p q => (bodyU64 p.1 "tree_size").getD 0 ≤ (bodyU64 q.1 "tree_size").getD 0 := by
  induction l with
  | nil => exact fun prev _ => ⟨fun _ _ _ hq => absurd hq List.not_mem_nil, List.Pairwise.nil⟩
  | cons x l ih =>
    intro prev h
    simp only [chainLoop, Bool.and_eq_true] at h
    obtain ⟨hnext, hrest⟩ := ih (some x.1) h.2
    have hx := hnext x.1 rfl
    refine ⟨fun p hp q hq => ?_, List.pairwise_cons.mpr ⟨hx, hrest⟩⟩
    have hlink : checkChainLink X p x.1 x.2 sparse = true := by
      rw [Option.mem_def.mp hp] at h
      exact h.1.2
    rcases List.mem_cons.mp hq with rfl | hq
    · exact chainLink_size hlink
    · exact UInt64.le_trans (chainLink_size hlink) (hx q hq)

/-- The sizes along an accepted chain do not decrease. -/
theorem Accepted.chain_sizes {bundle : Value} {entries : List Value} {kl : KeyLog} {target : Value}
    {chainEntries chain : List Value} {root : Bytes} {sparse : Bool}
    (h : Accepted X bundle entries kl target chainEntries chain root sparse) :
    chain.Pairwise fun p q => (bodyU64 p "tree_size").getD 0 ≤ (bodyU64 q "tree_size").getD 0 := by
  have hpairs := (chainLoop_sizes _ none h.chainLoop).2
  rw [← h.chain_eq, chainOf, h.links_eq]
  exact List.pairwise_map.mpr hpairs

/-- Every checkpoint of the chain states a size. -/
theorem Accepted.chain_size {bundle : Value} {entries : List Value} {kl : KeyLog} {target : Value}
    {chainEntries chain : List Value} {root : Bytes} {sparse : Bool}
    (h : Accepted X bundle entries kl target chainEntries chain root sparse) :
    ∀ cp ∈ chain, ∃ size, bodyU64 cp "tree_size" = some size := by
  intro cp hcp
  obtain ⟨covers, hcovers⟩ := h.hcovers
  obtain ⟨b, _, hb⟩ := mem_of_mapM hcovers hcp
  simp only [coverDeadline, Option.bind_eq_bind] at hb
  obtain ⟨size, hsize, _⟩ := Option.bind_eq_some_iff.mp hb
  exact ⟨size, hsize⟩

/-- Every checkpoint of the chain has a canonical body. -/
theorem Accepted.chain_canonical {bundle : Value} {entries : List Value} {kl : KeyLog} {target : Value}
    {chainEntries chain : List Value} {root : Bytes} {sparse : Bool}
    (h : Accepted X bundle entries kl target chainEntries chain root sparse) :
    ∀ cp ∈ chain, ∃ body canon, cp.get "body" = some body ∧ canonicalChecked X body = some canon := by
  intro cp hcp
  have hsigned := (h.authority cp (List.mem_cons_of_mem _ (h.chain_eq ▸ hcp))).1
  unfold verifyCheckpointSig at hsigned
  split at hsigned
  case h_2 => cases hsigned
  rename_i hbody _
  split at hsigned
  case h_2 => cases hsigned
  rename_i canon _ _ _ hcanon
  exact ⟨_, canon, hbody, hcanon⟩

/-- A canonical body holds no `u64` beyond the exact integers. -/
theorem canonical_u64 {body : Value} {canon : Bytes} {k : String} {n : UInt64}
    (hcanon : canonicalChecked X body = some canon) (hn : body.getU64 k = some n) : (n.toNat : Int) ≤ maxSafeInteger := by
  obtain ⟨v, hv, hu⟩ := Option.bind_eq_some_iff.mp hn
  obtain rfl := Value.asU64_eq_some hu
  cases body with
  | object m =>
    rw [canonicalChecked, writeValue, if_neg (show ¬ maxDepth < 0 by decide)] at hcanon
    obtain ⟨out, hout, _⟩ := Option.map_eq_some_iff.mp hcanon
    obtain ⟨text, htext⟩ := writeMembers_writes hout hv
    rw [writeValue, if_neg (show ¬ maxDepth - 1 < 0 by decide)] at htext
    obtain ⟨t, ht, _⟩ := Option.map_eq_some_iff.mp htext
    unfold numberText at ht
    simp only [Number.asI64, Number.asU64] at ht
    split at ht
    · rename_i i hi
      split at hi
      · cases hi
        split at ht
        · rename_i hsafe
          exact hsafe.2
        · cases ht
      · cases hi
    · split at ht
      · rename_i hsafe
        exact hsafe
      · cases ht
  | _ => cases hv

end SwarrmVerify.L4.Bundle

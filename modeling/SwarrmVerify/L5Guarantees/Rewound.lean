import SwarrmVerify.L3KeyLog.Cut
import SwarrmVerify.L5Guarantees.Authority
import SwarrmVerify.L5Guarantees.Exported
import SwarrmVerify.L5Guarantees.History
import SwarrmVerify.L5Guarantees.Layout

/-!
# Rewinding a log

Whoever holds a verified bundle and the leaves of its log can write the export
that stood at any checkpoint of the chain: the receipts below it with the audit
paths they had, the chain up to it, and the keys introduced so far (`rewound`).
It verifies as well, but for one thing. A receipt may name a lineage revision
that the log came to hold only later, and then the earlier export has an orphan
that the later one has not.

**Hypotheses.** The bundle verifies. The leaves `D` are those of its log: their
number and their tree hash are the size and the root of the target checkpoint.
The bytes that verification hashes, those of the tree over `D` and those of its
prefixes do not collide. The crates obey `WriterLaws`.

**What carries over.** The check of a receipt reads its own path, the key of
its signer and the deadline of its leaf, and none of these depends on anything
above the leaf: `signer_known`, `inclusion_rewound`, `coveredInTime_take`. The
check of the chain is a loop, of which a prefix is a run of its own:
`chainLoop_rewound`. The caps of the profile shrink with the bundle.

**Results.**
* `chain_commits`: every checkpoint of a verified chain commits to the leaves
  below its size, and sizes grow.
* `passed_rewound`: everything but the lineages carries over, and so do the
  attestations.
* `lineage_below`: what the lineages need.
* `rewound_exact`: the rewound bundle verifies exactly if the receipts below
  the checkpoint show the revisions that they name, and then it attests the
  leaves that were attested and lie below.
-/
namespace SwarrmVerify.L5.Rewound
open SwarrmVerify.L1.Jcs SwarrmVerify.L2.Merkle SwarrmVerify.L3.Receipt SwarrmVerify.L3.Keys SwarrmVerify.L3.KeyRun
open SwarrmVerify.L3.Cut SwarrmVerify.L4.Checkpoint SwarrmVerify.L4.Entries SwarrmVerify.L4.Bundle
open SwarrmVerify.L5.Authority SwarrmVerify.L5.History SwarrmVerify.L5.Membership SwarrmVerify.L5.Order
open SwarrmVerify.L5.Exported

variable {X : Crates}

/-! ## The bundle as it stood -/

/-- The entry with the audit path of its leaf among `leaves`; everything else of
it stays. -/
def reproved (X : Crates) (leaves : List Digest) (e : Value) : Value :=
  .object [("leaf_index", e.index "leaf_index"), ("envelope", e.index "envelope"),
    ("inclusion_proof", .array ((auditPath X ((e.getU64 "leaf_index").getD 0).toNat leaves).map fun d =>
      .string (hex d.val)))]

/-- The members of a JWK that its key is read from. -/
def publicJwk (jwk : Value) : Value :=
  .object [("kty", jwk.index "kty"), ("crv", jwk.index "crv"), ("x", jwk.index "x")]

instance (c : KeyClaim) : Decidable (Introduces c) := inferInstanceAs (Decidable (_ ∨ _))

/-- The keys a key log introduced. -/
def introductions (X : Crates) (l : List KeyEntry) : List KeyClaim :=
  l.filterMap fun k => (keyClaim X k).filter fun c => decide (Introduces c)

/-- The entries below a leaf. -/
def entriesBelow (m : UInt64) (es : List Value) : List Value :=
  es.filter fun e => decide ((e.getU64 "leaf_index").getD 0 < m)

/-- The entries below a leaf, with their audit paths among the leaves of `D`
below it. -/
def entriesAt (X : Crates) (D : List Digest) (m : UInt64) (es : List Value) : List Value :=
  (entriesBelow m es).map (reproved X (D.take m.toNat))

/-- The export of the log of leaves `D` as it stood at the checkpoint `cp`, the
`i`-th of the bundle's chain: the entries below it, the chain up to it, and the
keys introduced by then. A manifest, timestamps and anchors are left out, since
they are about the whole. -/
def rewound (X : Crates) (D : List Digest) (b : Value) (i : Nat) (cp : Value) : Value :=
  .object ([("schema", .string "evd/bundle/v1"), ("origin", b.index "origin"),
    ("jwks", .object [("keys", .array ((introductions X (below (targetSize cp) (keyLogOf X b))).map fun c =>
      publicJwk c.jwk))]),
    ("entries", .array (entriesAt X D (targetSize cp) (entriesOf b))),
    ("target_checkpoint", cp), ("checkpoint_chain", .array (((linksOf b).take (i + 1)).map Prod.snd))] ++
    ((b.get "checkpoint_chain_profile").map fun p => ("checkpoint_chain_profile", p)).toList)

/-! ## Entries -/

section
variable {leaves : List Digest} {e : Value}

theorem reproved_envelope : (reproved X leaves e).get "envelope" = some (e.index "envelope") := rfl

theorem reproved_index : (reproved X leaves e).index "envelope" = e.index "envelope" := rfl

theorem reproved_leaf : (reproved X leaves e).getU64 "leaf_index" = e.getU64 "leaf_index" := by
  have hget : (reproved X leaves e).get "leaf_index" = some (e.index "leaf_index") := rfl
  rw [Value.getU64, hget, Option.bind_some, Value.getU64, Value.index]
  cases e.get "leaf_index" <;> rfl

theorem bodyOf_null : bodyOf X .null = none := rfl

/-- The body of an entry, whether or not the envelope is present: the code reads
it in both ways. -/
theorem bodyOf_envelope : (e.get "envelope").bind (bodyOf X) = bodyOf X (e.index "envelope") := by
  rw [Value.index]
  cases e.get "envelope" with
  | none => rw [Option.bind_none, Option.getD_none, bodyOf_null]
  | some env => rfl

theorem receiptHash_envelope :
    (e.get "envelope").bind (receiptHashHex X) = receiptHashHex X (e.index "envelope") := by
  rw [Value.index]
  cases e.get "envelope" <;> rfl

/-- A new proof changes nothing about the receipt, so the key log of a rewound
bundle is read off the same receipts. -/
theorem keyEntry_reproved : keyEntry X (reproved X leaves e) = keyEntry X e := by
  simp only [keyEntry, reproved_index, reproved_leaf]

theorem seqKey_reproved : seqKey X (reproved X leaves e) = seqKey X e := by
  simp only [seqKey, bodyOf_envelope, receiptHash_envelope, reproved_index]

theorem lineageItem_reproved : lineageItem X (reproved X leaves e) = lineageItem X e := by
  simp only [lineageItem, bodyOf_envelope, receiptHash_envelope, reproved_index]

/-- What does not read the audit paths is read as before. -/
theorem filterMap_reproved {β : Type} {f : Value → Option β} (hf : ∀ e, f (reproved X leaves e) = f e)
    (es : List Value) : (es.map (reproved X leaves)).filterMap f = es.filterMap f := by
  rw [List.filterMap_map]
  exact List.filterMap_congr fun e _ => hf e

end

theorem proofHashes_hex (path : List Digest) :
    proofHashes (some (.array (path.map fun d => .string (hex d.val)))) = some path := by
  rw [proofHashes, mapM_eq_some, List.map_map]
  refine List.map_congr_left fun d _ => ?_
  simp only [Function.comp_apply, Value.asStr, Option.bind_some, hexToBytes_hex]
  exact toDigest_iff.mpr rfl

/-- What is read with its leaf is read below a leaf from the entries below it.
The key log, the sequence numbers and the lineages are all read so. -/
theorem filterMap_below {β : Type} {f : Value → Option β} (leaf : β → UInt64)
    (h : ∀ e x, f e = some x → (e.getU64 "leaf_index").getD 0 = leaf x) (m : UInt64) (es : List Value) :
    (entriesBelow m es).filterMap f = (es.filterMap f).filter fun x => decide (leaf x < m) := by
  rw [entriesBelow, List.filterMap_filter, List.filter_filterMap]
  refine List.filterMap_congr fun e _ => ?_
  cases hf : f e with
  | none => rw [ite_self, Option.filter_none]
  | some x => rw [h e x hf, Option.filter_some]

theorem keyEntries_below {D : List Digest} {m : UInt64} (es : List Value) :
    (entriesAt X D m es).filterMap (keyEntry X) = below m (es.filterMap (keyEntry X)) := by
  rw [entriesAt, filterMap_reproved fun _ => keyEntry_reproved]
  exact filterMap_below KeyEntry.leaf (fun _ _ hk => (keyEntry_spec hk).1.symm) m es

/-- Fewer receipts are numbered as uniquely. -/
theorem seqUnique_below {D : List Digest} {m : UInt64} {es : List Value} (h : checkSeqUniqueness X es = true) :
    checkSeqUniqueness X (entriesAt X D m es) = true := by
  rw [checkSeqUniqueness_iff] at h ⊢
  have hsub : (entriesAt X D m es).filterMap (seqKey X) ⊆ es.filterMap (seqKey X) := by
    rw [entriesAt, filterMap_reproved fun _ => seqKey_reproved]
    exact ((List.filter_sublist (l := es)).filterMap _).subset
  exact fun key rh rh' hkey hkey' => h key rh rh' (hsub hkey) (hsub hkey')

/-! ## What verifying takes -/

/-- All that a bundle is checked for, its lineages, manifest and timestamps
apart. It is what carries over as a whole. -/
structure Passed (X : Crates) (b : Value) (entries : List Value) (kl : KeyLog) (target : Value)
    (chainEntries chain : List Value) (root : Bytes) (covers : List (UInt64 × Int)) (tenant : String)
    (sparse : Bool) : Prop extends Accepted X b entries kl target chainEntries chain root sparse where
  hcaps : withinCaps X b = true
  hedges : ∀ e ∈ entries, ((bodyOf X (e.index "envelope")).any fun body =>
    forbiddenManagedEdgeCosign body (e.index "envelope")) = false
  hdeadlines : checkpointCoverDeadlines chain = some covers
  htenant : (bodyStr target "origin").bind tenantFromOrigin = some tenant
  hall : ∀ e ∈ entries, checkEntry X e kl (targetSize target) root covers tenant = true
  hprofile : chainProfile b = some sparse
  horigin : checkBundleOrigin b target chain = true
  hfacts : (checkpointFacts X chain).isSome = true

theorem admitted_caps {b : Value} {entries : List Value} {kl : KeyLog} (h : admitted X b = some (entries, kl)) :
    withinCaps X b = true ∧ ∀ e ∈ entries, ((bodyOf X (e.index "envelope")).any fun body =>
      forbiddenManagedEdgeCosign body (e.index "envelope")) = false := by
  have hentries := (admitted_spec h).1
  unfold admitted at h
  rw [hentries, Option.getD_some] at h
  dsimp only at h
  split at h
  · cases h
  split at h
  · cases h
  rename_i hcaps
  split at h
  · cases h
  split at h
  · cases h
  rename_i hedges
  exact ⟨by simpa using hcaps, by simpa using hedges⟩

/-- Entries that are all checked are attested one by one. -/
theorem checkEntries_eq {entries chain : List Value} {target : Value} {kl : KeyLog} {root : Bytes}
    {covers : List (UInt64 × Int)} {tenant : String} (trust : Option Value)
    (hroot : hexToBytes ((bodyStr target "root_hash").getD "") = some root)
    (hdeadlines : checkpointCoverDeadlines chain = some covers)
    (htenant : (bodyStr target "origin").bind tenantFromOrigin = some tenant)
    (hall : ∀ e ∈ entries, checkEntry X e kl (targetSize target) root covers tenant = true) :
    checkEntries X entries target chain kl trust = (true, entries.filterMap (attestedLeaf X kl trust)) := by
  have hloop : (entriesLoop X kl trust (targetSize target) root covers tenant entries []).1 = true := by
    rw [entriesLoop_ok, List.all_eq_true]
    exact hall
  unfold checkEntries
  rw [hroot, hdeadlines, htenant]
  exact Prod.ext hloop ((entriesLoop_attested _ _ hloop).trans (List.nil_append _))

/-- What the acceptance of a bundle has checked, in one record, from which the
rewound bundle is checked again. -/
theorem passed_of_ok {b : Value} {trust : Option Value} (hok : (verifyBundleFacts X b trust).ok = true) :
    ∃ entries kl target chainEntries chain root covers tenant sparse,
      Passed X b entries kl target chainEntries chain root covers tenant sparse ∧ checkLineage X entries = true ∧
      (verifyBundleFacts X b trust).recorderAttested = entries.filterMap (attestedLeaf X kl trust) := by
  unfold verifyBundleFacts at hok ⊢
  split at hok
  · cases hok
  rename_i entries kl hadm
  dsimp only at hok
  split at hok
  case isFalse => cases hok
  rename_i hchecks
  obtain ⟨hentries, hreplay, hklok, hjwks⟩ := admitted_spec hadm
  obtain ⟨hcaps, hedges⟩ := admitted_caps hadm
  simp only [hchecks, if_true]
  unfold checkCheckpointsAndEntries at hchecks ⊢
  split at hchecks
  case h_2 => cases hchecks
  rename_i target chainEntries chain htarget hpresented
  split at hchecks
  · cases hchecks
  rename_i hne
  rw [if_neg hne]
  dsimp only at hchecks ⊢
  split at hchecks
  · cases hchecks
  rename_i hset
  rw [if_neg hset]
  split at hchecks
  · cases hchecks
  rename_i hlinks
  rw [if_neg hlinks]
  split at hchecks
  · cases hchecks
  rename_i checkpoints hcheckpoints
  split at hchecks
  · cases hchecks
  rename_i hrecords
  rw [if_neg hrecords]
  simp only [checkEntrySet, Bool.not_eq_true', Bool.not_eq_false, Bool.and_eq_true] at hset
  simp only [checkChainAndLineage, Bool.not_eq_true', Bool.not_eq_false, Bool.and_eq_true] at hlinks
  obtain ⟨sparse, hprofile, hchainOk⟩ := (Option.any_eq_true _ _).mp hlinks.1.1.1.2
  have hloop := hset.1.1
  unfold checkEntries at hloop
  dsimp only at hloop
  split at hloop
  case h_2 => cases hloop
  rename_i root covers tenant hroot hdeadlines htenant
  rw [entriesLoop_ok, List.all_eq_true] at hloop
  refine ⟨entries, kl, target, chainEntries, chain, root, covers, tenant, sparse, ?_, hlinks.2, ?_⟩
  · exact
      { hentries, hreplay, hok := hklok, hjwks, htarget, hpresented, hchain := by simpa using hne, hroot,
        hcovers := ⟨covers, hdeadlines⟩, hchecked := fun e he => checkEntry_spec (hloop e he), hseq := hset.2,
        htargetOk := hlinks.1.1.1.1, hchainOk, hhead := hlinks.1.2, hcaps, hedges, hdeadlines, htenant,
        hall := hloop, hprofile, horigin := hlinks.1.1.2, hfacts := by rw [hcheckpoints]; rfl }
  · simp only [checkEntrySet, List.nil_append, checkEntries_eq trust hroot hdeadlines htenant hloop]

/-- A bundle without manifest and timestamps that passes so far: its lineages
decide, and then it reports what was attested. -/
theorem ok_iff_lineage {b target : Value} {entries chainEntries chain : List Value} {kl : KeyLog} {root : Bytes}
    {covers : List (UInt64 × Int)} {tenant : String} {sparse : Bool} (trust : Option Value)
    (h : Passed X b entries kl target chainEntries chain root covers tenant sparse)
    (hschema : b.getStr "schema" = some "evd/bundle/v1") (hmanifest : b.getSome "export_manifest" = none)
    (htokens : b.getSome "tst_records" = none) (hanchors : b.getSome "anchor_records" = none) :
    ((verifyBundleFacts X b trust).ok = true ↔ checkLineage X entries = true) ∧
    ((verifyBundleFacts X b trust).ok = true →
      (verifyBundleFacts X b trust).recorderAttested = entries.filterMap (attestedLeaf X kl trust)) := by
  have hne : entries.isEmpty = false := by
    cases hes : entries with
    | nil =>
      have hok := h.hok
      rw [← h.hreplay, hes] at hok
      have hwf := (replayKeyLog_ok hok).1
      simp [collectKeyEntries, keyEntriesWellFormed] at hwf
    | cons => rfl
  have hedges : (entries.any fun e => (bodyOf X (e.index "envelope")).any fun body =>
      forbiddenManagedEdgeCosign body (e.index "envelope")) = false := by
    rw [List.any_eq_false]
    exact fun e he => Bool.eq_false_iff.mp (h.hedges e he)
  have hadm : admitted X b = some (entries, kl) := by
    simp only [admitted, h.hentries, Option.getD_some, h.hreplay, hschema, h.hcaps, hne, hedges, h.hok, h.hjwks,
      bne_self_eq_false, Bool.not_true, Bool.false_eq_true, if_false]
  have hentries := checkEntries_eq trust h.hroot h.hdeadlines h.htenant h.hall
  have hnone : checkExportManifest X b entries target kl = none := by
    rw [checkExportManifest, hmanifest]
    rfl
  obtain ⟨checkpoints, hcheckpoints⟩ := Option.isSome_iff_exists.mp h.hfacts
  have hchain : chain.isEmpty = false := by simpa using h.hchain
  have hlinks : checkChainAndLineage X b entries target chain chainEntries kl = checkLineage X entries := by
    simp only [checkChainAndLineage, h.htargetOk, h.hprofile, h.hchainOk, h.horigin, h.hhead, Option.any_some,
      Bool.true_and]
  have hrecords : checkAttestationRecords X b checkpoints trust = (true, []) := by
    simp only [checkAttestationRecords, htokens, hanchors, Bool.not_true, Bool.false_eq_true, if_false]
  simp only [verifyBundleFacts, hadm, checkCheckpointsAndEntries, h.htarget, h.hpresented, hchain, checkEntrySet,
    hentries, hnone, h.hseq, hlinks, hcheckpoints, hrecords]
  cases checkLineage X entries <;> simp

/-! ## The checks of an entry -/

/-- The check of one entry as a conjunction, with everything it reads named. -/
theorem checkEntry_iff {e : Value} {kl : KeyLog} {size : UInt64} {root : Bytes} {covers : List (UInt64 × Int)}
    {tenant : String} : checkEntry X e kl size root covers tenant = true ↔ ∃ payload body sigs,
      envelopeMembersClosed (e.index "envelope") = true ∧ payloadOf X (e.index "envelope") = some payload ∧
      canonicalBody X payload = some body ∧ receiptBodyValid body (some tenant) = true ∧
      coveredInTime covers ((e.getU64 "leaf_index").getD u64Max) ((body.getStr "ts_server").getD "") = true ∧
      (e.index "envelope").getArray "signatures" = some sigs ∧ sigs.isEmpty = false ∧
      (e.index "envelope").getStr "payloadType" = some receiptType ∧
      checkEntrySigs X (e.index "envelope") sigs body ((e.getU64 "leaf_index").getD u64Max) kl = true ∧
      checkEntryInclusion X e payload size root = true := by
  constructor
  · intro h
    unfold checkEntry at h
    dsimp only at h
    split at h
    · cases h
    rename_i hclosed
    split at h
    · cases h
    rename_i payload hpayload
    split at h
    · cases h
    rename_i body hbody
    split at h
    · cases h
    rename_i hvalid
    split at h
    · cases h
    rename_i hcovered
    split at h
    · cases h
    rename_i sigs hsigs
    split at h
    · cases h
    rename_i hne
    split at h
    · cases h
    rename_i htype
    rw [Bool.and_eq_true] at h
    exact ⟨payload, body, sigs, by simpa using hclosed, hpayload, hbody, by simpa using hvalid,
      by simpa using hcovered, hsigs, by simpa using hne, by simpa using htype, h.1, h.2⟩
  · rintro ⟨payload, body, sigs, hclosed, hpayload, hbody, hvalid, hcovered, hsigs, hne, htype, hsigned, hincluded⟩
    simp only [checkEntry, hclosed, hpayload, hbody, hvalid, hcovered, hsigs, hne, htype, hsigned, hincluded,
      bne_self_eq_false, Bool.not_true, Bool.false_eq_true, if_false, Bool.and_self]

section
variable {m leaf : UInt64} {kl kl' : KeyLog} {message : Bytes} {body : Value} {s : Value}

/-- Who signed an entry below the leaf is a key of the cut log: a key active
there was introduced below, and the key that signs its own creation is the one
at leaf 0. -/
theorem signer_known (h : UpTo m kl kl') (hleaf : leaf < m)
    (hgenesis : ∀ kid, genesisSignature body leaf kid = true → (kl'.state.lookup kid).isSome = true)
    (hs : checkSig X message body leaf kl s = true) :
    (kl'.state.lookup ((s.getStr "keyid").getD "")).isSome = true := by
  unfold checkSig at hs
  dsimp only at hs
  split at hs
  · cases hs
  rw [Bool.and_eq_true, Bool.or_eq_true] at hs
  rcases hs.2 with hg | ha
  · exact hgenesis _ hg
  · exact h.known_of_active (UInt64.le_of_lt hleaf) ha

/-- A signature that was checked against the whole log is accepted against the
cut one, where the key has the same material and window as far as the leaf can
see. -/
theorem checkSig_rewound (h : UpTo m kl kl') (hleaf : leaf < m)
    (hknown : (kl'.state.lookup ((s.getStr "keyid").getD "")).isSome = true)
    (hs : checkSig X message body leaf kl s = true) : checkSig X message body leaf kl' s = true := by
  unfold checkSig at hs ⊢
  dsimp only at hs ⊢
  rw [h.keys hknown]
  split at hs
  · cases hs
  rename_i pubkey hkey
  rw [Bool.and_eq_true, Bool.or_eq_true] at hs ⊢
  exact ⟨hs.1, hs.2.imp_right (h.active (UInt64.le_of_lt hleaf))⟩

theorem entryRecorderAttested_rewound {env : Value} {sigs : List Value} {trust : Option Value} (h : UpTo m kl kl')
    (hsigs : env.getArray "signatures" = some sigs)
    (hknown : ∀ s ∈ sigs, (kl'.state.lookup ((s.getStr "keyid").getD "")).isSome = true) :
    entryRecorderAttested X env kl' trust = entryRecorderAttested X env kl trust := by
  have hall : (sigs.all fun s => nonIssuer kl' ((s.getStr "keyid").getD "")) =
      sigs.all fun s => nonIssuer kl ((s.getStr "keyid").getD "") := by
    rw [Bool.eq_iff_iff, List.all_eq_true, List.all_eq_true]
    exact forall₂_congr fun s hs => by rw [h.nonIssuer (hknown s hs)]
  simp only [entryRecorderAttested, hsigs, hall]
  split
  · rfl
  · rw [Bool.eq_iff_iff, List.any_eq_true, List.any_eq_true]
    refine exists_congr fun s => and_congr_right fun hs => ?_
    rw [h.recorder (hknown s hs), h.keys (hknown s hs)]

end

/-- The deadline of a leaf does not depend on the checkpoints after one that
covers it, because sizes grow along the chain. -/
theorem coveredInTime_take {covers : List (UInt64 × Int)} {leaf : UInt64} {i : Nat} {c : UInt64 × Int} {ts : String}
    (hsorted : covers.Pairwise fun a b => a.1 ≤ b.1) (hi : covers[i]? = some c) (hleaf : leaf < c.1) :
    coveredInTime (covers.take (i + 1)) leaf ts = coveredInTime covers leaf ts := by
  have hpart : ∀ l : List (UInt64 × Int), l.Pairwise (fun a b => a.1 ≤ b.1) →
      Partition.Partitioned (fun c => decide (c.1 ≤ leaf)) l := by
    intro l hl
    refine hl.imp fun hab hb => ?_
    rw [decide_eq_true_eq] at hb ⊢
    exact UInt64.le_trans hab hb
  have hmem : c ∈ covers.take (i + 1) :=
    List.mem_of_getElem? (i := i) (by rw [List.getElem?_take_of_lt (Nat.lt_succ_self i), hi])
  -- the search stops before the end of the shorter list
  have hfound : ((covers.take (i + 1)).find? fun c => !decide (c.1 ≤ leaf)).isSome = true := by
    rw [List.find?_isSome]
    exact ⟨c, hmem, by simpa using hleaf⟩
  obtain ⟨found, hfound⟩ := Option.isSome_iff_exists.mp hfound
  unfold coveredInTime
  rw [Partition.getElem?_partitionPoint (hpart _ (hsorted.sublist (List.take_sublist _ _))),
    Partition.getElem?_partitionPoint (hpart _ hsorted), hfound]
  conv_rhs => rw [← List.take_append_drop (i + 1) covers, List.find?_append, hfound]
  rfl

/-! ## The checks of a chain -/

section
variable {m : UInt64} {kl kl' : KeyLog}

/-- A checkpoint no larger than the cut is signed by a key that is known before
the cut, so it keeps its authority. -/
theorem authority_rewound {cp : Value} (h : UpTo m kl kl') (hsize : targetSize cp ≤ m)
    (hsig : verifyCheckpointSig X cp kl.keys = true) (hauth : checkpointAuthority kl cp = true) :
    verifyCheckpointSig X cp kl'.keys = true ∧ checkpointAuthority kl' cp = true := by
  have hactive := (Bool.and_eq_true _ _ ▸ hauth).2
  have hknown := h.known_of_active hsize hactive
  constructor
  · unfold verifyCheckpointSig at hsig ⊢
    split at hsig
    case h_2 => cases hsig
    rename_i kid body sig hkid hbody hsig'
    rw [hkid, Option.getD_some] at hknown
    rw [h.keys hknown]
    exact hsig
  · unfold checkpointAuthority at hauth ⊢
    dsimp only at hauth ⊢
    rw [h.nonIssuer hknown]
    rw [Bool.and_eq_true] at hauth ⊢
    exact ⟨hauth.1, h.active hsize hauth.2⟩

/-- The loop over the chain, cut anywhere. By induction on the links; each is
checked with keys that were active at its own size. -/
theorem chainLoop_rewound {sparse : Bool} (h : UpTo m kl kl') (n : Nat) :
    ∀ (l : List (Value × Value)) (prev : Option Value), chainLoop X kl sparse prev l = true →
      (∀ p ∈ l.take n, targetSize p.1 ≤ m) → chainLoop X kl' sparse prev (l.take n) = true := by
  induction n with
  | zero => intro l prev _ _; rfl
  | succ n ih =>
    intro l prev hloop hsizes
    cases l with
    | nil => rfl
    | cons p l =>
      simp only [List.take_succ_cons, chainLoop, Bool.and_eq_true] at hloop hsizes ⊢
      obtain ⟨hsig, hauth⟩ := authority_rewound h (hsizes p (List.mem_cons_self ..)) hloop.1.1.1 hloop.1.1.2
      exact ⟨⟨⟨hsig, hauth⟩, hloop.1.2⟩, ih l _ hloop.2 fun q hq => hsizes q (List.mem_cons_of_mem _ hq)⟩

end

/-! ## Lineages -/

/-- Every revision that a receipt of a lineage names is in it, if anything that
lineages rest on is. -/
def RevisionsNamed (items : List LineageItem) : Prop :=
  ∀ item ∈ items, ∀ rv, item.ctx.getStr "revision_id" = some rv → (∃ root ∈ items, rootsLineage root = true) →
    ∃ root ∈ items, rootsLineage root = true ∧ root.hash = rv

/-- The receipts show the revisions that they name. -/
def RevisionsShown (X : Crates) (es : List Value) : Prop :=
  ∀ agent, RevisionsNamed (itemsOf (es.filterMap (lineageItem X)) agent)

section
variable {items items' : List LineageItem}

theorem valid_contains {rv : String} : ((items.filter rootsLineage).map (·.hash)).contains rv = true ↔
    ∃ root ∈ items, rootsLineage root = true ∧ root.hash = rv := by
  rw [List.contains_iff_mem, List.mem_map]
  exact exists_congr fun root => by rw [List.mem_filter, and_assoc]

theorem valid_isEmpty : ((items.filter rootsLineage).map (·.hash)).isEmpty = true ↔
    ¬ ∃ root ∈ items, rootsLineage root = true := by
  rw [List.isEmpty_iff, List.map_eq_nil_iff, List.filter_eq_nil_iff]
  simp only [not_exists, not_and]

/-- A lineage without an establishment holds if every receipt names a revision
that is there. -/
theorem orphan_iff : checkLineageOrphan items ((items.filter rootsLineage).map (·.hash)) = true ↔
    RevisionsNamed items := by
  rw [checkLineageOrphan, List.all_eq_true]
  refine forall₂_congr fun item _ => ?_
  rw [Option.all_eq_true]
  refine forall₂_congr fun rv _ => ?_
  rw [Bool.or_eq_true, valid_isEmpty, valid_contains, imp_iff_not_or]

/-- A lineage with an establishment holds of fewer receipts under the same
condition. -/
theorem established_iff (hsub : items'.Sublist items) {birth : LineageItem} (hbirth : birth ∈ items')
    (hroot : rootsLineage birth = true) {valid : List String} (h : checkLineageEstablished items valid birth = true) :
    checkLineageEstablished items' ((items'.filter rootsLineage).map (·.hash)) birth = true ↔
      RevisionsNamed items' := by
  rw [checkLineageEstablished, Bool.and_eq_true, List.all_eq_true] at h ⊢
  rw [and_iff_right h.1]
  refine forall₂_congr fun item hitem => ?_
  have htag := h.2 item (hsub.subset hitem)
  rw [Bool.and_eq_true] at htag ⊢
  rw [and_iff_right htag.1, Option.all_eq_true]
  refine forall₂_congr fun rv _ => ?_
  rw [valid_contains]
  have hsome : ∃ root ∈ items', rootsLineage root = true := ⟨birth, hbirth, hroot⟩
  exact ⟨fun hr _ => hr, fun hr => hr hsome⟩

/-- Of the lineage of an agent only the revisions may be missing below a leaf.
Its establishment is below every receipt that rests on it. -/
theorem agentLineage_below (hsub : items'.Sublist items) (h : checkAgentLineage items = true) :
    checkAgentLineage items' = true ↔ RevisionsNamed items' := by
  have hest : (items'.filter isEstablishment).Sublist (items.filter isEstablishment) := hsub.filter _
  unfold checkAgentLineage at h ⊢
  dsimp only at h ⊢
  split at h
  · rename_i hnone
    rw [hnone, List.sublist_nil] at hest
    rw [hest]
    exact orphan_iff
  · rename_i birth hone
    rw [hone] at hest
    rcases List.sublist_singleton.mp hest with hest | hest
    · rw [hest]
      exact orphan_iff
    · have hbirth : birth ∈ items'.filter isEstablishment := by
        rw [hest]
        exact List.mem_singleton.mpr rfl
      obtain ⟨hmem, hestablishes⟩ := List.mem_filter.mp hbirth
      rw [hest]
      exact established_iff hsub hmem (by rw [rootsLineage, hestablishes, Bool.or_true]) h
  · cases h

end

/-- Below the cut the lineages hold exactly if every revision that is named is
shown. This is what the rewound bundle may lack. -/
theorem lineage_below {D : List Digest} {m : UInt64} {es : List Value} (h : checkLineage X es = true) :
    checkLineage X (entriesAt X D m es) = true ↔ RevisionsShown X (entriesBelow m es) := by
  rw [checkLineage_iff] at h ⊢
  rw [entriesAt, filterMap_reproved fun _ => lineageItem_reproved]
  refine forall_congr' fun agent => ?_
  exact agentLineage_below ((((List.filter_sublist (l := es)).filterMap _).filter _).map _) (h agent)

/-! ## Caps -/

/-- A route is no longer than the tree is high, so the paths written into the
rewound bundle are within the caps. -/
theorem length_leafRoute (k : Nat) : ∀ {n : Nat} (i : Nat), n ≤ 2 ^ k → (Rfc6962.leafRoute i n).length ≤ k := by
  induction k with
  | zero =>
    intro n i hn
    rw [Rfc6962.leafRoute_small (by simpa using Nat.lt_succ_of_le hn)]
    rfl
  | succ k ih =>
    intro n i hn
    by_cases hsmall : n < 2
    · rw [Rfc6962.leafRoute_small hsmall]
      exact Nat.zero_le _
    have hlog : Nat.log2 (n - 1) < k + 1 := (Nat.log2_lt (by omega)).mpr (by omega)
    have hsplit : Rfc6962.split n ≤ 2 ^ k := Nat.pow_le_pow_right (by decide) (Nat.le_of_lt_succ hlog)
    have htwo := Rfc6962.le_two_split n
    rcases Nat.lt_or_ge i (Rfc6962.split n) with hi | hi
    · rw [Rfc6962.leafRoute_lt (by omega) hi, List.length_cons]
      exact Nat.succ_le_succ (ih i hsplit)
    · rw [Rfc6962.leafRoute_ge (by omega) hi, List.length_cons]
      exact Nat.succ_le_succ (ih _ (by omega))

/-- A new path is no longer than the cap, as the tree has fewer than 2^64
leaves. -/
theorem length_auditPath {D : List Digest} (hn : D.length < 2 ^ 64) (i : Nat) :
    (auditPath X i D).length ≤ maxInclusionProofLen := by
  rw [auditPath, Rfc6962.path_eq_sibs, Rfc6962.length_sibs]
  exact length_leafRoute 64 i (Nat.le_of_lt hn)

mutual
/-- A value within the depth limit is within a larger one. What is inlined in
the rewound bundle stands no deeper than it stood. -/
theorem numbersMatch_mono {integersOnly : Bool} {limit limit' : Int} (hle : limit ≤ limit') :
    ∀ v : Value, numbersMatch X integersOnly v limit = true → numbersMatch X integersOnly v limit' = true
  | .null, h | .bool _, h | .string _, h => by
    simp only [numbersMatch, decide_eq_true_eq] at h ⊢
    omega
  | .number _, h => by
    simp only [numbersMatch, Bool.and_eq_true, decide_eq_true_eq] at h ⊢
    exact ⟨⟨by omega, h.1.2⟩, h.2⟩
  | .array xs, h => by
    simp only [numbersMatch, Bool.and_eq_true, decide_eq_true_eq] at h ⊢
    exact ⟨by omega, numbersMatchItems_mono (by omega) xs h.2⟩
  | .object ms, h => by
    simp only [numbersMatch, Bool.and_eq_true, decide_eq_true_eq] at h ⊢
    exact ⟨by omega, numbersMatchMembers_mono (by omega) ms h.2⟩
theorem numbersMatchItems_mono {integersOnly : Bool} {limit limit' : Int} (hle : limit ≤ limit') :
    ∀ xs : List Value, numbersMatchItems X integersOnly xs limit = true →
      numbersMatchItems X integersOnly xs limit' = true
  | [], _ => rfl
  | x :: xs, h => by
    simp only [numbersMatchItems, Bool.and_eq_true] at h ⊢
    exact ⟨numbersMatch_mono hle x h.1, numbersMatchItems_mono hle xs h.2⟩
theorem numbersMatchMembers_mono {integersOnly : Bool} {limit limit' : Int} (hle : limit ≤ limit') :
    ∀ ms : List (String × Value), numbersMatchMembers X integersOnly ms limit = true →
      numbersMatchMembers X integersOnly ms limit' = true
  | [], _ => rfl
  | m :: ms, h => by
    simp only [numbersMatchMembers, Bool.and_eq_true] at h ⊢
    exact ⟨numbersMatch_mono hle m.2 h.1, numbersMatchMembers_mono hle ms h.2⟩
end

section
variable {integersOnly : Bool} {limit : Int} {v : Value}

theorem numbersMatch_index (hlimit : 0 ≤ limit - 1) (h : numbersMatch X integersOnly v limit = true) (k : String) :
    numbersMatch X integersOnly (v.index k) (limit - 1) = true := by
  rw [Value.index]
  cases hget : v.get k with
  | none =>
    rw [Option.getD_none]
    exact decide_eq_true hlimit
  | some w => exact L5.Layout.numbersMatch_get h hget

theorem numbersMatch_string (hlimit : 0 ≤ limit) (s : String) : numbersMatch X integersOnly (.string s) limit = true :=
  decide_eq_true hlimit

theorem numbersMatch_array {xs : List Value} (hlimit : 0 ≤ limit)
    (h : ∀ x ∈ xs, numbersMatch X integersOnly x (limit - 1) = true) :
    numbersMatch X integersOnly (.array xs) limit = true := by
  rw [numbersMatch, Bool.and_eq_true, decide_eq_true_eq, numbersMatchItems_eq, List.all_eq_true]
  exact ⟨hlimit, h⟩

theorem numbersMatch_items {xs : List Value} (h : numbersMatch X integersOnly (.array xs) limit = true) :
    ∀ x ∈ xs, numbersMatch X integersOnly x (limit - 1) = true := by
  rw [numbersMatch, Bool.and_eq_true, numbersMatchItems_eq, List.all_eq_true] at h
  exact h.2

/-- A new proof consists of texts, so the numbers of an entry stay within the
profile. -/
theorem numbersMatch_reproved {leaves : List Digest} {e : Value} (hlimit : 2 ≤ limit)
    (h : numbersMatch X integersOnly e limit = true) :
    numbersMatch X integersOnly (reproved X leaves e) limit = true := by
  have hproof : numbersMatch X integersOnly (.array ((auditPath X ((e.getU64 "leaf_index").getD 0).toNat leaves).map
      fun d => .string (hex d.val))) (limit - 1) = true := by
    refine numbersMatch_array (by omega) fun x hx => ?_
    obtain ⟨d, _, rfl⟩ := List.mem_map.mp hx
    exact numbersMatch_string (by omega) _
  rw [reproved, numbersMatch, Bool.and_eq_true, decide_eq_true_eq]
  refine ⟨by omega, ?_⟩
  simp only [numbersMatchMembers, numbersMatch_index (v := e) (by omega) h, hproof, Bool.and_true]

end

/-! ## Keys -/

theorem index_of_getStr {v : Value} {k s : String} (h : v.getStr k = some s) : v.index k = .string s := by
  obtain ⟨w, hw, hs⟩ := Option.bind_eq_some_iff.mp h
  rw [Value.index, hw, Option.getD_some, Value.asStr_eq_some hs]

theorem asStr_index (v : Value) (k : String) : (v.index k).asStr = v.getStr k := by
  rw [Value.index, Value.getStr]
  cases v.get k <;> rfl

/-- Leaving out what is not public leaves the key. -/
theorem jwkRawKey_public (jwk : Value) : jwkRawKey X (publicJwk jwk) = jwkRawKey X jwk := by
  have hkty : (publicJwk jwk).getStr "kty" = jwk.getStr "kty" := asStr_index jwk "kty"
  have hcrv : (publicJwk jwk).getStr "crv" = jwk.getStr "crv" := asStr_index jwk "crv"
  have hx : (publicJwk jwk).getStr "x" = jwk.getStr "x" := asStr_index jwk "x"
  rw [jwkRawKey, jwkRawKey, hkty, hcrv, hx]

section
variable {jwk : Value} {material : Digest} {kid : String}

/-- The public part of a JWK has its key. -/
theorem keyFromJwk_public (h : keyFromJwk X jwk = some (material, kid)) :
    keyFromJwk X (publicJwk jwk) = some (material, kid) := by
  have hnone : (publicJwk jwk).get "kid" = none := rfl
  unfold keyFromJwk at h ⊢
  rw [jwkRawKey_public]
  simp only [Option.bind_eq_bind, Option.bind_eq_some_iff] at h
  obtain ⟨key, hkey, h⟩ := h
  simp only [hkey, hnone, Option.bind_eq_bind, Option.bind_some]
  split at h
  · exact h
  · exact h
  · split at h
    · exact h
    · cases h
  · cases h

theorem numbersMatch_public {integersOnly : Bool} {limit : Int} (hlimit : 1 ≤ limit)
    (h : keyFromJwk X jwk = some (material, kid)) :
    numbersMatch X integersOnly (publicJwk jwk) limit = true := by
  unfold keyFromJwk at h
  simp only [Option.bind_eq_bind, Option.bind_eq_some_iff] at h
  obtain ⟨key, hkey, _⟩ := h
  unfold jwkRawKey at hkey
  simp only [Option.bind_eq_bind, Option.bind_eq_some_iff] at hkey
  obtain ⟨kty, hkty, crv, hcrv, hkey⟩ := hkey
  split at hkey
  · cases hkey
  obtain ⟨x, hx, _⟩ := Option.bind_eq_some_iff.mp hkey
  simp only [publicJwk, index_of_getStr hkty, index_of_getStr hcrv, index_of_getStr hx, numbersMatch,
    numbersMatchMembers, Bool.and_true, Bool.and_eq_true, decide_eq_true_eq]
  omega

end

/-- The introductions are the claims that introduce a key. -/
theorem mem_introductions {l : List KeyEntry} {c : KeyClaim} :
    c ∈ introductions X l ↔ ∃ k ∈ l, keyClaim X k = some c ∧ Introduces c := by
  simp only [introductions, List.mem_filterMap, Option.filter_eq_some_iff, decide_eq_true_eq]

/-- The introductions of a replayed key log list its keys, each under the public
members of its JWK. -/
theorem jwks_introduced {b : Value} {l : List KeyEntry} {kl : KeyLog} (hexplained : Explained X l.zipIdx kl)
    (hheld : Held X l.zipIdx kl) (hne : introductions X l ≠ [])
    (hjwks : b.get "jwks" = some (.object [("keys", .array ((introductions X l).map fun c => publicJwk c.jwk))])) :
    checkJwksMatchLog X b kl = true := by
  have hkeys : ((b.get "jwks").bind fun j => j.getArray "keys") =
      some ((introductions X l).map fun c => publicJwk c.jwk) := by
    rw [hjwks]
    rfl
  have hlisted : ((introductions X l).map fun c => publicJwk c.jwk).mapM (listedKid X kl) =
      some ((introductions X l).map (·.kid)) := by
    rw [mapM_eq_some, List.map_map, List.map_map]
    refine List.map_congr_left fun c hc => ?_
    obtain ⟨k, hk, hclaim, hi⟩ := mem_introductions.mp hc
    obtain ⟨n, hn⟩ := List.getElem?_of_mem hk
    have hkey := hheld.keys (k, n) (List.mk_mem_zipIdx_iff_getElem?.mpr hn) c hclaim hi
    simp only [Function.comp_apply, listedKid, keyFromJwk_public (keyClaim_reads hclaim).key, hkey,
      Option.bind_eq_bind, Option.bind_some, if_true]
  have hempty : ((introductions X l).map fun c => publicJwk c.jwk).isEmpty = false := by
    simpa using hne
  simp only [checkJwksMatchLog, hkeys, hlisted, hempty, Bool.false_eq_true, if_false, List.all_eq_true]
  intro p hp
  obtain ⟨kid, st⟩ := p
  obtain ⟨q, hq, c, hclaim, hi, hkid, _⟩ := hexplained.introduced kid st (AList.mem_lookup_iff.mpr hp)
  have hmem : c ∈ introductions X l :=
    mem_introductions.mpr ⟨q.1, List.mem_of_getElem? (List.mem_zipIdx_iff_getElem?.mp hq), hclaim, hi⟩
  rw [Bool.or_eq_true, List.contains_iff_mem]
  exact .inr (List.mem_map.mpr ⟨c, hmem, hkid⟩)

/-! ## What a verified bundle says about its log -/

/-- The checkpoints of the chain commit to the log, in growing sizes. This is
the append-only law for the parts of one accepted bundle. -/
theorem chain_commits {D : List Digest} {b target : Value} {entries chainEntries chain : List Value} {kl : KeyLog}
    {root : Bytes} {sparse : Bool} {L : List Bytes} (hX : WriterLaws X)
    (h : Accepted X b entries kl target chainEntries chain root sparse)
    (hsize : (bodyU64 target "tree_size").map UInt64.toNat = some D.length)
    (hroot : (bodyStr target "root_hash").bind hexToBytes = some (treeHash X D).val) (hc : CollisionFree X L)
    (hL : hashedBytes X b ⊆ L) (hinputs : prefixInputs X b D ⊆ L) :
    (∀ cp ∈ chain, Commits X D cp) ∧ chain.Pairwise fun a b => targetSize a ≤ targetSize b := by
  obtain ⟨covers, hcovers⟩ := h.hcovers
  have hlinks := h.links_eq
  have hchain := h.chain_eq
  have hmem : ∀ p ∈ linksOf b, p.1 ∈ chainOf b := fun p hp => List.mem_map_of_mem hp
  have hn : D.length < 2 ^ 64 := by
    obtain ⟨n, _, hlen⟩ := Option.map_eq_some_iff.mp hsize
    rw [← hlen]
    exact n.toNat_lt
  have hcheckpoints : ∀ cp ∈ target :: chain, checkpointHashed X cp ⊆ L := by
    rw [← h.target_eq, ← hchain]
    refine fun cp hcp x hx => hL (List.mem_append_left _ (List.mem_append_right _ ?_))
    exact List.mem_flatMap.mpr ⟨cp, hcp, hx⟩
  obtain ⟨hall, hmono⟩ := chain_backward hn hc (linksOf b) none (by rw [hlinks]; exact h.chainLoop)
    (fun p hp => by
      obtain ⟨s, hs⟩ := covers_size hcovers (hchain ▸ hmem p hp)
      exact ⟨s, hs, authority_size (h.authority p.1 (List.mem_cons_of_mem _ (hmem p hp))).2 hs⟩)
    (fun x hx => hL (List.mem_append_right _ hx))
    (fun p hp x hx => hinputs (List.mem_flatMap.mpr ⟨p.1, hmem p hp, hx⟩))
    (fun q hq => by
      have hlast : chain.getLast? = some q.1 := by
        rw [← hchain, chainOf, List.getLast?_map, hq]
        rfl
      exact head_commits hX h hsize hroot hc hcheckpoints hlast)
  rw [← hchain]
  refine ⟨fun cp hcp => ?_, ?_⟩
  · obtain ⟨p, hp, rfl⟩ := List.mem_map.mp hcp
    exact hall p hp
  · have hpair : (linksOf b).Pairwise fun p q => targetSize p.1 ≤ targetSize q.1 :=
      List.isChain_iff_pairwise.mp hmono
    exact List.pairwise_map.mpr hpair

section
variable {D : List Digest} {e : Value} {kl kl' : KeyLog} {size leaf m : UInt64} {root root' payload : Bytes}
  {body : Value} {sigs : List Value} {proof : List Digest} {L : List Bytes} {covers covers' : List (UInt64 × Int)}
  {tenant : String}

/-- A checked entry is a leaf of the log. -/
theorem entry_leaf (hn : D.length < 2 ^ 64) (hc : CollisionFree X L)
    (h : Checked X e kl (UInt64.ofNat D.length) (treeHash X D).val payload body leaf sigs proof)
    (hL : entryHashed X (UInt64.ofNat D.length) e ⊆ L) (htree : treeInputs X D ⊆ L) :
    leaf.toNat < D.length ∧ D[leaf.toNat]?.map Subtype.val = some (X.sha256 (leafInput X payload)).val := by
  rw [entryHashed_eq h, List.cons_subset, List.cons_subset] at hL
  obtain ⟨hi, hget, _⟩ := inclusion_sound X D hn leaf _ proof (hc.mono (List.append_subset.mpr ⟨hL.2.2, htree⟩))
    h.hincluded
  exact ⟨hi, hget⟩

/-- The audit path it had at a checkpoint is accepted there, which is
completeness of inclusion proofs for the prefix that the checkpoint commits
to. -/
theorem inclusion_rewound (hn : D.length < 2 ^ 64) (hm : m.toNat ≤ D.length) (hleaf : e.getU64 "leaf_index" = some leaf)
    (hlt : leaf < m) (hget : D[leaf.toNat]?.map Subtype.val = some (X.sha256 (leafInput X payload)).val) :
    checkEntryInclusion X (reproved X (D.take m.toNat) e) payload m (treeHash X (D.take m.toNat)).val = true := by
  have hlen : (D.take m.toNat).length = m.toNat := by
    rw [List.length_take]
    omega
  have hlt' := UInt64.lt_iff_toNat_lt.mp hlt
  have hproof : proofHashes ((reproved X (D.take m.toNat) e).get "inclusion_proof") =
      some (auditPath X leaf.toNat (D.take m.toNat)) := by
    have hmember : (reproved X (D.take m.toNat) e).get "inclusion_proof" =
        some (.array ((auditPath X ((e.getU64 "leaf_index").getD 0).toNat (D.take m.toNat)).map fun d =>
          .string (hex d.val))) := rfl
    rw [hmember, proofHashes_hex, hleaf, Option.getD_some]
  have hincluded := inclusion_complete X (D.take m.toNat) (by omega) leaf (by omega)
    (h := (X.sha256 (leafInput X payload)).val) (by rw [List.getElem?_take_of_lt hlt', hget])
  rw [hlen, UInt64.ofNat_toNat] at hincluded
  unfold checkEntryInclusion
  rw [hproof, reproved_leaf, hleaf, Option.getD_some]
  exact hincluded

/-- The checks of an entry below a checkpoint, as the log stood there: its own
path, its signers and its deadline. -/
theorem checkEntry_rewound {leaves : List Digest} (h : UpTo m kl kl')
    (hcheck : checkEntry X e kl size root covers tenant = true) (hleaf : e.getU64 "leaf_index" = some leaf)
    (hlt : leaf < m) (hcovered : ∀ ts, coveredInTime covers' leaf ts = coveredInTime covers leaf ts)
    (hgenesis : ∀ payload body, payloadOf X (e.index "envelope") = some payload → canonicalBody X payload = some body →
      ∀ kid, genesisSignature body leaf kid = true → (kl'.state.lookup kid).isSome = true)
    (hincluded : ∀ payload, payloadOf X (e.index "envelope") = some payload →
      checkEntryInclusion X (reproved X leaves e) payload m root' = true) :
    checkEntry X (reproved X leaves e) kl' m root' covers' tenant = true ∧
      ∀ trust, attestedLeaf X kl' trust (reproved X leaves e) = attestedLeaf X kl trust e := by
  obtain ⟨payload, body, sigs, hclosed, hpayload, hbody, hvalid, htime, hsigs, hne, htype, hsigned, _⟩ :=
    checkEntry_iff.mp hcheck
  rw [hleaf, Option.getD_some] at htime hsigned
  unfold checkEntrySigs at hsigned
  split at hsigned
  · cases hsigned
  rename_i message hmessage
  rw [List.all_eq_true] at hsigned
  have hknown : ∀ s ∈ sigs, (kl'.state.lookup ((s.getStr "keyid").getD "")).isSome = true :=
    fun s hs => signer_known h hlt (hgenesis payload body hpayload hbody) (hsigned s hs)
  constructor
  · refine checkEntry_iff.mpr ⟨payload, body, sigs, hclosed, hpayload, hbody, hvalid, ?_, hsigs, hne, htype, ?_,
      hincluded payload hpayload⟩
    · rw [reproved_leaf, hleaf, Option.getD_some, hcovered]
      exact htime
    · rw [reproved_leaf, hleaf, Option.getD_some, reproved_index, checkEntrySigs, hmessage]
      exact List.all_eq_true.mpr fun s hs => checkSig_rewound h hlt (hknown s hs) (hsigned s hs)
  · intro trust
    rw [attestedLeaf, attestedLeaf, reproved_index, reproved_leaf, entryRecorderAttested_rewound h hsigs hknown]

end

/-- The key that signs its own creation at leaf 0 is in every cut of the log
that is not empty. -/
theorem genesis_known {b target : Value} {entries chainEntries chain : List Value} {kl kl' : KeyLog} {root : Bytes}
    {sparse : Bool} {m : UInt64} {L : List Bytes}
    (h : Accepted X b entries kl target chainEntries chain root sparse) (hc : CollisionFree X L)
    (hL : hashedBytes X b ⊆ L) (hm : 0 < m) (hheld : Held X (below m (collectKeyEntries X entries)).zipIdx kl')
    {e : Value} (he : e ∈ entries) {leaf : UInt64} (hleaf : e.getU64 "leaf_index" = some leaf) {payload : Bytes}
    {body : Value} (hpayload : payloadOf X (e.index "envelope") = some payload)
    (hbody : canonicalBody X payload = some body) {kid : String} (hg : genesisSignature body leaf kid = true) :
    (kl'.state.lookup kid).isSome = true := by
  simp only [genesisSignature, Bool.and_eq_true, beq_iff_eq] at hg
  obtain ⟨⟨rfl, _⟩, hkid⟩ := hg
  obtain ⟨k, hk, c, hk0, hclaim, hi⟩ := genesis_introduces (h.hreplay ▸ h.hok)
  -- the entry is the creation of the genesis key
  rw [← h.entries_eq] at hk
  obtain ⟨e', he', hke⟩ := mem_keyLogOf.mp hk
  rw [h.entries_eq] at he' hk
  obtain ⟨hleaf', _, hbody', _⟩ := keyEntry_spec hke
  obtain ⟨payload₁, body₁, leaf₁, sigs, proof, hchk⟩ := h.hchecked e he
  obtain ⟨payload₂, body₂, leaf₂, sigs', proof', hchk'⟩ := h.hchecked e' he'
  obtain rfl : leaf₁ = 0 := Option.some.inj (hchk.hleaf.symm.trans hleaf)
  obtain rfl : leaf₂ = 0 := by
    rw [hchk'.hleaf, Option.getD_some] at hleaf'
    exact hleaf'.symm.trans hk0
  have hentry : ∀ x ∈ entries, entryHashed X (targetSize target) x ⊆ L := by
    intro x hx y hy
    rw [← h.target_eq] at hy
    exact hL (entryHashed_subset (h.entries_eq.symm ▸ hx) hy)
  obtain rfl : payload₁ = payload₂ := same_leaf_payload hc hchk hchk' (hentry e he) (hentry e' he')
  obtain rfl : payload₁ = payload := Option.some.inj (hchk.hpayload.symm.trans hpayload)
  obtain rfl : body₂ = body := Option.some.inj (hchk'.hcanon.symm.trans hbody)
  obtain rfl : k.body = body₂ := Option.some.inj (hbody'.symm.trans hchk'.hbody)
  -- so the kid is the one of its key
  have hreads := keyClaim_reads hclaim
  have hclaimed : c.jwk.getStr "kid" = some kid := by
    obtain ⟨ctx, hctx, hjwk⟩ := Option.bind_eq_some_iff.mp hkid
    obtain ⟨jwk, hjwk, hstr⟩ := Option.bind_eq_some_iff.mp hjwk
    rw [hreads.jwk, hreads.ctx, Value.index, Value.index, hctx, Option.getD_some, hjwk, Option.getD_some, hstr]
  obtain rfl := kid_of_claimed hreads.key hclaimed
  obtain ⟨n, hn⟩ := List.getElem?_of_mem (mem_below.mpr ⟨hk, by rw [hk0]; exact hm⟩)
  have hkey := hheld.keys (k, n) (List.mk_mem_zipIdx_iff_getElem?.mpr hn) c hclaim hi
  have hsame := hheld.sameKeys c.kid
  rw [hkey] at hsame
  exact hsame.symm

/-! ## The rewound bundle -/

theorem mapM_take {α β : Type} {f : α → Option β} {l : List α} {r : List β} (h : l.mapM f = some r) (n : Nat) :
    (l.take n).mapM f = some (r.take n) := by
  rw [mapM_eq_some] at h ⊢
  rw [List.map_take, h, List.map_take]

/-- The sizes of the covers are those of the chain, in its order. -/
theorem cover_sizes {chain : List Value} {covers : List (UInt64 × Int)}
    (h : checkpointCoverDeadlines chain = some covers) : covers.map Prod.fst = chain.map targetSize := by
  rw [checkpointCoverDeadlines, mapM_eq_some] at h
  have hsizes : chain.map (fun cp => (coverDeadline cp).map Prod.fst) = chain.map fun cp => some (targetSize cp) := by
    refine List.map_congr_left fun cp hcp => ?_
    obtain ⟨c, _, hc⟩ := List.mem_map.mp (h ▸ List.mem_map_of_mem hcp)
    rw [← hc, Option.map_some]
    simp only [coverDeadline, Option.bind_eq_bind] at hc
    obtain ⟨size, hsize, hc⟩ := Option.bind_eq_some_iff.mp hc.symm
    obtain ⟨ts, _, hc⟩ := Option.bind_eq_some_iff.mp hc
    obtain ⟨micros, _, hc⟩ := Option.bind_eq_some_iff.mp hc
    cases hc
    rw [targetSize, hsize, Option.getD_some]
  have hsome : (covers.map Prod.fst).map some = (chain.map targetSize).map some := by
    rw [List.map_map, List.map_map]
    have := congrArg (List.map (Option.map Prod.fst)) h
    simp only [List.map_map] at this hsizes
    exact this.symm.trans hsizes
  exact (List.map_injective_iff.mpr (Option.some_injective _)) hsome

section
variable {D : List Digest} {b cp : Value} {i : Nat}

theorem rewound_profile : (rewound X D b i cp).get "checkpoint_chain_profile" = b.get "checkpoint_chain_profile" := by
  have hget : (rewound X D b i cp).get "checkpoint_chain_profile" =
      ((b.get "checkpoint_chain_profile").map fun p => ("checkpoint_chain_profile", p)).toList.lookup
        "checkpoint_chain_profile" := rfl
  rw [hget]
  cases b.get "checkpoint_chain_profile" <;> rfl

theorem rewound_absent {k : String} (hk : k = "export_manifest" ∨ k = "tst_records" ∨ k = "anchor_records") :
    (rewound X D b i cp).getSome k = none := by
  have hget : (rewound X D b i cp).get k =
      ((b.get "checkpoint_chain_profile").map fun p => ("checkpoint_chain_profile", p)).toList.lookup k := by
    rcases hk with rfl | rfl | rfl <;> rfl
  rw [Value.getSome, hget]
  cases b.get "checkpoint_chain_profile" with
  | none => rfl
  | some p => rcases hk with rfl | rfl | rfl <;> rfl

theorem rewound_entries : (rewound X D b i cp).getArray "entries" =
    some (entriesAt X D (targetSize cp) (entriesOf b)) := rfl

theorem rewound_chain : (rewound X D b i cp).getArray "checkpoint_chain" =
    some (((linksOf b).take (i + 1)).map Prod.snd) := rfl

variable {entries chainEntries chain : List Value} {kl : KeyLog} {target : Value} {root : Bytes}
  {covers : List (UInt64 × Int)} {tenant : String} {sparse : Bool}

theorem length_chainEntries (h : presentedChain b = some (chainEntries, chain)) :
    chainEntries.length = chain.length ∧ b.getArray "checkpoint_chain" = some chainEntries ∧
      chainEntries.mapM (fun entry => entry.get "checkpoint") = some chain := by
  unfold presentedChain at h
  simp only [Option.bind_eq_bind, Option.bind_eq_some_iff, Option.pure_def, Option.some.injEq, Prod.mk.injEq] at h
  obtain ⟨es, hes, c, hc, rfl, rfl⟩ := h
  have hlen := congrArg List.length (mapM_eq_some.mp hc)
  rw [List.length_map, List.length_map] at hlen
  exact ⟨hlen, hes, hc⟩

/-- The chain that a rewound bundle presents is the first part of the chain. -/
theorem rewound_presented (h : Accepted X b entries kl target chainEntries chain root sparse) :
    presentedChain (rewound X D b i cp) = some (chainEntries.take (i + 1), chain.take (i + 1)) := by
  obtain ⟨hlen, _, hmapM⟩ := length_chainEntries h.hpresented
  have hlinks : ((linksOf b).take (i + 1)).map Prod.snd = chainEntries.take (i + 1) := by
    rw [List.map_take, h.links_eq, List.map_snd_zip hlen.le]
  simp only [presentedChain, rewound_chain, hlinks, mapM_take hmapM (i + 1), Option.bind_eq_bind, Option.bind_some,
    Option.pure_def]

/-- Up to a checkpoint the chain is no larger than it. -/
theorem chain_sizes_le (hmono : chain.Pairwise fun a b => targetSize a ≤ targetSize b) (hcp : chain[i]? = some cp) :
    ∀ p ∈ (chain.zip chainEntries).take (i + 1), targetSize p.1 ≤ targetSize cp := by
  intro p hp
  obtain ⟨j, hj⟩ := List.getElem?_of_mem hp
  rw [List.getElem?_take] at hj
  split at hj
  case isFalse => cases hj
  rename_i hji
  have hpj : chain[j]? = some p.1 := (List.getElem?_zip_eq_some.mp hj).1
  obtain ⟨hjl, hpj⟩ := List.getElem?_eq_some_iff.mp hpj
  obtain ⟨hil, hcpi⟩ := List.getElem?_eq_some_iff.mp hcp
  rw [← hpj, ← hcpi]
  rcases Nat.lt_or_eq_of_le (Nat.le_of_lt_succ hji) with hlt | rfl
  · exact List.pairwise_iff_getElem.mp hmono j i hjl hil hlt
  · exact UInt64.le_refl _

/-- The facts of a chain are there for every first part of it. -/
theorem facts_rewound (h : (checkpointFacts X chain).isSome = true) (hcp : cp ∈ chain) (n : Nat) :
    (checkpointFacts X (chain.take n)).isSome = true ∧ ∃ hash, checkpointBodyHash X cp = some hash := by
  unfold checkpointFacts at h ⊢
  obtain ⟨table, htable⟩ := Option.isSome_iff_exists.mp h
  obtain ⟨facts, hfacts, _⟩ := Option.bind_eq_some_iff.mp htable
  constructor
  · rw [mapM_take hfacts n]
    rfl
  · obtain ⟨_, _, hf⟩ := mem_of_mapM hfacts hcp
    obtain ⟨hash, hhash, _⟩ := Option.bind_eq_some_iff.mp hf
    exact ⟨hash, hhash⟩

/-- A rewound bundle is of the same origin, as every checkpoint of the chain
is. -/
theorem origin_rewound (h : checkBundleOrigin b target chain = true) (hcp : cp ∈ chain) :
    checkBundleOrigin (rewound X D b i cp) cp (chain.take (i + 1)) = true ∧
      bodyStr cp "origin" = bodyStr target "origin" := by
  unfold checkBundleOrigin at h
  split at h
  · cases h
  rename_i origin hname
  rw [Bool.and_eq_true, beq_iff_eq, List.all_eq_true] at h
  have hcporigin : bodyStr cp "origin" = some origin := eq_of_beq (h.2 cp hcp)
  have hname' : (rewound X D b i cp).getStr "origin" = some origin := (asStr_index b "origin").trans hname
  constructor
  · simp only [checkBundleOrigin, hname', hcporigin, beq_self_eq_true, Bool.true_and, List.all_eq_true]
    exact fun x hx => h.2 x (List.mem_of_mem_take hx)
  · rw [hcporigin, h.1]

theorem entryWithinCaps_reproved {leaves : List Digest} {e : Value} (hn : leaves.length < 2 ^ 64)
    (h : entryWithinCaps e = true) : entryWithinCaps (reproved X leaves e) = true := by
  have hproof : (reproved X leaves e).getArray "inclusion_proof" =
      some ((auditPath X ((e.getU64 "leaf_index").getD 0).toNat leaves).map fun d => .string (hex d.val)) := rfl
  rw [entryWithinCaps, Bool.and_eq_true] at h ⊢
  rw [hproof, reproved_envelope, Option.all_some, List.length_map, decide_eq_true_eq, Option.bind_some]
  refine ⟨length_auditPath hn _, ?_⟩
  rw [Value.index]
  cases hget : e.get "envelope" with
  | none => rfl
  | some env =>
    rw [hget] at h
    exact h.2

theorem get_of_getArray {v : Value} {k : String} {xs : List Value} (h : v.getArray k = some xs) :
    v.get k = some (.array xs) := by
  obtain ⟨w, hw, hxs⟩ := Option.bind_eq_some_iff.mp h
  cases w with
  | array ys =>
    cases hxs
    exact hw
  | _ => cases hxs

/-- A rewound bundle is within the profile of numbers. -/
theorem numbersWithinProfile_rewound (h : Passed X b entries kl target chainEntries chain root covers tenant sparse)
    (hcp : cp ∈ chain) : numbersWithinProfile X (rewound X D b i cp) = true := by
  obtain ⟨hlen, hchain, hmapM⟩ := length_chainEntries h.hpresented
  have hnumbers : numbersMatch X false b maxDepth = true := (Bool.and_eq_true _ _ ▸ h.hcaps).2
  have hlinks : ∀ x ∈ chainEntries, numbersMatch X false x (maxDepth - 1 - 1) = true :=
    numbersMatch_items (L5.Layout.numbersMatch_get hnumbers (get_of_getArray hchain))
  have horigin : numbersMatch X false (b.index "origin") (maxDepth - 1) = true :=
    numbersMatch_index (by decide) hnumbers "origin"
  have hjwks : numbersMatch X false (.array ((introductions X (below (targetSize cp) (keyLogOf X b))).map fun c =>
      publicJwk c.jwk)) (maxDepth - 1 - 1) = true := by
    refine numbersMatch_array (by decide) fun x hx => ?_
    obtain ⟨c, hc, rfl⟩ := List.mem_map.mp hx
    obtain ⟨_, _, hclaim, _⟩ := mem_introductions.mp hc
    exact numbersMatch_public (by decide) (keyClaim_reads hclaim).key
  have hentries : numbersMatch X false (.array (entriesAt X D (targetSize cp) (entriesOf b))) (maxDepth - 1) =
      true := by
    refine numbersMatch_array (by decide) fun x hx => ?_
    obtain ⟨e, he, rfl⟩ := List.mem_map.mp hx
    refine numbersMatch_reproved (by decide) ?_
    rw [h.entries_eq] at he
    exact numbersMatch_items (L5.Layout.numbersMatch_get hnumbers (get_of_getArray h.hentries)) e
      (List.mem_of_mem_filter he)
  have htarget : numbersMatch X false cp (maxDepth - 1) = true := by
    obtain ⟨entry, hentry, hget⟩ := mem_mapM hmapM hcp
    exact numbersMatch_mono (by decide) cp (L5.Layout.numbersMatch_get (hlinks entry hentry) hget)
  have hchain' : numbersMatch X false (.array (((linksOf b).take (i + 1)).map Prod.snd)) (maxDepth - 1) = true := by
    refine numbersMatch_array (by decide) fun x hx => hlinks x ?_
    rw [List.map_take, h.links_eq, List.map_snd_zip hlen.le] at hx
    exact List.mem_of_mem_take hx
  have hprofile : numbersMatchMembers X false (((b.get "checkpoint_chain_profile").map fun p =>
      ("checkpoint_chain_profile", p)).toList) (maxDepth - 1) = true := by
    cases hget : b.get "checkpoint_chain_profile" with
    | none => rfl
    | some p =>
      have hp := L5.Layout.numbersMatch_get hnumbers hget
      simp only [Option.map_some, Option.toList_some, numbersMatchMembers, hp, Bool.and_self]
  have hdepth : (0 : Int) ≤ maxDepth ∧ (0 : Int) ≤ maxDepth - 1 := by decide
  rw [numbersWithinProfile, rewound, numbersMatch, numbersMatchMembers_append, hprofile]
  simp only [numbersMatchMembers, horigin, hentries, htarget, hchain', numbersMatch_string hdepth.2, Bool.and_true]
  rw [numbersMatch]
  simp only [numbersMatchMembers, hjwks, hdepth.1, hdepth.2, decide_true, Bool.and_self]

/-- A rewound bundle is within the caps: it has fewer entries, fewer checkpoints
and shorter paths. -/
theorem withinCaps_rewound (h : Passed X b entries kl target chainEntries chain root covers tenant sparse)
    (hn : D.length < 2 ^ 64) (hcp : cp ∈ chain) : withinCaps X (rewound X D b i cp) = true := by
  obtain ⟨hlen, hchain, _⟩ := length_chainEntries h.hpresented
  have hcaps := h.hcaps
  simp only [withinCaps, h.hentries, hchain, Option.all_some, Bool.and_eq_true, decide_eq_true_eq,
    List.all_eq_true] at hcaps
  obtain ⟨⟨⟨hcount, hentries⟩, hlinks⟩, _⟩ := hcaps
  simp only [withinCaps, rewound_entries, rewound_chain, Option.all_some, Bool.and_eq_true, decide_eq_true_eq,
    List.all_eq_true, h.entries_eq]
  refine ⟨⟨⟨?_, fun x hx => ?_⟩, ?_⟩, numbersWithinProfile_rewound h hcp⟩
  · rw [entriesAt, List.length_map]
    exact (List.length_filter_le _ _).trans hcount
  · obtain ⟨e, he, rfl⟩ := List.mem_map.mp hx
    refine entryWithinCaps_reproved ?_ (hentries e (List.mem_of_mem_filter he))
    exact (List.length_take_le' _ _).trans_lt hn
  · rw [List.map_take, h.links_eq, List.map_snd_zip hlen.le]
    exact (List.length_take_le' _ _).trans hlinks

/-- The entries below a checkpoint are checked as before, and attested as
before, since an attestation reads roles that the cut log has too. -/
theorem entries_rewound {kl' : KeyLog} {L : List Bytes}
    (h : Passed X b entries kl target chainEntries chain root covers tenant sparse)
    (hsize : (bodyU64 target "tree_size").map UInt64.toNat = some D.length)
    (hroot : (bodyStr target "root_hash").bind hexToBytes = some (treeHash X D).val)
    (hc : CollisionFree X L) (hL : hashedBytes X b ⊆ L) (htree : treeInputs X D ⊆ L)
    (hmono : chain.Pairwise fun a b => targetSize a ≤ targetSize b) (hcp : chain[i]? = some cp)
    (hpos : 0 < targetSize cp) (hle : (targetSize cp).toNat ≤ D.length) (hupto : UpTo (targetSize cp) kl kl')
    (hheld : Held X (below (targetSize cp) (collectKeyEntries X entries)).zipIdx kl') {e : Value}
    (he : e ∈ entriesBelow (targetSize cp) entries) :
    checkEntry X (reproved X (D.take (targetSize cp).toNat) e) kl' (targetSize cp)
      (treeHash X (D.take (targetSize cp).toNat)).val (covers.take (i + 1)) tenant = true ∧
    ∀ trust, attestedLeaf X kl' trust (reproved X (D.take (targetSize cp).toNat) e) = attestedLeaf X kl trust e := by
  obtain ⟨c, hci, hcm⟩ : ∃ c, covers[i]? = some c ∧ c.1 = targetSize cp := by
    have hsizes := congrArg (·[i]?) (cover_sizes h.hdeadlines)
    simp only [List.getElem?_map, hcp, Option.map_some] at hsizes
    exact Option.map_eq_some_iff.mp hsizes
  have hsorted : covers.Pairwise fun a b => a.1 ≤ b.1 := by
    have hpair := List.pairwise_map.mpr hmono
    rw [← cover_sizes h.hdeadlines] at hpair
    exact List.pairwise_map.mp hpair
  obtain ⟨n, hn, hlen⟩ := Option.map_eq_some_iff.mp hsize
  have hD : D.length < 2 ^ 64 := by
    rw [← hlen]
    exact n.toNat_lt
  have htarget : targetSize target = UInt64.ofNat D.length := by
    rw [targetSize, hn, Option.getD_some, ← hlen, UInt64.ofNat_toNat]
  have hroot' : root = (treeHash X D).val := Option.some.inj (h.hroot.symm.trans (root_getD hroot))
  obtain ⟨hin, hlt⟩ := List.mem_filter.mp he
  obtain ⟨payload, body, leaf, sigs, proof, hchk⟩ := h.hchecked e hin
  rw [hchk.hleaf, Option.getD_some, decide_eq_true_eq] at hlt
  refine checkEntry_rewound hupto (h.hall e hin) hchk.hleaf hlt
    (fun ts => coveredInTime_take hsorted hci (by rw [hcm]; exact hlt))
    (fun _ _ hp hb _ hg => genesis_known h.toAccepted hc hL hpos hheld hin hchk.hleaf hp hb hg) (fun payload' hp => ?_)
  obtain rfl : payload = payload' := Option.some.inj (hchk.hpayload.symm.trans hp)
  have hhashed : entryHashed X (targetSize target) e ⊆ L := by
    rw [← h.target_eq]
    exact fun x hx => hL (entryHashed_subset (h.entries_eq.symm ▸ hin) hx)
  rw [htarget] at hhashed
  rw [htarget, hroot'] at hchk
  exact inclusion_rewound hD hle hchk.hleaf hlt (entry_leaf hD hc hchk hhashed htree).2

/-- Everything but the lineages carries over to the bundle as it stood at a
checkpoint, and so do the attestations. It is assembled from the lemma for each
stage. -/
theorem passed_rewound (hX : WriterLaws X)
    (h : Passed X b entries kl target chainEntries chain root covers tenant sparse)
    (hsize : (bodyU64 target "tree_size").map UInt64.toNat = some D.length)
    (hroot : (bodyStr target "root_hash").bind hexToBytes = some (treeHash X D).val)
    (hc : CollisionFree X (hashedBytes X b ++ (treeInputs X D ++ prefixInputs X b D)))
    (hcp : chain[i]? = some cp) :
    ∃ kl', Passed X (rewound X D b i cp) (entriesAt X D (targetSize cp) entries) kl' cp (chainEntries.take (i + 1))
      (chain.take (i + 1)) (treeHash X (D.take (targetSize cp).toNat)).val (covers.take (i + 1)) tenant sparse ∧
      ∀ e ∈ entriesBelow (targetSize cp) entries, ∀ trust,
        attestedLeaf X kl' trust (reproved X (D.take (targetSize cp).toNat) e) = attestedLeaf X kl trust e := by
  have hn : D.length < 2 ^ 64 := by
    obtain ⟨n, _, hlen⟩ := Option.map_eq_some_iff.mp hsize
    rw [← hlen]
    exact n.toNat_lt
  obtain ⟨hLb, hLrest⟩ := List.append_subset.mp
    (List.Subset.refl (hashedBytes X b ++ (treeInputs X D ++ prefixInputs X b D)))
  obtain ⟨hLtree, hLprefix⟩ := List.append_subset.mp hLrest
  obtain ⟨hcommits, hmono⟩ := chain_commits hX h.toAccepted hsize hroot hc hLb hLprefix
  have hmem : cp ∈ chain := List.mem_of_getElem? hcp
  obtain ⟨s, hs, hpos, hle, hcproot⟩ := hcommits cp hmem
  obtain rfl : targetSize cp = s := by rw [targetSize, hs, Option.getD_some]
  have hmpos : 0 < targetSize cp := UInt64.lt_iff_toNat_lt.mpr hpos
  -- the key log
  obtain ⟨hok', hupto, hexplained, hheld⟩ :=
    replay_below (h.hreplay ▸ h.hok) hmpos (keyEntries_below (X := X) (D := D) entries)
  rw [h.hreplay] at hupto
  have hl : keyLogOf X b = collectKeyEntries X entries := by rw [keyLogOf, h.entries_eq]
  obtain ⟨k, hk, claim, hk0, hclaim, hi⟩ := genesis_introduces (h.hreplay ▸ h.hok)
  have hintro : claim ∈ introductions X (below (targetSize cp) (collectKeyEntries X entries)) :=
    mem_introductions.mpr ⟨k, mem_below.mpr ⟨hk, by rw [hk0]; exact hmpos⟩, hclaim, hi⟩
  -- the entries
  have hentry := fun e he =>
    entries_rewound (e := e) h hsize hroot hc hLb hLtree hmono hcp hmpos hle hupto hheld he
  have hall : ∀ e ∈ entriesAt X D (targetSize cp) entries, checkEntry X e
      (replayKeyLog X (entriesAt X D (targetSize cp) entries)) (targetSize cp)
      (treeHash X (D.take (targetSize cp).toNat)).val (covers.take (i + 1)) tenant = true := by
    intro x hx
    obtain ⟨e, he, rfl⟩ := List.mem_map.mp hx
    exact (hentry e he).1
  -- the chain
  have hloop := chainLoop_rewound (X := X) hupto (i + 1) (chain.zip chainEntries) none h.chainLoop
    (chain_sizes_le hmono hcp)
  have hgenesis := (Bool.and_eq_true _ _ ▸ h.hchainOk).1
  have hauth := h.authority cp (List.mem_cons_of_mem _ (by rw [h.chain_eq]; exact hmem))
  have hlast : (chain.take (i + 1)).getLast? = some cp := by
    rw [List.getLast?_take, if_neg (Nat.succ_ne_zero i), Nat.add_sub_cancel, hcp, Option.some_or]
  obtain ⟨hfacts, hash, hhash⟩ := facts_rewound h.hfacts hmem (i + 1)
  obtain ⟨horigin, hsame⟩ := origin_rewound (D := D) h.horigin hmem
  refine ⟨replayKeyLog X (entriesAt X D (targetSize cp) entries), ?_, fun e he => (hentry e he).2⟩
  exact
    { hentries := by rw [rewound_entries, h.entries_eq]
      hreplay := rfl
      hok := hok'
      hjwks := jwks_introduced hexplained hheld (List.ne_nil_of_mem hintro) (by rw [← hl]; rfl)
      htarget := rfl
      hpresented := rewound_presented h.toAccepted
      hchain := by
        intro hnil
        rw [hnil] at hlast
        cases hlast
      hroot := root_getD hcproot
      hcovers := ⟨_, mapM_take h.hdeadlines (i + 1)⟩
      hchecked := fun e he => checkEntry_spec (hall e he)
      hseq := seqUnique_below h.hseq
      htargetOk := (Bool.and_eq_true _ _).mpr (authority_rewound hupto (UInt64.le_refl _) hauth.1 hauth.2)
      hchainOk := by
        rw [checkCheckpointChain, Bool.and_eq_true, List.head?_take, if_neg (Nat.succ_ne_zero i)]
        refine ⟨hgenesis, ?_⟩
        rw [List.zip_eq_zipWith, ← List.take_zipWith, ← List.zip_eq_zipWith]
        exact hloop
      hhead := by
        rw [chainHeadMatches, hlast, Option.bind_some, hhash]
        exact beq_self_eq_true hash
      hcaps := withinCaps_rewound h hn hmem
      hedges := by
        intro x hx
        obtain ⟨e, he, rfl⟩ := List.mem_map.mp hx
        exact h.hedges e (List.mem_of_mem_filter he)
      hdeadlines := mapM_take h.hdeadlines (i + 1)
      htenant := by
        rw [hsame]
        exact h.htenant
      hall := hall
      hprofile := by
        have hprofile := h.hprofile
        rw [chainProfile] at hprofile ⊢
        rw [rewound_profile]
        exact hprofile
      horigin := horigin
      hfacts := hfacts }

end

/-- What is attested below the cut is what was attested there. -/
theorem attested_below {kl : KeyLog} {trust : Option Value} (m : UInt64) (es : List Value) :
    (entriesBelow m es).filterMap (attestedLeaf X kl trust) =
      (es.filterMap (attestedLeaf X kl trust)).filter fun leaf => decide (leaf < m) := by
  refine filterMap_below id (fun e leaf ha => ?_) m es
  unfold attestedLeaf at ha
  split at ha
  · rw [ha, Option.getD_some, id]
  · cases ha

/-- **Rewinding.** Take a verified bundle, of whatever trust, the leaves of its
log, and a checkpoint of its chain. The bundle as it stood at that checkpoint
verifies exactly when the receipts below it show the revisions they name, and
attests the leaves below it that the whole bundle attests. -/
theorem rewound_exact (X : Crates) (hX : WriterLaws X) (b : Value) (trust : Option Value)
    (hok : (verifyBundleFacts X b trust).ok = true) (D : List Digest)
    (hsize : (bodyU64 (targetOf b) "tree_size").map UInt64.toNat = some D.length)
    (hroot : (bodyStr (targetOf b) "root_hash").bind hexToBytes = some (treeHash X D).val)
    (hc : CollisionFree X (hashedBytes X b ++ (treeInputs X D ++ prefixInputs X b D))) (i : Nat) (cp : Value)
    (hcp : (chainOf b)[i]? = some cp) :
    ((verifyBundleFacts X (rewound X D b i cp) trust).ok = true ↔
      RevisionsShown X (entriesBelow (targetSize cp) (entriesOf b))) ∧
    ((verifyBundleFacts X (rewound X D b i cp) trust).ok = true →
      (verifyBundleFacts X (rewound X D b i cp) trust).recorderAttested =
        (verifyBundleFacts X b trust).recorderAttested.filter fun leaf => decide (leaf < targetSize cp)) := by
  obtain ⟨entries, kl, target, chainEntries, chain, root, covers, tenant, sparse, hpassed, hlineage, hattested⟩ :=
    passed_of_ok hok
  rw [hpassed.target_eq] at hsize hroot
  rw [hpassed.chain_eq] at hcp
  obtain ⟨kl', hpassed', hsame⟩ := passed_rewound hX hpassed hsize hroot hc hcp
  obtain ⟨hiff, hattested'⟩ := ok_iff_lineage trust hpassed' rfl (rewound_absent (.inl rfl))
    (rewound_absent (.inr (.inl rfl))) (rewound_absent (.inr (.inr rfl)))
  rw [hpassed.entries_eq]
  refine ⟨hiff.trans (lineage_below hlineage), fun hok' => ?_⟩
  rw [hattested' hok', hattested, ← attested_below, entriesAt, List.filterMap_map]
  exact List.filterMap_congr fun e he => hsame e he trust

section
open SwarrmVerify.L1.Reference SwarrmVerify.L3.Published

/-- The first two receipts of the log belong to no lineage, so nothing is
missing below the cut. -/
theorem published_lineages :
    ((entriesBelow 2 (entriesOf published)).filterMap (lineageItem crates)).isEmpty = true := by
  decide +kernel

/-- The published log as it stood at size 2, before the deputy was revoked. -/
theorem published_rewound : (verifyBundleFacts crates published none).ok = true ∧
    (verifyBundleFacts crates (rewound crates [leaf0, leaf1, leaf2, leaf3] published 0
      (checkpoint body2 genesisKid body2Sig)) none).ok = true := by
  have hc : CollisionFree crates (hashedBytes crates published ++
      (treeInputs crates [leaf0, leaf1, leaf2, leaf3] ++
        prefixInputs crates published [leaf0, leaf1, leaf2, leaf3])) :=
    published_collisionFree (by decide +kernel)
  -- no receipt below leaf 2 has a lineage
  have hshown : RevisionsShown crates (entriesBelow (targetSize (checkpoint body2 genesisKid body2Sig))
      (entriesOf published)) := by
    intro agent item hitem
    obtain ⟨i, hi, _⟩ := List.mem_map.mp hitem
    have hnone := List.isEmpty_iff.mp published_lineages
    have hmem : i ∈ (entriesBelow 2 (entriesOf published)).filterMap (lineageItem crates) := List.mem_of_mem_filter hi
    rw [hnone] at hmem
    cases hmem
  exact ⟨published_ok, (rewound_exact crates (reference_writerLaws _ _ _) published none published_ok
    [leaf0, leaf1, leaf2, leaf3] (by decide +kernel) (by decide +kernel) hc 0 _ rfl).1.mpr hshown⟩

end

end SwarrmVerify.L5.Rewound

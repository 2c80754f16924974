import SwarrmVerify.L4Bundle.Continuity
import SwarrmVerify.L4Bundle.Entries
import SwarrmVerify.L3KeyLog.KeyRun
import SwarrmVerify.L3KeyLog.Issuers

/-!
# Verifying a bundle (`lib.rs`)

`verifyBundleFacts` is the whole offline verdict: resource caps, the key-log
replay, the JWKS, every entry, the target checkpoint and its chain, lineage,
timestamp and anchor records, continuity. The source fills one mutable
`BundleFacts` and returns early with what it has; here each stage returns what
it adds, and a rejection keeps what the stages before it found, as the source
does. The order of the stages is the source's.

Later results are about a bundle that verifies, and they start from one place:
`Accepted` has every check that such a bundle has passed, with the parts it was
passed on (`entriesOf`, `chainOf`, `targetOf`, `keyLogOf`). `hashedBytes` is
everything that a verification hashes; a hypothesis that SHA-256 has no
collision is always about these bytes and never about all of them.

**Results.**
* `accepted_of_ok`: a verified bundle passed every check.
* `authority`: every checkpoint of it is signed by an active issuer.
* `explained`: its key log is explained by its entries.
* `published_ok`, `withoutDeputy_ok`: the published log verifies, with and
  without the entries about the deputy, and what is hashed for it does not
  collide.
-/
namespace SwarrmVerify.L4.Bundle
open SwarrmVerify.L1.Jcs SwarrmVerify.L3.Receipt SwarrmVerify.L3.Keys SwarrmVerify.L4.Checkpoint
open SwarrmVerify.L4.Continuity SwarrmVerify.L4.Entries SwarrmVerify.L4.Trust

def maxInclusionProofLen : Nat := 64
def maxCheckpointChainLen : Nat := 100000
def maxSignaturesPerEnvelope : Nat := 9
def maxAttestationRecords : Nat := 256

def sparseCheckpointChainProfile : String := "evd/checkpoint-chain/sparse-proof-v1"

/-! ## Caps -/

/-- The caps on one entry. A list that is missing or no list is left to the
checks of its own.
mirrors verify-rs/src/lib.rs:70-83 -/
def entryWithinCaps (e : Value) : Bool :=
  ((e.getArray "inclusion_proof").all fun p => decide (p.length ≤ maxInclusionProofLen)) &&
    (((e.get "envelope").bind fun env => env.getArray "signatures").all fun s =>
      decide (s.length ≤ maxSignaturesPerEnvelope))

/-- The caps on a bundle, before anything is hashed or verified.
mirrors verify-rs/src/lib.rs:87-102 -/
def withinCaps (X : Crates) (bundle : Value) : Bool :=
  ((bundle.getArray "entries").all fun es => decide (es.length ≤ maxEntries) && es.all entryWithinCaps) &&
    ((bundle.getArray "checkpoint_chain").all fun c => decide (c.length ≤ maxCheckpointChainLen)) &&
    numbersWithinProfile X bundle

/-! ## Timestamp and anchor records -/

/-- The time of a record is no earlier than the one its checkpoint signs.
mirrors verify-rs/src/lib.rs:1056-1059 -/
def recordNotBeforeCheckpoint (rec : Value) (field signedTs : String) : Bool :=
  match (rec.getStr field).bind utcEpochMicros, utcEpochMicros signedTs with
  | some claimed, some signed => decide (signed ≤ claimed)
  | _, _ => false

/-- A record has its members, names a checkpoint of the chain, and is not
earlier than it.
mirrors verify-rs/src/lib.rs:1063-1073 -/
def boundRecordOk (rec : Value) (required : List String) (timeField : String)
    (checkpoints : CheckpointFacts) : Bool :=
  match rec.asObject with
  | none => false
  | some obj =>
    if required.any fun f => !Value.hasKey obj f then false
    else match checkpoints.lookup ((rec.getStr "checkpoint_body_hash").getD "") with
      | none => false
      | some (signed, _) => recordNotBeforeCheckpoint rec timeField signed

/-- Every record is bound, no two to one checkpoint, and there are not too many.
mirrors verify-rs/src/lib.rs:1075-1082 -/
def checkBoundRecords (records : Value) (required : List String) (timeField : String)
    (checkpoints : CheckpointFacts) : Bool :=
  match records.asArray with
  | none => false
  | some arr =>
    let digests := arr.filterMap fun r => r.getStr "checkpoint_body_hash"
    if decide (arr.length > maxAttestationRecords) || digests.toFinset.card != arr.length then false
    else arr.all fun rec => boundRecordOk rec required timeField checkpoints

def tstRequired : List String :=
  ["checkpoint_body_hash", "token_der_b64", "tsa_url", "gen_time", "cert_chain_pem", "qualified"]

def anchorRequired : List String :=
  ["checkpoint_body_hash", "chain_id", "tx_hash", "block_number", "block_ts", "contract"]

/-- One timestamp record: its checkpoint and whether it is trusted.
mirrors verify-rs/src/lib.rs:1090-1098 -/
def tstRecord (X : Crates) (roots : Option String) (record : Value) : Option (String × Bool) := do
  let bodyHash ← record.getStr "checkpoint_body_hash"
  let tokenB64 ← record.getStr "token_der_b64"
  let displayed ← record.getStr "gen_time"
  let chain ← record.getStr "cert_chain_pem"
  let token ← X.b64Decode tokenB64
  let (actual, trusted) ← verifiedTst X token bodyHash chain roots
  if actual.text != displayed then none else some (bodyHash, trusted)

/-- The verdict over the records and the checkpoints with a trusted one. -/
def tstLoop (X : Crates) (roots : Option String) : List Value → List String → Bool × List String
  | [], trusted => (true, trusted)
  | record :: rest, trusted =>
    match tstRecord X roots record with
    | none => (false, trusted)
    | some (bodyHash, t) => tstLoop X roots rest (if t then trusted ++ [bodyHash] else trusted)

/-- The timestamp records, bound first and then verified token by token.
mirrors verify-rs/src/lib.rs:1084-1101 -/
def checkTstRecords (X : Crates) (records : Value) (checkpoints : CheckpointFacts) (roots : Option String) :
    Bool × List String :=
  if !checkBoundRecords records tstRequired "gen_time" checkpoints then (false, [])
  else match records.asArray with
    | none => (false, [])
    | some items => tstLoop X roots items []

/-- Timestamps and anchors; a bundle without either has nothing to check.
mirrors verify-rs/src/lib.rs:1103-1127 -/
def checkAttestationRecords (X : Crates) (bundle : Value) (checkpoints : CheckpointFacts)
    (trust : Option Value) : Bool × List String :=
  let tst := match bundle.getSome "tst_records" with
    | none => (true, [])
    | some tsts => checkTstRecords X tsts checkpoints (tsaRootsPem trust)
  if !tst.1 then tst
  else match bundle.getSome "anchor_records" with
    | none => tst
    | some anchors => (checkBoundRecords anchors anchorRequired "block_ts" checkpoints, tst.2)

/-! ## The verdict -/

/-- What a verification reports. Everything but the verdict is only worth
something if that is true.
mirrors verify-rs/src/lib.rs:322-334 -/
structure BundleFacts where
  ok : Bool := false
  complete : Option Bool := none
  recorderAttested : List UInt64 := []
  trustedTstCheckpoints : List String := []
  chainSizes : Table UInt64 := ∅
  continuityGaps : Nat := 0
  continuityPresent : Bool := false
  continuityOk : Bool := false
  originAttested : Option Bool := none

/-- The entries, the manifest and the sequence numbers.
mirrors verify-rs/src/lib.rs:891-898 -/
def checkEntrySet (X : Crates) (bundle : Value) (entries : List Value) (target : Value) (chain : List Value)
    (kl : KeyLog) (trust : Option Value) (facts : BundleFacts) : Bool × BundleFacts :=
  let complete := checkExportManifest X bundle entries target kl
  let entriesOk := checkEntries X entries target chain kl trust
  (entriesOk.1 && complete != some false && checkSeqUniqueness X entries,
    { facts with complete := complete, recorderAttested := facts.recorderAttested ++ entriesOk.2 })

/-- `none` is an unknown profile. mirrors verify-rs/src/lib.rs:1166-1170 -/
def chainProfile (bundle : Value) : Option Bool :=
  match bundle.get "checkpoint_chain_profile" with
  | none => some false
  | some (.string profile) => if profile == sparseCheckpointChainProfile then some true else none
  | some _ => none

/-- The target and its chain, then lineage.
mirrors verify-rs/src/lib.rs:1166-1188 -/
def checkChainAndLineage (X : Crates) (bundle : Value) (entries : List Value) (target : Value)
    (chain chainEntries : List Value) (kl : KeyLog) : Bool :=
  checkTargetCheckpoint X target kl &&
    ((chainProfile bundle).any fun sparse => checkCheckpointChain X chain chainEntries kl sparse) &&
    checkBundleOrigin bundle target chain && chainHeadMatches X chain target && checkLineage X entries

/-- The chain entries and the checkpoints they carry; an entry without one
rejects the chain.
mirrors verify-rs/src/lib.rs:1144-1151 -/
def presentedChain (bundle : Value) : Option (List Value × List Value) := do
  let chainEntries ← bundle.getArray "checkpoint_chain"
  let chain ← chainEntries.mapM fun entry => entry.get "checkpoint"
  return (chainEntries, chain)

/-- The entries against the target, then the chain, then what is recorded beside
it. The first failure keeps what was known before it.
mirrors verify-rs/src/lib.rs:1139-1197 -/
def checkCheckpointsAndEntries (X : Crates) (bundle : Value) (entries : List Value) (kl : KeyLog)
    (trust : Option Value) (facts : BundleFacts) : Bool × BundleFacts :=
  match bundle.get "target_checkpoint", presentedChain bundle with
  | some target, some (chainEntries, chain) =>
    if chain.isEmpty then (false, facts)
    else
      let set := checkEntrySet X bundle entries target chain kl trust facts
      if !set.1 then (false, set.2)
      else if !checkChainAndLineage X bundle entries target chain chainEntries kl then (false, set.2)
      else match checkpointFacts X chain with
        | none => (false, set.2)
        | some checkpoints =>
          let records := checkAttestationRecords X bundle checkpoints trust
          let facts := { set.2 with trustedTstCheckpoints := set.2.trustedTstCheckpoints ++ records.2 }
          if !records.1 then (false, facts)
          else
            let continuity := assessContinuity X bundle chain kl
            (true, { facts with
              chainSizes := checkpoints.entries.foldr (fun e t => t.insert e.1 e.2.2) ∅
              continuityPresent := continuity.1
              continuityOk := continuity.2.1
              continuityGaps := continuity.2.2 })
  | _, _ => (false, facts)

/-- Whether the log is the one the relying party expects under its origin.
Without an expectation nothing is said.
mirrors verify-rs/src/lib.rs:1428-1432 -/
def originAttested (X : Crates) (bundle : Value) (kl : KeyLog) (trust : Option Value) : Option Bool := do
  let expected ← keyFor X trust "log_keys" (bundle.getStr "origin")
  let kid := ((bundle.index "target_checkpoint").getStr "kid").getD ""
  return (kl.keys.lookup kid).any fun key => key.val == expected

/-- The checks before the checkpoints: schema, caps, co-signatures, the key log
and the JWKS.
mirrors verify-rs/src/lib.rs:1436-1462 -/
def admitted (X : Crates) (bundle : Value) : Option (List Value × KeyLog) :=
  let entries := (bundle.getArray "entries").getD []
  let kl := replayKeyLog X entries
  if bundle.getStr "schema" != some "evd/bundle/v1" then none
  else if !withinCaps X bundle then none
  else if entries.isEmpty then none
  else if entries.any fun e =>
      (bodyOf X (e.index "envelope")).any fun body =>
        forbiddenManagedEdgeCosign body (e.index "envelope") then none
  else if !kl.ok then none
  else if !checkJwksMatchLog X bundle kl then none
  else some (entries, kl)

/-- The verification of a bundle: admitted first, then checked. A failure
reports no attested entries.
mirrors verify-rs/src/lib.rs:1434-1474 -/
def verifyBundleFacts (X : Crates) (bundle : Value) (trust : Option Value) : BundleFacts :=
  match admitted X bundle with
  | none => {}
  | some (entries, kl) =>
    let r := checkCheckpointsAndEntries X bundle entries kl trust {}
    if r.1 then { r.2 with ok := true, originAttested := originAttested X bundle kl trust }
    else { r.2 with ok := false, recorderAttested := [], trustedTstCheckpoints := [], chainSizes := ∅ }

/-! ## Reading a verified bundle -/

/-- The tree size a target checkpoint commits to. -/
def targetSize (target : Value) : UInt64 := (bodyU64 target "tree_size").getD 0

/-- Everything a verified bundle has been checked for, up to what only the
relying party's trust decides. -/
structure Accepted (X : Crates) (bundle : Value) (entries : List Value) (kl : KeyLog) (target : Value)
    (chainEntries chain : List Value) (root : Bytes) (sparse : Bool) : Prop where
  hentries : bundle.getArray "entries" = some entries
  hreplay : replayKeyLog X entries = kl
  hok : kl.ok = true
  hjwks : checkJwksMatchLog X bundle kl = true
  htarget : bundle.get "target_checkpoint" = some target
  hpresented : presentedChain bundle = some (chainEntries, chain)
  hchain : chain ≠ []
  hroot : hexToBytes ((bodyStr target "root_hash").getD "") = some root
  hcovers : ∃ covers, checkpointCoverDeadlines chain = some covers
  hchecked : ∀ e ∈ entries, ∃ payload body leaf sigs proof,
    Checked X e kl (targetSize target) root payload body leaf sigs proof
  hseq : checkSeqUniqueness X entries = true
  htargetOk : checkTargetCheckpoint X target kl = true
  hchainOk : checkCheckpointChain X chain chainEntries kl sparse = true
  hhead : chainHeadMatches X chain target = true

theorem checkEntries_spec {X : Crates} {entries chain : List Value} {target : Value} {kl : KeyLog}
    {trust : Option Value} (h : (checkEntries X entries target chain kl trust).1 = true) :
    ∃ root covers, hexToBytes ((bodyStr target "root_hash").getD "") = some root ∧
      checkpointCoverDeadlines chain = some covers ∧ ∀ e ∈ entries, ∃ payload body leaf sigs proof,
        Checked X e kl (targetSize target) root payload body leaf sigs proof := by
  unfold checkEntries at h
  dsimp only at h
  split at h
  · rename_i root covers tenant hroot hcovers _
    rw [entriesLoop_ok, List.all_eq_true] at h
    exact ⟨root, covers, hroot, hcovers, fun e he => checkEntry_spec (h e he)⟩
  · cases h

theorem accepted_of_checks {X : Crates} {bundle : Value} {entries : List Value} {kl : KeyLog}
    {trust : Option Value} {facts : BundleFacts} (hentries : bundle.getArray "entries" = some entries)
    (hreplay : replayKeyLog X entries = kl) (hok : kl.ok = true) (hjwks : checkJwksMatchLog X bundle kl = true)
    (h : (checkCheckpointsAndEntries X bundle entries kl trust facts).1 = true) :
    ∃ target chainEntries chain root sparse,
      Accepted X bundle entries kl target chainEntries chain root sparse := by
  unfold checkCheckpointsAndEntries at h
  split at h
  case h_2 => cases h
  rename_i target chainEntries chain htarget hpresented
  split at h
  · cases h
  rename_i hne
  dsimp only at h
  split at h
  · cases h
  rename_i hset
  split at h
  · cases h
  rename_i hlinks
  simp only [checkEntrySet, Bool.not_eq_true', Bool.not_eq_false, Bool.and_eq_true] at hset
  simp only [checkChainAndLineage, Bool.not_eq_true', Bool.not_eq_false, Bool.and_eq_true] at hlinks
  obtain ⟨root, covers, hroot, hcovers, hchecked⟩ := checkEntries_spec hset.1.1
  obtain ⟨sparse, _, hchainOk⟩ := (Option.any_eq_true _ _).mp hlinks.1.1.1.2
  exact ⟨target, chainEntries, chain, root, sparse, hentries, hreplay, hok, hjwks, htarget, hpresented,
    by simpa using hne, hroot, ⟨covers, hcovers⟩, hchecked, hset.2, hlinks.1.1.1.1, hchainOk, hlinks.1.2⟩

theorem admitted_spec {X : Crates} {bundle : Value} {entries : List Value} {kl : KeyLog}
    (h : admitted X bundle = some (entries, kl)) :
    bundle.getArray "entries" = some entries ∧ replayKeyLog X entries = kl ∧ kl.ok = true ∧
      checkJwksMatchLog X bundle kl = true := by
  unfold admitted at h
  dsimp only at h
  split at h
  · cases h
  split at h
  · cases h
  split at h
  · cases h
  rename_i hne
  split at h
  · cases h
  split at h
  · cases h
  rename_i hok
  split at h
  · cases h
  rename_i hjwks
  cases h
  refine ⟨?_, rfl, by simpa using hok, by simpa using hjwks⟩
  cases he : bundle.getArray "entries" with
  | none => rw [he] at hne; exact absurd rfl hne
  | some es => rfl

/-- A verified bundle passed every check. -/
theorem accepted_of_ok {X : Crates} {bundle : Value} {trust : Option Value}
    (h : (verifyBundleFacts X bundle trust).ok = true) :
    ∃ entries kl target chainEntries chain root sparse,
      Accepted X bundle entries kl target chainEntries chain root sparse := by
  unfold verifyBundleFacts at h
  split at h
  · cases h
  · rename_i entries kl hadm
    obtain ⟨hentries, hreplay, hok, hjwks⟩ := admitted_spec hadm
    dsimp only at h
    split at h
    · rename_i hr
      exact ⟨entries, kl, accepted_of_checks hentries hreplay hok hjwks hr⟩
    · cases h

/-! ## Names for the parts of a bundle -/

def entriesOf (bundle : Value) : List Value := (bundle.getArray "entries").getD []

def targetOf (bundle : Value) : Value := bundle.index "target_checkpoint"

/-- The checkpoints of the chain, each with the chain entry that carries it. -/
def linksOf (bundle : Value) : List (Value × Value) :=
  ((presentedChain bundle).map fun p => p.2.zip p.1).getD []

def chainOf (bundle : Value) : List Value := (linksOf bundle).map Prod.fst

/-- The key-log entries of the bundle in leaf order. -/
def keyLogOf (X : Crates) (bundle : Value) : List KeyEntry := collectKeyEntries X (entriesOf bundle)

namespace Accepted

variable {X : Crates} {bundle : Value} {entries : List Value} {kl : KeyLog} {target : Value}
  {chainEntries chain : List Value} {root : Bytes} {sparse : Bool}

theorem entries_eq (h : Accepted X bundle entries kl target chainEntries chain root sparse) :
    entriesOf bundle = entries := by
  simp [entriesOf, h.hentries]

theorem target_eq (h : Accepted X bundle entries kl target chainEntries chain root sparse) :
    targetOf bundle = target := by
  simp [targetOf, Value.index, h.htarget]

theorem links_eq (h : Accepted X bundle entries kl target chainEntries chain root sparse) :
    linksOf bundle = chain.zip chainEntries := by
  simp [linksOf, h.hpresented]

theorem chain_eq (h : Accepted X bundle entries kl target chainEntries chain root sparse) :
    chainOf bundle = chain := by
  have hp := h.hpresented
  unfold presentedChain at hp
  simp only [Option.bind_eq_bind, Option.bind_eq_some_iff, Option.pure_def, Option.some.injEq,
    Prod.mk.injEq] at hp
  obtain ⟨es, _, c, hc, rfl, rfl⟩ := hp
  rw [chainOf, h.links_eq, List.map_fst_zip]
  have := congrArg List.length (mapM_eq_some.mp hc)
  simp only [List.length_map] at this
  omega

theorem chainLoop (h : Accepted X bundle entries kl target chainEntries chain root sparse) :
    Checkpoint.chainLoop X kl sparse none (chain.zip chainEntries) = true := by
  have := h.hchainOk
  unfold checkCheckpointChain at this
  exact (Bool.and_eq_true _ _ ▸ this).2

/-- Every checkpoint of the bundle is signed by an active issuer. -/
theorem authority (h : Accepted X bundle entries kl target chainEntries chain root sparse) :
    ∀ cp ∈ targetOf bundle :: chainOf bundle,
      verifyCheckpointSig X cp kl.keys = true ∧ checkpointAuthority kl cp = true := by
  intro cp hcp
  rcases List.mem_cons.mp hcp with rfl | hcp
  · have := h.htargetOk
    rw [checkTargetCheckpoint, Bool.and_eq_true] at this
    rw [h.target_eq]; exact this
  · obtain ⟨p, hp, rfl⟩ := List.mem_map.mp hcp
    rw [h.links_eq] at hp
    exact chainLoop_authority h.chainLoop p hp

/-- The key log of a verified bundle, explained by its entries. -/
theorem explained (h : Accepted X bundle entries kl target chainEntries chain root sparse) :
    L3.KeyRun.Explained X (keyLogOf X bundle).zipIdx kl := by
  have hok := h.hok
  rw [← h.hreplay] at hok
  obtain ⟨_, fin, hrun, he⟩ := replayKeyLog_ok hok
  rw [← h.hreplay, he, keyLogOf, h.entries_eq]
  have := L3.KeyRun.explained_run hrun
  exact ⟨this.sameKeys, this.introduced, this.revokes, this.roles⟩

end Accepted

/-! ## What a verification hashes -/

/-- The payload, the leaf and the nodes on the way to the root. -/
def entryHashed (X : Crates) (size : UInt64) (e : Value) : List Bytes :=
  match payloadOf X (e.index "envelope"), proofHashes (e.get "inclusion_proof") with
  | some payload, some proof =>
    payload :: leafInput X payload :: L2.Merkle.inclusionInputs X (X.sha256 (leafInput X payload)).val
      ((e.getU64 "leaf_index").getD u64Max) size proof
  | _, _ => []

/-- The canonical body of a checkpoint. -/
def checkpointHashed (X : Crates) (cp : Value) : List Bytes :=
  ((cp.get "body").bind (canonicalChecked X)).toList

/-- The nodes of the consistency proof between neighbours. -/
def linkHashed (X : Crates) (p q : Value × Value) : List Bytes :=
  match proofHashes (q.2.get "consistency_from_prev"), hexToBytes ((bodyStr p.1 "root_hash").getD "") with
  | some proof, some pr => L2.Merkle.consistencyInputs X (targetSize p.1) (targetSize q.1) pr proof
  | _, _ => []

def linksHashed (X : Crates) : List (Value × Value) → List Bytes
  | [] => []
  | [_] => []
  | p :: q :: rest => linkHashed X p q ++ linksHashed X (q :: rest)

/-- The byte strings a verification hashes for receipts, checkpoints and
Merkle proofs. -/
def hashedBytes (X : Crates) (bundle : Value) : List Bytes :=
  (entriesOf bundle).flatMap (entryHashed X (targetSize (targetOf bundle))) ++
    (targetOf bundle :: chainOf bundle).flatMap (checkpointHashed X) ++ linksHashed X (linksOf bundle)

/-! ## Bundles that verify -/

section
open SwarrmVerify.L3.Published

/-- The published log verifies, with and without the entries about the `deputy`,
hashing what its digests are known of, and the `genesis` key is
unrevoked. -/
theorem published_checked : (verifyBundleFacts crates published none).ok = true ∧
    (verifyBundleFacts crates withoutDeputy none).ok = true ∧
    (∀ b ∈ hashedBytes crates published ++ hashedBytes crates withoutDeputy, b ∈ known.map Prod.fst) ∧
    ((replayKeyLog crates (entriesOf published)).state.lookup genesisKid).map (·.revokedAt) = some none := by
  decide +kernel

theorem published_ok : (verifyBundleFacts crates published none).ok = true := published_checked.1

theorem withoutDeputy_ok : (verifyBundleFacts crates withoutDeputy none).ok = true := published_checked.2.1

theorem published_collisionFree {L : List Bytes} (h : ∀ b ∈ L, b ∈ known.map Prod.fst) :
    CollisionFree crates (hashedBytes crates published ++ L) := by
  refine known_collisionFree.mono fun b hb => ?_
  rcases List.mem_append.mp hb with hb | hb
  · exact published_checked.2.2.1 b (List.mem_append_left _ hb)
  · exact h b hb

theorem withoutDeputy_collisionFree : CollisionFree crates (hashedBytes crates withoutDeputy) :=
  known_collisionFree.mono fun b hb => published_checked.2.2.1 b (List.mem_append_right _ hb)

theorem keyLogOf_published : keyLogOf crates published = keyLog := collectKeyEntries_published

theorem keyLogOf_withoutDeputy : keyLogOf crates withoutDeputy = keyLog.take 1 := collectKeyEntries_withoutDeputy

end

end SwarrmVerify.L4.Bundle

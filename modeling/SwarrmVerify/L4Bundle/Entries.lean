import SwarrmVerify.Core.Partition
import SwarrmVerify.L4Bundle.Checkpoint
import SwarrmVerify.L4Bundle.Trust

/-!
# The entries of a bundle (`lib.rs`)

Each entry is checked on its own: envelope, body, covering checkpoint, every
signature, inclusion under the target root. Then the set of them is: the signed
export manifest, one receipt for each agent and sequence number, and lineage.

The loop over the entries also computes which leaves a recorder attested. In
the source the two are one loop, and an attestation that fails could end it; it
cannot fail, since the entry has been accepted by then and has an envelope and
a leaf (`entriesLoop_ok`).

* `checkEntry_spec`: what an accepted entry has been checked for, as a
  structure with a field for each check.
* `checkEntryInclusion_spec`: its path is accepted at its leaf under the root
  and size of the target.
* `entriesLoop_ok`: the entry loop accepts exactly if every entry passes,
  whatever the relying party trusts.
* `checkSeqUniqueness_spec`: entries of one agent and sequence number have one
  receipt hash.
-/
namespace SwarrmVerify.L4.Entries
open SwarrmVerify.L1.Jcs SwarrmVerify.L2.Merkle SwarrmVerify.L3.Receipt SwarrmVerify.L3.Keys
open SwarrmVerify.L4.Checkpoint SwarrmVerify.L4.Trust

def exportManifestType : String := "application/vnd.evd.export-manifest.v1+json"

def maxEntries : Nat := 200000

def u64Max : UInt64 := 0xffffffffffffffff

/-! ## One entry -/

/-- A signature of the genesis key on its own creation at leaf 0. -/
def genesisSignature (body : Value) (leaf : UInt64) (kid : String) : Bool :=
  leaf == 0 && body.getStr "action_type" == some "evd.key.created" &&
    ((body.get "context").bind fun ctx => (ctx.get "jwk").bind fun jwk => jwk.getStr "kid") == some kid

/-- A signature of an entry: valid, and by a key that is active at the leaf or
is the one that the first entry introduces.
mirrors verify-rs/src/lib.rs:751-760 -/
def checkSig (X : Crates) (message : Bytes) (body : Value) (leaf : UInt64) (kl : KeyLog) (s : Value) : Bool :=
  let kid := (s.getStr "keyid").getD ""
  match kl.keys.lookup kid with
  | none => false
  | some pubkey =>
    signatureValid X s message pubkey &&
      (genesisSignature body leaf kid || keyActive kl kid ((body.getStr "ts_server").getD "") leaf)

/-- All signatures of an entry are over one message. There is no majority.
mirrors verify-rs/src/lib.rs:744-761 -/
def checkEntrySigs (X : Crates) (env : Value) (sigs : List Value) (body : Value) (leaf : UInt64)
    (kl : KeyLog) : Bool :=
  match envelopeMessage X env with
  | none => false
  | some message => sigs.all (checkSig X message body leaf kl)

/-- The leaf hash of a receipt: SHA-256 of 0x00 and the payload's digest. -/
def leafInput (X : Crates) (payload : Bytes) : Bytes := 0x00 :: (X.sha256 payload).val

/-- The entry is at its leaf in the tree of the target. A missing leaf index is
as good as an impossible one.
mirrors verify-rs/src/lib.rs:763-772 -/
def checkEntryInclusion (X : Crates) (e : Value) (payload : Bytes) (size : UInt64) (root : Bytes) : Bool :=
  let leafIndex := (e.getU64 "leaf_index").getD u64Max
  match proofHashes (e.get "inclusion_proof") with
  | none => false
  | some proof => verifyInclusion X (X.sha256 (leafInput X payload)).val leafIndex size proof root

/-- An envelope has exactly its three members.
mirrors verify-rs/src/lib.rs:779-781 -/
def envelopeMembersClosed (env : Value) : Bool :=
  env.asObject.any fun members =>
    members.length == 3 && ["payload", "payloadType", "signatures"].all fun k => Value.hasKey members k

/-- A receipt is not later than its first covering checkpoint allows; a leaf no
checkpoint covers is not held to any. The search means something only on a chain
of growing sizes; any other fails `checkCheckpointChain`.
mirrors verify-rs/src/lib.rs:804-809 -/
def coveredInTime (covers : List (UInt64 × Int)) (leaf : UInt64) (tsServer : String) : Bool :=
  (covers[Partition.partitionPoint (fun c => decide (c.1 ≤ leaf)) covers]?).all fun c =>
    (utcEpochMicros tsServer).any fun admitted => decide (admitted ≤ c.2)

/-- One entry: its envelope, its body, its tenant, its signatures, its place in
the tree and its time.
mirrors verify-rs/src/lib.rs:783-821 -/
def checkEntry (X : Crates) (e : Value) (kl : KeyLog) (size : UInt64) (root : Bytes)
    (covers : List (UInt64 × Int)) (expectedTenant : String) : Bool :=
  let env := e.index "envelope"
  if !envelopeMembersClosed env then false
  else match payloadOf X env with
    | none => false
    | some payload =>
      match canonicalBody X payload with
      | none => false
      | some body =>
        let leaf := (e.getU64 "leaf_index").getD u64Max
        if !receiptBodyValid body (some expectedTenant) then false
        else if !coveredInTime covers leaf ((body.getStr "ts_server").getD "") then false
        else match env.getArray "signatures" with
          | none => false
          | some sigs =>
            if sigs.isEmpty then false
            else if env.getStr "payloadType" != some receiptType then false
            else checkEntrySigs X env sigs body leaf kl && checkEntryInclusion X e payload size root

/-! ## The export manifest -/

/-- The time of the target that an export manifest names, if it is this
bundle's.
mirrors verify-rs/src/lib.rs:835-852 -/
def manifestTargetTime (X : Crates) (body bundle target : Value) (kid : String) : Option String := do
  if body.getStr "schema" != some "evd/export-manifest/v1" then none
  else
    let origin ← body.getStr "origin"
    if bundle.getStr "origin" != some origin || bodyStr target "origin" != some origin then none
    else
      let claimed ← body.getStr "target_checkpoint_hash"
      let actual ← checkpointBodyHash X target
      if claimed != actual then none
      else
        let ts ← body.getStr "ts"
        if bodyStr target "ts" != some ts || target.getStr "kid" != some kid then none else some ts

/-- The listed hashes are exactly the carried ones. -/
def manifestListMatches (X : Crates) (body : Value) (entries : List Value) : Bool :=
  match body.getArray "receipt_hashes" with
  | none => false
  | some listed =>
    if listed.length > maxEntries then false
    else match listed.mapM Value.asStr with
      | none => false
      | some claimed =>
        let carried := entries.filterMap fun e => (e.get "envelope").bind (receiptHashHex X)
        claimed.toFinset == carried.toFinset

/-- `none` is "no completeness claim carried".
mirrors verify-rs/src/lib.rs:863-885 -/
def checkExportManifest (X : Crates) (bundle : Value) (entries : List Value) (target : Value)
    (kl : KeyLog) : Option Bool := do
  let raw ← bundle.getSome "export_manifest"
  match (raw.get "body").filter Value.isObject, raw.getStr "kid", raw.getStr "sig" with
  | some body, some kid, some sigB64 =>
    match manifestTargetTime X body bundle target kid, kl.keys.lookup kid, canonicalChecked X body,
        X.b64Decode sigB64 with
    | some ts, some pubkey, some canon, some sig =>
      let size := (bodyU64 target "tree_size").getD 0
      some (!nonIssuer kl kid && keyActive kl kid ts size &&
        ed25519Verify X pubkey (pae exportManifestType canon) sig && manifestListMatches X body entries)
    | _, _, _, _ => some false
  | _, _, _ => some false

/-! ## The entry loop -/

/-- An entry is attested by a recorder whose key the trust context names, beside
its issuer.
mirrors verify-rs/src/lib.rs:1329-1343 -/
def entryRecorderAttested (X : Crates) (env : Value) (kl : KeyLog) (trust : Option Value) : Bool :=
  match env.getArray "signatures" with
  | none => false
  | some sigs =>
    if decide (sigs.length < 2) || sigs.all fun s => nonIssuer kl ((s.getStr "keyid").getD "") then false
    else sigs.any fun sig =>
      let kid := (sig.getStr "keyid").getD ""
      (kl.state.lookup kid).any (·.recorder) &&
        ((keyFor X trust "recorder_keys" (some kid)).bind toDigest).any fun pubkey =>
          kl.keys.lookup kid == some pubkey

/-- The verdict of the loop and the leaves it attested.
mirrors verify-rs/src/lib.rs:922-931 -/
def entriesLoop (X : Crates) (kl : KeyLog) (trust : Option Value) (size : UInt64) (root : Bytes)
    (covers : List (UInt64 × Int)) (tenant : String) : List Value → List UInt64 → Bool × List UInt64
  | [], attested => (true, attested)
  | e :: es, attested =>
    if !checkEntry X e kl size root covers tenant then (false, attested)
    else if entryRecorderAttested X (e.index "envelope") kl trust then
      match e.getU64 "leaf_index" with
      | none => (false, attested)
      | some leaf => entriesLoop X kl trust size root covers tenant es (attested ++ [leaf])
    else entriesLoop X kl trust size root covers tenant es attested

/-- All entries, in the order listed, with the leaves that a recorder has
attested.
mirrors verify-rs/src/lib.rs:916-932 -/
def checkEntries (X : Crates) (entries : List Value) (target : Value) (chain : List Value) (kl : KeyLog)
    (trust : Option Value) : Bool × List UInt64 :=
  let size := (bodyU64 target "tree_size").getD 0
  match hexToBytes ((bodyStr target "root_hash").getD ""), checkpointCoverDeadlines chain,
      (bodyStr target "origin").bind tenantFromOrigin with
  | some root, some covers, some tenant => entriesLoop X kl trust size root covers tenant entries []
  | _, _, _ => (false, [])

/-! ## Sequence numbers and lineage -/

/-- The agent, sequence number and hash of an entry whose body reads. -/
def seqKey (X : Crates) (e : Value) : Option ((String × Int) × String) := do
  let body ← (e.get "envelope").bind (bodyOf X)
  let rh ← (e.get "envelope").bind (receiptHashHex X)
  return (((body.getStr "agent_id").getD "", (body.getI64 "seq").getD (-1)), rh)

def seqLoop : List ((String × Int) × String) → AList (fun _ : String × Int => String) → Bool
  | [], _ => true
  | (k, rh) :: rest, pairs =>
    match pairs.lookup k with
    | some prev => if prev != rh then false else seqLoop rest pairs
    | none => seqLoop rest (pairs.insert k rh)

/-- No agent has two receipts of one number; the same receipt twice is no
matter.
mirrors verify-rs/src/lib.rs:934-957 -/
def checkSeqUniqueness (X : Crates) (entries : List Value) : Bool := seqLoop (entries.filterMap (seqKey X)) ∅

/-- The log's own agents, which have no lineage.
mirrors verify-rs/src/lib.rs:959-964 -/
def isInternalAgent (a : String) : Bool :=
  ["_system", "_grants", "_reports", "_detect", "_idem", "_authority", "_node", "_register"].contains a

structure LineageItem where
  action : String
  hash : String
  seq : Int
  ctx : Value

/-- The lineage item of an entry with its agent; internal agents have none. -/
def lineageItem (X : Crates) (e : Value) : Option (String × LineageItem) := do
  let body ← (e.get "envelope").bind (bodyOf X)
  let agent := (body.getStr "agent_id").getD ""
  if agent == "" || isInternalAgent agent then none
  else
    let rh ← (e.get "envelope").bind (receiptHashHex X)
    return (agent, ⟨(body.getStr "action_type").getD "", rh, (body.getI64 "seq").getD (-1),
      body.index "context"⟩)

/-- One list for each agent. An entry whose body reads has a hash, so the
source's `?` on it never fires.
mirrors verify-rs/src/lib.rs:968-985 -/
def collectLineage (X : Crates) (entries : List Value) : Table (List LineageItem) :=
  (entries.filterMap (lineageItem X)).foldl
    (fun t i => t.insert i.1 (((t.lookup i.1).getD []) ++ [i.2])) ∅

def isEstablishment (i : LineageItem) : Bool := i.action == "lineage.born" || i.action == "lineage.adopted"

/-- Without an establishment, a receipt may only name a revision that is
carried, if any is.
mirrors verify-rs/src/lib.rs:987-997 -/
def checkLineageOrphan (items : List LineageItem) (valid : List String) : Bool :=
  items.all fun i => (i.ctx.getStr "revision_id").all fun rv => valid.isEmpty || valid.contains rv

/-- With an establishment, every receipt names it and a revision that is
carried.
mirrors verify-rs/src/lib.rs:999-1020 -/
def checkLineageEstablished (items : List LineageItem) (valid : List String) (birth : LineageItem) : Bool :=
  !(birth.action == "lineage.born" && birth.seq != 1) &&
    items.all fun i => ((i.ctx.getStr "birthtag_id").all fun bt => bt == birth.hash) &&
      (i.ctx.getStr "revision_id").all fun rv => valid.contains rv

/-- The lineage of one agent. Two establishments are none.
mirrors verify-rs/src/lib.rs:1022-1038 -/
def checkAgentLineage (items : List LineageItem) : Bool :=
  let valid := (items.filter fun i => i.action == "lineage.revised" || isEstablishment i).map (·.hash)
  match items.filter isEstablishment with
  | [] => checkLineageOrphan items valid
  | [birth] => checkLineageEstablished items valid birth
  | _ => false

/-- Every agent of a bundle has a lineage that holds, taken by itself.
mirrors verify-rs/src/lib.rs:1040-1048 -/
def checkLineage (X : Crates) (entries : List Value) : Bool :=
  (collectLineage X entries).entries.all fun a => checkAgentLineage a.2

/-! ## What acceptance means -/

/-- What an accepted entry has been checked for. The leaf index is present:
its default is the largest `u64`, which no tree size exceeds. -/
structure Checked (X : Crates) (e : Value) (kl : KeyLog) (size : UInt64) (root payload : Bytes) (body : Value)
    (leaf : UInt64) (sigs : List Value) (proof : List Digest) : Prop where
  hleaf : e.getU64 "leaf_index" = some leaf
  hpayload : payloadOf X (e.index "envelope") = some payload
  hcanon : canonicalBody X payload = some body
  hbody : bodyOf X (e.index "envelope") = some body
  hsigs : (e.index "envelope").getArray "signatures" = some sigs
  hsigned : ∃ message, envelopeMessage X (e.index "envelope") = some message ∧
    ∀ s ∈ sigs, checkSig X message body leaf kl s = true
  hproof : proofHashes (e.get "inclusion_proof") = some proof
  hincluded : verifyInclusion X (X.sha256 (leafInput X payload)).val leaf size proof root = true

theorem verifyInclusion_lt {X : Crates} {h root : Bytes} {i n : UInt64} {proof : List Digest}
    (hv : verifyInclusion X h i n proof root = true) : i < n := by
  unfold verifyInclusion at hv
  split at hv
  · cases hv
  · rename_i hlt
    exact UInt64.not_le.mp hlt

theorem checkEntryInclusion_spec {X : Crates} {e : Value} {payload root : Bytes} {size : UInt64}
    (h : checkEntryInclusion X e payload size root = true) :
    ∃ leaf proof, e.getU64 "leaf_index" = some leaf ∧ proofHashes (e.get "inclusion_proof") = some proof ∧
      verifyInclusion X (X.sha256 (leafInput X payload)).val leaf size proof root = true := by
  unfold checkEntryInclusion at h
  dsimp only at h
  split at h
  · cases h
  · rename_i proof hproof
    cases hl : e.getU64 "leaf_index" with
    | none =>
      rw [hl] at h
      have hlt := UInt64.lt_iff_toNat_lt.mp (verifyInclusion_lt h)
      have := size.toNat_lt
      have hmax : ((none : Option UInt64).getD u64Max).toNat = 2 ^ 64 - 1 := by decide
      omega
    | some leaf =>
      rw [hl] at h
      exact ⟨leaf, proof, rfl, hproof, h⟩

theorem checkEntry_spec {X : Crates} {e : Value} {kl : KeyLog} {size : UInt64} {root : Bytes}
    {covers : List (UInt64 × Int)} {tenant : String}
    (h : checkEntry X e kl size root covers tenant = true) :
    ∃ payload body leaf sigs proof, Checked X e kl size root payload body leaf sigs proof := by
  unfold checkEntry at h
  dsimp only at h
  split at h
  · cases h
  split at h
  · cases h
  rename_i payload hpayload
  split at h
  · cases h
  rename_i body hbody
  split at h
  · cases h
  rename_i hvalid
  split at h
  · cases h
  split at h
  · cases h
  rename_i sigs hsigs
  split at h
  · cases h
  split at h
  · cases h
  rw [Bool.and_eq_true] at h
  obtain ⟨leaf, proof, hleaf, hproof, hinc⟩ := checkEntryInclusion_spec h.2
  have hs := h.1
  unfold checkEntrySigs at hs
  split at hs
  · cases hs
  rename_i message hmessage
  rw [hleaf, Option.getD_some, List.all_eq_true] at hs
  exact ⟨payload, body, leaf, sigs, proof, hleaf, hpayload, hbody,
    payload_body hpayload hbody (by simpa using hvalid), hsigs, ⟨message, hmessage, hs⟩, hproof, hinc⟩

/-- The verdict of the loop is every entry's verdict: the recorder branch
cannot fail, because an accepted entry has a leaf index. -/
theorem entriesLoop_ok {X : Crates} {kl : KeyLog} {trust : Option Value} {size : UInt64} {root : Bytes}
    {covers : List (UInt64 × Int)} {tenant : String} (es : List Value) :
    ∀ attested, (entriesLoop X kl trust size root covers tenant es attested).1 =
      es.all fun e => checkEntry X e kl size root covers tenant := by
  induction es with
  | nil => intro attested; rfl
  | cons e es ih =>
    intro attested
    unfold entriesLoop
    rw [List.all_cons]
    cases hc : checkEntry X e kl size root covers tenant with
    | false => rfl
    | true =>
      obtain ⟨_, _, leaf, _, _, hchecked⟩ := checkEntry_spec hc
      simp only [Bool.not_true, Bool.false_eq_true, if_false, Bool.true_and, hchecked.hleaf]
      split <;> exact ih _

theorem seqLoop_spec (l : List ((String × Int) × String)) :
    ∀ pairs, seqLoop l pairs = true →
      (∀ k rh rh', (k, rh) ∈ l → pairs.lookup k = some rh' → rh = rh') ∧
        ∀ k rh rh', (k, rh) ∈ l → (k, rh') ∈ l → rh = rh' := by
  induction l with
  | nil =>
    intro pairs _
    refine ⟨?_, ?_⟩ <;> intro k rh rh' hk <;> cases hk
  | cons x l ih =>
    obtain ⟨j, h⟩ := x
    intro pairs hrun
    -- the table after this pair holds the hash of its key
    obtain ⟨pairs', hj, hold, hrest⟩ : ∃ pairs', AList.lookup j pairs' = some h ∧
        (∀ k rh', pairs.lookup k = some rh' → pairs'.lookup k = some rh') ∧ seqLoop l pairs' = true := by
      unfold seqLoop at hrun
      split at hrun
      · rename_i prev hprev
        split at hrun
        · cases hrun
        · rename_i heq
          simp only [bne_iff_ne, ne_eq, not_not] at heq
          subst heq
          exact ⟨pairs, hprev, fun _ _ hk => hk, hrun⟩
      · rename_i hnone
        refine ⟨_, AList.lookup_insert _, ?_, hrun⟩
        intro k rh' hk
        have hne : k ≠ j := by rintro rfl; rw [hnone] at hk; cases hk
        rw [AList.lookup_insert_ne hne]; exact hk
    obtain ⟨h1, h2⟩ := ih pairs' hrest
    constructor
    · intro k rh rh' hk hl
      rcases List.mem_cons.mp hk with he | hk
      · cases he
        rw [hold _ _ hl] at hj; exact (Option.some.inj hj).symm
      · exact h1 k rh rh' hk (hold _ _ hl)
    · intro k rh rh' hk hk'
      rcases List.mem_cons.mp hk with he | hk <;> rcases List.mem_cons.mp hk' with he' | hk'
      · cases he; cases he'; rfl
      · cases he; exact (h1 _ _ _ hk' hj).symm
      · cases he'; exact h1 _ _ _ hk hj
      · exact h2 k rh rh' hk hk'

/-- One agent and sequence number, one receipt hash. -/
theorem checkSeqUniqueness_spec {X : Crates} {entries : List Value} (h : checkSeqUniqueness X entries = true)
    {e e' : Value} (he : e ∈ entries) (he' : e' ∈ entries) {k : String × Int} {rh rh' : String}
    (hk : seqKey X e = some (k, rh)) (hk' : seqKey X e' = some (k, rh')) : rh = rh' :=
  (seqLoop_spec _ _ h).2 k rh rh' (List.mem_filterMap.mpr ⟨e, he, hk⟩) (List.mem_filterMap.mpr ⟨e', he', hk'⟩)

end SwarrmVerify.L4.Entries

import SwarrmVerify.L2Merkle.Proofs
import SwarrmVerify.L3KeyLog.Keys

/-!
# Checkpoints and the checkpoint chain (`lib.rs`)

A checkpoint is a signed statement of the log: its size, its root, its time and
the hash of the checkpoint before it. A bundle presents the chain from the
first checkpoint to the target, with a consistency proof for each link. The
chain may be sparse; a link says that the second log extends the first, not
that nothing was between them.

`bodyStr` and `bodyU64` are the source's `cp.get("body").and_then(..)` reads;
the defaults (`""`, 0) stand where the source has its `unwrap_or`. A root that
decodes is never the default one (`root_present`).

The loop over the chain carries the last checkpoint it has accepted
(`chainLoop`), and what follows for the whole chain is by induction over it in
the modules that need it.

* `chainLoop_authority`: every checkpoint of an accepted chain is signed by an
  issuer active at its size and time.
-/
namespace SwarrmVerify.L4.Checkpoint
open SwarrmVerify.L1.Jcs SwarrmVerify.L2.Merkle SwarrmVerify.L3.Receipt SwarrmVerify.L3.Keys

def checkpointType : String := "application/vnd.evd.checkpoint.v1+json"

def receiptCheckpointSkewS : Int := 300

/-- `cp.get("body").and_then(|b| b.get(k)).and_then(Value::as_str)`. -/
def bodyStr (cp : Value) (k : String) : Option String := (cp.get "body").bind fun b => b.getStr k

/-- `cp.get("body").and_then(|b| b.get(k)).and_then(Value::as_u64)`. -/
def bodyU64 (cp : Value) (k : String) : Option UInt64 := (cp.get "body").bind fun b => b.getU64 k

/-! ## The model -/

/-- The hash of the body of a checkpoint, by which everything refers to it.
mirrors verify-rs/src/lib.rs:503-506 -/
def checkpointBodyHash (X : Crates) (cp : Value) : Option String := do
  let body ← cp.get "body"
  let canon ← canonicalChecked X body
  return hex (X.sha256 canon).val

/-- A carried proof is a list of 32-byte hex hashes; absent and null are the
empty proof.
mirrors verify-rs/src/lib.rs:594-600 -/
def proofHashes : Option Value → Option (List Digest)
  | none => some []
  | some .null => some []
  | some (.array items) => items.mapM fun x => (x.asStr.bind hexToBytes).bind toDigest
  | some _ => none

def checkpointMembers : List String := ["schema", "origin", "tree_size", "root_hash", "ts", "prev_hash", "alg"]

/-- A checkpoint signed by the key it names, over its closed and canonical body.
mirrors verify-rs/src/lib.rs:602-626 -/
def verifyCheckpointSig (X : Crates) (cp : Value) (keys : Table Digest) : Bool :=
  match cp.getStr "kid", cp.get "body", cp.getStr "sig" with
  | some kid, some body, some sigB64 =>
    match keys.lookup kid, body.asObject, X.b64Decode sigB64, canonicalChecked X body with
    | some pubkey, some object, some sig, some canon =>
      !(object.any fun m => !checkpointMembers.contains m.1) &&
        ((body.get "alg").all fun alg => alg.asStr == some "EdDSA") &&
        ed25519Verify X pubkey (pae checkpointType canon) sig
    | _, _, _, _ => false
  | _, _, _ => false

/-- The kid of a JWK whose material the log holds under that kid. -/
def listedKid (X : Crates) (kl : KeyLog) (jwk : Value) : Option String := do
  let (material, kid) ← keyFromJwk X jwk
  let logMaterial ← kl.keys.lookup kid
  if logMaterial = material then some kid else none

/-- Every JWKS key is in the log, and every key the log leaves unrevoked is in
the JWKS.
mirrors verify-rs/src/lib.rs:638-660 -/
def checkJwksMatchLog (X : Crates) (bundle : Value) (kl : KeyLog) : Bool :=
  match (bundle.get "jwks").bind fun j => j.getArray "keys" with
  | none => false
  | some jwks =>
    if jwks.isEmpty then false
    else match jwks.mapM (listedKid X kl) with
      | none => false
      | some listed => kl.state.entries.all fun e => e.2.revokedAt.isSome || listed.contains e.1

/-- The signer is an issuer active at the checkpoint's size and time.
mirrors verify-rs/src/lib.rs:666-669,716-721 -/
def checkpointAuthority (kl : KeyLog) (cp : Value) : Bool :=
  let ts := (bodyStr cp "ts").getD ""
  let size := (bodyU64 cp "tree_size").getD 0
  let kid := (cp.getStr "kid").getD ""
  !nonIssuer kl kid && keyActive kl kid ts size

/-- The target is signed by a key that may sign it at its time and size.
mirrors verify-rs/src/lib.rs:662-670 -/
def checkTargetCheckpoint (X : Crates) (target : Value) (kl : KeyLog) : Bool :=
  verifyCheckpointSig X target kl.keys && checkpointAuthority kl target

/-- Two neighbours of a chain are sizes of one growing tree, by the proof beside
the second.
mirrors verify-rs/src/lib.rs:672-681 -/
def checkChainConsistency (X : Crates) (prev cp entry : Value) (prevSize curSize : UInt64) : Bool :=
  match proofHashes (entry.get "consistency_from_prev"),
      hexToBytes ((bodyStr prev "root_hash").getD ""), hexToBytes ((bodyStr cp "root_hash").getD "") with
  | some proof, some pr, some cr => verifyConsistency X prevSize curSize pr cr proof
  | _, _, _ => false

/-- A checkpoint follows another: it names it by its hash, unless the chain is
sparse, and its tree grows from it.
mirrors verify-rs/src/lib.rs:683-704 -/
def checkChainLink (X : Crates) (prev cp entry : Value) (sparse : Bool) : Bool :=
  match checkpointBodyHash X prev with
  | none => false
  | some prevBh =>
    let curPrev := (bodyStr cp "prev_hash").getD ""
    let prevSize := (bodyU64 prev "tree_size").getD 0
    let curSize := (bodyU64 cp "tree_size").getD 0
    if (sparse && curPrev == "") || (!sparse && curPrev != prevBh) then false
    else if curSize < prevSize then false
    else if bodyStr prev "origin" != bodyStr cp "origin" then false
    else if decide (0 < prevSize) && !checkChainConsistency X prev cp entry prevSize curSize then false
    else true

/-- The loop of `check_checkpoint_chain` over each checkpoint and the chain
entry that carries it; the first has no predecessor. -/
def chainLoop (X : Crates) (kl : KeyLog) (sparse : Bool) : Option Value → List (Value × Value) → Bool
  | _, [] => true
  | prev, (cp, entry) :: rest =>
    verifyCheckpointSig X cp kl.keys && checkpointAuthority kl cp &&
      (prev.all fun p => checkChainLink X p cp entry sparse) && chainLoop X kl sparse (some cp) rest

/-- The chain starts where the log does and every link holds, each signed at its
own size.
mirrors verify-rs/src/lib.rs:706-727 -/
def checkCheckpointChain (X : Crates) (chain chainEntries : List Value) (kl : KeyLog) (sparse : Bool) : Bool :=
  (chain.head?.bind fun cp => bodyStr cp "prev_hash") == some "" &&
    chainLoop X kl sparse none (chain.zip chainEntries)

/-- The bundle, the target and every checkpoint of the chain are of one origin.
mirrors verify-rs/src/lib.rs:729-736 -/
def checkBundleOrigin (bundle target : Value) (chain : List Value) : Bool :=
  match bundle.getStr "origin" with
  | none => false
  | some origin =>
    bodyStr target "origin" == some origin && chain.all fun cp => bodyStr cp "origin" == some origin

/-- An unhashable checkpoint on either side is a mismatch.
mirrors verify-rs/src/lib.rs:738-742 -/
def chainHeadMatches (X : Crates) (chain : List Value) (target : Value) : Bool :=
  match chain.getLast?.bind (checkpointBodyHash X), checkpointBodyHash X target with
  | some head, some want => head == want
  | _, _ => false

/-- A checkpoint's size and the latest time of a receipt it covers. -/
def coverDeadline (cp : Value) : Option (UInt64 × Int) := do
  let size ← bodyU64 cp "tree_size"
  let ts ← bodyStr cp "ts"
  let micros ← utcEpochMicros ts
  return (size, micros + receiptCheckpointSkewS * 1000000)

/-- The sizes and the times of the chain, all readable.
mirrors verify-rs/src/lib.rs:904-914 -/
def checkpointCoverDeadlines (chain : List Value) : Option (List (UInt64 × Int)) := chain.mapM coverDeadline

abbrev CheckpointFacts := Table (String × UInt64)

/-- Body hash to time and size; a later duplicate replaces an earlier one.
mirrors verify-rs/src/lib.rs:1129-1137 -/
def checkpointFacts (X : Crates) (chain : List Value) : Option CheckpointFacts := do
  let facts ← chain.mapM fun cp => do
    let hash ← checkpointBodyHash X cp
    let ts ← bodyStr cp "ts"
    let size ← bodyU64 cp "tree_size"
    return (hash, ts, size)
  return facts.foldl (fun t f => t.insert f.1 f.2) ∅

/-! ## Reading an accepted chain -/

theorem mapM_eq_some {α β : Type} {f : α → Option β} {l : List α} {r : List β} :
    l.mapM f = some r ↔ l.map f = r.map some := by
  induction l generalizing r with
  | nil => cases r <;> simp
  | cons a l ih =>
    rw [List.mapM_cons]
    simp only [Option.bind_eq_bind, Option.bind_eq_some_iff, Option.pure_def, Option.some.injEq, ih]
    cases r with
    | nil => simp
    | cons b bs =>
      simp only [List.map_cons, List.cons.injEq]
      constructor
      · rintro ⟨c, hc, cs, hcs, rfl, rfl⟩; exact ⟨hc, hcs⟩
      · rintro ⟨hb, hbs⟩; exact ⟨b, hb, bs, hbs, rfl, rfl⟩

theorem mem_of_mapM {α β : Type} {f : α → Option β} {l : List α} {r : List β} (h : l.mapM f = some r)
    {a : α} (ha : a ∈ l) : ∃ b ∈ r, f a = some b := by
  have hmem := List.mem_map_of_mem (f := f) ha
  rw [mapM_eq_some.mp h] at hmem
  obtain ⟨b, hb, he⟩ := List.mem_map.mp hmem
  exact ⟨b, hb, he.symm⟩

theorem mem_mapM {α β : Type} {f : α → Option β} {l : List α} {r : List β} (h : l.mapM f = some r)
    {b : β} (hb : b ∈ r) : ∃ a ∈ l, f a = some b := by
  have hmem := List.mem_map_of_mem (f := some) hb
  rw [← mapM_eq_some.mp h] at hmem
  exact List.mem_map.mp hmem

theorem mapM_isSome {α β : Type} {f : α → Option β} {l : List α} (h : ∀ a ∈ l, ∃ b, f a = some b) :
    ∃ r, l.mapM f = some r := by
  induction l with
  | nil => exact ⟨[], rfl⟩
  | cons a l ih =>
    obtain ⟨b, hb⟩ := h a List.mem_cons_self
    obtain ⟨r, hr⟩ := ih fun x hx => h x (List.mem_cons_of_mem _ hx)
    exact ⟨b :: r, by simp [List.mapM_cons, hb, hr]⟩

/-- A root that decodes to a digest is present: `""` decodes to no bytes. -/
theorem root_present {o : Option String} {d : Digest} (h : hexToBytes (o.getD "") = some d.val) :
    o.bind hexToBytes = some d.val := by
  cases o with
  | none =>
    have hd := d.2
    have he : hexToBytes "" = some [] := rfl
    rw [Option.getD_none, he, Option.some.injEq] at h
    rw [← h] at hd; cases hd
  | some s => exact h

theorem root_getD {o : Option String} {b : Bytes} (h : o.bind hexToBytes = some b) :
    hexToBytes (o.getD "") = some b := by
  cases o with
  | none => cases h
  | some s => exact h

theorem chainLoop_authority {X : Crates} {kl : KeyLog} {sparse : Bool} {l : List (Value × Value)} :
    ∀ {prev : Option Value}, chainLoop X kl sparse prev l = true → ∀ p ∈ l,
      verifyCheckpointSig X p.1 kl.keys = true ∧ checkpointAuthority kl p.1 = true := by
  induction l with
  | nil => intro _ _ p hp; cases hp
  | cons q l ih =>
    intro prev h p hp
    simp only [chainLoop, Bool.and_eq_true] at h
    rcases List.mem_cons.mp hp with rfl | hp
    · exact h.1.1
    · exact ih h.2 p hp

end SwarrmVerify.L4.Checkpoint

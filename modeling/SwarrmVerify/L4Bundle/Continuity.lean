import SwarrmVerify.L4Bundle.Checkpoint

/-!
# Continuity assertions (`lib.rs`)

A sparse chain leaves out checkpoints. An operator may assert that an interval
between two presented checkpoints holds so many appended leaves;
`assessContinuity` says whether assertions are present, whether they cover
every elided interval, and how many intervals stay uncovered. The result is
reported and never gates the verdict.

An assertion of the first version is checked for its shape, its numbers and a
signature by a key of the log. One of the second version is bound to the target
besides: it names the hash of the checkpoint that gives its issuer authority.
The definitions follow the source one function at a time; what they amount to
together is the subject of `L5Guarantees.Tiling`.
-/
namespace SwarrmVerify.L4.Continuity
open SwarrmVerify.L1.Jcs SwarrmVerify.L3.Receipt SwarrmVerify.L3.Keys SwarrmVerify.L4.Checkpoint

/-- The hash that a body of the later version must carry.
mirrors verify-rs/src/lib.rs:555-557 -/
def continuityAuthorityHash (value : Option Value) : Bool := (value.bind Value.asStr).any lowerSha256

/-- The numbers of an assertion agree with each other, and its two ends differ.
mirrors verify-rs/src/lib.rs:575-580 -/
def continuitySelfConsistent (assertion : Value) : Bool :=
  match assertion.get "body" with
  | none => false
  | some b =>
    match b.getI64 "from_tree_size", b.getI64 "to_tree_size", b.getI64 "appended", b.getStr "from_hash",
        b.getStr "to_hash" with
    | some from_, some to_, some appended, some fh, some th =>
      let schema := b.getStr "schema"
      (schema == some "evd/continuity/v1" ||
        schema == some "evd/continuity/v2" && continuityAuthorityHash (b.get "authority_checkpoint_hash")) &&
        decide (0 ≤ from_) && decide (from_ ≤ to_) && appended == to_ - from_ && fh != th
    | _, _, _, _, _ => false

/-- The intervals the self-consistent assertions name. -/
def coveredIntervals (assertions : List Value) : List (String × String) :=
  (assertions.filter continuitySelfConsistent).filterMap fun a => do
    let b ← a.get "body"
    let from_ ← b.getStr "from_hash"
    let to_ ← b.getStr "to_hash"
    return (from_, to_)

/-- An elided interval no assertion covers; an unhashable end is one. -/
def isGap (X : Crates) (covered : List (String × String)) (first second : Value) : Bool :=
  match checkpointBodyHash X first, checkpointBodyHash X second with
  | some f, some s =>
    if bodyStr second "prev_hash" == some f then false else !covered.any fun c => c.1 == f && c.2 == s
  | _, _ => true

/-- The neighbours of the chain that no assertion covers.
mirrors verify-rs/src/lib.rs:511-530 -/
def continuityGaps (X : Crates) (chain assertions : List Value) : Nat :=
  (chain.zip chain.tail).countP fun pair => isGap X (coveredIntervals assertions) pair.1 pair.2

def continuityMembers : List String :=
  ["schema", "origin", "from_hash", "to_hash", "from_tree_size", "to_tree_size", "appended"]

/-- An assertion that counts: closed, of a known version, of this origin and
signed by a key of the log.
mirrors verify-rs/src/lib.rs:545-553 -/
def continuityAdmissible (X : Crates) (item : Value) (kl : KeyLog) (origin : Option Value) : Bool :=
  match item.asObject, (item.get "body").bind Value.asObject with
  | some outer, some body =>
    let issuerBound := (body.lookup "schema").bind Value.asStr == some "evd/continuity/v2"
    let authorityShape := !issuerBound || continuityAuthorityHash (body.lookup "authority_checkpoint_hash")
    let shaped := authorityShape && outer.length == 3 && body.length == (if issuerBound then 8 else 7) &&
      (continuityMembers.all fun m => Value.hasKey body m) &&
      (["from_tree_size", "to_tree_size", "appended"].all fun m => (body.lookup m).any Value.isU64) &&
      (["origin", "from_hash", "to_hash"].all fun m => ((body.lookup m).bind Value.asStr).any (· != ""))
    match (item.getStr "kid").bind kl.keys.lookup, (item.getStr "sig").bind X.b64Decode with
    | some key, some sig =>
      shaped && Value.eqvOpt (body.lookup "origin") origin && continuitySelfConsistent item &&
        (canonicalChecked X (item.index "body")).any fun canon => ed25519Verify X key canon sig
    | _, _ => false
  | _, _ => false

/-- Version 2 binds the interval to the issuer of the target checkpoint.
mirrors verify-rs/src/lib.rs:560-572 -/
def continuityAuthority (X : Crates) (item bundle : Value) (chain : List Value) (kl : KeyLog) : Bool :=
  let b := item.index "body"
  let find (hash : String) : Option Nat := chain.findIdx? fun cp => checkpointBodyHash X cp == some hash
  if b.getStr "schema" == some "evd/continuity/v1" then true
  else
    match b.getStr "authority_checkpoint_hash", item.getStr "kid", b.getStr "from_hash", b.getStr "to_hash" with
    | some hash, some kid, some first, some last =>
      match find hash, find first, find last with
      | some authority, some start, some stop =>
        let cp := chain.getD authority .null
        match (cp.index "body").getStr "ts", (cp.index "body").getU64 "tree_size" with
        | some ts, some size =>
          Value.eqv cp (bundle.index "target_checkpoint") && cp.getStr "kid" == some kid &&
            !nonIssuer kl kid && keyActive kl kid ts size && decide (start < stop) &&
            Value.eqv (((chain.getD start .null).index "body").index "tree_size") (b.index "from_tree_size") &&
            Value.eqv (((chain.getD stop .null).index "body").index "tree_size") (b.index "to_tree_size")
        | _, _ => false
      | _, _, _ => false
    | _, _, _, _ => false

/-- (present, ok, gaps). mirrors verify-rs/src/lib.rs:533-541 -/
def assessContinuity (X : Crates) (bundle : Value) (chain : List Value) (kl : KeyLog) : Bool × Bool × Nat :=
  match bundle.getSome "continuity" with
  | none => (false, true, continuityGaps X chain [])
  | some raw =>
    match raw.asArray with
    | none => (false, false, 0)
    | some items =>
      if !(items.all fun item => continuityAdmissible X item kl (bundle.get "origin") &&
          continuityAuthority X item bundle chain kl) then (!items.isEmpty, false, 0)
      else
        let gaps := continuityGaps X chain items
        (!items.isEmpty, items.isEmpty || gaps == 0, gaps)

end SwarrmVerify.L4.Continuity

import SwarrmVerify.L4Certificate.Certificate

/-!
# Transparency receipts (`cose.rs`, `scitt.rs`)

A certificate may carry a pack: the issuer's Signed Statement about it, the
receipt of a transparency service, the service's checkpoint and the policy that
names the service's keys. Statement and receipt are COSE_Sign1 envelopes; the
inclusion proof and the checkpoint of the receipt travel in its unprotected
header, which no signature covers, so that each has to be tied to something
that is signed.

* `verifySign1`: an envelope of a profile, with its headers and its payload.
* `verifiedScittPackKeys`: the keys that a policy signed by a local root names.
* `verifySignedCheckpoint`: the checkpoint under a key of the policy, with its
  body written again in canonical form.
* `verifyScittReceiptInner`: statement, receipt, checkpoint and inclusion.
* `verifier`: the certificate verifier with these functions.

What an accepted pack has shown is the subject of `L5Guarantees.Registered`;
nothing is proved in this module.
-/
namespace SwarrmVerify.L4.Scitt
open SwarrmVerify.L1.Jcs SwarrmVerify.L1.CborWire SwarrmVerify.L2.Merkle SwarrmVerify.L3.Receipt SwarrmVerify.L3.Keys
open SwarrmVerify.L4.Action

/-! ## COSE_Sign1 -/

/-- What a signature covers. mirrors verify-rs/src/cose.rs:49-53 -/
def sigStructure (protectedBytes : Bytes) (payload : Option Bytes) : Option Bytes :=
  canonicalCbor (.array [.text "Signature1", .bytes protectedBytes, .bytes [], .bytes (payload.getD [])])

/-- A verified envelope. mirrors verify-rs/src/cose.rs:57-62 -/
structure Sign1 where
  header : Cbor.Value
  unprotected : Cbor.Value
  payload : Option Bytes
  kid : String

/-- The bytes of the first entry of label 4 that has bytes. -/
def kidBytes (entry : Cbor.Value × Cbor.Value) : Option Bytes :=
  match entry with
  | (.integer i, .bytes b) => if i = 4 then some b else none
  | _ => none

/-- The key id of a header, if it is UTF-8.
mirrors verify-rs/src/cose.rs:64-74 -/
def kidOf (header : Cbor.Value) : Option String :=
  match header with
  | .map entries => (entries.findSome? kidBytes).bind fun b => String.fromUTF8? ⟨b.toArray⟩
  | _ => none

/-- The protected bytes, the unprotected header, the payload and the signature.
mirrors verify-rs/src/cose.rs:78-101 -/
def unpack (array : Cbor.Value) : Option (Bytes × Cbor.Value × Option Bytes × Bytes) :=
  match array with
  | .array [.bytes protectedBytes, .map unprotected, .null, .bytes signature] =>
    some (protectedBytes, .map unprotected, none, signature)
  | .array [.bytes protectedBytes, .map unprotected, .bytes payload, .bytes signature] =>
    some (protectedBytes, .map unprotected, some payload, signature)
  | _ => none

/-- Every slice has a length below `2^63`. -/
def decodeSlice (ciborium : Bytes → Option Cbor.Value) (data : Bytes) (maxDepth : Nat) : Option Cbor.Value :=
  if h : data.length < 2 ^ 63 then decodeCanonical ciborium ⟨data, h⟩ maxDepth else none

/-- A COSE_Sign1 taken apart, with the key it names, and its signature verified.
mirrors verify-rs/src/cose.rs:105-118 -/
def verifySign1 (X : Crates) (ciborium : Bytes → Option Cbor.Value) (cose : Bytes) (keys : Table Digest)
    (maxBytes maxDepth : Nat) : Option Sign1 :=
  if cose.length > maxBytes || cose.head? != some 0xd2 then none
  else do
    let array ← decodeSlice ciborium cose.tail maxDepth
    let (protectedBytes, unprotected, payload, signature) ← unpack array
    let header ← decodeSlice ciborium protectedBytes maxDepth
    let kid ← kidOf header
    let publicRaw ← keys.lookup kid
    let sigInput ← sigStructure protectedBytes payload
    if !ed25519Verify X publicRaw sigInput signature then none else some ⟨header, unprotected, payload, kid⟩

/-! ## Constants -/

def maxBytes : Nat := 65536
def maxDepth : Nat := 16
def maxAuditPath : Nat := 64

def checkpointSchema : String := "evd/checkpoint/v1"
def checkpointType : String := "application/vnd.evd.checkpoint.v1+json"
def packSchema : String := "evd/scitt-pack/v1"
def policySchema : String := "evd/registration-policy/v1"
def policyProfile : String := "scitt-action-profile-v1"
def statementCty : String := "application/vnd.swarrm.action-certificate+cbor"
def scopeDigestClaim : String := "evd_scope_digest"

def packFields : List String :=
  ["schema", "certificate_id", "signed_statement", "receipt", "checkpoint", "registration_policy", "ts_jwks"]

def packOptionalFields : List String := ["anchor_record", "tst_record"]

def policyFields : List String :=
  ["schema", "policy_version", "ts_origin", "accepted_profiles", "max_statement_bytes", "ts_keys", "signature"]

def checkpointFields : List String := ["schema", "origin", "tree_size", "root_hash", "ts", "prev_hash"]

def checkpointOptionalFields : List String := ["alg"]

/-! ## Reading -/

/-- An object with all required members and no others but the optional ones.
mirrors verify-rs/src/scitt.rs:38-42 -/
def objectFields (value : Value) (required optional : List String) : Option (List (String × Value)) := do
  let object ← value.asObject
  if required.all (Value.hasKey object) && object.all (fun m => required.contains m.1 || optional.contains m.1) then
    some object
  else none

/-- A text that is the base64 of its bytes, and not merely decodes to them.
mirrors verify-rs/src/scitt.rs:44-47 -/
def strictB64 (X : Crates) (value : String) : Option Bytes := do
  let raw ← X.b64Decode value
  if X.b64Encode raw = value then some raw else none

/-- The encoding that an envelope is signed over: both lengths before both
texts.
mirrors verify-rs/src/scitt.rs:49-53 -/
def pae (payloadType : String) (payload : Bytes) : Bytes :=
  utf8 ("DSSEv1 " ++ toString (utf8 payloadType).length ++ " " ++ payloadType ++ " " ++ toString payload.length ++
    " ") ++ payload

/-- The value of an integer key of a map.
mirrors verify-rs/src/scitt.rs:83-86 -/
def imap (v : Cbor.Value) (key : Int) : Option Cbor.Value :=
  match v with
  | .map m => (m.find? fun e => match e.1 with
    | .integer i => i == key
    | _ => false).map Prod.snd
  | _ => none

/-- The value of a text key of a map. mirrors verify-rs/src/scitt.rs:88-91 -/
def tmap (body : Cbor.Value) (key : String) : Option Cbor.Value :=
  match body with
  | .map m => (m.find? fun e => match e.1 with
    | .text t => t == key
    | _ => false).map Prod.snd
  | _ => none

/-- An integer within `u64`. mirrors verify-rs/src/scitt.rs:97-102 -/
def asUint (v : Cbor.Value) : Option UInt64 :=
  match v with
  | .integer i => if 0 ≤ i ∧ i < 2 ^ 64 then some (UInt64.ofNat i.toNat) else none
  | _ => none

/-- mirrors verify-rs/src/scitt.rs:104-109 -/
def asInt (v : Cbor.Value) : Option Int :=
  match v with
  | .integer i => some i
  | _ => none

/-- mirrors verify-rs/src/scitt.rs:111-116 -/
def asText (v : Cbor.Value) : Option String :=
  match v with
  | .text t => some t
  | _ => none

/-- mirrors verify-rs/src/scitt.rs:93-95 -/
def btext (body : Cbor.Value) (key : String) : Option String := (tmap body key).bind asText

/-- mirrors verify-rs/src/scitt.rs:118-123 -/
def mapLen (v : Cbor.Value) : Option Nat :=
  match v with
  | .map m => some m.length
  | _ => none

/-- The digits of 32 bytes, in lower case.
mirrors verify-rs/src/scitt.rs:125-127 -/
def hex32 (s : String) : Bool :=
  (utf8 s).length == 64 && (utf8 s).all fun b => asciiDigit b || (97 ≤ b && b ≤ 102)

/-! ## Profiles -/

/-- The admitted `alg`, if there is one.
mirrors verify-rs/src/scitt.rs:129-135 -/
def checkpointAlgorithm (body : Cbor.Value) : Option (Option String) :=
  match tmap body "alg" with
  | none => some none
  | some (.text value) => if value == "EdDSA" then some (some value) else none
  | some _ => none

/-- A statement of the profile: over the identifier of the certificate, with
exactly the headers it must have.
mirrors verify-rs/src/scitt.rs:137-151 -/
def statementProfile (stmt : Sign1) (cid : Bytes) (certificateId : String) : Bool :=
  if stmt.payload != some cid || cid.length != 32 || !hex32 certificateId then false
  else if mapLen stmt.unprotected != some 0 || mapLen stmt.header != some 4 then false
  else if (imap stmt.header 1).bind asInt != some (-8) || (imap stmt.header 3).bind asText != some statementCty then
    false
  else match imap stmt.header 15 with
    | none => false
    | some claims =>
      let scope := (tmap claims scopeDigestClaim).bind asText
      let expectedClaims := if scope.isSome then 3 else 2
      mapLen claims == some expectedClaims && ((imap claims 1).bind asText).any (fun s => s != "") &&
        (imap claims 2).bind asText == some certificateId && scope.all hex32

/-- A receipt of the profile: of the one proof type, over a hash.
mirrors verify-rs/src/scitt.rs:155-157 -/
def receiptProfile (receipt : Sign1) : Bool :=
  mapLen receipt.header == some 3 && (imap receipt.header 1).bind asInt == some (-8) &&
    (imap receipt.header 395).bind asInt == some 1 && receipt.payload.any fun p => p.length == 32

/-! ## Checkpoints -/

/-- The body as JSON, its root in hex and its size.
mirrors verify-rs/src/scitt.rs:167-189 -/
def checkpointBody (body : Cbor.Value) : Option (Value × String × UInt64) := do
  let algorithm ← checkpointAlgorithm body
  let schema ← btext body "schema"
  if schema != checkpointSchema || mapLen body != some (6 + if algorithm.isSome then 1 else 0) then none
  else
    let rootHex ← btext body "root_hash"
    let treeSize ← (tmap body "tree_size").bind asUint
    let origin ← btext body "origin"
    let ts ← btext body "ts"
    let prevHash ← btext body "prev_hash"
    let alg := match algorithm with
      | none => []
      | some value => [("alg", Value.string value)]
    return (.object (alg ++ [("origin", .string origin), ("prev_hash", .string prevHash),
      ("root_hash", .string rootHex), ("schema", .string checkpointSchema), ("tree_size", .number (.posInt treeSize)),
      ("ts", .string ts)]), rootHex, treeSize)

/-- The body, its hash, the root and the size.
mirrors verify-rs/src/scitt.rs:191-195 -/
def checkpoint (X : Crates) (unprotected : Cbor.Value) : Option (Value × String × Bytes × UInt64) := do
  let body ← imap unprotected (-2)
  let (obj, rootHex, treeSize) ← checkpointBody body
  let canon ← canonicalChecked X obj
  let root ← hexToBytes rootHex
  return (obj, hex (X.sha256 canon).val, root, treeSize)

/-- A checkpoint as JSON, closed and with all its members in their types.
mirrors verify-rs/src/scitt.rs:197-206 -/
def checkpointJsonBody (body : Value) : Bool :=
  (objectFields body checkpointFields checkpointOptionalFields).isSome &&
    ((body.get "alg").all fun value => value.asStr == some "EdDSA") &&
    body.getStr "schema" == some checkpointSchema && (body.getStr "origin").isSome &&
    (body.getU64 "tree_size").isSome && (body.getStr "root_hash").isSome && (body.getStr "ts").isSome &&
    (body.getStr "prev_hash").isSome

/-- A checkpoint signed under a key of the service, of the origin that is
expected if one is.
mirrors verify-rs/src/scitt.rs:211-223 -/
def verifySignedCheckpoint (X : Crates) (checkpoint : Value) (keys : Table Digest) (expectedOrigin : Option String) :
    Bool :=
  if (objectFields checkpoint ["body", "kid", "sig"] []).isNone then false
  else match (checkpoint.get "body").filter checkpointJsonBody with
    | none => false
    | some body =>
      if expectedOrigin.any fun origin => body.getStr "origin" != some origin then false
      else match (checkpoint.getStr "kid").bind keys.lookup, (checkpoint.getStr "sig").bind (strictB64 X),
          canonicalChecked X body with
        | some key, some signature, some canonical => ed25519Verify X key (pae checkpointType canonical) signature
        | _, _, _ => false

/-! ## The policy -/

/-- A registration policy of the profile, closed and with room for the
statement.
mirrors verify-rs/src/scitt.rs:225-228 -/
def policyShape (policy : Value) (statementBytes : Nat) : Bool :=
  (objectFields policy policyFields []).isSome && policy.getStr "schema" == some policySchema &&
    Value.eqvOpt (policy.get "accepted_profiles") (some (.array [.string policyProfile])) &&
    ((policy.getU64 "max_statement_bytes").any fun limit =>
      decide (statementBytes ≤ limit.toNat) && decide (limit.toNat ≤ maxBytes)) &&
    ((policy.getStr "policy_version").any fun value => value != "") &&
    (policy.getStr "ts_origin").any fun value => value != ""

/-- What the signature of a policy covers. -/
def unsignedPolicy (members : List (String × Value)) : Value := .object (members.filter fun m => m.1 != "signature")

/-- A policy signed under a trusted root, over itself without the signature.
mirrors verify-rs/src/scitt.rs:230-236 -/
def policySignatureValid (X : Crates) (policy : Value) (trustedRoots : Table Digest) : Bool :=
  match (policy.getStr "signature").bind (strictB64 X), policy.asObject with
  | some signature, some members =>
    (canonicalChecked X (unsignedPolicy members)).any fun canonical =>
      trustedRoots.entries.any fun root => ed25519Verify X root.2 canonical signature
  | _, _ => false

/-- A key that a policy lists, under its own kid in both places.
mirrors verify-rs/src/scitt.rs:238-244 -/
def policyKey (X : Crates) (entry : Value) : Option (Value × String × Digest) := do
  let _ ← objectFields entry ["kid", "jwk"] []
  let jwk ← entry.get "jwk"
  let _ ← objectFields jwk ["alg", "crv", "kid", "kty", "use", "x"] []
  let (raw, derived) ← keyFromJwk X jwk
  if entry.getStr "kid" == some derived && jwk.getStr "kid" == some derived then some (jwk, derived, raw) else none

/-- The keys that a pack carries, as many as the policy lists.
mirrors verify-rs/src/scitt.rs:246-250 -/
def carriedTsJwks (pack : Value) (expected : Nat) : Option (List Value) := do
  let jwks ← pack.get "ts_jwks"
  let object ← objectFields jwks ["keys"] []
  let carried ← (object.lookup "keys").bind Value.asArray
  if carried.length = expected then some carried else none

/-- One more key of the service. The pack must carry it as the policy lists it,
and no kid may repeat.
mirrors verify-rs/src/scitt.rs:252-255 -/
def insertPolicyKey (X : Crates) (keys : Table Digest) (entry carriedJwk : Value) : Option (Table Digest) := do
  let (jwk, kid, raw) ← policyKey X entry
  if Value.eqv carriedJwk jwk && (keys.lookup kid).isNone then some (keys.insert kid raw) else none

/-- The keys of the service, which the policy lists and the pack carries in the
same order.
mirrors verify-rs/src/scitt.rs:257-266 -/
def policyTsKeys (X : Crates) (policy pack : Value) : Option (Table Digest) := do
  let entries ← policy.getArray "ts_keys"
  if !(1 ≤ entries.length && entries.length ≤ 64) then none
  else
    let carried ← carriedTsJwks pack entries.length
    (entries.zip carried).foldlM (fun keys pair => insertPolicyKey X keys pair.1 pair.2) ∅

/-- The keys of the service that a pack proves: by its policy, which a trusted
root signed for statements of this size.
mirrors verify-rs/src/scitt.rs:271-279 -/
def verifiedScittPackKeys (X : Crates) (pack : Value) (trustedRoots : Table Digest) (signedStatement : Bytes) :
    Option (Table Digest) := do
  let object ← objectFields pack packFields packOptionalFields
  if (object.lookup "schema").bind Value.asStr != some packSchema then none
  else
    let policy ← object.lookup "registration_policy"
    if !(policyShape policy signedStatement.length && policySignatureValid X policy trustedRoots) then none
    else
      let keys ← policyTsKeys X policy pack
      let origin ← policy.getStr "ts_origin"
      let checkpoint ← object.lookup "checkpoint"
      if verifySignedCheckpoint X checkpoint keys (some origin) then some keys else none

/-! ## Receipts -/

def pathHash (h : Cbor.Value) : Option Digest :=
  match h with
  | .bytes b => toDigest b
  | _ => none

/-- The size, the index and the path of the inclusion proof.
mirrors verify-rs/src/scitt.rs:282-299 -/
def inclusion (unprotected : Cbor.Value) : Option (UInt64 × UInt64 × List Digest) :=
  match (imap unprotected 396).bind fun proofs => imap proofs (-1) with
  | some (.array [size, index, .array raw]) => do
    let treeSize ← asUint size
    let leafIndex ← asUint index
    if raw.length > maxAuditPath then none
    else
      let path ← raw.mapM pathHash
      return (treeSize, leafIndex, path)
  | _ => none

/-- The checkpoint of a receipt, which it signs by the hash of its body. If
another is expected, it is this one.
mirrors verify-rs/src/scitt.rs:301-308 -/
def receiptCheckpoint (X : Crates) (rcpt : Sign1) (tsKeys : Table Digest) (expectedCheckpoint : Option Value) :
    Option (Bytes × UInt64) := do
  let (inner, bodyHash, root, treeSize) ← checkpoint X rcpt.unprotected
  if rcpt.payload.map hex != some bodyHash then none
  else match expectedCheckpoint with
    | none => some (root, treeSize)
    | some outer =>
      if Value.eqvOpt (outer.get "body") (some inner) && verifySignedCheckpoint X outer tsKeys none then
        some (root, treeSize)
      else none

/-- A statement of the issuer about the certificate, registered by the service:
a receipt, a checkpoint and a path from the one to the other.
mirrors verify-rs/src/scitt.rs:310-338 -/
def verifyScittReceiptInner (X : Crates) (ciborium : Bytes → Option Cbor.Value) (signedStatement receipt : Bytes)
    (tsKeys issuerKeys : Table Digest) (certificateId : String) (expectedCheckpoint : Option Value) : Bool :=
  if !hex32 certificateId then false
  else match hexToBytes certificateId, verifySign1 X ciborium signedStatement issuerKeys maxBytes maxDepth with
    | some cid, some stmt =>
      if !statementProfile stmt cid certificateId then false
      else match verifySign1 X ciborium receipt tsKeys maxBytes maxDepth with
        | none => false
        | some rcpt =>
          if !receiptProfile rcpt then false
          else match receiptCheckpoint X rcpt tsKeys expectedCheckpoint, inclusion rcpt.unprotected with
            | some (root, checkpointSize), some (treeSize, leafIndex, path) =>
              if treeSize != checkpointSize || leafIndex ≥ treeSize then false
              else
                let leaf := X.sha256 (0x00 :: (X.sha256 signedStatement).val)
                verifyInclusion X leaf.val leafIndex treeSize path root
            | _, _ => false
    | _, _ => false

/-- The same, against a checkpoint that came beside the receipt.
mirrors verify-rs/src/scitt.rs:349-351 -/
def verifyScittReceiptWithCheckpoint (X : Crates) (ciborium : Bytes → Option Cbor.Value)
    (signedStatement receipt : Bytes) (tsKeys issuerKeys : Table Digest) (certificateId : String)
    (expectedCheckpoint : Value) : Bool :=
  verifyScittReceiptInner X ciborium signedStatement receipt tsKeys issuerKeys certificateId (some expectedCheckpoint)

/-- The certificate verifier; a pack has one local root. -/
def verifier (E : Engine) (ciborium : Bytes → Option Cbor.Value) : Certificate.Verifier where
  toEngine := E
  ciborium := ciborium
  scittPackKeys pack root ss := verifiedScittPackKeys E.toCrates pack (AList.singleton "" root) ss
  scittReceipt := verifyScittReceiptWithCheckpoint E.toCrates ciborium

end SwarrmVerify.L4.Scitt

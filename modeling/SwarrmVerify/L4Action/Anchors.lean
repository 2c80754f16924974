import SwarrmVerify.L4Action.Values
import SwarrmVerify.L3KeyLog.Receipt

/-!
# Signatures under named keys (`trust.rs`)

A favourable value needs a signature or MAC that verifies under a key the
relying party named: over domain-separated canonical JSON, or over the body of
a disclosed webhook delivery. A trust context is a JSON object with a table for
each category of keys; a name that is not in the table of its category has no
key, whatever other tables say.

The functions are the source's, in its order. `verified` checks a document
under the domain of its kind, with its own signature left out; `macVerified` is
its twin for shared secrets; `sourceWebhookVerified` takes a delivery apart,
reads the signed body with the strict reader, and compares what it discloses
with what the proof claims of it.
-/
namespace SwarrmVerify.L4.Action
open SwarrmVerify.L1.Jcs SwarrmVerify.L3.Receipt SwarrmVerify.L4.Trust

def sourceWebhookSignatureContext : String := "evd/source-webhook-body-jcs/v1"

def maxSourceProofMaterialBytes : Nat := 1024 * 1024

def maxSourceProofTotalBytes : Nat := 8 * 1024 * 1024

def maxJsonNumberTokenBytes : Nat := 128

/-! ## Documents signed under a domain -/

/-- What a proof signs: the payload without its signature members, under its
domain.
mirrors verify-rs/src/trust.rs:72-85 -/
def signedBytes (X : Crates) (domain : String) (payload : Value) : Option Bytes := do
  let members ← payload.asObject
  let stripped := members.filter fun p => p.1 != "signature" && !endsWith p.1 "_sig"
  let canon ← canonicalIntegerChecked X (.object stripped)
  return utf8 "evd/v1/" ++ utf8 domain ++ 0 :: canon

/-- A signature with the message it is over. The material is decoded strictly.
mirrors verify-rs/src/trust.rs:88-91 -/
def signedProof (X : Crates) (payload : Value) (domain : String) : Option (Bytes × Bytes) := do
  if !payload.isObject then none
  else
    let signature ← decodeMaterial X (payload.get "signature")
    let message ← signedBytes X domain payload
    return (signature, message)

/-- A proof is signed under a key of the category, named by the payload. Without
a trust context no category has a key.
mirrors verify-rs/src/trust.rs:96-101 -/
def verified (X : Crates) (trust : Option Value) (category : String) (name : Option String) (domain : String)
    (payload : Value) : Bool :=
  match (keyFor X trust category name).bind toDigest, signedProof X payload domain with
  | some pubkey, some (sig, msg) => ed25519Verify X pubkey msg sig
  | _, _ => false

/-! ## Message authentication codes -/

/-- The keyed code over SHA-256, written out as in the source.
mirrors verify-rs/src/trust.rs:104-126 -/
def hmacSha256 (X : Crates) (key msg : Bytes) : Digest :=
  let short := if key.length > 64 then (X.sha256 key).val else key
  let block := short ++ List.replicate (64 - short.length) 0
  X.sha256 (block.map (0x5c ^^^ ·) ++ (X.sha256 (block.map (0x36 ^^^ ·) ++ msg)).val)

/-- Equality without an early end; as a function it is equality.
mirrors verify-rs/src/trust.rs:128-133 -/
def ctEq (a b : Bytes) : Bool :=
  if a.length != b.length then false
  else (a.zip b).foldl (fun acc p => acc ||| (p.1 ^^^ p.2)) 0 == 0

/-- A proof carries the code of a shared secret of the trust context.
mirrors verify-rs/src/trust.rs:137-141 -/
def macVerified (X : Crates) (trust : Option Value) (name : Option String) (domain : String)
    (payload : Value) : Bool :=
  match keyFor X trust "mac_keys" name, signedProof X payload domain with
  | some secret, some (mac, msg) => ctEq (hmacSha256 X secret msg).val mac
  | _, _ => false

/-! ## Strict JSON -/

/-- `str::parse::<u64>`. -/
def parseU64 (token : Bytes) : Option Nat :=
  let digits := match token with
    | 43 :: rest => rest
    | other => other
  if digits.isEmpty then none else (decimal digits).filter (· < 2 ^ 64)

/-- A number token that is short and, if it is an integer, exact.
mirrors verify-rs/src/trust.rs:229-231 -/
def jsonNumberTokenOk (token : Bytes) : Bool :=
  let magnitude := match token with
    | 45 :: rest => rest
    | other => other
  decide (token.length ≤ maxJsonNumberTokenBytes) &&
    ((token.any fun b => b == 46 || b == 69 || b == 101) ||
      (parseU64 magnitude).any fun n => decide ((n : Int) ≤ maxSafeInteger))

def numberTokenByte (b : UInt8) : Bool :=
  b == 43 || b == 45 || b == 46 || b == 69 || b == 101 || asciiDigit b

/-- What the byte loop keeps: within a string, after a backslash, and the
number token read so far. -/
structure Lexer where
  inString : Bool := false
  escaped : Bool := false
  token : Option Bytes := none

/-- A byte outside a string and outside a number. -/
def lexStart (b : UInt8) : Lexer :=
  if b == 34 then { inString := true }
  else if b == 45 || asciiDigit b then { token := some [b] }
  else {}

/-- One byte; `none` is a number out of range.
mirrors verify-rs/src/trust.rs:235-260 -/
def lexStep (l : Lexer) (b : UInt8) : Option Lexer :=
  if l.inString then
    if l.escaped then some { l with escaped := false }
    else if b == 92 then some { l with escaped := true }
    else if b == 34 then some { l with inString := false }
    else some l
  else match l.token with
    | some token =>
      if numberTokenByte b then some { l with token := some (token ++ [b]) }
      else if jsonNumberTokenOk token then some (lexStart b)
      else none
    | none => some (lexStart b)

/-- Every number token of a text is bounded, strings left out. It comes before
any parser.
mirrors verify-rs/src/trust.rs:233-262 -/
def jsonNumbersLexicallyBounded (raw : Bytes) : Bool :=
  (raw.foldlM lexStep {}).any fun l => !l.inString && l.token.all jsonNumberTokenOk

mutual
/-- The visitor: exact integers, finite floats, no repeated member.
mirrors verify-rs/src/trust.rs:143-227 -/
def strictValue : Value → Option Value
  | .number (.posInt n) => if (n.toNat : Int) ≤ maxSafeInteger then some (.number (.posInt n)) else none
  | .number (.negInt i) => if -maxSafeInteger ≤ i.toInt then some (.number (.negInt i)) else none
  | .number (.float f) => if f.isFinite then some (.number (.float f)) else none
  | .array xs => (strictItems xs).map .array
  | .object m => (strictMembers m []).map .object
  | v => some v
def strictItems : List Value → Option (List Value)
  | [] => some []
  | x :: xs => do
    let y ← strictValue x
    let ys ← strictItems xs
    return y :: ys
def strictMembers : List (String × Value) → List (String × Value) → Option (List (String × Value))
  | [], out => some out
  | (k, x) :: m, out =>
    if Value.hasKey out k then none
    else match strictValue x with
      | none => none
      | some y => strictMembers m (setMember out k y)
end

/-- A text is read strictly: bounded numbers, no repeated key, and no deeper
than the limit.
mirrors verify-rs/src/trust.rs:264-270 -/
def strictJson (E : Engine) (raw : Bytes) : Option Value :=
  if !jsonNumbersLexicallyBounded raw then none
  else ((E.visit raw).bind strictValue).filter fun v => !depthExceeds v L1.Jcs.maxDepth

/-! ## Webhook deliveries -/

/-- The material of a delivery, if it is what the digest beside it says.
mirrors verify-rs/src/trust.rs:283-295 -/
def sourceWebhookMaterial (X : Crates) (payload : Value) : Option Bytes := do
  if payload.getStr "signature_context" != some sourceWebhookSignatureContext then none
  else
    let material ← (payload.getStr "material").bind (decodeB64 X)
    if material.isEmpty || decide (material.length > maxSourceProofMaterialBytes) then none
    else if payload.getStr "material_digest" != some (hex (X.sha256 material).val) then none
    else some material

/-- An envelope of a delivery with exactly its members, naming the key.
mirrors verify-rs/src/trust.rs:297-299 -/
def sourceEnvelopeClosed (envelope : List (String × Value)) (name : Option String) : Bool :=
  envelope.length == 3 && (["body", "kid", "signature"].all fun k => Value.hasKey envelope k) &&
    ((envelope.lookup "body").any Value.isObject) && (envelope.lookup "kid").bind Value.asStr == name

/-- The signature and the message it is over.
mirrors verify-rs/src/trust.rs:301-312 -/
def sourceWebhookStatement (E : Engine) (name : Option String) (payload : Value) : Option (String × Bytes) := do
  let material ← sourceWebhookMaterial E.toCrates payload
  let delivery ← strictJson E material
  if depthExceeds delivery 16 then none
  else
    let envelope ← delivery.asObject
    if !sourceEnvelopeClosed envelope name then none
    else
      let signature ← (envelope.lookup "signature").bind Value.asStr
      let message ← canonicalIntegerChecked E.toCrates ((envelope.lookup "body").getD .null)
      return (signature, message)

/-- A delivery signed under a key of the source.
mirrors verify-rs/src/trust.rs:314-319 -/
def sourceWebhookEd25519 (X : Crates) (trust : Option Value) (name : Option String) (signature : String)
    (message : Bytes) : Bool :=
  match (keyFor X trust "source_keys" name).bind toDigest, decodeB64 X signature with
  | some pubkey, some sig => ed25519Verify X pubkey message sig
  | _, _ => false

/-- A delivery with the code of a shared secret, in lower-case digits.
mirrors verify-rs/src/trust.rs:321-325 -/
def sourceWebhookMac (X : Crates) (trust : Option Value) (name : Option String) (signature : String)
    (message : Bytes) : Bool :=
  match keyFor X trust "mac_keys" name, hexToBytes signature with
  | some secret, some mac =>
    mac.length == 32 && hex mac == signature && ctEq (hmacSha256 X secret message).val mac
  | _, _ => false

/-- A delivery verifies by the scheme of its family, over the body it was
delivered in.
mirrors verify-rs/src/trust.rs:274-281 -/
def sourceWebhookVerified (E : Engine) (trust : Option Value) (name algorithmFamily : Option String)
    (payload : Value) : Bool :=
  match sourceWebhookStatement E name payload with
  | none => false
  | some (signature, message) =>
    if payload.getStr "proof_type" == some "asymmetric_signature" && algorithmFamily == some "ed25519" then
      sourceWebhookEd25519 E.toCrates trust name signature message
    else if payload.getStr "proof_type" == some "mac" && algorithmFamily == some "hmac-sha256" then
      sourceWebhookMac E.toCrates trust name signature message
    else false

end SwarrmVerify.L4.Action

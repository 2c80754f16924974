import SwarrmVerify.L1Encoding.Jcs

/-!
# Receipts, envelopes and keys (`lib.rs`)

A receipt travels as a DSSE envelope: a base64 payload, its type and up to nine
signatures over their pre-authentication encoding. The payload must be the
canonical JSON of a receipt body, so it is read, written again and compared.
The hash of a receipt is that of its payload, without signatures: the same
receipt signed by others is the same receipt.

A body is checked against the text profiles of its fields, and against the
tenant of the bundle where there is one. A key is read from a JWK, whose `kid`,
if it has one, must be the one of the key.

* `receiptBodyValid_none`: a body valid for a tenant is a valid body.
* `kid_of_keyFromJwk`, `kid_of_claimed`: the kid of a JWK is the one of its key.
* `bodyOf_eq_some`, `payload_body`: what an envelope whose body reads carries.
-/
namespace SwarrmVerify.L3.Receipt
open SwarrmVerify.L1.Jcs

def receiptType : String := "application/vnd.evd.receipt.v1+json"

def receiptSchema : String := "evd/receipt/v1"

def receiptMaxParents : Nat := 32

/-! ## Keys and signatures -/

/-- The DSSE pre-authentication encoding.
mirrors verify-rs/src/lib.rs:110-121 -/
def pae (payloadType : String) (payload : Bytes) : Bytes :=
  utf8 "DSSEv1 " ++ utf8 (toString (utf8 payloadType).length) ++ 32 :: utf8 payloadType ++
    32 :: utf8 (toString payload.length) ++ 32 :: payload

/-- Base64 for URLs without padding, over its alphabet only; the empty text is
none.
mirrors verify-rs/src/lib.rs:123-128 -/
def b64urlDecode (X : Crates) (s : String) : Option Bytes :=
  let b := utf8 s
  if b.isEmpty || b.length % 4 == 1 || !b.all (fun c => asciiAlphanumeric c || c == 45 || c == 95) then none
  else X.b64urlDecode s

/-- The bytes of an Ed25519 key in its JSON form.
mirrors verify-rs/src/lib.rs:130-141 -/
def jwkRawKey (X : Crates) (jwk : Value) : Option Digest := do
  let kty ← jwk.getStr "kty"
  let crv ← jwk.getStr "crv"
  if kty != "OKP" || crv != "Ed25519" then none
  else
    let x ← jwk.getStr "x"
    let raw ← b64urlDecode X x
    toDigest raw

/-- The raw key of a JWK and its kid; a `kid` member that is neither absent,
null nor that kid rejects the key.
mirrors verify-rs/src/lib.rs:144-163 -/
def keyFromJwk (X : Crates) (jwk : Value) : Option (Digest × String) := do
  let k ← jwkRawKey X jwk
  let kid := String.ofList ((X.b64urlEncode (X.sha256 k.val).val).toList.take 16)
  match jwk.get "kid" with
  | none => some (k, kid)
  | some .null => some (k, kid)
  | some (.string claimed) => if claimed == kid then some (k, kid) else none
  | some _ => none

/-- A signature of 64 bytes under a key. mirrors verify-rs/src/lib.rs:165-173 -/
def ed25519Verify (X : Crates) (pubkey : Digest) (msg sig : Bytes) : Bool :=
  sig.length == 64 && X.ed25519 pubkey msg sig

/-- The payload of an envelope, as bytes; every hash and every signature is over
these.
mirrors verify-rs/src/lib.rs:190-192 -/
def payloadOf (X : Crates) (env : Value) : Option Bytes := (env.getStr "payload").bind X.b64Decode

/-- What the signatures of an envelope are over: the type and the payload.
mirrors verify-rs/src/lib.rs:175-177 -/
def envelopeMessage (X : Crates) (env : Value) : Option Bytes := do
  let payloadType ← env.getStr "payloadType"
  let payload ← payloadOf X env
  return pae payloadType payload

/-- One signature object: a closed member set, only EdDSA, and its own bytes.
mirrors verify-rs/src/lib.rs:180-183 -/
def signatureValid (X : Crates) (sig : Value) (message : Bytes) (pubkey : Digest) : Bool :=
  match sig.asObject with
  | none => false
  | some o =>
    Value.hasKey o "keyid" &&
      (o.all fun m => (m.1 == "keyid" || m.1 == "sig" || m.1 == "alg") && m.2.isString) &&
      ((o.lookup "alg").all fun v => v.asStr == some "EdDSA") &&
      ((sig.getStr "sig").bind X.b64Decode).any fun raw => ed25519Verify X pubkey message raw

/-- An envelope has a valid signature under this key, which names it by its id.
mirrors verify-rs/src/lib.rs:185-188 -/
def envSignedBy (X : Crates) (env : Value) (kid : String) (pubkey : Digest) : Bool :=
  match envelopeMessage X env with
  | none => false
  | some message => (env.getArray "signatures").any fun sigs =>
      sigs.any fun sig => sig.getStr "keyid" == some kid && signatureValid X sig message pubkey

/-- The hash of a receipt: of its payload, without the signatures.
mirrors verify-rs/src/lib.rs:194-197 -/
def receiptHashHex (X : Crates) (env : Value) : Option String :=
  (payloadOf X env).map fun p => hex (X.sha256 p).val

/-! ## Bodies -/

def required : List String :=
  ["schema", "tenant_id", "agent_id", "seq", "action_type", "commitments", "context", "parents",
    "ts_client", "ts_server", "idempotency_key"]

def optional : List String := ["alg", "session_id", "session_inferred"]

/-- A member that is identity text. -/
def textField (body : Value) (field : String) : Option String :=
  (body.getStr field).filter safeIdentityText

/-- Every commitment has a name and is a hash.
mirrors verify-rs/src/lib.rs:239 -/
def commitmentsValid (body : Value) : Bool :=
  ((body.get "commitments").bind Value.asObject).any fun items =>
    items.all fun m => m.1 != "" && m.2.asStr.any lowerSha256

/-- The parents are hashes, each once, and not too many.
mirrors verify-rs/src/lib.rs:240-243 -/
def parentsValid (body : Value) : Bool :=
  (body.getArray "parents").any fun items =>
    (items.mapM Value.asStr).any fun values =>
      decide (values.length ≤ receiptMaxParents) && values.all lowerSha256 &&
        values.toFinset.card == values.length

/-- A session is named, and said to be inferred or not, or there is none.
mirrors verify-rs/src/lib.rs:244-248 -/
def sessionValid (body : Value) : Bool :=
  match body.get "session_id", body.get "session_inferred" with
  | none, none => true
  | some id, some inferred => id.asStr.any safeIdentityText && inferred.isBoolean
  | _, _ => false

/-- A body of the schema: its members, no others, each in its form, and of the
tenant if one is expected.
mirrors verify-rs/src/lib.rs:227-250 -/
def receiptBodyValid (body : Value) (expectedTenant : Option String) : Bool :=
  match body.asObject with
  | none => false
  | some object =>
    if (required.any fun f => !Value.hasKey object f) ||
        (object.any fun m => !required.contains m.1 && !optional.contains m.1) then false
    else
      match textField body "tenant_id", textField body "agent_id", textField body "action_type",
          textField body "idempotency_key" with
      | some tenant, some _, some action, some _ =>
        if textField body "schema" != some receiptSchema || (expectedTenant.any fun t => tenant != t) ||
            !namespacedAction action ||
            ((body.getU64 "seq").all fun seq => seq == 0 || maxSafeInteger < (seq.toNat : Int)) then false
        else
          commitmentsValid body && (body.get "context").any Value.isObject && parentsValid body &&
            (body.getStr "ts_client").any canonicalUtc && (body.getStr "ts_server").any canonicalUtc &&
            sessionValid body && (body.get "alg").all fun alg => alg.asStr == some "EdDSA"
      | _, _, _, _ => false

/-- The bytes of a body are its canonical ones, so that a body has one hash.
mirrors verify-rs/src/lib.rs:204-208 -/
def canonicalBody (X : Crates) (raw : Bytes) : Option Value := do
  let v ← X.fromSlice raw
  let body := promoteJcsIntegerLexemes v
  let canon ← canonicalChecked X body
  if canon = raw then some body else none

/-- The body of an envelope, canonical and of the schema.
mirrors verify-rs/src/lib.rs:199-202 -/
def bodyOf (X : Crates) (env : Value) : Option Value := do
  let raw ← payloadOf X env
  let body ← canonicalBody X raw
  if receiptBodyValid body none then some body else none

def managedPrefixes : List String :=
  ["evd.key.", "authority.", "source.", "action.", "lineage.", "node.", "evd.finding.", "evd.gap.",
    "evd.coverage.", "registration."]

/-- Actions that no second signature may accompany.
mirrors verify-rs/src/lib.rs:297-302 -/
def forbiddenManagedEdgeCosign (body env : Value) : Bool :=
  let multi := (env.getArray "signatures").any fun s => decide (1 < s.length)
  let agent := (body.getStr "agent_id").getD ""
  let action := (body.getStr "action_type").getD ""
  multi && (startsWith agent "_" || managedPrefixes.any fun p => startsWith action p)

/-! ## What a valid body carries -/

/-- The tenant is only compared: without it the body stays valid. -/
theorem receiptBodyValid_none {body : Value} {t : Option String} (h : receiptBodyValid body t = true) :
    receiptBodyValid body none = true := by
  unfold receiptBodyValid at h ⊢
  split at h
  · cases h
  · split at h
    · cases h
    · rename_i hk
      rw [if_neg hk]
      split at h
      · split at h
        · cases h
        · rename_i hc
          rw [if_neg]
          · exact h
          · simp only [Bool.or_eq_true, not_or] at hc ⊢
            exact ⟨⟨⟨hc.1.1.1, by simp⟩, hc.1.2⟩, hc.2⟩
      · cases h

structure ValidBody (body : Value) : Prop where
  agent : ∃ a, body.getStr "agent_id" = some a
  action : ∃ a, body.getStr "action_type" = some a
  seq : ∃ s, body.getU64 "seq" = some s ∧ s ≠ 0 ∧ (s.toNat : Int) ≤ maxSafeInteger
  tsServer : ∃ ts, body.getStr "ts_server" = some ts ∧ canonicalUtc ts = true

theorem textField_some {body : Value} {f s : String} (h : textField body f = some s) :
    body.getStr f = some s := (Option.filter_eq_some_iff.mp h).1

theorem validBody_of {body : Value} {t : Option String} (h : receiptBodyValid body t = true) :
    ValidBody body := by
  unfold receiptBodyValid at h
  split at h
  · cases h
  · split at h
    · cases h
    · split at h
      · rename_i _ _ agent action _ _ ha hact _
        split at h
        · cases h
        · rename_i hc
          simp only [Bool.or_eq_true, not_or] at hc
          simp only [Bool.and_eq_true] at h
          obtain ⟨ts, hts, hutc⟩ := (Option.any_eq_true _ _).mp h.1.1.2
          refine ⟨⟨agent, textField_some ha⟩, ⟨action, textField_some hact⟩, ?_, ⟨ts, hts, hutc⟩⟩
          cases hs : body.getU64 "seq" with
          | none => simp [hs] at hc
          | some s =>
            simp [hs] at hc
            exact ⟨s, rfl, hc.2.1, by omega⟩
      · cases h

/-- The kid that a key has. -/
def kidOfKey (X : Crates) (key : Digest) : String :=
  String.ofList ((X.b64urlEncode (X.sha256 key.val).val).toList.take 16)

section
variable {X : Crates} {jwk : Value} {key : Digest} {kid : String}

/-- Every `kid` member that is let through leaves the key its own. -/
theorem kid_of_keyFromJwk (h : keyFromJwk X jwk = some (key, kid)) : kid = kidOfKey X key := by
  unfold keyFromJwk at h
  simp only [Option.bind_eq_bind, Option.bind_eq_some_iff] at h
  obtain ⟨k, -, h⟩ := h
  split at h
  · cases h
    rfl
  · cases h
    rfl
  · split at h
    · cases h
      rfl
    · cases h
  · cases h

/-- A kid that a JWK claims is the one of its key. -/
theorem kid_of_claimed {claimed : String} (h : keyFromJwk X jwk = some (key, kid))
    (hclaimed : jwk.getStr "kid" = some claimed) : claimed = kid := by
  obtain ⟨w, hw, hs⟩ := Option.bind_eq_some_iff.mp hclaimed
  obtain rfl := Value.asStr_eq_some hs
  unfold keyFromJwk at h
  simp only [Option.bind_eq_bind, Option.bind_eq_some_iff, hw] at h
  obtain ⟨k, _, h⟩ := h
  split at h
  · rename_i heq
    cases h
    exact eq_of_beq heq
  · cases h

end

theorem bodyOf_eq_some {X : Crates} {env body : Value} (h : bodyOf X env = some body) :
    ∃ raw, payloadOf X env = some raw ∧ canonicalBody X raw = some body ∧
      receiptBodyValid body none = true := by
  unfold bodyOf at h
  simp only [Option.bind_eq_bind, Option.bind_eq_some_iff] at h
  obtain ⟨raw, hraw, b, hb, h⟩ := h
  split at h
  · rename_i hv
    cases h; exact ⟨raw, hraw, hb, hv⟩
  · cases h

theorem payload_body {X : Crates} {env body : Value} {raw : Bytes} {t : Option String}
    (hraw : payloadOf X env = some raw) (hb : canonicalBody X raw = some body)
    (hv : receiptBodyValid body t = true) : bodyOf X env = some body := by
  unfold bodyOf
  simp [hraw, hb, receiptBodyValid_none hv]

end SwarrmVerify.L3.Receipt

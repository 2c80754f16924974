import SwarrmVerify.L4Certificate.CrossChecks

/-!
# Certificates (`certificate.rs`)

`run` takes the bytes of a bare core or of a view that carries one. Caps and
shape come first; then the cross-checks, whose failure forces the integrity of
the verdict input to INVALID; then the verdict engine derives the vector.

The stages hand on a verdict input that is patched on the way, as the source
does it: the log's own facts replace what the producer wrote under `authority`,
the result of the pack what it wrote under `registration`, and the view what it
wrote under `view`. What a patch does to a report is the subject of
`L5Guarantees.Certified`, what the cross-checks compare that of
`L5Guarantees.Echo`, `L5Guarantees.Linkage` and `L5Guarantees.Matching`.

The transparency-service functions of `scitt.rs` are parameters (`Verifier`):
no result below depends on what they return, and `L4Certificate.Scitt` fills
them in.
-/
namespace SwarrmVerify.L4.Certificate
open SwarrmVerify.L1.Jcs SwarrmVerify.L1.CborWire SwarrmVerify.L3.Receipt SwarrmVerify.L3.Keys
open SwarrmVerify.L4.Trust SwarrmVerify.L4.Bundle SwarrmVerify.L4.Action

/-- What only the certificate layer calls. -/
structure Verifier extends Engine where
  /-- `ciborium::de::from_reader` -/
  ciborium : Bytes → Option Cbor.Value
  /-- `scitt::verified_scitt_pack_keys`: the pack, the local root and the signed statement -/
  scittPackKeys : Value → Digest → Bytes → Option (Table Digest)
  /-- `scitt::verify_scitt_receipt_with_checkpoint`: the statement, the receipt, the service's keys, the
  issuers' keys, the certificate and the checkpoint -/
  scittReceipt : Bytes → Bytes → Table Digest → Table Digest → String → Value → Bool

/-! ## The report -/

inductive ErrorCode where
  | parse
  | schema
  | overCap
  | viewMalformed
  | viewSignatureUnverified
  | withheldCorePresent
  | certificateIdMismatch
  | coreMalformed
  | coreUndeclaredField
  | bundleInvalid
  | subjectOriginMismatch
  | originNotAttested
  | subjectActionIdMismatch
  | subjectActionClassMismatch
  | actionContextMismatch
  | claimIdentityMismatch
  | subjectIdsMismatch
  | authorityMismatch
  | verdictInputMismatch
  | findingsNotConsumed
  | eventMatchesMismatch
  | coverageInconsistent
  | coverageDocMismatch
  | limitationsInconsistent
  | viewSignatureInvalid
  | manifestMismatch
  | markMismatch
  deriving DecidableEq, Repr

inductive Layer where
  | core
  | view
  deriving DecidableEq, Repr

/-- What a verification reports. Its fields are filled as far as the
verification has come.
mirrors verify-rs/src/certificate.rs:131-147 -/
structure Report where
  parseOk : Bool := false
  layers : List Layer := []
  certificateId : Option String := none
  corePresent : Bool := false
  crossChecksOk : Bool := false
  vector : Option VerdictVector := none
  mark : Option Mark := none
  errors : List ErrorCode := []
  exportComplete : Option Bool := none
  originAttested : Option Bool := none

/-! ## View layer -/

/-- Key-log keys with authority to sign over a certificate; none if the log is
unsound.
mirrors verify-rs/src/certificate.rs:546-554 -/
def authorizedKeys (X : Crates) (bundle : Value) (scitt : Bool) : List (String × Digest) :=
  let kl := replayKeyLog X (arr bundle "entries")
  let held := fun kid => (kl.state.lookup kid).any fun st =>
    st.revokedAt.isNone && if scitt then st.scitt else !st.nonIssuer
  if !kl.ok then [] else (kl.keys.entries.filter fun k => held k.1).map fun k => (k.1, k.2)

/-- A member that the detached signature does not cover. -/
def signatureMember (p : Cbor.Value × Cbor.Value) : Bool :=
  match p.1 with
  | .text t => t == "signature" || endsWith t "_sig"
  | _ => false

/-- The view is signed by a key of the log, over itself without the signature.
mirrors verify-rs/src/certificate.rs:509-516 -/
def viewSigOk (X : Crates) (view : Cbor.Value) (bundle : Value) : Bool :=
  match view, (ctext view "signature").bind X.b64Decode with
  | .map members, some sig =>
    match canonicalCbor (.map (members.filter fun p => !signatureMember p)) with
    | none => false
    | some body =>
      (authorizedKeys X bundle false).any fun k =>
        ed25519Verify X k.2 (utf8 "evd/v1/certificate/view" ++ 0 :: body) sig
  | _, _ => false

/-- The names of the fields that the view's manifest withholds.
mirrors verify-rs/src/certificate.rs:518-520 -/
def withheldFields (view : Cbor.Value) : List Value :=
  ((((cget view "manifest").bind fun m => cget m "withheld_field_set").bind
    fun w => cborToJson w L1.CborWire.maxDepth).bind Value.asArray).getD []

/-- What is wrong with a view beside its core: the signature, the manifest, the
mark.
mirrors verify-rs/src/certificate.rs:522-536 -/
def viewChecks (X : Crates) (view : Cbor.Value) (id : String) (bundle : Value) (mark : Mark) : List ErrorCode :=
  let man := cget view "manifest"
  (if viewSigOk X view bundle then [] else [.viewSignatureInvalid]) ++
    (if (man.bind fun m => ctext m "certificate_id") == some id then [] else [.manifestMismatch]) ++
    if (man.bind fun m => ctext m "mark_result") == some mark.text then [] else [.markMismatch]

/-! ## Transparency receipts -/

/-- A registration of the certificate, by a service that the trust context leads
to.
mirrors verify-rs/src/certificate.rs:570-578 -/
def scittPackValid (V : Verifier) (pack : Value) (id : String) (bundle : Value) (root : Option Digest) : Bool :=
  match root, (pack.getStr "signed_statement").bind hexToBytes, (pack.getStr "receipt").bind hexToBytes,
      pack.get "checkpoint" with
  | some root, some ss, some rc, some checkpoint =>
    (V.scittPackKeys pack root ss).any fun tsKeys =>
      pack.getStr "certificate_id" == some id &&
        V.scittReceipt ss rc tsKeys ((authorizedKeys V.toCrates bundle true).map fun k => ⟨k.1, k.2⟩).toAList id
          checkpoint
  | _, _, _, _ => false

/-- `scitt_receipt_valid` is always derived by the verifier.
mirrors verify-rs/src/certificate.rs:580-586 -/
def applyScittOverride (V : Verifier) (vi : Value) (id : String) (bundle : Value) (trust : Option Value) : Value :=
  match obj vi "registration" with
  | none => vi
  | some registration =>
    let service := (registration.get "scope_registration").bind fun scope => scope.getStr "transparency_service"
    let root := (keyFor V.toCrates trust "scitt_ts_keys" service).bind toDigest
    let ok := (obj registration "scitt_pack").any fun pack => scittPackValid V pack id bundle root
    setIndex vi "registration" (setIndex registration "scitt_receipt_valid" (.bool ok))

/-! ## Gates -/

def maxBytes : Nat := 16 * 1024 * 1024
def maxCoreBytes : Nat := 1024 * 1024
def maxList : Nat := 10000
def maxAttachments : Nat := 1000
def maxDisclosures : Nat := 256

/-- The members that a core may have. mirrors verify-rs/src/certificate.rs:49 -/
def coreKeys : List String :=
  ["schema", "subject", "bundle", "claim", "events", "event_matches", "source_identity", "control_evidence", "batch",
    "scan", "coverage_doc", "node_attestation", "open_findings", "proof_digests", "assurance_transcript_digest",
    "challenge_envelope_hash", "presentation_envelope_hash", "asa_envelope_hash", "presentation_digest",
    "agent_context_digest", "verdict_input", "limitations", "current_through", "policy_version", "attachments"]

/-- The members that the subject of a core may have.
mirrors verify-rs/src/certificate.rs:50 -/
def subjectKeys : List String := ["action_id", "action_class", "origin", "subject_ids"]

/-- The members that the checks read are there, as objects and as lists.
mirrors verify-rs/src/certificate.rs:590-592 -/
def coreShapeOk (j : Value) : Bool :=
  (["subject", "bundle", "coverage_doc", "verdict_input"].all fun k => (j.get k).any Value.isObject) &&
    ["events", "event_matches", "open_findings", "proof_digests", "limitations"].all fun k => (j.getArray k).isSome

/-- The core and its subject have no other members.
mirrors verify-rs/src/certificate.rs:597-600 -/
def coreKeysOk (j : Value) : Bool :=
  let closed := fun (v : Value) (allowed : List String) => v.asObject.any fun m => m.all fun p => allowed.contains p.1
  closed j coreKeys && closed (j.index "subject") subjectKeys

/-- A SHA-256 digest in lower-case hex. -/
def hexDigest (v : Value) : Bool :=
  v.asStr.any fun text => (utf8 text).length == 64 && (utf8 text).all fun b => asciiDigit b || (97 ≤ b && b ≤ 102)

/-- The bindings to a handshake are all there, each a hash, or none is.
mirrors verify-rs/src/certificate.rs:602-606 -/
def b28BindingsOk (j : Value) : Bool :=
  let names := ["assurance_transcript_digest", "challenge_envelope_hash", "presentation_envelope_hash",
    "asa_envelope_hash"]
  let present := names.filterMap j.get
  present.isEmpty || (present.length == names.length && present.all hexDigest)

/-- The caps on the lists of a core.
mirrors verify-rs/src/certificate.rs:608-612 -/
def coreCapsOk (j : Value) : Bool :=
  (["events", "event_matches", "open_findings", "limitations"].all fun k => decide ((arr j k).length ≤ maxList)) &&
    decide ((arr j "attachments").length ≤ maxAttachments)

/-! ## Pipeline -/

/-- The checks in their pinned order.
mirrors verify-rs/src/certificate.rs:619-641 -/
def crossCheckErrors (E : Engine) (j bundle : Value) (trust : Option Value) :
    List ErrorCode × Option Bool × Option Bool :=
  let X := E.toCrates
  let facts := verifyBundleFacts X bundle trust
  let checks : List (Bool × ErrorCode) :=
    [(facts.ok, .bundleInvalid), (subjectOriginMatchesBundle j bundle, .subjectOriginMismatch),
      (facts.originAttested != some false, .originNotAttested),
      (subjectActionIdMatchesInput X j bundle, .subjectActionIdMismatch),
      (subjectActionClassMatchesInput X j bundle, .subjectActionClassMismatch),
      (inputActionMatchesSignedIntent E j bundle, .actionContextMismatch),
      (claimMatchesSubject E j, .claimIdentityMismatch), (subjectIdsMatchAuthority X j bundle, .subjectIdsMismatch),
      (checkAuthority X j bundle, .authorityMismatch), (checkInputEcho j, .verdictInputMismatch),
      (checkFindingsCarried j, .findingsNotConsumed), (checkMatches E j, .eventMatchesMismatch),
      (checkCoverage E j, .coverageInconsistent), (coverageDocBound X j bundle, .coverageDocMismatch),
      (limitationsConsistent X j bundle, .limitationsInconsistent)]
  ((checks.filter fun c => !c.1).map Prod.snd, facts.complete, facts.originAttested)

/-- The withheld fields come from the view's manifest. -/
def withView (vi : Value) (view : Option Cbor.Value) : Value :=
  match view with
  | none => vi
  | some vw => setIndex vi "view" (.object [("withheld_fields", .array (withheldFields vw))])

/-- Never a partial pass. -/
def invalidated (vi : Value) (failed : Bool) : Value :=
  if !failed then vi
  else
    let authority := if (vi.index "authority").isObject then vi.index "authority" else .object []
    setIndex vi "authority" (setIndex authority "integrity" (.string "INVALID"))

/-- The input the verdict engine sees. -/
def derivedInput (V : Verifier) (id : String) (j : Value) (view : Option Cbor.Value) (trust : Option Value) : Value :=
  let bundle := j.index "bundle"
  let failed := !(crossCheckErrors V.toEngine j bundle trust).1.isEmpty
  applyScittOverride V (invalidated (withView (j.index "verdict_input") view) failed) id bundle trust

def layersOf (view : Option Cbor.Value) : List Layer := if view.isSome then [.core, .view] else [.core]

/-- The report of a core that passed the gates. -/
def checkedCore (V : Verifier) (id : String) (j : Value) (view : Option Cbor.Value) (trust : Option Value) : Report :=
  let bundle := j.index "bundle"
  let checks := crossCheckErrors V.toEngine j bundle trust
  let vi := derivedInput V id j view trust
  let vector := deriveVectorWithTrust V.toEngine vi trust
  -- the displayed mark is compared with the derivation without anchors
  let baseline := deriveVectorWithTrust V.toEngine vi none
  let errors := checks.1 ++ match view with
    | none => []
    | some vw => viewChecks V.toCrates vw id bundle baseline.mark
  { parseOk := true, layers := layersOf view, certificateId := some id, corePresent := true
    crossChecksOk := errors.isEmpty, vector := some vector, mark := some vector.mark, errors := errors
    exportComplete := checks.2.1, originAttested := checks.2.2 }

/-- The core as JSON, if its gates let it through; else the code of the first
gate that refuses. -/
def gatedCore (core : Cbor.Value) : Except ErrorCode Value :=
  match (cborToJson core L1.CborWire.maxDepth).filter coreShapeOk with
  | none => .error .coreMalformed
  | some j =>
    if !coreKeysOk j then .error .coreUndeclaredField
    else if !b28BindingsOk j then .error .coreMalformed
    else if !coreCapsOk j then .error .overCap
    else .ok j

/-- A core with or without its view: the gates, and behind them the checks and
the vector.
mirrors verify-rs/src/certificate.rs:643-681 -/
def verifyCore (V : Verifier) (id : String) (core : Cbor.Value) (view : Option Cbor.Value) (trust : Option Value) :
    Report :=
  match gatedCore core with
  | .error code =>
    { parseOk := true, layers := layersOf view, certificateId := some id, corePresent := true, errors := [code] }
  | .ok j => checkedCore V id j view trust

def coreSchema : String := "evd/certificate/v1"
def viewSchema : String := "evd/certificate-view/v1"

def overDisclosures (view : Cbor.Value) : Bool :=
  match cget view "disclosures" with
  | some (.array a) => decide (a.length > maxDisclosures)
  | _ => false

/-- A view brings its core along or not, and is held to its own identifier.
mirrors verify-rs/src/certificate.rs:683-715 -/
def runView (V : Verifier) (view : Cbor.Value) (trust : Option Value) : Report :=
  let held := fun (id : Option String) (code : ErrorCode) =>
    ({ parseOk := true, layers := [.view], certificateId := id, errors := [code] } : Report)
  if overDisclosures view then held (ctext view "certificate_id") .overCap
  else match ctext view "certificate_id" with
    | none => held none .viewMalformed
    | some id =>
      let both := fun (code : ErrorCode) =>
        ({ parseOk := true, layers := [.core, .view], certificateId := some id, corePresent := true
           errors := [code] } : Report)
      match cbytes view "core" with
      | none => held (some id) .viewSignatureUnverified
      | some coreB =>
        -- a manifest cannot withhold what the carried core discloses
        if !(withheldFields view).isEmpty then both .withheldCorePresent
        else if h : coreB.length ≤ maxCoreBytes then
          match decodeCbor V.ciborium ⟨coreB, lt_of_le_of_lt h (by decide)⟩ L1.CborWire.maxDepth maxCoreBytes with
          | none => held (some id) .parse
          | some core =>
            if hex (V.sha256 coreB).val != id then both .certificateIdMismatch
            else if ctext core "schema" != some coreSchema then both .coreMalformed
            else verifyCore V id core (some view) trust
        else held (some id) .overCap

/-- Bytes are a core, a view or nothing; which of them, the schema says.
mirrors verify-rs/src/certificate.rs:717-726 -/
def run (V : Verifier) (bytes : Slice) (trust : Option Value) : Report :=
  match decodeCbor V.ciborium bytes L1.CborWire.maxDepth maxBytes with
  | none => { errors := [.parse] }
  | some top =>
    if ctext top "schema" == some coreSchema then
      if bytes.val.length > maxCoreBytes then
        { parseOk := true, layers := [.core], corePresent := true, errors := [.overCap] }
      else verifyCore V (hex (V.sha256 bytes.val).val) top none trust
    else if ctext top "schema" == some viewSchema then runView V top trust
    else { parseOk := true, errors := [.schema] }

end SwarrmVerify.L4.Certificate

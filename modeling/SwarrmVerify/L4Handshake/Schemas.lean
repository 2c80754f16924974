import SwarrmVerify.L4Handshake.Documents

/-!
# Schemas of a Counterparty Assurance exchange (`b28.rs`)

The members of every document of an exchange and the conditions on them, as
shapes (`L4Handshake.Documents`), and the dimensions that a challenge can
require. A shape lists the names that a document has to have, each with a rule
of its own, and then the conditions that hold between members. The source
writes one function for each schema; here each is a shape under the name of
that function, in the order of the file.

Conditions of a shape read other members, with `unwrap` where the rule of the
member has been checked before. In the source this is the order of the
statements. Here it is a proof: `shape_total` says that every condition of
every shape returns on a document whose members meet their rules.

* `decimal_safe`, `unitOk_safe`, `sameOrganisation_safe`,
  `challengeFits_safe`: the conditions that read.
* `validateCore_safe`: no document makes the check of a signed core panic.
* `validateCore_holds`: a core that passes is of the shape of its schema.
-/
namespace SwarrmVerify.L4.Handshake
open Panics

/-! ## Dimensions -/

inductive Dimension where
  | passportIdentity
  | liveKeyControl
  | rootChain
  | templateAdminPop
  | freshStatus
  | binding
  | grant
  | delegation
  | exactAction
  | asaReservation
  | challenge
  | transcript
  | replay
  | nodeBasis
  | sourceBasis
  | coverageBasis
  | history
  | postActionEvidenceReadiness
  deriving DecidableEq, Repr

namespace Dimension

def text : Dimension → String
  | passportIdentity => "passport_identity"
  | liveKeyControl => "live_key_control"
  | rootChain => "root_chain"
  | templateAdminPop => "template_admin_pop"
  | freshStatus => "fresh_status"
  | binding => "binding"
  | grant => "grant"
  | delegation => "delegation"
  | exactAction => "exact_action"
  | asaReservation => "asa_reservation"
  | challenge => "challenge"
  | transcript => "transcript"
  | replay => "replay"
  | nodeBasis => "node_basis"
  | sourceBasis => "source_basis"
  | coverageBasis => "coverage_basis"
  | history => "history"
  | postActionEvidenceReadiness => "post_action_evidence_readiness"

/-- The source's `VERIFIED`: what v1 evaluates. Any of them may be asked for. -/
def verified : List Dimension :=
  [passportIdentity, liveKeyControl, rootChain, templateAdminPop, freshStatus, binding, grant, delegation, exactAction,
    asaReservation, challenge, transcript, replay]

/-- The source's `UNEVALUATED`: known by name, so that asking for one is well
formed, and never evaluated. -/
def unevaluated : List Dimension := [nodeBasis, sourceBasis, coverageBasis, history, postActionEvidenceReadiness]

end Dimension

/-- A name that a challenge may ask for, evaluated or not.
mirrors verify-rs/src/b28.rs:198-200 -/
def knownDimension (name : String) : Bool := ((Dimension.verified ++ Dimension.unevaluated).map Dimension.text).contains name

/-! ## Parties and actions -/

/-- `URL_SAFE_NO_PAD.encode(sha(key))`, cut to 16: a key names itself, so a kid
binds the key up to the cut.
mirrors verify-rs/src/b28.rs:173-175 -/
def keyId (X : Crates) (key : Bytes) : String :=
  String.ofList ((X.b64urlEncode (X.sha256 key).val).toList.take 16)

def agentShape : Shape where
  schema := some "swarrm-b28/agent-ref/v1"
  fields := ["organisation_root", "birthtag", "revision", "agent_kid"]
  rules := [.identifier "organisation_root", .identifier "birthtag", .count "revision", .boundedText "agent_kid" 128]

/-- An agent as an action names it, if the value has its shape.
mirrors verify-rs/src/b28.rs:176-179 -/
def agent (v : C) : Run (Option Doc) := agentShape.read v

def resourceShape : Shape where
  schema := some "swarrm-b28/resource-ref/v1"
  fields := ["namespace", "identifier_digest"]
  rules := [.boundedText "namespace" 128, .identifier "identifier_digest"]

/-- A resource as an action names it, if the value has its shape.
mirrors verify-rs/src/b28.rs:180-183 -/
def resource (v : C) : Run (Option Doc) := resourceShape.read v

def partyShape : Shape where
  schema := some "swarrm-b28/party-ref/v1"
  fields := ["party_id", "organisation_root"]
  rules := [.boundedText "party_id" 256, .identifier "organisation_root"]

/-- A counterparty as an action names it, if the value has its shape.
mirrors verify-rs/src/b28.rs:184-187 -/
def party (v : C) : Run (Option Doc) := partyShape.read v

/-- The rest of a text after a prefix, as bytes, since the source goes on to
slice it. -/
def stripPrefix (s pre : String) : Option Bytes :=
  if (utf8 pre).isPrefixOf (utf8 s) then some ((utf8 s).drop (utf8 pre).length) else none

def asciiUpper (b : UInt8) : Bool := 65 ≤ b && b ≤ 90

def asciiGraphic (b : UInt8) : Bool := 33 ≤ b && b ≤ 126

/-- The minor unit of a currency. The slices come after the test of the length,
in this order, or they would be out of range. -/
def isoUnit (unit : String) : Run Bool :=
  match stripPrefix unit "iso4217:" with
  | none => pure false
  | some b => allOf [pure (b.length == 11), do return (← sliceOf b 0 3).all asciiUpper,
      do return (← sliceOf b 3 10) == utf8 ":minor-", do return asciiDigit (← item b 10)]

/-- A UCUM unit or a count: a nonempty short name in printable characters. -/
def namedUnit (unit : String) : Bool :=
  ((stripPrefix unit "ucum:").or (stripPrefix unit "count:")).any fun b =>
    !b.isEmpty && b.length ≤ 48 && b.all asciiGraphic

/-- The units an amount may have. A unit that is neither is no reason to stop,
so both are tried.
mirrors verify-rs/src/b28.rs:194 -/
def unitOk (unit : String) : Run Bool := do return (← isoUnit unit) || namedUnit unit

/-- The counterparty and the recipient are of one organisation, if both have
their shapes. -/
def sameOrganisation (counterparty recipient : C) : Run Bool := do
  match ← party counterparty, ← agent recipient with
  | some p, some a => return eqv (← index p "organisation_root") (← index a "organisation_root")
  | _, _ => return false

def actionShape : Shape where
  schema := some "swarrm-b28/action-core/v1"
  fields := ["action_id", "asa_id", "actor", "operation", "parameter_schema", "parameter_digest", "value", "unit",
    "source", "destination", "counterparty", "recipient", "grant_id", "grant_version", "policy_version",
    "policy_digest", "nonce", "expires_at"]
  rules := [.one "counterparty" fun v => do return (← party v).isSome,
    .one "recipient" fun v => do return (← agent v).isSome,
    .identifier "action_id", .identifier "asa_id", .identifier "parameter_digest", .identifier "grant_id",
    .identifier "policy_digest", .identifier "nonce", .one "actor" fun v => do return (← agent v).isSome,
    .one "source" fun v => do return (← resource v).isSome, .one "destination" fun v => do return (← resource v).isSome,
    .boundedText "operation" 256, .boundedText "parameter_schema" 512,
    .one "value" fun v => do return (← decimal v).isSome,
    .one "unit" fun v => match bounded v 64 with
      | none => pure false
      | some unit => unitOk unit,
    .count "grant_version", .boundedText "policy_version" 128, .count "expires_at",
    .two "counterparty" "recipient" sameOrganisation]

/-- An action, if the value has its shape.
mirrors verify-rs/src/b28.rs:188-197 -/
def action (v : C) : Run (Option Doc) := actionShape.read v

/-! ## Challenge, assurance and presentation -/

/-- `windows(2)` are all in order, which for a strict order makes the list
strictly sorted. -/
def increasing {α : Type} (lt : α → α → Bool) : List α → Bool
  | a :: b :: l => lt a b && increasing lt (b :: l)
  | _ => true

/-- The names of the required dimensions, if all of them are short texts. -/
def requiredNames (v : C) : Option (List String) :=
  (array v maxLocalItems).bind fun required => required.mapM fun name => bounded name 64

/-- The challenger is the action's recipient, and the challenge is issued before
the action expires. -/
def challengeFits (challenger actionValue issuedAt : C) : Run Bool := do
  match ← action actionValue with
  | none => return false
  | some doc => allOf [do return eqv challenger (← index doc "recipient"),
    do return match positive issuedAt, positive (← index doc "expires_at") with
      | some a, some b => a < b
      | _, _ => false]

/-- A challenge: the action in full, the encodings and dimensions asked for, and
how old a checkpoint may be.
mirrors verify-rs/src/b28.rs:201-209 -/
def challengeShape : Shape where
  schema := some "swarrm-b28/challenge-core/v1"
  fields := ["profile", "challenger", "action", "accepted_encodings", "required_dimensions", "max_checkpoint_age",
    "issued_at"]
  rules := [.two "accepted_encodings" "required_dimensions" fun e r =>
      pure ((array e 1).isSome && (requiredNames r).isSome),
    -- the action is read before the conditions that use it
    .one "action" fun v => do
      let _ ← action v
      return true,
    .profileName "profile", .one "challenger" fun v => do return (← agent v).isSome,
    .three "challenger" "action" "issued_at" challengeFits,
    .on "accepted_encodings" fun v => match array v 1 with
      | some [.text s] => s == media
      | _ => false,
    .on "required_dimensions" fun v => (requiredNames v).any fun names => increasing (fun a b => a < b) names,
    .on "required_dimensions" fun v => (requiredNames v).any fun names => names.all knownDimension,
    .count "max_checkpoint_age"]

/-- An assurance: the action and the challenge by their digests, and a
reservation under a grant.
mirrors verify-rs/src/b28.rs:210-213 -/
def asaShape : Shape where
  schema := some "swarrm-b28/asa-core/v1"
  fields := ["tenant", "organisation_root", "authority_delegation_id", "asa_id", "action_digest", "challenge_digest",
    "grant_id", "grant_version", "reservation_state", "issued_at", "expires_at"]
  rules := [.boundedText "tenant" 128, .identifier "organisation_root", .identifier "authority_delegation_id",
    .identifier "asa_id", .identifier "action_digest", .identifier "challenge_digest", .identifier "grant_id",
    .count "grant_version", .constant "reservation_state" "ISSUED_HELD", .window "issued_at" "expires_at"]

def stateProofNames : List String :=
  ["root_delegation", "registration_template", "mandate", "agent_config", "admin_binding", "admin_selection",
    "admin_challenge", "admin_consumption", "admin_counter", "agent_pop", "passport", "agent_head", "agent_successor",
    "predecessor_head", "limit_grant", "grant_head"]

def isMap : C → Bool
  | .map _ => true
  | _ => false

/-- A state proof: a map, or null where there is no predecessor. What the map
holds is checked with the proof. -/
def stateProofOk (name : String) (proof : C) : Bool :=
  isMap proof || ((name == "agent_successor" || name == "predecessor_head") && isNull proof)

/-- A member that inlines an envelope, of any size up to the limit for one. -/
def Rule.inline (a : String) : Rule := .sizedBytes a 1 maxCwt

/-- A presentation: the challenge it answers, every envelope inlined, and the
proofs of their states.
mirrors verify-rs/src/b28.rs:214-229 -/
def presentationShape : Shape where
  schema := some "swarrm-b28/presentation-core/v1"
  fields := ["profile", "challenge_envelope_hash", "challenge_digest", "action_digest", "root_delegation",
    "registration_template", "admin_binding", "admin_selection", "admin_challenge", "admin_consumption", "agent_pop",
    "agent_successor", "passport", "passport_holder_proof", "limit_grant", "authority_checkpoint",
    "issuance_consistency_proof", "status_snapshot", "state_proofs", "asa", "transcript_digest", "non_assertion",
    "created_at"]
  rules := [.on "state_proofs" fun v => (document v none stateProofNames).isSome, .profileName "profile",
    .constant "non_assertion" nonAssertion, .fixedBytes "challenge_envelope_hash" 32, .fixedBytes "challenge_digest" 32,
    .fixedBytes "action_digest" 32, .fixedBytes "transcript_digest" 32, .inline "root_delegation",
    .inline "registration_template", .inline "admin_binding", .inline "admin_challenge", .inline "admin_consumption",
    .inline "agent_pop", .inline "passport", .inline "passport_holder_proof", .inline "limit_grant",
    .inline "authority_checkpoint", .inline "status_snapshot", .inline "asa",
    .on "agent_successor" fun v => isNull v || (bytes v).any fun b => !b.isEmpty && b.length ≤ maxCwt,
    .on "admin_selection" fun v => (bytes v).any fun b => b.length ≤ 16384,
    .on "issuance_consistency_proof" fun v => (array v 64).any fun path => path.all fun i => (fixed i 32).isSome,
    .on "state_proofs" fun v => (document v none stateProofNames).any fun proofs =>
      proofs.all fun p => stateProofOk p.1 p.2,
    .number "created_at"]

/-- A refusal: the challenge it answers and the reason for it.
mirrors verify-rs/src/b28.rs:230-233 -/
def refusalShape : Shape where
  schema := some "swarrm-b28/refusal-core/v1"
  fields := ["profile", "challenge_envelope_hash", "challenge_digest", "reason_code", "created_at"]
  rules := [.profileName "profile", .fixedBytes "challenge_envelope_hash" 32, .fixedBytes "challenge_digest" 32,
    .boundedText "reason_code" 128, .number "created_at"]

/-- An acknowledgement: who has seen which two heads of which log.
mirrors verify-rs/src/b28.rs:311-313 -/
def acknowledgementShape : Shape where
  schema := some "swarrm-b28/acknowledgement-core/v1"
  fields := ["profile", "counterparty", "origin", "from_hash", "to_hash", "issued_at"]
  rules := [.constant "schema" "swarrm-b28/acknowledgement-core/v1", .profileName "profile",
    .boundedText "counterparty" 1024, .boundedText "origin" 1024, .boundedText "from_hash" 1024,
    .boundedText "to_hash" 1024, .number "issued_at"]

/-! ## Authority -/

/-- The two delegated keys and the root are three different keys, and the kids
of the two differ as well. -/
def rolesDiffer (X : Crates) (root psa act : C) : Bool :=
  match fixed root 32, fixed psa 32, fixed act 32 with
  | some root, some psa, some act =>
    psa != act && (X.sha256 psa).val != root && (X.sha256 act).val != root && keyId X psa != keyId X act
  | _, _, _ => false

/-- A kid is the one of its key, so that a table under kids is one under
keys. -/
def Rule.kidOf (X : Crates) (kid key : String) : Rule := .two kid key fun i k =>
  pure ((bytes k).any fun raw => bounded i 128 == some (keyId X raw))

/-- A delegation from a root: two keys with a role each, for a window of time.
mirrors verify-rs/src/b28.rs:237-243 -/
def delegationShape (X : Crates) : Shape where
  schema := some "swarrm-b28/root-delegation/v1"
  fields := ["tenant", "organisation_root", "delegation_id", "passport_authority_kid", "passport_authority_key",
    "action_authority_kid", "action_authority_key", "valid_from", "valid_to"]
  rules := [.three "organisation_root" "passport_authority_key" "action_authority_key" fun r p a =>
      pure ((fixed r 32).isSome && (fixed p 32).isSome && (fixed a 32).isSome)] ++ Rule.tenantRoot ++
    [.identifier "delegation_id",
    .three "organisation_root" "passport_authority_key" "action_authority_key" fun r p a => pure (rolesDiffer X r p a),
    .kidOf X "passport_authority_kid" "passport_authority_key", .kidOf X "action_authority_kid" "action_authority_key",
    .window "valid_from" "valid_to"]

/-- A template for registrations: an owner, a purpose, a mandate and a
configuration.
mirrors verify-rs/src/b28.rs:244-247 -/
def templateShape : Shape where
  schema := some "swarrm-b28/registration-template/v1"
  fields := ["tenant", "organisation_root", "template_id", "template_version", "owner", "purpose", "mandate_digest",
    "config_digest", "valid_from", "valid_to"]
  rules := Rule.tenantRoot ++ [.identifier "template_id", .count "template_version", .boundedText "owner" 1024,
    .boundedText "purpose" 1024, .fixedBytes "mandate_digest" 32, .fixedBytes "config_digest" 32,
    .window "valid_from" "valid_to"]

/-- The binding of an administrator: a credential of an authenticator and its
public key.
mirrors verify-rs/src/b28.rs:248-251 -/
def adminBindingShape : Shape where
  schema := some "swarrm-b28/admin-binding/v1"
  fields := ["tenant", "organisation_root", "binding_id", "credential_id", "cose_public_key", "rp_id", "role",
    "valid_from", "valid_to", "initial_state"]
  rules := Rule.tenantRoot ++ [.identifier "binding_id", .sizedBytes "credential_id" 16 1024,
    .sizedBytes "cose_public_key" 16 256, .boundedText "rp_id" 253,
    .on "role" fun v => (text v).any fun s =>
      s == "agent-registrar" || s == "security-admin" || s == "governance-admin",
    .constant "initial_state" "ACTIVE", .window "valid_from" "valid_to"]

/-- An administrator's selection: the assertion of the authenticator over a
proposed agent.
mirrors verify-rs/src/b28.rs:252-260 -/
def selectionShape : Shape where
  schema := some "swarrm-b28/admin-selection/v1"
  fields := ["tenant", "binding_id", "template_id", "template_version", "proposed_agent_digest", "credential_id",
    "challenge_id", "challenge", "client_data_json", "authenticator_data", "signature", "selected_at"]
  rules := [.boundedText "tenant" 128, .identifier "binding_id", .identifier "template_id", .count "template_version",
    .identifier "proposed_agent_digest", .sizedBytes "credential_id" 0 1024, .identifier "challenge_id",
    .identifier "challenge", .sizedBytes "client_data_json" 0 4096, .sizedBytes "authenticator_data" 37 1024,
    .sizedBytes "signature" 64 80, .number "selected_at"]

/-- The challenge that a selection answers: what is proposed, under which
template, until when.
mirrors verify-rs/src/b28.rs:261-264 -/
def adminChallengeShape : Shape where
  schema := some "swarrm-b28/admin-challenge/v1"
  fields := ["tenant", "organisation_root", "challenge_id", "binding_id", "template_id", "template_version",
    "proposed_agent_digest", "challenge", "issued_at", "expires_at"]
  rules := Rule.tenantRoot ++ [.identifier "challenge_id", .identifier "binding_id", .identifier "template_id",
    .identifier "proposed_agent_digest", .identifier "challenge", .count "template_version",
    .window "issued_at" "expires_at"]

/-- The counter of an authenticator stays at zero or grows. An authenticator
without a counter always says zero.
mirrors verify-rs/src/b28.rs:624-626 -/
def counterProgresses (previous current : Nat) : Bool := (previous == 0 && current == 0) || current > previous

/-- A consumption: a selection by its digest, and the state of the counter
before and after it.
mirrors verify-rs/src/b28.rs:265-271 -/
def adminConsumptionShape : Shape where
  schema := some "swarrm-b28/admin-consumption/v1"
  fields := ["tenant", "organisation_root", "binding_id", "challenge_id", "challenge_digest", "selection_digest",
    "credential_digest", "counter_version", "sign_count_before", "sign_count_after", "backup_eligible",
    "backup_state", "consumed_at"]
  rules := [.four "sign_count_before" "sign_count_after" "backup_eligible" "backup_state" fun before after eligible state =>
      pure (match uint before, uint after, eligible, state with
        | some b, some a, .bool e, .bool s => (b == 0 && a == 0 || a > b) && (!s || e)
        | _, _, _, _ => false)] ++ Rule.tenantRoot ++
    [.identifier "binding_id", .identifier "challenge_id", .identifier "challenge_digest",
    .identifier "selection_digest", .identifier "credential_digest", .count "counter_version", .number "consumed_at"]

/-- An agent's proof that it holds the key that is proposed for it.
mirrors verify-rs/src/b28.rs:272-275 -/
def popShape : Shape where
  schema := some "swarrm-b28/agent-pop/v1"
  fields := ["tenant", "birthtag", "revision", "agent_kid", "proposed_agent_digest", "challenge"]
  rules := [.boundedText "tenant" 128, .identifier "birthtag", .count "revision", .boundedText "agent_kid" 128,
    .identifier "proposed_agent_digest", .identifier "challenge"]

/-- An agent's credential: who it is, on whose behalf, under which template and
key.
mirrors verify-rs/src/b28.rs:276-285 -/
def credentialShape (X : Crates) : Shape where
  schema := some "swarrm-b28/agent-credential/v1"
  fields := ["tenant", "organisation_root", "authority_delegation_id", "birthtag", "revision", "agent_kid", "agent_key",
    "owner", "purpose", "mandate_digest", "config_digest", "template_id", "template_version", "principal_binding_id",
    "admin_selection_digest", "agent_pop_digest", "agent_successor_digest", "issuance_checkpoint", "valid_from",
    "valid_to"]
  rules := [.two "organisation_root" "agent_key" fun r k => pure ((fixed r 32).isSome && (fixed k 32).isSome)] ++
    Rule.tenantRoot ++
    [.identifier "authority_delegation_id", .identifier "birthtag", .identifier "agent_key",
    .identifier "mandate_digest", .identifier "config_digest", .identifier "template_id",
    .identifier "principal_binding_id", .identifier "admin_selection_digest", .identifier "agent_pop_digest",
    .identifier "issuance_checkpoint",
    .two "organisation_root" "agent_key" fun r k => pure (match fixed r 32, fixed k 32 with
      | some root, some key => (X.sha256 key).val != root
      | _, _ => false),
    .count "revision", .count "template_version", .kidOf X "agent_kid" "agent_key",
    .on "agent_successor_digest" fun v => isNull v || (opaqueBytes v).isSome, .boundedText "owner" 1024,
    .boundedText "purpose" 1024, .window "valid_from" "valid_to"]

/-- A link from the last credential of one agent to the first of its successor.
mirrors verify-rs/src/b28.rs:286-289 -/
def successorShape : Shape where
  schema := some "swarrm-b28/agent-successor/v1"
  fields := ["tenant", "organisation_root", "predecessor_birthtag", "predecessor_revision",
    "predecessor_credential_digest", "successor_birthtag", "successor_revision", "successor_proposal_digest",
    "effective_at"]
  rules := Rule.tenantRoot ++ [.identifier "predecessor_birthtag", .identifier "predecessor_credential_digest",
    .identifier "successor_birthtag", .identifier "successor_proposal_digest", .count "predecessor_revision",
    .on "successor_revision" fun v => positive v == some 1,
    .two "predecessor_birthtag" "successor_birthtag" fun p s => pure !(eqv p s), .number "effective_at"]

/-- A grant: who may do what for whom, up to which amount, within which windows.
mirrors verify-rs/src/b28.rs:290-298 -/
def grantShape : Shape where
  schema := some "swarrm-b28/limit-grant/v1"
  fields := ["tenant", "organisation_root", "grant_id", "grant_version", "authority_delegation_id", "actor_birthtag",
    "recipient_organisation_root", "operation", "unit", "action_scope_digest", "kind", "ceiling", "window_start",
    "window_end", "valid_from", "valid_to", "max_unresolved_exposure"]
  rules := Rule.tenantRoot ++ [.identifier "grant_id", .identifier "authority_delegation_id",
    .identifier "actor_birthtag", .identifier "recipient_organisation_root", .count "grant_version",
    .boundedText "operation" 1024, .boundedText "unit" 64, .identifier "action_scope_digest",
    .on "kind" fun v => (text v).any fun s => s == "ONE_SHOT" || s == "FLOW" || s == "STOCK",
    .one "ceiling" fun v => do return (← decimal v).isSome,
    .one "max_unresolved_exposure" fun v => do return (← decimal v).isSome,
    .two "max_unresolved_exposure" "ceiling" decimalAtMost, .window "window_start" "window_end",
    .window "valid_from" "valid_to"]

/-- A checkpoint of an authority's log and of the tree of its states.
mirrors verify-rs/src/b28.rs:299-302 -/
def checkpointShape : Shape where
  schema := some "swarrm-b28/authority-checkpoint/v1"
  fields := ["tenant", "organisation_root", "sequence", "authority_root", "log_root", "log_size", "issued_at"]
  rules := Rule.tenantRoot ++ [.fixedBytes "authority_root" 32, .fixedBytes "log_root" 32, .number "sequence",
    .number "log_size", .number "issued_at"]

/-- A snapshot of a status: a checkpoint and a set of proofs, by their digests.
mirrors verify-rs/src/b28.rs:303-306 -/
def snapshotShape : Shape where
  schema := some "swarrm-b28/status-snapshot/v1"
  fields := ["tenant", "organisation_root", "authority_delegation_id", "checkpoint_digest", "proofs_digest",
    "status_as_of", "expires_at"]
  rules := Rule.tenantRoot ++ [.identifier "authority_delegation_id", .fixedBytes "checkpoint_digest" 32,
    .fixedBytes "proofs_digest" 32, .window "status_as_of" "expires_at"]

/-! ## Signed cores -/

/-- The schemas of signed cores. Which of them an envelope must have, the caller
says, never the envelope. -/
inductive Schema where
  | action
  | challenge
  | asa
  | presentation
  | acknowledgement
  | refusal
  | rootDelegation
  | template
  | adminBinding
  | adminSelection
  | adminChallenge
  | adminConsumption
  | agentPop
  | credential
  | agentSuccessor
  | grant
  | checkpoint
  | snapshot
  deriving DecidableEq, Repr

def Schema.shape (X : Crates) : Schema → Shape
  | action => actionShape
  | challenge => challengeShape
  | asa => asaShape
  | presentation => presentationShape
  | acknowledgement => acknowledgementShape
  | refusal => refusalShape
  | rootDelegation => delegationShape X
  | template => templateShape
  | adminBinding => adminBindingShape
  | adminSelection => selectionShape
  | adminChallenge => adminChallengeShape
  | adminConsumption => adminConsumptionShape
  | agentPop => popShape
  | credential => credentialShape X
  | agentSuccessor => successorShape
  | grant => grantShape
  | checkpoint => checkpointShape
  | snapshot => snapshotShape

/-- A core has the shape of its schema, the name of the schema included.
mirrors verify-rs/src/b28.rs:307-319 -/
def validateCore (X : Crates) (v : C) (s : Schema) : Run Bool := (s.shape X).validate v

/-! ## No document panics -/

theorem canonicalDecimal_safe (s : String) : Safe (canonicalDecimal s) := by
  unfold canonicalDecimal
  dsimp only
  split
  · exact safe_pure _
  · refine allOf_cons_safe (safe_pure _) fun hne => ?_
    have hlen : 0 < (utf8 s).length := by
      cases hs : utf8 s with
      | nil => rw [hs] at hne; cases hne
      | cons b t => simp
    refine allOf_safe ?_
    simp only [List.forall_mem_cons]
    refine ⟨safe_pure _, ?_, ?_, by simp⟩
    · rw [item_of_lt hlen]
      exact safe_pure _
    · rw [sliceOf_of_le (by omega) (le_refl _)]
      exact safe_pure _

theorem decimal_safe (v : C) : Safe (decimal v) := by
  unfold decimal
  split
  · exact safe_pure _
  · exact (canonicalDecimal_safe _).bind fun _ _ => safe_pure _

theorem decimalAtMost_safe (v w : C) : Safe (decimalAtMost v w) := by
  refine (decimal_safe v).bind fun a _ => (decimal_safe w).bind fun b _ => ?_
  cases a <;> cases b <;> exact safe_pure _

theorem unitOk_safe (unit : String) : Safe (unitOk unit) := by
  refine Safe.bind ?_ fun _ _ => safe_pure _
  unfold isoUnit
  split
  · exact safe_pure _
  · rename_i b _
    refine allOf_cons_safe (safe_pure _) fun hlen => ?_
    have h11 : b.length = 11 := by simpa [pure, Except.pure] using hlen
    refine allOf_safe ?_
    simp only [List.forall_mem_cons]
    refine ⟨?_, ?_, ?_, by simp⟩
    · rw [sliceOf_of_le (by omega) (by omega)]
      exact safe_pure _
    · rw [sliceOf_of_le (by omega) (by omega)]
      exact safe_pure _
    · rw [item_of_lt (by omega)]
      exact safe_pure _

attribute [local simp] Shape.Total Rule.Total Rule.reads Rule.on Rule.boundedText Rule.fixedBytes Rule.identifier
  Rule.number Rule.count Rule.constant Rule.profileName Rule.window Rule.sizedBytes Rule.tenantRoot Rule.inline
  Rule.kidOf

theorem agent_safe (v : C) : Safe (agent v) := Shape.read_safe (by simp [agentShape]) v

theorem resource_safe (v : C) : Safe (resource v) := Shape.read_safe (by simp [resourceShape]) v

theorem party_safe (v : C) : Safe (party v) := Shape.read_safe (by simp [partyShape]) v

theorem sameOrganisation_safe (v w : C) : Safe (sameOrganisation v w) := by
  refine (party_safe v).bind fun p hp => (agent_safe w).bind fun a ha => ?_
  cases p with
  | none => cases a <;> exact safe_pure _
  | some p =>
    cases a with
    | none => exact safe_pure _
    | some a =>
      have hp := (document_eq_some (Shape.read_eq_some.mp hp).1).2.1 "organisation_root" (by decide)
      have ha := (document_eq_some (Shape.read_eq_some.mp ha).1).2.1 "organisation_root" (by decide)
      exact (index_safe hp).bind fun _ _ => (index_safe ha).bind fun _ _ => safe_pure _

theorem actionShape_total : actionShape.Total := by
  have hunit : ∀ v, Safe (match bounded v 64 with
      | none => pure false
      | some unit => unitOk unit) := by
    intro v
    split
    · exact safe_pure _
    · exact unitOk_safe _
  simp [actionShape, agent_safe, resource_safe, party_safe, decimal_safe, hunit, sameOrganisation_safe]

theorem action_safe (v : C) : Safe (action v) := Shape.read_safe actionShape_total v

theorem challengeFits_safe (c a i : C) : Safe (challengeFits c a i) := by
  refine (action_safe a).bind fun doc hdoc => ?_
  cases doc with
  | none => exact safe_pure _
  | some doc =>
    have hhas := (document_eq_some (Shape.read_eq_some.mp hdoc).1).2.1
    refine allOf_safe ?_
    simp only [List.forall_mem_cons]
    exact ⟨(index_safe (hhas "recipient" (by decide))).bind fun _ _ => safe_pure _,
      (index_safe (hhas "expires_at" (by decide))).bind fun _ _ => safe_pure _, List.forall_mem_nil _⟩

theorem shape_total (X : Crates) (s : Schema) : (s.shape X).Total := by
  cases s
  case action => exact actionShape_total
  case challenge => simp [Schema.shape, challengeShape, agent_safe, action_safe, challengeFits_safe]
  case grant => simp [Schema.shape, grantShape, decimal_safe, decimalAtMost_safe]
  all_goals simp [Schema.shape, asaShape, presentationShape, acknowledgementShape, refusalShape, delegationShape,
    templateShape, adminBindingShape, selectionShape, adminChallengeShape, adminConsumptionShape, popShape,
    credentialShape, successorShape, checkpointShape, snapshotShape]

theorem validateCore_safe (X : Crates) (v : C) (s : Schema) : Safe (validateCore X v s) :=
  Shape.validate_safe (shape_total X s) v

theorem validateCore_holds {X : Crates} {v : C} {s : Schema} (h : validateCore X v s = .ok true) :
    ∃ doc, plain v = some doc ∧ (s.shape X).Holds doc := Shape.validate_holds h

end SwarrmVerify.L4.Handshake

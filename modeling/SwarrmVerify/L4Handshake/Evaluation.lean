import SwarrmVerify.L4Handshake.Admin
import SwarrmVerify.L4Handshake.State

/-!
# Evaluation of an exchange (`b28.rs`)

A presentation is evaluated in phases. Each reads documents that the earlier
ones put into the evaluation, refuses with a reason and the vector as it
stands, or marks dimensions as verified and hands the evaluation on. A refusal
is evaluated in one go.

The source keeps the evaluation in one structure that the phases fill in, and
reads from it with `unwrap`. Here a phase is a function from one evaluation to
a run (`Core.Panics`) that returns the next, refuses, or panics, and every
`unwrap`, index, slice and checked addition is an operation that may do the
last. That none of them does is the subject of `L4Handshake.Phases`; nothing is
proved in this module.

The order of the checks is that of the source throughout, since it decides
which reason is given. Where the source evaluates a conjunction to its end
before it branches, so does the model; `grantChecks`, `asaChecks` and the like
are these lists.

Nothing is recorded here. An exchange that passes every phase still needs the
durable replay store, so no result tells to execute: the best is INDETERMINATE
with what has to be consumed (`ConsumeContext`).
-/
namespace SwarrmVerify.L4.Handshake
open Panics

/-! ## Results -/

abbrev Vector := Dimension → String

/-- No dimension is settled at first: those that v1 verifies are indeterminate,
and the others are not evaluated at all.
mirrors verify-rs/src/b28.rs:548-552 -/
def initialVector : Vector := fun d =>
  if d ∈ Dimension.verified then "INDETERMINATE" else "NOT_EVALUATED_V1"

/-- Some dimensions get a state, the others keep theirs. States are only ever
set, never compared, so marking is an override.
mirrors verify-rs/src/b28.rs:553-557 -/
def mark (vector : Vector) (names : List Dimension) (state : String) : Vector := fun d =>
  if d ∈ names then state else vector d

/-- What an evaluation reports: a verdict, the reason for it, and the vector as
far as it had been marked.
mirrors verify-rs/src/b28.rs:528-546 -/
structure ResultValue where
  verdict : String
  reason : String
  vector : Vector

/-- The dimensions in the order of their names. -/
def Dimension.sorted : List Dimension :=
  [asaReservation, binding, challenge, coverageBasis, delegation, exactAction, freshStatus, grant, history,
    liveKeyControl, nodeBasis, passportIdentity, postActionEvidenceReadiness, replay, rootChain, sourceBasis,
    templateAdminPop, transcript]

def ResultValue.json (r : ResultValue) : Value :=
  .object [("reasons", .array [.string r.reason]), ("should_execute", .bool false),
    ("vector", .object (Dimension.sorted.map fun d => (d.text, .string (r.vector d)))), ("verdict", .string r.verdict)]

/-! ## Digests and comparisons -/

/-- A map of named values, keys as text. What it encodes to does not depend on
the order of the items, since the writer sorts.
mirrors verify-rs/src/b28.rs:697-699 -/
def mapValue (items : List (String × C)) : C := .map (items.map entry)

/-- The digest of a selection of the members of a document under a domain. A
member that is missing is a panic of the source, an index out of the map.
mirrors verify-rs/src/b28.rs:701-704 -/
def namedDigest (X : Crates) (doc : Doc) (names : List String) (domain : Bytes) : Run (Option Bytes) := do
  let items ← names.mapM fun name => do return (name, ← index doc name)
  return (canonical (mapValue items)).map fun b => (X.sha256 (domain ++ b)).val

def proposalFields : List String :=
  ["tenant", "birthtag", "revision", "agent_kid", "agent_key", "owner", "purpose", "mandate_digest", "config_digest",
    "template_id", "template_version", "principal_binding_id"]

def actionScopeFields : List String :=
  ["actor", "operation", "parameter_schema", "parameter_digest", "unit", "source", "destination", "counterparty",
    "recipient", "policy_version", "policy_digest"]

/-- The digest of the members of a credential that the administrator selects and
the agent's proof of possession repeats.
mirrors verify-rs/src/b28.rs:707-709 -/
def selectedDigest (X : Crates) (credential : Doc) : Run (Option Bytes) :=
  namedDigest X credential proposalFields (utf8 "swarrm-b28/agent-proposal/v1" ++ [0])

/-- `selected_digest(credential).unwrap()` -/
def selectedBytes (X : Crates) (credential : Doc) : Run Bytes := do unwrap (← selectedDigest X credential)

/-- The digest of the members of an action that a grant fixes, leaving out what
differs from one action to the next.
mirrors verify-rs/src/b28.rs:710-712 -/
def actionScopeDigest (X : Crates) (action : Doc) : Run (Option Bytes) :=
  namedDigest X action actionScopeFields (utf8 "swarrm-b28/action-scope/v1" ++ [0])

/-- `action_scope_digest(action).unwrap()` -/
def scopeBytes (X : Crates) (action : Doc) : Run Bytes := do unwrap (← actionScopeDigest X action)

/-- A member is a byte string with the given bytes. A member that is missing is
a panic, one of another kind is a difference. -/
def isBytes (d : Doc) (k : String) (b : Bytes) : Run Bool := do return bytes (← index d k) == some b

def differ (d : Doc) (j : String) (e : Doc) (k : String) : Run Bool := do return !(← same d j e k)

/-- `a ≤ b && b < c` for three numbers that are there, as the windows of
validity have it: closed at the start and open at the end. -/
def ordered (a b c : C) : Bool :=
  match uint a, uint b, uint c with
  | some a, some b, some c => a ≤ b && b < c
  | _, _, _ => false

/-- A credential names its successor link by digest and the link names the
credential back, or neither is there. One without the other is a refusal.
mirrors verify-rs/src/b28.rs:713-722 -/
def successorMatches (X : Crates) (credential : Doc) (envelope : Option Cwt) (now : Nat) : Run Bool := do
  match ← index credential "agent_successor_digest", envelope with
  | .null, none => return true
  | .bytes digest, some envelope => do
    let link ← unwrap (plain envelope.core)
    allOf [pure (digest == coreDigest X envelope.coreBytes), same link "successor_birthtag" credential "birthtag",
      same link "successor_revision" credential "revision",
      do return bytes (← index link "successor_proposal_digest") == (← selectedDigest X credential),
      do return (uint (← index link "effective_at")).any (· ≤ now)]
  | _, _ => return false

/-- How a checkpoint stands to the local head: older is a rollback, newer is
ahead of what is known here, and at the same sequence all three roots and sizes
must agree.
mirrors verify-rs/src/b28.rs:723-731 -/
def checkpointHeadError (checkpoint : Doc) (sequence : Nat) (head : Head) : Run (Option (String × String)) :=
  if sequence < head.sequence then return some ("FAIL", "AUTHORITY_CHECKPOINT_ROLLBACK")
  else if sequence > head.sequence then return some ("INDETERMINATE", "AUTHORITY_CHECKPOINT_AHEAD_OF_LOCAL_HEAD")
  else do
    let agree ← allOf [isBytes checkpoint "authority_root" head.authorityRoot,
      isBytes checkpoint "log_root" head.logRoot,
      do return uint (← index checkpoint "log_size") == some head.logSize]
    return if agree then none else some ("FAIL", "AUTHORITY_CHECKPOINT_FORK")

/-- A credential names the selection and the proof of possession that it was
issued on, each by its digest.
mirrors verify-rs/src/b28.rs:736-738 -/
def registrationDigestsMatch (X : Crates) (credential : Doc) (selection pop : Bytes) : Run Bool :=
  allOf [isBytes credential "admin_selection_digest" (coreDigest X selection),
    isBytes credential "agent_pop_digest" (coreDigest X pop)]

/-! ## The evaluation -/

/-- What a durable store is asked to consume: the reservation by its
identifiers, the action by its own, and what both must be bound to.
mirrors verify-rs/src/b28.rs:742-748 -/
structure ConsumeContext where
  key : String × Bytes × Bytes × Bytes
  actionKey : String × Bytes × Bytes
  actionDigest : Bytes
  presentationDigest : Bytes
  vector : Vector

abbrev Table := List (String × Cwt)

/-- What is known after each phase. The last six fields are empty until the
phase that sets them: the two tables, the credential, the selection and the
head.
mirrors verify-rs/src/b28.rs:750-764 -/
structure Evaluation where
  vector : Vector
  challenge : Cwt
  challengeDoc : Doc
  action : Doc
  actionBytes : Bytes
  pres : Doc
  rooted : Table
  signed : Table
  credential : Option Cwt
  selection : Option C
  selectionRaw : Bytes
  headRoot : Bytes

/-- `doc[name]` -/
def value (d : Doc) (k : String) : Run C := index d k

/-- `table[name]`: an envelope that a former phase has put there, so that the
lookup fails only by a slip. -/
def envelope (table : Table) (k : String) : Run Cwt := index table k

/-- `plain(v).unwrap()`: the document of a value that a schema has already
accepted as a map with text keys. -/
def docIn (v : C) : Run Doc := unwrap (plain v)

/-- `canonical(v).unwrap()`: the encoding of a value that came from an encoding,
so that there is one. -/
def bytesIn (v : C) : Run Bytes := unwrap (canonical v)

/-- The document of an envelope of a table, by the name it was read under. -/
def docOf (table : Table) (k : String) : Run Doc := do docIn (← envelope table k).core

/-- The digest of the document of an envelope of a table: over the bytes it was
decoded from, under the domain for documents. -/
def digestOf (X : Crates) (table : Table) (k : String) : Run Bytes := do
  return coreDigest X (← envelope table k).coreBytes

/-- The document that a member holds, which the schema of the outer document
requires to be a map. -/
def inner (d : Doc) (k : String) : Run Doc := do docIn (← index d k)

def number (d : Doc) (k : String) : Run Nat := do unwrap (uint (← index d k))

def raw (d : Doc) (k : String) : Run Bytes := do unwrap (bytes (← index d k))

def name (d : Doc) (k : String) : Run String := do unwrap (text (← index d k))

namespace Evaluation

variable (H : Host) (input : InputContext)

/-- A refusal at the current vector, which keeps what has been verified before
it.
mirrors verify-rs/src/b28.rs:767-769 -/
def reject (ev : Evaluation) (verdict reason : String) : ResultValue := ⟨verdict, reason, ev.vector⟩

/-- The challenge, under the challenger's keys, and what the presentation says
of it. The action must be current and not live longer than the local policy lets
it. Marks the challenge.
mirrors verify-rs/src/b28.rs:771-801 -/
def start : Phase ResultValue Evaluation := do
  let vector := initialVector
  require (!input.challengerKeys.isEmpty) ⟨"INDETERMINATE", "NO_LOCAL_CHALLENGER_KEY", vector⟩
  let challenge ← orElse (← signedCwt H input.challenge .challenge input.challengerKeys)
    ⟨"FAIL", "CHALLENGE_SIGNATURE_OR_PROFILE_INVALID", vector⟩
  let challengeDoc ← docIn challenge.core
  let challenger ← inner challengeDoc "challenger"
  require (text (← value challenger "agent_kid") == some challenge.kid) ⟨"FAIL", "CHALLENGE_SIGNER_MISMATCH", vector⟩
  let action ← inner challengeDoc "action"
  require ((← number challengeDoc "issued_at") ≤ input.now) ⟨"INDETERMINATE", "CHALLENGE_NOT_CURRENT", vector⟩
  require (input.now < (← number action "expires_at")) ⟨"FAIL", "CHALLENGE_EXPIRED", vector⟩
  require ((← sub (← number action "expires_at") (← number challengeDoc "issued_at")) ≤ input.maxActionLifetime)
    ⟨"INDETERMINATE", "ACTION_LIFETIME_EXCEEDS_LOCAL_POLICY", vector⟩
  let vector := mark vector [.challenge] "VERIFIED"
  let presentation ← orElse (← inspectCwt H input.presentation .presentation)
    ⟨"FAIL", "PRESENTATION_NOT_STRICT_CWT", vector⟩
  let pres ← docIn presentation.core
  let actionBytes ← bytesIn (← value challengeDoc "action")
  require (← eager [isBytes pres "challenge_envelope_hash" (H.sha256 input.challenge).val,
      isBytes pres "challenge_digest" (coreDigest H.toCrates challenge.coreBytes),
      isBytes pres "action_digest" (coreDigest H.toCrates actionBytes)])
    ⟨"FAIL", "PRESENTATION_CHALLENGE_OR_ACTION_MISMATCH", vector⟩
  return ⟨vector, challenge, challengeDoc, action, actionBytes, pres, [], [], none, none, [], []⟩

def rootItems : List (String × Schema) :=
  [("root_delegation", .rootDelegation), ("registration_template", .template), ("admin_binding", .adminBinding),
    ("admin_challenge", .adminChallenge), ("admin_consumption", .adminConsumption), ("limit_grant", .grant),
    ("authority_checkpoint", .checkpoint)]

/-- A root-signed envelope inlined in a member, verified under the relying
party's roots; a member that is not a byte string is as good as a bad
signature. -/
def rootMember (v : C) (schema : Schema) : Run (Option Cwt) :=
  match bytes v with
  | none => return none
  | some raw => rootCwt H raw schema input.roots

/-- An envelope signed with one of the given keys, inlined in a member; nothing
else about it is checked here. -/
def signedMember (v : C) (schema : Schema) (keys : Keys) : Run (Option Cwt) :=
  match bytes v with
  | none => return none
  | some raw => signedCwt H raw schema keys

/-- The holder's envelope inlined in a member. It is only inspected: which key
must have signed it is known later, from the credential. -/
def holderMember (v : C) : Run (Option Cwt) :=
  match bytes v with
  | none => return none
  | some raw => inspectCwt H raw .credential

def readRoots (ev : Evaluation) : List (String × Schema) → Table → Phase ResultValue Table
  | [], rooted => return rooted
  | (name, schema) :: items, rooted => do
    let cwt ← orElse (← rootMember H input (← value ev.pres name) schema)
      (ev.reject "FAIL" "ROOT_AUTHORITY_CHAIN_INVALID")
    readRoots ev items (rooted ++ [(name, cwt)])

def readSuccessor (ev : Evaluation) (rooted : Table) : Phase ResultValue Table := do
  match bytes (← value ev.pres "agent_successor") with
  | none => return rooted
  | some raw =>
    let successor ← orElse (← rootCwt H raw .agentSuccessor input.roots)
      (ev.reject "FAIL" "ROOT_AUTHORITY_CHAIN_INVALID")
    return rooted ++ [("agent_successor", successor)]

/-- An envelope is of the delegation's organisation and tenant, so that no
root-signed document of another tenant can be put in. -/
def sameAuthority (delegation : Doc) (cwt : Cwt) : Run Bool :=
  match plain cwt.core with
  | none => return false
  | some doc => allOf [same doc "organisation_root" delegation "organisation_root", same doc "tenant" delegation "tenant"]

/-- The root-signed documents, all under the pinned roots and of one tenant,
whose organisation the action names as its actor's. The delegation must be live.
Marks the root chain and the delegation.
mirrors verify-rs/src/b28.rs:803-830 -/
def roots (ev : Evaluation) : Phase ResultValue Evaluation := do
  let rooted ← readSuccessor H input ev (← readRoots H input ev rootItems [])
  let delegation ← docOf rooted "root_delegation"
  require (← allOf (rooted.map fun e => sameAuthority delegation e.2)) (ev.reject "FAIL" "ROOT_OR_TENANT_SUBSTITUTION")
  let actor ← inner ev.action "actor"
  require (← same actor "organisation_root" delegation "organisation_root")
    (ev.reject "FAIL" "ACTOR_ORGANISATION_MISMATCH")
  require (← live delegation "valid_from" "valid_to" input.now) (ev.reject "FAIL" "AUTHORITY_DELEGATION_INACTIVE")
  return { ev with rooted := rooted, vector := mark ev.vector [.rootChain, .delegation] "VERIFIED" }

/-- The documents signed under the delegation, each by the key its role has in
it: the passport authority's, the action authority's and the agent's own, which
the credential carries. Marks the passport and the live control of the key.
mirrors verify-rs/src/b28.rs:832-860 -/
def signatures (ev : Evaluation) : Phase ResultValue Evaluation := do
  let refused := ev.reject "FAIL" "DELEGATED_OR_AGENT_SIGNATURE_INVALID"
  let delegation ← docOf ev.rooted "root_delegation"
  let psa : Keys := [(← name delegation "passport_authority_kid", ← raw delegation "passport_authority_key")]
  let act : Keys := [(← name delegation "action_authority_kid", ← raw delegation "action_authority_key")]
  let credential ← orElse (← signedMember H (← value ev.pres "passport") .credential psa) refused
  let holder ← orElse (← holderMember H (← value ev.pres "passport_holder_proof")) refused
  require (eqv holder.core credential.core) (ev.reject "FAIL" "PASSPORT_HOLDER_CORE_MISMATCH")
  let doc ← docIn credential.core
  let agent : Keys := [(← name doc "agent_kid", ← raw doc "agent_key")]
  let proof ← orElse (← signedMember H (← value ev.pres "passport_holder_proof") .credential agent) refused
  let pop ← orElse (← signedMember H (← value ev.pres "agent_pop") .agentPop agent) refused
  let snapshot ← orElse (← signedMember H (← value ev.pres "status_snapshot") .snapshot psa) refused
  let asa ← orElse (← signedMember H (← value ev.pres "asa") .asa act) refused
  require (← signedCwt H input.presentation .presentation agent).isSome refused
  return { ev with
    signed := [("passport_holder_proof", proof), ("agent_pop", pop), ("status_snapshot", snapshot), ("asa", asa)],
    credential := some credential, vector := mark ev.vector [.liveKeyControl, .passportIdentity] "VERIFIED" }

/-- `self.credential.as_ref().unwrap()`: the phase for signatures has set it. -/
def passportCwt (ev : Evaluation) : Run Cwt := unwrap ev.credential

/-- The document of the credential, the agent's passport. -/
def credentialDoc (ev : Evaluation) : Run Doc := do docIn (← ev.passportCwt).core

/-- The credential against the delegation, the action and the template. The
agent's key is none of the authorities', and a successor link is there if and
only if the credential names one. Marks the binding.
mirrors verify-rs/src/b28.rs:862-886 -/
def passport (ev : Evaluation) : Phase ResultValue Evaluation := do
  let credential ← ev.credentialDoc
  let delegation ← docOf ev.rooted "root_delegation"
  let template ← docOf ev.rooted "registration_template"
  let actor ← inner ev.action "actor"
  let paired ← eager [same credential "organisation_root" delegation "organisation_root",
    same credential "tenant" delegation "tenant", same credential "authority_delegation_id" delegation "delegation_id",
    same credential "birthtag" actor "birthtag", same credential "revision" actor "revision",
    same credential "agent_kid" actor "agent_kid"]
  let distinct ← allOf [differ credential "agent_key" delegation "passport_authority_key",
    differ credential "agent_key" delegation "action_authority_key"]
  let current ← live credential "valid_from" "valid_to" input.now
  require distinct (ev.reject "FAIL" "AUTHORITY_KEY_ROLE_COLLISION")
  require (paired && current) (ev.reject "FAIL" "PASSPORT_BINDING_OR_VALIDITY_INVALID")
  require (← successorMatches H.toCrates credential (ev.rooted.lookup "agent_successor") input.now)
    (ev.reject "FAIL" "AGENT_SUCCESSOR_INVALID")
  let templated ← live template "valid_from" "valid_to" input.now
  let alike ← allOf (["template_id", "template_version", "owner", "purpose", "mandate_digest", "config_digest"].map
    fun k => same credential k template k)
  require (alike && templated) (ev.reject "FAIL" "PASSPORT_TEMPLATE_MISMATCH")
  return { ev with vector := mark ev.vector [.binding] "VERIFIED" }

/-- The bindings between selection, template, administrator, challenge and proof
of possession: all name one proposal, one template, one binding and one
challenge, at times in order. -/
def issuanceChecks (credential template admin challenge pop selection : Doc) (proposal : Bytes) : List (Run Bool) :=
  [isBytes selection "proposed_agent_digest" proposal, same selection "template_id" template "template_id",
    same selection "template_version" template "template_version", same selection "binding_id" admin "binding_id",
    same credential "principal_binding_id" admin "binding_id", same selection "challenge_id" challenge "challenge_id",
    same selection "challenge" challenge "challenge", same selection "binding_id" challenge "binding_id",
    same selection "template_id" challenge "template_id",
    same selection "template_version" challenge "template_version",
    same selection "proposed_agent_digest" challenge "proposed_agent_digest",
    isBytes pop "proposed_agent_digest" proposal, same pop "challenge" selection "challenge",
    same pop "birthtag" credential "birthtag", same pop "revision" credential "revision",
    same pop "agent_kid" credential "agent_kid", same challenge "tenant" credential "tenant",
    same challenge "organisation_root" credential "organisation_root",
    do return ordered (← index admin "valid_from") (← index challenge "issued_at") (← index admin "valid_to"),
    do return ordered (← index challenge "issued_at") (← index selection "selected_at") (← index challenge "expires_at")]

/-- The counter state that a consumption records. The schema has made the two
flags booleans, so the other branch is unreachable. -/
def recordedState (consumption : Doc) : Run CounterState := do
  match ← index consumption "backup_eligible", ← index consumption "backup_state" with
  | .bool eligible, .bool state =>
    return ⟨← number consumption "sign_count_before", ← number consumption "sign_count_after", eligible, state⟩
  | _, _ => .error .unreachable

/-- The bindings of a consumption: to the challenge, the selection and the
credential by their digests, and in time between the selection and the
expiry. -/
def consumptionChecks (X : Crates) (admin challenge consumption selection : Doc)
    (challengeDigest selectionRaw credentialBytes : Bytes) (now : Nat) : List (Run Bool) :=
  [same consumption "tenant" challenge "tenant", same consumption "organisation_root" challenge "organisation_root",
    same consumption "binding_id" admin "binding_id", same consumption "challenge_id" challenge "challenge_id",
    isBytes consumption "challenge_digest" challengeDigest,
    isBytes consumption "selection_digest" (coreDigest X selectionRaw),
    isBytes consumption "credential_digest" (coreDigest X credentialBytes),
    do return match uint (← index selection "selected_at"), uint (← index consumption "consumed_at"),
        uint (← index challenge "expires_at") with
      | some a, some b, some c => a ≤ b && b ≤ now && b < c
      | _, _, _ => false]

/-- The administrator's selection, if it decodes within its own limit and has
the shape of one. -/
def readSelection (selectionRaw : Bytes) : Run (Option C) :=
  match decode H selectionRaw 16384 with
  | none => return none
  | some v => do return if ← selectionShape.validate v then some v else none

/-- How the credential was issued: a template, an administrator's selection and
the agent's proof of possession, consumed at the counter it records. Marks the
three as one dimension.
mirrors verify-rs/src/b28.rs:888-937 -/
def registration (ev : Evaluation) : Phase ResultValue Evaluation := do
  let issuance := ev.reject "FAIL" "TEMPLATE_ADMIN_POP_ISSUANCE_INVALID"
  let consumed := ev.reject "FAIL" "TEMPLATE_ADMIN_POP_CONSUMPTION_INVALID"
  let credential ← ev.credentialDoc
  let template ← docOf ev.rooted "registration_template"
  let admin ← docOf ev.rooted "admin_binding"
  let challenge ← docOf ev.rooted "admin_challenge"
  let consumption ← docOf ev.rooted "admin_consumption"
  let pop ← docOf ev.signed "agent_pop"
  let selectionRaw ← raw ev.pres "admin_selection"
  let selectionValue ← orElse (← readSelection H selectionRaw) issuance
  let selection ← docIn selectionValue
  let proposal ← selectedBytes H.toCrates credential
  require (← eager (issuanceChecks credential template admin challenge pop selection proposal)) issuance
  let state ← recordedState consumption
  require ((← (verifyAdmin H admin selectionValue input.origin state.before input.now).run) == some state) consumed
  require (← registrationDigestsMatch H.toCrates credential selectionRaw (← envelope ev.signed "agent_pop").coreBytes)
    issuance
  require (← eager (consumptionChecks H.toCrates admin challenge consumption selection
    (← digestOf H.toCrates ev.rooted "admin_challenge") selectionRaw (← ev.passportCwt).coreBytes input.now))
    consumed
  return { ev with
    selectionRaw := selectionRaw, selection := some selectionValue,
    vector := mark ev.vector [.templateAdminPop] "VERIFIED" }

/-- What a checkpoint says of its log, in the form in which the relying party
has it registered. -/
def pinOf (checkpoint : Doc) : Run Pin := do
  return ⟨← name checkpoint "tenant", ← raw checkpoint "organisation_root", ← number checkpoint "sequence",
    ← raw checkpoint "authority_root", ← raw checkpoint "log_root", ← number checkpoint "log_size"⟩

/-- The bindings of a status snapshot: to the checkpoint by its digest, and to
the proofs by theirs under a domain of their own. -/
def snapshotChecks (X : Crates) (snapshot checkpoint delegation : Doc) (digest proofBytes : Bytes) : List (Run Bool) :=
  [same snapshot "organisation_root" checkpoint "organisation_root", same snapshot "tenant" checkpoint "tenant",
    same snapshot "authority_delegation_id" delegation "delegation_id", isBytes snapshot "checkpoint_digest" digest,
    isBytes snapshot "proofs_digest" (X.sha256 (utf8 "swarrm-b28/proofs/v1" ++ 0 :: proofBytes)).val]

/-- The checkpoint against the registered pins and the local head, the ancestry
of the log since the passport was issued, and the age of the status. Everything
after it is proved under the head it returns.
mirrors verify-rs/src/b28.rs:939-979 -/
def checkpoint (ev : Evaluation) : Phase ResultValue Evaluation := do
  let doc ← docOf ev.rooted "authority_checkpoint"
  let credential ← ev.credentialDoc
  let delegation ← docOf ev.rooted "root_delegation"
  let digest ← digestOf H.toCrates ev.rooted "authority_checkpoint"
  let pin ← pinOf doc
  require (input.checkpoints.lookup digest == some pin) (ev.reject "INDETERMINATE" "AUTHORITY_CHECKPOINT_UNREGISTERED")
  let head ← orElse (input.heads.lookup (pin.tenant, pin.organisationRoot))
    (ev.reject "INDETERMINATE" "LOCAL_AUTHORITY_HEAD_UNAVAILABLE")
  match ← checkpointHeadError doc pin.sequence head with
  | some (verdict, reason) => throw (ev.reject verdict reason)
  | none =>
    let issued ← orElse ((input.checkpoints.lookup (← raw credential "issuance_checkpoint")).filter fun e =>
        e.tenant == pin.tenant && e.organisationRoot == pin.organisationRoot && e.sequence ≤ pin.sequence)
      (ev.reject "INDETERMINATE" "PASSPORT_ISSUANCE_CHECKPOINT_UNREGISTERED")
    require (verifyConsistencyProof H.toCrates (← value ev.pres "issuance_consistency_proof") issued.logSize pin.logSize
      issued.logRoot pin.logRoot) (ev.reject "FAIL" "PASSPORT_ISSUANCE_LOG_NOT_ANCESTOR")
    let snapshot ← docOf ev.signed "status_snapshot"
    let proofBytes ← bytesIn (← value ev.pres "state_proofs")
    require (← eager (snapshotChecks H.toCrates snapshot doc delegation digest proofBytes))
      (ev.reject "FAIL" "STATUS_CHECKPOINT_BINDING_INVALID")
    let issuedAt ← number doc "issued_at"
    let maxAge ← number ev.challengeDoc "max_checkpoint_age"
    require (issuedAt ≤ input.now && input.now - issuedAt ≤ maxAge)
      (ev.reject "INDETERMINATE" "STATUS_CHECKPOINT_STALE")
    require (← same doc "issued_at" snapshot "status_as_of") (ev.reject "FAIL" "STATUS_CHECKPOINT_BINDING_INVALID")
    require (input.now < (← number snapshot "expires_at")) (ev.reject "INDETERMINATE" "STATUS_CHECKPOINT_STALE")
    return { ev with headRoot := head.authorityRoot }

/-- An object whose state is proved: where it stands among the proofs, the key
it has in the tree, and the state and version it must have. -/
structure StateClaim where
  name : String
  kind : String
  id : Bytes
  digest : Bytes
  state : String
  version : Option Nat

/-- An identifier followed by a number in eight bytes, the way the tree keys an
object with revisions. -/
def versioned (d : Doc) (id version : String) : Run Bytes := do
  return (← raw d id) ++ Sha256.bytesBE 8 (← number d version)

/-- 32 bytes that a member holds, as the schema requires of digests. -/
def digestIn (d : Doc) (k : String) : Run Bytes := do return (← unwrap (toDigest (← raw d k))).val

/-- The objects of an exchange, in the order in which their states are checked.
All are active but the challenge, which its consumption has superseded. -/
def stateClaims (X : Crates) (ev : Evaluation) (credential delegation template admin grant selection adminChallenge
    adminConsumption : Doc) : Run (List StateClaim) := do
  let revision ← versioned credential "birthtag" "revision"
  let selectionId ← raw selection "challenge_id"
  let grantId ← versioned grant "grant_id" "grant_version"
  let passportDigest := coreDigest X (← ev.passportCwt).coreBytes
  return [⟨"root_delegation", "root_delegation", ← raw delegation "delegation_id",
      ← digestOf X ev.rooted "root_delegation", "ACTIVE", none⟩,
    ⟨"registration_template", "registration_template", ← raw template "template_id",
      ← digestOf X ev.rooted "registration_template", "ACTIVE", none⟩,
    ⟨"mandate", "mandate", ← raw template "mandate_digest", ← digestIn template "mandate_digest", "ACTIVE", none⟩,
    ⟨"agent_config", "agent_config", ← raw template "config_digest", ← digestIn template "config_digest", "ACTIVE",
      none⟩,
    ⟨"admin_binding", "admin_binding", ← raw admin "binding_id", ← digestOf X ev.rooted "admin_binding", "ACTIVE",
      none⟩,
    ⟨"admin_selection", "admin_selection", selectionId, coreDigest X ev.selectionRaw, "ACTIVE", none⟩,
    ⟨"admin_challenge", "admin_challenge", ← raw adminChallenge "challenge_id",
      ← digestOf X ev.rooted "admin_challenge", "SUPERSEDED", none⟩,
    ⟨"admin_consumption", "admin_consumption", ← raw adminConsumption "challenge_id",
      ← digestOf X ev.rooted "admin_consumption", "ACTIVE", none⟩,
    ⟨"agent_pop", "agent_pop", revision, ← digestOf X ev.signed "agent_pop", "ACTIVE", none⟩,
    ⟨"passport", "agent_credential", revision, passportDigest, "ACTIVE", none⟩,
    ⟨"agent_head", "agent_head", ← raw credential "birthtag", passportDigest, "ACTIVE",
      uint (← value credential "revision")⟩,
    ⟨"limit_grant", "limit_grant", grantId, ← digestOf X ev.rooted "limit_grant", "ACTIVE", none⟩,
    ⟨"grant_head", "grant_head", ← raw grant "grant_id", ← digestOf X ev.rooted "limit_grant", "ACTIVE", none⟩]

def proveStates (X : Crates) (ev : Evaluation) (proofs : Doc) : List StateClaim → Phase ResultValue Unit
  | [] => return ()
  | o :: rest => do
    require (← verifyState X (← value proofs o.name) ev.headRoot (stateKey X o.kind o.id) o.digest o.state o.version)
      (ev.reject "FAIL" ("AUTHORITY_STATE_PROOF_INVALID:" ++ o.name))
    proveStates X ev proofs rest

/-- `checked_add(1)`, which has no value at the end of the range. -/
def nextVersion (n : Nat) : Option Nat := if n + 1 < 2 ^ 64 then some (n + 1) else none

/-- The states of a successor and of its predecessor, where there is one. Where
there is none, the proofs must say so with a null. -/
def proveSuccessor (X : Crates) (ev : Evaluation) (proofs credential : Doc) : Phase ResultValue Unit :=
  match ev.rooted.lookup "agent_successor" with
  | some cwt => do
    let link ← docIn cwt.core
    let successor ← verifyState X (← value proofs "agent_successor") ev.headRoot
      (stateKey X "agent_successor" (← raw credential "birthtag")) (coreDigest X cwt.coreBytes) "ACTIVE" (some 1)
    let predecessor ← verifyState X (← value proofs "predecessor_head") ev.headRoot
      (stateKey X "agent_head" (← raw link "predecessor_birthtag")) (← raw link "predecessor_credential_digest")
      "SUPERSEDED" ((uint (← value link "predecessor_revision")).bind nextVersion)
    require (successor && predecessor) (ev.reject "FAIL" (if !successor then
      "AUTHORITY_STATE_PROOF_INVALID:agent_successor" else "AUTHORITY_STATE_PROOF_INVALID:predecessor_head"))
  | none => do
    let absent ← allOf [do return isNull (← value proofs "agent_successor"),
      do return isNull (← value proofs "predecessor_head")]
    require absent (ev.reject "FAIL" "AGENT_SUCCESSOR_INVALID")

/-- The state of every object under the authority's root, one by one, and the
head of the administrator's counter. Marks the freshness of the status.
mirrors verify-rs/src/b28.rs:981-1026 -/
def authorityProofs (ev : Evaluation) : Phase ResultValue Evaluation := do
  let credential ← ev.credentialDoc
  let delegation ← docOf ev.rooted "root_delegation"
  let template ← docOf ev.rooted "registration_template"
  let admin ← docOf ev.rooted "admin_binding"
  let grant ← docOf ev.rooted "limit_grant"
  let selection ← docIn (← selectionValue ev)
  let adminChallenge ← docOf ev.rooted "admin_challenge"
  let adminConsumption ← docOf ev.rooted "admin_consumption"
  let objects ← stateClaims H.toCrates ev credential delegation template admin grant selection adminChallenge
    adminConsumption
  let proofs ← inner ev.pres "state_proofs"
  proveStates H.toCrates ev proofs objects
  proveSuccessor H.toCrates ev proofs credential
  require (← verifyCounterHead H.toCrates (← value proofs "admin_counter") ev.headRoot
    (← raw adminConsumption "binding_id") (← number adminConsumption "counter_version"))
    (ev.reject "FAIL" "AUTHORITY_STATE_PROOF_INVALID:admin_counter")
  return { ev with vector := mark ev.vector [.freshStatus] "VERIFIED" }
where
  /-- `self.selection.as_ref().unwrap()` -/
  selectionValue (ev : Evaluation) : Run C := unwrap ev.selection

/-- The limits that a grant sets to an action: who acts for whom, the operation,
the unit, the scope by its digest, two windows of time and the ceiling. -/
def grantChecks (grant delegation actor recipient action : Doc) (scope : Bytes) (now : Nat) : List (Run Bool) :=
  [same grant "tenant" delegation "tenant", same grant "organisation_root" delegation "organisation_root",
    same grant "authority_delegation_id" delegation "delegation_id", same grant "actor_birthtag" actor "birthtag",
    same grant "recipient_organisation_root" recipient "organisation_root", same grant "operation" action "operation",
    same grant "unit" action "unit", isBytes grant "action_scope_digest" scope, same grant "grant_id" action "grant_id",
    same grant "grant_version" action "grant_version", live grant "valid_from" "valid_to" now,
    live grant "window_start" "window_end" now, do decimalAtMost (← index action "value") (← index grant "ceiling")]

/-- The bindings of an assurance to the action and the challenge, both by
digest, and its own validity. -/
def asaChecks (asa delegation action : Doc) (actionDigest challengeDigest : Bytes) (now : Nat) : List (Run Bool) :=
  [same asa "organisation_root" delegation "organisation_root", same asa "tenant" delegation "tenant",
    same asa "authority_delegation_id" delegation "delegation_id", same asa "asa_id" action "asa_id",
    isBytes asa "action_digest" actionDigest, isBytes asa "challenge_digest" challengeDigest,
    same asa "grant_id" action "grant_id", same asa "grant_version" action "grant_version",
    same asa "expires_at" action "expires_at", live asa "issued_at" "expires_at" now]

/-- The action against its grant, which marks the grant, then the assurance
against the action, which marks the reservation and the exact action.
mirrors verify-rs/src/b28.rs:1028-1059 -/
def exactAction (ev : Evaluation) : Phase ResultValue Evaluation := do
  let delegation ← docOf ev.rooted "root_delegation"
  let grant ← docOf ev.rooted "limit_grant"
  let actor ← inner ev.action "actor"
  let recipient ← inner ev.action "recipient"
  let scope ← scopeBytes H.toCrates ev.action
  require (← eager (grantChecks grant delegation actor recipient ev.action scope input.now))
    (ev.reject "FAIL" "ACTION_OUTSIDE_ROOT_LIMIT_GRANT")
  let ev := { ev with vector := mark ev.vector [.grant] "VERIFIED" }
  let asa ← docOf ev.signed "asa"
  require (← eager (asaChecks asa delegation ev.action (coreDigest H.toCrates ev.actionBytes)
    (coreDigest H.toCrates ev.challenge.coreBytes) input.now))
    (ev.reject "FAIL" "ASA_EXACT_BINDING_OR_VALIDITY_INVALID")
  return { ev with vector := mark ev.vector [.asaReservation, .exactAction] "VERIFIED" }

def transcript (X : Crates) (challenge challengeBytes actionBytes asa asaBytes : Bytes) : C :=
  mapValue [("schema", .text "swarrm-b28/transcript/v1"), ("challenge_envelope_hash", .bytes (X.sha256 challenge).val),
    ("challenge_digest", .bytes (coreDigest X challengeBytes)), ("action_digest", .bytes (coreDigest X actionBytes)),
    ("asa_envelope_hash", .bytes (X.sha256 asa).val), ("asa_digest", .bytes (coreDigest X asaBytes))]

/-- The items of a list of required dimensions, which the schema has made an
array. -/
def requiredItems (v : C) : Run (List C) :=
  match v with
  | .array items => return items
  | _ => .error .unreachable

/-- The required dimensions that v1 does not evaluate. One of them leaves the
verdict indeterminate, whatever else holds. -/
def unavailable (required : List C) : List String :=
  (required.filterMap text).filter fun s => (Dimension.unevaluated.map Dimension.text).contains s

/-- The transcript over challenge, action and assurance, the time of the
presentation, and the dimensions asked for. What is left is for a durable store
to consume.
mirrors verify-rs/src/b28.rs:1061-1089 -/
def finish (ev : Evaluation) : Phase ResultValue ConsumeContext := do
  let delegation ← docOf ev.rooted "root_delegation"
  let asaRaw ← raw ev.pres "asa"
  let bound ← bytesIn (transcript H.toCrates input.challenge ev.challenge.coreBytes ev.actionBytes asaRaw
    (← envelope ev.signed "asa").coreBytes)
  require (← isBytes ev.pres "transcript_digest" (H.sha256 (utf8 "swarrm-b28/transcript/v1" ++ 0 :: bound)).val)
    (ev.reject "FAIL" "TRANSCRIPT_BINDING_INVALID")
  require (ordered (← value ev.challengeDoc "issued_at") (← value ev.pres "created_at") (← value ev.action "expires_at"))
    (ev.reject "FAIL" "PRESENTATION_TIME_OUTSIDE_CHALLENGE")
  let asa ← docOf ev.signed "asa"
  let doc ← docOf ev.rooted "authority_checkpoint"
  let snapshot ← docOf ev.signed "status_snapshot"
  let createdAt ← number ev.pres "created_at"
  require (← eager [do return (uint (← value asa "issued_at")).any (· ≤ createdAt),
      do return (uint (← value doc "issued_at")).any (· ≤ createdAt),
      do return (uint (← value snapshot "status_as_of")).any (· ≤ createdAt)])
    (ev.reject "FAIL" "PRESENTATION_TIME_OUTSIDE_ASSURANCE")
  require (createdAt ≤ input.now) (ev.reject "FAIL" "PRESENTATION_TIME_OUTSIDE_LOCAL_CLOCK")
  let ev := { ev with vector := mark ev.vector [.transcript] "VERIFIED" }
  let missing := unavailable (← requiredItems (← value ev.challengeDoc "required_dimensions"))
  require missing.isEmpty
    (ev.reject "INDETERMINATE" ("REQUIRED_DIMENSION_NOT_EVALUATED_V1:" ++ String.intercalate "," missing))
  let actor ← inner ev.action "actor"
  let tenant ← name delegation "tenant"
  return ⟨(tenant, ← raw delegation "organisation_root", ← raw delegation "delegation_id", ← raw ev.action "asa_id"),
    (tenant, ← raw actor "organisation_root", ← raw ev.action "action_id"), coreDigest H.toCrates ev.actionBytes,
    (H.sha256 input.presentation).val, ev.vector⟩

/-- Every phase in order. Each works on what the last has left, and the first
refusal ends the evaluation with the vector of its time. -/
def phases : Phase ResultValue ConsumeContext := do
  let ev ← start H input
  let ev ← roots H input ev
  let ev ← signatures H input ev
  let ev ← passport H input ev
  let ev ← registration H input ev
  let ev ← checkpoint H input ev
  let ev ← authorityProofs H ev
  let ev ← exactAction H input ev
  finish H input ev

end Evaluation

/-- The evaluation of a presentation. It never ends better than indeterminate:
with a candidate in hand it asks for durable replay protection.
mirrors verify-rs/src/b28.rs:1092-1115 -/
def evaluate (H : Host) (input : InputContext) : Run (ResultValue × Option ConsumeContext) := do
  match ← (Evaluation.phases H input).run with
  | .ok ctx => return (⟨"INDETERMINATE", "DURABLE_REPLAY_REQUIRED", ctx.vector⟩, some ctx)
  | .error result => return (result, none)

/-! ## Refusals -/

/-- When a refusal may have been made: not after the local clock, and within the
life of the challenged action.
mirrors verify-rs/src/b28.rs:1117-1123 -/
def refusalTimeReason (challenge refusal action : Doc) (now : Nat) : Run (Option String) := do
  match uint (← index refusal "created_at") with
  | none => return some "REFUSAL_TIME_OUTSIDE_LOCAL_CLOCK"
  | some created =>
    if created > now then return some "REFUSAL_TIME_OUTSIDE_LOCAL_CLOCK"
    else return if within (← index challenge "issued_at") (← index action "expires_at") created then none
      else some "REFUSAL_TIME_OUTSIDE_CHALLENGE"

/-- The checks of a refusal, in order: the challenge under the challenger, the
refusal under the responder, what the one says of the other, and the time.
mirrors verify-rs/src/b28.rs:1125-1162 -/
def refusalPhase (H : Host) (input : RefusalContext) : Phase ResultValue Unit := do
  let vector := initialVector
  require (!input.challengerKeys.isEmpty) ⟨"INDETERMINATE", "NO_LOCAL_CHALLENGER_KEY", vector⟩
  require (!input.responderKeys.isEmpty) ⟨"INDETERMINATE", "NO_LOCAL_RESPONDER_KEY", vector⟩
  let challenge ← orElse (← signedCwt H input.challenge .challenge input.challengerKeys)
    ⟨"FAIL", "SIGNED_REFUSAL_INVALID", vector⟩
  let challengeDoc ← docIn challenge.core
  let challenger ← inner challengeDoc "challenger"
  require (text (← value challenger "agent_kid") == some challenge.kid) ⟨"FAIL", "CHALLENGE_SIGNER_MISMATCH", vector⟩
  let action ← inner challengeDoc "action"
  require (within (← value challengeDoc "issued_at") (← value action "expires_at") input.now)
    ⟨"FAIL", "CHALLENGE_EXPIRED", vector⟩
  let refusal ← orElse (← signedCwt H input.refusal .refusal input.responderKeys)
    ⟨"FAIL", "SIGNED_REFUSAL_INVALID", vector⟩
  let refusalDoc ← docIn refusal.core
  let actor ← inner action "actor"
  require (text (← value actor "agent_kid") == some refusal.kid) ⟨"FAIL", "REFUSAL_SIGNER_MISMATCH", vector⟩
  require (← eager [isBytes refusalDoc "challenge_envelope_hash" (H.sha256 input.challenge).val,
      isBytes refusalDoc "challenge_digest" (coreDigest H.toCrates challenge.coreBytes)])
    ⟨"FAIL", "REFUSAL_CHALLENGE_MISMATCH", vector⟩
  match ← refusalTimeReason challengeDoc refusalDoc action input.now with
  | some reason => throw ⟨"FAIL", reason, vector⟩
  | none => return ()

def evaluateRefusal (H : Host) (input : RefusalContext) : Run ResultValue := do
  match ← (refusalPhase H input).run with
  | .ok () => return ⟨"FAIL", "SIGNED_REFUSAL", mark initialVector [.challenge, .binding] "VERIFIED"⟩
  | .error result => return result

/-! ## The verifier -/

/-- Some window of the bytes is the needle. The search knows nothing of members
or of strings. -/
def occurs (needle : Bytes) (b : Bytes) : Bool := b.tails.any fun t => needle.isPrefixOf t

/-- Both namespaces occur somewhere in the two inputs, as raw bytes.
mirrors verify-rs/src/b28.rs:116-119 -/
def mixedGeneration (first second : Bytes) : Bool :=
  let has := fun needle => occurs needle first || occurs needle second
  has (utf8 v1Ns) && has (utf8 v2Ns)

/-- The roots of the pinned pack of an exchange of one generation. A mixture is
refused before the pack is looked at. -/
def pinned (H : Host) (first second trustPack pin : Bytes) : Phase ResultValue Roots := do
  require (!mixedGeneration first second) ⟨"FAIL", "MIXED_PROFILE_GENERATION", initialVector⟩
  orElse (← (parsePinnedTrustPack H trustPack pin).run) ⟨"INDETERMINATE", "NO_PINNED_TRUST_PACK", initialVector⟩

def contextInvalid (reason : String) : ResultValue := ⟨"INDETERMINATE", reason, initialVector⟩

def verifyPresentation (H : Host) (input : InputContext) (trustPack pin : Bytes) : Run ResultValue := do
  match ← (pinned H input.challenge input.presentation trustPack pin).run with
  | .error result => return result
  | .ok roots => return (← evaluate H { input with roots := roots }).1

def verifyRefusal (H : Host) (input : RefusalContext) (trustPack pin : Bytes) : Run ResultValue := do
  match ← (pinned H input.challenge input.refusal trustPack pin).run with
  | .error result => return result
  | .ok _ => evaluateRefusal H input

/-- What is reported of an exchange: the local context decides whether it is
read as a presentation or as a refusal. -/
def result (H : Host) (exchange localContext trustPack pin : Bytes) : Run ResultValue := do
  match ← parseLocalContext H localContext with
  | .error reason => return contextInvalid reason
  | .ok (.presentation ctx) =>
    match ← (parseInput H exchange ctx).run with
    | none => return contextInvalid "VERIFIER_CONTEXT_INVALID"
    | some input => verifyPresentation H input trustPack pin
  | .ok (.refusal ctx) =>
    match ← (parseRefusal H exchange ctx).run with
    | none => return contextInvalid "VERIFIER_CONTEXT_INVALID"
    | some input => verifyRefusal H input trustPack pin

/-- The JSON value whose text is returned.
mirrors verify-rs/src/b28.rs:1165-1183 -/
def verifyB28Cwt (H : Host) (exchange localContext trustPack pin : Bytes) : Run Value := do
  return (← result H exchange localContext trustPack pin).json

end SwarrmVerify.L4.Handshake

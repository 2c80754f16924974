import SwarrmVerify.L4Action.Facts

/-!
# Dimensions of a verdict (`action.rs`)

What `derive_inner` computes dimension by dimension from a verdict input and
the relying party's trust context. Each enumeration has the values that the
source writes as text, and each function is the source's, under its name.

The source is a twin of a Python program, down to its exceptions: reading a
member of the wrong type raises, and the whole derivation is given up. `none`
is that exception (`Raise`). Whether a member that is missing raises as well
depends on how it is read, by `get` or by an index, and the model keeps the two
apart (`index`, `get`, `iterMember`).

The dimensions fall into those that read a signature under a key of the trust
context (source, control domain, node, coverage, time, surfaces, assurance) and
those that compare what the input says (authority, linkage, outcome). What a
context can change is only in the first; `L5Guarantees.MoreTrust` and
`L5Guarantees.Anchors` are about that. Nothing is proved in this module.
-/
namespace SwarrmVerify.L4.Action
open SwarrmVerify.L1.Jcs SwarrmVerify.L3.Receipt SwarrmVerify.L4.Trust

/-! ## Authority -/

/-- What the vector takes from the authority block. -/
structure AuthorityBlock where
  identity : Standing
  authority : Standing
  intent : IntentState
  valid : Bool
  interval : Interval

def pickStanding : Option String → Standing
  | some "VERIFIED" => .verified
  | some "CONFLICT" => .conflict
  | _ => .notVerified

def pickIntentState : Option String → IntentState
  | some "RECORDED" => .recorded
  | some "CONFLICT" => .conflict
  | _ => .notRecorded

/-- Nothing favourable survives an invalid log.
mirrors verify-rs/src/action.rs:140-159 -/
def authorityBlock (vi : Value) : AuthorityBlock :=
  let a := vi.index "authority"
  let valid := a.getStr "integrity" == some "VALID"
  let ii := a.index "intent_interval"
  { identity := if valid then pickStanding (a.getStr "identity") else .notVerified
    authority := if valid then pickStanding (a.getStr "authority") else .notVerified
    intent := if valid then pickIntentState (a.getStr "intent") else .notRecorded
    valid := valid
    interval := ⟨ii.index "lower", ii.index "upper"⟩ }

/-! ## Source signature -/

inductive SourceSignature where
  | none
  | sharedSecret
  | asymmetric
  | notRecomputed
  deriving DecidableEq, Repr

def maxSourceProofs : Nat := 128

/-- A kid that Python could not hash. -/
def unhashable (v : Value) : Bool := v.asArray.isSome || v.isObject

/-- The keys of a source, if they can be iterated and their names hashed.
mirrors verify-rs/src/action.rs:161-170 -/
def boundSourceKeys (si : Value) : Option (List Value) := do
  let keys ← iterMember si "keys"
  if keys.any fun k => k.isObject && unhashable (k.index "kid") then none else some keys

/-- The one key of this name. mirrors verify-rs/src/action.rs:172-180 -/
def boundSourceKey (keys : List Value) (kid : Option String) : Option Value :=
  match keys.filter fun key => key.isObject && key.getStr "kid" == kid with
  | [first] => some first
  | _ => none

/-- What a proof counts for against the cap: the size of its material, which
must be well formed if it is there.
mirrors verify-rs/src/action.rs:198-214 -/
def sourceProofMaterialSize (X : Crates) (proof : Value) : Option Nat :=
  let material := proof.get "material"
  let context := proof.get "signature_context"
  let kind := proof.getStr "proof_type"
  if !proof.isObject then some 0
  else if material.isNone && context.isNone then some 0
  else if (kind == some "asymmetric_signature" || kind == some "mac") &&
      (material.isNone || context.bind Value.asStr != some sourceWebhookSignatureContext) then none
  else do
    let text ← material.bind Value.asStr
    let decoded ← X.b64Decode text
    if X.b64Encode decoded == text && decide (decoded.length ≤ maxSourceProofMaterialBytes) then
      some decoded.length
    else none

def proofSizeStep (X : Crates) (total : Nat) (proof : Value) : Option Nat := do
  let size ← sourceProofMaterialSize X proof
  if total + size > maxSourceProofTotalBytes then none else some (total + size)

/-- The proofs of a source, within the caps on their number and on their
material taken together.
mirrors verify-rs/src/action.rs:182-196 -/
def boundedSourceProofs (X : Crates) (vi : Value) : Option (List Value) :=
  match vi.get "source_proofs" with
  | none => some []
  | some value => do
    let proofs ← value.asArray
    if proofs.length > maxSourceProofs then none
    else
      let _ ← proofs.foldlM (proofSizeStep X) 0
      return proofs

/-- The names a view withholds. -/
def withheldNames (E : Engine) (vi : Value) : Option (List String) :=
  (iterMember (vi.index "view") "withheld_fields").map fun ws => ws.map fun w => pyStr E (some w) ""

/-- Whether the manifest withholds the field, as far as its names can be hashed.
mirrors verify-rs/src/action.rs:218-222 -/
def fieldWithheld (E : Engine) (vi : Value) (field : String) : Option Bool :=
  (withheldNames E vi).map fun ws => ws.contains field

inductive ProofKind where
  | nothing
  | mac
  | asymmetric
  deriving DecidableEq, Repr

/-- A disclosed delivery. mirrors verify-rs/src/action.rs:258-264 -/
def fullSourceProofKind (E : Engine) (p : Value) (key : Option Value) (kid : Option String) (trust : Option Value) :
    ProofKind :=
  let family := key.bind fun entry => entry.getStr "algorithm_family"
  if key.isNone || !sourceWebhookVerified E trust kid family p then .nothing
  else if p.getStr "proof_type" == some "asymmetric_signature" then .asymmetric
  else .mac

/-- A proof without material signs itself: by a signature if the source has such
a key, or by a code.
mirrors verify-rs/src/action.rs:266-274 -/
def legacySourceProofKind (X : Crates) (p : Value) (key : Option Value) (kid : Option String) (trust : Option Value) :
    ProofKind :=
  if p.getStr "proof_type" == some "asymmetric_signature" && key.isSome &&
      verified X trust "source_keys" kid "source-proof" p then .asymmetric
  else if p.getStr "proof_type" == some "mac" && macVerified X trust kid "source-proof" p then .mac
  else .nothing

/-- A proof with material or a context is a delivery, and any other an older
proof. The key is looked up before either.
mirrors verify-rs/src/action.rs:246-256 -/
def sourceProofKind (E : Engine) (p : Value) (keys : List Value) (trust : Option Value) : ProofKind :=
  if !p.isObject then .nothing
  else
    let kid := p.getStr "key_identity"
    let key := boundSourceKey keys kid
    if (p.get "material").isSome || (p.get "signature_context").isSome then fullSourceProofKind E p key kid trust
    else legacySourceProofKind E.toCrates p key kid trust

/-- The loop over the proofs: the first asymmetric one wins. -/
def signatureLoop (E : Engine) (keys : List Value) (trust : Option Value) : List Value → Bool → SourceSignature
  | [], hasMac => if hasMac then .sharedSecret else .none
  | p :: ps, hasMac =>
    match sourceProofKind E p keys trust with
    | .asymmetric => .asymmetric
    | .mac => signatureLoop E keys trust ps true
    | .nothing => signatureLoop E keys trust ps hasMac

/-- The strongest kind of the proofs, unless they are withheld. Proofs over the
caps are as good as none.
mirrors verify-rs/src/action.rs:224-244 -/
def sourceSignature (E : Engine) (vi : Value) (trust : Option Value) : Option SourceSignature := do
  if ← fieldWithheld E vi "source_proofs" then return .notRecomputed
  let keys ← boundSourceKeys (vi.index "source_identity")
  match boundedSourceProofs E.toCrates vi with
  | none => return .none
  | some proofs => return signatureLoop E keys trust proofs false

/-! ## Control domain -/

inductive ControlDomain where
  | unknown
  | independent
  | overlapping
  deriving DecidableEq, Repr

def kpMethods : List String := ["DOMAIN_CONTROL", "TRUST_LIST", "EXTERNAL_CA"]

def legal : List String :=
  ["source_registry", "registry_id", "ultimate_controller", "retrieved_at", "retrieval_proof"]

/-- The source's and the operator's controller, if the evidence is complete.
mirrors verify-rs/src/action.rs:277-287 -/
def groundedControllers (ev : Value) : Option (Value × Value) :=
  let le := ev.index "legal_evidence"
  let kp := ev.index "key_provenance"
  let methodOk := (kp.getStr "method").any fun m => kpMethods.contains m
  if (legal.all fun f => nonempty le f) && methodOk && nonempty kp "evidence" && nonempty kp "valid_from" &&
      nonempty ev "evaluator" && nonempty ev "signature" then
    some (le.index "ultimate_controller", ev.index "operator_ultimate_controller")
  else none

/-- The controllers of evidence that is carried. -/
def evidenceControllers (ev : Value) : Option (Value × Value) :=
  if ev.asObject.any fun m => !m.isEmpty then groundedControllers ev else none

/-- An admission of overlap needs no proof, independence does.
mirrors verify-rs/src/action.rs:289-300 -/
def controlDomain (X : Crates) (vi : Value) (trust : Option Value) : Option ControlDomain := do
  let ev := vi.index "control_evidence"
  let decls ← iterItems (vi.get "control_declarations")
  let admits := (decls.any fun d => flag d "claims_overlap") ||
    ev.getStr "claimed_control_domain" == some "OVERLAPPING"
  let grounded := evidenceControllers ev
  let shared := grounded.any fun c => c.1.eqv c.2
  let evaluatorOk := verified X trust "evaluator_keys" (ev.getStr "evaluator") "control-evidence" ev
  return if admits || shared then .overlapping
    else if grounded.isSome && evaluatorOk then .independent
    else .unknown

/-! ## Node and coverage -/

inductive NodeObservation where
  | notObserved
  | observed
  deriving DecidableEq, Repr

inductive ClientAttestation where
  | none
  | attested
  deriving DecidableEq, Repr

inductive NodeBasis where
  | logWitnessedSoftware
  | independentlyAttested
  | hardwareAttested
  deriving DecidableEq, Repr

inductive Coverage where
  | unknown
  | closed
  | gapped
  deriving DecidableEq, Repr

inductive CoverageBasis where
  | insufficient
  | attestedNodeFullScan
  | sourceProvenPopulation
  deriving DecidableEq, Repr

/-- The signed scan is about this batch, whose period is ordered.
mirrors verify-rs/src/action.rs:305-314 -/
def scanBindsBatch (X : Crates) (vi scan : Value) : Bool :=
  match (scan.getStr "batch_digest").filter (· != ""), obj vi "batch" with
  | some declared, some batch =>
    match nts (batch.index "period_start"), nts (batch.index "period_end") with
    | some start, some stop =>
      decide (start < stop) &&
        (canonicalIntegerChecked X batch).any fun canon => declared == hex (X.sha256 canon).val
    | _, _ => false
  | _, _ => false

structure NodeDims where
  observation : NodeObservation
  client : ClientAttestation
  basis : NodeBasis
  deriving DecidableEq

def nodeObserved (X : Crates) (vi : Value) (trust : Option Value) : Bool :=
  let scan := vi.index "scan"
  flag scan "performed" && flag scan "authenticated_read" && scanBindsBatch X vi scan &&
    verified X trust "node_keys" (scan.getStr "node_id") "node-scan" scan

def nodeBases : List String := ["HARDWARE_ATTESTED", "INDEPENDENTLY_ATTESTED", "LOG_WITNESSED_SOFTWARE"]

def attestationOk (X : Crates) (att : Value) (trust : Option Value) : Bool :=
  verified X trust "node_roots" (att.getStr "attestor") "node-attestation" att &&
    att.getStr "state" == some "ISSUED" && ((att.getStr "method").any fun m => nodeBases.contains m) &&
    (nts (att.index "valid_from")).isSome && (nts (att.index "valid_to")).isSome

/-- What an attestation of the node is worth: its method counts only if the
attestation is in order.
mirrors verify-rs/src/action.rs:316-331 -/
def nodeDims (X : Crates) (vi : Value) (trust : Option Value) : NodeDims :=
  let att := vi.index "node_attestation"
  let observed := nodeObserved X vi trust
  let basis : NodeBasis :=
    if !attestationOk X att trust then .logWitnessedSoftware
    else if att.getStr "method" == some "HARDWARE_ATTESTED" then .hardwareAttested
    else if att.getStr "method" == some "INDEPENDENTLY_ATTESTED" then .independentlyAttested
    else .logWitnessedSoftware
  { observation := if observed then .observed else .notObserved
    client := if flag vi "client_attestation_present" && observed then .attested else .none
    basis := basis }

/-- A scan that was performed, complete, without a gap and observed.
mirrors verify-rs/src/action.rs:333-335 -/
def fullScan (scan : Value) (observed : Bool) : Bool :=
  flag scan "performed" && flag scan "complete" && flag scan "cursor_gap_free" && observed

/-- A finding that is not settled, or findings that cannot be read.
mirrors verify-rs/src/action.rs:370-374 -/
def hasOpenFinding (vi : Value) : Bool :=
  match vi.getSome "findings" with
  | none => false
  | some (.array items) => items.any fun f =>
    !f.isObject ||
      !(["RESOLVED", "CLOSED", "DISMISSED"].contains (((f.getStr "state").getD "OPEN").map Char.toUpper))
  | some _ => true

def coverageBasis (X : Crates) (vi : Value) (nodeBasis : NodeBasis) (observed : Bool) (trust : Option Value) :
    CoverageBasis :=
  let pp := (vi.index "batch").index "population_proof"
  if flag pp "source_scope_defined" &&
      verified X trust "population_keys" (pp.getStr "source_id") "population-proof" pp then .sourceProvenPopulation
  -- only a hardware node is a witness
  else if fullScan (vi.index "scan") observed && nodeBasis == .hardwareAttested then .attestedNodeFullScan
  else .insufficient

def gapped (vi : Value) : Bool :=
  let scan := vi.index "scan"
  nonempty (vi.index "batch") "gaps" || flag vi "fork_findings_open" ||
    (flag scan "performed" && (scan.get "cursor_gap_free").bind asBool == some false) || hasOpenFinding vi

/-- Whether the period is covered, and on what basis. A gap decides before the
basis does.
mirrors verify-rs/src/action.rs:337-357 -/
def coverage (X : Crates) (vi : Value) (nodeBasis : NodeBasis) (observed : Bool) (trust : Option Value) :
    Coverage × CoverageBasis :=
  let basis := coverageBasis X vi nodeBasis observed trust
  if gapped vi then (.gapped, basis)
  else (if basis != .insufficient then .closed else .unknown, basis)

/-! ## Linkage and outcome -/

inductive Linkage where
  | none
  | direct
  | deterministic
  | ambiguous
  deriving DecidableEq, Repr

inductive Outcome where
  | orphan
  | contradicted
  | matched
  | claimOnly
  deriving DecidableEq, Repr

def candidate (m : Value) : Bool :=
  m.isObject && (["echoed_action_id", "immutable_ref_match", "unique_field_match"].any fun k => flag m k)

/-- The matches with some link flag, if the matches can be iterated.
mirrors verify-rs/src/action.rs:359-362 -/
def matchCandidates (vi : Value) : Option (List Value) :=
  (iterItems (vi.get "event_matches")).map fun ms => ms.filter candidate

/-- The fields that are material whatever a source declares.
mirrors verify-rs/src/action.rs:382 -/
def materialFloor : List String := ["value", "currency", "counterparty"]

/-- The fields that are no statement about the effect, so that a difference in
them is none.
mirrors verify-rs/src/action.rs:389 -/
def structuralFields : List String :=
  ["action_class", "action_id", "context_commitment", "event_key", "external_ref", "finality", "inputs_commitment",
    "outcome", "proof_digests", "reference", "schema", "source_effect_time", "source_identity_ref"]

def addField (fields : List String) (name : String) : List String :=
  if fields.contains name then fields else fields ++ [name]

/-- The floor, then the producer's additions.
mirrors verify-rs/src/action.rs:392-401 -/
def materialFields (E : Engine) (vi : Value) : List String :=
  ((arr (vi.index "source_manifest") "material_fields").map fun f => f.asStr.getD (E.display f)).foldl
    addField materialFloor

/-- A field as text, trimmed; null and absent are one.
mirrors verify-rs/src/action.rs:403-409 -/
def fieldText (E : Engine) (v : Value) (f : String) : Option String :=
  match v.get f with
  | none => none
  | some .null => none
  | some (.string t) => some (trim t)
  | some other => some (E.display other)

/-- Agreements, any mismatch, any field only one side has. -/
structure Tally where
  compared : Nat := 0
  mismatch : Bool := false
  uncomparable : Bool := false

def tallyStep (E : Engine) (claim event : Value) (t : Tally) (f : String) : Tally :=
  match fieldText E claim f, fieldText E event f with
  | none, none => t
  | some a, some b => if a == b then { t with compared := t.compared + 1 } else { t with mismatch := true }
  | _, _ => { t with uncomparable := true }

/-- The declared fields compared one by one, with what was seen counted.
mirrors verify-rs/src/action.rs:419-430 -/
def declaredTally (E : Engine) (claim event : Value) (fields : List String) : Tally :=
  fields.foldl (tallyStep E claim event) {}

/-- Some other field of the claim says otherwise in the event. Such fields can
only make the two uncomparable.
mirrors verify-rs/src/action.rs:438-441 -/
def undeclaredDisagreement (E : Engine) (claim event : Value) (fields : List String) : Bool :=
  match claim.asObject with
  | none => false
  | some members => members.any fun p =>
    !structuralFields.contains p.1 && !fields.contains p.1 &&
      match fieldText E claim p.1, fieldText E event p.1 with
      | some a, some b => a != b
      | _, _ => false

inductive Agreement where
  | agree
  | mismatch
  | uncomparable
  deriving DecidableEq, Repr

/-- The event of a candidate, found again by its key as a string. -/
def eventOf (vi cand : Value) : Option Value :=
  (arr vi "events").find? fun e => e.isObject && e.getStr "event_key" == cand.getStr "event_key"

/-- How a claim and the event of a candidate compare: a mismatch by the flag or
by a field, and agreement only if something was compared.
mirrors verify-rs/src/action.rs:447-464 -/
def materialAgreement (E : Engine) (vi cand : Value) : Agreement :=
  if flag cand "material_mismatch" then .mismatch
  else match eventOf vi cand with
    | none => .uncomparable
    | some event =>
      let claim := vi.index "claim"
      let fields := materialFields E vi
      let tally := declaredTally E claim event fields
      if tally.mismatch then .mismatch
      else if tally.uncomparable || tally.compared == 0 || undeclaredDisagreement E claim event fields then
        .uncomparable
      else .agree

/-- The linkage and the outcome follow from the candidates: none, one or
several, and whether there is a claim at all.
mirrors verify-rs/src/action.rs:466-487 -/
def linkageOutcome (E : Engine) (vi : Value) : Option (Linkage × Option Outcome) := do
  let cands ← matchCandidates vi
  let hasClaim := (obj vi "claim").isSome
  let unclaimed : Option Outcome := if truthy (vi.get "events") then some .orphan else none
  match cands with
  | [] => return (.none, if hasClaim then some .claimOnly else unclaimed)
  | [cand] =>
    let linkage : Linkage := if flag cand "echoed_action_id" then .direct else .deterministic
    if !hasClaim then return (linkage, unclaimed)
    else
      match materialAgreement E vi cand with
      | .mismatch => return (linkage, some .contradicted)
      | .agree => return (linkage, some (if flag cand "final" then .matched else .claimOnly))
      | .uncomparable => return (linkage, some .claimOnly)
  -- the verifier never picks a winner
  | _ :: _ :: _ => return (.ambiguous, if hasClaim then some .claimOnly else unclaimed)

/-! ## Time -/

inductive TemporalBinding where
  | unproven
  | provenIndependent
  | provenSourceEcho
  deriving DecidableEq, Repr

/-- The intent ends before the event begins. -/
def boundsOrdered (ib eb : Value) : Bool :=
  match nts (ib.index "upper"), nts (eb.index "lower") with
  | some iu, some el => decide (iu < el)
  | _, _ => false

/-- How the time of the effect is bound: by a source's echo, by bounds of two
attesters, or not.
mirrors verify-rs/src/action.rs:489-506 -/
def temporal (X : Crates) (vi : Value) (trust : Option Value) : TemporalBinding :=
  match obj vi "temporal" with
  | none => .unproven
  | some t =>
    let echo := t.index "echo"
    let ib := t.index "intent_bounds"
    let eb := t.index "event_bounds"
    let bounded := verified X trust "temporal_keys" (ib.getStr "attester") "temporal-bounds" ib &&
      verified X trust "temporal_keys" (eb.getStr "attester") "temporal-bounds" eb
    if (["echoed_intent_digest", "echoed_action_id", "echoed_nonce"].any fun k => flag echo k) &&
        verified X trust "source_keys" (echo.getStr "source_id") "temporal-echo" echo then .provenSourceEcho
    else if bounded && boundsOrdered ib eb then .provenIndependent
    else .unproven

/-! ## Surfaces -/

inductive Mechanism where
  | enforced
  | observed
  | declared
  | unknown
  deriving DecidableEq, Repr

structure SurfaceRow where
  surfaceId : String
  mechanism : Mechanism
  controlDomain : ControlDomain
  coverage : Coverage
  deriving DecidableEq

/-- A surface as the vector reports it. Its domain of control counts as
independent or closed only under the signature of the party in control.
mirrors verify-rs/src/action.rs:514-530 -/
def surfaceRow (E : Engine) (e : Value) (trust : Option Value) : SurfaceRow :=
  let grounded := verified E.toCrates trust "evaluator_keys" (e.getStr "controlling_party") "surface-entry" e
  { surfaceId := pyStr E (e.get "surface_id") ""
    mechanism := match e.getStr "mechanism_declaration" with
      | some "ENFORCED" => if nonempty e "evidence_source_ref" then .enforced else .declared
      | some "OBSERVED" => if nonempty e "evidence_source_ref" then .observed else .declared
      | some "DECLARED" => .declared
      | _ => .unknown
    controlDomain := if flag e "controller_admits_overlap" then .overlapping
      else if grounded && flag e "controller_grounded_independent" then .independent
      else .unknown
    coverage := if flag e "coverage_gap" then .gapped
      else if grounded && flag e "coverage_closed" then .closed
      else .unknown }

/-- `BTreeSet::insert`. -/
def setInsert : List String → String → List String
  | [], x => [x]
  | y :: l, x => if x = y then y :: l else if x < y then x :: y :: l else y :: setInsert l x

structure SurfaceSets where
  rows : List SurfaceRow := []
  outOfScope : List String := []
  breaches : List String := []
  deriving DecidableEq

/-- One activity: outside the declared classes, or unexplained within them. -/
def activityStep (E : Engine) (declared : List String) (sets : SurfaceSets) (a : Value) : SurfaceSets :=
  let cls := pyStr E (a.get "surface_class") ""
  if !a.isObject then sets
  else if !declared.contains cls then { sets with outOfScope := setInsert sets.outOfScope cls }
  else if !flag a "explained" then { sets with breaches := setInsert sets.breaches cls }
  else sets

/-- The surfaces declared, those active and those beyond the declaration.
mirrors verify-rs/src/action.rs:534-561 -/
def surfaces (E : Engine) (vi : Value) (trust : Option Value) : Option SurfaceSets :=
  match obj vi "surfaces" with
  | none => some {}
  | some sur => do
    let entries ← iterMember (sur.index "manifest") "entries"
    let decl := entries.filter Value.isObject
    if decl.any fun e => (e.get "surface_class").any unhashable then none
    else
      let declared := decl.filterMap fun e => e.getStr "surface_class"
      let activity ← iterItems (sur.get "activity")
      let sets := activity.foldl (activityStep E declared) {}
      return { sets with rows := decl.map fun e => surfaceRow E e trust }

/-! ## Accountability and assurance -/

inductive AccountabilityBasis where
  | unknown
  | sponsorAsserted
  | parentGuaranteed
  | insurerCorroborated
  | bondedOrEscrowed
  deriving DecidableEq, Repr

/-- mirrors verify-rs/src/action.rs:573 -/
def AccountabilityBasis.rank : AccountabilityBasis → Nat
  | .unknown => 0
  | .sponsorAsserted => 1
  | .parentGuaranteed => 2
  | .insurerCorroborated => 3
  | .bondedOrEscrowed => 4

/-- The basis that a kind of binding stands for.
mirrors verify-rs/src/action.rs:563-567 -/
def accBasis : String → Option AccountabilityBasis
  | "SPONSOR" => some .sponsorAsserted
  | "PARENT" => some .parentGuaranteed
  | "INSURER" => some .insurerCorroborated
  | "BOND_ESCROW" => some .bondedOrEscrowed
  | _ => none

def specifics : List String := ["signed", "agent_specific", "mandate_specific", "value_bounded", "time_bounded"]

/-- The basis a binding qualifies for. -/
def bindingBasis (E : Engine) (trust : Option Value) (b : Value) : Option AccountabilityBasis := do
  let basis ← accBasis (pyStr E (some (b.index "kind")) "")
  if !specifics.all fun f => flag b f then none
  else if !verified E.toCrates trust "accountability_keys" (b.getStr "party") "accountability-binding" b then none
  -- the two external bases need grounding by a party other than the subject
  else if decide (3 ≤ basis.rank) && !flag b "externally_grounded" then none
  else some basis

def strongerBasis (best : AccountabilityBasis) (b : Option AccountabilityBasis) : AccountabilityBasis :=
  match b with
  | none => best
  | some b => if best.rank < b.rank then b else best

/-- The strongest basis among the bindings, unknown where there is none.
mirrors verify-rs/src/action.rs:572-593 -/
def accountability (E : Engine) (vi : Value) (trust : Option Value) : Option AccountabilityBasis := do
  let bindings ← iterMember (vi.index "accountability") "bindings"
  return ((bindings.filter Value.isObject).map (bindingBasis E trust)).foldl strongerBasis .unknown

inductive AssuranceLinkage where
  | none
  | ambiguous
  | deterministic
  | direct
  deriving DecidableEq, Repr

/-- `as_i64`, or a boolean as 0 and 1. -/
def candidateCount (v : Option Value) : Option Int :=
  v.bind fun
    | .bool b => some (if b then 1 else 0)
    | x => x.asI64

/-- How an assurance is linked to the intent. Two candidates, or a transcript of
something else, make it ambiguous.
mirrors verify-rs/src/action.rs:598-618 -/
def assurance (vi : Value) (observed : Bool) : AssuranceLinkage :=
  let a := vi.index "assurance"
  let cands := candidateCount (a.get "candidates")
  if !nonempty a "intent_digest" then .none
  else if cands.any fun c => decide (2 ≤ c) then .ambiguous
  else if nonempty a "presented_transcript_digest" then
    if !Value.eqvOpt (a.get "presented_transcript_digest") (a.get "intent_digest") then .ambiguous
    else if observed then .direct
    else .deterministic
  else if cands == some 1 && flag a "challenge_nonce_match" then .deterministic
  else .none

end SwarrmVerify.L4.Action

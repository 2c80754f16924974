import SwarrmVerify.L4Action.Verdict
import SwarrmVerify.L1Encoding.CborWire

/-!
# Cross-checks of a certificate core (`certificate.rs`)

The `verdict_input` of a core is written by its producer. What it says about
authority, events and coverage is recomputed from the embedded bundle and the
core's other members, and every disagreement is an error code. The codes are
collected, so that a core with several faults has them all; any of them makes
the integrity of the input INVALID.

What the producer says of an event's match is checked against the event itself:
the flags are recomputed over the deduplicated events, every linked event needs
a match, and no event has two. The echo check then compares the input's own
carriages of the evidence with the core's, member by member.

The definitions are the source's, in its order. The later modules say what each
check comes to: `L5Guarantees.Linkage`, `L5Guarantees.Matching` and
`L5Guarantees.Echo`.
-/
namespace SwarrmVerify.L4.Certificate
open SwarrmVerify.L1.Jcs SwarrmVerify.L3.Receipt SwarrmVerify.L4.Bundle SwarrmVerify.L4.Action

/-! ## Reading a core -/

/-- `v[key]` among the text keys. mirrors verify-rs/src/certificate.rs:59-62 -/
def cget (v : Cbor.Value) (key : String) : Option Cbor.Value :=
  match v with
  | .map m => (m.find? fun p => match p.1 with
    | .text t => t == key
    | _ => false).map Prod.snd
  | _ => none

/-- A member of a map that is a text.
mirrors verify-rs/src/certificate.rs:64-69 -/
def ctext (v : Cbor.Value) (key : String) : Option String :=
  match cget v key with
  | some (.text t) => some t
  | _ => none

/-- A member of a map that is a byte string.
mirrors verify-rs/src/certificate.rs:71-76 -/
def cbytes (v : Cbor.Value) (key : String) : Option Bytes :=
  match cget v key with
  | some (.bytes b) => some b
  | _ => none

/-- `Number::from(i64)`. -/
def numberOf (i : Int) : Option Number :=
  if -2 ^ 63 ≤ i ∧ i < 2 ^ 63 then some (if 0 ≤ i then .posInt (UInt64.ofNat i.toNat) else .negInt (Int64.ofInt i))
  else none

mutual
/-- Restricted CBOR as JSON; byte strings, floats and tags have none.
mirrors verify-rs/src/certificate.rs:80-100 -/
def cborToJson : Cbor.Value → Int → Option Value
  | .null, limit => if limit < 0 then none else some .null
  | .bool b, limit => if limit < 0 then none else some (.bool b)
  | .integer i, limit => if limit < 0 then none else (numberOf i).map .number
  | .text s, limit => if limit < 0 then none else some (.string s)
  | .array xs, limit => if limit < 0 then none else (itemsToJson xs (limit - 1)).map .array
  | .map m, limit => if limit < 0 then none else (membersToJson m (limit - 1) []).map .object
  | _, _ => none
def itemsToJson : List Cbor.Value → Int → Option (List Value)
  | [], _ => some []
  | x :: xs, limit => do
    let y ← cborToJson x limit
    let ys ← itemsToJson xs limit
    return y :: ys
def membersToJson : List (Cbor.Value × Cbor.Value) → Int → List (String × Value) → Option (List (String × Value))
  | [], _, o => some o
  | (.text key, x) :: m, limit, o => do
    let y ← cborToJson x limit
    membersToJson m limit (setMember o key y)
  | _ :: _, _, _ => none
end

/-- Python `str()` of an optional member.
mirrors verify-rs/src/certificate.rs:107-116 -/
def pystr (E : Engine) : Option Value → String
  | none => ""
  | some .null => "None"
  | some (.bool b) => if b then "True" else "False"
  | some (.string s) => s
  | some other => E.display other

/-- A member as Python prints it, empty where it is null or absent.
mirrors verify-rs/src/certificate.rs:119-124 -/
def textOrEmpty (E : Engine) (v : Value) (key : String) : String :=
  match v.get key with
  | none => ""
  | some .null => ""
  | some other => pystr E (some other)

/-! ## Signed rows -/

/-- The one context signed for an action. The first row of a receipt hash
counts.
mirrors verify-rs/src/action.rs:1070-1078 -/
def signedActionContext (X : Crates) (bundle : Value) (actionId : String) : Option Value :=
  let rows := (entryRows X bundle).filter fun r => isIntent r && r.ctx.getStr "action_id" == some actionId
  match rows with
  | [] => none
  | r :: rest => if rest.all fun q => q.rh == r.rh then some r.ctx else none

/-- The bundle carries an intent for some action.
mirrors verify-rs/src/action.rs:1080-1082 -/
def hasSignedActionIntent (X : Crates) (bundle : Value) : Bool := (entryRows X bundle).any isIntent

/-- The classes a row that names the action contributes. -/
def signedClasses (E : Engine) (r : Rec) : List String :=
  (if startsWith r.action "action." then [] else [r.action]) ++
    ((r.ctx.getStr "action_class").filter (· != "")).toList ++
    if r.action == "authority.grant.issued" then
      (arr r.ctx "action_classes").map fun c => c.asStr.getD (E.display c)
    else []

/-- The ids that signed rows name, and the classes signed for an action.
mirrors verify-rs/src/action.rs:1094-1119 -/
def signedActionIntents (E : Engine) (bundle : Value) (actionId : String) : List String × List String :=
  let rows := entryRows E.toCrates bundle
  (rows.filterMap fun r => (r.ctx.getStr "action_id").filter (· != ""),
    (rows.filter fun r => r.ctx.getStr "action_id" == some actionId).flatMap (signedClasses E))

/-! ## Subject and authority -/

/-- The facts that the verdict rests on are those of the bundle, recomputed.
mirrors verify-rs/src/certificate.rs:162-165 -/
def checkAuthority (X : Crates) (core bundle : Value) : Bool :=
  let aid := ((core.index "subject").getStr "action_id").filter (· != "")
  Value.eqvOpt ((core.index "verdict_input").get "authority") (some (authorityFacts X bundle aid).render)

/-- The subject and the bundle are of one origin, which both must name.
mirrors verify-rs/src/certificate.rs:167-172 -/
def subjectOriginMatchesBundle (core bundle : Value) : Bool :=
  match (core.index "subject").getStr "origin", bundle.getStr "origin" with
  | some subject, some origin => subject == origin
  | _, _ => false

/-- What the subject and the input say about one field of the action. -/
def subjectMatchesInput (X : Crates) (field : String) (core bundle : Value) : Bool :=
  match (core.index "subject").getStr field,
      ((core.index "verdict_input").get "action").bind fun action => action.getStr field with
  | some subject, some input => subject == input && (subject != "" || !hasSignedActionIntent X bundle)
  | _, _ => false

/-- The subject and the verdict input name one action.
mirrors verify-rs/src/certificate.rs:174-179 -/
def subjectActionIdMatchesInput (X : Crates) (core bundle : Value) : Bool :=
  subjectMatchesInput X "action_id" core bundle

/-- The subject and the verdict input name one class of actions.
mirrors verify-rs/src/certificate.rs:181-186 -/
def subjectActionClassMatchesInput (X : Crates) (core bundle : Value) : Bool :=
  subjectMatchesInput X "action_class" core bundle

/-- The action of the verdict input is the one that the agent signed, if the
bundle carries an intent at all.
mirrors verify-rs/src/certificate.rs:206-215 -/
def inputActionMatchesSignedIntent (E : Engine) (core bundle : Value) : Bool :=
  let action := (core.index "verdict_input").index "action"
  match action.getStr "action_id", action.getStr "action_class" with
  | some actionId, some actionClass =>
    if hasSignedActionIntent E.toCrates bundle then
      (signedActionContext E.toCrates bundle actionId).any fun context =>
        context.getStr "action_id" == some actionId && context.getStr "action_class" == some actionClass
    else
      let signed := signedActionIntents E bundle actionId
      (actionClass == "" || signed.2.contains actionClass) && (actionId == "" || signed.1.contains actionId)
  | _, _ => false

/-- A claim is about the subject; without a claim nothing is asked.
mirrors verify-rs/src/certificate.rs:228-231 -/
def claimMatchesSubject (E : Engine) (core : Value) : Bool :=
  match obj core "claim" with
  | none => true
  | some claim => ["action_id", "action_class"].all fun k =>
    pystr E (claim.get k) == pystr E ((core.index "subject").get k)

/-- The identifiers of the subject are the ones the facts recompute, and none
where these have none.
mirrors verify-rs/src/certificate.rs:297-306 -/
def subjectIdsMatchAuthority (X : Crates) (core bundle : Value) : Bool :=
  match (core.index "subject").getStr "action_id" with
  | none => false
  | some actionId =>
    let expected := (authorityFacts X bundle (some actionId)).subjectIds
    let subjectIds := (core.index "subject").get "subject_ids"
    if expected.isEmpty then subjectIds.all Value.isNull
    else (subjectIds.bind Value.asObject).any fun ids => !ids.isEmpty && (Value.object ids).eqv (.object expected)

/-! ## Coverage conventions and limitations -/

def limitationCodes : List String :=
  ["AGENT_CONTEXT_UNBOUND", "ACCEPTED_SOURCE_COLLUSION_OUT_OF_MODEL", "COVERAGE_CONVENTIONS_UNBOUND"]

def zeroDigest : String := "0000000000000000000000000000000000000000000000000000000000000000"

/-- The digests of the coverage documents that the log has recorded.
mirrors verify-rs/src/certificate.rs:279-281 -/
def signedCoverageDigests (X : Crates) (bundle : Value) : List String :=
  ((entryRows X bundle).filter fun r => r.action == "evd.coverage.recorded").filterMap fun r =>
    r.ctx.getStr "coverage_doc_digest"

/-- The coverage document is one that the log has recorded.
mirrors verify-rs/src/certificate.rs:291-295 -/
def coverageConventionsBound (X : Crates) (core bundle : Value) : Bool :=
  let signed := signedCoverageDigests X bundle
  !signed.isEmpty &&
    (canonicalChecked X (core.index "coverage_doc")).any fun body => signed.contains (hex (X.sha256 body).val)

/-- The coverage document is recorded, or the log has recorded none.
mirrors verify-rs/src/certificate.rs:275-277 -/
def coverageDocBound (X : Crates) (core bundle : Value) : Bool :=
  coverageConventionsBound X core bundle || (signedCoverageDigests X bundle).isEmpty

/-- The limitations are known, each once, and say what the core shows.
mirrors verify-rs/src/certificate.rs:243-261 -/
def limitationsConsistent (X : Crates) (core bundle : Value) : Bool :=
  let lims := arr core "limitations"
  let codes := (lims.filterMap Value.asStr).filter limitationCodes.contains
  -- a code that is no text, unknown or repeated makes the set smaller than the list
  if codes.dedup.length != lims.length then false
  else if codes.contains "AGENT_CONTEXT_UNBOUND" != (core.getStr "agent_context_digest" == some zeroDigest) then false
  else codes.contains "COVERAGE_CONVENTIONS_UNBOUND" != coverageConventionsBound X core bundle

/-! ## The carried input -/

/-- The core and the verdict input carry the same events, matches and documents.
mirrors verify-rs/src/certificate.rs:312-319 -/
def checkInputEcho (core : Value) : Bool :=
  let vi := core.index "verdict_input"
  let listed := fun k => ((vi.get k).filter fun v => truthy (some v)).getD (.array [])
  (core.index "events").eqv (listed "events") && (core.index "event_matches").eqv (listed "event_matches") &&
    ["claim", "source_identity", "control_evidence", "batch", "scan"].all fun k =>
      Value.eqvOpt (core.getSome k) (vi.getSome k)

/-- Every open finding of the core has been consumed by the verdict input.
mirrors verify-rs/src/certificate.rs:327-334 -/
def checkFindingsCarried (core : Value) : Bool :=
  let carried := arr core "open_findings"
  if carried.isEmpty then true
  else match (core.index "verdict_input").getArray "findings" with
    | none => false
    | some consumed => carried.all fun f => consumed.any fun c => c.eqv f

/-! ## Events and their matches -/

/-- The first event of each key, with the key as text. -/
def dedupLoop (E : Engine) : List Value → List String → List (String × Value)
  | [], _ => []
  | e :: es, seen =>
    let k := pystr E (e.get "event_key")
    if e.isObject && !seen.contains k then (k, e) :: dedupLoop E es (k :: seen) else dedupLoop E es seen

/-- The events under their keys as Python prints them, the first of each key.
mirrors verify-rs/src/certificate.rs:337-346 -/
def dedupedEvents (E : Engine) (core : Value) : List (String × Value) := dedupLoop E (arr core "events") []

/-- Echo, immutable reference, unique field. -/
structure LinkFlags where
  echo : Bool
  immutable : Bool
  unique : Bool
  deriving DecidableEq

def LinkFlags.any (f : LinkFlags) : Bool := f.echo || f.immutable || f.unique

/-- Both sides state the field, the claim's text is not empty and they agree. -/
def uniqueFieldAgrees (E : Engine) (claim ev : Value) (f : String) : Bool :=
  match claim.getSome f, ev.getSome f with
  | some l, some r => pystr E (some l) != "" && pystr E (some l) == pystr E (some r)
  | _, _ => false

/-- The claim and the event agree in some field that the source calls unique.
mirrors verify-rs/src/certificate.rs:360-371 -/
def uniqueFieldMatch (E : Engine) (claim ev man : Value) : Bool :=
  ((arr man "unique_fields").filterMap Value.asStr).any (uniqueFieldAgrees E claim ev)

/-- How an event is linked to a claim, recomputed from the two.
mirrors verify-rs/src/certificate.rs:349-356 -/
def linkFlags (E : Engine) (claim ev man : Value) : LinkFlags :=
  let token := textOrEmpty E claim "action_id"
  let reference := pystr E (ev.get "reference")
  let corr := (man.getStr "correlation_field").getD ""
  let external := textOrEmpty E claim "external_ref"
  { echo := token != "" && ((corr != "" && pystr E (ev.get corr) == token) || reference == token)
    immutable := external != "" && reference == external
    unique := uniqueFieldMatch E claim ev man }

/-- An event is final by the rule of the source, which is a word or lists of
words.
mirrors verify-rs/src/certificate.rs:373-383 -/
def isFinal (E : Engine) (ev : Value) (rule : Option Value) : Bool :=
  let fin := pystr E (ev.get "finality")
  match rule with
  | some (.string s) => fin == s
  | some (.object m) => ["final", "correction"].any fun k =>
    (((m.lookup k).bind Value.asArray).getD []).any fun v => pystr E (some v) == fin
  | _ => false

/-- The floor, then the fields the coverage document names for the class. -/
def mismatchFields (E : Engine) (claim man : Value) : List String :=
  let cls := pystr E (claim.get "action_class")
  let named := (((man.get "material_fields").bind fun m => m.get cls).bind Value.asArray).getD []
  ((named.filterMap Value.asStr).foldl addField materialFloor).filter (· != "source_effect_time")

/-- Both sides state the field and disagree. -/
def fieldMismatch (E : Engine) (claim ev : Value) (f : String) : Bool :=
  match claim.getSome f, ev.getSome f with
  | some l, some r => pystr E (some l) != pystr E (some r)
  | _, _ => false

/-- Some material field differs between the claim and the event.
mirrors verify-rs/src/certificate.rs:395-413 -/
def materialMismatch (E : Engine) (claim ev man : Value) : Bool :=
  (mismatchFields E claim man).any (fieldMismatch E claim ev)

/-- A match states the flags that are recomputed, all five of them.
mirrors verify-rs/src/certificate.rs:415-417 -/
def flagsEqual (m : Value) (f : LinkFlags) (final mismatch : Bool) : Bool :=
  [("echoed_action_id", f.echo), ("immutable_ref_match", f.immutable), ("unique_field_match", f.unique),
    ("final", final), ("material_mismatch", mismatch)].all fun p => (m.get p.1).any fun v => v.eqv (.bool p.2)

/-- The claim, or the empty object. -/
def claimOf (core : Value) : Value := (obj core "claim").getD (.object [])

def matchKey (E : Engine) (m : Value) : String := pystr E (m.get "event_key")

/-- A match names a carried event, and its flags are the recomputed ones. -/
def matchOk (E : Engine) (claim man : Value) (events : List (String × Value)) (unique : Bool) (m : Value) : Bool :=
  match events.find? fun p => p.1 == matchKey E m with
  | none => false
  | some (_, ev) =>
    flagsEqual m (linkFlags E claim ev man) (isFinal E ev (man.get "finality_rule"))
      (unique && materialMismatch E claim ev man)

/-- Every match holds, and every linked event is matched.
mirrors verify-rs/src/certificate.rs:421-442 -/
def checkMatches (E : Engine) (core : Value) : Bool :=
  let man := core.index "coverage_doc"
  let events := dedupedEvents E core
  let ms := arr core "event_matches"
  -- the material comparison runs on a single match only
  ms.all (matchOk E (claimOf core) man events (ms.length == 1)) &&
    events.all fun p => !(linkFlags E (claimOf core) p.2 man).any || (ms.map (matchKey E)).contains p.1

/-! ## Coverage -/

/-- A list comes with its length, or neither is there.
mirrors verify-rs/src/certificate.rs:444-449 -/
def countPairOk (cov : Value) (list count : String) : Bool :=
  match cov.getArray list, cov.getI64 count with
  | some a, some n => n == (a.length : Int)
  | _, _ => (cov.get list).isNone && (cov.get count).isNone

/-- The batch and the coverage document agree in what both say of the period.
mirrors verify-rs/src/certificate.rs:487-503 -/
def batchConsistent (E : Engine) (batch : Option Value) (cov : Value) : Bool :=
  match batch.filter Value.isObject with
  | none => true
  | some batch =>
    let disagree := fun f => match batch.get f, cov.get f with
      | some b, some c => pystr E (some b) != pystr E (some c)
      | _, _ => false
    if ["cursor_start", "cursor_end", "filter_digest", "mapping_version", "event_key_root",
        "finality_watermark"].any disagree then false
    else ["gaps", "exclusions"].all fun l =>
      let doc := (arr cov l).map fun x => pystr E (some x)
      (arr batch l).all fun g => doc.contains (pystr E (some g))

/-- The coverage document counts the events that are there and names them by a
digest.
mirrors verify-rs/src/certificate.rs:454-485 -/
def checkCoverage (E : Engine) (core : Value) : Bool :=
  let cov := core.index "coverage_doc"
  let keys := (dedupedEvents E core).map fun p => Value.string p.1
  if cov.getI64 "event_count" != some (keys.length : Int) then false
  else match canonicalChecked E.toCrates (.array keys) with
    | none => false
    | some root =>
      if !Value.eqvOpt (cov.get "event_key_root") (some (.string (hex (E.sha256 root).val))) then false
      else if !countPairOk cov "claim_refs" "claim_count" || !countPairOk cov "orphans" "orphan_count" then false
      else
        -- a certified claim must be inside the covered population
        (match obj core "claim" with
        | none => true
        | some claim => (cov.getArray "claim_refs").any fun refs =>
          refs.any fun r => pystr E (some r) == pystr E (claim.get "action_id")) &&
        batchConsistent E (core.get "batch") cov

end SwarrmVerify.L4.Certificate

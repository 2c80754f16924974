import SwarrmVerify.L4Action.Rows

/-!
# Authority facts (`action.rs`)

Identity, authority and intent as the verifier derives them from the rows of a
verified bundle: lineage and passports, principal bindings, grant chains.
`authorityFacts` is total. Where the source gives up with `None` and falls back
to a weak value, the model has an `Option` in the same place; there is no other
failure.

The derivation goes through the rows several times. The intent is picked first;
its agent has a lineage, if there is one establishment and no more; the lineage
has a birthtag under the root in force (`L4Action.Rows`); the intent's grant is
followed up the chain of mandates, with the grants followed so far kept aside,
since a chain may run in a circle; and its revisions are tabled by version.

The definitions stand in the order of the source, each with the lines it
models. What they amount to is the subject of `L5Guarantees.Roots`,
`L5Guarantees.InForce`, `L5Guarantees.Rewrites`, `L5Guarantees.Layout` and
`L5Guarantees.Mandates`; here are only the two facts that termination needs.
-/
namespace SwarrmVerify.L4.Action
open SwarrmVerify.L1.Jcs SwarrmVerify.L3.Receipt SwarrmVerify.L3.Keys SwarrmVerify.L4.Bundle
open SwarrmVerify.L4.Trust

inductive Standing where
  | verified
  | notVerified
  | conflict
  deriving DecidableEq, Repr

def Standing.text : Standing → String
  | .verified => "VERIFIED"
  | .notVerified => "NOT_VERIFIED"
  | .conflict => "CONFLICT"

inductive IntentState where
  | recorded
  | notRecorded
  | conflict
  deriving DecidableEq, Repr

def IntentState.text : IntentState → String
  | .recorded => "RECORDED"
  | .notRecorded => "NOT_RECORDED"
  | .conflict => "CONFLICT"

/-! ## Intent -/

def intentCtx : List String :=
  ["action_id", "action_class", "grant_id", "grant_version", "binding_id", "policy_version"]

/-- The leaves of the submissions of an action. -/
def submissions (rows : List Rec) (actionId : Value) : List Int :=
  (rows.filter fun r => r.action == "action.submitted" && (r.ctx.index "action_id").eqv actionId).map (·.leaf)

/-- An intent is recorded if it carries everything an intent must, its
commitments included, at a leaf before every submission of the action. Another
intent of the action is a conflict.
mirrors verify-rs/src/action.rs:1121-1135 -/
def intentResult (rows : List Rec) (chosen : Rec) (dup : Bool) : IntentState :=
  if dup then .conflict
  else if intentCtx.any fun k => (chosen.ctx.get k).all Value.isNull then .notRecorded
  else if (chosen.commitments.get "inputs").isNone || (chosen.commitments.get "context_doc").isNone then
    .notRecorded
  -- the intent must sit at a strictly earlier leaf than any submission
  else if (submissions rows (chosen.ctx.index "action_id")).min?.any fun m => decide (m ≤ chosen.leaf) then
    .notRecorded
  else .recorded

/-! ## Lineage and passports -/

def isEst (r : Rec) : Bool := r.action == "lineage.born" || r.action == "lineage.adopted"

/-- An agent by its establishment and its last revision, each named by the hash
of its receipt.
mirrors verify-rs/src/action.rs:1137-1141 -/
structure Lineage where
  birthtagId : String
  revisionId : String
  estCtx : Value

/-- The lineage of an agent, if it has exactly one establishment. Without a
revision that one is the revision too.
mirrors verify-rs/src/action.rs:1143-1152 -/
def agentLineage (rows : List Rec) (agentId : String) : Option Lineage :=
  let mine := rows.filter fun r => r.agent == agentId
  match mine.filter isEst with
  | [est] =>
    let revision := ((mine.filter fun r => r.action == "lineage.revised").getLast?).getD est
    some ⟨est.rh, revision.rh, est.ctx⟩
  | _ => none

/-- Some key of the log in the passport, active when the transfer took effect,
signed the transfer.
mirrors verify-rs/src/action.rs:1156-1165 -/
def transferSigOk (X : Crates) (passportBundle transfer : Value) : Bool :=
  let pkl := replayKeyLog X (arr passportBundle "entries")
  let eff := transfer.index "effective_ts"
  let size := ((((passportBundle.get "target_checkpoint").bind fun cp => cp.get "body").bind
    fun body => body.get "tree_size").bind Value.asU64).getD 0
  pkl.ok && pkl.keys.entries.any fun k =>
    keyActive pkl k.1 (eff.asStr.getD "") size &&
      dsigOk X k.2 (utf8 "evd/v1/passport/transfer" ++ [0]) transfer (transfer.get "transfer_sig")

/-- The bundle of a passport verifies by itself, holds the establishment that is
imported, and was transferred to the root in office here.
mirrors verify-rs/src/action.rs:1169-1182 -/
def passportBundleOk (X : Crates) (passport : Value) (imported : String) (timeline : List RootEntry) : Bool :=
  match obj passport "bundle" with
  | none => false
  | some pb =>
    let transfer := passport.index "transfer"
    (verifyBundleFacts X pb none).ok && ((entryRows X pb).any fun r => isEst r && r.rh == imported) &&
      transfer.getStr "birthtag_id" == some imported &&
      (timeline.getLast?.any fun t => transfer.getStr "successor_root_kid" == some t.kid) &&
      transferSigOk X pb transfer

/-- The birthtag an establishment imports, if the passport carried beside it is
the one it names by digest.
mirrors verify-rs/src/action.rs:1185-1196 -/
def passportBirthtag (X : Crates) (bundle estCtx : Value) (timeline : List RootEntry) : Option String := do
  let imported ← (estCtx.getStr "imported_birthtag_id").filter (· != "")
  let passport ← obj bundle "passport"
  let canon ← canonicalIntegerChecked X passport
  if estCtx.getStr "passport_digest" != some (hex (X.sha256 canon).val) then none
  else if passport.getStr "birthtag_id" != some imported then none
  else if passportBundleOk X passport imported timeline then some imported
  else none

/-! ## Principal bindings -/

/-- Two bindings of one runtime key overlap in time. Of a window that cannot be
read nothing is said.
mirrors verify-rs/src/action.rs:1198-1207 -/
def windowsConflict (a b : Value) : Bool :=
  if !(a.index "runtime_kid").eqv (b.index "runtime_kid") then false
  else match nts (a.index "valid_from"), nts (a.index "valid_to"), nts (b.index "valid_from"),
      nts (b.index "valid_to") with
    | some af, some at_, some bf, some bt => decide (af ≤ bt) && decide (bf ≤ at_)
    | _, _, _, _ => false

/-- The binding declares the other concurrent. -/
def lists (x : Rec) (other : String) : Bool := (arr x.ctx "concurrent_with").any fun v => v.asStr == some other

/-- Overlapping windows of one runtime key without mutual declarations. -/
def bindingClash (a b : Rec) : Bool := windowsConflict a.ctx b.ctx && !(lists a b.rh && lists b a.rh)

/-- Some two bindings clash, wherever they stand in the list.
mirrors verify-rs/src/action.rs:1211-1224 -/
def bindingConflict : List Rec → Bool
  | [] => false
  | a :: rest => rest.any (bindingClash a) || bindingConflict rest

/-- The first binding of the lineage to a key that signed the intent, with a
window around the whole interval.
mirrors verify-rs/src/action.rs:1226-1241 -/
def matchBinding (bindings : List Rec) (lineage : Lineage) (intent : Rec) (interval : Interval) : Option Rec := do
  let lo ← nts interval.lower
  let up ← nts interval.upper
  bindings.find? fun b =>
    let hit := b.ctx.getStr "birthtag_id" == some lineage.birthtagId &&
      b.ctx.getStr "revision_id" == some lineage.revisionId &&
      (b.ctx.getStr "runtime_kid").any fun k => intent.signerKids.contains k
    let covers := match nts (b.ctx.index "valid_from"), nts (b.ctx.index "valid_to") with
      | some vf, some vt => decide (vf ≤ lo) && decide (up ≤ vt)
      | _, _ => false
    hit && covers

/-- The standing, the binding and the birthtag. -/
structure Identity where
  standing : Standing
  bindingId : Option String := none
  birthtag : Option String := none
  deriving DecidableEq

/-- The agent's permanent id: its own establishment or what a verified
passport carries. -/
def birthtagOf (X : Crates) (bundle : Value) (lineage : Lineage) (timeline : List RootEntry) : Option String :=
  if (lineage.estCtx.get "imported_birthtag_id").isSome then passportBirthtag X bundle lineage.estCtx timeline
  else some lineage.birthtagId

/-- The identity behind an intent: a conflict of roots or of bindings first,
then a lineage, a birthtag and a binding, all of which it needs.
mirrors verify-rs/src/action.rs:1244-1262 -/
def deriveIdentity (X : Crates) (rows : List Rec) (bundle : Value) (intent : Rec) (lineage : Option Lineage)
    (timeline : List RootEntry) (rootConflict : Bool) (interval : Interval) : Identity :=
  let bindings := rootValidAuth X rows timeline "authority.principal.bound"
  if rootConflict || bindingConflict bindings then { standing := .conflict }
  else match lineage with
    | none => { standing := .notVerified }
    | some lineage =>
      match birthtagOf X bundle lineage timeline with
      | none => { standing := .notVerified }
      | some birthtag =>
        match matchBinding bindings lineage intent interval with
        | some b => { standing := .verified, bindingId := some b.rh, birthtag := some birthtag }
        | none => { standing := .notVerified, birthtag := some birthtag }

/-! ## Grant chains -/

/-- `f.trunc() as i64`, saturating. -/
def truncI64 (f : F64) : Int :=
  let e := ((f.bits >>> 52) &&& 0x7ff).toNat
  let m := (f.bits &&& 0xfffffffffffff).toNat
  let magnitude : Nat := if e < 1023 then 0 else if e < 1075 then (2 ^ 52 + m) / 2 ^ (1075 - e) else (2 ^ 52 + m) * 2 ^ (e - 1075)
  let value : Int := if f.bits >>> 63 == 1 then -magnitude else magnitude
  if e = 0x7ff && m != 0 then 0 else max (-2 ^ 63) (min value (2 ^ 63 - 1))

def trim (s : String) : String :=
  String.ofList (((s.toList.dropWhile whitespace).reverse.dropWhile whitespace).reverse)

/-- `str::parse::<i64>`. -/
def parseI64 (s : String) : Option Int :=
  let (negative, digits) := match utf8 s with
    | 45 :: rest => (true, rest)
    | 43 :: rest => (false, rest)
    | other => (false, other)
  if digits.isEmpty then none
  else (decimal digits).bind fun n =>
    let i : Int := if negative then -n else n
    if -2 ^ 63 ≤ i ∧ i < 2 ^ 63 then some i else none

/-- A version as Python would read it: integers, floats cut off, texts of
digits, and booleans.
mirrors verify-rs/src/action.rs:1264-1272 -/
def asInt : Value → Option Int
  | .number n => some (n.asI64.getD (truncI64 n.asF64))
  | .string x => parseI64 (trim x)
  | .bool b => some (if b then 1 else 0)
  | _ => none

/-- A revision with its version fields. -/
structure GrantVersion where
  version : Int
  prev : Int
  hash : String
  ctx : Value

def GrantVersion.lt (a b : GrantVersion) : Prop :=
  a.version < b.version ∨ a.version = b.version ∧ (a.prev < b.prev ∨ a.prev = b.prev ∧ a.hash < b.hash)

instance : DecidableRel GrantVersion.lt := fun a b =>
  inferInstanceAs (Decidable (a.version < b.version ∨
    a.version = b.version ∧ (a.prev < b.prev ∨ a.prev = b.prev ∧ a.hash < b.hash)))

def GrantVersion.sameKey (a b : GrantVersion) : Prop := a.version = b.version ∧ a.prev = b.prev ∧ a.hash = b.hash

instance : DecidableRel GrantVersion.sameKey := fun a b =>
  inferInstanceAs (Decidable (a.version = b.version ∧ a.prev = b.prev ∧ a.hash = b.hash))

/-- `BTreeMap::insert`. -/
def insertVersion : List GrantVersion → GrantVersion → List GrantVersion
  | [], g => [g]
  | x :: l, g =>
    if g.sameKey x then g :: l
    else if g.lt x then g :: x :: l
    else x :: insertVersion l g

def grantVersion (r : Rec) : Option GrantVersion := do
  let v ← (r.ctx.get "grant_version").bind asInt
  let pv ← (r.ctx.get "prev_grant_version").bind asInt
  return ⟨v, pv, r.rh, r.ctx⟩

/-- The table of versions, one for each version and hash. A receipt that cannot
be read leaves no table at all.
mirrors verify-rs/src/action.rs:1276-1284 -/
def grantVersions (revs : List Rec) : Option (List GrantVersion) :=
  (revs.mapM grantVersion).map fun gs => gs.foldl insertVersion []

/-- The last grant with this hash, as in a map filled in order. -/
def byHash (issuedAll : List Rec) (key : String) : Option Rec := issuedAll.reverse.find? fun r => r.rh == key

theorem byHash_mem {issuedAll : List Rec} {key : String} {r : Rec} (h : byHash issuedAll key = some r) :
    r ∈ issuedAll ∧ r.rh = key := by
  have hm := List.mem_of_find?_eq_some h
  have hp := List.find?_some h
  exact ⟨List.mem_reverse.mp hm, by simpa using hp⟩

/-- Grants whose hash has not been followed yet. -/
def unfollowed (issuedAll : List Rec) (seen : List String) : Nat :=
  (issuedAll.filter fun r => !seen.contains r.rh).length

theorem unfollowed_lt {issuedAll : List Rec} {seen : List String} {key : String} {r : Rec}
    (hs : ¬ seen.contains key = true) (h : byHash issuedAll key = some r) :
    unfollowed issuedAll (key :: seen) < unfollowed issuedAll seen := by
  obtain ⟨hmem, hrh⟩ := byHash_mem h
  unfold unfollowed
  have hsub : (issuedAll.filter fun r => !(key :: seen).contains r.rh).Sublist
      (issuedAll.filter fun r => !seen.contains r.rh) := by
    refine List.monotone_filter_right _ fun a ha => ?_
    simp only [List.contains_cons, Bool.not_or, Bool.and_eq_true] at ha
    exact ha.2
  refine lt_of_le_of_ne hsub.length_le fun heq => ?_
  have := hsub.eq_of_length heq
  have hin : r ∈ issuedAll.filter fun r => !seen.contains r.rh := by
    refine List.mem_filter.mpr ⟨hmem, ?_⟩
    rw [hrh]
    simpa using hs
  rw [← this] at hin
  simpa [hrh] using (List.mem_filter.mp hin).2

/-- The loop of `mandateId`: the grants whose hash has not been followed get
fewer.
mirrors verify-rs/src/action.rs:1291-1299 -/
def mandateLoop (issuedAll : List Rec) (cur : Rec) (seen : List String) : Option String :=
  match cur.ctx.getSome "transfers_grant_id" with
  | none => some cur.rh
  | some nxt =>
    match nxt.asStr with
    | none => none
    | some key =>
      if _hs : seen.contains key = true then none
      else match _h : byHash issuedAll key with
        | none => none
        | some r => mandateLoop issuedAll r (key :: seen)
termination_by unfollowed issuedAll seen
decreasing_by exact unfollowed_lt _hs _h

/-- The grant that the chain of transfers leads back to.
mirrors verify-rs/src/action.rs:1288-1300 -/
def mandateId (issued : Rec) (issuedAll : List Rec) : Option String := mandateLoop issuedAll issued []

/-- A document permits an action over an interval: by its window, by its
classes, and with limits of a known kind.
mirrors verify-rs/src/action.rs:1302-1308 -/
def docOk (actionClass : Value) (lo up : String) (doc : Value) : Bool :=
  let window := match nts (doc.index "valid_from"), nts (doc.index "valid_to") with
    | some vf, some vt => decide (vf ≤ lo) && decide (up ≤ vt)
    | _, _ => false
  let kind := ((doc.get "limits").bind fun l => l.get "kind").bind Value.asStr
  window && ((arr doc "action_classes").any fun c => c.eqv actionClass) &&
    (kind == some "FLOW" || kind == some "STOCK" || kind == some "ONE_SHOT")

/-- One revision: it replaces the document at the lower bound, or takes effect
inside the interval. -/
def docsStep (lo up : String) (docs : Value × List Value) (p : GrantVersion) : Option (Value × List Value) := do
  let eff ← nts (p.ctx.index "effective_ts")
  return if eff ≤ lo then (p.ctx, docs.2) else if eff ≤ up then (docs.1, docs.2 ++ [p.ctx]) else docs

/-- Every document that the loop over the revisions collects permits the action.
mirrors verify-rs/src/action.rs:1312-1323 -/
def docsCover (issued : Rec) (pairs : List GrantVersion) (actionClass : Value) (lo up : String) : Bool :=
  (pairs.foldlM (docsStep lo up) (issued.ctx, [])).any fun docs => (docs.1 :: docs.2).all (docOk actionClass lo up)

/-- The versions are 2, 3 and so on, each naming the one before it.
mirrors verify-rs/src/action.rs:1326-1328 -/
def versionsDense (pairs : List GrantVersion) : Bool :=
  pairs.zipIdx.all fun p => p.1.version == (p.2 : Int) + 2 && p.1.prev == p.1.version - 1

/-- The grant is revoked by the end of the interval; a revocation without a
readable time counts from the start.
mirrors verify-rs/src/action.rs:1332-1334 -/
def revokedInInterval (X : Crates) (rows : List Rec) (timeline : List RootEntry) (gid : Value) (up : String) : Bool :=
  (rootValidAuth X rows timeline "authority.grant.revoked").any fun r =>
    (r.ctx.index "grant_id").eqv gid && (nts (r.ctx.index "effective_ts")).all fun eff => decide (eff ≤ up)

/-- The versions, the revocations and the documents, over an interval with two
ends.
mirrors verify-rs/src/action.rs:1336-1347 -/
def grantChainVerified (X : Crates) (rows : List Rec) (timeline : List RootEntry) (issued : Rec)
    (pairs : List GrantVersion) (intent : Rec) (interval : Interval) : Bool :=
  match nts interval.lower, nts interval.upper with
  | some lo, some up =>
    versionsDense pairs && !revokedInInterval X rows timeline (.string issued.rh) up &&
      docsCover issued pairs (intent.ctx.index "action_class") lo up
  | _, _ => false

/-- A document of the grant names another binding than the one the identity
rests on.
mirrors verify-rs/src/action.rs:1362-1365 -/
def bindingSubstituted (issued : Rec) (revised : List Rec) (bindingId : Option String) : Bool :=
  bindingId.any fun bid => (issued :: revised).any fun r =>
    (r.ctx.getStr "binding_id").any fun named => named != "" && named != bid

/-- The standing and the ids of a grant. -/
structure Grant where
  standing : Standing
  grantId : Option Value := none
  mandateId : Option String := none

/-- The root-valid revisions of a grant. -/
def revisionsOf (X : Crates) (rows : List Rec) (timeline : List RootEntry) (gid : Value) : List Rec :=
  (rootValidAuth X rows timeline "authority.grant.revised").filter fun r => (r.ctx.index "grant_id").eqv gid

/-- The grant the intent names, if its subject is the agent. -/
def issuedFor (issuedAll : List Rec) (gid : Value) (birthtags : List String) : Option Rec :=
  (issuedAll.find? fun r => (Value.string r.rh).eqv gid).filter fun r =>
    ((r.ctx.index "subject_birthtag_id").asStr).any fun b => birthtags.contains b

/-- The authority behind an intent. Two hashes of one version are a conflict;
then come the grant, its bindings and its chain.
mirrors verify-rs/src/action.rs:1367-1395 -/
def deriveAuthority (X : Crates) (rows : List Rec) (timeline : List RootEntry) (intent : Rec) (interval : Interval)
    (birthtags : List String) (bindingId : Option String) : Grant :=
  let gid := intent.ctx.index "grant_id"
  let issuedAll := rootValidAuth X rows timeline "authority.grant.issued"
  let revised := revisionsOf X rows timeline gid
  let pairs := grantVersions revised
  if pairs.any fun p => decide ((p.map (·.version)).toFinset.card < p.length) then { standing := .conflict }
  else match issuedFor issuedAll gid birthtags with
    | none => { standing := .notVerified }
    | some issued =>
      if bindingSubstituted issued revised bindingId then { standing := .notVerified, grantId := some gid }
      else
        let ok := pairs.any fun p => grantChainVerified X rows timeline issued p intent interval
        { standing := if ok then .verified else .notVerified
          grantId := some gid, mandateId := mandateId issued issuedAll }

/-! ## The facts -/

/-- The `VerdictInput.authority` object.
mirrors verify-rs/src/action.rs:1397-1402 -/
structure Facts where
  identity : Standing := .notVerified
  authority : Standing := .notVerified
  intent : IntentState := .notRecorded
  valid : Bool
  interval : Interval := {}
  operatorEntity : Option Value := none
  orgId : Option String := none
  intentId : Option String := none
  bindingId : Option String := none
  birthtagId : Option String := none
  grantId : Option Value := none
  mandateId : Option String := none

/-- What the picked intent adds. -/
def intentFacts (X : Crates) (bundle : Value) (rows : List Rec) (roots : Roots) (out : Facts) (chosen : Rec)
    (dup : Bool) : Facts :=
  let interval := intervalFor X bundle chosen.leaf
  let lineage := agentLineage rows chosen.agent
  let identity := deriveIdentity X rows bundle chosen lineage roots.timeline roots.conflict interval
  let birthtags := identity.birthtag.toList ++ (lineage.map (·.birthtagId)).toList
  let grant := deriveAuthority X rows roots.timeline chosen interval birthtags identity.bindingId
  { out with
    interval := interval, intent := intentResult rows chosen dup
    intentId := if dup then none else some chosen.rh
    identity := identity.standing, bindingId := identity.bindingId, birthtagId := identity.birthtag
    authority := grant.standing, grantId := grant.grantId, mandateId := grant.mandateId }

/-- The facts of a bundle about one action. Without an intent only what concerns
the organisation is known.
mirrors verify-rs/src/action.rs:1404-1440 -/
def facts (X : Crates) (bundle : Value) (actionId : Option String) : Facts :=
  let rows := entryRows X bundle
  let roots := replayRoots X rows
  let out : Facts := { valid := true, orgId := roots.orgId
                       operatorEntity := (roots.timeline.getLast?.map (·.legalEntity)).filter fun v => !v.isNull }
  match pickIntent rows actionId with
  | none => out
  | some (chosen, dup) => intentFacts X bundle rows roots out chosen dup

/-- The facts of a bundle that verifies by itself; of any other bundle nothing
is said.
mirrors verify-rs/src/action.rs:1445-1450 -/
def authorityFacts (X : Crates) (bundle : Value) (actionId : Option String) : Facts :=
  if (verifyBundleFacts X bundle none).ok then facts X bundle actionId else { valid := false }

/-- The members of `subject_ids`, in the order of their names. -/
def Facts.subjectIds (f : Facts) : List (String × Value) :=
  [("binding_id", f.bindingId.map Value.string), ("birthtag_id", f.birthtagId.map Value.string),
    ("grant_id", f.grantId), ("intent_id", f.intentId.map Value.string),
    ("mandate_id", f.mandateId.map Value.string), ("org_id", f.orgId.map Value.string)].filterMap
    fun p => p.2.map fun v => (p.1, v)

/-- The facts as the document that is compared with a certificate's. -/
def Facts.render (f : Facts) : Value :=
  .object ([("authority", .string f.authority.text), ("identity", .string f.identity.text),
    ("integrity", .string (if f.valid then "VALID" else "INVALID")), ("intent", .string f.intent.text),
    ("intent_interval", .object [("lower", f.interval.lower), ("upper", f.interval.upper)])] ++
    (f.operatorEntity.map fun v => ("operator_entity", v)).toList ++
    if f.subjectIds.isEmpty then [] else [("subject_ids", .object f.subjectIds)])

end SwarrmVerify.L4.Action

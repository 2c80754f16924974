import SwarrmVerify.L4Action.Dimensions

/-!
# The verdict vector (`action.rs`)

The dimensions that read no signature (scope, history, authority proof) or one
(population, registration), eligibility and mark, and
`derive_vector_with_trust`. The source derives in Python's manner: a member of
the wrong type raises, the whole derivation is given up, and the vector is that
of the empty input without trust. Here a derivation that raises is `none`.

That the fallback itself does not raise, and that trust does not decide whether
a derivation does, are what every later result about vectors needs; the second
makes it possible to compare two contexts at all.

**Results.**
* `deriveInner_empty`: the empty input never raises.
* `deriveVector_derived`: every vector is what one derivation computed, of the
  input or of the empty one.
* `weakVector_eq`: the vector of an input that raises, value by value.
* `mark_notRecomputed`: a mark is left out exactly if eligibility is.
* `deriveInner_isSome`: which inputs raise, whatever the trust context: one
  condition for each dimension that can.
-/
namespace SwarrmVerify.L4.Action
open SwarrmVerify.L1.Jcs SwarrmVerify.L3.Receipt SwarrmVerify.L4.Trust

/-! ## Scope -/

inductive ScopeRelation where
  | related
  | unrelated
  | unknown
  deriving DecidableEq, Repr

/-- A member of a set of scalars, as text. A list or an object cannot be hashed
and has none. -/
def scalarText (E : Engine) : Value → Option String
  | .string t => some t
  | .array _ => none
  | .object _ => none
  | x => some (E.display x)

/-- Hashable members; `none` mirrors a Python TypeError. A string is the set of
its characters, a number or `true` cannot be iterated. -/
def valSet (E : Engine) : Value → Option (List String)
  | .null => some []
  | .bool b => if b then none else some []
  | .number n => if isZero n then some [] else none
  | .string x => some (x.toList.map String.singleton)
  | .array a => a.mapM (scalarText E)
  | .object m => some (m.map Prod.fst)

def meets (a b : List String) : Bool := a.any b.contains

/-- The predicates of a scope, none if they are no object.
mirrors verify-rs/src/action.rs:642-645 -/
def predMap (v : Value) : List (String × Value) :=
  (((v.index "selector").get "predicates").bind Value.asObject).getD []

/-- The loop over the shared selector keys: a key of one side only restricts
nothing. -/
def predicatesLoop (E : Engine) (cp : List (String × Value)) : List (String × Value) → Option Bool
  | [] => some true
  | (k, va) :: rest =>
    match cp.lookup k with
    | none => predicatesLoop E cp rest
    | some vb => do
      let a ← valSet E va
      let b ← valSet E vb
      if !meets a b then return false else predicatesLoop E cp rest

/-- Two scopes meet if their action classes do, and the values of every selector
that both have.
mirrors verify-rs/src/action.rs:649-663 -/
def predicatesIntersect (E : Engine) (p c : Value) : Option Bool := do
  let pc ← valSet E (p.index "action_classes")
  let cc ← valSet E (c.index "action_classes")
  if !meets pc cc then return false else predicatesLoop E (predMap c) (predMap p)

/-- How one candidate stands to the action. An opaque digest is never unrelated,
as nothing is known of it.
mirrors verify-rs/src/action.rs:665-684 -/
def scopePair (E : Engine) (p cand : Value) : ScopeRelation :=
  let c := cand.index "scope"
  -- an opaque digest can never yield UNRELATED
  if !p.isObject || flag cand "scope_digest_only" || !c.isObject then .unknown
  else if !(p.index "org").eqv (c.index "org") then .unknown
  else if !((p.index "selector").index "kind").eqv ((c.index "selector").index "kind") then .unknown
  else if !(p.index "source_system").eqv (c.index "source_system") || !(p.index "account").eqv (c.index "account") then
    .unrelated
  else match predicatesIntersect E p c with
    | some true => .related
    | some false => .unrelated
    | none => .unknown

/-- `some none` when no mandates are carried. One related candidate makes the
relation, and no candidate leaves it unknown.
mirrors verify-rs/src/action.rs:686-698 -/
def scopeRelation (E : Engine) (vi : Value) : Option (Option ScopeRelation) :=
  match obj vi "mandates" with
  | none => some none
  | some m => do
    let cands ← iterItems (m.get "candidates")
    let results := (cands.filter Value.isObject).map (scopePair E (m.index "presented_scope"))
    return some (if results.contains .related then .related
      else if results.contains .unknown || results.isEmpty then .unknown
      else .unrelated)

/-! ## Population and history -/

inductive PopulationStatus where
  | indeterminate
  | proven
  deriving DecidableEq, Repr

def pop : List String :=
  ["dense_seq_range", "tree_size", "checkpoint_ref", "consistency_proof_ref", "query_descriptor", "result_root",
    "count", "signature"]

/-- A population is proven by a complete index with a query, signed under a key
that the trust context names for the source.
mirrors verify-rs/src/action.rs:702-708 -/
def population (X : Crates) (vi : Value) (trust : Option Value) : Option PopulationStatus :=
  (obj vi "population_index").map fun pi =>
    let complete := pop.all fun f => (pi.getSome f).isSome
    let canonicalQuery := (pi.get "query_descriptor").any Value.isObject
    let signed := verified X trust "population_keys" (pi.getStr "source_id") "population-index" pi
    if complete && canonicalQuery && signed then .proven else .indeterminate

/-- The classes of the surfaces that a manifest lists. One without a class
counts as `None`, as in Python.
mirrors verify-rs/src/action.rs:714-728 -/
def historyManifestSurfaceClasses (E : Engine) (vi : Value) : Option (List String) := do
  let surfaces ← obj vi "surfaces"
  let manifest ← obj surfaces "manifest"
  let entries ← manifest.getArray "entries"
  if entries.isEmpty then none
  else some ((entries.filter Value.isObject).map fun entry => pyStr E (entry.get "surface_class") "None")

inductive HistoryState where
  | closedSinceBirth (surfaces : List String)
  | noEvidencedHistory
  deriving DecidableEq, Repr

/-- What is said of the history in scope: nothing where some of it is evidenced,
else how far its surfaces are closed.
mirrors verify-rs/src/action.rs:730-743 -/
def history (E : Engine) (vi : Value) : Option (Option HistoryState) :=
  match obj vi "history" with
  | none => some none
  | some h =>
    if flag h "evidenced_history_in_scope" then some none
    else do
      let closed ← iterItems (h.get "surfaces_closed_since_birth")
      let surfs := closed.map fun surface => pyStr E (some surface) ""
      let kept := match historyManifestSurfaceClasses E vi with
        | some declared => surfs.filter declared.contains
        | none => surfs
      return some (if flag h "born_with_evidence" && !kept.isEmpty then .closedSinceBirth kept else .noEvidencedHistory)

inductive AuthorityProof where
  | none
  | actionSpecificAuthorization
  | disclosedLimit
  deriving DecidableEq, Repr

/-- How the authority was shown in a handshake: for this very action, if all its
bindings are there, else by a disclosed limit or not at all.
mirrors verify-rs/src/action.rs:748-755 -/
def authorityProof (vi : Value) : Option AuthorityProof :=
  (obj vi "handshake_authority").map fun h =>
    if h.getStr "construction" == some "ACTION_SPECIFIC_AUTHORIZATION" && flag h "asa_bindings_complete" then
      .actionSpecificAuthorization
    else if h.getStr "construction" == some "DISCLOSED_LIMIT" && flag h "disclosed_limit_covers" then .disclosedLimit
    else .none

/-! ## The vector -/

inductive Eligibility where
  | ineligible
  | eligible
  | notRecomputed
  deriving DecidableEq, Repr

inductive RegistrationStatus where
  | unregistered
  | pending
  | registered
  deriving DecidableEq, Repr

inductive Mark where
  | notRecomputed
  | pendingRegistration
  | unmarkedUnregistered
  | unmarkedTechnical
  | unmarkedAssuranceWithdrawn
  deriving DecidableEq, Repr

def Mark.text : Mark → String
  | .notRecomputed => "NOT_RECOMPUTED"
  | .pendingRegistration => "PENDING_REGISTRATION"
  | .unmarkedUnregistered => "UNMARKED_UNREGISTERED"
  | .unmarkedTechnical => "UNMARKED_TECHNICAL"
  | .unmarkedAssuranceWithdrawn => "UNMARKED_ASSURANCE_WITHDRAWN"

/-- The dimensions before eligibility, which is read off them. -/
structure Dims where
  block : AuthorityBlock
  outcome : Option Outcome
  linkage : Linkage
  coverage : Coverage
  coverageBasis : CoverageBasis
  sourceSignature : SourceSignature
  controlDomain : ControlDomain
  node : NodeDims
  temporalBinding : TemporalBinding
  surfaces : SurfaceSets
  accountabilityBasis : AccountabilityBasis
  assuranceLinkage : AssuranceLinkage
  scopeRelation : Option ScopeRelation
  populationStatus : Option PopulationStatus
  historyState : Option HistoryState
  authorityProof : Option AuthorityProof

/-- `evd/verdict-vector/v1`: the dimensions, and what is concluded from them. -/
structure VerdictVector extends Dims where
  technicalEligibility : Eligibility
  registrationStatus : RegistrationStatus
  mark : Mark
  subjectIds : Option Value

def gated : List String :=
  ["identity", "authority", "intent", "integrity", "linkage", "outcome", "coverage", "coverage_basis",
    "temporal_binding", "fork_findings", "scitt_receipt"]

/-- Every check of an eligible action: the dimensions it needs have their
favourable values, and the interval is bounded. -/
def eligible (vi : Value) (d : Dims) : Bool :=
  d.block.identity == .verified && d.block.authority == .verified && d.block.intent == .recorded && d.block.valid &&
    d.outcome == some .matched && d.coverage == .closed &&
    (!d.block.interval.lower.isNull && !d.block.interval.upper.isNull) &&
    (d.linkage == .direct || d.linkage == .deterministic) && d.coverageBasis != .insufficient &&
    !flag vi "fork_findings_open" && d.temporalBinding != .unproven &&
    flag (vi.index "registration") "scitt_receipt_valid"

/-- What is withheld is evaluated first: where a gated field is, nothing can be
said either way.
mirrors verify-rs/src/action.rs:757-774 -/
def eligibility (E : Engine) (vi : Value) (d : Dims) : Option Eligibility :=
  (withheldNames E vi).map fun ws =>
    if ws.any gated.contains then .notRecomputed else if eligible vi d then .eligible else .ineligible

/-- Registered: the scope and the term are covered, and a service that the trust
context names has signed it. Pending: an intent with attempts.
mirrors verify-rs/src/action.rs:776-791 -/
def registrationStatus (X : Crates) (vi : Value) (trust : Option Value) : RegistrationStatus :=
  let reg := vi.index "registration"
  let sr := reg.index "scope_registration"
  if flag sr "covers_scope" && flag sr "term_valid" && (sr.get "registration").any Value.isObject &&
      flag reg "scitt_receipt_valid" &&
      verified X trust "scitt_ts_keys" (sr.getStr "transparency_service") "scope-registration" sr then .registered
  -- a signed intent alone is never pending
  else if (reg.get "intent").any Value.isObject && truthy (reg.get "attempts") then .pending
  else .unregistered

/-- The mark follows from eligibility and registration. What is not recomputed
has none.
mirrors verify-rs/src/action.rs:793-811 -/
def mark (te : Eligibility) (reg : RegistrationStatus) (d : Dims) : Mark :=
  match te, reg with
  | .notRecomputed, _ => .notRecomputed
  | _, .pending => .pendingRegistration
  | _, .unregistered => .unmarkedUnregistered
  | .ineligible, _ => .unmarkedTechnical
  | .eligible, .registered =>
    let corroborated := d.sourceSignature == .asymmetric && d.controlDomain == .independent
    let observed := d.node.observation == .observed && d.node.basis == .hardwareAttested
    if corroborated || observed then .unmarkedAssuranceWithdrawn else .unmarkedTechnical

/-- The dimensions, unless one of them raises. The order is the one in which the
source evaluates them. -/
def deriveDims (E : Engine) (vi : Value) (trust : Option Value) : Option Dims := do
  let node := nodeDims E.toCrates vi trust
  let observed := node.observation == .observed
  let cov := coverage E.toCrates vi node.basis observed trust
  let lo ← linkageOutcome E vi
  let sets ← surfaces E vi trust
  let signature ← sourceSignature E vi trust
  let domain ← controlDomain E.toCrates vi trust
  let basis ← accountability E vi trust
  let relation ← scopeRelation E vi
  let hist ← history E vi
  return { block := authorityBlock vi, outcome := lo.2, linkage := lo.1, coverage := cov.1, coverageBasis := cov.2
           sourceSignature := signature, controlDomain := domain, node := node
           temporalBinding := temporal E.toCrates vi trust, surfaces := sets, accountabilityBasis := basis
           assuranceLinkage := assurance vi observed, scopeRelation := relation
           populationStatus := population E.toCrates vi trust, historyState := hist
           authorityProof := authorityProof vi }

/-- The whole vector, if nothing raises.
mirrors verify-rs/src/action.rs:813-840 -/
def deriveInner (E : Engine) (vi : Value) (trust : Option Value) : Option VerdictVector := do
  let d ← deriveDims E vi trust
  let te ← eligibility E vi d
  let reg := registrationStatus E.toCrates vi trust
  return { d with
    technicalEligibility := te, registrationStatus := reg, mark := mark te reg d
    subjectIds := obj (vi.index "authority") "subject_ids" }

/-- The weak derivation is total: on the empty input no container is
iterated. -/
theorem deriveInner_empty (E : Engine) : (deriveInner E (.object []) none).isSome = true := by
  rfl

/-- The vector of the empty input without trust, in which nothing is
favourable. -/
def weakVector (E : Engine) : VerdictVector := (deriveInner E (.object []) none).get (deriveInner_empty E)

/-- A derivation that raises falls back on the weak vector, so there always is
one.
mirrors verify-rs/src/action.rs:854-856 -/
def deriveVectorWithTrust (E : Engine) (vi : Value) (trust : Option Value) : VerdictVector :=
  (deriveInner E vi trust).getD (weakVector E)

/-! ## One derivation -/

/-- What a derivation that does not raise computed, dimension by dimension. -/
structure Derived (E : Engine) (vi : Value) (trust : Option Value) (v : VerdictVector) : Prop where
  block : v.block = authorityBlock vi
  linkage : linkageOutcome E vi = some (v.linkage, v.outcome)
  node : v.node = nodeDims E.toCrates vi trust
  coverage : (v.coverage, v.coverageBasis) =
    coverage E.toCrates vi v.node.basis (v.node.observation == .observed) trust
  surfaces : surfaces E vi trust = some v.surfaces
  sourceSignature : sourceSignature E vi trust = some v.sourceSignature
  controlDomain : controlDomain E.toCrates vi trust = some v.controlDomain
  temporal : v.temporalBinding = temporal E.toCrates vi trust
  accountability : accountability E vi trust = some v.accountabilityBasis
  assurance : v.assuranceLinkage = assurance vi (v.node.observation == .observed)
  scope : scopeRelation E vi = some v.scopeRelation
  population : v.populationStatus = population E.toCrates vi trust
  history : history E vi = some v.historyState
  proof : v.authorityProof = authorityProof vi
  eligibility : eligibility E vi v.toDims = some v.technicalEligibility
  registration : v.registrationStatus = registrationStatus E.toCrates vi trust
  mark : v.mark = mark v.technicalEligibility v.registrationStatus v.toDims
  subjectIds : v.subjectIds = obj (vi.index "authority") "subject_ids"

theorem deriveInner_derived {E : Engine} {vi : Value} {trust : Option Value} {v : VerdictVector}
    (h : deriveInner E vi trust = some v) : Derived E vi trust v := by
  simp only [deriveInner, deriveDims, Option.bind_eq_bind, Option.bind_eq_some_iff, Option.pure_def,
    Option.some.injEq] at h
  obtain ⟨d, ⟨lo, hlo, sets, hsets, sig, hsig, cd, hcd, acc, hacc, rel, hrel, hist, hhist, rfl⟩, te, hte, rfl⟩ := h
  exact ⟨rfl, hlo, rfl, rfl, hsets, hsig, hcd, rfl, hacc, rfl, hrel, rfl, hhist, rfl, hte, rfl, rfl, rfl⟩

/-- The vector is a derivation of the input, or of the empty one without trust.
All that is said of vectors goes through this. -/
theorem deriveVector_derived (E : Engine) (vi : Value) (trust : Option Value) :
    Derived E vi trust (deriveVectorWithTrust E vi trust) ∨
      deriveInner E vi trust = none ∧ deriveVectorWithTrust E vi trust = weakVector E := by
  unfold deriveVectorWithTrust
  cases h : deriveInner E vi trust with
  | none => exact .inr ⟨rfl, rfl⟩
  | some v => exact .inl (deriveInner_derived h)

/-- The weak vector, value by value, evaluated once. -/
theorem weakVector_eq (E : Engine) : weakVector E =
    { block := ⟨.notVerified, .notVerified, .notRecorded, false, {}⟩, outcome := none, linkage := .none
      coverage := .unknown, coverageBasis := .insufficient, sourceSignature := .none, controlDomain := .unknown
      node := ⟨.notObserved, .none, .logWitnessedSoftware⟩, temporalBinding := .unproven, surfaces := {}
      accountabilityBasis := .unknown, assuranceLinkage := .none, scopeRelation := none, populationStatus := none
      historyState := none, authorityProof := none, technicalEligibility := .ineligible
      registrationStatus := .unregistered, mark := .unmarkedUnregistered, subjectIds := none } := by
  rfl

/-- A mark is left out exactly when eligibility is, whatever the
registration. -/
theorem mark_notRecomputed {te : Eligibility} {reg : RegistrationStatus} {d : Dims} :
    mark te reg d = .notRecomputed ↔ te = .notRecomputed := by
  cases te <;> cases reg <;> simp [mark]
  split <;> simp

/-- The loop over the proofs always recomputes; only what is withheld does
not. -/
theorem signatureLoop_recomputed (E : Engine) (keys : List Value) (trust : Option Value) :
    ∀ (ps : List Value) (hasMac : Bool), signatureLoop E keys trust ps hasMac ≠ .notRecomputed
  | [], hasMac => by cases hasMac <;> simp [signatureLoop]
  | p :: ps, hasMac => by
    unfold signatureLoop
    split
    · nofun
    · exact signatureLoop_recomputed E keys trust ps true
    · exact signatureLoop_recomputed E keys trust ps hasMac

/-! ## Inputs that raise -/

def surfacesReadable (vi : Value) : Bool :=
  match obj vi "surfaces" with
  | none => true
  | some sur =>
    ((iterMember (sur.index "manifest") "entries").any fun entries =>
      !(entries.filter Value.isObject).any fun e => (e.get "surface_class").any unhashable) &&
      (iterItems (sur.get "activity")).isSome

def mandatesReadable (vi : Value) : Bool := (obj vi "mandates").all fun m => (iterItems (m.get "candidates")).isSome

def historyReadable (vi : Value) : Bool :=
  (obj vi "history").all fun h =>
    flag h "evidenced_history_in_scope" || (iterItems (h.get "surfaces_closed_since_birth")).isSome

/-- Every container that a derivation iterates can be iterated, and the names it
puts in sets can be hashed. No signature is read. -/
def readable (E : Engine) (vi : Value) : Bool :=
  (iterItems (vi.get "event_matches")).isSome && surfacesReadable vi &&
    ((withheldNames E vi).any fun ws =>
      ws.contains "source_proofs" || (boundSourceKeys (vi.index "source_identity")).isSome) &&
    (iterItems (vi.get "control_declarations")).isSome &&
    (iterMember (vi.index "accountability") "bindings").isSome && mandatesReadable vi && historyReadable vi

section Raise

variable (E : Engine) (vi : Value) (trust : Option Value)

theorem linkageOutcome_isSome : (linkageOutcome E vi).isSome = (iterItems (vi.get "event_matches")).isSome := by
  unfold linkageOutcome matchCandidates
  cases iterItems (vi.get "event_matches") with
  | none => rfl
  | some ms =>
    simp only [Option.map_some, Option.bind_eq_bind, Option.bind_some, Option.isSome_some]
    split
    · rfl
    · split
      · rfl
      · split <;> rfl
    · rfl

theorem surfaces_isSome : (surfaces E vi trust).isSome = surfacesReadable vi := by
  unfold surfaces surfacesReadable
  cases obj vi "surfaces" with
  | none => rfl
  | some sur =>
    dsimp only
    cases iterMember (sur.index "manifest") "entries" with
    | none => rfl
    | some entries =>
      simp only [Option.bind_eq_bind, Option.bind_some, Option.any_some]
      split
      · rename_i h; simp [h]
      · rename_i h
        cases iterItems (sur.get "activity") <;> simp [h]

theorem sourceSignature_isSome : (sourceSignature E vi trust).isSome =
    (withheldNames E vi).any fun ws =>
      ws.contains "source_proofs" || (boundSourceKeys (vi.index "source_identity")).isSome := by
  unfold sourceSignature fieldWithheld
  cases withheldNames E vi with
  | none => rfl
  | some ws =>
    simp only [Option.map_some, Option.bind_eq_bind, Option.bind_some, Option.any_some]
    cases ws.contains "source_proofs" with
    | true => rfl
    | false =>
      cases boundSourceKeys (vi.index "source_identity") with
      | none => rfl
      | some keys =>
        simp only [Bool.false_eq_true, if_false, Option.bind_some]
        split <;> rfl

theorem controlDomain_isSome :
    (controlDomain E.toCrates vi trust).isSome = (iterItems (vi.get "control_declarations")).isSome := by
  unfold controlDomain
  cases iterItems (vi.get "control_declarations") <;> rfl

theorem accountability_isSome :
    (accountability E vi trust).isSome = (iterMember (vi.index "accountability") "bindings").isSome := by
  unfold accountability
  cases iterMember (vi.index "accountability") "bindings" <;> rfl

theorem scopeRelation_isSome : (scopeRelation E vi).isSome = mandatesReadable vi := by
  unfold scopeRelation mandatesReadable
  cases obj vi "mandates" with
  | none => rfl
  | some m =>
    dsimp only [Option.all_some]
    cases iterItems (m.get "candidates") <;> rfl

theorem history_isSome : (history E vi).isSome = historyReadable vi := by
  unfold history historyReadable
  cases obj vi "history" with
  | none => rfl
  | some h =>
    dsimp only [Option.all_some]
    cases flag h "evidenced_history_in_scope" with
    | true => rfl
    | false => cases iterItems (h.get "surfaces_closed_since_birth") <;> rfl

theorem eligibility_isSome (d : Dims) : (eligibility E vi d).isSome = (withheldNames E vi).isSome := by
  unfold eligibility
  cases withheldNames E vi <;> rfl

/-- Whether a derivation raises depends on the input alone, on its shape and not
on the trust. -/
theorem deriveInner_isSome : (deriveInner E vi trust).isSome = readable E vi := by
  unfold readable
  rw [← linkageOutcome_isSome E vi, ← surfaces_isSome E vi trust, ← sourceSignature_isSome E vi trust,
    ← controlDomain_isSome E vi trust, ← accountability_isSome E vi trust, ← scopeRelation_isSome E vi,
    ← history_isSome E vi]
  unfold deriveInner deriveDims
  cases linkageOutcome E vi with
  | none => rfl
  | some lo =>
  cases surfaces E vi trust with
  | none => rfl
  | some sets =>
  cases hs : sourceSignature E vi trust with
  | none => rfl
  | some signature =>
  cases controlDomain E.toCrates vi trust with
  | none => rfl
  | some domain =>
  cases accountability E vi trust with
  | none => rfl
  | some basis =>
  cases scopeRelation E vi with
  | none => rfl
  | some relation =>
  cases history E vi with
  | none => rfl
  | some hist =>
    simp only [Option.bind_eq_bind, Option.bind_some, Option.pure_def, Option.isSome_some, Bool.and_true]
    -- what is withheld was read for the signature already
    have hw : (withheldNames E vi).isSome = true := by
      have h := sourceSignature_isSome E vi trust
      rw [hs] at h
      cases hw : withheldNames E vi with
      | none => rw [hw] at h; cases h
      | some ws => rfl
    rw [Option.isSome_bind]
    obtain ⟨te, hte⟩ := Option.isSome_iff_exists.mp ((eligibility_isSome E vi _).trans hw)
    rw [hte]
    rfl

end Raise

end SwarrmVerify.L4.Action

import SwarrmVerify.L4Handshake.Reads

/-!
# The phases of an evaluation

What each phase of the evaluation (`verify-rs/src/b28.rs`) establishes. For
every phase there are three cases and no others: it does not panic; where it
refuses, the result carries a verdict other than a pass, a reason that belongs
to a phase, and the vector of one of the stages (`Refused`); and where it is
passed, the documents it has read stand in known relations.

**Papers.** The documents of an exchange are named once: `Opening` for the two
outer envelopes and the action, `Chain` for the papers that the organisation's
root signed, `Signers` for those that delegated keys and the agent's key
signed, `Selection` for the administrator's choice. An evaluation between two
phases is a function of these papers (`evaluation`), so that what a phase adds
to it is read off and never searched for.

No hypothesis is made about the input. The crates are parameters and may answer
anything, except that what is parsed twice is parsed alike.

**Results.**
* `start_ends`, `roots_ends`, `signatures_ends`, `passport_ends`,
  `registration_ends`, `checkpoint_ends`, `authorityProofs_ends`,
  `exactAction_ends`, `finish_ends`: one result for each phase, in their order.
* `phases_ends`: all of them in a row; what is left is `Established`.
* `evaluate_returns`: an evaluation refuses, or hands over an exchange that
  passed every phase with what the durable store has to consume.
* `evaluateRefusal_returns`: the same of a signed refusal, which is accepted in
  one way only.
-/
namespace SwarrmVerify.L4.Handshake
open Panics Evaluation

/-! ## Stages -/

/-- What is marked one after the other. -/
def stages : List (List Dimension) :=
  [[.challenge], [.rootChain, .delegation], [.liveKeyControl, .passportIdentity], [.binding], [.templateAdminPop],
    [.freshStatus], [.grant], [.asaReservation, .exactAction], [.transcript]]

/-- The vector after some stages. -/
def vectorAt : Nat → Vector
  | 0 => initialVector
  | n + 1 => mark (vectorAt n) (stages.getD n []) "VERIFIED"

/-- The reasons that are given elsewhere. -/
def outsideReasons : List String := ["DURABLE_REPLAY_REQUIRED", "MIXED_PROFILE_GENERATION"]

/-- A result that a phase ends with: a verdict other than a pass, a reason that
is given nowhere else, and the vector after some of the stages. What is marked
in it was therefore verified before the phase refused. -/
structure Refused (r : ResultValue) : Prop where
  verdict : r.verdict = "FAIL" ∨ r.verdict = "INDETERMINATE"
  reason : r.reason ∉ outsideReasons
  vector : ∃ n ≤ stages.length, r.vector = vectorAt n

/-- A phase refuses with the vector as it stands, whatever reason it has of its
own. -/
theorem refused_fail {reason : String} {n : Nat} (hn : n ≤ stages.length) (h : reason ∉ outsideReasons) :
    Refused ⟨"FAIL", reason, vectorAt n⟩ := ⟨.inl rfl, h, n, hn, rfl⟩

/-- An indeterminate result with a reason of its own is a refusal, at whatever
stage. -/
theorem refused_indeterminate {reason : String} {n : Nat} (hn : n ≤ stages.length) (h : reason ∉ outsideReasons) :
    Refused ⟨"INDETERMINATE", reason, vectorAt n⟩ := ⟨.inr rfl, h, n, hn, rfl⟩

/-! ## The papers of an exchange -/

/-- An envelope with its document. The verifier keeps envelopes only and decodes
the core again wherever it reads; here the document is found once. -/
structure Paper where
  cwt : Cwt
  doc : Doc

/-- The envelope is of a schema, and this is its document: the core decodes to
it, it has the members of the shape, and its conditions hold. -/
def Paper.Is (X : Crates) (p : Paper) (schema : Schema) : Prop := Carries X p.cwt schema p.doc

/-- The document of a paper can be read, as its schema has accepted it. -/
theorem Paper.Is.docIn {X : Crates} {p : Paper} {schema : Schema} (h : p.Is X schema) : docIn p.cwt.core = .ok p.doc := by
  rw [Handshake.docIn, h.plain]
  rfl

theorem Paper.Is.clean {X : Crates} {p : Paper} {schema : Schema} (h : p.Is X schema) : Clean p.doc :=
  clean_of_canonical h.canonical h.plain

/-- Every member that the schema names can be read off the document, so
`doc[name]` returns. -/
theorem Paper.Is.index {X : Crates} {p : Paper} {schema : Schema} (h : p.Is X schema) :
    ∀ k ∈ (schema.shape X).fields, Panics.index p.doc k = .ok (get p.doc k) := h.shape.index

/-- The document that a member holds, read through its value. -/
theorem inner_eq {d e : Doc} {k : String} (hk : index d k = .ok (get d k)) (he : plain (get d k) = some e) :
    inner d k = .ok e := by
  rw [inner, hk, ok_bind, docIn, he]
  rfl

/-- The two outer envelopes, and the action with its parties. They are what the
first phase puts into the evaluation, and every later phase reads them. -/
structure Opening where
  challenge : Paper
  presentation : Paper
  action : Doc
  actor : Doc
  recipient : Doc
  actionBytes : Bytes

namespace Opening

/-- What the first phase establishes. -/
structure Ok (H : Host) (input : InputContext) (o : Opening) : Prop where
  challengeSigned : signedCwt H input.challenge .challenge input.challengerKeys = .ok (some o.challenge.cwt)
  challenge : o.challenge.Is H.toCrates .challenge
  presented : inspectCwt H input.presentation .presentation = .ok (some o.presentation.cwt)
  presentation : o.presentation.Is H.toCrates .presentation
  action : plain (get o.challenge.doc "action") = some o.action
  actionHolds : actionShape.Holds o.action
  actor : plain (get o.action "actor") = some o.actor
  actorHolds : agentShape.Holds o.actor
  recipient : plain (get o.action "recipient") = some o.recipient
  recipientHolds : agentShape.Holds o.recipient
  actionBytes : canonical (get o.challenge.doc "action") = some o.actionBytes
  issued : numberOf o.challenge.doc "issued_at" ≤ input.now
  expires : input.now < numberOf o.action "expires_at"
  lifetime : numberOf o.action "expires_at" - numberOf o.challenge.doc "issued_at" ≤ input.maxActionLifetime
  envelopeHash : bytes (get o.presentation.doc "challenge_envelope_hash") = some (H.sha256 input.challenge).val
  challengeDigest : bytes (get o.presentation.doc "challenge_digest") =
    some (coreDigest H.toCrates o.challenge.cwt.coreBytes)
  actionDigest : bytes (get o.presentation.doc "action_digest") = some (coreDigest H.toCrates o.actionBytes)

/-- The evaluation after the first phase. -/
def evaluation (o : Opening) : Evaluation :=
  ⟨vectorAt 1, o.challenge.cwt, o.challenge.doc, o.action, o.actionBytes, o.presentation.doc, [], [], none, none, [], []⟩

end Opening

section Start

variable {H : Host} {input : InputContext}

/-- The first phase: a challenger of the local context signed the challenge, the
presentation is of its schema and names the challenge and the action by their
digests, and the clock is in the life of the action. -/
theorem start_ends : Ends (start H input) Refused fun ev => ∃ o : Opening, o.Ok H input ∧ ev = o.evaluation := by
  unfold start
  refine Ends.require (refused_indeterminate (n := 0) (by decide) (by decide)) fun _ => ?_
  refine Ends.lift signedCwt_safe.returns fun r hsigned => ?_
  refine Ends.orElse (refused_fail (n := 0) (by decide) (by decide)) fun challenge hc => ?_
  subst hc
  obtain ⟨doc, hchallenge⟩ := inspectCwt_spec (signedCwt_spec hsigned).1
  have his : (Paper.mk challenge doc).Is H.toCrates .challenge := hchallenge
  have hindex := his.index
  simp only [Schema.shape, challengeShape, List.forall_mem_cons] at hindex
  obtain ⟨⟨challenger, hcp, hch⟩, ⟨action, hap, hah⟩, hissued, hage, hreq⟩ := challenge_reads hchallenge.shape
  obtain ⟨⟨actor, hactor, hactorH⟩, ⟨recipient, hrec, hrecH⟩, -, -, hexpires⟩ := action_reads hah
  obtain ⟨actionBytes, hbytes⟩ := Option.isSome_iff_exists.mp (his.clean "action")
  have hkid := hch.index "agent_kid" (by decide)
  simp only [his.docIn, inner_eq hindex.2.1 hcp, inner_eq hindex.2.2.1 hap, value, hkid, hissued, hexpires, phase_ok_bind]
  refine Ends.require (refused_fail (n := 0) (by decide) (by decide)) fun hsigner => ?_
  refine Ends.require (refused_indeterminate (n := 0) (by decide) (by decide)) fun hnow => ?_
  refine Ends.require (refused_fail (n := 0) (by decide) (by decide)) fun hlive => ?_
  rw [decide_eq_true_eq] at hnow hlive
  have hsub := sub_eq_ok.mpr ⟨le_of_lt (lt_of_le_of_lt hnow hlive), rfl⟩
  simp only [hsub, phase_ok_bind]
  refine Ends.require (refused_indeterminate (n := 0) (by decide) (by decide)) fun hlifetime => ?_
  refine Ends.lift inspectCwt_safe.returns fun r hinspect => ?_
  refine Ends.orElse (refused_fail (n := 1) (by decide) (by decide)) fun presentation hp => ?_
  subst hp
  obtain ⟨pres, hpres⟩ := inspectCwt_spec hinspect
  have hpis : (Paper.mk presentation pres).Is H.toCrates .presentation := hpres
  have hpindex := hpis.index
  simp only [Schema.shape, presentationShape, List.forall_mem_cons] at hpindex
  simp only [hpis.docIn, hindex, bytesIn, hbytes, unwrap_some, isBytes, hpindex, eager, ok_bind, run_pure, phase_ok_bind]
  refine Ends.require (refused_fail (n := 1) (by decide) (by decide)) fun hbinds => ?_
  simp only [Bool.and_eq_true, beq_iff_eq] at hbinds
  refine Ends.pure ⟨⟨⟨challenge, doc⟩, ⟨presentation, pres⟩, action, actor, recipient, actionBytes⟩, ?_, rfl⟩
  exact ⟨hsigned, hchallenge, hinspect, hpres, hap, hah, hactor, hactorH, hrec, hrecH, hbytes, hnow, hlive,
    by simpa using hlifetime, hbinds.1, hbinds.2.1, hbinds.2.2.1⟩

end Start

/-! ## Root-signed papers -/

/-- The envelope inlined in a value, under an anchor that is its organisation:
the anchor that the kid names has verified it, and the organisation root of the
document is that of the anchor. A root-signed paper can speak for no other
organisation. -/
structure Rooted (H : Host) (input : InputContext) (v : C) (schema : Schema) (p : Paper) : Prop where
  read : rootMember H input v schema = .ok (some p.cwt)
  is : p.Is H.toCrates schema
  anchor : ∃ anchor, input.roots.lookup p.cwt.kid = some anchor ∧
    cwtSignatureValid H.toCrates p.cwt anchor.key = true ∧
    p.doc.lookup "organisation_root" = some (.bytes anchor.fingerprint)

/-- The schemas of root-signed papers. -/
def rootSchemas : List Schema :=
  [.rootDelegation, .template, .adminBinding, .adminChallenge, .adminConsumption, .grant, .checkpoint, .agentSuccessor]

/-- A root-signed paper names its organisation and its tenant. -/
theorem names_authority (X : Crates) : ∀ s ∈ rootSchemas,
    "organisation_root" ∈ (s.shape X).fields ∧ "tenant" ∈ (s.shape X).fields := by
  simp [rootSchemas, Schema.shape, delegationShape, templateShape, adminBindingShape, adminChallengeShape,
    adminConsumptionShape, grantShape, checkpointShape, successorShape]

/-- The papers that the root key signed, in the order in which they are read.
There is a successor only where the agent has replaced another. -/
structure Chain where
  delegation : Paper
  template : Paper
  binding : Paper
  adminChallenge : Paper
  consumption : Paper
  grant : Paper
  checkpoint : Paper
  successor : Option Paper

namespace Chain

/-- The root-signed documents, with the successor link if there is one. -/
def papers (c : Chain) : List Paper :=
  [c.delegation, c.template, c.binding, c.adminChallenge, c.consumption, c.grant, c.checkpoint] ++ c.successor.toList

def table (c : Chain) : Table :=
  [("root_delegation", c.delegation.cwt), ("registration_template", c.template.cwt), ("admin_binding", c.binding.cwt),
    ("admin_challenge", c.adminChallenge.cwt), ("admin_consumption", c.consumption.cwt), ("limit_grant", c.grant.cwt),
    ("authority_checkpoint", c.checkpoint.cwt)] ++ c.successor.toList.map fun s => ("agent_successor", s.cwt)

/-- The papers are those inlined in the presentation. -/
structure Read (H : Host) (input : InputContext) (pres : Doc) (c : Chain) : Prop where
  delegation : Rooted H input (get pres "root_delegation") .rootDelegation c.delegation
  template : Rooted H input (get pres "registration_template") .template c.template
  binding : Rooted H input (get pres "admin_binding") .adminBinding c.binding
  adminChallenge : Rooted H input (get pres "admin_challenge") .adminChallenge c.adminChallenge
  consumption : Rooted H input (get pres "admin_consumption") .adminConsumption c.consumption
  grant : Rooted H input (get pres "limit_grant") .grant c.grant
  checkpoint : Rooted H input (get pres "authority_checkpoint") .checkpoint c.checkpoint
  successor : match c.successor with
    | none => bytes (get pres "agent_successor") = none
    | some s => Rooted H input (get pres "agent_successor") .agentSuccessor s

/-- What the second phase establishes. -/
structure Ok (H : Host) (input : InputContext) (o : Opening) (c : Chain) : Prop where
  read : c.Read H input o.presentation.doc
  organisation : ∀ p ∈ c.papers, get p.doc "organisation_root" = get c.delegation.doc "organisation_root"
  tenant : ∀ p ∈ c.papers, get p.doc "tenant" = get c.delegation.doc "tenant"
  actor : get o.actor "organisation_root" = get c.delegation.doc "organisation_root"
  live : within (get c.delegation.doc "valid_from") (get c.delegation.doc "valid_to") input.now = true

/-- The evaluation after the second phase. -/
def evaluation (o : Opening) (c : Chain) : Evaluation := { o.evaluation with rooted := c.table, vector := vectorAt 2 }

end Chain

section Roots

variable {H : Host} {input : InputContext} {o : Opening} {c : Chain}

/-- Reading one root-signed envelope does not panic, and what is read is
`Rooted`. -/
theorem rootMember_returns {v : C} {schema : Schema} (hroot : "organisation_root" ∈ (schema.shape H.toCrates).fields) :
    Returns (rootMember H input v schema) fun r => ∀ cwt, r = some cwt → ∃ doc, Rooted H input v schema ⟨cwt, doc⟩ := by
  have hsafe : Safe (rootMember H input v schema) := by
    unfold rootMember
    split
    · exact safe_pure _
    · exact rootCwt_safe hroot
  refine hsafe.returns.mono fun r hr cwt hcwt => ?_
  subst hcwt
  have hread := hr
  unfold rootMember at hr
  split at hr
  · cases hr
  · obtain ⟨doc, anchor, hc, hanchor⟩ := rootCwt_spec hr
    exact ⟨doc, hread, hc, anchor, hanchor⟩

/-- Root-signed papers are read one by one. The induction is on the list of
members still to be read, with the table of those that have been. -/
theorem readRoots_ends (hpres : o.presentation.Is H.toCrates .presentation) (items : List (String × Schema))
    (hitems : ∀ i ∈ items, i.1 ∈ presentationShape.fields ∧ i.2 ∈ rootSchemas) : ∀ rooted : Table,
    Ends (readRoots H input o.evaluation items rooted) Refused fun t => ∃ ps : List Paper,
      List.Forall₂ (fun i p => Rooted H input (get o.presentation.doc i.1) i.2 p) items ps ∧
        t = rooted ++ List.zipWith (fun i p => (i.1, p.cwt)) items ps := by
  induction items with
  | nil =>
    intro rooted
    exact Ends.pure ⟨[], .nil, (List.append_nil rooted).symm⟩
  | cons i items ih =>
    intro rooted
    obtain ⟨name, schema⟩ := i
    rw [List.forall_mem_cons] at hitems
    have hindex : value o.evaluation.pres name = .ok (get o.presentation.doc name) := hpres.index name hitems.1.1
    simp only [readRoots, hindex, phase_ok_bind]
    refine Ends.lift (rootMember_returns (names_authority _ _ hitems.1.2).1) fun r hr => ?_
    refine Ends.orElse (refused_fail (n := 1) (by decide) (by decide)) fun cwt hcwt => ?_
    obtain ⟨doc, hrooted⟩ := hr cwt hcwt
    refine (ih hitems.2 _).mono (fun _ h => h) fun t ht => ?_
    obtain ⟨ps, hps, rfl⟩ := ht
    exact ⟨⟨cwt, doc⟩ :: ps, .cons hrooted hps, by simp⟩

/-- The successor link is read if it is there, and otherwise the table stays. -/
theorem readSuccessor_ends (hpres : o.presentation.Is H.toCrates .presentation) (rooted : Table) :
    Ends (readSuccessor H input o.evaluation rooted) Refused fun t => ∃ s : Option Paper,
      (match s with
        | none => bytes (get o.presentation.doc "agent_successor") = none
        | some s => Rooted H input (get o.presentation.doc "agent_successor") .agentSuccessor s) ∧
      t = rooted ++ s.toList.map fun s => ("agent_successor", s.cwt) := by
  have hindex : value o.evaluation.pres "agent_successor" = .ok (get o.presentation.doc "agent_successor") :=
    hpres.index _ (by simp [Schema.shape, presentationShape])
  simp only [readSuccessor, hindex, phase_ok_bind]
  cases hb : bytes (get o.presentation.doc "agent_successor") with
  | none => exact Ends.pure ⟨none, rfl, (List.append_nil rooted).symm⟩
  | some raw =>
    have hmember : rootMember H input (get o.presentation.doc "agent_successor") .agentSuccessor =
        rootCwt H raw .agentSuccessor input.roots := by
      rw [rootMember, hb]
    have hreturns := @rootMember_returns H input (get o.presentation.doc "agent_successor") .agentSuccessor
      (names_authority _ _ (by decide)).1
    rw [hmember] at hreturns
    refine Ends.lift hreturns fun r hr => ?_
    refine Ends.orElse (refused_fail (n := 1) (by decide) (by decide)) fun cwt hcwt => ?_
    obtain ⟨doc, hrooted⟩ := hr cwt hcwt
    exact Ends.pure ⟨some ⟨cwt, doc⟩, hrooted, rfl⟩

namespace Chain.Read

/-- Every root-signed paper is of one of their schemas. -/
theorem paper (h : c.Read H input o.presentation.doc) :
    ∀ p ∈ c.papers, ∃ schema ∈ rootSchemas, p.Is H.toCrates schema := by
  intro p hp
  rw [papers, List.mem_append] at hp
  rcases hp with hp | hp
  · simp only [List.mem_cons, List.not_mem_nil, or_false] at hp
    rcases hp with rfl | rfl | rfl | rfl | rfl | rfl | rfl
    · exact ⟨_, by decide, h.delegation.is⟩
    · exact ⟨_, by decide, h.template.is⟩
    · exact ⟨_, by decide, h.binding.is⟩
    · exact ⟨_, by decide, h.adminChallenge.is⟩
    · exact ⟨_, by decide, h.consumption.is⟩
    · exact ⟨_, by decide, h.grant.is⟩
    · exact ⟨_, by decide, h.checkpoint.is⟩
  · have hs := h.successor
    cases hsucc : c.successor with
    | none => rw [hsucc] at hp; cases hp
    | some s =>
      rw [hsucc] at hp hs
      rw [List.mem_singleton.mp hp]
      exact ⟨_, by decide, hs.is⟩

/-- Every document of the table can be read by its name. -/
theorem docs (h : c.Read H input o.presentation.doc) :
    docOf c.table "root_delegation" = .ok c.delegation.doc ∧ docOf c.table "registration_template" = .ok c.template.doc ∧
    docOf c.table "admin_binding" = .ok c.binding.doc ∧ docOf c.table "admin_challenge" = .ok c.adminChallenge.doc ∧
    docOf c.table "admin_consumption" = .ok c.consumption.doc ∧ docOf c.table "limit_grant" = .ok c.grant.doc ∧
    docOf c.table "authority_checkpoint" = .ok c.checkpoint.doc :=
  ⟨h.delegation.is.docIn, h.template.is.docIn, h.binding.is.docIn, h.adminChallenge.is.docIn, h.consumption.is.docIn,
    h.grant.is.docIn, h.checkpoint.is.docIn⟩

end Chain.Read

/-- Every digest of the table is that of its document. -/
theorem digests (X : Crates) (c : Chain) :
    digestOf X c.table "root_delegation" = .ok (coreDigest X c.delegation.cwt.coreBytes) ∧
    digestOf X c.table "registration_template" = .ok (coreDigest X c.template.cwt.coreBytes) ∧
    digestOf X c.table "admin_binding" = .ok (coreDigest X c.binding.cwt.coreBytes) ∧
    digestOf X c.table "admin_challenge" = .ok (coreDigest X c.adminChallenge.cwt.coreBytes) ∧
    digestOf X c.table "admin_consumption" = .ok (coreDigest X c.consumption.cwt.coreBytes) ∧
    digestOf X c.table "limit_grant" = .ok (coreDigest X c.grant.cwt.coreBytes) ∧
    digestOf X c.table "authority_checkpoint" = .ok (coreDigest X c.checkpoint.cwt.coreBytes) :=
  ⟨rfl, rfl, rfl, rfl, rfl, rfl, rfl⟩

/-- Two members that are there are compared, without a panic. -/
theorem same_eq {d e : Doc} {j k : String} (hd : index d j = .ok (get d j)) (he : index e k = .ok (get e k)) :
    same d j e k = .ok (eqv (get d j) (get e k)) := by
  rw [same, hd, he]
  rfl

/-- A window whose ends are there is compared with the clock, without a
panic. -/
theorem live_eq {d : Doc} {j k : String} {now : Nat} (hj : index d j = .ok (get d j)) (hk : index d k = .ok (get d k)) :
    live d j k now = .ok (within (get d j) (get d k) now) := by
  rw [live, hj, hk]
  rfl

/-- An envelope is of the organisation and the tenant of a delegation. The
comparison is by `==`, and both members can be read. -/
theorem sameAuthority_eq {p : Paper} {schema : Schema} {delegation : Doc} (h : p.Is H.toCrates schema)
    (hschema : schema ∈ rootSchemas)
    (hd : index delegation "organisation_root" = .ok (get delegation "organisation_root"))
    (ht : index delegation "tenant" = .ok (get delegation "tenant")) :
    Safe (sameAuthority delegation p.cwt) ∧ (sameAuthority delegation p.cwt = .ok true →
      get p.doc "organisation_root" = get delegation "organisation_root" ∧ get p.doc "tenant" = get delegation "tenant") := by
  have hunfold : sameAuthority delegation p.cwt =
      allOf [.ok (eqv (get p.doc "organisation_root") (get delegation "organisation_root")),
        .ok (eqv (get p.doc "tenant") (get delegation "tenant"))] := by
    rw [sameAuthority, h.plain]
    obtain ⟨hroot, htenant⟩ := names_authority H.toCrates schema hschema
    dsimp only
    rw [same_eq (h.index _ hroot) hd, same_eq (h.index _ htenant) ht]
  rw [hunfold]
  refine ⟨allOf_safe (by simp), fun hall => ?_⟩
  have hall := allOf_eq_true.mp hall
  simp only [List.forall_mem_cons, Except.ok.injEq] at hall
  exact ⟨h.clean.eq hall.1, h.clean.eq hall.2.1⟩

theorem table_values (c : Chain) (f : Cwt → Run Bool) : (c.table.map fun e => f e.2) = c.papers.map fun p => f p.cwt := by
  cases hs : c.successor <;> simp [Chain.table, Chain.papers, hs]

/-- The second phase: the chain has been read, all its papers and the actor are
of the organisation of the delegation, all are of its tenant, and the delegation
is in its window. -/
theorem roots_ends (ho : o.Ok H input) :
    Ends (roots H input o.evaluation) Refused fun ev => ∃ c : Chain, c.Ok H input o ∧ ev = c.evaluation o := by
  unfold roots
  refine Ends.bind (readRoots_ends ho.presentation rootItems (by decide) []) fun t ht => ?_
  obtain ⟨ps, hps, rfl⟩ := ht
  refine Ends.bind (readSuccessor_ends ho.presentation _) fun t ht => ?_
  obtain ⟨successor, hsuccessor, rfl⟩ := ht
  -- the seven papers, in the order of the source
  obtain ⟨delegation, ps1, h1, r1, rfl⟩ := List.forall₂_cons_left_iff.mp hps
  obtain ⟨template, ps2, h2, r2, rfl⟩ := List.forall₂_cons_left_iff.mp r1
  obtain ⟨binding, ps3, h3, r3, rfl⟩ := List.forall₂_cons_left_iff.mp r2
  obtain ⟨adminChallenge, ps4, h4, r4, rfl⟩ := List.forall₂_cons_left_iff.mp r3
  obtain ⟨consumption, ps5, h5, r5, rfl⟩ := List.forall₂_cons_left_iff.mp r4
  obtain ⟨grant, ps6, h6, r6, rfl⟩ := List.forall₂_cons_left_iff.mp r5
  obtain ⟨checkpoint, ps7, h7, r7, rfl⟩ := List.forall₂_cons_left_iff.mp r6
  cases r7
  generalize hc : (Chain.mk delegation template binding adminChallenge consumption grant checkpoint successor) = c
  have hread : c.Read H input o.presentation.doc := by
    subst hc
    exact ⟨h1, h2, h3, h4, h5, h6, h7, hsuccessor⟩
  have htable : [] ++ List.zipWith (fun i p => (i.1, p.cwt)) rootItems
      [delegation, template, binding, adminChallenge, consumption, grant, checkpoint] ++
      (successor.toList.map fun s => ("agent_successor", s.cwt)) = c.table := by
    subst hc
    rfl
  rw [htable]
  have hindex := hread.delegation.is.index
  simp only [Schema.shape, delegationShape, List.forall_mem_cons] at hindex
  have hactor : index o.action "actor" = .ok (get o.action "actor") := ho.actionHolds.index _ (by decide)
  have hactorRoot := ho.actorHolds.index "organisation_root" (by decide)
  simp only [hread.docs, phase_ok_bind, table_values]
  have hsame : ∀ p ∈ c.papers, Safe (sameAuthority c.delegation.doc p.cwt) ∧
      (sameAuthority c.delegation.doc p.cwt = .ok true →
        get p.doc "organisation_root" = get c.delegation.doc "organisation_root" ∧
          get p.doc "tenant" = get c.delegation.doc "tenant") := by
    intro p hp
    obtain ⟨schema, hschema, his⟩ := hread.paper p hp
    exact sameAuthority_eq his hschema hindex.2.1 hindex.1
  refine Ends.requireAll ?_ (refused_fail (n := 1) (by decide) (by decide)) fun hall => ?_
  · intro m hm
    obtain ⟨p, hp, rfl⟩ := List.mem_map.mp hm
    exact (hsame p hp).1
  simp only [Opening.evaluation, inner_eq hactor ho.actor, same_eq hactorRoot hindex.2.1, phase_ok_bind,
    live_eq hindex.2.2.2.2.2.2.2.1 hindex.2.2.2.2.2.2.2.2.1]
  refine Ends.require (refused_fail (n := 1) (by decide) (by decide)) fun hroot => ?_
  refine Ends.require (refused_fail (n := 1) (by decide) (by decide)) fun hlive => ?_
  have hauthority : ∀ p ∈ c.papers, get p.doc "organisation_root" = get c.delegation.doc "organisation_root" ∧
      get p.doc "tenant" = get c.delegation.doc "tenant" := fun p hp => (hsame p hp).2 (hall _ (List.mem_map_of_mem hp))
  refine Ends.pure ⟨c, ⟨hread, fun p hp => (hauthority p hp).1, fun p hp => (hauthority p hp).2, ?_, hlive⟩, rfl⟩
  have hclean : Clean o.actor := (ho.challenge.clean.inner ho.action).inner ho.actor
  exact hclean.eq hroot

end Roots

/-! ## Papers under delegated keys -/

/-- The envelope inlined in a value, signed with one of the given keys. The keys
are those that a root-signed paper has delegated, so that the chain of authority
goes on here. -/
structure Signed (H : Host) (v : C) (schema : Schema) (keys : Keys) (p : Paper) : Prop where
  read : signedMember H v schema keys = .ok (some p.cwt)
  is : p.Is H.toCrates schema
  key : ∃ key, keys.lookup p.cwt.kid = some key ∧ cwtSignatureValid H.toCrates p.cwt key = true

/-- The papers that delegated keys and the agent's key signed: the credential
and the holder's copy of it, the proof of possession, the status snapshot and
the assurance. -/
structure Signers where
  credential : Paper
  proof : Paper
  pop : Paper
  snapshot : Paper
  asa : Paper

def passportKeys (delegation : Doc) : Keys :=
  [(nameOf delegation "passport_authority_kid", rawOf delegation "passport_authority_key")]

def actionKeys (delegation : Doc) : Keys :=
  [(nameOf delegation "action_authority_kid", rawOf delegation "action_authority_key")]

def agentKeys (credential : Doc) : Keys := [(nameOf credential "agent_kid", rawOf credential "agent_key")]

namespace Signers

def table (s : Signers) : Table :=
  [("passport_holder_proof", s.proof.cwt), ("agent_pop", s.pop.cwt), ("status_snapshot", s.snapshot.cwt),
    ("asa", s.asa.cwt)]

/-- What the third phase establishes. -/
structure Ok (H : Host) (input : InputContext) (o : Opening) (c : Chain) (s : Signers) : Prop where
  credential : Signed H (get o.presentation.doc "passport") .credential (passportKeys c.delegation.doc) s.credential
  proof : Signed H (get o.presentation.doc "passport_holder_proof") .credential (agentKeys s.credential.doc) s.proof
  pop : Signed H (get o.presentation.doc "agent_pop") .agentPop (agentKeys s.credential.doc) s.pop
  snapshot : Signed H (get o.presentation.doc "status_snapshot") .snapshot (passportKeys c.delegation.doc) s.snapshot
  asa : Signed H (get o.presentation.doc "asa") .asa (actionKeys c.delegation.doc) s.asa
  holder : s.proof.cwt.core = s.credential.cwt.core
  presentation : signedCwt H input.presentation .presentation (agentKeys s.credential.doc) =
    .ok (some o.presentation.cwt)

/-- The evaluation after the third phase. -/
def evaluation (o : Opening) (c : Chain) (s : Signers) : Evaluation :=
  { c.evaluation o with signed := s.table, credential := some s.credential.cwt, vector := vectorAt 3 }

end Signers

section Signatures

variable {H : Host} {input : InputContext} {o : Opening} {c : Chain} {s : Signers}

/-- A signed member is of its schema and verified under a key of the table. -/
theorem signedMember_returns {v : C} {schema : Schema} {keys : Keys} :
    Returns (signedMember H v schema keys) fun r => ∀ cwt, r = some cwt → ∃ doc, Signed H v schema keys ⟨cwt, doc⟩ := by
  have hsafe : Safe (signedMember H v schema keys) := by
    unfold signedMember
    split
    · exact safe_pure _
    · exact signedCwt_safe
  refine hsafe.returns.mono fun r hr cwt hcwt => ?_
  subst hcwt
  have hread := hr
  unfold signedMember at hr
  split at hr
  · cases hr
  · obtain ⟨hinspect, hkey⟩ := signedCwt_spec hr
    obtain ⟨doc, hc⟩ := inspectCwt_spec hinspect
    exact ⟨doc, hread, hc, hkey⟩

theorem holderMember_safe {v : C} : Safe (holderMember H v) := by
  unfold holderMember
  split
  · exact safe_pure _
  · exact inspectCwt_safe

/-- An envelope that verifies is the one that was inspected. The holder's copy
is inspected before there is a key to verify it with. -/
theorem holder_eq {v : C} {keys : Keys} {holder : Cwt} {p : Paper} (hh : holderMember H v = .ok (some holder))
    (hp : Signed H v .credential keys p) : holder = p.cwt := by
  have hread := hp.read
  unfold holderMember at hh
  unfold signedMember at hread
  cases hb : bytes v with
  | none => rw [hb] at hread; cases hread
  | some raw =>
    rw [hb] at hh hread
    have := (signedCwt_spec hread).1
    exact Option.some.inj (Except.ok.inj (Eq.trans (Eq.symm hh) this))

/-- The third phase: each paper is verified with the keys that are meant for its
kind, the holder's copy has the core of the credential, and the agent's key
signed the presentation. -/
theorem signatures_ends (ho : o.Ok H input) (hc : c.Ok H input o) :
    Ends (signatures H input (c.evaluation o)) Refused fun ev =>
      ∃ s : Signers, s.Ok H input o c ∧ ev = s.evaluation o c := by
  have hindex := ho.presentation.index
  simp only [Schema.shape, presentationShape, List.forall_mem_cons] at hindex
  unfold signatures
  simp only [Chain.evaluation, Opening.evaluation, hc.read.docs, delegation_reads hc.read.delegation.is.shape, value,
    hindex, phase_ok_bind]
  refine Ends.lift signedMember_returns fun r hr => ?_
  refine Ends.orElse (refused_fail (n := 2) (by decide) (by decide)) fun credential hcwt => ?_
  obtain ⟨doc, hcredential⟩ := hr credential hcwt
  refine Ends.lift holderMember_safe.returns fun r hholder => ?_
  refine Ends.orElse (refused_fail (n := 2) (by decide) (by decide)) fun holder hcwt => ?_
  subst hcwt
  refine Ends.require (refused_fail (n := 2) (by decide) (by decide)) fun hcore => ?_
  simp only [hcredential.is.docIn, credential_reads hcredential.is.shape, phase_ok_bind]
  refine Ends.lift signedMember_returns fun r hr => ?_
  refine Ends.orElse (refused_fail (n := 2) (by decide) (by decide)) fun proof hcwt => ?_
  obtain ⟨proofDoc, hproof⟩ := hr proof hcwt
  refine Ends.lift signedMember_returns fun r hr => ?_
  refine Ends.orElse (refused_fail (n := 2) (by decide) (by decide)) fun pop hcwt => ?_
  obtain ⟨popDoc, hpop⟩ := hr pop hcwt
  refine Ends.lift signedMember_returns fun r hr => ?_
  refine Ends.orElse (refused_fail (n := 2) (by decide) (by decide)) fun snapshot hcwt => ?_
  obtain ⟨snapshotDoc, hsnapshot⟩ := hr snapshot hcwt
  refine Ends.lift signedMember_returns fun r hr => ?_
  refine Ends.orElse (refused_fail (n := 2) (by decide) (by decide)) fun asa hcwt => ?_
  obtain ⟨asaDoc, hasa⟩ := hr asa hcwt
  refine Ends.lift signedCwt_safe.returns fun r hsigned => ?_
  refine Ends.require (refused_fail (n := 2) (by decide) (by decide)) fun hsome => ?_
  obtain ⟨cwt, rfl⟩ := Option.isSome_iff_exists.mp hsome
  refine Ends.pure ⟨⟨⟨credential, doc⟩, ⟨proof, proofDoc⟩, ⟨pop, popDoc⟩, ⟨snapshot, snapshotDoc⟩, ⟨asa, asaDoc⟩⟩,
    ⟨hcredential, hproof, hpop, hsnapshot, hasa, ?_, ?_⟩, rfl⟩
  · have hsame := holder_eq hholder hproof
    subst hsame
    exact eq_of_eqv (p := cwtProfile) _ (Option.isSome_iff_exists.mpr ⟨_, hproof.is.canonical⟩) hcore
  · have hinspect := (signedCwt_spec hsigned).1
    rw [ho.presented] at hinspect
    cases hinspect
    exact hsigned

end Signatures

/-! ## The passport -/

def templateFields : List String :=
  ["template_id", "template_version", "owner", "purpose", "mandate_digest", "config_digest"]

/-- What the fourth phase establishes. -/
structure PassportOk (X : Crates) (o : Opening) (c : Chain) (s : Signers) (now : Nat) : Prop where
  organisation : get s.credential.doc "organisation_root" = get c.delegation.doc "organisation_root"
  tenant : get s.credential.doc "tenant" = get c.delegation.doc "tenant"
  delegationId : get s.credential.doc "authority_delegation_id" = get c.delegation.doc "delegation_id"
  birthtag : get s.credential.doc "birthtag" = get o.actor "birthtag"
  revision : get s.credential.doc "revision" = get o.actor "revision"
  agentKid : get s.credential.doc "agent_kid" = get o.actor "agent_kid"
  passportKey : eqv (get s.credential.doc "agent_key") (get c.delegation.doc "passport_authority_key") = false
  actionKey : eqv (get s.credential.doc "agent_key") (get c.delegation.doc "action_authority_key") = false
  live : within (get s.credential.doc "valid_from") (get s.credential.doc "valid_to") now = true
  successor : successorMatches X s.credential.doc (c.successor.map Paper.cwt) now = .ok true
  template : ∀ k ∈ templateFields, get s.credential.doc k = get c.template.doc k
  templateLive : within (get c.template.doc "valid_from") (get c.template.doc "valid_to") now = true

section Passport

variable {H : Host} {input : InputContext} {o : Opening} {c : Chain} {s : Signers}

theorem lookup_successor (c : Chain) : c.table.lookup "agent_successor" = c.successor.map Paper.cwt := by
  cases hs : c.successor with
  | none => rw [Chain.table, hs]; rfl
  | some p => rw [Chain.table, hs]; rfl

/-- The link can be compared: both documents have the members that are read. -/
theorem successorMatches_safe {X : Crates} {p : Paper} {successor : Option Paper} {now : Nat}
    (hp : p.Is X .credential) (hs : ∀ q, successor = some q → q.Is X .agentSuccessor) :
    Safe (successorMatches X p.doc (successor.map Paper.cwt) now) := by
  have hindex := hp.index
  simp only [Schema.shape, credentialShape, List.forall_mem_cons] at hindex
  obtain ⟨proposal, hproposal⟩ := selectedDigest_safe hp.canonical hp.plain hp.shape
  unfold successorMatches
  simp only [hindex, ok_bind]
  cases successor with
  | none => cases get p.doc "agent_successor_digest" <;> exact safe_pure _
  | some q =>
    have hq := hs q rfl
    have hlink := hq.index
    simp only [Schema.shape, successorShape, List.forall_mem_cons] at hlink
    cases get p.doc "agent_successor_digest" with
    | bytes digest =>
      simp only [Option.map_some, hq.plain, unwrap_some, ok_bind, same, hindex, hlink, hproposal, run_pure]
      exact allOf_safe (by simp)
    | _ => exact safe_pure _

/-- Members of two documents compared one after the other. The chain stops at
the first that differs, and none of them is missing. -/
theorem allOf_map_same {d e : Doc} {keys : List String} (hd : Clean d)
    (hj : ∀ k ∈ keys, index d k = .ok (get d k)) (hk : ∀ k ∈ keys, index e k = .ok (get e k)) :
    Returns (allOf (keys.map fun k => same d k e k)) fun b => b = true → ∀ k ∈ keys, get d k = get e k := by
  refine (allOf_returns ?_).mono fun b hb ht k hin => ?_
  · intro m hm
    obtain ⟨k, hin, rfl⟩ := List.mem_map.mp hm
    rw [same_eq (hj k hin) (hk k hin)]
    exact safe_ok _
  · have := hb ht _ (List.mem_map_of_mem hin)
    rw [same_eq (hj k hin) (hk k hin)] at this
    exact hd.eq (Except.ok.inj this)

theorem credentialDoc_eq (hs : s.Ok H input o c) : (s.evaluation o c).credentialDoc = .ok s.credential.doc :=
  hs.credential.is.docIn

/-- The fourth phase: the credential is the actor's, it is of the delegation and
agrees with its template, both are in their windows, and a successor that is
shown matches it. -/
theorem passport_ends (ho : o.Ok H input) (hc : c.Ok H input o) (hs : s.Ok H input o c) :
    Ends (passport H input (s.evaluation o c)) Refused fun ev =>
      PassportOk H.toCrates o c s input.now ∧ ev = { s.evaluation o c with vector := vectorAt 4 } := by
  have hcredential := hs.credential.is.index
  simp only [Schema.shape, credentialShape, List.forall_mem_cons] at hcredential
  have hdelegation := hc.read.delegation.is.index
  simp only [Schema.shape, delegationShape, List.forall_mem_cons] at hdelegation
  have htemplate := hc.read.template.is.index
  have hactorIndex := ho.actorHolds.index
  simp only [agentShape, List.forall_mem_cons] at hactorIndex
  have hactor := inner_eq (ho.actionHolds.index "actor" (by decide)) ho.actor
  have hclean := hs.credential.is.clean
  unfold passport
  simp only [credentialDoc_eq hs, phase_ok_bind]
  simp only [Signers.evaluation, Chain.evaluation, Opening.evaluation, hc.read.docs, hactor, same, differ, live,
    hcredential, hdelegation, hactorIndex, eager, ok_bind, run_pure, phase_ok_bind]
  refine Ends.lift (allOf_returns (by simp)) fun distinct hdistinct => ?_
  refine Ends.require (refused_fail (n := 3) (by decide) (by decide)) fun hd => ?_
  refine Ends.require (refused_fail (n := 3) (by decide) (by decide)) fun hbound => ?_
  rw [lookup_successor]
  refine Ends.lift (successorMatches_safe hs.credential.is fun q hq => ?_).returns fun b hsuccessor => ?_
  · have := hc.read.successor
    rw [hq] at this
    exact this.is
  refine Ends.require (refused_fail (n := 3) (by decide) (by decide)) fun hb => ?_
  subst hb
  have htindex : ∀ k ∈ templateFields, index c.template.doc k = .ok (get c.template.doc k) := by
    intro k hk
    refine htemplate k ?_
    have hsub : ∀ k ∈ templateFields, k ∈ templateShape.fields := by decide
    exact hsub k hk
  have hcindex : ∀ k ∈ templateFields, index s.credential.doc k = .ok (get s.credential.doc k) := by
    simp only [templateFields, List.forall_mem_cons, hcredential, true_and, List.not_mem_nil, false_imp_iff, implies_true]
  simp only [Schema.shape, templateShape, List.forall_mem_cons] at htemplate
  simp only [htemplate, ok_bind, phase_ok_bind]
  refine Ends.lift (@allOf_map_same _ _ templateFields hclean hcindex htindex) fun alike halike => ?_
  refine Ends.require (refused_fail (n := 3) (by decide) (by decide)) fun hok => ?_
  have hdistinct := hdistinct hd
  simp only [List.forall_mem_cons, Except.ok.injEq, Bool.not_eq_true'] at hdistinct
  simp only [Bool.and_eq_true] at hbound hok
  obtain ⟨⟨horganisation, htenant, hdelegationId, hbirthtag, hrevision, hkid, -⟩, hlive⟩ := hbound
  refine Ends.pure ⟨⟨hclean.eq horganisation, hclean.eq htenant, hclean.eq hdelegationId, hclean.eq hbirthtag,
    hclean.eq hrevision, hclean.eq hkid, hdistinct.1, hdistinct.2.1, hlive, hsuccessor, halike hok.1, hok.2⟩, rfl⟩

end Passport

/-! ## Registration -/

/-- The administrator's selection as it was inlined, and what it decodes to. It
is no envelope: an assertion over its digest stands for a signature. -/
structure Selection where
  raw : Bytes
  value : C
  doc : Doc

/-- What the fifth phase establishes. -/
structure RegistrationOk (H : Host) (input : InputContext) (o : Opening) (c : Chain) (s : Signers) (sel : Selection) :
    Prop where
  raw : bytes (get o.presentation.doc "admin_selection") = some sel.raw
  decoded : decode H sel.raw 16384 = some sel.value
  plain : plain sel.value = some sel.doc
  holds : selectionShape.Holds sel.doc
  issuance : ∃ proposal, selectedDigest H.toCrates s.credential.doc = .ok (some proposal) ∧
    ∀ m ∈ issuanceChecks s.credential.doc c.template.doc c.binding.doc c.adminChallenge.doc s.pop.doc sel.doc proposal,
      m = .ok true
  asserted : ∃ state, recordedState c.consumption.doc = .ok state ∧
    Asserted H c.binding.doc sel.doc input.origin input.now state
  selectionDigest : bytes (get s.credential.doc "admin_selection_digest") = some (coreDigest H.toCrates sel.raw)
  popDigest : bytes (get s.credential.doc "agent_pop_digest") = some (coreDigest H.toCrates s.pop.cwt.coreBytes)
  consumption : ∀ m ∈ consumptionChecks H.toCrates c.binding.doc c.adminChallenge.doc c.consumption.doc sel.doc
    (coreDigest H.toCrates c.adminChallenge.cwt.coreBytes) sel.raw s.credential.cwt.coreBytes input.now, m = .ok true

/-- The evaluation after the fifth phase. -/
def Selection.evaluation (o : Opening) (c : Chain) (s : Signers) (sel : Selection) : Evaluation :=
  { s.evaluation o c with selectionRaw := sel.raw, selection := some sel.value, vector := vectorAt 5 }

section Registration

variable {H : Host} {input : InputContext} {o : Opening} {c : Chain} {s : Signers} {sel : Selection}

theorem Signers.Ok.docs (hs : s.Ok H input o c) :
    docOf s.table "agent_pop" = .ok s.pop.doc ∧ docOf s.table "status_snapshot" = .ok s.snapshot.doc ∧
    docOf s.table "asa" = .ok s.asa.doc := ⟨hs.pop.is.docIn, hs.snapshot.is.docIn, hs.asa.is.docIn⟩

theorem recordedState_returns {d : Doc} (h : adminConsumptionShape.Holds d) : Safe (recordedState d) := by
  obtain ⟨-, -, -, hbefore, hafter, ⟨e, he⟩, ⟨t, ht⟩⟩ := consumption_reads h
  have hindex := h.index
  simp only [adminConsumptionShape, List.forall_mem_cons] at hindex
  unfold recordedState
  simp only [hindex, ok_bind, he, ht, hbefore, hafter]
  exact safe_pure _

/-- A selection that decodes is of its shape, and decoding it does not panic on
any bytes. -/
theorem readSelection_returns {selectionRaw : Bytes} :
    Returns (readSelection H selectionRaw) fun r => ∀ v, r = some v →
      decode H selectionRaw 16384 = some v ∧ ∃ doc, plain v = some doc ∧ selectionShape.Holds doc := by
  unfold readSelection
  cases hd : decode H selectionRaw 16384 with
  | none => exact returns_pure.mpr nofun
  | some v =>
    refine Returns.bind (Shape.validate_safe (shape_total H.toCrates .adminSelection) v).returns fun b hb => ?_
    rw [returns_pure]
    intro w hw
    cases b with
    | false => cases hw
    | true =>
      cases hw
      exact ⟨rfl, Shape.validate_holds hb⟩

/-- The fifth phase: the administrator's assertion has been checked against the
binding, the consumption and the proof of possession are about this selection,
and the counter has grown. -/
theorem registration_ends (ho : o.Ok H input) (hc : c.Ok H input o) (hs : s.Ok H input o c) :
    Ends (registration H input { s.evaluation o c with vector := vectorAt 4 }) Refused fun ev =>
      ∃ sel : Selection, RegistrationOk H input o c s sel ∧ ev = sel.evaluation o c s := by
  have hcredential := hs.credential.is.index
  simp only [Schema.shape, credentialShape, List.forall_mem_cons] at hcredential
  have htemplate := hc.read.template.is.index
  simp only [Schema.shape, templateShape, List.forall_mem_cons] at htemplate
  have hbinding := hc.read.binding.is.index
  simp only [Schema.shape, adminBindingShape, List.forall_mem_cons] at hbinding
  have hchallenge := hc.read.adminChallenge.is.index
  simp only [Schema.shape, adminChallengeShape, List.forall_mem_cons] at hchallenge
  have hconsumption := hc.read.consumption.is.index
  simp only [Schema.shape, adminConsumptionShape, List.forall_mem_cons] at hconsumption
  have hpop := hs.pop.is.index
  simp only [Schema.shape, popShape, List.forall_mem_cons] at hpop
  have hcred : ({ s.evaluation o c with vector := vectorAt 4 } : Evaluation).credentialDoc = .ok s.credential.doc :=
    credentialDoc_eq hs
  obtain ⟨proposal, hproposal⟩ :=
    selectedDigest_safe hs.credential.is.canonical hs.credential.is.plain hs.credential.is.shape
  obtain ⟨hselRaw, -⟩ := presentation_reads ho.presentation.shape
  unfold registration
  simp only [hcred, phase_ok_bind]
  simp only [Signers.evaluation, Chain.evaluation, Opening.evaluation, hc.read.docs, hs.docs, hselRaw, phase_ok_bind]
  refine Ends.lift readSelection_returns fun r hr => ?_
  refine Ends.orElse (refused_fail (n := 4) (by decide) (by decide)) fun v hv => ?_
  obtain ⟨hdecode, sel, hplain, hholds⟩ := hr v hv
  have hsel := hholds.index
  simp only [selectionShape, List.forall_mem_cons] at hsel
  have hdocIn : docIn v = .ok sel := by
    rw [docIn, hplain]
    rfl
  simp only [hdocIn, selectedBytes, hproposal, unwrap_some, ok_bind, phase_ok_bind]
  refine Ends.requireEager ?_ (refused_fail (n := 4) (by decide) (by decide)) fun hissuance => ?_
  · simp only [issuanceChecks, isBytes, same, hsel, htemplate, hbinding, hchallenge, hpop, hcredential, ok_bind, run_pure,
      List.forall_mem_cons]
    simp
  refine Ends.lift (recordedState_returns hc.read.consumption.is.shape).returns fun state hstate => ?_
  refine Ends.lift (verifyAdmin_spec hplain hc.read.binding.is.shape hholds) fun r hadmin => ?_
  refine Ends.require (refused_fail (n := 4) (by decide) (by decide)) fun hsame => ?_
  rw [beq_iff_eq] at hsame
  obtain ⟨-, hasserted⟩ := hadmin state hsame
  have hpopCwt : envelope s.table "agent_pop" = .ok s.pop.cwt := rfl
  simp only [hpopCwt, phase_ok_bind, registrationDigestsMatch]
  refine Ends.requireAll ?_ (refused_fail (n := 4) (by decide) (by decide)) fun hdigests => ?_
  · simp only [isBytes, hcredential, ok_bind, run_pure, List.forall_mem_cons]
    simp
  simp only [digests, passportCwt, unwrap_some, phase_ok_bind]
  refine Ends.requireEager ?_ (refused_fail (n := 4) (by decide) (by decide)) fun hconsumed => ?_
  · simp only [consumptionChecks, isBytes, same, hsel, hbinding, hchallenge, hconsumption, ok_bind, run_pure,
      List.forall_mem_cons]
    simp
  simp only [isBytes, hcredential, ok_bind, run_pure, List.forall_mem_cons, Except.ok.injEq, beq_iff_eq] at hdigests
  refine Ends.pure ⟨⟨rawOf o.presentation.doc "admin_selection", v, sel⟩, ⟨?_, hdecode, hplain, hholds,
    ⟨proposal, hproposal, hissuance⟩, ⟨state, hstate, hasserted⟩, hdigests.1, hdigests.2.1, hconsumed⟩, rfl⟩
  obtain ⟨b, hb, hraw⟩ := bind_eq_ok.mp hselRaw
  rw [get_of_lookup (index_eq_ok.mp hb)]
  exact unwrap_eq_ok.mp hraw

end Registration

/-! ## The authority's checkpoint -/

/-- A checkpoint as it would be registered. -/
def pinFor (d : Doc) : Pin :=
  ⟨nameOf d "tenant", rawOf d "organisation_root", numberOf d "sequence", rawOf d "authority_root", rawOf d "log_root",
    numberOf d "log_size"⟩

/-- What the sixth phase establishes. -/
structure CheckpointOk (H : Host) (input : InputContext) (o : Opening) (c : Chain) (s : Signers) (head : Head) : Prop where
  registered : input.checkpoints.lookup (coreDigest H.toCrates c.checkpoint.cwt.coreBytes) = some (pinFor c.checkpoint.doc)
  current : input.heads.lookup (nameOf c.checkpoint.doc "tenant", rawOf c.checkpoint.doc "organisation_root") = some head
  sequence : numberOf c.checkpoint.doc "sequence" = head.sequence
  authorityRoot : bytes (get c.checkpoint.doc "authority_root") = some head.authorityRoot
  logRoot : bytes (get c.checkpoint.doc "log_root") = some head.logRoot
  logSize : uint (get c.checkpoint.doc "log_size") = some head.logSize
  issuance : ∃ issued, input.checkpoints.lookup (rawOf s.credential.doc "issuance_checkpoint") = some issued ∧
    issued.tenant = nameOf c.checkpoint.doc "tenant" ∧
    issued.organisationRoot = rawOf c.checkpoint.doc "organisation_root" ∧
    issued.sequence ≤ numberOf c.checkpoint.doc "sequence" ∧
    verifyConsistencyProof H.toCrates (get o.presentation.doc "issuance_consistency_proof") issued.logSize
      (numberOf c.checkpoint.doc "log_size") issued.logRoot (rawOf c.checkpoint.doc "log_root") = true
  snapshot : ∃ proofBytes, canonical (get o.presentation.doc "state_proofs") = some proofBytes ∧
    ∀ m ∈ snapshotChecks H.toCrates s.snapshot.doc c.checkpoint.doc c.delegation.doc
      (coreDigest H.toCrates c.checkpoint.cwt.coreBytes) proofBytes, m = .ok true
  notBefore : numberOf c.checkpoint.doc "issued_at" ≤ input.now
  age : input.now - numberOf c.checkpoint.doc "issued_at" ≤ numberOf o.challenge.doc "max_checkpoint_age"
  statusAsOf : get c.checkpoint.doc "issued_at" = get s.snapshot.doc "status_as_of"
  fresh : input.now < numberOf s.snapshot.doc "expires_at"

/-- The evaluation after the sixth phase. -/
def headEvaluation (o : Opening) (c : Chain) (s : Signers) (sel : Selection) (head : Head) : Evaluation :=
  { sel.evaluation o c s with headRoot := head.authorityRoot }

section Checkpoint

variable {H : Host} {input : InputContext} {o : Opening} {c : Chain} {s : Signers} {sel : Selection}

/-- A checkpoint of its shape says what would be registered of it. -/
theorem pinOf_eq {d : Doc} (h : checkpointShape.Holds d) : pinOf d = .ok (pinFor d) := by
  unfold pinOf
  simp only [checkpoint_reads h, ok_bind]
  rfl

/-- Without an error the checkpoint is the head: its sequence is that of the
authority's head, and so are its roots and size. -/
theorem checkpointHeadError_returns {d : Doc} {sequence : Nat} {head : Head} (h : checkpointShape.Holds d) :
    Returns (checkpointHeadError d sequence head) fun r =>
      (∀ verdict reason, r = some (verdict, reason) →
        (verdict = "FAIL" ∨ verdict = "INDETERMINATE") ∧ reason ∉ outsideReasons) ∧
      (r = none → sequence = head.sequence ∧ bytes (get d "authority_root") = some head.authorityRoot ∧
        bytes (get d "log_root") = some head.logRoot ∧ uint (get d "log_size") = some head.logSize) := by
  have hindex := h.index
  simp only [checkpointShape, List.forall_mem_cons] at hindex
  unfold checkpointHeadError
  split
  · rw [returns_pure]
    refine ⟨?_, nofun⟩
    intro verdict reason he
    cases he
    exact ⟨.inl rfl, by decide⟩
  · split
    · rw [returns_pure]
      refine ⟨?_, nofun⟩
      intro verdict reason he
      cases he
      exact ⟨.inr rfl, by decide⟩
    · rename_i hlt hgt
      refine Returns.bind (allOf_returns ?_) fun agree hagree => ?_
      · simp only [isBytes, hindex, ok_bind, run_pure, List.forall_mem_cons]
        simp
      · rw [returns_pure]
        cases agree with
        | false =>
          refine ⟨?_, nofun⟩
          intro verdict reason he
          cases he
          exact ⟨.inl rfl, by decide⟩
        | true =>
          refine ⟨nofun, fun _ => ?_⟩
          have hagree := hagree rfl
          simp only [isBytes, hindex, ok_bind, run_pure, List.forall_mem_cons, Except.ok.injEq, beq_iff_eq] at hagree
          exact ⟨by omega, hagree.1, hagree.2.1, hagree.2.2.1⟩

/-- The sixth phase: the checkpoint is registered and is the head, the snapshot
is about it, and the log it stands for extends the one of issuance. -/
theorem checkpoint_ends (ho : o.Ok H input) (hc : c.Ok H input o) (hs : s.Ok H input o c) :
    Ends (Evaluation.checkpoint H input (sel.evaluation o c s)) Refused fun ev =>
      ∃ head : Head, CheckpointOk H input o c s head ∧ ev = headEvaluation o c s sel head := by
  have hcheckpoint := hc.read.checkpoint.is.index
  simp only [Schema.shape, checkpointShape, List.forall_mem_cons] at hcheckpoint
  have hdelegation := hc.read.delegation.is.index
  simp only [Schema.shape, delegationShape, List.forall_mem_cons] at hdelegation
  have hsnapshot := hs.snapshot.is.index
  simp only [Schema.shape, snapshotShape, List.forall_mem_cons] at hsnapshot
  have hpres := ho.presentation.index
  simp only [Schema.shape, presentationShape, List.forall_mem_cons] at hpres
  have hcred : (sel.evaluation o c s).credentialDoc = .ok s.credential.doc := credentialDoc_eq hs
  obtain ⟨-, -, -, -, hissuance⟩ := credential_reads hs.credential.is.shape
  obtain ⟨proofBytes, hproofs⟩ := Option.isSome_iff_exists.mp (ho.presentation.clean "state_proofs")
  unfold Evaluation.checkpoint
  simp only [hcred, phase_ok_bind]
  simp only [Selection.evaluation, Signers.evaluation, Chain.evaluation, Opening.evaluation, hc.read.docs, digests,
    pinOf_eq hc.read.checkpoint.is.shape, phase_ok_bind]
  refine Ends.require (refused_indeterminate (n := 5) (by decide) (by decide)) fun hregistered => ?_
  refine Ends.orElse (refused_indeterminate (n := 5) (by decide) (by decide)) fun head hhead => ?_
  refine Ends.lift (checkpointHeadError_returns hc.read.checkpoint.is.shape) fun r hr => ?_
  cases r with
  | some e =>
    obtain ⟨verdict, reason⟩ := e
    obtain ⟨hverdict, hreason⟩ := hr.1 verdict reason rfl
    exact Ends.throw ⟨hverdict, hreason, 5, by decide, rfl⟩
  | none =>
    obtain ⟨hsequence, hauthority, hlog, hsize⟩ := hr.2 rfl
    simp only [hissuance, phase_ok_bind]
    refine Ends.orElse (refused_indeterminate (n := 5) (by decide) (by decide)) fun issued hissued => ?_
    simp only [value, hpres, phase_ok_bind]
    refine Ends.require (refused_fail (n := 5) (by decide) (by decide)) fun hconsistent => ?_
    simp only [hs.docs, bytesIn, hproofs, unwrap_some, phase_ok_bind]
    refine Ends.requireEager ?_ (refused_fail (n := 5) (by decide) (by decide)) fun hbound => ?_
    · simp only [snapshotChecks, isBytes, same, hsnapshot, hcheckpoint, hdelegation, ok_bind, run_pure,
        List.forall_mem_cons]
      simp
    simp only [checkpoint_reads hc.read.checkpoint.is.shape, challenge_reads ho.challenge.shape, phase_ok_bind]
    refine Ends.require (refused_indeterminate (n := 5) (by decide) (by decide)) fun hage => ?_
    simp only [same, hcheckpoint, hsnapshot, ok_bind, run_pure, phase_ok_bind]
    refine Ends.require (refused_fail (n := 5) (by decide) (by decide)) fun hasOf => ?_
    simp only [snapshot_reads hs.snapshot.is.shape, phase_ok_bind]
    refine Ends.require (refused_indeterminate (n := 5) (by decide) (by decide)) fun hfresh => ?_
    obtain ⟨hissued, hfilter⟩ := Option.filter_eq_some_iff.mp hissued
    simp only [Bool.and_eq_true, beq_iff_eq, decide_eq_true_eq] at hregistered hfilter hage hfresh
    exact Ends.pure ⟨head, ⟨hregistered, hhead, hsequence, hauthority, hlog, hsize,
      ⟨issued, hissued, hfilter.1.1, hfilter.1.2, hfilter.2, hconsistent⟩, ⟨proofBytes, hproofs, hbound⟩, hage.1, hage.2,
      hc.read.checkpoint.is.clean.eq hasOf, hfresh⟩, rfl⟩

end Checkpoint

/-! ## States of the objects -/

def versionedId (d : Doc) (id version : String) : Bytes := rawOf d id ++ Sha256.bytesBE 8 (numberOf d version)

/-- The states that the presentation has to prove. -/
def claimsFor (X : Crates) (c : Chain) (s : Signers) (sel : Selection) : List StateClaim :=
  let passport := coreDigest X s.credential.cwt.coreBytes
  [⟨"root_delegation", "root_delegation", rawOf c.delegation.doc "delegation_id",
      coreDigest X c.delegation.cwt.coreBytes, "ACTIVE", none⟩,
    ⟨"registration_template", "registration_template", rawOf c.template.doc "template_id",
      coreDigest X c.template.cwt.coreBytes, "ACTIVE", none⟩,
    ⟨"mandate", "mandate", rawOf c.template.doc "mandate_digest", rawOf c.template.doc "mandate_digest", "ACTIVE", none⟩,
    ⟨"agent_config", "agent_config", rawOf c.template.doc "config_digest", rawOf c.template.doc "config_digest", "ACTIVE",
      none⟩,
    ⟨"admin_binding", "admin_binding", rawOf c.binding.doc "binding_id", coreDigest X c.binding.cwt.coreBytes, "ACTIVE",
      none⟩,
    ⟨"admin_selection", "admin_selection", rawOf sel.doc "challenge_id", coreDigest X sel.raw, "ACTIVE", none⟩,
    ⟨"admin_challenge", "admin_challenge", rawOf c.adminChallenge.doc "challenge_id",
      coreDigest X c.adminChallenge.cwt.coreBytes, "SUPERSEDED", none⟩,
    ⟨"admin_consumption", "admin_consumption", rawOf c.consumption.doc "challenge_id",
      coreDigest X c.consumption.cwt.coreBytes, "ACTIVE", none⟩,
    ⟨"agent_pop", "agent_pop", versionedId s.credential.doc "birthtag" "revision", coreDigest X s.pop.cwt.coreBytes,
      "ACTIVE", none⟩,
    ⟨"passport", "agent_credential", versionedId s.credential.doc "birthtag" "revision", passport, "ACTIVE", none⟩,
    ⟨"agent_head", "agent_head", rawOf s.credential.doc "birthtag", passport, "ACTIVE",
      uint (get s.credential.doc "revision")⟩,
    ⟨"limit_grant", "limit_grant", versionedId c.grant.doc "grant_id" "grant_version",
      coreDigest X c.grant.cwt.coreBytes, "ACTIVE", none⟩,
    ⟨"grant_head", "grant_head", rawOf c.grant.doc "grant_id", coreDigest X c.grant.cwt.coreBytes, "ACTIVE", none⟩]

/-- A state that is proved under a root. -/
def Proved (X : Crates) (root : Bytes) (proofs : Doc) (o : StateClaim) : Prop :=
  verifyState X (get proofs o.name) root (stateKey X o.kind o.id) o.digest o.state o.version = .ok true

/-- The states of a successor and its predecessor. -/
def successorClaims (X : Crates) (credential : Doc) (q : Paper) : List StateClaim :=
  [⟨"agent_successor", "agent_successor", rawOf credential "birthtag", coreDigest X q.cwt.coreBytes, "ACTIVE", some 1⟩,
    ⟨"predecessor_head", "agent_head", rawOf q.doc "predecessor_birthtag", rawOf q.doc "predecessor_credential_digest",
      "SUPERSEDED", (uint (get q.doc "predecessor_revision")).bind nextVersion⟩]

/-- What the seventh phase establishes. -/
structure ProofsOk (X : Crates) (o : Opening) (c : Chain) (s : Signers) (sel : Selection) (root : Bytes) : Prop where
  proofs : ∃ proofs, plain (get o.presentation.doc "state_proofs") = some proofs ∧
    (∀ claim ∈ claimsFor X c s sel, Proved X root proofs claim) ∧
    (∀ q, c.successor = some q → ∀ claim ∈ successorClaims X s.credential.doc q, Proved X root proofs claim) ∧
    verifyCounterHead X (get proofs "admin_counter") root (rawOf c.consumption.doc "binding_id")
      (numberOf c.consumption.doc "counter_version") = .ok true

section Proofs

variable {H : Host} {input : InputContext} {o : Opening} {c : Chain} {s : Signers} {sel : Selection} {head : Head}

theorem ne_of_head {s t : String} (h : s.toList.head? ≠ t.toList.head?) : s ≠ t := fun he => h (he ▸ rfl)

/-- No reason that names an object or a list of dimensions is given elsewhere. -/
theorem reason_outside {pre rest : String} {x : Char} (hpre : pre.toList.head? = some x) (hd : x ≠ 'D') (hm : x ≠ 'M') :
    pre ++ rest ∉ outsideReasons := by
  have hhead : (pre ++ rest).toList.head? = some x := by
    rw [String.toList_append, List.head?_append, hpre]
    rfl
  have hdurable : ("DURABLE_REPLAY_REQUIRED" : String).toList.head? = some 'D' := by decide
  have hmixed : ("MIXED_PROFILE_GENERATION" : String).toList.head? = some 'M' := by decide
  simp only [outsideReasons, List.mem_cons, List.not_mem_nil, or_false, not_or]
  refine ⟨ne_of_head ?_, ne_of_head ?_⟩
  · rw [hhead, hdurable]
    exact fun he => hd (Option.some.inj he)
  · rw [hhead, hmixed]
    exact fun he => hm (Option.some.inj he)

theorem digestIn_eq {d : Doc} {k : String} (h : raw d k = .ok (rawOf d k)) (hlen : (rawOf d k).length = 32) :
    digestIn d k = .ok (rawOf d k) := by
  rw [digestIn, h, ok_bind, toDigest, dif_pos hlen]
  rfl

/-- The list of the claims is read without a panic, and is this list. -/
theorem stateClaims_eq (hc : c.Ok H input o) (hs : s.Ok H input o c) (hsel : selectionShape.Holds sel.doc) :
    stateClaims H.toCrates (headEvaluation o c s sel head) s.credential.doc c.delegation.doc c.template.doc c.binding.doc
      c.grant.doc sel.doc c.adminChallenge.doc c.consumption.doc = .ok (claimsFor H.toCrates c s sel) := by
  obtain ⟨htid, hmandate, hconfig, hmlen, hclen⟩ := template_reads hc.read.template.is.shape
  have hcredential := hs.credential.is.index
  simp only [Schema.shape, credentialShape, List.forall_mem_cons] at hcredential
  have hpop : digestOf H.toCrates s.table "agent_pop" = .ok (coreDigest H.toCrates s.pop.cwt.coreBytes) := rfl
  unfold stateClaims
  simp only [versioned, credential_reads hs.credential.is.shape, selection_reads hsel, grant_reads hc.read.grant.is.shape,
    headEvaluation, Selection.evaluation, Signers.evaluation, Chain.evaluation, Opening.evaluation, passportCwt, unwrap_some,
    delegation_reads hc.read.delegation.is.shape, digests, htid, hmandate, hconfig, digestIn_eq hmandate hmlen,
    digestIn_eq hconfig hclen, adminBinding_reads hc.read.binding.is.shape,
    adminChallenge_reads hc.read.adminChallenge.is.shape, consumption_reads hc.read.consumption.is.shape, hpop, value,
    hcredential, ok_bind, run_pure]
  rfl

/-- States are proved one after the other against the root of the checkpoint;
the reason of a refusal names the object whose state was not shown. -/
theorem proveStates_ends {ev : Evaluation} {proofs : Doc} {n : Nat} (hn : n ≤ stages.length) (hv : ev.vector = vectorAt n)
    (claims : List StateClaim) (hindex : ∀ o ∈ claims, index proofs o.name = .ok (get proofs o.name)) :
    Ends (proveStates H.toCrates ev proofs claims) Refused fun _ => ∀ o ∈ claims, Proved H.toCrates ev.headRoot proofs o := by
  induction claims with
  | nil => exact Ends.pure nofun
  | cons o claims ih =>
    rw [List.forall_mem_cons] at hindex
    have hvalue : value proofs o.name = .ok (get proofs o.name) := hindex.1
    simp only [proveStates, hvalue, phase_ok_bind]
    refine Ends.lift verifyState_safe.returns fun b hb => ?_
    refine Ends.require ?_ fun ht => ?_
    · rw [reject, hv]
      exact refused_fail hn (reason_outside (x := 'A') (by decide) (by decide) (by decide))
    · subst ht
      exact (ih hindex.2).mono (fun _ h => h) fun _ hrest => List.forall_mem_cons.mpr ⟨hb, hrest⟩

/-- The proofs of the successor end in a refusal or go on, and never panic. -/
theorem proveSuccessor_ends (hc : c.Ok H input o) (hs : s.Ok H input o c) {proofs : Doc}
    (hproofs : ∀ k ∈ stateProofNames, index proofs k = .ok (get proofs k)) :
    Ends (proveSuccessor H.toCrates (headEvaluation o c s sel head) proofs s.credential.doc) Refused fun _ =>
      ∀ q, c.successor = some q → ∀ claim ∈ successorClaims H.toCrates s.credential.doc q,
        Proved H.toCrates head.authorityRoot proofs claim := by
  have hsuccessor : index proofs "agent_successor" = .ok (get proofs "agent_successor") := hproofs _ (by decide)
  have hpredecessor : index proofs "predecessor_head" = .ok (get proofs "predecessor_head") := hproofs _ (by decide)
  have hlookup : (headEvaluation o c s sel head).rooted.lookup "agent_successor" = c.successor.map Paper.cwt :=
    lookup_successor c
  unfold proveSuccessor
  rw [hlookup]
  cases hq : c.successor with
  | none =>
    simp only [Option.map_none, value, hsuccessor, hpredecessor, ok_bind, run_pure]
    refine Ends.lift (allOf_returns (by simp)) fun absent _ => ?_
    cases absent with
    | true => exact Ends.pure nofun
    | false => exact Ends.throw (refused_fail (n := 5) (by decide) (by decide))
  | some q =>
    have hread := hc.read.successor
    rw [hq] at hread
    have hlink := hread.is.index
    simp only [Schema.shape, successorShape, List.forall_mem_cons] at hlink
    simp only [Option.map_some, hread.is.docIn, value, hsuccessor, hpredecessor, hlink, successor_reads hread.is.shape,
      credential_reads hs.credential.is.shape, phase_ok_bind]
    refine Ends.lift verifyState_safe.returns fun a ha => ?_
    refine Ends.lift verifyState_safe.returns fun b hb => ?_
    cases a with
    | false => exact Ends.throw (refused_fail (n := 5) (by decide) (by decide))
    | true =>
      cases b with
      | false => exact Ends.throw (refused_fail (n := 5) (by decide) (by decide))
      | true =>
        refine Ends.pure fun q' hq' claim hclaim => ?_
        cases hq'
        simp only [successorClaims, List.mem_cons, List.not_mem_nil, or_false] at hclaim
        rcases hclaim with rfl | rfl
        · exact ha
        · exact hb

/-- The seventh phase: every object of the exchange has been shown in the state,
with the version and the digest that the exchange relies on. -/
theorem authorityProofs_ends (ho : o.Ok H input) (hc : c.Ok H input o) (hs : s.Ok H input o c)
    (hr : RegistrationOk H input o c s sel) :
    Ends (authorityProofs H (headEvaluation o c s sel head)) Refused fun ev =>
      ProofsOk H.toCrates o c s sel head.authorityRoot ∧
        ev = { headEvaluation o c s sel head with vector := vectorAt 6 } := by
  have hcred : (headEvaluation o c s sel head).credentialDoc = .ok s.credential.doc := credentialDoc_eq hs
  have hselection : authorityProofs.selectionValue (headEvaluation o c s sel head) = .ok sel.value := rfl
  have hdocIn : docIn sel.value = .ok sel.doc := by
    rw [docIn, hr.plain]
    rfl
  obtain ⟨-, -, -, proofs, hproofs, hindex⟩ := presentation_reads ho.presentation.shape
  have hinner : inner o.presentation.doc "state_proofs" = .ok proofs :=
    inner_eq (ho.presentation.index _ (by simp [Schema.shape, presentationShape])) hproofs
  have hdocs : (headEvaluation o c s sel head).rooted = c.table := rfl
  have hpres : (headEvaluation o c s sel head).pres = o.presentation.doc := rfl
  unfold authorityProofs
  simp only [hcred, hselection, hdocIn, hdocs, hpres, hc.read.docs, hinner, stateClaims_eq hc hs hr.holds, phase_ok_bind]
  refine Ends.bind (proveStates_ends (n := 5) (by decide) rfl _ ?_) fun _ hclaims => ?_
  · intro claim hclaim
    refine hindex _ ?_
    have hnames : ∀ claim ∈ claimsFor H.toCrates c s sel, claim.name ∈ stateProofNames := by
      simp [claimsFor, stateProofNames]
    exact hnames claim hclaim
  refine Ends.bind (proveSuccessor_ends hc hs hindex) fun _ hsuccessor => ?_
  have hcounter : value proofs "admin_counter" = .ok (get proofs "admin_counter") := hindex _ (by decide)
  simp only [hcounter, consumption_reads hc.read.consumption.is.shape, phase_ok_bind]
  refine Ends.lift verifyCounterHead_safe.returns fun b hb => ?_
  refine Ends.require (refused_fail (n := 5) (by decide) (by decide)) fun ht => ?_
  subst ht
  exact Ends.pure ⟨⟨proofs, hproofs, hclaims, hsuccessor, hb⟩, rfl⟩

end Proofs

/-! ## The exact action -/

/-- What the eighth phase establishes. -/
structure ActionOk (X : Crates) (o : Opening) (c : Chain) (s : Signers) (now : Nat) : Prop where
  grant : ∃ scope, actionScopeDigest X o.action = .ok (some scope) ∧
    ∀ m ∈ grantChecks c.grant.doc c.delegation.doc o.actor o.recipient o.action scope now, m = .ok true
  asa : ∀ m ∈ asaChecks s.asa.doc c.delegation.doc o.action (coreDigest X o.actionBytes)
    (coreDigest X o.challenge.cwt.coreBytes) now, m = .ok true

/-- What the last phase establishes. -/
structure FinishOk (H : Host) (input : InputContext) (o : Opening) (c : Chain) (s : Signers) : Prop where
  transcript : ∃ asa b, bytes (get o.presentation.doc "asa") = some asa ∧
    canonical (transcript H.toCrates input.challenge o.challenge.cwt.coreBytes o.actionBytes asa s.asa.cwt.coreBytes) =
      some b ∧
    bytes (get o.presentation.doc "transcript_digest") =
      some (H.sha256 (utf8 "swarrm-b28/transcript/v1" ++ 0 :: b)).val
  created : ordered (get o.challenge.doc "issued_at") (get o.presentation.doc "created_at") (get o.action "expires_at") = true
  asaIssued : ∃ t, uint (get s.asa.doc "issued_at") = some t ∧ t ≤ numberOf o.presentation.doc "created_at"
  checkpointIssued : ∃ t, uint (get c.checkpoint.doc "issued_at") = some t ∧ t ≤ numberOf o.presentation.doc "created_at"
  statusAsOf : ∃ t, uint (get s.snapshot.doc "status_as_of") = some t ∧ t ≤ numberOf o.presentation.doc "created_at"
  clock : numberOf o.presentation.doc "created_at" ≤ input.now
  required : ∃ items, get o.challenge.doc "required_dimensions" = .array items ∧ unavailable items = []

/-- What is handed to the durable store. -/
def contextFor (H : Host) (input : InputContext) (o : Opening) (c : Chain) : ConsumeContext :=
  ⟨(nameOf c.delegation.doc "tenant", rawOf c.delegation.doc "organisation_root", rawOf c.delegation.doc "delegation_id",
      rawOf o.action "asa_id"),
    (nameOf c.delegation.doc "tenant", rawOf o.actor "organisation_root", rawOf o.action "action_id"),
    coreDigest H.toCrates o.actionBytes, (H.sha256 input.presentation).val, vectorAt 9⟩

section Action

variable {H : Host} {input : InputContext} {o : Opening} {c : Chain} {s : Signers} {sel : Selection} {head : Head}

/-- The eighth phase: grant and assurance are for this action, in amount, unit,
parties and time. -/
theorem exactAction_ends (ho : o.Ok H input) (hc : c.Ok H input o) (hs : s.Ok H input o c) :
    Ends (exactAction H input { headEvaluation o c s sel head with vector := vectorAt 6 }) Refused fun ev =>
      ActionOk H.toCrates o c s input.now ∧ ev = { headEvaluation o c s sel head with vector := vectorAt 8 } := by
  have hdelegation := hc.read.delegation.is.index
  simp only [Schema.shape, delegationShape, List.forall_mem_cons] at hdelegation
  have hgrant := hc.read.grant.is.index
  simp only [Schema.shape, grantShape, List.forall_mem_cons] at hgrant
  have hasa := hs.asa.is.index
  simp only [Schema.shape, asaShape, List.forall_mem_cons] at hasa
  have haction := ho.actionHolds.index
  simp only [actionShape, List.forall_mem_cons] at haction
  have hactor := ho.actorHolds.index
  simp only [agentShape, List.forall_mem_cons] at hactor
  have hrecipient := ho.recipientHolds.index
  simp only [agentShape, List.forall_mem_cons] at hrecipient
  have hinner := inner_eq (ho.actionHolds.index "actor" (by decide)) ho.actor
  have hinner' := inner_eq (ho.actionHolds.index "recipient" (by decide)) ho.recipient
  obtain ⟨scope, hscope⟩ := @actionScopeDigest_safe H.toCrates _ _ _ ho.actionBytes ho.action ho.actionHolds
  have hscope' : scopeBytes H.toCrates o.action = .ok scope := by
    rw [scopeBytes, hscope]
    rfl
  unfold exactAction
  simp only [headEvaluation, Selection.evaluation, Signers.evaluation, Chain.evaluation, Opening.evaluation, hc.read.docs,
    hinner, hinner', hscope', phase_ok_bind]
  refine Ends.requireEager ?_ (refused_fail (n := 6) (by decide) (by decide)) fun hlimits => ?_
  · simp only [grantChecks, isBytes, same, live, hdelegation, hgrant, haction, hactor, hrecipient, ok_bind, run_pure,
      List.forall_mem_cons]
    simp [decimalAtMost_safe]
  simp only [hs.docs, phase_ok_bind]
  refine Ends.requireEager ?_ (refused_fail (n := 7) (by decide) (by decide)) fun hbound => ?_
  · simp only [asaChecks, isBytes, same, live, hdelegation, hasa, haction, ok_bind, run_pure, List.forall_mem_cons]
    simp
  exact Ends.pure ⟨⟨⟨scope, hscope, hlimits⟩, hbound⟩, rfl⟩

/-- The last phase: the presentation commits to the transcript of the exchange,
it was created after what it presents and not in the future, and no dimension is
required that is not evaluated. -/
theorem finish_ends (ho : o.Ok H input) (hc : c.Ok H input o) (hs : s.Ok H input o c) :
    Ends (finish H input { headEvaluation o c s sel head with vector := vectorAt 8 }) Refused fun ctx =>
      FinishOk H input o c s ∧ ctx = contextFor H input o c := by
  have hpres := ho.presentation.index
  simp only [Schema.shape, presentationShape, List.forall_mem_cons] at hpres
  have hchallenge := ho.challenge.index
  simp only [Schema.shape, challengeShape, List.forall_mem_cons] at hchallenge
  have haction := ho.actionHolds.index
  simp only [actionShape, List.forall_mem_cons] at haction
  have hasa := hs.asa.is.index
  simp only [Schema.shape, asaShape, List.forall_mem_cons] at hasa
  have hcheckpoint := hc.read.checkpoint.is.index
  simp only [Schema.shape, checkpointShape, List.forall_mem_cons] at hcheckpoint
  have hsnapshot := hs.snapshot.is.index
  simp only [Schema.shape, snapshotShape, List.forall_mem_cons] at hsnapshot
  have hinner := inner_eq (ho.actionHolds.index "actor" (by decide)) ho.actor
  have hasaCwt : envelope s.table "asa" = .ok s.asa.cwt := rfl
  obtain ⟨-, hasaRaw, hcreated, -⟩ := presentation_reads ho.presentation.shape
  obtain ⟨b, hb⟩ := transcript_canonical H.toCrates input.challenge o.challenge.cwt.coreBytes o.actionBytes
    (rawOf o.presentation.doc "asa") s.asa.cwt.coreBytes
  obtain ⟨-, -, -, -, items, hitems⟩ := challenge_reads ho.challenge.shape
  have hrequired : requiredItems (get o.challenge.doc "required_dimensions") = .ok items := by
    rw [hitems]
    rfl
  unfold finish
  simp only [headEvaluation, Selection.evaluation, Signers.evaluation, Chain.evaluation, Opening.evaluation, hc.read.docs,
    hasaRaw, hasaCwt, bytesIn, hb, unwrap_some, isBytes, hpres, ok_bind, run_pure, phase_ok_bind]
  refine Ends.require (refused_fail (n := 8) (by decide) (by decide)) fun htranscript => ?_
  simp only [value, hchallenge, hpres, haction, phase_ok_bind]
  refine Ends.require (refused_fail (n := 8) (by decide) (by decide)) fun hordered => ?_
  simp only [hs.docs, hcreated, hasa, hcheckpoint, hsnapshot, ok_bind, phase_ok_bind]
  refine Ends.requireEager (by simp) (refused_fail (n := 8) (by decide) (by decide)) fun htimes => ?_
  refine Ends.require (refused_fail (n := 8) (by decide) (by decide)) fun hclock => ?_
  simp only [hrequired, phase_ok_bind]
  refine Ends.require ?_ fun hmissing => ?_
  · exact refused_indeterminate (n := 9) (by decide) (reason_outside (x := 'R') (by decide) (by decide) (by decide))
  simp only [hinner, delegation_reads hc.read.delegation.is.shape, action_reads ho.actionHolds, agent_reads ho.actorHolds,
    phase_ok_bind]
  simp only [List.forall_mem_cons, Except.ok.injEq, Option.any_eq_true, decide_eq_true_eq] at htimes
  refine Ends.pure ⟨⟨⟨rawOf o.presentation.doc "asa", b, ?_, hb, by simpa using htranscript⟩, hordered, htimes.1, htimes.2.1,
    htimes.2.2.1, by simpa using hclock, ⟨items, hitems, by simpa using hmissing⟩⟩, rfl⟩
  obtain ⟨v, hv, hraw⟩ := bind_eq_ok.mp hasaRaw
  rw [get_of_lookup (index_eq_ok.mp hv)]
  exact unwrap_eq_ok.mp hraw

end Action

/-! ## All phases -/

/-- Everything that an exchange has passed when it reaches the durable store,
phase by phase. What a candidate is worth is read off this structure and never
off the code. -/
structure Established (H : Host) (input : InputContext) (o : Opening) (c : Chain) (s : Signers) (sel : Selection)
    (head : Head) : Prop where
  opening : o.Ok H input
  chain : c.Ok H input o
  signers : s.Ok H input o c
  passport : PassportOk H.toCrates o c s input.now
  registration : RegistrationOk H input o c s sel
  checkpoint : CheckpointOk H input o c s head
  proofs : ProofsOk H.toCrates o c s sel head.authorityRoot
  action : ActionOk H.toCrates o c s input.now
  finish : FinishOk H input o c s

/-- All phases in a row. The rule for `bind` hands on what each establishes, so
that the proof is their list. -/
theorem phases_ends (H : Host) (input : InputContext) :
    Ends (phases H input) Refused fun ctx => ∃ o c s sel head,
      Established H input o c s sel head ∧ ctx = contextFor H input o c := by
  refine Ends.bind start_ends fun ev hev => ?_
  obtain ⟨o, ho, rfl⟩ := hev
  refine Ends.bind (roots_ends ho) fun ev hev => ?_
  obtain ⟨c, hc, rfl⟩ := hev
  refine Ends.bind (signatures_ends ho hc) fun ev hev => ?_
  obtain ⟨s, hs, rfl⟩ := hev
  refine Ends.bind (passport_ends ho hc hs) fun ev hev => ?_
  obtain ⟨hpassport, rfl⟩ := hev
  refine Ends.bind (registration_ends ho hc hs) fun ev hev => ?_
  obtain ⟨sel, hsel, rfl⟩ := hev
  refine Ends.bind (checkpoint_ends ho hc hs) fun ev hev => ?_
  obtain ⟨head, hhead, rfl⟩ := hev
  refine Ends.bind (authorityProofs_ends ho hc hs hsel) fun ev hev => ?_
  obtain ⟨hproofs, rfl⟩ := hev
  refine Ends.bind (exactAction_ends ho hc hs) fun ev hev => ?_
  obtain ⟨haction, rfl⟩ := hev
  refine (finish_ends ho hc hs).mono (fun _ h => h) fun ctx hctx => ?_
  exact ⟨o, c, s, sel, head, ⟨ho, hc, hs, hpassport, hsel, hhead, hproofs, haction, hctx.1⟩, hctx.2⟩

/-- An evaluation refuses, or hands over an exchange that passed every phase. It
never accepts by itself: the best result names the store as what is missing. -/
theorem evaluate_returns (H : Host) (input : InputContext) :
    Returns (evaluate H input) fun res =>
      (Refused res.1 ∧ res.2 = none) ∨ ∃ o c s sel head, Established H input o c s sel head ∧
        res = (⟨"INDETERMINATE", "DURABLE_REPLAY_REQUIRED", vectorAt 9⟩, some (contextFor H input o c)) := by
  refine Returns.bind (phases_ends H input) fun e he => ?_
  cases e with
  | error r => exact returns_pure.mpr (.inl ⟨he, rfl⟩)
  | ok ctx =>
    obtain ⟨o, c, s, sel, head, hall, rfl⟩ := he
    exact returns_pure.mpr (.inr ⟨o, c, s, sel, head, hall, rfl⟩)

/-! ## Refusals -/

/-- A refusal that is not accepted. -/
structure Unproved (r : ResultValue) : Prop where
  verdict : r.verdict = "FAIL" ∨ r.verdict = "INDETERMINATE"
  reason : r.reason ∉ outsideReasons ∧ r.reason ≠ "SIGNED_REFUSAL"
  vector : r.vector = initialVector

theorem refusalTimeReason_returns {challenge refusal action : Doc} {now : Nat}
    (hc : index challenge "issued_at" = .ok (get challenge "issued_at"))
    (hr : index refusal "created_at" = .ok (get refusal "created_at"))
    (ha : index action "expires_at" = .ok (get action "expires_at")) :
    Returns (refusalTimeReason challenge refusal action now) fun r => ∀ reason, r = some reason →
      reason ∉ outsideReasons ∧ reason ≠ "SIGNED_REFUSAL" := by
  unfold refusalTimeReason
  simp only [hc, hr, ha, ok_bind]
  split
  · rw [returns_pure]
    intro reason he
    cases he
    decide
  · split
    · rw [returns_pure]
      intro reason he
      cases he
      decide
    · rw [returns_pure]
      intro reason he
      split at he
      · cases he
      · cases he
        decide

/-- The checks of a refusal end with a result that proves nothing, or go on. -/
theorem refusalPhase_ends (H : Host) (input : RefusalContext) : Ends (refusalPhase H input) Unproved fun _ => True := by
  have hindeterminate : ∀ reason, reason ∉ outsideReasons ∧ reason ≠ "SIGNED_REFUSAL" →
      Unproved ⟨"INDETERMINATE", reason, initialVector⟩ := fun reason h => ⟨.inr rfl, h, rfl⟩
  have hfail : ∀ reason, reason ∉ outsideReasons ∧ reason ≠ "SIGNED_REFUSAL" →
      Unproved ⟨"FAIL", reason, initialVector⟩ := fun reason h => ⟨.inl rfl, h, rfl⟩
  unfold refusalPhase
  refine Ends.require (hindeterminate _ (by decide)) fun _ => ?_
  refine Ends.require (hindeterminate _ (by decide)) fun _ => ?_
  refine Ends.lift signedCwt_safe.returns fun r hsigned => ?_
  refine Ends.orElse (hfail _ (by decide)) fun challenge hcwt => ?_
  subst hcwt
  obtain ⟨doc, hchallenge⟩ := inspectCwt_spec (signedCwt_spec hsigned).1
  have his : (Paper.mk challenge doc).Is H.toCrates .challenge := hchallenge
  have hindex := his.index
  simp only [Schema.shape, challengeShape, List.forall_mem_cons] at hindex
  obtain ⟨⟨challenger, hcp, hch⟩, ⟨action, hap, hah⟩, -⟩ := challenge_reads hchallenge.shape
  obtain ⟨⟨actor, hactor, hactorH⟩, -⟩ := action_reads hah
  have hkid := hch.index "agent_kid" (by decide)
  have hactorKid := hactorH.index "agent_kid" (by decide)
  have haction := hah.index
  simp only [actionShape, List.forall_mem_cons] at haction
  simp only [his.docIn, inner_eq hindex.2.1 hcp, inner_eq hindex.2.2.1 hap, value, hkid, phase_ok_bind]
  refine Ends.require (hfail _ (by decide)) fun _ => ?_
  simp only [hindex, haction, phase_ok_bind]
  refine Ends.require (hfail _ (by decide)) fun _ => ?_
  refine Ends.lift signedCwt_safe.returns fun r hrefusal => ?_
  refine Ends.orElse (hfail _ (by decide)) fun refusal hcwt => ?_
  subst hcwt
  obtain ⟨refusalDoc, hrefused⟩ := inspectCwt_spec (signedCwt_spec hrefusal).1
  have hris : (Paper.mk refusal refusalDoc).Is H.toCrates .refusal := hrefused
  have hrindex := hris.index
  simp only [Schema.shape, refusalShape, List.forall_mem_cons] at hrindex
  simp only [hris.docIn, inner_eq haction.2.2.1 hactor, hactorKid, phase_ok_bind]
  refine Ends.require (hfail _ (by decide)) fun _ => ?_
  simp only [isBytes, hrindex, eager, ok_bind, run_pure, phase_ok_bind]
  refine Ends.require (hfail _ (by decide)) fun _ => ?_
  refine Ends.lift (refusalTimeReason_returns hindex.2.2.2.2.2.2.1 hrindex.2.2.2.2.1
    haction.2.2.2.2.2.2.2.2.2.2.2.2.2.2.2.2.2.1) fun r hr => ?_
  cases r with
  | none => exact Ends.pure trivial
  | some reason => exact Ends.throw (hfail _ (hr reason rfl))

/-- A signed refusal is accepted in one way only, with two dimensions marked,
and is reported as a failure of the exchange. -/
theorem evaluateRefusal_returns (H : Host) (input : RefusalContext) :
    Returns (evaluateRefusal H input) fun r => Unproved r ∨
      r = ⟨"FAIL", "SIGNED_REFUSAL", mark initialVector [.challenge, .binding] "VERIFIED"⟩ := by
  refine Returns.bind (refusalPhase_ends H input) fun e he => ?_
  cases e with
  | error r => exact returns_pure.mpr (.inl he)
  | ok u => exact returns_pure.mpr (.inr rfl)

end SwarrmVerify.L4.Handshake

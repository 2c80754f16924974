import SwarrmVerify.L4Handshake.Phases
import SwarrmVerify.L5Guarantees.Amounts

/-!
# Limits of a Counterparty Assurance candidate

An evaluation that hands a candidate to the durable store has compared some
eighty members of a dozen documents (`L4Handshake.Phases`). What the
comparisons amount to is said here once for the whole exchange, in numbers,
windows and keys, without a reference to the code that compares.

* `Limits`: the amount is a decimal number no larger than the ceiling of the
  grant, and the clock is in the window of every paper, in the lifetime of the
  action and within the age that the challenge allows a checkpoint.
* `OneAuthority`: one anchor of the pinned roots verifies every root-signed
  paper, every document names it as its organisation, and all are of one
  tenant.
* `Current`: the checkpoint is registered, it is the head of its authority, and
  the log of the checkpoint that a credential was issued under is proved to be
  its beginning.
* `ForAction`: the reservation and the grant are for this action.

The roots are those of a trust pack that was parsed against a pin
(`PinnedRoots`); anything else of the local context, and the whole of what is
presented, is arbitrary. The hash enters only through the pack, whose anchors
have one kid for one fingerprint.

**Results.**
* `limits_of_established`, `oneAuthority_of_established`,
  `current_of_established`, `forAction_of_established`: one for each.
* `candidate_assured`: the evaluation returns, and a candidate has all four.
-/
namespace SwarrmVerify.L5.Counterparty
open Panics SwarrmVerify.L1.CborWire SwarrmVerify.L2.Merkle SwarrmVerify.L4.Handshake Evaluation

/-! ## Comparisons -/

/-- The clock is in a half-open window of two members, both of which are
numbers. -/
def InWindow (d : Doc) (start stop : String) (now : Nat) : Prop :=
  ∃ a b, uint (get d start) = some a ∧ uint (get d stop) = some b ∧ a ≤ now ∧ now < b

/-- A value is a decimal text of a number. -/
def Amount (v : C) (n : Nat) : Prop :=
  ∃ s, v = .text s ∧ canonicalDecimal s = .ok true ∧ Decimal.value (byteOrder (utf8 s)) = n

section Comparisons

variable {d e : Doc} {j k : String} {now : Nat}

theorem get_of_index {v : C} (h : index d k = .ok v) : get d k = v := get_of_lookup (index_eq_ok.mp h)

/-- Members that were compared are equal, since the documents are clean. -/
theorem same_holds (hd : Clean d) (h : same d j e k = .ok true) : get d j = get e k := by
  obtain ⟨v, hv, h⟩ := bind_eq_ok.mp h
  obtain ⟨w, hw, h⟩ := bind_eq_ok.mp h
  rw [← get_of_index hv, ← get_of_index hw] at h
  exact hd.eq (Except.ok.inj h)

theorem isBytes_holds {b : Bytes} (h : isBytes d k b = .ok true) : bytes (get d k) = some b := by
  obtain ⟨v, hv, h⟩ := bind_eq_ok.mp h
  rw [← get_of_index hv] at h
  simpa using Except.ok.inj h

theorem inWindow_of_within (h : within (get d j) (get d k) now = true) : InWindow d j k now := by
  unfold within at h
  split at h
  · rename_i a b ha hb
    rw [Bool.and_eq_true, decide_eq_true_eq, decide_eq_true_eq] at h
    exact ⟨a, b, ha, hb, h.1, h.2⟩
  · cases h

/-- A window that was checked has the clock in it. -/
theorem live_holds (h : live d j k now = .ok true) : InWindow d j k now := by
  obtain ⟨v, hv, h⟩ := bind_eq_ok.mp h
  obtain ⟨w, hw, h⟩ := bind_eq_ok.mp h
  rw [← get_of_index hv, ← get_of_index hw] at h
  exact inWindow_of_within (Except.ok.inj h)

theorem uint_of_number {n : Nat} (h : number d k = .ok n) : uint (get d k) = some n := by
  obtain ⟨v, hv, h⟩ := bind_eq_ok.mp h
  rw [get_of_index hv]
  exact unwrap_eq_ok.mp h

theorem bytes_of_raw {b : Bytes} (h : raw d k = .ok b) : bytes (get d k) = some b := by
  obtain ⟨v, hv, h⟩ := bind_eq_ok.mp h
  rw [get_of_index hv]
  exact unwrap_eq_ok.mp h

theorem text_of_name {s : String} (h : name d k = .ok s) : text (get d k) = some s := by
  obtain ⟨v, hv, h⟩ := bind_eq_ok.mp h
  rw [get_of_index hv]
  exact unwrap_eq_ok.mp h

end Comparisons

/-! ## Amounts -/

/-- The texts compare as the numbers do, so an amount that passed is no larger
than its ceiling. -/
theorem decimalAtMost_holds {v w : C} (h : decimalAtMost v w = .ok true) :
    ∃ m n, Amount v m ∧ Amount w n ∧ m ≤ n := by
  obtain ⟨s, t, hv, hw, hs, ht, hle⟩ := (Amounts.decimalAtMost_iff v w).mp h
  exact ⟨_, _, ⟨s, hv, (Amounts.canonicalDecimal_iff s).mpr hs, rfl⟩,
    ⟨t, hw, (Amounts.canonicalDecimal_iff t).mpr ht, rfl⟩, hle⟩

/-! ## The assurance -/

/-- Roots that a pinned trust pack was read to. -/
def PinnedRoots (H : Host) : Type :=
  { roots : Roots // ∃ pack pin, (parsePinnedTrustPack H pack pin).run = .ok (some roots) }

theorem PinnedRoots.anchorOk {H : Host} (roots : PinnedRoots H) : ∀ r ∈ roots.val, AnchorOk H.toCrates r := by
  obtain ⟨pack, pin, hread⟩ := roots.property
  obtain ⟨out, hout, hall⟩ := parsePinnedTrustPack_spec H pack pin
  rw [hread] at hout
  exact hall roots.val (Except.ok.inj hout).symm

/-- A log is proved to be the beginning of another. -/
def Ancestor (X : Crates) (proof : C) (first : Nat) (firstRoot : Bytes) (second : Nat) (secondRoot : Bytes) : Prop :=
  ∃ path, (array proof 64).bind siblings = some path ∧
    verifyConsistency X (UInt64.ofNat first) (UInt64.ofNat second) firstRoot secondRoot path = true ∧
    ∀ D : List Digest, D.length = second → (treeHash X D).val = secondRoot →
      CollisionFree X (consistencyInputs X (UInt64.ofNat first) (UInt64.ofNat second) firstRoot path ++ treeInputs X D) →
      firstRoot = (treeHash X (D.take (UInt64.ofNat first).toNat)).val

/-- The amount and the times of an exchange: no more than the grant allows, and
the clock in the window of every paper. -/
structure Limits (input : InputContext) (o : Opening) (c : Chain) (s : Signers) : Prop where
  amount : ∃ value ceiling, Amount (get o.action "value") value ∧ Amount (get c.grant.doc "ceiling") ceiling ∧
    value ≤ ceiling
  delegation : InWindow c.delegation.doc "valid_from" "valid_to" input.now
  credential : InWindow s.credential.doc "valid_from" "valid_to" input.now
  template : InWindow c.template.doc "valid_from" "valid_to" input.now
  adminBinding : InWindow c.binding.doc "valid_from" "valid_to" input.now
  grantValid : InWindow c.grant.doc "valid_from" "valid_to" input.now
  grantWindow : InWindow c.grant.doc "window_start" "window_end" input.now
  asa : InWindow s.asa.doc "issued_at" "expires_at" input.now
  action : ∃ issued expires, uint (get o.challenge.doc "issued_at") = some issued ∧
    uint (get o.action "expires_at") = some expires ∧ issued ≤ input.now ∧ input.now < expires ∧
    expires - issued ≤ input.maxActionLifetime
  snapshot : ∃ expires, uint (get s.snapshot.doc "expires_at") = some expires ∧ input.now < expires
  checkpoint : ∃ issued age, uint (get c.checkpoint.doc "issued_at") = some issued ∧
    uint (get o.challenge.doc "max_checkpoint_age") = some age ∧ issued ≤ input.now ∧ input.now - issued ≤ age

/-- One anchor and one tenant stand behind the exchange: every root-signed paper
verifies under that anchor, and every document names its organisation. -/
structure OneAuthority (H : Host) (input : InputContext) (o : Opening) (c : Chain) (s : Signers) : Prop where
  anchor : ∃ kid anchor, input.roots.lookup kid = some anchor ∧
    (∀ p ∈ c.papers, p.cwt.kid = kid ∧ cwtSignatureValid H.toCrates p.cwt anchor.key = true) ∧
    ∀ d ∈ c.papers.map Paper.doc ++ [o.actor, s.credential.doc, s.snapshot.doc, s.asa.doc],
      get d "organisation_root" = .bytes anchor.fingerprint
  tenant : ∃ tenant, ∀ d ∈ c.papers.map Paper.doc ++ [s.credential.doc, s.snapshot.doc, s.asa.doc],
    get d "tenant" = .text tenant

/-- The checkpoint is the registered one and the head of its authority, and
comes after the one of issuance, whose log it extends. -/
structure Current (H : Host) (input : InputContext) (o : Opening) (c : Chain) (s : Signers) : Prop where
  head : ∃ pin : Pin, text (get c.checkpoint.doc "tenant") = some pin.tenant ∧
    bytes (get c.checkpoint.doc "organisation_root") = some pin.organisationRoot ∧
    uint (get c.checkpoint.doc "sequence") = some pin.sequence ∧
    bytes (get c.checkpoint.doc "authority_root") = some pin.authorityRoot ∧
    bytes (get c.checkpoint.doc "log_root") = some pin.logRoot ∧ uint (get c.checkpoint.doc "log_size") = some pin.logSize ∧
    input.checkpoints.lookup (coreDigest H.toCrates c.checkpoint.cwt.coreBytes) = some pin ∧
    input.heads.lookup (pin.tenant, pin.organisationRoot) =
      some ⟨pin.sequence, pin.authorityRoot, pin.logRoot, pin.logSize⟩ ∧
    ∃ digest issued, bytes (get s.credential.doc "issuance_checkpoint") = some digest ∧
      input.checkpoints.lookup digest = some issued ∧ issued.tenant = pin.tenant ∧
      issued.organisationRoot = pin.organisationRoot ∧ issued.sequence ≤ pin.sequence ∧
      Ancestor H.toCrates (get o.presentation.doc "issuance_consistency_proof") issued.logSize issued.logRoot pin.logSize
        pin.logRoot

/-- The reservation and the grant are for this action. -/
structure ForAction (X : Crates) (o : Opening) (c : Chain) (s : Signers) : Prop where
  grantId : get c.grant.doc "grant_id" = get o.action "grant_id" ∧ get s.asa.doc "grant_id" = get o.action "grant_id"
  grantVersion : get c.grant.doc "grant_version" = get o.action "grant_version" ∧
    get s.asa.doc "grant_version" = get o.action "grant_version"
  asaId : get s.asa.doc "asa_id" = get o.action "asa_id"
  expiry : get s.asa.doc "expires_at" = get o.action "expires_at"
  operation : get c.grant.doc "operation" = get o.action "operation" ∧ get c.grant.doc "unit" = get o.action "unit"
  parties : get c.grant.doc "actor_birthtag" = get o.actor "birthtag" ∧
    get c.grant.doc "recipient_organisation_root" = get o.recipient "organisation_root"
  delegationId : ∀ d ∈ [c.grant.doc, s.asa.doc, s.credential.doc],
    get d "authority_delegation_id" = get c.delegation.doc "delegation_id"
  digests : bytes (get s.asa.doc "action_digest") = some (coreDigest X o.actionBytes) ∧
    bytes (get s.asa.doc "challenge_digest") = some (coreDigest X o.challenge.cwt.coreBytes)

section Candidate

variable {H : Host} {input : InputContext} {o : Opening} {c : Chain} {s : Signers} {sel : Selection} {head : Head}

theorem limits_of_established (h : Established H input o c s sel head) : Limits input o c s := by
  obtain ⟨scope, -, hgrant⟩ := h.action.grant
  have hasa := h.action.asa
  simp only [grantChecks, List.forall_mem_cons] at hgrant
  simp only [asaChecks, List.forall_mem_cons] at hasa
  obtain ⟨-, -, -, -, -, -, -, -, -, -, hvalid, hwindow, hamount, -⟩ := hgrant
  obtain ⟨-, -, -, -, -, -, -, -, -, hasaLive, -⟩ := hasa
  obtain ⟨v, hv, hamount⟩ := bind_eq_ok.mp hamount
  obtain ⟨w, hw, hamount⟩ := bind_eq_ok.mp hamount
  rw [← get_of_index hv, ← get_of_index hw] at hamount
  obtain ⟨state, -, hasserted⟩ := h.registration.asserted
  obtain ⟨-, -, hissued, hage, -⟩ := challenge_reads h.opening.challenge.shape
  obtain ⟨-, -, -, -, hexpires⟩ := action_reads h.opening.actionHolds
  obtain ⟨-, -, -, -, -, -, hcheckpoint⟩ := checkpoint_reads h.chain.read.checkpoint.is.shape
  exact {
    amount := decimalAtMost_holds hamount
    delegation := inWindow_of_within h.chain.live
    credential := inWindow_of_within h.passport.live
    template := inWindow_of_within h.passport.templateLive
    adminBinding := inWindow_of_within hasserted.live
    grantValid := live_holds hvalid
    grantWindow := live_holds hwindow
    asa := live_holds hasaLive
    action := ⟨_, _, uint_of_number hissued, uint_of_number hexpires, h.opening.issued, h.opening.expires,
      h.opening.lifetime⟩
    snapshot := ⟨_, uint_of_number (snapshot_reads h.signers.snapshot.is.shape), h.checkpoint.fresh⟩
    checkpoint := ⟨_, _, uint_of_number hcheckpoint, uint_of_number hage, h.checkpoint.notBefore, h.checkpoint.age⟩ }

theorem forAction_of_established (h : Established H input o c s sel head) : ForAction H.toCrates o c s := by
  obtain ⟨scope, -, hgrant⟩ := h.action.grant
  have hasa := h.action.asa
  simp only [grantChecks, List.forall_mem_cons] at hgrant
  simp only [asaChecks, List.forall_mem_cons] at hasa
  obtain ⟨-, -, hdelegation, hactor, hrecipient, hoperation, hunit, -, hid, hversion, -⟩ := hgrant
  obtain ⟨-, -, hdelegation', hasaId, hactionDigest, hchallengeDigest, hid', hversion', hexpiry, -⟩ := hasa
  have hg := h.chain.read.grant.is.clean
  have ha := h.signers.asa.is.clean
  refine ⟨⟨same_holds hg hid, same_holds ha hid'⟩, ⟨same_holds hg hversion, same_holds ha hversion'⟩,
    same_holds ha hasaId, same_holds ha hexpiry, ⟨same_holds hg hoperation, same_holds hg hunit⟩,
    ⟨same_holds hg hactor, same_holds hg hrecipient⟩, ?_, ⟨isBytes_holds hactionDigest, isBytes_holds hchallengeDigest⟩⟩
  simp only [List.forall_mem_cons]
  exact ⟨same_holds hg hdelegation, same_holds ha hdelegation', h.passport.delegationId, List.forall_mem_nil _⟩

theorem uint_lt {v : C} {n : Nat} (h : uint v = some n) : n < 2 ^ 64 := by
  cases v with
  | integer i =>
    rw [uint] at h
    split at h
    · cases h
      omega
    · cases h
  | _ => cases h

theorem ancestor_of_proof {X : Crates} {proof : C} {first second : Nat} {firstRoot secondRoot : Bytes}
    (hsecond : second < 2 ^ 64) (h : verifyConsistencyProof X proof first second firstRoot secondRoot = true) :
    Ancestor X proof first firstRoot second secondRoot := by
  rw [verifyConsistencyProof, Option.any_eq_true] at h
  obtain ⟨path, hpath, hv⟩ := h
  refine ⟨path, hpath, hv, ?_⟩
  rintro D rfl rfl hfree
  exact (consistency_sound X D hsecond _ _ path hfree hv).2.2.1

theorem current_of_established (h : Established H input o c s sel head) : Current H input o c s := by
  obtain ⟨htenant, hroot, hauthority, hlog, hsequence, hsize, -⟩ := checkpoint_reads h.chain.read.checkpoint.is.shape
  obtain ⟨-, -, -, -, hissuance⟩ := credential_reads h.signers.credential.is.shape
  obtain ⟨issued, hissued, htenant', hroot', hsequence', hconsistent⟩ := h.checkpoint.issuance
  have hcurrent := h.checkpoint.current
  have hsame : head = ⟨numberOf c.checkpoint.doc "sequence", rawOf c.checkpoint.doc "authority_root",
      rawOf c.checkpoint.doc "log_root", numberOf c.checkpoint.doc "log_size"⟩ := by
    have ha := h.checkpoint.authorityRoot
    have hl := h.checkpoint.logRoot
    have hz := h.checkpoint.logSize
    rw [bytes_of_raw hauthority] at ha
    rw [bytes_of_raw hlog] at hl
    rw [uint_of_number hsize] at hz
    cases head
    simp only [Option.some.injEq] at ha hl hz
    simp only [Head.mk.injEq]
    exact ⟨h.checkpoint.sequence.symm, ha.symm, hl.symm, hz.symm⟩
  rw [hsame] at hcurrent
  exact ⟨pinFor c.checkpoint.doc, text_of_name htenant, bytes_of_raw hroot, uint_of_number hsequence,
    bytes_of_raw hauthority, bytes_of_raw hlog, uint_of_number hsize, h.checkpoint.registered, hcurrent, _, issued,
    bytes_of_raw hissuance, hissued, htenant', hroot', hsequence',
    ancestor_of_proof (uint_lt (uint_of_number hsize)) hconsistent⟩

/-- Every root-signed paper verifies under an anchor that is its organisation.
That it is the same anchor for all is by the organisation they name. -/
theorem paper_anchored (h : c.Read H input o.presentation.doc) : ∀ p ∈ c.papers, ∃ anchor,
    input.roots.lookup p.cwt.kid = some anchor ∧ cwtSignatureValid H.toCrates p.cwt anchor.key = true ∧
    p.doc.lookup "organisation_root" = some (.bytes anchor.fingerprint) := by
  intro p hp
  rw [Chain.papers, List.mem_append] at hp
  rcases hp with hp | hp
  · simp only [List.mem_cons, List.not_mem_nil, or_false] at hp
    rcases hp with rfl | rfl | rfl | rfl | rfl | rfl | rfl
    · exact h.delegation.anchor
    · exact h.template.anchor
    · exact h.binding.anchor
    · exact h.adminChallenge.anchor
    · exact h.consumption.anchor
    · exact h.grant.anchor
    · exact h.checkpoint.anchor
  · have hs := h.successor
    cases hsucc : c.successor with
    | none => rw [hsucc] at hp; cases hp
    | some q =>
      rw [hsucc] at hp hs
      rw [List.mem_singleton.mp hp]
      exact hs.anchor

theorem lookup_mem {roots : Roots} {kid : String} {anchor : RootAnchor} (h : roots.lookup kid = some anchor) :
    (kid, anchor) ∈ roots := by
  obtain ⟨l, r, rfl, -⟩ := List.lookup_eq_some_iff.mp h
  simp

/-- Anchors of one fingerprint have one kid, because both are made from the
key. -/
theorem kid_of_fingerprint {X : Crates} {r q : String × RootAnchor} (hr : AnchorOk X r) (hq : AnchorOk X q)
    (h : r.2.fingerprint = q.2.fingerprint) : r.1 = q.1 := by
  have hsha : (X.sha256 r.2.key).val = (X.sha256 q.2.key).val := hr.2 ▸ hq.2 ▸ h
  rw [hr.1, hq.1, keyId, keyId, hsha]

theorem oneAuthority_of_established (hroots : ∀ r ∈ input.roots, AnchorOk H.toCrates r)
    (h : Established H input o c s sel head) : OneAuthority H input o c s := by
  have hasa := h.action.asa
  obtain ⟨proofBytes, -, hsnapshot⟩ := h.checkpoint.snapshot
  simp only [asaChecks, List.forall_mem_cons] at hasa
  simp only [snapshotChecks, List.forall_mem_cons] at hsnapshot
  have ha := h.signers.asa.is.clean
  have hs := h.signers.snapshot.is.clean
  have hcheckpoint : c.checkpoint ∈ c.papers := by simp [Chain.papers]
  obtain ⟨htenant, -⟩ := delegation_reads h.chain.read.delegation.is.shape
  obtain ⟨anchor, hkid, -, hfingerprint⟩ := h.chain.read.delegation.anchor
  have hroot : get c.delegation.doc "organisation_root" = .bytes anchor.fingerprint := get_of_lookup hfingerprint
  refine ⟨⟨c.delegation.cwt.kid, anchor, hkid, ?_, ?_⟩, nameOf c.delegation.doc "tenant", ?_⟩
  · intro p hp
    obtain ⟨anchor', hkid', hvalid, hfingerprint'⟩ := paper_anchored h.chain.read p hp
    have hsame : anchor'.fingerprint = anchor.fingerprint := by
      have horganisation := h.chain.organisation p hp
      rw [get_of_lookup hfingerprint', hroot] at horganisation
      simpa using horganisation
    have hkids : p.cwt.kid = c.delegation.cwt.kid :=
      kid_of_fingerprint (hroots _ (lookup_mem hkid')) (hroots _ (lookup_mem hkid)) hsame
    rw [hkids, hkid] at hkid'
    cases hkid'
    exact ⟨hkids, hvalid⟩
  · intro d hd
    rcases List.mem_append.mp hd with hd | hd
    · obtain ⟨p, hp, rfl⟩ := List.mem_map.mp hd
      rw [h.chain.organisation p hp, hroot]
    · simp only [List.mem_cons, List.not_mem_nil, or_false] at hd
      rcases hd with rfl | rfl | rfl | rfl
      · rw [h.chain.actor, hroot]
      · rw [h.passport.organisation, hroot]
      · rw [same_holds hs hsnapshot.1, h.chain.organisation _ hcheckpoint, hroot]
      · rw [same_holds ha hasa.1, hroot]
  · have htext : get c.delegation.doc "tenant" = .text (nameOf c.delegation.doc "tenant") :=
      text_eq_some.mp (text_of_name htenant)
    intro d hd
    rcases List.mem_append.mp hd with hd | hd
    · obtain ⟨p, hp, rfl⟩ := List.mem_map.mp hd
      rw [h.chain.tenant p hp, htext]
    · simp only [List.mem_cons, List.not_mem_nil, or_false] at hd
      rcases hd with rfl | rfl | rfl
      · rw [h.passport.tenant, htext]
      · rw [same_holds hs hsnapshot.2.1, h.chain.tenant _ hcheckpoint, htext]
      · rw [same_holds ha hasa.2.1, htext]

end Candidate

/-- **A candidate is within its limits.** Whatever is presented and whatever the
local context holds: what an evaluation under pinned roots hands over has its
amount below the ceiling and its clock in every window, one anchor and one
tenant behind it, the current checkpoint, and a grant and a reservation that
are for its action. -/
theorem candidate_assured (H : Host) (input : InputContext) (roots : PinnedRoots H) :
    Returns (evaluate H { input with roots := roots.val }) fun res => ∀ ctx, res.2 = some ctx →
      res.1.reason = "DURABLE_REPLAY_REQUIRED" ∧ ∃ o c s sel head,
        Established H { input with roots := roots.val } o c s sel head ∧
        ctx = contextFor H { input with roots := roots.val } o c ∧
        Limits { input with roots := roots.val } o c s ∧ OneAuthority H { input with roots := roots.val } o c s ∧
        Current H { input with roots := roots.val } o c s ∧ ForAction H.toCrates o c s := by
  refine (evaluate_returns H { input with roots := roots.val }).mono fun res hres ctx hctx => ?_
  rcases hres with ⟨-, hnone⟩ | ⟨o, c, s, sel, head, hall, rfl⟩
  · rw [hnone] at hctx
    cases hctx
  · cases hctx
    exact ⟨rfl, o, c, s, sel, head, hall, rfl, limits_of_established hall,
      oneAuthority_of_established roots.anchorOk hall, current_of_established hall, forAction_of_established hall⟩

end SwarrmVerify.L5.Counterparty

import SwarrmVerify.L4Action.Strict
import SwarrmVerify.L4Handshake.Reads

/-!
# Acknowledgements (`b28.rs`, `lib.rs`)

A counterparty signs that it has seen a log grow from one checkpoint to
another. The envelope is checked against keys and a clock that the relying
party holds itself, and then compared with a bundle that is verified on its
own, without a trust context. The result says how far the bundle covers what
was acknowledged; it never makes the bundle more than it is.

The code runs on bytes of three sources: an envelope in CBOR, a local context
in CBOR and a bundle in JSON. `Assessor` has what both sides call, and nothing
is assumed of it.

**Results.**
* `verifiedAcknowledgement_iff`: an envelope is accepted exactly if it
  acknowledges what is returned (`Acknowledges`): it is in the form of its
  schema, a key that the local context lists under the counterparty's name
  signed it, it is not of the future, and its two checkpoints differ.
* `assessment_iff`: an assessment has a result exactly if the bundle is parsed
  strictly and verifies, the envelope acknowledges, and the coverage is that of
  the acknowledged checkpoints among those of the bundle (`Assessed`).
* `verifiedAcknowledgement_safe`, `assessment_safe`: neither panics, on any
  bytes.
-/
namespace SwarrmVerify.L4.Handshake
open Panics SwarrmVerify.L1.CborWire SwarrmVerify.L1.Jcs SwarrmVerify.L3.Receipt
open SwarrmVerify.L4.Action (Engine strictJson)
open SwarrmVerify.L4.Bundle (BundleFacts verifyBundleFacts)

/-- What an assessment calls: the side of JSON and the side of CBOR, which share
their hashes and signatures. -/
structure Assessor extends Engine, Host

def maxLocalContext : Nat := 65536

def localAcknowledgementContext : String := "swarrm-b28/local-acknowledgement-context/v1"

/-! ## Signed facts -/

def jsonText (o : Option String) : Value := (o.map Value.string).getD .null

def jsonUint (o : Option Nat) : Value := (o.map fun n => Value.number (.posInt (UInt64.ofNat n))).getD .null

/-- What is reported of an acknowledgement. The members stand in the order of
their names. -/
def acknowledgementFacts (counterparty : String) (fromHash : Option String) (issuedAt : Option Nat)
    (origin toHash : Option String) : Value :=
  .object
    [("counterparty", .string counterparty), ("from_hash", jsonText fromHash), ("issued_at", jsonUint issuedAt),
      ("origin", jsonText origin), ("to_hash", jsonText toHash)]

/-- An acknowledgement under the keys and the clock of the local context, or
nothing.
mirrors verify-rs/src/b28.rs:378-393 -/
def verifiedAcknowledgement (H : Host) (raw context : Bytes) : Attempt Value := do
  let value ← OptionT.mk (pure (decode H context maxLocalContext))
  let known ← OptionT.mk (pure (document value (some localAcknowledgementContext) ["keys", "now"]))
  let keys ← localKeys H (← member known "keys" some)
  let signed ← OptionT.mk (signedCwt H raw .acknowledgement keys)
  let doc ← OptionT.mk (pure (plain signed.core))
  let schema ← member known "schema" some
  if text schema != some localAcknowledgementContext then failure
  else
    let counterparty ← member doc "counterparty" some
    if text counterparty != some signed.kid then failure
    else
      let issued ← member doc "issued_at" uint
      let now ← member known "now" uint
      if now < issued then failure
      else
        let fromHash ← member doc "from_hash" some
        let toHash ← member doc "to_hash" some
        if eqv fromHash toHash then failure
        else
          let origin ← member doc "origin" some
          pure (acknowledgementFacts signed.kid (text fromHash) (some issued) (text origin) (text toHash))

/-! ## Coverage -/

inductive Coverage where
  | otherOrigin
  | covered
  | malformed
  | conflict
  deriving DecidableEq, Repr

def Coverage.name : Coverage → String
  | otherOrigin => "other-origin"
  | covered => "covered"
  | malformed => "malformed"
  | conflict => "conflict"

/-- What a bundle says to an acknowledgement: it is of another log, or one head
is not in the chain, or both are, in the order claimed or not.
mirrors verify-rs/src/lib.rs:1372-1381 -/
def acknowledgementCoverage (ack bundle : Value) (facts : BundleFacts) : Option Coverage :=
  if !(ack.index "origin").eqv (bundle.index "origin") then some .otherOrigin
  else do
    let fromHash ← (ack.index "from_hash").asStr
    let toHash ← (ack.index "to_hash").asStr
    match facts.chainSizes.lookup fromHash, facts.chainSizes.lookup toHash with
    | some start, some finish => if start < finish then some .covered else some .malformed
    | _, _ => some .conflict

/-- An acknowledgement beside a bundle, and the digest of the bundle it was
assessed against. -/
structure Assessment where
  acknowledgement : Value
  coverage : Coverage
  bundleDigest : String

/-- The acknowledgement and the bundle are each verified by themselves before
the one is compared with the other.
mirrors verify-rs/src/lib.rs:1387-1398 -/
def assessment (A : Assessor) (envelope context json : Bytes) : Attempt Assessment :=
  if json.length > L4.Strict.maxBundleBytes then failure
  else do
    let bundle ← OptionT.mk (pure (strictJson A.toEngine json))
    let facts := verifyBundleFacts A.toCrates bundle none
    if !facts.ok then failure
    else
      let ack ← verifiedAcknowledgement A.toHost envelope context
      let coverage ← OptionT.mk (pure (acknowledgementCoverage ack bundle facts))
      let canon ← OptionT.mk (pure (canonicalChecked A.toCrates bundle))
      pure ⟨ack, coverage, hex (A.sha256 canon).val⟩

/-- The report as text, for an assessment and for none. The members stand in the
order of their names.
mirrors verify-rs/src/lib.rs:1386-1412 -/
def verifyAcknowledgementJson (A : Assessor) (envelope context json : Bytes) : Run String := do
  let accepted ← (assessment A envelope context json).run
  let digest := fun raw : Bytes => jsonText (accepted.map fun _ => hex (A.sha256 raw).val)
  return A.display (.object
    [("acknowledgement", (accepted.map Assessment.acknowledgement).getD .null),
     ("bundle_digest", jsonText (accepted.map Assessment.bundleDigest)),
     ("context_digest", digest context),
     ("coverage", jsonText (accepted.map fun a => a.coverage.name)),
     ("envelope_digest", digest envelope),
     ("schema", .string "evd/acknowledgement-assessment/v1"),
     ("verdict", .string (if accepted.isSome then "VERIFIED" else "NOT_VERIFIED"))])

/-! ## Accepted acknowledgements -/

/-- What a counterparty says it has seen: two heads of a log, and when it says
so. -/
structure Acknowledgement where
  counterparty : String
  fromHash : String
  issuedAt : UInt64
  origin : String
  toHash : String

def Acknowledgement.json (a : Acknowledgement) : Value :=
  acknowledgementFacts a.counterparty (some a.fromHash) (some a.issuedAt.toNat) (some a.origin) (some a.toHash)

/-- The keys and the clock of a local context, as it decodes to them. -/
structure Knows (H : Host) (context : Bytes) (keys : Keys) (now : Nat) : Prop where
  reads : ∃ value known table, decode H context maxLocalContext = some value ∧
    document value (some localAcknowledgementContext) ["keys", "now"] = some known ∧
    known.lookup "keys" = some table ∧ (localKeys H table).run = .ok (some keys) ∧
    known.lookup "schema" = some (.text localAcknowledgementContext) ∧ (known.lookup "now").bind uint = some now

/-- The members of the signed document, each of its own type. -/
structure Says (doc : Doc) (a : Acknowledgement) : Prop where
  counterparty : doc.lookup "counterparty" = some (.text a.counterparty)
  fromHash : doc.lookup "from_hash" = some (.text a.fromHash)
  issuedAt : (doc.lookup "issued_at").bind uint = some a.issuedAt.toNat
  origin : doc.lookup "origin" = some (.text a.origin)
  toHash : doc.lookup "to_hash" = some (.text a.toHash)

/-- A local key signed the acknowledgement, its key id is the counterparty's
name, and it is not of the future. -/
structure Acknowledges (H : Host) (raw context : Bytes) (a : Acknowledgement) : Prop where
  signed : ∃ keys now cwt doc key, Knows H context keys now ∧ a.issuedAt.toNat ≤ now ∧
    inspectCwt H raw .acknowledgement = .ok (some cwt) ∧ plain cwt.core = some doc ∧ Says doc a ∧
    cwt.kid = a.counterparty ∧ keys.lookup a.counterparty = some key ∧ cwtSignatureValid H.toCrates cwt key = true
  differ : a.fromHash ≠ a.toHash

theorem signedCwt_eq_some {H : Host} {raw : Bytes} {schema : Schema} {cwt : Cwt} {keys : Keys} :
    signedCwt H raw schema keys = .ok (some cwt) ↔ inspectCwt H raw schema = .ok (some cwt) ∧
      ∃ key, keys.lookup cwt.kid = some key ∧ cwtSignatureValid H.toCrates cwt key = true := by
  refine ⟨signedCwt_spec, fun h => ?_⟩
  obtain ⟨hinspect, key, hkey, hsigned⟩ := h
  rw [signedCwt, hinspect, ok_bind]
  simp only [hkey, Option.any_some, hsigned, if_true]
  rfl

theorem Acknowledgement.json_injective {a b : Acknowledgement} (h : a.json = b.json) : a = b := by
  obtain ⟨c, f, i, o, t⟩ := a
  obtain ⟨c', f', i', o', t'⟩ := b
  simp only [json, acknowledgementFacts, jsonText, jsonUint, Option.map_some, Option.getD_some, UInt64.ofNat_toNat,
    Value.object.injEq, List.cons.injEq, Prod.mk.injEq, true_and, and_true, Value.string.injEq, Value.number.injEq,
    Number.posInt.injEq] at h
  obtain ⟨rfl, rfl, rfl, rfl, rfl⟩ := h
  rfl

theorem uint_bound {v : C} {n : Nat} (h : uint v = some n) : n < 2 ^ 63 := by
  unfold uint at h
  split at h
  · split at h
    · cases h
      omega
    · cases h
  · cases h

theorem eqv_texts {s t : String} : eqv (.text s) (.text t) = (s == t) := by
  rw [eqv]

section
variable {H : Host} {raw context : Bytes}

/-- The names of a signed acknowledgement are texts, by its schema. -/
theorem acknowledgement_texts {cwt : Cwt} {doc : Doc}
    (hinspect : inspectCwt H raw .acknowledgement = .ok (some cwt)) (hplain : plain cwt.core = some doc) :
    ∀ k ∈ ["counterparty", "origin", "from_hash", "to_hash"], ∃ s, doc.lookup k = some (.text s) := by
  obtain ⟨doc', hcarries⟩ := inspectCwt_spec hinspect
  obtain rfl : doc = doc' := Option.some.inj (hplain.symm.trans hcarries.plain)
  have hshape : acknowledgementShape.Holds doc := hcarries.shape
  intro k hk
  have hfield : k ∈ acknowledgementShape.fields := by
    simp only [List.mem_cons, List.not_mem_nil, or_false] at hk
    rcases hk with rfl | rfl | rfl | rfl <;> simp [acknowledgementShape]
  have hrule : Rule.boundedText k 1024 ∈ acknowledgementShape.rules := by
    simp only [List.mem_cons, List.not_mem_nil, or_false] at hk
    rcases hk with rfl | rfl | rfl | rfl <;> simp [acknowledgementShape]
  obtain ⟨v, hv⟩ := Option.isSome_iff_exists.mp (hshape.has k hfield)
  obtain ⟨s, hs⟩ := Option.isSome_iff_exists.mp (name_of_bounded (hshape.rule _ hrule))
  rw [get_of_lookup hv] at hs
  exact ⟨s, by rw [hv, text_eq_some.mp hs]⟩

/-- An envelope is accepted exactly if it acknowledges what is returned. Both
directions are read off the stages of the code. -/
theorem verifiedAcknowledgement_iff {ack : Value} :
    (verifiedAcknowledgement H raw context).run = .ok (some ack) ↔
      ∃ a : Acknowledgement, Acknowledges H raw context a ∧ ack = a.json := by
  simp only [verifiedAcknowledgement, attempt_bind, attempt_member, attempt_ite, attempt_pure, OptionT.run_mk,
    run_pure, Except.ok.injEq, Option.bind_fun_some, signedCwt_eq_some]
  constructor
  · rintro ⟨value, hvalue, known, hknown, table, htable, keys, hkeys, cwt, ⟨hinspect, key, hkey, hsigned⟩, doc, hdoc,
      schema, hschema, hname, counterparty, hcounterparty, hkid, issued, hissued, now, hnow, htime, fromHash, hfrom,
      toHash, hto, hdiffer, origin, horigin, rfl⟩
    have htexts := acknowledgement_texts hinspect hdoc
    obtain ⟨c, hc⟩ := htexts "counterparty" (by simp)
    obtain ⟨o, ho⟩ := htexts "origin" (by simp)
    obtain ⟨f, hf⟩ := htexts "from_hash" (by simp)
    obtain ⟨t, ht⟩ := htexts "to_hash" (by simp)
    obtain rfl := Option.some.inj (hcounterparty.symm.trans hc)
    obtain rfl := Option.some.inj (horigin.symm.trans ho)
    obtain rfl := Option.some.inj (hfrom.symm.trans hf)
    obtain rfl := Option.some.inj (hto.symm.trans ht)
    obtain rfl : c = cwt.kid := by simpa [text] using hkid
    have hschemaName : schema = .text localAcknowledgementContext := text_eq_some.mp (by simpa using hname)
    obtain ⟨v, -, hv⟩ := Option.bind_eq_some_iff.mp hissued
    have hexact : (UInt64.ofNat issued).toNat = issued :=
      UInt64.toNat_ofNat_of_lt' (Nat.lt_trans (uint_bound hv) (by decide))
    rw [← hexact] at hissued htime ⊢
    refine ⟨⟨cwt.kid, f, UInt64.ofNat issued, o, t⟩, ⟨⟨keys, now, cwt, doc, key, ⟨value, known, table, hvalue, hknown,
      htable, hkeys, by rw [hschema, hschemaName], hnow⟩, not_lt.mp htime, hinspect, hdoc, ⟨hc, hf, hissued, ho, ht⟩, rfl, hkey,
      hsigned⟩, ?_⟩, rfl⟩
    simpa [eqv_texts] using hdiffer
  · rintro ⟨a, ⟨⟨keys, now, cwt, doc, key, ⟨value, known, table, hvalue, hknown, htable, hkeys, hschema, hnow⟩, htime,
      hinspect, hdoc, hsays, hkid, hkey, hsigned⟩, hdiffer⟩, rfl⟩
    refine ⟨value, hvalue, known, hknown, table, htable, keys, hkeys, cwt, ⟨hinspect, key, by rw [hkid]; exact hkey,
      hsigned⟩, doc, hdoc, _, hschema, by simp [text], _, hsays.counterparty, by simp [text, hkid], _,
      hsays.issuedAt, now, hnow, not_lt.mpr htime, _, hsays.fromHash, _, hsays.toHash, ?_, _, hsays.origin, ?_⟩
    · simpa [eqv_texts] using hdiffer
    · rw [hkid]
      rfl

theorem verifiedAcknowledgement_safe : Safe (verifiedAcknowledgement H raw context).run := by
  suffices h : Yields (verifiedAcknowledgement H raw context) fun _ => True from h.safe
  refine Yields.of.bind fun value _ => Yields.of.bind fun known hknown => ?_
  have hknows := (document_eq_some hknown).2.1
  have hschema : (known.lookup "schema").isSome = true :=
    Option.isSome_iff_exists.mpr (by
      have hname := (document_eq_some hknown).2.2 _ rfl
      cases h : known.lookup "schema" with
      | none => rw [h] at hname; cases hname
      | some v => exact ⟨v, rfl⟩)
  refine (Yields.member (hknows "keys" (by simp))).bind fun table _ => (localKeys_yields H table).bind fun keys _ => ?_
  have hsigned : Yields (OptionT.mk (signedCwt H raw .acknowledgement keys)) fun cwt =>
      inspectCwt H raw .acknowledgement = .ok (some cwt) :=
    Yields.mk (signedCwt_safe.returns.mono fun o ho cwt hcwt => (signedCwt_spec (by rw [ho, hcwt])).1)
  refine hsigned.bind fun cwt hinspect => Yields.of.bind fun doc hdoc => ?_
  have htexts : ∀ k ∈ ["counterparty", "origin", "from_hash", "to_hash"], (doc.lookup k).isSome = true := by
    intro k hk
    obtain ⟨s, hs⟩ := acknowledgement_texts hinspect hdoc k hk
    rw [hs]
    rfl
  have hissued : (doc.lookup "issued_at").isSome = true := by
    obtain ⟨doc', hcarries⟩ := inspectCwt_spec hinspect
    obtain rfl : doc = doc' := Option.some.inj (hdoc.symm.trans hcarries.plain)
    exact hcarries.shape.has "issued_at" (by simp [Schema.shape, acknowledgementShape])
  refine (Yields.member hschema).bind fun schema _ => Yields.refuse fun _ => ?_
  refine (Yields.member (htexts _ (by simp))).bind fun counterparty _ => Yields.refuse fun _ => ?_
  refine (Yields.member hissued).bind fun issued _ => (Yields.member (hknows "now" (by simp))).bind fun now _ => ?_
  refine Yields.refuse fun _ => (Yields.member (htexts _ (by simp))).bind fun fromHash _ => ?_
  refine (Yields.member (htexts _ (by simp))).bind fun toHash _ => Yields.refuse fun _ => ?_
  exact (Yields.member (htexts _ (by simp))).bind fun origin _ => Yields.pure trivial

/-! ## Assessments -/

variable {A : Assessor} {envelope json : Bytes}

/-- What an assessment with a result rests on: a bundle that verifies, an
acknowledgement of it, and what the result says of the two. -/
structure Assessed (A : Assessor) (envelope context json : Bytes) (bundle : Value) (a : Acknowledgement)
    (r : Assessment) : Prop where
  size : json.length ≤ L4.Strict.maxBundleBytes
  parsed : strictJson A.toEngine json = some bundle
  verified : (verifyBundleFacts A.toCrates bundle none).ok = true
  acknowledges : Acknowledges A.toHost envelope context a
  coverage : acknowledgementCoverage a.json bundle (verifyBundleFacts A.toCrates bundle none) = some r.coverage
  acknowledgement : r.acknowledgement = a.json
  digest : ∃ canon, canonicalChecked A.toCrates bundle = some canon ∧ r.bundleDigest = hex (A.sha256 canon).val

theorem assessment_iff {r : Assessment} : (assessment A envelope context json).run = .ok (some r) ↔
    ∃ bundle a, Assessed A envelope context json bundle a r := by
  simp only [assessment, attempt_ite, attempt_bind, attempt_pure, OptionT.run_mk, run_pure, Except.ok.injEq,
    verifiedAcknowledgement_iff, Bool.not_eq_true', Bool.not_eq_false]
  constructor
  · rintro ⟨hsize, bundle, hparsed, hok, ack, ⟨a, ha, rfl⟩, coverage, hcoverage, canon, hcanon, rfl⟩
    exact ⟨bundle, a, not_lt.mp hsize, hparsed, hok, ha, hcoverage, rfl, canon, hcanon, rfl⟩
  · rintro ⟨bundle, a, h⟩
    obtain ⟨canon, hcanon, hdigest⟩ := h.digest
    refine ⟨not_lt.mpr h.size, bundle, h.parsed, h.verified, a.json, ⟨a, h.acknowledges, rfl⟩, r.coverage, h.coverage,
      canon, hcanon, ?_⟩
    rw [← h.acknowledgement, ← hdigest]

theorem assessment_safe : Safe (assessment A envelope context json).run := by
  suffices h : Yields (assessment A envelope context json) fun _ => True from h.safe
  refine Yields.refuse fun _ => Yields.of.bind fun bundle _ => Yields.refuse fun _ => ?_
  have hack : Yields (verifiedAcknowledgement A.toHost envelope context) fun _ => True :=
    verifiedAcknowledgement_safe.returns.mono fun _ _ _ _ => trivial
  exact hack.bind fun ack _ => Yields.of.bind fun coverage _ => Yields.of.bind fun canon _ => Yields.pure trivial

end

end SwarrmVerify.L4.Handshake

import SwarrmVerify.L3KeyLog.Issuers

/-!
# Selective disclosure (`lib.rs`)

A receipt commits to a field with `SHA-256(domain ‖ 0x00 ‖ nonce ‖ 0x00 ‖ payload)`;
a disclosure package opens one field of one receipt of a bundle, by a nonce and
a payload that hash to the commitment.

The commitment delimits but does not measure. The domain cannot hold a zero
byte, so the first delimiter is found (`split_delim`); nonce and payload can,
and nothing fixes the length of the nonce, so the second is not. The same bytes
read with the boundary elsewhere are another package, with another payload, and
it is accepted as well: no collision is needed.

**Hypotheses** of `disclosure_binding`: two packages are accepted for one field
of one receipt, and what they hash does not collide.

**Results.**
* `commitmentInput_eq`: equal committed bytes split alike exactly if the nonces
  are of one length.
* `opened_value`: what an accepted package hashes to depends only on the
  receipt and the field it names.
* `disclosure_binding`: the two packages open to one payload exactly if their
  nonces are of one length.
* `prompt_opened_twice`: two packages over the same bytes, with two payloads.
-/
namespace SwarrmVerify.L4.Disclosure
open SwarrmVerify.L1.Jcs SwarrmVerify.L3.Receipt

def disclosureSchema : String := "evd/disclosure/v1"

def domainPrefix : String := "evd/v1/"

/-- The fields that may be disclosed under a fixed domain.
mirrors verify-rs/src/lib.rs:1205-1236 -/
def disclosureFieldDomains : List (String × List String) :=
  [("payload", ["evd/v1/payload"]),
    ("prompt", ["evd/v1/prompt", "evd/v1/llm.prompt"]),
    ("output", ["evd/v1/output", "evd/v1/llm.output"]),
    ("tool.args", ["evd/v1/tool.args"]),
    ("tool.result", ["evd/v1/tool.result"]),
    ("message", ["evd/v1/interaction.message"]),
    ("policy_input", ["evd/v1/policy.input"]),
    ("policy_output", ["evd/v1/policy.output"]),
    ("approver_id", ["evd/v1/approver_id"]),
    ("justification", ["evd/v1/justification"]),
    ("escalation_target_id", ["evd/v1/escalation_target"]),
    ("config", ["evd/v1/agent.config", "evd/v1/lineage/config"]),
    ("query", ["evd/v1/query"]),
    ("trigger_content", ["evd/v1/guardrail.trigger"]),
    ("amount_exact", ["evd/v1/payment.amount"]),
    ("counterparty_id", ["evd/v1/payment.counterparty"]),
    ("mandate_ref", ["evd/v1/payment.mandate"]),
    ("system_prompt", ["evd/v1/lineage/system_prompt"]),
    ("tool_manifest", ["evd/v1/lineage/tool_manifest"]),
    ("mandate_document", ["evd/v1/lineage/mandate_document"]),
    ("created_by_id", ["evd/v1/lineage/created_by_id"]),
    ("enrolment_evidence", ["evd/v1/authority/enrolment_evidence"]),
    ("source_manifest", ["evd/v1/authority/source_manifest"]),
    ("inputs", ["evd/v1/authority/inputs"]),
    ("context_doc", ["evd/v1/authority/context_doc"]),
    ("request", ["evd/v1/authority/request"]),
    ("batch", ["evd/v1/node/batch"]),
    ("attestation", ["evd/v1/node/attestation"]),
    ("statement", ["evd/v1/node/triage"]),
    ("doc", ["evd/v1/node/coverage"])]

/-- A domain that may be used for a field: a fixed one, or the one that is built
from its name.
mirrors verify-rs/src/lib.rs:1238-1244 -/
def disclosureDomain (field domain : String) : Bool :=
  if !disclosureText field || !disclosureText domain || !startsWith domain domainPrefix then false
  else
    let fixed := (disclosureFieldDomains.find? fun e => e.1 == field).any fun e => e.2.contains domain
    fixed || domain == "evd/v1/x/" ++ field

/-- A nonce of 16 bytes at least; there is no upper bound.
mirrors verify-rs/src/lib.rs:1246-1249 -/
def disclosureNonce (pkg : Value) : Option Bytes :=
  ((pkg.getStr "nonce_hex").bind hexToBytes).filter fun nonce => 16 ≤ nonce.length

/-- Only the one encoding of the payload is read.
mirrors verify-rs/src/lib.rs:1251-1255 -/
def disclosurePayload (X : Crates) (pkg : Value) : Option Bytes := do
  let text ← pkg.getStr "payload_b64"
  let payload ← X.b64Decode text
  if X.b64Encode payload == text then some payload else none

/-- A disclosure taken apart, all of it decoded.
mirrors verify-rs/src/lib.rs:1203 -/
structure DisclosureFields where
  receiptHash : String
  field : String
  domain : String
  nonce : Bytes
  payload : Bytes

/-- A disclosure with exactly its members, in their forms.
mirrors verify-rs/src/lib.rs:1257-1271 -/
def disclosureFields (X : Crates) (pkg : Value) : Option DisclosureFields := do
  let members ← pkg.asObject
  if members.length != 6 || pkg.getStr "schema" != some disclosureSchema then none
  else
    let rh ← pkg.getStr "receipt_hash"
    if !lowerSha256 rh then none
    else
      let field ← pkg.getStr "field"
      let domain ← pkg.getStr "domain"
      if !disclosureDomain field domain then none
      else
        let nonce ← disclosureNonce pkg
        let payload ← disclosurePayload X pkg
        return ⟨rh, field, domain, nonce, payload⟩

/-- What a commitment hashes. -/
def commitmentInput (domain : String) (payload nonce : Bytes) : Bytes :=
  utf8 domain ++ 0x00 :: nonce ++ 0x00 :: payload

/-- The commitment: a hash over the domain, the nonce and the payload, with a
NUL between each two and no length.
mirrors verify-rs/src/lib.rs:1273-1281 -/
def disclosureCommitment (X : Crates) (domain : String) (payload nonce : Bytes) : String :=
  hex (X.sha256 (commitmentInput domain payload nonce)).val

/-- What a receipt commits to under a field, if its bytes are canonical.
mirrors verify-rs/src/lib.rs:1283-1286 -/
def disclosureCommittedValue (X : Crates) (raw : Bytes) (field : String) : Option String := do
  let body ← canonicalBody X raw
  let commitments ← body.get "commitments"
  commitments.getStr field

/-- The first receipt with the hash decides.
mirrors verify-rs/src/lib.rs:1296-1307 -/
def disclosureLoop (X : Crates) (p : DisclosureFields) : List Value → Bool
  | [] => false
  | e :: rest =>
    match (e.get "envelope").bind (payloadOf X) with
    | none => disclosureLoop X p rest
    | some raw =>
      if hex (X.sha256 raw).val != p.receiptHash then disclosureLoop X p rest
      else match disclosureCommittedValue X raw p.field with
        | none => false
        | some expected => disclosureCommitment X p.domain p.payload p.nonce == expected

/-- A disclosure opens a commitment of a receipt that the bundle carries. The
bundle itself is verified elsewhere.
mirrors verify-rs/src/lib.rs:1293-1308 -/
def verifyDisclosure (X : Crates) (pkg bundle : Value) : Bool :=
  match disclosureFields X pkg, bundle.getArray "entries" with
  | some p, some entries => disclosureLoop X p entries
  | _, _ => false

/-! ## Reading a package -/

/-- The bytes of `nonce_hex`, two to a byte of the nonce. -/
def nonceHexLength (pkg : Value) : Option Nat := (pkg.getStr "nonce_hex").map fun s => (utf8 s).length

/-- The bytes the package's commitment hashes. -/
def committedBytes (X : Crates) (pkg : Value) : List Bytes :=
  ((disclosureFields X pkg).map fun p => commitmentInput p.domain p.payload p.nonce).toList

theorem hexPairs_length {b out : Bytes} (h : hexPairs b = some out) : b.length = 2 * out.length := by
  fun_induction hexPairs b generalizing out with
  | case1 => cases h; rfl
  | case2 => cases h
  | case3 a c rest ih =>
    simp only [Option.bind_eq_bind, Option.bind_eq_some_iff, Option.pure_def, Option.some.injEq] at h
    obtain ⟨x, _, y, _, tail, htail, rfl⟩ := h
    simp only [List.length_cons, ih htail]
    omega

theorem ofNat_ne_zero {n : Nat} (h0 : 0 < n) (h : n < 256) : UInt8.ofNat n ≠ 0 := by
  intro hz
  have := congrArg UInt8.toNat hz
  rw [UInt8.toNat_ofNat_of_lt' h] at this
  simp at this
  omega

/-- No character but NUL has a zero byte. -/
theorem utf8EncodeChar_ne_zero {c : Char} (h : 0 < c.toNat) {b : UInt8}
    (hb : b ∈ String.utf8EncodeChar c) : b ≠ 0 := by
  have hv : 0 < c.val.toNat := h
  simp only [String.utf8EncodeChar] at hb
  split at hb
  · obtain rfl := List.mem_singleton.mp hb
    exact ofNat_ne_zero hv (by omega)
  · split at hb
    · simp only [List.mem_cons, List.not_mem_nil, or_false] at hb
      rcases hb with rfl | rfl <;> exact ofNat_ne_zero (by omega) (by omega)
    · split at hb
      · simp only [List.mem_cons, List.not_mem_nil, or_false] at hb
        rcases hb with rfl | rfl | rfl <;> exact ofNat_ne_zero (by omega) (by omega)
      · simp only [List.mem_cons, List.not_mem_nil, or_false] at hb
        rcases hb with rfl | rfl | rfl | rfl <;> exact ofNat_ne_zero (by omega) (by omega)

/-- Text without control characters has no zero byte. -/
theorem disclosureText_no_zero {s : String} (h : disclosureText s = true) : (0x00 : UInt8) ∉ utf8 s := by
  intro hz
  rw [← String.ofList_toList (s := s), utf8_ofList] at hz
  obtain ⟨c, hc, hb⟩ := List.mem_flatMap.mp hz
  simp only [disclosureText, Bool.and_eq_true, List.all_eq_true] at h
  have hpos : 0 < c.toNat := by
    have := h.2 c hc
    simp only [Bool.not_eq_true', Bool.or_eq_false_iff, decide_eq_false_iff_not] at this
    omega
  exact utf8EncodeChar_ne_zero hpos hb rfl

/-- What the fields of a well-formed package are. -/
structure Fields (X : Crates) (pkg : Value) (p : DisclosureFields) : Prop where
  receiptHash : pkg.getStr "receipt_hash" = some p.receiptHash
  field : pkg.getStr "field" = some p.field
  domain : disclosureText p.domain = true
  nonce : nonceHexLength pkg = some (2 * p.nonce.length)
  payload : disclosurePayload X pkg = some p.payload

theorem fields_of {X : Crates} {pkg : Value} {p : DisclosureFields} (h : disclosureFields X pkg = some p) :
    Fields X pkg p := by
  unfold disclosureFields at h
  simp only [Option.bind_eq_bind, Option.bind_eq_some_iff] at h
  obtain ⟨members, _, h⟩ := h
  split at h
  · cases h
  obtain ⟨rh, hrh, h⟩ := Option.bind_eq_some_iff.mp h
  split at h
  · cases h
  obtain ⟨field, hfield, h⟩ := Option.bind_eq_some_iff.mp h
  obtain ⟨domain, _, h⟩ := Option.bind_eq_some_iff.mp h
  split at h
  · cases h
  rename_i hdomain
  obtain ⟨nonce, hnonce, h⟩ := Option.bind_eq_some_iff.mp h
  obtain ⟨payload, hpayload, h⟩ := Option.bind_eq_some_iff.mp h
  cases h
  refine ⟨hrh, hfield, ?_, ?_, hpayload⟩
  · simp only [disclosureDomain, Bool.not_eq_true', Bool.not_eq_false] at hdomain
    split at hdomain
    · cases hdomain
    · rename_i htext
      simp only [Bool.or_eq_true, not_or] at htext
      simpa using htext.1.2
  · obtain ⟨text, htext, hbytes⟩ := Option.bind_eq_some_iff.mp (Option.filter_eq_some_iff.mp hnonce).1
    simp only [nonceHexLength, htext, Option.map_some, Option.some.injEq]
    exact hexPairs_length hbytes

/-! ## Unique parsing -/

/-- The first delimiter of a byte string is where it is. -/
theorem split_delim {a b r s : Bytes} {d : UInt8} (ha : d ∉ a) (hb : d ∉ b)
    (h : a ++ d :: r = b ++ d :: s) : a = b ∧ r = s := by
  induction a generalizing b with
  | nil =>
    cases b with
    | nil => exact ⟨rfl, (List.cons.inj h).2⟩
    | cons y ys => exact absurd (List.cons.inj h).1 fun he => hb (by simp [he])
  | cons x xs ih =>
    cases b with
    | nil => exact absurd (List.cons.inj h).1 fun he => ha (by simp [he])
    | cons y ys =>
      obtain ⟨rfl, htail⟩ := List.cons.inj h
      obtain ⟨rfl, hr⟩ := ih (fun hm => ha (List.mem_cons_of_mem _ hm))
        (fun hm => hb (List.mem_cons_of_mem _ hm)) htail
      exact ⟨rfl, hr⟩

theorem commitmentInput_eq {d d' : String} {n n' p p' : Bytes} (hd : disclosureText d = true)
    (hd' : disclosureText d' = true) (h : commitmentInput d p n = commitmentInput d' p' n') :
    p = p' ↔ n.length = n'.length := by
  simp only [commitmentInput, List.append_assoc, List.cons_append] at h
  obtain ⟨_, hrest⟩ := split_delim (disclosureText_no_zero hd) (disclosureText_no_zero hd') h
  constructor
  · rintro rfl
    have := congrArg List.length hrest
    simp only [List.length_append, List.length_cons] at this
    omega
  · intro hlen
    exact (List.cons.inj (List.append_inj_right hrest hlen)).2

/-! ## Binding -/

theorem opened_value {X : Crates} {p q : DisclosureFields} {entries : List Value}
    (hrh : p.receiptHash = q.receiptHash) (hfield : p.field = q.field)
    (hp : disclosureLoop X p entries = true) (hq : disclosureLoop X q entries = true) :
    disclosureCommitment X p.domain p.payload p.nonce = disclosureCommitment X q.domain q.payload q.nonce := by
  induction entries with
  | nil => cases hp
  | cons e rest ih =>
    simp only [disclosureLoop] at hp hq
    cases hraw : (e.get "envelope").bind (payloadOf X) with
    | none =>
      rw [hraw] at hp hq
      exact ih hp hq
    | some raw =>
      simp only [hraw, hrh, hfield] at hp hq
      split at hp
      · exact ih hp (by simpa [*] using hq)
      · rename_i hne
        rw [if_neg hne] at hq
        cases hv : disclosureCommittedValue X raw q.field with
        | none => rw [hv] at hp; cases hp
        | some expected =>
          simp only [hv, beq_iff_eq] at hp hq
          rw [hp, hq]

theorem verifyDisclosure_spec {X : Crates} {pkg bundle : Value} (h : verifyDisclosure X pkg bundle = true) :
    ∃ p entries, disclosureFields X pkg = some p ∧ bundle.getArray "entries" = some entries ∧
      disclosureLoop X p entries = true := by
  unfold verifyDisclosure at h
  split at h
  · rename_i p entries hp hentries
    exact ⟨p, entries, hp, hentries, h⟩
  · cases h

/-- **Selective-disclosure binding**, as far as it goes: the commitment binds
the payload once the length of the nonce is fixed, and only then. -/
theorem disclosure_binding (X : Crates) (bundle pkg pkg' : Value)
    (h : verifyDisclosure X pkg bundle = true) (h' : verifyDisclosure X pkg' bundle = true)
    (hrh : pkg.getStr "receipt_hash" = pkg'.getStr "receipt_hash")
    (hfield : pkg.getStr "field" = pkg'.getStr "field")
    (hc : CollisionFree X (committedBytes X pkg ++ committedBytes X pkg')) :
    disclosurePayload X pkg = disclosurePayload X pkg' ↔ nonceHexLength pkg = nonceHexLength pkg' := by
  obtain ⟨p, entries, hp, hentries, hloop⟩ := verifyDisclosure_spec h
  obtain ⟨q, entries', hq, hentries', hloop'⟩ := verifyDisclosure_spec h'
  have hpf := fields_of hp
  have hqf := fields_of hq
  rw [hentries] at hentries'; cases hentries'
  rw [hpf.receiptHash, hqf.receiptHash, Option.some.injEq] at hrh
  rw [hpf.field, hqf.field, Option.some.injEq] at hfield
  have hhash := hex_inj (opened_value hrh hfield hloop hloop')
  have hinput := hc _ (by simp [committedBytes, hp]) _ (by simp [committedBytes, hq]) (Subtype.ext hhash)
  rw [hpf.payload, hqf.payload, hpf.nonce, hqf.nonce, Option.some.injEq, Option.some.injEq,
    commitmentInput_eq hpf.domain hqf.domain hinput]
  omega

section
open SwarrmVerify.L1.Reference SwarrmVerify.L3.Published

/-- A package for the prompt of the published log's last receipt. -/
def openPrompt (nonce payload : Bytes) : Value :=
  .object [("domain", .string "evd/v1/prompt"), ("field", .string "prompt"), ("nonce_hex", .string (hex nonce)),
    ("payload_b64", .string (b64Encode payload)), ("receipt_hash", .string (hex receipt3.val)),
    ("schema", .string disclosureSchema)]

/-- The committed payload: `no`, a zero byte, `yes`. -/
def committedPrompt : Value :=
  openPrompt [1, 2, 3, 4, 5, 6, 7, 8, 9, 10, 11, 12, 13, 14, 15, 16] [110, 111, 0, 121, 101, 115]

/-- The same bytes with `no` and the zero byte moved into the nonce: `yes`. -/
def shiftedPrompt : Value :=
  openPrompt [1, 2, 3, 4, 5, 6, 7, 8, 9, 10, 11, 12, 13, 14, 15, 16, 0, 110, 111] [121, 101, 115]

/-- Two packages for one field of one receipt, over the same bytes. -/
theorem prompts_accepted :
    verifyDisclosure crates committedPrompt published = true ∧
    verifyDisclosure crates shiftedPrompt published = true ∧
    committedPrompt.getStr "receipt_hash" = shiftedPrompt.getStr "receipt_hash" ∧
    committedPrompt.getStr "field" = shiftedPrompt.getStr "field" ∧
    CollisionFree crates (committedBytes crates committedPrompt ++ committedBytes crates shiftedPrompt) := by
  decide +kernel

theorem disclosure_binding_prompts :
    verifyDisclosure crates committedPrompt published = true ∧
    verifyDisclosure crates shiftedPrompt published = true ∧
    (disclosurePayload crates committedPrompt = disclosurePayload crates shiftedPrompt ↔
      nonceHexLength committedPrompt = nonceHexLength shiftedPrompt) := by
  obtain ⟨h, h', hrh, hfield, hc⟩ := prompts_accepted
  exact ⟨h, h', disclosure_binding crates published committedPrompt shiftedPrompt h h' hrh hfield hc⟩

/-- **Counterexample**: one commitment opened to two payloads, without a
collision. -/
theorem prompt_opened_twice :
    (verifyDisclosure crates committedPrompt published = true ∧
      verifyDisclosure crates shiftedPrompt published = true ∧
      committedPrompt.getStr "receipt_hash" = shiftedPrompt.getStr "receipt_hash" ∧
      committedPrompt.getStr "field" = shiftedPrompt.getStr "field" ∧
      CollisionFree crates (committedBytes crates committedPrompt ++ committedBytes crates shiftedPrompt)) ∧
    disclosurePayload crates committedPrompt = some [110, 111, 0, 121, 101, 115] ∧
    disclosurePayload crates shiftedPrompt = some [121, 101, 115] := by
  have hpayloads : disclosurePayload crates committedPrompt = some [110, 111, 0, 121, 101, 115] ∧
      disclosurePayload crates shiftedPrompt = some [121, 101, 115] := by decide +kernel
  exact ⟨prompts_accepted, hpayloads⟩

end

end SwarrmVerify.L4.Disclosure

import SwarrmVerify.L1Encoding.Unique
import SwarrmVerify.L4Bundle.Continuity
import SwarrmVerify.L4Certificate.Scitt
import SwarrmVerify.L3KeyLog.Issuers

/-!
# Messages that are signed

The verifier checks Ed25519 signatures over nine kinds of messages. DSSE
envelopes carry a payload type, detached signatures a domain that ends with a
NUL, and two kinds are canonical JSON alone. A key may sign several of them, so
what a signature means hangs on no message being of two kinds.

The kinds are told by their first bytes: an envelope begins with `DSSEv1`, a
domain with `evd/v1/` and two bytes that no other kind of domain has, canonical
JSON with a brace. Behind a domain stands a text that holds no NUL, so that the
last NUL of a message ends its label; the CBOR of a view may hold one, and is
told by its mark. The two kinds that are canonical JSON alone differ in the
names of their objects: a key has a `kty`, which no admissible body has room
for.

**Hypotheses.** The crates obey `WriterLaws` and escape control characters
(`Escaped`). The documents compared are ones that `serde_json` can hold.

**Results.**
* `pae_inj`: a pre-authentication encoding has one type and one payload.
* `domain_inj`: a message under a domain has one domain and one text.
* `dsigOk_message`, `verified_message`, `viewSigOk_message`: the checks of the
  code ask for these messages.
* `messages_separate`: no message serves two purposes, and under one domain it
  is about one document, as far as the signature covers it.
-/
namespace SwarrmVerify.L5.Messages
open SwarrmVerify.L1.Jcs SwarrmVerify.L1.CborWire SwarrmVerify.L3.Receipt SwarrmVerify.L3.Keys
open SwarrmVerify.L4.Checkpoint SwarrmVerify.L4.Continuity SwarrmVerify.L4.Entries SwarrmVerify.L4.Action
open SwarrmVerify.L4.Certificate

variable {X : Crates}

/-! ## Envelopes -/

theorem digits_number (n : Nat) : ∀ b ∈ utf8 (toString n), numberByte b = true :=
  fun b hb => numberByte_digit ((repr_bytes n).2 b hb)

/-- A length is delimited by the space behind it, as no digit is one. -/
theorem length_delim {m n : Nat} {r r' : Bytes} (h : utf8 (toString m) ++ 32 :: r = utf8 (toString n) ++ 32 :: r') :
    m = n ∧ r = r' := by
  obtain ⟨hdigits, hrest⟩ := number_delim (digits_number m) (digits_number n) (ends_cons rfl) (ends_cons rfl) h
  exact ⟨Nat.repr_injective (utf8_inj hdigits), (List.cons.inj hrest).2⟩

theorem pae_inj {s t : String} {p q : Bytes} (h : pae s p = pae t q) : s = t ∧ p = q := by
  simp only [pae, List.append_assoc, List.cons_append] at h
  obtain ⟨hlen, h⟩ := length_delim (List.append_cancel_left h)
  obtain ⟨htype, h⟩ := List.append_inj h hlen
  obtain ⟨-, hpayload⟩ := length_delim (List.cons.inj h).2
  exact ⟨utf8_inj htype, hpayload⟩

/-- The encoding of `scitt.rs` is the one of `lib.rs`, written a second time
there. -/
theorem scitt_pae (payloadType : String) (payload : Bytes) :
    L4.Scitt.pae payloadType payload = pae payloadType payload := by
  have hspace : utf8 " " = [32] := rfl
  simp only [L4.Scitt.pae, pae, utf8_append, hspace, List.append_assoc, List.cons_append, List.nil_append]

/-! ## Domains -/

/-- Texts without a NUL behind labels that end with one: the last NUL tells
where the label ends. -/
theorem nul_split {p q c d : Bytes} (hc : (0 : UInt8) ∉ c) (hd : (0 : UInt8) ∉ d) (h : p ++ 0 :: c = q ++ 0 :: d) :
    p = q ∧ c = d := by
  rcases List.append_eq_append_iff.mp h with ⟨a, hq, ha⟩ | ⟨a, hp, ha⟩
  · cases a with
    | nil =>
      rw [List.append_nil] at hq
      exact ⟨hq.symm, (List.cons.inj ha).2⟩
    | cons b a =>
      refine absurd ?_ hc
      rw [(List.cons.inj ha).2]
      exact List.mem_append_right a List.mem_cons_self
  · cases a with
    | nil =>
      rw [List.append_nil] at hp
      exact ⟨hp, (List.cons.inj ha).2.symm⟩
    | cons b a =>
      refine absurd ?_ hd
      rw [(List.cons.inj ha).2]
      exact List.mem_append_right a List.mem_cons_self

/-- The domains that the verifier passes to `signed_bytes`, all of them. -/
def trustDomains : List String :=
  ["source-proof", "control-evidence", "node-scan", "node-attestation", "population-proof", "temporal-echo",
    "temporal-bounds", "surface-entry", "accountability-binding", "population-index", "scope-registration"]

abbrev TrustDomain := { d : String // d ∈ trustDomains }

inductive Domain where
  | trust (d : TrustDomain)
  | authority (actionType : String)
  | passportTransfer
  | certificateView

namespace Domain

/-- The bytes before the NUL, by the kind of the domain and its name. -/
def label : Domain → Bytes
  | trust d => utf8 "evd/v1/" ++ utf8 d.val
  | authority actionType => utf8 "evd/v1/authority/" ++ utf8 actionType
  | passportTransfer => utf8 "evd/v1/passport/transfer"
  | certificateView => utf8 "evd/v1/certificate/view"

/-- The two bytes behind the version, which already tell the kinds apart. -/
def mark : Domain → Bytes
  | trust d => (utf8 d.val).take 2
  | authority _ => [97, 117]
  | passportTransfer => [112, 97]
  | certificateView => [99, 101]

/-- The marks of the domains that are fixed in the source and not passed to
`signed_bytes`. -/
def fixedMarks : List Bytes := [[97, 117], [112, 97], [99, 101]]

/-- No domain of `signed_bytes` starts like another kind of domain. A finite
check over the list. -/
theorem trust_mark : ∀ d ∈ trustDomains, (utf8 d).take 2 ∉ fixedMarks ∧ 2 ≤ (utf8 d).length := by decide

theorem mark_cases (d : Domain) : (∃ t, d = trust t) ∨ d.mark ∈ fixedMarks := by
  cases d with
  | trust t => exact .inl ⟨t, rfl⟩
  | _ => exact .inr (by simp [mark, fixedMarks])

theorem label_mark (d : Domain) (r : Bytes) : ((d.label ++ r).drop 7).take 2 = d.mark := by
  cases d with
  | trust d =>
    have hversion : (utf8 "evd/v1/").length = 7 := rfl
    rw [label, List.append_assoc, ← hversion, List.drop_left, List.take_append_of_le_length (trust_mark _ d.property).2]
    rfl
  | _ => rfl

theorem head_label (d : Domain) (r : Bytes) : (d.label ++ r).head? = some 101 := by
  cases d <;> rfl

/-- Domains with one mark are of one kind; within a kind the rest of the label
decides. -/
theorem mark_kind {d e : Domain} (h : d.mark = e.mark) :
    (∃ s t, d = trust s ∧ e = trust t) ∨ (∃ s t, d = authority s ∧ e = authority t) ∨ d = e := by
  rcases mark_cases d with ⟨s, rfl⟩ | hd
  · rcases mark_cases e with ⟨t, rfl⟩ | he
    · exact .inl ⟨s, t, rfl, rfl⟩
    · rw [← h] at he
      exact absurd he (trust_mark _ s.property).1
  · rcases mark_cases e with ⟨t, rfl⟩ | he
    · rw [h] at hd
      exact absurd hd (trust_mark _ t.property).1
    · cases d with
      | trust s => exact absurd hd (trust_mark _ s.property).1
      | _ =>
        cases e with
        | trust t => exact absurd he (trust_mark _ t.property).1
        | _ => simp [mark] at h ⊢

theorem label_inj {d e : Domain} (h : d.label = e.label) : d = e := by
  have hmark := label_mark d []
  rw [h, label_mark] at hmark
  rcases mark_kind hmark.symm with ⟨s, t, rfl, rfl⟩ | ⟨s, t, rfl, rfl⟩ | rfl
  · rw [Subtype.ext (utf8_inj (List.append_cancel_left h))]
  · rw [utf8_inj (List.append_cancel_left h)]
  · rfl

theorem view_mark {d : Domain} (h : d.mark = certificateView.mark) : d = certificateView := by
  rcases mark_kind h with ⟨_, _, _, ht⟩ | ⟨_, _, _, ht⟩ | h
  · cases ht
  · cases ht
  · exact h

end Domain

/-! ## Messages -/

inductive Envelope where
  | receipt
  | checkpoint
  | exportManifest

def Envelope.payloadType : Envelope → String
  | receipt => receiptType
  | checkpoint => checkpointType
  | exportManifest => exportManifestType

theorem payloadType_inj {e f : Envelope} (h : e.payloadType = f.payloadType) : e = f := by
  cases e <;> cases f <;> first | rfl | exact absurd h (by decide)

inductive Purpose where
  | envelope (e : Envelope)
  | domain (d : Domain)
  | rotation
  | continuity

/-- What a detached signature covers: the document without its signature
members, under a domain. -/
def dsigMessage (X : Crates) (domain : Bytes) (doc : Value) : Option Bytes := do
  let m ← doc.asObject
  let canon ← canonicalIntegerChecked X (.object (m.filter fun p => !endsWith p.1 "_sig"))
  return domain ++ canon

/-- What the signature of a view covers: the CBOR of the view without its
signature members. -/
def viewMessage (view : Cbor.Value) : Option Bytes :=
  match view with
  | .map members =>
    (canonicalCbor (.map (members.filter fun p => !signatureMember p))).map fun body =>
      utf8 "evd/v1/certificate/view" ++ 0 :: body
  | _ => none

/-- The messages of a purpose: whatever bytes a check of that purpose could ask
a signature over. -/
def Message (X : Crates) : Purpose → Bytes → Prop
  | .envelope e, m => ∃ payload, m = pae e.payloadType payload
  | .domain (.trust d), m => ∃ payload, signedBytes X d.val payload = some m
  | .domain (.authority actionType), m => ∃ doc, dsigMessage X (dom actionType) doc = some m
  | .domain .passportTransfer, m => ∃ doc, dsigMessage X (utf8 "evd/v1/passport/transfer" ++ [0]) doc = some m
  | .domain .certificateView, m => ∃ view, viewMessage view = some m
  | .rotation, m => ∃ jwk key, keyFromJwk X jwk = some key ∧ canonicalChecked X jwk = some m
  | .continuity, m => ∃ item kl origin, continuityAdmissible X item kl origin = true ∧
      canonicalChecked X (item.index "body") = some m

/-! ### The checks ask for them -/

theorem dsigOk_message {pubkey : Digest} {domain : Bytes} {doc : Value} {sig : Option Value}
    (h : dsigOk X pubkey domain doc sig = true) :
    ∃ m raw, dsigMessage X domain doc = some m ∧ ed25519Verify X pubkey m raw = true := by
  unfold dsigOk at h
  split at h
  · rename_i _ m _ hm
    split at h
    · rename_i canon raw hcanon _
      exact ⟨domain ++ canon, raw, by simp [dsigMessage, hm, hcanon], h⟩
    · cases h
  · cases h

theorem verified_message {trust : Option Value} {category : String} {name : Option String} {domain : String}
    {payload : Value} (h : verified X trust category name domain payload = true) :
    ∃ key m sig, signedBytes X domain payload = some m ∧ ed25519Verify X key m sig = true := by
  unfold verified at h
  split at h
  · rename_i key sig m _ hproof
    simp only [signedProof, Option.bind_eq_bind, Option.pure_def] at hproof
    split at hproof
    · cases hproof
    · simp only [Option.bind_eq_some_iff, Option.some.injEq, Prod.mk.injEq] at hproof
      obtain ⟨sig', -, m', hm, rfl, rfl⟩ := hproof
      exact ⟨key, m', sig', hm, h⟩
  · cases h

theorem viewSigOk_message {view : Cbor.Value} {bundle : Value} (h : viewSigOk X view bundle = true) :
    ∃ k ∈ authorizedKeys X bundle false, ∃ m sig, viewMessage view = some m ∧ ed25519Verify X k.2 m sig = true := by
  unfold viewSigOk at h
  split at h
  · rename_i members sig _
    split at h
    · cases h
    · rename_i body hbody
      obtain ⟨k, hk, hsig⟩ := List.any_eq_true.mp h
      exact ⟨k, hk, _, sig, by rw [viewMessage, hbody, Option.map_some], hsig⟩
  · cases h

/-! ### Kinds -/

def firstByte : Purpose → UInt8
  | .envelope _ => 68
  | .domain _ => 101
  | .rotation => 123
  | .continuity => 123

theorem canonicalInteger_checked {v : Value} {a : Bytes} (h : canonicalIntegerChecked X v = some a) :
    numbersMatch X true v L1.Jcs.maxDepth = true ∧ canonicalChecked X v = some a := by
  unfold canonicalIntegerChecked at h
  split at h
  · rename_i hmatch
    exact ⟨hmatch, h⟩
  · cases h

/-- A message under a domain; the text behind the NUL holds none, except in the
CBOR of a view. -/
theorem domain_body (hX : WriterLaws X) (hE : Escaped X) {d : Domain} {m : Bytes} (h : Message X (.domain d) m) :
    ∃ body, m = d.label ++ 0 :: body ∧ (d = .certificateView ∨ (0 : UInt8) ∉ body) := by
  have hfree : ∀ {v : Value} {canon : Bytes}, canonicalIntegerChecked X v = some canon → (0 : UInt8) ∉ canon :=
    fun hcanon => canonical_nul_free hX hE (canonicalInteger_checked hcanon).2
  cases d with
  | trust d =>
    obtain ⟨payload, hm⟩ := h
    simp only [signedBytes, Option.bind_eq_bind, Option.bind_eq_some_iff, Option.pure_def, Option.some.injEq] at hm
    obtain ⟨members, -, canon, hcanon, rfl⟩ := hm
    exact ⟨canon, rfl, .inr (hfree hcanon)⟩
  | authority actionType =>
    obtain ⟨doc, hm⟩ := h
    simp only [dsigMessage, Option.bind_eq_bind, Option.bind_eq_some_iff, Option.pure_def, Option.some.injEq] at hm
    obtain ⟨members, -, canon, hcanon, rfl⟩ := hm
    exact ⟨canon, by simp [dom, Domain.label], .inr (hfree hcanon)⟩
  | passportTransfer =>
    obtain ⟨doc, hm⟩ := h
    simp only [dsigMessage, Option.bind_eq_bind, Option.bind_eq_some_iff, Option.pure_def, Option.some.injEq] at hm
    obtain ⟨members, -, canon, hcanon, rfl⟩ := hm
    exact ⟨canon, by simp [Domain.label], .inr (hfree hcanon)⟩
  | certificateView =>
    obtain ⟨view, hm⟩ := h
    unfold viewMessage at hm
    split at hm
    · obtain ⟨body, -, rfl⟩ := Option.map_eq_some_iff.mp hm
      exact ⟨body, rfl, .inl rfl⟩
    · cases hm

theorem domain_inj (hX : WriterLaws X) (hE : Escaped X) {d e : Domain} {m : Bytes} (h : Message X (.domain d) m)
    (h' : Message X (.domain e) m) : d = e := by
  obtain ⟨body, rfl, hbody⟩ := domain_body hX hE h
  obtain ⟨body', he, hbody'⟩ := domain_body hX hE h'
  have hmark := Domain.label_mark d (0 :: body)
  rw [he, Domain.label_mark] at hmark
  rcases hbody with rfl | hbody
  · exact (Domain.view_mark hmark).symm
  · rcases hbody' with rfl | hbody'
    · exact Domain.view_mark hmark.symm
    · exact Domain.label_inj (nul_split hbody hbody' he).1

/-! ### Canonical objects alone -/

theorem canonical_object {v : Value} {m : Bytes} (hobj : v.isObject = true) (h : canonicalChecked X v = some m) :
    m.head? = some 123 := by
  cases v with
  | object members =>
    simp only [canonicalChecked, L1.Jcs.writeValue] at h
    rw [if_neg (by decide)] at h
    obtain ⟨ms, -, rfl⟩ := Option.map_eq_some_iff.mp h
    rfl
  | _ => cases hobj

/-- A key is an object with a `kty`, which is what tells it from a signed
body. -/
theorem jwk_object {jwk : Value} {key : Digest × String} (h : keyFromJwk X jwk = some key) :
    ∃ members kty, jwk = .object members ∧ jwk.getStr "kty" = some kty := by
  unfold keyFromJwk at h
  obtain ⟨k, hk, -⟩ := Option.bind_eq_some_iff.mp h
  unfold jwkRawKey at hk
  obtain ⟨kty, hkty, -⟩ := Option.bind_eq_some_iff.mp hk
  cases jwk with
  | object members => exact ⟨members, kty, rfl, hkty⟩
  | _ => cases hkty

/-- The names of an admissible body, with the hash of the checkpoint in the
later version. -/
def bodyNames (issuerBound : Bool) : List String :=
  if issuerBound then "authority_checkpoint_hash" :: continuityMembers else continuityMembers

theorem lookup_mem {members : List (String × Value)} {k : String} (h : (members.lookup k).isSome = true) :
    k ∈ members.map Prod.fst := SortedMap.mem_keys.mpr h

/-- An admissible body has the names of its version and room for no others:
their number is the number of its members. -/
theorem admissible_body {item : Value} {kl : KeyLog} {origin : Option Value}
    (h : continuityAdmissible X item kl origin = true) :
    ∃ members issuerBound, item.index "body" = .object members ∧
      members.length = (bodyNames issuerBound).length ∧ bodyNames issuerBound ⊆ members.map Prod.fst := by
  unfold continuityAdmissible at h
  split at h
  · rename_i outer members _ hbody
    obtain ⟨body, hget, hobject⟩ := Option.bind_eq_some_iff.mp hbody
    have hindex : item.index "body" = .object members := by
      rw [Value.index, hget, Option.getD_some, Value.asObject_eq_some hobject]
    dsimp only at h
    split at h
    · simp only [Bool.and_eq_true, List.all_eq_true, beq_iff_eq] at h
      obtain ⟨⟨⟨⟨⟨⟨⟨⟨hauthority, -⟩, hlength⟩, hnames⟩, -⟩, -⟩, -⟩, -⟩, -⟩ := h
      have hkeys : continuityMembers ⊆ members.map Prod.fst := fun k hk => lookup_mem (hnames k hk)
      by_cases hbound : (members.lookup "schema").bind Value.asStr = some "evd/continuity/v2"
      · rw [if_pos hbound] at hlength
        rw [hbound, beq_self_eq_true] at hauthority
        refine ⟨members, true, hindex, hlength, List.cons_subset.mpr ⟨lookup_mem ?_, hkeys⟩⟩
        cases hhash : members.lookup "authority_checkpoint_hash" with
        | none =>
          rw [hhash] at hauthority
          cases hauthority
        | some v => rfl
      · rw [if_neg hbound] at hlength
        exact ⟨members, false, hindex, hlength, hkeys⟩
    · cases h
  · cases h

/-- No admissible body is a key: `kty` is none of its names, and it has no
others. -/
theorem admissible_kty {item : Value} {kl : KeyLog} {origin : Option Value}
    (h : continuityAdmissible X item kl origin = true) (kty : String) :
    (item.index "body").getStr "kty" ≠ some kty := by
  obtain ⟨members, issuerBound, hbody, hlength, hnames⟩ := admissible_body h
  rw [hbody]
  intro hkty
  obtain ⟨v, hv, -⟩ := Option.bind_eq_some_iff.mp hkty
  have hmem : "kty" ∈ members.map Prod.fst := lookup_mem (by rw [show members.lookup "kty" = some v from hv]; rfl)
  have hnodup : ("kty" :: bodyNames issuerBound).Nodup := by cases issuerBound <;> decide
  have hle := (List.subperm_of_subset hnodup (List.cons_subset.mpr ⟨hmem, hnames⟩)).length_le
  rw [List.length_cons, List.length_map] at hle
  omega

theorem rotation_not_continuity (hX : WriterLaws X) {m : Bytes} (h : Message X .rotation m)
    (h' : Message X .continuity m) : False := by
  obtain ⟨jwk, key, hkey, hcanon⟩ := h
  obtain ⟨item, kl, origin, hitem, hcanon'⟩ := h'
  obtain ⟨members, kty, rfl, hkty⟩ := jwk_object hkey
  obtain ⟨body, issuerBound, hbody, -⟩ := admissible_body hitem
  have hno := admissible_kty hitem kty
  rw [hbody] at hcanon' hno
  exact hno (canonical_getStr hX hcanon hcanon' hkty)

/-! ## Purposes -/

theorem message_head (hX : WriterLaws X) (hE : Escaped X) {p : Purpose} {m : Bytes} (h : Message X p m) :
    m.head? = some (firstByte p) := by
  cases p with
  | envelope e =>
    obtain ⟨payload, rfl⟩ := h
    rfl
  | domain d =>
    obtain ⟨body, rfl, -⟩ := domain_body hX hE h
    exact d.head_label _
  | rotation =>
    obtain ⟨jwk, key, hkey, hcanon⟩ := h
    obtain ⟨members, kty, rfl, -⟩ := jwk_object hkey
    exact canonical_object rfl hcanon
  | continuity =>
    obtain ⟨item, kl, origin, hitem, hcanon⟩ := h
    obtain ⟨members, issuerBound, hbody, -⟩ := admissible_body hitem
    rw [hbody] at hcanon
    exact canonical_object rfl hcanon

/-- A message has one purpose. The labels tell the kinds apart, and the length
tells the payload type. -/
theorem purpose_unique (hX : WriterLaws X) (hE : Escaped X) {p q : Purpose} {m : Bytes} (h : Message X p m)
    (h' : Message X q m) : p = q := by
  have hhead : firstByte p = firstByte q := by
    rw [← Option.some.injEq, ← message_head hX hE h, ← message_head hX hE h']
  cases p with
  | envelope e =>
    cases q with
    | envelope f =>
      obtain ⟨payload, rfl⟩ := h
      obtain ⟨payload', he⟩ := h'
      rw [payloadType_inj (pae_inj he).1]
    | _ => exact absurd hhead (by simp [firstByte])
  | domain d =>
    cases q with
    | domain e => rw [domain_inj hX hE h h']
    | _ => exact absurd hhead (by simp [firstByte])
  | rotation =>
    cases q with
    | rotation => rfl
    | continuity => exact (rotation_not_continuity hX h h').elim
    | _ => exact absurd hhead (by simp [firstByte])
  | continuity =>
    cases q with
    | continuity => rfl
    | rotation => exact (rotation_not_continuity hX h' h).elim
    | _ => exact absurd hhead (by simp [firstByte])

/-! ## Documents -/

/-- The members that `signed_bytes` covers: all but the signature and what ends
like one. -/
def coveredBySignedBytes (payload : Value) : Option (List (String × Value)) :=
  payload.asObject.map fun m => m.filter fun p => p.1 != "signature" && !endsWith p.1 "_sig"

/-- The members that `dsig_ok` covers: all but what ends like a signature. -/
def coveredByDsig (doc : Value) : Option (List (String × Value)) :=
  doc.asObject.map fun m => m.filter fun p => !endsWith p.1 "_sig"

/-- What two held objects keep is the same when it has the same text. Held
values read back from their canonical bytes. -/
theorem kept_unique (hX : WriterLaws X) {m n : List (String × Value)} (keep : String × Value → Bool)
    (hm : Held (.object m)) (hn : Held (.object n)) {canon : Bytes}
    (h : canonicalIntegerChecked X (.object (m.filter keep)) = some canon)
    (h' : canonicalIntegerChecked X (.object (n.filter keep)) = some canon) : m.filter keep = n.filter keep := by
  obtain ⟨hmatch, hcanon⟩ := canonicalInteger_checked h
  obtain ⟨hmatch', hcanon'⟩ := canonicalInteger_checked h'
  exact Value.object.inj (writeValue_inj hX ⟨held_filter keep hm, _, hmatch⟩ ⟨held_filter keep hn, _, hmatch'⟩ hcanon
    hcanon')

theorem signedBytes_covered (hX : WriterLaws X) {domain : String} {v w : Value} {m : Bytes} (hv : Held v)
    (hw : Held w) (h : signedBytes X domain v = some m) (h' : signedBytes X domain w = some m) :
    coveredBySignedBytes v = coveredBySignedBytes w := by
  simp only [signedBytes, Option.bind_eq_bind, Option.bind_eq_some_iff, Option.pure_def, Option.some.injEq] at h h'
  obtain ⟨members, hmembers, canon, hcanon, rfl⟩ := h
  obtain ⟨members', hmembers', canon', hcanon', he⟩ := h'
  obtain rfl := (List.cons.inj (List.append_cancel_left he)).2
  obtain rfl := Value.asObject_eq_some hmembers
  obtain rfl := Value.asObject_eq_some hmembers'
  exact congrArg some (kept_unique hX _ hv hw hcanon hcanon')

theorem dsigMessage_covered (hX : WriterLaws X) {domain : Bytes} {v w : Value} {m : Bytes} (hv : Held v)
    (hw : Held w) (h : dsigMessage X domain v = some m) (h' : dsigMessage X domain w = some m) :
    coveredByDsig v = coveredByDsig w := by
  simp only [dsigMessage, Option.bind_eq_bind, Option.bind_eq_some_iff, Option.pure_def, Option.some.injEq] at h h'
  obtain ⟨members, hmembers, canon, hcanon, rfl⟩ := h
  obtain ⟨members', hmembers', canon', hcanon', he⟩ := h'
  obtain rfl := List.append_cancel_left he
  obtain rfl := Value.asObject_eq_some hmembers
  obtain rfl := Value.asObject_eq_some hmembers'
  exact congrArg some (kept_unique hX _ hv hw hcanon hcanon')

/-- **Signed messages are unambiguous**: one type and payload, one purpose, and
under one domain one document. -/
theorem messages_separate (X : Crates) (hX : WriterLaws X) (hE : Escaped X) :
    (∀ s t p q, pae s p = pae t q → s = t ∧ p = q) ∧
    (∀ t p, L4.Scitt.pae t p = pae t p) ∧
    (∀ p q m, Message X p m → Message X q m → p = q) ∧
    (∀ domain v w m, Held v → Held w → signedBytes X domain v = some m → signedBytes X domain w = some m →
      coveredBySignedBytes v = coveredBySignedBytes w) ∧
    (∀ domain v w m, Held v → Held w → dsigMessage X domain v = some m → dsigMessage X domain w = some m →
      coveredByDsig v = coveredByDsig w) := by
  refine ⟨fun s t p q h => pae_inj h, scitt_pae, fun p q m h h' => purpose_unique hX hE h h', ?_, ?_⟩
  · intro domain v w m hv hw h h'
    exact signedBytes_covered hX hv hw h h'
  · intro domain v w m hv hw h h'
    exact dsigMessage_covered hX hv hw h h'

section
open SwarrmVerify.L1.Reference

theorem escape_control : ∀ n < 32, (0 : UInt8) ∉ escape (UInt8.ofNat n) := by decide

theorem escape_nul_free (b : UInt8) : (0 : UInt8) ∉ escape b := by
  by_cases hlow : b < 32
  · have hcontrol := escape_control b.toNat (UInt8.lt_iff_toNat_lt.mp hlow)
    rwa [UInt8.ofNat_toNat] at hcontrol
  · by_cases hq : b = 34
    · subst hq
      decide
    · by_cases hs : b = 92
      · subst hs
        decide
      · rw [escape_plain hlow hq hs, List.mem_singleton]
        rintro rfl
        exact hlow (by decide)

/-- Strings as `serde_json` escapes them hold no NUL, as it escapes every
control character. -/
theorem reference_escaped (known : List (Bytes × Digest)) (signed : List Signed) (values : List Value) :
    Escaped (reference known signed values) := by
  intro s hmem
  rcases List.mem_cons.mp hmem with h | h
  · cases h
  · rcases List.mem_append.mp h with h | h
    · obtain ⟨b, -, hb⟩ := List.mem_flatMap.mp h
      exact escape_nul_free b hb
    · cases List.mem_singleton.mp h

/-- The message of a receipt is none of a root's enrolment, though one key may
sign both. -/
theorem published_separate :
    Message L3.Published.crates (.envelope .receipt) (pae receiptType (text L3.Published.genesisCreated)) ∧
    ¬Message L3.Published.crates (.domain (.authority "authority.root.enrolled"))
      (pae receiptType (text L3.Published.genesisCreated)) := by
  have hreceipt : Message L3.Published.crates (.envelope .receipt)
      (pae receiptType (text L3.Published.genesisCreated)) := ⟨_, rfl⟩
  refine ⟨hreceipt, fun h => ?_⟩
  cases (messages_separate L3.Published.crates (reference_writerLaws _ _ _) (reference_escaped _ _ _)).2.2.1 _ _ _
    hreceipt h

end

end SwarrmVerify.L5.Messages

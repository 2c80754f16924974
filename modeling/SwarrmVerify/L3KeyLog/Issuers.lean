import SwarrmVerify.L3KeyLog.KeyRun
import SwarrmVerify.L1Encoding.Reference

/-!
# Who may make an issuer

An issuer key has a pedigree: it is the genesis key, or an entry that
introduces it carries a signature by an issuer of that moment, which has a
pedigree of its own. Roles never travel. A recorder or SCITT-issuer key was
created with that role, by an issuer, and rotation sets both flags to false.

"Active" is `keyActive` on the log as replayed up to the entry, which is how
the transitions of the replay ask for it. So a pedigree is a chain of entries
in the order of the log, and it ends, since each link is an earlier entry. A
later revocation of a sponsor takes nothing from the keys it has sponsored.

The invariant `Vouched` is carried along the run of the replay: every issuer
has a pedigree in the entries so far, and every role flag was granted. An entry
that inserts or replaces one key leaves the vouchers of the others
(`vouched_insert`).

**Results.**
* `vouched_run`: the invariant, over every run.
* `rotated_roleless`, `unsponsored_nonIssuer`: what a rotation, and a creation
  without an issuer's signature, leave.
* `issuer_pedigree`: all of it for `replayKeyLog`, from the entries alone.

The published log at the end, a genesis key, a deputy and a call, is the one
that most later results are shown on.
-/
namespace SwarrmVerify.L3.Issuers
open SwarrmVerify.L3.Receipt SwarrmVerify.L3.Keys SwarrmVerify.L3.KeyRun

variable {X : Crates}

/-- The kid names an issuer of the log `kl`, active at the entry's leaf and
time, and its signature on the entry's envelope verifies. -/
def IssuerSigned (X : Crates) (kl : KeyLog) (e : KeyEntry) (ts kid : String) : Prop :=
  (∃ st, kl.state.lookup kid = some st ∧ st.nonIssuer = false ∧ st.introduced.1 < e.leaf) ∧
    keyActive kl kid ts e.leaf = true ∧
    ∃ key, kl.keys.lookup kid = some key ∧ envSignedBy X e.env kid key = true

/-- The entry `p` of the log `l`, with the state the replay had reached there. -/
structure AppliedAt (X : Crates) (l : List (KeyEntry × Nat)) (p : KeyEntry × Nat) (c : KeyClaim)
    (kl : KeyLog) : Prop where
  at_ : ∃ pre post, l = pre ++ p :: post ∧ Replay.run (applyKeyEntry X) .empty pre = some kl
  claim : keyClaim X p.1 = some c

inductive Pedigree (X : Crates) (l : List (KeyEntry × Nat)) : String → Prop where
  | genesis {p : KeyEntry × Nat} {c : KeyClaim} (hfirst : l.head? = some p)
      (hc : keyClaim X p.1 = some c) (ha : c.action = "evd.key.created")
      (hself : envSignedBy X p.1.env c.kid c.material = true) : Pedigree X l c.kid
  | link {p : KeyEntry × Nat} {c : KeyClaim} {kl : KeyLog} {s : String} (hp : AppliedAt X l p c kl)
      (ha : c.action = "evd.key.created" ∧ c.ctx.getStr "role" = none ∨ c.action = "evd.key.rotated")
      (hs : Pedigree X l s) (hsig : IssuerSigned X kl p.1 c.ts s) : Pedigree X l c.kid

/-- The key was created with this role, under an active issuer's signature. -/
def Granted (X : Crates) (l : List (KeyEntry × Nat)) (kid role : String) : Prop :=
  ∃ p c kl s, AppliedAt X l p c kl ∧ c.kid = kid ∧ c.action = "evd.key.created" ∧
    c.ctx.getStr "role" = some role ∧ IssuerSigned X kl p.1 c.ts s

/-! ## Extending the log -/

theorem appliedAt_append {l : List (KeyEntry × Nat)} {p q : KeyEntry × Nat} {c : KeyClaim} {kl : KeyLog}
    (h : AppliedAt X l p c kl) : AppliedAt X (l ++ [q]) p c kl := by
  obtain ⟨⟨pre, post, rfl, hrun⟩, hc⟩ := h
  exact ⟨⟨pre, post ++ [q], by simp, hrun⟩, hc⟩

theorem appliedAt_last {l : List (KeyEntry × Nat)} {p : KeyEntry × Nat} {c : KeyClaim} {kl : KeyLog}
    (hrun : Replay.run (applyKeyEntry X) .empty l = some kl) (hc : keyClaim X p.1 = some c) :
    AppliedAt X (l ++ [p]) p c kl := ⟨⟨l, [], rfl, hrun⟩, hc⟩

theorem pedigree_append {l : List (KeyEntry × Nat)} {q : KeyEntry × Nat} {kid : String}
    (h : Pedigree X l kid) : Pedigree X (l ++ [q]) kid := by
  induction h with
  | genesis hfirst hc ha hself =>
    refine .genesis ?_ hc ha hself
    cases l with
    | nil => cases hfirst
    | cons x xs => exact hfirst
  | link hp ha _ hsig ih => exact .link (appliedAt_append hp) ha ih hsig

theorem granted_append {l : List (KeyEntry × Nat)} {q : KeyEntry × Nat} {kid role : String}
    (h : Granted X l kid role) : Granted X (l ++ [q]) kid role := by
  obtain ⟨p, c, kl, s, hp, hrest⟩ := h
  exact ⟨p, c, kl, s, appliedAt_append hp, hrest⟩

/-! ## One entry -/

theorem issuerSigned_of {kl : KeyLog} {e : KeyEntry} {ts kid : String} {key : Digest}
    (hact : keyActive kl kid ts e.leaf = true) (hkey : kl.keys.lookup kid = some key)
    (hsig : envSignedBy X e.env kid key = true) (hiss : nonIssuer kl kid = false) :
    IssuerSigned X kl e ts kid := by
  obtain ⟨st, t, hst, _, hlt, _⟩ := keyActive_iff.mp hact
  refine ⟨⟨st, hst, ?_, hlt⟩, hact, key, hkey, hsig⟩
  simpa [nonIssuer, hst] using hiss

/-- The issuer arm of the sponsorship scan names an issuer. -/
theorem signedByActiveKey_issuer {kl : KeyLog} {e : KeyEntry} {ts : String}
    (h : signedByActiveKey X e.env kl ts e.leaf true = true) : ∃ s, IssuerSigned X kl e ts s := by
  unfold signedByActiveKey at h
  obtain ⟨ss, _, h⟩ := (Option.any_eq_true _ _).mp h
  obtain ⟨sig, _, h⟩ := List.any_eq_true.mp h
  simp only [Bool.not_true, Bool.false_or, Bool.and_eq_true, Bool.not_eq_true'] at h
  obtain ⟨key, hkey, hsig⟩ := (Option.any_eq_true _ _).mp h.2
  exact ⟨_, issuerSigned_of h.1.2 hkey hsig h.1.1⟩

theorem sponsor_issuer {kl : KeyLog} {p : KeyEntry × Nat} {c : KeyClaim} (hpos : p.2 ≠ 0)
    (h : sponsor X kl p.2 p.1 c = some true) : ∃ s, IssuerSigned X kl p.1 c.ts s := by
  unfold sponsor at h
  rw [if_neg hpos] at h
  split at h
  · exact signedByActiveKey_issuer (Option.some.inj h)
  · cases h

theorem keyRoleOk_pos {pos : Nat} {action : String} {ctx : Value} {role : String}
    (h : keyRoleOk pos action ctx = true) (hr : ctx.getStr "role" = some role) : pos ≠ 0 := by
  obtain ⟨v, hv, hs⟩ := Option.bind_eq_some_iff.mp hr
  obtain rfl := Value.asStr_eq_some hs
  simp only [keyRoleOk, hv, Bool.and_eq_true, decide_eq_true_eq] at h
  omega

/-- Positions count the entries consumed before. -/
def Numbered (l : List (KeyEntry × Nat)) : Prop := ∀ (i : Nat) (p : KeyEntry × Nat), l[i]? = some p → p.2 = i

theorem numbered_zipIdx (es : List KeyEntry) : Numbered es.zipIdx := by
  intro i p h
  rw [List.getElem?_zipIdx] at h
  obtain ⟨e, _, rfl⟩ := Option.map_eq_some_iff.mp h
  simp

theorem numbered_append {l : List (KeyEntry × Nat)} {p : KeyEntry × Nat} (h : Numbered (l ++ [p])) :
    Numbered l ∧ p.2 = l.length := by
  constructor
  · intro i q hq
    obtain ⟨hi, _⟩ := List.getElem?_eq_some_iff.mp hq
    exact h i q (by rw [List.getElem?_append_left hi]; exact hq)
  · exact h l.length p (by simp)

/-! ## Whole replays -/

/-- Every issuer has a pedigree and every role flag was granted. -/
structure Vouched (X : Crates) (l : List (KeyEntry × Nat)) (kl : KeyLog) : Prop where
  issuer : ∀ kid st, kl.state.lookup kid = some st → st.nonIssuer = false → Pedigree X l kid
  recorder : ∀ kid st, kl.state.lookup kid = some st → st.recorder = true → Granted X l kid "recorder"
  scitt : ∀ kid st, kl.state.lookup kid = some st → st.scitt = true → Granted X l kid "scitt-issuer"

theorem vouched_append {l : List (KeyEntry × Nat)} {kl : KeyLog} (q : KeyEntry × Nat)
    (h : Vouched X l kl) : Vouched X (l ++ [q]) kl :=
  ⟨fun kid st hl hi => pedigree_append (h.issuer kid st hl hi),
    fun kid st hl hr => granted_append (h.recorder kid st hl hr),
    fun kid st hl hr => granted_append (h.scitt kid st hl hr)⟩

/-- Inserting or replacing one key: the others keep their vouchers. -/
theorem vouched_insert {l : List (KeyEntry × Nat)} {kl kl' : KeyLog} {kid : String} {st : KeyState}
    (h : Vouched X l kl) (hs : kl'.state = kl.state.insert kid st)
    (hi : st.nonIssuer = false → Pedigree X l kid) (hr : st.recorder = true → Granted X l kid "recorder")
    (hsc : st.scitt = true → Granted X l kid "scitt-issuer") : Vouched X l kl' := by
  refine ⟨?_, ?_, ?_⟩ <;> intro k st' hl hflag <;> rw [hs] at hl
  · rcases lookup_insert_cases hl with ⟨rfl, rfl⟩ | ⟨_, hl⟩
    · exact hi hflag
    · exact h.issuer k st' hl hflag
  · rcases lookup_insert_cases hl with ⟨rfl, rfl⟩ | ⟨_, hl⟩
    · exact hr hflag
    · exact h.recorder k st' hl hflag
  · rcases lookup_insert_cases hl with ⟨rfl, rfl⟩ | ⟨_, hl⟩
    · exact hsc hflag
    · exact h.scitt k st' hl hflag

theorem sponsor_genesis {kl : KeyLog} {e : KeyEntry} {c : KeyClaim} {b : Bool}
    (h : sponsor X kl 0 e c = some b) : envSignedBy X e.env c.kid c.material = true := by
  unfold sponsor at h
  rw [if_pos rfl] at h
  split at h
  · rename_i hs; exact hs
  · cases h

theorem vouched_step {l : List (KeyEntry × Nat)} {kl kl' : KeyLog} {p : KeyEntry × Nat}
    (hnum : Numbered (l ++ [p])) (hrun : Replay.run (applyKeyEntry X) .empty l = some kl)
    (h : Vouched X l kl) (hs : applyKeyEntry X kl p = some kl') : Vouched X (l ++ [p]) kl' := by
  obtain ⟨c, hc, hrole, ht⟩ := applyKeyEntry_cases hs
  have hpos := (numbered_append hnum).2
  have hlast := appliedAt_last hrun hc
  have hold := vouched_append p h
  cases ht with
  | created issuer ha hnew hsp hr =>
    -- a role is refused at position 0, so a role's sponsor is an issuer of the log
    have hgrant : ∀ role, c.ctx.getStr "role" = some role → Granted X (l ++ [p]) c.kid role := by
      intro role hro
      have hp : p.2 ≠ 0 := keyRoleOk_pos hrole hro
      rw [hr (by rw [hro]; rfl)] at hsp
      obtain ⟨s, hsig⟩ := sponsor_issuer hp hsp
      exact ⟨p, c, kl, s, hlast, rfl, ha, hro, hsig⟩
    refine vouched_insert hold rfl ?_ (fun hf => hgrant _ (eq_of_beq hf)) (fun hf => hgrant _ (eq_of_beq hf))
    intro hi
    simp only [Bool.or_eq_false_iff, Option.isSome_eq_false_iff, Option.isNone_iff_eq_none,
      Bool.not_eq_false'] at hi
    obtain ⟨hno, rfl⟩ := hi
    by_cases hp : p.2 = 0
    · have hnil : l = [] := List.length_eq_zero_iff.mp (by omega)
      subst hnil
      rw [hp] at hsp
      exact .genesis rfl hc ha (sponsor_genesis hsp)
    · obtain ⟨s, hsig⟩ := sponsor_issuer hp hsp
      obtain ⟨st, hst, hiss, _⟩ := hsig.1
      exact .link hlast (Or.inl ⟨ha, hno⟩) (hold.issuer s st hst hiss) hsig
  | rotated prevKid prev ha hnew hact hkey hsig =>
    refine vouched_insert hold rfl ?_ (fun hf => by cases hf) (fun hf => by cases hf)
    intro hi
    have hsigned := issuerSigned_of hact hkey hsig hi
    obtain ⟨st, hst, hiss, _⟩ := hsigned.1
    exact .link hlast (Or.inr ha) (hold.issuer prevKid st hst hiss) hsigned
  | revoked st eff _ hst =>
    exact vouched_insert hold rfl (hold.issuer _ st hst) (hold.recorder _ st hst) (hold.scitt _ st hst)

theorem vouched_run {l : List (KeyEntry × Nat)} {kl : KeyLog} (hnum : Numbered l)
    (h : Replay.run (applyKeyEntry X) .empty l = some kl) : Vouched X l kl := by
  refine Replay.run_history (P := fun l kl => Numbered l → Vouched X l kl) ?_ ?_ h hnum
  · intro _
    refine ⟨?_, ?_, ?_⟩ <;> intro kid st hl <;> cases hl
  · intro l kl p kl' hrun ih hs hn
    exact vouched_step hn hrun (ih (numbered_append hn).1) hs

/-- The state an entry gave its key lasts, but for a later revocation. -/
theorem applied_final {l : List (KeyEntry × Nat)} {kl fin : KeyLog} {p : KeyEntry × Nat} {c : KeyClaim}
    (h : AppliedAt X l p c kl) (hrun : Replay.run (applyKeyEntry X) .empty l = some fin) :
    ∃ kl', Transition X kl p c kl' ∧ Grows kl' fin := by
  obtain ⟨⟨pre, post, rfl, hpre⟩, hc⟩ := h
  obtain ⟨a, b, ha, hb, hfin⟩ := Replay.run_split hrun
  rw [hpre] at ha; cases ha
  obtain ⟨c', hc', _, ht⟩ := applyKeyEntry_cases hb
  rw [hc] at hc'; cases hc'
  exact ⟨b, ht, grows_run (step_sameKeys (explained_run hpre).sameKeys ht) hfin⟩

theorem rotated_roleless {l : List (KeyEntry × Nat)} {kl fin : KeyLog} {p : KeyEntry × Nat} {c : KeyClaim}
    (h : AppliedAt X l p c kl) (hrun : Replay.run (applyKeyEntry X) .empty l = some fin)
    (ha : c.action = "evd.key.rotated") :
    ∃ st, fin.state.lookup c.kid = some st ∧ st.recorder = false ∧ st.scitt = false := by
  obtain ⟨kl', ht, hg⟩ := applied_final h hrun
  cases ht with
  | created _ ha' => rw [ha] at ha'; exact absurd ha' (by decide)
  | rotated =>
    obtain ⟨st', hl, _, he⟩ := hg.state c.kid _ (AList.lookup_insert _)
    exact ⟨st', hl, by rw [he], by rw [he]⟩
  | revoked _ _ ha' => rw [ha] at ha'; exact absurd ha' (by decide)

theorem unsponsored_nonIssuer {l : List (KeyEntry × Nat)} {kl fin : KeyLog} {p : KeyEntry × Nat}
    {c : KeyClaim} (h : AppliedAt X l p c kl) (hrun : Replay.run (applyKeyEntry X) .empty l = some fin)
    (hi : Introduces c) (hpos : p.2 ≠ 0) (hno : ∀ s, ¬ IssuerSigned X kl p.1 c.ts s) :
    ∃ st, fin.state.lookup c.kid = some st ∧ st.nonIssuer = true := by
  obtain ⟨kl', ht, hg⟩ := applied_final h hrun
  cases ht with
  | created issuer _ _ hs =>
    obtain ⟨st', hl, _, he⟩ := hg.state c.kid _ (AList.lookup_insert _)
    refine ⟨st', hl, ?_⟩
    rw [he]
    cases issuer with
    | true =>
      obtain ⟨s, hsig⟩ := sponsor_issuer hpos hs
      exact absurd hsig (hno s)
    | false => simp
  | rotated prevKid prev _ _ hact hkey hsig =>
    obtain ⟨st', hl, _, he⟩ := hg.state c.kid _ (AList.lookup_insert _)
    refine ⟨st', hl, ?_⟩
    rw [he]
    by_contra hiss
    exact hno prevKid (issuerSigned_of hact hkey hsig (by simpa using hiss))
  | revoked _ _ ha' => rcases hi with hi | hi <;> rw [hi] at ha' <;> exact absurd ha' (by decide)

/-- **Issuer pedigree.** After an `ok` replay every issuer is the genesis key
or ends a finite chain of role-less creations and rotations, each signed by an
active issuer; role flags come from creation under an issuer only, rotation
never carries one, and a key whose introduction no issuer signed is none. -/
theorem issuer_pedigree (X : Crates) (entries : List Value) (h : (replayKeyLog X entries).ok = true) :
    (∀ kid st, (replayKeyLog X entries).state.lookup kid = some st → st.nonIssuer = false →
      Pedigree X (collectKeyEntries X entries).zipIdx kid) ∧
    (∀ kid st, (replayKeyLog X entries).state.lookup kid = some st →
      (st.recorder = true → Granted X (collectKeyEntries X entries).zipIdx kid "recorder") ∧
      (st.scitt = true → Granted X (collectKeyEntries X entries).zipIdx kid "scitt-issuer")) ∧
    (∀ p c kl, AppliedAt X (collectKeyEntries X entries).zipIdx p c kl → c.action = "evd.key.rotated" →
      ∃ st, (replayKeyLog X entries).state.lookup c.kid = some st ∧ st.recorder = false ∧
        st.scitt = false) ∧
    (∀ p c kl, AppliedAt X (collectKeyEntries X entries).zipIdx p c kl → Introduces c → p.2 ≠ 0 →
      (∀ s, ¬ IssuerSigned X kl p.1 c.ts s) →
      ∃ st, (replayKeyLog X entries).state.lookup c.kid = some st ∧ st.nonIssuer = true) := by
  obtain ⟨_, fin, hrun, he⟩ := replayKeyLog_ok h
  have hv := vouched_run (numbered_zipIdx _) hrun
  rw [he]
  refine ⟨hv.issuer, fun kid st hl => ⟨hv.recorder kid st hl, hv.scitt kid st hl⟩, ?_, ?_⟩
  · intro p c kl hp ha
    obtain ⟨st, hst⟩ := rotated_roleless hp hrun ha
    exact ⟨st, hst⟩
  · intro p c kl hp hi hpos hno
    obtain ⟨st, hst⟩ := unsponsored_nonIssuer hp hrun hi hpos hno
    exact ⟨st, hst⟩

end SwarrmVerify.L3.Issuers

/-! ## A published log

The issuer's side of a bundle: bodies signed into envelopes and checkpoints,
over the reference crates, and a small log made with it. Its keys are the
first two test keys of RFC 8032; its signatures and digests are genuine.

In the log the `genesis` key creates itself at leaf 0 and the `deputy` key at
leaf 1, the `deputy` revokes itself at leaf 2, and at leaf 3 the `genesis` key
signs a receipt of the agent `clerk`. Its checkpoints are at sizes 2 and 4. -/

namespace SwarrmVerify.L3.Published
open Sha256 SwarrmVerify.L1.Jcs SwarrmVerify.L1.Reference SwarrmVerify.L3.Receipt SwarrmVerify.L3.Keys

/-! ### Making receipts and checkpoints -/

def jwk (kid : String) (key : Bytes) : Value :=
  .object [("crv", .string "Ed25519"), ("kid", .string kid), ("kty", .string "OKP"),
    ("x", .string (b64urlEncode key))]

def body (agent action idempotencyKey : String) (seq : UInt64) (ts : String) (commitments context : Value) : Value :=
  .object [("action_type", .string action), ("agent_id", .string agent), ("commitments", commitments),
    ("context", context), ("idempotency_key", .string idempotencyKey), ("parents", .array []),
    ("schema", .string receiptSchema), ("seq", .number (.posInt seq)), ("tenant_id", .string "acme"),
    ("ts_client", .string ts), ("ts_server", .string ts)]

def keyBody (action idempotencyKey : String) (seq : UInt64) (ts : String) (key : Value) : Value :=
  body "_system" action idempotencyKey seq ts (.object []) (.object [("effective_ts", .string ts), ("jwk", key)])

def envelope (b : Value) (kid : String) (sig : Bytes) : Value :=
  .object [("payload", .string (b64Encode (text b))), ("payloadType", .string receiptType),
    ("signatures", .array [.object [("keyid", .string kid), ("sig", .string (b64Encode sig))]])]

def entry (leaf : UInt64) (env : Value) (proof : List Digest) : Value :=
  .object [("envelope", env), ("inclusion_proof", .array (proof.map fun d => .string (hex d.val))),
    ("leaf_index", .number (.posInt leaf))]

def checkpointBody (size : UInt64) (root : Digest) (ts prev : String) : Value :=
  .object [("origin", .string "evd://tenant/acme"), ("prev_hash", .string prev),
    ("root_hash", .string (hex root.val)), ("schema", .string "evd/checkpoint/v1"),
    ("tree_size", .number (.posInt size)), ("ts", .string ts)]

def checkpoint (b : Value) (kid : String) (sig : Bytes) : Value :=
  .object [("body", b), ("kid", .string kid), ("sig", .string (b64Encode sig))]

section
variable (known : List (Bytes × Digest)) (signed : List Signed) (values : List Value)

theorem payloadOf_envelope (b : Value) (kid : String) (sig : Bytes) :
    payloadOf (reference known signed values) (envelope b kid sig) = some (text b) :=
  reference_b64 known signed values (text b)

variable {values}

/-- A receipt the reader knows reads back. -/
theorem bodyOf_envelope (hd : (values.map text).Nodup) {b : Value} (hb : b ∈ values)
    (hw : (canonicalChecked blank b).isSome = true) (hp : promoteJcsIntegerLexemes b = b)
    (hv : receiptBodyValid b none = true) (kid : String) (sig : Bytes) :
    bodyOf (reference known signed values) (envelope b kid sig) = some b := by
  have hcanon : canonicalBody (reference known signed values) (text b) = some b := by
    unfold canonicalBody
    simp [fromSlice_text known signed hd hb, hp, canonicalChecked_reference known signed values hw]
  exact payload_body (payloadOf_envelope known signed values b kid sig) hcanon hv

end

/-! ### A small log -/

def digestOf (n : Nat) : Digest := ⟨bytesBE 32 n, bytesBE_length 32 n⟩

def genesis : Digest := digestOf 0xd75a980182b10ab7d54bfed3c964073a0ee172f3daa62325af021a68f707511a
def deputy : Digest := digestOf 0x3d4017c3e843895a92b70aa74d1b7ebc9c982ccf2ec4968cc0cd55f12af4660c

def genesisKid : String := "If4x36FUomFia_hU"
def deputyKid : String := "OfcT0KZEJT8EUpQh"

def genesisJwk : Value := jwk genesisKid genesis.val
def deputyJwk : Value := jwk deputyKid deputy.val

def genesisCreated : Value := keyBody "evd.key.created" "k1" 1 "2026-01-01T00:00:00Z" genesisJwk
def deputyCreated : Value := keyBody "evd.key.created" "k2" 2 "2026-01-01T00:00:01Z" deputyJwk
def deputyRevoked : Value := keyBody "evd.key.revoked" "k3" 3 "2026-01-01T00:00:02Z" deputyJwk

/-- The commitment of the clerk's prompt, over the domain `evd/v1/prompt`, the
nonce `01 02 .. 10` and the payload `no`, a zero byte, `yes`. -/
def promptCommitment : Digest := digestOf 0xe8429b8aba6af0c04a7a08fca3001e45b8450416e5bbf310d12ed938ec5aa455

def clerkCall : Value :=
  body "clerk" "llm.call" "c1" 1 "2026-01-01T00:00:03Z"
    (.object [("prompt", .string (hex promptCommitment.val))]) (.object [])

def genesisCreatedSig : Bytes :=
  bytesBE 64 0xd1cc33e5b10456fff01cc34753a9cdaf2af6bde9b93c1bbf689478ba84d28c6631926aaf1b5e6507eec9a2b4a9f911ae7bdd3d65b1c3b0d05680acbe29b75b00
def deputyCreatedSig : Bytes :=
  bytesBE 64 0x7674b671c72f543fe40719f89642b3ef7aa674c7ee93a729d4f55b804ecdc2a9007db4ab57eea6f8e7674b138cfbe344a77a93da71f9788fda68721367f3930f
def deputyRevokedSig : Bytes :=
  bytesBE 64 0x19731d4b47d982ca9ec6d8705a3baf7bd207185ec43e7d2a65786c3ea867de7a7d16715b1fb28730bdb027b1aeeab97ecda0f680468fd5fd3eeeec62d40fb401
def clerkCallSig : Bytes :=
  bytesBE 64 0xca08b07b41fe05314821faf0457d46c33151f8b5b0d5a8341162230cab18bbb72776a98f45c816a030fe0b15403a1926ce71dd2a00fd7f33f0a6c37b037a480a

/-- The receipt hashes, the leaf hashes over them and the nodes of the tree. -/
def receipt0 : Digest := digestOf 0x44018a321fff82f5977bfee407f68c19ab32228a2327e179f44908e1876acaab
def receipt1 : Digest := digestOf 0x8d77eea150b9ff7fb30ea48344f52cab5a3b6e1f388e6b1bc62e3add4cae317a
def receipt2 : Digest := digestOf 0x22e8c903d2625411090b22a0ce6541895c53dd69302a7adec36a59b7800f9ea9
def receipt3 : Digest := digestOf 0x6c3aba79fb994b1e04e004f0949efb909483a2337e08abdf701e0b75a6812e36
def leaf0 : Digest := digestOf 0x64eebbeb5a4b74159e073410ca057852ba1485f9cf3cf69c6cc01cdabcea411f
def leaf1 : Digest := digestOf 0xc051ae98329e156fa55da9f360e581588c0415fa2dcca58796af81511add768a
def leaf2 : Digest := digestOf 0x85cf33f7a8c96322df05c3c9e0d5d48d8e77982020b36600ae1ad204997594a7
def leaf3 : Digest := digestOf 0xb33b0bc886ecf5cc0676724ef043d76ba91a61096cdab116d7119a04b8f66a76
def root2 : Digest := digestOf 0x8a650b55e3c34c87856fa257fa226ddadab0cd48aaf440d77572c4862ae679e8
def right : Digest := digestOf 0x70b122ebc118be4144e57a68b2237d623b0036a0b0735b3e96c21a7f8e14705b
def root4 : Digest := digestOf 0xe30606704eab55a776d9fad36fd1b818cb8ab5b4a9fd87cc97227ba4e67942f6

def entry0 : Value := entry 0 (envelope genesisCreated genesisKid genesisCreatedSig) [leaf1, right]
def entry1 : Value := entry 1 (envelope deputyCreated genesisKid deputyCreatedSig) [leaf0, right]
def entry2 : Value := entry 2 (envelope deputyRevoked deputyKid deputyRevokedSig) [leaf3, root2]
def entry3 : Value := entry 3 (envelope clerkCall genesisKid clerkCallSig) [leaf2, root2]

def body2 : Value := checkpointBody 2 root2 "2026-01-01T00:00:01Z" ""
def body2Hash : Digest := digestOf 0xe89d75b80840bf16e209fbd0b3141338d5fb0991a6bff2b7e34bed6b0adfb270
def body4 : Value := checkpointBody 4 root4 "2026-01-01T00:00:03Z" (hex body2Hash.val)
def body4Hash : Digest := digestOf 0x7c88fa2cbedba311e1b4e6be42a0f05af051b589c7d3b7d98a97ff2a88df4e02

def body2Sig : Bytes :=
  bytesBE 64 0x2502990050536a65c6d5a0e21010c5e22a2dd88da277208cc3dec20b568de15c438aa0c1400486cf1a6dc5c843f518844fdccc20187082762eaabcbf984f1401
def body4Sig : Bytes :=
  bytesBE 64 0x1f90b492f1f066b78687a1de02e57798a87a500e402db57355e73b18d7930d29b902026d5160f2c76782d5b786925a00cfe2f81535bd88964d6febbc3e9c900d

def target : Value := checkpoint body4 genesisKid body4Sig

/-- A bundle of some entries of the log. -/
def bundle (entries : List Value) : Value :=
  .object [("checkpoint_chain", .array [.object [("checkpoint", checkpoint body2 genesisKid body2Sig)],
      .object [("checkpoint", target), ("consistency_from_prev", .array [.string (hex right.val)])]]),
    ("entries", .array entries), ("jwks", .object [("keys", .array [genesisJwk])]),
    ("origin", .string "evd://tenant/acme"), ("schema", .string "evd/bundle/v1"),
    ("target_checkpoint", target)]

/-- What a verifier of the log hashes, and the digests. -/
def known : List (Bytes × Digest) :=
  [(text genesisCreated, receipt0), (text deputyCreated, receipt1), (text deputyRevoked, receipt2),
    (text clerkCall, receipt3), (0x00 :: receipt0.val, leaf0), (0x00 :: receipt1.val, leaf1),
    (0x00 :: receipt2.val, leaf2), (0x00 :: receipt3.val, leaf3),
    (0x01 :: (leaf0.val ++ leaf1.val), root2), (0x01 :: (leaf2.val ++ leaf3.val), right),
    (0x01 :: (root2.val ++ right.val), root4), (text body2, body2Hash), (text body4, body4Hash),
    (genesis.val, digestOf 0x21fe31dfa154a261626bf854046fd2271b7bed4b6abe45aa58877ef47f9721b9),
    (deputy.val, digestOf 0x39f713d0a644253f04529421b9f51b9b08979d08295959c4f3990ee617f5139f)]

def signed : List Signed :=
  [⟨genesis, pae receiptType (text genesisCreated), genesisCreatedSig⟩,
    ⟨genesis, pae receiptType (text deputyCreated), deputyCreatedSig⟩,
    ⟨deputy, pae receiptType (text deputyRevoked), deputyRevokedSig⟩,
    ⟨genesis, pae receiptType (text clerkCall), clerkCallSig⟩,
    ⟨genesis, pae "application/vnd.evd.checkpoint.v1+json" (text body2), body2Sig⟩,
    ⟨genesis, pae "application/vnd.evd.checkpoint.v1+json" (text body4), body4Sig⟩]

def receipts : List Value := [genesisCreated, deputyCreated, deputyRevoked, clerkCall]

/-- The crates on this log. -/
def crates : Crates := reference known signed receipts

/-- The digests are genuine. -/
theorem known_digests : ∀ p ∈ known, sha256 p.1 = p.2 := by
  -- one evaluation for each digest
  simp only [known, List.forall_mem_cons, List.not_mem_nil, false_imp_iff, implies_true, and_true]
  refine ⟨?_, ?_, ?_, ?_, ?_, ?_, ?_, ?_, ?_, ?_, ?_, ?_, ?_, ?_, ?_⟩ <;> exact sha256_of_window (by decide +kernel)

/-- The digest at one place, for a log that shares it. -/
theorem known_digest (i : Nat) {m : Bytes} {d : Digest} (h : known[i]? = some (m, d)) : sha256 m = d :=
  known_digests (m, d) (List.mem_of_getElem? h)

theorem crates_sha256 : crates.sha256 = sha256 := reference_sha256 known signed _ known_digests

/-- The digests of the log tell apart what is hashed. -/
theorem known_collisionFree : CollisionFree crates (known.map Prod.fst) :=
  reference_collisionFree known signed _ known_digests (by decide +kernel)

theorem receipts_valid : (receipts.map text).Nodup ∧
    ∀ b ∈ receipts, (canonicalChecked blank b).isSome = true ∧ receiptBodyValid b none = true := by
  decide +kernel

theorem receipts_promoted : ∀ b ∈ receipts, promoteJcsIntegerLexemes b = b := by
  intro b hb
  simp only [receipts, List.mem_cons, List.not_mem_nil, or_false] at hb
  rcases hb with rfl | rfl | rfl | rfl <;> rfl

/-- Every receipt of the log reads back. -/
theorem bodyOf_receipt {b : Value} (hb : b ∈ receipts) (kid : String) (sig : Bytes) :
    bodyOf crates (envelope b kid sig) = some b := by
  obtain ⟨hw, hv⟩ := receipts_valid.2 b hb
  exact bodyOf_envelope known signed receipts_valid.1 hb hw (receipts_promoted b hb) hv kid sig

/-- The whole log. -/
def published : Value := bundle [entry0, entry1, entry2, entry3]

/-- The log without the entries about the `deputy`. -/
def withoutDeputy : Value := bundle [entry0, entry3]

/-- A receipt of the `_system` agent about a key. -/
def isKeyBody (b : Value) : Bool :=
  b.getStr "agent_id" == some "_system" && (b.getStr "action_type").any fun a => startsWith a "evd.key."

theorem keyEntry_entry {b : Value} (hb : b ∈ receipts) (leaf : UInt64) (kid : String) (sig : Bytes)
    (proof : List Digest) : keyEntry crates (entry leaf (envelope b kid sig) proof) =
      if isKeyBody b then some ⟨leaf, envelope b kid sig, b⟩ else none := by
  have hbody : bodyOf crates ((entry leaf (envelope b kid sig) proof).index "envelope") = some b :=
    bodyOf_receipt hb kid sig
  unfold keyEntry
  rw [hbody]
  rfl

/-- The key log of the published log. -/
def keyLog : List KeyEntry :=
  [⟨0, envelope genesisCreated genesisKid genesisCreatedSig, genesisCreated⟩,
    ⟨1, envelope deputyCreated genesisKid deputyCreatedSig, deputyCreated⟩,
    ⟨2, envelope deputyRevoked deputyKid deputyRevokedSig, deputyRevoked⟩]

theorem receipts_keyBodies : receipts.map isKeyBody = [true, true, true, false] := by decide +kernel

theorem keyEntries : [entry0, entry1, entry2, entry3].map (keyEntry crates) = keyLog.map some ++ [none] := by
  have h := receipts_keyBodies
  simp only [receipts, List.map_cons, List.map_nil, List.cons.injEq, and_true] at h
  obtain ⟨h0, h1, h2, h3⟩ := h
  simp only [List.map_cons, List.map_nil]
  rw [entry0, keyEntry_entry (by simp [receipts]), h0, entry1, keyEntry_entry (by simp [receipts]), h1,
    entry2, keyEntry_entry (by simp [receipts]), h2, entry3, keyEntry_entry (by simp [receipts]), h3]
  simp [keyLog]

/-- What is collected of some entries is what is collected of each. -/
theorem collectKeyEntries_eq (entries : List Value) :
    collectKeyEntries crates entries =
      ((entries.map (keyEntry crates)).filterMap id).insertionSort fun a b => a.leaf ≤ b.leaf := by
  rw [List.filterMap_map]
  rfl

theorem collectKeyEntries_published :
    collectKeyEntries crates [entry0, entry1, entry2, entry3] = keyLog := by
  rw [collectKeyEntries_eq, keyEntries]
  simp [keyLog]

theorem collectKeyEntries_withoutDeputy : collectKeyEntries crates [entry0, entry3] = keyLog.take 1 := by
  have h : [entry0, entry3].map (keyEntry crates) = (keyLog.take 1).map some ++ [none] := by
    have := keyEntries
    simp only [keyLog, List.map_cons, List.map_nil, List.cons_append, List.nil_append, List.cons.injEq] at this
    simp [keyLog, this]
  rw [collectKeyEntries_eq, h]
  simp [keyLog]

end SwarrmVerify.L3.Published

/-! ## A pedigree -/

namespace SwarrmVerify.L3.Issuers
open SwarrmVerify.L3.Receipt SwarrmVerify.L3.Keys

section
open SwarrmVerify.L3.Published

/-- The `deputy`, created by the `genesis` key, has a pedigree. -/
theorem issuer_pedigree_deputy :
    (replayKeyLog crates [entry0, entry1]).ok = true ∧
      Pedigree crates (collectKeyEntries crates [entry0, entry1]).zipIdx deputyKid := by
  have h : (replayKeyLog crates [entry0, entry1]).ok = true ∧
      ((replayKeyLog crates [entry0, entry1]).state.lookup deputyKid).map (·.nonIssuer) = some false := by
    decide +kernel
  obtain ⟨st, hst, hni⟩ := Option.map_eq_some_iff.mp h.2
  exact ⟨h.1, (issuer_pedigree crates [entry0, entry1] h.1).1 deputyKid st hst hni⟩

end

end SwarrmVerify.L3.Issuers

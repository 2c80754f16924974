import SwarrmVerify.L4Handshake.Schemas

/-!
# Envelopes and local context (`b28.rs`)

A document travels as a CWT: a tagged COSE_Sign1 whose payload holds the
profile and the document. What the verifier knows itself (challenger keys,
registered checkpoints, authority heads, the clock) comes in documents of its
own, and the root keys in a pinned trust pack. Nothing of the first kind is
believed before a key of the second kind has verified it, or a key that such a
document introduces.

Readers are in `Run`, with a refusal and a panic told apart. A local table is
given as a list that has to be sorted by its keys, which the source checks by
comparing each entry with the one before it.

**Results.**
* `inspectCwt_spec`: what an inspected envelope carries: a document of its
  schema, its kid and the canonical bytes of its core.
* `signedCwt_spec`, `rootCwt_spec`: what an envelope carries that a key of a
  table verified, and a root-signed one: the organisation it names is that of
  the anchor that verifies it.
* `parsePinnedTrustPack_spec`: a pinned anchor is the key of its kid and of its
  fingerprint.
* `inspectCwt_safe`, `parseLocalContext_safe` and the others: no bytes make a
  reader panic.
-/
namespace SwarrmVerify.L4.Handshake
open Panics SwarrmVerify.L1.CborWire SwarrmVerify.L3.Receipt

/-! ## Canonical CBOR -/

/-- Integer or text keys, and booleans: both kinds of documents go through one
codec.
mirrors verify-rs/src/b28.rs:70-71 -/
def cwtProfile : Profile := ⟨true, true⟩

def maxCborDepth : Nat := 64

def maxCborItems : Nat := 100000

/-- The canonical bytes of a value, if it has any within the depth of these
documents.
mirrors verify-rs/src/b28.rs:72-77 -/
def canonical (v : C) : Option Bytes := canonicalBytes v maxCborDepth cwtProfile

/-- A value within a cap, from bytes that are its canonical ones and nothing
more. The parser of the crate is a parameter.
mirrors verify-rs/src/b28.rs:78-86 -/
def decode (H : Host) (data : Bytes) (cap : Nat) : Option C := do
  if data.length > cap then none
  else
    let scanned ← structuralScan data maxCborDepth maxCborItems
    if scanned ≠ data.length then none
    else
      let (value, position) ← H.ciborium data
      if position ≠ data.length then none
      else
        let canon ← canonical value
        if canon = data then some value else none

/-! ## CWTs -/

/-- The value of an integer key. After decoding no key is there twice.
mirrors verify-rs/src/b28.rs:320-322 -/
def integer (m : List (C × C)) (key : Int) : Option C :=
  (m.find? fun e => match e.1 with
    | .integer n => n == key
    | _ => false).map Prod.snd

def isInteger (v : Option C) (n : Int) : Bool :=
  match v with
  | some (.integer m) => m == n
  | _ => false

/-- An envelope taken apart. The bytes of the core are kept beside its value, as
digests are over them.
mirrors verify-rs/src/b28.rs:323-330 -/
structure Cwt where
  core : C
  coreBytes : Bytes
  payload : Bytes
  protected_ : Bytes
  signature : Bytes
  kid : String

/-- The key id of a protected header that has the three parameters of the
profile and no others. -/
def headerKid (H : Host) (protected_ : Bytes) : Option String := do
  match ← decode H protected_ 4096 with
  | .map header =>
    if header.length ≠ 3 || !isInteger (integer header 1) (-8) || (integer header 3).bind text != some media then none
    else
      let raw ← (integer header 4).bind bytes
      let kid ← String.fromUTF8? ⟨raw.toArray⟩
      if kid == "" || (utf8 kid).length > 128 || !(utf8 kid).all (· < 128) then none else some kid
  | _ => none

/-- Only the two claims of the profile, so that nothing unread can be signed
along. -/
def claimKey (v : C) : Bool :=
  match v with
  | .integer n => n == 265 || n == -65537
  | _ => false

/-- The profile and the core of a payload, of which there is one each. -/
def payloadCore (H : Host) (payload : Bytes) : Option C := do
  match ← decode H payload maxCwt with
  | .map claims =>
    if claims.length ≠ 2 || !claims.all (fun e => claimKey e.1) then none
    else
      let name ← integer claims 265
      if !profileMatches (text name) then none else integer claims (-65537)
  | _ => none

/-- The parts of a COSE_Sign1. An unprotected header must be empty, as nothing
signs it. -/
def sign1Parts (H : Host) (body : Bytes) : Option Cwt := do
  match ← decode H body maxCwt with
  | .array [.bytes protected_, .map unprotected, .bytes payload, .bytes signature] =>
    if !unprotected.isEmpty || signature.length ≠ 64 then none
    else
      let kid ← headerKid H protected_
      let core ← payloadCore H payload
      let coreBytes ← canonical core
      some ⟨core, coreBytes, payload, protected_, signature, kid⟩
  | _ => none

/-- An envelope of a schema, taken apart and checked for shape. No signature is
looked at.
mirrors verify-rs/src/b28.rs:331-358 -/
def inspectCwt (H : Host) (raw : Bytes) (schema : Schema) : Run (Option Cwt) :=
  if raw.length > maxCwt || raw.head? != some 0xd2 then return none
  else do
    match sign1Parts H (← sliceOf raw 1 raw.length) with
    | none => return none
    | some cwt => return if ← validateCore H.toCrates cwt.core schema then some cwt else none

/-- A signature under a key of 32 bytes; a key of another length verifies
nothing.
mirrors verify-rs/src/b28.rs:359-367 -/
def verifyEd25519 (X : Crates) (key message signature : Bytes) : Bool :=
  (toDigest key).any fun k => ed25519Verify X k message signature

/-- What the signature of a CWT is over: the context, the protected header and
the payload, as the bytes they came in. -/
def signatureStructure (cwt : Cwt) : C :=
  .array [.text "Signature1", .bytes cwt.protected_, .bytes [], .bytes cwt.payload]

/-- The signature of an envelope under a key whose kid the envelope names.
mirrors verify-rs/src/b28.rs:368-371 -/
def cwtSignatureValid (X : Crates) (cwt : Cwt) (key : Bytes) : Bool :=
  (canonical (signatureStructure cwt)).any fun message =>
    cwt.kid == keyId X key && verifyEd25519 X key message cwt.signature

abbrev Keys := List (String × Bytes)

/-- An envelope of a schema, signed under one of the given keys: the one that
its header names.
mirrors verify-rs/src/b28.rs:372-376 -/
def signedCwt (H : Host) (raw : Bytes) (schema : Schema) (keys : Keys) : Run (Option Cwt) := do
  match ← inspectCwt H raw schema with
  | none => return none
  | some cwt => return if (keys.lookup cwt.kid).any (cwtSignatureValid H.toCrates cwt) then some cwt else none

/-- A root of the trust pack, by its fingerprint and its key.
mirrors verify-rs/src/b28.rs:395-398 -/
structure RootAnchor where
  fingerprint : Bytes
  key : Bytes
  deriving DecidableEq

abbrev Roots := List (String × RootAnchor)

/-- An envelope of a schema, signed under a root whose organisation it names as
its own.
mirrors verify-rs/src/b28.rs:428-434 -/
def rootCwt (H : Host) (raw : Bytes) (schema : Schema) (roots : Roots) : Run (Option Cwt) := do
  match ← inspectCwt H raw schema with
  | none => return none
  | some cwt =>
    match roots.lookup cwt.kid with
    | none => return none
    | some anchor =>
      if !cwtSignatureValid H.toCrates cwt anchor.key then return none
      else match plain cwt.core with
        | none => return none
        | some doc => return if bytes (← index doc "organisation_root") == some anchor.fingerprint then some cwt else none

/-! ## Local tables -/

section Tables

variable {κ ν : Type} [BEq κ]

def sortedLoop (fields : List String) (parse : Doc → Attempt (κ × ν)) :
    List C → List (κ × ν) → Attempt (List (κ × ν))
  | [], out => pure out
  | entry :: rest, out => do
    let doc ← OptionT.mk (pure (document entry none fields))
    let row ← parse doc
    if (out.lookup row.1).isNone then sortedLoop fields parse rest (out ++ [row]) else failure

/-- A local table: closed entries with strictly increasing keys, so that no key
is there twice.
mirrors verify-rs/src/b28.rs:402-413 -/
def sortedEntries (lt : κ → κ → Bool) (v : C) (fields : List String) (parse : Doc → Attempt (κ × ν)) :
    Attempt (List (κ × ν)) := do
  let entries ← OptionT.mk (pure (array v maxLocalItems))
  let out ← sortedLoop fields parse entries []
  if increasing lt (out.map Prod.fst) then pure out else failure

end Tables

/-- `<` on `Vec<u8>`: lexicographic in the bytes. -/
def bytesLt (a b : Bytes) : Bool := decide (byteOrder a < byteOrder b)

def textLt (a b : String) : Bool := decide (a < b)

/-- `<` on `(String, Vec<u8>)`: the first components decide, unless they are
equal. -/
def pairLt (a b : String × Bytes) : Bool := textLt a.1 b.1 || (a.1 == b.1 && bytesLt a.2 b.2)

def rootEntry (H : Host) (root : Doc) : Attempt (String × RootAnchor) := do
  let kid ← member root "kid" (bounded · 128)
  let fingerprint ← member root "organisation_root" (fixed · 32)
  let key ← member root "public_key" (fixed · 32)
  let raw ← OptionT.mk (pure (toDigest key))
  if kid == keyId H.toCrates key && fingerprint == (H.sha256 key).val && H.edKey raw then
    pure (kid, ⟨fingerprint, key⟩)
  else failure

/-- The roots of a trust pack whose digest is the pin. Without the pin nothing
of it is read.
mirrors verify-rs/src/b28.rs:414-427 -/
def parsePinnedTrustPack (H : Host) (raw pin : Bytes) : Attempt Roots := do
  if pin.length == 32 && pin == (H.sha256 raw).val && decide (raw.length ≤ maxCwt) then
    let value ← OptionT.mk (pure (decode H raw maxCwt))
    let doc ← OptionT.mk (pure (document value (some "swarrm-b28/trust-pack/v1") ["roots"]))
    let table ← member doc "roots" some
    let roots ← sortedEntries textLt table ["kid", "organisation_root", "public_key"] (rootEntry H)
    if !roots.isEmpty then pure roots else failure
  else failure

/-- A registered checkpoint: what a checkpoint of that digest must say. -/
structure Pin where
  tenant : String
  organisationRoot : Bytes
  sequence : Nat
  authorityRoot : Bytes
  logRoot : Bytes
  logSize : Nat
  deriving DecidableEq

/-- The head of an authority's log as it is known locally, to compare
checkpoints with. -/
structure Head where
  sequence : Nat
  authorityRoot : Bytes
  logRoot : Bytes
  logSize : Nat
  deriving DecidableEq

abbrev Checkpoints := List (Bytes × Pin)

abbrev Heads := List ((String × Bytes) × Head)

def keyEntry (H : Host) (entry : Doc) : Attempt (String × Bytes) := do
  let kid ← member entry "kid" (bounded · 128)
  let key ← member entry "public_key" (fixed · 32)
  let raw ← OptionT.mk (pure (toDigest key))
  if kid == keyId H.toCrates key && H.edKey raw then pure (kid, key) else failure

/-- The keys of a local document, under their own kids.
mirrors verify-rs/src/b28.rs:463-470 -/
def localKeys (H : Host) (v : C) : Attempt Keys := sortedEntries textLt v ["kid", "public_key"] (keyEntry H)

def checkpointEntry (entry : Doc) : Attempt (Bytes × Pin) := do
  let digest ← member entry "digest" (fixed · 32)
  let tenant ← member entry "tenant" (bounded · 128)
  let root ← member entry "organisation_root" (fixed · 32)
  let sequence ← member entry "sequence" uint
  let authorityRoot ← member entry "authority_root" (fixed · 32)
  let logRoot ← member entry "log_root" (fixed · 32)
  let logSize ← member entry "log_size" uint
  pure (digest, ⟨tenant, root, sequence, authorityRoot, logRoot, logSize⟩)

/-- The registered checkpoints of a local document, by digest.
mirrors verify-rs/src/b28.rs:471-477 -/
def checkpoints (v : C) : Attempt Checkpoints :=
  sortedEntries bytesLt v
    ["digest", "tenant", "organisation_root", "sequence", "authority_root", "log_root", "log_size"] checkpointEntry

def headEntry (entry : Doc) : Attempt ((String × Bytes) × Head) := do
  let tenant ← member entry "tenant" (bounded · 128)
  let root ← member entry "organisation_root" opaqueBytes
  let sequence ← member entry "sequence" uint
  let authorityRoot ← member entry "authority_root" (fixed · 32)
  let logRoot ← member entry "log_root" (fixed · 32)
  let logSize ← member entry "log_size" uint
  pure ((tenant, root), ⟨sequence, authorityRoot, logRoot, logSize⟩)

/-- The local heads, one for each tenant of an organisation.
mirrors verify-rs/src/b28.rs:478-484 -/
def heads (v : C) : Attempt Heads :=
  sortedEntries pairLt v ["tenant", "organisation_root", "sequence", "authority_root", "log_root", "log_size"] headEntry

/-- The relying party's own side of a presentation: keys, checkpoints, heads,
origin, policy and clock.
mirrors verify-rs/src/b28.rs:457 -/
structure PresentationLocal where
  challengerKeys : Keys
  checkpoints : Checkpoints
  heads : Heads
  origin : String
  maxActionLifetime : Nat
  now : Nat

/-- The relying party's own side of a refusal: both parties' keys and the clock.
mirrors verify-rs/src/b28.rs:458 -/
structure RefusalLocal where
  challengerKeys : Keys
  responderKeys : Keys
  now : Nat

inductive LocalContext where
  | presentation (ctx : PresentationLocal)
  | refusal (ctx : RefusalLocal)

/-- The local document for presentations. Every member is needed and none is
defaulted.
mirrors verify-rs/src/b28.rs:485-488 -/
def presentationContext (H : Host) (doc : Doc) : Attempt PresentationLocal := do
  let lifetime ← member doc "max_action_lifetime_s" fun v => (positive v).filter (· ≤ 300)
  let keys ← localKeys H (← member doc "challenger_keys" some)
  let registered ← checkpoints (← member doc "registered_checkpoints" some)
  let table ← heads (← member doc "authority_heads" some)
  let origin ← member doc "expected_admin_origin" (bounded · 2048)
  let now ← member doc "now" uint
  pure ⟨keys, registered, table, origin, lifetime, now⟩

/-- The local document for refusals. mirrors verify-rs/src/b28.rs:489-491 -/
def refusalContext (H : Host) (doc : Doc) : Attempt RefusalLocal := do
  let challengers ← localKeys H (← member doc "challenger_keys" some)
  let responders ← localKeys H (← member doc "responder_keys" some)
  let now ← member doc "now" uint
  pure ⟨challengers, responders, now⟩

def localFields : List String :=
  ["challenger_keys", "registered_checkpoints", "authority_heads", "expected_admin_origin", "max_action_lifetime_s",
    "now"]

def localRefusalFields : List String := ["challenger_keys", "responder_keys", "now"]

/-- The clock first, then the rest of a local document: a bad clock has a reason
of its own. -/
def localContext (doc : Doc) (rest : Attempt LocalContext) : Run (Except String LocalContext) := do
  if (uint (← index doc "now")).isNone then return .error "LOCAL_CLOCK_INVALID"
  else match ← rest.run with
    | none => return .error "VERIFIER_CONTEXT_INVALID"
    | some ctx => return .ok ctx

/-- The local document decides by its schema and members which of the two it is.
One that is neither is invalid.
mirrors verify-rs/src/b28.rs:492-507 -/
def parseLocalContext (H : Host) (raw : Bytes) : Run (Except String LocalContext) :=
  match decode H raw 65536 with
  | none => return .error "VERIFIER_CONTEXT_INVALID"
  | some v =>
    match document v (some "swarrm-b28/local-verifier-context/v1") localFields with
    | some doc => localContext doc (LocalContext.presentation <$> presentationContext H doc)
    | none =>
      match document v (some "swarrm-b28/local-refusal-context/v1") localRefusalFields with
      | some doc => localContext doc (LocalContext.refusal <$> refusalContext H doc)
      | none => return .error "VERIFIER_CONTEXT_INVALID"

def maxInput : Nat := 2 * 1024 * 1024

/-- The two envelopes of an exchange, as bytes; the exchange has no other
members. -/
def exchangeParts (H : Host) (exchange : Bytes) (second : String) : Attempt (Bytes × Bytes) := do
  let value ← OptionT.mk (pure (decode H exchange maxInput))
  let doc ← OptionT.mk (pure (document value none ["challenge", second]))
  let challenge ← member doc "challenge" bytes
  let answer ← member doc second bytes
  pure (challenge, answer)

/-- All that an evaluation of a presentation reads: the local side, the exchange
and the roots.
mirrors verify-rs/src/b28.rs:436-446 -/
structure InputContext extends PresentationLocal where
  challenge : Bytes
  presentation : Bytes
  roots : Roots

/-- The roots are put in once the trust pack is read; until then there are none.
mirrors verify-rs/src/b28.rs:508-512 -/
def parseInput (H : Host) (exchange : Bytes) (ctx : PresentationLocal) : Attempt InputContext := do
  let parts ← exchangeParts H exchange "presentation"
  pure { ctx with challenge := parts.1, presentation := parts.2, roots := [] }

/-- All that an evaluation of a refusal reads.
mirrors verify-rs/src/b28.rs:513-519 -/
structure RefusalContext extends RefusalLocal where
  challenge : Bytes
  refusal : Bytes

/-- A refusal is read with the challenge it answers.
mirrors verify-rs/src/b28.rs:520-524 -/
def parseRefusal (H : Host) (exchange : Bytes) (ctx : RefusalLocal) : Attempt RefusalContext := do
  let parts ← exchangeParts H exchange "refusal"
  pure { ctx with challenge := parts.1, refusal := parts.2 }

/-! ## What an envelope carries -/

section Envelopes

variable {H : Host} {raw : Bytes} {schema : Schema} {cwt : Cwt}

theorem sign1Parts_canonical {body : Bytes} (h : sign1Parts H body = some cwt) :
    canonical cwt.core = some cwt.coreBytes := by
  simp only [sign1Parts, Option.bind_eq_bind, Option.bind_eq_some_iff] at h
  obtain ⟨v, -, h⟩ := h
  split at h
  · split at h
    · cases h
    · simp only [Option.bind_eq_some_iff] at h
      obtain ⟨kid, -, core, -, coreBytes, hc, h⟩ := h
      cases h
      exact hc
  · cases h

theorem inspectCwt_safe : Safe (inspectCwt H raw schema) := by
  unfold inspectCwt
  split
  · exact safe_pure _
  · rename_i hno
    have hlen : 1 ≤ raw.length := by
      cases raw with
      | nil => simp at hno
      | cons b l => simp
    rw [sliceOf_of_le hlen (le_refl _)]
    refine Safe.bind (safe_ok _) fun body _ => ?_
    split
    · exact safe_pure _
    · exact (validateCore_safe _ _ _).bind fun _ _ => safe_pure _

/-- The document of an envelope, with its canonical bytes. It is what every
reading of an envelope gives. -/
structure Carries (X : Crates) (cwt : Cwt) (schema : Schema) (doc : Doc) : Prop where
  plain : plain cwt.core = some doc
  shape : (schema.shape X).Holds doc
  canonical : canonical cwt.core = some cwt.coreBytes

theorem inspectCwt_spec (h : inspectCwt H raw schema = .ok (some cwt)) : ∃ doc, Carries H.toCrates cwt schema doc := by
  unfold inspectCwt at h
  split at h
  · cases h
  · obtain ⟨body, -, h⟩ := bind_eq_ok.mp h
    split at h
    · cases h
    · rename_i c hc
      obtain ⟨b, hb, h⟩ := bind_eq_ok.mp h
      cases b with
      | false => cases h
      | true =>
        cases h
        obtain ⟨doc, hplain, hshape⟩ := validateCore_holds hb
        exact ⟨doc, hplain, hshape, sign1Parts_canonical hc⟩

theorem signedCwt_safe {keys : Keys} : Safe (signedCwt H raw schema keys) := by
  refine inspectCwt_safe.bind fun o _ => ?_
  cases o <;> exact safe_pure _

theorem signedCwt_spec {keys : Keys} (h : signedCwt H raw schema keys = .ok (some cwt)) :
    inspectCwt H raw schema = .ok (some cwt) ∧
      ∃ key, keys.lookup cwt.kid = some key ∧ cwtSignatureValid H.toCrates cwt key = true := by
  obtain ⟨o, ho, h⟩ := bind_eq_ok.mp h
  cases o with
  | none => cases h
  | some c =>
    dsimp only at h
    split at h
    · rename_i hv
      cases h
      exact ⟨ho, by simpa [Option.any_eq_true] using hv⟩
    · cases h

theorem rootCwt_safe {roots : Roots} (hroot : "organisation_root" ∈ (schema.shape H.toCrates).fields) :
    Safe (rootCwt H raw schema roots) := by
  refine inspectCwt_safe.bind fun o ho => ?_
  cases o with
  | none => exact safe_pure _
  | some c =>
    obtain ⟨doc, hc⟩ := inspectCwt_spec ho
    dsimp only
    split
    · exact safe_pure _
    · split
      · exact safe_pure _
      · rw [hc.plain]
        exact (index_safe (hc.shape.has _ hroot)).bind fun _ _ => safe_pure _

/-- A root-signed document names the organisation of the anchor that verifies
it, so no root speaks for another. -/
theorem rootCwt_spec {roots : Roots} (h : rootCwt H raw schema roots = .ok (some cwt)) :
    ∃ doc anchor, Carries H.toCrates cwt schema doc ∧ roots.lookup cwt.kid = some anchor ∧
      cwtSignatureValid H.toCrates cwt anchor.key = true ∧
      doc.lookup "organisation_root" = some (.bytes anchor.fingerprint) := by
  obtain ⟨o, ho, h⟩ := bind_eq_ok.mp h
  cases o with
  | none => cases h
  | some c =>
    obtain ⟨doc, hc⟩ := inspectCwt_spec ho
    dsimp only at h
    split at h
    · cases h
    · rename_i anchor hanchor
      split at h
      · cases h
      · rename_i hsig
        rw [hc.plain] at h
        obtain ⟨v, hv, h⟩ := bind_eq_ok.mp h
        split at h
        · rename_i hroot
          cases h
          refine ⟨doc, anchor, hc, hanchor, by simpa using hsig, ?_⟩
          rw [index_eq_ok.mp hv]
          cases v <;> simp_all [bytes]
        · cases h

end Envelopes

/-! ## What a local table holds -/

section Local

variable {κ ν : Type} [BEq κ]

theorem sortedLoop_yields {fields : List String} {parse : Doc → Attempt (κ × ν)} {P : κ × ν → Prop}
    (hp : ∀ doc : Doc, (∀ f ∈ fields, (doc.lookup f).isSome = true) → Yields (parse doc) P) (entries : List C) :
    ∀ out : List (κ × ν), (∀ r ∈ out, P r) → Yields (sortedLoop fields parse entries out) fun o => ∀ r ∈ o, P r := by
  induction entries with
  | nil => intro out hout; exact Yields.pure hout
  | cons entry rest ih =>
    intro out hout
    refine Yields.of.bind fun doc hdoc => (hp doc (document_eq_some hdoc).2.1).bind fun row hrow => ?_
    refine Yields.ite fun _ => ih _ fun r hr => ?_
    rcases List.mem_append.mp hr with hr | hr
    · exact hout r hr
    · rw [List.mem_singleton.mp hr]
      exact hrow

theorem sortedEntries_yields {lt : κ → κ → Bool} {v : C} {fields : List String} {parse : Doc → Attempt (κ × ν)}
    {P : κ × ν → Prop} (hp : ∀ doc : Doc, (∀ f ∈ fields, (doc.lookup f).isSome = true) → Yields (parse doc) P) :
    Yields (sortedEntries lt v fields parse) fun o => ∀ r ∈ o, P r :=
  Yields.of.bind fun entries _ => (sortedLoop_yields hp entries [] nofun).bind fun _ hout =>
    Yields.ite fun _ => Yields.pure hout

/-- An anchor is the key of its kid and of its fingerprint, both recomputed from
the key. -/
def AnchorOk (X : Crates) (r : String × RootAnchor) : Prop :=
  r.1 = keyId X r.2.key ∧ r.2.fingerprint = (X.sha256 r.2.key).val

theorem parsePinnedTrustPack_spec (H : Host) (raw pin : Bytes) :
    Yields (parsePinnedTrustPack H raw pin) fun roots => ∀ r ∈ roots, AnchorOk H.toCrates r := by
  refine Yields.ite fun _ => Yields.of.bind fun value _ => Yields.of.bind fun doc hdoc => ?_
  refine (Yields.member ((document_eq_some hdoc).2.1 "roots" (by simp))).bind fun table _ => ?_
  refine (sortedEntries_yields fun entry hhas => ?_).bind fun roots hroots => Yields.ite fun _ => Yields.pure hroots
  refine (Yields.member (hhas "kid" (by simp))).bind fun kid _ => ?_
  refine (Yields.member (hhas "organisation_root" (by simp))).bind fun fingerprint _ => ?_
  refine (Yields.member (hhas "public_key" (by simp))).bind fun key _ => Yields.of.bind fun raw _ => ?_
  refine Yields.ite fun hok => Yields.pure ?_
  simp only [Bool.and_eq_true, beq_iff_eq] at hok
  exact ⟨hok.1.1, hok.1.2⟩

theorem localKeys_yields (H : Host) (v : C) : Yields (localKeys H v) fun _ => True := by
  refine (sortedEntries_yields (P := fun _ => True) fun entry hhas => ?_).mono fun _ _ => trivial
  refine (Yields.member (hhas "kid" (by simp))).bind fun kid _ => ?_
  refine (Yields.member (hhas "public_key" (by simp))).bind fun key _ => Yields.of.bind fun raw _ => ?_
  exact Yields.ite fun _ => Yields.pure trivial

theorem checkpoints_yields (v : C) : Yields (checkpoints v) fun _ => True := by
  refine (sortedEntries_yields (P := fun _ => True) fun entry hhas => ?_).mono fun _ _ => trivial
  refine (Yields.member (hhas "digest" (by simp))).bind fun _ _ => ?_
  refine (Yields.member (hhas "tenant" (by simp))).bind fun _ _ => ?_
  refine (Yields.member (hhas "organisation_root" (by simp))).bind fun _ _ => ?_
  refine (Yields.member (hhas "sequence" (by simp))).bind fun _ _ => ?_
  refine (Yields.member (hhas "authority_root" (by simp))).bind fun _ _ => ?_
  refine (Yields.member (hhas "log_root" (by simp))).bind fun _ _ => ?_
  exact (Yields.member (hhas "log_size" (by simp))).bind fun _ _ => Yields.pure trivial

theorem heads_yields (v : C) : Yields (heads v) fun _ => True := by
  refine (sortedEntries_yields (P := fun _ => True) fun entry hhas => ?_).mono fun _ _ => trivial
  refine (Yields.member (hhas "tenant" (by simp))).bind fun _ _ => ?_
  refine (Yields.member (hhas "organisation_root" (by simp))).bind fun _ _ => ?_
  refine (Yields.member (hhas "sequence" (by simp))).bind fun _ _ => ?_
  refine (Yields.member (hhas "authority_root" (by simp))).bind fun _ _ => ?_
  refine (Yields.member (hhas "log_root" (by simp))).bind fun _ _ => ?_
  exact (Yields.member (hhas "log_size" (by simp))).bind fun _ _ => Yields.pure trivial

theorem presentationContext_yields (H : Host) {doc : Doc} (hhas : ∀ f ∈ localFields, (doc.lookup f).isSome = true) :
    Yields (presentationContext H doc) fun _ => True := by
  refine (Yields.member (hhas "max_action_lifetime_s" (by simp [localFields]))).bind fun _ _ => ?_
  refine (Yields.member (hhas "challenger_keys" (by simp [localFields]))).bind fun _ _ => ?_
  refine (localKeys_yields H _).bind fun _ _ => ?_
  refine (Yields.member (hhas "registered_checkpoints" (by simp [localFields]))).bind fun _ _ => ?_
  refine (checkpoints_yields _).bind fun _ _ => ?_
  refine (Yields.member (hhas "authority_heads" (by simp [localFields]))).bind fun _ _ => ?_
  refine (heads_yields _).bind fun _ _ => ?_
  refine (Yields.member (hhas "expected_admin_origin" (by simp [localFields]))).bind fun _ _ => ?_
  exact (Yields.member (hhas "now" (by simp [localFields]))).bind fun _ _ => Yields.pure trivial

theorem refusalContext_yields (H : Host) {doc : Doc}
    (hhas : ∀ f ∈ localRefusalFields, (doc.lookup f).isSome = true) : Yields (refusalContext H doc) fun _ => True := by
  refine (Yields.member (hhas "challenger_keys" (by simp [localRefusalFields]))).bind fun _ _ => ?_
  refine (localKeys_yields H _).bind fun _ _ => ?_
  refine (Yields.member (hhas "responder_keys" (by simp [localRefusalFields]))).bind fun _ _ => ?_
  refine (localKeys_yields H _).bind fun _ _ => ?_
  exact (Yields.member (hhas "now" (by simp [localRefusalFields]))).bind fun _ _ => Yields.pure trivial

end Local

theorem localContext_safe {doc : Doc} {rest : Attempt LocalContext} (hnow : (doc.lookup "now").isSome = true)
    (hrest : Safe rest.run) : Safe (localContext doc rest) := by
  refine (index_safe hnow).bind fun v _ => ?_
  split
  · exact safe_pure _
  · refine hrest.bind fun o _ => ?_
    cases o <;> exact safe_pure _

theorem parseLocalContext_safe (H : Host) (raw : Bytes) : Safe (parseLocalContext H raw) := by
  unfold parseLocalContext
  split
  · exact safe_pure _
  · split
    · rename_i doc hdoc
      have hhas := (document_eq_some hdoc).2.1
      refine localContext_safe (hhas "now" (by simp [localFields])) ?_
      simpa using (presentationContext_yields H hhas).safe
    · split
      · rename_i doc hdoc
        have hhas := (document_eq_some hdoc).2.1
        refine localContext_safe (hhas "now" (by simp [localRefusalFields])) ?_
        simpa using (refusalContext_yields H hhas).safe
      · exact safe_pure _

theorem exchangeParts_yields (H : Host) (exchange : Bytes) (second : String) :
    Yields (exchangeParts H exchange second) fun _ => True := by
  refine Yields.of.bind fun value _ => Yields.of.bind fun doc hdoc => ?_
  have hhas := (document_eq_some hdoc).2.1
  refine (Yields.member (hhas "challenge" (by simp))).bind fun _ _ => ?_
  exact (Yields.member (hhas second (by simp))).bind fun _ _ => Yields.pure trivial

end SwarrmVerify.L4.Handshake

import SwarrmVerify.L1Encoding.Json

/-!
# The crates behind the verifier

Everything the verifier calls outside its own repository, as one record of
functions: SHA-256 (`sha2`), Ed25519 (`ed25519-dalek`), base64 (`base64`), JSON
text (`serde_json`), ECMAScript number text (`ryu-js`) and X.509 / CMS
(`x509-cert`, `cms`, `der`). A result holds for every such record. One that
needs a property of a crate takes it as a named hypothesis.

SHA-256 is never assumed injective, which no function into 32 bytes is:
`CollisionFree X L` says that no two different byte strings of the list `L`
(the ones a run hashes) have the same digest.

`WriterLaws` is what canonicalisation relies on: a string is written with its
quotes, and read back from the front of any text; a finite number is written in
the bytes of numbers. `L1Encoding.Reference` fills the record in and meets
them.
-/
namespace SwarrmVerify

/-- An `ObjectIdentifier` by its dotted text. -/
abbrev Oid := String

/-- What the verifier reads of an `x509_cert::Certificate`. Names and keys
are compared, never inspected, so they are their DER bytes; `none` stands for
a value the crate cannot encode. -/
structure Certificate where
  der : Option Bytes
  tbsDer : Option Bytes
  subject : Bytes
  issuer : Bytes
  /-- `get::<BasicConstraints>()`: cA and pathLen -/
  basicConstraints : Option (Bool × Option UInt8)
  /-- `get::<KeyUsage>()`: keyCertSign -/
  keyCertSign : Option Bool
  /-- `get::<ExtendedKeyUsage>()`: critical and the purposes -/
  extendedKeyUsage : Option (Bool × List Oid)
  /-- every extension with its critical bit -/
  extensions : Option (List (Oid × Bool))
  notBefore : Nat
  notAfter : Nat
  deriving DecidableEq, Repr

/-- A `GeneralizedTime`: seconds since the epoch and its displayed text. -/
structure GeneralizedTime where
  unix : Nat
  text : String
  deriving DecidableEq, Repr

/-- A timestamp token: the imprint fields `parse_token` returns, and the
certificate of the signer whose signature over the signed attributes holds
(`check_signer_info`, `find_signer_cert`, `verify_sig`). -/
structure Token where
  alg : Oid
  digest : Bytes
  genTime : GeneralizedTime
  signer : Option Certificate
  deriving DecidableEq, Repr

structure Crates where
  sha256 : Bytes → Digest
  /-- `VerifyingKey::from_bytes` and `verify`; a key that does not decode
  verifies nothing -/
  ed25519 : Digest → Bytes → Bytes → Bool
  /-- `base64::STANDARD` -/
  b64Decode : String → Option Bytes
  b64Encode : Bytes → String
  /-- `base64::URL_SAFE_NO_PAD` -/
  b64urlDecode : String → Option Bytes
  b64urlEncode : Bytes → String
  /-- `serde_json::from_slice` -/
  fromSlice : Bytes → Option Value
  /-- `serde_json::to_writer` of a string -/
  writeStr : String → Bytes
  /-- `ryu_js::Buffer::format_finite` -/
  formatFinite : F64 → String
  parseToken : Bytes → Option Token
  /-- `Certificate::load_pem_chain` -/
  loadPemChain : String → Option (List Certificate)
  /-- `cert_sig_valid`: the first certificate's signature over the given
  to-be-signed bytes under the second's key -/
  certSigValid : Certificate → Certificate → Bytes → Bool

/-- No two different byte strings of `L` have the same SHA-256 digest. -/
def CollisionFree (X : Crates) (L : List Bytes) : Prop :=
  ∀ a ∈ L, ∀ b ∈ L, X.sha256 a = X.sha256 b → a = b

instance (X : Crates) (L : List Bytes) : Decidable (CollisionFree X L) :=
  inferInstanceAs (Decidable (∀ a ∈ L, ∀ b ∈ L, X.sha256 a = X.sha256 b → a = b))

theorem CollisionFree.mono {X : Crates} {L M : List Bytes} (h : CollisionFree X M) (hs : L ⊆ M) :
    CollisionFree X L :=
  fun a ha b hb => h a (hs ha) b (hs hb)

/-- A byte of an ECMAScript number text. -/
def numberByte (b : UInt8) : Bool :=
  (48 ≤ b && b ≤ 57) || b == 43 || b == 45 || b == 46 || b == 101

/-- A number text is not empty, starts with a digit or a minus sign and has
only digits, signs, a point and an exponent mark. -/
def NumberText (t : Bytes) : Prop :=
  (∃ b r, t = b :: r ∧ (48 ≤ b ∧ b ≤ 57 ∨ b = 45)) ∧ ∀ b ∈ t, numberByte b = true

/-- What canonicalisation relies on: a JSON string starts with a quote and a
reader finds its end and its content whatever follows, and finite numbers are
written as ECMAScript `Number::toString` writes them. -/
structure WriterLaws (X : Crates) : Prop where
  quote : ∀ s, ∃ r, X.writeStr s = 34 :: r
  read : ∃ read : Bytes → Option (String × Bytes), ∀ s r, read (X.writeStr s ++ r) = some (s, r)
  finite : ∀ f : F64, f.isFinite = true → NumberText (utf8 (X.formatFinite f))

theorem WriterLaws.str_inj {X : Crates} (h : WriterLaws X) {s t : String} {r r' : Bytes}
    (he : X.writeStr s ++ r = X.writeStr t ++ r') : s = t ∧ r = r' := by
  obtain ⟨read, hread⟩ := h.read
  have h1 := hread s r
  rw [he, hread t r'] at h1
  simp only [Option.some.injEq, Prod.mk.injEq] at h1
  exact ⟨h1.1.symm, h1.2.symm⟩

end SwarrmVerify

import SwarrmVerify.Core.Base64
import SwarrmVerify.Core.Sha256
import SwarrmVerify.L1Encoding.Jcs

/-!
# Reference crates

The `Crates` record filled in, so that the model runs on data. SHA-256 and
base64 are as their standards define them, and the JSON string writer is that
of `serde_json`. Two of the functions know a finite domain only: Ed25519
accepts a list of genuine signatures, and the JSON reader reads the canonical
text of a list of values. No float is formatted, and no timestamp token or
certificate is read.

Digests are looked up in a list that comes with its proofs. A digest is checked
over a window of the message schedule (`sha256_of_window`), which is what the
kernel can evaluate, and bundles that share receipts share these checks.

**Results.**
* `writeString_delimited`: a JSON string ends where its reader finds the end.
* `reference_writerLaws`: the reference crates meet the laws that
  canonicalisation relies on.
* `reference_sha256`, `reference_collisionFree`: known digests are digests, and
  where they differ they tell apart what they are digests of.
* `canonicalChecked_reference`, `fromSlice_text`: a value that is read was
  written.
-/
namespace SwarrmVerify.L1.Reference
open SwarrmVerify.L1.Jcs

/-! ## Strings -/

/-- `serde_json`'s escape of a control character: five have a letter. -/
def escapeControl (b : UInt8) : Bytes :=
  if b = 8 then [92, 98]
  else if b = 9 then [92, 116]
  else if b = 10 then [92, 110]
  else if b = 12 then [92, 102]
  else if b = 13 then [92, 114]
  else [92, 117, 48, 48, 48 + b / 16, if b % 16 < 10 then 48 + b % 16 else 87 + b % 16]

/-- `serde_json`'s escape of one byte of a string. -/
def escape (b : UInt8) : Bytes :=
  if b < 32 then escapeControl b
  else if b = 34 then [92, 34]
  else if b = 92 then [92, 92]
  else [b]

def writeString (s : String) : Bytes := 34 :: ((utf8 s).flatMap escape ++ [34])

/-- The byte an escape starts with and the rest. -/
def unescape : Bytes → Option (UInt8 × Bytes)
  | 92 :: 117 :: 48 :: 48 :: h :: l :: r =>
    some ((h - 48) * 16 + (if l < 97 then l - 48 else l - 87), r)
  | 92 :: c :: r =>
    some (if c = 98 then 8 else if c = 116 then 9 else if c = 110 then 10 else if c = 102 then 12
      else if c = 114 then 13 else c, r)
  | b :: r => some (b, r)
  | [] => none

theorem unescape_control (r : Bytes) : ∀ n < 32, unescape (escape (UInt8.ofNat n) ++ r) = some (UInt8.ofNat n, r) := by
  intro n hn
  interval_cases n <;> rfl

theorem escape_plain {b : UInt8} (hlow : ¬ b < 32) (hq : b ≠ 34) (hs : b ≠ 92) : escape b = [b] := by
  rw [escape, if_neg hlow, if_neg hq, if_neg hs]

theorem unescape_escape (b : UInt8) (r : Bytes) : unescape (escape b ++ r) = some (b, r) := by
  by_cases hlow : b < 32
  · have := unescape_control r b.toNat (UInt8.lt_iff_toNat_lt.mp hlow)
    rwa [UInt8.ofNat_toNat] at this
  · by_cases hq : b = 34
    · subst hq; rfl
    · by_cases hs : b = 92
      · subst hs; rfl
      · rw [escape_plain hlow hq hs]
        simp [unescape, hs]

/-- The closing quote starts no escape. -/
theorem escape_ne_quote (b : UInt8) (r t : Bytes) : escape b ++ r ≠ 34 :: t := by
  unfold escape
  split
  · unfold escapeControl
    repeat' split
    all_goals simp
  split
  · simp
  · rename_i hq
    split <;> simp [hq]

theorem escapes_delimited {x y : Bytes} {r t : Bytes}
    (h : x.flatMap escape ++ 34 :: r = y.flatMap escape ++ 34 :: t) : x = y ∧ r = t := by
  induction x generalizing y with
  | nil =>
    cases y with
    | nil => exact ⟨rfl, (List.cons.inj h).2⟩
    | cons b y =>
      rw [List.flatMap_cons, List.append_assoc] at h
      exact absurd h.symm (escape_ne_quote b _ _)
  | cons a x ih =>
    rw [List.flatMap_cons, List.append_assoc] at h
    cases y with
    | nil => exact absurd h (escape_ne_quote a _ _)
    | cons b y =>
      rw [List.flatMap_cons, List.append_assoc] at h
      have hread := congrArg unescape h
      rw [unescape_escape, unescape_escape, Option.some.injEq, Prod.mk.injEq] at hread
      obtain ⟨rfl, htail⟩ := hread
      obtain ⟨rfl, hr⟩ := ih htail
      exact ⟨rfl, hr⟩

theorem writeString_delimited {s t : String} {r r' : Bytes}
    (h : writeString s ++ r = writeString t ++ r') : s = t ∧ r = r' := by
  simp only [writeString, List.cons_append, List.append_assoc, List.nil_append, List.cons.injEq,
    true_and] at h
  obtain ⟨hs, hr⟩ := escapes_delimited h
  exact ⟨utf8_inj hs, hr⟩

/-! ## The crates -/

def sha256 (b : Bytes) : Digest := ⟨Sha256.digest b, Sha256.digest_length b⟩

def b64Encode (b : Bytes) : String := Octets.ascii (Base64.encode .standard b) (Base64.encode_ascii _ b)

def b64urlEncode (b : Bytes) : String := Octets.ascii (Base64.encode .urlSafe b) (Base64.encode_ascii _ b)

/-- Crates that know no signature, no JSON text, no token and no certificate. -/
def blank : Crates where
  sha256 := sha256
  ed25519 _ _ _ := false
  b64Decode t := Base64.decode .standard (utf8 t)
  b64Encode := b64Encode
  b64urlDecode t := Base64.decode .urlSafe (utf8 t)
  b64urlEncode := b64urlEncode
  fromSlice _ := none
  writeStr := writeString
  formatFinite _ := (0 : Nat).repr
  parseToken _ := none
  loadPemChain _ := none
  certSigValid _ _ _ := false

/-- A digest is checked over the window of the schedule. -/
theorem sha256_of_window {b : Bytes} {d : Digest} (h : Sha256.windowDigest b = d.val) : sha256 b = d := by
  rw [Sha256.windowDigest_eq] at h
  exact Subtype.ext h

/-- A genuine Ed25519 signature. -/
structure Signed where
  key : Digest
  message : Bytes
  sig : Bytes

/-- The canonical text of a value. -/
def text (v : Value) : Bytes := (canonicalChecked blank v).getD []

/-- The crates on the signatures and JSON values of some bundle, with some
digests known in advance. -/
def reference (known : List (Bytes × Digest)) (signed : List Signed) (values : List Value) : Crates :=
  { blank with
    sha256 := Sha256.memo known sha256
    ed25519 := fun k m s => signed.any fun t => decide (t.sig = s ∧ t.key = k ∧ t.message = m)
    fromSlice := fun b => values.find? fun v => text v = b }

/-! ## Canonical text depends on the writers only -/

theorem numberText_congr {X Y : Crates} (hf : X.formatFinite = Y.formatFinite) (n : Number) :
    numberText X n = numberText Y n := by
  simp only [numberText, hf]

theorem memberText_congr {X Y : Crates} (hs : X.writeStr = Y.writeStr) : memberText X = memberText Y := by
  funext m
  simp only [memberText, hs]

mutual
theorem writeValue_congr {X Y : Crates} (hs : X.writeStr = Y.writeStr)
    (hf : X.formatFinite = Y.formatFinite) : ∀ v l, writeValue X v l = writeValue Y v l
  | .null, l => rfl
  | .bool _, l => rfl
  | .string s, l => by simp only [writeValue, hs]
  | .number n, l => by simp only [writeValue, numberText_congr hf n]
  | .array xs, l => by simp only [writeValue, writeItems_congr hs hf xs]
  | .object m, l => by simp only [writeValue, writeMembers_congr hs hf m, memberText_congr hs]
theorem writeItems_congr {X Y : Crates} (hs : X.writeStr = Y.writeStr)
    (hf : X.formatFinite = Y.formatFinite) : ∀ xs l, writeItems X xs l = writeItems Y xs l
  | [], l => rfl
  | x :: xs, l => by simp only [writeItems, writeValue_congr hs hf x, writeItems_congr hs hf xs]
theorem writeMembers_congr {X Y : Crates} (hs : X.writeStr = Y.writeStr)
    (hf : X.formatFinite = Y.formatFinite) : ∀ m l, writeMembers X m l = writeMembers Y m l
  | [], l => rfl
  | (k, x) :: m, l => by simp only [writeMembers, writeValue_congr hs hf x, writeMembers_congr hs hf m]
end

/-! ## The reference crates -/

section
variable (known : List (Bytes × Digest)) (signed : List Signed) (values : List Value)

theorem reference_writerLaws : WriterLaws (reference known signed values) where
  quote s := ⟨_, rfl⟩
  read := by
    classical
    refine ⟨fun t => if h : ∃ p : String × Bytes, writeString p.1 ++ p.2 = t then some h.choose else none, ?_⟩
    intro s r
    have hex : ∃ p : String × Bytes, writeString p.1 ++ p.2 = writeString s ++ r := ⟨(s, r), rfl⟩
    have hp := writeString_delimited hex.choose_spec
    show (if h : ∃ p : String × Bytes, writeString p.1 ++ p.2 = writeString s ++ r then some h.choose
      else none) = some (s, r)
    rw [dif_pos hex, Option.some.injEq]
    exact Prod.ext hp.1 hp.2
  finite _ _ := numberText_repr 0

/-- Known digests are digests. -/
theorem reference_sha256 (h : ∀ p ∈ known, sha256 p.1 = p.2) :
    (reference known signed values).sha256 = sha256 := Sha256.memo_eq h

/-- Known digests that differ tell apart what they are digests of. -/
theorem reference_collisionFree (h : ∀ p ∈ known, sha256 p.1 = p.2) (hd : (known.map Prod.snd).Nodup) :
    CollisionFree (reference known signed values) (known.map Prod.fst) := by
  intro a ha b hb hab
  obtain ⟨p, hp, rfl⟩ := List.mem_map.mp ha
  obtain ⟨q, hq, rfl⟩ := List.mem_map.mp hb
  rw [reference_sha256 known signed values h, h p hp, h q hq] at hab
  rw [List.inj_on_of_nodup_map hd hp hq hab]

theorem reference_b64 (b : Bytes) :
    (reference known signed values).b64Decode (b64Encode b) = some b := Base64.decode_encode .standard b

theorem canonicalChecked_reference {v : Value} (h : (canonicalChecked blank v).isSome = true) :
    canonicalChecked (reference known signed values) v = some (text v) := by
  obtain ⟨b, hb⟩ := Option.isSome_iff_exists.mp h
  have hcongr : canonicalChecked (reference known signed values) v = canonicalChecked blank v :=
    writeValue_congr (X := reference known signed values) (Y := blank) rfl rfl v maxDepth
  rw [hcongr, text, hb, Option.getD_some]

variable {values}

/-- Among values of different texts, the text of one reads as it. -/
theorem fromSlice_text (hd : (values.map text).Nodup) {v : Value} (hv : v ∈ values) :
    (reference known signed values).fromSlice (text v) = some v := by
  show values.find? (fun u => text u = text v) = some v
  induction values with
  | nil => cases hv
  | cons u us ih =>
    rw [List.map_cons, List.nodup_cons] at hd
    rcases List.mem_cons.mp hv with rfl | hv
    · simp
    · have hne : text u ≠ text v := fun he => hd.1 (he ▸ List.mem_map_of_mem hv)
      rw [List.find?_cons_of_neg (by simpa using hne)]
      exact ih hd.2 hv

end

end SwarrmVerify.L1.Reference

import SwarrmVerify.L2Merkle.Proofs
import SwarrmVerify.L4Handshake.Envelopes

/-!
# Authority state (`b28.rs`)

The state of every object of an authority is a leaf of a Merkle tree: the key
of the object, its state, version and digest. A membership proof brings the
value, its position and the audit path. The size of the tree is the prover's,
so a position is one in a tree of the prover's size, and only the root is the
authority's.

`verify_state` evaluates all its conditions before it combines them, so that
none may panic even where another has failed. `stateChecks` is that list.

**Results.**
* `stateChecks_safe`, `verifyState_safe`: no proof, state or root makes the
  check panic.
* `verifyState_spec`: an accepted proof shows (`Shown`) a value with the key of
  the object, the state and the digest that were expected, a positive version,
  which is the expected one if there is one, and a position below the prover's
  size with a path from its leaf to the root.
* `verifyCounterHead_safe`, `verifyCounterHead_spec`: the same for the head of
  a counter, whose leaf holds its value.
-/
namespace SwarrmVerify.L4.Handshake
open Panics SwarrmVerify.L2.Merkle

/-- The digest of a core, over its canonical bytes and under a domain of its
own.
mirrors verify-rs/src/b28.rs:558-560 -/
def coreDigest (X : Crates) (core : Bytes) : Bytes := (X.sha256 (utf8 "swarrm-b28/core/v1" ++ 0 :: core)).val

/-- The key of an object in the authority's map. A NUL stands between the kind
and the identifier.
mirrors verify-rs/src/b28.rs:670-672 -/
def stateKey (X : Crates) (kind : String) (objectId : Bytes) : Bytes :=
  (X.sha256 (utf8 "swarrm-authority-state/v1" ++ 0 :: utf8 kind ++ 0 :: objectId)).val

def membershipSchema : String := "swarrm-b28/authority-membership-proof/v1"

def membershipFields : List String := ["key", "value", "index", "tree_size", "path"]

def stateFields : List String := ["key", "state", "version", "object_digest"]

/-- The hashes of a path, if all of them are hashes. -/
def siblings (path : List C) : Option (List Digest) := path.mapM fun i => (fixed i 32).bind toDigest

/-- What is hashed of a value of the map: a zero byte before it, so that no leaf
is a node. -/
def leafBytes (value : Bytes) : Bytes := 0 :: value

/-- What a membership proof says, and where it stands in the tree. -/
structure Position where
  value : C
  index : Nat
  size : Nat
  path : List C

/-- The conditions on a membership proof and its value, all evaluated before any
of them decides. -/
def stateChecks (proof value : Doc) (position : Position) (expectedKey digest : Bytes) (expectedState : String)
    (expectedVersion : Option Nat) : List (Run Bool) :=
  [pure (position.index < position.size), pure (position.path.length ≤ 64),
    do return bytes (← index proof "key") == some expectedKey,
    do return eqv (← index value "key") (← index proof "key"),
    do return text (← index value "state") == some expectedState,
    do return (positive (← index value "version")).isSome,
    match expectedVersion with
    | none => pure true
    | some version => do return uint (← index value "version") == some version,
    do return bytes (← index value "object_digest") == some digest]

/-- The position that a membership proof brings, if its members are of their
types. -/
def position (proof : Doc) : Run (Option Position) := do
  let value ← index proof "value"
  let i := uint (← index proof "index")
  let size := positive (← index proof "tree_size")
  match i, size, ← index proof "path" with
  | some i, some size, .array path => return some ⟨value, i, size, path⟩
  | _, _, _ => return none

/-- The value of a proof and its position lead to the root, by the path and in a
tree of that size. -/
def includes (X : Crates) (p : Position) (root : Bytes) : Bool :=
  match siblings p.path, canonical p.value with
  | some path, some value =>
    verifyInclusion X (X.sha256 (leafBytes value)).val (UInt64.ofNat p.index) (UInt64.ofNat p.size) path root
  | _, _ => false

/-- An object is in the map under its key, with the digest, the state and the
version that are expected of it.
mirrors verify-rs/src/b28.rs:674-685 -/
def verifyState (X : Crates) (proof : C) (root expectedKey digest : Bytes) (expectedState : String)
    (expectedVersion : Option Nat) : Run Bool :=
  match document proof (some membershipSchema) membershipFields with
  | none => return false
  | some proof => do
    match document (← index proof "value") none stateFields with
    | none => return false
    | some value =>
      match ← position proof with
      | none => return false
      | some p =>
        return (← eager (stateChecks proof value p expectedKey digest expectedState expectedVersion)) && includes X p root

/-- A counter is in the map under its key, at the given version or a later one.
mirrors verify-rs/src/b28.rs:686-691 -/
def verifyCounterHead (X : Crates) (proof : C) (root bindingId : Bytes) (minimumVersion : Nat) : Run Bool :=
  match document proof (some membershipSchema) membershipFields with
  | none => return false
  | some doc => do
    match document (← index doc "value") none stateFields with
    | none => return false
    | some value =>
      match positive (← index value "version"), fixed (← index value "object_digest") 32 with
      | some version, some digest => allOf [pure (minimumVersion ≤ version),
        verifyState X proof root (stateKey X "admin_counter" bindingId) digest "ACTIVE" (some version)]
      | _, _ => return false

/-- One log is a prefix of another, by a path of hashes of limited length.
mirrors verify-rs/src/b28.rs:692-695 -/
def verifyConsistencyProof (X : Crates) (v : C) (first second : Nat) (firstRoot secondRoot : Bytes) : Bool :=
  ((array v 64).bind siblings).any fun path =>
    verifyConsistency X (UInt64.ofNat first) (UInt64.ofNat second) firstRoot secondRoot path

/-! ## Accepted proofs -/

section Accepted

variable {X : Crates} {proof : C} {root expectedKey digest : Bytes} {expectedState : String}
  {expectedVersion : Option Nat}

theorem position_safe {doc : Doc} (h : ∀ k ∈ membershipFields, (doc.lookup k).isSome = true) : Safe (position doc) := by
  refine (index_safe (h "value" (by simp [membershipFields]))).bind fun v _ => ?_
  refine (index_safe (h "index" (by simp [membershipFields]))).bind fun i _ => ?_
  refine (index_safe (h "tree_size" (by simp [membershipFields]))).bind fun s _ => ?_
  refine (index_safe (h "path" (by simp [membershipFields]))).bind fun p _ => ?_
  split <;> exact safe_pure _

theorem stateChecks_safe {doc value : Doc} {p : Position} (h : ∀ k ∈ membershipFields, (doc.lookup k).isSome = true)
    (hv : ∀ k ∈ stateFields, (value.lookup k).isSome = true) :
    ∀ m ∈ stateChecks doc value p expectedKey digest expectedState expectedVersion, Safe m := by
  have hkey := h "key" (by simp [membershipFields])
  have hvkey := hv "key" (by simp [stateFields])
  have hstate := hv "state" (by simp [stateFields])
  have hversion := hv "version" (by simp [stateFields])
  have hdigest := hv "object_digest" (by simp [stateFields])
  simp only [stateChecks, List.forall_mem_cons]
  refine ⟨safe_pure _, safe_pure _, (index_safe hkey).bind fun _ _ => safe_pure _,
    (index_safe hvkey).bind fun _ _ => (index_safe hkey).bind fun _ _ => safe_pure _,
    (index_safe hstate).bind fun _ _ => safe_pure _, (index_safe hversion).bind fun _ _ => safe_pure _, ?_,
    (index_safe hdigest).bind fun _ _ => safe_pure _, List.forall_mem_nil _⟩
  split
  · exact safe_pure _
  · exact (index_safe hversion).bind fun _ _ => safe_pure _

theorem verifyState_safe : Safe (verifyState X proof root expectedKey digest expectedState expectedVersion) := by
  unfold verifyState
  split
  · exact safe_pure _
  · rename_i doc hdoc
    have hhas := (document_eq_some hdoc).2.1
    refine (index_safe (hhas "value" (by simp [membershipFields]))).bind fun v _ => ?_
    split
    · exact safe_pure _
    · rename_i value hvalue
      refine (position_safe hhas).bind fun o _ => ?_
      cases o with
      | none => exact safe_pure _
      | some p =>
        refine Safe.bind (eager_returns (stateChecks_safe hhas (document_eq_some hvalue).2.1)).safe fun _ _ => ?_
        exact safe_pure _

/-- The value of a membership proof that is accepted, at its position: all that
later proofs need of it. -/
structure Shown (X : Crates) (p : Position) (value : Doc) (root expectedKey digest : Bytes) (expectedState : String)
    (expectedVersion : Option Nat) : Prop where
  doc : plain p.value = some value
  key : value.lookup "key" = some (.bytes expectedKey)
  state : value.lookup "state" = some (.text expectedState)
  version : ∃ n, (value.lookup "version").bind uint = some n ∧ 0 < n ∧ ∀ m, expectedVersion = some m → n = m
  digest : value.lookup "object_digest" = some (.bytes digest)
  index_lt : p.index < p.size
  path_length : p.path.length ≤ 64
  included : includes X p root = true

theorem bytes_eq_some {v : C} {b : Bytes} : bytes v = some b ↔ v = .bytes b := by
  cases v <;> simp [bytes]

theorem text_eq_some {v : C} {s : String} : text v = some s ↔ v = .text s := by
  cases v <;> simp [text]

theorem eqv_bytes {v : C} {b : Bytes} : eqv v (.bytes b) = true ↔ v = .bytes b := by
  cases v <;> simp [eqv]

theorem position_value {doc : Doc} {p : Position} (h : position doc = .ok (some p)) :
    doc.lookup "value" = some p.value := by
  simp only [position, bind_eq_ok] at h
  obtain ⟨v, hv, i, -, s, -, path, -, h⟩ := h
  split at h
  · cases h
    exact index_eq_ok.mp hv
  · cases h

theorem verifyState_spec
    (h : verifyState X proof root expectedKey digest expectedState expectedVersion = .ok true) :
    ∃ doc p value, plain proof = some doc ∧ position doc = .ok (some p) ∧
      Shown X p value root expectedKey digest expectedState expectedVersion := by
  unfold verifyState at h
  split at h
  · cases h
  · rename_i doc hdoc
    obtain ⟨hplain, hhas, -⟩ := document_eq_some hdoc
    obtain ⟨v, hv, h⟩ := bind_eq_ok.mp h
    split at h
    · cases h
    · rename_i value hvalue
      obtain ⟨hvplain, hvhas, -⟩ := document_eq_some hvalue
      obtain ⟨o, ho, h⟩ := bind_eq_ok.mp h
      cases o with
      | none => cases h
      | some p =>
        obtain ⟨b, hb, h⟩ := bind_eq_ok.mp h
        have hand : b = true ∧ includes X p root = true := by
          have : (b && includes X p root) = true := Except.ok.inj h
          simpa using this
        obtain ⟨b', hb', hall⟩ :=
          eager_returns (@stateChecks_safe expectedKey digest expectedState expectedVersion doc value p hhas hvhas)
        rw [hb] at hb'
        cases hb'
        have hchecks := hall hand.1
        simp only [stateChecks, List.forall_mem_cons, bind_eq_ok] at hchecks
        obtain ⟨hlt, hlen, ⟨k, hk, hke⟩, ⟨k', hk', k'', hk'', hkk⟩, ⟨s, hs, hse⟩, ⟨n, hn, hne⟩, hversion,
          ⟨d, hd, hde⟩, -⟩ := hchecks
        have hpv := position_value ho
        rw [index_eq_ok.mp hv] at hpv
        cases hpv
        rw [index_eq_ok] at hk hk' hk'' hs hn hd
        rw [hk] at hk''
        cases hk''
        have hkey : k = .bytes expectedKey := bytes_eq_some.mp (by simpa using Except.ok.inj hke)
        subst hkey
        have hkey' : k' = .bytes expectedKey := eqv_bytes.mp (Except.ok.inj hkk)
        subst hkey'
        obtain ⟨n', hn'⟩ := Option.isSome_iff_exists.mp (Except.ok.inj hne)
        obtain ⟨hn', hpos⟩ := Option.filter_eq_some_iff.mp hn'
        refine ⟨doc, p, value, hplain, ho, ⟨hvplain, hk', ?_, ⟨n', ?_, by simpa using hpos, ?_⟩, ?_,
          by simpa using Except.ok.inj hlt, by simpa using Except.ok.inj hlen, hand.2⟩⟩
        · have : s = .text expectedState := text_eq_some.mp (by simpa using Except.ok.inj hse)
          rw [hs, this]
        · rw [hn]
          exact hn'
        · intro m hm
          subst hm
          obtain ⟨w, hw, hwe⟩ := bind_eq_ok.mp hversion
          rw [index_eq_ok, hn] at hw
          cases hw
          have : uint n = some m := by simpa using Except.ok.inj hwe
          rw [hn'] at this
          exact Option.some.inj this
        · have : d = .bytes digest := bytes_eq_some.mp (by simpa using Except.ok.inj hde)
          rw [hd, this]

theorem verifyCounterHead_safe {bindingId : Bytes} {minimumVersion : Nat} :
    Safe (verifyCounterHead X proof root bindingId minimumVersion) := by
  unfold verifyCounterHead
  split
  · exact safe_pure _
  · rename_i doc hdoc
    refine (index_safe ((document_eq_some hdoc).2.1 "value" (by simp [membershipFields]))).bind fun v _ => ?_
    split
    · exact safe_pure _
    · rename_i value hvalue
      have hhas := (document_eq_some hvalue).2.1
      refine (index_safe (hhas "version" (by simp [stateFields]))).bind fun n _ => ?_
      refine (index_safe (hhas "object_digest" (by simp [stateFields]))).bind fun d _ => ?_
      split
      · exact allOf_cons_safe (safe_pure _) fun _ => allOf_cons_safe verifyState_safe fun _ => allOf_nil_safe
      · exact safe_pure _

theorem verifyCounterHead_spec {bindingId : Bytes} {minimumVersion : Nat}
    (h : verifyCounterHead X proof root bindingId minimumVersion = .ok true) :
    ∃ version digest, minimumVersion ≤ version ∧
      verifyState X proof root (stateKey X "admin_counter" bindingId) digest "ACTIVE" (some version) = .ok true := by
  unfold verifyCounterHead at h
  split at h
  · cases h
  · obtain ⟨v, -, h⟩ := bind_eq_ok.mp h
    split at h
    · cases h
    · obtain ⟨n, -, h⟩ := bind_eq_ok.mp h
      obtain ⟨d, -, h⟩ := bind_eq_ok.mp h
      split at h
      · rename_i version digest _ _
        have hall := allOf_eq_true.mp h
        simp only [List.forall_mem_cons] at hall
        exact ⟨version, digest, by simpa using Except.ok.inj hall.1, hall.2.1⟩
      · cases h

end Accepted

end SwarrmVerify.L4.Handshake

import Mathlib.Data.List.AList
import SwarrmVerify.Core.Replay
import SwarrmVerify.L3KeyLog.Receipt

/-!
# The key log (`lib.rs`)

Keys enter and leave through receipts of the `_system` agent: `evd.key.created`,
`evd.key.rotated` and `evd.key.revoked`. `replayKeyLog` collects them from the
bundle's entries, orders them by leaf and applies them one by one; a refused
entry ends the replay with `ok = false` and the state reached so far.

A `BTreeMap` is an `AList`: both hold one value a key, and nothing here depends
on the order of iteration. The source indexes `kl.keys[kid]` only after
`key_active` has found `kid` in the state, and both maps always have the same
keys (`step_sameKeys`), so the lookup cannot fail; `L3KeyLog.InPlace` has it as
it is written.

The replay is a run of a step over the entries, which is what every invariant
of the key log is carried along (`Replay.run_history`).

* `applyKeyEntry_cases`: everything one entry can do to the log, guards
  included. No later proof unfolds a transition.
* `keyEntries_seq`: the sequence is dense: the entry at position `i` has number
  `i + 1`.
* `replayKeyLog_ok`: a replay is `ok` exactly if the run of all entries is.
-/
namespace SwarrmVerify.L3.Keys
open SwarrmVerify.L3.Receipt

abbrev Table (α : Type) := AList fun _ : String => α

/-- What is known of a key besides its bytes: where and when it came in, when it
was revoked, and what it may do.
mirrors verify-rs/src/lib.rs:304-311 -/
structure KeyState where
  introduced : UInt64 × Int
  revokedAt : Option (UInt64 × String)
  nonIssuer : Bool
  recorder : Bool
  /-- created with the constrained SCITT-issuer role -/
  scitt : Bool
  deriving DecidableEq

/-- The keys of a log by their ids, with their states. It is only worth
something if the replay went through.
mirrors verify-rs/src/lib.rs:315-319 -/
structure KeyLog where
  keys : Table Digest
  state : Table KeyState
  ok : Bool

/-- `KeyLog::default()`. -/
def KeyLog.empty : KeyLog := ⟨∅, ∅, false⟩

/-- A receipt of the key log with its leaf index. -/
structure KeyEntry where
  leaf : UInt64
  env : Value
  body : Value

/-! ## Collecting -/

/-- The key-log entry an element of `entries` is, if any. A missing leaf index
reads as 0.
mirrors verify-rs/src/lib.rs:339-348 -/
def keyEntry (X : Crates) (e : Value) : Option KeyEntry := do
  let body ← bodyOf X (e.index "envelope")
  let isSys := body.getStr "agent_id" == some "_system"
  let isKey := (body.getStr "action_type").any fun a => startsWith a "evd.key."
  if isSys && isKey then some ⟨(e.getU64 "leaf_index").getD 0, e.index "envelope", body⟩ else none

/-- The entries about keys in the order of their leaves; the sort is stable.
mirrors verify-rs/src/lib.rs:336-351 -/
def collectKeyEntries (X : Crates) (entries : List Value) : List KeyEntry :=
  (entries.filterMap (keyEntry X)).insertionSort fun a b => a.leaf ≤ b.leaf

def actionOf (e : KeyEntry) : Option String := e.body.getStr "action_type"

def seqOf (e : KeyEntry) : Int := (e.body.getI64 "seq").getD (-1)

/-- A genesis `evd.key.created` at leaf 0 and the sequence 1, 2, 3, ...
mirrors verify-rs/src/lib.rs:353-368 -/
def keyEntriesWellFormed : List KeyEntry → Bool
  | [] => false
  | first :: rest =>
    first.leaf == 0 && actionOf first == some "evd.key.created" &&
      (first :: rest).zipIdx.all fun e => seqOf e.1 == (e.2 : Int) + 1

/-! ## Authority -/

/-- A key counts in a tree larger than the leaf it came in at from its time on,
and not beyond its revocation in either.
mirrors verify-rs/src/lib.rs:370-374 -/
def keyActive (kl : KeyLog) (kid at_ : String) (observedSize : UInt64) : Bool :=
  match kl.state.lookup kid, utcEpochMicros at_ with
  | some state, some t =>
    decide (state.introduced.1 < observedSize) && decide (state.introduced.2 ≤ t) &&
      state.revokedAt.all fun r =>
        decide (observedSize ≤ r.1) && (utcEpochMicros r.2).any fun revoked => decide (t ≤ revoked)
  | _, _ => false

/-- The log marks this kid as no issuer; an unknown kid is not marked. -/
def nonIssuer (kl : KeyLog) (kid : String) : Bool := (kl.state.lookup kid).any (·.nonIssuer)

/-- Some signature of an envelope is by a key that is active there and, if
asked, may issue.
mirrors verify-rs/src/lib.rs:381-388 -/
def signedByActiveKey (X : Crates) (env : Value) (kl : KeyLog) (ts : String) (observedSize : UInt64)
    (issuerOnly : Bool) : Bool :=
  (env.getArray "signatures").any fun ss =>
    ss.any fun s =>
      let kid := (s.getStr "keyid").getD ""
      (!issuerOnly || !nonIssuer kl kid) && keyActive kl kid ts observedSize &&
        (kl.keys.lookup kid).any fun key => envSignedBy X env kid key

/-- A role is only for a created key that is not the genesis.
mirrors verify-rs/src/lib.rs:390-396 -/
def keyRoleOk (pos : Nat) (action : String) (ctx : Value) : Bool :=
  match ctx.get "role" with
  | none => true
  | some .null => true
  | some (.string role) =>
    decide (0 < pos) && action == "evd.key.created" && (role == "recorder" || role == "scitt-issuer")
  | some _ => false

/-! ## Transitions -/

/-- What an entry says: the fields the loop reads before it dispatches. -/
structure KeyClaim where
  action : String
  ctx : Value
  jwk : Value
  ts : String
  effective : Int
  material : Digest
  kid : String

/-- What an entry claims of a key: the key, its id, and two times that can be
read.
mirrors verify-rs/src/lib.rs:477-488 -/
def keyClaim (X : Crates) (e : KeyEntry) : Option KeyClaim := do
  let action := (actionOf e).getD ""
  let ctx := e.body.index "context"
  let jwk := ctx.index "jwk"
  let ts := (e.body.getStr "ts_server").getD ""
  let effective ← (ctx.getStr "effective_ts").bind utcEpochMicros
  if !canonicalUtc ts then none
  else
    let (material, kid) ← keyFromJwk X jwk
    return ⟨action, ctx, jwk, ts, effective, material, kid⟩

/-- Who vouches for a created key: nobody (`none`), some active key, or an
active issuer (`some true`). The genesis key vouches for itself.
mirrors verify-rs/src/lib.rs:404-415 -/
def sponsor (X : Crates) (kl : KeyLog) (pos : Nat) (e : KeyEntry) (c : KeyClaim) : Option Bool :=
  if pos = 0 then
    if envSignedBy X e.env c.kid c.material then some true else none
  else if signedByActiveKey X e.env kl c.ts e.leaf false then
    some (signedByActiveKey X e.env kl c.ts e.leaf true)
  else none

/-- The log with one more key. -/
def KeyLog.insert (kl : KeyLog) (kid : String) (material : Digest) (st : KeyState) : KeyLog :=
  { kl with keys := kl.keys.insert kid material, state := kl.state.insert kid st }

/-- A new key. All but the first must be signed by a key in office, and a role
must be given by an issuer.
mirrors verify-rs/src/lib.rs:399-422 -/
def applyKeyCreated (X : Crates) (kl : KeyLog) (pos : Nat) (e : KeyEntry) (c : KeyClaim) : Option KeyLog := do
  let role := c.ctx.getStr "role"
  if (kl.keys.lookup c.kid).isSome then none
  else
    let issuerSponsored ← sponsor X kl pos e c
    if role.isSome && !issuerSponsored then none
    else
      some (kl.insert c.kid c.material
        { introduced := (e.leaf, c.effective), revokedAt := none
          nonIssuer := role.isSome || !issuerSponsored
          recorder := role == some "recorder", scitt := role == some "scitt-issuer" })

/-- A successor, signed by its predecessor over the key itself. The predecessor
must be active there.
mirrors verify-rs/src/lib.rs:425-452 -/
def applyKeyRotated (X : Crates) (kl : KeyLog) (e : KeyEntry) (c : KeyClaim) : Option KeyLog := do
  let prevKid := (c.ctx.getStr "prev_kid").getD ""
  let continuity ← c.ctx.getStr "continuity_sig"
  if prevKid == "" || (kl.keys.lookup c.kid).isSome || !keyActive kl prevKid c.ts e.leaf then none
  else
    let prev ← kl.keys.lookup prevKid
    if !envSignedBy X e.env prevKid prev then none
    else
      let jwkCanon ← L1.Jcs.canonicalChecked X c.jwk
      let cont ← X.b64Decode continuity
      if !ed25519Verify X prev jwkCanon cont then none
      else
        some (kl.insert c.kid c.material
          { introduced := (e.leaf, c.effective), revokedAt := none
            nonIssuer := nonIssuer kl prevKid, recorder := false, scitt := false })

/-- A revocation of a known key that is not revoked yet, signed by any active
one, itself included.
mirrors verify-rs/src/lib.rs:454-467 -/
def applyKeyRevoked (X : Crates) (kl : KeyLog) (e : KeyEntry) (c : KeyClaim) : Option KeyLog := do
  if (kl.keys.lookup c.kid).isNone then none
  else
    let st ← kl.state.lookup c.kid
    if st.revokedAt.isSome || !signedByActiveKey X e.env kl c.ts e.leaf false then none
    else
      let eff := (c.ctx.getStr "effective_ts").getD ""
      if !canonicalUtc eff then none
      else some { kl with state := kl.state.insert c.kid { st with revokedAt := some (e.leaf, eff) } }

/-- One turn of the replay loop; `none` is the early return.
mirrors verify-rs/src/lib.rs:476-498 -/
def applyKeyEntry (X : Crates) (kl : KeyLog) (p : KeyEntry × Nat) : Option KeyLog := do
  if !keyRoleOk p.2 ((actionOf p.1).getD "") (p.1.body.index "context") then none
  else
    let c ← keyClaim X p.1
    if c.action = "evd.key.created" then applyKeyCreated X kl p.2 p.1 c
    else if c.action = "evd.key.rotated" then applyKeyRotated X kl p.1 c
    else if c.action = "evd.key.revoked" then applyKeyRevoked X kl p.1 c
    else none

def replayLoop (X : Crates) : KeyLog → List (KeyEntry × Nat) → KeyLog
  | kl, [] => { kl with ok := true }
  | kl, p :: rest =>
    match applyKeyEntry X kl p with
    | none => kl
    | some kl' => replayLoop X kl' rest

/-- The replay of a key log. Entries that do not start at leaf 0 with a
creation, or are not numbered without a gap, leave no key log at all.
mirrors verify-rs/src/lib.rs:469-501 -/
def replayKeyLog (X : Crates) (entries : List Value) : KeyLog :=
  let keyEntries := collectKeyEntries X entries
  if !keyEntriesWellFormed keyEntries then .empty else replayLoop X .empty keyEntries.zipIdx

/-! ## What one entry can do -/

/-- Everything an accepted entry can do to the log. -/
inductive Transition (X : Crates) (kl : KeyLog) (p : KeyEntry × Nat) (c : KeyClaim) : KeyLog → Prop where
  | created (issuer : Bool) (ha : c.action = "evd.key.created") (hnew : kl.keys.lookup c.kid = none)
      (hs : sponsor X kl p.2 p.1 c = some issuer)
      (hr : (c.ctx.getStr "role").isSome = true → issuer = true) :
      Transition X kl p c (kl.insert c.kid c.material
        { introduced := (p.1.leaf, c.effective), revokedAt := none
          nonIssuer := (c.ctx.getStr "role").isSome || !issuer
          recorder := c.ctx.getStr "role" == some "recorder"
          scitt := c.ctx.getStr "role" == some "scitt-issuer" })
  | rotated (prevKid : String) (prev : Digest) (ha : c.action = "evd.key.rotated")
      (hnew : kl.keys.lookup c.kid = none) (hact : keyActive kl prevKid c.ts p.1.leaf = true)
      (hkey : kl.keys.lookup prevKid = some prev) (hsig : envSignedBy X p.1.env prevKid prev = true) :
      Transition X kl p c (kl.insert c.kid c.material
        { introduced := (p.1.leaf, c.effective), revokedAt := none
          nonIssuer := nonIssuer kl prevKid, recorder := false, scitt := false })
  | revoked (st : KeyState) (eff : String) (ha : c.action = "evd.key.revoked")
      (hst : kl.state.lookup c.kid = some st) (hun : st.revokedAt = none)
      (hs : signedByActiveKey X p.1.env kl c.ts p.1.leaf false = true)
      (heff : utcEpochMicros eff = some c.effective) :
      Transition X kl p c
        { kl with state := kl.state.insert c.kid { st with revokedAt := some (p.1.leaf, eff) } }

/-- Where the fields of a claim come from. -/
structure Reads (X : Crates) (e : KeyEntry) (c : KeyClaim) : Prop where
  action : c.action = (actionOf e).getD ""
  ctx : c.ctx = e.body.index "context"
  jwk : c.jwk = c.ctx.index "jwk"
  ts : c.ts = (e.body.getStr "ts_server").getD ""
  effective : (c.ctx.getStr "effective_ts").bind utcEpochMicros = some c.effective
  key : keyFromJwk X c.jwk = some (c.material, c.kid)

theorem keyClaim_reads {X : Crates} {e : KeyEntry} {c : KeyClaim} (h : keyClaim X e = some c) :
    Reads X e c := by
  unfold keyClaim at h
  simp only [Option.bind_eq_bind, Option.bind_eq_some_iff] at h
  obtain ⟨eff, heff, h⟩ := h
  split at h
  · cases h
  · simp only [Option.bind_eq_some_iff] at h
    obtain ⟨⟨material, kid⟩, hk, h⟩ := h
    cases h
    exact ⟨rfl, rfl, rfl, rfl, Option.bind_eq_some_iff.mpr heff, hk⟩

theorem applyKeyCreated_transition {X : Crates} {kl kl' : KeyLog} {p : KeyEntry × Nat} {c : KeyClaim}
    (ha : c.action = "evd.key.created") (h : applyKeyCreated X kl p.2 p.1 c = some kl') :
    Transition X kl p c kl' := by
  unfold applyKeyCreated at h
  dsimp only at h
  split at h
  · cases h
  · rename_i hnew
    simp only [Option.bind_eq_bind, Option.bind_eq_some_iff] at h
    obtain ⟨issuer, hs, h⟩ := h
    split at h
    · cases h
    · rename_i hr
      cases h
      refine .created issuer ha (by simpa using hnew) hs fun hrole => ?_
      simpa [hrole] using hr

theorem applyKeyRotated_transition {X : Crates} {kl kl' : KeyLog} {p : KeyEntry × Nat} {c : KeyClaim}
    (ha : c.action = "evd.key.rotated") (h : applyKeyRotated X kl p.1 c = some kl') :
    Transition X kl p c kl' := by
  unfold applyKeyRotated at h
  simp only [Option.bind_eq_bind, Option.bind_eq_some_iff] at h
  obtain ⟨cont, hcont, h⟩ := h
  split at h
  · cases h
  · rename_i hguard
    simp only [Bool.or_eq_true, not_or, Bool.not_eq_true', Bool.not_eq_false] at hguard
    simp only [Option.bind_eq_some_iff] at h
    obtain ⟨prev, hprev, h⟩ := h
    split at h
    · cases h
    · rename_i hsig
      simp only [Option.bind_eq_some_iff] at h
      obtain ⟨canon, _, sig, _, h⟩ := h
      split at h
      · cases h
      · cases h
        exact .rotated _ prev ha (by simpa using hguard.1.2) (by simpa using hguard.2) hprev (by simpa using hsig)

theorem applyKeyRevoked_transition {X : Crates} {kl kl' : KeyLog} {p : KeyEntry × Nat} {c : KeyClaim}
    (hc : keyClaim X p.1 = some c) (ha : c.action = "evd.key.revoked")
    (h : applyKeyRevoked X kl p.1 c = some kl') : Transition X kl p c kl' := by
  unfold applyKeyRevoked at h
  split at h
  · cases h
  · simp only [Option.bind_eq_bind, Option.bind_eq_some_iff] at h
    obtain ⟨st, hst, h⟩ := h
    split at h
    · cases h
    · rename_i hguard
      simp only [Bool.or_eq_true, not_or, Bool.not_eq_true', Bool.not_eq_false] at hguard
      split at h
      · cases h
      · cases h
        obtain ⟨eff, heff, hmicros⟩ := Option.bind_eq_some_iff.mp (keyClaim_reads hc).effective
        rw [heff]
        exact .revoked st eff ha hst (by simpa using hguard.1) hguard.2 hmicros

/-- One turn of the loop, told once. -/
theorem applyKeyEntry_cases {X : Crates} {kl kl' : KeyLog} {p : KeyEntry × Nat}
    (h : applyKeyEntry X kl p = some kl') :
    ∃ c, keyClaim X p.1 = some c ∧ keyRoleOk p.2 c.action c.ctx = true ∧ Transition X kl p c kl' := by
  unfold applyKeyEntry at h
  split at h
  · cases h
  · rename_i hrole
    simp only [Option.bind_eq_bind, Option.bind_eq_some_iff] at h
    obtain ⟨c, hc, h⟩ := h
    have hreads := keyClaim_reads hc
    refine ⟨c, hc, by rw [hreads.action, hreads.ctx]; simpa using hrole, ?_⟩
    split at h
    · rename_i ha; exact applyKeyCreated_transition ha h
    · split at h
      · rename_i ha; exact applyKeyRotated_transition ha h
      · split at h
        · rename_i ha; exact applyKeyRevoked_transition hc ha h
        · cases h

/-! ## The replay as a run -/

/-- The sequence is dense: the entry at position `i` has number `i + 1`. -/
theorem keyEntries_seq {l : List KeyEntry} (h : keyEntriesWellFormed l = true) {i : Nat} {a : KeyEntry}
    (ha : l[i]? = some a) : seqOf a = (i : Int) + 1 := by
  cases l with
  | nil => cases ha
  | cons first rest =>
    simp only [keyEntriesWellFormed, Bool.and_eq_true, List.all_eq_true, beq_iff_eq] at h
    exact h.2 (a, i) (List.mk_mem_zipIdx_iff_getElem?.mpr ha)

theorem transition_ok {X : Crates} {kl kl' : KeyLog} {p : KeyEntry × Nat} {c : KeyClaim}
    (h : Transition X kl p c kl') : kl'.ok = kl.ok := by
  cases h <;> rfl

theorem replayLoop_ok {X : Crates} {l : List (KeyEntry × Nat)} {kl : KeyLog} (hkl : kl.ok = false)
    (h : (replayLoop X kl l).ok = true) :
    ∃ kl', Replay.run (applyKeyEntry X) kl l = some kl' ∧ replayLoop X kl l = { kl' with ok := true } := by
  induction l generalizing kl with
  | nil => exact ⟨kl, rfl, rfl⟩
  | cons p rest ih =>
    unfold replayLoop at h ⊢
    split at h
    · rw [hkl] at h; cases h
    · rename_i kl₁ hstep
      obtain ⟨c, _, _, ht⟩ := applyKeyEntry_cases hstep
      obtain ⟨kl', hrun, he⟩ := ih (by rw [transition_ok ht, hkl]) h
      exact ⟨kl', Replay.run_cons.mpr ⟨kl₁, hstep, hrun⟩, he⟩

/-- An `ok` replay ran over every key-log entry. -/
theorem replayKeyLog_ok {X : Crates} {entries : List Value} (h : (replayKeyLog X entries).ok = true) :
    keyEntriesWellFormed (collectKeyEntries X entries) = true ∧
      ∃ kl, Replay.run (applyKeyEntry X) .empty (collectKeyEntries X entries).zipIdx = some kl ∧
        replayKeyLog X entries = { kl with ok := true } := by
  unfold replayKeyLog at h ⊢
  dsimp only at h ⊢
  split at h
  · cases h
  · rename_i hwf
    rw [if_neg hwf]
    exact ⟨by simpa using hwf, replayLoop_ok rfl h⟩

end SwarrmVerify.L3.Keys

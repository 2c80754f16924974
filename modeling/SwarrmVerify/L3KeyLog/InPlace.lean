import SwarrmVerify.Core.Panics
import SwarrmVerify.L3KeyLog.KeyRun

/-!
# The two tables of a replay

The transitions of the key log (`verify-rs/src/lib.rs`) write to the log they
are given, one table of keys and one of states, and index both by kid, which
panics where the kid is missing. A transition that is refused midway could
leave one of the tables written. They are modelled here as they are written:
each returns whether it applied, and the log as it left it.

No lookup is missing because the two tables have one domain, and every key
stands under its own kid (`WellFormed`). A transition looks up only what it has
found in one of them, and writes to both or to neither. So the version without
panics and without writes in place, which everything else here is about,
computes the same.

**Results.**
* `turn_eq`: on tables of one domain a turn of the loop returns, and a refused
  entry has written nothing.
* `replayKeyLogRun_eq`: the whole loop, from the empty log on.
* `grows_after`, `leaf_after`: after any number of entries the log has grown
  from what it was, and every introduction is at the leaf of an entry.
* `tables_well_formed`: all of it for every list of entries and every prefix of
  it; a refused entry ends a replay that is not `ok`.
-/
namespace SwarrmVerify.L3.InPlace
open Panics SwarrmVerify.L3.Receipt SwarrmVerify.L3.Keys SwarrmVerify.L3.KeyRun

variable {X : Crates}

/-! ## Transitions -/

/-- `kl.keys[kid]`, which panics where the kid is missing. -/
def keyAt (kl : KeyLog) (kid : String) : Run Digest := unwrap (kl.keys.lookup kid)

/-- mirrors verify-rs/src/lib.rs:381-388 -/
def signedByActiveKeyRun (X : Crates) (env : Value) (kl : KeyLog) (ts : String) (observedSize : UInt64)
    (issuerOnly : Bool) : Run Bool :=
  match env.getArray "signatures" with
  | none => return false
  | some ss => ss.anyM fun s =>
      let kid := (s.getStr "keyid").getD ""
      allOf [pure (!issuerOnly || !nonIssuer kl kid), pure (keyActive kl kid ts observedSize),
        do return envSignedBy X env kid (← keyAt kl kid)]

/-- mirrors verify-rs/src/lib.rs:404-415 -/
def sponsorRun (X : Crates) (kl : KeyLog) (pos : Nat) (e : KeyEntry) (c : KeyClaim) : Run (Option Bool) := do
  if pos = 0 then
    if envSignedBy X e.env c.kid c.material then return some true else return none
  else if ← signedByActiveKeyRun X e.env kl c.ts e.leaf false then
    return some (← signedByActiveKeyRun X e.env kl c.ts e.leaf true)
  else return none

/-- mirrors verify-rs/src/lib.rs:399-422 -/
def createKey (X : Crates) (kl : KeyLog) (pos : Nat) (e : KeyEntry) (c : KeyClaim) : Run (Bool × KeyLog) := do
  let role := c.ctx.getStr "role"
  if (kl.keys.lookup c.kid).isSome then return (false, kl)
  else
    match ← sponsorRun X kl pos e c with
    | none => return (false, kl)
    | some issuerSponsored =>
      if role.isSome && !issuerSponsored then return (false, kl)
      else
        let kl := { kl with keys := kl.keys.insert c.kid c.material }
        return (true, { kl with
          state := kl.state.insert c.kid
            { introduced := (e.leaf, c.effective), revokedAt := none
              nonIssuer := role.isSome || !issuerSponsored
              recorder := role == some "recorder", scitt := role == some "scitt-issuer" } })

/-- mirrors verify-rs/src/lib.rs:425-452 -/
def rotateKey (X : Crates) (kl : KeyLog) (e : KeyEntry) (c : KeyClaim) : Run (Bool × KeyLog) := do
  let prevKid := (c.ctx.getStr "prev_kid").getD ""
  let continuity := c.ctx.getStr "continuity_sig"
  if prevKid == "" || continuity.isNone || (kl.keys.lookup c.kid).isSome then return (false, kl)
  else if !keyActive kl prevKid c.ts e.leaf then return (false, kl)
  else if !envSignedBy X e.env prevKid (← keyAt kl prevKid) then return (false, kl)
  else
    match L1.Jcs.canonicalChecked X c.jwk with
    | none => return (false, kl)
    | some jwkCanon =>
      match X.b64Decode (← unwrap continuity) with
      | none => return (false, kl)
      | some cont =>
        if !ed25519Verify X (← keyAt kl prevKid) jwkCanon cont then return (false, kl)
        else
          let nonIssuer := nonIssuer kl prevKid
          let kl := { kl with keys := kl.keys.insert c.kid c.material }
          return (true, { kl with
            state := kl.state.insert c.kid
              { introduced := (e.leaf, c.effective), revokedAt := none, nonIssuer := nonIssuer
                recorder := false, scitt := false } })

/-- mirrors verify-rs/src/lib.rs:454-467 -/
def revokeKey (X : Crates) (kl : KeyLog) (e : KeyEntry) (c : KeyClaim) : Run (Bool × KeyLog) := do
  if (kl.keys.lookup c.kid).isNone || (kl.state.lookup c.kid).all fun st => st.revokedAt.isSome then
    return (false, kl)
  else if !(← signedByActiveKeyRun X e.env kl c.ts e.leaf false) then return (false, kl)
  else
    let eff := (c.ctx.getStr "effective_ts").getD ""
    if !canonicalUtc eff then return (false, kl)
    else
      let st ← unwrap (kl.state.lookup c.kid)
      return (true, { kl with state := kl.state.insert c.kid { st with revokedAt := some (e.leaf, eff) } })

/-- One turn of the loop. mirrors verify-rs/src/lib.rs:476-498 -/
def turn (X : Crates) (kl : KeyLog) (p : KeyEntry × Nat) : Run (Bool × KeyLog) :=
  if !keyRoleOk p.2 ((actionOf p.1).getD "") (p.1.body.index "context") then return (false, kl)
  else
    match keyClaim X p.1 with
    | none => return (false, kl)
    | some c =>
      if c.action = "evd.key.created" then createKey X kl p.2 p.1 c
      else if c.action = "evd.key.rotated" then rotateKey X kl p.1 c
      else if c.action = "evd.key.revoked" then revokeKey X kl p.1 c
      else return (false, kl)

/-- The loop from a log on: whether it got to the end of the entries. -/
def turns (X : Crates) : KeyLog → List (KeyEntry × Nat) → Run (Bool × KeyLog)
  | kl, [] => return (true, kl)
  | kl, p :: rest => do
    let (applied, kl) ← turn X kl p
    if applied then turns X kl rest else return (false, kl)

/-- mirrors verify-rs/src/lib.rs:469-501 -/
def replayKeyLogRun (X : Crates) (entries : List Value) : Run KeyLog := do
  let keyEntries := collectKeyEntries X entries
  if !keyEntriesWellFormed keyEntries then return .empty
  else
    let (applied, kl) ← turns X .empty keyEntries.zipIdx
    return if applied then { kl with ok := true } else kl

/-! ## No lookup is missing -/

theorem anyM_ok {α : Type} {l : List α} {p : α → Run Bool} {f : α → Bool} (h : ∀ a ∈ l, p a = .ok (f a)) :
    l.anyM p = .ok (l.any f) := by
  induction l with
  | nil => rfl
  | cons a l ih =>
    rw [List.forall_mem_cons] at h
    rw [List.anyM, h.1, ok_bind, List.any_cons]
    cases f a with
    | true => rfl
    | false => exact ih h.2

/-- An active key is in the table of keys, which is what every lookup of a
transition rests on. -/
theorem key_of_active {kl : KeyLog} (h : SameKeys kl) {kid ts : String} {size : UInt64}
    (ha : keyActive kl kid ts size = true) : ∃ key, kl.keys.lookup kid = some key := by
  obtain ⟨st, -, hst, -⟩ := keyActive_iff.mp ha
  rw [← Option.isSome_iff_exists, h kid, hst]
  rfl

theorem signedByActiveKeyRun_eq {kl : KeyLog} (h : SameKeys kl) (env : Value) (ts : String) (size : UInt64)
    (issuerOnly : Bool) :
    signedByActiveKeyRun X env kl ts size issuerOnly = .ok (signedByActiveKey X env kl ts size issuerOnly) := by
  unfold signedByActiveKeyRun signedByActiveKey
  cases env.getArray "signatures" with
  | none => rfl
  | some ss =>
    refine anyM_ok fun s _ => ?_
    dsimp only
    generalize (s.getStr "keyid").getD "" = kid
    cases hissuer : (!issuerOnly || !nonIssuer kl kid) with
    | false => rfl
    | true =>
      cases hactive : keyActive kl kid ts size with
      | false => rfl
      | true =>
        obtain ⟨key, hkey⟩ := key_of_active h hactive
        simp only [allOf, keyAt, hkey, unwrap_some, ok_bind, run_pure, Bool.true_and, Option.any_some, if_true]
        cases envSignedBy X env kid key <;> rfl

/-- What is left of a transition: the new log, or the old one, and whether it
applied. -/
def outcome (kl : KeyLog) (next : Option KeyLog) : Bool × KeyLog :=
  match next with
  | some kl' => (true, kl')
  | none => (false, kl)

theorem sponsorRun_eq {kl : KeyLog} (h : SameKeys kl) (pos : Nat) (e : KeyEntry) (c : KeyClaim) :
    sponsorRun X kl pos e c = .ok (sponsor X kl pos e c) := by
  unfold sponsorRun sponsor
  by_cases hpos : pos = 0
  · rw [if_pos hpos, if_pos hpos]
    cases envSignedBy X e.env c.kid c.material <;> rfl
  · rw [if_neg hpos, if_neg hpos, signedByActiveKeyRun_eq h, signedByActiveKeyRun_eq h, ok_bind]
    cases signedByActiveKey X e.env kl c.ts e.leaf false <;> rfl

/-- Creation in place, on tables of one domain: it returns, and writes both
tables or neither. -/
theorem createKey_eq {kl : KeyLog} (h : SameKeys kl) (pos : Nat) (e : KeyEntry) (c : KeyClaim) :
    createKey X kl pos e c = .ok (outcome kl (applyKeyCreated X kl pos e c)) := by
  unfold createKey applyKeyCreated
  dsimp only
  cases (kl.keys.lookup c.kid).isSome with
  | true => rfl
  | false =>
    rw [sponsorRun_eq h]
    cases sponsor X kl pos e c with
    | none => rfl
    | some issuer =>
      cases c.ctx.getStr "role" <;> cases issuer <;> rfl

/-- Rotation in place. The new key is written as an issuer if the old one was,
and without its roles; the old one stays as it is. -/
theorem rotateKey_eq {kl : KeyLog} (h : SameKeys kl) (e : KeyEntry) (c : KeyClaim) :
    rotateKey X kl e c = .ok (outcome kl (applyKeyRotated X kl e c)) := by
  unfold rotateKey applyKeyRotated
  dsimp only
  generalize (c.ctx.getStr "prev_kid").getD "" = prevKid
  cases c.ctx.getStr "continuity_sig" with
  | none => simp [outcome, run_pure]
  | some continuity =>
    cases hactive : keyActive kl prevKid c.ts e.leaf with
    | false => simp [outcome, run_pure]
    | true =>
      obtain ⟨prev, hprev⟩ := key_of_active h hactive
      simp only [keyAt, hprev, unwrap_some, ok_bind, Option.isNone_some, Bool.or_false, Bool.not_true,
        Option.bind_eq_bind, Option.bind_some]
      cases prevKid == "" || (kl.keys.lookup c.kid).isSome with
      | true => rfl
      | false =>
        cases envSignedBy X e.env prevKid prev with
        | false => rfl
        | true =>
          cases L1.Jcs.canonicalChecked X c.jwk with
          | none => rfl
          | some canon =>
            cases X.b64Decode continuity with
            | none => rfl
            | some cont =>
              simp only [Option.bind_some]
              cases ed25519Verify X prev canon cont <;> rfl

theorem revokeKey_eq {kl : KeyLog} (h : SameKeys kl) (e : KeyEntry) (c : KeyClaim) :
    revokeKey X kl e c = .ok (outcome kl (applyKeyRevoked X kl e c)) := by
  unfold revokeKey applyKeyRevoked
  have hsame := h c.kid
  cases hst : kl.state.lookup c.kid with
  | none =>
    simp [outcome, run_pure]
  | some st =>
    rw [hst] at hsame
    obtain ⟨key, hkey⟩ := Option.isSome_iff_exists.mp hsame
    simp only [hkey, signedByActiveKeyRun_eq h, ok_bind, Option.isNone_some, Bool.false_or, Option.all_some,
      Option.bind_eq_bind, Option.bind_some, unwrap_some]
    cases st.revokedAt.isSome with
    | true => rfl
    | false =>
      cases signedByActiveKey X e.env kl c.ts e.leaf false with
      | false => rfl
      | true =>
        cases canonicalUtc ((c.ctx.getStr "effective_ts").getD "") <;> simp [outcome, run_pure]

/-- One turn on tables of one domain: no lookup is missing, and a refused entry
has written nothing. -/
theorem turn_eq {kl : KeyLog} (h : SameKeys kl) (p : KeyEntry × Nat) :
    turn X kl p = .ok (outcome kl (applyKeyEntry X kl p)) := by
  unfold turn applyKeyEntry
  cases keyRoleOk p.2 ((actionOf p.1).getD "") (p.1.body.index "context") with
  | false => rfl
  | true =>
    cases keyClaim X p.1 with
    | none => rfl
    | some c =>
      simp only [createKey_eq h, rotateKey_eq h, revokeKey_eq h, Bool.not_true, Option.bind_eq_bind, Option.bind_some]
      by_cases hcreated : c.action = "evd.key.created"
      · simp only [if_pos hcreated]
        rfl
      · by_cases hrotated : c.action = "evd.key.rotated"
        · simp only [if_neg hcreated, if_pos hrotated]
          rfl
        · by_cases hrevoked : c.action = "evd.key.revoked"
          · simp only [if_neg hcreated, if_neg hrotated, if_pos hrevoked]
            rfl
          · simp only [if_neg hcreated, if_neg hrotated, if_neg hrevoked]
            rfl

/-! ## The loop -/

theorem turns_eq (l : List (KeyEntry × Nat)) {kl : KeyLog} (h : SameKeys kl) :
    turns X kl l = .ok (Replay.drive (applyKeyEntry X) kl l) := by
  induction l generalizing kl with
  | nil => rfl
  | cons p rest ih =>
    rw [turns, turn_eq h, ok_bind, Replay.drive]
    cases hp : applyKeyEntry X kl p with
    | none => rfl
    | some kl' =>
      obtain ⟨c, -, -, ht⟩ := applyKeyEntry_cases hp
      exact ih (step_sameKeys h ht)

theorem replayLoop_eq (l : List (KeyEntry × Nat)) (kl : KeyLog) :
    replayLoop X kl l =
      if (Replay.drive (applyKeyEntry X) kl l).1 then { (Replay.drive (applyKeyEntry X) kl l).2 with ok := true }
      else (Replay.drive (applyKeyEntry X) kl l).2 := by
  induction l generalizing kl with
  | nil => rfl
  | cons p rest ih =>
    rw [replayLoop, Replay.drive]
    cases applyKeyEntry X kl p with
    | none => rfl
    | some kl' => exact ih kl'

theorem replayKeyLogRun_eq (X : Crates) (entries : List Value) :
    replayKeyLogRun X entries = .ok (replayKeyLog X entries) := by
  unfold replayKeyLogRun replayKeyLog
  dsimp only
  cases keyEntriesWellFormed (collectKeyEntries X entries) with
  | false => rfl
  | true =>
    rw [turns_eq _ sameKeys_empty, replayLoop_eq]
    rfl

/-! ## What holds of the tables -/

/-- Both tables have one domain, and every key is under its own kid. -/
structure WellFormed (X : Crates) (kl : KeyLog) : Prop where
  domain : SameKeys kl
  kids : ∀ kid m, kl.keys.lookup kid = some m → kid = kidOfKey X m

theorem wellFormed_empty : WellFormed X .empty := ⟨sameKeys_empty, nofun⟩

theorem wellFormed_step {kl kl' : KeyLog} {p : KeyEntry × Nat} (h : WellFormed X kl)
    (hs : applyKeyEntry X kl p = some kl') : WellFormed X kl' := by
  obtain ⟨c, hc, -, ht⟩ := applyKeyEntry_cases hs
  have hkid := kid_of_keyFromJwk (keyClaim_reads hc).key
  refine ⟨step_sameKeys h.domain ht, fun kid m hl => ?_⟩
  cases ht with
  | created =>
    rcases lookup_insert_cases hl with ⟨rfl, rfl⟩ | ⟨-, hl⟩
    · exact hkid
    · exact h.kids kid m hl
  | rotated =>
    rcases lookup_insert_cases hl with ⟨rfl, rfl⟩ | ⟨-, hl⟩
    · exact hkid
    · exact h.kids kid m hl
  | revoked => exact h.kids kid m hl

theorem wellFormed_run {l : List (KeyEntry × Nat)} {kl kl' : KeyLog} (h : WellFormed X kl)
    (hr : Replay.run (applyKeyEntry X) kl l = some kl') : WellFormed X kl' :=
  Replay.run_mono (R := fun a b => WellFormed X a → WellFormed X b) (fun _ h => h)
    (fun _ _ _ hab hbc h => hbc (hab h)) (fun _ _ _ hs h => wellFormed_step h hs) hr h

/-- The log after the first entries, whether or not the loop got that far. -/
def after (X : Crates) (l : List (KeyEntry × Nat)) : Bool × KeyLog := Replay.drive (applyKeyEntry X) .empty l

theorem wellFormed_after (l : List (KeyEntry × Nat)) : WellFormed X (after X l).2 := by
  obtain ⟨l₁, l₂, -, hrun, -⟩ := Replay.drive_run (applyKeyEntry X) .empty l
  exact wellFormed_run wellFormed_empty hrun

theorem grows_after (l r : List (KeyEntry × Nat)) : Grows (after X l).2 (after X (l ++ r)).2 := by
  rw [after, after, Replay.drive_append]
  split
  · obtain ⟨r₁, r₂, -, hrun, -⟩ := Replay.drive_run (applyKeyEntry X) (Replay.drive (applyKeyEntry X) .empty l).2 r
    exact grows_run (wellFormed_after l).domain hrun
  · exact grows_refl _

/-- Every introduction is at the leaf of an entry that has been applied. -/
theorem leaf_after {l : List (KeyEntry × Nat)} {kid : String} {st : KeyState}
    (h : (after X l).2.state.lookup kid = some st) : ∃ p ∈ l, st.introduced.1 = p.1.leaf := by
  obtain ⟨l₁, l₂, rfl, hrun, -⟩ := Replay.drive_run (applyKeyEntry X) .empty l
  obtain ⟨p, hp, c, -, -, -, hst⟩ := (explained_run hrun).introduced kid st h
  exact ⟨p, List.mem_append_left _ hp, by rw [hst]⟩

theorem collect_sorted (X : Crates) (entries : List Value) :
    (collectKeyEntries X entries).zipIdx.Pairwise fun a b => a.1.leaf ≤ b.1.leaf := by
  have hsorted : (collectKeyEntries X entries).Pairwise fun a b => a.leaf ≤ b.leaf := by
    unfold collectKeyEntries
    exact List.pairwise_insertionSort (fun a b : KeyEntry => a.leaf ≤ b.leaf) _
  rw [← List.zipIdx_map_fst 0 (collectKeyEntries X entries), List.pairwise_map] at hsorted
  exact hsorted

theorem wellFormed_replay (X : Crates) (entries : List Value) : WellFormed X (replayKeyLog X entries) := by
  unfold replayKeyLog
  dsimp only
  split
  · exact wellFormed_empty
  · have h := wellFormed_after (X := X) (collectKeyEntries X entries).zipIdx
    rw [replayLoop_eq]
    split
    · exact ⟨h.domain, h.kids⟩
    · exact h

/-- A refused entry ends a replay that is not `ok`. -/
theorem refused_not_ok {entries : List Value} {l r : List (KeyEntry × Nat)} {p : KeyEntry × Nat}
    (hl : (collectKeyEntries X entries).zipIdx = l ++ p :: r) (hall : (after X l).1 = true)
    (hp : applyKeyEntry X (after X l).2 p = none) : (replayKeyLog X entries).ok = false := by
  by_contra hok
  obtain ⟨-, kl, hrun, -⟩ := replayKeyLog_ok ((Bool.not_eq_false _).mp hok)
  rw [hl] at hrun
  obtain ⟨a, b, ha, hb, -⟩ := Replay.run_split hrun
  obtain ⟨l₁, l₂, hcut, hrun₁, hend⟩ := Replay.drive_run (applyKeyEntry X) .empty l
  rw [hend hall, List.append_nil] at hcut
  rw [← hcut, ha] at hrun₁
  rw [after, ← Option.some.inj hrun₁, hb] at hp
  cases hp

/-- **A replay keeps its tables well formed.** For every list of entries no
lookup is missing, and after any of the key-log entries the tables have one
domain, every key is under its own kid, nothing was introduced above the
current leaf, and what follows leaves all keys, introductions, roles and
revocations as they are. A refused entry has written to neither table. -/
theorem tables_well_formed (X : Crates) (entries : List Value) :
    replayKeyLogRun X entries = .ok (replayKeyLog X entries) ∧ WellFormed X (replayKeyLog X entries) ∧
    (∀ env ts size issuerOnly, Safe (signedByActiveKeyRun X env (replayKeyLog X entries) ts size issuerOnly)) ∧
    ∀ l r, (collectKeyEntries X entries).zipIdx = l ++ r → ∃ all kl, turns X .empty l = .ok (all, kl) ∧
      WellFormed X kl ∧
      (∀ p ∈ l.getLast?, ∀ kid st, kl.state.lookup kid = some st → st.introduced.1 ≤ p.1.leaf) ∧
      (∀ l' r', r = l' ++ r' → ∃ all' kl', turns X .empty (l ++ l') = .ok (all', kl') ∧ Grows kl kl') ∧
      ∀ p r', r = p :: r' → all = true → ∃ applied kl', turn X kl p = .ok (applied, kl') ∧
        (applied = false → kl'.keys = kl.keys ∧ kl'.state = kl.state ∧ (replayKeyLog X entries).ok = false) := by
  have hfinal := wellFormed_replay X entries
  refine ⟨replayKeyLogRun_eq X entries, hfinal, ?_, ?_⟩
  · intro env ts size issuerOnly
    exact ⟨_, signedByActiveKeyRun_eq hfinal.domain env ts size issuerOnly⟩
  · intro l r hl
    have hwf := wellFormed_after (X := X) l
    refine ⟨(after X l).1, (after X l).2, turns_eq l sameKeys_empty, hwf, ?_, ?_, ?_⟩
    · intro p hp kid st hst
      obtain ⟨q, hq, hleaf⟩ := leaf_after hst
      have hsorted := collect_sorted X entries
      rw [hl] at hsorted
      have hsorted := (List.pairwise_append.mp hsorted).1
      obtain ⟨front, rfl⟩ := List.getLast?_eq_some_iff.mp hp
      rw [hleaf]
      rcases List.mem_append.mp hq with hq | hq
      · exact (List.pairwise_append.mp hsorted).2.2 q hq p (List.mem_singleton.mpr rfl)
      · rw [List.mem_singleton.mp hq]
        exact UInt64.le_refl _
    · intro l' r' _
      exact ⟨_, _, turns_eq (l ++ l') sameKeys_empty, grows_after l l'⟩
    · intro p r' hr hall
      refine ⟨_, _, turn_eq hwf.domain p, ?_⟩
      cases hp : applyKeyEntry X (after X l).2 p with
      | none =>
        intro _
        exact ⟨rfl, rfl, refused_not_ok (hr ▸ hl) hall hp⟩
      | some kl' => nofun

end SwarrmVerify.L3.InPlace

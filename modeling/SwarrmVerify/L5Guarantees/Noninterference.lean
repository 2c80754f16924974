import SwarrmVerify.L4Bundle.Bundle

/-!
# Trust does not move the verdict

A relying party's trust context reaches three places: the recorder branch of
the entry loop, the roots of timestamp tokens, and the origin. What it adds
there is evidence, reported beside the verdict. None of the three decides the
verdict, and a rejected bundle earns no evidence.

The statement is about two runs. They are compared stage by stage: a stage that
does not read the context gives the same in both, and one that does returns a
flag that does not depend on it beside the evidence that does. The timestamp
loop is the one to look at, since a record stands or falls with the time that
its token proves, and a token is verified once with the roots and once without;
the time is the same.

No hypothesis is made: any bundle, any two contexts, or none.

**Results.**
* `tstLoop_ok`: the timestamp loop accepts whatever roots are supplied.
* `checks_same`: all of `checkCheckpointsAndEntries`.
* `rejected_no_evidence`: a rejected bundle reports nothing.
* `trust_noninterference`: `verifyBundleFacts` under two trust contexts.
-/
namespace SwarrmVerify.L5.Noninterference
open SwarrmVerify.L3.Receipt SwarrmVerify.L3.Keys SwarrmVerify.L4.Checkpoint SwarrmVerify.L4.Continuity
open SwarrmVerify.L4.Entries SwarrmVerify.L4.Trust SwarrmVerify.L4.Bundle

variable {X : Crates}

/-! ## Timestamp records -/

/-- Whether a token's record stands depends on the time it proves. -/
theorem tstRecord_time (roots : Option String) (token : Bytes) (bodyHash displayed chain : String) :
    ((verifiedTst X token bodyHash chain roots).any fun p =>
        (if p.1.text != displayed then none else some (bodyHash, p.2)).isSome) =
      ((verifiedTst X token bodyHash chain roots).map Prod.fst).any fun actual => actual.text == displayed := by
  cases verifiedTst X token bodyHash chain roots with
  | none => rfl
  | some p =>
    by_cases ht : p.1.text = displayed <;> simp [ht]

theorem tstRecord_isSome (roots roots' : Option String) (record : Value) :
    (tstRecord X roots record).isSome = (tstRecord X roots' record).isSome := by
  unfold tstRecord
  simp only [Option.bind_eq_bind, Option.isSome_bind, tstRecord_time, verifiedTst_time X _ _ _ roots roots']

theorem tstLoop_ok (roots roots' : Option String) (records : List Value) :
    ∀ trusted trusted', (tstLoop X roots records trusted).1 = (tstLoop X roots' records trusted').1 := by
  induction records with
  | nil => intro _ _; rfl
  | cons record rest ih =>
    intro trusted trusted'
    have hsome := tstRecord_isSome (X := X) roots roots' record
    unfold tstLoop
    cases h : tstRecord X roots record <;> cases h' : tstRecord X roots' record <;>
      simp only [h, h', Option.isSome_none, Option.isSome_some, reduceCtorEq] at hsome
    · rfl
    · exact ih _ _

theorem checkAttestationRecords_ok (bundle : Value) (checkpoints : CheckpointFacts) (t t' : Option Value) :
    (checkAttestationRecords X bundle checkpoints t).1 = (checkAttestationRecords X bundle checkpoints t').1 := by
  have htst : ∀ tsts roots roots', (checkTstRecords X tsts checkpoints roots).1 =
      (checkTstRecords X tsts checkpoints roots').1 := by
    intro tsts roots roots'
    unfold checkTstRecords
    split
    · rfl
    · split
      · rfl
      · exact tstLoop_ok _ _ _ _ _
  unfold checkAttestationRecords
  cases bundle.getSome "tst_records" with
  | none => rfl
  | some tsts =>
    have h := htst tsts (tsaRootsPem t) (tsaRootsPem t')
    dsimp only
    rw [h]
    split
    · exact h
    · cases bundle.getSome "anchor_records" with
      | none => exact h
      | some anchors => rfl

/-! ## The verdict -/

theorem checkEntries_ok (entries chain : List Value) (target : Value) (kl : KeyLog) (t t' : Option Value) :
    (checkEntries X entries target chain kl t).1 = (checkEntries X entries target chain kl t').1 := by
  unfold checkEntries
  dsimp only
  split
  · rw [entriesLoop_ok, entriesLoop_ok]
  · rfl

/-- Two results with the same verdict and the same facts that any party would
read off the bundle. -/
structure Same (r r' : Bool × BundleFacts) : Prop where
  verdict : r.1 = r'.1
  complete : r.2.complete = r'.2.complete
  chainSizes : r.2.chainSizes = r'.2.chainSizes
  present : r.2.continuityPresent = r'.2.continuityPresent
  cover : r.2.continuityOk = r'.2.continuityOk
  gaps : r.2.continuityGaps = r'.2.continuityGaps

theorem checks_same (bundle : Value) (entries : List Value) (kl : KeyLog) (t t' : Option Value)
    (facts : BundleFacts) :
    Same (checkCheckpointsAndEntries X bundle entries kl t facts)
      (checkCheckpointsAndEntries X bundle entries kl t' facts) := by
  unfold checkCheckpointsAndEntries
  split
  case h_2 => exact ⟨rfl, rfl, rfl, rfl, rfl, rfl⟩
  rename_i target chainEntries chain _ _
  split
  · exact ⟨rfl, rfl, rfl, rfl, rfl, rfl⟩
  have hset : (checkEntrySet X bundle entries target chain kl t facts).1 =
      (checkEntrySet X bundle entries target chain kl t' facts).1 := by
    simp only [checkEntrySet, checkEntries_ok entries chain target kl t t']
  dsimp only
  rw [hset]
  split
  · exact ⟨rfl, rfl, rfl, rfl, rfl, rfl⟩
  split
  · exact ⟨rfl, rfl, rfl, rfl, rfl, rfl⟩
  split
  · exact ⟨rfl, rfl, rfl, rfl, rfl, rfl⟩
  rename_i checkpoints _
  rw [checkAttestationRecords_ok bundle checkpoints t t']
  split
  · exact ⟨rfl, rfl, rfl, rfl, rfl, rfl⟩
  · exact ⟨rfl, rfl, rfl, rfl, rfl, rfl⟩

/-- No evidence beyond the bundle's own statements. -/
def NoEvidence (f : BundleFacts) : Prop :=
  f.recorderAttested = [] ∧ f.trustedTstCheckpoints = [] ∧ f.chainSizes = ∅ ∧ f.originAttested = none

/-- `checkCheckpointsAndEntries` leaves the origin to its caller. -/
theorem checks_origin (bundle : Value) (entries : List Value) (kl : KeyLog) (t : Option Value)
    (facts : BundleFacts) :
    (checkCheckpointsAndEntries X bundle entries kl t facts).2.originAttested = facts.originAttested := by
  unfold checkCheckpointsAndEntries
  split
  case h_2 => rfl
  split
  · rfl
  dsimp only
  split
  · rfl
  split
  · rfl
  split
  · rfl
  split <;> rfl

theorem rejected_no_evidence {bundle : Value} {t : Option Value}
    (h : (verifyBundleFacts X bundle t).ok = false) : NoEvidence (verifyBundleFacts X bundle t) := by
  unfold verifyBundleFacts at h ⊢
  cases hadm : admitted X bundle with
  | none => exact ⟨rfl, rfl, rfl, rfl⟩
  | some p =>
    obtain ⟨entries, kl⟩ := p
    have horigin := checks_origin (X := X) bundle entries kl t {}
    cases hr : (checkCheckpointsAndEntries X bundle entries kl t {}).1 with
    | true => simp [hadm, hr] at h
    | false =>
      simp only [hr, Bool.false_eq_true, if_false]
      exact ⟨rfl, rfl, rfl, horigin⟩

/-- **Trust noninterference.** Two trust contexts give the same verdict and
the same public facts, and a rejected bundle earns no evidence under either. -/
theorem trust_noninterference (X : Crates) (bundle : Value) (t₁ t₂ : Option Value) :
    (verifyBundleFacts X bundle t₁).ok = (verifyBundleFacts X bundle t₂).ok ∧
    (verifyBundleFacts X bundle t₁).complete = (verifyBundleFacts X bundle t₂).complete ∧
    (verifyBundleFacts X bundle t₁).continuityPresent = (verifyBundleFacts X bundle t₂).continuityPresent ∧
    (verifyBundleFacts X bundle t₁).continuityOk = (verifyBundleFacts X bundle t₂).continuityOk ∧
    (verifyBundleFacts X bundle t₁).continuityGaps = (verifyBundleFacts X bundle t₂).continuityGaps ∧
    (verifyBundleFacts X bundle t₁).chainSizes = (verifyBundleFacts X bundle t₂).chainSizes ∧
    ((verifyBundleFacts X bundle t₁).ok = false →
      NoEvidence (verifyBundleFacts X bundle t₁) ∧ NoEvidence (verifyBundleFacts X bundle t₂)) := by
  have hpublic : Same ((verifyBundleFacts X bundle t₁).ok, verifyBundleFacts X bundle t₁)
      ((verifyBundleFacts X bundle t₂).ok, verifyBundleFacts X bundle t₂) := by
    unfold verifyBundleFacts
    split
    · exact ⟨rfl, rfl, rfl, rfl, rfl, rfl⟩
    · rename_i entries kl _
      obtain ⟨h1, h2, h3, h4, h5, h6⟩ := checks_same (X := X) bundle entries kl t₁ t₂ {}
      dsimp only
      rw [h1]
      split
      · exact ⟨rfl, h2, h3, h4, h5, h6⟩
      · exact ⟨rfl, h2, rfl, h4, h5, h6⟩
  obtain ⟨h1, h2, h3, h4, h5, h6⟩ := hpublic
  refine ⟨h1, h2, h4, h5, h6, h3, fun hrej => ⟨rejected_no_evidence hrej, rejected_no_evidence ?_⟩⟩
  rw [← hrej]; exact h1.symm

end SwarrmVerify.L5.Noninterference

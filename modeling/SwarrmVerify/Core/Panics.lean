import Mathlib.Tactic

/-!
# Programs that may panic

A run ends with a value or panics: at the index of a missing member, an
`unwrap` of nothing, an unreachable branch, a subtraction below zero or a slice
out of range. An attempt is a run that can also end with nothing, and a phase
one that can refuse early with a result. They are stacked as monads, so that a
program reads like the one it is a model of.

Three triples say what is known of an end:

* `Returns m Q`: the run `m` does not panic, and `Q` holds of its value.
* `Yields m Q`: the attempt `m` does not panic, and `Q` holds of its value if
  it has one.
* `Ends m R Q`: the phase `m` does not panic; `R` holds of an early result and
  `Q` of a value.

The rules are those of a program logic: one for each way to build a program
(`pure`, `bind`, `lift`, a failure, a branch), and one to weaken what is said.
`allOf` is the chain of conditions joined by `&&`, which stops at the first
that fails; its rule lets each condition rely on the ones before it, and so a
condition may unwrap what another has checked. The eager one, which evaluates
every condition, has no such rule.
-/
namespace Panics

inductive Panic where
  | index
  | unwrap
  | unreachable
  | underflow
  | range
  deriving DecidableEq, Repr

abbrev Run (α : Type) := Except Panic α

/-- A run that may end with nothing, besides ending with a value or in a
panic. -/
abbrev Attempt (α : Type) := OptionT Run α

/-- A run with early results, which end it without a panic. -/
abbrev Phase (ρ α : Type) := ExceptT ρ Run α

variable {α β ρ : Type}

/-! ## Operations -/

def unwrap : Option α → Run α
  | some a => .ok a
  | none => .error .unwrap

/-- The value of a key that must be there. In the source it is an index out of
the map. -/
def index [BEq α] (m : List (α × β)) (k : α) : Run β :=
  match m.lookup k with
  | some b => .ok b
  | none => .error .index

/-- What can be read of the value of a key that must be there. -/
def member {γ : Type} [BEq α] (m : List (α × β)) (k : α) (f : β → Option γ) : Attempt γ :=
  OptionT.mk do return f (← index m k)

/-- `a - b` without wrapping: the subtraction panics below zero. -/
def sub (a b : Nat) : Run Nat := if b ≤ a then .ok (a - b) else .error .underflow

/-- `xs[i]` -/
def item (xs : List α) (i : Nat) : Run α :=
  match xs[i]? with
  | some a => .ok a
  | none => .error .index

/-- `xs[from..to]` -/
def sliceOf (xs : List α) (i j : Nat) : Run (List α) :=
  if i ≤ j ∧ j ≤ xs.length then .ok ((xs.take j).drop i) else .error .range

/-- A `&&` chain: what stands after a false condition is not run, and cannot
panic. -/
def allOf : List (Run Bool) → Run Bool
  | [] => .ok true
  | m :: ms => do if ← m then allOf ms else return false

/-- An array of conditions, all evaluated before they are combined, so that any
of them may panic. -/
def eager : List (Run Bool) → Run Bool
  | [] => .ok true
  | m :: ms => do
    let b ← m
    let bs ← eager ms
    return b && bs

/-- Go on only if a condition holds, else end with the result. -/
def require (ok : Bool) (result : ρ) : Phase ρ Unit := if ok then pure () else throw result

/-- `ok_or`: the value, or the end with the result. -/
def orElse (o : Option α) (result : ρ) : Phase ρ α :=
  match o with
  | some a => pure a
  | none => throw result

/-! ## Runs -/

def Returns (m : Run α) (Q : α → Prop) : Prop := ∃ a, m = .ok a ∧ Q a

def Safe (m : Run α) : Prop := ∃ a, m = .ok a

theorem Safe.returns {m : Run α} (h : Safe m) : Returns m fun a => m = .ok a := by
  obtain ⟨a, ha⟩ := h
  exact ⟨a, ha, ha⟩

theorem Returns.safe {m : Run α} {Q : α → Prop} (h : Returns m Q) : Safe m := by
  obtain ⟨a, ha, -⟩ := h
  exact ⟨a, ha⟩

theorem Returns.mono {m : Run α} {P Q : α → Prop} (h : Returns m P) (hPQ : ∀ a, P a → Q a) : Returns m Q := by
  obtain ⟨a, ha, hP⟩ := h
  exact ⟨a, ha, hPQ a hP⟩

@[simp] theorem returns_ok {a : α} {Q : α → Prop} : Returns (.ok a) Q ↔ Q a := by
  simp [Returns]

@[simp] theorem returns_pure {a : α} {Q : α → Prop} : Returns (pure a : Run α) Q ↔ Q a := returns_ok

@[simp] theorem safe_ok (a : α) : Safe (.ok a : Run α) := ⟨a, rfl⟩

@[simp] theorem safe_pure (a : α) : Safe (pure a : Run α) := ⟨a, rfl⟩

theorem Returns.bind {m : Run α} {f : α → Run β} {P : α → Prop} {Q : β → Prop} (h : Returns m P)
    (hf : ∀ a, P a → Returns (f a) Q) : Returns (m >>= f) Q := by
  obtain ⟨a, rfl, ha⟩ := h
  exact hf a ha

theorem Safe.bind {m : Run α} {f : α → Run β} (h : Safe m) (hf : ∀ a, m = .ok a → Safe (f a)) : Safe (m >>= f) := by
  obtain ⟨a, rfl⟩ := h
  exact hf a rfl

@[simp] theorem safe_map {m : Run α} {f : α → β} : Safe (f <$> m) ↔ Safe m := by
  cases m <;> simp [Safe, Functor.map, Except.map]

theorem bind_eq_ok {m : Run α} {f : α → Run β} {b : β} :
    m >>= f = .ok b ↔ ∃ a, m = .ok a ∧ f a = .ok b := by
  cases m with
  | error e => exact ⟨nofun, fun ⟨a, ha, _⟩ => nomatch ha⟩
  | ok a => exact ⟨fun h => ⟨a, rfl, h⟩, fun ⟨_, ha, h⟩ => by cases ha; exact h⟩

/-! Symbolic execution: a run that is known to return is replaced by its value. -/

theorem run_pure (a : α) : (pure a : Run α) = .ok a := rfl

theorem ok_bind (a : α) (f : α → Run β) : (Except.ok a : Run α) >>= f = f a := rfl

theorem phase_ok_bind (a : α) (f : α → Phase ρ β) : (liftM (Except.ok a : Run α) : Phase ρ α) >>= f = f a := rfl

theorem attempt_ok_bind (a : α) (f : α → Attempt β) : (liftM (Except.ok a : Run α) : Attempt α) >>= f = f a := rfl

theorem attempt_some_bind (a : α) (f : α → Attempt β) : (OptionT.mk (Except.ok (some a)) : Attempt α) >>= f = f a :=
  rfl

theorem unwrap_some (a : α) : unwrap (some a) = .ok a := rfl

theorem unwrap_eq_ok {o : Option α} {a : α} : unwrap o = .ok a ↔ o = some a := by
  cases o <;> simp [unwrap]

theorem index_eq_ok [BEq α] {m : List (α × β)} {k : α} {b : β} : index m k = .ok b ↔ m.lookup k = some b := by
  unfold index
  cases m.lookup k <;> simp

theorem index_safe [BEq α] {m : List (α × β)} {k : α} (h : (m.lookup k).isSome = true) : Safe (index m k) := by
  obtain ⟨b, hb⟩ := Option.isSome_iff_exists.mp h
  exact ⟨b, index_eq_ok.mpr hb⟩

theorem sub_eq_ok {a b c : Nat} : sub a b = .ok c ↔ b ≤ a ∧ a - b = c := by
  unfold sub
  split <;> simp_all

theorem item_safe {xs : List α} {i : Nat} (h : i < xs.length) : Safe (item xs i) := by
  simp [item, h]

theorem item_of_lt {xs : List α} {i : Nat} (h : i < xs.length) : item xs i = .ok xs[i] := by
  simp [item, h]

theorem sliceOf_of_le {xs : List α} {i j : Nat} (hij : i ≤ j) (hj : j ≤ xs.length) :
    sliceOf xs i j = .ok ((xs.take j).drop i) := by
  rw [sliceOf, if_pos ⟨hij, hj⟩]

/-! ## Conditions -/

theorem allOf_eq_true {ms : List (Run Bool)} : allOf ms = .ok true ↔ ∀ m ∈ ms, m = .ok true := by
  induction ms with
  | nil => simp [allOf]
  | cons m ms ih =>
    rw [allOf, bind_eq_ok, List.forall_mem_cons, ← ih]
    constructor
    · rintro ⟨b, rfl, h⟩
      cases b with
      | true => exact ⟨rfl, h⟩
      | false => cases h
    · rintro ⟨rfl, h⟩
      exact ⟨true, rfl, h⟩

/-- A chain of conditions that all return is their conjunction. -/
theorem allOf_ok (bs : List Bool) : allOf (bs.map Except.ok) = .ok (bs.all id) := by
  induction bs with
  | nil => rfl
  | cons b bs ih =>
    cases b with
    | true => exact ih
    | false => rfl

/-- Each condition of a chain may rely on the ones before it, as it is run only
if they hold. -/
theorem allOf_cons_safe {m : Run Bool} {ms : List (Run Bool)} (h : Safe m) (hs : m = .ok true → Safe (allOf ms)) :
    Safe (allOf (m :: ms)) := by
  refine h.bind fun b hb => ?_
  cases b with
  | true => exact hs hb
  | false => exact safe_ok false

@[simp] theorem allOf_nil_safe : Safe (allOf []) := safe_ok true

theorem allOf_safe {ms : List (Run Bool)} (h : ∀ m ∈ ms, Safe m) : Safe (allOf ms) := by
  induction ms with
  | nil => exact allOf_nil_safe
  | cons m ms ih =>
    rw [List.forall_mem_cons] at h
    exact allOf_cons_safe h.1 fun _ => ih h.2

theorem eager_returns {ms : List (Run Bool)} (h : ∀ m ∈ ms, Safe m) :
    Returns (eager ms) fun b => b = true → ∀ m ∈ ms, m = .ok true := by
  induction ms with
  | nil => simp [eager]
  | cons m ms ih =>
    rw [List.forall_mem_cons] at h
    refine h.1.returns.bind fun b hb => (ih h.2).bind fun bs hbs => ?_
    rw [returns_pure]
    intro hall
    rw [Bool.and_eq_true] at hall
    exact List.forall_mem_cons.mpr ⟨by rw [hb, hall.1], hbs hall.2⟩

theorem allOf_returns {ms : List (Run Bool)} (h : ∀ m ∈ ms, Safe m) :
    Returns (allOf ms) fun b => b = true → ∀ m ∈ ms, m = .ok true := by
  refine (allOf_safe h).returns.mono fun b hb hall => ?_
  rw [hall] at hb
  exact allOf_eq_true.mp hb

/-! ## Attempts -/

def Yields (m : Attempt α) (Q : α → Prop) : Prop := Returns m.run fun o => ∀ a, o = some a → Q a

theorem Yields.mono {m : Attempt α} {P Q : α → Prop} (h : Yields m P) (hPQ : ∀ a, P a → Q a) : Yields m Q :=
  Returns.mono h fun _ hP a ha => hPQ a (hP a ha)

theorem Yields.pure {a : α} {Q : α → Prop} (h : Q a) : Yields (pure a : Attempt α) Q :=
  ⟨some a, rfl, fun _ hb => Option.some.inj hb ▸ h⟩

theorem Yields.none {Q : α → Prop} : Yields (failure : Attempt α) Q := ⟨Option.none, rfl, nofun⟩

theorem Yields.bind {m : Attempt α} {f : α → Attempt β} {P : α → Prop} {Q : β → Prop} (h : Yields m P)
    (hf : ∀ a, P a → Yields (f a) Q) : Yields (m >>= f) Q := by
  obtain ⟨o, ho, hP⟩ := h
  cases o with
  | none =>
    refine ⟨Option.none, ?_, nofun⟩
    rw [OptionT.run_bind, ho]
    rfl
  | some a =>
    have hrun : (m >>= f).run = (f a).run := by
      rw [OptionT.run_bind, ho]
      rfl
    unfold Yields
    rw [hrun]
    exact hf a (hP a rfl)

theorem Yields.member {γ : Type} [BEq α] {m : List (α × β)} {k : α} {f : β → Option γ}
    (h : (m.lookup k).isSome = true) : Yields (member m k f) fun c => (m.lookup k).bind f = some c := by
  obtain ⟨b, hb⟩ := Option.isSome_iff_exists.mp h
  refine ⟨f b, ?_, fun c hc => by rw [hb]; exact hc⟩
  rw [Panics.member, OptionT.run_mk, index_eq_ok.mpr hb]
  rfl

theorem Yields.of {o : Option α} : Yields (OptionT.mk (Pure.pure o)) fun a => o = some a := ⟨o, rfl, fun _ h => h⟩

/-- A run inside an attempt: what it returns is known to what comes after. -/
theorem Yields.lift {m : Run α} {f : α → Attempt β} {P : α → Prop} {Q : β → Prop} (h : Returns m P)
    (hf : ∀ a, P a → Yields (f a) Q) : Yields ((liftM m : Attempt α) >>= f) Q := by
  obtain ⟨a, rfl, ha⟩ := h
  exact Yields.bind (P := P) (m := liftM (Except.ok a : Run α)) ⟨some a, rfl, fun _ hb => Option.some.inj hb ▸ ha⟩ hf

/-- An attempt that is another run, which yields if that returns something. -/
theorem Yields.mk {m : Run (Option α)} {Q : α → Prop} (h : Returns m fun o => ∀ a, o = some a → Q a) :
    Yields (OptionT.mk m) Q := h

theorem Yields.ite {c : Bool} {m : Attempt α} {Q : α → Prop} (h : c = true → Yields m Q) :
    Yields (if c then m else failure) Q := by
  cases c with
  | true => exact h rfl
  | false => exact Yields.none

theorem Yields.refuse {p : Prop} [Decidable p] {m : Attempt α} {Q : α → Prop} (h : ¬p → Yields m Q) :
    Yields (if p then failure else m) Q := by
  by_cases hp : p
  · rw [if_pos hp]
    exact Yields.none
  · rw [if_neg hp]
    exact h hp

/-! An attempt with a value had one at every step. -/

theorem attempt_bind {m : Attempt α} {f : α → Attempt β} {b : β} :
    (m >>= f).run = .ok (some b) ↔ ∃ a, m.run = .ok (some a) ∧ (f a).run = .ok (some b) := by
  rw [OptionT.run_bind]
  cases hm : m.run with
  | error e => simp [Option.elimM, Bind.bind, Except.bind]
  | ok o => cases o <;> simp [Option.elimM, Bind.bind, Except.bind, Pure.pure, Except.pure]

theorem attempt_member {γ : Type} [BEq α] {m : List (α × β)} {k : α} {f : β → Option γ} {c : γ} :
    (member m k f).run = .ok (some c) ↔ (m.lookup k).bind f = some c := by
  rw [member, OptionT.run_mk, index]
  cases m.lookup k <;> simp [Bind.bind, Except.bind, Pure.pure, Except.pure]

theorem attempt_pure {a b : α} : (pure a : Attempt α).run = .ok (some b) ↔ a = b := by
  rw [OptionT.run_pure, run_pure, Except.ok.injEq, Option.some.injEq]

theorem attempt_failure {b : α} : (failure : Attempt α).run ≠ .ok (some b) := by
  rw [OptionT.run_failure, run_pure]
  simp

theorem attempt_ite {p : Prop} [Decidable p] {m : Attempt α} {b : α} :
    (if p then failure else m).run = .ok (some b) ↔ ¬p ∧ m.run = .ok (some b) := by
  by_cases hp : p
  · rw [if_pos hp]
    exact ⟨fun h => absurd h attempt_failure, fun h => absurd hp h.1⟩
  · rw [if_neg hp, and_iff_right hp]

/-! ## Phases -/

def Ends (m : Phase ρ α) (R : ρ → Prop) (Q : α → Prop) : Prop :=
  Returns m.run fun
    | .error r => R r
    | .ok a => Q a

theorem Ends.mono {m : Phase ρ α} {R R' : ρ → Prop} {P Q : α → Prop} (h : Ends m R P) (hR : ∀ r, R r → R' r)
    (hPQ : ∀ a, P a → Q a) : Ends m R' Q := by
  refine Returns.mono h fun e => ?_
  cases e with
  | error r => exact hR r
  | ok a => exact hPQ a

theorem Ends.pure {a : α} {R : ρ → Prop} {Q : α → Prop} (h : Q a) : Ends (pure a : Phase ρ α) R Q := ⟨_, rfl, h⟩

theorem Ends.throw {r : ρ} {R : ρ → Prop} {Q : α → Prop} (h : R r) : Ends (throw r : Phase ρ α) R Q := ⟨_, rfl, h⟩

theorem Ends.bind {m : Phase ρ α} {f : α → Phase ρ β} {R : ρ → Prop} {P : α → Prop} {Q : β → Prop}
    (h : Ends m R P) (hf : ∀ a, P a → Ends (f a) R Q) : Ends (m >>= f) R Q := by
  obtain ⟨e, he, hP⟩ := h
  cases e with
  | error r =>
    have : (m >>= f).run = .ok (.error r) := by
      rw [ExceptT.run_bind, he]
      rfl
    exact ⟨_, this, hP⟩
  | ok a =>
    have : (m >>= f).run = (f a).run := by
      rw [ExceptT.run_bind, he]
      rfl
    unfold Ends
    rw [this]
    exact hf a hP

/-- A run inside a phase: it cannot end the phase early. -/
theorem Ends.lift {m : Run α} {f : α → Phase ρ β} {R : ρ → Prop} {P : α → Prop} {Q : β → Prop}
    (h : Returns m P) (hf : ∀ a, P a → Ends (f a) R Q) : Ends ((liftM m : Phase ρ α) >>= f) R Q := by
  obtain ⟨a, rfl, ha⟩ := h
  exact Ends.bind (m := liftM (Except.ok a : Run α)) (P := P) ⟨.ok a, rfl, ha⟩ hf

theorem Ends.require {ok : Bool} {r : ρ} {f : Unit → Phase ρ β} {R : ρ → Prop} {Q : β → Prop} (hr : R r)
    (hf : ok = true → Ends (f ()) R Q) : Ends (require ok r >>= f) R Q := by
  cases ok with
  | true => exact Ends.bind (P := fun _ => True) (Ends.pure trivial) fun _ _ => hf rfl
  | false => exact Ends.bind (P := fun _ => False) (Ends.throw hr) nofun

/-- A phase that goes on only if all conditions hold: behind it all of them are
known to have held. -/
theorem Ends.requireEager {ms : List (Run Bool)} {r : ρ} {f : Unit → Phase ρ β} {R : ρ → Prop} {Q : β → Prop}
    (hs : ∀ m ∈ ms, Safe m) (hr : R r) (hf : (∀ m ∈ ms, m = .ok true) → Ends (f ()) R Q) :
    Ends ((liftM (eager ms) : Phase ρ Bool) >>= fun b => Panics.require b r >>= f) R Q :=
  Ends.lift (eager_returns hs) fun _ hb => Ends.require hr fun ht => hf (hb ht)

theorem Ends.requireAll {ms : List (Run Bool)} {r : ρ} {f : Unit → Phase ρ β} {R : ρ → Prop} {Q : β → Prop}
    (hs : ∀ m ∈ ms, Safe m) (hr : R r) (hf : (∀ m ∈ ms, m = .ok true) → Ends (f ()) R Q) :
    Ends ((liftM (allOf ms) : Phase ρ Bool) >>= fun b => Panics.require b r >>= f) R Q :=
  Ends.lift (allOf_returns hs) fun _ hb => Ends.require hr fun ht => hf (hb ht)

theorem Ends.orElse {o : Option α} {r : ρ} {f : α → Phase ρ β} {R : ρ → Prop} {Q : β → Prop} (hr : R r)
    (hf : ∀ a, o = some a → Ends (f a) R Q) : Ends (orElse o r >>= f) R Q := by
  cases o with
  | some a => exact Ends.bind (P := fun b => b = a) (Ends.pure rfl) fun _ hb => hb ▸ hf a rfl
  | none => exact Ends.bind (P := fun _ => False) (Ends.throw hr) nofun

end Panics

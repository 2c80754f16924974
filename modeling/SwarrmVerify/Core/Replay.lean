import Mathlib.Tactic

/-!
# Runs of a partial step function

`run step s l` feeds the items of `l` to `step` one after another and stops
with `none` at the first item that is refused. States and items are of any
type. The rules below are the ones a log replay is proved with, and each is an
induction that is then not made again.

* `run_append`, `run_split`: a run cut at any point, or at one of its items.
* `run_history`: an invariant of the state and the items consumed so far. It
  holds of every run if it holds at the start and every step keeps it.
* `run_mono`: a preorder that every step respects relates start and end.

`drive step s l` is the same run with the state kept where it stopped, and
whether it got to the end.

* `drive_append`: it can be cut as well.
* `drive_run`: it is a run over a part of the items, over all of them if it got
  to the end.
-/
namespace Replay

variable {σ ι : Type*} {step : σ → ι → Option σ}

def run (step : σ → ι → Option σ) : σ → List ι → Option σ
  | s, [] => some s
  | s, x :: xs => (step s x).bind fun t => run step t xs

@[simp] theorem run_nil (s : σ) : run step s [] = some s := rfl

theorem run_cons {s t : σ} {x : ι} {xs : List ι} :
    run step s (x :: xs) = some t ↔ ∃ m, step s x = some m ∧ run step m xs = some t :=
  Option.bind_eq_some_iff

theorem run_append {s t : σ} {l r : List ι} :
    run step s (l ++ r) = some t ↔ ∃ m, run step s l = some m ∧ run step m r = some t := by
  induction l generalizing s with
  | nil => simp
  | cons x xs ih =>
    simp only [List.cons_append, run_cons, ih]
    constructor
    · rintro ⟨a, ha, m, hm, ht⟩; exact ⟨m, ⟨a, ha, hm⟩, ht⟩
    · rintro ⟨m, ⟨a, ha, hm⟩, ht⟩; exact ⟨a, ha, m, hm, ht⟩

/-- What the run did at one of its items. -/
theorem run_split {s t : σ} {l r : List ι} {x : ι} (h : run step s (l ++ x :: r) = some t) :
    ∃ a b, run step s l = some a ∧ step a x = some b ∧ run step b r = some t := by
  obtain ⟨a, ha, hr⟩ := run_append.mp h
  obtain ⟨b, hb, ht⟩ := run_cons.mp hr
  exact ⟨a, b, ha, hb, ht⟩

/-- An invariant over the items consumed so far and the state they led to. -/
theorem run_history {P : List ι → σ → Prop} {s₀ : σ} (h0 : P [] s₀)
    (hstep : ∀ l s x t, run step s₀ l = some s → P l s → step s x = some t → P (l ++ [x]) t)
    {l : List ι} {s : σ} (h : run step s₀ l = some s) : P l s := by
  induction l using List.reverseRecOn generalizing s with
  | nil => obtain rfl := Option.some.inj h; exact h0
  | append_singleton l x ih =>
    obtain ⟨a, b, ha, hb, hs⟩ := run_split h
    obtain rfl := Option.some.inj hs
    exact hstep l a x b ha (ih ha) hb

/-- A preorder respected by every step is respected by the run. -/
theorem run_mono {R : σ → σ → Prop} (hrefl : ∀ s, R s s) (htrans : ∀ a b c, R a b → R b c → R a c)
    (hstep : ∀ s x t, step s x = some t → R s t) {l : List ι} {s t : σ} (h : run step s l = some t) :
    R s t := by
  induction l generalizing s with
  | nil => obtain rfl := Option.some.inj h; exact hrefl s
  | cons x xs ih =>
    obtain ⟨m, hm, ht⟩ := run_cons.mp h
    exact htrans s m t (hstep s x m hm) (ih ht)

/-! ## Where a run stops -/

/-- Whether every item was taken, and the state it came to. -/
def drive (step : σ → ι → Option σ) : σ → List ι → Bool × σ
  | s, [] => (true, s)
  | s, x :: xs =>
    match step s x with
    | some t => drive step t xs
    | none => (false, s)

theorem drive_append (s : σ) (l r : List ι) :
    drive step s (l ++ r) = if (drive step s l).1 then drive step (drive step s l).2 r else drive step s l := by
  induction l generalizing s with
  | nil => rfl
  | cons x xs ih =>
    rw [List.cons_append, drive, drive]
    cases step s x with
    | none => rfl
    | some t => exact ih t

theorem drive_run (step : σ → ι → Option σ) (s : σ) (l : List ι) :
    ∃ l₁ l₂, l = l₁ ++ l₂ ∧ run step s l₁ = some (drive step s l).2 ∧ ((drive step s l).1 = true → l₂ = []) := by
  induction l generalizing s with
  | nil => exact ⟨[], [], rfl, rfl, fun _ => rfl⟩
  | cons x xs ih =>
    rw [drive]
    cases hx : step s x with
    | none => exact ⟨[], x :: xs, rfl, rfl, nofun⟩
    | some t =>
      obtain ⟨l₁, l₂, rfl, hrun, hall⟩ := ih t
      exact ⟨x :: l₁, l₂, rfl, run_cons.mpr ⟨t, hx, hrun⟩, hall⟩

end Replay

import Mathlib.Logic.Relation
import Mathlib.Logic.Function.Basic
import Mathlib.Order.Defs.PartialOrder

/-!
# Search with costs

A search keeps a stack of nodes, each with the cost at which it was reached,
and under the key of a node the last cost at which it was expanded. It skips a
node that was expanded at a cost that is not greater. Where a step that is
possible at some cost is possible at every smaller one, and at no greater
price, skipping loses nothing.

Nodes, keys and steps are of any type; costs are natural numbers. The invariant
is that of a graph search with one word changed: what can be reached from an
expanded node is expanded or waiting, at a cost that is not greater.

* `Closed`: what holds between two turns; `closed_init`, `Closed.skip` and
  `Closed.expand` keep it, one for each thing that a turn can do.
* `Closed.exhausted`: with an empty stack, whatever can be reached was expanded
  at no greater cost.
* `Closed.no_goal`: a search that ends without a goal has missed none.
-/
namespace Search
open Relation

variable {V K C : Type*} [Preorder C]

/-- A smaller cost allows the same steps, to costs that are not greater. -/
def Cheaper (next : V × C → V × C → Prop) : Prop :=
  ∀ x m n q, m ≤ n → next (x, n) q → ∃ m' ≤ q.2, next (x, m) (q.1, m')

/-- A node waits or was expanded, at a cost that is not greater. -/
def Covered (key : V → K) (stack : List (V × C)) (seen : K → Option C) (q : V × C) : Prop :=
  ∃ m ≤ q.2, (q.1, m) ∈ stack ∨ seen (key q.1) = some m

/-- What holds of the stack and the costs seen between two turns. -/
structure Closed (key : V → K) (next : V × C → V × C → Prop) (goal : V → Prop) (start : V × C)
    (stack : List (V × C)) (seen : K → Option C) : Prop where
  initial : Covered key stack seen start
  expanded : ∀ x n, seen (key x) = some n → ¬ goal x ∧ ∀ q, next (x, n) q → Covered key stack seen q
  reached : ∀ q ∈ stack, ReflTransGen next start q

section
variable {key : V → K} {next : V × C → V × C → Prop} {goal : V → Prop} {start : V × C} {stack : List (V × C)}
  {seen : K → Option C}

theorem closed_init : Closed key next goal start [start] fun _ => none where
  initial := ⟨start.2, le_rfl, .inl (List.mem_singleton_self _)⟩
  expanded x n h := by cases h
  reached q hq := by
    rw [List.mem_singleton] at hq
    rw [hq]

/-- Another place where a node waits or was expanded. -/
theorem Covered.mono {stack' : List (V × C)} {seen' : K → Option C} {q : V × C} (h : Covered key stack seen q)
    (hstack : ∀ r ∈ stack, Covered key stack' seen' r)
    (hseen : ∀ x n, seen (key x) = some n → Covered key stack' seen' (x, n)) : Covered key stack' seen' q := by
  obtain ⟨m, hm, hwhere⟩ := h
  have hnew : Covered key stack' seen' (q.1, m) := hwhere.elim (hstack _) (hseen _ _)
  obtain ⟨m', hm', hwhere'⟩ := hnew
  exact ⟨m', le_trans hm' hm, hwhere'⟩

/-- A node that was expanded at no greater cost is skipped. -/
theorem Closed.skip {x : V} {n b : C} (h : Closed key next goal start ((x, n) :: stack) seen)
    (hseen : seen (key x) = some b) (hb : b ≤ n) : Closed key next goal start stack seen := by
  have hcovered : ∀ q, Covered key ((x, n) :: stack) seen q → Covered key stack seen q := by
    intro q hq
    refine hq.mono ?_ fun y m hy => ⟨m, le_rfl, .inr hy⟩
    intro r hr
    rcases List.mem_cons.mp hr with rfl | hr
    · exact ⟨b, hb, .inr hseen⟩
    · exact ⟨r.2, le_rfl, .inl hr⟩
  refine ⟨hcovered _ h.initial, ?_, fun q hq => h.reached q (List.mem_cons_of_mem _ hq)⟩
  intro y m hy
  obtain ⟨hgoal, hsteps⟩ := h.expanded y m hy
  exact ⟨hgoal, fun q hq => hcovered q (hsteps q hq)⟩

/-- A node is expanded at a cost below the one seen. -/
theorem Closed.expand [DecidableEq K] (hkey : Function.Injective key) {x : V} {n : C} {pushed : List (V × C)}
    (h : Closed key next goal start ((x, n) :: stack) seen) (hseen : ∀ b, seen (key x) = some b → n ≤ b)
    (hgoal : ¬ goal x) (hpushed : ∀ q, q ∈ pushed ↔ next (x, n) q) :
    Closed key next goal start (pushed ++ stack) (Function.update seen (key x) (some n)) := by
  have hreached := h.reached (x, n) List.mem_cons_self
  have hcovered : ∀ q, Covered key ((x, n) :: stack) seen q →
      Covered key (pushed ++ stack) (Function.update seen (key x) (some n)) q := by
    intro q hq
    refine hq.mono ?_ ?_
    · intro r hr
      rcases List.mem_cons.mp hr with rfl | hr
      · exact ⟨n, le_rfl, .inr (Function.update_self ..)⟩
      · exact ⟨r.2, le_rfl, .inl (List.mem_append_right _ hr)⟩
    · intro y m hy
      by_cases hyx : y = x
      · subst hyx
        exact ⟨n, hseen m hy, .inr (Function.update_self ..)⟩
      · exact ⟨m, le_rfl, .inr (by rwa [Function.update_of_ne (hkey.ne hyx)])⟩
  refine ⟨hcovered _ h.initial, ?_, ?_⟩
  · intro y m hy
    by_cases hyx : y = x
    · subst hyx
      rw [Function.update_self, Option.some.injEq] at hy
      subst hy
      exact ⟨hgoal, fun q hq => ⟨q.2, le_rfl, .inl (List.mem_append_left _ ((hpushed q).mpr hq))⟩⟩
    · rw [Function.update_of_ne (hkey.ne hyx)] at hy
      obtain ⟨hno, hsteps⟩ := h.expanded y m hy
      exact ⟨hno, fun q hq => hcovered q (hsteps q hq)⟩
  · intro q hq
    rcases List.mem_append.mp hq with hq | hq
    · exact hreached.tail ((hpushed q).mp hq)
    · exact h.reached q (List.mem_cons_of_mem _ hq)

/-- With an empty stack, what can be reached was expanded at no greater cost. -/
theorem Closed.exhausted (hcheaper : Cheaper next) (h : Closed key next goal start [] seen) {q : V × C}
    (hq : ReflTransGen next start q) : ∃ m ≤ q.2, seen (key q.1) = some m := by
  have hempty : ∀ {r}, Covered key [] seen r → ∃ m ≤ r.2, seen (key r.1) = some m := by
    intro r hr
    obtain ⟨m, hm, hwhere⟩ := hr
    exact ⟨m, hm, hwhere.resolve_left (List.not_mem_nil)⟩
  induction hq with
  | refl => exact hempty h.initial
  | @tail r q _ hstep ih =>
    obtain ⟨m, hm, hseen⟩ := ih
    obtain ⟨m', hm', hstep'⟩ := hcheaper r.1 m r.2 q hm hstep
    obtain ⟨k, hk, hseen'⟩ := hempty ((h.expanded r.1 m hseen).2 _ hstep')
    exact ⟨k, le_trans hk hm', hseen'⟩

/-- A search that ends without a goal has missed none. -/
theorem Closed.no_goal (hcheaper : Cheaper next) (h : Closed key next goal start [] seen) {q : V × C}
    (hq : ReflTransGen next start q) : ¬ goal q.1 := by
  obtain ⟨m, -, hseen⟩ := h.exhausted hcheaper hq
  exact (h.expanded q.1 m hseen).1

end

end Search

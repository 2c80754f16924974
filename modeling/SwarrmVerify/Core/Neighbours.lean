import Mathlib.Data.List.Duplicate
import Mathlib.Data.List.Perm.Basic
import Mathlib.Data.List.Sort

/-!
# Lists with repeated neighbours

`Repeats l c` says that `l` is `c` with elements repeated in place. What a
reader of `l` can tell from a reader of `c` is which elements stand twice:
filters, searches and folds whose step is idempotent cannot. Every reader of a
list has its rule here, so that a program which is made of them is transported
from one list to the other by composition.

Where the elements come from a sort by a key that tells them apart, the list of
one element for each key has no repetition, and depends on the members only; so
two lists of the same members, in any order and number, repeat one list.

* `Repeats.filter`, `Repeats.mapM`, `Repeats.find?_eq`, `Repeats.any_eq`: one
  rule for each reader.
* `Repeats.foldl_eq`: an idempotent step does not see repetitions.
* `Repeats.pair`: a pair in order stands in both, or is one element twice.
* `repeats_pwFilter`: a list sorted by a key that tells its elements apart
  repeats the list of one element for each key.
* `eq_of_same_members`: that list depends on the members only.
-/
namespace Neighbours

variable {α β κ : Type*}

/-- The first list is the second with elements repeated in place. -/
inductive Repeats : List α → List α → Prop where
  | nil : Repeats [] []
  | cons (a : α) (n : Nat) {l c : List α} (h : Repeats l c) : Repeats (List.replicate (n + 1) a ++ l) (a :: c)

namespace Repeats

variable {l c : List α}

theorem again {a : α} (h : Repeats (a :: l) c) : Repeats (a :: a :: l) c := by
  generalize hal : a :: l = al at h
  cases h with
  | nil => cases hal
  | cons b n h =>
    rw [List.replicate_succ, List.cons_append, List.cons.injEq] at hal
    obtain ⟨rfl, rfl⟩ := hal
    exact Repeats.cons a (n + 1) h

theorem mem_iff (h : Repeats l c) {x : α} : x ∈ l ↔ x ∈ c := by
  induction h with
  | nil => rfl
  | cons a n h ih => simp [ih]

theorem sublist (h : Repeats l c) : c.Sublist l := by
  induction h with
  | nil => exact .refl _
  | cons a n h ih =>
    rw [List.replicate_succ, List.cons_append]
    exact .cons_cons a (ih.trans (List.sublist_append_right _ _))

theorem eq_nil_iff (h : Repeats l c) : l = [] ↔ c = [] := by
  rw [List.eq_nil_iff_forall_not_mem, List.eq_nil_iff_forall_not_mem]
  simp only [h.mem_iff]

theorem eq_singleton {a : α} (h : Repeats [a] c) : c = [a] := by
  generalize hal : [a] = al at h
  cases h with
  | nil => cases hal
  | cons b n h =>
    rw [← hal]
    rw [List.replicate_succ, List.cons_append, List.cons.injEq] at hal
    obtain ⟨rfl, hnil⟩ := hal
    obtain ⟨-, rfl⟩ := List.append_eq_nil_iff.mp hnil.symm
    rw [h.eq_nil_iff.mp rfl]

theorem any_eq (h : Repeats l c) (p : α → Bool) : l.any p = c.any p := by
  rw [Bool.eq_iff_iff, List.any_eq_true, List.any_eq_true]
  simp only [h.mem_iff]

theorem filter (h : Repeats l c) (p : α → Bool) : Repeats (l.filter p) (c.filter p) := by
  induction h with
  | nil => exact .nil
  | cons a n h ih =>
    rw [List.filter_append, List.filter_replicate, List.filter_cons]
    split
    · exact .cons a n ih
    · exact ih

theorem map (h : Repeats l c) (f : α → β) : Repeats (l.map f) (c.map f) := by
  induction h with
  | nil => exact .nil
  | cons a n h ih =>
    rw [List.map_append, List.map_replicate, List.map_cons]
    exact .cons _ n ih

theorem find?_eq (h : Repeats l c) (p : α → Bool) : l.find? p = c.find? p := by
  induction h with
  | nil => rfl
  | cons a n h ih =>
    rw [List.find?_append, ih, List.find?_cons, List.find?_replicate]
    cases hp : p a <;> simp

theorem reverse_find?_eq (h : Repeats l c) (p : α → Bool) : l.reverse.find? p = c.reverse.find? p := by
  induction h with
  | nil => rfl
  | cons a n h ih =>
    rw [List.reverse_append, List.find?_append, ih, List.reverse_cons, List.find?_append, List.reverse_replicate,
      List.find?_replicate]
    cases hp : p a <;> simp [hp]

theorem head?_eq (h : Repeats l c) : l.head? = c.head? := by
  cases h with
  | nil => rfl
  | cons a n h => simp [List.replicate_succ]

theorem getLast?_eq (h : Repeats l c) : l.getLast? = c.getLast? := by
  induction h with
  | nil => rfl
  | @cons a n l c h ih =>
    rw [List.getLast?_append, ih, List.getLast?_cons, List.getLast?_replicate]
    cases c.getLast? <;> simp

/-- A step that a second turn does not change cannot tell the lists apart. -/
theorem foldl_eq (h : Repeats l c) {f : β → α → β} (hf : ∀ s a, f (f s a) a = f s a) :
    ∀ s, l.foldl f s = c.foldl f s := by
  induction h with
  | nil => intro s; rfl
  | cons a n h ih =>
    intro s
    have hblock : ∀ m s, (List.replicate (m + 1) a).foldl f s = f s a := by
      intro m
      induction m with
      | zero => intro s; rfl
      | succ m ihm => intro s; rw [List.replicate_succ, List.foldl_cons, ihm, hf]
    rw [List.foldl_append, hblock, ih, List.foldl_cons]

/-- Both lists fail to read, or what is read repeats alike. -/
theorem mapM (h : Repeats l c) (f : α → Option β) :
    (l.mapM f = none ∧ c.mapM f = none) ∨ ∃ l' c', l.mapM f = some l' ∧ c.mapM f = some c' ∧ Repeats l' c' := by
  induction h with
  | nil => exact .inr ⟨[], [], rfl, rfl, .nil⟩
  | cons a n h ih =>
    rw [List.mapM_append, List.mapM_cons]
    cases ha : f a with
    | none =>
      left
      simp [List.replicate_succ, ha]
    | some b =>
      have hblock : ∀ m, (List.replicate m a).mapM f = some (List.replicate m b) := by
        intro m
        induction m with
        | zero => rfl
        | succ m ihm => simp [List.replicate_succ, ha, ihm]
      rcases ih with ⟨hl, hc⟩ | ⟨l', c', hl, hc, hrep⟩
      · left
        simp [hblock, hl, hc]
      · right
        exact ⟨List.replicate (n + 1) b ++ l', b :: c', by simp [hblock, hl], by simp [hc], .cons b n hrep⟩

/-- What stands twice in a list without repetitions is one element of the
other. -/
theorem pair (h : Repeats l c) {a b : α} (hab : [a, b].Sublist l) : [a, b].Sublist c ∨ a = b := by
  induction h with
  | nil => cases hab
  | cons x n h ih =>
    obtain ⟨s, t, hst, hs, ht⟩ := List.sublist_append_iff.mp hab
    rcases s with _ | ⟨y, _ | ⟨z, s⟩⟩
    · rw [List.nil_append] at hst
      subst hst
      exact (ih ht).imp_left fun h => h.cons x
    · obtain ⟨rfl, rfl⟩ : a = y ∧ t = [b] := by simpa [eq_comm] using hst
      have hax : a = x := List.eq_of_mem_replicate (hs.subset List.mem_cons_self)
      subst hax
      exact .inl (.cons_cons a (List.singleton_sublist.mpr (h.mem_iff.mp (ht.subset List.mem_cons_self))))
    · obtain ⟨rfl, rfl, rfl, rfl⟩ : a = y ∧ b = z ∧ s = [] ∧ t = [] := by simpa [eq_comm] using hst
      right
      rw [List.eq_of_mem_replicate (hs.subset (by simp : a ∈ [a, b])),
        List.eq_of_mem_replicate (hs.subset (by simp : b ∈ [a, b]))]

/-- What stands twice after a block of an element that the rest lacks. -/
theorem duplicate_block {a x : α} {n : Nat} (ha : a ∉ l) :
    List.Duplicate x (List.replicate (n + 1) a ++ l) ↔ (x = a ∧ 0 < n) ∨ List.Duplicate x l := by
  classical
  rw [List.duplicate_iff_two_le_count, List.duplicate_iff_two_le_count, List.count_append, List.count_replicate]
  by_cases hx : x = a
  · subst hx
    simp [List.count_eq_zero_of_not_mem ha, Nat.one_le_iff_ne_zero, Nat.pos_iff_ne_zero]
  · simp [hx, Ne.symm hx]

/-- Of a filtered list stands twice what stands twice and passes. -/
theorem duplicate_filter {p : α → Bool} {x : α} : List.Duplicate x (l.filter p) ↔ List.Duplicate x l ∧ p x = true := by
  rw [List.duplicate_iff_sublist, List.duplicate_iff_sublist]
  constructor
  · intro h
    have hx : x ∈ l.filter p := h.subset List.mem_cons_self
    exact ⟨h.trans List.filter_sublist, (List.mem_filter.mp hx).2⟩
  · rintro ⟨h, hp⟩
    simpa [hp] using h.filter p

end Repeats

/-! ## Sorted lists -/

section
variable [LinearOrder κ] (key : α → κ)

theorem repeats_pwFilter {l : List α} (hs : l.Pairwise fun a b => key a ≤ key b)
    (hinj : ∀ a ∈ l, ∀ b ∈ l, key a = key b → a = b) : Repeats l (l.pwFilter fun a b => key a ≠ key b) := by
  induction l with
  | nil => exact .nil
  | cons a l ih =>
    have hrest := ih (List.pairwise_cons.mp hs).2 fun x hx y hy =>
      hinj x (List.mem_cons_of_mem _ hx) y (List.mem_cons_of_mem _ hy)
    by_cases hnew : ∀ b ∈ l.pwFilter fun a b => key a ≠ key b, key a ≠ key b
    · rw [List.pwFilter_cons_of_pos hnew]
      exact .cons a 0 hrest
    · rw [List.pwFilter_cons_of_neg hnew]
      -- an element of this key stands in `l`, so the first of `l` has it
      obtain ⟨b, hb, hkey⟩ : ∃ b ∈ l, key a = key b := by
        push Not at hnew
        obtain ⟨b, hb, hkey⟩ := hnew
        exact ⟨b, List.pwFilter_subset _ hb, hkey⟩
      cases l with
      | nil => cases hb
      | cons x l =>
        have hax : key a ≤ key x := List.rel_of_pairwise_cons hs List.mem_cons_self
        have hxb : key x ≤ key b := by
          rcases List.mem_cons.mp hb with rfl | hb
          · exact le_rfl
          · exact List.rel_of_pairwise_cons (List.pairwise_cons.mp hs).2 hb
        obtain rfl : a = x := hinj a List.mem_cons_self x (by simp) (le_antisymm hax (hxb.trans hkey.ge))
        exact hrest.again

/-- Of a sorted list, one element for each key: sorted without ties. -/
theorem pwFilter_sorted {l : List α} (hs : l.Pairwise fun a b => key a ≤ key b) :
    (l.pwFilter fun a b => key a ≠ key b).Pairwise fun a b => key a < key b :=
  (List.pairwise_pwFilter l).imp₂ (fun _ _ hne hle => lt_of_le_of_ne hle hne) (hs.sublist (List.pwFilter_sublist l))

variable {key}

theorem eq_of_same_members {c c' : List α} (hc : c.Pairwise fun a b => key a < key b)
    (hc' : c'.Pairwise fun a b => key a < key b) (h : ∀ x, x ∈ c ↔ x ∈ c') : c = c' := by
  have hnodup : ∀ {l : List α}, l.Pairwise (fun a b => key a < key b) → l.Nodup := by
    intro l hl
    refine hl.imp fun {a b} hlt he => ?_
    rw [he] at hlt
    exact lt_irrefl _ hlt
  refine ((List.perm_ext_iff_of_nodup (hnodup hc) (hnodup hc')).mpr h).eq_of_pairwise ?_ hc hc'
  intro a b _ _ hab hba
  exact absurd (hab.trans hba) (lt_irrefl _)

end

end Neighbours

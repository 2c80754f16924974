import Mathlib.Tactic

/-!
# Sorted maps

A map as the list of its entries in increasing order of keys, each key once: a
`BTreeMap` without its tree. A map is made by inserting entries one after the
other, and later entries overwrite earlier ones. The keys are of any linear
order and the values of any type.

Two ways lead into such a map. Read as a list it has members, read as a map it
has answers, and the lemmas here go between the two.

* `lookup_insert`, `lookup_ofList`: what a map answers; the last entry of a key
  counts.
* `ext_of_sorted`: a sorted map is determined by what it answers.
* `lookup_iff_of_nodup`, `mem_ofList`, `mem_keys_ofList`: where no key is
  repeated the answers are the entries.
* `ofList_congr`: entries of which equal keys have equal values make one map,
  in any order and however often they are repeated.
-/
namespace SortedMap

variable {κ β : Type} [LinearOrder κ]

def insert (k : κ) (b : β) : List (κ × β) → List (κ × β)
  | [] => [(k, b)]
  | (j, c) :: m => if k < j then (k, b) :: (j, c) :: m else if k = j then (k, b) :: m else (j, c) :: insert k b m

/-- The entries inserted one after the other. -/
def ofList (l : List (κ × β)) : List (κ × β) := l.foldl (fun m e => insert e.1 e.2 m) []

def Sorted (m : List (κ × β)) : Prop := m.Pairwise fun a b => a.1 < b.1

theorem lookup_cons_eq (k j : κ) (b : β) (m : List (κ × β)) :
    ((k, b) :: m).lookup j = if j = k then some b else m.lookup j := by
  by_cases h : j = k
  · subst h
    rw [if_pos rfl, List.lookup_cons_self]
  · rw [if_neg h, List.lookup_cons, beq_false_of_ne h]

theorem lookup_insert (k j : κ) (b : β) (m : List (κ × β)) :
    (insert k b m).lookup j = if j = k then some b else m.lookup j := by
  induction m with
  | nil => rw [insert, lookup_cons_eq]
  | cons e m ih =>
    obtain ⟨i, c⟩ := e
    rw [insert]
    split
    · rw [lookup_cons_eq]
    · split
      · rename_i he
        subst he
        rw [lookup_cons_eq, lookup_cons_eq]
        split
        · rfl
        · rfl
      · rename_i hne
        rw [lookup_cons_eq, lookup_cons_eq, ih]
        by_cases h : j = i
        · subst h
          rw [if_pos rfl, if_neg (Ne.symm hne), if_pos rfl]
        · rw [if_neg h, if_neg h]

theorem mem_insert {k : κ} {b : β} {m : List (κ × β)} {e : κ × β} (h : e ∈ insert k b m) : e = (k, b) ∨ e ∈ m := by
  induction m with
  | nil => exact .inl (List.mem_singleton.mp h)
  | cons d m ih =>
    rw [insert] at h
    split at h
    · rcases List.mem_cons.mp h with h | h
      · exact .inl h
      · exact .inr h
    · split at h
      · rcases List.mem_cons.mp h with h | h
        · exact .inl h
        · exact .inr (List.mem_cons_of_mem _ h)
      · rcases List.mem_cons.mp h with h | h
        · exact .inr (h ▸ List.mem_cons_self)
        · rcases ih h with h | h
          · exact .inl h
          · exact .inr (List.mem_cons_of_mem _ h)

theorem sorted_insert {k : κ} {b : β} {m : List (κ × β)} (h : Sorted m) : Sorted (insert k b m) := by
  induction m with
  | nil => exact List.pairwise_singleton _ _
  | cons d m ih =>
    obtain ⟨hhead, htail⟩ := List.pairwise_cons.mp h
    rw [insert]
    split
    · rename_i hlt
      refine List.pairwise_cons.mpr ⟨fun e he => ?_, h⟩
      rcases List.mem_cons.mp he with rfl | he
      · exact hlt
      · exact lt_trans hlt (hhead e he)
    · split
      · rename_i heq
        refine List.pairwise_cons.mpr ⟨fun e he => ?_, htail⟩
        exact heq ▸ hhead e he
      · rename_i hnot hne
        refine List.pairwise_cons.mpr ⟨fun e he => ?_, ih htail⟩
        rcases mem_insert he with rfl | he
        · exact lt_of_le_of_ne (not_lt.mp hnot) (Ne.symm hne)
        · exact hhead e he

theorem foldl_insert (l : List (κ × β)) (m : List (κ × β)) (j : κ) :
    (l.foldl (fun m e => insert e.1 e.2 m) m).lookup j = (l.reverse.lookup j).or (m.lookup j) := by
  induction l generalizing m with
  | nil => rfl
  | cons e l ih =>
    obtain ⟨k, b⟩ := e
    rw [List.foldl_cons, ih, lookup_insert, List.reverse_cons, List.lookup_append, lookup_cons_eq, List.lookup_nil]
    by_cases h : j = k <;> cases l.reverse.lookup j <;> simp [h]

/-- The last entry of a key counts. -/
theorem lookup_ofList (l : List (κ × β)) (j : κ) : (ofList l).lookup j = l.reverse.lookup j := by
  rw [ofList, foldl_insert, List.lookup_nil, Option.or_none]

theorem sorted_ofList (l : List (κ × β)) : Sorted (ofList l) := by
  have hfold : ∀ m : List (κ × β), Sorted m → Sorted (l.foldl (fun m e => insert e.1 e.2 m) m) := by
    induction l with
    | nil => exact fun m h => h
    | cons e l ih => exact fun m h => ih _ (sorted_insert h)
  exact hfold [] List.Pairwise.nil

theorem Sorted.lookup_iff {m : List (κ × β)} (h : Sorted m) {k : κ} {b : β} : m.lookup k = some b ↔ (k, b) ∈ m := by
  induction m with
  | nil => simp
  | cons e m ih =>
    obtain ⟨j, c⟩ := e
    obtain ⟨hhead, htail⟩ := List.pairwise_cons.mp h
    rw [lookup_cons_eq, List.mem_cons]
    by_cases hk : k = j
    · subst hk
      simp only [if_true, Option.some.injEq, Prod.mk.injEq, true_and]
      constructor
      · intro he
        exact .inl he.symm
      · rintro (he | he)
        · exact he.symm
        · exact absurd (hhead _ he) (lt_irrefl k)
    · rw [if_neg hk, ih htail]
      simp [hk]

/-- A sorted map is determined by what it answers. -/
theorem ext_of_sorted {m n : List (κ × β)} (hm : Sorted m) (hn : Sorted n) (h : ∀ k, m.lookup k = n.lookup k) : m = n := by
  have hmem : ∀ e, e ∈ m ↔ e ∈ n := by
    intro e
    rw [← hm.lookup_iff (k := e.1), ← hn.lookup_iff (k := e.1), h e.1]
  have hnodup : ∀ l : List (κ × β), Sorted l → l.Nodup := fun l hl => hl.imp fun hab he => absurd (he ▸ hab) (lt_irrefl _)
  have hperm : m.Perm n := (List.perm_ext_iff_of_nodup (hnodup m hm) (hnodup n hn)).mpr hmem
  exact hperm.eq_of_pairwise (fun a b _ _ hab hba => absurd hab (lt_asymm hba)) hm hn

theorem mem_keys {l : List (κ × β)} {k : κ} : k ∈ l.map Prod.fst ↔ (l.lookup k).isSome = true := by
  induction l with
  | nil => simp
  | cons e l ih =>
    obtain ⟨j, c⟩ := e
    rw [List.map_cons, List.mem_cons, lookup_cons_eq, ih]
    by_cases h : k = j <;> simp [h]

/-- Where no key is repeated, a map answers with its entries. -/
theorem lookup_iff_of_nodup {l : List (κ × β)} (h : (l.map Prod.fst).Nodup) {k : κ} {b : β} :
    l.lookup k = some b ↔ (k, b) ∈ l := by
  induction l with
  | nil => simp
  | cons e l ih =>
    obtain ⟨j, c⟩ := e
    rw [List.map_cons, List.nodup_cons] at h
    rw [lookup_cons_eq, List.mem_cons, Prod.mk.injEq, ← ih h.2]
    by_cases hk : k = j
    · have hnone : l.lookup k ≠ some b := by
        intro hb
        exact h.1 (hk ▸ mem_keys.mpr (Option.isSome_of_eq_some hb))
      simp [hk, hk ▸ hnone, eq_comm]
    · simp [hk]

/-- The keys of entries. -/
theorem mem_keys_ofList {l : List (κ × β)} {k : κ} : k ∈ (ofList l).map Prod.fst ↔ k ∈ l.map Prod.fst := by
  rw [mem_keys, lookup_ofList, ← mem_keys, List.map_reverse, List.mem_reverse]

theorem Sorted.keys {m : List (κ × β)} (h : Sorted m) : (m.map Prod.fst).Pairwise (· < ·) := List.pairwise_map.mpr h

theorem mem_of_lookup_ofList {l : List (κ × β)} {k : κ} {b : β} (h : (ofList l).lookup k = some b) : (k, b) ∈ l := by
  rw [lookup_ofList, List.lookup_eq_some_iff] at h
  obtain ⟨x, y, he, -⟩ := h
  rw [← List.mem_reverse, he]
  simp

theorem mem_of_mem_ofList {l : List (κ × β)} {e : κ × β} (h : e ∈ ofList l) : e ∈ l :=
  mem_of_lookup_ofList ((sorted_ofList l).lookup_iff.mpr h)

/-- Where equal keys have equal values, the map holds the entries. -/
theorem lookup_ofList_iff {l : List (κ × β)} (h : ∀ e ∈ l, ∀ d ∈ l, e.1 = d.1 → e.2 = d.2) {k : κ} {b : β} :
    (ofList l).lookup k = some b ↔ (k, b) ∈ l := by
  refine ⟨mem_of_lookup_ofList, fun hb => ?_⟩
  have hkey : k ∈ (ofList l).map Prod.fst := mem_keys_ofList.mpr (List.mem_map.mpr ⟨_, hb, rfl⟩)
  obtain ⟨⟨j, c⟩, hc, rfl⟩ := List.mem_map.mp hkey
  have hfound := (sorted_ofList l).lookup_iff.mpr hc
  obtain rfl : c = b := h (j, c) (mem_of_lookup_ofList hfound) (j, b) hb rfl
  exact hfound

/-- Where no key is repeated, the map holds the entries. -/
theorem mem_ofList {l : List (κ × β)} (h : (l.map Prod.fst).Nodup) {e : κ × β} : e ∈ ofList l ↔ e ∈ l := by
  obtain ⟨k, b⟩ := e
  rw [← (sorted_ofList l).lookup_iff, lookup_ofList_iff]
  intro d hd e he hkey
  have hd' := (lookup_iff_of_nodup h).mpr hd
  rw [hkey, (lookup_iff_of_nodup h).mpr he] at hd'
  exact (Option.some.inj hd').symm

/-- Entries of which equal keys have equal values make one map in any order
and however often they are repeated. -/
theorem ofList_congr {l l' : List (κ × β)} (hmem : ∀ e, e ∈ l ↔ e ∈ l')
    (h : ∀ e ∈ l, ∀ d ∈ l, e.1 = d.1 → e.2 = d.2) : ofList l = ofList l' := by
  refine ext_of_sorted (sorted_ofList l) (sorted_ofList l') fun k => Option.ext fun b => ?_
  rw [lookup_ofList_iff h, lookup_ofList_iff, hmem]
  exact fun e he d hd => h e ((hmem e).mpr he) d ((hmem d).mpr hd)

end SortedMap

import Mathlib.Tactic

/-!
# Successions

A list of rows is read from the front. A row may enter a holder (`enters`), and
a holder may recognise the row that enters the next one (`links`). The first row
that enters one starts the line; a later one continues it where the holder in
office recognises it, and is disputed where he does not. Whether a row enters a
holder does not depend on where it stands, and no row enters two.

`Line` says which holders a list of rows has, by the places of the rows that
entered them and with nothing said about how the list was read. A replay that
starts a line at the first entering row, appends where `links` allows and leaves
out everything else has exactly this history.

* `Line.nil`, `Line.skip`, `Line.start`, `Line.extend`: what one more row makes
  of a line.
* `Line.started`: there is a holder exactly if some row enters one.
* `disputed_concat`: what one more row makes of the disputes.
-/
namespace Succession

variable {α β : Type}

/-- The holder in office before a place. -/
def reached (history : List (Nat × β)) (i : Nat) : Option β :=
  (history.filter fun p => decide (p.1 < i)).getLast?.map Prod.snd

/-- The line of some rows: holders with the places of the rows that entered
them. -/
structure Line (enters : α → β → Prop) (links : β → α → Prop) (rows : List α) (history : List (Nat × β)) : Prop where
  order : history.Pairwise fun p q => p.1 < q.1
  entered : ∀ p ∈ history, ∃ a, rows[p.1]? = some a ∧ enters a p.2
  /-- The first row that enters a holder starts the line. -/
  first : ∀ i a b, rows[i]? = some a → enters a b → (∀ j < i, ∀ c d, rows[j]? = some c → ¬ enters c d) →
    history.head? = some (i, b)
  /-- A later one continues it exactly if the holder in office links to it. -/
  linked : ∀ i a b last, rows[i]? = some a → enters a b → reached history i = some last →
    ((i, b) ∈ history ↔ links last a)
  chain : history.IsChain fun p q => ∃ a, rows[q.1]? = some a ∧ links p.2 a

/-- Some row after the first entering one enters a holder that the one in office
does not link to. -/
def Disputed (enters : α → β → Prop) (links : β → α → Prop) (rows : List α) (history : List (Nat × β)) : Prop :=
  ∃ i a b, rows[i]? = some a ∧ enters a b ∧ (∃ j < i, ∃ c d, rows[j]? = some c ∧ enters c d) ∧
    ∃ last, reached history i = some last ∧ ¬ links last a

/-! ## One more place -/

theorem getElem?_concat_iff {rows : List α} {a c : α} {i : Nat} :
    (rows ++ [a])[i]? = some c ↔ rows[i]? = some c ∨ i = rows.length ∧ c = a := by
  rcases Nat.lt_trichotomy i rows.length with hi | rfl | hi
  · rw [List.getElem?_append_left hi, or_iff_left (fun h => by omega)]
  · rw [List.getElem?_concat_length, List.getElem?_eq_none (Nat.le_refl _)]
    simp [eq_comm]
  · rw [List.getElem?_eq_none (by simp; omega), List.getElem?_eq_none (by omega)]
    simp only [reduceCtorEq, false_or, false_iff, not_and]
    omega

theorem lt_of_getElem? {rows : List α} {a : α} {i : Nat} (h : rows[i]? = some a) : i < rows.length :=
  (List.getElem?_eq_some_iff.mp h).1

theorem reached_all {history : List (Nat × β)} {n : Nat} (h : ∀ p ∈ history, p.1 < n) :
    reached history n = history.getLast?.map Prod.snd := by
  rw [reached, List.filter_eq_self.mpr fun p hp => decide_eq_true (h p hp)]

theorem reached_concat {history : List (Nat × β)} {i n : Nat} {b : β} (hi : i ≤ n) :
    reached (history ++ [(n, b)]) i = reached history i := by
  have hnot : decide (n < i) = false := decide_eq_false (by omega)
  rw [reached, reached, List.filter_append]
  simp [hnot]

namespace Line

variable {enters : α → β → Prop} {links : β → α → Prop} {rows : List α} {history : List (Nat × β)} {a : α} {b : β}

theorem lt (h : Line enters links rows history) : ∀ p ∈ history, p.1 < rows.length := by
  intro p hp
  obtain ⟨a, ha, -⟩ := h.entered p hp
  exact lt_of_getElem? ha

/-- By the least place of an entering row. -/
theorem started (h : Line enters links rows history) : history ≠ [] ↔ ∃ a ∈ rows, ∃ b, enters a b := by
  constructor
  · intro hne
    obtain ⟨p, hp⟩ := List.exists_mem_of_ne_nil _ hne
    obtain ⟨a, ha, hb⟩ := h.entered p hp
    exact ⟨a, List.mem_of_getElem? ha, p.2, hb⟩
  · rintro ⟨a, ha, b, hb⟩ rfl
    have hex : ∃ (i : Nat) (a : α) (b : β), rows[i]? = some a ∧ enters a b := by
      obtain ⟨i, hi⟩ := List.getElem?_of_mem ha
      exact ⟨i, a, b, hi, hb⟩
    classical
    obtain ⟨c, d, hc, hd⟩ := Nat.find_spec hex
    have hhead := h.first _ c d hc hd fun j hj c' d' hc' hd' => Nat.find_min hex hj ⟨c', d', hc', hd'⟩
    cases hhead

/-- An entering row among others is not the first where there is a holder. -/
theorem not_first {p : Nat × β} (h : Line enters links rows history) (hlast : history.getLast? = some p) :
    ∃ j < rows.length, ∃ c d, (rows ++ [a])[j]? = some c ∧ enters c d := by
  obtain ⟨c, hc, hd⟩ := h.entered p (List.mem_of_getLast? hlast)
  exact ⟨p.1, lt_of_getElem? hc, c, p.2, getElem?_concat_iff.mpr (.inl hc), hd⟩

theorem mono (h : Line enters links rows history) (a : α) :
    (∀ p ∈ history, ∃ c, (rows ++ [a])[p.1]? = some c ∧ enters c p.2) ∧
      history.IsChain fun p q => ∃ c, (rows ++ [a])[q.1]? = some c ∧ links p.2 c := by
  constructor
  · intro p hp
    obtain ⟨c, hc, hd⟩ := h.entered p hp
    exact ⟨c, getElem?_concat_iff.mpr (.inl hc), hd⟩
  · refine h.chain.imp fun p q hpq => ?_
    obtain ⟨c, hc, hl⟩ := hpq
    exact ⟨c, getElem?_concat_iff.mpr (.inl hc), hl⟩

theorem nil : Line enters links [] [] where
  order := .nil
  entered p hp := absurd hp List.not_mem_nil
  first i a b hi := by simp at hi
  linked i a b last hi := by simp at hi
  chain := .nil

/-- A row that enters nothing, or a holder that the last one does not link to. -/
theorem skip (h : Line enters links rows history)
    (hno : ∀ b, enters a b → ∃ p, history.getLast? = some p ∧ ¬ links p.2 a) :
    Line enters links (rows ++ [a]) history where
  order := h.order
  entered := (h.mono a).1
  chain := (h.mono a).2
  first i c d hi hd hbefore := by
    rcases getElem?_concat_iff.mp hi with hi | ⟨rfl, rfl⟩
    · exact h.first i c d hi hd fun j hj c' d' hc' => hbefore j hj c' d' (getElem?_concat_iff.mpr (.inl hc'))
    · obtain ⟨p, hlast, -⟩ := hno d hd
      obtain ⟨j, hj, c', d', hc', hd'⟩ := h.not_first (a := c) hlast
      exact absurd hd' (hbefore j hj c' d' hc')
  linked i c d last hi hd hreached := by
    rcases getElem?_concat_iff.mp hi with hi | ⟨rfl, rfl⟩
    · exact h.linked i c d last hi hd hreached
    · obtain ⟨p, hlast, hnot⟩ := hno d hd
      rw [reached_all h.lt, hlast] at hreached
      cases hreached
      exact iff_of_false (fun hmem => Nat.lt_irrefl _ (h.lt _ hmem)) hnot

section
variable (hfun : ∀ a b b', enters a b → enters a b' → b = b')
include hfun

theorem start (h : Line enters links rows []) (hb : enters a b) :
    Line enters links (rows ++ [a]) [(rows.length, b)] where
  order := List.pairwise_singleton _ _
  entered p hp := by
    obtain rfl := List.mem_singleton.mp hp
    exact ⟨a, getElem?_concat_iff.mpr (.inr ⟨rfl, rfl⟩), hb⟩
  chain := .singleton _
  first i c d hi hd _ := by
    rcases getElem?_concat_iff.mp hi with hi | ⟨rfl, rfl⟩
    · exact absurd rfl (h.started.mpr ⟨c, List.mem_of_getElem? hi, d, hd⟩)
    · rw [hfun c b d hb hd]
      rfl
  linked i c d last hi hd hreached := by
    rcases getElem?_concat_iff.mp hi with hi | ⟨rfl, rfl⟩
    · exact absurd rfl (h.started.mpr ⟨c, List.mem_of_getElem? hi, d, hd⟩)
    · simp [reached] at hreached

theorem extend {p : Nat × β} (h : Line enters links rows history) (hlast : history.getLast? = some p)
    (hb : enters a b) (hl : links p.2 a) : Line enters links (rows ++ [a]) (history ++ [(rows.length, b)]) where
  order := by
    refine List.pairwise_append.mpr ⟨h.order, List.pairwise_singleton _ _, fun q hq r hr => ?_⟩
    rw [List.mem_singleton.mp hr]
    exact h.lt q hq
  entered q hq := by
    rcases List.mem_append.mp hq with hq | hq
    · exact (h.mono a).1 q hq
    · obtain rfl := List.mem_singleton.mp hq
      exact ⟨a, getElem?_concat_iff.mpr (.inr ⟨rfl, rfl⟩), hb⟩
  chain := by
    refine List.isChain_append.mpr ⟨(h.mono a).2, .singleton _, ?_⟩
    intro q hq r hr
    cases hlast.symm.trans hq
    cases hr
    exact ⟨a, getElem?_concat_iff.mpr (.inr ⟨rfl, rfl⟩), hl⟩
  first i c d hi hd hbefore := by
    rcases getElem?_concat_iff.mp hi with hi | ⟨rfl, rfl⟩
    · have hhead := h.first i c d hi hd fun j hj c' d' hc' => hbefore j hj c' d' (getElem?_concat_iff.mpr (.inl hc'))
      rw [List.head?_append, hhead]
      rfl
    · obtain ⟨j, hj, c', d', hc', hd'⟩ := h.not_first (a := c) hlast
      exact absurd hd' (hbefore j hj c' d' hc')
  linked i c d last hi hd hreached := by
    rcases getElem?_concat_iff.mp hi with hi | ⟨rfl, rfl⟩
    · have hlt := lt_of_getElem? hi
      rw [reached_concat (Nat.le_of_lt hlt)] at hreached
      rw [← h.linked i c d last hi hd hreached, List.mem_append, or_iff_left]
      intro hmem
      cases List.mem_singleton.mp hmem
      exact Nat.lt_irrefl _ hlt
    · rw [reached_concat (Nat.le_refl _), reached_all h.lt, hlast] at hreached
      cases hreached
      rw [hfun c b d hb hd]
      exact iff_of_true (List.mem_append_right _ (List.mem_singleton.mpr rfl)) hl

end

end Line

/-! ## Disputes -/

section
variable {enters : α → β → Prop} {links : β → α → Prop} {rows : List α} {history next : List (Nat × β)} {a : α}

/-- One more row adds a dispute exactly if it is the one disputed. What the line
reached before it is as it was. -/
theorem disputed_concat (h : Line enters links rows history)
    (hsame : ∀ i ≤ rows.length, reached next i = reached history i) :
    Disputed enters links (rows ++ [a]) next ↔ Disputed enters links rows history ∨
      (∃ b, enters a b) ∧ ∃ p, history.getLast? = some p ∧ ¬ links p.2 a := by
  constructor
  · rintro ⟨i, c, d, hi, hd, ⟨j, hj, c', d', hc', hd'⟩, last, hreached, hnot⟩
    rcases getElem?_concat_iff.mp hi with hi | ⟨rfl, rfl⟩
    · have hlt := lt_of_getElem? hi
      have hc' := (getElem?_concat_iff.mp hc').resolve_right fun hlen => by omega
      rw [hsame i (Nat.le_of_lt hlt)] at hreached
      exact .inl ⟨i, c, d, hi, hd, ⟨j, hj, c', d', hc', hd'⟩, last, hreached, hnot⟩
    · rw [hsame _ (Nat.le_refl _), reached_all h.lt, Option.map_eq_some_iff] at hreached
      obtain ⟨p, hp, rfl⟩ := hreached
      exact .inr ⟨⟨d, hd⟩, p, hp, hnot⟩
  · rintro (⟨i, c, d, hi, hd, ⟨j, hj, c', d', hc', hd'⟩, last, hreached, hnot⟩ | ⟨⟨d, hd⟩, p, hp, hnot⟩)
    · refine ⟨i, c, d, getElem?_concat_iff.mpr (.inl hi), hd,
        ⟨j, hj, c', d', getElem?_concat_iff.mpr (.inl hc'), hd'⟩, last, ?_, hnot⟩
      rw [hsame i (Nat.le_of_lt (lt_of_getElem? hi)), hreached]
    · refine ⟨rows.length, a, d, getElem?_concat_iff.mpr (.inr ⟨rfl, rfl⟩), hd, h.not_first hp, p.2, ?_, hnot⟩
      rw [hsame _ (Nat.le_refl _), reached_all h.lt, hp]
      rfl

end

end Succession

import Mathlib.Data.List.Sort

/-!
# Rows sorted by a key

Things have a rank, and each is shown as a row; the rows are sorted by a key of
their own.  `InOrder` says that the rows stand for the things in the order of
their ranks, each once.

* `pairwise_insertionSort_of` -- the rule for what a sort establishes: it holds of
  the elements in their first order, and of those that the sort swaps;
* `map_insertionSort_eq` -- a sort that only swaps elements with equal rows is not
  seen;
* `sorted_inOrder_iff` -- sorting by the key brings the rows in order, however they
  come, exactly when the keys of different rows compare as their ranks do.
-/

namespace SortedRows

section Sorts

variable {α β : Type} (r : α → α → Prop) [DecidableRel r]

theorem pairwise_orderedInsert_of {Q : α → α → Prop} {a : α} {xs : List α}
    (hxs : xs.Pairwise Q) (hstays : ∀ x ∈ xs, Q a x)
    (hpassed : ∀ x ∈ xs, ¬ r a x → Q x a) : (xs.orderedInsert r a).Pairwise Q := by
  induction xs with
  | nil => simp
  | cons x xs ih =>
      obtain ⟨hx, hrest⟩ := List.pairwise_cons.mp hxs
      by_cases hr : r a x
      · rw [List.orderedInsert_cons_of_le r xs hr]
        exact List.pairwise_cons.mpr ⟨hstays, hxs⟩
      · rw [List.orderedInsert_of_not_le r xs hr]
        have hinsert := ih hrest (fun y hy => hstays y (List.mem_cons_of_mem _ hy))
          (fun y hy => hpassed y (List.mem_cons_of_mem _ hy))
        refine List.pairwise_cons.mpr ⟨?_, hinsert⟩
        intro y hy
        rcases (List.mem_orderedInsert r).mp hy with rfl | hmem
        · exact hpassed x List.mem_cons_self hr
        · exact hx y hmem

/-- What holds of each element and the later ones, and the other way round of
those that are swapped, holds after the sort. -/
theorem pairwise_insertionSort_of {Q : α → α → Prop} {xs : List α} (hxs : xs.Pairwise Q)
    (hswapped : ∀ x y, ¬ r x y → Q y x) : (xs.insertionSort r).Pairwise Q := by
  induction xs with
  | nil => simp
  | cons x xs ih =>
      obtain ⟨hx, hrest⟩ := List.pairwise_cons.mp hxs
      rw [List.insertionSort_cons]
      apply pairwise_orderedInsert_of r (ih hrest)
      · intro y hy
        exact hx y ((List.mem_insertionSort r).mp hy)
      · intro y _ hr
        exact hswapped x y hr

theorem map_orderedInsert_eq {row : α → β} {a : α} {xs : List α}
    (hpassed : ∀ x ∈ xs, ¬ r a x → row x = row a) :
    (xs.orderedInsert r a).map row = row a :: xs.map row := by
  induction xs with
  | nil => rfl
  | cons x xs ih =>
      by_cases hr : r a x
      · rw [List.orderedInsert_cons_of_le r xs hr]
        rfl
      · have hx := hpassed x List.mem_cons_self hr
        have hinsert := ih (fun y hy => hpassed y (List.mem_cons_of_mem _ hy))
        rw [List.orderedInsert_of_not_le r xs hr, List.map_cons, List.map_cons, hinsert, hx]

/-- A sort that swaps only elements with equal rows leaves the rows as they are. -/
theorem map_insertionSort_eq {row : α → β} {xs : List α}
    (hswapped : xs.Pairwise fun x y => ¬ r x y → row y = row x) :
    (xs.insertionSort r).map row = xs.map row := by
  induction xs with
  | nil => rfl
  | cons x xs ih =>
      obtain ⟨hx, hrest⟩ := List.pairwise_cons.mp hswapped
      have hinsert : ∀ y ∈ xs.insertionSort r, ¬ r x y → row y = row x :=
        fun y hy => hx y ((List.mem_insertionSort r).mp hy)
      rw [List.insertionSort_cons, map_orderedInsert_eq r hinsert, ih hrest, List.map_cons]

end Sorts

variable {α β κ μ : Type} [LinearOrder κ] [LinearOrder μ]

theorem pairwise_sort_by (f : α → κ) (xs : List α) :
    (xs.insertionSort fun a b => f a ≤ f b).Pairwise fun a b => f a ≤ f b := by
  have htotal : Std.Total fun a b : α => f a ≤ f b := ⟨fun a b => le_total (f a) (f b)⟩
  have htrans : IsTrans α fun a b : α => f a ≤ f b := ⟨fun _ _ _ => le_trans⟩
  exact List.pairwise_insertionSort _ xs

/-- `rows` shows each of `xs` once, in the order of their ranks. -/
def InOrder (rank : α → μ) (row : α → β) (xs : List α) (rows : List β) : Prop :=
  ∃ ordered : List α, ordered.Perm xs ∧ ordered.Pairwise (fun a b => rank a ≤ rank b) ∧
    ordered.map row = rows

/-- Rows sorted by a key. -/
def sortRows (key : β → κ) (rows : List β) : List β :=
  rows.insertionSort fun a b => key a ≤ key b

/-- With different keys the sort does not depend on how the rows come. -/
theorem sortRows_eq_of_perm {key : β → κ} {rows rows' : List β} (hperm : rows.Perm rows')
    (hkeys : ∀ a ∈ rows, ∀ b ∈ rows, key a = key b → a = b) :
    sortRows key rows = sortRows key rows' := by
  have hleft := List.perm_insertionSort (fun a b => key a ≤ key b) rows
  have hright := List.perm_insertionSort (fun a b => key a ≤ key b) rows'
  apply List.Perm.eq_of_pairwise _ (pairwise_sort_by key rows) (pairwise_sort_by key rows')
    (hleft.trans (hperm.trans hright.symm))
  intro a b ha hb hab hba
  exact hkeys a (hleft.subset ha) b (hperm.symm.subset (hright.subset hb)) (le_antisymm hab hba)

variable {rank : α → μ} {row : α → β} {key : β → κ} {xs : List α}

theorem inOrder_sortRows
    (hkeys : ∀ a ∈ xs, ∀ b ∈ xs, rank a < rank b → key (row a) < key (row b) ∨ row a = row b)
    {ys : List α} (hys : ys.Perm xs) : InOrder rank row xs (sortRows key (ys.map row)) := by
  let byKey := ys.insertionSort fun a b => key (row a) ≤ key (row b)
  let byRank := byKey.insertionSort fun a b => rank a ≤ rank b
  have hbyKey : byKey.Perm xs := (List.perm_insertionSort _ ys).trans hys
  have hrows : byKey.map row = sortRows key (ys.map row) :=
    List.map_insertionSort _ _ row ys (fun a _ b _ => Iff.rfl)
  have hsame : byRank.map row = byKey.map row := by
    apply map_insertionSort_eq
    apply (pairwise_sort_by (fun a => key (row a)) ys).imp_of_mem
    intro a b ha hb hle hrank
    rcases hkeys b (hbyKey.subset hb) a (hbyKey.subset ha) (not_le.mp hrank) with hlt | heq
    · exact absurd hle (not_le.mpr hlt)
    · exact heq
  exact ⟨byRank, (List.perm_insertionSort _ byKey).trans hbyKey,
    pairwise_sort_by rank byKey, hsame.trans hrows⟩

/-- Of two members of a list one comes before the other. -/
theorem sublist_or_sublist {a b : α} {ys : List α} (ha : a ∈ ys) (hb : b ∈ ys) (hne : a ≠ b) :
    [a, b].Sublist ys ∨ [b, a].Sublist ys := by
  induction ys with
  | nil => cases ha
  | cons y ys ih =>
      rcases List.mem_cons.mp ha with rfl | hmem
      · have hb' := (List.mem_cons.mp hb).resolve_left hne.symm
        exact Or.inl ((List.singleton_sublist.mpr hb').cons_cons a)
      · rcases List.mem_cons.mp hb with rfl | hmem'
        · exact Or.inr ((List.singleton_sublist.mpr hmem).cons_cons b)
        · exact (ih hmem hmem').imp (List.Sublist.cons y) (List.Sublist.cons y)

/-- Rows in order show a thing of a lower rank first. -/
theorem InOrder.sublist {rows : List β} (h : InOrder rank row xs rows) {a b : α}
    (ha : a ∈ xs) (hb : b ∈ xs) (hlt : rank a < rank b) : [row a, row b].Sublist rows := by
  obtain ⟨ordered, hperm, hordered, rfl⟩ := h
  have hne : a ≠ b := fun heq => absurd hlt (heq ▸ lt_irrefl _)
  rcases sublist_or_sublist (hperm.symm.subset ha) (hperm.symm.subset hb) hne with hfirst | hlast
  · exact hfirst.map row
  · have hle := List.pairwise_pair.mp (hordered.sublist hlast)
    exact absurd hlt (not_lt.mpr hle)

/-- **Sorting by the key brings the rows in order**, in whatever order they come,
exactly when of two things with different rows the one of the lower rank has the
lower key. -/
theorem sorted_inOrder_iff :
    (∀ ys : List α, ys.Perm xs → InOrder rank row xs (sortRows key (ys.map row))) ↔
      ∀ a ∈ xs, ∀ b ∈ xs, rank a < rank b → key (row a) < key (row b) ∨ row a = row b := by
  classical
  constructor
  · intro hall a ha b hb hlt
    by_contra hnot
    obtain ⟨hkey, hne⟩ := not_or.mp hnot
    -- the rows equal to `b`'s come first, and the sort leaves them before `a`'s
    let ys := xs.filter (fun x => row x = row b) ++ xs.filter (fun x => ¬ row x = row b)
    have hys : ys.Perm xs := by
      have hsplit := List.filter_append_perm (fun x => decide (row x = row b)) xs
      simpa [ys] using hsplit
    have hfirst : (ys.map row).Pairwise fun u v => v = row b → u = row b := by
      rw [List.pairwise_map, List.pairwise_append]
      refine ⟨?_, ?_, ?_⟩
      · apply List.pairwise_of_forall_mem_list
        intro x hx y _ _
        simpa using (List.mem_filter.mp hx).2
      · apply List.pairwise_of_forall_mem_list
        intro x _ y hy heq
        have hother := (List.mem_filter.mp hy).2
        simp [heq] at hother
      · intro x hx y _ _
        simpa using (List.mem_filter.mp hx).2
    have hsorted : (sortRows key (ys.map row)).Pairwise fun u v =>
        key u = key v → v = row b → u = row b := by
      apply pairwise_insertionSort_of
      · exact hfirst.imp (fun {u v} h (_ : key u = key v) => h)
      · intro u v hpassed heq
        exact absurd (le_of_eq heq.symm) hpassed
    have hsub := (hall ys hys).sublist ha hb hlt
    have hle := List.pairwise_pair.mp ((pairwise_sort_by key (ys.map row)).sublist hsub)
    have heq := le_antisymm hle (not_lt.mp hkey)
    exact hne (List.pairwise_pair.mp (hsorted.sublist hsub) heq rfl)
  · intro hkeys ys hys
    exact inOrder_sortRows hkeys hys

end SortedRows

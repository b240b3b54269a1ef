import Mathlib.Data.List.Perm.Basic

/-!
# The greatest elements of a list

`Top score k xs top` says that `top` lists the `k` elements of `xs` with the
greatest scores, greatest first.  A filter applied after such a selection finds
the greatest elements that pass it exactly when enough of the selected ones pass.
-/

namespace TopRanked

variable {α β : Type} [LE β] {score : α → β}

variable (score) in
/-- `top` lists the `k` elements of `xs` with the greatest scores, or all of them
when there are fewer; elements of one score may stand in any order. -/
structure Top (k : Nat) (xs top : List α) : Prop where
  length : top.length = min k xs.length
  ordered : top.Pairwise fun a b => score b ≤ score a
  greatest : ∃ rest, (top ++ rest).Perm xs ∧
    ∀ a ∈ top, ∀ b ∈ rest, score b ≤ score a

theorem Top.mem {k : Nat} {xs top : List α} (h : Top score k xs top) {a : α}
    (ha : a ∈ top) : a ∈ xs := by
  obtain ⟨rest, hperm, -⟩ := h.greatest
  exact hperm.mem_iff.mp (List.mem_append_left rest ha)

theorem Top.countP_le {k : Nat} {xs top : List α} (h : Top score k xs top)
    (p : α → Bool) : top.countP p ≤ xs.countP p := by
  obtain ⟨rest, hperm, -⟩ := h.greatest
  rw [← hperm.countP_eq p, List.countP_append]
  omega

/-- What passes a filter among the `n` greatest, cut to `k`, has the right length
only when enough of the `n` greatest pass. -/
theorem Top.length_filter_take {n : Nat} {xs top : List α} (h : Top score n xs top)
    (k : Nat) (p : α → Bool) :
    ((top.filter p).take k).length = min k (xs.countP p) ↔
      min k (xs.countP p) ≤ top.countP p := by
  have hle := h.countP_le p
  rw [List.length_take, ← List.countP_eq_length_filter]
  omega

/-- Filtering the `n` greatest elements finds the `k` greatest of those that pass
when at least `k` of the `n` pass, or all that pass at all. -/
theorem Top.filter_take {n k : Nat} {xs top : List α} (h : Top score n xs top)
    {p : α → Bool} (hcount : min k (xs.countP p) ≤ top.countP p) :
    Top score k (xs.filter p) ((top.filter p).take k) := by
  obtain ⟨rest, hperm, hgreatest⟩ := h.greatest
  have hordered : (top.filter p).Pairwise fun a b => score b ≤ score a :=
    h.ordered.sublist List.filter_sublist
  refine ⟨?_, hordered.sublist (List.take_sublist k _),
    (top.filter p).drop k ++ rest.filter p, ?_, ?_⟩
  · rw [← List.countP_eq_length_filter]
    exact (h.length_filter_take k p).mpr hcount
  · rw [← List.append_assoc, List.take_append_drop, ← List.filter_append]
    exact hperm.filter p
  · intro a ha b hb
    rcases List.mem_append.mp hb with hb | hb
    · rw [← List.take_append_drop k (top.filter p), List.pairwise_append] at hordered
      exact hordered.2.2 a ha b hb
    · have hatop : a ∈ top := List.mem_of_mem_filter (List.mem_of_mem_take ha)
      exact hgreatest a hatop b (List.mem_of_mem_filter hb)

end TopRanked

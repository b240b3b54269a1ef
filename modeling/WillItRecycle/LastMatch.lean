import Mathlib.Data.List.Basic
import Mathlib.Data.List.Induction

/-!
# Removing the last match of a loop

The imperative idiom

    var index = 0; var removeIndex = -1
    for x in xs { if p(x) { removeIndex = index }; index += 1 }
    if removeIndex != -1 { xs.remove(at: removeIndex) }

leaves `removeIndex` at the last element meeting `p` and removes that element
only.  `removeLast_cases` is all one needs about it.
-/

namespace LastMatch

variable {α : Type} (p : α → Bool)

/-- `removeIndex` after the loop, `none` for `-1`. -/
def removeIndex (xs : List α) : Option Nat :=
  (xs.foldl (fun (state : Nat × Option Nat) x =>
    (state.1 + 1, if p x then some state.1 else state.2)) (0, none)).2

/-- `if removeIndex != -1 { xs.remove(at: removeIndex) }` -/
def removeAt (xs : List α) : Option Nat → List α
  | some index => xs.eraseIdx index
  | none => xs

/-- The whole idiom. -/
def removeLast (xs : List α) : List α := removeAt xs (removeIndex p xs)

theorem loop_index (xs : List α) :
    (xs.foldl (fun (state : Nat × Option Nat) x =>
      (state.1 + 1, if p x then some state.1 else state.2)) (0, none)).1 =
      xs.length := by
  induction xs using List.reverseRecOn with
  | nil => rfl
  | append_singleton xs x ih => simp [List.foldl_append, ih]

theorem removeIndex_snoc (xs : List α) (x : α) :
    removeIndex p (xs ++ [x]) = if p x then some xs.length else removeIndex p xs := by
  simp only [removeIndex, List.foldl_append, List.foldl_cons, List.foldl_nil,
    loop_index]

/-- The index found is that of the last element meeting `p`. -/
theorem removeIndex_cases (xs : List α) :
    (removeIndex p xs = none ∧ ∀ x ∈ xs, p x = false) ∨
    ∃ before x after, xs = before ++ x :: after ∧
      removeIndex p xs = some before.length ∧ p x = true ∧
      ∀ y ∈ after, p y = false := by
  induction xs using List.reverseRecOn with
  | nil => exact Or.inl ⟨rfl, by simp⟩
  | append_singleton xs x ih =>
      rw [removeIndex_snoc]
      by_cases hx : p x
      · right
        exact ⟨xs, x, [], rfl, by rw [if_pos hx], hx, by simp⟩
      · rw [if_neg hx]
        have hx' : p x = false := by simpa using hx
        rcases ih with ⟨hnone, hall⟩ | ⟨before, y, after, hsplit, hindex, hy, hafter⟩
        · left
          refine ⟨hnone, ?_⟩
          intro z hz
          rcases List.mem_append.mp hz with hz | hz
          · exact hall z hz
          · rwa [List.mem_singleton.mp hz]
        · right
          refine ⟨before, y, after ++ [x], by simp [hsplit], hindex, hy, ?_⟩
          intro z hz
          rcases List.mem_append.mp hz with hz | hz
          · exact hafter z hz
          · rwa [List.mem_singleton.mp hz]

/-- **The last match splits the list** and is the one element removed. -/
theorem removeLast_cases (xs : List α) :
    (removeLast p xs = xs ∧ ∀ x ∈ xs, p x = false) ∨
    ∃ before x after, xs = before ++ x :: after ∧
      removeLast p xs = before ++ after ∧ p x = true ∧
      ∀ y ∈ after, p y = false := by
  rcases removeIndex_cases p xs with ⟨hnone, hall⟩ |
    ⟨before, x, after, hsplit, hindex, hx, hafter⟩
  · left
    exact ⟨by rw [removeLast, hnone, removeAt], hall⟩
  · right
    refine ⟨before, x, after, hsplit, ?_, hx, hafter⟩
    rw [removeLast, hindex, removeAt, hsplit,
      List.eraseIdx_append_of_length_le (Nat.le_refl _)]
    simp

theorem removeLast_sublist (xs : List α) : (removeLast p xs).Sublist xs := by
  rcases removeLast_cases p xs with ⟨hkeep, _⟩ | ⟨before, x, after, hsplit, hremoved, _, _⟩
  · rw [hkeep]
  · rw [hremoved, hsplit]
    exact List.Sublist.append_left (List.sublist_cons_self x after) before

/-- An element not meeting `p` stays. -/
theorem mem_removeLast_of_ne {xs : List α} {y : α} (hy : y ∈ xs)
    (hp : p y = false) : y ∈ removeLast p xs := by
  rcases removeLast_cases p xs with ⟨hkeep, _⟩ | ⟨before, x, after, hsplit, hremoved, hx, _⟩
  · rwa [hkeep]
  · rw [hsplit] at hy
    rw [hremoved]
    rcases List.mem_append.mp hy with hy | hy
    · exact List.mem_append_left _ hy
    · rcases List.mem_cons.mp hy with rfl | hy
      · rw [hx] at hp
        cases hp
      · exact List.mem_append_right _ hy

/-- Searching for one value in a list without repetitions erases it. -/
theorem removeLast_eq_filter [DecidableEq α] {xs : List α} (hnodup : xs.Nodup)
    (a : α) :
    removeLast (fun x => x = a) xs = xs.filter (fun x => x ≠ a) := by
  rcases removeLast_cases (fun x => decide (x = a)) xs with
    ⟨hkeep, hall⟩ | ⟨before, x, after, hsplit, hremoved, hx, _⟩
  · rw [hkeep, eq_comm, List.filter_eq_self]
    intro x hx
    simpa using hall x hx
  · obtain rfl : x = a := by simpa using hx
    rw [hremoved, hsplit]
    rw [hsplit, List.nodup_append] at hnodup
    obtain ⟨_, htail, hdisjoint⟩ := hnodup
    have hbefore : ∀ y ∈ before, y ≠ x := fun y hy h =>
      hdisjoint y hy x List.mem_cons_self h
    have hafter : ∀ y ∈ after, y ≠ x := fun y hy h =>
      (List.nodup_cons.mp htail).1 (h ▸ hy)
    rw [List.filter_append, List.filter_cons_of_neg (by simp),
      List.filter_eq_self.mpr (by simpa using hbefore),
      List.filter_eq_self.mpr (by simpa using hafter)]

end LastMatch

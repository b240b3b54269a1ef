import Mathlib.Data.Finset.Card
import Mathlib.Data.Finset.Dedup
import Mathlib.Order.Lattice.Nat

/-!
# The last elements of a finite set

`IsLast lt n s w` says that `w` holds the last `n` elements of `s` in the order
`lt`, or all of them when there are fewer.  When one element is erased from `s` or
inserted into it, the window follows by a change of at most one element on each
side: `erase_replace` and `insert_bump` say which.
-/

namespace LastWindow

variable {α : Type*} {lt : α → α → Prop} {n : ℕ} {s w : Finset α}

variable (lt) in
/-- `w` holds the last `n` elements of `s`. -/
structure IsLast (n : ℕ) (s w : Finset α) : Prop where
  subset : w ⊆ s
  card : w.card = min n s.card
  last : ∀ a ∈ s, a ∉ w → ∀ b ∈ w, lt a b

theorem isLast_self (h : s.card ≤ n) : IsLast lt n s s where
  subset := Finset.Subset.refl s
  card := (Nat.min_eq_right h).symm
  last := fun _ ha hnot => absurd ha hnot

theorem IsLast.card_le (h : IsLast lt n s w) : w.card ≤ n :=
  h.card ▸ Nat.min_le_left n s.card

/-- A window with room left holds everything. -/
theorem IsLast.eq_of_card_lt (h : IsLast lt n s w) (hroom : w.card < n) : w = s := by
  have hcard := h.card
  have hall : w.card = s.card := by omega
  exact Finset.eq_of_subset_of_card_le h.subset hall.ge

/-- A window that misses an element is full. -/
theorem IsLast.card_of_notMem (h : IsLast lt n s w) {a : α} (ha : a ∈ s) (hnot : a ∉ w) :
    w.card = n := by
  by_contra hcard
  have hroom : w.card < n := lt_of_le_of_ne h.card_le hcard
  exact hnot (h.eq_of_card_lt hroom ▸ ha)

/-- Two windows on one set are equal. -/
theorem IsLast.unique (hasymm : ∀ a b, lt a b → ¬ lt b a) {w' : Finset α}
    (h : IsLast lt n s w) (h' : IsLast lt n s w') : w = w' := by
  have hcard : w.card = w'.card := h.card.trans h'.card.symm
  by_contra hne
  have hsub : ¬ w ⊆ w' := fun hsub =>
    hne (Finset.eq_of_subset_of_card_le hsub hcard.ge)
  have hsub' : ¬ w' ⊆ w := fun hsub =>
    hne (Finset.eq_of_subset_of_card_le hsub hcard.le).symm
  obtain ⟨a, ha, hnot⟩ := Finset.not_subset.mp hsub
  obtain ⟨b, hb, hnot'⟩ := Finset.not_subset.mp hsub'
  exact hasymm a b (h'.last a (h.subset ha) hnot b hb) (h.last b (h'.subset hb) hnot' a ha)

/-- Of a list that is read from its last element on, the window is what is read first. -/
theorem isLast_take [DecidableEq α] (hirrefl : ∀ a, ¬ lt a a) {xs : List α}
    (h : xs.Pairwise fun a b => lt b a) (n : ℕ) :
    IsLast lt n xs.toFinset (xs.take n).toFinset := by
  have hnodup : xs.Nodup := by
    refine List.Pairwise.imp (fun {a b} hlt => ?_) h
    rintro rfl
    exact hirrefl a hlt
  refine ⟨?_, ?_, ?_⟩
  · intro a ha
    exact List.mem_toFinset.mpr (List.mem_of_mem_take (List.mem_toFinset.mp ha))
  · rw [List.toFinset_card_of_nodup (hnodup.sublist (List.take_sublist n xs)),
      List.toFinset_card_of_nodup hnodup, List.length_take]
  · intro a ha hnot b hb
    rw [List.mem_toFinset] at ha hnot hb
    rw [← List.take_append_drop n xs] at h ha
    have hdrop := (List.mem_append.mp ha).resolve_left hnot
    exact (List.pairwise_append.mp h).2.2 b hb a hdrop

/-! ## One element erased -/

variable [DecidableEq α]

theorem IsLast.erase_notMem (h : IsLast lt n s w) {a : α} (ha : a ∉ w) :
    IsLast lt n (s.erase a) w := by
  by_cases has : a ∈ s
  · have hfull := h.card_of_notMem has ha
    have hmore : w.card < s.card :=
      Finset.card_lt_card ⟨h.subset, fun hsub => ha (hsub has)⟩
    refine ⟨Finset.subset_erase.mpr ⟨h.subset, ha⟩, ?_, ?_⟩
    · rw [Finset.card_erase_of_mem has]
      omega
    · intro b hb hnot
      exact h.last b (Finset.mem_of_mem_erase hb) hnot
  · rw [Finset.erase_eq_of_notMem has]
    exact h

/-- What was everything stays everything. -/
theorem IsLast.erase_all (h : IsLast lt n s w) (hall : w = s) (a : α) :
    IsLast lt n (s.erase a) (w.erase a) := by
  subst hall
  exact isLast_self ((Finset.card_le_card (Finset.erase_subset a w)).trans h.card_le)

/-- An element of the window is replaced by the last one outside. -/
theorem IsLast.erase_replace (h : IsLast lt n s w) {a m : α} (ha : a ∈ w) (hm : m ∈ s)
    (hnot : m ∉ w) (hlast : ∀ b ∈ s, b ∉ w → b = m ∨ lt b m) :
    IsLast lt n (s.erase a) (insert m (w.erase a)) := by
  have hfull := h.card_of_notMem hm hnot
  have hmore : w.card < s.card :=
    Finset.card_lt_card ⟨h.subset, fun hsub => hnot (hsub hm)⟩
  have hma : m ≠ a := fun heq => hnot (heq ▸ ha)
  have hnew : m ∉ w.erase a := fun hmem => hnot (Finset.mem_of_mem_erase hmem)
  refine ⟨?_, ?_, ?_⟩
  · intro b hb
    rcases Finset.mem_insert.mp hb with rfl | hb
    · exact Finset.mem_erase.mpr ⟨hma, hm⟩
    · exact Finset.erase_subset_erase a h.subset hb
  · rw [Finset.card_insert_of_notMem hnew, Finset.card_erase_of_mem ha,
      Finset.card_erase_of_mem (h.subset ha)]
    have hpos := Finset.card_pos.mpr ⟨a, ha⟩
    omega
  · intro b hb hout c hc
    obtain ⟨hba, hbs⟩ := Finset.mem_erase.mp hb
    have hbw : b ∉ w := fun hbw =>
      hout (Finset.mem_insert_of_mem (Finset.mem_erase.mpr ⟨hba, hbw⟩))
    rcases Finset.mem_insert.mp hc with rfl | hc
    · rcases hlast b hbs hbw with rfl | hlt
      · exact absurd (Finset.mem_insert_self b _) hout
      · exact hlt
    · exact h.last b hbs hbw c (Finset.mem_of_mem_erase hc)

/-! ## One element inserted -/

/-- With room left everything is kept. -/
theorem IsLast.insert_room (h : IsLast lt n s w) (hroom : w.card < n) (a : α) :
    IsLast lt n (insert a s) (insert a w) := by
  obtain rfl := h.eq_of_card_lt hroom
  exact isLast_self ((Finset.card_insert_le a w).trans hroom)

/-- An element before a full window stays outside. -/
theorem IsLast.insert_before (h : IsLast lt n s w) (hfull : w.card = n) {a : α} (ha : a ∉ s)
    (hbefore : ∀ b ∈ w, lt a b) : IsLast lt n (insert a s) w := by
  have hle : w.card ≤ s.card := Finset.card_le_card h.subset
  refine ⟨h.subset.trans (Finset.subset_insert a s), ?_, ?_⟩
  · rw [Finset.card_insert_of_notMem ha]
    omega
  · intro b hb hnot c hc
    rcases Finset.mem_insert.mp hb with rfl | hb
    · exact hbefore c hc
    · exact h.last b hb hnot c hc

/-- An element after the first of a full window takes its place. -/
theorem IsLast.insert_bump (htrans : ∀ a b c, lt a b → lt b c → lt a c)
    (h : IsLast lt n s w) (hfull : w.card = n) {a first : α} (ha : a ∉ s) (hfirst : first ∈ w)
    (hmin : ∀ b ∈ w, b = first ∨ lt first b) (hafter : lt first a) :
    IsLast lt n (insert a s) (insert a (w.erase first)) := by
  have hle : w.card ≤ s.card := Finset.card_le_card h.subset
  have hpos := Finset.card_pos.mpr ⟨first, hfirst⟩
  have hnew : a ∉ w.erase first := fun hmem => ha (h.subset (Finset.mem_of_mem_erase hmem))
  refine ⟨?_, ?_, ?_⟩
  · exact Finset.insert_subset_insert a ((Finset.erase_subset first w).trans h.subset)
  · rw [Finset.card_insert_of_notMem hnew, Finset.card_erase_of_mem hfirst,
      Finset.card_insert_of_notMem ha]
    omega
  · intro b hb hout c hc
    have hba : b ≠ a := by
      rintro rfl
      exact hout (Finset.mem_insert_self b _)
    have hbs : b ∈ s := (Finset.mem_insert.mp hb).resolve_left hba
    -- what is left outside is the first element or was outside before
    have hbefore : ∀ d, d = a ∨ d ∈ w ∧ d ≠ first → lt b d := by
      intro d hd
      by_cases hbw : b ∈ w
      · have hbfirst : b = first := by
          by_contra hne
          exact hout (Finset.mem_insert_of_mem (Finset.mem_erase.mpr ⟨hne, hbw⟩))
        rcases hd with rfl | ⟨hdw, hdfirst⟩
        · exact hbfirst ▸ hafter
        · exact hbfirst ▸ (hmin d hdw).resolve_left hdfirst
      · rcases hd with rfl | ⟨hdw, -⟩
        · exact htrans b first d (h.last b hbs hbw first hfirst) hafter
        · exact h.last b hbs hbw d hdw
    refine hbefore c ?_
    rcases Finset.mem_insert.mp hc with rfl | hc
    · exact Or.inl rfl
    · exact Or.inr ⟨Finset.mem_of_mem_erase hc, Finset.ne_of_mem_erase hc⟩

end LastWindow

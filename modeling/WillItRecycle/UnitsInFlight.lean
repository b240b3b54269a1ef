import WillItRecycle.PlacementLists

/-!
# Units of the inventory in flight

Between a tap on BUY, PLACE or REMOVE and its callback on `inventory/<key>` the
stored count lags behind: the count the taps amount to is the stored one and
what the pending callbacks will add to it (`UnitsInFlight.counted`), in whatever
order they run.

That sum only works while PLACE is never tapped without a unit to take.  The rows
do not say so by their counts: overlapping callbacks can leave two rows of one
kind, each showing what the other shows too.  But every PLACE takes a unit from
all of them and a row away with its last one, so that the number of PLACEs they
still offer is at most the number of units (`Offers`).
-/

namespace WillItRecycle

open PathTree ReadCallback LastMatch

/-! ## What rows with counts offer -/

/-- Rows, `above t` of them with a count above `t`, from which at most `stock`
units can be taken when every round takes one unit of each row and removes one
of the rows that had just one. -/
def Offers (above : Nat → Nat) (stock : Int) : Prop :=
  ∀ t, t = 0 ∨ 0 < above t → (t : Int) + above t ≤ stock

namespace Offers

variable {above above' : Nat → Nat} {stock stock' : Int}

theorem mono (h : Offers above stock) (hle : ∀ t, above' t ≤ above t)
    (hstock : stock ≤ stock') : Offers above' stock' := by
  intro t ht
  have hlt := hle t
  have hold := h t (by omega)
  omega

/-- A row that shows one unit appears. -/
theorem append (h : Offers above stock) (hfirst : above' 0 ≤ above 0 + 1)
    (hmore : ∀ t, above' (t + 1) ≤ above (t + 1)) : Offers above' (stock + 1) := by
  intro t ht
  cases t with
  | zero =>
      have hold := h 0 (Or.inl rfl)
      omega
  | succ t =>
      have hle := hmore t
      have hold := h (t + 1) (by omega)
      omega

/-- Rows gain a unit each. -/
theorem increment (h : Offers above stock) (hfirst : above' 0 ≤ above 0)
    (hmore : ∀ t, above' (t + 1) ≤ above t) : Offers above' (stock + 1) := by
  intro t ht
  cases t with
  | zero =>
      have hold := h 0 (Or.inl rfl)
      omega
  | succ t =>
      have hle := hmore t
      have hold := h t (by omega)
      omega

/-- Every row loses a unit, or the others do and one goes. -/
theorem take (h : Offers above stock) (hsome : 0 < above 0)
    (hfirst : above' 0 < above 0 ∨ above' 0 ≤ above 1)
    (hmore : ∀ t, above' (t + 1) ≤ above (t + 2)) : Offers above' (stock - 1) := by
  intro t ht
  have hstock := h 0 (Or.inl rfl)
  cases t with
  | zero =>
      rcases hfirst with hfirst | hfirst
      · omega
      · by_cases hone : 0 < above 1
        · have hold := h 1 (Or.inr hone)
          omega
        · omega
  | succ t =>
      have hle := hmore t
      have hold := h (t + 2) (by omega)
      omega

end Offers

/-! ## The rows of a key -/

/-- The number of rows of a key with a count above `t`. -/
def rowsAbove (key : String) (rows : List GameItem) (t : Nat) : Nat :=
  rows.countP fun row => row.key = key ∧ (t : Int) < row.count

theorem rowsAbove_append_row (key : String) (rows : List GameItem) (row : GameItem)
    (t : Nat) :
    rowsAbove key (rows ++ [row]) t =
      rowsAbove key rows t + if row.key = key ∧ (t : Int) < row.count then 1 else 0 := by
  unfold rowsAbove
  rw [List.countP_append, List.countP_singleton]
  simp

/-- A loop over the rows counts what it makes of each. -/
theorem rowsAbove_map_le {key : String} {rows : List GameItem} {change : GameItem → GameItem}
    {t t' : Nat}
    (h : ∀ row ∈ rows, (change row).key = key → (t : Int) < (change row).count →
      row.key = key ∧ (t' : Int) < row.count) :
    rowsAbove key (rows.map change) t ≤ rowsAbove key rows t' := by
  unfold rowsAbove
  rw [List.countP_map]
  apply List.countP_mono_left
  intro row hrow habove
  obtain ⟨hkey, hcount⟩ : (change row).key = key ∧ (t : Int) < (change row).count := by
    simpa using habove
  simpa using h row hrow hkey hcount

theorem rowsAbove_split (key : String) (before after : List GameItem) (row : GameItem)
    (t : Nat) :
    rowsAbove key (before ++ row :: after) t =
      rowsAbove key (before ++ after) t +
        if row.key = key ∧ (t : Int) < row.count then 1 else 0 := by
  unfold rowsAbove
  rw [List.countP_append, List.countP_append, List.countP_cons]
  simp only [decide_eq_true_eq]
  omega

/-- PLACE on a row of its key. -/
theorem offers_take {key : String} {rows : List GameItem} {stock : Int}
    (h : Offers (rowsAbove key rows) stock) (hrow : 0 < rowsAbove key rows 0) :
    Offers (rowsAbove key (takeFromInventory key rows)) (stock - 1) := by
  rcases takeFromInventory_split key rows with
    ⟨htake, hcount⟩ | ⟨before, gone, after, hsplit, hkey, hone, htake⟩
  · have hloop : ∀ t, rowsAbove key (takeFromInventory key rows) t ≤
        rowsAbove key rows (t + 1) := by
      intro t
      rw [htake]
      apply rowsAbove_map_le
      intro row hmem hkey habove
      rw [takeUnit_key] at hkey
      unfold takeUnit at habove
      rw [if_pos ⟨hkey, hcount row hmem hkey⟩] at habove
      change (t : Int) < row.count - 1 at habove
      exact ⟨hkey, by omega⟩
    exact h.take hrow (Or.inr (hloop 0)) (fun t => hloop (t + 1))
  · have hgone := rowsAbove_split key before after gone
    rw [← hsplit] at hgone
    have hloop : ∀ t t' : Nat, (∀ row : GameItem, row.key = key →
        (t : Int) < (takeUnit key row).count → (t' : Int) < row.count) →
        rowsAbove key (takeFromInventory key rows) t ≤
          rowsAbove key (before ++ after) t' := by
      intro t t' hcounts
      rw [htake]
      apply rowsAbove_map_le
      intro row _ hkey habove
      rw [takeUnit_key] at hkey
      exact ⟨hkey, hcounts row hkey habove⟩
    have hfirst := hloop 0 0 (by
      intro row hrow habove
      unfold takeUnit at habove
      split at habove
      · change ((0 : Nat) : Int) < row.count - 1 at habove
        omega
      · exact habove)
    have hmore := fun t : Nat => hloop (t + 1) (t + 2) (by
      intro row hrow habove
      unfold takeUnit at habove
      by_cases hone : row.count = 1
      · rw [if_neg (fun h => h.2 hone)] at habove
        omega
      · rw [if_pos ⟨hrow, hone⟩] at habove
        change ((t + 1 : Nat) : Int) < row.count - 1 at habove
        omega)
    refine h.take hrow (Or.inl ?_) (fun t => ?_)
    · have hlast := hgone 0
      rw [if_pos ⟨hkey, by omega⟩] at hlast
      omega
    · have hle := hmore t
      have hlast := hgone (t + 2)
      omega

/-- PLACE of another kind. -/
theorem offers_take_other {key other : String} (hother : other ≠ key)
    {rows : List GameItem} {stock : Int} (h : Offers (rowsAbove other rows) stock) :
    Offers (rowsAbove other (takeFromInventory key rows)) stock := by
  refine h.mono (fun t => ?_) (Int.le_refl _)
  have hloop : ∀ rows' : List GameItem,
      rowsAbove other (rows'.map (takeUnit key)) t ≤ rowsAbove other rows' t := by
    intro rows'
    apply rowsAbove_map_le
    intro row _ hkey habove
    rw [takeUnit_key] at hkey
    unfold takeUnit at habove
    rw [if_neg (fun h => hother (hkey.symm.trans h.1))] at habove
    exact ⟨hkey, habove⟩
  rcases takeFromInventory_split key rows with
    ⟨htake, _⟩ | ⟨before, gone, after, hsplit, _, _, htake⟩
  · rw [htake]
    exact hloop rows
  · rw [htake, hsplit]
    have hgone := rowsAbove_split other before after gone t
    have hle := hloop (before ++ after)
    omega

/-- A new row shows one unit. -/
theorem offers_newRow {key : String} {rows : List GameItem} {stock : Int}
    (h : Offers (rowsAbove key rows) stock) (item : String) (coordinates : List String) :
    Offers (rowsAbove key (rows ++ [⟨key, item, 1, coordinates⟩])) (stock + 1) := by
  refine h.append ?_ (fun t => ?_)
  · rw [rowsAbove_append_row]
    split <;> omega
  · rw [rowsAbove_append_row, if_neg]
    · omega
    · intro habove
      have hlt : ((t + 1 : Nat) : Int) < 1 := habove.2
      omega

/-- BUY delivers a unit. -/
theorem offers_deliver {storeItem : StoreItem} {rows : List GameItem} {stock : Int}
    (h : Offers (rowsAbove storeItem.key rows) stock)
    (hpositive : ∀ row ∈ rows, 0 < row.count) (n : Nat) :
    Offers (rowsAbove storeItem.key (deliver storeItem n rows)) (stock + 1) := by
  unfold deliver
  by_cases hn : n = 0
  · rw [if_pos hn]
    exact offers_newRow h _ _
  · rw [if_neg hn]
    unfold incrementInventory
    have hloop : ∀ t t' : Nat, (∀ row ∈ rows, (t : Int) < row.count + 1 →
        (t' : Int) < row.count) →
        rowsAbove storeItem.key (rows.map fun row =>
          if row.key = storeItem.key then row.incrementCount else row) t ≤
          rowsAbove storeItem.key rows t' := by
      intro t t' hcounts
      apply rowsAbove_map_le
      intro row hrow hkey habove
      rw [increment_key] at hkey
      rw [if_pos hkey] at habove
      exact ⟨hkey, hcounts row hrow habove⟩
    refine h.increment (hloop 0 0 ?_) (fun t => hloop (t + 1) t ?_)
    · intro row hrow _
      exact hpositive row hrow
    · intro row _ habove
      omega

theorem offers_deliver_other {storeItem : StoreItem} {other : String}
    (hother : other ≠ storeItem.key) {rows : List GameItem} {stock : Int}
    (h : Offers (rowsAbove other rows) stock) (n : Nat) :
    Offers (rowsAbove other (deliver storeItem n rows)) stock := by
  refine h.mono (fun t => ?_) (Int.le_refl _)
  unfold deliver
  by_cases hn : n = 0
  · rw [if_pos hn, rowsAbove_append_row, if_neg (fun habove => hother habove.1.symm)]
    exact Nat.le_refl _
  · rw [if_neg hn]
    unfold incrementInventory
    apply rowsAbove_map_le
    intro row _ hkey habove
    rw [increment_key] at hkey
    rw [if_neg (fun heq => hother (hkey.symm.trans heq))] at habove
    exact ⟨hkey, habove⟩

/-- REMOVE gives a unit back. -/
theorem offers_return {selectedItem : GameItem} (coordinate : String)
    {rows : List GameItem} {stock : Int}
    (hsold : ∀ row ∈ rows, row.Sold) (hselected : selectedItem.Sold)
    (h : Offers (rowsAbove selectedItem.key rows) stock) :
    Offers (rowsAbove selectedItem.key
      (returnToInventory selectedItem coordinate rows)) (stock + 1) := by
  rw [returnToInventory_eq hsold hselected.1 hselected.2 coordinate]
  by_cases hsome : ∃ row ∈ rows, row.key = selectedItem.key
  · rw [if_pos hsome]
    have hloop : ∀ t t' : Nat, (∀ row : GameItem, (t : Int) < row.count ∨
        row.count > 1 ∧ (t : Int) < row.count + 1 → (t' : Int) < row.count) →
        rowsAbove selectedItem.key (rows.map fun row =>
          if row.key = selectedItem.key ∧ row.count > 1 then row.incrementCount
          else row) t ≤ rowsAbove selectedItem.key rows t' := by
      intro t t' hcounts
      apply rowsAbove_map_le
      intro row _ hkey habove
      rw [return_key] at hkey
      refine ⟨hkey, hcounts row ?_⟩
      split at habove
      · next hcond => exact Or.inr ⟨hcond.2, habove⟩
      · exact Or.inl habove
    refine h.increment (hloop 0 0 ?_) (fun t => hloop (t + 1) t ?_)
    · intro row hrow
      omega
    · intro row hrow
      omega
  · rw [if_neg hsome]
    exact offers_newRow h _ _

theorem offers_return_other {selectedItem : GameItem} (coordinate : String)
    {other : String} (hother : other ≠ selectedItem.key)
    {rows : List GameItem} {stock : Int}
    (hsold : ∀ row ∈ rows, row.Sold) (hselected : selectedItem.Sold)
    (h : Offers (rowsAbove other rows) stock) :
    Offers (rowsAbove other (returnToInventory selectedItem coordinate rows)) stock := by
  refine h.mono (fun t => ?_) (Int.le_refl _)
  rw [returnToInventory_eq hsold hselected.1 hselected.2 coordinate]
  split
  · apply rowsAbove_map_le
    intro row _ hkey habove
    rw [return_key] at hkey
    rw [if_neg (fun hcond => hother (hkey.symm.trans hcond.1))] at habove
    exact ⟨hkey, habove⟩
  · rw [rowsAbove_append_row, if_neg (fun habove => hother habove.1.symm)]
    exact Nat.le_refl _

/-! ## Counts -/

/-- What a pending callback is still to add to the stored count of a key. -/
def Read.units (key : String) : Read → Int
  | .buyInventory _ _ _ key' | .removeInventory _ key' => if key' = key then 1 else 0
  | .placeInventory _ key' => if key' = key then -1 else 0
  | _ => 0

/-- The units of a key that a pending callback is still to show in a row. -/
def Read.toDeliver (key : String) : Read → Int
  | .buyInventory _ _ _ key' => if key' = key then 1 else 0
  | _ => 0

theorem Read.toDeliver_nonneg (key : String) (read : Read) : 0 ≤ read.toDeliver key := by
  cases read with
  | buyInventory uid cell tap key' =>
      unfold Read.toDeliver
      dsimp only
      split <;> omega
  | _ => exact Int.le_refl 0

/-- The counts `tapped` are the stored ones with what is in flight, and the rows
offer no more than these units less those still to be delivered. -/
structure UnitsInFlight (stored tapped : String → Nat) (reads : List Read)
    (rows : List GameItem) : Prop where
  counted : ∀ key, (stored key : Int) + total (Read.units key) reads = tapped key
  sold : ∀ row ∈ rows, row.Sold
  positive : ∀ row ∈ rows, 0 < row.count
  offered : ∀ key,
    Offers (rowsAbove key rows) (tapped key - total (Read.toDeliver key) reads)

namespace UnitsInFlight

variable {stored stored' tapped tapped' : String → Nat} {reads reads' : List Read}
  {rows : List GameItem}

theorem perm (h : UnitsInFlight stored tapped reads rows) (hperm : reads.Perm reads') :
    UnitsInFlight stored tapped reads' rows := by
  refine ⟨?_, h.sold, h.positive, ?_⟩
  · intro key
    rw [← total_perm (Read.units key) hperm]
    exact h.counted key
  · intro key
    rw [← total_perm (Read.toDeliver key) hperm]
    exact h.offered key

/-- A read that is not about counts comes or goes. -/
theorem cons_iff {read : Read} (hunits : ∀ key, read.units key = 0)
    (hdeliver : ∀ key, read.toDeliver key = 0) :
    UnitsInFlight stored tapped (read :: reads) rows ↔
      UnitsInFlight stored tapped reads rows := by
  have hcount : ∀ key, total (Read.units key) (read :: reads) =
      total (Read.units key) reads := by
    intro key
    rw [total_cons, hunits, Int.zero_add]
  have howed : ∀ key, total (Read.toDeliver key) (read :: reads) =
      total (Read.toDeliver key) reads := by
    intro key
    rw [total_cons, hdeliver, Int.zero_add]
  constructor
  · intro h
    refine ⟨?_, h.sold, h.positive, ?_⟩
    · intro key
      rw [← hcount]
      exact h.counted key
    · intro key
      rw [← howed]
      exact h.offered key
  · intro h
    refine ⟨?_, h.sold, h.positive, ?_⟩
    · intro key
      rw [hcount]
      exact h.counted key
    · intro key
      rw [howed]
      exact h.offered key

/-! ### The taps -/

theorem buyTap (h : UnitsInFlight stored tapped reads rows) {key : String}
    (htapped : ∀ other, tapped' other = tapped other + if other = key then 1 else 0)
    (uid : Uid) (cell tap : Nat) :
    UnitsInFlight stored tapped' (.buyInventory uid cell tap key :: reads) rows := by
  have hread : ∀ other, (Read.buyInventory uid cell tap key).units other =
      (if key = other then 1 else 0) ∧ (Read.buyInventory uid cell tap key).toDeliver other =
      (if key = other then 1 else 0) := fun _ => ⟨rfl, rfl⟩
  refine ⟨?_, h.sold, h.positive, ?_⟩
  · intro other
    have hcounted := h.counted other
    rw [total_cons, htapped, (hread other).1]
    by_cases hother : other = key
    · rw [if_pos hother, if_pos hother.symm]
      omega
    · rw [if_neg hother, if_neg (Ne.symm hother)]
      omega
  · intro other
    refine (h.offered other).mono (fun _ => Nat.le_refl _) ?_
    rw [total_cons, htapped, (hread other).2]
    by_cases hother : other = key
    · rw [if_pos hother, if_pos hother.symm]
      omega
    · rw [if_neg hother, if_neg (Ne.symm hother)]
      omega

/-- A row to place from means a unit to place. -/
theorem unit_of_row (h : UnitsInFlight stored tapped reads rows) {key : String}
    (hrow : ∃ row ∈ rows, row.key = key) :
    0 < rowsAbove key rows 0 ∧ 0 < tapped key := by
  obtain ⟨row, hmem, hkey⟩ := hrow
  have hsome : 0 < rowsAbove key rows 0 := by
    unfold rowsAbove
    rw [List.countP_pos_iff]
    have hpositive := h.positive row hmem
    exact ⟨row, hmem, by simpa [hkey] using hpositive⟩
  have hoffered := h.offered key 0 (Or.inl rfl)
  have howed := total_nonneg fun read (_ : read ∈ reads) => read.toDeliver_nonneg key
  exact ⟨hsome, by omega⟩

theorem placeTap (h : UnitsInFlight stored tapped reads rows) {key : String}
    (hrow : ∃ row ∈ rows, row.key = key)
    (htapped : ∀ other, tapped' other = tapped other - if other = key then 1 else 0)
    (uid : Uid) :
    UnitsInFlight stored tapped' (.placeInventory uid key :: reads)
      (takeFromInventory key rows) := by
  obtain ⟨hsome, hunit⟩ := h.unit_of_row hrow
  have hread : ∀ other, (Read.placeInventory uid key).units other =
      (if key = other then -1 else 0) := fun _ => rfl
  have howed : ∀ other, total (Read.toDeliver other) (.placeInventory uid key :: reads) =
      total (Read.toDeliver other) reads := fun _ => Int.zero_add _
  refine ⟨?_, ?_, ?_, ?_⟩
  · intro other
    have hcounted := h.counted other
    rw [total_cons, htapped, hread]
    by_cases hother : other = key
    · rw [if_pos hother, if_pos hother.symm]
      rw [hother] at hcounted ⊢
      omega
    · rw [if_neg hother, if_neg (Ne.symm hother)]
      omega
  · exact forall_takeFromInventory h.sold key (fun _ hsold _ => hsold)
  · refine forall_takeFromInventory h.positive key (fun row hpositive hmore => ?_)
    change 0 < row.count - 1
    omega
  · intro other
    rw [howed, htapped]
    by_cases hother : other = key
    · subst hother
      rw [if_pos rfl]
      refine (offers_take (h.offered other) hsome).mono (fun _ => Nat.le_refl _) ?_
      omega
    · rw [if_neg hother]
      exact offers_take_other hother (h.offered other)

theorem removeTap (h : UnitsInFlight stored tapped reads rows) {selectedItem : GameItem}
    (hselected : selectedItem.Sold)
    (htapped : ∀ other, tapped' other =
      tapped other + if other = selectedItem.key then 1 else 0)
    (uid : Uid) (coordinate : String) :
    UnitsInFlight stored tapped' (.removeInventory uid selectedItem.key :: reads)
      (returnToInventory selectedItem coordinate rows) := by
  have hread : ∀ other, (Read.removeInventory uid selectedItem.key).units other =
      (if selectedItem.key = other then 1 else 0) := fun _ => rfl
  have howed : ∀ other,
      total (Read.toDeliver other) (.removeInventory uid selectedItem.key :: reads) =
        total (Read.toDeliver other) reads := fun _ => Int.zero_add _
  refine ⟨?_, ?_, ?_, ?_⟩
  · intro other
    have hcounted := h.counted other
    rw [total_cons, htapped, hread]
    by_cases hother : other = selectedItem.key
    · rw [if_pos hother, if_pos hother.symm]
      omega
    · rw [if_neg hother, if_neg (Ne.symm hother)]
      omega
  · exact forall_returnToInventory h.sold _ coordinate (fun _ hsold => hsold) hselected
  · refine forall_returnToInventory h.positive _ coordinate (fun row hpositive => ?_) ?_
    · change 0 < row.count + 1
      omega
    · exact Int.one_pos
  · intro other
    rw [howed, htapped]
    by_cases hother : other = selectedItem.key
    · rw [if_pos hother]
      subst hother
      refine (offers_return coordinate h.sold hselected (h.offered _)).mono
        (fun _ => Nat.le_refl _) ?_
      omega
    · rw [if_neg hother]
      exact offers_return_other coordinate hother h.sold hselected (h.offered other)

/-! ### The callbacks -/

/-- BUY's callback stores a unit and shows it, whatever count it found. -/
theorem deliver {storeItem : StoreItem} {uid : Uid} {cell tap : Nat}
    (h : UnitsInFlight stored tapped
      (.buyInventory uid cell tap storeItem.key :: reads) rows)
    (hsold : storeItem.key ∈ storeKeys ∧ storeItem.item = itemName storeItem.key)
    (hstored : ∀ other, stored' other =
      stored other + if other = storeItem.key then 1 else 0) (n : Nat) :
    UnitsInFlight stored' tapped reads (WillItRecycle.deliver storeItem n rows) := by
  have hread : ∀ other, (Read.buyInventory uid cell tap storeItem.key).units other =
      (if storeItem.key = other then 1 else 0) ∧
      (Read.buyInventory uid cell tap storeItem.key).toDeliver other =
        (if storeItem.key = other then 1 else 0) := fun _ => ⟨rfl, rfl⟩
  refine ⟨?_, ?_, ?_, ?_⟩
  · intro other
    have hcounted := h.counted other
    rw [total_cons, (hread other).1] at hcounted
    rw [hstored]
    by_cases hother : other = storeItem.key
    · rw [if_pos hother.symm] at hcounted
      rw [if_pos hother]
      omega
    · rw [if_neg (Ne.symm hother)] at hcounted
      rw [if_neg hother]
      omega
  · exact forall_deliver h.sold storeItem n (fun _ hsold => hsold) hsold
  · refine forall_deliver h.positive storeItem n (fun row hpositive => ?_) ?_
    · change 0 < row.count + 1
      omega
    · exact Int.one_pos
  · intro other
    have hoffered := h.offered other
    rw [total_cons, (hread other).2] at hoffered
    by_cases hother : other = storeItem.key
    · subst hother
      rw [if_pos rfl] at hoffered
      refine (offers_deliver hoffered h.positive n).mono (fun _ => Nat.le_refl _) ?_
      omega
    · rw [if_neg (Ne.symm hother), Int.zero_add] at hoffered
      exact offers_deliver_other hother hoffered n

/-- PLACE's callback takes a stored unit when there is one. -/
theorem take {uid : Uid} {key : String}
    (h : UnitsInFlight stored tapped (.placeInventory uid key :: reads) rows)
    (hunit : 0 < stored key)
    (hstored : ∀ other, stored' other = stored other - if other = key then 1 else 0) :
    UnitsInFlight stored' tapped reads rows := by
  have hread : ∀ other, (Read.placeInventory uid key).units other =
      (if key = other then -1 else 0) := fun _ => rfl
  have howed : ∀ other, total (Read.toDeliver other) (.placeInventory uid key :: reads) =
      total (Read.toDeliver other) reads := fun _ => Int.zero_add _
  refine ⟨?_, h.sold, h.positive, ?_⟩
  · intro other
    have hcounted := h.counted other
    rw [total_cons, hread] at hcounted
    rw [hstored]
    by_cases hother : other = key
    · rw [if_pos hother.symm] at hcounted
      rw [if_pos hother]
      rw [hother] at hcounted ⊢
      omega
    · rw [if_neg (Ne.symm hother)] at hcounted
      rw [if_neg hother]
      omega
  · intro other
    rw [← howed]
    exact h.offered other

/-- REMOVE's callback stores a unit. -/
theorem giveBack {uid : Uid} {key : String}
    (h : UnitsInFlight stored tapped (.removeInventory uid key :: reads) rows)
    (hstored : ∀ other, stored' other = stored other + if other = key then 1 else 0) :
    UnitsInFlight stored' tapped reads rows := by
  have hread : ∀ other, (Read.removeInventory uid key).units other =
      (if key = other then 1 else 0) := fun _ => rfl
  have howed : ∀ other, total (Read.toDeliver other) (.removeInventory uid key :: reads) =
      total (Read.toDeliver other) reads := fun _ => Int.zero_add _
  refine ⟨?_, h.sold, h.positive, ?_⟩
  · intro other
    have hcounted := h.counted other
    rw [total_cons, hread] at hcounted
    rw [hstored]
    by_cases hother : other = key
    · rw [if_pos hother.symm] at hcounted
      rw [if_pos hother]
      omega
    · rw [if_neg (Ne.symm hother)] at hcounted
      rw [if_neg hother]
      omega
  · intro other
    rw [← howed]
    exact h.offered other

end UnitsInFlight

/-- Right after a load the stored counts are the ones shown. -/
theorem ShowsInventory.unitsInFlight {record : UserRecord} {app : App}
    (h : ShowsInventory record app) :
    UnitsInFlight record.inventory record.inventory [] app.inventoryItems := by
  refine ⟨?_, h.known, ?_, ?_⟩
  · intro key
    exact Int.add_zero _
  · intro row hrow
    have hpositive := h.positive row hrow
    omega
  · intro key t ht
    have hstored := h.stored key
    change (t : Int) + (rowsAbove key app.inventoryItems t : Int) ≤
      (record.inventory key : Int) - 0
    by_cases hsome : ∃ row ∈ app.inventoryItems, row.key = key ∧ (t : Int) < row.count
    · obtain ⟨row, hrow, rfl, habove⟩ := hsome
      rw [unitsShown_of_mem h.nodup hrow] at hstored
      have hone : rowsAbove row.key app.inventoryItems t ≤ 1 := by
        have hkey := filter_key_eq_singleton h.nodup hrow
        have hle : rowsAbove row.key app.inventoryItems t ≤
            app.inventoryItems.countP (fun other => other.key = row.key) := by
          apply List.countP_mono_left
          intro other _ hother
          simp only [decide_eq_true_eq] at hother ⊢
          exact hother.1
        rw [List.countP_eq_length_filter, hkey] at hle
        exact hle
      omega
    · have hzero : rowsAbove key app.inventoryItems t = 0 := by
        unfold rowsAbove
        rw [List.countP_eq_zero]
        intro row hrow
        simp only [decide_eq_true_eq]
        intro habove
        exact hsome ⟨row, hrow, habove⟩
      have ht' : t = 0 := by omega
      subst ht'
      omega

end WillItRecycle

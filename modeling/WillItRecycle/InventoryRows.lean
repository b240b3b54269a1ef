import WillItRecycle.Session

/-!
# The loops over the local inventory

The rows of the inventory screen have different keys and show at least one and
at most as many units as are stored.  Under that invariant every loop does one
simple thing to the row of the key it is about; `rowOf` states it, one lemma for
each operation, and `ShowsInventory` survives the operations.
-/

namespace WillItRecycle

open PathTree ReadCallback LastMatch

/-- The units shown by two lists of rows are those shown by each. -/
theorem unitsShown_append (key : String) (rows rows' : List GameItem) :
    unitsShown key (rows ++ rows') = unitsShown key rows + unitsShown key rows' := by
  unfold unitsShown
  rw [List.filter_append, List.map_append, List.sum_append]

/-- A row shows its units under its own key only. -/
theorem unitsShown_cons (key : String) (row : GameItem) (rows : List GameItem) :
    unitsShown key (row :: rows) =
      (if row.key = key then row.count else 0) + unitsShown key rows := by
  unfold unitsShown
  by_cases hkey : row.key = key
  · simp [hkey]
  · simp [hkey]

/-- Where no row has the key, no unit of it is shown. -/
theorem unitsShown_eq_zero {key : String} {rows : List GameItem}
    (h : ∀ row ∈ rows, row.key ≠ key) : unitsShown key rows = 0 := by
  unfold unitsShown
  have hnone : rows.filter (fun row => row.key = key) = [] := by
    rw [List.filter_eq_nil_iff]
    intro row hrow
    simpa using h row hrow
  simp [hnone]

/-- A key with one row shows that row's count. -/
theorem unitsShown_of_mem {rows : List GameItem}
    (hnodup : (rows.map GameItem.key).Nodup) {row : GameItem} (hrow : row ∈ rows) :
    unitsShown row.key rows = row.count := by
  induction rows with
  | nil => cases hrow
  | cons first rest ih =>
      rw [List.map_cons, List.nodup_cons] at hnodup
      obtain ⟨hfirst, hrest⟩ := hnodup
      rw [unitsShown_cons]
      rcases List.mem_cons.mp hrow with heq | hmem
      · subst heq
        have hzero : unitsShown row.key rest = 0 := by
          apply unitsShown_eq_zero
          intro other hother hkey
          exact hfirst (hkey ▸ List.mem_map_of_mem hother)
        rw [if_pos rfl, hzero]
        omega
      · have hne : first.key ≠ row.key := by
          intro hkey
          exact hfirst (hkey ▸ List.mem_map_of_mem hmem)
        have hshown := ih hrest hmem
        rw [if_neg hne, hshown]
        omega

/-- With different keys, the rows of a key are at most one. -/
theorem filter_key_eq_singleton {rows : List GameItem}
    (hnodup : (rows.map GameItem.key).Nodup) {row : GameItem} (hrow : row ∈ rows) :
    (rows.filter fun other => other.key = row.key) = [row] := by
  induction rows with
  | nil => cases hrow
  | cons first rest ih =>
      rw [List.map_cons, List.nodup_cons] at hnodup
      obtain ⟨hfirst, hrest⟩ := hnodup
      rcases List.mem_cons.mp hrow with heq | hmem
      · subst heq
        rw [List.filter_cons_of_pos (by simp), List.filter_eq_nil_iff.mpr]
        intro other hother hkey
        have heq : other.key = row.key := by simpa using hkey
        exact hfirst (heq ▸ List.mem_map_of_mem hother)
      · have hne : first.key ≠ row.key := by
          intro heq
          exact hfirst (heq ▸ List.mem_map_of_mem hmem)
        rw [List.filter_cons_of_neg (by simpa using hne)]
        exact ih hrest hmem

section Loops

variable {change : GameItem → GameItem} (hkeep : ∀ row, (change row).key = row.key)
include hkeep

/-- An update that keeps the key of every row keeps the list of keys. -/
theorem keys_map (rows : List GameItem) :
    (rows.map change).map GameItem.key = rows.map GameItem.key := by
  rw [List.map_map]
  exact List.map_congr_left (fun row _ => hkeep row)

/-- A loop that keeps the keys acts on the row of a key. -/
theorem unitsShown_map_of_mem {rows : List GameItem}
    (hnodup : (rows.map GameItem.key).Nodup) {row : GameItem} (hrow : row ∈ rows) :
    unitsShown row.key (rows.map change) = (change row).count := by
  rw [← keys_map hkeep] at hnodup
  have hshown := unitsShown_of_mem hnodup (List.mem_map_of_mem hrow)
  rwa [hkeep row] at hshown

/-- An update that keeps the counts of one kind keeps the units shown of it. -/
theorem unitsShown_map_of_keep {key : String} {rows : List GameItem}
    (hsame : ∀ row ∈ rows, row.key = key → (change row).count = row.count) :
    unitsShown key (rows.map change) = unitsShown key rows := by
  induction rows with
  | nil => rfl
  | cons row rows ih =>
      have hrest := ih (fun other hother => hsame other (List.mem_cons_of_mem _ hother))
      rw [List.map_cons, unitsShown_cons, unitsShown_cons, hrest, hkeep]
      by_cases hkey : row.key = key
      · rw [if_pos hkey, if_pos hkey, hsame row List.mem_cons_self hkey]
      · rw [if_neg hkey, if_neg hkey]

end Loops

/-! ## PLACE -/

/-- What PLACE makes of a row that stays. -/
def takeUnit (key : String) (row : GameItem) : GameItem :=
  if row.key = key ∧ row.count ≠ 1 then row.decrementCount else row

/-- Taking a unit changes a count, not a key. -/
theorem takeUnit_key (key : String) (row : GameItem) :
    (takeUnit key row).key = row.key := by
  unfold takeUnit
  split <;> rfl

/-- PLACE takes a unit of every row of the key that shows more than one, and the
last row that shows one only. -/
theorem takeFromInventory_split (key : String) (rows : List GameItem) :
    (takeFromInventory key rows = rows.map (takeUnit key) ∧
      ∀ row ∈ rows, row.key = key → row.count ≠ 1) ∨
    ∃ before row after, rows = before ++ row :: after ∧ row.key = key ∧
      row.count = 1 ∧
      takeFromInventory key rows = (before ++ after).map (takeUnit key) := by
  have hloop : takeFromInventory key rows = removeAt (rows.map (takeUnit key))
      (removeIndex (fun item => item.key = key ∧ item.count = 1) rows) := rfl
  rw [hloop]
  rcases removeIndex_cases (fun item : GameItem => item.key = key ∧ item.count = 1)
    rows with ⟨hnone, hall⟩ | ⟨before, row, after, hsplit, hindex, hrow, _⟩
  · left
    refine ⟨by rw [hnone, removeAt], ?_⟩
    intro row hrow hkey hone
    have hno := hall row hrow
    simp [hkey, hone] at hno
  · right
    obtain ⟨hkey, hone⟩ : row.key = key ∧ row.count = 1 := by simpa using hrow
    refine ⟨before, row, after, hsplit, hkey, hone, ?_⟩
    have hlength : before.length = (before.map (takeUnit key)).length := by
      rw [List.length_map]
    rw [hindex, removeAt, hsplit, List.map_append, List.map_cons, List.map_append,
      hlength, List.eraseIdx_append_of_length_le (Nat.le_refl _)]
    simp

/-- One unit leaves the inventory: with one row for each key, either the row
of the key loses a unit or, if it showed one only, it goes. -/
theorem takeFromInventory_cases (key : String) {rows : List GameItem}
    (hnodup : (rows.map GameItem.key).Nodup) :
    (takeFromInventory key rows =
        rows.map (fun row => if row.key = key then row.decrementCount else row) ∧
      ∀ row ∈ rows, row.key = key → row.count ≠ 1) ∨
    ∃ before row after, rows = before ++ row :: after ∧ row.key = key ∧
      row.count = 1 ∧ takeFromInventory key rows = before ++ after := by
  rcases takeFromInventory_split key rows with
    ⟨htake, hcount⟩ | ⟨before, row, after, hsplit, hkey, hone, htake⟩
  · left
    refine ⟨?_, hcount⟩
    rw [htake]
    apply List.map_congr_left
    intro row hrow
    unfold takeUnit
    by_cases hkey : row.key = key
    · rw [if_pos ⟨hkey, hcount row hrow hkey⟩, if_pos hkey]
    · rw [if_neg (fun h => hkey h.1), if_neg hkey]
  · right
    have hrest : ∀ other ∈ before ++ after, other.key ≠ key := by
      intro other hother heq
      rw [hsplit, List.map_append, List.map_cons, List.nodup_middle,
        ← List.map_append, List.nodup_cons] at hnodup
      apply hnodup.1
      rw [hkey, ← heq]
      exact List.mem_map_of_mem hother
    refine ⟨before, row, after, hsplit, hkey, hone, ?_⟩
    rw [htake, List.map_congr_left (g := id), List.map_id]
    intro other hother
    exact if_neg (fun h => hrest other hother h.1)

/-- Decrementing the row of a kind changes no key. -/
theorem decrement_key (key : String) (row : GameItem) :
    (if row.key = key then row.decrementCount else row).key = row.key := by
  split <;> rfl

/-- PLACE takes one unit of the kind placed when a row shows it, and nothing
else. -/
theorem unitsShown_takeFromInventory (key : String) {rows : List GameItem}
    (hnodup : (rows.map GameItem.key).Nodup) (other : String) :
    unitsShown other (takeFromInventory key rows) =
      unitsShown other rows -
        (if other = key ∧ ∃ row ∈ rows, row.key = key then 1 else 0) := by
  rcases takeFromInventory_cases key hnodup with
    ⟨htake, _⟩ | ⟨before, row, after, hsplit, hkey, hone, htake⟩
  · rw [htake]
    by_cases hother : other = key ∧ ∃ row ∈ rows, row.key = key
    · obtain ⟨rfl, row, hmem, rfl⟩ := hother
      rw [unitsShown_map_of_mem (decrement_key row.key) hnodup hmem, if_pos rfl,
        if_pos ⟨rfl, row, hmem, rfl⟩, unitsShown_of_mem hnodup hmem]
      rfl
    · rw [if_neg hother, unitsShown_map_of_keep (decrement_key key)]
      · omega
      · intro row hrow hkey
        rw [if_neg]
        intro heq
        exact hother ⟨hkey.symm.trans heq, row, hrow, heq⟩
  · have hmem : ∃ row ∈ rows, row.key = key :=
      ⟨row, hsplit ▸ by simp, hkey⟩
    rw [htake, hsplit, unitsShown_append, unitsShown_append, unitsShown_cons, hkey,
      hone, ← hsplit]
    by_cases hother : other = key
    · rw [if_pos hother.symm, if_pos ⟨hother, hmem⟩]
      omega
    · rw [if_neg (Ne.symm hother), if_neg (fun h => hother h.1)]
      omega

/-- The rows PLACE leaves are rows there were, with one unit less at most. -/
theorem mem_takeFromInventory {key : String} {rows : List GameItem}
    (hnodup : (rows.map GameItem.key).Nodup) {row : GameItem}
    (hrow : row ∈ takeFromInventory key rows) :
    ∃ old ∈ rows, row.key = old.key ∧ row.item = old.item ∧
      (row.count = old.count ∨ old.count ≠ 1 ∧ row.count = old.count - 1) := by
  rcases takeFromInventory_cases key hnodup with
    ⟨htake, hcount⟩ | ⟨before, gone, after, hsplit, _, _, htake⟩
  · rw [htake] at hrow
    obtain ⟨old, hold, rfl⟩ := List.mem_map.mp hrow
    by_cases hkey : old.key = key
    · rw [if_pos hkey]
      exact ⟨old, hold, rfl, rfl, Or.inr ⟨hcount old hold hkey, rfl⟩⟩
    · rw [if_neg hkey]
      exact ⟨old, hold, rfl, rfl, Or.inl rfl⟩
  · rw [htake] at hrow
    refine ⟨row, ?_, rfl, rfl, Or.inl rfl⟩
    rw [hsplit]
    rcases List.mem_append.mp hrow with hrow | hrow
    · exact List.mem_append_left _ hrow
    · exact List.mem_append_right _ (List.mem_cons_of_mem _ hrow)

/-- Taking a unit leaves at most one row for each kind: it removes a row or changes its
count. -/
theorem nodup_takeFromInventory (key : String) {rows : List GameItem}
    (hnodup : (rows.map GameItem.key).Nodup) :
    ((takeFromInventory key rows).map GameItem.key).Nodup := by
  rcases takeFromInventory_cases key hnodup with
    ⟨htake, _⟩ | ⟨before, row, after, hsplit, _, _, htake⟩
  · rw [htake, keys_map (decrement_key key)]
    exact hnodup
  · rw [htake]
    rw [hsplit] at hnodup
    have hsublist : (before ++ after).Sublist (before ++ row :: after) :=
      List.Sublist.append_left (List.sublist_cons_self row after) before
    exact List.Sublist.nodup (hsublist.map GameItem.key) hnodup

/-! ## BUY -/

/-- Incrementing the row of a kind changes no key. -/
theorem increment_key (key : String) (row : GameItem) :
    (if row.key = key then row.incrementCount else row).key = row.key := by
  split <;> rfl

/-- BUY shows one unit more of the kind bought, unless units of it are stored
and no row shows any. -/
theorem unitsShown_deliver (storeItem : StoreItem) (n : Nat) {rows : List GameItem}
    (hnodup : (rows.map GameItem.key).Nodup) (other : String) :
    unitsShown other (deliver storeItem n rows) =
      unitsShown other rows +
        (if other = storeItem.key ∧
            (n = 0 ∨ ∃ row ∈ rows, row.key = storeItem.key) then 1 else 0) := by
  unfold deliver
  by_cases hn : n = 0
  · rw [if_pos hn, unitsShown_append, unitsShown_cons]
    have hnil : unitsShown other [] = 0 := rfl
    rw [hnil]
    by_cases hother : other = storeItem.key
    · simp [hother, hn]
    · simp [hother, Ne.symm hother]
  · rw [if_neg hn]
    unfold incrementInventory
    by_cases hother : other = storeItem.key ∧ ∃ row ∈ rows, row.key = storeItem.key
    · obtain ⟨hkey, row, hmem, hrow⟩ := hother
      rw [if_pos ⟨hkey, Or.inr ⟨row, hmem, hrow⟩⟩, hkey, ← hrow,
        unitsShown_map_of_mem (increment_key row.key) hnodup hmem, if_pos rfl,
        unitsShown_of_mem hnodup hmem]
      rfl
    · rw [if_neg (fun h => hother ⟨h.1, h.2.resolve_left hn⟩),
        unitsShown_map_of_keep (increment_key storeItem.key)]
      · omega
      · intro row hrow hkey
        rw [if_neg]
        intro heq
        exact hother ⟨hkey.symm.trans heq, row, hrow, heq⟩

/-! ## REMOVE -/

/-- A loop by display name is a loop by key. -/
theorem item_eq_iff {rows : List GameItem}
    (h : ∀ row ∈ rows, row.key ∈ storeKeys ∧ row.item = itemName row.key)
    {selectedItem : GameItem}
    (hkey : selectedItem.key ∈ storeKeys)
    (hitem : selectedItem.item = itemName selectedItem.key) {row : GameItem}
    (hrow : row ∈ rows) :
    row.item = selectedItem.item ↔ row.key = selectedItem.key := by
  obtain ⟨hknown, hname⟩ := h row hrow
  rw [hname, hitem]
  constructor
  · intro heq
    exact itemName_injective hknown hkey heq
  · intro heq
    rw [heq]

/-- REMOVE looks for a row with the text of the item. With the names of the store that is
the row of its key: it gains a unit if it showed more than one, and where there is no such
row one with a single unit is appended. -/
theorem returnToInventory_eq {rows : List GameItem}
    (h : ∀ row ∈ rows, row.key ∈ storeKeys ∧ row.item = itemName row.key)
    {selectedItem : GameItem}
    (hkey : selectedItem.key ∈ storeKeys)
    (hitem : selectedItem.item = itemName selectedItem.key) (coordinate : String) :
    returnToInventory selectedItem coordinate rows =
      if ∃ row ∈ rows, row.key = selectedItem.key then
        rows.map (fun row =>
          if row.key = selectedItem.key ∧ row.count > 1 then row.incrementCount
          else row)
      else
        rows ++
          [⟨selectedItem.key, selectedItem.item, 1, [coordinate]⟩] := by
  have hloop : rows.map (fun row =>
        if row.item = selectedItem.item ∧ row.count > 1 then row.incrementCount
        else row) =
      rows.map (fun row =>
        if row.key = selectedItem.key ∧ row.count > 1 then row.incrementCount
        else row) := by
    apply List.map_congr_left
    intro row hrow
    have hiff := item_eq_iff h hkey hitem hrow
    simp only [hiff]
  have hany : (rows.any fun row => row.item = selectedItem.item) =
      true ↔ ∃ row ∈ rows, row.key = selectedItem.key := by
    rw [List.any_eq_true]
    constructor
    · intro hsome
      obtain ⟨row, hrow, heq⟩ := hsome
      exact ⟨row, hrow, (item_eq_iff h hkey hitem hrow).mp (by simpa using heq)⟩
    · intro hsome
      obtain ⟨row, hrow, heq⟩ := hsome
      exact ⟨row, hrow, by simpa using (item_eq_iff h hkey hitem hrow).mpr heq⟩
  unfold returnToInventory
  simp only [hloop]
  by_cases hsome : ∃ row ∈ rows, row.key = selectedItem.key
  · rw [if_pos (hany.mpr hsome), if_pos hsome]
  · rw [if_neg (fun h => hsome (hany.mp h)), if_neg hsome]
    -- without a row of the key the loop over the rows does nothing
    rw [List.map_congr_left (g := id), List.map_id]
    intro row hrow
    exact if_neg (fun h => hsome ⟨row, hrow, h.1⟩)

/-- Returning an item changes no key of a row that is there. -/
theorem return_key (key : String) (row : GameItem) :
    (if row.key = key ∧ row.count > 1 then row.incrementCount else row).key =
      row.key := by
  split <;> rfl

/-- The screens show a single unit of the key. -/
def ShowsSingle (key : String) (rows : List GameItem) : Prop :=
  ∃ row ∈ rows, row.key = key ∧ row.count = 1

/-- Whether a list of rows shows a single unit of a kind can be computed. -/
instance (key : String) (rows : List GameItem) : Decidable (ShowsSingle key rows) :=
  inferInstanceAs (Decidable (∃ row ∈ rows, row.key = key ∧ row.count = 1))

/-- REMOVE shows one unit more of the kind removed, unless exactly one was
shown. -/
theorem unitsShown_returnToInventory {record : UserRecord} {app : App}
    (h : ShowsInventory record app) {selectedItem : GameItem}
    (hkey : selectedItem.key ∈ storeKeys)
    (hitem : selectedItem.item = itemName selectedItem.key) (coordinate : String)
    (other : String) :
    unitsShown other
        (returnToInventory selectedItem coordinate app.inventoryItems) =
      unitsShown other app.inventoryItems +
        (if other = selectedItem.key ∧
            ¬ ShowsSingle selectedItem.key app.inventoryItems then 1 else 0) := by
  rw [returnToInventory_eq h.known hkey hitem]
  by_cases hsome : ∃ row ∈ app.inventoryItems, row.key = selectedItem.key
  · rw [if_pos hsome]
    by_cases hother : other = selectedItem.key
    · obtain ⟨row, hmem, hrow⟩ := hsome
      have hpositive := h.positive row hmem
      have hsingle : ShowsSingle selectedItem.key app.inventoryItems ↔ row.count = 1 := by
        constructor
        · intro hone
          obtain ⟨row', hmem', hrow', hone⟩ := hone
          have hshown := unitsShown_of_mem h.nodup hmem
          have hshown' := unitsShown_of_mem h.nodup hmem'
          rw [hrow] at hshown
          rw [hrow'] at hshown'
          omega
        · intro hone
          exact ⟨row, hmem, hrow, hone⟩
      have hafter := unitsShown_map_of_mem (return_key selectedItem.key) h.nodup hmem
      have hbefore := unitsShown_of_mem h.nodup hmem
      rw [hrow] at hafter hbefore
      rw [hother, hafter, hbefore]
      by_cases hone : row.count = 1
      · rw [if_neg (by omega), if_neg (fun hne => hne.2 (hsingle.mpr hone))]
        omega
      · rw [if_pos ⟨rfl, by omega⟩, if_pos ⟨rfl, fun hs => hone (hsingle.mp hs)⟩]
        rfl
    · rw [if_neg (fun h => hother h.1), unitsShown_map_of_keep (return_key _)]
      · omega
      · intro row _ hrow
        rw [if_neg (fun h => hother (hrow.symm.trans h.1))]
  · have hnone : ¬ ShowsSingle selectedItem.key app.inventoryItems := by
      intro hone
      obtain ⟨row, hmem, hrow, _⟩ := hone
      exact hsome ⟨row, hmem, hrow⟩
    rw [if_neg hsome, unitsShown_append, unitsShown_cons]
    have hnil : unitsShown other [] = 0 := rfl
    rw [hnil]
    by_cases hother : other = selectedItem.key
    · rw [if_pos hother.symm, if_pos ⟨hother, hnone⟩]
      rfl
    · rw [if_neg (Ne.symm hother), if_neg (fun h => hother h.1)]
      omega

/-! ## The rows after an operation -/

/-- Only the rows and the stored counts matter. -/
theorem ShowsInventory.congr {record record' : UserRecord} {app app' : App}
    (h : ShowsInventory record app)
    (hinventory : record'.inventory = record.inventory)
    (hrows : app'.inventoryItems = app.inventoryItems) :
    ShowsInventory record' app' := by
  refine ⟨?_, ?_, ?_, ?_⟩
  · rw [hrows]
    exact h.known
  · rw [hrows]
    exact h.nodup
  · rw [hrows]
    exact h.positive
  · rw [hrows, hinventory]
    exact h.stored

/-- A key that is not stored has no row. -/
theorem ShowsInventory.no_row {record : UserRecord} {app : App}
    (h : ShowsInventory record app) {key : String} (hzero : record.inventory key = 0) :
    ∀ row ∈ app.inventoryItems, row.key ≠ key := by
  intro row hrow hkey
  have hshown := unitsShown_of_mem h.nodup hrow
  have hpositive := h.positive row hrow
  have hstored := h.stored key
  rw [hkey] at hshown
  omega

/-! ## What holds of all rows -/

section Rows

variable {P : GameItem → Prop} {rows : List GameItem} (h : ∀ row ∈ rows, P row)
include h

/-- PLACE takes a unit only of rows that show more than one. -/
theorem forall_takeFromInventory (key : String)
    (hless : ∀ row, P row → row.count ≠ 1 → P row.decrementCount) :
    ∀ row ∈ takeFromInventory key rows, P row := by
  have hloop : ∀ row ∈ rows, P (takeUnit key row) := by
    intro row hrow
    unfold takeUnit
    split
    · next hcond => exact hless row (h row hrow) hcond.2
    · exact h row hrow
  intro row hrow
  rcases takeFromInventory_split key rows with
    ⟨htake, _⟩ | ⟨before, gone, after, hsplit, _, _, htake⟩
  · rw [htake] at hrow
    obtain ⟨old, hold, rfl⟩ := List.mem_map.mp hrow
    exact hloop old hold
  · rw [htake] at hrow
    obtain ⟨old, hold, rfl⟩ := List.mem_map.mp hrow
    apply hloop old
    rw [hsplit]
    rcases List.mem_append.mp hold with hold | hold
    · exact List.mem_append_left _ hold
    · exact List.mem_append_right _ (List.mem_cons_of_mem _ hold)

/-- What holds of the rows, and of a row with one unit more, holds after an increment. -/
theorem forall_incrementInventory (key : String)
    (hmore : ∀ row, P row → P row.incrementCount) :
    ∀ row ∈ incrementInventory key rows, P row := by
  intro row hrow
  unfold incrementInventory at hrow
  obtain ⟨old, hold, rfl⟩ := List.mem_map.mp hrow
  split
  · exact hmore old (h old hold)
  · exact h old hold

/-- What holds of the rows and of the new row holds after it is appended. -/
theorem forall_append_row {row : GameItem} (hrow : P row) :
    ∀ other ∈ rows ++ [row], P other := by
  intro other hother
  rcases List.mem_append.mp hother with hother | hother
  · exact h other hother
  · rw [List.mem_singleton.mp hother]
    exact hrow

/-- What holds of the rows, of a row with one unit more and of the bought row holds after
BUY has delivered. -/
theorem forall_deliver (storeItem : StoreItem) (n : Nat)
    (hmore : ∀ row, P row → P row.incrementCount)
    (hnew : P ⟨storeItem.key, storeItem.item, 1, []⟩) :
    ∀ row ∈ deliver storeItem n rows, P row := by
  unfold deliver
  split
  · exact forall_append_row h hnew
  · exact forall_incrementInventory h _ hmore

/-- What holds of the rows, of a row with one unit more and of the returned row holds
after REMOVE has returned an item. -/
theorem forall_returnToInventory (selectedItem : GameItem) (coordinate : String)
    (hmore : ∀ row, P row → P row.incrementCount)
    (hnew : P ⟨selectedItem.key, selectedItem.item, 1, [coordinate]⟩) :
    ∀ row ∈ returnToInventory selectedItem coordinate rows, P row := by
  have hloop : ∀ row ∈ rows.map (fun item =>
      if item.item = selectedItem.item ∧ item.count > 1 then item.incrementCount
      else item), P row := by
    intro row hrow
    obtain ⟨old, hold, rfl⟩ := List.mem_map.mp hrow
    split
    · exact hmore old (h old hold)
    · exact h old hold
  unfold returnToInventory
  dsimp only
  split
  · exact hloop
  · exact forall_append_row hloop hnew

end Rows

/-- A row of a new kind may be appended without giving a kind two rows. -/
theorem nodup_keys_append {rows : List GameItem} {row : GameItem}
    (hnodup : (rows.map GameItem.key).Nodup) (hnew : ∀ old ∈ rows, old.key ≠ row.key) :
    ((rows ++ [row]).map GameItem.key).Nodup := by
  rw [List.map_append, List.nodup_append]
  refine ⟨hnodup, by simp, ?_⟩
  intro key hkey key' hkey' heq
  obtain ⟨old, hold, rfl⟩ := List.mem_map.mp hkey
  rw [List.map_singleton, List.mem_singleton] at hkey'
  exact hnew old hold (heq.trans hkey')

/-- BUY adds one unit of the bought kind when the wallet covers its price, and none of the
others. -/
theorem UserRecord.buy_inventory (record : UserRecord) (storeItem : StoreItem)
    (other : String) :
    (record.buy storeItem).inventory other =
      record.inventory other +
        (if other = storeItem.key ∧ record.currentLeaves - storeItem.cost ≥ 0 then 1
         else 0) := by
  unfold UserRecord.buy
  by_cases hcost : record.currentLeaves - storeItem.cost ≥ 0
  · rw [if_pos hcost, UserRecord.setInventory_inventory]
    by_cases hother : other = storeItem.key
    · rw [if_pos hother, if_pos ⟨hother, hcost⟩, hother]
    · rw [if_neg hother, if_neg (fun h => hother h.1)]
      rfl
  · rw [if_neg hcost, if_neg (fun h => hcost h.2)]
    rfl

/-- PLACE takes one unit of the placed kind, and none of the others. -/
theorem UserRecord.place_inventory (record : UserRecord) (key coordinate other : String) :
    (record.place key coordinate).inventory other =
      record.inventory other - (if other = key then 1 else 0) := by
  unfold UserRecord.place
  rw [UserRecord.setInventory_inventory]
  by_cases hother : other = key
  · rw [if_pos hother, if_pos hother, hother]
  · rw [if_neg hother, if_neg hother]
    rfl

/-- REMOVE returns one unit of the removed kind, and none of the others. -/
theorem UserRecord.remove_inventory (record : UserRecord) (key coordinate other : String) :
    (record.remove key coordinate).inventory other =
      record.inventory other + (if other = key then 1 else 0) := by
  unfold UserRecord.remove
  rw [UserRecord.setInventory_inventory]
  by_cases hother : other = key
  · rw [if_pos hother, if_pos hother, hother]
  · rw [if_neg hother, if_neg hother]
    rfl

/-- After BUY has delivered, the rows show the inventory with the bought unit. -/
theorem ShowsInventory.deliver {record record' : UserRecord} {app app' : App}
    (h : ShowsInventory record app) (storeItem : ShelfItem)
    (hrows : app'.inventoryItems =
      deliver storeItem.val (record.inventory storeItem.val.key) app.inventoryItems)
    (hinventory : ∀ other, record'.inventory other =
      record.inventory other + (if other = storeItem.val.key then 1 else 0)) :
    ShowsInventory record' app' := by
  have hunits := unitsShown_deliver storeItem.val
    (record.inventory storeItem.val.key) h.nodup
  rw [← hrows] at hunits
  have hstored : ∀ key, unitsShown key app'.inventoryItems ≤ record'.inventory key := by
    intro key
    have hbefore := h.stored key
    rw [hunits, hinventory]
    by_cases hkey : key = storeItem.val.key
    · rw [if_pos hkey]
      split <;> omega
    · rw [if_neg hkey, if_neg (fun h => hkey h.1)]
      omega
  unfold WillItRecycle.deliver at hrows
  by_cases hzero : record.inventory storeItem.val.key = 0
  · rw [if_pos hzero] at hrows
    have hnew := h.no_row hzero
    have hmem : ∀ row ∈ app'.inventoryItems, row ∈ app.inventoryItems ∨
        row = ⟨storeItem.val.key, storeItem.val.item, 1, []⟩ := by
      intro row hrow
      rw [hrows] at hrow
      rcases List.mem_append.mp hrow with hrow | hrow
      · exact Or.inl hrow
      · exact Or.inr (List.mem_singleton.mp hrow)
    refine ⟨?_, ?_, ?_, hstored⟩
    · intro row hrow
      rcases hmem row hrow with hold | rfl
      · exact h.known row hold
      · exact ⟨storeItem_key_mem storeItem, storeItem_item storeItem⟩
    · rw [hrows]
      exact nodup_keys_append h.nodup hnew
    · intro row hrow
      rcases hmem row hrow with hold | rfl
      · exact h.positive row hold
      · exact Int.le_refl 1
  · rw [if_neg hzero] at hrows
    unfold incrementInventory at hrows
    refine ⟨?_, ?_, ?_, hstored⟩
    · intro row hrow
      rw [hrows] at hrow
      obtain ⟨old, hold, rfl⟩ := List.mem_map.mp hrow
      have hknown := h.known old hold
      split <;> exact hknown
    · rw [hrows, keys_map (increment_key storeItem.val.key)]
      exact h.nodup
    · intro row hrow
      rw [hrows] at hrow
      obtain ⟨old, hold, rfl⟩ := List.mem_map.mp hrow
      have hpositive := h.positive old hold
      split
      · change 1 ≤ old.count + 1
        omega
      · exact hpositive

/-- BUY keeps the rows showing no more than the inventory. -/
theorem ShowsInventory.buy {session : Session}
    (h : ShowsInventory session.record session.app) (cell : Nat) :
    ShowsInventory (session.buy cell).record (session.buy cell).app := by
  have hinventory := session.record.buy_inventory (session.app.shown cell)
  by_cases hcost :
      session.record.currentLeaves - (session.app.shown cell).cost ≥ 0
  · apply h.deliver (session.app.storeItem cell)
    · unfold Session.buy
      simp only [if_pos hcost]
      rfl
    · intro other
      have hother := hinventory other
      simp only [hcost, and_true] at hother
      exact hother
  · apply h.congr
    · funext other
      have hother := hinventory other
      rw [if_neg (fun h => hcost h.2)] at hother
      exact hother
    · unfold Session.buy
      simp only [if_neg hcost]
      rfl

/-- PLACE keeps the rows showing no more than the inventory: a unit is taken from both. -/
theorem ShowsInventory.place {session : Session}
    (h : ShowsInventory session.record session.app) (key item coordinate : String) :
    ShowsInventory (session.place key item coordinate).record
      (session.place key item coordinate).app := by
  have hmem : ∀ row ∈ takeFromInventory key session.app.inventoryItems, _ :=
    fun row hrow => mem_takeFromInventory h.nodup hrow
  refine ⟨?_, nodup_takeFromInventory key h.nodup, ?_, ?_⟩
  · intro row hrow
    obtain ⟨old, hold, hkey, hitem, _⟩ := hmem row hrow
    rw [hkey, hitem]
    exact h.known old hold
  · intro row hrow
    obtain ⟨old, hold, _, _, hcount⟩ := hmem row hrow
    have hpositive := h.positive old hold
    omega
  · intro other
    change unitsShown other (takeFromInventory key session.app.inventoryItems) ≤
      ((session.record.place key coordinate).inventory other : Nat)
    rw [UserRecord.place_inventory, unitsShown_takeFromInventory key h.nodup]
    have hbefore := h.stored other
    by_cases hother : other = key
    · by_cases hrow : ∃ row ∈ session.app.inventoryItems, row.key = key
      · rw [if_pos hother, if_pos ⟨hother, hrow⟩]
        omega
      · have hnone : unitsShown other session.app.inventoryItems = 0 := by
          apply unitsShown_eq_zero
          intro row hmem heq
          exact hrow ⟨row, hmem, heq.trans hother⟩
        rw [if_neg (fun h => hrow h.2), hnone]
        omega
    · rw [if_neg hother, if_neg (fun h => hother h.1)]
      omega

/-- REMOVE keeps the rows showing no more than the inventory: where no row shows the item,
or one unit only, it is the record alone that gains a unit. -/
theorem ShowsInventory.remove {session : Session}
    (h : ShowsInventory session.record session.app)
    (hland : ShowsLand session.record session.app)
    (hwf : session.record.WellFormed) {key coordinate : String}
    (hplaced : coordinate ∈ session.record.land key) :
    ShowsInventory (session.remove coordinate).record
      (session.remove coordinate).app := by
  obtain ⟨hfound, hfoundKey⟩ := hland.find hwf hplaced
  obtain ⟨hkey, hitem⟩ := hland.known _ hfound
  have hrows := returnToInventory_eq h.known hkey hitem coordinate
  have hunits := unitsShown_returnToInventory h hkey hitem coordinate
  have hstored : ∀ other,
      unitsShown other (session.remove coordinate).app.inventoryItems ≤
        ((session.remove coordinate).record.inventory other : Nat) := by
    intro other
    have hbefore := h.stored other
    have hremote := session.record.remove_inventory
      (findActiveItemCoordinate session.app.activeItems coordinate).key coordinate other
    change unitsShown other (returnToInventory _ coordinate _) ≤
      ((session.record.remove _ coordinate).inventory other : Nat)
    rw [hunits, hremote]
    by_cases hother :
        other = (findActiveItemCoordinate session.app.activeItems coordinate).key
    · rw [if_pos hother]
      split <;> omega
    · rw [if_neg hother, if_neg (fun h => hother h.1)]
      omega
  have happ : (session.remove coordinate).app.inventoryItems =
      returnToInventory (findActiveItemCoordinate session.app.activeItems coordinate)
        coordinate session.app.inventoryItems := rfl
  rw [hrows] at happ
  by_cases hsome : ∃ row ∈ session.app.inventoryItems,
      row.key = (findActiveItemCoordinate session.app.activeItems coordinate).key
  · rw [if_pos hsome] at happ
    refine ⟨?_, ?_, ?_, hstored⟩
    · intro row hrow
      rw [happ] at hrow
      obtain ⟨old, hold, rfl⟩ := List.mem_map.mp hrow
      have hknown := h.known old hold
      split <;> exact hknown
    · rw [happ, keys_map (return_key _)]
      exact h.nodup
    · intro row hrow
      rw [happ] at hrow
      obtain ⟨old, hold, rfl⟩ := List.mem_map.mp hrow
      have hpositive := h.positive old hold
      split
      · change 1 ≤ old.count + 1
        omega
      · exact hpositive
  · rw [if_neg hsome] at happ
    have hmem : ∀ row ∈ (session.remove coordinate).app.inventoryItems,
        row ∈ session.app.inventoryItems ∨
        row = ⟨(findActiveItemCoordinate session.app.activeItems coordinate).key,
          (findActiveItemCoordinate session.app.activeItems coordinate).item, 1,
          [coordinate]⟩ := by
      intro row hrow
      rw [happ] at hrow
      rcases List.mem_append.mp hrow with hrow | hrow
      · exact Or.inl hrow
      · exact Or.inr (List.mem_singleton.mp hrow)
    refine ⟨?_, ?_, ?_, hstored⟩
    · intro row hrow
      rcases hmem row hrow with hold | rfl
      · exact h.known row hold
      · exact ⟨hkey, hitem⟩
    · rw [happ]
      apply nodup_keys_append h.nodup
      intro old hold heq
      exact hsome ⟨old, hold, heq⟩
    · intro row hrow
      rcases hmem row hrow with hold | rfl
      · exact h.positive row hold
      · exact Int.le_refl 1

end WillItRecycle

import WillItRecycle.LandScreens
import WillItRecycle.SignIn
import Mathlib

/-!
# Display names of keys

The sign-in derives the display name of an item from its key: the first letter
becomes a capital and every capital after it gets a space in front.  REMOVE finds
the row of an item by this name, BUY and PLACE find it by the key.

A key in camel case is read back from its name by `keyOfName`, so that names
identify keys and the two ways of finding a row agree (`names_identify_keys`).
-/

namespace WillItRecycle

/-- ASCII letters and digits, the first a lowercase letter. -/
def CamelCase (key : String) : Prop :=
  key.toList.all Char.isAlphanum ∧ key.toList.head?.any Char.isLower

instance : DecidablePred CamelCase := fun key =>
  inferInstanceAs (Decidable
    (key.toList.all Char.isAlphanum ∧ key.toList.head?.any Char.isLower))

theorem storeKeys_camelCase : ∀ key ∈ storeKeys, CamelCase key := by
  decide

/-- The key a display name was derived from. -/
def keyOfName (name : String) : String :=
  match name.toList with
  | [] => ""
  | first :: rest => String.ofList (first.toLower :: rest.filter (· ≠ ' '))

/-- REMOVE's loop with the rows matched by key, as BUY and PLACE match them. -/
def returnToInventoryByKey (selectedItem : GameItem) (selectedCoordinate : String)
    (inventoryItems : List GameItem) : List GameItem :=
  let updated := inventoryItems.map fun item =>
    if item.key = selectedItem.key ∧ item.count > 1 then item.incrementCount
    else item
  if inventoryItems.any (fun item => item.key = selectedItem.key) then updated
  else
    updated ++ [⟨selectedItem.key, selectedItem.item, 1, [selectedCoordinate]⟩]

/-! ## The loop over the characters -/

/-- What a character after the first contributes. -/
def spaced (char : Char) : List Char := if char.isUpper then [' ', char] else [char]

theorem itemNameStep_succ (name : String) (index : Nat) (char : Char) :
    itemNameStep (name, index + 1) char =
      (name ++ String.ofList (spaced char), index + 1 + 1) := by
  by_cases hupper : char.isUpper
  · have hkept : char.toUpper = char :=
      Char.toUpper_eq_of_not_isLower (Char.not_isLower_of_isUpper hupper)
    simp [itemNameStep, spaced, hupper, hkept, ← String.toList_inj]
  · have hkept : char.toLower = char := Char.toLower_eq_of_not_isUpper hupper
    simp [itemNameStep, spaced, hupper, hkept]

/-- The loop past the first character. -/
theorem foldl_itemNameStep (chars : List Char) (name : String) (index : Nat) :
    (chars.foldl itemNameStep (name, index + 1)).1.toList =
      name.toList ++ chars.flatMap spaced := by
  induction chars generalizing name index with
  | nil => simp
  | cons char chars ih =>
      rw [List.foldl_cons, itemNameStep_succ, ih]
      simp

/-- Without the spaces the characters are the ones of the key. -/
theorem filter_spaced {chars : List Char} (h : ∀ char ∈ chars, char.isAlphanum) :
    (chars.flatMap spaced).filter (· ≠ ' ') = chars := by
  induction chars with
  | nil => rfl
  | cons char chars ih =>
      obtain ⟨hchar, hchars⟩ := List.forall_mem_cons.mp h
      have hspace : char ≠ ' ' := by
        rintro rfl
        revert hchar
        decide
      have hown : (spaced char).filter (· ≠ ' ') = [char] := by
        unfold spaced
        split <;> simp [hspace]
      rw [List.flatMap_cons, List.filter_append, hown, ih hchars]
      rfl

/-- The name of a key: its first letter as a capital, then the others. -/
theorem toList_itemName {key : String} {first : Char} {rest : List Char}
    (hkey : key.toList = first :: rest) (hlower : first.isLower) :
    (itemName key).toList = first.toUpper :: rest.flatMap spaced := by
  have hupper : first.isUpper = false := by
    simpa using Char.not_isUpper_of_isLower hlower
  have hfirst : itemNameStep ("", 0) first = (String.singleton first.toUpper, 0 + 1) := by
    simp [itemNameStep, hupper]
  rw [itemName, hkey, List.foldl_cons, hfirst, foldl_itemNameStep, String.toList_singleton]
  rfl

/-- **The key is read back from its name.** -/
theorem keyOfName_itemName {key : String} (h : CamelCase key) :
    keyOfName (itemName key) = key := by
  obtain ⟨hchars, hfirst⟩ := h
  obtain ⟨first, hhead, hlower⟩ := (Option.any_eq_true Char.isLower key.toList.head?).mp hfirst
  obtain ⟨rest, hkey⟩ := List.head?_eq_some_iff.mp hhead
  have hlower' : first.toUpper.toLower = first := by
    rw [Char.toLower_toUpper_eq_toLower]
    exact Char.toLower_eq_of_not_isUpper (Char.not_isUpper_of_isLower hlower)
  have hrest : ∀ char ∈ rest, char.isAlphanum := by
    intro char hchar
    have hmem : char ∈ key.toList := by
      rw [hkey]
      exact List.mem_cons_of_mem first hchar
    exact List.all_eq_true.mp hchars char hmem
  rw [← String.toList_inj, hkey, keyOfName, toList_itemName hkey hlower]
  simp only [String.toList_ofList, hlower', filter_spaced hrest]

/-! ## Rows found by name -/

/-- The name of an item is the one derived from its key, as the sign-in, BUY and
PLACE leave it. -/
def NamedByKey (item : GameItem) : Prop :=
  CamelCase item.key ∧ item.item = itemName item.key

theorem NamedByKey.item_eq_iff {item other : GameItem} (h : NamedByKey item)
    (hother : NamedByKey other) : item.item = other.item ↔ item.key = other.key := by
  constructor
  · intro heq
    rw [h.2, hother.2] at heq
    rw [← keyOfName_itemName h.1, heq, keyOfName_itemName hother.1]
  · intro heq
    rw [h.2, hother.2, heq]

/-- REMOVE finds the same row by name as by key. -/
theorem returnToInventory_byKey {rows : List GameItem} (hrows : ∀ row ∈ rows, NamedByKey row)
    {selectedItem : GameItem} (hselected : NamedByKey selectedItem) (coordinate : String) :
    returnToInventory selectedItem coordinate rows =
      returnToInventoryByKey selectedItem coordinate rows := by
  have hupdated : (rows.map fun item =>
        if item.item = selectedItem.item ∧ item.count > 1 then item.incrementCount
        else item) =
      rows.map fun item =>
        if item.key = selectedItem.key ∧ item.count > 1 then item.incrementCount
        else item := by
    apply List.map_congr_left
    intro row hrow
    simp only [(hrows row hrow).item_eq_iff hselected]
  have hany : (rows.any fun item => item.item = selectedItem.item) =
      rows.any fun item => item.key = selectedItem.key := by
    rw [Bool.eq_iff_iff, List.any_eq_true, List.any_eq_true]
    apply exists_congr
    intro row
    apply and_congr_right
    intro hrow
    simp only [decide_eq_true_eq, (hrows row hrow).item_eq_iff hselected]
  unfold returnToInventory returnToInventoryByKey
  rw [hupdated, hany]

/-- **Display names identify keys**: distinct keys in camel case have distinct names,
a key is read back from its name, and among rows named by their keys REMOVE, which
looks for a name, finds what BUY and PLACE find by the key. -/
theorem names_identify_keys :
    (∀ key key', CamelCase key → CamelCase key' → key ≠ key' →
      itemName key ≠ itemName key') ∧
    (∀ key, CamelCase key → keyOfName (itemName key) = key) ∧
    ∀ (rows : List GameItem) (selectedItem : GameItem) (coordinate : String),
      (∀ row ∈ rows, NamedByKey row) → NamedByKey selectedItem →
        rows.filter (fun row => row.item = selectedItem.item) =
          rows.filter (fun row => row.key = selectedItem.key) ∧
        returnToInventory selectedItem coordinate rows =
          returnToInventoryByKey selectedItem coordinate rows := by
  refine ⟨?_, fun key => keyOfName_itemName, ?_⟩
  · intro key key' hkey hkey' hne heq
    apply hne
    rw [← keyOfName_itemName hkey, heq, keyOfName_itemName hkey']
  · intro rows selectedItem coordinate hrows hselected
    refine ⟨?_, returnToInventory_byKey hrows hselected coordinate⟩
    apply List.filter_congr
    intro row hrow
    simp only [(hrows row hrow).item_eq_iff hselected]

/-- Two keys that differ in their capitals, and the row of a tree in the inventory. -/
theorem names_identify_keys_capitals :
    itemName "recycleBIN" ≠ itemName "recycleBin" ∧
      keyOfName (itemName "recycleBIN") = "recycleBIN" ∧
      returnToInventory ⟨"tree", "Tree", 0, []⟩ "(0,0)" [⟨"tree", "Tree", 2, []⟩] =
        returnToInventoryByKey ⟨"tree", "Tree", 0, []⟩ "(0,0)" [⟨"tree", "Tree", 2, []⟩] :=
  ⟨names_identify_keys.1 "recycleBIN" "recycleBin" (by decide) (by decide) (by decide),
    names_identify_keys.2.1 "recycleBIN" (by decide),
    (names_identify_keys.2.2 [⟨"tree", "Tree", 2, []⟩] ⟨"tree", "Tree", 0, []⟩ "(0,0)"
      (by simp [NamedByKey]; decide) ⟨by decide, by decide⟩).2⟩

end WillItRecycle

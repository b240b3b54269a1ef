import WillItRecycle.UserRecord

/-!
# Operations that run to their end

A `Session` is the typed record of the signed-in user beside the state of the
app, at a moment when nothing is pending.  `Session.tap` is what a tap and all
its callbacks make of it.

The two sides drift apart: the local inventory may lack units and the local
land list keeps entries without coordinates and counts that are too high.
What survives every operation is weaker than equality:

* `UserRecord.WellFormed` -- the stored record;
* `ShowsLand` -- the local entries place the same coordinates under the same
  keys;
* `ShowsInventory` -- a local row never shows more units than are stored.
-/

namespace WillItRecycle

open PathTree ReadCallback LastMatch

/-! ## The operations -/

namespace UserRecord

/-- BUY charges the wallet and delivers a unit when the wallet covers the cost. -/
def buy (storeItem : StoreItem) (record : UserRecord) : UserRecord :=
  if record.currentLeaves - storeItem.cost ≥ 0 then
    { record with
      currentLeaves := record.currentLeaves - storeItem.cost }.setInventory
        storeItem.key (record.inventory storeItem.key + 1)
  else
    record

/-- A coordinate is appended to the list of its kind, and a unit is taken from the
inventory. -/
def place (key coordinate : String) (record : UserRecord) : UserRecord :=
  (record.setLand key (record.land key ++ [coordinate])).setInventory key
    (record.inventory key - 1)

/-- A coordinate is taken out of the list of its kind, and a unit returns to the
inventory. -/
def remove (key coordinate : String) (record : UserRecord) : UserRecord :=
  (record.setLand key (keepOthers coordinate (record.land key))).setInventory key
    (record.inventory key + 1)

end UserRecord

/-- The record in the database and the app in front of it, between operations. -/
structure Session where
  record : UserRecord
  app : App

/-- The app once a tap on BUY has captured the wallet. -/
def App.capture (app : App) (leaves : Int) : App :=
  { app with currentLeaves := app.currentLeaves ++ [some leaves] }

namespace Session

/-- BUY, from the tap to its last callback. -/
def buy (cell : Nat) (session : Session) : Session :=
  let storeItem := session.app.shown cell
  let app := session.app.capture session.record.currentLeaves
  { record := session.record.buy storeItem
    app :=
      if session.record.currentLeaves - storeItem.cost ≥ 0 then
        { app with
          inventoryItems :=
            deliver storeItem (session.record.inventory storeItem.key)
              app.inventoryItems }.present StoreTableViewCell.successAlert
      else
        app.present StoreTableViewCell.errorAlert }

/-- PLACE, from the tap to its last callback. -/
def place (key item coordinate : String) (session : Session) : Session where
  record := session.record.place key coordinate
  app := { session.app with
    coordinatesOccupied := session.app.coordinatesOccupied ++ [coordinate]
    inventoryItems := takeFromInventory key session.app.inventoryItems
    activeItems :=
      placeLocal key item coordinate (session.record.land key)
        session.app.activeItems }

/-- REMOVE, from the tap to its last callback. -/
def remove (coordinate : String) (session : Session) : Session :=
  let selectedItem := findActiveItemCoordinate session.app.activeItems coordinate
  { record := session.record.remove selectedItem.key coordinate
    app := { session.app with
      coordinatesOccupied :=
        removeLast (fun x => x = coordinate) session.app.coordinatesOccupied
      activeItems := dropCoordinate coordinate session.app.activeItems
      inventoryItems :=
        returnToInventory selectedItem coordinate session.app.inventoryItems } }

/-- A tap and all its callbacks. -/
def tap : Tap → Session → Session
  | .buy cell => buy cell
  | .place key item coordinate => place key item coordinate
  | .remove coordinate => remove coordinate
  | _ => id

end Session

/-- BUY touches the inventory only. -/
theorem Session.buy_frame (session : Session) (cell : Nat) :
    (session.buy cell).app.activeItems = session.app.activeItems ∧
    (session.buy cell).app.coordinatesOccupied = session.app.coordinatesOccupied ∧
    (session.buy cell).app.storeItem = session.app.storeItem ∧
    (session.buy cell).app.currentUser = session.app.currentUser := by
  unfold Session.buy
  by_cases hcost :
      session.record.currentLeaves - (session.app.shown cell).cost ≥ 0
  · simp only [if_pos hcost]
    exact ⟨rfl, rfl, rfl, rfl⟩
  · simp only [if_neg hcost]
    exact ⟨rfl, rfl, rfl, rfl⟩

@[simp] theorem Session.buy_activeItems (session : Session) (cell : Nat) :
    (session.buy cell).app.activeItems = session.app.activeItems :=
  (session.buy_frame cell).1

@[simp] theorem Session.buy_coordinatesOccupied (session : Session) (cell : Nat) :
    (session.buy cell).app.coordinatesOccupied = session.app.coordinatesOccupied :=
  (session.buy_frame cell).2.1

@[simp] theorem Session.buy_storeItem (session : Session) (cell : Nat) :
    (session.buy cell).app.storeItem = session.app.storeItem :=
  (session.buy_frame cell).2.2.1

@[simp] theorem Session.buy_currentUser (session : Session) (cell : Nat) :
    (session.buy cell).app.currentUser = session.app.currentUser :=
  (session.buy_frame cell).2.2.2

/-! ## What holds between operations -/

/-- A record the land game can be in. -/
structure UserRecord.WellFormed (record : UserRecord) : Prop where
  inventoryKey : ∀ key, record.inventory key ≠ 0 → key ∈ storeKeys
  landKey : ∀ key, record.land key ≠ [] → key ∈ storeKeys
  nodup : ∀ key, (record.land key).Nodup
  apart : ∀ key key' coordinate, coordinate ∈ record.land key →
    coordinate ∈ record.land key' → key = key'
  /-- a coordinate is the title of a button, never empty -/
  button : ∀ key, "" ∉ record.land key

/-- The local land list and the record place the same coordinates. -/
structure ShowsLand (record : UserRecord) (app : App) : Prop where
  known : ∀ item ∈ app.activeItems,
    item.key ∈ storeKeys ∧ item.item = itemName item.key
  nodup : ∀ item ∈ app.activeItems, item.coordinates.Nodup
  counted : ∀ item ∈ app.activeItems, (item.coordinates.length : Int) ≤ item.count
  placed : ∀ key coordinate, coordinate ∈ record.land key ↔
    ∃ item ∈ app.activeItems, item.key = key ∧ coordinate ∈ item.coordinates
  occupied : ∀ coordinate, coordinate ∈ app.coordinatesOccupied ↔
    ∃ key, coordinate ∈ record.land key
  occupiedNodup : app.coordinatesOccupied.Nodup

/-- The number of units the rows of a key show. -/
def unitsShown (key : String) (rows : List GameItem) : Int :=
  ((rows.filter fun row => row.key = key).map GameItem.count).sum

/-- The local inventory shows units that are stored. -/
structure ShowsInventory (record : UserRecord) (app : App) : Prop where
  known : ∀ row ∈ app.inventoryItems,
    row.key ∈ storeKeys ∧ row.item = itemName row.key
  nodup : (app.inventoryItems.map GameItem.key).Nodup
  positive : ∀ row ∈ app.inventoryItems, 1 ≤ row.count
  stored : ∀ key, unitsShown key app.inventoryItems ≤ record.inventory key

/-- The screens offer the operation: PLACE for a row of the inventory and a
free button, REMOVE for an occupied one. -/
def Tap.Enabled (tap : Tap) (app : App) : Prop :=
  match tap with
  | .buy _ => True
  | .place key item coordinate =>
      coordinate ≠ "" ∧ coordinate ∉ app.coordinatesOccupied ∧
        ∃ row ∈ app.inventoryItems, row.key = key ∧ row.item = item
  | .remove coordinate => coordinate ∈ app.coordinatesOccupied
  | _ => False

/-- Whether a screen offers a tap can be computed. -/
instance (tap : Tap) (app : App) : Decidable (tap.Enabled app) :=
  match tap with
  | .buy _ => isTrue trivial
  | .place key item coordinate =>
      inferInstanceAs (Decidable (coordinate ≠ "" ∧
        coordinate ∉ app.coordinatesOccupied ∧
          ∃ row ∈ app.inventoryItems, row.key = key ∧ row.item = item))
  | .remove coordinate =>
      inferInstanceAs (Decidable (coordinate ∈ app.coordinatesOccupied))
  | .cellForRow _ _ | .claim _ | .redeem _ _ _ | .signIn _ _ | .signOut => isFalse id

/-- The operation makes sense on the record alone. -/
def UserRecord.Permits (record : UserRecord) : Tap → Prop
  | .buy _ => True
  | .place key item coordinate =>
      key ∈ storeKeys ∧ item = itemName key ∧ coordinate ≠ "" ∧
        ∀ other, coordinate ∉ record.land other
  | .remove coordinate => ∃ key, coordinate ∈ record.land key
  | _ => False

/-- The keys of the store are texts that Firebase takes as names. -/
theorem storeKeys_ne_empty {key : String} (h : key ∈ storeKeys) : key ≠ "" := by
  rintro rfl
  revert h
  decide

/-- The keys of the store have different display names. -/
theorem itemName_injective {key key' : String} (h : key ∈ storeKeys)
    (h' : key' ∈ storeKeys) (heq : itemName key = itemName key') : key = key' := by
  have hall : ∀ k ∈ storeKeys, ∀ k' ∈ storeKeys,
      itemName k = itemName k' → k = k' := by decide
  exact hall key h key' h' heq

/-- The name the store shows is the one derived from the key. -/
theorem storeItem_item (storeItem : ShelfItem) :
    storeItem.val.item = itemName storeItem.val.key := by
  have hall : ∀ s ∈ storeItems, s.item = itemName s.key := by decide
  exact hall storeItem.val storeItem.property

/-- Every item of the shelf has one of the keys of the store. -/
theorem storeItem_key_mem (storeItem : ShelfItem) :
    storeItem.val.key ∈ storeKeys :=
  List.mem_map_of_mem storeItem.property

/-- What is enabled on the screens is permitted by the record. -/
theorem permits_of_enabled {record : UserRecord} {app : App} {tap : Tap}
    (hland : ShowsLand record app) (hrows : ShowsInventory record app)
    (h : tap.Enabled app) : record.Permits tap := by
  cases tap with
  | buy cell => trivial
  | place key item coordinate =>
      obtain ⟨hne, hfree, row, hrow, rfl, rfl⟩ := h
      obtain ⟨hkey, hitem⟩ := hrows.known row hrow
      refine ⟨hkey, hitem, hne, ?_⟩
      intro other hplaced
      exact hfree ((hland.occupied coordinate).mpr ⟨other, hplaced⟩)
  | remove coordinate => exact (hland.occupied coordinate).mp h
  | cellForRow cell storeItem => exact h
  | claim result => exact h
  | redeem quantities dateString autoId => exact h
  | signIn uid displayName => exact h
  | signOut => exact h

/-! ## The loops over the land list -/

/-- `findActiveItemCoordinate` as one loop. -/
theorem findActiveItemCoordinate_eq (activeItems : List GameItem)
    (coordinate : String) :
    findActiveItemCoordinate activeItems coordinate =
      activeItems.foldl (fun itemFound item =>
        if coordinate ∈ item.coordinates then item else itemFound) noItem := by
  have hinner : ∀ (item : GameItem) (xs : List String) (itemFound : GameItem),
      xs.foldl (fun itemFound x => if x = coordinate then item else itemFound)
        itemFound = if coordinate ∈ xs then item else itemFound := by
    intro item xs
    induction xs with
    | nil => intro itemFound; rfl
    | cons x xs ih =>
        intro itemFound
        rw [List.foldl_cons, ih]
        by_cases hx : x = coordinate
        · simp [hx]
        · simp [hx, Ne.symm hx]
  unfold findActiveItemCoordinate
  congr 1
  funext itemFound item
  exact hinner item item.coordinates itemFound

/-- The search finds an entry with the coordinate, or there is none. -/
theorem findActiveItemCoordinate_cases (activeItems : List GameItem)
    (coordinate : String) :
    (findActiveItemCoordinate activeItems coordinate = noItem ∧
      ∀ item ∈ activeItems, coordinate ∉ item.coordinates) ∨
    (findActiveItemCoordinate activeItems coordinate ∈ activeItems ∧
      coordinate ∈ (findActiveItemCoordinate activeItems coordinate).coordinates) := by
  rw [findActiveItemCoordinate_eq]
  induction activeItems using List.reverseRecOn with
  | nil => left; simp
  | append_singleton items item ih =>
      rw [List.foldl_append, List.foldl_cons, List.foldl_nil]
      by_cases hitem : coordinate ∈ item.coordinates
      · rw [if_pos hitem]
        right
        exact ⟨by simp, hitem⟩
      · rw [if_neg hitem]
        rcases ih with ⟨hnone, hall⟩ | ⟨hmem, hfound⟩
        · left
          refine ⟨hnone, ?_⟩
          intro other hother
          rcases List.mem_append.mp hother with hother | hother
          · exact hall other hother
          · rwa [List.mem_singleton.mp hother]
        · right
          exact ⟨List.mem_append_left _ hmem, hfound⟩

/-- On a land list that shows the record, the search finds the right kind. -/
theorem ShowsLand.find {record : UserRecord} {app : App}
    (hland : ShowsLand record app) (hwf : record.WellFormed)
    {key coordinate : String} (hplaced : coordinate ∈ record.land key) :
    findActiveItemCoordinate app.activeItems coordinate ∈ app.activeItems ∧
      (findActiveItemCoordinate app.activeItems coordinate).key = key := by
  obtain ⟨item, hitem, _, hcoordinate⟩ := (hland.placed key coordinate).mp hplaced
  rcases findActiveItemCoordinate_cases app.activeItems coordinate with
    ⟨_, hnone⟩ | ⟨hmem, hfound⟩
  · exact absurd hcoordinate (hnone item hitem)
  · refine ⟨hmem, ?_⟩
    have hother := (hland.placed _ coordinate).mpr ⟨_, hmem, rfl, hfound⟩
    exact hwf.apart _ _ coordinate hother hplaced

/-- What PLACE makes of the coordinates of the entries. -/
theorem mem_placeLocal {key : String} (item coordinate : String)
    {placed : List String} {activeItems : List GameItem} (hexists : placed ≠ [] →
      ∃ entry ∈ activeItems, entry.key = key) (other x : String) :
    (∃ entry ∈ placeLocal key item coordinate placed activeItems,
      entry.key = other ∧ x ∈ entry.coordinates) ↔
    (∃ entry ∈ activeItems, entry.key = other ∧ x ∈ entry.coordinates) ∨
      (other = key ∧ x = coordinate) := by
  unfold placeLocal
  by_cases hplaced : placed = []
  · rw [if_pos hplaced]
    constructor
    · rintro ⟨entry, hentry, rfl, hx⟩
      rcases List.mem_append.mp hentry with hentry | hentry
      · exact Or.inl ⟨entry, hentry, rfl, hx⟩
      · rw [List.mem_singleton] at hentry
        subst hentry
        exact Or.inr ⟨rfl, by simpa using hx⟩
    · rintro (⟨entry, hentry, hkey, hx⟩ | ⟨rfl, rfl⟩)
      · exact ⟨entry, List.mem_append_left _ hentry, hkey, hx⟩
      · exact ⟨⟨other, item, 1, [x]⟩, by simp, rfl, by simp⟩
  · rw [if_neg hplaced]
    unfold placeAgain
    constructor
    · rintro ⟨entry, hentry, rfl, hx⟩
      obtain ⟨old, hold, rfl⟩ := List.mem_map.mp hentry
      by_cases hkey : old.key = key
      · simp only [if_pos hkey, List.mem_append, List.mem_singleton] at hx ⊢
        rcases hx with hx | hx
        · exact Or.inl ⟨old, hold, rfl, hx⟩
        · exact Or.inr ⟨hkey, hx⟩
      · simp only [if_neg hkey] at hx ⊢
        exact Or.inl ⟨old, hold, rfl, hx⟩
    · have hmap : ∀ entry ∈ activeItems, ∀ y,
          (y ∈ entry.coordinates ∨ entry.key = key ∧ y = coordinate) →
          ∃ entry' ∈ activeItems.map (fun item =>
              if item.key = key then
                { item.incrementCount with
                  coordinates := item.coordinates ++ [coordinate] }
              else item), entry'.key = entry.key ∧ y ∈ entry'.coordinates := by
        intro entry hentry y hy
        refine ⟨_, List.mem_map_of_mem hentry, ?_, ?_⟩
        · by_cases hkey : entry.key = key <;>
            simp [hkey, GameItem.incrementCount]
        · by_cases hkey : entry.key = key
          · simpa [hkey] using hy
          · simpa [hkey] using hy
      rintro (⟨entry, hentry, rfl, hx⟩ | ⟨rfl, rfl⟩)
      · exact hmap entry hentry x (Or.inl hx)
      · obtain ⟨entry, hentry, rfl⟩ := hexists hplaced
        exact hmap entry hentry x (Or.inr ⟨rfl, rfl⟩)

/-! ## The record after an operation -/

/-- The list written for a kind is found there; the other kinds keep theirs. -/
theorem UserRecord.setLand_land (record : UserRecord) (key : String)
    (placed : List String) (other : String) :
    (record.setLand key placed).land other =
      if other = key then placed else record.land other := by
  unfold UserRecord.setLand
  by_cases hother : other = key
  · simp [hother]
  · simp [hother]

/-- The count written for a kind is found there; the other kinds keep theirs. -/
theorem UserRecord.setInventory_inventory (record : UserRecord) (key : String)
    (n : Nat) (other : String) :
    (record.setInventory key n).inventory other =
      if other = key then n else record.inventory other := by
  unfold UserRecord.setInventory
  by_cases hother : other = key
  · simp [hother]
  · simp [hother]

/-- BUY leaves the land as it is. -/
@[simp] theorem UserRecord.buy_land (record : UserRecord) (storeItem : StoreItem) :
    (record.buy storeItem).land = record.land := by
  unfold UserRecord.buy
  split <;> rfl

/-- PLACE adds one coordinate to one kind. -/
theorem UserRecord.mem_place_land (record : UserRecord)
    (key coordinate other x : String) :
    x ∈ (record.place key coordinate).land other ↔
      x ∈ record.land other ∨ (other = key ∧ x = coordinate) := by
  unfold UserRecord.place
  rw [UserRecord.setInventory_land, UserRecord.setLand_land]
  by_cases hother : other = key
  · simp [hother]
  · simp [hother]

/-- REMOVE keeps exactly the other coordinates of a list with the one removed. -/
theorem keepOthers_eq_filter {coordinate : String} {placed : List String}
    (h : coordinate ∈ placed) :
    keepOthers coordinate placed = placed.filter (fun x => x ≠ coordinate) := by
  unfold keepOthers
  by_cases hlength : placed.length > 1
  · rw [if_pos hlength]
  · rw [if_neg hlength]
    have hone : placed.length = 1 := by
      have hpos := List.length_pos_of_mem h
      omega
    obtain ⟨x, rfl⟩ := List.length_eq_one_iff.mp hone
    have hx : coordinate = x := by simpa using h
    simp [hx]

/-- REMOVE takes a coordinate off the land: in a well formed record no other kind has it.
-/
theorem UserRecord.mem_remove_land {record : UserRecord}
    (hwf : record.WellFormed) {key coordinate : String}
    (hplaced : coordinate ∈ record.land key) (other x : String) :
    x ∈ (record.remove key coordinate).land other ↔
      x ∈ record.land other ∧ x ≠ coordinate := by
  unfold UserRecord.remove
  rw [UserRecord.setInventory_land, UserRecord.setLand_land]
  by_cases hother : other = key
  · rw [if_pos hother, keepOthers_eq_filter hplaced, List.mem_filter, hother]
    simp
  · rw [if_neg hother]
    constructor
    · intro hx
      refine ⟨hx, ?_⟩
      intro heq
      subst heq
      exact hother (hwf.apart other key x hx hplaced)
    · intro hx
      exact hx.1

/-- BUY keeps a record well formed, since the shelf only has kinds of the store. -/
theorem UserRecord.WellFormed.buy {record : UserRecord} (hwf : record.WellFormed)
    (storeItem : ShelfItem) : (record.buy storeItem.val).WellFormed := by
  have hland := UserRecord.buy_land record storeItem.val
  refine ⟨?_, ?_, ?_, ?_, ?_⟩
  · intro key hkey
    unfold UserRecord.buy at hkey
    by_cases hcost : record.currentLeaves - storeItem.val.cost ≥ 0
    · rw [if_pos hcost, UserRecord.setInventory_inventory] at hkey
      by_cases heq : key = storeItem.val.key
      · rw [heq]
        exact storeItem_key_mem storeItem
      · rw [if_neg heq] at hkey
        exact hwf.inventoryKey key hkey
    · rw [if_neg hcost] at hkey
      exact hwf.inventoryKey key hkey
  · rw [hland]
    exact hwf.landKey
  · rw [hland]
    exact hwf.nodup
  · rw [hland]
    exact hwf.apart
  · rw [hland]
    exact hwf.button

/-- PLACE of a kind of the store on a free cell keeps a record well formed. -/
theorem UserRecord.WellFormed.place {record : UserRecord}
    (hwf : record.WellFormed) {key coordinate : String} (hkey : key ∈ storeKeys)
    (hne : coordinate ≠ "") (hfree : ∀ other, coordinate ∉ record.land other) :
    (record.place key coordinate).WellFormed := by
  have hmem := record.mem_place_land key coordinate
  refine ⟨?_, ?_, ?_, ?_, ?_⟩
  · intro other hother
    unfold UserRecord.place at hother
    rw [UserRecord.setInventory_inventory] at hother
    by_cases heq : other = key
    · rwa [heq]
    · rw [if_neg heq] at hother
      exact hwf.inventoryKey other hother
  · intro other hother
    obtain ⟨x, hx⟩ := List.exists_mem_of_ne_nil _ hother
    rcases (hmem other x).mp hx with hx | ⟨heq, _⟩
    · exact hwf.landKey other (List.ne_nil_of_mem hx)
    · rwa [heq]
  · intro other
    unfold UserRecord.place
    rw [UserRecord.setInventory_land, UserRecord.setLand_land]
    by_cases heq : other = key
    · rw [if_pos heq, List.nodup_append]
      refine ⟨hwf.nodup key, by simp, ?_⟩
      intro x hx y hy
      rw [List.mem_singleton] at hy
      intro hxy
      exact hfree key (hy ▸ hxy ▸ hx)
    · rw [if_neg heq]
      exact hwf.nodup other
  · intro first second x hfirst hsecond
    rcases (hmem first x).mp hfirst with hx | ⟨rfl, rfl⟩
    · rcases (hmem second x).mp hsecond with hx' | ⟨_, rfl⟩
      · exact hwf.apart first second x hx hx'
      · exact absurd hx (hfree first)
    · rcases (hmem second x).mp hsecond with hx' | ⟨heq, _⟩
      · exact absurd hx' (hfree second)
      · exact heq.symm
  · intro other hempty
    rcases (hmem other "").mp hempty with hx | ⟨_, heq⟩
    · exact hwf.button other hx
    · exact hne heq.symm

/-- REMOVE of a placed coordinate keeps a record well formed. -/
theorem UserRecord.WellFormed.remove {record : UserRecord}
    (hwf : record.WellFormed) {key coordinate : String}
    (hplaced : coordinate ∈ record.land key) :
    (record.remove key coordinate).WellFormed := by
  have hmem := UserRecord.mem_remove_land hwf hplaced
  refine ⟨?_, ?_, ?_, ?_, ?_⟩
  · intro other hother
    unfold UserRecord.remove at hother
    rw [UserRecord.setInventory_inventory] at hother
    by_cases heq : other = key
    · rw [heq]
      exact hwf.landKey key (List.ne_nil_of_mem hplaced)
    · rw [if_neg heq] at hother
      exact hwf.inventoryKey other hother
  · intro other hother
    obtain ⟨x, hx⟩ := List.exists_mem_of_ne_nil _ hother
    exact hwf.landKey other (List.ne_nil_of_mem ((hmem other x).mp hx).1)
  · intro other
    unfold UserRecord.remove
    rw [UserRecord.setInventory_land, UserRecord.setLand_land]
    by_cases heq : other = key
    · rw [if_pos heq, keepOthers_eq_filter hplaced]
      exact (hwf.nodup key).filter _
    · rw [if_neg heq]
      exact hwf.nodup other
  · intro first second x hfirst hsecond
    exact hwf.apart first second x ((hmem first x).mp hfirst).1
      ((hmem second x).mp hsecond).1
  · intro other hempty
    exact hwf.button other ((hmem other "").mp hempty).1

/-! ## The local land list after an operation -/

/-- Only the land of the record and the two land lists of the app matter. -/
theorem ShowsLand.congr {record record' : UserRecord} {app app' : App}
    (h : ShowsLand record app) (hland : record'.land = record.land)
    (hactive : app'.activeItems = app.activeItems)
    (hoccupied : app'.coordinatesOccupied = app.coordinatesOccupied) :
    ShowsLand record' app' := by
  refine ⟨?_, ?_, ?_, ?_, ?_, ?_⟩
  · rw [hactive]
    exact h.known
  · rw [hactive]
    exact h.nodup
  · rw [hactive]
    exact h.counted
  · rw [hactive, hland]
    exact h.placed
  · rw [hoccupied, hland]
    exact h.occupied
  · rw [hoccupied]
    exact h.occupiedNodup

/-- BUY changes neither the land nor the lists of it. -/
theorem ShowsLand.buy {session : Session}
    (h : ShowsLand session.record session.app) (cell : Nat) :
    ShowsLand (session.buy cell).record (session.buy cell).app :=
  h.congr (UserRecord.buy_land _ _) (session.buy_activeItems cell)
    (session.buy_coordinatesOccupied cell)

/-- PLACE adds the coordinate to the stored list and to the local one. -/
theorem ShowsLand.place {session : Session}
    (h : ShowsLand session.record session.app) {key item coordinate : String}
    (hkey : key ∈ storeKeys) (hitem : item = itemName key)
    (hfree : ∀ other, coordinate ∉ session.record.land other) :
    ShowsLand (session.place key item coordinate).record
      (session.place key item coordinate).app := by
  have hmem := session.record.mem_place_land key coordinate
  have hexists : session.record.land key ≠ [] →
      ∃ entry ∈ session.app.activeItems, entry.key = key := by
    intro hne
    obtain ⟨x, hx⟩ := List.exists_mem_of_ne_nil _ hne
    obtain ⟨entry, hentry, hk, _⟩ := (h.placed key x).mp hx
    exact ⟨entry, hentry, hk⟩
  have hfreeItem : ∀ entry ∈ session.app.activeItems,
      coordinate ∉ entry.coordinates := by
    intro entry hentry hx
    exact hfree entry.key ((h.placed entry.key coordinate).mpr ⟨entry, hentry, rfl, hx⟩)
  have hentries : ∀ entry ∈ placeLocal key item coordinate
        (session.record.land key) session.app.activeItems,
      (entry.key ∈ storeKeys ∧ entry.item = itemName entry.key) ∧
        entry.coordinates.Nodup ∧ (entry.coordinates.length : Int) ≤ entry.count := by
    intro entry hentry
    unfold placeLocal at hentry
    by_cases hplaced : session.record.land key = []
    · rw [if_pos hplaced] at hentry
      rcases List.mem_append.mp hentry with hentry | hentry
      · exact ⟨h.known entry hentry, h.nodup entry hentry, h.counted entry hentry⟩
      · rw [List.mem_singleton] at hentry
        subst hentry
        exact ⟨⟨hkey, hitem⟩, by simp, by simp⟩
    · rw [if_neg hplaced] at hentry
      unfold placeAgain at hentry
      obtain ⟨old, hold, rfl⟩ := List.mem_map.mp hentry
      by_cases hk : old.key = key
      · rw [if_pos hk]
        refine ⟨h.known old hold, ?_, ?_⟩
        · rw [List.nodup_append]
          refine ⟨h.nodup old hold, by simp, ?_⟩
          intro x hx y hy hxy
          rw [List.mem_singleton] at hy
          exact hfreeItem old hold (hy ▸ hxy ▸ hx)
        · have hcounted := h.counted old hold
          change ((old.coordinates ++ [coordinate]).length : Int) ≤ old.count + 1
          rw [List.length_append, List.length_singleton]
          omega
      · rw [if_neg hk]
        exact ⟨h.known old hold, h.nodup old hold, h.counted old hold⟩
  refine ⟨?_, ?_, ?_, ?_, ?_, ?_⟩
  · intro entry hentry
    exact (hentries entry hentry).1
  · intro entry hentry
    exact (hentries entry hentry).2.1
  · intro entry hentry
    exact (hentries entry hentry).2.2
  · intro other x
    have hlocal := mem_placeLocal item coordinate hexists other x
    have hremote := hmem other x
    exact hremote.trans ((or_congr (h.placed other x) Iff.rfl).trans hlocal.symm)
  · intro x
    change x ∈ session.app.coordinatesOccupied ++ [coordinate] ↔ _
    rw [List.mem_append, h.occupied, List.mem_singleton]
    constructor
    · intro hx
      rcases hx with ⟨other, hx⟩ | hx
      · exact ⟨other, (hmem other x).mpr (Or.inl hx)⟩
      · exact ⟨key, (hmem key x).mpr (Or.inr ⟨rfl, hx⟩)⟩
    · intro hx
      obtain ⟨other, hx⟩ := hx
      rcases (hmem other x).mp hx with hx | ⟨_, hx⟩
      · exact Or.inl ⟨other, hx⟩
      · exact Or.inr hx
  · change (session.app.coordinatesOccupied ++ [coordinate]).Nodup
    rw [List.nodup_append]
    refine ⟨h.occupiedNodup, by simp, ?_⟩
    intro x hx y hy hxy
    rw [List.mem_singleton] at hy
    obtain ⟨other, hother⟩ := (h.occupied x).mp hx
    exact hfree other (hy ▸ hxy ▸ hother)

/-- REMOVE takes the coordinate off the stored list and off the local one. -/
theorem ShowsLand.remove {session : Session}
    (h : ShowsLand session.record session.app)
    (hwf : session.record.WellFormed) {key coordinate : String}
    (hplaced : coordinate ∈ session.record.land key) :
    ShowsLand (session.remove coordinate).record (session.remove coordinate).app := by
  have hfound := (h.find hwf hplaced).2
  have hrecord : (session.remove coordinate).record =
      session.record.remove key coordinate := by
    rw [← hfound]
    rfl
  have hmem := UserRecord.mem_remove_land hwf hplaced
  have hentry : ∀ entry ∈ (session.remove coordinate).app.activeItems,
      ∃ old ∈ session.app.activeItems, entry.key = old.key ∧
        entry.item = old.item ∧ entry.count = old.count ∧
        entry.coordinates = old.coordinates.filter (fun x => x ≠ coordinate) := by
    intro entry hentry
    change entry ∈ dropCoordinate coordinate session.app.activeItems at hentry
    unfold dropCoordinate at hentry
    obtain ⟨old, hold, rfl⟩ := List.mem_map.mp hentry
    exact ⟨old, hold, rfl, rfl, rfl,
      removeLast_eq_filter (h.nodup old hold) coordinate⟩
  rw [hrecord]
  refine ⟨?_, ?_, ?_, ?_, ?_, ?_⟩
  · intro entry he
    obtain ⟨old, hold, hk, hi, _⟩ := hentry entry he
    rw [hk, hi]
    exact h.known old hold
  · intro entry he
    obtain ⟨old, hold, _, _, _, hc⟩ := hentry entry he
    rw [hc]
    exact (h.nodup old hold).filter _
  · intro entry he
    obtain ⟨old, hold, _, _, hcount, hc⟩ := hentry entry he
    have hcounted := h.counted old hold
    have hlength := List.length_filter_le (fun x => x ≠ coordinate) old.coordinates
    rw [hcount, hc]
    omega
  · intro other x
    rw [hmem other x, h.placed other x]
    constructor
    · intro hx
      obtain ⟨⟨old, hold, hk, hx⟩, hne⟩ := hx
      refine ⟨_, List.mem_map_of_mem hold, hk, ?_⟩
      exact mem_removeLast_of_ne _ hx (by simpa using hne)
    · intro hx
      obtain ⟨entry, he, hk, hx⟩ := hx
      obtain ⟨old, hold, hk', _, _, hc⟩ := hentry entry he
      rw [hc, List.mem_filter] at hx
      exact ⟨⟨old, hold, hk'.symm.trans hk, hx.1⟩, by simpa using hx.2⟩
  · intro x
    change x ∈ removeLast (fun x => x = coordinate)
      session.app.coordinatesOccupied ↔ _
    rw [removeLast_eq_filter h.occupiedNodup, List.mem_filter, h.occupied]
    constructor
    · intro hx
      obtain ⟨⟨other, hx⟩, hne⟩ := hx
      exact ⟨other, (hmem other x).mpr ⟨hx, by simpa using hne⟩⟩
    · intro hx
      obtain ⟨other, hx⟩ := hx
      obtain ⟨hx, hne⟩ := (hmem other x).mp hx
      exact ⟨⟨other, hx⟩, by simpa using hne⟩
  · exact List.Sublist.nodup (removeLast_sublist _ _) h.occupiedNodup

/-- Every operation keeps the local lists showing the land; one case for each. -/
theorem ShowsLand.tap {session : Session}
    (h : ShowsLand session.record session.app) (hwf : session.record.WellFormed)
    {tap : Tap} (hpermits : session.record.Permits tap) :
    ShowsLand (session.tap tap).record (session.tap tap).app := by
  cases tap with
  | buy cell => exact h.buy cell
  | place key item coordinate =>
      obtain ⟨hkey, hitem, _, hfree⟩ := hpermits
      exact h.place hkey hitem hfree
  | remove coordinate =>
      obtain ⟨key, hplaced⟩ := hpermits
      exact h.remove hwf hplaced
  | cellForRow cell storeItem => exact hpermits.elim
  | claim result => exact hpermits.elim
  | redeem quantities dateString autoId => exact hpermits.elim
  | signIn uid displayName => exact hpermits.elim
  | signOut => exact hpermits.elim

end WillItRecycle

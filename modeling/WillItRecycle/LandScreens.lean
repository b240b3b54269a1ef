import WillItRecycle.GameState
import WillItRecycle.LastMatch

/-!
# Placing items on the land and removing them

`PlacementGridViewController.swift` and `RemoveItemViewController.swift`.
Both screens change some of the local lists at the tap and issue two reads;
the callbacks rewrite `activeItems/<key>` and `inventory/<key>` from the
snapshot they were given.  PLACE extends the local `activeItems` only in its
callback, REMOVE shrinks it at the tap.
-/

namespace WillItRecycle

open PathTree LastMatch

/-! ## PlacementGridViewController -/

namespace PlacementGridViewController

def invalidInput : Alert :=
  ⟨"Invalid input", "Please select a location for your item"⟩

end PlacementGridViewController

/-- The loop over `inventoryItems` that takes out one unit of `key`: an entry
of count 1 is removed, the others lose one. -/
def takeFromInventory (key : String) (inventoryItems : List GameItem) :
    List GameItem :=
  removeAt
    (inventoryItems.map fun item =>
      if item.key = key ∧ item.count ≠ 1 then item.decrementCount else item)
    (removeIndex (fun item => item.key = key ∧ item.count = 1) inventoryItems)

/-- The tap on PLACE ITEM for the row `(key, item)` and the selected button. -/
def onPlacementCompleted (key item coordinate : String) (app : App) : Handled :=
  if coordinate ≠ "" then do
    let uid ← force .forceUnwrap app.currentUser
    .ok { state := { app with
            coordinatesOccupied := app.coordinatesOccupied ++ [coordinate]
            inventoryItems := takeFromInventory key app.inventoryItems }
          writes := []
          reads := [.placeActive uid key item coordinate,
            .placeInventory uid key] }
  else
    (app.present PlacementGridViewController.invalidInput).done

/-- The loop over `activeItems` after a placement of an item already there. -/
def placeAgain (key coordinate : String) (activeItems : List GameItem) :
    List GameItem :=
  activeItems.map fun item =>
    if item.key = key then
      { item.incrementCount with coordinates := item.coordinates ++ [coordinate] }
    else item

/-- The callback on `activeItems/<key>`. -/
def placeActiveRead (uid : Uid) (key item coordinate : String)
    (snapshot : Snapshot) (app : App) : Handled :=
  match snapshot with
  | .error => app.done
  | .value node _ =>
      if node.isEmpty then
        let newItem : GameItem := ⟨key, item, 1, [coordinate]⟩
        .ok { state := { app with activeItems := app.activeItems ++ [newItem] }
              writes := [setValue uid ["activeItems", key, "0"]
                (Tree.leaf (.string coordinate))]
              reads := [] }
      else do
        let activeItemsData ← force .forceCast (asStringArray node)
        .ok { state := { app with
                activeItems := placeAgain key coordinate app.activeItems }
              writes := [setValue uid
                ["activeItems", key, indexKey activeItemsData.length]
                (Tree.leaf (.string coordinate))]
              reads := [] }

/-- The callback on `inventory/<key>`. -/
def placeInventoryRead (uid : Uid) (key : String) (snapshot : Snapshot)
    (app : App) : Handled :=
  match snapshot with
  | .error => app.done
  | .value node _ =>
      if node.isEmpty then app.done
      else do
        let count ← force .forceCast (asInt node)
        if count = 1 then
          .ok ⟨app, [removeValue uid ["inventory", key]], []⟩
        else
          .ok ⟨app, [setValue uid ["inventory", key]
            (Tree.leaf (.int (count - 1)))], []⟩

/-! ## RemoveItemViewController -/

namespace RemoveItemViewController

def invalidInput : Alert :=
  ⟨"Invalid input", "Please select an item to remove"⟩

end RemoveItemViewController

/-- The placeholder `findActiveItemCoordinate` starts from. -/
def noItem : GameItem := ⟨"", "", 0, []⟩

/-- The last entry with the coordinate, or the placeholder. -/
def findActiveItemCoordinate (activeItems : List GameItem)
    (coordinate : String) : GameItem :=
  activeItems.foldl (fun itemFound item =>
    item.coordinates.foldl (fun itemFound thisCoordinate =>
      if thisCoordinate = coordinate then item else itemFound) itemFound) noItem

/-- The loop over `activeItems`: one occurrence of the coordinate leaves each
entry; entries and counts stay. -/
def dropCoordinate (coordinate : String) (activeItems : List GameItem) :
    List GameItem :=
  activeItems.map fun item =>
    { item with
      coordinates := removeLast (fun x => x = coordinate) item.coordinates }

/-- The loop over `inventoryItems` that gives one unit back, by display name. -/
def returnToInventory (selectedItem : GameItem) (selectedCoordinate : String)
    (inventoryItems : List GameItem) : List GameItem :=
  let updated := inventoryItems.map fun item =>
    if item.item = selectedItem.item ∧ item.count > 1 then item.incrementCount
    else item
  if inventoryItems.any (fun item => item.item = selectedItem.item) then updated
  else
    updated ++ [⟨selectedItem.key, selectedItem.item, 1, [selectedCoordinate]⟩]

/-- The tap on REMOVE with a selected row. -/
def onRemove (selectedCoordinate : String) (app : App) : Handled :=
  if selectedCoordinate ≠ "" then do
    let uid ← force .forceUnwrap app.currentUser
    let selectedItem :=
      findActiveItemCoordinate app.activeItems selectedCoordinate
    .ok { state := { app with
            coordinatesOccupied :=
              removeLast (fun x => x = selectedCoordinate) app.coordinatesOccupied
            activeItems := dropCoordinate selectedCoordinate app.activeItems
            inventoryItems :=
              returnToInventory selectedItem selectedCoordinate
                app.inventoryItems }
          writes := []
          reads := [.removeActive uid selectedItem.key selectedCoordinate,
            .removeInventory uid selectedItem.key] }
  else
    (app.present RemoveItemViewController.invalidInput).done

/-- The loop that writes back the coordinates to keep, from index `index` on. -/
def rewriteFrom (uid : Uid) (key selectedCoordinate : String) :
    Nat → List String → List Write
  | _, [] => []
  | index, coordinate :: rest =>
      if coordinate ≠ selectedCoordinate then
        setValue uid ["activeItems", key, indexKey index]
            (Tree.leaf (.string coordinate)) ::
          rewriteFrom uid key selectedCoordinate (index + 1) rest
      else
        rewriteFrom uid key selectedCoordinate index rest

/-- The callback on `activeItems/<key>`. -/
def removeActiveRead (uid : Uid) (key selectedCoordinate : String)
    (snapshot : Snapshot) (app : App) : Handled :=
  match snapshot with
  | .error => app.done
  | .value node _ =>
      if node.isEmpty then app.done
      else do
        let activeItemsData ← force .forceCast (asStringArray node)
        let rewrites :=
          if activeItemsData.length > 1 then
            rewriteFrom uid key selectedCoordinate 0 activeItemsData
          else []
        .ok ⟨app, removeValue uid ["activeItems", key] :: rewrites, []⟩

/-- The callback on `inventory/<key>`.  A new entry is written through
`child(key)`, which throws on an empty key (`FValidation validPathString:`). -/
def removeInventoryRead (uid : Uid) (key : String) (snapshot : Snapshot)
    (app : App) : Handled :=
  match snapshot with
  | .error => app.done
  | .value node _ =>
      if node.isEmpty then
        if key = "" then .error .invalidPath
        else
          .ok ⟨app, [setValue uid ["inventory", key] (Tree.leaf (.int 1))], []⟩
      else do
        let count ← force .forceCast (asInt node)
        .ok ⟨app, [setValue uid ["inventory", key]
          (Tree.leaf (.int (count + 1)))], []⟩

end WillItRecycle

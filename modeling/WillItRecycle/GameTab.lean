import WillItRecycle.ClientRefinement
import WillItRecycle.GameScreen

/-!
# The screens of the land game

The tab of the land: `GameViewController`, and above it the store, the inventory with
the placement grid, or the screen that removes an item.  What the user does to these
screens, and what UIKit asks their tables, is a client of the database of its own: its
state is the state of the app and what the screens show.

A table is told its number of rows when it is reloaded and asks for the cells of these
rows one by one, as it scrolls; a cell out of sight is used again for another row.
Here a cell stays among the displayed ones until it is used again or the table is
reloaded, which only adds taps.  A block that waits for the main queue runs as part of
the callback that enqueues it when it uses nothing but what the callback has.  The block
of a purchase reads `self.storeItem` when it runs, after the cell may have been given
another item: it is pending like a read, under `displayLeaves`.  Images are known by
their names.
-/

namespace WillItRecycle

open PathTree ReadCallback

/-! ## What is shown -/

/-- The two labels that show the wallet; each time the store is opened it is another. -/
inductive LeavesView where
  | land
  | store (number : Nat)
  deriving DecidableEq, Repr

def leavesText (number : Int) : String := "WALLET: " ++ toString number ++ " LEAVES"

/-- `class StoreTableViewCell`; `storeItem` is in the state of the app, under `cell`. -/
structure StoreTableViewCell where
  cell : Nat
  cellLabel : String
  detailLabel : String
  itemImage : String
  deriving DecidableEq, Repr

structure StoreViewController where
  number : Nat
  displayedItems : List ShelfItem
  cells : List StoreTableViewCell
  leavesLabel : String
  deriving DecidableEq, Repr

structure InventoryTableViewCell where
  cellLabel : String
  inventoryItem : GameItem
  deriving DecidableEq, Repr

structure InventoryViewController where
  /-- what the table was told when it was last reloaded -/
  numberOfRows : Nat
  cells : List InventoryTableViewCell
  inventoryItem : GameItem
  deriving DecidableEq, Repr

inductive BackgroundColor where
  | white
  | lightGray
  | pink
  deriving DecidableEq, Repr

structure PlacementGridViewController where
  activeItem : GameItem
  isEnabled : Button → Bool
  backgroundColor : Button → BackgroundColor
  coordinate : String
  coordinateSelected : Option Button

/-- A `TextCell`: the row it was asked for, and its text. -/
structure TextCell where
  row : Nat
  text : String
  deriving DecidableEq, Repr

structure RemoveItemViewController where
  numberOfRows : Nat
  cells : List TextCell
  selectedCoordinate : String
  deriving DecidableEq, Repr

/-- The screen on top of the land. -/
inductive Screen where
  | land
  | store (screen : StoreViewController)
  | inventory (screen : InventoryViewController)
  | placementGrid (presenting : InventoryViewController) (grid : PlacementGridViewController)
  | removeItem (screen : RemoveItemViewController)

structure GameTab where
  app : App
  /-- `let user` of the screens -/
  user : Uid
  /-- whether the tab is the one shown -/
  selected : Bool
  /-- whether the land has been loaded -/
  loaded : Bool
  leavesLabel : String
  images : GameScreen String
  screen : Screen
  /-- how often the store has been opened -/
  stores : Nat
  /-- the store that each cell was made for -/
  delegates : List Nat

inductive TabRead where
  | app (read : Read)
  | refreshLeaves (uid : Uid) (view : LeavesView)
  /-- no read, but the block of a purchase on the main queue -/
  | displayLeaves (storeVC cell : Nat) (value : Int)
  deriving DecidableEq, Repr

inductive TabTrap where
  | app (trap : Trap)
  | indexOutOfRange
  deriving DecidableEq, Repr

abbrev TabHandled := Except TabTrap (Effects GameTab Write TabRead)

namespace GameTab

/-- Nothing happens. -/
def done (tab : GameTab) : TabHandled := .ok ⟨tab, [], []⟩

/-- A handler of the app in the state of the tab. -/
def lift (tab : GameTab) (handled : Handled) : TabHandled :=
  (handled.mapError TabTrap.app).map fun fx =>
    ⟨{ tab with app := fx.state }, fx.writes, fx.reads.map TabRead.app⟩

/-- The text of a label; a store that has been left shows nothing. -/
def setLeaves (view : LeavesView) (text : String) (tab : GameTab) : GameTab :=
  match view, tab.screen with
  | .land, _ => { tab with leavesLabel := text }
  | .store number, .store screen =>
      if screen.number = number then
        { tab with screen := .store { screen with leavesLabel := text } }
      else tab
  | .store _, _ => tab

/-- `items[row]` -/
def row {α : Type} (items : List α) (row : Nat) : Except TabTrap α :=
  match items[row]? with
  | some item => .ok item
  | none => .error .indexOutOfRange

/-! ## GameViewController -/

/-- `viewWillAppear` of the land -/
def landWillAppear (tab : GameTab) : GameTab × List TabRead :=
  ({ tab with images := loadActiveItems some tab.app.activeItems (clearItems tab.images) },
    [.refreshLeaves tab.user .land])

/-- `viewDidLoad` of the land -/
def landDidLoad (tab : GameTab) : GameTab × List TabRead :=
  ({ tab with
      loaded := true
      images := loadActiveItems some tab.app.activeItems tab.images },
    [.refreshLeaves tab.user .land])

/-- The screen on top of the land is taken away. -/
def pop (tab : GameTab) : GameTab × List TabRead :=
  landWillAppear { tab with screen := .land }

/-! ## StoreViewController -/

/-- The table shows other items. -/
def display (items : List ShelfItem) (screen : StoreViewController) (tab : GameTab) : GameTab :=
  { tab with screen := .store { screen with displayedItems := items, cells := [] } }

/-- `viewWillAppear` of the store -/
def storeWillAppear (screen : StoreViewController) (tab : GameTab) : GameTab × List TabRead :=
  (display storeItems.attach screen tab, [.refreshLeaves tab.user (.store screen.number)])

/-- The store is opened: `viewDidLoad` and `viewWillAppear`. -/
def openStore (tab : GameTab) : GameTab × List TabRead :=
  let screen : StoreViewController :=
    ⟨tab.stores, storeItems.attach, [], "WALLET: 0 LEAVES"⟩
  let shown := storeWillAppear screen { tab with stores := tab.stores + 1 }
  (shown.1, .refreshLeaves tab.user (.store screen.number) :: shown.2)

/-- `searchBar(_:textDidChange:)`, where `range` is `range(of:options:)`. -/
def textDidChange (range : String → String → Bool) (searchText : String)
    (screen : StoreViewController) (tab : GameTab) : GameTab :=
  display
    (if searchText = "" then storeItems.attach
      else storeItems.attach.filter fun storeItem => range storeItem.val.item searchText)
    screen tab

/-- What a cell shows of an item. -/
def storeCell (cell : Nat) (storeItem : StoreItem) : StoreTableViewCell where
  cell := cell
  cellLabel := storeItem.item
  detailLabel := "Cost: " ++ toString storeItem.cost
  itemImage := storeItem.key

/-- The cell is bound to the item of a row. -/
def bindCell (cell : Nat) (storeItem : ShelfItem) (screen : StoreViewController)
    (tab : GameTab) : GameTab :=
  { tab with
    app := tab.app.cellForRow cell storeItem
    screen := .store { screen with
      cells := screen.cells.filter (fun shown => shown.cell ≠ cell) ++
        [storeCell cell storeItem.val] } }

/-- `tableView(_:cellForRowAt:)` of the store, with a cell used again or a new one. -/
def storeCellForRow (reused : Option Nat) (index : Nat) (screen : StoreViewController)
    (tab : GameTab) : TabHandled :=
  if index < screen.displayedItems.length then do
    let storeItem ← row screen.displayedItems index
    match reused with
    | none =>
        (bindCell tab.delegates.length storeItem screen
          { tab with delegates := tab.delegates ++ [screen.number] }).done
    | some cell =>
        if tab.delegates[cell]? = some screen.number then
          (bindCell cell storeItem screen tab).done
        else tab.done
  else tab.done

/-! ## InventoryViewController -/

/-- `viewWillAppear` of the inventory -/
def inventoryWillAppear (screen : InventoryViewController) (tab : GameTab) : GameTab :=
  { tab with
    screen := .inventory { screen with
      numberOfRows := tab.app.inventoryItems.length, cells := [] } }

def openInventory (tab : GameTab) : GameTab :=
  inventoryWillAppear ⟨0, [], noItem⟩ tab

def inventoryCell (inventoryItem : GameItem) : InventoryTableViewCell where
  cellLabel := inventoryItem.item ++ " (" ++ toString inventoryItem.count ++ ")"
  inventoryItem := inventoryItem

/-- `tableView(_:cellForRowAt:)` of the inventory -/
def inventoryCellForRow (index : Nat) (screen : InventoryViewController) (tab : GameTab) :
    TabHandled :=
  if index < screen.numberOfRows then do
    let inventoryItem ← row tab.app.inventoryItems index
    { tab with
      screen := .inventory { screen with
        cells := screen.cells ++ [inventoryCell inventoryItem] } }.done
  else tab.done

/-- `viewDidLoad` of the placement grid, prepared with an item. -/
def placementGridDidLoad (activeItem : GameItem) (coordinatesOccupied : List String) :
    PlacementGridViewController where
  activeItem := activeItem
  isEnabled := fun button => button.coordinate ∉ coordinatesOccupied
  backgroundColor := fun button =>
    if button.coordinate ∉ coordinatesOccupied then .white else .lightGray
  coordinate := ""
  coordinateSelected := none

/-- PLACE in a cell: `onPlaceItem`, then the segue with its `prepare`. -/
def onPlaceItem (cell : InventoryTableViewCell) (screen : InventoryViewController)
    (tab : GameTab) : GameTab :=
  { tab with
    screen := .placementGrid { screen with inventoryItem := cell.inventoryItem }
      (placementGridDidLoad cell.inventoryItem tab.app.coordinatesOccupied) }

end GameTab

/-! ## PlacementGridViewController -/

namespace PlacementGridViewController

def resetSelectedCoordinate (button : Button) (grid : PlacementGridViewController) :
    PlacementGridViewController :=
  let backgroundColor :=
    match grid.coordinateSelected with
    | some selected => Function.update grid.backgroundColor selected .white
    | none => grid.backgroundColor
  { grid with
    backgroundColor := Function.update backgroundColor button .pink
    coordinateSelected := some button }

/-- `onSelectButton00` to `onSelectButton43` -/
def onSelectButton (button : Button) (grid : PlacementGridViewController) :
    PlacementGridViewController :=
  resetSelectedCoordinate button { grid with coordinate := button.coordinate }

@[simp] theorem onSelectButton_isEnabled (button : Button)
    (grid : PlacementGridViewController) :
    (grid.onSelectButton button).isEnabled = grid.isEnabled := rfl

@[simp] theorem onSelectButton_coordinateSelected (button : Button)
    (grid : PlacementGridViewController) :
    (grid.onSelectButton button).coordinateSelected = some button := rfl

end PlacementGridViewController

namespace GameTab

/-- The tap on PLACE ITEM; the grid is dismissed when a button is selected. -/
def placementCompleted (screen : InventoryViewController) (grid : PlacementGridViewController)
    (tab : GameTab) : TabHandled :=
  (tab.lift (onPlacementCompleted grid.activeItem.key grid.activeItem.item grid.coordinate
    tab.app)).map fun fx =>
      if grid.coordinate ≠ "" then { fx with state := inventoryWillAppear screen fx.state }
      else fx

/-! ## RemoveItemViewController -/

/-- `viewWillAppear` of the screen -/
def removeItemWillAppear (screen : RemoveItemViewController) (tab : GameTab) : GameTab :=
  { tab with
    screen := .removeItem { screen with
      numberOfRows := tab.app.coordinatesOccupied.length, cells := [] } }

def openRemoveItem (tab : GameTab) : GameTab := removeItemWillAppear ⟨0, [], ""⟩ tab

/-- `tableView(_:cellForRowAt:)` of the screen -/
def removeItemCellForRow (index : Nat) (screen : RemoveItemViewController) (tab : GameTab) :
    TabHandled :=
  if index < screen.numberOfRows then do
    let coordinate ← row tab.app.coordinatesOccupied index
    let selectedItem := findActiveItemCoordinate tab.app.activeItems coordinate
    let cell : TextCell := ⟨index, selectedItem.item ++ " : " ++ coordinate⟩
    { tab with
      screen := .removeItem { screen with cells := screen.cells ++ [cell] } }.done
  else tab.done

/-- `tableView(_:didSelectRowAt:)` -/
def didSelectRow (index : Nat) (screen : RemoveItemViewController) (tab : GameTab) : TabHandled :=
  if index < screen.numberOfRows then do
    let coordinate ← row tab.app.coordinatesOccupied index
    { tab with screen := .removeItem { screen with selectedCoordinate := coordinate } }.done
  else tab.done

/-- The tap on REMOVE; the screen is left when a row has been selected. -/
def remove (screen : RemoveItemViewController) (tab : GameTab) : TabHandled :=
  (tab.lift (onRemove screen.selectedCoordinate tab.app)).map fun fx =>
    if screen.selectedCoordinate ≠ "" then
      ⟨fx.state.pop.1, fx.writes, fx.reads ++ fx.state.pop.2⟩
    else fx

/-! ## The tab -/

/-- `viewWillAppear` of the screen on top; the grid covers the tabs. -/
def viewWillAppear (tab : GameTab) : GameTab × List TabRead :=
  match tab.screen with
  | .land => tab.landWillAppear
  | .store screen => storeWillAppear screen tab
  | .inventory screen => (inventoryWillAppear screen tab, [])
  | .removeItem screen => (removeItemWillAppear screen tab, [])
  | .placementGrid _ _ => (tab, [])

/-- The tab is chosen; the first time the land is loaded. -/
def enter (tab : GameTab) : GameTab × List TabRead :=
  let tab := { tab with selected := true }
  if tab.loaded then tab.viewWillAppear
  else
    let (tab, reads) := tab.landDidLoad
    let shown := tab.viewWillAppear
    (shown.1, reads ++ shown.2)

/-- A screen is shown, with the reads this issues. -/
def shown (next : GameTab × List TabRead) : TabHandled := .ok ⟨next.1, [], next.2⟩

end GameTab

/-! ## The client -/

/-- What the user does, and what the tables ask for. -/
inductive GameTap where
  | enterTab
  | leaveTab
  | claimOnClick (result : String)
  | openStore
  | openInventory
  | openRemoveItem
  | back
  | textDidChange (searchText : String)
  | searchBarCancelButtonClicked
  | storeCellForRow (reused : Option Nat) (row : Nat)
  | buyOnClick (cell : Nat)
  | inventoryCellForRow (row : Nat)
  | onPlaceItem (cell : Nat)
  | onSelectButton (button : Button)
  | onPlacementCompleted
  | onBackButtonPressed
  | removeItemCellForRow (row : Nat)
  | didSelectRow (row : Nat)
  | onRemove
  /-- on another tab -/
  | redeem (quantities : Quantities) (dateString : String) (autoId : Nat → String)

namespace GameTap

/-- Another tab is chosen. -/
def leave (tab : GameTab) : TabHandled := { tab with selected := false }.done

def onLand (tab : GameTab) : GameTap → TabHandled
  | claimOnClick result => tab.lift (WillItRecycle.claimOnClick result tab.app)
  | openStore => GameTab.shown tab.openStore
  | openInventory => tab.openInventory.done
  | openRemoveItem => tab.openRemoveItem.done
  | leaveTab => leave tab
  | _ => tab.done

def onStore (range : String → String → Bool) (screen : StoreViewController) (tab : GameTab) :
    GameTap → TabHandled
  | back => GameTab.shown tab.pop
  | textDidChange searchText => (GameTab.textDidChange range searchText screen tab).done
  | searchBarCancelButtonClicked => (GameTab.display storeItems.attach screen tab).done
  | storeCellForRow reused row => GameTab.storeCellForRow reused row screen tab
  | buyOnClick cell =>
      if cell ∈ screen.cells.map StoreTableViewCell.cell then
        tab.lift (WillItRecycle.buyOnClick cell tab.app)
      else tab.done
  | leaveTab => leave tab
  | _ => tab.done

def onInventory (screen : InventoryViewController) (tab : GameTab) : GameTap → TabHandled
  | back => GameTab.shown tab.pop
  | inventoryCellForRow row => GameTab.inventoryCellForRow row screen tab
  | onPlaceItem cell =>
      match screen.cells[cell]? with
      | some cell => (GameTab.onPlaceItem cell screen tab).done
      | none => tab.done
  | leaveTab => leave tab
  | _ => tab.done

/-- The grid covers the tabs. -/
def onPlacementGrid (screen : InventoryViewController) (grid : PlacementGridViewController)
    (tab : GameTab) : GameTap → TabHandled
  | onSelectButton button =>
      if grid.isEnabled button then
        { tab with screen := .placementGrid screen (grid.onSelectButton button) }.done
      else tab.done
  | onPlacementCompleted => GameTab.placementCompleted screen grid tab
  | onBackButtonPressed => (GameTab.inventoryWillAppear screen tab).done
  | _ => tab.done

def onRemoveItem (screen : RemoveItemViewController) (tab : GameTab) : GameTap → TabHandled
  | back => GameTab.shown tab.pop
  | removeItemCellForRow row => GameTab.removeItemCellForRow row screen tab
  | didSelectRow row => GameTab.didSelectRow row screen tab
  | onRemove => GameTab.remove screen tab
  | leaveTab => leave tab
  | _ => tab.done

/-- While another tab is shown. -/
def elsewhere (tab : GameTab) : GameTap → TabHandled
  | enterTab => GameTab.shown tab.enter
  | redeem quantities dateString autoId =>
      tab.lift (redeemButtonPressed quantities dateString autoId tab.app)
  | _ => tab.done

/-- The handler of a tap. -/
def handle (range : String → String → Bool) (tap : GameTap) (tab : GameTab) : TabHandled :=
  if tab.selected then
    match tab.screen with
    | .land => onLand tab tap
    | .store screen => onStore range screen tab tap
    | .inventory screen => onInventory screen tab tap
    | .placementGrid screen grid => onPlacementGrid screen grid tab tap
    | .removeItem screen => onRemoveItem screen tab tap
  else elsewhere tab tap

end GameTap

/-- What the callback on `currentLeaves` of `calculate` shows. -/
def calculateShown (total : Int) (snapshot : Snapshot) (tab : GameTab) : GameTab :=
  match snapshot with
  | .error => tab
  | .value node _ =>
      match asInt node with
      | some value => tab.setLeaves .land (leavesText (value + total))
      | none => tab

/-- What a callback of the app shows. -/
def Read.shown : Read → Snapshot → GameTab → GameTab
  | .calculateCurrent _ total => calculateShown total
  | _ => fun _ tab => tab

/-- The block that the callback on `currentLeaves` of a purchase puts on the main queue,
with the store that the cell belongs to. -/
def buyLeavesBlock (cell : Nat) (snapshot : Snapshot) (tab : GameTab) : List TabRead :=
  match snapshot, tab.delegates[cell]? with
  | .value node _, some storeVC =>
      match asInt node with
      | some value =>
          if value - (tab.app.shown cell).cost ≥ 0 then [.displayLeaves storeVC cell value] else []
      | none => []
  | _, _ => []

/-- The blocks of a callback of the app that use more than it has. -/
def Read.blocks : Read → Snapshot → GameTab → List TabRead
  | .buyLeaves _ cell _ => buyLeavesBlock cell
  | _ => fun _ _ => []

/-- The block runs: `displayLeaves`, with the cost of the item that the cell shows now. -/
def displayLeavesBlock (storeVC cell : Nat) (value : Int) (tab : GameTab) : TabHandled :=
  (tab.setLeaves (.store storeVC) (leavesText (value - (tab.app.shown cell).cost))).done

/-- The callback of `refreshLeaves`. -/
def refreshLeavesRead (view : LeavesView) (snapshot : Snapshot) (tab : GameTab) : TabHandled :=
  match snapshot with
  | .error => tab.done
  | .value node _ =>
      if node.isEmpty then tab.done
      else do
        let value ← (force .forceCast (asInt node)).mapError TabTrap.app
        (tab.setLeaves view (leavesText value)).done

/-- The closure of a read, or the block. -/
def TabRead.callback : TabRead → Snapshot → GameTab → TabHandled
  | .app read => fun snapshot tab =>
      ((read.shown snapshot tab).lift (read.callback snapshot tab.app)).map fun fx =>
        { fx with reads := fx.reads ++ read.blocks snapshot tab }
  | .refreshLeaves _ view => refreshLeavesRead view
  | .displayLeaves storeVC cell value => fun _ => displayLeavesBlock storeVC cell value

/-- What a read gets as its snapshot; a block gets none. -/
def TabRead.answer (read : TabRead) (reply : Reply) (remote : Remote) : Snapshot :=
  match read with
  | .app read => read.answer reply remote
  | .refreshLeaves uid _ =>
      match reply with
      | .error => .error
      | .value order => .value ((remote uid).get (fpath ["currentLeaves"])) order
  | .displayLeaves _ _ _ => .error

/-- The tab as a client, with the search of the system. -/
def tabClient (range : String → String → Bool) :
    Client Remote GameTab Write TabRead Reply Snapshot GameTap TabTrap where
  apply := Write.apply
  answer := TabRead.answer
  tap := GameTap.handle range
  callback := TabRead.callback

abbrev TabSys := Sys Remote GameTab TabRead Snapshot

abbrev TabEvent := Event GameTap Reply

/-- The tab before it is shown for the first time. -/
def GameTab.fresh (user : Uid) (app : App) : GameTab where
  app := app
  user := user
  selected := false
  loaded := false
  leavesLabel := "WALLET: 0 LEAVES"
  images := fun _ => none
  screen := .land
  stores := 0
  delegates := []

end WillItRecycle

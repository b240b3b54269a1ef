import WillItRecycle.FirebaseNode
import WillItRecycle.ReadCallback
import Mathlib.Logic.Function.Basic

/-!
# The state of the app and its requests to the database

The app keeps the land game in three global lists, `inventoryItems`,
`activeItems` and `coordinatesOccupied`, beside the remote record
`users/<uid>` they mirror.  Every handler is a function of this local state
and, in a callback, of a snapshot; it answers with the new local state, the
writes and the reads it issues.

A `gameItem` is an object with fixed `key` and `item`; no object is in both
global lists, so that a list of values stands for a list of references.
Sums of leaves trap when they leave the range of `Int` (`intResult`); counts and
costs are far from its ends.
-/

namespace WillItRecycle

open PathTree ReadCallback

/-- An item of the store. -/
structure StoreItem where
  key : String
  item : String
  cost : Int
  deriving DecidableEq, Repr

def storeItems : List StoreItem :=
  [ ⟨"solarPanel", "Solar Panel", 50⟩,
    ⟨"windTurbine", "Wind Turbine", 60⟩,
    ⟨"succulent", "Succulent", 20⟩,
    ⟨"tree", "Tree", 50⟩,
    ⟨"wateringCan", "Watering Can", 40⟩,
    ⟨"beehive", "Beehive", 40⟩,
    ⟨"seedling", "Seedling", 30⟩,
    ⟨"flower", "Flower", 20⟩ ]

def storeKeys : List String := storeItems.map StoreItem.key

/-- What a store cell can show. -/
abbrev ShelfItem := { storeItem : StoreItem // storeItem ∈ storeItems }

/-- `class gameItem` -/
structure GameItem where
  key : String
  item : String
  count : Int
  coordinates : List String
  deriving DecidableEq, Repr

def GameItem.decrementCount (item : GameItem) : GameItem :=
  { item with count := item.count - 1 }

def GameItem.incrementCount (item : GameItem) : GameItem :=
  { item with count := item.count + 1 }

abbrev Uid := String

/-- The alert shown to the user. -/
structure Alert where
  title : String
  message : String
  deriving DecidableEq, Repr

structure App where
  /-- `Auth.auth().currentUser` -/
  currentUser : Option Uid
  inventoryItems : List GameItem
  activeItems : List GameItem
  coordinatesOccupied : List String
  /-- the `storeItem` of each cell of the store's table -/
  storeItem : Nat → ShelfItem
  /-- the variable `currentLeaves: Int!` captured by each tap on BUY so far -/
  currentLeaves : List (Option Int)
  /-- the alerts presented so far -/
  alerts : List Alert

def App.present (app : App) (alert : Alert) : App :=
  { app with alerts := app.alerts ++ [alert] }

/-- The `getData` calls of the app, each with what its closure captures. -/
inductive Read where
  | buyLeaves (uid : Uid) (cell tap : Nat)
  | buyInventory (uid : Uid) (cell tap : Nat) (key : String)
  | placeActive (uid : Uid) (key item coordinate : String)
  | placeInventory (uid : Uid) (key : String)
  | removeActive (uid : Uid) (key coordinate : String)
  | removeInventory (uid : Uid) (key : String)
  | claimDate (uid : Uid) (result : String)
  | calculateCurrent (uid : Uid) (total : Int)
  | calculateAllTime (uid : Uid) (total : Int)
  | redeemUser (uid : Uid) (leaves : Int)
  | signInName (uid : Uid) (displayName : Option String)
  | signInInventory (uid : Uid)
  | signInActive (uid : Uid)
  deriving DecidableEq, Repr

/-- The account whose record is read. -/
def Read.uid : Read → Uid
  | .buyLeaves uid _ _ | .buyInventory uid _ _ _ | .placeActive uid _ _ _
  | .placeInventory uid _ | .removeActive uid _ _ | .removeInventory uid _
  | .claimDate uid _ | .calculateCurrent uid _ | .calculateAllTime uid _
  | .redeemUser uid _ | .signInName uid _ | .signInInventory uid
  | .signInActive uid => uid

/-- The path read, below `users/<uid>`. -/
def Read.path : Read → List String
  | .buyLeaves .. => fpath ["currentLeaves"]
  | .buyInventory _ _ _ key => fpath ["inventory", key]
  | .placeActive _ key _ _ => fpath ["activeItems", key]
  | .placeInventory _ key => fpath ["inventory", key]
  | .removeActive _ key _ => fpath ["activeItems", key]
  | .removeInventory _ key => fpath ["inventory", key]
  | .claimDate .. => fpath ["lastVisitedDate"]
  | .calculateCurrent .. => fpath ["currentLeaves"]
  | .calculateAllTime .. => fpath ["allTimeLeaves"]
  | .redeemUser .. => fpath []
  | .signInName .. => fpath ["displayName"]
  | .signInInventory _ => fpath ["inventory"]
  | .signInActive _ => fpath ["activeItems"]

/-- How a read turns out: an error, or a value, whose dictionary Swift will
enumerate in some order of its keys. -/
inductive Reply where
  | error
  | value (order : List String)

def Reply.Succeeds : Reply → Prop
  | .error => False
  | .value _ => True

instance : DecidablePred Reply.Succeeds := fun reply =>
  match reply with
  | .error => isFalse id
  | .value _ => isTrue trivial

/-- What the closure of `getData` is given. -/
inductive Snapshot where
  | error
  | value (node : FNode) (order : List String)

/-- The records of all accounts. -/
abbrev Remote := Uid → FNode

/-- A write below `users/<uid>`. -/
structure Write where
  uid : Uid
  path : List String
  value : FNode

def setValue (uid : Uid) (pieces : List String) (value : FNode) : Write :=
  ⟨uid, fpath pieces, value⟩

def removeValue (uid : Uid) (pieces : List String) : Write :=
  ⟨uid, fpath pieces, Tree.empty⟩

def Write.apply (write : Write) (remote : Remote) : Remote :=
  Function.update remote write.uid
    ((remote write.uid).set write.path write.value)

def Read.answer (read : Read) (reply : Reply) (remote : Remote) : Snapshot :=
  match reply with
  | .error => .error
  | .value order => .value ((remote read.uid).get read.path) order

/-- What a handler of the app amounts to. -/
abbrev Handled := Except Trap (Effects App Write Read)

/-- A handler that does nothing more. -/
def App.done (app : App) : Handled := .ok ⟨app, [], []⟩

/-- A place of the land: the 20 buttons of the placement grid. -/
def gridCoordinates : List String :=
  [ "(0,0)", "(0,1)", "(0,2)", "(0,3)", "(1,0)", "(1,1)", "(1,2)", "(1,3)",
    "(2,0)", "(2,1)", "(2,2)", "(2,3)", "(3,0)", "(3,1)", "(3,2)", "(3,3)",
    "(4,0)", "(4,1)", "(4,2)", "(4,3)" ]

end WillItRecycle

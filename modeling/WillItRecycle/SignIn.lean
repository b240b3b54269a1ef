import WillItRecycle.GameState
import Mathlib.Data.List.Dedup
import Mathlib.Data.List.Sort

/-!
# Signing in and loading the record

`LoginViewController.swift`.  Signing in clears the three global lists and
reads the display name; its callback either issues the reads of the inventory
and the placed items, whose callbacks fill the lists, or creates the record.
Swift enumerates a dictionary in an arbitrary order, which comes with the
answer of the read.
-/

namespace WillItRecycle

open PathTree

/-- One round of the loop that turns a key into a display name.  Swift maps all of Unicode
to upper and lower case, these functions only ASCII, in which all keys are written. -/
def itemNameStep (state : String × Nat) (char : Char) : String × Nat :=
  (if char.isUpper then state.1 ++ " " ++ String.singleton char.toUpper
   else if state.2 = 0 then state.1 ++ String.singleton char.toUpper
   else state.1 ++ String.singleton char.toLower,
   state.2 + 1)

/-- The display name derived from a key. -/
def itemName (key : String) : String :=
  (key.toList.foldl itemNameStep ("", 0)).1

/-- The order in which a dictionary with the given keys is enumerated: the
keys listed in `order` first, then the others. -/
def enumerate (order keys : List String) : List String :=
  (order.filter (· ∈ keys)).dedup ++ keys.filter (· ∉ order)

/-- The entries the load appends to `inventoryItems`. -/
def loadedInventory (order : List String) (node : FNode) :
    Except Trap (List GameItem) := do
  let keys ← force .forceCast (asDictionary node)
  (enumerate order keys).mapM fun key => do
    let count ← force .forceCast (asInt (node.child key))
    .ok ⟨key, itemName key, count, []⟩

/-- The entries the load appends to `activeItems`. -/
def loadedActive (order : List String) (node : FNode) :
    Except Trap (List GameItem) := do
  let keys ← force .forceCast (asDictionary node)
  (enumerate order keys).mapM fun key => do
    let value ← force .forceCast (asStringArray (node.child key))
    .ok ⟨key, itemName key, value.length, value⟩

/-- `inventoryItems.sort(by: { $0.item < $1.item })` -/
def sortByItem (items : List GameItem) : List GameItem :=
  items.insertionSort fun a b => a.item ≤ b.item

/-- The record of a new user. -/
def newRecord (displayName : String) : FNode :=
  ((((((Tree.empty.setChild "displayName" (Tree.leaf (.string displayName))).setChild
    "leaderboard" (Tree.leaf (.bool true))).setChild
    "currentLeaves" (Tree.leaf (.int 0))).setChild
    "allTimeLeaves" (Tree.leaf (.int 0))).setChild
    "rewardsForToday" (Tree.leaf (.int 0))).setChild
    "notifications" (Tree.leaf (.bool false)))

/-- `authUI(_:didSignInWith:error:)` -/
def didSignIn (uid : Uid) (displayName : Option String) (app : App) : Handled :=
  .ok { state := { app with
          currentUser := some uid
          inventoryItems := []
          activeItems := []
          coordinatesOccupied := [] }
        writes := []
        reads := [.signInName uid displayName] }

/-- The callback on `displayName`. -/
def signInNameRead (uid : Uid) (displayName : Option String)
    (snapshot : Snapshot) (app : App) : Handled :=
  match snapshot with
  | .error => app.done
  | .value node _ =>
      if node.isEmpty then do
        let displayName ← force .forceUnwrap displayName
        .ok ⟨app, [setValue uid [] (newRecord displayName)], []⟩
      else
        .ok ⟨app, [], [.signInInventory uid, .signInActive uid]⟩

/-- The callback on `inventory`. -/
def signInInventoryRead (snapshot : Snapshot) (app : App) : Handled :=
  match snapshot with
  | .error => app.done
  | .value node order =>
      if node.isEmpty then app.done
      else do
        let loaded ← loadedInventory order node
        { app with
          inventoryItems := sortByItem (app.inventoryItems ++ loaded) }.done

/-- The callback on `activeItems`. -/
def signInActiveRead (snapshot : Snapshot) (app : App) : Handled :=
  match snapshot with
  | .error => app.done
  | .value node order =>
      if node.isEmpty then app.done
      else do
        let loaded ← loadedActive order node
        { app with
          activeItems := app.activeItems ++ loaded
          coordinatesOccupied := app.coordinatesOccupied ++
            loaded.flatMap GameItem.coordinates }.done

/-- `signOutButtonPressed` -/
def signOut (app : App) : Handled := { app with currentUser := none }.done

end WillItRecycle

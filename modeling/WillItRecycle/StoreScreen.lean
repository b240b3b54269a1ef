import WillItRecycle.GameState

/-!
# Buying in the store

`StoreTableViewCell.swift`.  A tap on BUY issues two reads whose callbacks are
coupled only by the captured variable `currentLeaves`: the first callback
charges the wallet, the second delivers the item.  Both look up the item in
the cell, which the table may meanwhile have bound to another one
(`cellForRowAt`); only the path of the second read is fixed at the tap.
-/

namespace WillItRecycle

open PathTree

namespace StoreTableViewCell

def errorAlert : Alert :=
  ⟨"Not enough leaves ☹️", "Recycle more to earn leaves!"⟩

def successAlert : Alert :=
  ⟨"Purchase Success! 😄", "Item has been added to your inventory"⟩

end StoreTableViewCell

/-- The item a cell shows now, `self.storeItem`. -/
def App.shown (app : App) (cell : Nat) : StoreItem := (app.storeItem cell).val

/-- `tableView(_:cellForRowAt:)` binds a reused cell to the item of its row. -/
def App.cellForRow (app : App) (cell : Nat) (storeItem : ShelfItem) : App :=
  { app with storeItem := Function.update app.storeItem cell storeItem }

def buyOnClick (cell : Nat) (app : App) : Handled := do
  let uid ← force .forceUnwrap app.currentUser
  let tap := app.currentLeaves.length
  .ok { state := { app with currentLeaves := app.currentLeaves ++ [none] }
        writes := []
        reads := [.buyLeaves uid cell tap,
          .buyInventory uid cell tap (app.shown cell).key] }

/-- The callback on `currentLeaves`. -/
def buyLeavesRead (uid : Uid) (cell tap : Nat) (snapshot : Snapshot)
    (app : App) : Handled :=
  match snapshot with
  | .error => app.done
  | .value node _ =>
      if node.isEmpty then app.done
      else do
        let value ← force .forceCast (asInt node)
        let app := { app with
          currentLeaves := app.currentLeaves.set tap (some value) }
        if value - (app.shown cell).cost ≥ 0 then
          .ok { state := app
                writes := [setValue uid ["currentLeaves"]
                  (Tree.leaf (.int (value - (app.shown cell).cost)))]
                reads := [] }
        else
          app.done

/-- The loop over `inventoryItems` after a purchase of an item already owned. -/
def incrementInventory (key : String) (inventoryItems : List GameItem) :
    List GameItem :=
  inventoryItems.map fun item =>
    if item.key = key then item.incrementCount else item

/-- The captured `currentLeaves!`. -/
def App.capturedLeaves (app : App) (tap : Nat) : Except Trap Int :=
  force .forceUnwrap (app.currentLeaves[tap]?).join

/-- The callback on `inventory/<key>`, where `key` is the one shown at the
tap; the writes go to the key shown now. -/
def buyInventoryRead (uid : Uid) (cell tap : Nat) (snapshot : Snapshot)
    (app : App) : Handled :=
  match snapshot with
  | .error => app.done
  | .value node _ =>
      if node.isEmpty then do
        let leaves ← app.capturedLeaves tap
        if leaves - (app.shown cell).cost ≥ 0 then
          let item : GameItem :=
            ⟨(app.shown cell).key, (app.shown cell).item, 1, []⟩
          .ok { state := { app with
                  inventoryItems := app.inventoryItems ++ [item] }.present
                    StoreTableViewCell.successAlert
                writes := [setValue uid ["inventory", (app.shown cell).key]
                  (Tree.leaf (.int 1))]
                reads := [] }
        else
          (app.present StoreTableViewCell.errorAlert).done
      else do
        let leaves ← app.capturedLeaves tap
        if leaves - (app.shown cell).cost ≥ 0 then
          let count ← force .forceCast (asInt node)
          .ok { state := { app with
                  inventoryItems :=
                    incrementInventory (app.shown cell).key
                      app.inventoryItems }.present
                    StoreTableViewCell.successAlert
                writes := [setValue uid ["inventory", (app.shown cell).key]
                  (Tree.leaf (.int (count + 1)))]
                reads := [] }
        else
          (app.present StoreTableViewCell.errorAlert).done

end WillItRecycle

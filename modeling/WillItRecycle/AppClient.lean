import WillItRecycle.LandScreens
import WillItRecycle.LeavesScreens
import WillItRecycle.SerialRun
import WillItRecycle.SignIn
import WillItRecycle.StoreScreen

/-!
# The app as a client of the database

All taps and callbacks together: the app is a `Client` of the remote records.
A run of `client` is one interleaving of taps, answers and callbacks.
-/

namespace WillItRecycle

open PathTree ReadCallback

/-- What the user, and the table that reuses its cells, can do. -/
inductive Tap where
  | buy (cell : Nat)
  | cellForRow (cell : Nat) (storeItem : ShelfItem)
  | place (key item coordinate : String)
  | remove (coordinate : String)
  | claim (result : String)
  | redeem (quantities : Quantities) (dateString : String) (autoId : Nat → String)
  | signIn (uid : Uid) (displayName : Option String)
  | signOut

/-- The handler of a tap. -/
def Tap.handle [IntRange] : Tap → App → Handled
  | .buy cell => buyOnClick cell
  | .cellForRow cell storeItem => fun app => (app.cellForRow cell storeItem).done
  | .place key item coordinate => onPlacementCompleted key item coordinate
  | .remove coordinate => onRemove coordinate
  | .claim result => claimOnClick result
  | .redeem quantities dateString autoId =>
      redeemButtonPressed quantities dateString autoId
  | .signIn uid displayName => didSignIn uid displayName
  | .signOut => WillItRecycle.signOut

/-- The closure of a read. -/
def Read.callback [IntRange] : Read → Snapshot → App → Handled
  | .buyLeaves uid cell tap => buyLeavesRead uid cell tap
  | .buyInventory uid cell tap _ => buyInventoryRead uid cell tap
  | .placeActive uid key item coordinate => placeActiveRead uid key item coordinate
  | .placeInventory uid key => placeInventoryRead uid key
  | .removeActive uid key coordinate => removeActiveRead uid key coordinate
  | .removeInventory uid key => removeInventoryRead uid key
  | .claimDate uid result => claimDateRead uid result
  | .calculateCurrent uid total => calculateCurrentRead uid total
  | .calculateAllTime uid total => calculateAllTimeRead uid total
  | .redeemUser _ leaves => redeemUserRead leaves
  | .signInName uid displayName => signInNameRead uid displayName
  | .signInInventory _ => signInInventoryRead
  | .signInActive _ => signInActiveRead

def client [IntRange] : Client Remote App Write Read Reply Snapshot Tap Trap where
  apply := Write.apply
  answer := Read.answer
  tap := Tap.handle
  callback := Read.callback

abbrev AppSys := Sys Remote App Read Snapshot

abbrev AppEvent := Event Tap Reply

end WillItRecycle

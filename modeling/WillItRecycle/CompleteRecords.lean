import WillItRecycle.AccountScreens
import WillItRecycle.Dashboard
import WillItRecycle.EventRun

/-!
# Partial records of users

The dashboard casts fields of every user in its query, and Settings those of the
current user, as if a record that exists had them all.  A record is created as a
whole, but the other screens set single fields of `users/<uid>` without looking
whether it is there, and what they set below an absent record is a partial one.

`Touches` lists what a handler can write: nothing, a whole record, a removal, or
one field.  A run keeps all records complete exactly when every field is set
while the record of its user exists (`all_complete_iff`).
-/

namespace WillItRecycle

open PathTree ReadCallback

/-! ## Complete records -/

/-- What the dashboard and Settings cast of a user can be cast. -/
structure CompleteRecord (node : FNode) : Prop extends Listed node where
  currentLeaves : (asInt (node.child "currentLeaves")).isSome

/-- Every record that exists is complete. -/
def AllComplete (remote : Remote) : Prop :=
  ∀ uid, (remote uid).isEmpty = false → CompleteRecord (remote uid)

theorem newRecord_complete (displayName : String) :
    CompleteRecord (newRecord displayName) := by
  constructor
  · constructor <;> simp [newRecord, Tree.child_setChild, asInt, asString]
  · simp [newRecord, Tree.child_setChild, asInt]

/-- A complete record is exported as a dictionary. -/
theorem CompleteRecord.asDictionary {node : FNode} (h : CompleteRecord node) :
    asDictionary node = some node.names :=
  asDictionary_of_asString h.displayName (by decide)

/-- The dashboard can show the user of a complete record. -/
theorem CompleteRecord.currentUserRead {node : FNode} (h : CompleteRecord node)
    (order : List String) (dashboard : DashboardViewController) :
    ∃ shown, WillItRecycle.currentUserRead (.value node order) dashboard = .ok shown := by
  obtain ⟨displayName, hdisplayName⟩ := Option.isSome_iff_exists.mp h.displayName
  obtain ⟨currentLeaves, hcurrent⟩ := Option.isSome_iff_exists.mp h.currentLeaves
  obtain ⟨allTimeLeaves, hallTime⟩ := Option.isSome_iff_exists.mp h.allTimeLeaves
  by_cases hempty : node.isEmpty
  · exact ⟨dashboard, by simp [WillItRecycle.currentUserRead, hempty]⟩
  · simp [WillItRecycle.currentUserRead, hempty, h.asDictionary, hdisplayName,
      hcurrent, hallTime, bind, Except.bind]

/-- No delivery of complete records ends the app of a dashboard that is open. -/
theorem AllComplete.usersObserved {remote : Remote} (h : AllComplete remote)
    {children : List DataSnapshot}
    (hchildren : ∀ snap ∈ children, snap.value = remote snap.key ∧
      (remote snap.key).isEmpty = false) (dashboard : DashboardViewController) :
    ∃ shown, WillItRecycle.usersObserved children dashboard = .ok shown := by
  have hlisted : ∀ snap ∈ children, Listed snap.value := by
    intro snap hmem
    obtain ⟨hvalue, hexists⟩ := hchildren snap hmem
    rw [hvalue]
    exact (h snap.key hexists).toListed
  obtain ⟨shown, hshown, -⟩ := usersObserved_listed hlisted dashboard
  exact ⟨shown, hshown⟩

/-- What may be stored under a name. -/
structure FieldFits (name : String) (value : Value) : Prop where
  string : name = "displayName" → (asString (Tree.leaf value)).isSome
  int : name = "leaderboard" ∨ name = "currentLeaves" ∨ name = "allTimeLeaves" →
    (asInt (Tree.leaf value)).isSome

/-- Setting a field keeps a record complete. -/
theorem CompleteRecord.setChild {node : FNode} (h : CompleteRecord node)
    {name : String} {value : Value} (hfits : FieldFits name value) :
    CompleteRecord (node.setChild name (Tree.leaf value)) := by
  have hint : ∀ field, field = "leaderboard" ∨ field = "currentLeaves" ∨
      field = "allTimeLeaves" → (asInt (node.child field)).isSome →
      (asInt ((node.setChild name (Tree.leaf value)).child field)).isSome := by
    intro field hfield hbefore
    rw [Tree.child_setChild]
    split
    · rename_i heq
      exact hfits.int (heq ▸ hfield)
    · exact hbefore
  have hstring : (asString
      ((node.setChild name (Tree.leaf value)).child "displayName")).isSome := by
    rw [Tree.child_setChild]
    split
    · rename_i heq
      exact hfits.string heq.symm
    · exact h.displayName
  exact ⟨⟨hstring, hint _ (by simp) h.leaderboard, hint _ (by simp) h.allTimeLeaves⟩,
    hint _ (by simp) h.currentLeaves⟩

theorem isEmpty_setChild_leaf (node : FNode) (name : String) (value : Value) :
    (node.setChild name (Tree.leaf value)).isEmpty = false := by
  rw [Tree.isEmpty_eq_false_iff]
  intro hempty
  have hchild := congrArg (fun node => node.child name) hempty
  simp at hchild

/-- One field is no complete record. -/
theorem not_complete_field (name : String) (value : Value) :
    ¬ CompleteRecord (Tree.empty.setChild name (Tree.leaf value)) := by
  intro h
  by_cases hname : name = "displayName"
  · have hother : "leaderboard" ≠ name := by simp [hname]
    have hleaderboard := h.leaderboard
    simp [Tree.child_setChild_ne hother] at hleaderboard
  · have hdisplayName := h.displayName
    simp [Tree.child_setChild_ne (Ne.symm hname), asString] at hdisplayName

/-- A record is replaced by a complete one or removed. -/
theorem AllComplete.update {remote : Remote} (h : AllComplete remote) (uid : Uid)
    {node : FNode} (hnode : node.isEmpty = false → CompleteRecord node) :
    AllComplete (Function.update remote uid node) := by
  intro other hexists
  by_cases hother : other = uid
  · subst hother
    rw [Function.update_self] at hexists ⊢
    exact hnode hexists
  · rw [Function.update_of_ne hother] at hexists ⊢
    exact h other hexists

/-! ## What a handler writes -/

/-- The user, if any, has a record. -/
def HasRecord (owner : Option Uid) (remote : Remote) : Prop :=
  ∀ uid, owner = some uid → (remote uid).isEmpty = false

instance (owner : Option Uid) (remote : Remote) : Decidable (HasRecord owner remote) :=
  match owner with
  | none => isTrue (by simp [HasRecord])
  | some uid => decidable_of_iff ((remote uid).isEmpty = false) (by simp [HasRecord])

/-- What a handler can write; `sets` says whether it sets a field of `owner`. -/
inductive Touches (owner : Option Uid) (sets : Prop) : List Write → Prop
  | nothing (hsets : ¬ sets) : Touches owner sets []
  | record (hsets : ¬ sets) (uid : Uid) (displayName : String) :
      Touches owner sets [setValue uid [] (newRecord displayName)]
  | removal (hsets : ¬ sets) (uid : Uid) : Touches owner sets [removeValue uid []]
  | field (hsets : sets) {uid : Uid} (howner : owner = some uid) {name : String}
      {value : Value} (hname : name ≠ "") (hfits : FieldFits name value) :
      Touches owner sets [setValue uid [name] (Tree.leaf value)]

/-- **Writes keep all records complete exactly when a field finds a record.** -/
theorem Touches.allComplete_iff {owner : Option Uid} {sets : Prop} {ws : List Write}
    (h : Touches owner sets ws) {remote : Remote} (hcomplete : AllComplete remote) :
    AllComplete (accountClient.applyAll ws remote) ↔ (sets → HasRecord owner remote) := by
  cases h with
  | nothing hsets => exact iff_of_true hcomplete (fun hset => absurd hset hsets)
  | record hsets uid displayName =>
      refine iff_of_true ?_ (fun hset => absurd hset hsets)
      exact hcomplete.update uid fun _ => newRecord_complete displayName
  | removal hsets uid =>
      refine iff_of_true ?_ (fun hset => absurd hset hsets)
      refine hcomplete.update uid fun hexists => ?_
      cases hexists
  | @field hsets uid howner name value hname hfits =>
      have happly : accountClient.applyAll [setValue uid [name] (Tree.leaf value)] remote =
          Function.update remote uid ((remote uid).setChild name (Tree.leaf value)) := by
        simp [accountClient, Write.apply, setValue, fpath, hname, Tree.set_cons]
      rw [happly]
      constructor
      · intro hall _ other hother
        obtain rfl : uid = other := Option.some.inj (howner.symm.trans hother)
        by_contra hmissing
        have hempty : remote uid = Tree.empty := by
          rw [← Tree.isEmpty_iff]
          simpa using hmissing
        have hset := hall uid
        rw [Function.update_self, hempty] at hset
        exact not_complete_field name value
          (hset (isEmpty_setChild_leaf Tree.empty name value))
      · intro hfound
        refine hcomplete.update uid fun _ => ?_
        exact (hcomplete uid (hfound hsets uid howner)).setChild hfits

/-! ## What each handler does -/

/-- The taps that set a field of the user who is signed in. -/
def AccountTap.SetsField : AccountTap → Prop
  | .buttonPressed | .appNotifyCancelled | .leaderSettingsSwitched _ _ => True
  | .updateButtonPressed changeUsername => changeUsername ≠ ""
  | .signIn .. | .avatarPicked _ | .settingsWillAppear | .claim _
  | .deleteButtonPressed | .signOut => False

instance : DecidablePred AccountTap.SetsField := fun t =>
  match t with
  | .buttonPressed | .appNotifyCancelled | .leaderSettingsSwitched _ _ => isTrue trivial
  | .updateButtonPressed changeUsername =>
      inferInstanceAs (Decidable (changeUsername ≠ ""))
  | .signIn .. | .avatarPicked _ | .settingsWillAppear | .claim _
  | .deleteButtonPressed | .signOut => isFalse id

/-- The date of the last claim arrived, or that there is none. -/
def Snapshot.HasDate : Snapshot → Prop
  | .error => False
  | .value node _ => node.isEmpty = true ∨ (asString node).isSome = true

/-- A counter arrived, and the reward can be added to it. -/
def Snapshot.HasCounter (total : Int) : Snapshot → Prop
  | .error => False
  | .value node _ => ∃ value ∈ asInt node, FitsInt (value + total)

/-- The callbacks of a claim that set a field. -/
def Read.SetsField : Read → Snapshot → Prop
  | .claimDate .., snapshot => snapshot.HasDate
  | .calculateCurrent _ total, snapshot | .calculateAllTime _ total, snapshot =>
      snapshot.HasCounter total
  | _, _ => False

/-- The callbacks that set a field. -/
def AccountRead.SetsField : AccountRead → AccountAnswer → Prop
  | .database read, answer => read.SetsField answer.snapshot
  | .notificationSettings, answer =>
      answer.authorizationStatus = .authorized ∨ answer.authorizationStatus = .denied
  | .settings _, _ | .deleteUser _, _ => False

instance : DecidablePred Snapshot.HasDate := fun snapshot =>
  match snapshot with
  | .error => isFalse id
  | .value node _ =>
      inferInstanceAs (Decidable (node.isEmpty = true ∨ (asString node).isSome = true))

instance (total : Int) : DecidablePred (Snapshot.HasCounter total) := fun snapshot =>
  match snapshot with
  | .error => isFalse id
  | .value node _ =>
      inferInstanceAs (Decidable (∃ value ∈ asInt node, FitsInt (value + total)))

instance (read : Read) : DecidablePred read.SetsField := fun snapshot =>
  match read with
  | .claimDate .. => inferInstanceAs (Decidable snapshot.HasDate)
  | .calculateCurrent _ total | .calculateAllTime _ total =>
      inferInstanceAs (Decidable (snapshot.HasCounter total))
  | .buyLeaves .. | .buyInventory .. | .placeActive .. | .placeInventory ..
  | .removeActive .. | .removeInventory .. | .redeemUser .. | .signInName ..
  | .signInInventory _ | .signInActive _ => isFalse id

instance (k : AccountRead) : DecidablePred k.SetsField := fun answer =>
  match k with
  | .database read => inferInstanceAs (Decidable (read.SetsField answer.snapshot))
  | .notificationSettings =>
      inferInstanceAs (Decidable
        (answer.authorizationStatus = .authorized ∨ answer.authorizationStatus = .denied))
  | .settings _ | .deleteUser _ => isFalse id

/-- The user whose field a callback sets: the one whose record was read, or for
the notification settings the one who is signed in by then. -/
def AccountRead.owner (state : AccountApp) : AccountRead → Option Uid
  | .database read => some read.uid
  | .settings uid | .deleteUser uid => some uid
  | .notificationSettings => state.currentUser

/-- The reads of the sign-in and of a claim. -/
def Read.OfAccount : Read → Prop
  | .claimDate .. | .calculateCurrent .. | .calculateAllTime .. | .signInName ..
  | .signInInventory _ | .signInActive _ => True
  | _ => False

def AccountRead.OfAccount : AccountRead → Prop
  | .database read => read.OfAccount
  | .settings _ | .notificationSettings | .deleteUser _ => True

/-- What a handler does: it touches records and issues requests of these screens,
and it traps at a field only for want of a user. -/
def Does (owner : Option Uid) (sets : Prop) : AccountHandled → Prop
  | .ok fx => Touches owner sets fx.writes ∧ ∀ k ∈ fx.reads, k.OfAccount
  | .error _ => sets → owner = none

theorem does_done {owner : Option Uid} {sets : Prop} (hsets : ¬ sets)
    (state : AccountApp) : Does owner sets state.done :=
  ⟨.nothing hsets, by simp⟩

theorem does_error {owner : Option Uid} {sets : Prop} (hsets : ¬ sets) (trap : Trap) :
    Does owner sets (.error trap) :=
  fun hset => absurd hset hsets

/-- What may trap sets no field. -/
theorem does_bind {α : Type} {owner : Option Uid} {sets : Prop} (hsets : ¬ sets)
    {x : Except Trap α} {f : α → AccountHandled} (h : ∀ a, Does owner sets (f a)) :
    Does owner sets (x >>= f) := by
  cases x with
  | error trap => exact does_error hsets trap
  | ok a => exact h a

/-- One field of the user who is signed in. -/
theorem does_field {owner : Option Uid} {sets : Prop} (hsets : sets) {name : String}
    {value : Value} (hname : name ≠ "") (hfits : FieldFits name value)
    (state : AccountApp) :
    Does owner sets (do
      let uid ← force .forceUnwrap owner
      .ok ⟨state, [setValue uid [name] (Tree.leaf value)], []⟩) := by
  cases owner with
  | none => exact fun _ => rfl
  | some uid => exact ⟨.field hsets rfl hname hfits, by simp⟩

theorem does_setNotifications {sets : Prop} (hsets : sets) (isOn : Bool)
    (state : AccountApp) :
    Does state.currentUser sets (setNotifications isOn state) :=
  does_field hsets (by decide) ⟨by simp, by simp⟩ _

/-- A handler of the land game. -/
theorem does_lift {owner : Option Uid} {sets : Prop} {fx : Effects App Write Read}
    (hwrites : Touches owner sets fx.writes) (hreads : ∀ k ∈ fx.reads, k.OfAccount)
    (state : AccountApp) : Does owner sets (state.lift (.ok fx)) := by
  refine ⟨hwrites, ?_⟩
  intro k hk
  obtain ⟨read, hread, rfl⟩ := List.mem_map.mp hk
  exact hreads read hread

/-- What every tap does. -/
theorem does_tap (t : AccountTap) (state : AccountApp) :
    Does state.currentUser t.SetsField (t.handle state) := by
  cases t with
  | signIn uid displayName isNewUser =>
      exact does_lift (.nothing id) (by simp [Read.OfAccount]) _
  | avatarPicked sender => exact does_done id _
  | buttonPressed => exact does_field trivial (by decide) ⟨by simp, by simp⟩ _
  | settingsWillAppear =>
      exact does_bind id fun uid => ⟨.nothing id, by simp [AccountRead.OfAccount]⟩
  | appNotifyCancelled => exact does_setNotifications trivial _ state
  | leaderSettingsSwitched isOn yes =>
      exact does_field trivial (by decide) ⟨by simp, fun _ => rfl⟩ _
  | updateButtonPressed changeUsername =>
      by_cases hchanged : changeUsername = ""
      · simp only [AccountTap.handle, updateButtonPressed, hchanged, ne_eq, not_true, if_false]
        exact does_done (fun hset => hset rfl) state
      · simp only [AccountTap.handle, updateButtonPressed, hchanged, ne_eq,
          not_false_eq_true, if_true]
        exact does_field hchanged (by decide) ⟨fun _ => rfl, by simp⟩ _
  | claim result =>
      simp only [AccountTap.handle, claimOnClick]
      cases state.app.currentUser with
      | none => exact does_error id _
      | some uid => exact does_lift (.nothing id) (by simp [Read.OfAccount]) state
  | deleteButtonPressed =>
      exact does_bind id fun uid => ⟨.removal id uid, by simp [AccountRead.OfAccount]⟩
  | signOut => exact does_done id _

/-- The callback on the date of the last claim. -/
theorem does_claimDate (uid : Uid) (result : String) (snapshot : Snapshot)
    (state : AccountApp) :
    Does (some uid) ((Read.claimDate uid result).SetsField snapshot)
      (state.lift (claimDateRead uid result snapshot state.app)) := by
  have hfits : FieldFits "lastVisitedDate" (.string result) := ⟨fun _ => rfl, by simp⟩
  have hcalculate : ∀ k ∈ calculate uid state.app, k.OfAccount := by
    simp [calculate, Read.OfAccount]
  cases snapshot with
  | error => exact does_done id state
  | value node order =>
      simp only [claimDateRead]
      by_cases hempty : node.isEmpty
      · rw [if_pos hempty]
        exact does_lift (.field (Or.inl hempty) rfl (by decide) hfits) hcalculate state
      · rw [if_neg hempty]
        cases hdate : asString node with
        | none => exact does_error (by simp [Read.SetsField, Snapshot.HasDate, hempty, hdate]) _
        | some lastVisitedDate =>
            have hsets : (Read.claimDate uid result).SetsField (.value node order) :=
              Or.inr (by simp [hdate])
            by_cases hnew : lastVisitedDate ≠ result
            · simp only [force_some, bind, Except.bind, if_pos hnew]
              exact does_lift (.field hsets rfl (by decide) hfits) hcalculate state
            · simp only [force_some, bind, Except.bind, if_neg hnew]
              exact does_lift (.field hsets rfl (by decide) hfits) (by simp) state

/-- The callbacks on the counters. -/
theorem does_addToCounter (uid : Uid) {counter : String}
    (hcounter : counter = "currentLeaves" ∨ counter = "allTimeLeaves") (total : Int)
    (snapshot : Snapshot) (state : AccountApp) :
    Does (some uid) (snapshot.HasCounter total)
      (state.lift (addToCounter uid counter total snapshot state.app)) := by
  have hname : counter ≠ "" ∧ counter ≠ "displayName" := by
    rcases hcounter with rfl | rfl <;> decide
  cases snapshot with
  | error => exact does_done id state
  | value node order =>
      simp only [addToCounter]
      by_cases hempty : node.isEmpty
      · rw [if_pos hempty]
        obtain rfl := Tree.isEmpty_iff.mp hempty
        exact does_done (by simp [Snapshot.HasCounter]) state
      · rw [if_neg hempty]
        cases hvalue : asInt node with
        | none => exact does_error (by simp [Snapshot.HasCounter, hvalue]) _
        | some value =>
            by_cases hsum : FitsInt (value + total)
            · have hsets : (Snapshot.value node order).HasCounter total := by
                simp [Snapshot.HasCounter, hvalue, hsum]
              have hfits : FieldFits counter (.int (value + total)) :=
                ⟨fun heq => absurd heq hname.2, fun _ => rfl⟩
              simp only [force_some, intResult_of_fits hsum, bind, Except.bind]
              exact does_lift (.field hsets rfl hname.1 hfits) (by simp) state
            · simp only [force_some, intResult_of_not_fits hsum, bind, Except.bind]
              exact does_error (by simp [Snapshot.HasCounter, hvalue, hsum]) _

/-- The callbacks that load the local lists. -/
theorem does_load {α : Type} {owner : Option Uid} {sets : Prop} (hsets : ¬ sets)
    (node : FNode) (loaded : Except Trap α) (f : α → App) (state : AccountApp) :
    Does owner sets (state.lift
      (if node.isEmpty then state.app.done
        else do
          let items ← loaded
          (f items).done)) := by
  by_cases hempty : node.isEmpty
  · rw [if_pos hempty]
    exact does_done hsets state
  · rw [if_neg hempty]
    cases loaded with
    | error trap => exact does_error hsets trap
    | ok items => exact does_done hsets _

/-- What the callbacks of the sign-in and of a claim do. -/
theorem does_database {read : Read} (hread : read.OfAccount) (snapshot : Snapshot)
    (state : AccountApp) :
    Does (some read.uid) (read.SetsField snapshot)
      (state.lift (read.callback snapshot state.app)) := by
  cases read with
  | claimDate uid result => exact does_claimDate uid result snapshot state
  | calculateCurrent uid total =>
      exact does_addToCounter uid (Or.inl rfl) total snapshot state
  | calculateAllTime uid total =>
      exact does_addToCounter uid (Or.inr rfl) total snapshot state
  | signInName uid displayName =>
      cases snapshot with
      | error => exact does_done id state
      | value node order =>
          simp only [Read.callback, signInNameRead]
          by_cases hempty : node.isEmpty
          · rw [if_pos hempty]
            cases displayName with
            | none => exact does_error id _
            | some displayName => exact does_lift (.record id uid displayName) (by simp) state
          · rw [if_neg hempty]
            exact does_lift (.nothing id) (by simp [Read.OfAccount]) state
  | signInInventory uid =>
      cases snapshot with
      | error => exact does_done id state
      | value node order => exact does_load id node _ _ state
  | signInActive uid =>
      cases snapshot with
      | error => exact does_done id state
      | value node order => exact does_load id node _ _ state
  | _ => cases hread

/-- The callback on the user's record in Settings. -/
theorem does_settings (owner : Option Uid) (snapshot : Snapshot) (state : AccountApp) :
    Does owner False (settingsRead snapshot state) := by
  cases snapshot with
  | error => exact does_done id state
  | value node order =>
      simp only [settingsRead]
      by_cases hempty : node.isEmpty
      · rw [if_pos hempty]
        exact does_done id state
      · rw [if_neg hempty]
        cases asDictionary node with
        | none => exact does_done id state
        | some keys =>
            refine does_bind id fun avatarImage => ?_
            refine does_bind id fun currentLeaves => ?_
            refine does_bind id fun displayName => ?_
            refine does_bind id fun leaderboard => ?_
            exact ⟨.nothing id, by simp [AccountRead.OfAccount]⟩

/-- What every callback does. -/
theorem does_callback {k : AccountRead} (hk : k.OfAccount) (answer : AccountAnswer)
    (state : AccountApp) :
    Does (k.owner state) (k.SetsField answer) (k.callback answer state) := by
  cases k with
  | database read => exact does_database hk answer.snapshot state
  | settings uid => exact does_settings (some uid) answer.snapshot state
  | notificationSettings =>
      obtain ⟨snapshot, authorizationStatus, deleted⟩ := answer
      cases authorizationStatus with
      | authorized => exact does_setNotifications (Or.inl rfl) true state
      | denied => exact does_setNotifications (Or.inr rfl) false state
      | notDetermined | provisional | ephemeral =>
          exact does_done (by simp [AccountRead.SetsField]) state
  | deleteUser uid =>
      simp only [AccountRead.callback, deleteUserRead]
      split
      · exact does_done id _
      · exact does_done id state

/-! ## Runs -/

/-- A callback that sets a field finds the record of the user it is set for. -/
def AccountRead.FindsRecord (k : AccountRead) (answer : AccountAnswer) (remote : Remote)
    (state : AccountApp) : Prop :=
  k.SetsField answer → HasRecord (k.owner state) remote

/-- A step that sets a field finds the record of the user it is set for. -/
def FindsRecord (s : AccountSys) (e : AccountEvent) : Prop :=
  match e with
  | .tap t => t.SetsField → HasRecord s.state.currentUser s.remote
  | .answer _ _ => True
  | .serve i => ServeMeets AccountRead.FindsRecord s (.serve i : AccountEvent)

instance (k : AccountRead) (answer : AccountAnswer) (remote : Remote)
    (state : AccountApp) : Decidable (k.FindsRecord answer remote state) :=
  inferInstanceAs (Decidable (k.SetsField answer → HasRecord (k.owner state) remote))

instance (s : AccountSys) (e : AccountEvent) : Decidable (FindsRecord s e) :=
  match e with
  | .tap t => inferInstanceAs (Decidable (t.SetsField → HasRecord s.state.currentUser s.remote))
  | .answer _ _ => isTrue trivial
  | .serve i =>
      inferInstanceAs (Decidable (ServeMeets AccountRead.FindsRecord s (.serve i : AccountEvent)))

theorem findsRecord_serve {s : AccountSys} {i : Nat} {k : AccountRead}
    {answer : AccountAnswer} (hindex : s.pending[i]? = some ⟨k, some answer⟩) :
    FindsRecord s (.serve i) ↔
      (k.SetsField answer → HasRecord (k.owner s.state) s.remote) :=
  serveMeets_serve hindex

/-- What one step does to the records. -/
theorem step_complete_iff {s s' : AccountSys} {e : AccountEvent}
    (hreads : ∀ k ∈ s.reads, k.OfAccount) (hcomplete : AllComplete s.remote)
    (hstep : accountClient.step s e = .ok s') :
    (∀ k ∈ s'.reads, k.OfAccount) ∧ (AllComplete s'.remote ↔ FindsRecord s e) := by
  have hmove := accountClient.step_cases hstep
  generalize accountClient.entry s e = o at hmove
  cases hmove with
  | @tap t fx hrun =>
      have hdoes := does_tap t s.state
      rw [show t.handle s.state = .ok fx from hrun] at hdoes
      obtain ⟨hwrites, hissued⟩ := hdoes
      refine ⟨?_, hwrites.allComplete_iff hcomplete⟩
      rw [Client.reads_perform]
      exact List.forall_mem_append.mpr ⟨hreads, hissued⟩
  | @answer k before after hpending info =>
      refine ⟨?_, iff_of_true hcomplete trivial⟩
      simpa [Sys.reads, hpending] using hreads
  | @serve k answer before after hpending fx hrun =>
      have hk : k.OfAccount := hreads k (by simp [Sys.reads, hpending])
      have hdoes := does_callback hk answer s.state
      rw [show k.callback answer s.state = .ok fx from hrun] at hdoes
      obtain ⟨hwrites, hissued⟩ := hdoes
      have hindex : s.pending[before.length]? = some ⟨k, some answer⟩ := by
        simp [hpending]
      refine ⟨?_, (hwrites.allComplete_iff hcomplete).trans (findsRecord_serve hindex).symm⟩
      rw [Client.reads_perform]
      refine List.forall_mem_append.mpr ⟨?_, hissued⟩
      intro k' hk'
      obtain ⟨p, hp, rfl⟩ := List.mem_map.mp hk'
      exact hreads _ (List.mem_map_of_mem (Client.mem_pending_of_rest hpending p hp))
  | idleAnswer hidle info => exact ⟨hreads, iff_of_true hcomplete trivial⟩
  | idleServe hidle => exact ⟨hreads, iff_of_true hcomplete (serveMeets_of_idle hidle)⟩

/-- A step that traps sets no field of a user without a record. -/
theorem findsRecord_of_trap {s : AccountSys} {e : AccountEvent} {trap : Trap}
    (hreads : ∀ k ∈ s.reads, k.OfAccount)
    (hstep : accountClient.step s e = .error trap) : FindsRecord s e := by
  cases e with
  | tap t =>
      intro hsets uid huser
      have hdoes := does_tap t s.state
      cases hrun : t.handle s.state with
      | error err =>
          rw [hrun] at hdoes
          simp [hdoes hsets] at huser
      | ok fx =>
          have hok : accountClient.tap t s.state = .ok fx := hrun
          simp [Client.step, hok, Except.map] at hstep
  | answer i info => trivial
  | serve i =>
      intro i' k answer he hindex hsets uid howner
      obtain rfl := Event.serve.inj he
      have hk : k.OfAccount := by
        obtain ⟨before, after, hpending, -⟩ := Client.split_of_getElem? hindex
        exact hreads k (by simp [Sys.reads, hpending])
      have hdoes := does_callback hk answer s.state
      cases hrun : k.callback answer s.state with
      | error err =>
          rw [hrun] at hdoes
          simp [hdoes hsets] at howner
      | ok fx =>
          have hok : accountClient.callback k answer s.state = .ok fx := hrun
          simp [Client.step, hindex, hok, Except.map] at hstep

/-- **All records stay complete exactly when every field finds its record**: in
every run, for any order of taps, answers and callbacks. -/
theorem all_complete_iff {s : AccountSys} (hidle : s.pending = [])
    (hcomplete : AllComplete s.remote) (es : List AccountEvent) :
    EventRun.Always accountClient.step (fun s => AllComplete s.remote) s es ↔
      EventRun.Along accountClient.step FindsRecord s es := by
  refine EventRun.always_iff accountClient.step (fun s => ∀ k ∈ s.reads, k.OfAccount)
    ?_ ?_ es s (by simp [Sys.reads, hidle]) hcomplete
  · intro s e s' hreads hcomplete hstep
    exact step_complete_iff hreads hcomplete hstep
  · intro s e trap hreads hstep
    exact findsRecord_of_trap hreads hstep

/-- Nobody has an account yet. -/
def noUsers : Remote := fun _ => Tree.empty

theorem noUsers_complete : AllComplete noUsers := by
  intro uid hexists
  simp [noUsers] at hexists

/-- A request succeeds, on a device that allows notifications. -/
def succeeds : AccountReply := ⟨.value [], .authorized, true⟩

/-- Ann signs in, waits for her record, uses every screen and deletes her account. -/
theorem all_complete_ann :
    EventRun.Always accountClient.step (fun s => AllComplete s.remote)
      (launched noUsers)
      [ .tap (.signIn "ann" (some "Ann") true), .answer 0 succeeds, .serve 0,
        .tap (.avatarPicked ⟨3, by decide⟩), .tap .buttonPressed,
        .tap .settingsWillAppear, .answer 0 succeeds, .serve 0, .answer 0 succeeds, .serve 0,
        .tap (.leaderSettingsSwitched false true), .tap (.updateButtonPressed "Anna"),
        .tap (.claim "1/1/22"), .answer 0 succeeds, .serve 0,
        .answer 0 succeeds, .serve 0, .answer 0 succeeds, .serve 0,
        .tap .deleteButtonPressed, .answer 0 succeeds, .serve 0, .tap .signOut ] :=
  (all_complete_iff rfl noUsers_complete _).mpr (by decide +kernel)

/-- A new user chooses an avatar before the sign-in has created the record: the
record is the avatar alone. -/
theorem not_all_complete :
    ¬ ∀ s : AccountSys, s.pending = [] → AllComplete s.remote → ∀ es : List AccountEvent,
        EventRun.Always accountClient.step (fun s => AllComplete s.remote) s es := by
  intro hall
  have hrun : ∃ s, EventRun.run accountClient.step (launched noUsers)
      [.tap (.signIn "ann" (some "Ann") true), .tap .buttonPressed] = .ok s ∧
      (s.remote "ann").isEmpty = false ∧
      asString ((s.remote "ann").child "displayName") = none :=
    EventRun.exists_run_of_check accountClient.step (by decide +kernel)
  obtain ⟨s, hrun, hexists, hunnamed⟩ := hrun
  have hcomplete : AllComplete s.remote :=
    (hall (launched noUsers) rfl noUsers_complete _).last accountClient.step hrun
  have hname := (hcomplete "ann" hexists).displayName
  rw [hunnamed] at hname
  cases hname

end WillItRecycle

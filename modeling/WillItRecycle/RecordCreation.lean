import WillItRecycle.CompleteRecords

/-!
# The record of a new user

A sign-in reads `displayName` and opens the next screen without waiting for the
answer.  When the answer is that there is none, the callback writes the whole
record, over whatever the user has set meanwhile; and a display name set meanwhile
keeps it from writing the record at all.

The record ends up with the defaults and the user's last choices exactly when what
is set before the record is created is set again afterwards, or is its default
(`keeps_choices_iff`).  What is set is what the user chooses: `AccountTap.choice` says
which field a tap sets and to what, and `lastSet_tap` that this is what the code writes.
-/

namespace WillItRecycle

open PathTree ReadCallback

/-! ## The writes -/

/-- The value last set below a name. -/
def lastSet (name : String) (ws : List Write) : Option FNode :=
  (ws.filter fun write => write.path = [name]).getLast?.map Write.value

/-- The writes since the whole record was last written, if it was. -/
def sinceCreation : List Write → Option (List Write)
  | [] => none
  | write :: ws =>
      match sinceCreation ws with
      | some after => some after
      | none => if write.path = [] then some ws else none

/-- A single field, or the new record. -/
inductive WrittenMeanwhile (uid : Uid) (displayName : String) : Write → Prop
  | field {name : String} (hname : name ≠ "") (value : Value) :
      WrittenMeanwhile uid displayName (setValue uid [name] (Tree.leaf value))
  | record : WrittenMeanwhile uid displayName (setValue uid [] (newRecord displayName))

theorem lastSet_snoc (name : String) (ws : List Write) (write : Write) :
    lastSet name (ws ++ [write]) =
      if write.path = [name] then some write.value else lastSet name ws := by
  unfold lastSet
  rw [List.filter_append]
  by_cases hpath : write.path = [name]
  · simp [hpath]
  · simp [hpath]

theorem sinceCreation_snoc (ws : List Write) (write : Write) :
    sinceCreation (ws ++ [write]) =
      if write.path = [] then some []
      else (sinceCreation ws).map fun after => after ++ [write] := by
  induction ws with
  | nil => simp [sinceCreation]
  | cons first ws ih =>
      rw [List.cons_append, sinceCreation, ih]
      by_cases hpath : write.path = []
      · simp [hpath]
      · cases hafter : sinceCreation ws with
        | none => simp [sinceCreation, hpath, hafter]
        | some after => simp [sinceCreation, hpath, hafter]

/-- What was set since the record was created was set last. -/
theorem lastSet_of_sinceCreation {name : String} {value : FNode} {ws after : List Write}
    (hafter : sinceCreation ws = some after) (hset : lastSet name after = some value) :
    lastSet name ws = some value := by
  induction ws using List.reverseRecOn generalizing after with
  | nil => cases hafter
  | append_singleton ws write ih =>
      rw [sinceCreation_snoc] at hafter
      by_cases hpath : write.path = []
      · rw [if_pos hpath] at hafter
        obtain rfl := Option.some.inj hafter
        cases hset
      · rw [if_neg hpath] at hafter
        obtain ⟨before, hbefore, rfl⟩ := Option.map_eq_some_iff.mp hafter
        rw [lastSet_snoc] at hset ⊢
        by_cases hname : write.path = [name]
        · rw [if_pos hname] at hset ⊢
          exact hset
        · rw [if_neg hname] at hset ⊢
          exact ih hbefore hset

/-- A field of the record after such writes. -/
theorem child_written {uid : Uid} {displayName : String} {ws : List Write}
    (hws : ∀ write ∈ ws, WrittenMeanwhile uid displayName write) (remote : Remote)
    (name : String) :
    (accountClient.applyAll ws remote uid).child name =
      match sinceCreation ws with
      | some after => (lastSet name after).getD ((newRecord displayName).child name)
      | none => (lastSet name ws).getD ((remote uid).child name) := by
  induction ws using List.reverseRecOn with
  | nil => rfl
  | append_singleton ws write ih =>
      have hbefore := ih fun other hother => hws other (List.mem_append_left _ hother)
      rw [accountClient.applyAll_append, sinceCreation_snoc, lastSet_snoc]
      cases hws write (by simp) with
      | record =>
          have hpath : (setValue uid [] (newRecord displayName)).path = [] := rfl
          rw [if_pos hpath]
          simp [accountClient, Write.apply, setValue, fpath, lastSet]
      | @field field hname value =>
          have hpath : (setValue uid [field] (Tree.leaf value)).path = [field] := by
            simp [setValue, fpath, hname]
          have hchild : (accountClient.applyAll [setValue uid [field] (Tree.leaf value)]
              (accountClient.applyAll ws remote) uid).child name =
              if field = name then Tree.leaf value
              else (accountClient.applyAll ws remote uid).child name := by
            simp [accountClient, Write.apply, setValue, fpath, hname, Tree.set_cons,
              Tree.child_setChild, eq_comm]
          have hvalue : (setValue uid [field] (Tree.leaf value)).value = Tree.leaf value := rfl
          rw [hchild, hpath, hbefore, if_neg (List.cons_ne_nil field []), hvalue]
          by_cases hfield : field = name
          · subst hfield
            cases sinceCreation ws with
            | none => simp
            | some after => simp [lastSet_snoc, hpath, hvalue]
          · have hother : [field] ≠ [name] := by simpa using hfield
            cases sinceCreation ws with
            | none => simp [hfield, hother]
            | some after => simp [hfield, lastSet_snoc, hpath]

/-! ## What is claimed, and when -/

/-- The record holds what was set last, and the default where nothing was set. -/
def KeepsChoices (displayName : String) (ws : List Write) (node : FNode) : Prop :=
  ∀ name, (∀ value, lastSet name ws = some value → node.child name = value) ∧
    (lastSet name ws = none → name ∈ (newRecord displayName).names →
      node.child name = (newRecord displayName).child name)

/-- A field set before the record is created is set again afterwards, or was last
set to its default; without a creation, the defaults that are not set are there. -/
def CreatedInTurn (displayName : String) (ws : List Write) (node : FNode) : Prop :=
  match sinceCreation ws with
  | some after => ∀ name value, lastSet name after = none → lastSet name ws = some value →
      value = (newRecord displayName).child name
  | none => ∀ name ∈ (newRecord displayName).names, lastSet name ws = none →
      node.child name = (newRecord displayName).child name

theorem keepsChoices_iff_of_written {uid : Uid} {displayName : String} {ws : List Write}
    (hws : ∀ write ∈ ws, WrittenMeanwhile uid displayName write) (remote : Remote) :
    KeepsChoices displayName ws (accountClient.applyAll ws remote uid) ↔
      CreatedInTurn displayName ws (remote uid) := by
  unfold KeepsChoices CreatedInTurn
  simp only [child_written hws remote]
  cases hafter : sinceCreation ws with
  | none =>
      constructor
      · intro h name hname hnone
        simpa [hnone] using (h name).2 hnone hname
      · intro h name
        refine ⟨?_, ?_⟩
        · intro value hset
          simp [hset]
        · intro hnone hname
          simpa [hnone] using h name hname hnone
  | some after =>
      constructor
      · intro h name value hnone hset
        simpa [hnone] using ((h name).1 value hset).symm
      · intro h name
        cases hlast : lastSet name after with
        | some value =>
            have hset := lastSet_of_sinceCreation hafter hlast
            simp [hset, hlast]
        | none =>
            simp only [hlast, Option.getD_none]
            refine ⟨?_, by simp⟩
            intro value hset
            exact (h name value hlast hset).symm

/-- When the record is created first, nothing is lost. -/
theorem createdInTurn_of_first {displayName : String} {ws : List Write}
    (hfirst : ws.head?.map Write.path = some []) (honce : (sinceCreation ws.tail).isNone)
    (node : FNode) : CreatedInTurn displayName ws node := by
  cases ws with
  | nil => cases hfirst
  | cons write ws =>
      have hpath : write.path = [] := by simpa using hfirst
      have hnone : sinceCreation ws = none := by simpa using honce
      have hlast : ∀ name, lastSet name (write :: ws) = lastSet name ws := by
        intro name
        simp [lastSet, hpath]
      unfold CreatedInTurn
      rw [sinceCreation, hnone, if_pos hpath]
      intro name value hunset hset
      rw [hlast, hunset] at hset
      cases hset

/-! ## The screens opened meanwhile -/

/-- The taps of the avatar screen and of Settings, without the deletion. -/
def AccountTap.Meanwhile : AccountTap → Prop
  | .avatarPicked _ | .buttonPressed | .settingsWillAppear | .appNotifyCancelled
  | .leaderSettingsSwitched _ _ | .updateButtonPressed _ => True
  | .signIn .. | .claim _ | .deleteButtonPressed | .signOut => False

instance : DecidablePred AccountTap.Meanwhile := fun t =>
  match t with
  | .avatarPicked _ | .buttonPressed | .settingsWillAppear | .appNotifyCancelled
  | .leaderSettingsSwitched _ _ | .updateButtonPressed _ => isTrue trivial
  | .signIn .. | .claim _ | .deleteButtonPressed | .signOut => isFalse id

/-- The requests of these screens and of the sign-in. -/
inductive AccountRead.Meanwhile (uid : Uid) (displayName : String) : AccountRead → Prop
  | name : Meanwhile uid displayName (.database (.signInName uid (some displayName)))
  | inventory : Meanwhile uid displayName (.database (.signInInventory uid))
  | active : Meanwhile uid displayName (.database (.signInActive uid))
  | settings (other : Uid) : Meanwhile uid displayName (.settings other)
  | notifications : Meanwhile uid displayName .notificationSettings

/-- What these screens do. -/
def DoesMeanwhile (uid : Uid) (displayName : String) : AccountHandled → Prop
  | .ok fx => fx.state.currentUser = some uid ∧
      (∀ write ∈ fx.writes, WrittenMeanwhile uid displayName write) ∧
      ∀ k ∈ fx.reads, k.Meanwhile uid displayName
  | .error _ => True

section Does

variable {uid : Uid} {displayName : String} {state : AccountApp}
  (huser : state.currentUser = some uid)
include huser

theorem doesMeanwhile_done : DoesMeanwhile uid displayName state.done :=
  ⟨huser, by simp, by simp⟩

theorem doesMeanwhile_field {name : String} (hname : name ≠ "") (value : Value)
    {state' : AccountApp} (hsame : state'.currentUser = state.currentUser) :
    DoesMeanwhile uid displayName (do
      let uid ← force .forceUnwrap state.currentUser
      .ok ⟨state', [setValue uid [name] (Tree.leaf value)], []⟩) := by
  rw [huser] at hsame ⊢
  refine ⟨hsame, ?_, by simp⟩
  intro write hwrite
  obtain rfl := List.mem_singleton.mp hwrite
  exact .field hname value

theorem doesMeanwhile_tap {t : AccountTap} (ht : t.Meanwhile) :
    DoesMeanwhile uid displayName (t.handle state) := by
  cases t with
  | avatarPicked sender => exact doesMeanwhile_done huser
  | buttonPressed => exact doesMeanwhile_field huser (by decide) _ rfl
  | settingsWillAppear =>
      simp only [AccountTap.handle, populateSettings, huser]
      exact ⟨huser, by simp, by simp [AccountRead.Meanwhile.settings]⟩
  | appNotifyCancelled => exact doesMeanwhile_field huser (by decide) _ rfl
  | leaderSettingsSwitched isOn yes => exact doesMeanwhile_field huser (by decide) _ rfl
  | updateButtonPressed changeUsername =>
      simp only [AccountTap.handle, updateButtonPressed]
      split
      · exact doesMeanwhile_field huser (by decide) _ rfl
      · exact doesMeanwhile_done huser
  | signIn _ _ _ | claim _ | deleteButtonPressed | signOut => cases ht

omit huser in
theorem doesMeanwhile_bind {α : Type} {x : Except Trap α} {f : α → AccountHandled}
    (h : ∀ a, DoesMeanwhile uid displayName (f a)) :
    DoesMeanwhile uid displayName (x >>= f) := by
  cases x with
  | error trap => trivial
  | ok a => exact h a

omit huser in
theorem doesMeanwhile_lift {fx : Effects App Write Read} (hsame : fx.state.currentUser = some uid)
    (hwrites : ∀ write ∈ fx.writes, WrittenMeanwhile uid displayName write)
    (hreads : ∀ k ∈ fx.reads, AccountRead.Meanwhile uid displayName (.database k)) :
    DoesMeanwhile uid displayName (state.lift (.ok fx)) := by
  refine ⟨hsame, hwrites, ?_⟩
  intro k hk
  obtain ⟨read, hread, rfl⟩ := List.mem_map.mp hk
  exact hreads read hread

theorem doesMeanwhile_name (snapshot : Snapshot) :
    DoesMeanwhile uid displayName
      (state.lift (signInNameRead uid (some displayName) snapshot state.app)) := by
  cases snapshot with
  | error => exact doesMeanwhile_lift huser (by simp) (by simp)
  | value node order =>
      simp only [signInNameRead]
      split
      · exact doesMeanwhile_lift huser (by simp [WrittenMeanwhile.record]) (by simp)
      · refine doesMeanwhile_lift huser (by simp) ?_
        simp [AccountRead.Meanwhile.inventory, AccountRead.Meanwhile.active]

/-- A callback that loads a local list. -/
theorem doesMeanwhile_load {α : Type} (node : FNode) (loaded : Except Trap α) {f : α → App}
    (hsame : ∀ items, (f items).currentUser = some uid) :
    DoesMeanwhile uid displayName (state.lift
      (if node.isEmpty then state.app.done
        else do
          let items ← loaded
          (f items).done)) := by
  split
  · exact doesMeanwhile_lift huser (by simp) (by simp)
  · cases loaded with
    | error trap => trivial
    | ok items => exact doesMeanwhile_lift (hsame items) (by simp) (by simp)

theorem doesMeanwhile_settings (snapshot : Snapshot) :
    DoesMeanwhile uid displayName (settingsRead snapshot state) := by
  cases snapshot with
  | error => exact doesMeanwhile_done huser
  | value node order =>
      simp only [settingsRead]
      split
      · exact doesMeanwhile_done huser
      · cases asDictionary node with
        | none => exact doesMeanwhile_done huser
        | some keys =>
            refine doesMeanwhile_bind fun avatarImage => ?_
            refine doesMeanwhile_bind fun currentLeaves => ?_
            refine doesMeanwhile_bind fun name => ?_
            refine doesMeanwhile_bind fun leaderboard => ?_
            exact ⟨huser, by simp, by simp [AccountRead.Meanwhile.notifications]⟩

theorem doesMeanwhile_callback {k : AccountRead} (hk : k.Meanwhile uid displayName)
    (answer : AccountAnswer) : DoesMeanwhile uid displayName (k.callback answer state) := by
  cases hk with
  | name => exact doesMeanwhile_name huser answer.snapshot
  | inventory =>
      change DoesMeanwhile uid displayName
        (state.lift (signInInventoryRead answer.snapshot state.app))
      cases answer.snapshot with
      | error => exact doesMeanwhile_lift huser (by simp) (by simp)
      | value node order => exact doesMeanwhile_load huser node _ fun _ => huser
  | active =>
      change DoesMeanwhile uid displayName
        (state.lift (signInActiveRead answer.snapshot state.app))
      cases answer.snapshot with
      | error => exact doesMeanwhile_lift huser (by simp) (by simp)
      | value node order => exact doesMeanwhile_load huser node _ fun _ => huser
  | settings other => exact doesMeanwhile_settings huser answer.snapshot
  | notifications =>
      obtain ⟨snapshot, authorizationStatus, deleted⟩ := answer
      cases authorizationStatus with
      | authorized | denied => exact doesMeanwhile_field huser (by decide) _ rfl
      | notDetermined | provisional | ephemeral => exact doesMeanwhile_done huser

end Does

/-! ## The choices -/

/-- What the user sets with a tap of the avatar screen or of Settings, and to what: the
picture last picked, the switch left as it is, the side of the alert answered, the name
typed. -/
def AccountTap.choice (state : AccountApp) : AccountTap → Option (String × Value)
  | .buttonPressed => some ("avatar", .string (imageNames.get state.selectedButton))
  | .appNotifyCancelled => some ("notifications", .bool state.notifications)
  | .leaderSettingsSwitched isOn yes =>
      some ("leaderboard", .bool (if isOn then yes else !yes))
  | .updateButtonPressed changeUsername =>
      if changeUsername ≠ "" then some ("displayName", .string changeUsername) else none
  | .avatarPicked _ | .settingsWillAppear | .signIn .. | .claim _ | .deleteButtonPressed
  | .signOut => none

/-- What the permission of the system sets when Settings appear: it is the user's answer to
the system, where there was one. -/
def AuthorizationStatus.choice : AuthorizationStatus → Option (String × Value)
  | .authorized => some ("notifications", .bool true)
  | .denied => some ("notifications", .bool false)
  | .notDetermined | .provisional | .ephemeral => none

/-- A choice is of a field of the record. -/
theorem choice_ne_empty {state : AccountApp} {t : AccountTap} {choice : String × Value}
    (h : t.choice state = some choice) : choice.1 ≠ "" := by
  cases t with
  | buttonPressed | appNotifyCancelled | leaderSettingsSwitched _ _ =>
      obtain rfl := Option.some.inj h
      simp
  | updateButtonPressed changeUsername =>
      simp only [AccountTap.choice, Option.ite_none_right_eq_some] at h
      obtain rfl := Option.some.inj h.2
      simp
  | _ => cases h

/-- The writes that set a choice. -/
def choiceWrites (uid : Uid) (choice : Option (String × Value)) : List Write :=
  (choice.map fun chosen => setValue uid [chosen.1] (Tree.leaf chosen.2)).toList

/-- A tap of these screens writes its choice and nothing else. -/
theorem tap_writes_choice {uid : Uid} {state : AccountApp}
    (huser : state.currentUser = some uid) {t : AccountTap} (ht : t.Meanwhile) :
    ∃ fx, t.handle state = .ok fx ∧ fx.writes = choiceWrites uid (t.choice state) := by
  cases t with
  | avatarPicked sender => exact ⟨_, rfl, rfl⟩
  | buttonPressed =>
      simp only [AccountTap.handle, buttonPressed, huser]
      exact ⟨_, rfl, rfl⟩
  | settingsWillAppear =>
      simp only [AccountTap.handle, populateSettings, huser]
      exact ⟨_, rfl, rfl⟩
  | appNotifyCancelled =>
      simp only [AccountTap.handle, appNotifyCancelled, setNotifications, huser]
      exact ⟨_, rfl, rfl⟩
  | leaderSettingsSwitched isOn yes =>
      simp only [AccountTap.handle, leaderSettingsSwitched, huser]
      exact ⟨_, rfl, rfl⟩
  | updateButtonPressed changeUsername =>
      simp only [AccountTap.handle, updateButtonPressed, AccountTap.choice, huser]
      split
      · exact ⟨_, rfl, rfl⟩
      · exact ⟨_, rfl, rfl⟩
  | signIn _ _ _ | claim _ | deleteButtonPressed | signOut => cases ht

/-- The closure of `getNotificationSettings` writes what the system permits. -/
theorem notificationSettings_writes_choice {uid : Uid} {state : AccountApp}
    (huser : state.currentUser = some uid) (status : AuthorizationStatus) :
    ∃ fx, notificationSettingsRead status state = .ok fx ∧
      fx.writes = choiceWrites uid status.choice := by
  cases status with
  | authorized | denied =>
      simp only [notificationSettingsRead, setNotifications, huser]
      exact ⟨_, rfl, rfl⟩
  | notDetermined | provisional | ephemeral => exact ⟨_, rfl, rfl⟩

/-- So what was last set under a name is the user's last choice of it. -/
theorem lastSet_choiceWrites (uid : Uid) (ws : List Write) {field : String}
    (hfield : field ≠ "") (value : Value) (name : String) :
    lastSet name (ws ++ choiceWrites uid (some (field, value))) =
      if field = name then some (Tree.leaf value) else lastSet name ws := by
  have hpath : (setValue uid [field] (Tree.leaf value)).path = [field] := by
    simp [setValue, fpath, hfield]
  have hvalue : (setValue uid [field] (Tree.leaf value)).value = Tree.leaf value := rfl
  rw [choiceWrites, Option.map_some, Option.toList_some, lastSet_snoc, hpath, hvalue]
  simp

/-- **The user's choice.**  After a tap of these screens, what was last set is what the tap
chose, and under the other names what was last set before. -/
theorem lastSet_tap {uid : Uid} {state : AccountApp}
    (huser : state.currentUser = some uid) {t : AccountTap} (ht : t.Meanwhile)
    (ws : List Write) (name : String) :
    ∃ fx, t.handle state = .ok fx ∧ lastSet name (ws ++ fx.writes) =
      match t.choice state with
      | some (field, value) =>
          if field = name then some (Tree.leaf value) else lastSet name ws
      | none => lastSet name ws := by
  obtain ⟨fx, hfx, hwrites⟩ := tap_writes_choice huser ht
  refine ⟨fx, hfx, ?_⟩
  rw [hwrites]
  cases hchoice : t.choice state with
  | none => simp [choiceWrites]
  | some choice =>
      have hfield : choice.1 ≠ "" := choice_ne_empty hchoice
      exact lastSet_choiceWrites uid ws hfield choice.2 name

/-! ## Runs -/

/-- While a user signs in and uses these screens. -/
structure Creating (uid : Uid) (displayName : String) (s : AccountSys) : Prop where
  currentUser : s.state.currentUser = some uid
  reads : ∀ k ∈ s.reads, k.Meanwhile uid displayName

theorem Creating.perform {uid : Uid} {displayName : String} {s : AccountSys}
    (h : Creating uid displayName s) {rest : List (Pending AccountRead AccountAnswer)}
    (hrest : ∀ p ∈ rest, p ∈ s.pending) {fx : Effects AccountApp Write AccountRead}
    (hdoes : DoesMeanwhile uid displayName (.ok fx)) :
    Creating uid displayName (accountClient.perform s rest fx) := by
  refine ⟨hdoes.1, ?_⟩
  rw [Client.reads_perform]
  refine List.forall_mem_append.mpr ⟨?_, hdoes.2.2⟩
  intro k hk
  obtain ⟨p, hp, rfl⟩ := List.mem_map.mp hk
  exact h.reads _ (List.mem_map_of_mem (hrest p hp))

/-- All code run writes single fields or the new record. -/
theorem Creating.written {uid : Uid} {displayName : String} {s' : AccountSys}
    (es : List AccountEvent) :
    ∀ {s : AccountSys}, Creating uid displayName s → (∀ t ∈ taps es, t.Meanwhile) →
      accountClient.run s es = .ok s' →
      ∀ write ∈ Client.writes (accountClient.trace s es),
        WrittenMeanwhile uid displayName write := by
  induction es with
  | nil =>
      intro s _ _ _ write hwrite
      cases hwrite
  | cons e es ih =>
      intro s h htaps hrun
      obtain ⟨middle, hmid, hrest⟩ := accountClient.run_cons_ok hrun
      have hmove := accountClient.step_cases hmid
      rw [accountClient.trace_cons_of_step hmid, Client.writes, List.flatMap_append]
      refine List.forall_mem_append.mpr ?_
      generalize accountClient.entry s e = o at hmove ⊢
      cases hmove with
      | @tap t fx htap =>
          obtain ⟨ht, htaps'⟩ := List.forall_mem_cons.mp htaps
          have hdoes : DoesMeanwhile uid displayName (t.handle s.state) :=
            doesMeanwhile_tap h.currentUser ht
          rw [show t.handle s.state = .ok fx from htap] at hdoes
          refine ⟨by simpa [Entry.effects] using hdoes.2.1, ?_⟩
          exact ih (h.perform (fun _ hp => hp) hdoes) htaps' hrest
      | @answer k before after hpending info =>
          refine ⟨by simp, ih ⟨h.currentUser, ?_⟩ htaps hrest⟩
          simpa [Sys.reads, hpending] using h.reads
      | @serve k answer before after hpending fx hcall =>
          have hk := h.reads k (by simp [Sys.reads, hpending])
          have hdoes := doesMeanwhile_callback h.currentUser hk answer
          rw [show k.callback answer s.state = .ok fx from hcall] at hdoes
          refine ⟨by simpa [Entry.effects] using hdoes.2.1, ?_⟩
          exact ih (h.perform (Client.mem_pending_of_rest hpending) hdoes) htaps hrest
      | idleAnswer hidle info => exact ⟨by simp, ih h htaps hrest⟩
      | idleServe hidle => exact ⟨by simp, ih h htaps hrest⟩

/-- **The user's choices survive the creation of the record** exactly when those
made before it are made again afterwards, or are the defaults: in every run of a
sign-in, its callbacks and the screens opened meanwhile. -/
theorem keeps_choices_iff {uid : Uid} {displayName : String} {isNewUser : Bool}
    {remote : Remote} {state : AccountApp} {es : List AccountEvent}
    (htaps : ∀ t ∈ taps es, t.Meanwhile) {s' : AccountSys}
    (hrun : accountClient.run ⟨remote, state, []⟩
      (.tap (.signIn uid (some displayName) isNewUser) :: es) = .ok s') :
    KeepsChoices displayName
        (Client.writes (accountClient.trace ⟨remote, state, []⟩
          (.tap (.signIn uid (some displayName) isNewUser) :: es))) (s'.remote uid) ↔
      CreatedInTurn displayName
        (Client.writes (accountClient.trace ⟨remote, state, []⟩
          (.tap (.signIn uid (some displayName) isNewUser) :: es))) (remote uid) := by
  rw [accountClient.remote_of_run _ hrun]
  refine keepsChoices_iff_of_written ?_ remote
  obtain ⟨middle, hmid, hrest⟩ := accountClient.run_cons_ok hrun
  have hstart : Creating uid displayName middle := by
    obtain rfl := Except.ok.inj hmid
    refine ⟨rfl, ?_⟩
    intro k hk
    obtain rfl := List.mem_singleton.mp hk
    exact .name
  rw [accountClient.trace_cons_of_step hmid, Client.writes, List.flatMap_append]
  refine List.forall_mem_append.mpr ⟨?_, Creating.written es hstart htaps hrest⟩
  intro write hwrite
  cases hwrite

/-- A new user waits for the record, picks the cat and changes the name. -/
def patientAnn : List AccountEvent :=
  [ .answer 0 succeeds, .serve 0, .tap (.avatarPicked ⟨3, by decide⟩), .tap .buttonPressed,
    .tap .settingsWillAppear, .answer 0 succeeds, .serve 0, .answer 0 succeeds, .serve 0,
    .tap (.updateButtonPressed "Anna") ]

theorem keeps_choices_patient :
    ∃ s', accountClient.run (launched noUsers)
        (.tap (.signIn "ann" (some "Ann") true) :: patientAnn) = .ok s' ∧
      KeepsChoices "Ann" (Client.writes (accountClient.trace (launched noUsers)
        (.tap (.signIn "ann" (some "Ann") true) :: patientAnn))) (s'.remote "ann") := by
  obtain ⟨s', hrun, -⟩ : ∃ s', accountClient.run (launched noUsers)
      (.tap (.signIn "ann" (some "Ann") true) :: patientAnn) = .ok s' ∧ True :=
    accountClient.exists_run_of_check (by decide +kernel)
  refine ⟨s', hrun, (keeps_choices_iff (by decide) hrun).mpr ?_⟩
  exact createdInTurn_of_first (by decide +kernel) (by decide +kernel) _

/-- A new user picks the first avatar before the record is created, and it is gone. -/
theorem not_keeps_choices :
    ¬ ∀ (uid : Uid) (displayName : String) (isNewUser : Bool) (remote : Remote)
        (state : AccountApp) (es : List AccountEvent),
        (remote uid).child "displayName" = Tree.empty → (∀ t ∈ taps es, t.Meanwhile) →
        ∀ s', accountClient.run ⟨remote, state, []⟩
            (.tap (.signIn uid (some displayName) isNewUser) :: es) = .ok s' →
          s'.pending = [] →
          KeepsChoices displayName (Client.writes (accountClient.trace ⟨remote, state, []⟩
            (.tap (.signIn uid (some displayName) isNewUser) :: es))) (s'.remote uid) := by
  intro hall
  obtain ⟨s', hrun, hidle, hgone⟩ : ∃ s', accountClient.run (launched noUsers)
      (.tap (.signIn "ann" (some "Ann") true) ::
        [.tap .buttonPressed, .answer 0 succeeds, .serve 0]) = .ok s' ∧
      s'.pending.isEmpty ∧ ((s'.remote "ann").child "avatar").isEmpty :=
    accountClient.exists_run_of_check (by decide +kernel)
  have hkeeps := hall "ann" "Ann" true noUsers (launched noUsers).state
    [.tap .buttonPressed, .answer 0 succeeds, .serve 0] rfl (by decide) s' hrun
    (List.isEmpty_iff.mp hidle)
  have hchosen : (lastSet "avatar" (Client.writes (accountClient.trace (launched noUsers)
      (.tap (.signIn "ann" (some "Ann") true) ::
        [.tap .buttonPressed, .answer 0 succeeds, .serve 0])))).any
      (fun value => !value.isEmpty) = true := by
    decide +kernel
  obtain ⟨value, hset, hsome⟩ := (Option.any_eq_true _ _).mp hchosen
  rw [(hkeeps "avatar").1 value hset] at hgone
  simp [hgone] at hsome

end WillItRecycle

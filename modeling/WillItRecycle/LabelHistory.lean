import WillItRecycle.Purchase
import WillItRecycle.RunHistory
import WillItRecycle.TabSerial

/-!
# The labels never show a number that was not there

Taps, answers and callbacks may overlap in any way, and a label may then show an old
number.  As long as no cell of the store is used for another row before the block of its
purchase has run, no label shows a number that the wallet did not have at some time of
the run (`labels_show_held`): a refreshed label shows an answer, which was the wallet
when it was given, and CLAIM and BUY show what they have written.  A cell that is used
again has another cost, and the block would subtract that one.
-/

namespace WillItRecycle

open PathTree ReadCallback

/-- The wallet holds a number. -/
def WalletIs (uid : Uid) (leaves : Int) (s : TabSys) : Prop :=
  asInt ((s.remote uid).child "currentLeaves") = some leaves

/-- The text of a label before it has been refreshed, or a number seen in the wallet. -/
def KnownText (seen : Int → Prop) (text : String) : Prop :=
  text = leavesText 0 ∨ ∃ leaves, seen leaves ∧ text = leavesText leaves

structure KnownLabels (uid : Uid) (seen : Int → Prop) (tab : GameTab) : Prop where
  user : tab.user = uid
  currentUser : tab.app.currentUser = some uid
  land : KnownText seen tab.leavesLabel
  store : ∀ screen, tab.screen = .store screen → KnownText seen screen.leavesLabel

/-- A read of the account, and not one that would create it. -/
def OfAccount (uid : Uid) : TabRead → Prop
  | .app read => read.uid = uid ∧ read.creates = false
  | .refreshLeaves uid' _ => uid' = uid
  | .displayLeaves _ _ _ => True

/-- The cell whose item a block is going to use. -/
def TabRead.blockOf : TabRead → Option Nat
  | .displayLeaves _ cell _ => some cell
  | _ => none

/-- No cell is used for another row while a block of it waits for the main queue. -/
def KeepsCells (s : TabSys) (e : TabEvent) : Prop :=
  match e with
  | .tap (.storeCellForRow (some cell) _) => ∀ k ∈ s.reads, k.blockOf ≠ some cell
  | _ => True

instance (s : TabSys) (e : TabEvent) : Decidable (KeepsCells s e) := by
  unfold KeepsCells
  split <;> infer_instance

/-- An answer that a label is refreshed with has been seen in the wallet. -/
def SeenAnswer (seen : Int → Prop) (read : TabRead) (snapshot : Snapshot) : Prop :=
  ∀ uid view node order leaves, read = .refreshLeaves uid view →
    snapshot = .value node order → asInt node = some leaves → seen leaves

/-- A block that waits will show a number that has been seen in the wallet. -/
def SeenBlocks (seen : Int → Prop) (reads : List TabRead) (tab : GameTab) : Prop :=
  ∀ storeVC cell value, .displayLeaves storeVC cell value ∈ reads →
    tab.delegates[cell]? = some storeVC ∧ seen (value - (tab.app.shown cell).cost)

/-- What is known while reads and blocks are pending. -/
structure LabelsSeen (uid : Uid) (seen : Int → Prop) (s : TabSys) : Prop where
  inFlight :
    Client.InFlight (fun _ => True) (KnownLabels uid seen) (OfAccount uid) (SeenAnswer seen) s
  blocks : SeenBlocks seen s.reads s.state

section Labels

variable {uid : Uid} {seen : Int → Prop} {tab : GameTab} {range : String → String → Bool}

theorem KnownText.mono {seen' : Int → Prop} {text : String} (h : KnownText seen text)
    (hmono : ∀ leaves, seen leaves → seen' leaves) : KnownText seen' text := by
  rcases h with hinitial | ⟨leaves, hseen, htext⟩
  · exact Or.inl hinitial
  · exact Or.inr ⟨leaves, hmono leaves hseen, htext⟩

theorem KnownLabels.mono {seen' : Int → Prop} (h : KnownLabels uid seen tab)
    (hmono : ∀ leaves, seen leaves → seen' leaves) : KnownLabels uid seen' tab :=
  ⟨h.user, h.currentUser, h.land.mono hmono,
    fun screen hscreen => (h.store screen hscreen).mono hmono⟩

theorem LabelsSeen.mono {seen' : Int → Prop} {s : TabSys} (h : LabelsSeen uid seen s)
    (hmono : ∀ leaves, seen leaves → seen' leaves) : LabelsSeen uid seen' s := by
  refine ⟨⟨trivial, h.inFlight.state.mono hmono, h.inFlight.read, ?_⟩, ?_⟩
  · intro p hp snapshot hsnapshot uid' view node order leaves hread hvalue hleaves
    exact hmono leaves
      (h.inFlight.answer p hp snapshot hsnapshot uid' view node order leaves hread hvalue hleaves)
  · intro storeVC cell value hmem
    exact ⟨(h.blocks storeVC cell value hmem).1, hmono _ (h.blocks storeVC cell value hmem).2⟩

theorem KnownLabels.setLeaves (h : KnownLabels uid seen tab) {text : String}
    (htext : KnownText seen text) (view : LeavesView) :
    KnownLabels uid seen (tab.setLeaves view text) := by
  unfold GameTab.setLeaves
  split
  · exact ⟨h.user, h.currentUser, htext, h.store⟩
  · split
    · refine ⟨h.user, h.currentUser, h.land, ?_⟩
      intro screen hscreen
      obtain rfl := Screen.store.inj hscreen
      exact htext
    · exact h
  · exact h

theorem KnownLabels.withApp (h : KnownLabels uid seen tab) {app : App}
    (hsame : app.currentUser = tab.app.currentUser) :
    KnownLabels uid seen { tab with app := app } :=
  ⟨h.user, hsame.trans h.currentUser, h.land, h.store⟩

/-! ## Taps -/

/-- What a tap of the app leaves of the user and the cells, and whom it reads about. -/
theorem Tap.handle_user {tap : Tap} (hsignIn : ∀ uid name, tap ≠ .signIn uid name)
    (hsignOut : tap ≠ .signOut) {app : App} {fx : Effects App Write Read}
    (hfx : tap.handle app = .ok fx) :
    fx.state.currentUser = app.currentUser ∧
      (∀ cell, (∀ storeItem, tap ≠ .cellForRow cell storeItem) →
        fx.state.shown cell = app.shown cell) ∧
      ∀ read ∈ fx.reads, app.currentUser = some read.uid ∧ read.creates = false := by
  have hforce : ∀ {f : Uid → Handled}, (force .forceUnwrap app.currentUser >>= f) = .ok fx →
      ∃ uid, app.currentUser = some uid ∧ f uid = .ok fx := by
    intro f hf
    cases huser : app.currentUser with
    | none => simp [huser, bind, Except.bind] at hf
    | some uid => exact ⟨uid, rfl, by simpa [huser, bind, Except.bind] using hf⟩
  cases tap with
  | buy cell =>
      obtain ⟨uid, huser, hrun⟩ := hforce hfx
      obtain rfl := Except.ok.inj hrun
      exact ⟨rfl, fun _ _ => rfl, by simp [Read.uid, Read.creates, huser]⟩
  | cellForRow cell storeItem =>
      obtain rfl := Except.ok.inj hfx
      refine ⟨rfl, fun other hother => ?_, by simp⟩
      have hne : other ≠ cell := fun hsame => hother storeItem (hsame ▸ rfl)
      simp [App.shown, App.cellForRow, Function.update_of_ne hne]
  | place key item coordinate =>
      by_cases hne : coordinate ≠ ""
      · simp only [Tap.handle, onPlacementCompleted, if_pos hne] at hfx
        obtain ⟨uid, huser, hrun⟩ := hforce hfx
        obtain rfl := Except.ok.inj hrun
        exact ⟨rfl, fun _ _ => rfl, by simp [Read.uid, Read.creates, huser]⟩
      · simp only [Tap.handle, onPlacementCompleted, if_neg hne] at hfx
        obtain rfl := Except.ok.inj hfx
        exact ⟨rfl, fun _ _ => rfl, by simp⟩
  | remove coordinate =>
      by_cases hne : coordinate ≠ ""
      · simp only [Tap.handle, onRemove, if_pos hne] at hfx
        obtain ⟨uid, huser, hrun⟩ := hforce hfx
        obtain rfl := Except.ok.inj hrun
        exact ⟨rfl, fun _ _ => rfl, by simp [Read.uid, Read.creates, huser]⟩
      · simp only [Tap.handle, onRemove, if_neg hne] at hfx
        obtain rfl := Except.ok.inj hfx
        exact ⟨rfl, fun _ _ => rfl, by simp⟩
  | claim result =>
      obtain ⟨uid, huser, hrun⟩ := hforce hfx
      obtain rfl := Except.ok.inj hrun
      exact ⟨rfl, fun _ _ => rfl, by simp [Read.uid, Read.creates, huser]⟩
  | redeem quantities dateString autoId =>
      obtain ⟨uid, huser, -⟩ := hforce hfx
      simp only [Tap.handle] at hfx
      rw [redeemButtonPressed_eq huser] at hfx
      split at hfx
      · obtain rfl := Except.ok.inj hfx
        refine ⟨rfl, fun _ _ => rfl, fun read hread => ?_⟩
        dsimp only at hread
        split at hread
        · cases hread
        · obtain rfl := List.mem_singleton.mp hread
          exact ⟨huser, rfl⟩
      · cases hfx
  | signIn uid name => exact absurd rfl (hsignIn uid name)
  | signOut => exact absurd rfl hsignOut

/-- The screens do not sign in or out. -/
theorem appTap_signedIn {tap : GameTap} {appTap : Tap} (h : tab.appTap tap = some appTap) :
    (∀ uid name, appTap ≠ .signIn uid name) ∧ appTap ≠ .signOut := by
  unfold GameTab.appTap at h
  split at h
  · cases hscreen : tab.screen with
    | land =>
        rw [hscreen] at h
        cases tap with
        | claimOnClick result =>
            obtain rfl := Option.some.inj h
            simp
        | _ => cases h
    | store screen =>
        rw [hscreen] at h
        cases tap with
        | storeCellForRow reused index =>
            simp only [Option.bind_eq_bind, Option.bind_eq_some_iff] at h
            obtain ⟨storeItem, -, cell, -, h⟩ := h
            obtain rfl := Option.some.inj h
            simp
        | buyOnClick cell =>
            simp only at h
            split at h
            · obtain rfl := Option.some.inj h
              simp
            · cases h
        | _ => cases h
    | inventory screen =>
        rw [hscreen] at h
        cases tap <;> cases h
    | placementGrid screen grid =>
        rw [hscreen] at h
        cases tap with
        | onPlacementCompleted =>
            obtain rfl := Option.some.inj h
            simp
        | _ => cases h
    | removeItem screen =>
        rw [hscreen] at h
        cases tap with
        | onRemove =>
            obtain rfl := Option.some.inj h
            simp
        | _ => cases h
  · cases tap with
    | redeem quantities dateString autoId =>
        obtain rfl := Option.some.inj h
        simp
    | _ => cases h

/-- A row of the store is asked for in the cell that is bound. -/
theorem cellUsed_of_appTap {tap : GameTap} {cell : Nat} {storeItem : ShelfItem}
    (h : tab.appTap tap = some (.cellForRow cell storeItem)) :
    ∃ reused index screen, tap = .storeCellForRow reused index ∧
      tab.cellUsed reused screen = some cell := by
  unfold GameTab.appTap at h
  split at h
  · cases hscreen : tab.screen with
    | store screen =>
        rw [hscreen] at h
        cases tap with
        | storeCellForRow reused index =>
            simp only [Option.bind_eq_bind, Option.bind_eq_some_iff] at h
            obtain ⟨item, -, used, hused, h⟩ := h
            obtain ⟨rfl, -⟩ := Tap.cellForRow.inj (Option.some.inj h)
            exact ⟨reused, index, screen, rfl, hused⟩
        | buyOnClick other =>
            simp only at h
            split at h <;> cases h
        | _ => cases h
    | _ =>
        rw [hscreen] at h
        cases tap <;> cases h
  · cases tap <;> cases h

theorem cellUsed_some {other cell : Nat} {screen : StoreViewController}
    (h : tab.cellUsed (some other) screen = some cell) : other = cell := by
  unfold GameTab.cellUsed at h
  dsimp only at h
  split at h
  · exact Option.some.inj h
  · cases h

/-- What a tap does to the labels and the cells. -/
structure LabelFrame (tab : GameTab) (fx : Effects GameTab Write TabRead) : Prop where
  user : fx.state.user = tab.user
  land : fx.state.leavesLabel = tab.leavesLabel
  store : ∀ screen', fx.state.screen = .store screen' → screen'.leavesLabel = leavesText 0 ∨
    ∃ screen, tab.screen = .store screen ∧ screen'.leavesLabel = screen.leavesLabel
  reads : ∀ k ∈ fx.reads, (∃ read, k = .app read) ∨ ∃ view, k = .refreshLeaves tab.user view
  delegates : tab.delegates <+: fx.state.delegates

/-- Code that does no more to the labels. -/
def Frames (tab : GameTab) (handled : TabHandled) : Prop :=
  ∀ fx, handled = .ok fx → LabelFrame tab fx

theorem frames_done {next : GameTab} (huser : next.user = tab.user)
    (hland : next.leavesLabel = tab.leavesLabel) (hdelegates : tab.delegates <+: next.delegates)
    (hstore : ∀ screen', next.screen = .store screen' → screen'.leavesLabel = leavesText 0 ∨
      ∃ screen, tab.screen = .store screen ∧ screen'.leavesLabel = screen.leavesLabel) :
    Frames tab next.done := by
  intro fx hfx
  obtain rfl := Except.ok.inj hfx
  exact ⟨huser, hland, hstore, by simp, hdelegates⟩

/-- The screen on top has no label, or the one it had. -/
theorem frames_same : Frames tab tab.done :=
  frames_done rfl rfl List.prefix_rfl fun screen' hscreen' => Or.inr ⟨screen', hscreen', rfl⟩

theorem frames_lift (handled : Handled) : Frames tab (tab.lift handled) := by
  intro fx hfx
  obtain ⟨fx', -, rfl⟩ := lift_ok hfx
  refine ⟨rfl, rfl, fun screen' hscreen' => Or.inr ⟨screen', hscreen', rfl⟩, ?_,
    List.prefix_rfl⟩
  intro k hk
  obtain ⟨read, -, rfl⟩ := List.mem_map.mp hk
  exact Or.inl ⟨read, rfl⟩

theorem Frames.map {handled : TabHandled} (h : Frames tab handled)
    {next : Effects GameTab Write TabRead → Effects GameTab Write TabRead}
    (hnext : ∀ fx, LabelFrame tab fx → LabelFrame tab (next fx)) :
    Frames tab (handled.map next) := by
  intro fx hfx
  cases handled with
  | error trap => cases hfx
  | ok fx' =>
      obtain rfl := Except.ok.inj hfx
      exact hnext fx' (h fx' rfl)

theorem Frames.ite {p : Prop} [Decidable p] {yes no : TabHandled} (hyes : Frames tab yes)
    (hno : Frames tab no) : Frames tab (if p then yes else no) := by
  split
  · exact hyes
  · exact hno

theorem frames_row {α : Type} {items : List α} {index : Nat} {f : α → TabHandled}
    (h : ∀ item, Frames tab (f item)) : Frames tab (GameTab.row items index >>= f) := by
  intro fx hfx
  obtain ⟨item, hitem⟩ := row_bind_ok hfx
  exact h item fx hitem

theorem frames_pop : Frames tab (GameTab.shown tab.pop) := by
  intro fx hfx
  obtain rfl := Except.ok.inj hfx
  refine ⟨rfl, rfl, ?_, ?_, List.prefix_rfl⟩
  · intro screen' hscreen'
    cases hscreen'
  · intro k hk
    exact Or.inr ⟨.land, List.mem_singleton.mp hk⟩

/-- A tab that shows the same screen, once it appears. -/
theorem frame_viewWillAppear (tab : GameTab) :
    LabelFrame tab ⟨tab.viewWillAppear.1, [], tab.viewWillAppear.2⟩ := by
  have hread : ∀ (label : LeavesView) (k : TabRead), k ∈ [TabRead.refreshLeaves tab.user label] →
      (∃ read, k = .app read) ∨ ∃ view, k = .refreshLeaves tab.user view :=
    fun label k hk => Or.inr ⟨label, List.mem_singleton.mp hk⟩
  unfold GameTab.viewWillAppear
  cases hscreen : tab.screen with
  | land =>
      refine ⟨rfl, rfl, ?_, hread _, List.prefix_rfl⟩
      intro screen' hscreen'
      have hland : tab.landWillAppear.1.screen = .land := hscreen
      rw [hland] at hscreen'
      cases hscreen'
  | store screen =>
      refine ⟨rfl, rfl, ?_, hread _, List.prefix_rfl⟩
      intro screen' hscreen'
      obtain rfl := Screen.store.inj hscreen'
      exact Or.inr ⟨screen, hscreen, rfl⟩
  | inventory screen => exact ⟨rfl, rfl, fun _ hscreen' => Screen.noConfusion hscreen', by simp,
      List.prefix_rfl⟩
  | removeItem screen => exact ⟨rfl, rfl, fun _ hscreen' => Screen.noConfusion hscreen', by simp,
      List.prefix_rfl⟩
  | placementGrid screen grid =>
      refine ⟨rfl, rfl, fun screen' hscreen' => ?_, by simp, List.prefix_rfl⟩
      rw [hscreen] at hscreen'
      cases hscreen'

theorem frames_enter : Frames tab (GameTab.shown tab.enter) := by
  intro fx hfx
  obtain rfl := Except.ok.inj hfx
  unfold GameTab.enter
  dsimp only
  split
  · obtain ⟨huser, hland, hstore, hreads, hdelegates⟩ :=
      frame_viewWillAppear { tab with selected := true }
    exact ⟨huser, hland, hstore, hreads, hdelegates⟩
  · obtain ⟨huser, hland, hstore, hreads, hdelegates⟩ :=
      frame_viewWillAppear (GameTab.landDidLoad { tab with selected := true }).1
    refine ⟨huser, hland, hstore, ?_, hdelegates⟩
    intro k hk
    rcases List.mem_append.mp hk with hk | hk
    · exact Or.inr ⟨.land, List.mem_singleton.mp hk⟩
    · exact hreads k hk

/-- **A tap** shows no number; it leaves a label as it is, or opens a store. -/
theorem handle_frames (tap : GameTap) : Frames tab (tap.handle range tab) := by
  have hleave : Frames tab (GameTap.leave tab) :=
    frames_done rfl rfl List.prefix_rfl fun screen' hscreen' => Or.inr ⟨screen', hscreen', rfl⟩
  have hinventory : ∀ screen, Frames tab (GameTab.done { tab with screen := .inventory screen }) :=
    fun screen => frames_done rfl rfl List.prefix_rfl fun _ hscreen' => Screen.noConfusion hscreen'
  have hgrid : ∀ screen grid,
      Frames tab (GameTab.done { tab with screen := .placementGrid screen grid }) :=
    fun screen grid =>
      frames_done rfl rfl List.prefix_rfl fun _ hscreen' => Screen.noConfusion hscreen'
  have hremove : ∀ screen, Frames tab (GameTab.done { tab with screen := .removeItem screen }) :=
    fun screen => frames_done rfl rfl List.prefix_rfl fun _ hscreen' => Screen.noConfusion hscreen'
  unfold GameTap.handle
  split
  · cases hscreen : tab.screen with
    | land =>
        cases tap with
        | claimOnClick result => exact frames_lift _
        | openStore =>
            intro fx hfx
            obtain rfl := Except.ok.inj hfx
            refine ⟨rfl, rfl, ?_, ?_, List.prefix_rfl⟩
            · intro screen' hscreen'
              obtain rfl := Screen.store.inj hscreen'
              exact Or.inl rfl
            · intro k hk
              rcases List.mem_pair.mp hk with rfl | rfl
              · exact Or.inr ⟨_, rfl⟩
              · exact Or.inr ⟨_, rfl⟩
        | openInventory => exact hinventory _
        | openRemoveItem => exact hremove _
        | leaveTab => exact hleave
        | _ => exact frames_same
    | store screen =>
        -- the table of the store changes, its label does not
        have hstore : ∀ next : GameTab, ∀ shown, next.user = tab.user →
            next.leavesLabel = tab.leavesLabel → next.screen = .store shown →
            shown.leavesLabel = screen.leavesLabel → tab.delegates <+: next.delegates →
            Frames tab next.done := by
          intro next shown huser hland hnext hlabel hdelegates
          refine frames_done huser hland hdelegates fun screen' hscreen' =>
            Or.inr ⟨screen, hscreen, ?_⟩
          rw [hnext] at hscreen'
          rw [← Screen.store.inj hscreen', hlabel]
        cases tap with
        | back => exact frames_pop
        | textDidChange searchText => exact hstore _ _ rfl rfl rfl rfl List.prefix_rfl
        | searchBarCancelButtonClicked => exact hstore _ _ rfl rfl rfl rfl List.prefix_rfl
        | storeCellForRow reused index =>
            refine .ite (frames_row fun storeItem => ?_) frames_same
            cases reused with
            | none => exact hstore _ _ rfl rfl rfl rfl (List.prefix_append _ _)
            | some cell => exact .ite (hstore _ _ rfl rfl rfl rfl List.prefix_rfl) frames_same
        | buyOnClick cell => exact .ite (frames_lift _) frames_same
        | leaveTab => exact hleave
        | _ => exact frames_same
    | inventory screen =>
        cases tap with
        | back => exact frames_pop
        | inventoryCellForRow index =>
            exact .ite (frames_row fun inventoryItem => hinventory _) frames_same
        | onPlaceItem index =>
            simp only [GameTap.onInventory]
            split
            · exact hgrid _ _
            · exact frames_same
        | leaveTab => exact hleave
        | _ => exact frames_same
    | placementGrid screen grid =>
        cases tap with
        | onSelectButton button => exact .ite (hgrid _ _) frames_same
        | onPlacementCompleted =>
            refine (frames_lift _).map fun fx hframe => ?_
            split
            · exact ⟨hframe.user, hframe.land, fun _ hscreen' => Screen.noConfusion hscreen',
                hframe.reads, hframe.delegates⟩
            · exact hframe
        | onBackButtonPressed => exact hinventory _
        | _ => exact frames_same
    | removeItem screen =>
        cases tap with
        | back => exact frames_pop
        | removeItemCellForRow index =>
            exact .ite (frames_row fun coordinate => hremove _) frames_same
        | didSelectRow index =>
            exact .ite (frames_row fun coordinate => hremove _) frames_same
        | onRemove =>
            refine (frames_lift _).map fun fx hframe => ?_
            split
            · refine ⟨hframe.user, hframe.land, fun _ hscreen' => Screen.noConfusion hscreen', ?_,
                hframe.delegates⟩
              intro k hk
              rcases List.mem_append.mp hk with hk | hk
              · exact hframe.reads k hk
              · exact Or.inr ⟨.land, hframe.user ▸ List.mem_singleton.mp hk⟩
            · exact hframe
        | leaveTab => exact hleave
        | _ => exact frames_same
  · cases tap with
    | enterTab => exact frames_enter
    | redeem quantities dateString autoId => exact frames_lift _
    | _ => exact frames_same

/-- What a tap leaves of the user, and whom it reads about. -/
theorem handle_user {tap : GameTap} {fx : Effects GameTab Write TabRead}
    (hfx : tap.handle range tab = .ok fx) (hcurrent : tab.app.currentUser = some uid)
    (huser : tab.user = uid) :
    fx.state.app.currentUser = some uid ∧ ∀ read ∈ fx.reads, OfAccount uid read := by
  have happ : fx.state.app.currentUser = some uid ∧
      ∀ read, .app read ∈ fx.reads → OfAccount uid (.app read) := by
    have hmem : ∀ read, TabRead.app read ∈ fx.reads →
        read ∈ (appOfTab.effects fx).reads :=
      fun read hread => List.mem_filterMap.mpr ⟨.app read, hread, rfl⟩
    cases htap : tab.appTap tap with
    | none =>
        have hquiet := (GameTap.quiet_of_appTap htap).effects hfx
        rw [hquiet] at hmem
        have hstate : fx.state.app = tab.app := congrArg Effects.state hquiet
        exact ⟨hstate ▸ hcurrent, fun read hread => absurd (hmem read hread) List.not_mem_nil⟩
    | some appTap =>
        obtain ⟨hsignIn, hsignOut⟩ := appTap_signedIn htap
        have hcode := ok_of_map_toOption (GameTap.handle_appTap htap) hfx
        obtain ⟨hsame, -, hreads⟩ := Tap.handle_user hsignIn hsignOut hcode
        refine ⟨hsame.trans hcurrent, fun read hread => ?_⟩
        obtain ⟨hof, hcreates⟩ := hreads read (hmem read hread)
        exact ⟨Option.some.inj (hof.symm.trans hcurrent), hcreates⟩
  refine ⟨happ.1, fun read hread => ?_⟩
  cases read with
  | app read => exact happ.2 read hread
  | refreshLeaves uid' view =>
      rcases (handle_frames tap fx hfx).reads _ hread with ⟨read, heq⟩ | ⟨label, heq⟩
      · cases heq
      · exact (TabRead.refreshLeaves.inj heq).1.trans huser
  | displayLeaves storeVC cell value => trivial

/-! ## Callbacks -/

/-- A number that a callback of the app shows is the one it writes. -/
theorem shown_written {read : Read} (huid : read.uid = uid) {snapshot : Snapshot}
    {fx : Effects App Write Read} (hrun : read.callback snapshot tab.app = .ok fx)
    (remote : Remote) :
    read.shown snapshot tab = tab ∨ ∃ view leaves,
      read.shown snapshot tab = tab.setLeaves view (leavesText leaves) ∧
        asInt ((client.applyAll fx.writes remote uid).child "currentLeaves") =
          some leaves := by
  cases read with
  | calculateCurrent uid' total =>
      obtain rfl : uid' = uid := huid
      cases snapshot with
      | error => exact Or.inl rfl
      | value node order =>
          simp only [Read.shown, calculateShown]
          cases hnode : asInt node with
          | none => exact Or.inl rfl
          | some value =>
              simp only [Read.callback, calculateCurrentRead] at hrun
              obtain rfl := addToCounter_ok hnode hrun
              refine Or.inr ⟨.land, _, rfl, ?_⟩
              rw [child_setCounter uid' (by decide)]
              rfl
  | _ => exact Or.inl rfl

/-- A block is left to show the number that the callback writes. -/
theorem blocks_written {read : Read} (huid : read.uid = uid) {snapshot : Snapshot}
    {fx : Effects App Write Read} (hrun : read.callback snapshot tab.app = .ok fx)
    (remote : Remote) {storeVC cell : Nat} {value : Int}
    (hmem : .displayLeaves storeVC cell value ∈ read.blocks snapshot tab) :
    tab.delegates[cell]? = some storeVC ∧
      asInt ((client.applyAll fx.writes remote uid).child "currentLeaves") =
        some (value - (tab.app.shown cell).cost) := by
  rcases read.blocks_cases snapshot tab with
    hnone | ⟨uid', cell', tapped, node, order, storeVC', value', rfl, rfl, hnode, hcost,
      hdelegate, hone⟩
  · rw [hnone] at hmem
    cases hmem
  · rw [hone, List.mem_singleton] at hmem
    obtain ⟨rfl, rfl, rfl⟩ := TabRead.displayLeaves.inj hmem
    obtain rfl : uid' = uid := huid
    refine ⟨hdelegate, ?_⟩
    have hcode := buyLeavesRead_int hnode uid' cell tapped order tab.app
    obtain rfl := Except.ok.inj (hcode.symm.trans hrun)
    simp only [chargeWrites, if_pos hcost]
    rw [child_setCounter uid' (by decide)]
    rfl

/-- **A callback** of the app shows what the wallet then is. -/
theorem KnownLabels.served (h : KnownLabels uid seen tab) {read : Read}
    (hread : OfAccount uid (.app read)) {snapshot : Snapshot} {fx : Effects App Write Read}
    (hrun : read.callback snapshot tab.app = .ok fx) {remote : Remote}
    (hseen : ∀ leaves, asInt ((client.applyAll fx.writes remote uid).child "currentLeaves") =
      some leaves → seen leaves) :
    KnownLabels uid seen { read.shown snapshot tab with app := fx.state } := by
  have hsame := (callback_grows read snapshot tab.app fx hrun).currentUser
  rcases shown_written hread.1 hrun remote with hshown | ⟨view, leaves, hshown, hleaves⟩
  · rw [hshown]
    exact h.withApp hsame
  · have hlabels := h.setLeaves (Or.inr ⟨leaves, hseen leaves hleaves, rfl⟩) view
    rw [hshown]
    exact hlabels.withApp (hsame.trans (by rw [GameTab.app_setLeaves]))

/-- A label is refreshed with an answer. -/
theorem KnownLabels.refreshed (h : KnownLabels uid seen tab) {uid' : Uid} {view : LeavesView}
    {snapshot : Snapshot} (hseen : SeenAnswer seen (.refreshLeaves uid' view) snapshot)
    {fx : Effects GameTab Write TabRead}
    (hrun : refreshLeavesRead view snapshot tab = .ok fx) :
    KnownLabels uid seen fx.state ∧ fx.reads = [] ∧ fx.state.delegates = tab.delegates ∧
      fx.state.app = tab.app := by
  cases snapshot with
  | error =>
      obtain rfl := Except.ok.inj hrun
      exact ⟨h, rfl, rfl, rfl⟩
  | value node order =>
      unfold refreshLeavesRead at hrun
      dsimp only at hrun
      split at hrun
      · obtain rfl := Except.ok.inj hrun
        exact ⟨h, rfl, rfl, rfl⟩
      · cases hnode : asInt node with
        | none =>
            rw [hnode] at hrun
            cases hrun
        | some leaves =>
            rw [hnode] at hrun
            obtain rfl := Except.ok.inj hrun
            have hleaves := hseen uid' view node order leaves rfl rfl hnode
            obtain ⟨-, hdelegates, -⟩ := tab.setLeaves_frame view (leavesText leaves)
            exact ⟨h.setLeaves (Or.inr ⟨leaves, hleaves, rfl⟩) view, rfl, hdelegates,
              GameTab.app_setLeaves view _ tab⟩

/-! ## Runs -/

/-- A tap leaves the cells of the blocks that wait as they are. -/
theorem SeenBlocks.tapped {s : TabSys} (h : SeenBlocks seen s.reads s.state) {tap : GameTap}
    (hcells : KeepsCells s (.tap tap)) {fx : Effects GameTab Write TabRead}
    (hfx : tap.handle range s.state = .ok fx) :
    SeenBlocks seen (s.reads ++ fx.reads) fx.state := by
  have hframe := handle_frames tap fx hfx
  intro storeVC cell value hmem
  rcases List.mem_append.mp hmem with hmem | hmem
  · obtain ⟨hdelegate, hseen⟩ := h storeVC cell value hmem
    obtain ⟨hlt, -⟩ := List.getElem?_eq_some_iff.mp hdelegate
    have hshown : fx.state.app.shown cell = s.state.app.shown cell := by
      cases htap : s.state.appTap tap with
      | none =>
          have hquiet := (GameTap.quiet_of_appTap htap).effects hfx
          exact congrArg (App.shown · cell) (congrArg Effects.state hquiet)
      | some appTap =>
          obtain ⟨hsignIn, hsignOut⟩ := appTap_signedIn htap
          have hcode := ok_of_map_toOption (GameTap.handle_appTap htap) hfx
          refine (Tap.handle_user hsignIn hsignOut hcode).2.1 cell fun storeItem heq => ?_
          -- a row of the store is shown in another cell
          obtain ⟨reused, index, screen, rfl, hused⟩ := cellUsed_of_appTap (heq ▸ htap)
          cases reused with
          | none =>
              obtain rfl := Option.some.inj hused
              exact absurd hlt (Nat.lt_irrefl _)
          | some other =>
              obtain rfl := cellUsed_some hused
              exact hcells _ hmem rfl
    rw [hshown]
    obtain ⟨added, hadded⟩ := hframe.delegates
    exact ⟨by rw [← hadded, List.getElem?_append_left hlt, hdelegate], hseen⟩
  · rcases hframe.reads _ hmem with ⟨read, heq⟩ | ⟨view, heq⟩ <;> cases heq

/-- The blocks that wait, after a callback that leaves the cells as they are. -/
theorem SeenBlocks.served {reads reads' issued : List TabRead} {tab tab' : GameTab}
    (h : SeenBlocks seen reads tab) (hrest : ∀ k ∈ reads', k ∈ reads)
    (hdelegates : tab'.delegates = tab.delegates)
    (hstore : tab'.app.storeItem = tab.app.storeItem)
    (hissued : ∀ storeVC cell value, .displayLeaves storeVC cell value ∈ issued →
      tab.delegates[cell]? = some storeVC ∧ seen (value - (tab.app.shown cell).cost)) :
    SeenBlocks seen (reads' ++ issued) tab' := by
  intro storeVC cell value hmem
  have hold : tab.delegates[cell]? = some storeVC ∧
      seen (value - (tab.app.shown cell).cost) := by
    rcases List.mem_append.mp hmem with hmem | hmem
    · exact h storeVC cell value (hrest _ hmem)
    · exact hissued storeVC cell value hmem
  unfold App.shown at hold ⊢
  rw [hdelegates, hstore]
  exact hold

/-- **One step** shows nothing that the wallet has not been. -/
theorem labelsSeen_step {s s' : TabSys} {e : TabEvent}
    {o : Option (Entry GameTab Write TabRead Snapshot GameTap)}
    (hseen : ∀ leaves, WalletIs uid leaves s → seen leaves) (h : LabelsSeen uid seen s)
    (hcells : KeepsCells s e) (hmove : (tabClient range).Step s e o s') :
    LabelsSeen uid (fun leaves => seen leaves ∨ WalletIs uid leaves s') s' := by
  have hmono : LabelsSeen uid (fun leaves => seen leaves ∨ WalletIs uid leaves s') s :=
    h.mono fun _ hleaves => Or.inl hleaves
  have hreads : ∀ (rest : List (Pending TabRead Snapshot)) (fx : Effects GameTab Write TabRead),
      ((tabClient range).perform s rest fx).reads = rest.map Pending.read ++ fx.reads := by
    intro rest fx
    simp [Sys.reads, Client.perform, Function.comp_def]
  cases hmove with
  | @tap t fx hrun =>
      obtain ⟨hcurrent, hissued⟩ :=
        handle_user hrun h.inFlight.state.currentUser h.inFlight.state.user
      have hframe := handle_frames t fx hrun
      refine ⟨hmono.inFlight.perform (tabClient range) ?_ (fun _ hp => hp), ?_⟩
      · refine ⟨trivial, ⟨hframe.user.trans h.inFlight.state.user, hcurrent, ?_, ?_⟩, hissued⟩
        · rw [hframe.land]
          exact hmono.inFlight.state.land
        · intro screen' hscreen'
          rcases hframe.store screen' hscreen' with hinitial | ⟨screen, hscreen, hsame⟩
          · exact Or.inl hinitial
          · rw [hsame]
            exact hmono.inFlight.state.store screen hscreen
      · rw [hreads]
        exact hmono.blocks.tapped hcells hrun
  | @answer k before after hpending info =>
      refine ⟨Client.InFlight.answered hmono.inFlight hpending fun hof => ?_, ?_⟩
      · intro uid' view node order leaves hk hvalue hleaves
        obtain rfl := hk
        obtain rfl : uid' = uid := hof
        left
        apply hseen
        cases info with
        | error => cases hvalue
        | value order' =>
            obtain ⟨rfl, -⟩ := Snapshot.value.inj hvalue
            exact hleaves
      · intro storeVC cell value hmem
        refine hmono.blocks storeVC cell value ?_
        simpa [Sys.reads, hpending] using hmem
  | @serve k a before after hpending fx hrun =>
      have hmem : (⟨k, some a⟩ : Pending TabRead Snapshot) ∈ s.pending := by simp [hpending]
      have hof := h.inFlight.read _ hmem
      have hrest : ∀ k' ∈ (before ++ after).map Pending.read, k' ∈ s.reads := by
        intro k' hk'
        obtain ⟨p, hp, rfl⟩ := List.mem_map.mp hk'
        exact List.mem_map_of_mem (Client.mem_pending_of_rest hpending p hp)
      suffices hnext : (tabClient range).KeepsOn (fun _ => True)
            (KnownLabels uid fun leaves => seen leaves ∨
              WalletIs uid leaves ((tabClient range).perform s (before ++ after) fx))
            (OfAccount uid) s.remote fx ∧
          SeenBlocks (fun leaves => seen leaves ∨
              WalletIs uid leaves ((tabClient range).perform s (before ++ after) fx))
            ((before ++ after).map Pending.read ++ fx.reads) fx.state by
        refine ⟨hmono.inFlight.perform (tabClient range) hnext.1
          (Client.mem_pending_of_rest hpending), ?_⟩
        rw [hreads]
        exact hnext.2
      cases k with
      | refreshLeaves uid' view =>
          obtain ⟨hlabels, hnone, hdelegates, happ⟩ :=
            hmono.inFlight.state.refreshed (hmono.inFlight.answer _ hmem a rfl) hrun
          refine ⟨⟨trivial, hlabels, by simp [hnone]⟩, ?_⟩
          exact hmono.blocks.served hrest hdelegates (congrArg App.storeItem happ) (by simp [hnone])
      | displayLeaves storeVC cell value =>
          obtain rfl := Except.ok.inj hrun
          have hblock := hmono.blocks storeVC cell value (List.mem_map_of_mem hmem)
          obtain ⟨-, hdelegates, -⟩ := s.state.setLeaves_frame (.store storeVC)
            (leavesText (value - (s.state.app.shown cell).cost))
          refine ⟨⟨trivial, hmono.inFlight.state.setLeaves (Or.inr ⟨_, hblock.2, rfl⟩) _,
            by simp⟩, ?_⟩
          exact hmono.blocks.served hrest hdelegates
            (congrArg App.storeItem (GameTab.app_setLeaves _ _ s.state)) (by simp)
      | app read =>
          obtain ⟨fx', hcode, rfl⟩ := appCallback_ok hrun
          have hlimits := callback_limited hof.2 a s.state.app fx' hcode
          obtain ⟨-, hdelegates, -, -⟩ := read.shown_frame a s.state
          have hblocks : ∀ storeVC cell value,
              TabRead.displayLeaves storeVC cell value ∈ read.blocks a s.state →
              s.state.delegates[cell]? = some storeVC ∧
                asInt ((client.applyAll fx'.writes s.remote uid).child "currentLeaves") =
                  some (value - (s.state.app.shown cell).cost) :=
            fun storeVC cell value hblock => blocks_written hof.1 hcode s.remote hblock
          refine ⟨⟨trivial, hmono.inFlight.state.served hof hcode
            fun leaves hleaves => Or.inr hleaves, ?_⟩, ?_⟩
          · intro k' hk'
            rcases List.mem_append.mp hk' with hk' | hk'
            · obtain ⟨next, hnext, rfl⟩ := List.mem_map.mp hk'
              have hissued := hlimits.reads next hnext
              cases read with
              | claimDate uid' result =>
                  obtain ⟨total, rfl | rfl⟩ := hissued
                  · exact ⟨hof.1, rfl⟩
                  · exact ⟨hof.1, rfl⟩
              | signInName uid' displayName => exact absurd hof.2 (by simp [Read.creates])
              | _ => exact hissued.elim
            · obtain ⟨storeVC, cell, value, rfl⟩ := Read.of_mem_blocks hk'
              trivial
          · have hstore := (callback_grows read a s.state.app fx' hcode).storeItem
            refine hmono.blocks.served hrest hdelegates hstore ?_
            intro storeVC cell value hissued
            rcases List.mem_append.mp hissued with happ | hblock
            · obtain ⟨next, -, heq⟩ := List.mem_map.mp happ
              cases heq
            · exact ⟨(hblocks storeVC cell value hblock).1,
                Or.inr (hblocks storeVC cell value hblock).2⟩
  | idleAnswer hidle info => exact hmono
  | idleServe hidle => exact hmono

end Labels

/-- **The labels show what was there.**  In any run of the screens of a signed-in user, with
taps, answers, callbacks and blocks in any order, in which no cell of the store is used for
another row while a block of its purchase waits, the visible label has its first text or
shows a number that the stored wallet had at some time of the run. -/
theorem labels_show_held {uid : Uid} {app : App} (range : String → String → Bool)
    (huser : app.currentUser = some uid) (remote : Remote) {es : List TabEvent} {s' : TabSys}
    (hcells : (tabClient range).Along KeepsCells ⟨remote, .fresh uid app, []⟩ es)
    (hrun : (tabClient range).run ⟨remote, .fresh uid app, []⟩ es = .ok s') :
    ∀ view text, s'.state.visible = some (view, text) → text = leavesText 0 ∨
      ∃ leaves, (tabClient range).Reaches (WalletIs uid leaves) ⟨remote, .fresh uid app, []⟩ es ∧
        text = leavesText leaves := by
  have hfresh : ∀ seen, LabelsSeen uid seen ⟨remote, .fresh uid app, []⟩ := by
    intro seen
    have hlabels : KnownLabels uid seen (.fresh uid app) := by
      refine ⟨rfl, huser, Or.inl rfl, ?_⟩
      intro screen hscreen
      cases hscreen
    exact ⟨Client.InFlight.of_idle trivial hlabels, fun _ _ _ hmem => absurd hmem List.not_mem_nil⟩
  have hlabels := ((tabClient range).run_history (WalletIs uid)
    (LabelsSeen uid) (fun H H' s hmono h => h.mono hmono)
    (fun H s e o s' hseen h hkeeps hmove => labelsSeen_step hseen h hkeeps hmove) (hfresh _)
    hcells hrun).inFlight
  intro view text hvisible
  unfold GameTab.visible at hvisible
  split at hvisible
  · cases hscreen : s'.state.screen with
    | land =>
        rw [hscreen] at hvisible
        obtain ⟨-, rfl⟩ := Prod.mk.inj (Option.some.inj hvisible)
        exact hlabels.state.land
    | store screen =>
        rw [hscreen] at hvisible
        obtain ⟨-, rfl⟩ := Prod.mk.inj (Option.some.inj hvisible)
        exact hlabels.state.store screen hscreen
    | _ =>
        rw [hscreen] at hvisible
        cases hvisible
  · cases hvisible

/-- A tree is bought while the reads that refresh the label of the store are pending, and
its block runs before these. -/
def overlappingRefresh : List TabEvent :=
  [ .tap .enterTab, .answer 0 (.value []), .tap .openStore, .tap (.storeCellForRow none 3),
    .tap (.buyOnClick 0), .answer 2 (.value []), .answer 4 (.value []), .serve 4,
    .answer 5 (.value []), .serve 5, .serve 2 ]

/-- The label of the store shows the wallet as it was. -/
theorem labels_show_held_overlapping :
    ∃ s', (tabClient fun _ _ => true).run annTab overlappingRefresh = .ok s' ∧
      s'.state.visible = some (.store 0, "WALLET: 120 LEAVES") ∧ WalletIs "ann" 70 s' ∧
      ∃ leaves, (tabClient fun _ _ => true).Reaches (WalletIs "ann" leaves) annTab
          overlappingRefresh ∧
        "WALLET: 120 LEAVES" = leavesText leaves := by
  obtain ⟨s', hrun, hvisible, hwallet⟩ : ∃ s',
      (tabClient fun _ _ => true).run annTab overlappingRefresh = .ok s' ∧
        s'.state.visible = some (.store 0, "WALLET: 120 LEAVES") ∧
        asInt ((s'.remote "ann").child "currentLeaves") = some 70 :=
    Client.exists_run_of_check _ (by decide +kernel)
  have hheld := labels_show_held (fun _ _ => true) rfl (newUser 120) (by decide +kernel) hrun
    (.store 0) _ hvisible
  exact ⟨s', hrun, hvisible, hwallet, hheld.resolve_left (by decide +kernel)⟩

/-- The cell of the tree is used for the wind turbine before the block of the purchase runs:
120 leaves become 70, and the label shows 60. -/
example : ∃ s', (tabClient fun _ _ => true).run annTab
      [ .tap .enterTab, .tap .openStore, .tap (.storeCellForRow none 3), .tap (.buyOnClick 0),
        .answer 4 (.value []), .serve 4, .tap (.storeCellForRow (some 0) 1),
        .answer 5 (.value []), .serve 5 ] = .ok s' ∧
    s'.state.visible = some (.store 0, "WALLET: 60 LEAVES") ∧
    asInt ((s'.remote "ann").child "currentLeaves") = some 70 :=
  Client.exists_run_of_check _ (by decide +kernel)

end WillItRecycle

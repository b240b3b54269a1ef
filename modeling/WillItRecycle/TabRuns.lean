import WillItRecycle.PlayerRuns
import WillItRecycle.TabScreens

/-!
# Runs of the screens

What the screens do in every run, whatever the interleaving of taps, answers and
callbacks, the requests of the sign-in included.

* `run_shows_what_taps_do` -- every cell and button shows what a tap on it is about;
* `run_in_range` -- no table asks for a row that is gone;
* `screens_refine_offered` -- PLACE and REMOVE are for what the local lists offer, unless
  the placed items are loaded while the grid is shown.
-/

namespace WillItRecycle

open PathTree ReadCallback

variable {range : String → String → Bool}

/-! ## Steps -/

/-- A callback of the app shows nothing, or another number in a label. -/
theorem Read.shown_cases (read : Read) (snapshot : Snapshot) (tab : GameTab) :
    read.shown snapshot tab = tab ∨
      ∃ view text, read.shown snapshot tab = tab.setLeaves view text := by
  cases read with
  | calculateCurrent uid total =>
      simp only [Read.shown, calculateShown]
      split
      · exact Or.inl rfl
      · split
        · exact Or.inr ⟨_, _, rfl⟩
        · exact Or.inl rfl
  | _ => exact Or.inl rfl

/-- The callback of `refreshLeaves` shows nothing, or another number. -/
theorem refreshLeavesRead_leaves {P : GameTab → Prop} {tab : GameTab} (h : P tab)
    (hshown : ∀ view text, P (tab.setLeaves view text)) (view : LeavesView)
    (snapshot : Snapshot) : Leaves P (refreshLeavesRead view snapshot tab) := by
  cases snapshot with
  | error => exact .ok h
  | value node order =>
      refine .ite (.ok h) (.bind fun value _ => .ok (hshown view (leavesText value)))

/-- What a callback keeps that neither labels nor growing lists concern. -/
theorem callback_keeps_screens {P : GameTab → Prop} (loads : Bool)
    (hlabel : ∀ tab view text, P tab → P (tab.setLeaves view text))
    (hgrows : ∀ (tab : GameTab) app, P tab → tab.app.Grows loads app →
      P { tab with app := app })
    {read : TabRead} (hread : ∀ r, read = .app r → r.loadsLand = true → loads = true)
    {tab : GameTab} (h : P tab) (snapshot : Snapshot) :
    Leaves P (read.callback snapshot tab) := by
  cases read with
  | refreshLeaves uid view =>
      exact refreshLeavesRead_leaves h (fun view text => hlabel tab view text h) view snapshot
  | displayLeaves storeVC cell value => exact .ok (hlabel tab _ _ h)
  | app read =>
      have hshown : P (read.shown snapshot tab) := by
        rcases read.shown_cases snapshot tab with hsame | ⟨view, text, hsame⟩
        · rw [hsame]
          exact h
        · rw [hsame]
          exact hlabel tab view text h
      have happ := read.app_shown snapshot tab
      refine GameTap.leaves_map (GameTap.leaves_lift fun fx hfx => ?_) fun _ => rfl
      have hall := callback_grows read snapshot tab.app fx hfx
      have hloads : tab.app.Grows loads fx.state := by
        refine ⟨hall.currentUser, hall.storeItem, hall.rows, hall.row, hall.occupied, ?_⟩
        intro hnot
        apply hall.still
        by_contra hload
        have hload' : read.loadsLand = true := by simpa using hload
        rw [hread read rfl hload'] at hnot
        cases hnot
      exact hgrows _ fx.state hshown (happ ▸ hloads)

/-- What every tap and every callback keeps, every step does. -/
theorem step_keeps_screens {P : GameTab → Prop}
    (htap : ∀ tab tap, P tab → Leaves P (GameTap.handle range tap tab)) {s s' : TabSys}
    {e : TabEvent} {o : Option (Entry GameTab Write TabRead Snapshot GameTap)}
    (hserve : ∀ (i : Nat) (read : TabRead) (snapshot : Snapshot), e = .serve i →
      s.pending[i]? = some ⟨read, some snapshot⟩ → P s.state →
      Leaves P (read.callback snapshot s.state))
    (h : P s.state) (hmove : (tabClient range).Step s e o s') : P s'.state := by
  cases hmove with
  | @tap t fx hrun => exact htap s.state t h fx hrun
  | @answer k before after hpending info => exact h
  | @serve k a before after hpending fx hrun =>
      exact hserve before.length k a rfl (by simp [hpending]) h fx hrun
  | idleAnswer hidle info => exact h
  | idleServe hidle => exact h

/-- A step keeps what the screens show true. -/
theorem step_sound (s : TabSys) (e : TabEvent)
    (o : Option (Entry GameTab Write TabRead Snapshot GameTap)) (s' : TabSys)
    (h : s.state.Sound) (hmove : (tabClient range).Step s e o s') : s'.state.Sound := by
  refine step_keeps_screens (fun tab tap htab => GameTap.handle_sound range htab tap) ?_ h hmove
  intro i read snapshot _ _ htab
  exact callback_keeps_screens true
    (fun tab view text hsound => GameTab.sound_setLeaves hsound view text)
    (fun tab app hsound hgrows => @GameTab.Sound.grows tab hsound app true hgrows)
    (fun _ _ hload => rfl) htab snapshot

/-! ## Rows -/

/-- Code of the app does not ask for a row. -/
theorem lift_in_range (tab : GameTab) (handled : Handled) :
    tab.lift handled ≠ .error .indexOutOfRange := by
  cases handled with
  | error trap => intro h; cases h
  | ok fx => intro h; cases h

theorem row_in_range {α : Type} {items : List α} {index : Nat} (h : index < items.length) :
    GameTab.row items index = .ok items[index] := by
  simp [GameTab.row, h]

theorem map_in_range {handled : TabHandled} (h : handled ≠ .error .indexOutOfRange)
    (next : Effects GameTab Write TabRead → Effects GameTab Write TabRead) :
    handled.map next ≠ .error .indexOutOfRange := by
  cases handled with
  | error trap => exact h
  | ok fx => intro hmap; cases hmap

/-- No tap asks for a row that is not there. -/
theorem GameTap.handle_in_range {tab : GameTab} (h : tab.Sound) (tap : GameTap) :
    tap.handle range tab ≠ .error .indexOutOfRange := by
  have hok : ∀ fx : Effects GameTab Write TabRead,
      (Except.ok fx : TabHandled) ≠ .error .indexOutOfRange := by
    intro fx hfx
    cases hfx
  unfold GameTab.Sound at h
  unfold handle
  split
  · cases hscreen : tab.screen with
    | land =>
        cases tap with
        | claimOnClick result => exact lift_in_range tab _
        | _ => exact hok _
    | store screen =>
        cases tap with
        | storeCellForRow reused index =>
            simp only [onStore, GameTab.storeCellForRow]
            split
            · next hrow =>
                rw [row_in_range hrow]
                cases reused with
                | none => exact hok _
                | some cell =>
                    simp only [bind, Except.bind]
                    split <;> exact hok _
            · exact hok _
        | buyOnClick cell =>
            simp only [onStore]
            split
            · exact lift_in_range tab _
            · exact hok _
        | _ => exact hok _
    | inventory screen =>
        simp only [hscreen] at h
        cases tap with
        | inventoryCellForRow index =>
            simp only [onInventory, GameTab.inventoryCellForRow]
            split
            · next hrow =>
                rw [row_in_range (Nat.lt_of_lt_of_le hrow h.rows)]
                exact hok _
            · exact hok _
        | onPlaceItem cell =>
            simp only [onInventory]
            split <;> exact hok _
        | _ => exact hok _
    | placementGrid screen grid =>
        cases tap with
        | onSelectButton button =>
            simp only [onPlacementGrid]
            split <;> exact hok _
        | onPlacementCompleted => exact map_in_range (lift_in_range tab _) _
        | _ => exact hok _
    | removeItem screen =>
        simp only [hscreen] at h
        cases tap with
        | removeItemCellForRow index =>
            simp only [onRemoveItem, GameTab.removeItemCellForRow]
            split
            · next hrow =>
                rw [row_in_range (Nat.lt_of_lt_of_le hrow h.rows)]
                exact hok _
            · exact hok _
        | didSelectRow index =>
            simp only [onRemoveItem, GameTab.didSelectRow]
            split
            · next hrow =>
                rw [row_in_range (Nat.lt_of_lt_of_le hrow h.rows)]
                exact hok _
            · exact hok _
        | onRemove => exact map_in_range (lift_in_range tab _) _
        | _ => exact hok _
  · cases tap with
    | redeem quantities dateString autoId => exact lift_in_range tab _
    | _ => exact hok _

theorem TabRead.callback_in_range (read : TabRead) (snapshot : Snapshot) (tab : GameTab) :
    read.callback snapshot tab ≠ .error .indexOutOfRange := by
  cases read with
  | app read => exact map_in_range (lift_in_range _ _) _
  | displayLeaves storeVC cell value => intro h; cases h
  | refreshLeaves uid view =>
      simp only [TabRead.callback, refreshLeavesRead]
      split
      · intro h; cases h
      · split
        · intro h; cases h
        · cases asInt _ with
          | none => intro h; cases h
          | some value => intro h; cases h

/-- **Tables stay in range.**  Whatever is pending when the tab is first shown, in every run
of the screens no table asks for a row that is not there. -/
theorem run_in_range (user : Uid) (app : App) (remote : Remote)
    (pending : List (Pending TabRead Snapshot)) (es : List TabEvent) :
    (tabClient range).run ⟨remote, .fresh user app, pending⟩ es ≠ .error .indexOutOfRange := by
  exact (tabClient range).run_ne_error (fun s => s.state.Sound) step_sound
    (fun _ t h => GameTap.handle_in_range h t)
    (fun s k a _ => TabRead.callback_in_range k a s.state) es trivial

def TabRead.loadsLand : TabRead → Bool
  | .app read => read.loadsLand
  | .refreshLeaves _ _ | .displayLeaves _ _ _ => false

def GameTab.showsGrid (tab : GameTab) : Bool :=
  match tab.screen with
  | .placementGrid _ _ => true
  | _ => false

/-- The placed items are not loaded while the grid is shown. -/
def LoadsOffGrid (read : TabRead) (_ : Snapshot) (_ : Remote) (tab : GameTab) : Prop :=
  read.loadsLand = true → tab.showsGrid = false

instance (read : TabRead) (snapshot : Snapshot) (remote : Remote) (tab : GameTab) :
    Decidable (LoadsOffGrid read snapshot remote tab) :=
  inferInstanceAs (Decidable (_ = true → _ = false))

theorem Button.coordinate_mem (button : Button) : button.coordinate ∈ gridCoordinates := by
  cases button <;> decide

theorem Button.coordinate_ne (button : Button) : button.coordinate ≠ "" := by
  cases button <;> decide

theorem appTap_offered {tab : GameTab} (h : tab.Sound) (hfree : tab.OffersFree) {tap : GameTap}
    {appTap : Tap} (htap : tab.appTap tap = some appTap) : appTap.Offered tab.app := by
  unfold GameTab.Sound at h
  unfold GameTab.OffersFree at hfree
  unfold GameTab.appTap at htap
  split at htap
  · cases hscreen : tab.screen with
    | land =>
        rw [hscreen] at htap
        cases tap with
        | claimOnClick result =>
            obtain rfl := Option.some.inj htap
            trivial
        | _ => cases htap
    | store screen =>
        rw [hscreen] at htap
        cases tap with
        | storeCellForRow reused index =>
            simp only [Option.bind_eq_bind, Option.bind_eq_some_iff] at htap
            obtain ⟨storeItem, -, cell, -, htap⟩ := htap
            obtain rfl := Option.some.inj htap
            trivial
        | buyOnClick cell =>
            simp only at htap
            split at htap
            · obtain rfl := Option.some.inj htap
              trivial
            · cases htap
        | _ => cases htap
    | inventory screen =>
        rw [hscreen] at htap
        cases tap <;> cases htap
    | placementGrid screen grid =>
        simp only [hscreen] at h hfree
        rw [hscreen] at htap
        cases tap with
        | onPlacementCompleted =>
            obtain rfl := Option.some.inj htap
            rcases h.coordinate with ⟨-, hnone⟩ | ⟨button, -, henabled, hcoordinate⟩
            · exact Or.inl hnone
            · rw [hcoordinate]
              exact Or.inr ⟨button.coordinate_mem, button.coordinate_ne,
                hfree button henabled, h.offers⟩
        | _ => cases htap
    | removeItem screen =>
        simp only [hscreen] at h
        rw [hscreen] at htap
        cases tap with
        | onRemove =>
            obtain rfl := Option.some.inj htap
            exact h.selected
        | _ => cases htap
  · cases tap with
    | redeem quantities dateString autoId =>
        obtain rfl := Option.some.inj htap
        trivial
    | _ => cases htap

theorem GameTab.showsGrid_setLeaves (view : LeavesView) (text : String) (tab : GameTab) :
    (tab.setLeaves view text).showsGrid = tab.showsGrid := by
  unfold setLeaves
  split
  · rfl
  · next number screen hscreen =>
      split
      · simp [showsGrid, hscreen]
      · rfl
  · rfl

theorem GameTab.offersFree_of_showsGrid {tab : GameTab} (h : tab.showsGrid = false) :
    tab.OffersFree := by
  unfold showsGrid at h
  unfold OffersFree
  cases hscreen : tab.screen with
  | placementGrid presenting grid => simp [hscreen] at h
  | _ => trivial

/-- A step on which nothing is loaded under the grid keeps the offered places free. -/
theorem step_offersFree (s : TabSys) (e : TabEvent)
    (o : Option (Entry GameTab Write TabRead Snapshot GameTap)) (s' : TabSys)
    (h : s.state.OffersFree) (hload : ServeMeets LoadsOffGrid s e)
    (hmove : (tabClient range).Step s e o s') : s'.state.OffersFree := by
  refine step_keeps_screens (fun tab tap htab => GameTap.handle_offersFree range htab tap)
    ?_ h hmove
  intro i read snapshot he hi _
  subst he
  have hoff := (serveMeets_serve hi).mp hload
  by_cases hread : read.loadsLand = true
  · cases read with
    | refreshLeaves uid view => cases hread
    | displayLeaves storeVC cell value => cases hread
    | app read =>
        -- the grid is not shown, and a callback does not show it
        have hoffGrid : (read.shown snapshot s.state).showsGrid = false := by
          rcases read.shown_cases snapshot s.state with hsame | ⟨view, text, hsame⟩
          · rw [hsame]
            exact hoff hread
          · rw [hsame, GameTab.showsGrid_setLeaves]
            exact hoff hread
        exact GameTap.leaves_map
          (GameTap.leaves_lift fun fx _ => GameTab.offersFree_of_showsGrid hoffGrid) fun _ => rfl
  · refine callback_keeps_screens false
      (fun tab view text hfree => GameTab.offersFree_setLeaves hfree view text)
      (fun tab app hfree hgrows => @GameTab.OffersFree.grows tab hfree app hgrows) ?_ h snapshot
    rintro r rfl hload
    exact absurd hload hread

/-- **The screens only make taps that they offer.**  Whatever is pending when the tab is
first shown, every run of the screens is without them a run of the app, to the same
records.  If moreover the placed items are not loaded while the grid is shown, PLACE with
a button selected is for a row of the inventory and a free place of the land, and REMOVE
with a row selected for an occupied one. -/
theorem screens_refine_offered (user : Uid) (app : App) (remote : Remote)
    (pending : List (Pending TabRead Snapshot)) (es : List TabEvent) :
    (∀ s', (tabClient range).run ⟨remote, .fresh user app, pending⟩ es = .ok s' →
        client.run (appOfTab.sys ⟨remote, .fresh user app, pending⟩)
            (appOfTab.events (tabClient range) ⟨remote, .fresh user app, pending⟩ es) =
          .ok (appOfTab.sys s')) ∧
      ((tabClient range).Along (ServeMeets LoadsOffGrid) ⟨remote, .fresh user app, pending⟩ es →
        client.Along (TapMeets fun tap _ app => tap.Offered app)
          (appOfTab.sys ⟨remote, .fresh user app, pending⟩)
          (appOfTab.events (tabClient range) ⟨remote, .fresh user app, pending⟩ es)) := by
  have hrefines := tabClient_refines range
  refine ⟨fun s' hrun => hrefines.run es hrun, fun hload => ?_⟩
  have hoffered : (tabClient range).Along
      (TapMeets fun tap _ tab => ∀ appTap, tab.appTap tap = some appTap →
        appTap.Offered tab.app) ⟨remote, .fresh user app, pending⟩ es := by
    refine Client.Along.of_invariant (tabClient range)
      (fun s => s.state.Sound ∧ s.state.OffersFree) ?_ ?_ es ⟨trivial, trivial⟩ hload
    · intro s e o s' hinv hoff hmove
      exact ⟨step_sound s e o s' hinv.1 hmove, step_offersFree s e o s' hinv.2 hoff hmove⟩
    · intro s e hinv _ tap _ appTap htap
      exact appTap_offered hinv.1 hinv.2 htap
  refine hrefines.along ?_ es hoffered
  intro s e e' hmeets he tap htap
  subst htap
  cases e with
  | tap t =>
      obtain ⟨appTap, happTap, heq⟩ := Option.map_eq_some_iff.mp he
      obtain rfl := Event.tap.inj heq
      exact hmeets t rfl appTap happTap
  | answer i info =>
      simp only [Projection.event] at he
      split at he <;> cases he
  | serve i =>
      simp only [Projection.event] at he
      split at he <;> cases he

/-- A tree is bought and placed, while the reads that refresh the labels are pending. -/
def plantTree : List TabEvent :=
  [ .tap .enterTab, .tap .openStore, .tap (.storeCellForRow none 3), .tap (.buyOnClick 0),
    .answer 4 (.value []), .answer 5 (.value []), .serve 4, .serve 4, .tap .back,
    .tap .openInventory, .tap (.inventoryCellForRow 0), .tap (.onPlaceItem 0),
    .tap (.onSelectButton .zeroZero), .tap .onPlacementCompleted ]

/-- Ann's tab, before she has seen it. -/
def annTab : TabSys := ⟨newUser 120, .fresh "ann" (newUserApp "ann" treeShelf), []⟩

theorem screens_refine_offered_tree :
    client.Along (TapMeets fun tap _ app => tap.Offered app) (appOfTab.sys annTab)
        (appOfTab.events (tabClient fun _ _ => true) annTab plantTree) ∧
      ∃ s', client.run (appOfTab.sys annTab)
          (appOfTab.events (tabClient fun _ _ => true) annTab plantTree) = .ok s' ∧
        s'.state.coordinatesOccupied = ["(0,0)"] := by
  have hrun : ∃ s', (tabClient fun _ _ => true).run annTab plantTree = .ok s' ∧
      s'.state.app.coordinatesOccupied = ["(0,0)"] :=
    Client.exists_run_of_check _ (by decide +kernel)
  obtain ⟨s', hs', hoccupied⟩ := hrun
  obtain ⟨hsame, hoffered⟩ := @screens_refine_offered (fun _ _ => true) "ann"
    (newUserApp "ann" treeShelf) (newUser 120) [] plantTree
  exact ⟨hoffered (by decide +kernel), appOfTab.sys s', hsame s' hs', hoccupied⟩

end WillItRecycle

import WillItRecycle.GameTab

/-!
# The screens only make the taps of the app

Seen without its screens the tab is the client of `AppClient.lean`: what the user does
on them amounts to a tap of the app or to nothing, and what refreshes a label leaves no
trace (`tabClient_refines`).
-/

namespace WillItRecycle

open PathTree ReadCallback

/-- The cell that a row of the store is shown in. -/
def GameTab.cellUsed (reused : Option Nat) (screen : StoreViewController) (tab : GameTab) :
    Option Nat :=
  match reused with
  | none => some tab.delegates.length
  | some cell => if tab.delegates[cell]? = some screen.number then some cell else none

/-- What a tap on a screen amounts to for the app. -/
def GameTab.appTap (tab : GameTab) (tap : GameTap) : Option Tap :=
  if tab.selected then
    match tab.screen, tap with
    | .land, .claimOnClick result => some (.claim result)
    | .store screen, .storeCellForRow reused row => do
        let storeItem ← screen.displayedItems[row]?
        let cell ← tab.cellUsed reused screen
        some (.cellForRow cell storeItem)
    | .store screen, .buyOnClick cell =>
        if cell ∈ screen.cells.map StoreTableViewCell.cell then some (.buy cell) else none
    | .placementGrid _ grid, .onPlacementCompleted =>
        some (.place grid.activeItem.key grid.activeItem.item grid.coordinate)
    | .removeItem screen, .onRemove => some (.remove screen.selectedCoordinate)
    | _, _ => none
  else
    match tap with
    | .redeem quantities dateString autoId => some (.redeem quantities dateString autoId)
    | _ => none

/-- The read of the app that a read of the tab is; the others only refresh a label. -/
def TabRead.appRead : TabRead → Option Read
  | .app read => some read
  | .refreshLeaves _ _ | .displayLeaves _ _ _ => none

/-- The tab without its screens. -/
def appOfTab : Projection GameTab TabRead GameTap App Read Tap where
  state := GameTab.app
  read := TabRead.appRead
  tap := GameTab.appTap

namespace GameTab

/-- A step of the screens that the app does not notice; it may ask for a row that is not
there. -/
def Quiet (tab : GameTab) (handled : TabHandled) : Prop :=
  handled = .error .indexOutOfRange ∨
    ∃ fx, handled = .ok fx ∧ appOfTab.effects fx = ⟨tab.app, [], []⟩

/-- Code that only moves between screens is quiet. -/
theorem Quiet.done (tab : GameTab) {next : GameTab} (happ : next.app = tab.app) :
    tab.Quiet next.done :=
  Or.inr ⟨⟨next, [], []⟩, rfl, by simp [Projection.effects, appOfTab, happ]⟩

/-- Showing a screen is quiet when the reads it issues only refresh labels. -/
theorem Quiet.shown (tab : GameTab) {next : GameTab × List TabRead}
    (happ : next.1.app = tab.app) (hreads : next.2.filterMap TabRead.appRead = []) :
    tab.Quiet (GameTab.shown next) :=
  Or.inr ⟨⟨next.1, [], next.2⟩, rfl, by simp [Projection.effects, appOfTab, happ, hreads]⟩

/-- A trap on an index is quiet: it is no code of the app. -/
theorem Quiet.outOfRange (tab : GameTab) : tab.Quiet (.error .indexOutOfRange) := Or.inl rfl

/-- Quiet code leaves no trace in the app: no write, no read, and the state it had. -/
theorem Quiet.effects {tab : GameTab} {handled : TabHandled} (h : tab.Quiet handled)
    {fx : Effects GameTab Write TabRead} (hfx : handled = .ok fx) :
    appOfTab.effects fx = ⟨tab.app, [], []⟩ := by
  rcases h with herror | ⟨fx', hok, heffects⟩
  · rw [herror] at hfx
    cases hfx
  · rw [hok] at hfx
    exact Except.ok.inj hfx ▸ heffects

/-- Code of the app, run under a screen, stays the code of the app. -/
theorem toOption_lift (tab : GameTab) (handled : Handled) :
    (tab.lift handled).toOption.map appOfTab.effects = handled.toOption := by
  cases handled with
  | error trap => rfl
  | ok fx =>
      have hreads : (fx.reads.map TabRead.app).filterMap TabRead.appRead = fx.reads := by
        simp [List.filterMap_map, Function.comp_def, TabRead.appRead]
      simp [lift, Except.mapError, Except.map, Except.toOption, Projection.effects, appOfTab,
        hreads]

/-- What is shown afterwards makes no difference. -/
theorem toOption_map (handled : TabHandled) {next : Effects GameTab Write TabRead →
      Effects GameTab Write TabRead}
    (hnext : ∀ fx, appOfTab.effects (next fx) = appOfTab.effects fx) :
    (handled.map next).toOption.map appOfTab.effects =
      handled.toOption.map appOfTab.effects := by
  cases handled with
  | error trap => rfl
  | ok fx => simp [Except.map, Except.toOption, hnext]

@[simp] theorem app_setLeaves (view : LeavesView) (text : String) (tab : GameTab) :
    (tab.setLeaves view text).app = tab.app := by
  unfold setLeaves
  split
  · rfl
  · split <;> rfl
  · rfl

@[simp] theorem app_landWillAppear (tab : GameTab) : tab.landWillAppear.1.app = tab.app := rfl

@[simp] theorem app_pop (tab : GameTab) : tab.pop.1.app = tab.app := rfl

@[simp] theorem appReads_pop (tab : GameTab) :
    tab.pop.2.filterMap TabRead.appRead = [] := rfl

@[simp] theorem app_openStore (tab : GameTab) : tab.openStore.1.app = tab.app := rfl

/-- A screen that appears changes nothing of the app. -/
theorem app_viewWillAppear (tab : GameTab) :
    tab.viewWillAppear.1.app = tab.app ∧
      tab.viewWillAppear.2.filterMap TabRead.appRead = [] := by
  unfold viewWillAppear
  split <;> exact ⟨rfl, rfl⟩

/-- Choosing the tab changes nothing of the app. -/
theorem app_enter (tab : GameTab) :
    tab.enter.1.app = tab.app ∧ tab.enter.2.filterMap TabRead.appRead = [] := by
  unfold enter
  dsimp only
  split
  · exact app_viewWillAppear { tab with selected := true }
  · obtain ⟨happ, hreads⟩ :=
      app_viewWillAppear (GameTab.landDidLoad { tab with selected := true }).1
    refine ⟨happ, ?_⟩
    rw [List.filterMap_append, hreads]
    rfl

end GameTab

namespace GameTap

open GameTab

variable {range : String → String → Bool}

/-- A tap that is none of the app is not noticed by it. -/
theorem quiet_of_appTap {tab : GameTab} {tap : GameTap} (h : tab.appTap tap = none) :
    tab.Quiet (tap.handle range tab) := by
  unfold handle
  unfold GameTab.appTap at h
  by_cases hselected : tab.selected
  · rw [if_pos hselected] at h ⊢
    cases hscreen : tab.screen with
    | land =>
        rw [hscreen] at h
        cases tap with
        | claimOnClick result => cases h
        | openStore => exact .shown tab rfl rfl
        | _ => exact .done tab rfl
    | store screen =>
        rw [hscreen] at h
        cases tap with
        | back => exact .shown tab rfl rfl
        | storeCellForRow reused index =>
            simp only [onStore, GameTab.storeCellForRow, row]
            by_cases hrow : index < screen.displayedItems.length
            · rw [if_pos hrow, List.getElem?_eq_getElem hrow]
              cases reused with
              | none => simp [hrow, cellUsed] at h
              | some cell =>
                  have hother : tab.delegates[cell]? ≠ some screen.number := by
                    intro hsame
                    simp [hrow, cellUsed, hsame] at h
                  simp only [bind, Except.bind, if_neg hother]
                  exact .done tab rfl
            · rw [if_neg hrow]
              exact .done tab rfl
        | buyOnClick cell =>
            by_cases hcell : cell ∈ screen.cells.map StoreTableViewCell.cell
            · simp [hcell] at h
            · simp only [onStore, if_neg hcell]
              exact .done tab rfl
        | _ => exact .done tab rfl
    | inventory screen =>
        cases tap with
        | back => exact .shown tab rfl rfl
        | inventoryCellForRow index =>
            simp only [onInventory, GameTab.inventoryCellForRow, row]
            split
            · cases tab.app.inventoryItems[index]? with
              | none => exact .outOfRange tab
              | some inventoryItem => exact .done tab rfl
            · exact .done tab rfl
        | onPlaceItem cell =>
            simp only [onInventory]
            split
            · exact .done tab rfl
            · exact .done tab rfl
        | _ => exact .done tab rfl
    | placementGrid screen grid =>
        rw [hscreen] at h
        cases tap with
        | onSelectButton button =>
            simp only [onPlacementGrid]
            split
            · exact .done tab rfl
            · exact .done tab rfl
        | onPlacementCompleted => cases h
        | _ => exact .done tab rfl
    | removeItem screen =>
        rw [hscreen] at h
        cases tap with
        | back => exact .shown tab rfl rfl
        | removeItemCellForRow index =>
            simp only [onRemoveItem, GameTab.removeItemCellForRow, row]
            split
            · cases tab.app.coordinatesOccupied[index]? with
              | none => exact .outOfRange tab
              | some coordinate => exact .done tab rfl
            · exact .done tab rfl
        | didSelectRow index =>
            simp only [onRemoveItem, GameTab.didSelectRow, row]
            split
            · cases tab.app.coordinatesOccupied[index]? with
              | none => exact .outOfRange tab
              | some coordinate => exact .done tab rfl
            · exact .done tab rfl
        | onRemove => cases h
        | _ => exact .done tab rfl
  · rw [if_neg hselected] at h ⊢
    cases tap with
    | enterTab =>
        obtain ⟨happ, hreads⟩ := tab.app_enter
        exact .shown tab happ hreads
    | redeem quantities dateString autoId => cases h
    | _ => exact .done tab rfl

/-- A tap that is one of the app is handled as the app does. -/
theorem handle_appTap {tab : GameTab} {tap : GameTap} {appTap : Tap}
    (h : tab.appTap tap = some appTap) :
    (tap.handle range tab).toOption.map appOfTab.effects =
      (appTap.handle tab.app).toOption := by
  unfold handle
  unfold GameTab.appTap at h
  by_cases hselected : tab.selected
  · rw [if_pos hselected] at h ⊢
    cases hscreen : tab.screen with
    | land =>
        rw [hscreen] at h
        cases tap with
        | claimOnClick result =>
            obtain rfl := Option.some.inj h
            exact toOption_lift tab _
        | _ => cases h
    | store screen =>
        rw [hscreen] at h
        cases tap with
        | storeCellForRow reused index =>
            simp only [onStore, GameTab.storeCellForRow, row]
            by_cases hrow : index < screen.displayedItems.length
            · rw [if_pos hrow, List.getElem?_eq_getElem hrow]
              simp only [List.getElem?_eq_getElem hrow] at h
              cases reused with
              | none =>
                  obtain rfl := Option.some.inj h
                  rfl
              | some cell =>
                  by_cases hsame : tab.delegates[cell]? = some screen.number
                  · simp only [cellUsed, if_pos hsame] at h
                    obtain rfl := Option.some.inj h
                    simp only [bind, Except.bind, if_pos hsame]
                    rfl
                  · simp [cellUsed, hsame] at h
            · simp [List.getElem?_eq_none (Nat.le_of_not_lt hrow)] at h
        | buyOnClick cell =>
            by_cases hcell : cell ∈ screen.cells.map StoreTableViewCell.cell
            · simp only [if_pos hcell] at h
              obtain rfl := Option.some.inj h
              simp only [onStore, if_pos hcell]
              exact toOption_lift tab _
            · simp [hcell] at h
        | _ => cases h
    | inventory screen =>
        rw [hscreen] at h
        cases tap <;> cases h
    | placementGrid screen grid =>
        rw [hscreen] at h
        cases tap with
        | onPlacementCompleted =>
            obtain rfl := Option.some.inj h
            simp only [onPlacementGrid, placementCompleted]
            rw [toOption_map, toOption_lift]
            · rfl
            · intro fx
              split
              · rfl
              · rfl
        | _ => cases h
    | removeItem screen =>
        rw [hscreen] at h
        cases tap with
        | onRemove =>
            obtain rfl := Option.some.inj h
            simp only [onRemoveItem, GameTab.remove]
            rw [toOption_map, toOption_lift]
            · rfl
            · intro fx
              split
              · simp [Projection.effects, appOfTab, pop, landWillAppear, TabRead.appRead]
              · rfl
        | _ => cases h
  · rw [if_neg hselected] at h ⊢
    cases tap with
    | redeem quantities dateString autoId =>
        obtain rfl := Option.some.inj h
        exact toOption_lift tab _
    | _ => cases h

end GameTap

/-- The alerts and labels that a callback shows are no part of the app. -/
@[simp] theorem Read.app_shown (read : Read) (snapshot : Snapshot) (tab : GameTab) :
    (read.shown snapshot tab).app = tab.app := by
  cases read with
  | calculateCurrent uid total =>
      simp only [Read.shown, calculateShown]
      split
      · rfl
      · split
        · exact GameTab.app_setLeaves _ _ tab
        · rfl
  | _ => rfl

/-- The block of a purchase that is paid for. -/
theorem buyLeavesBlock_eq {node : FNode} {value : Int} (hvalue : asInt node = some value)
    (cell : Nat) (order : List String) (tab : GameTab) :
    buyLeavesBlock cell (.value node order) tab =
      if value - (tab.app.shown cell).cost ≥ 0 then
        (tab.delegates[cell]?).toList.map fun storeVC => .displayLeaves storeVC cell value
      else [] := by
  unfold buyLeavesBlock
  cases tab.delegates[cell]? with
  | none => simp
  | some storeVC => simp [hvalue]

/-- A callback of the app puts one block on the main queue, or none. -/
theorem Read.blocks_cases (read : Read) (snapshot : Snapshot) (tab : GameTab) :
    read.blocks snapshot tab = [] ∨ ∃ uid cell tapped node order storeVC value,
      read = .buyLeaves uid cell tapped ∧ snapshot = .value node order ∧
        asInt node = some value ∧ value - (tab.app.shown cell).cost ≥ 0 ∧
        tab.delegates[cell]? = some storeVC ∧
        read.blocks snapshot tab = [.displayLeaves storeVC cell value] := by
  cases read with
  | buyLeaves uid cell tapped =>
      cases snapshot with
      | error => exact Or.inl rfl
      | value node order =>
          simp only [Read.blocks]
          cases hvalue : asInt node with
          | none =>
              left
              unfold buyLeavesBlock
              cases tab.delegates[cell]? <;> simp [hvalue]
          | some value =>
              rw [buyLeavesBlock_eq hvalue]
              by_cases hcost : value - (tab.app.shown cell).cost ≥ 0
              · cases hdelegate : tab.delegates[cell]? with
                | none => exact Or.inl (if_pos hcost)
                | some storeVC =>
                    exact Or.inr ⟨uid, cell, tapped, node, order, storeVC, value, rfl, rfl, hvalue,
                      hcost, hdelegate, if_pos hcost⟩
              · exact Or.inl (if_neg hcost)
  | _ => exact Or.inl rfl

/-- The blocks that a callback puts on the main queue set labels and nothing else. -/
theorem Read.of_mem_blocks {read : Read} {snapshot : Snapshot} {tab : GameTab} {k : TabRead}
    (hk : k ∈ read.blocks snapshot tab) :
    ∃ storeVC cell value, k = .displayLeaves storeVC cell value := by
  rcases read.blocks_cases snapshot tab with
    hnone | ⟨_, cell, _, _, _, storeVC, value, -, -, -, -, -, hone⟩
  · rw [hnone] at hk
    cases hk
  · rw [hone] at hk
    exact ⟨storeVC, cell, value, List.mem_singleton.mp hk⟩

/-- The blocks are none of the app's reads. -/
@[simp] theorem Read.appReads_blocks (read : Read) (snapshot : Snapshot) (tab : GameTab) :
    (read.blocks snapshot tab).filterMap TabRead.appRead = [] := by
  rw [List.filterMap_eq_nil_iff]
  intro k hk
  obtain ⟨storeVC, cell, value, rfl⟩ := Read.of_mem_blocks hk
  rfl

/-- **The screens refine the app**: without its screens the tab is the client of the
app. -/
theorem tabClient_refines (range : String → String → Bool) :
    Refines appOfTab (tabClient range) client where
  apply _ _ := rfl
  answer k k' info r hread := by
    cases k with
    | app read =>
        obtain rfl := Option.some.inj hread
        rfl
    | refreshLeaves uid view => cases hread
    | displayLeaves storeVC cell value => cases hread
  tap tab tap appTap h := GameTap.handle_appTap h
  quietTap tab tap fx h hfx := (GameTap.quiet_of_appTap h).effects hfx
  callback k k' snapshot tab hread := by
    cases k with
    | app read =>
        obtain rfl := Option.some.inj hread
        refine (GameTab.toOption_map _ fun fx => ?_).trans
          ((GameTab.toOption_lift _ _).trans ?_)
        · simp [Projection.effects, appOfTab]
        · rfl
    | refreshLeaves uid view => cases hread
    | displayLeaves storeVC cell value => cases hread
  quietCallback k snapshot tab fx hread hfx := by
    cases k with
    | app read => cases hread
    | refreshLeaves uid view =>
        change refreshLeavesRead view snapshot tab = .ok fx at hfx
        unfold refreshLeavesRead at hfx
        split at hfx
        · exact (GameTab.Quiet.done tab rfl).effects hfx
        · split at hfx
          · exact (GameTab.Quiet.done tab rfl).effects hfx
          · cases hvalue : asInt _ with
            | none =>
                rw [hvalue] at hfx
                cases hfx
            | some value =>
                rw [hvalue] at hfx
                exact (GameTab.Quiet.done tab (GameTab.app_setLeaves _ _ tab)).effects hfx
    | displayLeaves storeVC cell value =>
        exact (GameTab.Quiet.done tab (GameTab.app_setLeaves _ _ tab)).effects hfx

end WillItRecycle

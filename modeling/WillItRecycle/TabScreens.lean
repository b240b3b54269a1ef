import WillItRecycle.TabRefinement
import WillItRecycle.TrapFreeRun

/-!
# What the screens show is what they do

Callbacks run under the screens while these are shown.  They only ever add: rows stay
rows of their items, occupied places stay occupied, and the cells of the store stay
bound (`App.Grows`).  So what a cell or a button shows stays what a tap on it is about
(`GameTab.Sound`), whatever the interleaving, and the grid keeps offering free places
(`GameTab.OffersFree`), unless the load of a sign-in arrives while it is shown.
-/

namespace WillItRecycle

open PathTree ReadCallback

/-! ## What callbacks do to the lists -/

/-- `P` holds of the state that code leaves, if it does not trap. -/
def Leaves {L W K E : Type} (P : L → Prop) (code : Except E (Effects L W K)) : Prop :=
  ∀ fx, code = .ok fx → P fx.state

/-- Code that ends leaves what holds of its state. -/
theorem Leaves.ok {L W K E : Type} {P : L → Prop} {fx : Effects L W K} (h : P fx.state) :
    Leaves P (.ok fx : Except E (Effects L W K)) := by
  intro fx' hfx
  obtain rfl := Except.ok.inj hfx
  exact h

/-- Code that traps leaves nothing to show. -/
theorem Leaves.error {L W K E : Type} {P : L → Prop} (err : E) :
    Leaves P (.error err : Except E (Effects L W K)) := by
  intro fx hfx
  cases hfx

/-- What code leaves after a step that did not trap is what the rest of it leaves. -/
theorem Leaves.bind {L W K E α : Type} {P : L → Prop} {x : Except E α}
    {f : α → Except E (Effects L W K)} (h : ∀ a, x = .ok a → Leaves P (f a)) :
    Leaves P (x >>= f) := by
  cases x with
  | error err => exact Leaves.error err
  | ok a => exact h a rfl

/-- Code with two branches leaves what both of them leave. -/
theorem Leaves.ite {L W K E : Type} {P : L → Prop} {p : Prop} [Decidable p]
    {left right : Except E (Effects L W K)} (hleft : Leaves P left) (hright : Leaves P right) :
    Leaves P (if p then left else right) := by
  split
  · exact hleft
  · exact hright

/-- The lists have only grown: every row is still there, if with another count, and
every occupied place is.  More places are occupied only by the load of a sign-in. -/
structure App.Grows (app : App) (loads : Bool) (app' : App) : Prop where
  currentUser : app'.currentUser = app.currentUser
  storeItem : app'.storeItem = app.storeItem
  rows : app.inventoryItems.length ≤ app'.inventoryItems.length
  row : ∀ row ∈ app.inventoryItems,
    ∃ row' ∈ app'.inventoryItems, row'.key = row.key ∧ row'.item = row.item
  occupied : app.coordinatesOccupied <+: app'.coordinatesOccupied
  still : loads = false → app'.coordinatesOccupied = app.coordinatesOccupied

/-- An app grows into itself, with or without a load. -/
theorem App.Grows.refl (app : App) (loads : Bool) : app.Grows loads app :=
  ⟨rfl, rfl, Nat.le_refl _, fun row hrow => ⟨row, hrow, rfl, rfl⟩, List.prefix_rfl,
    fun _ => rfl⟩

/-- Nothing has changed but what the screens do not look at. -/
theorem App.Grows.of_eq {app app' : App} {loads : Bool}
    (hcurrentUser : app'.currentUser = app.currentUser)
    (hstoreItem : app'.storeItem = app.storeItem)
    (hrows : app'.inventoryItems = app.inventoryItems)
    (hoccupied : app'.coordinatesOccupied = app.coordinatesOccupied) :
    app.Grows loads app' := by
  refine ⟨hcurrentUser, hstoreItem, ?_, ?_, ?_, fun _ => hoccupied⟩
  · rw [hrows]
  · rw [hrows]
    exact fun row hrow => ⟨row, hrow, rfl, rfl⟩
  · exact hoccupied ▸ List.prefix_rfl

/-- Rows are added, and counts change. -/
theorem App.Grows.of_rows {app app' : App} {loads : Bool}
    (hcurrentUser : app'.currentUser = app.currentUser)
    (hstoreItem : app'.storeItem = app.storeItem) {f : GameItem → GameItem}
    (hf : ∀ row, (f row).key = row.key ∧ (f row).item = row.item) (added : List GameItem)
    (hrows : app'.inventoryItems.Perm (app.inventoryItems.map f ++ added))
    (hoccupied : app'.coordinatesOccupied = app.coordinatesOccupied) :
    app.Grows loads app' := by
  refine ⟨hcurrentUser, hstoreItem, ?_, ?_, ?_, fun _ => hoccupied⟩
  · rw [hrows.length_eq]
    simp
  · intro row hrow
    refine ⟨f row, hrows.mem_iff.mpr ?_, hf row⟩
    exact List.mem_append_left _ (List.mem_map_of_mem hrow)
  · exact hoccupied ▸ List.prefix_rfl

/-- The first callback of BUY changes no list that is offered from. -/
theorem buyLeavesRead_grows (uid : Uid) (cell tap : Nat) (snapshot : Snapshot) (app : App) :
    Leaves (app.Grows false) (buyLeavesRead uid cell tap snapshot app) := by
  cases snapshot with
  | error => exact .ok (.refl app _)
  | value node order =>
      refine .ite (.ok (.refl app _)) (.bind fun value _ => .ite ?_ ?_)
      · exact .ok (.of_eq rfl rfl rfl rfl)
      · exact .ok (.of_eq rfl rfl rfl rfl)

/-- The second callback of BUY adds to the rows, which only offers more. -/
theorem buyInventoryRead_grows (uid : Uid) (cell tap : Nat) (snapshot : Snapshot) (app : App) :
    Leaves (app.Grows false) (buyInventoryRead uid cell tap snapshot app) := by
  have hincrement : ∀ key (row : GameItem),
      (if row.key = key then row.incrementCount else row).key = row.key ∧
        (if row.key = key then row.incrementCount else row).item = row.item := by
    intro key row
    split <;> exact ⟨rfl, rfl⟩
  cases snapshot with
  | error => exact .ok (.refl app _)
  | value node order =>
      refine .ite (.bind fun leaves _ => .ite ?_ ?_) (.bind fun leaves _ => .ite ?_ ?_)
      · refine .ok (.of_rows rfl rfl (fun row => ⟨rfl, rfl⟩)
          [⟨(app.shown cell).key, (app.shown cell).item, 1, []⟩] ?_ rfl)
        rw [List.map_id']
        exact List.Perm.refl _
      · exact .ok (.of_eq rfl rfl rfl rfl)
      · refine .bind fun count _ => .ok (.of_rows rfl rfl
          (hincrement (app.shown cell).key) [] ?_ rfl)
        rw [List.append_nil]
        exact List.Perm.refl _
      · exact .ok (.of_eq rfl rfl rfl rfl)

/-- The callback of PLACE adds to the entries; the cells were counted as occupied at the
tap. -/
theorem placeActiveRead_grows (uid : Uid) (key item coordinate : String) (snapshot : Snapshot)
    (app : App) :
    Leaves (app.Grows false) (placeActiveRead uid key item coordinate snapshot app) := by
  cases snapshot with
  | error => exact .ok (.refl app _)
  | value node order =>
      refine .ite ?_ (.bind fun placed _ => ?_)
      · exact .ok (.of_eq rfl rfl rfl rfl)
      · exact .ok (.of_eq rfl rfl rfl rfl)

/-- Code that leaves the app as it is. -/
theorem leaves_same {app : App} {handled : Handled} (h : Leaves (fun app' => app' = app) handled) :
    Leaves (app.Grows false) handled := by
  intro fx hfx
  rw [h fx hfx]
  exact .refl app false

/-- The second callback of PLACE only writes to the store. -/
theorem placeInventoryRead_same (uid : Uid) (key : String) (snapshot : Snapshot) (app : App) :
    Leaves (fun app' => app' = app) (placeInventoryRead uid key snapshot app) := by
  cases snapshot with
  | error => exact .ok rfl
  | value node order => exact .ite (.ok rfl) (.bind fun count _ => .ite (.ok rfl) (.ok rfl))

/-- The callback of REMOVE only writes to the store. -/
theorem removeActiveRead_same (uid : Uid) (key coordinate : String) (snapshot : Snapshot)
    (app : App) :
    Leaves (fun app' => app' = app) (removeActiveRead uid key coordinate snapshot app) := by
  cases snapshot with
  | error => exact .ok rfl
  | value node order => exact .ite (.ok rfl) (.bind fun placed _ => .ok rfl)

/-- The second callback of REMOVE only writes to the store. -/
theorem removeInventoryRead_same (uid : Uid) (key : String) (snapshot : Snapshot) (app : App) :
    Leaves (fun app' => app' = app) (removeInventoryRead uid key snapshot app) := by
  cases snapshot with
  | error => exact .ok rfl
  | value node order =>
      exact .ite (.ite (.error _) (.ok rfl)) (.bind fun count _ => .ok rfl)

/-- Adding to a counter only writes to the store. -/
theorem addToCounter_same (uid : Uid) (counter : String) (total : Int) (snapshot : Snapshot)
    (app : App) :
    Leaves (fun app' => app' = app) (addToCounter uid counter total snapshot app) := by
  cases snapshot with
  | error => exact .ok rfl
  | value node order =>
      exact .ite (.ok rfl) (.bind fun value _ => .bind fun sum _ => .ok rfl)

/-- Crediting a redeem only writes to the store and shows an alert. -/
theorem redeemUserRead_same (leaves : Int) (snapshot : Snapshot) (app : App) :
    Leaves (fun app' => app' = app) (redeemUserRead leaves snapshot app) := by
  cases snapshot with
  | error => exact .ok rfl
  | value node order =>
      refine .ite (.ok rfl) ?_
      split
      · exact .ok rfl
      · exact .bind fun uid _ => .bind fun currentLeaves _ => .bind fun current _ =>
          .bind fun allTimeLeaves _ => .bind fun allTime _ => .ok rfl

/-- The callback on the name of a new user only writes the record. -/
theorem signInNameRead_same (uid : Uid) (displayName : Option String) (snapshot : Snapshot)
    (app : App) :
    Leaves (fun app' => app' = app) (signInNameRead uid displayName snapshot app) := by
  cases snapshot with
  | error => exact .ok rfl
  | value node order => exact .ite (.bind fun displayName _ => .ok rfl) (.ok rfl)

/-- The decision of a claim changes no list. -/
theorem claimDateRead_grows (uid : Uid) (result : String) (snapshot : Snapshot) (app : App) :
    Leaves (app.Grows false) (claimDateRead uid result snapshot app) := by
  cases snapshot with
  | error => exact .ok (.refl app _)
  | value node order =>
      refine .ite ?_ (.bind fun lastVisitedDate _ => .ite ?_ ?_)
      · exact .ok (.of_eq rfl rfl rfl rfl)
      · exact .ok (.of_eq rfl rfl rfl rfl)
      · exact .ok (.of_eq rfl rfl rfl rfl)

/-- The load of the inventory adds rows. -/
theorem signInInventoryRead_grows (snapshot : Snapshot) (app : App) :
    Leaves (app.Grows false) (signInInventoryRead snapshot app) := by
  cases snapshot with
  | error => exact .ok (.refl app _)
  | value node order =>
      refine .ite (.ok (.refl app _)) (.bind fun loaded _ => .ok ?_)
      refine .of_rows rfl rfl (fun row => ⟨rfl, rfl⟩) loaded ?_ rfl
      rw [List.map_id']
      exact List.perm_insertionSort _ _

/-- The load of the land adds entries and occupied cells: it is the one callback after
which a cell that was free may be occupied. -/
theorem signInActiveRead_grows (snapshot : Snapshot) (app : App) :
    Leaves (app.Grows true) (signInActiveRead snapshot app) := by
  cases snapshot with
  | error => exact .ok (.refl app _)
  | value node order =>
      refine .ite (.ok (.refl app _)) (.bind fun loaded _ => .ok ?_)
      exact ⟨rfl, rfl, Nat.le_refl _, fun row hrow => ⟨row, hrow, rfl, rfl⟩,
        List.prefix_append _ _, fun h => by cases h⟩

/-- The read of the placed items at a sign-in. -/
def Read.loadsLand : Read → Bool
  | .signInActive _ => true
  | _ => false

/-- **Callbacks only add** to the lists that the screens are about. -/
theorem callback_grows (read : Read) (snapshot : Snapshot) (app : App) :
    Leaves (app.Grows read.loadsLand) (read.callback snapshot app) := by
  cases read with
  | buyLeaves uid cell tap => exact buyLeavesRead_grows uid cell tap snapshot app
  | buyInventory uid cell tap key => exact buyInventoryRead_grows uid cell tap snapshot app
  | placeActive uid key item coordinate =>
      exact placeActiveRead_grows uid key item coordinate snapshot app
  | placeInventory uid key => exact leaves_same (placeInventoryRead_same uid key snapshot app)
  | removeActive uid key coordinate =>
      exact leaves_same (removeActiveRead_same uid key coordinate snapshot app)
  | removeInventory uid key => exact leaves_same (removeInventoryRead_same uid key snapshot app)
  | claimDate uid result => exact claimDateRead_grows uid result snapshot app
  | calculateCurrent uid total => exact leaves_same (addToCounter_same uid _ total snapshot app)
  | calculateAllTime uid total => exact leaves_same (addToCounter_same uid _ total snapshot app)
  | redeemUser uid leaves => exact leaves_same (redeemUserRead_same leaves snapshot app)
  | signInName uid displayName =>
      exact leaves_same (signInNameRead_same uid displayName snapshot app)
  | signInInventory uid => exact signInInventoryRead_grows snapshot app
  | signInActive uid => exact signInActiveRead_grows snapshot app

/-! ## What holds of the screens -/

/-- The inventory has a row of the item. -/
def App.Offers (app : App) (item : GameItem) : Prop :=
  ∃ row ∈ app.inventoryItems, row.key = item.key ∧ row.item = item.item

/-- Every displayed cell shows the item that BUY in it is about. -/
structure StoreViewController.Sound (screen : StoreViewController) (app : App)
    (delegates : List Nat) : Prop where
  cell : ∀ shown ∈ screen.cells, shown = GameTab.storeCell shown.cell (app.shown shown.cell)
  made : ∀ shown ∈ screen.cells, delegates[shown.cell]? = some screen.number

/-- The table asks for rows that are there, and PLACE in a cell is about the item that
the cell names. -/
structure InventoryViewController.Sound (screen : InventoryViewController) (app : App) :
    Prop where
  rows : screen.numberOfRows ≤ app.inventoryItems.length
  cell : ∀ shown ∈ screen.cells,
    shown = GameTab.inventoryCell shown.inventoryItem ∧ app.Offers shown.inventoryItem

/-- The button in the colour of the selection is the one whose place is taken. -/
structure PlacementGridViewController.Sound (grid : PlacementGridViewController) (app : App) :
    Prop where
  offers : app.Offers grid.activeItem
  coordinate : (grid.coordinateSelected = none ∧ grid.coordinate = "") ∨
    ∃ button, grid.coordinateSelected = some button ∧ grid.isEnabled button = true ∧
      grid.coordinate = button.coordinate
  color : ∀ button, grid.backgroundColor button =
    if grid.coordinateSelected = some button then .pink
    else if grid.isEnabled button then .white else .lightGray

/-- The text of a row names the coordinate that is selected with the row, and what is
selected is occupied. -/
structure RemoveItemViewController.Sound (screen : RemoveItemViewController) (app : App) :
    Prop where
  rows : screen.numberOfRows ≤ app.coordinatesOccupied.length
  cell : ∀ shown ∈ screen.cells, shown.row < screen.numberOfRows ∧
    ∃ item coordinate, app.coordinatesOccupied[shown.row]? = some coordinate ∧
      shown.text = item ++ " : " ++ coordinate
  selected : screen.selectedCoordinate = "" ∨
    screen.selectedCoordinate ∈ app.coordinatesOccupied

/-- What every screen of a tab shows stands for something that a tap on it may act on. -/
def GameTab.Sound (tab : GameTab) : Prop :=
  match tab.screen with
  | .land => True
  | .store screen => screen.Sound tab.app tab.delegates
  | .inventory screen => screen.Sound tab.app
  | .placementGrid _ grid => grid.Sound tab.app
  | .removeItem screen => screen.Sound tab.app

/-- The grid only offers places that are free. -/
def GameTab.OffersFree (tab : GameTab) : Prop :=
  match tab.screen with
  | .placementGrid _ grid => ∀ button, grid.isEnabled button = true →
      button.coordinate ∉ tab.app.coordinatesOccupied
  | _ => True

/-- What was offered is still offered after the app has grown. -/
theorem App.Grows.offers {app app' : App} {loads : Bool} (h : app.Grows loads app')
    {item : GameItem} (hitem : app.Offers item) : app'.Offers item := by
  obtain ⟨row, hrow, hkey, hname⟩ := hitem
  obtain ⟨row', hrow', hkey', hname'⟩ := h.row row hrow
  exact ⟨row', hrow', hkey'.trans hkey, hname'.trans hname⟩

namespace GameTab

/-- What the screens show stays true while the lists grow. -/
theorem Sound.grows {tab : GameTab} (h : tab.Sound) {app : App} {loads : Bool}
    (hgrows : tab.app.Grows loads app) : Sound { tab with app := app } := by
  unfold Sound at h ⊢
  cases hscreen : tab.screen with
  | land => trivial
  | store screen =>
      simp only [hscreen] at h ⊢
      refine ⟨?_, h.made⟩
      intro shown hshown
      have hcell := h.cell shown hshown
      unfold App.shown at hcell ⊢
      rw [hgrows.storeItem]
      exact hcell
  | inventory screen =>
      simp only [hscreen] at h ⊢
      refine ⟨Nat.le_trans h.rows hgrows.rows, ?_⟩
      intro shown hshown
      obtain ⟨hcell, hoffers⟩ := h.cell shown hshown
      exact ⟨hcell, hgrows.offers hoffers⟩
  | placementGrid screen grid =>
      simp only [hscreen] at h ⊢
      exact ⟨hgrows.offers h.offers, h.coordinate, h.color⟩
  | removeItem screen =>
      simp only [hscreen] at h ⊢
      refine ⟨Nat.le_trans h.rows hgrows.occupied.length_le, ?_, ?_⟩
      · intro shown hshown
        obtain ⟨hrow, item, coordinate, hcoordinate, htext⟩ := h.cell shown hshown
        refine ⟨hrow, item, coordinate, ?_, htext⟩
        obtain ⟨added, hadded⟩ := hgrows.occupied
        obtain ⟨hlt, -⟩ := List.getElem?_eq_some_iff.mp hcoordinate
        rw [← hadded, List.getElem?_append_left hlt, hcoordinate]
      · exact h.selected.imp id (fun hmem => hgrows.occupied.subset hmem)

/-- A grid that offers free cells still does after code that occupies none. -/
theorem OffersFree.grows {tab : GameTab} (h : tab.OffersFree) {app : App}
    (hgrows : tab.app.Grows false app) : OffersFree { tab with app := app } := by
  unfold OffersFree at h ⊢
  cases hscreen : tab.screen with
  | placementGrid screen grid =>
      simp only [hscreen] at h ⊢
      rw [hgrows.still rfl]
      exact h
  | _ => trivial

/-- Labels are not what this is about. -/
theorem sound_setLeaves {tab : GameTab} (h : tab.Sound) (view : LeavesView) (text : String) :
    (tab.setLeaves view text).Sound := by
  unfold setLeaves
  split
  · unfold Sound at h ⊢
    exact h
  · next number screen hscreen =>
      split
      · unfold Sound at h ⊢
        simp only [hscreen] at h ⊢
        exact ⟨h.cell, h.made⟩
      · exact h
  · exact h

/-- The label of the leaves has no part in what a grid offers. -/
theorem offersFree_setLeaves {tab : GameTab} (h : tab.OffersFree) (view : LeavesView)
    (text : String) : (tab.setLeaves view text).OffersFree := by
  unfold setLeaves
  split
  · exact h
  · split
    · trivial
    · exact h
  · exact h

/-- A cell of the store is bound to another item. -/
theorem sound_bindCell {tab : GameTab} {screen : StoreViewController} {cell : Nat}
    {delegates : List Nat} (hother : ∀ shown ∈ screen.cells, shown.cell ≠ cell →
      shown = storeCell shown.cell (tab.app.shown shown.cell) ∧
        delegates[shown.cell]? = some screen.number)
    (hmade : delegates[cell]? = some screen.number) (storeItem : ShelfItem) :
    Sound (bindCell cell storeItem screen { tab with delegates := delegates }) := by
  have hshown : (tab.app.cellForRow cell storeItem).shown cell = storeItem.val := by
    simp [App.shown, App.cellForRow]
  refine ⟨?_, ?_⟩
  · intro shown hmem
    rcases List.mem_append.mp hmem with hmem | hmem
    · obtain ⟨hmem, hne⟩ := List.mem_filter.mp hmem
      have hne' : shown.cell ≠ cell := of_decide_eq_true hne
      have hsame : (tab.app.cellForRow cell storeItem).shown shown.cell =
          tab.app.shown shown.cell := by
        simp [App.shown, App.cellForRow, Function.update_of_ne hne']
      exact (hother shown hmem hne').1.trans (congrArg (storeCell shown.cell) hsame.symm)
    · obtain rfl := List.mem_singleton.mp hmem
      exact congrArg (storeCell cell) hshown.symm
  · intro shown hmem
    rcases List.mem_append.mp hmem with hmem | hmem
    · obtain ⟨hmem, hne⟩ := List.mem_filter.mp hmem
      exact (hother shown hmem (of_decide_eq_true hne)).2
    · obtain rfl := List.mem_singleton.mp hmem
      exact hmade

/-- A store row that is laid out, in a new cell or in one that is reused, shows an item of
the shelf. -/
theorem storeCellForRow_sound {tab : GameTab} {screen : StoreViewController}
    (hscreen : tab.screen = .store screen) (h : tab.Sound) (reused : Option Nat) (index : Nat) :
    Leaves Sound (storeCellForRow reused index screen tab) := by
  have hstore : screen.Sound tab.app tab.delegates := by simpa only [Sound, hscreen] using h
  refine .ite (.bind fun storeItem _ => ?_) (.ok h)
  cases reused with
  | none =>
      refine .ok (sound_bindCell ?_ ?_ storeItem)
      · intro shown hmem _
        have hmade := hstore.made shown hmem
        obtain ⟨hlt, -⟩ := List.getElem?_eq_some_iff.mp hmade
        exact ⟨hstore.cell shown hmem, by rw [List.getElem?_append_left hlt, hmade]⟩
      · simp
  | some cell =>
      dsimp only
      split
      · next hmade =>
          have hother : ∀ shown ∈ screen.cells, shown.cell ≠ cell →
              shown = storeCell shown.cell (tab.app.shown shown.cell) ∧
                tab.delegates[shown.cell]? = some screen.number :=
            fun shown hmem _ => ⟨hstore.cell shown hmem, hstore.made shown hmem⟩
          exact .ok (sound_bindCell hother hmade storeItem)
      · exact .ok h

/-- The store list shows items of the shelf. -/
theorem display_sound (items : List ShelfItem) (screen : StoreViewController) (tab : GameTab) :
    (display items screen tab).Sound := by
  refine ⟨?_, ?_⟩
  · intro shown hmem
    cases hmem
  · intro shown hmem
    cases hmem

/-- When the inventory appears it takes its rows from the app, so each of them is offered.
-/
theorem inventoryWillAppear_sound (screen : InventoryViewController) (tab : GameTab) :
    (inventoryWillAppear screen tab).Sound :=
  ⟨Nat.le_refl _, fun _ hmem => by cases hmem⟩

/-- A row that exists is found. -/
theorem getElem?_of_row {α : Type} {items : List α} {index : Nat} {item : α}
    (h : row items index = .ok item) : items[index]? = some item := by
  unfold row at h
  split at h
  · next found hfound =>
      obtain rfl := Except.ok.inj h
      exact hfound
  · cases h

/-- A row that is laid out shows an item from the list of the screen, at its place. -/
theorem inventoryCellForRow_sound {tab : GameTab} {screen : InventoryViewController}
    (hscreen : tab.screen = .inventory screen) (h : tab.Sound) (index : Nat) :
    Leaves Sound (inventoryCellForRow index screen tab) := by
  have hinventory : screen.Sound tab.app := by simpa only [Sound, hscreen] using h
  refine .ite (.bind fun inventoryItem hrow => .ok ?_) (.ok h)
  have hmem := List.mem_of_getElem? (getElem?_of_row hrow)
  refine ⟨hinventory.rows, ?_⟩
  intro shown hshown
  rcases List.mem_append.mp hshown with hshown | hshown
  · exact hinventory.cell shown hshown
  · obtain rfl := List.mem_singleton.mp hshown
    exact ⟨rfl, inventoryItem, hmem, rfl, rfl⟩

/-- A grid that is opened for an offered item places that item. -/
theorem placementGridDidLoad_sound {app : App} {item : GameItem} (hitem : app.Offers item)
    (coordinatesOccupied : List String) :
    (placementGridDidLoad item coordinatesOccupied).Sound app := by
  refine ⟨hitem, Or.inl ⟨rfl, rfl⟩, ?_⟩
  intro button
  simp [placementGridDidLoad]

/-- When the list of placed items appears, its coordinates are the occupied cells of the
app. -/
theorem removeItemWillAppear_sound {tab : GameTab} {screen : RemoveItemViewController}
    (h : screen.selectedCoordinate = "" ∨
      screen.selectedCoordinate ∈ tab.app.coordinatesOccupied) :
    (removeItemWillAppear screen tab).Sound :=
  ⟨Nat.le_refl _, fun _ hmem => absurd hmem List.not_mem_nil, h⟩

/-- A row that is laid out shows the text of the coordinate at its place, and of no other.
-/
theorem removeItemCellForRow_sound {tab : GameTab} {screen : RemoveItemViewController}
    (hscreen : tab.screen = .removeItem screen) (h : tab.Sound) (index : Nat) :
    Leaves Sound (removeItemCellForRow index screen tab) := by
  have hremove : screen.Sound tab.app := by simpa only [Sound, hscreen] using h
  unfold removeItemCellForRow
  split
  · next hrow =>
      refine .bind fun coordinate hcoordinate => .ok ⟨hremove.rows, ?_, hremove.selected⟩
      intro shown hshown
      rcases List.mem_append.mp hshown with hshown | hshown
      · exact hremove.cell shown hshown
      · obtain rfl := List.mem_singleton.mp hshown
        exact ⟨hrow, _, coordinate, getElem?_of_row hcoordinate, rfl⟩
  · exact .ok h

/-- A displayed row that is selected selects the coordinate of its text. -/
theorem didSelectRow_shown {tab : GameTab} {screen : RemoveItemViewController}
    (h : screen.Sound tab.app) {shown : TextCell} (hshown : shown ∈ screen.cells) :
    ∃ item coordinate, shown.text = item ++ " : " ++ coordinate ∧
      didSelectRow shown.row screen tab =
        { tab with
          screen := .removeItem { screen with selectedCoordinate := coordinate } }.done := by
  obtain ⟨hrow, item, coordinate, hcoordinate, htext⟩ := h.cell shown hshown
  refine ⟨item, coordinate, htext, ?_⟩
  unfold didSelectRow row
  rw [if_pos hrow, hcoordinate]
  rfl

/-- The coordinate selected is the one that the row tapped shows, so REMOVE acts on it. -/
theorem didSelectRow_sound {tab : GameTab} {screen : RemoveItemViewController}
    (hscreen : tab.screen = .removeItem screen) (h : tab.Sound) (index : Nat) :
    Leaves Sound (didSelectRow index screen tab) := by
  have hremove : screen.Sound tab.app := by simpa only [Sound, hscreen] using h
  refine .ite (.bind fun coordinate hcoordinate => .ok ?_) (.ok h)
  exact ⟨hremove.rows, hremove.cell,
    Or.inr (List.mem_of_getElem? (getElem?_of_row hcoordinate))⟩

/-- A screen that appears is refreshed from the app, so that what it shows is offered by
it. -/
theorem viewWillAppear_sound {tab : GameTab} (h : tab.Sound) : tab.viewWillAppear.1.Sound := by
  unfold Sound at h
  unfold viewWillAppear
  cases hscreen : tab.screen with
  | land =>
      unfold Sound landWillAppear
      simp only [hscreen]
  | store screen => exact display_sound storeItems.attach screen tab
  | inventory screen => exact inventoryWillAppear_sound screen tab
  | placementGrid screen grid =>
      unfold Sound
      simp only [hscreen] at h ⊢
      exact h
  | removeItem screen =>
      simp only [hscreen] at h
      exact removeItemWillAppear_sound h.selected

end GameTab

/-- The button that is selected has the colour of the selection, and no other. -/
theorem PlacementGridViewController.onSelectButton_sound {grid : PlacementGridViewController}
    {app : App} (h : grid.Sound app) {button : Button} (henabled : grid.isEnabled button = true) :
    (grid.onSelectButton button).Sound app := by
  refine ⟨h.offers, Or.inr ⟨button, rfl, henabled, rfl⟩, ?_⟩
  intro other
  have hcolor := h.color other
  rw [onSelectButton_isEnabled, onSelectButton_coordinateSelected]
  by_cases hother : other = button
  · subst hother
    rw [if_pos rfl]
    exact Function.update_self other _ _
  · rw [if_neg (by simpa using Ne.symm hother)]
    refine (Function.update_of_ne hother _ _).trans ?_
    rcases h.coordinate with ⟨hnone, -⟩ | ⟨selected, hselected, hwas, -⟩
    · simpa [hnone] using hcolor
    · simp only [hselected] at hcolor ⊢
      by_cases hsame : other = selected
      · subst hsame
        rw [Function.update_self, if_pos hwas]
      · rw [Function.update_of_ne hsame, hcolor, if_neg (by simpa using Ne.symm hsame)]

namespace GameTap

open GameTab

/-- Code of the app, run under a screen, leaves the screen as it is. -/
theorem leaves_lift {P : GameTab → Prop} {tab : GameTab} {handled : Handled}
    (h : ∀ fx, handled = .ok fx → P { tab with app := fx.state }) :
    Leaves P (tab.lift handled) := by
  cases handled with
  | error trap => exact .error _
  | ok fx => exact .ok (h fx rfl)

/-- What code issues makes no difference to what it leaves. -/
theorem leaves_map {P : GameTab → Prop} {handled : TabHandled} (h : Leaves P handled)
    {next : Effects GameTab Write TabRead → Effects GameTab Write TabRead}
    (hnext : ∀ fx, (next fx).state = fx.state) : Leaves P (handled.map next) := by
  cases handled with
  | error trap => exact .error _
  | ok fx => exact .ok ((hnext fx).symm ▸ h fx rfl)

/-- Where the code of the app only makes its lists grow, what the tab around it shows
stays true. -/
theorem lift_sound {tab : GameTab} (h : tab.Sound) {loads : Bool} {handled : Handled}
    (hgrows : Leaves (tab.app.Grows loads) handled) : Leaves Sound (tab.lift handled) :=
  leaves_lift fun fx hfx => h.grows (hgrows fx hfx)

/-- CLAIM changes no list of the app. -/
theorem claimOnClick_grows (result : String) (app : App) :
    Leaves (app.Grows false) (WillItRecycle.claimOnClick result app) :=
  .bind fun _ _ => .ok (.refl app _)

/-- BUY changes no list at its tap. -/
theorem buyOnClick_grows (cell : Nat) (app : App) :
    Leaves (app.Grows false) (WillItRecycle.buyOnClick cell app) :=
  .bind fun _ _ => .ok (.of_eq rfl rfl rfl rfl)

/-- REDEEM changes no list of the app. -/
theorem redeem_grows (quantities : Quantities) (dateString : String) (autoId : Nat → String)
    (app : App) :
    Leaves (app.Grows false) (redeemButtonPressed quantities dateString autoId app) :=
  .bind fun _ _ => .bind fun _ _ =>
    .ite (.ok (.of_eq rfl rfl rfl rfl)) (.ok (.of_eq rfl rfl rfl rfl))

/-- PLACE ITEM: the grid is left, or an alert shown. -/
theorem leaves_placementCompleted {P : GameTab → Prop} {tab : GameTab}
    {screen : InventoryViewController} {grid : PlacementGridViewController}
    (hplaced : ∀ next, P (inventoryWillAppear screen next))
    (halert : P { tab with app := tab.app.present PlacementGridViewController.invalidInput }) :
    Leaves P (placementCompleted screen grid tab) := by
  unfold placementCompleted
  by_cases hcoordinate : grid.coordinate ≠ ""
  · cases hcode : tab.lift _ with
    | error trap => exact .error _
    | ok fx =>
        simp only [Except.map, if_pos hcoordinate]
        exact .ok (hplaced fx.state)
  · rw [WillItRecycle.onPlacementCompleted, if_neg hcoordinate]
    simp only [lift, App.done, Except.mapError, Except.map, if_neg hcoordinate]
    exact .ok halert

/-- REMOVE: the screen is left, or an alert shown. -/
theorem leaves_remove {P : GameTab → Prop} {tab : GameTab} {screen : RemoveItemViewController}
    (hremoved : ∀ next : GameTab, P next.pop.1)
    (halert : P { tab with app := tab.app.present RemoveItemViewController.invalidInput }) :
    Leaves P (GameTab.remove screen tab) := by
  unfold GameTab.remove
  by_cases hcoordinate : screen.selectedCoordinate ≠ ""
  · cases hcode : tab.lift _ with
    | error trap => exact .error _
    | ok fx =>
        simp only [Except.map, if_pos hcoordinate]
        exact .ok (hremoved fx.state)
  · rw [WillItRecycle.onRemove, if_neg hcoordinate]
    simp only [lift, App.done, Except.mapError, Except.map, if_neg hcoordinate]
    exact .ok halert

/-- Another tab is chosen, or comes back. -/
theorem sound_selected {tab : GameTab} (h : tab.Sound) (selected loaded : Bool)
    (images : GameScreen String) :
    Sound { tab with selected := selected, loaded := loaded, images := images } := by
  unfold Sound at h ⊢
  exact h

/-- Choosing the tab loads the land or shows its top screen again; either way what is shown
is then refreshed from the app. -/
theorem enter_sound {tab : GameTab} (h : tab.Sound) : tab.enter.1.Sound := by
  unfold enter
  dsimp only
  split
  · exact viewWillAppear_sound (sound_selected h _ _ _)
  · exact viewWillAppear_sound (sound_selected h _ _ _)

/-- **A tap keeps what the screens show true.** -/
theorem handle_sound (range : String → String → Bool) {tab : GameTab} (h : tab.Sound)
    (tap : GameTap) : Leaves Sound (tap.handle range tab) := by
  have hleave : Leaves Sound (leave tab) := .ok (sound_selected h _ _ _)
  unfold handle
  split
  · cases hscreen : tab.screen with
    | land =>
        cases tap with
        | claimOnClick result => exact lift_sound h (claimOnClick_grows result tab.app)
        | openStore =>
            exact .ok (display_sound storeItems.attach _ { tab with stores := tab.stores + 1 })
        | openInventory => exact .ok (inventoryWillAppear_sound _ tab)
        | openRemoveItem => exact .ok (removeItemWillAppear_sound (Or.inl rfl))
        | leaveTab => exact hleave
        | _ => exact .ok h
    | store screen =>
        cases tap with
        | back => exact .ok trivial
        | textDidChange searchText => exact .ok (display_sound _ screen tab)
        | searchBarCancelButtonClicked => exact .ok (display_sound _ screen tab)
        | storeCellForRow reused index => exact storeCellForRow_sound hscreen h reused index
        | buyOnClick cell =>
            exact .ite (lift_sound h (buyOnClick_grows cell tab.app)) (.ok h)
        | leaveTab => exact hleave
        | _ => exact .ok h
    | inventory screen =>
        cases tap with
        | back => exact .ok trivial
        | inventoryCellForRow index => exact inventoryCellForRow_sound hscreen h index
        | onPlaceItem index =>
            simp only [onInventory]
            cases hcell : screen.cells[index]? with
            | none => exact .ok h
            | some cell =>
                have hinventory : screen.Sound tab.app := by
                  simpa only [Sound, hscreen] using h
                have hoffers := (hinventory.cell cell (List.mem_of_getElem? hcell)).2
                exact .ok (placementGridDidLoad_sound hoffers _)
        | leaveTab => exact hleave
        | _ => exact .ok h
    | placementGrid screen grid =>
        have hgrid : grid.Sound tab.app := by simpa only [Sound, hscreen] using h
        cases tap with
        | onSelectButton button =>
            simp only [onPlacementGrid]
            split
            · next henabled => exact .ok (grid.onSelectButton_sound hgrid henabled)
            · exact .ok h
        | onPlacementCompleted =>
            exact leaves_placementCompleted (inventoryWillAppear_sound screen)
              (h.grows (App.Grows.of_eq rfl rfl rfl rfl : tab.app.Grows false
                (tab.app.present PlacementGridViewController.invalidInput)))
        | onBackButtonPressed => exact .ok (inventoryWillAppear_sound screen tab)
        | _ => exact .ok h
    | removeItem screen =>
        cases tap with
        | back => exact .ok trivial
        | removeItemCellForRow index => exact removeItemCellForRow_sound hscreen h index
        | didSelectRow index => exact didSelectRow_sound hscreen h index
        | onRemove =>
            exact leaves_remove (fun _ => trivial)
              (h.grows (App.Grows.of_eq rfl rfl rfl rfl : tab.app.Grows false
                (tab.app.present RemoveItemViewController.invalidInput)))
        | leaveTab => exact hleave
        | _ => exact .ok h
  · cases tap with
    | enterTab => exact .ok (enter_sound h)
    | redeem quantities dateString autoId =>
        exact lift_sound h (redeem_grows quantities dateString autoId tab.app)
    | _ => exact .ok h

/-- The grid is opened with the places that are free then, and keeps offering these. -/
theorem handle_offersFree (range : String → String → Bool) {tab : GameTab} (h : tab.OffersFree)
    (tap : GameTap) : Leaves OffersFree (tap.handle range tab) := by
  have hlift : ∀ {handled : Handled}, Leaves (tab.app.Grows false) handled →
      Leaves OffersFree (tab.lift handled) :=
    fun hgrows => leaves_lift fun fx hfx => h.grows (hgrows fx hfx)
  unfold handle
  split
  · cases hscreen : tab.screen with
    | land =>
        have hstay : ∀ next : GameTab, next.screen = .land → next.OffersFree := by
          intro next hnext
          unfold OffersFree
          rw [hnext]
          trivial
        cases tap with
        | claimOnClick result => exact hlift (claimOnClick_grows result tab.app)
        | leaveTab => exact .ok (hstay _ hscreen)
        | openStore | openInventory | openRemoveItem => exact .ok trivial
        | _ => exact .ok h
    | store screen =>
        cases tap with
        | storeCellForRow reused index =>
            refine .ite (.bind fun storeItem _ => ?_) (.ok h)
            cases reused with
            | none => exact .ok trivial
            | some cell => exact .ite (.ok trivial) (.ok h)
        | buyOnClick cell => exact .ite (hlift (buyOnClick_grows cell tab.app)) (.ok h)
        | back | textDidChange _ | searchBarCancelButtonClicked => exact .ok trivial
        | leaveTab =>
            refine .ok ?_
            unfold OffersFree
            simp only [hscreen]
        | _ => exact .ok h
    | inventory screen =>
        cases tap with
        | inventoryCellForRow index =>
            exact .ite (.bind fun inventoryItem _ => .ok trivial) (.ok h)
        | onPlaceItem index =>
            simp only [onInventory]
            cases screen.cells[index]? with
            | none => exact .ok h
            | some cell => exact .ok (fun button henabled => of_decide_eq_true henabled)
        | back => exact .ok trivial
        | leaveTab =>
            refine .ok ?_
            unfold OffersFree
            simp only [hscreen]
        | _ => exact .ok h
    | placementGrid screen grid =>
        have hfree : ∀ button, grid.isEnabled button = true →
            button.coordinate ∉ tab.app.coordinatesOccupied := by
          simpa only [OffersFree, hscreen] using h
        cases tap with
        | onSelectButton button =>
            simp only [onPlacementGrid]
            split
            · exact .ok hfree
            · exact .ok h
        | onPlacementCompleted =>
            exact leaves_placementCompleted (fun _ => trivial) (h.grows (.of_eq rfl rfl rfl rfl))
        | onBackButtonPressed => exact .ok trivial
        | _ => exact .ok h
    | removeItem screen =>
        cases tap with
        | removeItemCellForRow index | didSelectRow index =>
            exact .ite (.bind fun coordinate _ => .ok trivial) (.ok h)
        | onRemove =>
            exact leaves_remove (fun _ => trivial) (h.grows (.of_eq rfl rfl rfl rfl))
        | back => exact .ok trivial
        | leaveTab =>
            refine .ok ?_
            unfold OffersFree
            simp only [hscreen]
        | _ => exact .ok h
  · cases tap with
    | enterTab =>
        refine .ok ?_
        have hview : ∀ next : GameTab, next.OffersFree → next.viewWillAppear.1.OffersFree := by
          intro next hnext
          unfold viewWillAppear
          cases hscreen : next.screen with
          | land =>
              unfold OffersFree landWillAppear
              simp only [hscreen]
          | placementGrid screen grid => exact hnext
          | store _ | inventory _ | removeItem _ => trivial
        unfold enter
        dsimp only
        split
        · exact hview _ h
        · exact hview _ h
    | redeem quantities dateString autoId =>
        exact hlift (redeem_grows quantities dateString autoId tab.app)
    | _ => exact .ok h

end GameTap

end WillItRecycle

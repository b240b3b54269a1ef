import WillItRecycle.DailyReward
import WillItRecycle.GameScreen
import WillItRecycle.ReadOutcomes
import WillItRecycle.SortedRows
import Mathlib.Data.String.Basic

/-!
# The order in which a load enumerates

Swift enumerates the two dictionaries of a record in an order of its own, and the
two reads of a sign-in are answered and served in any order.  With different
display names and no cell placed twice this is not seen: two sign-ins show the same
inventory, the same land and the same reward (`load_order`).
-/

namespace WillItRecycle

open PathTree ReadCallback SortedRows

/-- The cells where a record has a key placed. -/
def placed (node : FNode) (key : String) : List String :=
  (asStringArray ((node.child "activeItems").child key)).getD []

/-- A record whose two dictionaries can be cast, with different display names, and
cells of the grid of which none is placed under two keys. -/
structure Loadable (node : FNode) : Prop where
  displayName : (node.child "displayName").isEmpty = false
  inventory : (node.child "inventory").isEmpty = true ∨
    (asDictionary (node.child "inventory")).isSome
  counts : ∀ key ∈ (node.child "inventory").names,
    (asInt ((node.child "inventory").child key)).isSome
  activeItems : (node.child "activeItems").isEmpty = true ∨
    (asDictionary (node.child "activeItems")).isSome
  coordinates : ∀ key ∈ (node.child "activeItems").names,
    (asStringArray ((node.child "activeItems").child key)).isSome
  names : ∀ key ∈ (node.child "inventory").names,
    ∀ other ∈ (node.child "inventory").names, itemName key = itemName other → key = other
  grid : ∀ key ∈ (node.child "activeItems").names,
    ∀ coordinate ∈ placed node key, coordinate ∈ gridCoordinates
  apart : ∀ key ∈ (node.child "activeItems").names,
    ∀ other ∈ (node.child "activeItems").names, ∀ coordinate ∈ placed node key,
      coordinate ∈ placed node other → key = other

/-- A key with a cell is one of the dictionary. -/
theorem mem_names_of_placed {node : FNode} {key coordinate : String}
    (hplaced : coordinate ∈ placed node key) : key ∈ (node.child "activeItems").names := by
  rw [Tree.mem_names_iff]
  intro hempty
  have hnone : placed node key = [] := by
    rw [placed, hempty]
    rfl
  rw [hnone] at hplaced
  cases hplaced

/-! ## The rows of a record -/

def inventoryRow (node : FNode) (key : String) : GameItem :=
  ⟨key, itemName key, (asInt ((node.child "inventory").child key)).getD 0, []⟩

def landRow (node : FNode) (key : String) : GameItem :=
  ⟨key, itemName key, (placed node key).length, placed node key⟩

/-- A node that can be cast to a dictionary has its names as keys. -/
theorem asDictionary_eq_of_isSome {node : FNode} (h : (asDictionary node).isSome) :
    asDictionary node = some node.names ∧ node.isEmpty = false := by
  constructor
  · unfold asDictionary at h ⊢
    split
    · rename_i hnone
      rw [if_pos hnone] at h
      cases h
    · rfl
  · cases hnode : node.isEmpty with
    | true => simp [asDictionary, hnode] at h
    | false => rfl

namespace Loadable

variable {node : FNode} (h : Loadable node)
include h

/-- The inventory a load leaves, in some order of the keys. -/
theorem freshInventory_eq (order : List String) :
    ∃ keys : List String, keys.Perm (node.child "inventory").names ∧
      freshInventory order (node.child "inventory") =
        .ok (sortByItem (keys.map (inventoryRow node))) := by
  rcases h.inventory with hempty | hdictionary
  · rw [Tree.isEmpty_iff.mp hempty]
    exact ⟨[], by simp, rfl⟩
  · have hkeys := enumerate_perm order (node.child "inventory").nodup_names
    refine ⟨_, hkeys, ?_⟩
    obtain ⟨hnames, hempty⟩ := asDictionary_eq_of_isSome hdictionary
    have hload : loadedInventory order (node.child "inventory") =
        .ok ((enumerate order (node.child "inventory").names).map (inventoryRow node)) := by
      unfold loadedInventory
      rw [hnames]
      apply mapM_eq_ok_map
      intro key hkey
      obtain ⟨count, hcount⟩ := Option.isSome_iff_exists.mp (h.counts key (hkeys.subset hkey))
      simp [inventoryRow, hcount, bind, Except.bind]
    rw [freshInventory, hempty, hload]
    rfl

theorem freshActive_eq (order : List String) :
    ∃ keys : List String, keys.Perm (node.child "activeItems").names ∧
      freshActive order (node.child "activeItems") = .ok (keys.map (landRow node)) := by
  rcases h.activeItems with hempty | hdictionary
  · rw [Tree.isEmpty_iff.mp hempty]
    exact ⟨[], by simp, rfl⟩
  · have hkeys := enumerate_perm order (node.child "activeItems").nodup_names
    refine ⟨_, hkeys, ?_⟩
    obtain ⟨hnames, hempty⟩ := asDictionary_eq_of_isSome hdictionary
    have hload : loadedActive order (node.child "activeItems") =
        .ok ((enumerate order (node.child "activeItems").names).map (landRow node)) := by
      unfold loadedActive
      rw [hnames]
      apply mapM_eq_ok_map
      intro key hkey
      obtain ⟨value, hvalue⟩ :=
        Option.isSome_iff_exists.mp (h.coordinates key (hkeys.subset hkey))
      simp [landRow, placed, hvalue, bind, Except.bind]
    rw [freshActive, hempty, hload]
    rfl

end Loadable

/-! ## What does not depend on the order -/

/-- What the screens show of a load. -/
structure SameLoad (app app' : App) : Prop where
  inventoryItems : app.inventoryItems = app'.inventoryItems
  coordinatesOccupied : app.coordinatesOccupied.Perm app'.coordinatesOccupied
  found : ∀ coordinate, (findActiveItemCoordinate app.activeItems coordinate).key =
    (findActiveItemCoordinate app'.activeItems coordinate).key
  reward : rewardTotal app.activeItems = rewardTotal app'.activeItems

/-- The buttons show the items a record has placed, and nothing else. -/
def ShowsPlaced (node : FNode) (app : App) : Prop :=
  ∀ (UIImage : Type) (named : String → Option UIImage) (screen : GameScreen UIImage)
    (button : Button),
    (∀ key, button.coordinate ∈ placed node key →
      loadActiveItems named app.activeItems (clearItems screen) button = named key) ∧
    ((∀ key, button.coordinate ∉ placed node key) →
      loadActiveItems named app.activeItems (clearItems screen) button = none)

section Order

variable {uid : Uid} {node : FNode} {app : App}

theorem SignedIn.perm_inventory (h : SignedIn uid node app) (hload : Loadable node) :
    ∃ keys : List String, keys.Perm (node.child "inventory").names ∧
      app.inventoryItems = sortByItem (keys.map (inventoryRow node)) := by
  obtain ⟨order, hrows⟩ := h.inventoryItems
  obtain ⟨keys, hkeys, heq⟩ := hload.freshInventory_eq order
  exact ⟨keys, hkeys, Except.ok.inj (hrows.symm.trans heq)⟩

theorem SignedIn.perm_land (h : SignedIn uid node app) (hload : Loadable node) :
    app.activeItems.Perm ((node.child "activeItems").names.map (landRow node)) := by
  obtain ⟨order, hrows⟩ := h.activeItems
  obtain ⟨keys, hkeys, heq⟩ := hload.freshActive_eq order
  rw [Except.ok.inj (hrows.symm.trans heq)]
  exact hkeys.map _

/-- The entry found on a cell is the one of the key placed there. -/
theorem SignedIn.found_of_placed (h : SignedIn uid node app) (hload : Loadable node)
    {key coordinate : String} (hplaced : coordinate ∈ placed node key) :
    (findActiveItemCoordinate app.activeItems coordinate).key = key ∧
      ∃ item ∈ app.activeItems, coordinate ∈ item.coordinates := by
  have hperm := h.perm_land hload
  have hname := mem_names_of_placed hplaced
  have hitem : landRow node key ∈ app.activeItems :=
    hperm.symm.subset (List.mem_map_of_mem hname)
  refine ⟨?_, landRow node key, hitem, hplaced⟩
  rcases findActiveItemCoordinate_cases app.activeItems coordinate with
    ⟨_, hnone⟩ | ⟨hmem, hcoordinate⟩
  · exact absurd hplaced (hnone _ hitem)
  · obtain ⟨other, hother, heq⟩ := List.mem_map.mp (hperm.subset hmem)
    rw [← heq] at hcoordinate ⊢
    exact hload.apart other hother key hname coordinate hcoordinate hplaced

/-- On a free cell no entry is found. -/
theorem SignedIn.found_of_free (h : SignedIn uid node app) (hload : Loadable node)
    {coordinate : String} (hfree : ∀ key, coordinate ∉ placed node key) :
    findActiveItemCoordinate app.activeItems coordinate = noItem ∧
      ¬ ∃ item ∈ app.activeItems, coordinate ∈ item.coordinates := by
  have hnone : ¬ ∃ item ∈ app.activeItems, coordinate ∈ item.coordinates := by
    rintro ⟨item, hitem, hcoordinate⟩
    obtain ⟨key, _, rfl⟩ := List.mem_map.mp ((h.perm_land hload).subset hitem)
    exact hfree key hcoordinate
  refine ⟨?_, hnone⟩
  rcases findActiveItemCoordinate_cases app.activeItems coordinate with
    ⟨hfound, _⟩ | ⟨hmem, hcoordinate⟩
  · exact hfound
  · exact absurd ⟨_, hmem, hcoordinate⟩ hnone

/-- The land on the screen after a load. -/
theorem SignedIn.showsPlaced (h : SignedIn uid node app) (hload : Loadable node) :
    ShowsPlaced node app := by
  intro UIImage named screen button
  have hgrid : ∀ item ∈ app.activeItems, ∀ coordinate ∈ item.coordinates,
      coordinate ∈ gridCoordinates := by
    intro item hitem
    obtain ⟨key, hkey, rfl⟩ := List.mem_map.mp ((h.perm_land hload).subset hitem)
    exact hload.grid key hkey
  rw [loadActiveItems_eq named hgrid screen button]
  constructor
  · intro key hplaced
    obtain ⟨hkey, hsome⟩ := h.found_of_placed hload hplaced
    rw [if_pos hsome, hkey]
  · intro hfree
    rw [if_neg (h.found_of_free hload hfree).2]

theorem rewardTotal_perm {items items' : List GameItem} (hperm : items.Perm items') :
    rewardTotal items = rewardTotal items' := by
  have hentries : ∀ key, entriesOf key items = entriesOf key items' :=
    fun key => (hperm.filter _).length_eq
  simp only [rewardTotal_eq_sum, hentries]

/-- Two loads of a record. -/
theorem SignedIn.sameLoad {app' : App} (h : SignedIn uid node app)
    (h' : SignedIn uid node app') (hload : Loadable node) : SameLoad app app' := by
  have hland := (h.perm_land hload).trans (h'.perm_land hload).symm
  refine ⟨?_, ?_, ?_, rewardTotal_perm hland⟩
  · obtain ⟨keys, hkeys, hrows⟩ := h.perm_inventory hload
    obtain ⟨keys', hkeys', hrows'⟩ := h'.perm_inventory hload
    rw [hrows, hrows']
    change sortRows GameItem.item _ = sortRows GameItem.item _
    apply sortRows_eq_of_perm ((hkeys.trans hkeys'.symm).map _)
    intro row hrow other hother hname
    obtain ⟨key, hkey, rfl⟩ := List.mem_map.mp hrow
    obtain ⟨key', hkey', rfl⟩ := List.mem_map.mp hother
    rw [hload.names key (hkeys.subset hkey) key' (hkeys.subset hkey') hname]
  · rw [h.coordinatesOccupied, h'.coordinatesOccupied]
    exact hland.flatMap_right _
  · intro coordinate
    by_cases hfree : ∀ key, coordinate ∉ placed node key
    · rw [(h.found_of_free hload hfree).1, (h'.found_of_free hload hfree).1]
    · obtain ⟨key, hplaced⟩ := not_forall_not.mp hfree
      rw [(h.found_of_placed hload hplaced).1, (h'.found_of_placed hload hplaced).1]

end Order

/-! ## Runs that sign in -/

section Run

variable {uid : Uid} {displayName : Option String} {remote : Remote} {app : App}

/-- What the callback on the inventory makes of an answer. -/
theorem signInInventoryRead_reply (hload : Loadable (remote uid)) (reply : Reply) {l : App}
    (hclear : l.inventoryItems = []) :
    ∃ rows, (reply.Succeeds → ∃ order,
        freshInventory order ((remote uid).child "inventory") = .ok rows) ∧
      client.callback (.signInInventory uid) (client.answer (.signInInventory uid) reply remote)
        l = .ok ⟨{ l with inventoryItems := rows }, [], []⟩ := by
  cases reply with
  | error =>
      refine ⟨l.inventoryItems, fun hsucceeds => hsucceeds.elim, rfl⟩
  | value order =>
      obtain ⟨keys, _, hfresh⟩ := hload.freshInventory_eq order
      exact ⟨_, fun _ => ⟨order, hfresh⟩, signInInventoryRead_fresh hfresh hclear⟩

theorem signInActiveRead_reply (hload : Loadable (remote uid)) (reply : Reply) {l : App}
    (hclear : l.activeItems = []) (hoccupied : l.coordinatesOccupied = []) :
    ∃ items, (reply.Succeeds → ∃ order,
        freshActive order ((remote uid).child "activeItems") = .ok items) ∧
      client.callback (.signInActive uid) (client.answer (.signInActive uid) reply remote) l =
        .ok ⟨{ l with
          activeItems := items
          coordinatesOccupied := items.flatMap GameItem.coordinates }, [], []⟩ := by
  cases reply with
  | error =>
      refine ⟨[], fun hsucceeds => hsucceeds.elim, ?_⟩
      change l.done = _
      rw [← hclear, App.done]
      cases l
      simp_all
  | value order =>
      obtain ⟨keys, _, hfresh⟩ := hload.freshActive_eq order
      refine ⟨_, fun _ => ⟨order, hfresh⟩, ?_⟩
      have hcallback := signInActiveRead_fresh hfresh l
      rw [hclear, hoccupied, List.nil_append, List.nil_append] at hcallback
      exact hcallback

/-- A callback that loads a local list writes nothing and reads nothing more. -/
theorem quiet_of_load {α : Type} (node : FNode) (loaded : Except Trap α) (f : α → App) (l : App)
    {fx : Effects App Write Read}
    (hfx : (if node.isEmpty then l.done
      else do
        let items ← loaded
        (f items).done) = .ok fx) : fx.writes = [] ∧ fx.reads = [] := by
  split at hfx
  · obtain rfl := Except.ok.inj hfx
    exact ⟨rfl, rfl⟩
  · cases loaded with
    | error trap => cases hfx
    | ok items =>
        obtain rfl := Except.ok.inj hfx
        exact ⟨rfl, rfl⟩

theorem signInInventoryRead_quiet {snapshot : Snapshot} {l : App}
    {fx : Effects App Write Read} (hfx : signInInventoryRead snapshot l = .ok fx) :
    fx.writes = [] ∧ fx.reads = [] := by
  cases snapshot with
  | error =>
      obtain rfl := Except.ok.inj hfx
      exact ⟨rfl, rfl⟩
  | value node order => exact quiet_of_load node _ _ l hfx

theorem signInActiveRead_quiet {snapshot : Snapshot} {l : App}
    {fx : Effects App Write Read} (hfx : signInActiveRead snapshot l = .ok fx) :
    fx.writes = [] ∧ fx.reads = [] := by
  cases snapshot with
  | error =>
      obtain rfl := Except.ok.inj hfx
      exact ⟨rfl, rfl⟩
  | value node order => exact quiet_of_load node _ _ l hfx

theorem keepsTo_of_quiet {field : String} {fx : Effects App Write Read}
    (h : fx.writes = [] ∧ fx.reads = []) : KeepsTo field fx := by
  refine ⟨h.2, ?_⟩
  rw [h.1]
  intro write hwrite
  cases hwrite

/-- The two reads of a sign-in do not interfere. -/
theorem signIn_apart (remote : Remote) (uid : Uid) :
    client.Apart remote [.signInInventory uid, .signInActive uid] := by
  have hne : "inventory" ≠ "activeItems" := by decide
  apply apart_of_fields hne ⟨[], rfl⟩ ⟨[], rfl⟩
  · intro reply l fx hfx
    exact keepsTo_of_quiet (signInInventoryRead_quiet hfx)
  · intro reply l fx hfx
    exact keepsTo_of_quiet (signInActiveRead_quiet hfx)

/-- Both lists, loaded in either order. -/
theorem signedIn_of_loads (hload : Loadable (remote uid)) {es : List AppEvent}
    (htaps : taps es = [])
    (hdone : client.Finishes ⟨remote, app.cleared uid,
      [⟨.signInInventory uid, none⟩, ⟨.signInActive uid, none⟩]⟩ es)
    (hreads : ∀ call ∈ client.started ⟨remote, app.cleared uid,
      [⟨.signInInventory uid, none⟩, ⟨.signInActive uid, none⟩]⟩ es, call.2 ≠ .error) :
    ∃ s', client.run ⟨remote, app.cleared uid,
        [⟨.signInInventory uid, none⟩, ⟨.signInActive uid, none⟩]⟩ es = .ok s' ∧
      SignedIn uid (remote uid) s'.state := by
  rw [Client.exists_outcome_iff (P := fun _ l => SignedIn uid (remote uid) l),
    client.run_eq_settle htaps]
  rcases client.started_pair (signIn_apart remote uid) htaps hdone with
    ⟨i, j, hstarted⟩ | ⟨i, j, hstarted⟩ | ⟨i, err, _, htrap⟩ | ⟨j, err, _, htrap⟩
  · rw [hstarted] at hreads ⊢
    obtain ⟨rows, hrows, hinventory⟩ := signInInventoryRead_reply (l := app.cleared uid) hload i rfl
    obtain ⟨items, hitems, hactive⟩ := signInActiveRead_reply
      (l := { app.cleared uid with inventoryItems := rows }) hload j rfl rfl
    obtain ⟨hi, hrest⟩ := List.forall_mem_cons.mp hreads
    have hj := List.forall_mem_singleton.mp hrest
    rw [client.settle_cons_ok hinventory, client.settle_cons_ok hactive, client.settle_nil,
      Client.exists_ok_iff]
    exact ⟨rfl, hrows ((answer_ne_error_iff _ _ _).mp hi),
      hitems ((answer_ne_error_iff _ _ _).mp hj), rfl⟩
  · rw [hstarted] at hreads ⊢
    obtain ⟨items, hitems, hactive⟩ :=
      signInActiveRead_reply (l := app.cleared uid) hload j rfl rfl
    obtain ⟨rows, hrows, hinventory⟩ := signInInventoryRead_reply
      (l := { app.cleared uid with
        activeItems := items
        coordinatesOccupied := items.flatMap GameItem.coordinates }) hload i rfl
    obtain ⟨hj, hrest⟩ := List.forall_mem_cons.mp hreads
    have hi := List.forall_mem_singleton.mp hrest
    rw [client.settle_cons_ok hactive, client.settle_cons_ok hinventory, client.settle_nil,
      Client.exists_ok_iff]
    exact ⟨rfl, hrows ((answer_ne_error_iff _ _ _).mp hi),
      hitems ((answer_ne_error_iff _ _ _).mp hj), rfl⟩
  · obtain ⟨rows, _, hinventory⟩ := signInInventoryRead_reply (l := app.cleared uid) hload i rfl
    rw [hinventory] at htrap
    cases htrap
  · obtain ⟨items, _, hactive⟩ := signInActiveRead_reply (l := app.cleared uid) hload j rfl rfl
    rw [hactive] at htrap
    cases htrap

/-- A sign-in whose reads succeed ends signed in. -/
theorem signedIn_of_run (hload : Loadable (remote uid)) {es : List AppEvent}
    (htaps : taps es = [])
    (hdone : client.Finishes ⟨remote, app, []⟩ (.tap (.signIn uid displayName) :: es))
    (hreads : ∀ call ∈ client.started ⟨remote, app, []⟩ (.tap (.signIn uid displayName) :: es),
      call.2 ≠ .error) :
    ∃ s', client.run ⟨remote, app, []⟩ (.tap (.signIn uid displayName) :: es) = .ok s' ∧
      SignedIn uid (remote uid) s'.state := by
  have hstep : client.step ⟨remote, app, []⟩ (.tap (.signIn uid displayName)) =
      .ok ⟨remote, app.cleared uid, [⟨.signInName uid displayName, none⟩]⟩ := rfl
  have hdone' := hdone.of_step client hstep
  rw [client.started_tap hstep] at hreads
  rw [client.run_cons_of_step hstep]
  have hgiven : ∀ a, (none : Option Snapshot) = some a →
      ∃ i, a = client.answer (.signInName uid displayName) i remote := fun a h => by cases h
  have hname : ∀ order, client.callback (.signInName uid displayName)
      (client.answer (.signInName uid displayName) (.value order) remote) (app.cleared uid) =
      .ok ⟨app.cleared uid, [], [.signInInventory uid, .signInActive uid]⟩ := by
    intro order
    change signInNameRead uid displayName
      (.value ((remote uid).child "displayName") order) _ = _
    simp [signInNameRead, hload.displayName]
  rcases client.started_single htaps hgiven hdone' with
    ⟨i, err, htrap, _, _⟩ | ⟨i, fx, rest, hfx, hrest, hrun, hstarted⟩
  · cases i with
    | error => cases htrap
    | value order =>
        rw [hname order] at htrap
        cases htrap
  · rw [hstarted] at hreads
    obtain ⟨hfirst, hreads'⟩ := List.forall_mem_cons.mp hreads
    cases i with
    | error => exact absurd rfl hfirst
    | value order =>
        rw [hname order] at hfx
        obtain rfl := Except.ok.inj hfx
        rw [hrun]
        exact signedIn_of_loads hload hrest (fun final hfinal => hdone' final (hrun.trans hfinal))
          hreads'

end Run

/-- **A load does not depend on the order of enumeration.**  Two sign-ins of an
account whose reads succeed, in whatever order they are answered, served and
enumerated, leave the same inventory and land, and each shows the land as stored. -/
theorem load_order {uid : Uid} {displayName : Option String} {remote : Remote}
    (hload : Loadable (remote uid)) {app app' : App} {es es' : List AppEvent}
    (htaps : taps es = []) (htaps' : taps es' = [])
    (hdone : client.Finishes ⟨remote, app, []⟩ (.tap (.signIn uid displayName) :: es))
    (hdone' : client.Finishes ⟨remote, app', []⟩ (.tap (.signIn uid displayName) :: es'))
    (hreads : ∀ call ∈ client.started ⟨remote, app, []⟩
      (.tap (.signIn uid displayName) :: es), call.2 ≠ .error)
    (hreads' : ∀ call ∈ client.started ⟨remote, app', []⟩
      (.tap (.signIn uid displayName) :: es'), call.2 ≠ .error) :
    ∃ s s', client.run ⟨remote, app, []⟩ (.tap (.signIn uid displayName) :: es) = .ok s ∧
      client.run ⟨remote, app', []⟩ (.tap (.signIn uid displayName) :: es') = .ok s' ∧
      SameLoad s.state s'.state ∧ ShowsPlaced (remote uid) s.state ∧
      ShowsPlaced (remote uid) s'.state := by
  obtain ⟨s, hrun, hsigned⟩ := signedIn_of_run hload htaps hdone hreads
  obtain ⟨s', hrun', hsigned'⟩ := signedIn_of_run hload htaps' hdone' hreads'
  exact ⟨s, s', hrun, hrun', hsigned.sameLoad hsigned' hload, hsigned.showsPlaced hload,
    hsigned'.showsPlaced hload⟩

/-- Every account has a tree and a flower, and one more of each on its land. -/
def treeAndFlower : Remote := fun uid =>
  ((((newUser 0 uid).set ["inventory", "tree"] (Tree.leaf (.int 1))).set
    ["inventory", "flower"] (Tree.leaf (.int 1))).set
    ["activeItems", "tree", indexKey 0] (Tree.leaf (.string "(0,0)"))).set
    ["activeItems", "flower", indexKey 0] (Tree.leaf (.string "(0,1)"))

theorem treeAndFlower_loadable : Loadable (treeAndFlower "ann") where
  displayName := by decide +kernel
  inventory := by decide +kernel
  counts := by decide +kernel
  activeItems := by decide +kernel
  coordinates := by decide +kernel
  names := by decide +kernel
  grid := by decide +kernel
  apart := by decide +kernel

/-- The answers of a sign-in, and its callbacks in the order of the reads. -/
def loadIn (inventoryOrder activeOrder : List String) : List AppEvent :=
  [.answer 0 (.value []), .serve 0, .answer 0 (.value inventoryOrder),
    .answer 1 (.value activeOrder), .serve 0, .serve 0]

theorem load_order_treeAndFlower :
    ∃ s s', client.run ⟨treeAndFlower, newUserApp "ann" treeShelf, []⟩
        (.tap (.signIn "ann" none) :: loadIn ["tree", "flower"] ["tree", "flower"]) = .ok s ∧
      client.run ⟨treeAndFlower, newUserApp "ann" treeShelf, []⟩
        (.tap (.signIn "ann" none) :: loadIn ["flower", "tree"] ["flower", "tree"]) = .ok s' ∧
      SameLoad s.state s'.state ∧ ShowsPlaced (treeAndFlower "ann") s.state ∧
      ShowsPlaced (treeAndFlower "ann") s'.state :=
  load_order treeAndFlower_loadable rfl rfl (client.finishes_of_check (by decide +kernel))
    (client.finishes_of_check (by decide +kernel)) (by decide +kernel) (by decide +kernel)

end WillItRecycle

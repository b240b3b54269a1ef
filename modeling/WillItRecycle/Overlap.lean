import WillItRecycle.LandInFlight
import WillItRecycle.SequentialRefinement
import WillItRecycle.UnitsInFlight
import WillItRecycle.WalletInFlight

/-!
# One step of overlapping operations

`Overlap uid shelf tapped stored s` says that the store of `s` holds the record
`stored` and that, with the reads pending, it will come to `tapped`, the record
the taps so far amount to.  A tap moves `tapped`, a callback moves `stored`, and
each of the nine lemmas below says that one of them keeps the invariant.
-/

namespace WillItRecycle

open PathTree ReadCallback LastMatch LandGame

/-! ## One operation on a record -/

/-- What a tap and all its callbacks make of a record, with `shelf` in the cells of
the store. -/
def UserRecord.tap (shelf : Nat → ShelfItem) (tap : Tap) (record : UserRecord) :
    UserRecord :=
  match tap with
  | .buy cell => record.buy (shelf cell).val
  | .place key _ coordinate => record.place key coordinate
  | .remove coordinate =>
      match record.game.land coordinate with
      | some key => record.remove key coordinate
      | none => record
  | _ => record

theorem UserRecord.tap_remove {record : UserRecord} (hwf : record.WellFormed)
    {key coordinate : String} (hplaced : coordinate ∈ record.land key)
    (shelf : Nat → ShelfItem) :
    record.tap shelf (.remove coordinate) = record.remove key coordinate := by
  unfold UserRecord.tap
  simp only [hwf.game_land.mpr hplaced]

/-- The record of a session does not depend on its local lists. -/
theorem tap_record {session : Session} (hland : ShowsLand session.record session.app)
    (hwf : session.record.WellFormed) {tap : Tap}
    (hpermits : session.record.Permits tap) :
    (session.tap tap).record = session.record.tap session.app.storeItem tap := by
  cases tap with
  | remove coordinate =>
      obtain ⟨key, hplaced⟩ := hpermits
      have hfound := (hland.find hwf hplaced).2
      rw [UserRecord.tap_remove hwf hplaced, ← hfound]
      rfl
  | _ => rfl

/-! ## The condition -/

/-- BUY, PLACE and REMOVE as the screens offer them; no read fails. -/
def PlaysLand (s : AppSys) : AppEvent → Prop
  | .tap tap => tap.Enabled s.state
  | .answer _ reply => reply.Succeeds
  | .serve _ => True

/-- The list of a node. -/
def placedList (node : FNode) : List String := (asStringArray node).getD []

/-- A callback on a count runs while the count stored is the one it found, and
PLACE's finds one; a callback on a list runs while the list stored has the length
(PLACE) or the coordinates (REMOVE) of the one it found. -/
def ItemsCurrent (read : Read) (snapshot : Snapshot) (remote : Remote) (_ : App) : Prop :=
  match read, snapshot with
  | .buyInventory uid _ _ key, .value node _ | .removeInventory uid key, .value node _ =>
      asInt node = asInt ((remote uid).get (fpath ["inventory", key]))
  | .placeInventory uid key, .value node _ =>
      node.isEmpty = false ∧
        asInt node = asInt ((remote uid).get (fpath ["inventory", key]))
  | .placeActive uid key _ _, .value node _ =>
      listLength node = listLength ((remote uid).get (fpath ["activeItems", key]))
  | .removeActive uid key _, .value node _ =>
      (placedList node).Perm (placedList ((remote uid).get (fpath ["activeItems", key])))
  | _, _ => True

/-- A PLACE callback does not overtake a REMOVE of the same coordinate. -/
def InTurn (s : AppSys) : AppEvent → Prop
  | .serve i =>
      match (s.pending[i]?).map Pending.read with
      | some (.placeActive uid key _ coordinate) =>
          Read.removeActive uid key coordinate ∉ s.reads
      | _ => True
  | _ => True

instance (s : AppSys) (e : AppEvent) : Decidable (PlaysLand s e) :=
  match e with
  | .tap tap => inferInstanceAs (Decidable (tap.Enabled s.state))
  | .answer _ reply => inferInstanceAs (Decidable reply.Succeeds)
  | .serve _ => isTrue trivial

instance (read : Read) (snapshot : Snapshot) (remote : Remote) (app : App) :
    Decidable (ItemsCurrent read snapshot remote app) :=
  match read, snapshot with
  | .buyInventory uid _ _ key, .value node _ | .removeInventory uid key, .value node _ =>
      inferInstanceAs (Decidable
        (asInt node = asInt ((remote uid).get (fpath ["inventory", key]))))
  | .placeInventory uid key, .value node _ =>
      inferInstanceAs (Decidable (node.isEmpty = false ∧
        asInt node = asInt ((remote uid).get (fpath ["inventory", key]))))
  | .placeActive uid key _ _, .value node _ =>
      inferInstanceAs (Decidable
        (listLength node = listLength ((remote uid).get (fpath ["activeItems", key]))))
  | .removeActive uid key _, .value node _ =>
      inferInstanceAs (Decidable
        ((placedList node).Perm (placedList ((remote uid).get (fpath ["activeItems", key])))))
  | .buyInventory .., .error | .removeInventory .., .error | .placeInventory .., .error
  | .placeActive .., .error | .removeActive .., .error | .buyLeaves .., _ | .claimDate .., _
  | .calculateCurrent .., _ | .calculateAllTime .., _ | .redeemUser .., _
  | .signInName .., _ | .signInInventory .., _ | .signInActive .., _ => isTrue trivial

instance (s : AppSys) (e : AppEvent) : Decidable (InTurn s e) :=
  match e with
  | .tap _ | .answer _ _ => isTrue trivial
  | .serve i => by
      unfold InTurn
      dsimp only
      split <;> infer_instance

/-- A count is known by its number. -/
theorem eq_of_asInt_countNode {m n : Nat}
    (h : asInt (countNode m) = asInt (countNode n)) : m = n := by
  cases m with
  | zero =>
      cases n with
      | zero => rfl
      | succ n => cases h
  | succ m =>
      cases n with
      | zero => cases h
      | succ n =>
          simp only [countNode, asInt_int, Option.some.injEq] at h
          omega

theorem IsList.placedList {node : FNode} {placed : List String} (h : IsList node placed) :
    placedList node = placed := by
  unfold WillItRecycle.placedList
  by_cases hplaced : placed = []
  · rw [hplaced] at h
    rw [isList_nil_iff.mp h, hplaced]
    rfl
  · rw [h.asStringArray hplaced]
    rfl

/-! ## The invariant -/

/-- A read issued by a tap on BUY, PLACE or REMOVE of `uid`. -/
def ItemRead (uid : Uid) (shelf : Nat → ShelfItem) (read : Read) : Prop :=
  read.uid = uid ∧
    match read with
    | .buyLeaves _ _ _ => True
    | .buyInventory _ cell _ key => key = (shelf cell).val.key
    | .placeActive _ key item _ => key ∈ storeKeys ∧ item = itemName key
    | .placeInventory _ key | .removeActive _ key _ | .removeInventory _ key =>
        key ∈ storeKeys
    | _ => False

/-- An answer given by a store that held a record with so many leaves at least. -/
def GivenBy (uid : Uid) (leaves : Int) (read : Read) (snapshot : Snapshot) : Prop :=
  ∃ remote record order, Holds (remote uid) record ∧ leaves ≤ record.currentLeaves ∧
    snapshot = read.answer (.value order) remote

/-- The store holds `stored`, and `tapped` is the record the taps so far amount
to. -/
structure Overlap (uid : Uid) (shelf : Nat → ShelfItem) (tapped stored : UserRecord)
    (s : AppSys) : Prop where
  holds : Holds (s.remote uid) stored
  currentUser : s.state.currentUser = some uid
  storeItem : s.state.storeItem = shelf
  wellFormed : tapped.WellFormed
  itemReads : ∀ read ∈ s.reads, ItemRead uid shelf read
  answers : ∀ p ∈ s.pending, ∀ a, p.answer = some a →
    GivenBy uid (tapped.currentLeaves + total (Read.price shelf) s.reads) p.read a
  wallet : WalletInFlight shelf stored.currentLeaves tapped.currentLeaves
    s.state.currentLeaves s.reads
  units : UnitsInFlight stored.inventory tapped.inventory s.reads s.state.inventoryItems
  land : LandInFlight stored.land tapped.land (s.reads.filterMap Read.placing)
    (s.reads.filterMap Read.removing) s.state.activeItems s.state.coordinatesOccupied

section Step

variable {uid : Uid} {shelf : Nat → ShelfItem} {tapped stored : UserRecord} {s : AppSys}

/-- What code run has to leave. -/
theorem Overlap.perform (h : Overlap uid shelf tapped stored s)
    {rest : List (Pending Read Snapshot)} (hrest : ∀ p ∈ rest, p ∈ s.pending)
    {fx : Effects App Write Read} {tapped' stored' : UserRecord}
    (hholds : Holds (client.applyAll fx.writes s.remote uid) stored')
    (huser : fx.state.currentUser = s.state.currentUser)
    (hshelf : fx.state.storeItem = s.state.storeItem) (hwf : tapped'.WellFormed)
    (hissued : ∀ read ∈ fx.reads, ItemRead uid shelf read)
    (hleaves : tapped'.currentLeaves +
        total (Read.price shelf) (rest.map Pending.read ++ fx.reads) ≤
      tapped.currentLeaves + total (Read.price shelf) s.reads)
    (hwallet : WalletInFlight shelf stored'.currentLeaves tapped'.currentLeaves
      fx.state.currentLeaves (rest.map Pending.read ++ fx.reads))
    (hunits : UnitsInFlight stored'.inventory tapped'.inventory
      (rest.map Pending.read ++ fx.reads) fx.state.inventoryItems)
    (hland : LandInFlight stored'.land tapped'.land
      ((rest.map Pending.read ++ fx.reads).filterMap Read.placing)
      ((rest.map Pending.read ++ fx.reads).filterMap Read.removing)
      fx.state.activeItems fx.state.coordinatesOccupied) :
    Overlap uid shelf tapped' stored' (client.perform s rest fx) := by
  rw [← client.reads_perform] at hleaves hwallet hunits hland
  refine ⟨hholds, huser.trans h.currentUser, hshelf.trans h.storeItem, hwf, ?_, ?_,
    hwallet, hunits, hland⟩
  · intro read hread
    rw [client.reads_perform, List.mem_append] at hread
    rcases hread with hread | hread
    · obtain ⟨p, hp, rfl⟩ := List.mem_map.mp hread
      exact h.itemReads p.read (List.mem_map_of_mem (hrest p hp))
    · exact hissued read hread
  · intro p hp a ha
    rcases List.mem_append.mp hp with hp | hp
    · obtain ⟨remote, record, order, hheld, hle, hgiven⟩ := h.answers p (hrest p hp) a ha
      exact ⟨remote, record, order, hheld, hleaves.trans hle, hgiven⟩
    · obtain ⟨read, _, rfl⟩ := List.mem_map.mp hp
      cases ha

/-! ### The taps -/

theorem Overlap.buy (h : Overlap uid shelf tapped stored s) {cell : Nat}
    (hafford : (shelf cell).val.cost ≤ tapped.currentLeaves)
    {fx : Effects App Write Read} (hrun : client.tap (.buy cell) s.state = .ok fx) :
    Overlap uid shelf (tapped.tap shelf (.buy cell)) stored
      (client.perform s s.pending fx) := by
  have hshown : s.state.shown cell = (shelf cell).val := by
    unfold App.shown
    rw [h.storeItem]
  let issued : List Read := [.buyLeaves uid cell s.state.currentLeaves.length,
    .buyInventory uid cell s.state.currentLeaves.length (shelf cell).val.key]
  have htap : client.tap (.buy cell) s.state = .ok
      ⟨{ s.state with currentLeaves := s.state.currentLeaves ++ [none] }, [], issued⟩ := by
    simp [Tap.handle, buyOnClick, h.currentUser, bind, Except.bind, issued, hshown]
  rw [htap] at hrun
  obtain rfl := Except.ok.inj hrun
  have hperm : (issued ++ s.reads).Perm (s.reads ++ issued) := List.perm_append_comm
  have hcharged : (tapped.tap shelf (.buy cell)).currentLeaves =
      tapped.currentLeaves - (shelf cell).val.cost := by
    unfold UserRecord.tap UserRecord.buy
    dsimp only
    rw [if_pos (by omega)]
    rfl
  have hwallet := (h.wallet.buyTap uid cell (shelf cell).val.key).perm hperm
  refine h.perform (fun _ hp => hp) h.holds rfl rfl (h.wellFormed.buy (shelf cell)) ?_ ?_ ?_
    ?_ ?_
  · intro read hread
    rcases List.mem_cons.mp hread with rfl | hread
    · exact ⟨rfl, trivial⟩
    · rw [List.mem_singleton.mp hread]
      exact ⟨rfl, rfl⟩
  · have hprice : total (Read.price shelf) issued = (shelf cell).val.cost :=
      Int.add_zero _
    change _ + total (Read.price shelf) (s.reads ++ issued) ≤ _
    rw [hcharged, total_append, hprice]
    omega
  · rw [hcharged]
    exact hwallet
  · have hcost : tapped.currentLeaves - (shelf cell).val.cost ≥ 0 := by omega
    have hunits : UnitsInFlight stored.inventory
        (tapped.tap shelf (.buy cell)).inventory
        (.buyInventory uid cell s.state.currentLeaves.length (shelf cell).val.key ::
          s.reads) s.state.inventoryItems := by
      refine h.units.buyTap (fun other => ?_) uid cell s.state.currentLeaves.length
      have hother := tapped.buy_inventory (shelf cell).val other
      simp only [hcost, and_true] at hother
      exact hother
    have hissued : UnitsInFlight stored.inventory
        (tapped.tap shelf (.buy cell)).inventory (issued ++ s.reads)
        s.state.inventoryItems :=
      (UnitsInFlight.cons_iff (fun _ => rfl) (fun _ => rfl)).mpr hunits
    exact hissued.perm hperm
  · have hplacing : (s.reads ++ issued).filterMap Read.placing =
        s.reads.filterMap Read.placing := by
      rw [List.filterMap_append]
      exact List.append_nil _
    have hremoving : (s.reads ++ issued).filterMap Read.removing =
        s.reads.filterMap Read.removing := by
      rw [List.filterMap_append]
      exact List.append_nil _
    have hland : (tapped.tap shelf (.buy cell)).land = tapped.land :=
      tapped.buy_land (shelf cell).val
    change LandInFlight _ _ ((s.reads ++ issued).filterMap Read.placing)
      ((s.reads ++ issued).filterMap Read.removing) _ _
    rw [hplacing, hremoving, hland]
    exact h.land

theorem Overlap.permits_place (h : Overlap uid shelf tapped stored s)
    {key item coordinate : String}
    (henabled : (Tap.place key item coordinate).Enabled s.state) :
    tapped.Permits (.place key item coordinate) := by
  obtain ⟨hne, hfree, row, hrow, rfl, rfl⟩ := henabled
  obtain ⟨hkey, hitem⟩ := h.units.sold row hrow
  exact ⟨hkey, hitem, hne, fun other hplaced =>
    hfree ((h.land.occupied coordinate).mpr ⟨other, hplaced⟩)⟩

theorem Overlap.place (h : Overlap uid shelf tapped stored s)
    {key item coordinate : String}
    (henabled : (Tap.place key item coordinate).Enabled s.state)
    {fx : Effects App Write Read}
    (hrun : client.tap (.place key item coordinate) s.state = .ok fx) :
    Overlap uid shelf (tapped.tap shelf (.place key item coordinate)) stored
      (client.perform s s.pending fx) := by
  obtain ⟨hkey, hitem, hne, hfree⟩ := h.permits_place henabled
  obtain ⟨_, _, row, hrow, hrowKey, _⟩ := henabled
  let issued : List Read := [.placeActive uid key item coordinate, .placeInventory uid key]
  have htap : client.tap (.place key item coordinate) s.state = .ok
      ⟨{ s.state with
          coordinatesOccupied := s.state.coordinatesOccupied ++ [coordinate]
          inventoryItems := takeFromInventory key s.state.inventoryItems }, [], issued⟩ := by
    simp [Tap.handle, onPlacementCompleted, hne, h.currentUser, bind, Except.bind, issued]
  rw [htap] at hrun
  obtain rfl := Except.ok.inj hrun
  have hperm : (issued ++ s.reads).Perm (s.reads ++ issued) := List.perm_append_comm
  refine h.perform (fun _ hp => hp) h.holds rfl rfl (h.wellFormed.place hkey hne hfree) ?_ ?_
    ?_ ?_ ?_
  · intro read hread
    rcases List.mem_cons.mp hread with rfl | hread
    · exact ⟨rfl, hkey, hitem⟩
    · rw [List.mem_singleton.mp hread]
      exact ⟨rfl, hkey⟩
  · have hprice : total (Read.price shelf) issued = 0 := rfl
    change tapped.currentLeaves + total (Read.price shelf) (s.reads ++ issued) ≤ _
    rw [total_append, hprice]
    omega
  · have hissued : WalletInFlight shelf stored.currentLeaves tapped.currentLeaves
        s.state.currentLeaves (issued ++ s.reads) :=
      (WalletInFlight.cons_iff rfl rfl rfl).mpr
        ((WalletInFlight.cons_iff rfl rfl rfl).mpr h.wallet)
    exact hissued.perm hperm
  · have hunits : UnitsInFlight stored.inventory (tapped.place key coordinate).inventory
        (.placeInventory uid key :: s.reads)
        (takeFromInventory key s.state.inventoryItems) :=
      h.units.placeTap ⟨row, hrow, hrowKey⟩ (tapped.place_inventory key coordinate) uid
    have hissued : UnitsInFlight stored.inventory (tapped.place key coordinate).inventory
        (issued ++ s.reads) (takeFromInventory key s.state.inventoryItems) :=
      (UnitsInFlight.cons_iff (fun _ => rfl) (fun _ => rfl)).mpr hunits
    exact hissued.perm hperm
  · have hplaced := h.land.placeTap hfree (tapped.mem_place_land key coordinate)
    have hremoving : (issued ++ s.reads).filterMap Read.removing =
        s.reads.filterMap Read.removing := rfl
    rw [← hremoving] at hplaced
    exact hplaced.perm (hperm.filterMap Read.placing) (hperm.filterMap Read.removing)

/-- REMOVE of a coordinate some entry has finds the key it stands under. -/
theorem Overlap.found (h : Overlap uid shelf tapped stored s) {coordinate : String}
    (hshown : ∃ item ∈ s.state.activeItems, coordinate ∈ item.coordinates) :
    ∃ item ∈ s.state.activeItems,
      findActiveItemCoordinate s.state.activeItems coordinate = item ∧
        coordinate ∈ item.coordinates ∧ coordinate ∈ tapped.land item.key := by
  obtain ⟨hmem, hcoordinate⟩ := find_of_shown hshown
  exact ⟨_, hmem, rfl, hcoordinate, h.land.tapped_of_shown hmem hcoordinate⟩

theorem Overlap.remove (h : Overlap uid shelf tapped stored s) {coordinate : String}
    (hshown : ∃ item ∈ s.state.activeItems, coordinate ∈ item.coordinates)
    {fx : Effects App Write Read}
    (hrun : client.tap (.remove coordinate) s.state = .ok fx) :
    Overlap uid shelf (tapped.tap shelf (.remove coordinate)) stored
      (client.perform s s.pending fx) := by
  obtain ⟨item, hitem, hfind, hcoordinate, hplaced⟩ := h.found hshown
  have hne : coordinate ≠ "" := by
    intro heq
    exact h.wellFormed.button item.key (heq ▸ hplaced)
  have hsold := h.land.sold item hitem
  let issued : List Read :=
    [.removeActive uid item.key coordinate, .removeInventory uid item.key]
  have htap : client.tap (.remove coordinate) s.state = .ok
      ⟨{ s.state with
          coordinatesOccupied :=
            removeLast (fun x => x = coordinate) s.state.coordinatesOccupied
          activeItems := dropCoordinate coordinate s.state.activeItems
          inventoryItems :=
            returnToInventory item coordinate s.state.inventoryItems }, [], issued⟩ := by
    simp [Tap.handle, onRemove, hne, h.currentUser, bind, Except.bind, issued, hfind]
  rw [htap] at hrun
  obtain rfl := Except.ok.inj hrun
  rw [UserRecord.tap_remove h.wellFormed hplaced]
  have hperm : (issued ++ s.reads).Perm (s.reads ++ issued) := List.perm_append_comm
  refine h.perform (fun _ hp => hp) h.holds rfl rfl (h.wellFormed.remove hplaced) ?_ ?_
    ?_ ?_ ?_
  · intro read hread
    rcases List.mem_cons.mp hread with rfl | hread
    · exact ⟨rfl, hsold.1⟩
    · rw [List.mem_singleton.mp hread]
      exact ⟨rfl, hsold.1⟩
  · have hprice : total (Read.price shelf) issued = 0 := rfl
    change tapped.currentLeaves + total (Read.price shelf) (s.reads ++ issued) ≤ _
    rw [total_append, hprice]
    omega
  · have hissued : WalletInFlight shelf stored.currentLeaves tapped.currentLeaves
        s.state.currentLeaves (issued ++ s.reads) :=
      (WalletInFlight.cons_iff rfl rfl rfl).mpr
        ((WalletInFlight.cons_iff rfl rfl rfl).mpr h.wallet)
    exact hissued.perm hperm
  · have hunits : UnitsInFlight stored.inventory
        (tapped.remove item.key coordinate).inventory
        (.removeInventory uid item.key :: s.reads)
        (returnToInventory item coordinate s.state.inventoryItems) :=
      h.units.removeTap hsold (tapped.remove_inventory item.key coordinate) uid coordinate
    have hissued : UnitsInFlight stored.inventory
        (tapped.remove item.key coordinate).inventory (issued ++ s.reads)
        (returnToInventory item coordinate s.state.inventoryItems) :=
      (UnitsInFlight.cons_iff (fun _ => rfl) (fun _ => rfl)).mpr hunits
    exact hissued.perm hperm
  · have hremoved := h.land.removeTap ⟨item, hitem, rfl, hcoordinate⟩ h.wellFormed.apart
      (UserRecord.mem_remove_land h.wellFormed hplaced)
    have hplacing : (issued ++ s.reads).filterMap Read.placing =
        s.reads.filterMap Read.placing := rfl
    rw [← hplacing] at hremoved
    exact hremoved.perm (hperm.filterMap Read.placing) (hperm.filterMap Read.removing)

/-! ### The callbacks -/

section Serve

variable {rest : List (Pending Read Snapshot)} (hrest : ∀ p ∈ rest, p ∈ s.pending)
  {read : Read} (hperm : s.reads.Perm (read :: rest.map Pending.read))
  {node : FNode} {order : List String} {fx : Effects App Write Read}
include hrest hperm

/-- What a callback has to leave, with the read served gone. -/
theorem Overlap.served (h : Overlap uid shelf tapped stored s) {stored' : UserRecord}
    (hreads : fx.reads = [])
    (hholds : Holds (client.applyAll fx.writes s.remote uid) stored')
    (huser : fx.state.currentUser = s.state.currentUser)
    (hshelf : fx.state.storeItem = s.state.storeItem)
    (hwallet : WalletInFlight shelf stored'.currentLeaves tapped.currentLeaves
      fx.state.currentLeaves (rest.map Pending.read))
    (hunits : UnitsInFlight stored'.inventory tapped.inventory (rest.map Pending.read)
      fx.state.inventoryItems)
    (hland : LandInFlight stored'.land tapped.land
      ((rest.map Pending.read).filterMap Read.placing)
      ((rest.map Pending.read).filterMap Read.removing)
      fx.state.activeItems fx.state.coordinatesOccupied) :
    Overlap uid shelf tapped stored' (client.perform s rest fx) := by
  have hnone : rest.map Pending.read ++ fx.reads = rest.map Pending.read := by
    rw [hreads, List.append_nil]
  rw [← hnone] at hwallet hunits hland
  refine h.perform hrest hholds huser hshelf h.wellFormed ?_ ?_ hwallet hunits hland
  · intro read hread
    rw [hreads] at hread
    cases hread
  · have hprice := read.price_nonneg shelf
    rw [hnone, total_perm (Read.price shelf) hperm, total_cons]
    omega

/-- A purchase is charged: the wallet it captured covers it. -/
theorem Overlap.charge (h : Overlap uid shelf tapped stored s) {cell tap : Nat}
    (hread : read = .buyLeaves uid cell tap) (hleaves : 0 ≤ tapped.currentLeaves)
    (hgiven : GivenBy uid (tapped.currentLeaves + total (Read.price shelf) s.reads) read
      (.value node order))
    (hrun : buyLeavesRead uid cell tap (.value node order) s.state = .ok fx) :
    ∃ stored', Overlap uid shelf tapped stored' (client.perform s rest fx) := by
  subst hread
  obtain ⟨remote, record, order', hheld, hle, hanswer⟩ := hgiven
  obtain ⟨rfl, rfl⟩ := Snapshot.value.inj hanswer
  have hnode : (remote uid).get (fpath ["currentLeaves"]) =
      Tree.leaf (.int record.currentLeaves) := hheld.get_currentLeaves
  have hshown : (s.state.shown cell).cost = (shelf cell).val.cost := by
    unfold App.shown
    rw [h.storeItem]
  change buyLeavesRead uid cell tap
    (.value ((remote uid).get (fpath ["currentLeaves"])) order) s.state = _ at hrun
  rw [hnode, buyLeavesRead_wallet, hshown] at hrun
  obtain rfl := Except.ok.inj hrun
  rw [total_perm (Read.price shelf) hperm] at hle
  obtain ⟨hcovers, hwallet⟩ := (h.wallet.perm hperm).charge hleaves hle
  refine ⟨{ stored with currentLeaves := record.currentLeaves - (shelf cell).val.cost },
    h.served hrest hperm rfl ?_ rfl rfl hwallet ?_ ?_⟩
  · have hset := h.holds.setCurrentLeaves (record.currentLeaves - (shelf cell).val.cost)
    have hsame := apply_same (setValue uid ["currentLeaves"]
      (Tree.leaf (.int (record.currentLeaves - (shelf cell).val.cost)))) s.remote
    unfold WillItRecycle.chargeWrites
    rw [if_pos hcovers, Client.applyAll_cons, Client.applyAll_nil, client_apply]
    exact hsame.symm ▸ hset
  · exact (UnitsInFlight.cons_iff (fun _ => rfl) (fun _ => rfl)).mp (h.units.perm hperm)
  · exact h.land.perm (hperm.filterMap Read.placing) (hperm.filterMap Read.removing)

/-- A purchase is delivered. -/
theorem Overlap.deliver (h : Overlap uid shelf tapped stored s) {cell tap : Nat}
    {key : String} (hread : read = .buyInventory uid cell tap key) {leaves : Int}
    (hgiven : GivenBy uid leaves read (.value node order))
    (hcurrent : ItemsCurrent read (.value node order) s.remote s.state)
    (hrun : buyInventoryRead uid cell tap (.value node order) s.state = .ok fx) :
    ∃ stored', Overlap uid shelf tapped stored' (client.perform s rest fx) := by
  obtain ⟨_, hkey⟩ := h.itemReads read (hperm.symm.subset List.mem_cons_self)
  subst hread
  obtain rfl : key = (shelf cell).val.key := hkey
  have hshown : s.state.shown cell = (shelf cell).val := by
    unfold App.shown
    rw [h.storeItem]
  have hne := storeKeys_ne_empty (storeItem_key_mem (shelf cell))
  obtain ⟨remote, record, order', hheld, _, hanswer⟩ := hgiven
  obtain ⟨rfl, rfl⟩ := Snapshot.value.inj hanswer
  have hnode : (remote uid).get (fpath ["inventory", (shelf cell).val.key]) =
      countNode (record.inventory (shelf cell).val.key) := hheld.get_inventory hne
  -- the count found is the stored one
  change asInt ((remote uid).get (fpath ["inventory", (shelf cell).val.key])) = _ at hcurrent
  rw [hnode, h.holds.get_inventory hne] at hcurrent
  have hcount := eq_of_asInt_countNode hcurrent
  obtain ⟨captured, hcaptured, _⟩ := buyInventoryRead_cases hrun
  obtain ⟨hcovers, hwallet⟩ := (h.wallet.perm hperm).deliver hcaptured
  change buyInventoryRead uid cell tap
    (.value ((remote uid).get (fpath ["inventory", (shelf cell).val.key])) order) s.state =
      _ at hrun
  rw [hnode, hcount, buyInventoryRead_count uid cell tap _ order hcaptured, hshown,
    if_pos hcovers] at hrun
  obtain rfl := Except.ok.inj hrun
  refine ⟨stored.setInventory (shelf cell).val.key
      (stored.inventory (shelf cell).val.key + 1),
    h.served hrest hperm rfl (h.holds.countWrite hne _) rfl rfl hwallet ?_ ?_⟩
  · refine (h.units.perm hperm).deliver
      ⟨storeItem_key_mem (shelf cell), storeItem_item (shelf cell)⟩ (fun other => ?_) _
    rw [UserRecord.setInventory_inventory]
    split
    · next hother => rw [hother]
    · rfl
  · exact h.land.perm (hperm.filterMap Read.placing) (hperm.filterMap Read.removing)

/-- PLACE's coordinate is stored, at the end of a list of the length it found. -/
theorem Overlap.store (h : Overlap uid shelf tapped stored s) {key item coordinate : String}
    (hread : read = .placeActive uid key item coordinate) {leaves : Int}
    (hgiven : GivenBy uid leaves read (.value node order))
    (hcurrent : ItemsCurrent read (.value node order) s.remote s.state)
    (hturn : Read.removeActive uid key coordinate ∉ s.reads)
    (hrun : placeActiveRead uid key item coordinate (.value node order) s.state = .ok fx) :
    ∃ stored', Overlap uid shelf tapped stored' (client.perform s rest fx) := by
  obtain ⟨_, hkey, hitem⟩ : ItemRead uid shelf (.placeActive uid key item coordinate) :=
    hread ▸ h.itemReads read (hperm.symm.subset List.mem_cons_self)
  subst hread
  have hne := storeKeys_ne_empty hkey
  obtain ⟨remote, record, order', hheld, _, hanswer⟩ := hgiven
  obtain ⟨rfl, rfl⟩ := Snapshot.value.inj hanswer
  have hfound : IsList ((remote uid).get (fpath ["activeItems", key])) (record.land key) :=
    hheld.get_active hne
  change listLength ((remote uid).get (fpath ["activeItems", key])) = _ at hcurrent
  rw [hfound.listLength, (h.holds.get_active hne).listLength] at hcurrent
  change placeActiveRead uid key item coordinate
    (.value ((remote uid).get (fpath ["activeItems", key])) order) s.state = _ at hrun
  rw [placeActiveRead_list hfound, hcurrent] at hrun
  obtain rfl := Except.ok.inj hrun
  have hnotRemoving :
      (key, coordinate) ∉ (rest.map Pending.read).filterMap Read.removing := by
    intro hmem
    obtain ⟨other, hother, hremoving⟩ := List.mem_filterMap.mp hmem
    have hpending := hperm.symm.subset (List.mem_cons_of_mem _ hother)
    have huid := (h.itemReads other hpending).1
    cases other with
    | removeActive uid' key' coordinate' =>
        obtain ⟨rfl, rfl⟩ := Prod.mk.inj (Option.some.inj hremoving)
        obtain rfl : uid' = uid := huid
        exact hturn hpending
    | _ => cases hremoving
  refine ⟨stored.setLand key (stored.land key ++ [coordinate]),
    h.served hrest hperm rfl (h.holds.placeWrite hne coordinate) rfl rfl
      ((WalletInFlight.cons_iff rfl rfl rfl).mp (h.wallet.perm hperm))
      ((UnitsInFlight.cons_iff (fun _ => rfl) (fun _ => rfl)).mp (h.units.perm hperm)) ?_⟩
  have hland := h.land.perm (hperm.filterMap Read.placing) (hperm.filterMap Read.removing)
  refine hland.place hnotRemoving hkey hitem ?_ (fun other x => ?_)
  · rw [← List.length_eq_zero_iff, hcurrent, List.length_eq_zero_iff]
  · rw [UserRecord.setLand_land]
    by_cases hother : other = key
    · rw [if_pos hother, List.mem_append, List.mem_singleton, hother]
      simp
    · rw [if_neg hother]
      simp [hother]

/-- PLACE's unit leaves the stored inventory. -/
theorem Overlap.takeUnit (h : Overlap uid shelf tapped stored s) {key : String}
    (hread : read = .placeInventory uid key) {leaves : Int}
    (hgiven : GivenBy uid leaves read (.value node order))
    (hcurrent : ItemsCurrent read (.value node order) s.remote s.state)
    (hrun : placeInventoryRead uid key (.value node order) s.state = .ok fx) :
    ∃ stored', Overlap uid shelf tapped stored' (client.perform s rest fx) := by
  obtain ⟨_, hkey⟩ : ItemRead uid shelf (.placeInventory uid key) :=
    hread ▸ h.itemReads read (hperm.symm.subset List.mem_cons_self)
  subst hread
  have hne := storeKeys_ne_empty hkey
  obtain ⟨remote, record, order', hheld, _, hanswer⟩ := hgiven
  obtain ⟨rfl, rfl⟩ := Snapshot.value.inj hanswer
  have hnode : (remote uid).get (fpath ["inventory", key]) =
      countNode (record.inventory key) := hheld.get_inventory hne
  change ((remote uid).get (fpath ["inventory", key])).isEmpty = false ∧
    asInt ((remote uid).get (fpath ["inventory", key])) = _ at hcurrent
  rw [hnode, h.holds.get_inventory hne, Tree.isEmpty_eq_false_iff] at hcurrent
  have hcount := eq_of_asInt_countNode hcurrent.2
  have hsome : stored.inventory key ≠ 0 := by
    intro hzero
    exact hcurrent.1 (countNode_eq_empty.mpr (hcount.trans hzero))
  change placeInventoryRead uid key
    (.value ((remote uid).get (fpath ["inventory", key])) order) s.state = _ at hrun
  rw [hnode, hcount, placeInventoryRead_count, if_neg hsome] at hrun
  obtain rfl := Except.ok.inj hrun
  refine ⟨stored.setInventory key (stored.inventory key - 1),
    h.served hrest hperm rfl (h.holds.countWrite hne _) rfl rfl
      ((WalletInFlight.cons_iff rfl rfl rfl).mp (h.wallet.perm hperm)) ?_
      (h.land.perm (hperm.filterMap Read.placing) (hperm.filterMap Read.removing))⟩
  refine (h.units.perm hperm).take (Nat.pos_of_ne_zero hsome) (fun other => ?_)
  rw [UserRecord.setInventory_inventory]
  split
  · next hother => rw [hother]
  · rfl

/-- REMOVE's coordinate leaves the stored list. -/
theorem Overlap.unstore (h : Overlap uid shelf tapped stored s) {key coordinate : String}
    (hread : read = .removeActive uid key coordinate) {leaves : Int}
    (hgiven : GivenBy uid leaves read (.value node order))
    (hcurrent : ItemsCurrent read (.value node order) s.remote s.state)
    (hrun : removeActiveRead uid key coordinate (.value node order) s.state = .ok fx) :
    ∃ stored', Overlap uid shelf tapped stored' (client.perform s rest fx) := by
  obtain ⟨_, hkey⟩ : ItemRead uid shelf (.removeActive uid key coordinate) :=
    hread ▸ h.itemReads read (hperm.symm.subset List.mem_cons_self)
  subst hread
  have hne := storeKeys_ne_empty hkey
  obtain ⟨remote, record, order', hheld, _, hanswer⟩ := hgiven
  obtain ⟨rfl, rfl⟩ := Snapshot.value.inj hanswer
  have hfound : IsList ((remote uid).get (fpath ["activeItems", key])) (record.land key) :=
    hheld.get_active hne
  change (WillItRecycle.placedList ((remote uid).get (fpath ["activeItems", key]))).Perm _
    at hcurrent
  rw [hfound.placedList, (h.holds.get_active hne).placedList] at hcurrent
  change removeActiveRead uid key coordinate
    (.value ((remote uid).get (fpath ["activeItems", key])) order) s.state = _ at hrun
  rw [removeActiveRead_list hfound] at hrun
  obtain rfl := Except.ok.inj hrun
  have hland := h.land.perm (hperm.filterMap Read.placing) (hperm.filterMap Read.removing)
  have hplaced : coordinate ∈ record.land key :=
    hcurrent.symm.subset (hland.removed key coordinate List.mem_cons_self)
  refine ⟨stored.setLand key (keepOthers coordinate (record.land key)),
    h.served hrest hperm rfl
      (h.holds.removeWrites hne coordinate (List.ne_nil_of_mem hplaced)) rfl rfl
      ((WalletInFlight.cons_iff rfl rfl rfl).mp (h.wallet.perm hperm))
      ((UnitsInFlight.cons_iff (fun _ => rfl) (fun _ => rfl)).mp (h.units.perm hperm)) ?_⟩
  refine hland.remove (fun other x => ?_)
  rw [UserRecord.setLand_land]
  by_cases hother : other = key
  · rw [if_pos hother, keepOthers_eq_filter hplaced, List.mem_filter, hcurrent.mem_iff,
      hother]
    simp
  · rw [if_neg hother]
    simp [hother]

/-- REMOVE's unit enters the stored inventory. -/
theorem Overlap.giveBack (h : Overlap uid shelf tapped stored s) {key : String}
    (hread : read = .removeInventory uid key) {leaves : Int}
    (hgiven : GivenBy uid leaves read (.value node order))
    (hcurrent : ItemsCurrent read (.value node order) s.remote s.state)
    (hrun : removeInventoryRead uid key (.value node order) s.state = .ok fx) :
    ∃ stored', Overlap uid shelf tapped stored' (client.perform s rest fx) := by
  obtain ⟨_, hkey⟩ : ItemRead uid shelf (.removeInventory uid key) :=
    hread ▸ h.itemReads read (hperm.symm.subset List.mem_cons_self)
  subst hread
  have hne := storeKeys_ne_empty hkey
  obtain ⟨remote, record, order', hheld, _, hanswer⟩ := hgiven
  obtain ⟨rfl, rfl⟩ := Snapshot.value.inj hanswer
  have hnode : (remote uid).get (fpath ["inventory", key]) =
      countNode (record.inventory key) := hheld.get_inventory hne
  change asInt ((remote uid).get (fpath ["inventory", key])) = _ at hcurrent
  rw [hnode, h.holds.get_inventory hne] at hcurrent
  have hcount := eq_of_asInt_countNode hcurrent
  change removeInventoryRead uid key
    (.value ((remote uid).get (fpath ["inventory", key])) order) s.state = _ at hrun
  rw [hnode, hcount, removeInventoryRead_count hne] at hrun
  obtain rfl := Except.ok.inj hrun
  refine ⟨stored.setInventory key (stored.inventory key + 1),
    h.served hrest hperm rfl (h.holds.countWrite hne _) rfl rfl
      ((WalletInFlight.cons_iff rfl rfl rfl).mp (h.wallet.perm hperm)) ?_
      (h.land.perm (hperm.filterMap Read.placing) (hperm.filterMap Read.removing))⟩
  refine (h.units.perm hperm).giveBack (fun other => ?_)
  rw [UserRecord.setInventory_inventory]
  split
  · next hother => rw [hother]
  · rfl

end Serve

end Step

end WillItRecycle

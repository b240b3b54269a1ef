import WillItRecycle.LeavesLedger

/-!
# The stored lists of placements

PLACE writes one coordinate at the index that was the length of the list it
read; REMOVE deletes the list it read and writes back what it keeps of it.  The
lists therefore stay gapless under any overlap of callbacks, stale or not, with
one exception: a PLACE whose list has meanwhile become shorter leaves a gap.

`run_lists_readable` is the safety of all runs without that exception: no
forced cast ever fails, and the next sign-in can load the lists.
-/

namespace WillItRecycle

open PathTree ReadCallback LastMatch

/-! ## The condition -/

/-- The length of a stored list. -/
def listLength (node : FNode) : Nat := ((asStringArray node).getD []).length

theorem IsList.listLength {node : FNode} {placed : List String}
    (h : IsList node placed) : WillItRecycle.listLength node = placed.length := by
  unfold WillItRecycle.listLength
  by_cases hplaced : placed = []
  · rw [hplaced] at h
    rw [isList_nil_iff.mp h, hplaced]
    rfl
  · rw [h.asStringArray hplaced]
    rfl

/-- PLACE and REMOVE as the screens offer them; no read fails. -/
def PlacesAndRemoves (s : AppSys) : AppEvent → Prop
  | .tap (.buy _) => False
  | .tap tap => tap.Enabled s.state
  | .answer _ reply => reply.Succeeds
  | .serve _ => True

/-- REMOVE is tapped for a coordinate that some entry has: the callback of its
PLACE, if any, has run. -/
def RemovesShown (s : AppSys) (e : AppEvent) : Prop :=
  ∀ coordinate, e = .tap (.remove coordinate) →
    ∃ item ∈ s.state.activeItems, coordinate ∈ item.coordinates

/-- A PLACE callback runs while the stored list is at least as long as the one it
read. -/
def WritesWithin (read : Read) (snapshot : Snapshot) (remote : Remote) (_ : App) : Prop :=
  match read, snapshot with
  | .placeActive uid key _ _, .value node _ =>
      listLength node ≤ listLength ((remote uid).get (fpath ["activeItems", key]))
  | _, _ => True

instance (read : Read) (snapshot : Snapshot) (remote : Remote) (app : App) :
    Decidable (WritesWithin read snapshot remote app) := by
  unfold WritesWithin
  split <;> infer_instance

instance (s : AppSys) (e : AppEvent) : Decidable (PlacesAndRemoves s e) :=
  match e with
  | .tap (.place key item coordinate) =>
      inferInstanceAs (Decidable ((Tap.place key item coordinate).Enabled s.state))
  | .tap (.remove coordinate) =>
      inferInstanceAs (Decidable ((Tap.remove coordinate).Enabled s.state))
  | .tap (.buy _) | .tap (.cellForRow _ _) | .tap (.claim _) | .tap (.redeem _ _ _)
  | .tap (.signIn _ _) | .tap .signOut => isFalse id
  | .answer _ reply => inferInstanceAs (Decidable reply.Succeeds)
  | .serve _ => isTrue trivial

instance (s : AppSys) (e : AppEvent) : Decidable (RemovesShown s e) :=
  match e with
  | .tap (.remove coordinate) =>
      decidable_of_iff (∃ item ∈ s.state.activeItems, coordinate ∈ item.coordinates)
        (by simp [RemovesShown])
  | .tap (.buy _) | .tap (.place _ _ _) | .tap (.cellForRow _ _) | .tap (.claim _)
  | .tap (.redeem _ _ _) | .tap (.signIn _ _) | .tap .signOut | .answer _ _
  | .serve _ => isTrue (by intro coordinate he; cases he)

/-! ## The parts of the invariant -/

/-- The record stores counts and lists, lists only of kinds the store sells. -/
def StoresLists (uid : Uid) (remote : Remote) : Prop :=
  ∃ record, Holds (remote uid) record ∧
    ∀ key, record.land key ≠ [] → key ∈ storeKeys

/-- An item of a kind the store sells, under the name derived from its key. -/
def GameItem.Sold (item : GameItem) : Prop :=
  item.key ∈ storeKeys ∧ item.item = itemName item.key

structure KnownItems (uid : Uid) (app : App) : Prop where
  currentUser : app.currentUser = some uid
  rows : ∀ row ∈ app.inventoryItems, row.Sold
  entries : ∀ item ∈ app.activeItems, item.Sold

def LandRead (uid : Uid) (read : Read) : Prop :=
  read.uid = uid ∧
    match read with
    | .placeActive _ key item _ => key ∈ storeKeys ∧ item = itemName key
    | .placeInventory _ key | .removeActive _ key _ | .removeInventory _ key =>
        key ∈ storeKeys
    | _ => False

/-- What an answer shows. -/
def ShowsStored (read : Read) (snapshot : Snapshot) : Prop :=
  ∃ node order, snapshot = .value node order ∧
    match read with
    | .placeActive _ _ _ _ | .removeActive _ _ _ => ∃ placed, IsList node placed
    | .placeInventory _ _ | .removeInventory _ _ => ∃ n, node = countNode n
    | _ => False

theorem showsStored_answer {uid : Uid} {remote : Remote} (h : StoresLists uid remote)
    {read : Read} (hread : LandRead uid read) {reply : Reply} (hreply : reply.Succeeds) :
    ShowsStored read (read.answer reply remote) := by
  obtain ⟨record, hholds, _⟩ := h
  obtain ⟨rfl, hkey⟩ := hread
  cases reply with
  | error => exact hreply.elim
  | value order =>
      refine ⟨_, order, rfl, ?_⟩
      cases read with
      | placeActive uid key item coordinate =>
          exact ⟨_, hholds.get_active (storeKeys_ne_empty hkey.1)⟩
      | removeActive uid key coordinate =>
          exact ⟨_, hholds.get_active (storeKeys_ne_empty hkey)⟩
      | placeInventory uid key =>
          exact ⟨_, hholds.get_inventory (storeKeys_ne_empty hkey)⟩
      | removeInventory uid key =>
          exact ⟨_, hholds.get_inventory (storeKeys_ne_empty hkey)⟩
      | _ => exact hkey.elim

/-! ## Writes -/

theorem StoresLists.countWrite {uid : Uid} {remote : Remote} (h : StoresLists uid remote)
    {key : String} (hkey : key ∈ storeKeys) (n : Nat) :
    StoresLists uid ((WillItRecycle.countWrite uid key n).apply remote) := by
  obtain ⟨record, hholds, hkeys⟩ := h
  exact ⟨_, hholds.countWrite (storeKeys_ne_empty hkey) n, hkeys⟩

/-- A write at an index of the list, or one past its end. -/
theorem StoresLists.placeWrite {uid : Uid} {remote : Remote} (h : StoresLists uid remote)
    {key : String} (hkey : key ∈ storeKeys) {index : Nat}
    (hindex : index ≤ listLength ((remote uid).get (fpath ["activeItems", key])))
    (coordinate : String) :
    StoresLists uid ((setValue uid ["activeItems", key, indexKey index]
      (Tree.leaf (.string coordinate))).apply remote) := by
  obtain ⟨record, hholds, hkeys⟩ := h
  have hne := storeKeys_ne_empty hkey
  have hlist := hholds.active key
  rw [(hholds.get_active hne).listLength] at hindex
  obtain ⟨placed, hplaced⟩ : ∃ placed, IsList
      (((remote uid).child "activeItems").child key |>.setChild (indexKey index)
        (Tree.leaf (.string coordinate))) placed := by
    by_cases hlt : index < (record.land key).length
    · exact ⟨_, hlist.overwrite hlt coordinate⟩
    · have hend : index = (record.land key).length := by omega
      rw [hend]
      exact ⟨_, hlist.append coordinate⟩
  refine ⟨record.setLand key placed, ?_, ?_⟩
  · have hpath : (setValue uid ["activeItems", key, indexKey index]
        (Tree.leaf (.string coordinate))).path =
        ["activeItems", key, indexKey index] := fpath_activeItems_index hne index
    have hset := hholds.setActive key hplaced
    have hsame := apply_same (setValue uid ["activeItems", key, indexKey index]
      (Tree.leaf (.string coordinate))) remote
    rw [hpath] at hsame
    have hnode : (remote uid).set ["activeItems", key, indexKey index]
        (Tree.leaf (.string coordinate)) =
        (remote uid).set ["activeItems", key]
          (((remote uid).child "activeItems").child key |>.setChild (indexKey index)
            (Tree.leaf (.string coordinate))) := by
      simp [Tree.set_cons]
    rw [← hnode] at hset
    exact hsame.symm ▸ hset
  · intro other hother
    rw [UserRecord.setLand_land] at hother
    by_cases heq : other = key
    · rw [heq]
      exact hkey
    · rw [if_neg heq] at hother
      exact hkeys other hother

/-- REMOVE leaves a list whatever list it had read. -/
theorem StoresLists.removeWrites {uid : Uid} {remote : Remote} (h : StoresLists uid remote)
    {key : String} (hkey : key ∈ storeKeys) (coordinate : String) (placed : List String) :
    StoresLists uid
      (client.applyAll (WillItRecycle.removeWrites uid key coordinate placed) remote) := by
  obtain ⟨record, hholds, hkeys⟩ := h
  by_cases hplaced : placed = []
  · subst hplaced
    exact ⟨record, hholds, hkeys⟩
  · refine ⟨_, hholds.removeWrites (storeKeys_ne_empty hkey) coordinate hplaced, ?_⟩
    intro other hother
    rw [UserRecord.setLand_land] at hother
    by_cases heq : other = key
    · rw [heq]
      exact hkey
    · rw [if_neg heq] at hother
      exact hkeys other hother

/-! ## The local lists -/

theorem sold_placeLocal {activeItems : List GameItem} (h : ∀ item ∈ activeItems, item.Sold)
    {key item : String} (hkey : key ∈ storeKeys) (hitem : item = itemName key)
    (coordinate : String) (placed : List String) :
    ∀ entry ∈ placeLocal key item coordinate placed activeItems, entry.Sold := by
  unfold placeLocal
  split
  · exact forall_append_row h ⟨hkey, hitem⟩
  · intro entry hentry
    unfold placeAgain at hentry
    obtain ⟨old, hold, rfl⟩ := List.mem_map.mp hentry
    split
    · exact h old hold
    · exact h old hold

theorem sold_dropCoordinate {activeItems : List GameItem}
    (h : ∀ item ∈ activeItems, item.Sold) (coordinate : String) :
    ∀ entry ∈ dropCoordinate coordinate activeItems, entry.Sold := by
  intro entry hentry
  unfold dropCoordinate at hentry
  obtain ⟨old, hold, rfl⟩ := List.mem_map.mp hentry
  exact h old hold

/-- REMOVE finds an entry that has the coordinate when there is one. -/
theorem find_of_shown {activeItems : List GameItem} {coordinate : String}
    (h : ∃ item ∈ activeItems, coordinate ∈ item.coordinates) :
    findActiveItemCoordinate activeItems coordinate ∈ activeItems ∧
      coordinate ∈ (findActiveItemCoordinate activeItems coordinate).coordinates := by
  obtain ⟨item, hitem, hcoordinate⟩ := h
  rcases findActiveItemCoordinate_cases activeItems coordinate with ⟨_, hnone⟩ | hfound
  · exact absurd hcoordinate (hnone item hitem)
  · exact hfound

/-! ## The handlers -/

section Handlers

variable {uid : Uid} {remote : Remote} {app : App} (hremote : StoresLists uid remote)
  (happ : KnownItems uid app)
include hremote happ

/-- What the handlers of the land keep. -/
abbrev KeepsLists (uid : Uid) (remote : Remote) (fx : Effects App Write Read) : Prop :=
  client.KeepsOn (StoresLists uid) (KnownItems uid) (LandRead uid) remote fx

theorem place_keepsLists {key item coordinate : String}
    (henabled : (Tap.place key item coordinate).Enabled app) :
    ∃ fx, Tap.handle (.place key item coordinate) app = .ok fx ∧
      KeepsLists uid remote fx := by
  obtain ⟨hne, _, row, hrow, rfl, rfl⟩ := henabled
  have hsold := happ.rows row hrow
  have htap : Tap.handle (.place row.key row.item coordinate) app =
      .ok ⟨{ app with
          coordinatesOccupied := app.coordinatesOccupied ++ [coordinate]
          inventoryItems := takeFromInventory row.key app.inventoryItems }, [],
        [.placeActive uid row.key row.item coordinate, .placeInventory uid row.key]⟩ := by
    simp [Tap.handle, onPlacementCompleted, hne, happ.currentUser, bind, Except.bind]
  refine ⟨_, htap, hremote, ⟨happ.currentUser, ?_, happ.entries⟩, ?_⟩
  · exact forall_takeFromInventory happ.rows row.key (fun _ hsold _ => hsold)
  · intro read hread
    rcases List.mem_cons.mp hread with rfl | hread
    · exact ⟨rfl, hsold⟩
    · rw [List.mem_singleton.mp hread]
      exact ⟨rfl, hsold.1⟩

theorem remove_keepsLists {coordinate : String}
    (hshown : ∃ item ∈ app.activeItems, coordinate ∈ item.coordinates) :
    ∃ fx, Tap.handle (.remove coordinate) app = .ok fx ∧
      KeepsLists uid remote fx := by
  by_cases hempty : coordinate = ""
  · subst hempty
    exact ⟨⟨app.present RemoveItemViewController.invalidInput, [], []⟩, rfl, hremote,
      ⟨happ.currentUser, happ.rows, happ.entries⟩, fun _ hread => by cases hread⟩
  · have hfound := happ.entries _ (find_of_shown hshown).1
    have htap : Tap.handle (.remove coordinate) app =
        .ok ⟨{ app with
            coordinatesOccupied :=
              removeLast (fun x => x = coordinate) app.coordinatesOccupied
            activeItems := dropCoordinate coordinate app.activeItems
            inventoryItems := returnToInventory
              (findActiveItemCoordinate app.activeItems coordinate) coordinate
              app.inventoryItems }, [],
          [.removeActive uid (findActiveItemCoordinate app.activeItems coordinate).key
              coordinate,
            .removeInventory uid
              (findActiveItemCoordinate app.activeItems coordinate).key]⟩ := by
      simp [Tap.handle, onRemove, hempty, happ.currentUser, bind, Except.bind]
    refine ⟨_, htap, hremote, ⟨happ.currentUser, ?_, ?_⟩, ?_⟩
    · exact forall_returnToInventory happ.rows _ coordinate (fun _ hsold => hsold) hfound
    · exact sold_dropCoordinate happ.entries coordinate
    · intro read hread
      rcases List.mem_cons.mp hread with rfl | hread
      · exact ⟨rfl, hfound.1⟩
      · rw [List.mem_singleton.mp hread]
        exact ⟨rfl, hfound.1⟩

/-- The callbacks never trap; only PLACE's needs the list to be long enough. -/
theorem callback_keepsLists {read : Read} {snapshot : Snapshot}
    (hread : LandRead uid read) (hshows : ShowsStored read snapshot)
    (hwithin : ∀ key item coordinate node order,
      read = .placeActive uid key item coordinate → snapshot = .value node order →
      listLength node ≤ listLength ((remote uid).get (fpath ["activeItems", key]))) :
    ∃ fx, read.callback snapshot app = .ok fx ∧ KeepsLists uid remote fx := by
  obtain ⟨rfl, hkey⟩ := hread
  obtain ⟨node, order, rfl, hnode⟩ := hshows
  cases read with
  | placeActive uid key item coordinate =>
      obtain ⟨placed, hplaced⟩ := hnode
      have hlength := hwithin key item coordinate node order rfl rfl
      rw [hplaced.listLength] at hlength
      have hfx := placeActiveRead_list hplaced uid key item coordinate order app
      refine ⟨_, hfx, hremote.placeWrite hkey.1 hlength coordinate,
        ⟨happ.currentUser, happ.rows, ?_⟩, fun _ hread => by cases hread⟩
      exact sold_placeLocal happ.entries hkey.1 hkey.2 coordinate placed
  | placeInventory uid key =>
      obtain ⟨n, rfl⟩ := hnode
      have hfx := placeInventoryRead_count uid key n order app
      refine ⟨_, hfx, ?_, happ, fun _ hread => by cases hread⟩
      dsimp only
      by_cases hn : n = 0
      · rw [if_pos hn]
        exact hremote
      · rw [if_neg hn]
        exact hremote.countWrite hkey (n - 1)
  | removeActive uid key coordinate =>
      obtain ⟨placed, hplaced⟩ := hnode
      have hfx := removeActiveRead_list hplaced uid key coordinate order app
      exact ⟨_, hfx, hremote.removeWrites hkey coordinate placed, happ,
        fun _ hread => by cases hread⟩
  | removeInventory uid key =>
      obtain ⟨n, rfl⟩ := hnode
      have hfx := removeInventoryRead_count (storeKeys_ne_empty hkey) uid n order app
      exact ⟨_, hfx, hremote.countWrite hkey (n + 1), happ, fun _ hread => by cases hread⟩
  | _ => exact hkey.elim

end Handlers

/-! ## Runs -/

/-- Every list stored can be read back, by PLACE and REMOVE and by a sign-in. -/
structure ReadableLists (node : FNode) : Prop where
  gapless : ∀ key, ∃ placed, IsList ((node.child "activeItems").child key) placed
  casts : ∀ key, ((node.child "activeItems").child key).isEmpty = false →
    (asStringArray ((node.child "activeItems").child key)).isSome
  loads : ∀ order, ∃ rows, freshActive order (node.child "activeItems") = .ok rows

theorem StoresLists.readable {uid : Uid} {remote : Remote} (h : StoresLists uid remote) :
    ReadableLists (remote uid) := by
  obtain ⟨record, hholds, hkeys⟩ := h
  refine ⟨fun key => ⟨_, hholds.active key⟩, ?_, ?_⟩
  · intro key hstored
    have hne : record.land key ≠ [] := by
      intro hnil
      have hlist := hholds.active key
      rw [hnil] at hlist
      rw [Tree.isEmpty_eq_false_iff] at hstored
      exact hstored (isList_nil_iff.mp hlist)
    rw [(hholds.active key).asStringArray hne]
    rfl
  · intro order
    obtain ⟨rows, hload, _⟩ := freshActive_perm hholds hkeys order
    exact ⟨rows, hload⟩

/-- **The stored lists stay readable.**  In every run of PLACE and REMOVE in which
no PLACE callback runs on a list that has become shorter than the one it read
and REMOVE is tapped only for coordinates some entry has, no code ever traps and
at every moment each stored list is gapless and can be loaded. -/
theorem run_lists_readable {uid : Uid} {remote : Remote} {record : UserRecord}
    {app : App} (hholds : Holds (remote uid) record) (hwf : record.WellFormed)
    (hsigned : SignedIn uid (remote uid) app) {es : List AppEvent}
    (halong : client.Along
      (fun s e => PlacesAndRemoves s e ∧ RemovesShown s e ∧ ServeMeets WritesWithin s e)
      ⟨remote, app, []⟩ es) :
    ∃ s', client.run ⟨remote, app, []⟩ es = .ok s' ∧ ReadableLists (s'.remote uid) := by
  have hplay := hsigned.inPlay hholds hwf
  have hstart : Client.InFlight (StoresLists uid) (KnownItems uid) (LandRead uid)
      ShowsStored (⟨remote, app, []⟩ : AppSys) :=
    .of_idle ⟨record, hholds, hwf.landKey⟩
      ⟨hsigned.currentUser, hplay.showsInventory.known, hplay.showsLand.known⟩
  obtain ⟨s', hrun, hend⟩ := client.run_inFlight_total
    (fun s i reply read hC hremote hread => showsStored_answer hremote hread hC.1)
    (fun s tap hC hremote happ => by
      cases tap with
      | place key item coordinate => exact place_keepsLists hremote happ hC.1
      | remove coordinate =>
          exact remove_keepsLists hremote happ (hC.2.1 coordinate rfl)
      | _ => exact hC.1.elim)
    (fun s i read snapshot hC hserved hremote happ hread hshows => by
      refine callback_keepsLists hremote happ hread hshows ?_
      intro key item coordinate node order hplace hvalue
      subst hplace hvalue
      exact hC.2.2 i _ _ rfl hserved)
    es _ hstart halong
  exact ⟨s', hrun, hend.store.readable⟩

/-- A tree is removed and placed somewhere else; the second operation is tapped
before the callbacks of the first have run, and its list is read after that. -/
def moveTree : List AppEvent :=
  [ .tap (.remove "(0,0)"), .tap (.place "tree" "Tree" "(0,1)"),
    .answer 0 (.value []), .answer 1 (.value []), .answer 3 (.value []), .serve 0,
    .answer 1 (.value []), .serve 0, .serve 0, .serve 0 ]

theorem run_lists_readable_moveTree :
    ∃ s', client.run ⟨plantedTree, plantedTreeApp "ann" treeShelf, []⟩ moveTree = .ok s' ∧
      ReadableLists (s'.remote "ann") :=
  run_lists_readable (plantedTree_holds "ann") plantedTree_wellFormed
    (plantedTree_signedIn "ann" treeShelf) (by decide +kernel)

/-- The same taps, with the list of the second operation read too early. -/
def moveTreeEarly : List AppEvent :=
  [ .tap (.remove "(0,0)"), .tap (.place "tree" "Tree" "(0,1)"),
    .answer 0 (.value []), .answer 1 (.value []), .answer 2 (.value []),
    .answer 3 (.value []), .serve 0, .serve 0, .serve 0, .serve 0 ]

/-- Then the only coordinate is stored at index 1, and index 0 is missing. -/
theorem not_run_lists_readable :
    ¬ ∀ (uid : Uid) (remote : Remote) (record : UserRecord) (app : App)
        (es : List AppEvent), Holds (remote uid) record → record.WellFormed →
        SignedIn uid (remote uid) app →
        client.Along PlacesAndRemoves ⟨remote, app, []⟩ es →
        ∀ s', client.run ⟨remote, app, []⟩ es = .ok s' → s'.pending = [] →
          ReadableLists (s'.remote uid) := by
  intro hclaim
  obtain ⟨s', hrun, hidle, hstored, hunreadable⟩ :
      ∃ s', client.run ⟨plantedTree, plantedTreeApp "ann" treeShelf, []⟩ moveTreeEarly =
          .ok s' ∧
        s'.pending = [] ∧
        (((s'.remote "ann").child "activeItems").child "tree").isEmpty = false ∧
        (asStringArray (((s'.remote "ann").child "activeItems").child "tree")).isSome =
          false :=
    client.exists_run_of_check (by decide +kernel)
  have hreadable := hclaim "ann" _ _ _ _ (plantedTree_holds "ann") plantedTree_wellFormed
    (plantedTree_signedIn "ann" treeShelf) (by decide +kernel) s' hrun hidle
  have hsome := hreadable.casts "tree" hstored
  rw [hunreadable] at hsome
  cases hsome

end WillItRecycle

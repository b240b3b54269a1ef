import WillItRecycle.SessionRun

/-!
# What the sign-in load makes of a record

A load enumerates two dictionaries in an order it does not control, so that it
determines the three lists up to order.  `inventoryRows` and `landRows` are the
lists of one fixed order; every load of a well-formed record succeeds with a
permutation of them (`loadedInventory_perm`, `loadedActive_perm`), and a serial
sign-in ends with a session in play (`serial_signIn`).
-/

namespace WillItRecycle

open PathTree ReadCallback

/-- The inventory of a record as rows. -/
def inventoryRows (record : UserRecord) : List GameItem :=
  (storeKeys.filter fun key => record.inventory key ≠ 0).map fun key =>
    ⟨key, itemName key, record.inventory key, []⟩

/-- The land of a record as entries. -/
def landRows (record : UserRecord) : List GameItem :=
  (storeKeys.filter fun key => record.land key ≠ []).map fun key =>
    ⟨key, itemName key, (record.land key).length, record.land key⟩

/-! ## Dictionaries -/

/-- An enumeration of a dictionary visits every key once. -/
theorem enumerate_perm (order : List String) {keys : List String}
    (hnodup : keys.Nodup) : (enumerate order keys).Perm keys := by
  unfold enumerate
  have hfirst : ((order.filter (· ∈ keys)).dedup).Nodup := List.nodup_dedup _
  have hsecond : (keys.filter (· ∉ order)).Nodup := hnodup.filter _
  rw [List.perm_ext_iff_of_nodup ?_ hnodup]
  · intro key
    by_cases horder : key ∈ order
    · simp [horder]
    · simp [horder]
  · rw [List.nodup_append]
    refine ⟨hfirst, hsecond, ?_⟩
    intro key hkey key' hkey' heq
    subst heq
    rw [List.mem_dedup, List.mem_filter] at hkey
    rw [List.mem_filter] at hkey'
    exact (of_decide_eq_true hkey'.2) hkey.1

/-- The keys of the store are different. -/
theorem storeKeys_nodup : storeKeys.Nodup := by decide

/-- No key of the store is a number, so that their dictionaries are no arrays. -/
theorem integerKey_storeKey {key : String} (h : key ∈ storeKeys) :
    integerKey key = none := by
  have hall : ∀ k ∈ storeKeys, integerKey k = none := by decide
  exact hall key h

/-- A nonempty node whose children are store keys is a dictionary of them. -/
theorem asDictionary_storeKeys {node : FNode} (hbranch : node.isLeaf = false)
    (hne : node ≠ Tree.empty)
    (hkeys : ∀ key, node.child key ≠ Tree.empty → key ∈ storeKeys) :
    asDictionary node = some node.names ∧
      node.names.Perm (storeKeys.filter fun key => !(node.child key).isEmpty) := by
  obtain ⟨name, hname⟩ : ∃ name, node.child name ≠ Tree.empty := by
    by_contra hnone
    apply hne
    apply Tree.eq_empty_of_child hbranch
    intro name
    by_contra hchild
    exact hnone ⟨name, hchild⟩
  refine ⟨?_, ?_⟩
  · have hmem : name ∈ node.names := Tree.mem_names_iff.mpr hname
    exact asDictionary_eq_names hmem (integerKey_storeKey (hkeys name hname))
  · rw [List.perm_ext_iff_of_nodup node.nodup_names (storeKeys_nodup.filter _)]
    intro key
    rw [Tree.mem_names_iff, List.mem_filter]
    rw [Bool.not_eq_true', Tree.isEmpty_eq_false_iff]
    constructor
    · intro hkey
      exact ⟨hkeys key hkey, hkey⟩
    · intro hkey
      exact hkey.2

/-! ## Loads of a well-formed record -/

/-- The inventory a load leaves; nothing is appended when there is none. -/
def freshInventory (order : List String) (node : FNode) :
    Except Trap (List GameItem) :=
  if node.isEmpty then .ok [] else (loadedInventory order node).map sortByItem

/-- The local entries after the load of `activeItems`, from an empty list. -/
def freshActive (order : List String) (node : FNode) :
    Except Trap (List GameItem) :=
  if node.isEmpty then .ok [] else loadedActive order node

section Loads

variable {node : FNode} {record : UserRecord} (h : Holds node record)
include h

/-- A stored inventory loads without a trap, and its rows are those of the record in some
order, whichever order the database enumerates in. -/
theorem loadedInventory_perm
    (hkeys : ∀ key, record.inventory key ≠ 0 → key ∈ storeKeys) (order : List String)
    (hne : node.child "inventory" ≠ Tree.empty) :
    ∃ rows, loadedInventory order (node.child "inventory") = .ok rows ∧
      rows.Perm (inventoryRows record) := by
  have hchild : ∀ key, (node.child "inventory").child key ≠ Tree.empty ↔
      record.inventory key ≠ 0 := by
    intro key
    rw [h.inventory key, ne_eq, countNode_eq_empty]
  obtain ⟨hdictionary, hnames⟩ := asDictionary_storeKeys h.inventoryBranch hne
    (fun key hkey => hkeys key ((hchild key).mp hkey))
  have hperm := (enumerate_perm order (node.child "inventory").nodup_names).trans hnames
  have hload : loadedInventory order (node.child "inventory") = .ok
      ((enumerate order (node.child "inventory").names).map fun key =>
        ⟨key, itemName key, record.inventory key, []⟩) := by
    unfold loadedInventory
    rw [hdictionary]
    apply mapM_eq_ok_map
    intro key hkey
    have hpresent := (List.mem_filter.mp (hperm.subset hkey)).2
    have hpos : 0 < record.inventory key := by
      rw [Bool.not_eq_true', Tree.isEmpty_eq_false_iff, hchild key] at hpresent
      omega
    rw [h.inventory key, countNode_of_pos hpos]
    rfl
  refine ⟨_, hload, ?_⟩
  have hfilter : (storeKeys.filter fun key =>
      !((node.child "inventory").child key).isEmpty) =
      storeKeys.filter fun key => record.inventory key ≠ 0 := by
    apply List.filter_congr
    intro key _
    rw [Bool.eq_iff_iff, Bool.not_eq_true', Tree.isEmpty_eq_false_iff, hchild key,
      decide_eq_true_iff]
  rw [hfilter] at hperm
  exact hperm.map _

/-- A stored land loads without a trap, and its entries are those of the record in some
order. -/
theorem loadedActive_perm
    (hkeys : ∀ key, record.land key ≠ [] → key ∈ storeKeys) (order : List String)
    (hne : node.child "activeItems" ≠ Tree.empty) :
    ∃ rows, loadedActive order (node.child "activeItems") = .ok rows ∧
      rows.Perm (landRows record) := by
  have hchild : ∀ key, (node.child "activeItems").child key ≠ Tree.empty ↔
      record.land key ≠ [] := by
    intro key
    have hlist := h.active key
    constructor
    · intro hsome hnil
      rw [hnil] at hlist
      exact hsome (isList_nil_iff.mp hlist)
    · intro hsome hempty
      exact hsome (hlist.unique (isList_nil_iff.mpr hempty))
  obtain ⟨hdictionary, hnames⟩ := asDictionary_storeKeys h.activeBranch hne
    (fun key hkey => hkeys key ((hchild key).mp hkey))
  have hperm := (enumerate_perm order (node.child "activeItems").nodup_names).trans hnames
  have hload : loadedActive order (node.child "activeItems") = .ok
      ((enumerate order (node.child "activeItems").names).map fun key =>
        ⟨key, itemName key, (record.land key).length, record.land key⟩) := by
    unfold loadedActive
    rw [hdictionary]
    apply mapM_eq_ok_map
    intro key hkey
    have hpresent := (List.mem_filter.mp (hperm.subset hkey)).2
    rw [Bool.not_eq_true', Tree.isEmpty_eq_false_iff, hchild key] at hpresent
    rw [(h.active key).asStringArray hpresent]
    rfl
  refine ⟨_, hload, ?_⟩
  have hfilter : (storeKeys.filter fun key =>
      !((node.child "activeItems").child key).isEmpty) =
      storeKeys.filter fun key => record.land key ≠ [] := by
    apply List.filter_congr
    intro key _
    rw [Bool.eq_iff_iff, Bool.not_eq_true', Tree.isEmpty_eq_false_iff, hchild key,
      decide_eq_true_iff]
  rw [hfilter] at hperm
  exact hperm.map _

/-- So does an inventory that may not be stored: then there are no rows. -/
theorem freshInventory_perm
    (hkeys : ∀ key, record.inventory key ≠ 0 → key ∈ storeKeys) (order : List String) :
    ∃ rows, freshInventory order (node.child "inventory") = .ok rows ∧
      rows.Perm (inventoryRows record) := by
  unfold freshInventory
  by_cases hempty : node.child "inventory" = Tree.empty
  · refine ⟨[], by rw [hempty]; rfl, ?_⟩
    have hzero : ∀ key, record.inventory key = 0 := by
      intro key
      have hkey := h.inventory key
      rw [hempty, Tree.child_empty] at hkey
      exact countNode_eq_empty.mp hkey.symm
    simp [inventoryRows, hzero]
  · obtain ⟨rows, hload, hperm⟩ := loadedInventory_perm h hkeys order hempty
    have hne : (node.child "inventory").isEmpty = false :=
      Tree.isEmpty_eq_false_iff.mpr hempty
    refine ⟨sortByItem rows, by rw [hne, hload]; rfl, ?_⟩
    exact (List.perm_insertionSort _ rows).trans hperm

/-- So does a land that may not be stored: then there are no entries. -/
theorem freshActive_perm
    (hkeys : ∀ key, record.land key ≠ [] → key ∈ storeKeys) (order : List String) :
    ∃ rows, freshActive order (node.child "activeItems") = .ok rows ∧
      rows.Perm (landRows record) := by
  unfold freshActive
  by_cases hempty : node.child "activeItems" = Tree.empty
  · refine ⟨[], by rw [hempty]; rfl, ?_⟩
    have hnil : ∀ key, record.land key = [] := by
      intro key
      have hkey := h.active key
      rw [hempty, Tree.child_empty] at hkey
      exact hkey.unique (isList_nil_iff.mpr rfl)
    simp [landRows, hnil]
  · obtain ⟨rows, hload, hperm⟩ := loadedActive_perm h hkeys order hempty
    have hne : (node.child "activeItems").isEmpty = false :=
      Tree.isEmpty_eq_false_iff.mpr hempty
    exact ⟨rows, by rw [hne, hload]; rfl, hperm⟩

end Loads

/-! ## The session after a sign-in -/

/-- The app right after the load of the record at `node`. -/
structure SignedIn (uid : Uid) (node : FNode) (app : App) : Prop where
  currentUser : app.currentUser = some uid
  inventoryItems : ∃ order,
    freshInventory order (node.child "inventory") = .ok app.inventoryItems
  activeItems : ∃ order,
    freshActive order (node.child "activeItems") = .ok app.activeItems
  coordinatesOccupied :
    app.coordinatesOccupied = app.activeItems.flatMap GameItem.coordinates

/-- The rows of a record are of the kinds with a count, and show the count. -/
theorem mem_inventoryRows {record : UserRecord} {row : GameItem} :
    row ∈ inventoryRows record ↔ row.key ∈ storeKeys ∧
      record.inventory row.key ≠ 0 ∧
      row = ⟨row.key, itemName row.key, record.inventory row.key, []⟩ := by
  unfold inventoryRows
  rw [List.mem_map]
  constructor
  · intro h
    obtain ⟨key, hkey, rfl⟩ := h
    rw [List.mem_filter] at hkey
    exact ⟨hkey.1, by simpa using hkey.2, rfl⟩
  · intro h
    obtain ⟨hkey, hcount, hrow⟩ := h
    refine ⟨row.key, ?_, hrow.symm⟩
    rw [List.mem_filter]
    exact ⟨hkey, by simpa using hcount⟩

/-- The entries of a record are of the kinds with a place, and hold the places. -/
theorem mem_landRows {record : UserRecord} {item : GameItem} :
    item ∈ landRows record ↔ item.key ∈ storeKeys ∧ record.land item.key ≠ [] ∧
      item = ⟨item.key, itemName item.key, (record.land item.key).length,
        record.land item.key⟩ := by
  unfold landRows
  rw [List.mem_map]
  constructor
  · intro h
    obtain ⟨key, hkey, rfl⟩ := h
    rw [List.mem_filter] at hkey
    exact ⟨hkey.1, by simpa using hkey.2, rfl⟩
  · intro h
    obtain ⟨hkey, hplaced, hitem⟩ := h
    refine ⟨item.key, ?_, hitem.symm⟩
    rw [List.mem_filter]
    exact ⟨hkey, by simpa using hplaced⟩

/-- There is one entry for each kind. -/
theorem nodup_keys_landRows (record : UserRecord) :
    ((landRows record).map GameItem.key).Nodup := by
  unfold landRows
  rw [List.map_map]
  have hkeys : (GameItem.key ∘ fun key : String =>
      (⟨key, itemName key, (record.land key).length, record.land key⟩ : GameItem)) =
      id := rfl
  rw [hkeys, List.map_id]
  exact storeKeys_nodup.filter _

/-- There is one row for each kind. -/
theorem nodup_keys_inventoryRows (record : UserRecord) :
    ((inventoryRows record).map GameItem.key).Nodup := by
  unfold inventoryRows
  rw [List.map_map]
  have hkeys : (GameItem.key ∘ fun key : String =>
      (⟨key, itemName key, record.inventory key, []⟩ : GameItem)) = id := rfl
  rw [hkeys, List.map_id]
  exact storeKeys_nodup.filter _

/-- The coordinates of a well-formed land are different. -/
theorem nodup_coordinates_landRows {record : UserRecord}
    (hwf : record.WellFormed) :
    ((landRows record).flatMap GameItem.coordinates).Nodup := by
  rw [List.nodup_flatMap]
  refine ⟨?_, ?_⟩
  · intro item hitem
    obtain ⟨_, _, heq⟩ := mem_landRows.mp hitem
    rw [heq]
    exact hwf.nodup item.key
  · have hpairwise := List.pairwise_map.mp (nodup_keys_landRows record)
    apply hpairwise.imp_of_mem
    intro item other hitem hother hne x hx hx'
    obtain ⟨_, _, heq⟩ := mem_landRows.mp hitem
    obtain ⟨_, _, heq'⟩ := mem_landRows.mp hother
    rw [heq] at hx
    rw [heq'] at hx'
    exact hne (hwf.apart _ _ x hx hx')

section Loaded

variable {record : UserRecord} {app : App}

/-- Right after a load every unit stored is shown. -/
theorem unitsShown_of_perm (hwf : record.WellFormed)
    (hrows : app.inventoryItems.Perm (inventoryRows record)) (key : String) :
    unitsShown key app.inventoryItems = record.inventory key := by
  have hnodup : (app.inventoryItems.map GameItem.key).Nodup :=
    (hrows.map GameItem.key).nodup_iff.mpr (nodup_keys_inventoryRows record)
  by_cases hzero : record.inventory key = 0
  · rw [hzero]
    apply unitsShown_eq_zero
    intro row hrow hkey
    have hmem := mem_inventoryRows.mp (hrows.subset hrow)
    exact hmem.2.1 (hkey ▸ hzero)
  · have hmem : (⟨key, itemName key, record.inventory key, []⟩ : GameItem) ∈
        inventoryRows record :=
      mem_inventoryRows.mpr ⟨hwf.inventoryKey key hzero, hzero, rfl⟩
    exact unitsShown_of_mem hnodup (hrows.symm.subset hmem)

/-- Rows that are those of the record, in any order, show its inventory. -/
theorem showsInventory_of_perm (hwf : record.WellFormed)
    (hrows : app.inventoryItems.Perm (inventoryRows record)) :
    ShowsInventory record app := by
  refine ⟨?_, ?_, ?_, ?_⟩
  · intro row hrow
    obtain ⟨hkey, _, heq⟩ := mem_inventoryRows.mp (hrows.subset hrow)
    refine ⟨hkey, ?_⟩
    rw [heq]
  · exact (hrows.map GameItem.key).nodup_iff.mpr (nodup_keys_inventoryRows record)
  · intro row hrow
    obtain ⟨_, hcount, heq⟩ := mem_inventoryRows.mp (hrows.subset hrow)
    rw [heq]
    change 1 ≤ (record.inventory row.key : Int)
    omega
  · intro key
    rw [unitsShown_of_perm hwf hrows]

/-- Entries and cells that are those of the record, in any order, show its land. -/
theorem showsLand_of_perm (hwf : record.WellFormed)
    (hitems : app.activeItems.Perm (landRows record))
    (hoccupied : app.coordinatesOccupied.Perm
      ((landRows record).flatMap GameItem.coordinates)) : ShowsLand record app := by
  have hplaced : ∀ key coordinate, coordinate ∈ record.land key ↔
      ∃ item ∈ app.activeItems, item.key = key ∧ coordinate ∈ item.coordinates := by
    intro key coordinate
    constructor
    · intro hmem
      have hne := List.ne_nil_of_mem hmem
      refine ⟨⟨key, itemName key, (record.land key).length, record.land key⟩, ?_, rfl, hmem⟩
      apply hitems.symm.subset
      exact mem_landRows.mpr ⟨hwf.landKey key hne, hne, rfl⟩
    · intro hsome
      obtain ⟨item, hitem, rfl, hmem⟩ := hsome
      obtain ⟨_, _, heq⟩ := mem_landRows.mp (hitems.subset hitem)
      rw [heq] at hmem
      exact hmem
  refine ⟨?_, ?_, ?_, hplaced, ?_, ?_⟩
  · intro item hitem
    obtain ⟨hkey, _, heq⟩ := mem_landRows.mp (hitems.subset hitem)
    refine ⟨hkey, ?_⟩
    rw [heq]
  · intro item hitem
    obtain ⟨_, _, heq⟩ := mem_landRows.mp (hitems.subset hitem)
    rw [heq]
    exact hwf.nodup item.key
  · intro item hitem
    obtain ⟨_, _, heq⟩ := mem_landRows.mp (hitems.subset hitem)
    rw [heq]
  · intro coordinate
    rw [hoccupied.mem_iff, List.mem_flatMap]
    constructor
    · intro hsome
      obtain ⟨item, hitem, hmem⟩ := hsome
      exact ⟨item.key, (hplaced _ _).mpr ⟨item, hitems.symm.subset hitem, rfl, hmem⟩⟩
    · intro hsome
      obtain ⟨key, hmem⟩ := hsome
      obtain ⟨item, hitem, _, hcoordinate⟩ := (hplaced key coordinate).mp hmem
      exact ⟨item, hitems.subset hitem, hcoordinate⟩
  · exact hoccupied.nodup_iff.mpr (nodup_coordinates_landRows hwf)

end Loaded

/-- After a sign-in the rows are those of the record. -/
theorem SignedIn.perm_inventoryRows {uid : Uid} {node : FNode} {record : UserRecord}
    {app : App} (h : SignedIn uid node app) (hholds : Holds node record)
    (hwf : record.WellFormed) : app.inventoryItems.Perm (inventoryRows record) := by
  obtain ⟨order, hload⟩ := h.inventoryItems
  obtain ⟨rows, hrows, hperm⟩ := freshInventory_perm hholds hwf.inventoryKey order
  rw [hload] at hrows
  rwa [Except.ok.inj hrows]

/-- After a sign-in the entries are those of the record. -/
theorem SignedIn.perm_landRows {uid : Uid} {node : FNode} {record : UserRecord}
    {app : App} (h : SignedIn uid node app) (hholds : Holds node record)
    (hwf : record.WellFormed) : app.activeItems.Perm (landRows record) := by
  obtain ⟨order, hload⟩ := h.activeItems
  obtain ⟨rows, hrows, hperm⟩ := freshActive_perm hholds hwf.landKey order
  rw [hload] at hrows
  rwa [Except.ok.inj hrows]

/-- **After a sign-in the session is in play.** -/
theorem SignedIn.inPlay {uid : Uid} {remote : Remote} {record : UserRecord}
    {app : App} (h : SignedIn uid (remote uid) app)
    (hholds : Holds (remote uid) record) (hwf : record.WellFormed) :
    InPlay uid ⟨record, app⟩ remote app := by
  have hitems := h.perm_landRows hholds hwf
  have hoccupied : app.coordinatesOccupied.Perm
      ((landRows record).flatMap GameItem.coordinates) := by
    rw [h.coordinatesOccupied]
    exact hitems.flatMap_right _
  exact ⟨⟨hholds, rfl, h.currentUser, hwf, showsLand_of_perm hwf hitems hoccupied⟩,
    showsInventory_of_perm hwf (h.perm_inventoryRows hholds hwf)⟩

/-! ## The run that signs in -/

/-- The callback on `inventory`, on lists just cleared. -/
theorem signInInventoryRead_fresh {order : List String} {node : FNode}
    {rows : List GameItem} (hfresh : freshInventory order node = .ok rows)
    {app : App} (hclear : app.inventoryItems = []) :
    signInInventoryRead (.value node order) app =
      { app with inventoryItems := rows }.done := by
  unfold freshInventory at hfresh
  unfold signInInventoryRead
  by_cases hempty : node.isEmpty = true
  · simp only [hempty, if_true, Except.ok.injEq] at hfresh ⊢
    rw [← hfresh, ← hclear]
  · simp only [hempty, Bool.false_eq_true, if_false] at hfresh ⊢
    cases hload : loadedInventory order node with
    | error trap => simp [hload, Except.map] at hfresh
    | ok loaded =>
        simp only [hload, Except.map, Except.ok.injEq] at hfresh
        simp only [bind, Except.bind, hclear, List.nil_append, hfresh]

/-- The callback on `activeItems` appends what a load gives. -/
theorem signInActiveRead_fresh {order : List String} {node : FNode}
    {rows : List GameItem} (hfresh : freshActive order node = .ok rows) (app : App) :
    signInActiveRead (.value node order) app =
      { app with
        activeItems := app.activeItems ++ rows
        coordinatesOccupied :=
          app.coordinatesOccupied ++ rows.flatMap GameItem.coordinates }.done := by
  unfold freshActive at hfresh
  unfold signInActiveRead
  by_cases hempty : node.isEmpty = true
  · simp only [hempty, if_true, Except.ok.injEq] at hfresh ⊢
    subst hfresh
    rw [List.flatMap_nil, List.append_nil, List.append_nil]
  · simp only [hempty, Bool.false_eq_true, if_false] at hfresh ⊢
    simp only [hfresh, bind, Except.bind]

/-- The app with its lists cleared for an account. -/
def App.cleared (app : App) (uid : Uid) : App :=
  { app with
    currentUser := some uid
    inventoryItems := []
    activeItems := []
    coordinatesOccupied := [] }

/-- The reads of a sign-in change nothing in the database, and leave the app that has
signed in to the record. -/
theorem settles_signIn {uid : Uid} (displayName : Option String) {remote : Remote}
    {record : UserRecord} (hholds : Holds (remote uid) record)
    (hwf : record.WellFormed)
    (hname : (remote uid).child "displayName" ≠ Tree.empty) (app : App) :
    client.Settles Reply.Succeeds
      (fun remote' app' => remote' = remote ∧ SignedIn uid (remote uid) app')
      [.signInName uid displayName] remote (app.cleared uid) := by
  choose rows hrows _ using fun order => freshInventory_perm hholds hwf.inventoryKey order
  choose items hitems _ using fun order => freshActive_perm hholds hwf.landKey order
  let inventoryLoaded : Reply → App := fun info => match info with
    | .value order => { app.cleared uid with inventoryItems := rows order }
    | .error => app.cleared uid
  let activeLoaded : Reply → Reply → App := fun info info' => match info' with
    | .value order => { inventoryLoaded info with
        activeItems := items order
        coordinatesOccupied := (items order).flatMap GameItem.coordinates }
    | .error => inventoryLoaded info
  apply Client.Settles.serve
    (fun _ => ⟨app.cleared uid, [], [.signInInventory uid, .signInActive uid]⟩)
  · intro info hok
    cases info with
    | error => exact hok.elim
    | value order =>
        have hne : ((remote uid).child "displayName").isEmpty = false :=
          Tree.isEmpty_eq_false_iff.mpr hname
        change signInNameRead uid displayName
          (.value ((remote uid).child "displayName") order) _ = _
        simp [signInNameRead, hne]
  · intro info _ read hread
    cases hread
  · intro info _
    apply Client.Settles.serve (fun info => ⟨inventoryLoaded info, [], []⟩)
    · intro info hok
      cases info with
      | error => exact hok.elim
      | value order => exact signInInventoryRead_fresh (hrows order) rfl
    · intro info _ read _ info'
      rfl
    · intro info hok
      apply Client.Settles.serve (fun info' => ⟨activeLoaded info info', [], []⟩)
      · intro info' hok'
        cases info with
        | error => exact hok.elim
        | value order =>
            cases info' with
            | error => exact hok'.elim
            | value order' => exact signInActiveRead_fresh (hitems order') _
      · intro info' _ read hread
        cases hread
      · intro info' hok'
        apply Client.Settles.done
        cases info with
        | error => exact hok.elim
        | value order =>
            cases info' with
            | error => exact hok'.elim
            | value order' =>
                exact ⟨rfl, rfl, ⟨order, hrows order⟩, ⟨order', hitems order'⟩, rfl⟩

/-- A serial sign-in of an account with a display name and a well-formed record
ends signed in, whatever the app showed before. -/
theorem serial_signIn {uid : Uid} {displayName : Option String} {remote : Remote}
    {record : UserRecord} (hholds : Holds (remote uid) record)
    (hwf : record.WellFormed)
    (hname : (remote uid).child "displayName" ≠ Tree.empty)
    (app : App) {es : List AppEvent} (htaps : taps es = [.signIn uid displayName])
    (hserial : client.Along (Serial Reply.Succeeds) ⟨remote, app, []⟩ es) :
    ∃ s', client.run ⟨remote, app, []⟩ es = .ok s' ∧
      (s'.pending = [] → s'.remote = remote ∧ SignedIn uid (remote uid) s'.state) := by
  let Q : Bool → Remote → App → Prop := fun signedIn remote' app' =>
    remote' = remote ∧ (signedIn = true → SignedIn uid (remote uid) app')
  let V : Bool → List Tap → Prop := fun _ ts =>
    ts = [] ∨ ts = [Tap.signIn uid displayName]
  have htap : ∀ signedIn tap ts remote' app', V signedIn (tap :: ts) →
      Q signedIn remote' app' → V true ts ∧
      ∃ fx, client.tap tap app' = .ok fx ∧
        client.Settles Reply.Succeeds (Q true) fx.reads
          (client.applyAll fx.writes remote') fx.state := by
    intro signedIn tap ts remote' app' hV hQ
    obtain ⟨rfl, rfl⟩ : tap = Tap.signIn uid displayName ∧ ts = [] := by
      rcases hV with hV | hV
      · cases hV
      · exact List.cons.inj hV
    obtain rfl := hQ.1
    refine ⟨Or.inl rfl, _, rfl, ?_⟩
    have hsettles := settles_signIn displayName hholds hwf hname app'
    exact hsettles.mono client (fun _ _ h => ⟨h.1, fun _ => h.2⟩)
  obtain ⟨s', hrun, hsettling⟩ := client.serial_run_plan (Q := Q) (V := V)
    (fun _ _ => true) htap es ⟨remote, app, []⟩ false
    (Client.Settling.of_idle client rfl ⟨rfl, by simp⟩) (Or.inr htaps) hserial
  refine ⟨s', hrun, fun hidle => ?_⟩
  have hQ := hsettling.idle client hidle
  rw [htaps] at hQ
  exact ⟨hQ.1, hQ.2 rfl⟩

/-! ## A new user -/

/-- A user with nothing but leaves. -/
def UserRecord.new (leaves : Int) : UserRecord := ⟨leaves, fun _ => 0, fun _ => []⟩

/-- Every account is new and has some leaves. -/
def newUser (leaves : Int) : Remote := fun _ =>
  (newRecord "Ann").set ["currentLeaves"] (Tree.leaf (.int leaves))

/-- The app of a new user who has signed in. -/
def newUserApp (uid : Uid) (storeItem : Nat → ShelfItem) : App where
  currentUser := some uid
  inventoryItems := []
  activeItems := []
  coordinatesOccupied := []
  storeItem := storeItem
  currentLeaves := []
  alerts := []

/-- What a new user gets is the record with nothing in it. -/
theorem newRecord_holds (displayName : String) :
    Holds (newRecord displayName) (UserRecord.new 0) := by
  have hinventory : (newRecord displayName).child "inventory" = Tree.empty := by
    simp [newRecord, Tree.child_setChild]
  have hactive : (newRecord displayName).child "activeItems" = Tree.empty := by
    simp [newRecord, Tree.child_setChild]
  refine ⟨?_, ?_, ?_, ?_, ?_⟩
  · simp [newRecord, Tree.child_setChild, UserRecord.new]
  · rw [hinventory]
    rfl
  · intro key
    rw [hinventory, Tree.child_empty]
    rfl
  · rw [hactive]
    rfl
  · intro key
    rw [hactive, Tree.child_empty]
    exact isList_nil_iff.mpr rfl

theorem newUser_holds (leaves : Int) (uid : Uid) :
    Holds (newUser leaves uid) (UserRecord.new leaves) :=
  (newRecord_holds "Ann").setCurrentLeaves leaves

theorem newUser_wellFormed (leaves : Int) : (UserRecord.new leaves).WellFormed := by
  refine ⟨?_, ?_, ?_, ?_, ?_⟩
  · intro key hkey
    exact absurd rfl hkey
  · intro key hkey
    exact absurd rfl hkey
  · intro key
    exact List.nodup_nil
  · intro key key' coordinate hmem
    exact absurd hmem List.not_mem_nil
  · intro key
    exact List.not_mem_nil

/-- The lists of a new user are those of a sign-in, since there is nothing to load. -/
theorem newUser_signedIn (leaves : Int) (uid : Uid) (storeItem : Nat → ShelfItem) :
    SignedIn uid (newUser leaves uid) (newUserApp uid storeItem) := by
  have hinventory : (newUser leaves uid).child "inventory" = Tree.empty := by
    simp [newUser, newRecord, Tree.set_cons, Tree.child_setChild]
  have hactive : (newUser leaves uid).child "activeItems" = Tree.empty := by
    simp [newUser, newRecord, Tree.set_cons, Tree.child_setChild]
  refine ⟨rfl, ⟨[], ?_⟩, ⟨[], ?_⟩, rfl⟩
  · rw [hinventory]
    rfl
  · rw [hactive]
    rfl

/-- Every cell of the store shows the tree, for 50 leaves. -/
def treeShelf : Nat → ShelfItem := fun _ => ⟨⟨"tree", "Tree", 50⟩, by decide⟩

/-- The taps one after another, each with its two reads answered and served
before the next. -/
def serially (tapped : List Tap) : List AppEvent :=
  tapped.flatMap fun tap =>
    [.tap tap, .answer 0 (.value []), .answer 1 (.value []), .serve 0, .serve 0]

/-- Every account has one tree on its land and nothing else. -/
def plantedTree : Remote := fun uid =>
  (newUser 0 uid).set ["activeItems", "tree", indexKey 0]
    (Tree.leaf (.string "(0,0)"))

/-- The record with one tree on the first cell. -/
def UserRecord.plantedTree : UserRecord := (UserRecord.new 0).setLand "tree" ["(0,0)"]

/-- The app of such a user who has signed in. -/
def plantedTreeApp (uid : Uid) (storeItem : Nat → ShelfItem) : App :=
  { newUserApp uid storeItem with
    activeItems := [⟨"tree", "Tree", 1, ["(0,0)"]⟩]
    coordinatesOccupied := ["(0,0)"] }

theorem plantedTree_holds (uid : Uid) :
    Holds (plantedTree uid) UserRecord.plantedTree :=
  (newUser_holds 0 uid).appendActive "tree" "(0,0)"

/-- On this land there is one place, of the tree. -/
theorem plantedTree_land (key : String) :
    UserRecord.plantedTree.land key = if key = "tree" then ["(0,0)"] else [] :=
  UserRecord.setLand_land _ _ _ _

theorem plantedTree_wellFormed : UserRecord.plantedTree.WellFormed := by
  have hmem : ∀ key coordinate, coordinate ∈ UserRecord.plantedTree.land key →
      key = "tree" ∧ coordinate = "(0,0)" := by
    intro key coordinate hmem
    rw [plantedTree_land] at hmem
    by_cases hkey : key = "tree"
    · rw [if_pos hkey, List.mem_singleton] at hmem
      exact ⟨hkey, hmem⟩
    · rw [if_neg hkey] at hmem
      cases hmem
  refine ⟨?_, ?_, ?_, ?_, ?_⟩
  · intro key hkey
    exact absurd rfl hkey
  · intro key hkey
    obtain ⟨coordinate, hcoordinate⟩ := List.exists_mem_of_ne_nil _ hkey
    rw [(hmem key coordinate hcoordinate).1]
    decide
  · intro key
    rw [plantedTree_land]
    split <;> simp
  · intro key key' coordinate hplaced hplaced'
    rw [(hmem key coordinate hplaced).1, (hmem key' coordinate hplaced').1]
  · intro key hplaced
    exact absurd (hmem key "" hplaced).2 (by decide)

/-- The lists with one tree are those of a sign-in. -/
theorem plantedTree_signedIn (uid : Uid) (storeItem : Nat → ShelfItem) :
    SignedIn uid (plantedTree uid) (plantedTreeApp uid storeItem) := by
  refine ⟨rfl, ⟨[], ?_⟩, ⟨[], ?_⟩, rfl⟩
  · have hinventory : (plantedTree uid).child "inventory" = Tree.empty := by
      simp [plantedTree, newUser, newRecord, Tree.set_cons, Tree.child_setChild]
    rw [hinventory]
    rfl
  · obtain ⟨rows, hload, hperm⟩ :=
      freshActive_perm (plantedTree_holds uid) plantedTree_wellFormed.landKey []
    have hrows : landRows UserRecord.plantedTree = [⟨"tree", "Tree", 1, ["(0,0)"]⟩] := by
      decide
    rw [hrows] at hperm
    rw [hload, List.perm_singleton.mp hperm]
    rfl

end WillItRecycle

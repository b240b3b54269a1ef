import WillItRecycle.AppClient

/-!
# The record of a user, typed

`UserRecord` is what the land game keeps below `users/<uid>`, with counts and
coordinate lists in place of nodes, and `Holds node record` says that a node
stores it.  The lemmas of the first half say what each callback does when its
snapshot holds a count or a list, and those of the second half what its
writes do to the record.
-/

namespace WillItRecycle

open PathTree ReadCallback

/-- A count as a node; the count 0 is no node. -/
def countNode : Nat → FNode
  | 0 => Tree.empty
  | n + 1 => Tree.leaf (.int (n + 1))

/-- A count of zero is not stored. -/
@[simp] theorem countNode_zero : countNode 0 = Tree.empty := rfl

/-- A positive count is stored as an integer. -/
theorem countNode_of_pos {n : Nat} (h : 0 < n) :
    countNode n = Tree.leaf (.int n) := by
  cases n with
  | zero => omega
  | succ n => rfl

/-- Nothing is stored exactly when the count is zero. -/
theorem countNode_eq_empty {n : Nat} : countNode n = Tree.empty ↔ n = 0 := by
  cases n with
  | zero => simp
  | succ n => simp [countNode]

/-- The node of a count determines the count. -/
theorem countNode_injective {m n : Nat} (h : countNode m = countNode n) :
    m = n := by
  cases m with
  | zero => exact (countNode_eq_empty.mp h.symm).symm
  | succ m =>
      cases n with
      | zero => exact countNode_eq_empty.mp h
      | succ n =>
          have hvalue := congrArg asInt h
          simp only [countNode, asInt_int, Option.some.injEq] at hvalue
          omega

/-- What a record of the game amounts to: a wallet, a count for each kind, and the places
of each kind in the order they are stored. -/
structure UserRecord where
  currentLeaves : Int
  inventory : String → Nat
  land : String → List String

/-- `node` stores `record` among the fields of a user. -/
structure Holds (node : FNode) (record : UserRecord) : Prop where
  currentLeaves : node.child "currentLeaves" =
    Tree.leaf (.int record.currentLeaves)
  inventoryBranch : (node.child "inventory").isLeaf = false
  inventory : ∀ key,
    (node.child "inventory").child key = countNode (record.inventory key)
  activeBranch : (node.child "activeItems").isLeaf = false
  active : ∀ key,
    IsList ((node.child "activeItems").child key) (record.land key)

/-- The record is determined by the node. -/
theorem Holds.unique {node : FNode} {left right : UserRecord}
    (hl : Holds node left) (hr : Holds node right) : left = right := by
  have hleaves : left.currentLeaves = right.currentLeaves := by
    have heq := hl.currentLeaves.symm.trans hr.currentLeaves
    simpa using heq
  have hinventory : left.inventory = right.inventory := by
    funext key
    exact countNode_injective ((hl.inventory key).symm.trans (hr.inventory key))
  have hland : left.land = right.land := by
    funext key
    exact (hl.active key).unique (hr.active key)
  cases left
  cases right
  simp_all

/-! ## Paths and answers -/

/-- The path of a count, for a key that is not empty: Firebase drops empty names from a
path. -/
theorem fpath_inventory {key : String} (hkey : key ≠ "") :
    fpath ["inventory", key] = ["inventory", key] := by
  simp [fpath, hkey]

/-- The path of the list of a kind, for a key that is not empty. -/
theorem fpath_activeItems {key : String} (hkey : key ≠ "") :
    fpath ["activeItems", key] = ["activeItems", key] := by
  simp [fpath, hkey]

/-- The path of one place of a list, for a key that is not empty. -/
theorem fpath_activeItems_index {key : String} (hkey : key ≠ "") (i : Nat) :
    fpath ["activeItems", key, indexKey i] = ["activeItems", key, indexKey i] := by
  simp [fpath, hkey, indexKey_ne_empty]

/-- The path of the wallet has no name to drop. -/
@[simp] theorem fpath_currentLeaves :
    fpath ["currentLeaves"] = ["currentLeaves"] := rfl

/-- A read that fails answers nothing about the store. -/
@[simp] theorem answer_error (read : Read) (remote : Remote) :
    read.answer .error remote = .error := rfl

/-- A read that succeeds answers with the node of its own account at its own path, at the
moment of the answer. -/
@[simp] theorem answer_value (read : Read) (order : List String)
    (remote : Remote) :
    read.answer (.value order) remote =
      .value ((remote read.uid).get read.path) order := rfl

/-- A write below another account or on another branch leaves an answer as
it was. -/
theorem answer_apply_of_ne {write : Write} {read : Read}
    (h : write.uid ≠ read.uid ∨ Diverge write.path read.path)
    (reply : Reply) (remote : Remote) :
    read.answer reply (write.apply remote) = read.answer reply remote := by
  cases reply with
  | error => rfl
  | value order =>
      by_cases huid : read.uid = write.uid
      · have hpath : Diverge write.path read.path :=
          h.resolve_left (fun hne => hne huid.symm)
        simp [Write.apply, huid, Tree.get_set_of_diverge hpath]
      · simp [Write.apply, huid]

/-! ## Callbacks on snapshots that hold a count or a list -/

/-- The write that leaves the count `n` of a key. -/
def countWrite (uid : Uid) (key : String) (n : Nat) : Write :=
  ⟨uid, fpath ["inventory", key], countNode n⟩

/-- PLACE takes one unit from a stored count, and nothing from a count of zero. -/
theorem placeInventoryRead_count (uid : Uid) (key : String) (n : Nat)
    (order : List String) (app : App) :
    placeInventoryRead uid key (.value (countNode n) order) app =
      .ok ⟨app, if n = 0 then [] else [countWrite uid key (n - 1)], []⟩ := by
  cases n with
  | zero => rfl
  | succ n =>
      by_cases hone : n = 0
      · subst hone
        rfl
      · obtain ⟨m, rfl⟩ : ∃ m, n = m + 1 := ⟨n - 1, by omega⟩
        have hcount : ((m + 1 + 1 : Nat) : Int) - 1 = (m : Int) + 1 := by omega
        have hne : ¬ ((m : Int) + 1 + 1 = 1) := by omega
        simp [placeInventoryRead, countNode, countWrite, setValue,
          bind, Except.bind, hne]

/-- REMOVE adds one unit to a stored count. -/
theorem removeInventoryRead_count {key : String} (hkey : key ≠ "") (uid : Uid)
    (n : Nat) (order : List String) (app : App) :
    removeInventoryRead uid key (.value (countNode n) order) app =
      .ok ⟨app, [countWrite uid key (n + 1)], []⟩ := by
  cases n with
  | zero => simp [removeInventoryRead, countWrite, setValue, countNode, hkey]
  | succ n =>
      simp [removeInventoryRead, countNode, countWrite, setValue, bind,
        Except.bind]

/-- What BUY leaves in `inventoryItems` when the remote count was `n`. -/
def deliver (storeItem : StoreItem) (n : Nat) (inventoryItems : List GameItem) :
    List GameItem :=
  if n = 0 then
    inventoryItems ++ [⟨storeItem.key, storeItem.item, 1, []⟩]
  else
    incrementInventory storeItem.key inventoryItems

/-- BUY adds one unit to a stored count and to its row, if the wallet that its first read
found covers the price. -/
theorem buyInventoryRead_count (uid : Uid) (cell tap n : Nat)
    (order : List String) {app : App} {leaves : Int}
    (hleaves : app.currentLeaves[tap]? = some (some leaves)) :
    buyInventoryRead uid cell tap (.value (countNode n) order) app =
      if leaves - (app.shown cell).cost ≥ 0 then
        .ok ⟨{ app with
              inventoryItems :=
                deliver (app.shown cell) n app.inventoryItems }.present
            StoreTableViewCell.successAlert,
          [countWrite uid (app.shown cell).key (n + 1)], []⟩
      else
        (app.present StoreTableViewCell.errorAlert).done := by
  have hcaptured : app.capturedLeaves tap = .ok leaves := by
    simp [App.capturedLeaves, hleaves]
  cases n with
  | zero =>
      by_cases hcost : leaves - (app.shown cell).cost ≥ 0
      · simp only [buyInventoryRead, countNode_zero, Tree.isEmpty_empty, if_true,
          hcaptured, bind, Except.bind, if_pos hcost]
        rfl
      · simp only [buyInventoryRead, countNode_zero, Tree.isEmpty_empty, if_true,
          hcaptured, bind, Except.bind, if_neg hcost]
  | succ n =>
      by_cases hcost : leaves - (app.shown cell).cost ≥ 0
      · simp only [buyInventoryRead, countNode, Tree.isEmpty_leaf,
          Bool.false_eq_true, if_false, hcaptured, bind, Except.bind,
          if_pos hcost, asInt_int, force_some]
        rfl
      · simp only [buyInventoryRead, countNode, Tree.isEmpty_leaf,
          Bool.false_eq_true, if_false, hcaptured, bind, Except.bind,
          if_neg hcost]

/-- What PLACE's callback leaves in `activeItems` when the remote list was
`placed`. -/
def placeLocal (key item coordinate : String) (placed : List String)
    (activeItems : List GameItem) : List GameItem :=
  if placed = [] then activeItems ++ [⟨key, item, 1, [coordinate]⟩]
  else placeAgain key coordinate activeItems

/-- PLACE appends the coordinate at the index after the last stored one, and adds it to
the local list. -/
theorem placeActiveRead_list {node : FNode} {placed : List String}
    (h : IsList node placed) (uid : Uid) (key item coordinate : String)
    (order : List String) (app : App) :
    placeActiveRead uid key item coordinate (.value node order) app =
      .ok ⟨{ app with
            activeItems :=
              placeLocal key item coordinate placed app.activeItems },
        [setValue uid ["activeItems", key, indexKey placed.length]
          (Tree.leaf (.string coordinate))], []⟩ := by
  by_cases hplaced : placed = []
  · subst hplaced
    rw [isList_nil_iff.mp h]
    rfl
  · have hread := h.asStringArray hplaced
    have hempty := h.isEmpty_eq_false hplaced
    simp [placeActiveRead, hempty, hread, placeLocal, hplaced, bind, Except.bind]

/-- The coordinates REMOVE's callback leaves of a list. -/
def keepOthers (coordinate : String) (placed : List String) : List String :=
  if placed.length > 1 then placed.filter (fun x => x ≠ coordinate) else []

/-- The writes of REMOVE's callback on the list `placed`. -/
def removeWrites (uid : Uid) (key coordinate : String) (placed : List String) :
    List Write :=
  if placed = [] then []
  else
    removeValue uid ["activeItems", key] ::
      if placed.length > 1 then rewriteFrom uid key coordinate 0 placed else []

/-- REMOVE deletes the stored list and writes the remaining coordinates back, from the
first index on. -/
theorem removeActiveRead_list {node : FNode} {placed : List String}
    (h : IsList node placed) (uid : Uid) (key coordinate : String)
    (order : List String) (app : App) :
    removeActiveRead uid key coordinate (.value node order) app =
      .ok ⟨app, removeWrites uid key coordinate placed, []⟩ := by
  by_cases hplaced : placed = []
  · subst hplaced
    rw [isList_nil_iff.mp h]
    rfl
  · have hread := h.asStringArray hplaced
    have hempty := h.isEmpty_eq_false hplaced
    simp [removeActiveRead, hempty, hread, removeWrites, hplaced, bind,
      Except.bind]

/-! ## What the writes do to the record -/

namespace UserRecord

/-- The record with another count of one kind. -/
def setInventory (record : UserRecord) (key : String) (n : Nat) : UserRecord :=
  { record with inventory := Function.update record.inventory key n }

/-- The record with another list of places of one kind. -/
def setLand (record : UserRecord) (key : String) (placed : List String) :
    UserRecord :=
  { record with land := Function.update record.land key placed }

/-- A count is not the wallet. -/
@[simp] theorem setInventory_currentLeaves (record : UserRecord) (key : String)
    (n : Nat) : (record.setInventory key n).currentLeaves = record.currentLeaves :=
  rfl

/-- A count is not the land. -/
@[simp] theorem setInventory_land (record : UserRecord) (key : String) (n : Nat) :
    (record.setInventory key n).land = record.land := rfl

/-- The land is not the wallet. -/
@[simp] theorem setLand_currentLeaves (record : UserRecord) (key : String)
    (placed : List String) :
    (record.setLand key placed).currentLeaves = record.currentLeaves := rfl

/-- The land is not the inventory. -/
@[simp] theorem setLand_inventory (record : UserRecord) (key : String)
    (placed : List String) :
    (record.setLand key placed).inventory = record.inventory := rfl

end UserRecord

/-- One field of a record was written, the others were not. -/
theorem Holds.congr {node node' : FNode} {record record' : UserRecord}
    (h : Holds node record)
    (hleaves : node'.child "currentLeaves" =
      Tree.leaf (.int record'.currentLeaves))
    (hinventory : node'.child "inventory" = node.child "inventory" ∧
      record'.inventory = record.inventory)
    (hland : node'.child "activeItems" = node.child "activeItems" ∧
      record'.land = record.land) : Holds node' record' where
  currentLeaves := hleaves
  inventoryBranch := by rw [hinventory.1]; exact h.inventoryBranch
  inventory := by rw [hinventory.1, hinventory.2]; exact h.inventory
  activeBranch := by rw [hland.1]; exact h.activeBranch
  active := by rw [hland.1, hland.2]; exact h.active

/-- Writing the wallet into a node that holds a record gives one that holds the record
with that wallet. -/
theorem Holds.setCurrentLeaves {node : FNode} {record : UserRecord}
    (h : Holds node record) (leaves : Int) :
    Holds (node.set ["currentLeaves"] (Tree.leaf (.int leaves)))
      { record with currentLeaves := leaves } := by
  apply h.congr
  · simp [Tree.set_cons]
  · exact ⟨by simp [Tree.set_cons, Tree.child_setChild], rfl⟩
  · exact ⟨by simp [Tree.set_cons, Tree.child_setChild], rfl⟩

/-- A field outside the land game was written. -/
theorem Holds.setOther {node : FNode} {record : UserRecord}
    (h : Holds node record) {field : String} (path : List String) (new : FNode)
    (hfield : field ≠ "currentLeaves" ∧ field ≠ "inventory" ∧
      field ≠ "activeItems") :
    Holds (node.set (field :: path) new) record := by
  obtain ⟨hleaves, hinventory, hactive⟩ := hfield
  apply h.congr
  · rw [Tree.set_cons, Tree.child_setChild_ne hleaves.symm]
    exact h.currentLeaves
  · exact ⟨by rw [Tree.set_cons, Tree.child_setChild_ne hinventory.symm], rfl⟩
  · exact ⟨by rw [Tree.set_cons, Tree.child_setChild_ne hactive.symm], rfl⟩

/-- Writing a count into a node that holds a record gives one that holds the record with
that count. -/
theorem Holds.setInventory {node : FNode} {record : UserRecord}
    (h : Holds node record) (key : String) (n : Nat) :
    Holds (node.set ["inventory", key] (countNode n))
      (record.setInventory key n) := by
  have hchild : (node.set ["inventory", key] (countNode n)).child "inventory" =
      (node.child "inventory").setChild key (countNode n) := by
    simp [Tree.set_cons]
  refine ⟨?_, ?_, ?_, ?_, ?_⟩
  · simpa [Tree.set_cons, Tree.child_setChild] using h.currentLeaves
  · rw [hchild]
    exact Tree.isLeaf_setChild h.inventoryBranch _ _
  · intro other
    rw [hchild, Tree.child_setChild]
    by_cases hother : other = key
    · simp [hother, UserRecord.setInventory]
    · simp [hother, UserRecord.setInventory, h.inventory]
  · simpa [Tree.set_cons, Tree.child_setChild] using h.activeBranch
  · simpa [Tree.set_cons, Tree.child_setChild] using h.active

/-- The list of one key was replaced. -/
theorem Holds.setActive {node : FNode} {record : UserRecord}
    (h : Holds node record) (key : String) {new : FNode} {placed : List String}
    (hnew : IsList new placed) :
    Holds (node.set ["activeItems", key] new) (record.setLand key placed) := by
  have hchild : (node.set ["activeItems", key] new).child "activeItems" =
      (node.child "activeItems").setChild key new := by
    simp [Tree.set_cons]
  refine ⟨?_, ?_, ?_, ?_, ?_⟩
  · simpa [Tree.set_cons, Tree.child_setChild] using h.currentLeaves
  · simpa [Tree.set_cons, Tree.child_setChild] using h.inventoryBranch
  · simpa [Tree.set_cons, Tree.child_setChild] using h.inventory
  · rw [hchild]
    exact Tree.isLeaf_setChild h.activeBranch _ _
  · intro other
    rw [hchild, Tree.child_setChild]
    by_cases hother : other = key
    · simpa [hother, UserRecord.setLand] using hnew
    · simpa [hother, UserRecord.setLand] using h.active other

/-- A coordinate was written one past the end of the list of a key. -/
theorem Holds.appendActive {node : FNode} {record : UserRecord}
    (h : Holds node record) (key coordinate : String) :
    Holds (node.set ["activeItems", key, indexKey (record.land key).length]
        (Tree.leaf (.string coordinate)))
      (record.setLand key (record.land key ++ [coordinate])) := by
  have hset : node.set ["activeItems", key, indexKey (record.land key).length]
        (Tree.leaf (.string coordinate)) =
      node.set ["activeItems", key]
        (((node.child "activeItems").child key).setChild
          (indexKey (record.land key).length) (Tree.leaf (.string coordinate))) := by
    simp [Tree.set_cons]
  rw [hset]
  exact h.setActive key ((h.active key).append coordinate)

/-! ## Lists of writes -/

/-- How the client applies a write. -/
@[simp] theorem client_apply (write : Write) (remote : Remote) :
    client.apply write remote = write.apply remote := rfl

/-- How the client answers a read. -/
@[simp] theorem client_answer (read : Read) (reply : Reply) (remote : Remote) :
    client.answer read reply remote = read.answer reply remote := rfl

/-- How the client handles a tap. -/
@[simp] theorem client_tap (tap : Tap) (app : App) :
    client.tap tap app = tap.handle app := rfl

/-- How the client runs a callback. -/
@[simp] theorem client_callback (read : Read) (snapshot : Snapshot) (app : App) :
    client.callback read snapshot app = read.callback snapshot app := rfl

/-- A write changes the record of its own account, at its own path. -/
theorem apply_same (write : Write) (remote : Remote) :
    write.apply remote write.uid =
      (remote write.uid).set write.path write.value := by
  simp [Write.apply]

/-- A write leaves the records of other accounts as they are. -/
theorem apply_other {write : Write} {uid : Uid} (h : write.uid ≠ uid)
    (remote : Remote) : write.apply remote uid = remote uid := by
  simp [Write.apply, Ne.symm h]

/-- Writes below other accounts do not touch an account. -/
theorem applyAll_other {writes : List Write} {uid : Uid}
    (h : ∀ write ∈ writes, write.uid ≠ uid) (remote : Remote) :
    client.applyAll writes remote uid = remote uid := by
  induction writes generalizing remote with
  | nil => rfl
  | cons write writes ih =>
      have hhead := apply_other (h write List.mem_cons_self) remote
      have htail := ih (fun w hw => h w (List.mem_cons_of_mem _ hw))
        (write.apply remote)
      rw [Client.applyAll_cons, client_apply, htail, hhead]

/-- Writes elsewhere leave an answer as it was. -/
theorem answer_applyAll_of_ne {writes : List Write} {read : Read}
    (h : ∀ write ∈ writes, write.uid ≠ read.uid ∨ Diverge write.path read.path)
    (reply : Reply) (remote : Remote) :
    read.answer reply (client.applyAll writes remote) =
      read.answer reply remote := by
  induction writes generalizing remote with
  | nil => rfl
  | cons write writes ih =>
      have htail := ih (fun w hw => h w (List.mem_cons_of_mem _ hw))
        (write.apply remote)
      rw [Client.applyAll_cons, client_apply, htail,
        answer_apply_of_ne (h write List.mem_cons_self)]

/-- The write of a count is `setInventory` on the record. -/
theorem Holds.countWrite {remote : Remote} {uid : Uid} {record : UserRecord}
    (h : Holds (remote uid) record) {key : String} (hkey : key ≠ "") (n : Nat) :
    Holds ((countWrite uid key n).apply remote uid)
      (record.setInventory key n) := by
  have hset := h.setInventory key n
  rw [← fpath_inventory hkey] at hset
  exact (apply_same (WillItRecycle.countWrite uid key n) remote).symm ▸ hset

/-- The write at the index after the last one is `setLand` with the coordinate appended.
-/
theorem Holds.placeWrite {remote : Remote} {uid : Uid} {record : UserRecord}
    (h : Holds (remote uid) record) {key : String} (hkey : key ≠ "")
    (coordinate : String) :
    Holds ((setValue uid ["activeItems", key, indexKey (record.land key).length]
        (Tree.leaf (.string coordinate))).apply remote uid)
      (record.setLand key (record.land key ++ [coordinate])) := by
  have hset := h.appendActive key coordinate
  rw [← fpath_activeItems_index hkey] at hset
  exact (apply_same (setValue uid _ _) remote).symm ▸ hset

/-- Deleting the list of a kind is `setLand` with no places. -/
theorem Holds.clearWrite {remote : Remote} {uid : Uid} {record : UserRecord}
    (h : Holds (remote uid) record) {key : String} (hkey : key ≠ "") :
    Holds ((removeValue uid ["activeItems", key]).apply remote uid)
      (record.setLand key []) := by
  have hset := h.setActive key (isList_nil_iff.mpr rfl)
  rw [← fpath_activeItems hkey] at hset
  exact (apply_same (removeValue uid _) remote).symm ▸ hset

/-- Of two lists written for one kind the second one stays. -/
theorem UserRecord.setLand_setLand (record : UserRecord) (key : String)
    (placed placed' : List String) :
    (record.setLand key placed).setLand key placed' = record.setLand key placed' := by
  simp [UserRecord.setLand]

/-- The list written for a kind is the list found there. -/
@[simp] theorem UserRecord.setLand_same (record : UserRecord) (key : String)
    (placed : List String) : (record.setLand key placed).land key = placed := by
  simp [UserRecord.setLand]

/-- The loop of REMOVE's callback appends what it keeps. -/
theorem Holds.rewriteFrom {uid : Uid} {key : String} (hkey : key ≠ "")
    (coordinate : String) (rest : List String) :
    ∀ {remote : Remote} {record : UserRecord}, Holds (remote uid) record →
      Holds (client.applyAll (rewriteFrom uid key coordinate
          (record.land key).length rest) remote uid)
        (record.setLand key
          (record.land key ++ rest.filter (fun x => x ≠ coordinate))) := by
  induction rest with
  | nil =>
      intro remote record h
      simpa [WillItRecycle.rewriteFrom, UserRecord.setLand] using h
  | cons x rest ih =>
      intro remote record h
      by_cases hx : x = coordinate
      · simpa [WillItRecycle.rewriteFrom, hx] using ih h
      · have hnext := ih (h.placeWrite hkey x)
        rw [UserRecord.setLand_setLand, UserRecord.setLand_same,
          List.length_append, List.length_singleton] at hnext
        simpa [WillItRecycle.rewriteFrom, hx] using hnext

/-- The writes of REMOVE's callback replace the list by what was kept of the
snapshot. -/
theorem Holds.removeWrites {remote : Remote} {uid : Uid} {record : UserRecord}
    (h : Holds (remote uid) record) {key : String} (hkey : key ≠ "")
    (coordinate : String) {placed : List String} (hplaced : placed ≠ []) :
    Holds (client.applyAll (removeWrites uid key coordinate placed) remote uid)
      (record.setLand key (keepOthers coordinate placed)) := by
  have hclear := h.clearWrite hkey
  rw [WillItRecycle.removeWrites, if_neg hplaced, Client.applyAll_cons,
    client_apply]
  by_cases hlength : placed.length > 1
  · have hrewrite := Holds.rewriteFrom hkey coordinate placed hclear
    rw [UserRecord.setLand_setLand, UserRecord.setLand_same] at hrewrite
    simpa [keepOthers, hlength] using hrewrite
  · simpa [keepOthers, hlength] using hclear

/-- The writes that put a list back are all to places of one kind of one account. -/
theorem mem_rewriteFrom {uid : Uid} {key coordinate : String} {write : Write} :
    ∀ {rest : List String} {index : Nat},
      write ∈ rewriteFrom uid key coordinate index rest →
      write.uid = uid ∧ ∃ i, write.path = fpath ["activeItems", key, indexKey i]
  | x :: rest, index, h => by
      by_cases hx : x = coordinate
      · simp only [rewriteFrom, hx, ne_eq, not_true_eq_false, if_false] at h
        exact mem_rewriteFrom h
      · simp only [rewriteFrom, ne_eq, hx, not_false_eq_true, if_true,
          List.mem_cons] at h
        rcases h with rfl | h
        · exact ⟨rfl, index, rfl⟩
        · exact mem_rewriteFrom h

/-- All writes of the land callbacks are below `activeItems`. -/
theorem mem_removeWrites {uid : Uid} {key coordinate : String}
    {placed : List String} {write : Write}
    (h : write ∈ removeWrites uid key coordinate placed) :
    write.uid = uid ∧ ∃ path, write.path = "activeItems" :: path := by
  by_cases hplaced : placed = []
  · simp [removeWrites, hplaced] at h
  · rw [removeWrites, if_neg hplaced, List.mem_cons] at h
    rcases h with rfl | h
    · exact ⟨rfl, fpath [key], rfl⟩
    · by_cases hlength : placed.length > 1
      · rw [if_pos hlength] at h
        obtain ⟨huid, i, hpath⟩ := mem_rewriteFrom h
        exact ⟨huid, fpath [key, indexKey i], hpath⟩
      · simp [hlength] at h

end WillItRecycle

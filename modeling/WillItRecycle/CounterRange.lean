import WillItRecycle.DailyReward

/-!
# The counters stay in range

Writes are computed from answers that may be stale by the time their callback
runs, so the values stored are wrong in many interleavings.  They are never out
of range: a balance written was found to be nonnegative first, a count of 1 is
removed and not written as 0.  The invariant says so of the record, of the rows
and of every answer in flight, and holds in every run, with failing reads and
store cells bound to other items between tap and callback
(`run_counters_inRange`).
-/

namespace WillItRecycle

open PathTree ReadCallback LastMatch

/-- A node that stores a balance. -/
def IsBalance (node : FNode) : Prop :=
  ∃ leaves : Int, node = Tree.leaf (.int leaves) ∧ 0 ≤ leaves

/-- A node that stores a count, or nothing. -/
def IsCount (node : FNode) : Prop :=
  node = Tree.empty ∨ ∃ count : Int, node = Tree.leaf (.int count) ∧ 1 ≤ count

/-- The counters of a stored record are in range: a wallet is stored and is not negative, and
every stored count of the inventory is at least one. -/
structure RecordInRange (node : FNode) : Prop where
  currentLeaves : IsBalance (node.child "currentLeaves")
  inventoryBranch : (node.child "inventory").isLeaf = false
  inventory : ∀ key, IsCount ((node.child "inventory").child key)

/-- Every row of the local inventory shows at least one unit. -/
def RowsInRange (rows : List GameItem) : Prop := ∀ row ∈ rows, 1 ≤ row.count

/-- The taps of a session, redeems with quantities from the number pad. -/
def Tap.InSession : Tap → Prop
  | .redeem quantities _ _ => ∀ i, 0 ≤ quantities i
  | .signIn _ _ | .signOut => False
  | _ => True

/-! ## The parts of the invariant -/

/-- The app is signed in to the account, and its local rows are in range. -/
def AppInRange (uid : Uid) (app : App) : Prop :=
  app.currentUser = some uid ∧ RowsInRange app.inventoryItems

/-- Leaves captured by a pending read to be added are not negative. -/
def ReadInRange (uid : Uid) (read : Read) : Prop :=
  read.uid = uid ∧
    match read with
    | .calculateCurrent _ total => 0 ≤ total
    | .redeemUser _ leaves => 0 ≤ leaves
    | .signInName _ _ | .signInInventory _ | .signInActive _ => False
    | _ => True

/-- The balance or count in an answer is in range. -/
def AnswerInRange (read : Read) : Snapshot → Prop
  | .error => True
  | .value node _ =>
      match read with
      | .buyLeaves _ _ _ | .calculateCurrent _ _ => IsBalance node
      | .redeemUser _ _ => IsBalance (node.child "currentLeaves")
      | .buyInventory _ _ _ key | .placeInventory _ key | .removeInventory _ key =>
          ∀ count, asInt node = some count → 1 ≤ count ∧ key ≠ ""
      | _ => True

/-- A stored count that reads as an integer is positive: counts that reach zero are
deleted, not stored. -/
theorem IsCount.asInt_pos {node : FNode} (h : IsCount node) {count : Int}
    (hcount : asInt node = some count) : 1 ≤ count := by
  rcases h with rfl | ⟨n, rfl, hn⟩
  · cases hcount
  · rw [asInt_int, Option.some.injEq] at hcount
    omega

/-- A branch does not read as an integer. -/
theorem asInt_of_not_isLeaf {node : FNode} (h : node.isLeaf = false) :
    asInt node = none := by
  obtain ⟨raw, hraw⟩ := node
  cases raw with
  | leaf value => cases h
  | branch entries => rfl

/-- An answer about a count is in range when the record is. -/
theorem RecordInRange.get_inventory {node : FNode} (h : RecordInRange node)
    (key : String) {count : Int}
    (hcount : asInt (node.get (fpath ["inventory", key])) = some count) :
    1 ≤ count ∧ key ≠ "" := by
  by_cases hkey : key = ""
  · subst hkey
    have hnone : asInt (node.get (fpath ["inventory", ""])) = none :=
      asInt_of_not_isLeaf h.inventoryBranch
    rw [hnone] at hcount
    cases hcount
  · rw [fpath_inventory hkey, Tree.get_cons, Tree.get_cons, Tree.get_nil] at hcount
    exact ⟨(h.inventory key).asInt_pos hcount, hkey⟩

/-- An answer taken from a record in range is in range, whenever it is taken. This is how
the range travels with the answers in flight. -/
theorem answer_inRange {uid : Uid} (read : Read) (reply : Reply) (remote : Remote)
    (h : RecordInRange (remote uid)) (hread : ReadInRange uid read) :
    AnswerInRange read (read.answer reply remote) := by
  obtain ⟨rfl, hsession⟩ := hread
  cases reply with
  | error => trivial
  | value order =>
      cases read with
      | buyLeaves uid cell tap => exact h.currentLeaves
      | calculateCurrent uid total => exact h.currentLeaves
      | redeemUser uid leaves => exact h.currentLeaves
      | buyInventory uid cell tap key =>
          intro count hcount
          exact h.get_inventory key hcount
      | placeInventory uid key =>
          intro count hcount
          exact h.get_inventory key hcount
      | removeInventory uid key =>
          intro count hcount
          exact h.get_inventory key hcount
      | placeActive uid key item coordinate => trivial
      | removeActive uid key coordinate => trivial
      | claimDate uid result => trivial
      | calculateAllTime uid total => trivial
      | signInName uid displayName => exact hsession.elim
      | signInInventory uid => exact hsession.elim
      | signInActive uid => exact hsession.elim

/-! ## Writes in range -/

/-- A wallet that is not negative may be written over the stored one. -/
theorem RecordInRange.setCurrentLeaves {node : FNode} (h : RecordInRange node)
    {leaves : Int} (hleaves : 0 ≤ leaves) :
    RecordInRange (node.set (fpath ["currentLeaves"]) (Tree.leaf (.int leaves))) := by
  rw [fpath_currentLeaves]
  refine ⟨⟨leaves, by simp [Tree.set_cons], hleaves⟩, ?_, ?_⟩
  · simpa [Tree.set_cons, Tree.child_setChild] using h.inventoryBranch
  · simpa [Tree.set_cons, Tree.child_setChild] using h.inventory

/-- A count that is absent or positive may be written under any kind. -/
theorem RecordInRange.setCount {node : FNode} (h : RecordInRange node) {key : String}
    (hkey : key ≠ "") {value : FNode} (hvalue : IsCount value) :
    RecordInRange (node.set (fpath ["inventory", key]) value) := by
  rw [fpath_inventory hkey]
  have hchild : (node.set ["inventory", key] value).child "inventory" =
      (node.child "inventory").setChild key value := by
    simp [Tree.set_cons]
  refine ⟨?_, ?_, ?_⟩
  · simpa [Tree.set_cons, Tree.child_setChild] using h.currentLeaves
  · rw [hchild]
    exact Tree.isLeaf_setChild h.inventoryBranch _ _
  · intro other
    rw [hchild, Tree.child_setChild]
    by_cases hother : other = key
    · simpa [hother] using hvalue
    · simpa [hother] using h.inventory other

/-- A write to another field leaves the wallet and the inventory as they are. -/
theorem RecordInRange.setOther {node : FNode} (h : RecordInRange node)
    {field : String} (hleaves : field ≠ "currentLeaves")
    (hinventory : field ≠ "inventory") (path : List String) (value : FNode) :
    RecordInRange (node.set (field :: path) value) := by
  refine ⟨?_, ?_, ?_⟩
  · rw [Tree.set_cons, Tree.child_setChild_ne hleaves.symm]
    exact h.currentLeaves
  · rw [Tree.set_cons, Tree.child_setChild_ne hinventory.symm]
    exact h.inventoryBranch
  · rw [Tree.set_cons, Tree.child_setChild_ne hinventory.symm]
    exact h.inventory

/-- A write that keeps every record in range. -/
def WriteInRange (write : Write) : Prop :=
  ∀ node, RecordInRange node → RecordInRange (node.set write.path write.value)

/-- A write that is in range keeps the record of its account in range, and touches no
other record. -/
theorem WriteInRange.apply {write : Write} (h : WriteInRange write) {uid : Uid}
    {remote : Remote} (hremote : RecordInRange (remote uid)) :
    RecordInRange (write.apply remote uid) := by
  by_cases huid : write.uid = uid
  · subst huid
    rw [apply_same]
    exact h _ hremote
  · rw [apply_other huid]
    exact hremote

/-- The write of a wallet that is not negative is in range. -/
theorem writeInRange_balance (uid : Uid) {leaves : Int} (h : 0 ≤ leaves) :
    WriteInRange (setValue uid ["currentLeaves"] (Tree.leaf (.int leaves))) :=
  fun _ hnode => hnode.setCurrentLeaves h

/-- The write of a count that is absent or positive is in range. -/
theorem writeInRange_count (uid : Uid) {key : String} (hkey : key ≠ "") {value : FNode}
    (hvalue : IsCount value) : WriteInRange (setValue uid ["inventory", key] value) :=
  fun _ hnode => hnode.setCount hkey hvalue

/-- A positive integer is a count that may be stored. -/
theorem isCount_leaf {count : Int} (h : 1 ≤ count) :
    IsCount (Tree.leaf (.int count)) := Or.inr ⟨count, rfl, h⟩

/-- A write below a field that is neither the wallet nor the inventory is in range,
whatever it writes. -/
theorem writeInRange_other {write : Write} (field : String)
    (hleaves : field ≠ "currentLeaves") (hinventory : field ≠ "inventory")
    {path : List String} (hpath : write.path = field :: path) : WriteInRange write := by
  intro node hnode
  rw [hpath]
  exact hnode.setOther hleaves hinventory path write.value

/-! ## Rows in range -/

/-- A row with a positive count may be appended. -/
theorem rowsInRange_append {rows : List GameItem} (h : RowsInRange rows)
    {row : GameItem} (hrow : 1 ≤ row.count) : RowsInRange (rows ++ [row]) :=
  forall_append_row h hrow

/-- A row that shows a unit shows two after one is added. -/
theorem one_le_increment (row : GameItem) (h : 1 ≤ row.count) :
    1 ≤ row.incrementCount.count := by
  change 1 ≤ row.count + 1
  omega

/-- A row is only decremented while it shows more than one unit; the last unit removes the
row instead. -/
theorem one_le_decrement (row : GameItem) (h : 1 ≤ row.count) (hne : row.count ≠ 1) :
    1 ≤ row.decrementCount.count := by
  change 1 ≤ row.count - 1
  omega

/-- Adding one to the row of a kind keeps the rows in range. -/
theorem rowsInRange_increment {rows : List GameItem} (h : RowsInRange rows)
    (key : String) : RowsInRange (incrementInventory key rows) :=
  forall_incrementInventory h key one_le_increment

/-- Taking a unit from the row of a kind keeps the rows in range, since a row that would
show none is removed. -/
theorem rowsInRange_take {rows : List GameItem} (h : RowsInRange rows) (key : String) :
    RowsInRange (takeFromInventory key rows) :=
  forall_takeFromInventory h key one_le_decrement

/-- Returning an item to its row, or as a new row of one unit, keeps the rows in range. -/
theorem rowsInRange_return {rows : List GameItem} (h : RowsInRange rows)
    (selectedItem : GameItem) (coordinate : String) :
    RowsInRange (returnToInventory selectedItem coordinate rows) :=
  forall_returnToInventory h selectedItem coordinate one_le_increment (Int.le_refl 1)

/-! ## The handlers -/

section Keeps

variable [IntRange]

/-- What a handler of the app leaves in range, whatever the range of `Int`. -/
abbrev KeepsRange (uid : Uid) (fx : Effects App Write Read) : Prop :=
  ∀ remote : Remote, RecordInRange (remote uid) →
    client.KeepsOn (fun remote => RecordInRange (remote uid)) (AppInRange uid)
      (ReadInRange uid) remote fx

/-- Code keeps the range when its state, all its writes and all its reads are in range. -/
theorem keepsRange {uid : Uid} {fx : Effects App Write Read}
    (hstate : AppInRange uid fx.state) (hwrites : ∀ write ∈ fx.writes, WriteInRange write)
    (hreads : ∀ read ∈ fx.reads, ReadInRange uid read) : KeepsRange uid fx :=
  fun _ hremote => ⟨client.applyAll_keeps (fun remote => RecordInRange (remote uid))
    (fun write hwrite _ hnode => (hwrites write hwrite).apply hnode) hremote,
    hstate, hreads⟩

/-- A tap that only issues two reads. -/
theorem keepsRange_reads {uid : Uid} {app : App} (happ : AppInRange uid app) {first second : Read}
    (hfirst : ReadInRange uid first) (hsecond : ReadInRange uid second) :
    KeepsRange uid ⟨app, [], [first, second]⟩ := by
  refine keepsRange happ (fun _ hmem => by cases hmem) ?_
  intro read hread
  rcases List.mem_cons.mp hread with rfl | hread
  · exact hfirst
  · rw [List.mem_singleton.mp hread]
    exact hsecond

/-- Code that does nothing keeps the range of the state it found. -/
theorem keepsRange_done {uid : Uid} {app : App} (h : AppInRange uid app)
    {fx : Effects App Write Read} (hfx : app.done = .ok fx) : KeepsRange uid fx := by
  cases hfx
  exact keepsRange h (fun _ hmem => by cases hmem) (fun _ hmem => by cases hmem)

end Keeps

/-- An alert changes neither the account nor the rows. -/
theorem AppInRange.present {uid : Uid} {app : App} (h : AppInRange uid app)
    (alert : Alert) : AppInRange uid (app.present alert) := h

/-- A forced value is the value that was there: the cast or the unwrapping did not trap.
-/
theorem force_eq_ok {α : Type} {trap : Trap} {o : Option α} {x : α}
    (h : force trap o = .ok x) : o = some x := by
  cases o with
  | none => cases h
  | some y => rw [Except.ok.inj h]

/-- The item shown in a store cell is one of the shelf, and those have keys. -/
theorem shown_key_ne_empty (app : App) (cell : Nat) : (app.shown cell).key ≠ "" :=
  storeKeys_ne_empty (storeItem_key_mem (app.storeItem cell))

section Handlers

variable [IntRange] {uid : Uid} {app : App} {fx : Effects App Write Read}
  (happ : AppInRange uid app)
include happ

/-- The wallet is written only after the price was found to be covered, so it stays at
zero or above. -/
theorem buyLeavesRead_keeps {cell tap : Nat} {snapshot : Snapshot}
    (hanswer : AnswerInRange (.buyLeaves uid cell tap) snapshot)
    (hfx : buyLeavesRead uid cell tap snapshot app = .ok fx) : KeepsRange uid fx := by
  cases snapshot with
  | error => exact keepsRange_done happ hfx
  | value node order =>
      obtain ⟨leaves, rfl, hleaves⟩ := hanswer
      rw [buyLeavesRead_wallet] at hfx
      cases hfx
      refine keepsRange happ ?_ (fun _ hmem => by cases hmem)
      intro write hwrite
      unfold chargeWrites at hwrite
      split at hwrite
      · next hcost =>
        rw [List.mem_singleton.mp hwrite]
        exact writeInRange_balance uid (by omega)
      · cases hwrite

/-- The count written is one more than the one read, and the row shown is incremented or
appended. -/
theorem buyInventoryRead_keeps {cell tap : Nat} {key : String} {snapshot : Snapshot}
    (hanswer : AnswerInRange (.buyInventory uid cell tap key) snapshot)
    (hfx : buyInventoryRead uid cell tap snapshot app = .ok fx) :
    KeepsRange uid fx := by
  have hkey := shown_key_ne_empty app cell
  cases snapshot with
  | error => exact keepsRange_done happ hfx
  | value node order =>
      unfold buyInventoryRead at hfx
      cases hcaptured : app.capturedLeaves tap with
      | error trap =>
          simp [hcaptured, bind, Except.bind] at hfx
      | ok leaves =>
          by_cases hempty : node.isEmpty = true
          · simp only [hempty, if_true, hcaptured, bind, Except.bind] at hfx
            split at hfx
            · cases hfx
              refine keepsRange ⟨happ.1, rowsInRange_append happ.2 (Int.le_refl 1)⟩ ?_
                (fun _ hmem => by cases hmem)
              intro write hwrite
              rw [List.mem_singleton.mp hwrite]
              exact writeInRange_count uid hkey (isCount_leaf (Int.le_refl 1))
            · exact keepsRange_done (happ.present _) hfx
          · simp only [hempty, Bool.false_eq_true, if_false, hcaptured, bind,
              Except.bind] at hfx
            split at hfx
            · cases hcount : force .forceCast (asInt node) with
              | error trap => simp [hcount] at hfx
              | ok count =>
                  simp only [hcount] at hfx
                  cases hfx
                  have hpositive := (hanswer count (force_eq_ok hcount)).1
                  refine keepsRange
                    ⟨happ.1, rowsInRange_increment happ.2 (app.shown cell).key⟩ ?_
                    (fun _ hmem => by cases hmem)
                  intro write hwrite
                  rw [List.mem_singleton.mp hwrite]
                  exact writeInRange_count uid hkey (isCount_leaf (by omega))
            · exact keepsRange_done (happ.present _) hfx

/-- PLACE writes below `activeItems` only, whatever its read answers. -/
theorem placeActiveRead_keeps {key item coordinate : String} {snapshot : Snapshot}
    (hfx : placeActiveRead uid key item coordinate snapshot app = .ok fx) :
    KeepsRange uid fx := by
  have hother : ∀ index value,
      WriteInRange (setValue uid ["activeItems", key, index] value) := by
    intro index value
    exact writeInRange_other "activeItems" (by decide) (by decide) rfl
  cases snapshot with
  | error => exact keepsRange_done happ hfx
  | value node order =>
      unfold placeActiveRead at hfx
      by_cases hempty : node.isEmpty = true
      · simp only [hempty, if_true] at hfx
        cases hfx
        refine keepsRange happ ?_ (fun _ hmem => by cases hmem)
        intro write hwrite
        rw [List.mem_singleton.mp hwrite]
        exact hother _ _
      · simp only [hempty, Bool.false_eq_true, if_false] at hfx
        cases hdata : force .forceCast (asStringArray node) with
        | error trap => simp [hdata, bind, Except.bind] at hfx
        | ok data =>
            simp only [hdata, bind, Except.bind] at hfx
            cases hfx
            refine keepsRange happ ?_ (fun _ hmem => by cases hmem)
            intro write hwrite
            rw [List.mem_singleton.mp hwrite]
            exact hother _ _

/-- The count written is one less than the one read; from one unit the node is removed. -/
theorem placeInventoryRead_keeps {key : String} {snapshot : Snapshot}
    (hanswer : AnswerInRange (.placeInventory uid key) snapshot)
    (hfx : placeInventoryRead uid key snapshot app = .ok fx) : KeepsRange uid fx := by
  cases snapshot with
  | error => exact keepsRange_done happ hfx
  | value node order =>
      unfold placeInventoryRead at hfx
      by_cases hempty : node.isEmpty = true
      · simp only [hempty, if_true] at hfx
        exact keepsRange_done happ hfx
      · simp only [hempty, Bool.false_eq_true, if_false] at hfx
        cases hcount : force .forceCast (asInt node) with
        | error trap => simp [hcount, bind, Except.bind] at hfx
        | ok count =>
            obtain ⟨hpositive, hkey⟩ := hanswer count (force_eq_ok hcount)
            simp only [hcount, bind, Except.bind] at hfx
            split at hfx
            · cases hfx
              refine keepsRange happ ?_ (fun _ hmem => by cases hmem)
              intro write hwrite
              rw [List.mem_singleton.mp hwrite]
              exact writeInRange_count uid hkey (Or.inl rfl)
            · next hone =>
              cases hfx
              refine keepsRange happ ?_ (fun _ hmem => by cases hmem)
              intro write hwrite
              rw [List.mem_singleton.mp hwrite]
              exact writeInRange_count uid hkey (isCount_leaf (by omega))

/-- REMOVE rewrites the list below `activeItems` only. -/
theorem removeActiveRead_keeps {key coordinate : String} {snapshot : Snapshot}
    (hfx : removeActiveRead uid key coordinate snapshot app = .ok fx) :
    KeepsRange uid fx := by
  cases snapshot with
  | error => exact keepsRange_done happ hfx
  | value node order =>
      unfold removeActiveRead at hfx
      by_cases hempty : node.isEmpty = true
      · simp only [hempty, if_true] at hfx
        exact keepsRange_done happ hfx
      · simp only [hempty, Bool.false_eq_true, if_false] at hfx
        cases hdata : force .forceCast (asStringArray node) with
        | error trap => simp [hdata, bind, Except.bind] at hfx
        | ok data =>
            simp only [hdata, bind, Except.bind] at hfx
            cases hfx
            refine keepsRange happ ?_ (fun _ hmem => by cases hmem)
            intro write hwrite
            rcases List.mem_cons.mp hwrite with rfl | hwrite
            · exact writeInRange_other "activeItems" (by decide) (by decide) rfl
            · split at hwrite
              · obtain ⟨_, index, hpath⟩ := mem_rewriteFrom hwrite
                exact writeInRange_other "activeItems" (by decide) (by decide) hpath
              · cases hwrite

/-- The count written is one more than the one read, or one where nothing was stored. -/
theorem removeInventoryRead_keeps {key : String} {snapshot : Snapshot}
    (hanswer : AnswerInRange (.removeInventory uid key) snapshot)
    (hfx : removeInventoryRead uid key snapshot app = .ok fx) : KeepsRange uid fx := by
  cases snapshot with
  | error => exact keepsRange_done happ hfx
  | value node order =>
      unfold removeInventoryRead at hfx
      by_cases hempty : node.isEmpty = true
      · simp only [hempty, if_true] at hfx
        by_cases hkey : key = ""
        · simp [hkey] at hfx
        · simp only [hkey, if_false] at hfx
          cases hfx
          refine keepsRange happ ?_ (fun _ hmem => by cases hmem)
          intro write hwrite
          rw [List.mem_singleton.mp hwrite]
          exact writeInRange_count uid hkey (isCount_leaf (Int.le_refl 1))
      · simp only [hempty, Bool.false_eq_true, if_false] at hfx
        cases hcount : force .forceCast (asInt node) with
        | error trap => simp [hcount, bind, Except.bind] at hfx
        | ok count =>
            obtain ⟨hpositive, hkey⟩ := hanswer count (force_eq_ok hcount)
            simp only [hcount, bind, Except.bind] at hfx
            cases hfx
            refine keepsRange happ ?_ (fun _ hmem => by cases hmem)
            intro write hwrite
            rw [List.mem_singleton.mp hwrite]
            exact writeInRange_count uid hkey (isCount_leaf (by omega))

/-- The decision of a claim writes the date and starts the two additions, whose totals are
not negative. -/
theorem claimDateRead_keeps {result : String} {snapshot : Snapshot}
    (hfx : claimDateRead uid result snapshot app = .ok fx) : KeepsRange uid fx := by
  have hvisited : ∀ value, WriteInRange (setValue uid ["lastVisitedDate"] value) := by
    intro value
    exact writeInRange_other "lastVisitedDate" (by decide) (by decide) rfl
  have hreward : ∀ read ∈ calculate uid app, ReadInRange uid read := by
    intro read hread
    have hnonneg := rewardTotal_nonneg app.activeItems
    unfold calculate at hread
    rcases List.mem_cons.mp hread with rfl | hread
    · exact ⟨rfl, hnonneg⟩
    · rw [List.mem_singleton.mp hread]
      exact ⟨rfl, trivial⟩
  cases snapshot with
  | error => exact keepsRange_done happ hfx
  | value node order =>
      unfold claimDateRead at hfx
      by_cases hempty : node.isEmpty = true
      · simp only [hempty, if_true] at hfx
        cases hfx
        refine keepsRange happ ?_ hreward
        intro write hwrite
        rw [List.mem_singleton.mp hwrite]
        exact hvisited _
      · simp only [hempty, Bool.false_eq_true, if_false] at hfx
        cases hdate : force .forceCast (asString node) with
        | error trap => simp [hdate, bind, Except.bind] at hfx
        | ok date =>
            simp only [hdate, bind, Except.bind] at hfx
            split at hfx
            · cases hfx
              refine keepsRange happ ?_ hreward
              intro write hwrite
              rw [List.mem_singleton.mp hwrite]
              exact hvisited _
            · cases hfx
              refine keepsRange happ ?_ (fun _ hmem => by cases hmem)
              intro write hwrite
              rw [List.mem_singleton.mp hwrite]
              exact hvisited _

/-- The callbacks of `calculate`; `hwrite` is what their write has to keep. -/
theorem addToCounter_keeps {counter : String} {total : Int} {snapshot : Snapshot}
    (hwrite : ∀ node order, snapshot = .value node order → ∀ value,
      asInt node = some value →
      WriteInRange (setValue uid [counter] (Tree.leaf (.int (value + total)))))
    (hfx : addToCounter uid counter total snapshot app = .ok fx) :
    KeepsRange uid fx := by
  cases snapshot with
  | error => exact keepsRange_done happ hfx
  | value node order =>
      unfold addToCounter at hfx
      by_cases hempty : node.isEmpty = true
      · simp only [hempty, if_true] at hfx
        exact keepsRange_done happ hfx
      · simp only [hempty, Bool.false_eq_true, if_false] at hfx
        cases hvalue : force .forceCast (asInt node) with
        | error trap => simp [hvalue, bind, Except.bind] at hfx
        | ok value =>
            cases hsum : intResult (value + total) with
            | error trap => simp [hvalue, hsum, bind, Except.bind] at hfx
            | ok leaves =>
                obtain rfl := eq_of_intResult hsum
                simp only [hvalue, hsum, bind, Except.bind] at hfx
                cases hfx
                refine keepsRange happ ?_ (fun _ hmem => by cases hmem)
                intro write hmem
                rw [List.mem_singleton.mp hmem]
                exact hwrite node order rfl value (force_eq_ok hvalue)

/-- Both counters grow by the leaves redeemed, which are not negative here. -/
theorem redeemUserRead_keeps {leaves : Int} {snapshot : Snapshot}
    (hread : ReadInRange uid (.redeemUser uid leaves))
    (hanswer : AnswerInRange (.redeemUser uid leaves) snapshot)
    (hfx : redeemUserRead leaves snapshot app = .ok fx) : KeepsRange uid fx := by
  cases snapshot with
  | error => exact keepsRange_done happ hfx
  | value node order =>
      obtain ⟨balance, hbalance, hnonneg⟩ := hanswer
      have hleaves : 0 ≤ leaves := hread.2
      unfold redeemUserRead at hfx
      by_cases hempty : node.isEmpty = true
      · simp only [hempty, if_true] at hfx
        exact keepsRange_done happ hfx
      · simp only [hempty, Bool.false_eq_true, if_false] at hfx
        cases hdictionary : asDictionary node with
        | none =>
            simp only [hdictionary] at hfx
            exact keepsRange_done happ hfx
        | some keys =>
            simp only [hdictionary, happ.1, hbalance, asInt_int, force_some, bind,
              Except.bind] at hfx
            cases hcurrent : intResult (balance + leaves) with
            | error trap => simp [hcurrent] at hfx
            | ok current =>
                obtain rfl := eq_of_intResult hcurrent
                simp only [hcurrent] at hfx
                cases hall : force .forceCast (asInt (node.child "allTimeLeaves")) with
                | error trap => simp [hall] at hfx
                | ok allTimeLeaves =>
                    cases hallTime : intResult (allTimeLeaves + leaves) with
                    | error trap => simp [hall, hallTime] at hfx
                    | ok allTime =>
                        simp only [hall, hallTime] at hfx
                        cases hfx
                        refine keepsRange happ ?_ (fun _ hmem => by cases hmem)
                        intro write hwrite
                        rcases List.mem_cons.mp hwrite with rfl | hwrite
                        · exact writeInRange_balance uid (by omega)
                        · rw [List.mem_singleton.mp hwrite]
                          exact writeInRange_other "allTimeLeaves" (by decide) (by decide) rfl

end Handlers

/-- A redeem of quantities from the number pad earns no negative leaves. -/
theorem sum_worth_nonneg {quantities : Quantities} (hquantities : ∀ i, 0 ≤ quantities i) :
    0 ≤ ((List.finRange manualEntryData.length).map (worth quantities)).sum := by
  have hvalue : ∀ i : Fin manualEntryData.length, 0 ≤ (manualEntryData.get i).value := by
    decide
  apply List.sum_nonneg
  intro leaves hleaves
  obtain ⟨i, _, rfl⟩ := List.mem_map.mp hleaves
  exact mul_nonneg (hquantities i) (hvalue i)

/-- The history of a redeem is written beside the counters. -/
theorem mem_historyWrites {uid : Uid} {quantities : Quantities} {dateString : String}
    {autoId : Nat → String} {write : Write}
    (hwrite : write ∈ (positiveItems quantities).map
      (historyWrite uid quantities dateString autoId)) :
    write.uid = uid ∧ ∃ path, write.path = "history" :: path := by
  obtain ⟨i, _, rfl⟩ := List.mem_map.mp hwrite
  exact ⟨rfl, fpath [autoId i], rfl⟩

section Session

variable [IntRange]

/-- What a tap of a signed-in user does keeps the range: PLACE and REMOVE change rows, the
others only start reads. -/
theorem tap_keeps {uid : Uid} {app : App} (happ : AppInRange uid app) {tap : Tap}
    (htap : tap.InSession) {fx : Effects App Write Read}
    (hfx : tap.handle app = .ok fx) : KeepsRange uid fx := by
  have huser := happ.1
  cases tap with
  | buy cell =>
      simp only [Tap.handle, buyOnClick, huser, force_some, bind, Except.bind] at hfx
      cases hfx
      apply keepsRange_reads
      · exact ⟨rfl, happ.2⟩
      · exact ⟨rfl, trivial⟩
      · exact ⟨rfl, trivial⟩
  | cellForRow cell storeItem =>
      have hbound : AppInRange uid (app.cellForRow cell storeItem) := happ
      exact keepsRange_done hbound hfx
  | place key item coordinate =>
      simp only [Tap.handle, onPlacementCompleted] at hfx
      split at hfx
      · simp only [huser, force_some, bind, Except.bind] at hfx
        cases hfx
        apply keepsRange_reads
        · exact ⟨rfl, rowsInRange_take happ.2 key⟩
        · exact ⟨rfl, trivial⟩
        · exact ⟨rfl, trivial⟩
      · exact keepsRange_done (happ.present _) hfx
  | remove coordinate =>
      simp only [Tap.handle, onRemove] at hfx
      split at hfx
      · simp only [huser, force_some, bind, Except.bind] at hfx
        cases hfx
        apply keepsRange_reads
        · exact ⟨rfl, rowsInRange_return happ.2 _ coordinate⟩
        · exact ⟨rfl, trivial⟩
        · exact ⟨rfl, trivial⟩
      · exact keepsRange_done (happ.present _) hfx
  | claim result =>
      simp only [Tap.handle, claimOnClick, huser, force_some, bind, Except.bind] at hfx
      cases hfx
      refine keepsRange happ (fun _ hmem => by cases hmem) ?_
      intro read hread
      rw [List.mem_singleton.mp hread]
      exact ⟨rfl, trivial⟩
  | redeem quantities dateString autoId =>
      simp only [Tap.handle, redeemButtonPressed, huser, force_some, bind,
        Except.bind] at hfx
      cases hsum : (redeemLoop uid quantities dateString autoId).2 with
      | error trap => simp [hsum] at hfx
      | ok leaves =>
          obtain ⟨rfl, hhistory⟩ := eq_of_redeemLoop uid quantities dateString autoId hsum
          have hwrites : ∀ write ∈ (redeemLoop uid quantities dateString autoId).1,
              WriteInRange write := by
            intro write hwrite
            rw [hhistory] at hwrite
            obtain ⟨_, path, hpath⟩ := mem_historyWrites hwrite
            exact writeInRange_other "history" (by decide) (by decide) hpath
          simp only [hsum] at hfx
          split at hfx
          · cases hfx
            exact keepsRange (happ.present _) hwrites (fun _ hmem => by cases hmem)
          · cases hfx
            refine keepsRange (happ.present _) hwrites ?_
            intro read hread
            rw [List.mem_singleton.mp hread]
            exact ⟨rfl, sum_worth_nonneg htap⟩
  | signIn uid displayName => exact htap.elim
  | signOut => exact htap.elim

/-- What a callback does keeps the range, given that the answer it is served is in range;
one case for each kind of read. -/
theorem callback_keeps {uid : Uid} {read : Read} {snapshot : Snapshot} {app : App}
    {fx : Effects App Write Read} (happ : AppInRange uid app)
    (hread : ReadInRange uid read) (hanswer : AnswerInRange read snapshot)
    (hfx : read.callback snapshot app = .ok fx) : KeepsRange uid fx := by
  obtain ⟨rfl, hsession⟩ := id hread
  cases read with
  | buyLeaves uid cell tap => exact buyLeavesRead_keeps happ hanswer hfx
  | buyInventory uid cell tap key => exact buyInventoryRead_keeps happ hanswer hfx
  | placeActive uid key item coordinate => exact placeActiveRead_keeps happ hfx
  | placeInventory uid key => exact placeInventoryRead_keeps happ hanswer hfx
  | removeActive uid key coordinate => exact removeActiveRead_keeps happ hfx
  | removeInventory uid key => exact removeInventoryRead_keeps happ hanswer hfx
  | claimDate uid result => exact claimDateRead_keeps happ hfx
  | calculateCurrent uid total =>
      refine addToCounter_keeps happ ?_ hfx
      intro node order hsnapshot value hvalue
      subst hsnapshot
      obtain ⟨leaves, rfl, hleaves⟩ := hanswer
      have htotal : 0 ≤ total := hread.2
      rw [asInt_int, Option.some.injEq] at hvalue
      exact writeInRange_balance uid (by omega)
  | calculateAllTime uid total =>
      refine addToCounter_keeps happ ?_ hfx
      intro node order _ value _
      exact writeInRange_other "allTimeLeaves" (by decide) (by decide) rfl
  | redeemUser uid leaves => exact redeemUserRead_keeps happ hread hanswer hfx
  | signInName uid displayName => exact hsession.elim
  | signInInventory uid => exact hsession.elim
  | signInActive uid => exact hsession.elim

end Session

/-! ## Runs -/

/-- Every result of a traversal that did not trap is the result of one of the elements. -/
theorem mapM_ok_mem {α β ε : Type} {f : α → Except ε β} {xs : List α} {ys : List β}
    (h : xs.mapM f = .ok ys) {y : β} (hy : y ∈ ys) : ∃ x ∈ xs, f x = .ok y := by
  induction xs generalizing ys with
  | nil =>
      cases h
      cases hy
  | cons x xs ih =>
      rw [List.mapM_cons] at h
      cases hx : f x with
      | error err => simp [hx, bind, Except.bind] at h
      | ok first =>
          cases hxs : xs.mapM f with
          | error err => simp [hx, hxs, bind, Except.bind] at h
          | ok rest =>
              simp only [hx, hxs, bind, Except.bind, pure, Except.pure,
                Except.ok.injEq] at h
              subst h
              rcases List.mem_cons.mp hy with rfl | hy
              · exact ⟨x, List.mem_cons_self, hx⟩
              · obtain ⟨x', hmem, hx'⟩ := ih hxs hy
                exact ⟨x', List.mem_cons_of_mem x hmem, hx'⟩

/-- The load of counts in range is in range. -/
theorem loadedInventory_inRange {node : FNode} (h : ∀ key, IsCount (node.child key))
    {order : List String} {rows : List GameItem}
    (hload : loadedInventory order node = .ok rows) : RowsInRange rows := by
  intro row hrow
  unfold loadedInventory at hload
  cases hkeys : force .forceCast (asDictionary node) with
  | error trap => simp [hkeys, bind, Except.bind] at hload
  | ok keys =>
      simp only [hkeys, bind, Except.bind] at hload
      obtain ⟨key, _, hkey⟩ := mapM_ok_mem hload hrow
      cases hcount : force .forceCast (asInt (node.child key)) with
      | error trap => simp [hcount] at hkey
      | ok count =>
          simp only [hcount, Except.ok.injEq] at hkey
          rw [← hkey]
          exact (h key).asInt_pos (force_eq_ok hcount)

/-- The rows loaded at a sign-in are in range when the stored counts are. -/
theorem SignedIn.rowsInRange {uid : Uid} {node : FNode} {app : App}
    (hsigned : SignedIn uid node app) (h : RecordInRange node) :
    RowsInRange app.inventoryItems := by
  obtain ⟨order, hfresh⟩ := hsigned.inventoryItems
  unfold freshInventory at hfresh
  by_cases hempty : (node.child "inventory").isEmpty = true
  · rw [if_pos hempty] at hfresh
    rw [← Except.ok.inj hfresh]
    intro row hrow
    cases hrow
  · rw [if_neg hempty] at hfresh
    cases hload : loadedInventory order (node.child "inventory") with
    | error trap => simp [hload, Except.map] at hfresh
    | ok rows =>
        simp only [hload, Except.map, Except.ok.injEq] at hfresh
        intro row hrow
        rw [← hfresh] at hrow
        have hmem := (List.perm_insertionSort _ rows).subset hrow
        exact loadedInventory_inRange h.inventory hload row hmem

/-- **The counters stay in range.**  From a sign-in on a record in range, after
every run of the taps of a session, whatever the order of answers and callbacks,
whichever reads fail and however store cells are bound meanwhile, the stored
balance is not negative, every stored count is at least 1 and so is the count of
every row.  The range of `Int` is any: with `unboundedInt` no sum traps. -/
theorem run_counters_inRange [IntRange] {uid : Uid} {remote : Remote} {app : App}
    (hrecord : RecordInRange (remote uid)) (hsigned : SignedIn uid (remote uid) app)
    {es : List AppEvent} (htaps : ∀ tap ∈ taps es, tap.InSession) {s' : AppSys}
    (hrun : client.run ⟨remote, app, []⟩ es = .ok s') :
    RecordInRange (s'.remote uid) ∧ RowsInRange s'.state.inventoryItems := by
  have hstart : Client.InFlight (fun remote => RecordInRange (remote uid))
      (AppInRange uid) (ReadInRange uid) AnswerInRange
      (⟨remote, app, []⟩ : AppSys) :=
    .of_idle hrecord ⟨hsigned.currentUser, hsigned.rowsInRange hrecord⟩
  have hend := client.run_inFlight answer_inRange
    (fun tap fx s hremote happ hC hfx => tap_keeps happ (hC tap rfl) hfx _ hremote)
    (fun read snapshot fx s hremote happ hread hanswer hfx =>
      callback_keeps happ hread hanswer hfx _ hremote)
    hstart (client.along_of_taps _ htaps) hrun
  exact ⟨hend.store, hend.state.2⟩

/-- A node that holds a record is in range when the wallet of the record is not negative: the
counts of a record are natural numbers, and a count of zero is not stored. -/
theorem Holds.inRange {node : FNode} {record : UserRecord} (h : Holds node record)
    (hleaves : 0 ≤ record.currentLeaves) : RecordInRange node := by
  refine ⟨⟨_, h.currentLeaves, hleaves⟩, h.inventoryBranch, ?_⟩
  intro key
  rw [h.inventory key]
  cases hcount : record.inventory key with
  | zero => exact Or.inl rfl
  | succ n => exact isCount_leaf (by omega)

/-- Two purchases and a redeem overlap; one read fails, and the cell shows the
flower when the first purchase is delivered. -/
def overlappingSession : List AppEvent :=
  [ .tap (.buy 0), .tap (.redeem (fun _ => 1) "today" toString), .tap (.buy 0),
    .answer 0 (.value []), .answer 1 (.value []), .answer 2 (.value []),
    .answer 3 (.value []), .answer 4 .error,
    .tap (.cellForRow 0 ⟨⟨"flower", "Flower", 20⟩, by decide⟩),
    .serve 0, .serve 2, .serve 0, .serve 0, .serve 0 ]

/-- After that run the record and the rows are in range. -/
theorem run_counters_inRange_flower :
    ∃ s', client.run ⟨newUser 120, newUserApp "ann" treeShelf, []⟩
        overlappingSession = .ok s' ∧
      RecordInRange (s'.remote "ann") ∧ RowsInRange s'.state.inventoryItems := by
  obtain ⟨s', hrun, _⟩ : ∃ s', client.run
      ⟨newUser 120, newUserApp "ann" treeShelf, []⟩ overlappingSession = .ok s' ∧
      s'.pending = [] :=
    client.exists_run_of_check (by decide +kernel)
  refine ⟨s', hrun, run_counters_inRange ((newUser_holds 120 "ann").inRange (by decide))
    (newUser_signedIn 120 "ann" treeShelf) ?_ hrun⟩
  intro tap htap
  simp only [taps, overlappingSession, List.filterMap_cons, List.filterMap_nil,
    List.mem_cons, List.not_mem_nil, or_false] at htap
  rcases htap with rfl | rfl | rfl | rfl
  · trivial
  · intro i
    exact Int.one_nonneg
  · trivial
  · trivial

end WillItRecycle

import WillItRecycle.LoadedLists
import WillItRecycle.LeavesLedger

/-!
# A load and an operation in flight

What is pending while a session starts: the rest of a sign-in load, and the
rest of at most one BUY or PLACE.  Which lists are loaded, and how far they are
ahead of the record, is a function of these two (`Mirror`); the answers that
have arrived are still what is stored (`Given`).
-/

namespace WillItRecycle

open PathTree ReadCallback LastMatch

/-! ## Accounts -/

/-- The record of an account that has signed in before. -/
structure Named (node : FNode) (record : UserRecord) : Prop where
  holds : Holds node record
  inventoryKey : ∀ key, record.inventory key ≠ 0 → key ∈ storeKeys
  landKey : ∀ key, record.land key ≠ [] → key ∈ storeKeys
  displayName : node.child "displayName" ≠ Tree.empty

/-- An account is new, or has signed in before. -/
def Account (node : FNode) (record : UserRecord) : Prop :=
  Named node record ∨ node = Tree.empty ∧ record = UserRecord.new 0

/-- All writes are below one field of an account. -/
def WritesOn (uid : Uid) (field : String) (writes : List Write) : Prop :=
  ∀ write ∈ writes, write.uid = uid ∧ ∃ path, write.path = field :: path

theorem WritesOn.nil (uid : Uid) (field : String) : WritesOn uid field [] := by
  intro write hwrite
  cases hwrite

theorem WritesOn.singleton {uid : Uid} {field : String} {write : Write}
    (huid : write.uid = uid) (hpath : ∃ path, write.path = field :: path) :
    WritesOn uid field [write] := by
  intro other hother
  rw [List.mem_singleton.mp hother]
  exact ⟨huid, hpath⟩

theorem writesOn_chargeWrites (uid : Uid) (leaves cost : Int) :
    WritesOn uid "currentLeaves" (chargeWrites uid leaves cost) := by
  intro write hwrite
  rw [mem_chargeWrites hwrite]
  exact ⟨rfl, [], rfl⟩

theorem writesOn_countWrite (uid : Uid) (key : String) (n : Nat) :
    WritesOn uid "inventory" [countWrite uid key n] :=
  WritesOn.singleton rfl ⟨fpath [key], rfl⟩

/-- The writes of PLACE's callback on a count. -/
def takeWrites (uid : Uid) (key : String) (n : Nat) : List Write :=
  if n = 0 then [] else [countWrite uid key (n - 1)]

theorem writesOn_takeWrites (uid : Uid) (key : String) (n : Nat) :
    WritesOn uid "inventory" (takeWrites uid key n) := by
  unfold takeWrites
  split
  · exact WritesOn.nil uid "inventory"
  · exact writesOn_countWrite uid key (n - 1)

section Named

variable {uid : Uid} {remote : Remote} {record : UserRecord}
  (h : Named (remote uid) record)
include h

/-- Writes below another field leave the display name. -/
theorem Named.applyAll {record' : UserRecord} {writes : List Write} {field : String}
    (hwrites : WritesOn uid field writes) (hfield : "displayName" ≠ field)
    (hholds : Holds (client.applyAll writes remote uid) record')
    (hinventory : ∀ key, record'.inventory key ≠ 0 → key ∈ storeKeys)
    (hland : ∀ key, record'.land key ≠ [] → key ∈ storeKeys) :
    Named (client.applyAll writes remote uid) record' := by
  refine ⟨hholds, hinventory, hland, ?_⟩
  rw [child_applyAll_of_ne]
  · exact h.displayName
  · intro write hwrite
    obtain ⟨_, path, hpath⟩ := hwrites write hwrite
    exact ⟨field, path, hpath, hfield⟩

theorem Named.chargeWrites (cost : Int) :
    Named (client.applyAll (chargeWrites uid record.currentLeaves cost) remote uid)
      (record.charge cost) := by
  apply h.applyAll (writesOn_chargeWrites uid record.currentLeaves cost) (by decide)
    (h.holds.chargeWrites cost)
  · rw [UserRecord.charge_inventory]
    exact h.inventoryKey
  · rw [UserRecord.charge_land]
    exact h.landKey

theorem Named.countWrite {key : String} (hkey : key ∈ storeKeys) (n : Nat) :
    Named (client.applyAll [countWrite uid key n] remote uid)
      (record.setInventory key n) := by
  apply h.applyAll (writesOn_countWrite uid key n) (by decide)
    (h.holds.countWrite (storeKeys_ne_empty hkey) n) ?_ h.landKey
  intro other hother
  rw [UserRecord.setInventory_inventory] at hother
  by_cases heq : other = key
  · rw [heq]
    exact hkey
  · rw [if_neg heq] at hother
    exact h.inventoryKey other hother

/-- PLACE's callback takes one unit, if there is one. -/
theorem Named.takeWrites {key : String} (hkey : key ∈ storeKeys) :
    Named (client.applyAll (takeWrites uid key (record.inventory key)) remote uid)
      (record.setInventory key (record.inventory key - 1)) := by
  unfold WillItRecycle.takeWrites
  by_cases hzero : record.inventory key = 0
  · have hsame : record.setInventory key (record.inventory key - 1) = record := by
      unfold UserRecord.setInventory
      rw [Function.update_eq_self_iff.mpr (by omega)]
    rw [if_pos hzero, hsame]
    exact h
  · rw [if_neg hzero]
    exact h.countWrite hkey _

theorem Named.placeWrite {key : String} (hkey : key ∈ storeKeys) (coordinate : String) :
    Named (client.applyAll [setValue uid ["activeItems", key,
        indexKey (record.land key).length] (Tree.leaf (.string coordinate))] remote uid)
      (record.setLand key (record.land key ++ [coordinate])) := by
  apply h.applyAll (WritesOn.singleton rfl ⟨_, rfl⟩) (by decide)
    (h.holds.placeWrite (storeKeys_ne_empty hkey) coordinate) h.inventoryKey
  intro other hother
  rw [UserRecord.setLand_land] at hother
  by_cases heq : other = key
  · rw [heq]
    exact hkey
  · rw [if_neg heq] at hother
    exact h.landKey other hother

end Named

theorem newRecord_named (displayName : String) :
    Named (newRecord displayName) (UserRecord.new 0) := by
  refine ⟨newRecord_holds displayName, ?_, ?_, ?_⟩
  · intro key hkey
    exact absurd rfl hkey
  · intro key hkey
    exact absurd rfl hkey
  · simp [newRecord, Tree.child_setChild]

/-- A new account shows nothing, before and after its record is made. -/
theorem newRecord_inventory (displayName : String) (path : List String) :
    (newRecord displayName).get ("inventory" :: path) = Tree.empty := by
  have hchild : (newRecord displayName).child "inventory" = Tree.empty := by
    simp [newRecord, Tree.child_setChild]
  rw [Tree.get_cons, hchild, Tree.get_empty]

/-! ## What is pending -/

/-- A read that may still be pending. -/
def issued (pending : Bool) (read : Read) : List Read := if pending then [read] else []

theorem mem_issued {pending : Bool} {read other : Read} :
    other ∈ issued pending read ↔ pending = true ∧ other = read := by
  cases pending with
  | false => simp [issued]
  | true => simp [issued]

/-- The rest of a load: the display name, or some of the two lists. -/
inductive Load where
  | name (displayName : Option String)
  | lists (inventory active : Bool)

def Load.reads (uid : Uid) : Load → List Read
  | .name displayName => [.signInName uid displayName]
  | .lists inventory active =>
      issued inventory (.signInInventory uid) ++ issued active (.signInActive uid)

/-- `inventoryItems` has not been loaded. -/
def Load.awaitsInventory : Load → Bool
  | .name _ => true
  | .lists inventory _ => inventory

/-- `activeItems` has not been loaded. -/
def Load.awaitsActive : Load → Bool
  | .name _ => true
  | .lists _ active => active

/-- The rest of an operation; nothing is left when no flag is set. -/
inductive Operation where
  | buying (cell tap : Nat) (key : String) (charging delivering : Bool)
  | placing (key item coordinate : String) (storing taking : Bool)

def Operation.reads (uid : Uid) : Operation → List Read
  | .buying cell tap key charging delivering =>
      issued charging (.buyLeaves uid cell tap) ++
        issued delivering (.buyInventory uid cell tap key)
  | .placing key item coordinate storing taking =>
      issued storing (.placeActive uid key item coordinate) ++
        issued taking (.placeInventory uid key)

/-- The units left once the operation is done; PLACE takes its unit out of
`inventoryItems` at the tap. -/
def Operation.left (operation : Operation) (count : String → Nat) (other : String) : Nat :=
  match operation with
  | .placing key _ _ _ true => count other - if other = key then 1 else 0
  | _ => count other

theorem Operation.left_zero (operation : Operation) :
    operation.left (fun _ => 0) = fun _ => 0 := by
  cases operation with
  | buying cell tap key charging delivering => rfl
  | placing key item coordinate storing taking =>
      cases taking with
      | false => rfl
      | true =>
          funext other
          exact Nat.zero_sub _

/-- The coordinate PLACE has occupied at the tap and not stored. -/
def Operation.placed : Operation → List String
  | .placing _ _ coordinate true _ => [coordinate]
  | _ => []

/-- The operation is one the user can have started in the session. -/
def Operation.Known (load : Load) (app : App) : Operation → Prop
  | .buying cell _ key _ delivering => delivering = true → (app.shown cell).key = key
  | .placing key item _ storing taking =>
      key ∈ storeKeys ∧ item = itemName key ∧
        ((storing || taking) = true → load.awaitsInventory = false)

/-- The read is one the load waits for. -/
def Load.Awaits (load : Load) : Read → Prop
  | .signInName _ displayName => load = .name displayName
  | .signInInventory _ => ∃ active, load = .lists true active
  | .signInActive _ => ∃ inventory, load = .lists inventory true
  | _ => False

/-- The read is one the operation waits for. -/
def Operation.Awaits (operation : Operation) : Read → Prop
  | .buyLeaves _ cell tap =>
      ∃ key delivering, operation = .buying cell tap key true delivering
  | .buyInventory _ cell tap key =>
      ∃ charging, operation = .buying cell tap key charging true
  | .placeActive _ key item coordinate =>
      ∃ taking, operation = .placing key item coordinate true taking
  | .placeInventory _ key =>
      ∃ item coordinate storing, operation = .placing key item coordinate storing true
  | _ => False

theorem Load.awaits_of_mem {uid : Uid} {load : Load} {read : Read}
    (h : read ∈ load.reads uid) : read.uid = uid ∧ load.Awaits read := by
  cases load with
  | name displayName =>
      obtain rfl := List.mem_singleton.mp h
      exact ⟨rfl, rfl⟩
  | lists inventory active =>
      rcases List.mem_append.mp h with h | h
      · obtain ⟨rfl, rfl⟩ := mem_issued.mp h
        exact ⟨rfl, _, rfl⟩
      · obtain ⟨rfl, rfl⟩ := mem_issued.mp h
        exact ⟨rfl, _, rfl⟩

theorem Operation.awaits_of_mem {uid : Uid} {operation : Operation} {read : Read}
    (h : read ∈ operation.reads uid) : read.uid = uid ∧ operation.Awaits read := by
  cases operation with
  | buying cell tap key charging delivering =>
      rcases List.mem_append.mp h with h | h
      · obtain ⟨rfl, rfl⟩ := mem_issued.mp h
        exact ⟨rfl, _, _, rfl⟩
      · obtain ⟨rfl, rfl⟩ := mem_issued.mp h
        exact ⟨rfl, _, rfl⟩
  | placing key item coordinate storing taking =>
      rcases List.mem_append.mp h with h | h
      · obtain ⟨rfl, rfl⟩ := mem_issued.mp h
        exact ⟨rfl, _, rfl⟩
      · obtain ⟨rfl, rfl⟩ := mem_issued.mp h
        exact ⟨rfl, _, _, _, rfl⟩

/-- The second read of an operation, and the operation without it. -/
theorem issued_last (xs ys : List Read) (read : Read) :
    (xs ++ (ys ++ issued true read)).Perm (read :: (xs ++ (ys ++ issued false read))) := by
  rw [← List.append_assoc, ← List.append_assoc]
  exact List.perm_middle

/-- No read is below the field. -/
def Elsewhere (field : String) (reads : List Read) : Prop :=
  ∀ read ∈ reads, ∃ field' path, read.path = field' :: path ∧ field ≠ field'

theorem Elsewhere.issued {field field' : String} {read : Read} {path : List String}
    (hpath : read.path = field' :: path) (hne : field ≠ field') (pending : Bool) :
    Elsewhere field (issued pending read) := by
  intro other hother
  obtain ⟨_, rfl⟩ := mem_issued.mp hother
  exact ⟨field', path, hpath, hne⟩

theorem Elsewhere.append {field : String} {reads reads' : List Read}
    (h : Elsewhere field reads) (h' : Elsewhere field reads') :
    Elsewhere field (reads ++ reads') := by
  intro read hread
  rcases List.mem_append.mp hread with hread | hread
  · exact h read hread
  · exact h' read hread

theorem Elsewhere.nil (field : String) : Elsewhere field [] := by
  intro read hread
  cases hread

theorem Load.elsewhere_currentLeaves (uid : Uid) (load : Load) :
    Elsewhere "currentLeaves" (load.reads uid) := by
  cases load with
  | name displayName => exact Elsewhere.issued rfl (by decide) true
  | lists inventory active =>
      exact (Elsewhere.issued rfl (by decide) inventory).append
        (Elsewhere.issued rfl (by decide) active)

/-- A load no longer reads a list that has been loaded. -/
theorem Load.elsewhere_inventory (uid : Uid) {load : Load}
    (hloaded : load.awaitsInventory = false) : Elsewhere "inventory" (load.reads uid) := by
  cases load with
  | name displayName => cases hloaded
  | lists inventory active =>
      obtain rfl : inventory = false := hloaded
      exact (Elsewhere.nil _).append (Elsewhere.issued rfl (by decide) active)

theorem Load.elsewhere_active (uid : Uid) {load : Load}
    (hloaded : load.awaitsActive = false) : Elsewhere "activeItems" (load.reads uid) := by
  cases load with
  | name displayName => cases hloaded
  | lists inventory active =>
      obtain rfl : active = false := hloaded
      exact (Elsewhere.issued rfl (by decide) inventory).append (Elsewhere.nil _)

/-- Nothing is left of an operation without a read. -/
theorem Operation.nothing_left {uid : Uid} (operation : Operation)
    (h : operation.reads uid = []) :
    (∀ count, operation.left count = count) ∧ operation.placed = [] := by
  cases operation with
  | buying cell tap key charging delivering => exact ⟨fun _ => rfl, rfl⟩
  | placing key item coordinate storing taking =>
      obtain ⟨hstoring, htaking⟩ := List.append_eq_nil_iff.mp h
      cases storing with
      | true => cases hstoring
      | false =>
          cases taking with
          | true => cases htaking
          | false => exact ⟨fun _ => rfl, rfl⟩

/-! ## The lists -/

/-- What the lists show of the record, given what is pending. -/
structure Mirror (record : UserRecord) (load : Load) (operation : Operation) (app : App) :
    Prop where
  inventory : if load.awaitsInventory then app.inventoryItems = []
    else OneEach (rowOf (operation.left record.inventory)) app.inventoryItems
  active : if load.awaitsActive then app.activeItems = []
    else OneEach (entryOf record.land) app.activeItems
  occupied : app.coordinatesOccupied.Perm
    ((if load.awaitsActive then [] else landCoordinates record.land) ++ operation.placed)

/-- Lists just cleared show a new record. -/
theorem Mirror.of_cleared {operation : Operation} {app : App}
    (hinventory : app.inventoryItems = []) (hactive : app.activeItems = [])
    (hoccupied : app.coordinatesOccupied.Perm operation.placed) :
    Mirror (UserRecord.new 0) (.lists false false) operation app := by
  refine ⟨?_, ?_, hoccupied⟩
  · rw [hinventory]
    change OneEach (rowOf (operation.left fun _ => 0)) []
    rw [operation.left_zero]
    exact OneEach.empty (fun _ => rfl)
  · rw [hactive]
    exact OneEach.empty (fun _ => rfl)

/-- The mirror depends on the two fields of the record and on the lists. -/
theorem Mirror.congr {record record' : UserRecord} {load : Load}
    {operation operation' : Operation} {app app' : App}
    (h : Mirror record load operation app)
    (hinventory : operation'.left record'.inventory = operation.left record.inventory)
    (hland : record'.land = record.land) (hplaced : operation'.placed = operation.placed)
    (hrows : app'.inventoryItems = app.inventoryItems)
    (hentries : app'.activeItems = app.activeItems)
    (hoccupied : app'.coordinatesOccupied = app.coordinatesOccupied) :
    Mirror record' load operation' app' := by
  refine ⟨?_, ?_, ?_⟩
  · rw [hinventory, hrows]
    exact h.inventory
  · rw [hland, hentries]
    exact h.active
  · rw [hland, hplaced, hoccupied]
    exact h.occupied

/-- The lists are, up to order, what a load of the record would produce,
whatever the order in which it enumerates the dictionaries. -/
def ShowsFreshLoad (node : FNode) (app : App) : Prop :=
  ∀ order order', ∃ rows entries,
    freshInventory order (node.child "inventory") = .ok rows ∧
    freshActive order' (node.child "activeItems") = .ok entries ∧
    app.inventoryItems.Perm rows ∧ app.activeItems.Perm entries ∧
    app.coordinatesOccupied.Perm (entries.flatMap GameItem.coordinates)

/-- With nothing pending the lists are those of a fresh load. -/
theorem Mirror.showsFreshLoad {record : UserRecord} {load : Load} {operation : Operation}
    {app : App} (h : Mirror record load operation app) {node : FNode}
    (hnamed : Named node record) {uid : Uid} (hload : load.reads uid = [])
    (hoperation : operation.reads uid = []) : ShowsFreshLoad node app := by
  have hloaded : load = .lists false false := by
    cases load with
    | name displayName => cases hload
    | lists inventory active =>
        cases inventory with
        | true => cases hload
        | false =>
            cases active with
            | true => cases hload
            | false => rfl
  obtain ⟨hleft, hplaced⟩ := operation.nothing_left hoperation
  subst hloaded
  obtain ⟨hinventory, hactive, hoccupied⟩ := h
  rw [hleft] at hinventory
  rw [hplaced, List.append_nil] at hoccupied
  intro order order'
  obtain ⟨rows, hrows, hpermRows⟩ :=
    freshInventory_perm hnamed.holds hnamed.inventoryKey order
  obtain ⟨entries, hentries, hpermEntries⟩ :=
    freshActive_perm hnamed.holds hnamed.landKey order'
  refine ⟨rows, entries, hrows, hentries, ?_, ?_, ?_⟩
  · exact (OneEach.perm hinventory (inventoryRows_oneEach hnamed.inventoryKey)).trans
      hpermRows.symm
  · exact (OneEach.perm hactive (landRows_oneEach hnamed.landKey)).trans hpermEntries.symm
  · have hcoordinates := hpermEntries.flatMap_right GameItem.coordinates
    rw [flatMap_landRows] at hcoordinates
    exact hoccupied.trans hcoordinates.symm

/-! ## The answers -/

/-- The answer is what is stored; the wallet may have been read before the
account was made. -/
def Given (remote : Remote) (read : Read) (snapshot : Snapshot) : Prop :=
  ∃ order, snapshot = read.answer (.value order) remote ∨
    read.path = ["currentLeaves"] ∧ snapshot = .value Tree.empty order

/-- Writes elsewhere leave an answer what is stored. -/
theorem Given.applyAll {remote : Remote} {read : Read} {snapshot : Snapshot}
    (h : Given remote read snapshot) {uid : Uid} {field : String} {writes : List Write}
    (hwrites : WritesOn uid field writes)
    (hread : ∃ field' path, read.path = field' :: path ∧ field ≠ field') :
    Given (client.applyAll writes remote) read snapshot := by
  obtain ⟨order, hanswer⟩ := h
  obtain ⟨field', path, hpath, hne⟩ := hread
  refine ⟨order, ?_⟩
  rw [answer_applyAll_of_branch field hne (fun write hwrite => (hwrites write hwrite).2) hpath]
  exact hanswer

/-- What an answer about a list or the name shows. -/
theorem Given.stored {remote : Remote} {read : Read} {snapshot : Snapshot}
    (h : Given remote read snapshot) (hpath : read.path ≠ ["currentLeaves"]) :
    ∃ order, snapshot = .value ((remote read.uid).get read.path) order := by
  obtain ⟨order, hanswer | hwallet⟩ := h
  · exact ⟨order, hanswer⟩
  · exact absurd hwallet.1 hpath

end WillItRecycle

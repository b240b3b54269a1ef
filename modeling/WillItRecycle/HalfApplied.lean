import WillItRecycle.ReadOutcomes
import WillItRecycle.SignInLoad

/-!
# Placing and removing when reads fail

PLACE and REMOVE change the local lists at the tap and leave the record to two
callbacks, one for the land and one for the inventory, each of which gives up
when its read fails.  `Halves` is what the two operations share: what each
callback writes and the four records the outcomes can leave.

* `move_atomic_iff` -- an operation is atomic exactly when neither of its reads
  failed.
-/

namespace WillItRecycle

open PathTree ReadCallback LastMatch

/-- The units of a key the user owns: in the inventory and on the land. -/
def UserRecord.units (record : UserRecord) (key : String) : Nat :=
  record.inventory key + (record.land key).length

/-- From the session at rest on `remote` to `remote'` and `app'` no unit was
gained or lost, and the operation was applied or nothing was changed. -/
def AtomicMove (uid : Uid) (session : Session) (tap : Tap) (remote : Remote)
    (remote' : Remote) (app' : App) : Prop :=
  ∃ record, Holds (remote' uid) record ∧ (∀ key, record.units key = session.record.units key) ∧
    (record = (session.tap tap).record ∨
      remote' = remote ∧ app'.inventoryItems = session.app.inventoryItems ∧
        app'.activeItems = session.app.activeItems ∧
        app'.coordinatesOccupied = session.app.coordinatesOccupied)

/-- The writes of a callback, given how its read turned out. -/
def Reply.writes : Reply → List Write → List Write
  | .error, _ => []
  | .value _, ws => ws

/-- A tap left the app as `tapped` and issued a read for each half of the
operation on `record`.  Each callback that is given a value writes its half. -/
structure Halves (uid : Uid) (record : UserRecord) (remote : Remote) (app tapped : App)
    (land inventory : Read) (landWrites inventoryWrites : List Write)
    (landOnly inventoryOnly both : UserRecord) : Prop where
  landPath : ∃ path, land.path = "activeItems" :: path
  inventoryPath : ∃ path, inventory.path = "inventory" :: path
  landBelow : ∀ write ∈ landWrites, ∃ path, write.path = "activeItems" :: path
  inventoryBelow : ∀ write ∈ inventoryWrites, ∃ path, write.path = "inventory" :: path
  landRead : ∀ reply l, ∃ l', land.callback (land.answer reply remote) l =
    .ok ⟨l', reply.writes landWrites, []⟩ ∧ l'.coordinatesOccupied = l.coordinatesOccupied
  inventoryRead : ∀ reply l, ∃ l', inventory.callback (inventory.answer reply remote) l =
    .ok ⟨l', reply.writes inventoryWrites, []⟩ ∧ l'.coordinatesOccupied = l.coordinatesOccupied
  holds : Holds (remote uid) record
  holdsLand : Holds (client.applyAll landWrites remote uid) landOnly
  holdsInventory : Holds (client.applyAll inventoryWrites remote uid) inventoryOnly
  holdsBoth : Holds (client.applyAll inventoryWrites (client.applyAll landWrites remote) uid) both
  holdsBoth' : Holds (client.applyAll landWrites (client.applyAll inventoryWrites remote) uid) both
  landUnits : ∃ key, landOnly.units key ≠ record.units key
  inventoryUnits : ∃ key, inventoryOnly.units key ≠ record.units key
  bothUnits : ∀ key, both.units key = record.units key
  changed : both ≠ record
  tapped : tapped.coordinatesOccupied ≠ app.coordinatesOccupied

theorem writes_below {field : String} {ws : List Write}
    (h : ∀ write ∈ ws, ∃ path, write.path = field :: path) (reply : Reply) :
    ∀ write ∈ reply.writes ws, ∃ path, write.path = field :: path := by
  cases reply with
  | error =>
      intro write hwrite
      cases hwrite
  | value order => exact h

section Halves

variable {uid : Uid} {record : UserRecord} {remote : Remote} {app tapped : App}
  {land inventory : Read} {landWrites inventoryWrites : List Write}
  {landOnly inventoryOnly both : UserRecord} {tap : Tap}

/-- The record the outcomes of the two reads leave. -/
def outcomeRecord (record landOnly inventoryOnly both : UserRecord) :
    Reply → Reply → UserRecord
  | .error, .error => record
  | .value _, .error => landOnly
  | .error, .value _ => inventoryOnly
  | .value _, .value _ => both

theorem Halves.apart (h : Halves uid record remote app tapped land inventory landWrites
      inventoryWrites landOnly inventoryOnly both) :
    client.Apart remote [land, inventory] := by
  have hne : "activeItems" ≠ "inventory" := by decide
  apply apart_of_fields hne h.landPath h.inventoryPath
  · intro reply l fx hfx
    obtain ⟨l', hread, _⟩ := h.landRead reply l
    obtain rfl := Except.ok.inj (hfx.symm.trans hread)
    exact ⟨rfl, writes_below h.landBelow reply⟩
  · intro reply l fx hfx
    obtain ⟨l', hread, _⟩ := h.inventoryRead reply l
    obtain rfl := Except.ok.inj (hfx.symm.trans hread)
    exact ⟨rfl, writes_below h.inventoryBelow reply⟩

/-- The record left does not depend on the order of the callbacks. -/
theorem Halves.holdsOutcome (h : Halves uid record remote app tapped land inventory landWrites
      inventoryWrites landOnly inventoryOnly both) (i j : Reply) :
    Holds (client.applyAll (j.writes inventoryWrites)
        (client.applyAll (i.writes landWrites) remote) uid)
      (outcomeRecord record landOnly inventoryOnly both i j) ∧
    Holds (client.applyAll (i.writes landWrites)
        (client.applyAll (j.writes inventoryWrites) remote) uid)
      (outcomeRecord record landOnly inventoryOnly both i j) := by
  cases i with
  | error =>
      cases j with
      | error => exact ⟨h.holds, h.holds⟩
      | value order => exact ⟨h.holdsInventory, h.holdsInventory⟩
  | value order =>
      cases j with
      | error => exact ⟨h.holdsLand, h.holdsLand⟩
      | value order' => exact ⟨h.holdsBoth, h.holdsBoth'⟩

/-- Only when both reads succeed is what is left atomic. -/
theorem Halves.atomic_outcome_iff (h : Halves uid record remote app tapped land inventory
      landWrites inventoryWrites landOnly inventoryOnly both)
    (hboth : (Session.tap tap ⟨record, app⟩).record = both) {i j : Reply} {remote' : Remote}
    {app' : App}
    (hholds : Holds (remote' uid) (outcomeRecord record landOnly inventoryOnly both i j))
    (happ : app'.coordinatesOccupied = tapped.coordinatesOccupied) :
    AtomicMove uid ⟨record, app⟩ tap remote remote' app' ↔ i.Succeeds ∧ j.Succeeds := by
  constructor
  · intro hatomic
    obtain ⟨record', hholds', hunits, happlied⟩ := hatomic
    obtain rfl := hholds'.unique hholds
    cases i with
    | error =>
        cases j with
        | error =>
            rcases happlied with heq | ⟨_, _, _, hoccupied⟩
            · exact absurd (heq.trans hboth).symm h.changed
            · exact absurd (happ.symm.trans hoccupied) h.tapped
        | value order =>
            obtain ⟨key, hkey⟩ := h.inventoryUnits
            exact absurd (hunits key) hkey
    | value order =>
        cases j with
        | error =>
            obtain ⟨key, hkey⟩ := h.landUnits
            exact absurd (hunits key) hkey
        | value order' => exact ⟨trivial, trivial⟩
  · intro hsucceed
    cases i with
    | error => exact hsucceed.1.elim
    | value order =>
        cases j with
        | error => exact hsucceed.2.elim
        | value order' => exact ⟨both, hholds, h.bothUnits, Or.inl hboth.symm⟩

theorem Halves.atomic_iff (h : Halves uid record remote app tapped land inventory landWrites
      inventoryWrites landOnly inventoryOnly both)
    (hboth : (Session.tap tap ⟨record, app⟩).record = both)
    (hstep : client.step ⟨remote, app, []⟩ (.tap tap) =
      .ok ⟨remote, tapped, [⟨land, none⟩, ⟨inventory, none⟩]⟩)
    {es : List AppEvent} (htaps : taps es = [])
    (hdone : client.Finishes ⟨remote, app, []⟩ (.tap tap :: es)) :
    (∃ s', client.run ⟨remote, app, []⟩ (.tap tap :: es) = .ok s' ∧
      AtomicMove uid ⟨record, app⟩ tap remote s'.remote s'.state) ↔
    ∀ call ∈ client.started ⟨remote, app, []⟩ (.tap tap :: es), call.2 ≠ .error := by
  rw [client.tapped_iff (P := AtomicMove uid ⟨record, app⟩ tap remote) hstep htaps,
    client.started_tap hstep]
  have hland : ∀ reply l, ∃ l', client.callback land (client.answer land reply remote) l =
      .ok ⟨l', reply.writes landWrites, []⟩ ∧ l'.coordinatesOccupied = l.coordinatesOccupied :=
    h.landRead
  have hinventory : ∀ reply l, ∃ l',
      client.callback inventory (client.answer inventory reply remote) l =
        .ok ⟨l', reply.writes inventoryWrites, []⟩ ∧
      l'.coordinatesOccupied = l.coordinatesOccupied := h.inventoryRead
  rcases client.started_pair h.apart htaps (hdone.of_step client hstep) with
    ⟨i, j, hstarted⟩ | ⟨i, j, hstarted⟩ | ⟨i, err, _, htrap⟩ | ⟨j, err, _, htrap⟩
  · obtain ⟨l₁, hfirst, hl₁⟩ := hland i tapped
    obtain ⟨l₂, hsecond, hl₂⟩ := hinventory j l₁
    rw [hstarted, client.settle_cons_ok hfirst, client.settle_cons_ok hsecond,
      client.settle_nil, Client.exists_ok_iff,
      h.atomic_outcome_iff hboth (h.holdsOutcome i j).1 (hl₂.trans hl₁)]
    simp [answer_ne_error_iff]
  · obtain ⟨l₁, hfirst, hl₁⟩ := hinventory j tapped
    obtain ⟨l₂, hsecond, hl₂⟩ := hland i l₁
    rw [hstarted, client.settle_cons_ok hfirst, client.settle_cons_ok hsecond,
      client.settle_nil, Client.exists_ok_iff,
      h.atomic_outcome_iff hboth (h.holdsOutcome i j).2 (hl₂.trans hl₁)]
    simp [answer_ne_error_iff, and_comm]
  · obtain ⟨_, hread, _⟩ := hland i tapped
    rw [hread] at htrap
    cases htrap
  · obtain ⟨_, hread, _⟩ := hinventory j tapped
    rw [hread] at htrap
    cases htrap

end Halves

/-! ## The two operations -/

theorem units_setLand (record : UserRecord) (key : String) (placed : List String) :
    (record.setLand key placed).units key = record.inventory key + placed.length := by
  simp [UserRecord.units, UserRecord.setLand]

theorem units_setInventory (record : UserRecord) (key : String) (n : Nat) :
    (record.setInventory key n).units key = n + (record.land key).length := by
  simp [UserRecord.units, UserRecord.setInventory]

/-- A unit moved between the land and the inventory is still owned. -/
theorem units_moved {record : UserRecord} {key : String} {placed : List String} {n : Nat}
    (h : n + placed.length = record.units key) (other : String) :
    ((record.setLand key placed).setInventory key n).units other = record.units other := by
  by_cases hother : other = key
  · subst hother
    rw [← h]
    simp [UserRecord.units, UserRecord.setLand, UserRecord.setInventory]
  · simp [UserRecord.units, UserRecord.setLand, UserRecord.setInventory, hother]

theorem ne_of_land {record record' : UserRecord} (key : String)
    (h : record'.land key ≠ record.land key) : record' ≠ record := by
  intro heq
  exact h (congrArg (fun r => r.land key) heq)

section Moves

variable {uid : Uid} {record : UserRecord} {app : App} {remote : Remote}

/-- The app after a tap on PLACE. -/
def App.placing (app : App) (key coordinate : String) : App :=
  { app with
    coordinatesOccupied := app.coordinatesOccupied ++ [coordinate]
    inventoryItems := takeFromInventory key app.inventoryItems }

theorem place_step (huser : app.currentUser = some uid) (remote : Remote)
    (key item : String) {coordinate : String} (hne : coordinate ≠ "") :
    client.step ⟨remote, app, []⟩ (.tap (.place key item coordinate)) =
      .ok ⟨remote, app.placing key coordinate,
        [⟨.placeActive uid key item coordinate, none⟩, ⟨.placeInventory uid key, none⟩]⟩ := by
  simp [Client.step, Client.perform, Tap.handle, onPlacementCompleted, hne, huser, bind,
    Except.bind, Except.map, App.placing]

theorem place_halves (app : App) (hholds : Holds (remote uid) record) {key : String}
    (hkey : key ≠ "") (hstock : record.inventory key ≠ 0) (item coordinate : String) :
    Halves uid record remote app (app.placing key coordinate)
      (.placeActive uid key item coordinate) (.placeInventory uid key)
      [setValue uid ["activeItems", key, indexKey (record.land key).length]
        (Tree.leaf (.string coordinate))]
      [countWrite uid key (record.inventory key - 1)]
      (record.setLand key (record.land key ++ [coordinate]))
      (record.setInventory key (record.inventory key - 1))
      (record.place key coordinate) where
  landPath := ⟨_, fpath_activeItems hkey⟩
  inventoryPath := ⟨_, fpath_inventory hkey⟩
  landBelow := by
    intro write hwrite
    rw [List.mem_singleton.mp hwrite]
    exact ⟨_, fpath_activeItems_index hkey _⟩
  inventoryBelow := by
    intro write hwrite
    rw [List.mem_singleton.mp hwrite]
    exact ⟨_, fpath_inventory hkey⟩
  landRead := by
    intro reply l
    cases reply with
    | error => exact ⟨l, rfl, rfl⟩
    | value order =>
        have hread := placeActiveRead_list (hholds.get_active hkey) uid key item coordinate
          order l
        exact ⟨_, hread, rfl⟩
  inventoryRead := by
    intro reply l
    cases reply with
    | error => exact ⟨l, rfl, rfl⟩
    | value order =>
        have hread := placeInventoryRead_count uid key (record.inventory key) order l
        rw [← hholds.get_inventory hkey, if_neg hstock] at hread
        exact ⟨_, hread, rfl⟩
  holds := hholds
  holdsLand := hholds.placeWrite hkey coordinate
  holdsInventory := hholds.countWrite hkey _
  holdsBoth := (hholds.placeWrite hkey coordinate).countWrite hkey _
  holdsBoth' := (hholds.countWrite hkey (record.inventory key - 1)).placeWrite hkey coordinate
  landUnits := by
    refine ⟨key, ?_⟩
    rw [units_setLand, UserRecord.units, List.length_append, List.length_singleton]
    omega
  inventoryUnits := by
    refine ⟨key, ?_⟩
    rw [units_setInventory, UserRecord.units]
    omega
  bothUnits := by
    apply units_moved
    rw [UserRecord.units, List.length_append, List.length_singleton]
    omega
  changed := by
    apply ne_of_land key
    intro heq
    have hlength := congrArg List.length heq
    simp [UserRecord.place, UserRecord.setLand, UserRecord.setInventory] at hlength
  tapped := by
    intro heq
    have hlength := congrArg List.length heq
    simp [App.placing] at hlength

/-- The app after a tap on REMOVE that found `selectedItem`. -/
def App.removing (app : App) (coordinate : String) : App :=
  { app with
    coordinatesOccupied := removeLast (fun x => x = coordinate) app.coordinatesOccupied
    activeItems := dropCoordinate coordinate app.activeItems
    inventoryItems := returnToInventory
      (findActiveItemCoordinate app.activeItems coordinate) coordinate app.inventoryItems }

theorem remove_step (huser : app.currentUser = some uid) (remote : Remote)
    {coordinate : String} (hne : coordinate ≠ "") {key : String}
    (hfound : (findActiveItemCoordinate app.activeItems coordinate).key = key) :
    client.step ⟨remote, app, []⟩ (.tap (.remove coordinate)) =
      .ok ⟨remote, app.removing coordinate,
        [⟨.removeActive uid key coordinate, none⟩, ⟨.removeInventory uid key, none⟩]⟩ := by
  subst hfound
  simp [Client.step, Client.perform, Tap.handle, onRemove, hne, huser, bind, Except.bind,
    Except.map, App.removing]

theorem length_keepOthers {placed : List String} {coordinate : String}
    (hnodup : placed.Nodup) (hmem : coordinate ∈ placed) :
    (keepOthers coordinate placed).length + 1 = placed.length := by
  have hpos := List.length_pos_of_mem hmem
  have herase : placed.filter (fun x => x ≠ coordinate) = placed.erase coordinate := by
    rw [hnodup.erase_eq_filter]
    apply List.filter_congr
    intro x _
    simp [bne, beq_eq_decide]
  rw [keepOthers_eq_filter hmem, herase, List.length_erase_of_mem hmem]
  omega

theorem remove_halves (hholds : Holds (remote uid) record) {key coordinate : String}
    (hkey : key ≠ "") (hplaced : coordinate ∈ record.land key) (hnodup : (record.land key).Nodup)
    (hoccupied : coordinate ∈ app.coordinatesOccupied) (hfree : app.coordinatesOccupied.Nodup) :
    Halves uid record remote app (app.removing coordinate)
      (.removeActive uid key coordinate) (.removeInventory uid key)
      (removeWrites uid key coordinate (record.land key))
      [countWrite uid key (record.inventory key + 1)]
      (record.setLand key (keepOthers coordinate (record.land key)))
      (record.setInventory key (record.inventory key + 1))
      (record.remove key coordinate) where
  landPath := ⟨_, fpath_activeItems hkey⟩
  inventoryPath := ⟨_, fpath_inventory hkey⟩
  landBelow := fun _ hwrite => (mem_removeWrites hwrite).2
  inventoryBelow := by
    intro write hwrite
    rw [List.mem_singleton.mp hwrite]
    exact ⟨_, fpath_inventory hkey⟩
  landRead := by
    intro reply l
    cases reply with
    | error => exact ⟨l, rfl, rfl⟩
    | value order =>
        have hread := removeActiveRead_list (hholds.get_active hkey) uid key coordinate order l
        exact ⟨_, hread, rfl⟩
  inventoryRead := by
    intro reply l
    cases reply with
    | error => exact ⟨l, rfl, rfl⟩
    | value order =>
        have hread := removeInventoryRead_count hkey uid (record.inventory key) order l
        rw [← hholds.get_inventory hkey] at hread
        exact ⟨_, hread, rfl⟩
  holds := hholds
  holdsLand := hholds.removeWrites hkey coordinate (List.ne_nil_of_mem hplaced)
  holdsInventory := hholds.countWrite hkey _
  holdsBoth :=
    (hholds.removeWrites hkey coordinate (List.ne_nil_of_mem hplaced)).countWrite hkey _
  holdsBoth' := (hholds.countWrite hkey (record.inventory key + 1)).removeWrites hkey coordinate
    (List.ne_nil_of_mem hplaced)
  landUnits := by
    have hlength := length_keepOthers hnodup hplaced
    refine ⟨key, ?_⟩
    rw [units_setLand, UserRecord.units]
    omega
  inventoryUnits := by
    refine ⟨key, ?_⟩
    rw [units_setInventory, UserRecord.units]
    omega
  bothUnits := by
    have hlength := length_keepOthers hnodup hplaced
    apply units_moved
    rw [UserRecord.units]
    omega
  changed := by
    have hlength := length_keepOthers hnodup hplaced
    apply ne_of_land key
    intro heq
    have hsame := congrArg List.length heq
    simp only [UserRecord.remove, UserRecord.setInventory_land, UserRecord.setLand_same] at hsame
    omega
  tapped := by
    intro heq
    have hgone : coordinate ∉ (app.removing coordinate).coordinatesOccupied := by
      simp [App.removing, removeLast_eq_filter hfree]
    rw [heq] at hgone
    exact hgone hoccupied

end Moves

/-- A tap on PLACE or on REMOVE. -/
def Tap.Moves : Tap → Prop
  | .place .. | .remove _ => True
  | _ => False

/-- A row of the inventory shows a unit that is stored. -/
theorem ShowsInventory.stock {record : UserRecord} {app : App} (h : ShowsInventory record app)
    {row : GameItem} (hrow : row ∈ app.inventoryItems) : record.inventory row.key ≠ 0 := by
  have hstored := h.stored row.key
  have hpositive := h.positive row hrow
  rw [unitsShown_of_mem h.nodup hrow] at hstored
  omega

/-- **Placing and removing are atomic exactly when no read fails.**  For every
consistent state, whatever the outcomes of the two reads and the order of their
callbacks. -/
theorem move_atomic_iff {uid : Uid} {session : Session} {remote : Remote}
    (hplay : InPlay uid session remote session.app) {tap : Tap} (hmoves : tap.Moves)
    (henabled : tap.Enabled session.app) {es : List AppEvent} (htaps : taps es = [])
    (hdone : client.Finishes ⟨remote, session.app, []⟩ (.tap tap :: es)) :
    (∃ s', client.run ⟨remote, session.app, []⟩ (.tap tap :: es) = .ok s' ∧
      AtomicMove uid session tap remote s'.remote s'.state) ↔
    ∀ call ∈ client.started ⟨remote, session.app, []⟩ (.tap tap :: es), call.2 ≠ .error := by
  obtain ⟨⟨hholds, _, huser, hwf, hland⟩, hrows⟩ := hplay
  cases tap with
  | place key item coordinate =>
      obtain ⟨hne, _, row, hrow, rfl, rfl⟩ := henabled
      have hkey := storeKeys_ne_empty (hrows.known row hrow).1
      have hhalves := place_halves session.app hholds hkey (hrows.stock hrow) row.item coordinate
      exact hhalves.atomic_iff rfl (place_step huser remote row.key row.item hne) htaps hdone
  | remove coordinate =>
      obtain ⟨key, hplaced⟩ := (hland.occupied coordinate).mp henabled
      have hkey := storeKeys_ne_empty (hwf.landKey key (List.ne_nil_of_mem hplaced))
      have hne : coordinate ≠ "" := by
        intro heq
        exact hwf.button key (heq ▸ hplaced)
      have hfound := (hland.find hwf hplaced).2
      have hhalves := remove_halves hholds hkey hplaced (hwf.nodup key) henabled
        hland.occupiedNodup
      have hboth : (Session.tap (.remove coordinate) session).record =
          session.record.remove key coordinate := by
        rw [← hfound]
        rfl
      exact hhalves.atomic_iff hboth (remove_step huser remote hne hfound) htaps hdone
  | _ => exact hmoves.elim

/-- The tree of a planted land is taken up again; the reads turn out as told. -/
def treeRemoved (land inventory : Reply) : List AppEvent :=
  [.tap (.remove "(0,0)"), .answer 0 land, .answer 1 inventory, .serve 0, .serve 0]

theorem move_atomic_tree :
    ∃ s', client.run ⟨plantedTree, plantedTreeApp "ann" treeShelf, []⟩
        (treeRemoved (.value []) (.value [])) = .ok s' ∧
      AtomicMove "ann" ⟨UserRecord.plantedTree, plantedTreeApp "ann" treeShelf⟩
        (.remove "(0,0)") plantedTree s'.remote s'.state := by
  have hplay := (plantedTree_signedIn "ann" treeShelf).inPlay (plantedTree_holds "ann")
    plantedTree_wellFormed
  have hmoves : (Tap.remove "(0,0)").Moves := trivial
  exact (move_atomic_iff hplay hmoves (by decide) rfl
    (client.finishes_of_check (by decide +kernel))).mpr (by decide +kernel)

/-- The land read fails: the tree is in the inventory and still on the land, and
the local lists no longer show it there. -/
theorem not_move_atomic :
    ¬ ∀ (uid : Uid) (session : Session) (remote : Remote) (tap : Tap) (es : List AppEvent),
        InPlay uid session remote session.app → tap.Moves → tap.Enabled session.app →
        taps es = [] → client.Finishes ⟨remote, session.app, []⟩ (.tap tap :: es) →
        ∃ s', client.run ⟨remote, session.app, []⟩ (.tap tap :: es) = .ok s' ∧
          AtomicMove uid session tap remote s'.remote s'.state := by
  intro hclaim
  have hplay := (plantedTree_signedIn "ann" treeShelf).inPlay (plantedTree_holds "ann")
    plantedTree_wellFormed
  obtain ⟨s', hrun, record, hholds, hunits, _⟩ := hclaim "ann" _ _ (.remove "(0,0)")
    [.answer 0 .error, .answer 1 (.value []), .serve 0, .serve 0] hplay trivial (by decide) rfl
    (client.finishes_of_check (by decide +kernel))
  obtain ⟨s'', hrun'', hcount, hplaced⟩ : ∃ s'', client.run
      ⟨plantedTree, plantedTreeApp "ann" treeShelf, []⟩ (treeRemoved .error (.value [])) =
        .ok s'' ∧
      asInt ((s''.remote "ann").get ["inventory", "tree"]) = some 1 ∧
      asStringArray ((s''.remote "ann").get ["activeItems", "tree"]) = some ["(0,0)"] :=
    client.exists_run_of_check (by decide +kernel)
  obtain rfl : s' = s'' := Except.ok.inj (hrun.symm.trans hrun'')
  have hinventory : record.inventory "tree" = 1 := by
    have hnode := hholds.inventory "tree"
    change asInt (((s'.remote "ann").child "inventory").child "tree") = some 1 at hcount
    rw [hnode] at hcount
    cases hrecord : record.inventory "tree" with
    | zero => simp [hrecord] at hcount
    | succ n =>
        rw [hrecord] at hcount
        simp [countNode] at hcount
        omega
  have hland : record.land "tree" ≠ [] := by
    intro hnil
    have hlist := hholds.active "tree"
    rw [hnil, isList_nil_iff] at hlist
    change asStringArray (((s'.remote "ann").child "activeItems").child "tree") = _ at hplaced
    rw [hlist] at hplaced
    revert hplaced
    decide
  have hbefore : UserRecord.plantedTree.units "tree" = 1 := by decide
  have hafter := hunits "tree"
  have hpos := List.length_pos_iff.mpr hland
  change record.units "tree" = UserRecord.plantedTree.units "tree" at hafter
  rw [hbefore, UserRecord.units] at hafter
  omega

end WillItRecycle

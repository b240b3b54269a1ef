import WillItRecycle.LandInFlight

/-!
# The occupied cells and the entries that hold them

PLACE counts its cell as occupied at the tap, but an entry holds the cell only
once the callback on `activeItems/<key>` has run on a value.  So an occupied cell
is in one of three places: its PLACE is pending, its PLACE has failed, or an
entry holds it (`Cells`).  REMOVE resolves it in the last case only.

* `OnCells.settled_iff_shown` -- an entry holds a cell once its PLACE is settled;
* `occupied_resolves_iff` -- which occupied cells resolve, and when REMOVE stays
  off the parent nodes;
* `not_occupied_resolves` -- a failed PLACE leaves a cell that does not resolve.
-/

namespace WillItRecycle

open PathTree ReadCallback LastMatch

/-! ## What is claimed of a cell -/

/-- REMOVE finds an entry that holds the cell, not the placeholder. -/
def Resolves (app : App) (coordinate : String) : Prop :=
  findActiveItemCoordinate app.activeItems coordinate ∈ app.activeItems ∧
    coordinate ∈ (findActiveItemCoordinate app.activeItems coordinate).coordinates ∧
    (findActiveItemCoordinate app.activeItems coordinate).key ≠ ""

/-- The node that lists all kinds, not one of them. -/
def IsParent (path : List String) : Prop := path = ["activeItems"] ∨ path = ["inventory"]

instance (path : List String) : Decidable (IsParent path) :=
  inferInstanceAs (Decidable (path = ["activeItems"] ∨ path = ["inventory"]))

/-- Code with these effects reads and writes no parent node. -/
def OffParents (fx : Effects App Write Read) : Prop :=
  (∀ read ∈ fx.reads, ¬ IsParent read.path) ∧ ∀ write ∈ fx.writes, ¬ IsParent write.path

/-- The cell a callback on `activeItems` is still to place. -/
def Read.placingAt : Read → Option String
  | .placeActive _ _ _ coordinate => some coordinate
  | _ => none

/-- The cells whose PLACE is pending. -/
def placesPending (s : AppSys) : List String := s.reads.filterMap Read.placingAt

def failedPlace : AppEntry → Option String
  | .served (.placeActive _ _ _ coordinate) .error _ => some coordinate
  | _ => none

/-- The cells whose PLACE could not read `activeItems`. -/
def placesFailed (trace : List AppEntry) : List String := trace.filterMap failedPlace

/-- PLACE and REMOVE as the screens offer them; any read may fail. -/
def LandTaps (s : AppSys) : AppEvent → Prop
  | .tap (.place key item coordinate) => (Tap.place key item coordinate).Enabled s.state
  | .tap (.remove coordinate) => (Tap.remove coordinate).Enabled s.state
  | .tap _ => False
  | .answer _ _ => True
  | .serve _ => True

instance (s : AppSys) (e : AppEvent) : Decidable (LandTaps s e) :=
  match e with
  | .tap (.place key item coordinate) =>
      inferInstanceAs (Decidable ((Tap.place key item coordinate).Enabled s.state))
  | .tap (.remove coordinate) =>
      inferInstanceAs (Decidable ((Tap.remove coordinate).Enabled s.state))
  | .tap (.buy _) | .tap (.cellForRow _ _) | .tap (.claim _) | .tap (.redeem _ _ _)
  | .tap (.signIn _ _) | .tap .signOut => isFalse id
  | .answer _ _ | .serve _ => isTrue trivial

/-- REMOVE is tapped only for cells whose PLACE is neither pending nor failed. -/
def RemovesSettled (trace : List AppEntry) (s : AppSys) : AppEvent → Prop
  | .tap (.remove coordinate) =>
      coordinate ∉ placesPending s ∧ coordinate ∉ placesFailed trace
  | _ => True

instance (trace : List AppEntry) (s : AppSys) (e : AppEvent) :
    Decidable (RemovesSettled trace s e) :=
  match e with
  | .tap (.remove coordinate) =>
      inferInstanceAs (Decidable (coordinate ∉ placesPending s ∧
        coordinate ∉ placesFailed trace))
  | .tap (.buy _) | .tap (.place _ _ _) | .tap (.cellForRow _ _) | .tap (.claim _)
  | .tap (.redeem _ _ _) | .tap (.signIn _ _) | .tap .signOut => isTrue trivial
  | .answer _ _ | .serve _ => isTrue trivial

/-! ## The entries -/

/-- Some entry holds the cell. -/
def HoldsCell (app : App) (coordinate : String) : Prop :=
  ∃ item ∈ app.activeItems, coordinate ∈ item.coordinates

def HasEntry (app : App) (key : String) : Prop := ∃ item ∈ app.activeItems, item.key = key

theorem holdsCell_placeLocal {key : String} (item coordinate : String) {placed : List String}
    {app : App} (hexists : placed ≠ [] → HasEntry app key) (x : String) :
    HoldsCell { app with
      activeItems := placeLocal key item coordinate placed app.activeItems } x ↔
      HoldsCell app x ∨ x = coordinate := by
  have hlocal := mem_placeLocal item coordinate hexists
  constructor
  · intro h
    obtain ⟨entry, hentry, hx⟩ := h
    rcases (hlocal entry.key x).mp ⟨entry, hentry, rfl, hx⟩ with hold | hnew
    · obtain ⟨old, hold, _, hx⟩ := hold
      exact Or.inl ⟨old, hold, hx⟩
    · exact Or.inr hnew.2
  · intro h
    rcases h with hold | rfl
    · obtain ⟨old, hold, hx⟩ := hold
      obtain ⟨entry, hentry, _, hx⟩ := (hlocal old.key x).mpr (Or.inl ⟨old, hold, rfl, hx⟩)
      exact ⟨entry, hentry, hx⟩
    · obtain ⟨entry, hentry, _, hx⟩ := (hlocal key x).mpr (Or.inr ⟨rfl, rfl⟩)
      exact ⟨entry, hentry, hx⟩

theorem holdsCell_dropCoordinate {app : App}
    (hnodup : ∀ item ∈ app.activeItems, item.coordinates.Nodup) (coordinate x : String) :
    HoldsCell { app with activeItems := dropCoordinate coordinate app.activeItems } x ↔
      HoldsCell app x ∧ x ≠ coordinate := by
  have hdrop := fun key => mem_dropCoordinate hnodup coordinate key x
  constructor
  · intro h
    obtain ⟨entry, hentry, hx⟩ := h
    obtain ⟨⟨old, hold, _, hx⟩, hne⟩ := (hdrop entry.key).mp ⟨entry, hentry, rfl, hx⟩
    exact ⟨⟨old, hold, hx⟩, hne⟩
  · intro h
    obtain ⟨⟨old, hold, hx⟩, hne⟩ := h
    obtain ⟨entry, hentry, _, hx⟩ := (hdrop old.key).mpr ⟨⟨old, hold, rfl, hx⟩, hne⟩
    exact ⟨entry, hentry, hx⟩

/-! ## Where the occupied cells are -/

/-- Every occupied cell is being placed, was not placed, or is held by an entry,
one of the three. -/
structure Cells (uid : Uid) (pending failed : List String) (app : App) : Prop where
  known : KnownItems uid app
  nodup : ∀ item ∈ app.activeItems, item.coordinates.Nodup
  button : "" ∉ app.coordinatesOccupied
  occupiedNodup : app.coordinatesOccupied.Nodup
  occupied : ∀ x, x ∈ app.coordinatesOccupied ↔ x ∈ pending ++ failed ∨ HoldsCell app x
  hidden : ∀ x ∈ pending ++ failed, ¬ HoldsCell app x
  once : (pending ++ failed).Nodup

namespace Cells

variable {uid : Uid} {pending pending' failed : List String} {app : App}

theorem perm (h : Cells uid pending failed app) (hpending : pending.Perm pending') :
    Cells uid pending' failed app := by
  have hboth : (pending ++ failed).Perm (pending' ++ failed) := hpending.append_right failed
  refine ⟨h.known, h.nodup, h.button, h.occupiedNodup, ?_, ?_, hboth.nodup_iff.mp h.once⟩
  · intro x
    rw [h.occupied, hboth.mem_iff]
  · intro x hx
    exact h.hidden x (hboth.mem_iff.mpr hx)

/-- PLACE's tap on a free cell. -/
theorem placeTap (h : Cells uid pending failed app) {coordinate : String}
    (hbutton : coordinate ≠ "") (hfree : coordinate ∉ app.coordinatesOccupied)
    {inventoryItems : List GameItem} (hrows : ∀ row ∈ inventoryItems, row.Sold) :
    Cells uid (coordinate :: pending) failed { app with
      coordinatesOccupied := app.coordinatesOccupied ++ [coordinate]
      inventoryItems := inventoryItems } := by
  have hnew : coordinate ∉ pending ++ failed ∧ ¬ HoldsCell app coordinate := by
    rw [h.occupied, not_or] at hfree
    exact hfree
  refine ⟨⟨h.known.currentUser, hrows, h.known.entries⟩, h.nodup, ?_, ?_, ?_, ?_, ?_⟩
  · intro hmem
    rcases List.mem_append.mp hmem with hmem | hmem
    · exact h.button hmem
    · exact hbutton (List.mem_singleton.mp hmem).symm
  · rw [List.nodup_append]
    refine ⟨h.occupiedNodup, List.nodup_singleton _, ?_⟩
    intro x hx y hy hxy
    rw [List.mem_singleton] at hy
    exact hfree (hy ▸ hxy ▸ hx)
  · intro x
    rw [List.mem_append, List.mem_singleton, h.occupied, List.cons_append, List.mem_cons]
    change _ ↔ _ ∨ HoldsCell app x
    tauto
  · intro x hx
    rw [List.cons_append, List.mem_cons] at hx
    rcases hx with rfl | hx
    · exact hnew.2
    · exact h.hidden x hx
  · rw [List.cons_append, List.nodup_cons]
    exact ⟨hnew.1, h.once⟩

/-- REMOVE's tap on a cell that an entry holds. -/
theorem removeTap (h : Cells uid pending failed app) {coordinate : String}
    (hshown : HoldsCell app coordinate) {inventoryItems : List GameItem}
    (hrows : ∀ row ∈ inventoryItems, row.Sold) :
    Cells uid pending failed { app with
      coordinatesOccupied := removeLast (fun x => x = coordinate) app.coordinatesOccupied
      activeItems := dropCoordinate coordinate app.activeItems
      inventoryItems := inventoryItems } := by
  have hshows := holdsCell_dropCoordinate h.nodup coordinate
  have hkept : ∀ x, x ∈ removeLast (fun x => x = coordinate) app.coordinatesOccupied ↔
      x ∈ app.coordinatesOccupied ∧ x ≠ coordinate := by
    intro x
    rw [removeLast_eq_filter h.occupiedNodup, List.mem_filter]
    simp
  refine ⟨⟨h.known.currentUser, hrows, sold_dropCoordinate h.known.entries coordinate⟩,
    nodup_dropCoordinate h.nodup coordinate, ?_, ?_, ?_, ?_, h.once⟩
  · intro hmem
    exact h.button ((hkept "").mp hmem).1
  · exact List.Sublist.nodup (removeLast_sublist _ _) h.occupiedNodup
  · intro x
    have hne : x ∈ pending ++ failed → x ≠ coordinate := by
      intro hx heq
      exact h.hidden x hx (heq ▸ hshown)
    rw [hkept, h.occupied]
    change _ ↔ _ ∨ HoldsCell { app with
      activeItems := dropCoordinate coordinate app.activeItems } x
    rw [hshows]
    tauto
  · intro x hx hshow
    exact h.hidden x hx ((hshows x).mp hshow).1

/-- PLACE's callback on a value. -/
theorem landed {key item coordinate : String} {placed : List String}
    (h : Cells uid (coordinate :: pending) failed app) (hkey : key ∈ storeKeys)
    (hitem : item = itemName key) (hexists : placed ≠ [] → HasEntry app key) :
    Cells uid pending failed { app with
      activeItems := placeLocal key item coordinate placed app.activeItems } := by
  have hshows := holdsCell_placeLocal item coordinate hexists
  have hnew : ¬ HoldsCell app coordinate := h.hidden coordinate List.mem_cons_self
  obtain ⟨honce, hrest⟩ := List.nodup_cons.mp h.once
  refine ⟨⟨h.known.currentUser, h.known.rows,
      sold_placeLocal h.known.entries hkey hitem coordinate placed⟩,
    ?_, h.button, h.occupiedNodup, ?_, ?_, hrest⟩
  · refine nodup_placeLocal h.nodup ?_ item placed
    intro entry hentry _ hx
    exact hnew ⟨entry, hentry, hx⟩
  · intro x
    rw [h.occupied, hshows, List.cons_append, List.mem_cons]
    tauto
  · intro x hx hshow
    rcases (hshows x).mp hshow with hshow | heq
    · exact h.hidden x (List.mem_cons_of_mem _ hx) hshow
    · exact honce (heq ▸ hx)

/-- PLACE's callback on an error. -/
theorem missed {coordinate : String} (h : Cells uid (coordinate :: pending) failed app) :
    Cells uid pending (failed ++ [coordinate]) app := by
  have hboth : (coordinate :: pending ++ failed).Perm (pending ++ (failed ++ [coordinate])) := by
    rw [← List.append_assoc]
    exact (List.perm_append_singleton coordinate (pending ++ failed)).symm
  refine ⟨h.known, h.nodup, h.button, h.occupiedNodup, ?_, ?_, hboth.nodup_iff.mp h.once⟩
  · intro x
    rw [h.occupied, hboth.mem_iff]
  · intro x hx
    exact h.hidden x (hboth.mem_iff.mpr hx)

/-- Which occupied cells REMOVE resolves. -/
theorem resolves_iff (h : Cells uid pending failed app) {coordinate : String}
    (hoccupied : coordinate ∈ app.coordinatesOccupied) :
    Resolves app coordinate ↔ coordinate ∉ pending ∧ coordinate ∉ failed := by
  have hplaces := (h.occupied coordinate).mp hoccupied
  rw [← not_or, ← List.mem_append]
  constructor
  · intro hresolves hmem
    exact h.hidden coordinate hmem ⟨_, hresolves.1, hresolves.2.1⟩
  · intro hnot
    have hfound := find_of_shown (hplaces.resolve_left hnot)
    have hsold := h.known.entries _ hfound.1
    exact ⟨hfound.1, hfound.2, storeKeys_ne_empty hsold.1⟩

end Cells

/-! ## What the callbacks do -/

/-- The key whose list of placements a callback rewrites. -/
def Read.activeKey : Read → Option String
  | .placeActive _ key _ _ | .removeActive _ key _ => some key
  | _ => none

/-- A write below one kind of the inventory or below one list of placements. -/
def WritesKind (uid : Uid) (activeKey : Option String) (write : Write) : Prop :=
  write.uid = uid ∧ ((∃ key path, key ≠ "" ∧ write.path = "inventory" :: key :: path) ∨
    ∃ key path, key ≠ "" ∧ activeKey = some key ∧
      write.path = "activeItems" :: key :: path)

theorem WritesKind.not_isParent {uid : Uid} {activeKey : Option String} {write : Write}
    (h : WritesKind uid activeKey write) : ¬ IsParent write.path := by
  obtain ⟨_, ⟨key, path, _, hpath⟩ | ⟨key, path, _, _, hpath⟩⟩ := h
  · rw [hpath]
    simp [IsParent]
  · rw [hpath]
    simp [IsParent]

theorem writesKind_inventory {key : String} (hkey : key ≠ "") (uid : Uid)
    (activeKey : Option String) (value : FNode) :
    WritesKind uid activeKey (setValue uid ["inventory", key] value) :=
  ⟨rfl, Or.inl ⟨key, [], hkey, fpath_inventory hkey⟩⟩

theorem writesKind_activeItems {key : String} (hkey : key ≠ "") (uid : Uid) (index : Nat)
    (value : FNode) :
    WritesKind uid (some key) (setValue uid ["activeItems", key, indexKey index] value) :=
  ⟨rfl, Or.inr ⟨key, [indexKey index], hkey, rfl, fpath_activeItems_index hkey index⟩⟩

/-- PLACE's callback on a value. -/
theorem placeActiveRead_value {uid : Uid} {key item coordinate : String} {node : FNode}
    {order : List String} {app : App} {fx : Effects App Write Read}
    (hrun : placeActiveRead uid key item coordinate (.value node order) app = .ok fx) :
    ∃ placed index, (placed ≠ [] → node.isEmpty = false) ∧
      fx = ⟨{ app with
          activeItems := placeLocal key item coordinate placed app.activeItems },
        [setValue uid ["activeItems", key, indexKey index]
          (Tree.leaf (.string coordinate))], []⟩ := by
  cases hempty : node.isEmpty with
  | true =>
      simp only [placeActiveRead, hempty, if_true, Except.ok.injEq] at hrun
      exact ⟨[], 0, by simp, hrun.symm⟩
  | false =>
      cases hdata : asStringArray node with
      | none =>
          simp [placeActiveRead, hempty, hdata, bind, Except.bind] at hrun
      | some data =>
          simp only [placeActiveRead, hempty, hdata, Bool.false_eq_true, if_false, bind,
            Except.bind, force_some, Except.ok.injEq] at hrun
          refine ⟨[coordinate], data.length, by simp, ?_⟩
          rw [← hrun]
          rfl

theorem placeInventoryRead_writes {uid : Uid} {key : String} (hkey : key ≠ "")
    {node : FNode} (order : List String) {app : App} {fx : Effects App Write Read}
    (hrun : placeInventoryRead uid key (.value node order) app = .ok fx) :
    fx.reads = [] ∧ fx.state = app ∧ ∀ write ∈ fx.writes, WritesKind uid none write := by
  have hwrite := writesKind_inventory hkey uid none
  by_cases hempty : node.isEmpty
  · rw [placeInventoryRead, if_pos hempty] at hrun
    obtain rfl := Except.ok.inj hrun
    exact ⟨rfl, rfl, by simp⟩
  · cases hcount : asInt node with
    | none => simp [placeInventoryRead, hempty, hcount, bind, Except.bind] at hrun
    | some count =>
        by_cases hone : count = 1
        · simp [placeInventoryRead, hempty, hcount, hone, bind, Except.bind] at hrun
          rw [← hrun]
          exact ⟨rfl, rfl, List.forall_mem_singleton.mpr (hwrite Tree.empty)⟩
        · simp [placeInventoryRead, hempty, hcount, hone, bind, Except.bind] at hrun
          rw [← hrun]
          exact ⟨rfl, rfl, List.forall_mem_singleton.mpr
            (hwrite (Tree.leaf (.int (count - 1))))⟩

theorem removeActiveRead_writes {uid : Uid} {key : String} (hkey : key ≠ "")
    {coordinate : String} {node : FNode} (order : List String) {app : App}
    {fx : Effects App Write Read}
    (hrun : removeActiveRead uid key coordinate (.value node order) app = .ok fx) :
    fx.reads = [] ∧ fx.state = app ∧
      ∀ write ∈ fx.writes, WritesKind uid (some key) write := by
  by_cases hempty : node.isEmpty
  · rw [removeActiveRead, if_pos hempty] at hrun
    obtain rfl := Except.ok.inj hrun
    exact ⟨rfl, rfl, by simp⟩
  · cases hdata : asStringArray node with
    | none => simp [removeActiveRead, hempty, hdata, bind, Except.bind] at hrun
    | some data =>
        simp [removeActiveRead, hempty, hdata, bind, Except.bind] at hrun
        rw [← hrun]
        refine ⟨rfl, rfl, ?_⟩
        intro write hwrite
        rcases List.mem_cons.mp hwrite with rfl | hwrite
        · exact ⟨rfl, Or.inr ⟨key, [], hkey, rfl, fpath_activeItems hkey⟩⟩
        · split at hwrite
          · obtain ⟨huid, i, hpath⟩ := mem_rewriteFrom hwrite
            rw [fpath_activeItems_index hkey] at hpath
            exact ⟨huid, Or.inr ⟨key, [indexKey i], hkey, rfl, hpath⟩⟩
          · cases hwrite

theorem removeInventoryRead_writes {uid : Uid} {key : String} (hkey : key ≠ "")
    {node : FNode} (order : List String) {app : App} {fx : Effects App Write Read}
    (hrun : removeInventoryRead uid key (.value node order) app = .ok fx) :
    fx.reads = [] ∧ fx.state = app ∧ ∀ write ∈ fx.writes, WritesKind uid none write := by
  have hwrite := writesKind_inventory hkey uid none
  by_cases hempty : node.isEmpty
  · simp [removeInventoryRead, hempty, hkey] at hrun
    rw [← hrun]
    exact ⟨rfl, rfl, List.forall_mem_singleton.mpr (hwrite (Tree.leaf (.int 1)))⟩
  · cases hcount : asInt node with
    | none => simp [removeInventoryRead, hempty, hcount, bind, Except.bind] at hrun
    | some count =>
        simp [removeInventoryRead, hempty, hcount, bind, Except.bind] at hrun
        rw [← hrun]
        exact ⟨rfl, rfl, List.forall_mem_singleton.mpr
          (hwrite (Tree.leaf (.int (count + 1))))⟩

/-- The callbacks of the land issue no reads and write to one kind only; only PLACE's
changes the local lists. -/
theorem landRead_writes {uid : Uid} {read : Read} {snapshot : Snapshot} {app : App}
    {fx : Effects App Write Read} (hread : LandRead uid read)
    (hrun : read.callback snapshot app = .ok fx) :
    fx.reads = [] ∧ (read.placingAt = none → fx.state = app) ∧
      ∀ write ∈ fx.writes, WritesKind uid read.activeKey write := by
  obtain ⟨rfl, hkey⟩ := hread
  cases snapshot with
  | error =>
      have hdone : app.done = .ok fx → fx.reads = [] ∧
          (read.placingAt = none → fx.state = app) ∧
          ∀ write ∈ fx.writes, WritesKind read.uid read.activeKey write := by
        intro hdone
        obtain rfl := Except.ok.inj hdone
        exact ⟨rfl, fun _ => rfl, by simp⟩
      cases read with
      | placeActive | placeInventory | removeActive | removeInventory => exact hdone hrun
      | _ => exact hkey.elim
  | value node order =>
      cases read with
      | placeActive uid key item coordinate =>
          change placeActiveRead uid key item coordinate (.value node order) app = _ at hrun
          obtain ⟨placed, index, _, rfl⟩ := placeActiveRead_value hrun
          have hwrite := writesKind_activeItems (storeKeys_ne_empty hkey.1) uid index
            (Tree.leaf (.string coordinate))
          exact ⟨rfl, (fun hnone => by cases hnone), List.forall_mem_singleton.mpr hwrite⟩
      | placeInventory uid key =>
          obtain ⟨hreads, hstate, hwrites⟩ :=
            placeInventoryRead_writes (storeKeys_ne_empty hkey) order hrun
          exact ⟨hreads, fun _ => hstate, hwrites⟩
      | removeActive uid key coordinate =>
          obtain ⟨hreads, hstate, hwrites⟩ :=
            removeActiveRead_writes (storeKeys_ne_empty hkey) order hrun
          exact ⟨hreads, fun _ => hstate, hwrites⟩
      | removeInventory uid key =>
          obtain ⟨hreads, hstate, hwrites⟩ :=
            removeInventoryRead_writes (storeKeys_ne_empty hkey) order hrun
          exact ⟨hreads, fun _ => hstate, hwrites⟩
      | _ => exact hkey.elim

/-! ## What the entries back -/

/-- A callback that rewrites a list does so for a kind that has an entry. -/
def BacksRead (app : App) : Pending Read Snapshot → Prop
  | ⟨.removeActive _ key _, _⟩ => HasEntry app key
  | ⟨.placeActive _ key _ _, some (.value node _)⟩ => node.isEmpty = false → HasEntry app key
  | _ => True

theorem BacksRead.mono {app app' : App} (hkeeps : ∀ key, HasEntry app key → HasEntry app' key)
    {p : Pending Read Snapshot} (h : BacksRead app p) : BacksRead app' p := by
  obtain ⟨read, answer⟩ := p
  cases read with
  | removeActive uid key coordinate => exact hkeeps key h
  | placeActive uid key item coordinate =>
      rcases answer with _ | _ | ⟨node, order⟩
      · trivial
      · trivial
      · exact fun hstored => hkeeps key (h hstored)
  | _ => trivial

/-- Every kind that is stored has an entry. -/
def StoredListed (uid : Uid) (app : App) (remote : Remote) : Prop :=
  ∀ key, key ≠ "" → ((remote uid).get ["activeItems", key]).isEmpty = false → HasEntry app key

theorem StoredListed.apply {uid : Uid} {app : App} {remote : Remote}
    (h : StoredListed uid app remote) {activeKey : Option String}
    (hlisted : ∀ key, activeKey = some key → HasEntry app key) {write : Write}
    (hwrite : WritesKind uid activeKey write) :
    StoredListed uid app (write.apply remote) := by
  obtain ⟨rfl, hpath⟩ := hwrite
  intro key hne hstored
  by_cases hkey : activeKey = some key
  · exact hlisted key hkey
  · refine h key hne ?_
    rw [apply_same, Tree.get_set_of_diverge] at hstored
    · exact hstored
    · rcases hpath with ⟨other, path, _, hpath⟩ | ⟨other, path, _, hother, hpath⟩
      · rw [hpath]
        simp
      · rw [hpath]
        have hdiffer : other ≠ key := by
          intro heq
          exact hkey (heq ▸ hother)
        simp [hdiffer]

/-- What a step keeps of the entries and what they back. -/
structure Backed (uid : Uid) (s : AppSys) : Prop where
  stored : StoredListed uid s.state s.remote
  read : ∀ p ∈ s.pending, LandRead uid p.read
  backs : ∀ p ∈ s.pending, BacksRead s.state p

/-- Code that writes to kinds with an entry and loses no entry. -/
theorem Backed.perform {uid : Uid} {s : AppSys} (h : Backed uid s)
    {rest : List (Pending Read Snapshot)} (hrest : ∀ p ∈ rest, p ∈ s.pending)
    {fx : Effects App Write Read}
    (hkeeps : ∀ key, HasEntry s.state key → HasEntry fx.state key) (activeKey : Option String)
    (hwrites : ∀ write ∈ fx.writes, WritesKind uid activeKey write)
    (hlisted : ∀ key, activeKey = some key → HasEntry fx.state key)
    (hreads : ∀ read ∈ fx.reads, LandRead uid read ∧ BacksRead fx.state ⟨read, none⟩) :
    Backed uid (client.perform s rest fx) := by
  refine ⟨?_, ?_, ?_⟩
  · refine client.applyAll_keeps (StoredListed uid fx.state) ?_ ?_
    · intro write hwrite remote hstored
      exact hstored.apply hlisted (hwrites write hwrite)
    · intro key hne hstored
      exact hkeeps key (h.stored key hne hstored)
  · intro p hp
    rcases List.mem_append.mp hp with hp | hp
    · exact h.read p (hrest p hp)
    · obtain ⟨read, hread, rfl⟩ := List.mem_map.mp hp
      exact (hreads read hread).1
  · intro p hp
    rcases List.mem_append.mp hp with hp | hp
    · exact (h.backs p (hrest p hp)).mono hkeeps
    · obtain ⟨read, hread, rfl⟩ := List.mem_map.mp hp
      exact (hreads read hread).2

/-- An answer shows a stored list, whose kind has an entry. -/
theorem Backed.answered {uid : Uid} {s : AppSys} (h : Backed uid s) {read : Read}
    {before after : List (Pending Read Snapshot)}
    (hpending : s.pending = before ++ ⟨read, none⟩ :: after) (reply : Reply) :
    Backed uid { s with
      pending := before ++ ⟨read, some (read.answer reply s.remote)⟩ :: after } := by
  have hmem : ⟨read, none⟩ ∈ s.pending := by simp [hpending]
  have hread := h.read _ hmem
  have hbacks := h.backs _ hmem
  have hother : ∀ p, p ∈ before ∨ p ∈ after → p ∈ s.pending :=
    fun p hp => Client.mem_pending_of_rest hpending p (List.mem_append.mpr hp)
  refine ⟨h.stored, ?_, ?_⟩
  · intro p hp
    rw [List.mem_append, List.mem_cons] at hp
    rcases hp with hp | rfl | hp
    · exact h.read p (hother p (Or.inl hp))
    · exact hread
    · exact h.read p (hother p (Or.inr hp))
  · intro p hp
    rw [List.mem_append, List.mem_cons] at hp
    rcases hp with hp | rfl | hp
    · exact h.backs p (hother p (Or.inl hp))
    · cases read with
      | removeActive uid key coordinate => exact hbacks
      | placeActive uid' key item coordinate =>
          cases reply with
          | error => trivial
          | value order =>
              obtain ⟨rfl, hkey, _⟩ := hread
              intro hstored
              have hne := storeKeys_ne_empty hkey
              change ((s.remote uid').get (fpath ["activeItems", key])).isEmpty = false at hstored
              rw [fpath_activeItems hne] at hstored
              exact h.stored key hne hstored
      | _ => trivial
    · exact h.backs p (hother p (Or.inr hp))

/-! ## Steps -/

/-- The invariant of a run in which every REMOVE was of a cell that an entry held. -/
structure OnCells (uid : Uid) (log : List AppEntry) (s : AppSys) : Prop where
  cells : Cells uid (placesPending s) (placesFailed log) s.state
  backed : Backed uid s

theorem placesPending_perform (s : AppSys) (rest : List (Pending Read Snapshot))
    (fx : Effects App Write Read) :
    placesPending (client.perform s rest fx) =
      (rest.map Pending.read).filterMap Read.placingAt ++ fx.reads.filterMap Read.placingAt := by
  rw [placesPending, Client.reads_perform, List.filterMap_append]

theorem placesFailed_append (log : List AppEntry) (entry : AppEntry) :
    placesFailed (log ++ [entry]) = placesFailed log ++ (failedPlace entry).toList := by
  unfold placesFailed
  rw [List.filterMap_append]
  cases hfailed : failedPlace entry with
  | none => simp [hfailed]
  | some coordinate => simp [hfailed]

/-- The reads of a tap, on a kind. -/
theorem offParents_of_key {key : String} (hkey : key ≠ "") {active inventory : Read}
    (hactive : active.path = fpath ["activeItems", key])
    (hinventory : inventory.path = fpath ["inventory", key]) (state : App) :
    OffParents ⟨state, [], [active, inventory]⟩ := by
  refine ⟨?_, by simp⟩
  intro read hread
  rcases List.mem_cons.mp hread with rfl | hread
  · rw [hactive, fpath_activeItems hkey]
    simp [IsParent]
  · rw [List.mem_singleton.mp hread, hinventory, fpath_inventory hkey]
    simp [IsParent]

section Steps

variable {uid : Uid} {log : List AppEntry} {s : AppSys}

theorem OnCells.placeTap (h : OnCells uid log s) {key item coordinate : String}
    (henabled : (Tap.place key item coordinate).Enabled s.state)
    {fx : Effects App Write Read}
    (hrun : client.tap (.place key item coordinate) s.state = .ok fx) :
    OnCells uid (log ++ [.tapped (.place key item coordinate) fx])
      (client.perform s s.pending fx) ∧ OffParents fx := by
  obtain ⟨hne, hfree, row, hrow, rfl, rfl⟩ := henabled
  have hsold := h.cells.known.rows row hrow
  have huser := h.cells.known.currentUser
  have htap : Tap.handle (.place row.key row.item coordinate) s.state =
      .ok ⟨{ s.state with
          coordinatesOccupied := s.state.coordinatesOccupied ++ [coordinate]
          inventoryItems := takeFromInventory row.key s.state.inventoryItems }, [],
        [.placeActive uid row.key row.item coordinate, .placeInventory uid row.key]⟩ := by
    simp [Tap.handle, onPlacementCompleted, hne, huser, bind, Except.bind]
  obtain rfl := Except.ok.inj (hrun.symm.trans htap)
  refine ⟨⟨?_, ?_⟩, offParents_of_key (storeKeys_ne_empty hsold.1) rfl rfl _⟩
  · have hrows := forall_takeFromInventory h.cells.known.rows row.key (fun _ hsold _ => hsold)
    have hcells := h.cells.placeTap hne hfree hrows
    rw [placesFailed_append, placesPending_perform]
    have hperm := (List.perm_append_singleton coordinate (placesPending s)).symm
    change Cells uid (placesPending s ++ [coordinate]) (placesFailed log ++ []) _
    rw [List.append_nil]
    exact hcells.perm hperm
  · refine h.backed.perform (fun _ hp => hp) (fun _ hentry => hentry) none ?_ ?_ ?_
    · simp
    · simp
    · intro read hread
      rcases List.mem_cons.mp hread with rfl | hread
      · exact ⟨⟨rfl, hsold⟩, trivial⟩
      · rw [List.mem_singleton.mp hread]
        exact ⟨⟨rfl, hsold.1⟩, trivial⟩

theorem OnCells.removeTap (h : OnCells uid log s) {coordinate : String}
    (henabled : (Tap.remove coordinate).Enabled s.state) {fx : Effects App Write Read}
    (hrun : client.tap (.remove coordinate) s.state = .ok fx) :
    (HoldsCell s.state coordinate → OnCells uid (log ++ [.tapped (.remove coordinate) fx])
      (client.perform s s.pending fx)) ∧ (OffParents fx ↔ HoldsCell s.state coordinate) := by
  have hbutton : coordinate ≠ "" := by
    rintro rfl
    exact h.cells.button henabled
  have huser := h.cells.known.currentUser
  have htap : Tap.handle (.remove coordinate) s.state =
      .ok ⟨{ s.state with
          coordinatesOccupied :=
            removeLast (fun x => x = coordinate) s.state.coordinatesOccupied
          activeItems := dropCoordinate coordinate s.state.activeItems
          inventoryItems := returnToInventory
            (findActiveItemCoordinate s.state.activeItems coordinate) coordinate
            s.state.inventoryItems }, [],
        [.removeActive uid (findActiveItemCoordinate s.state.activeItems coordinate).key
            coordinate,
          .removeInventory uid
            (findActiveItemCoordinate s.state.activeItems coordinate).key]⟩ := by
    simp [Tap.handle, onRemove, hbutton, huser, bind, Except.bind]
  obtain rfl := Except.ok.inj (hrun.symm.trans htap)
  refine ⟨?_, ?_, ?_⟩
  · intro hshown
    have hfound := (find_of_shown hshown).1
    have hsold := h.cells.known.entries _ hfound
    refine ⟨?_, ?_⟩
    · have hrows := forall_returnToInventory h.cells.known.rows _ coordinate
        (fun _ hsold => hsold) hsold
      rw [placesFailed_append, placesPending_perform]
      change Cells uid (placesPending s ++ []) (placesFailed log ++ []) _
      rw [List.append_nil, List.append_nil]
      exact h.cells.removeTap hshown hrows
    · have hkeeps : ∀ key, HasEntry s.state key → ∃ item ∈
          dropCoordinate coordinate s.state.activeItems, item.key = key := by
        intro key hentry
        obtain ⟨item, hitem, hkey⟩ := hentry
        exact ⟨_, List.mem_map_of_mem hitem, hkey⟩
      refine h.backed.perform (fun _ hp => hp) hkeeps none ?_ ?_ ?_
      · simp
      · simp
      · intro read hread
        rcases List.mem_cons.mp hread with rfl | hread
        · exact ⟨⟨rfl, hsold.1⟩, hkeeps _ ⟨_, hfound, rfl⟩⟩
        · rw [List.mem_singleton.mp hread]
          exact ⟨⟨rfl, hsold.1⟩, trivial⟩
  · intro hoff
    rcases findActiveItemCoordinate_cases s.state.activeItems coordinate with
      ⟨hnone, _⟩ | hfound
    · rw [hnone] at hoff
      exact absurd (Or.inl rfl) (hoff.1 _ List.mem_cons_self)
    · exact ⟨_, hfound⟩
  · intro hshown
    have hsold := h.cells.known.entries _ (find_of_shown hshown).1
    exact offParents_of_key (storeKeys_ne_empty hsold.1) rfl rfl _

/-- A callback that places nothing. -/
theorem OnCells.serveOther (h : OnCells uid log s) {read : Read} {snapshot : Snapshot}
    {before after : List (Pending Read Snapshot)}
    (hpending : s.pending = before ++ ⟨read, some snapshot⟩ :: after)
    (hplacing : read.placingAt = none) {fx : Effects App Write Read}
    (hrun : client.callback read snapshot s.state = .ok fx) :
    OnCells uid (log ++ [.served read snapshot fx]) (client.perform s (before ++ after) fx) := by
  have hmem : ⟨read, some snapshot⟩ ∈ s.pending := by simp [hpending]
  obtain ⟨hreads, hsame, hwrites⟩ := landRead_writes (h.backed.read _ hmem) hrun
  have hstate : fx.state = s.state := hsame hplacing
  refine ⟨?_, ?_⟩
  · have hfailed : failedPlace (.served read snapshot fx) = none := by
      cases read with
      | placeActive => cases hplacing
      | _ => rfl
    have hpendingSame : placesPending s =
        ((before ++ after).map Pending.read).filterMap Read.placingAt := by
      simp [placesPending, Sys.reads, hpending, hplacing]
    rw [placesFailed_append, hfailed, placesPending_perform, hreads, ← hpendingSame]
    change Cells uid (placesPending s ++ []) (placesFailed log ++ []) fx.state
    rw [List.append_nil, List.append_nil, hstate]
    exact h.cells
  · refine h.backed.perform (Client.mem_pending_of_rest hpending) ?_ _ hwrites ?_ ?_
    · intro key hentry
      rwa [hstate]
    · intro key hkey
      rw [hstate]
      have hbacks := h.backed.backs _ hmem
      cases read with
      | removeActive uid' key' coordinate =>
          obtain rfl := Option.some.inj hkey
          exact hbacks
      | placeActive => cases hplacing
      | _ => cases hkey
    · simp [hreads]

/-- PLACE's callback on `activeItems`. -/
theorem OnCells.servePlace (h : OnCells uid log s) {key item coordinate : String}
    {snapshot : Snapshot} {before after : List (Pending Read Snapshot)}
    (hpending : s.pending =
      before ++ ⟨.placeActive uid key item coordinate, some snapshot⟩ :: after)
    {fx : Effects App Write Read}
    (hrun : client.callback (.placeActive uid key item coordinate) snapshot s.state = .ok fx) :
    OnCells uid (log ++ [.served (.placeActive uid key item coordinate) snapshot fx])
      (client.perform s (before ++ after) fx) := by
  have hmem : ⟨.placeActive uid key item coordinate, some snapshot⟩ ∈ s.pending := by
    simp [hpending]
  obtain ⟨_, hkey, hitem⟩ := h.backed.read _ hmem
  obtain ⟨_, _, hwrites⟩ := landRead_writes (h.backed.read _ hmem) hrun
  have hrest := Client.mem_pending_of_rest hpending
  have hperm : (placesPending s).Perm
      (coordinate :: ((before ++ after).map Pending.read).filterMap Read.placingAt) := by
    simp only [placesPending, Sys.reads, hpending, List.map_append, List.map_cons,
      List.filterMap_append, List.filterMap_cons, Read.placingAt]
    exact List.perm_middle
  have hcells := h.cells.perm hperm
  cases snapshot with
  | error =>
      change placeActiveRead uid key item coordinate .error s.state = .ok fx at hrun
      obtain rfl := Except.ok.inj hrun
      refine ⟨?_, ?_⟩
      · rw [placesFailed_append, placesPending_perform]
        change Cells uid (_ ++ []) (placesFailed log ++ [coordinate]) s.state
        rw [List.append_nil]
        exact hcells.missed
      · exact h.backed.perform hrest (fun _ hentry => hentry) none (by simp) (by simp) (by simp)
  | value node order =>
      change placeActiveRead uid key item coordinate (.value node order) s.state = .ok fx at hrun
      obtain ⟨placed, index, hplaced, rfl⟩ := placeActiveRead_value hrun
      have hexists : placed ≠ [] → HasEntry s.state key :=
        fun hne => h.backed.backs _ hmem (hplaced hne)
      have hkeeps : ∀ other, HasEntry s.state other → ∃ entry ∈
          placeLocal key item coordinate placed s.state.activeItems, entry.key = other :=
        fun other hentry => key_mem_placeLocal hentry key item coordinate placed
      refine ⟨?_, ?_⟩
      · rw [placesFailed_append, placesPending_perform]
        change Cells uid (_ ++ []) (placesFailed log ++ []) _
        rw [List.append_nil, List.append_nil]
        exact hcells.landed hkey hitem hexists
      · refine h.backed.perform hrest hkeeps (some key) hwrites ?_ (by simp)
        intro other hother
        obtain rfl := Option.some.inj hother
        obtain ⟨entry, hentry, hentryKey, _⟩ :=
          (mem_placeLocal item coordinate hexists key coordinate).mpr (Or.inr ⟨rfl, rfl⟩)
        exact ⟨entry, hentry, hentryKey⟩

theorem removesShown_answer (i : Nat) (reply : Reply) :
    RemovesShown s (.answer i reply) := by
  intro coordinate he
  cases he

theorem removesShown_serve (i : Nat) : RemovesShown s (.serve i) := by
  intro coordinate he
  cases he

theorem OnCells.step (h : OnCells uid log s) {e : AppEvent} {o : Option AppEntry} {s' : AppSys}
    (htaps : LandTaps s e) (hmove : client.Step s e o s') :
    (RemovesShown s e → OnCells uid (log ++ o.toList) s') ∧
      ((∀ entry ∈ o.toList, OffParents entry.effects) ↔ RemovesShown s e) := by
  cases hmove with
  | @tap tap fx hrun =>
      cases tap with
      | place key item coordinate =>
          have hplace := h.placeTap htaps hrun
          have hshown : RemovesShown s (.tap (.place key item coordinate)) := by
            intro other he
            cases he
          refine ⟨fun _ => hplace.1, ?_⟩
          simpa [Entry.effects, hshown] using hplace.2
      | remove coordinate =>
          have hremove := h.removeTap htaps hrun
          have hiff : RemovesShown s (.tap (.remove coordinate)) ↔
              HoldsCell s.state coordinate := by
            simp [RemovesShown, HoldsCell]
          rw [hiff]
          refine ⟨hremove.1, ?_⟩
          simpa [Entry.effects] using hremove.2
      | _ => exact htaps.elim
  | @answer read before after hpending reply =>
      have hbacked := h.backed.answered hpending reply
      refine ⟨fun _ => ⟨?_, hbacked⟩, ?_⟩
      · have hcells := h.cells
        simpa [placesPending, Sys.reads, hpending] using hcells
      · simpa using removesShown_answer before.length reply
  | @serve read snapshot before after hpending fx hrun =>
      have hmem : ⟨read, some snapshot⟩ ∈ s.pending := by simp [hpending]
      have hread := h.backed.read _ hmem
      have hoff : OffParents fx := by
        obtain ⟨hreads, _, hwrites⟩ := landRead_writes hread hrun
        refine ⟨by simp [hreads], ?_⟩
        intro write hwrite
        exact (hwrites write hwrite).not_isParent
      refine ⟨fun _ => ?_, ?_⟩
      · cases read with
        | placeActive uid' key item coordinate =>
            obtain rfl : uid' = uid := hread.1
            exact h.servePlace hpending hrun
        | _ => exact h.serveOther hpending rfl hrun
      · have hshown := removesShown_serve (s := s) before.length
        simpa [Entry.effects, hshown] using hoff
  | idleAnswer hidle reply =>
      refine ⟨fun _ => ?_, ?_⟩
      · simpa using h
      · simpa using removesShown_answer _ reply
  | idleServe hidle =>
      refine ⟨fun _ => ?_, ?_⟩
      · simpa using h
      · simpa using removesShown_serve _

/-- An occupied cell is held by an entry once its PLACE is neither pending nor failed, so the
two conditions on REMOVE agree. -/
theorem OnCells.settled_iff_shown (h : OnCells uid log s) {e : AppEvent}
    (htaps : LandTaps s e) : RemovesSettled log s e ↔ RemovesShown s e := by
  cases e with
  | tap tap =>
      cases tap with
      | remove coordinate =>
          have hoccupied : coordinate ∈ s.state.coordinatesOccupied := htaps
          have hiff : RemovesShown s (.tap (.remove coordinate)) ↔
              HoldsCell s.state coordinate := by
            simp [RemovesShown, HoldsCell]
          rw [hiff, RemovesSettled, ← h.cells.resolves_iff hoccupied]
          constructor
          · intro hresolves
            exact ⟨_, hresolves.1, hresolves.2.1⟩
          · intro hheld
            have hfound := find_of_shown hheld
            have hsold := h.cells.known.entries _ hfound.1
            exact ⟨hfound.1, hfound.2, storeKeys_ne_empty hsold.1⟩
      | place key item coordinate => simp [RemovesSettled, RemovesShown]
      | _ => exact htaps.elim
  | answer i reply => simp [RemovesSettled, RemovesShown]
  | serve i => simp [RemovesSettled, RemovesShown]

end Steps

/-! ## Runs -/

/-- After a sign-in every occupied cell is held by an entry of its kind. -/
theorem onCells_signedIn {uid : Uid} {remote : Remote} {record : UserRecord} {app : App}
    (hholds : Holds (remote uid) record) (hwf : record.WellFormed)
    (hsigned : SignedIn uid (remote uid) app) : OnCells uid [] ⟨remote, app, []⟩ := by
  have hplay := hsigned.inPlay hholds hwf
  have hland := hplay.showsLand
  refine ⟨⟨⟨hsigned.currentUser, hplay.showsInventory.known, hland.known⟩, hland.nodup, ?_,
    hland.occupiedNodup, ?_, ?_, List.nodup_nil⟩, ?_, ?_, ?_⟩
  · intro hempty
    obtain ⟨key, hmem⟩ := (hland.occupied "").mp hempty
    exact hwf.button key hmem
  · intro x
    rw [hland.occupied]
    constructor
    · intro hstored
      obtain ⟨key, hmem⟩ := hstored
      obtain ⟨item, hitem, _, hx⟩ := (hland.placed key x).mp hmem
      exact Or.inr ⟨item, hitem, hx⟩
    · intro hor
      rcases hor with hnone | ⟨item, hitem, hx⟩
      · cases hnone
      · exact ⟨item.key, (hland.placed item.key x).mpr ⟨item, hitem, rfl, hx⟩⟩
  · intro x hx
    cases hx
  · intro key hne hstored
    have hlist := hholds.get_active hne
    rw [fpath_activeItems hne] at hlist
    have hsome : record.land key ≠ [] := by
      intro hnil
      rw [hnil] at hlist
      rw [Tree.isEmpty_eq_false_iff] at hstored
      exact hstored (isList_nil_iff.mp hlist)
    obtain ⟨x, hx⟩ := List.exists_mem_of_ne_nil _ hsome
    obtain ⟨item, hitem, hkey, _⟩ := (hland.placed key x).mp hx
    exact ⟨item, hitem, hkey⟩
  · intro p hp
    cases hp
  · intro p hp
    cases hp

/-- No code reads or writes a parent node exactly when REMOVE is tapped only for cells that
some entry holds, and in such a run an occupied cell resolves exactly when its PLACE is
neither pending nor failed. -/
theorem occupied_resolves_of_shown {uid : Uid} {remote : Remote} {record : UserRecord}
    {app : App} (hholds : Holds (remote uid) record) (hwf : record.WellFormed)
    (hsigned : SignedIn uid (remote uid) app) {es : List AppEvent}
    (htaps : client.Along LandTaps ⟨remote, app, []⟩ es) {s' : AppSys}
    (hrun : client.run ⟨remote, app, []⟩ es = .ok s') :
    ((∀ entry ∈ client.trace ⟨remote, app, []⟩ es, OffParents entry.effects) ↔
      client.Along RemovesShown ⟨remote, app, []⟩ es) ∧
    (client.Along RemovesShown ⟨remote, app, []⟩ es →
      (∀ coordinate ∈ s'.state.coordinatesOccupied, Resolves s'.state coordinate ↔
        coordinate ∉ placesPending s' ∧
          coordinate ∉ placesFailed (client.trace ⟨remote, app, []⟩ es)) ∧
      ∀ row ∈ s'.state.inventoryItems, row.key ≠ "") := by
  obtain ⟨hend, hoff⟩ := client.run_rule_iff (C := LandTaps) (D := RemovesShown)
    (fun log s => (∀ entry ∈ log, OffParents entry.effects) → OnCells uid log s)
    (fun log => ∀ entry ∈ log, OffParents entry.effects)
    (fun log s e o s' hinv htaps hmove => by
      have hstep := fun hlog => (hinv hlog).step htaps hmove
      rw [List.forall_mem_append]
      refine ⟨?_, ?_⟩
      · intro hlog
        exact (hstep hlog.1).1 ((hstep hlog.1).2.mp hlog.2)
      · refine and_congr_right ?_
        intro hlog
        exact (hstep hlog).2)
    es [] _ s' (fun _ => onCells_signedIn hholds hwf hsigned) htaps hrun
  simp only [List.nil_append, List.not_mem_nil, false_imp_iff, implies_true, true_and] at hend hoff
  refine ⟨hoff, ?_⟩
  intro hremoves
  have hcells := (hend (hoff.mpr hremoves)).cells
  refine ⟨fun coordinate hoccupied => hcells.resolves_iff hoccupied, ?_⟩
  intro row hrow
  exact storeKeys_ne_empty (hcells.known.rows row hrow).1

/-- **Which occupied cells resolve.**  In every run of PLACE and REMOVE, whatever
the order of the callbacks and whichever reads fail, no code reads or writes a
parent node exactly when REMOVE is tapped only for cells whose PLACE is neither
pending nor failed.  In such a run an occupied cell resolves exactly when its own
PLACE is neither pending nor failed, and no row of the inventory is nameless. -/
theorem occupied_resolves_iff {uid : Uid} {remote : Remote} {record : UserRecord} {app : App}
    (hholds : Holds (remote uid) record) (hwf : record.WellFormed)
    (hsigned : SignedIn uid (remote uid) app) {es : List AppEvent}
    (htaps : client.Along LandTaps ⟨remote, app, []⟩ es) {s' : AppSys}
    (hrun : client.run ⟨remote, app, []⟩ es = .ok s') :
    ((∀ entry ∈ client.trace ⟨remote, app, []⟩ es, OffParents entry.effects) ↔
      client.AlongTrace RemovesSettled [] ⟨remote, app, []⟩ es) ∧
    (client.AlongTrace RemovesSettled [] ⟨remote, app, []⟩ es →
      (∀ coordinate ∈ s'.state.coordinatesOccupied, Resolves s'.state coordinate ↔
        coordinate ∉ placesPending s' ∧
          coordinate ∉ placesFailed (client.trace ⟨remote, app, []⟩ es)) ∧
      ∀ row ∈ s'.state.inventoryItems, row.key ≠ "") := by
  have hsettled : client.AlongTrace RemovesSettled [] ⟨remote, app, []⟩ es ↔
      client.Along RemovesShown ⟨remote, app, []⟩ es := by
    refine client.alongTrace_iff (C := LandTaps) (OnCells uid) ?_ ?_ es [] _
      (onCells_signedIn hholds hwf hsigned) htaps
    · intro log s e h htaps
      exact h.settled_iff_shown htaps
    · intro log s e o s' h htaps hshown hmove
      exact (h.step htaps hmove).1 hshown
  rw [hsettled]
  exact occupied_resolves_of_shown hholds hwf hsigned htaps hrun

/-- A tree is removed and placed on the next cell while the reads of the removal are still
pending; every read succeeds. -/
def moveTreeOverlapping : List AppEvent :=
  [ .tap (.remove "(0,0)"), .tap (.place "tree" "Tree" "(0,1)"), .answer 0 (.value []),
    .serve 0, .answer 1 (.value []), .serve 1, .answer 0 (.value []), .serve 0,
    .answer 0 (.value []), .serve 0 ]

/-- When its callbacks have run, every occupied cell of the moved tree resolves. -/
theorem occupied_resolves_iff_tree :
    ∃ s', client.run ⟨plantedTree, plantedTreeApp "ann" treeShelf, []⟩ moveTreeOverlapping =
        .ok s' ∧
      (∀ entry ∈ client.trace ⟨plantedTree, plantedTreeApp "ann" treeShelf, []⟩
        moveTreeOverlapping, OffParents entry.effects) ∧
      ∀ coordinate ∈ s'.state.coordinatesOccupied, Resolves s'.state coordinate := by
  obtain ⟨s', hrun, hpending⟩ : ∃ s',
      client.run ⟨plantedTree, plantedTreeApp "ann" treeShelf, []⟩ moveTreeOverlapping =
          .ok s' ∧
        placesPending s' = [] :=
    client.exists_run_of_check (by decide +kernel)
  have hfailed : placesFailed (client.trace
      ⟨plantedTree, plantedTreeApp "ann" treeShelf, []⟩ moveTreeOverlapping) = [] := by
    decide +kernel
  have hremoves : client.AlongTrace RemovesSettled []
      ⟨plantedTree, plantedTreeApp "ann" treeShelf, []⟩ moveTreeOverlapping := by
    decide +kernel
  have hcells := occupied_resolves_iff (plantedTree_holds "ann") plantedTree_wellFormed
    (plantedTree_signedIn "ann" treeShelf) (by decide +kernel) hrun
  refine ⟨s', hrun, hcells.1.mpr hremoves, fun coordinate hoccupied => ?_⟩
  refine ((hcells.2 hremoves).1 coordinate hoccupied).mpr ⟨?_, ?_⟩
  · rw [hpending]
    exact List.not_mem_nil
  · rw [hfailed]
    exact List.not_mem_nil

/-- A tree is moved, and the read of the land for its new cell fails. -/
def moveTreeOffline : List AppEvent :=
  [ .tap (.remove "(0,0)"), .answer 0 (.value []), .answer 1 (.value []), .serve 0, .serve 0,
    .tap (.place "tree" "Tree" "(0,1)"), .answer 0 .error, .answer 1 (.value []), .serve 0,
    .serve 0 ]

/-- When all callbacks have run the new cell is occupied, but no entry holds it. -/
theorem not_occupied_resolves :
    ¬ ∀ (uid : Uid) (remote : Remote) (record : UserRecord) (app : App)
        (es : List AppEvent) (s' : AppSys), Holds (remote uid) record → record.WellFormed →
        SignedIn uid (remote uid) app → client.Along LandTaps ⟨remote, app, []⟩ es →
        client.run ⟨remote, app, []⟩ es = .ok s' → s'.pending = [] →
        ∀ coordinate ∈ s'.state.coordinatesOccupied, Resolves s'.state coordinate := by
  intro hclaim
  obtain ⟨s', hrun, hidle, hoccupied, hempty⟩ :
      ∃ s', client.run ⟨plantedTree, plantedTreeApp "ann" treeShelf, []⟩ moveTreeOffline =
          .ok s' ∧
        s'.pending = [] ∧ "(0,1)" ∈ s'.state.coordinatesOccupied ∧
        (findActiveItemCoordinate s'.state.activeItems "(0,1)").key = "" :=
    client.exists_run_of_check (by decide +kernel)
  have hresolves := hclaim "ann" _ _ _ _ s' (plantedTree_holds "ann") plantedTree_wellFormed
    (plantedTree_signedIn "ann" treeShelf) (by decide +kernel) hrun hidle _ hoccupied
  exact hresolves.2.2 hempty

end WillItRecycle

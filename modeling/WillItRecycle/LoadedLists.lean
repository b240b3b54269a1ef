import WillItRecycle.LandList

/-!
# Lists with one item for each key

A load leaves at most one item for each key, a function of what is stored under
the key.  `OneEach entry items` says so without fixing an order, and the loops
of BUY and PLACE lead from the list of one such function to that of another:
the rows and entries they leave are those a load of the new record would give.
-/

namespace WillItRecycle

open PathTree ReadCallback LastMatch

/-- The items are those of `entry`, one for each key that has one. -/
structure OneEach (entry : String → Option GameItem) (items : List GameItem) : Prop where
  nodup : (items.map GameItem.key).Nodup
  mem : ∀ item, item ∈ items ↔ entry item.key = some item

namespace OneEach

variable {entry entry' : String → Option GameItem} {items items' : List GameItem}

theorem perm (h : OneEach entry items) (h' : OneEach entry items') : items.Perm items' := by
  rw [List.perm_ext_iff_of_nodup h.nodup.of_map h'.nodup.of_map]
  intro item
  rw [h.mem, h'.mem]

theorem of_perm (h : OneEach entry items) (hperm : items'.Perm items) :
    OneEach entry items' := by
  refine ⟨(hperm.map GameItem.key).nodup_iff.mpr h.nodup, ?_⟩
  intro item
  rw [hperm.mem_iff, h.mem]

theorem empty (h : ∀ key, entry key = none) : OneEach entry [] := by
  refine ⟨List.nodup_nil, ?_⟩
  intro item
  rw [h]
  simp

/-- An item of a key that had none is appended. -/
theorem append (h : OneEach entry items) {item : GameItem} (hnone : entry item.key = none)
    (hentry : ∀ key, entry' key = if key = item.key then some item else entry key) :
    OneEach entry' (items ++ [item]) := by
  have hnew : ∀ old ∈ items, old.key ≠ item.key := by
    intro old hold hkey
    have hsome := (h.mem old).mp hold
    rw [hkey, hnone] at hsome
    cases hsome
  refine ⟨nodup_keys_append h.nodup hnew, ?_⟩
  intro other
  rw [List.mem_append, List.mem_singleton, hentry]
  by_cases hkey : other.key = item.key
  · rw [if_pos hkey, Option.some.injEq]
    constructor
    · intro hor
      rcases hor with hmem | heq
      · exact absurd hkey (hnew other hmem)
      · exact heq.symm
    · intro heq
      exact Or.inr heq.symm
  · rw [if_neg hkey, ← h.mem]
    constructor
    · intro hor
      rcases hor with hmem | heq
      · exact hmem
      · exact absurd (congrArg GameItem.key heq) hkey
    · intro hmem
      exact Or.inl hmem

/-- A loop that keeps the keys. -/
theorem map (h : OneEach entry items) {change : GameItem → GameItem}
    (hkeep : ∀ item, (change item).key = item.key)
    (hentry : ∀ key, entry' key = (entry key).map change) :
    OneEach entry' (items.map change) := by
  refine ⟨?_, ?_⟩
  · rw [keys_map hkeep]
    exact h.nodup
  · intro item
    rw [List.mem_map, hentry, Option.map_eq_some_iff]
    constructor
    · intro hsome
      obtain ⟨old, hold, rfl⟩ := hsome
      rw [hkeep]
      exact ⟨old, (h.mem old).mp hold, rfl⟩
    · intro hsome
      obtain ⟨old, hold, rfl⟩ := hsome
      rw [hkeep] at hold
      exact ⟨old, (h.mem old).mpr hold, rfl⟩

/-- The item of a key goes. -/
theorem erase {before after : List GameItem} {item : GameItem}
    (h : OneEach entry (before ++ item :: after))
    (hentry : ∀ key, entry' key = if key = item.key then none else entry key) :
    OneEach entry' (before ++ after) := by
  have hnodup := h.nodup
  rw [List.map_append, List.map_cons, List.nodup_middle, ← List.map_append,
    List.nodup_cons] at hnodup
  refine ⟨hnodup.2, ?_⟩
  intro other
  have hmem := h.mem other
  rw [List.mem_append, List.mem_cons] at hmem
  rw [List.mem_append, hentry]
  by_cases hkey : other.key = item.key
  · rw [if_pos hkey]
    constructor
    · intro hother
      have hin := List.mem_map_of_mem (f := GameItem.key) (List.mem_append.mpr hother)
      rw [hkey] at hin
      exact absurd hin hnodup.1
    · intro hnone
      cases hnone
  · rw [if_neg hkey, ← hmem]
    constructor
    · intro hor
      rcases hor with hother | hother
      · exact Or.inl hother
      · exact Or.inr (Or.inr hother)
    · intro hor
      rcases hor with hother | heq | hother
      · exact Or.inl hother
      · exact absurd (congrArg GameItem.key heq) hkey
      · exact Or.inr hother

end OneEach

/-! ## The rows of the inventory -/

/-- The row a load makes of a count. -/
def rowOf (count : String → Nat) (key : String) : Option GameItem :=
  if count key = 0 then none else some ⟨key, itemName key, count key, []⟩

theorem inventoryRows_oneEach {record : UserRecord}
    (hkeys : ∀ key, record.inventory key ≠ 0 → key ∈ storeKeys) :
    OneEach (rowOf record.inventory) (inventoryRows record) := by
  refine ⟨nodup_keys_inventoryRows record, ?_⟩
  intro row
  rw [mem_inventoryRows]
  unfold rowOf
  by_cases hzero : record.inventory row.key = 0
  · rw [if_pos hzero]
    constructor
    · intro hrow
      exact absurd hzero hrow.2.1
    · intro hnone
      cases hnone
  · rw [if_neg hzero, Option.some.injEq]
    constructor
    · intro hrow
      exact hrow.2.2.symm
    · intro hrow
      exact ⟨hkeys row.key hzero, hzero, hrow.symm⟩

/-- BUY's loop leaves the rows of the counts with one unit more. -/
theorem OneEach.deliver {count count' : String → Nat} {rows : List GameItem}
    (h : OneEach (rowOf count) rows) {storeItem : StoreItem}
    (hitem : storeItem.item = itemName storeItem.key)
    (hcount : ∀ other, count' other = count other + if other = storeItem.key then 1 else 0) :
    OneEach (rowOf count') (deliver storeItem (count storeItem.key) rows) := by
  unfold WillItRecycle.deliver
  by_cases hzero : count storeItem.key = 0
  · rw [if_pos hzero]
    refine h.append ?_ (fun key => ?_)
    · unfold rowOf
      rw [if_pos hzero]
    · unfold rowOf
      rw [hcount]
      by_cases hkey : key = storeItem.key
      · subst hkey
        rw [if_pos rfl, hzero, hitem]
        exact (if_pos rfl).symm
      · rw [if_neg hkey, if_neg hkey]
        rfl
  · rw [if_neg hzero]
    unfold incrementInventory
    refine h.map (increment_key storeItem.key) (fun key => ?_)
    unfold rowOf
    rw [hcount]
    by_cases hkey : key = storeItem.key
    · subst hkey
      rw [if_pos rfl, if_neg hzero, if_neg (Nat.succ_ne_zero _), Option.map_some,
        if_pos rfl]
      rfl
    · rw [if_neg hkey, Nat.add_zero]
      split
      · rfl
      · rw [Option.map_some, if_neg hkey]

/-- PLACE's loop leaves the rows of the counts with one unit less. -/
theorem OneEach.take {count count' : String → Nat} {rows : List GameItem}
    (h : OneEach (rowOf count) rows) {key : String}
    (hcount : ∀ other, count' other = count other - if other = key then 1 else 0) :
    OneEach (rowOf count') (takeFromInventory key rows) := by
  rcases takeFromInventory_cases key h.nodup with
    ⟨htake, hmore⟩ | ⟨before, row, after, hsplit, hkey, hone, htake⟩
  · rw [htake]
    refine h.map (decrement_key key) (fun other => ?_)
    unfold rowOf
    rw [hcount]
    by_cases hother : other = key
    · subst hother
      rw [if_pos rfl]
      by_cases hzero : count other = 0
      · rw [if_pos hzero, hzero]
        rfl
      · have hrow : (⟨other, itemName other, count other, []⟩ : GameItem) ∈ rows := by
          rw [h.mem]
          unfold rowOf
          rw [if_neg hzero]
        have hne := hmore _ hrow rfl
        have hpred : count other - 1 ≠ 0 := by
          intro hpred
          have hone : count other = 1 := by omega
          exact hne (by change (count other : Int) = 1; omega)
        have hcast : ((count other - 1 : Nat) : Int) = (count other : Int) - 1 := by omega
        rw [if_neg hzero, if_neg hpred, Option.map_some, if_pos rfl, hcast]
        rfl
    · rw [if_neg hother, Nat.sub_zero]
      split
      · rfl
      · rw [Option.map_some, if_neg hother]
  · rw [htake]
    rw [hsplit] at h
    have hrow := (h.mem row).mp (by simp)
    unfold rowOf at hrow
    split at hrow
    · cases hrow
    · next hzero =>
        have hcountOne : count row.key = 1 := by
          have hfield := congrArg GameItem.count (Option.some.inj hrow)
          change (count row.key : Int) = row.count at hfield
          omega
        refine h.erase (fun other => ?_)
        unfold rowOf
        rw [hcount]
        by_cases hother : other = row.key
        · rw [if_pos hother, hother, hcountOne, if_pos hkey]
          rfl
        · have hne : ¬ other = key := fun heq => hother (heq.trans hkey.symm)
          rw [if_neg hother, if_neg hne, Nat.sub_zero]

/-! ## The entries of the land -/

/-- The entry a load makes of a list. -/
def entryOf (land : String → List String) (key : String) : Option GameItem :=
  if land key = [] then none else some ⟨key, itemName key, (land key).length, land key⟩

theorem landRows_oneEach {record : UserRecord}
    (hkeys : ∀ key, record.land key ≠ [] → key ∈ storeKeys) :
    OneEach (entryOf record.land) (landRows record) := by
  refine ⟨nodup_keys_landRows record, ?_⟩
  intro item
  rw [mem_landRows]
  unfold entryOf
  by_cases hnil : record.land item.key = []
  · rw [if_pos hnil]
    constructor
    · intro hitem
      exact absurd hnil hitem.2.1
    · intro hnone
      cases hnone
  · rw [if_neg hnil, Option.some.injEq]
    constructor
    · intro hitem
      exact hitem.2.2.symm
    · intro hitem
      exact ⟨hkeys item.key hnil, hnil, hitem.symm⟩

/-- PLACE's callback leaves the entries of the lists with one coordinate more. -/
theorem OneEach.place {land land' : String → List String} {entries : List GameItem}
    (h : OneEach (entryOf land) entries) {key item coordinate : String}
    (hitem : item = itemName key)
    (hland : ∀ other, land' other =
      if other = key then land key ++ [coordinate] else land other) :
    OneEach (entryOf land') (placeLocal key item coordinate (land key) entries) := by
  unfold placeLocal
  by_cases hnil : land key = []
  · rw [if_pos hnil]
    refine h.append ?_ (fun other => ?_)
    · unfold entryOf
      rw [if_pos hnil]
    · unfold entryOf
      rw [hland]
      by_cases hother : other = key
      · subst hother
        rw [if_pos rfl, hnil, hitem, if_neg (by simp)]
        exact (if_pos rfl).symm
      · rw [if_neg hother, if_neg hother]
  · rw [if_neg hnil]
    unfold placeAgain
    refine h.map (placeAgain_key key coordinate) (fun other => ?_)
    unfold entryOf
    rw [hland]
    by_cases hother : other = key
    · subst hother
      have hsome : land other ++ [coordinate] ≠ [] := by simp
      rw [if_pos rfl, if_neg hnil, if_neg hsome, Option.map_some, if_pos rfl,
        List.length_append, List.length_singleton, Int.natCast_add]
      rfl
    · rw [if_neg hother]
      split
      · rfl
      · rw [Option.map_some, if_neg hother]

/-! ## The occupied coordinates -/

/-- The coordinates of a land, kind by kind. -/
def landCoordinates (land : String → List String) : List String := storeKeys.flatMap land

theorem flatMap_landRows (record : UserRecord) :
    (landRows record).flatMap GameItem.coordinates = landCoordinates record.land := by
  unfold landRows landCoordinates
  induction storeKeys with
  | nil => rfl
  | cons key keys ih =>
      rw [List.flatMap_cons, List.filter_cons]
      by_cases hnil : record.land key = []
      · rw [if_neg (by simp [hnil]), ih, hnil, List.nil_append]
      · rw [if_pos (by simp [hnil]), List.map_cons, List.flatMap_cons, ih]

/-- A coordinate more under a key of the store. -/
theorem landCoordinates_place {land land' : String → List String} {key : String}
    (hkey : key ∈ storeKeys) {coordinate : String}
    (hland : ∀ other, land' other =
      if other = key then land key ++ [coordinate] else land other) :
    (landCoordinates land').Perm (landCoordinates land ++ [coordinate]) := by
  obtain ⟨before, after, hsplit⟩ := List.append_of_mem hkey
  have hnodup := storeKeys_nodup
  rw [hsplit, List.nodup_middle, List.nodup_cons] at hnodup
  have hsame : ∀ keys : List String, key ∉ keys →
      keys.flatMap land' = keys.flatMap land := by
    intro keys hkeys
    apply List.flatMap_congr
    intro other hother
    rw [hland, if_neg]
    intro heq
    exact hkeys (heq ▸ hother)
  have hbefore := hsame before (fun h => hnodup.1 (List.mem_append_left _ h))
  have hafter := hsame after (fun h => hnodup.1 (List.mem_append_right _ h))
  unfold landCoordinates
  rw [hsplit, List.flatMap_append, List.flatMap_append, List.flatMap_cons,
    List.flatMap_cons, hbefore, hafter, hland, if_pos rfl, List.append_assoc,
    List.append_assoc, List.append_assoc]
  exact (List.perm_append_comm.append_left _).append_left _

end WillItRecycle

import WillItRecycle.SignInLoad

/-!
# The representation of the local land list

One entry for each kind, without empty entries and with exact counts: that is
what the load builds and what PLACE keeps.  REMOVE takes the coordinate out of
the entry and leaves the rest as it is, so that the count of the entry is one
too high from then on, and no later operation corrects it.

`serial_play_represents_iff` makes this exact: at the end of a serial run the
representation is right if and only if nothing was removed.
-/

namespace WillItRecycle

open PathTree ReadCallback LastMatch

/-- The representation invariant of the local land list. -/
structure RepresentsLand (activeItems : List GameItem)
    (coordinatesOccupied : List String) : Prop where
  keys : (activeItems.map GameItem.key).Nodup
  nonempty : ∀ item ∈ activeItems, item.coordinates ≠ []
  count : ∀ item ∈ activeItems, item.count = item.coordinates.length
  once : (activeItems.flatMap GameItem.coordinates).Nodup
  occupied : coordinatesOccupied.Perm (activeItems.flatMap GameItem.coordinates)

def Tap.IsRemove : Tap → Prop
  | .remove _ => True
  | _ => False

instance (tap : Tap) : Decidable tap.IsRemove :=
  match tap with
  | .remove _ => isTrue trivial
  | .buy _ | .place _ _ _ | .cellForRow _ _ | .claim _ | .redeem _ _ _ | .signIn _ _
  | .signOut => isFalse id

/-! ## Loading -/

theorem representsLand_of_load {uid : Uid} {node : FNode} {record : UserRecord}
    {app : App} (hsigned : SignedIn uid node app) (hholds : Holds node record)
    (hwf : record.WellFormed) :
    RepresentsLand app.activeItems app.coordinatesOccupied := by
  have hperm := hsigned.perm_landRows hholds hwf
  have hmem : ∀ item ∈ app.activeItems, record.land item.key ≠ [] ∧
      item = ⟨item.key, itemName item.key, (record.land item.key).length,
        record.land item.key⟩ := by
    intro item hitem
    exact (mem_landRows.mp (hperm.subset hitem)).2
  refine ⟨?_, ?_, ?_, ?_, ?_⟩
  · exact (hperm.map GameItem.key).nodup_iff.mpr (nodup_keys_landRows record)
  · intro item hitem
    obtain ⟨hne, heq⟩ := hmem item hitem
    rw [heq]
    exact hne
  · intro item hitem
    obtain ⟨_, heq⟩ := hmem item hitem
    rw [heq]
  · exact (hperm.flatMap_right _).nodup_iff.mpr (nodup_coordinates_landRows hwf)
  · rw [hsigned.coordinatesOccupied]

/-! ## One operation -/

theorem placeAgain_key (key coordinate : String) (item : GameItem) :
    (if item.key = key then
      { item.incrementCount with coordinates := item.coordinates ++ [coordinate] }
    else item).key = item.key := by
  split <;> rfl

/-- The entry of a key, when there is one only. -/
theorem split_of_key {activeItems : List GameItem}
    (hkeys : (activeItems.map GameItem.key).Nodup) {key : String}
    (hsome : ∃ item ∈ activeItems, item.key = key) :
    ∃ before item after, activeItems = before ++ item :: after ∧ item.key = key ∧
      ∀ other ∈ before ++ after, other.key ≠ key := by
  obtain ⟨item, hitem, rfl⟩ := hsome
  obtain ⟨before, after, hsplit⟩ := List.append_of_mem hitem
  refine ⟨before, item, after, hsplit, rfl, ?_⟩
  intro other hother heq
  rw [hsplit, List.map_append, List.map_cons, List.nodup_middle, ← List.map_append,
    List.nodup_cons] at hkeys
  exact hkeys.1 (heq ▸ List.mem_map_of_mem hother)

theorem placeAgain_of_ne {key : String} (coordinate : String)
    {activeItems : List GameItem} (h : ∀ item ∈ activeItems, item.key ≠ key) :
    placeAgain key coordinate activeItems = activeItems := by
  unfold placeAgain
  rw [List.map_congr_left (g := id), List.map_id]
  intro item hitem
  exact if_neg (h item hitem)

/-- With one entry of the key, PLACE extends that one. -/
theorem placeAgain_split {key : String} (coordinate : String)
    {before after : List GameItem} {item : GameItem} (hkey : item.key = key)
    (hother : ∀ other ∈ before ++ after, other.key ≠ key) :
    placeAgain key coordinate (before ++ item :: after) =
      before ++ { item.incrementCount with
        coordinates := item.coordinates ++ [coordinate] } :: after := by
  have hbefore := placeAgain_of_ne coordinate
    (fun other h => hother other (List.mem_append_left after h))
  have hafter := placeAgain_of_ne coordinate
    (fun other h => hother other (List.mem_append_right before h))
  unfold placeAgain at hbefore hafter ⊢
  rw [List.map_append, List.map_cons, hbefore, hafter, if_pos hkey]

theorem flatMap_extended (before after : List GameItem) (item : GameItem)
    (coordinate : String) :
    ((before ++ { item.incrementCount with
        coordinates := item.coordinates ++ [coordinate] } :: after).flatMap
      GameItem.coordinates).Perm
      ((before ++ item :: after).flatMap GameItem.coordinates ++ [coordinate]) := by
  rw [List.flatMap_append, List.flatMap_append, List.flatMap_cons, List.flatMap_cons,
    List.append_assoc, List.append_assoc, List.append_assoc]
  exact ((List.perm_append_comm.append_left _).append_left _)

/-- Placing the first item of a kind appends an entry. -/
theorem represents_append_iff {activeItems : List GameItem}
    {coordinatesOccupied : List String} {key item coordinate : String}
    (hnew : ∀ entry ∈ activeItems, entry.key = key → entry.coordinates = [])
    (hfree : ∀ entry ∈ activeItems, coordinate ∉ entry.coordinates) :
    RepresentsLand (activeItems ++ [⟨key, item, 1, [coordinate]⟩])
        (coordinatesOccupied ++ [coordinate]) ↔
      RepresentsLand activeItems coordinatesOccupied := by
  have hflat : (activeItems ++ [(⟨key, item, 1, [coordinate]⟩ : GameItem)]).flatMap
      GameItem.coordinates = activeItems.flatMap GameItem.coordinates ++ [coordinate] := by
    rw [List.flatMap_append]
    rfl
  constructor
  · intro h
    refine ⟨?_, ?_, ?_, ?_, ?_⟩
    · have hkeys := h.keys
      rw [List.map_append] at hkeys
      exact (List.nodup_append.mp hkeys).1
    · intro entry hentry
      exact h.nonempty entry (List.mem_append_left _ hentry)
    · intro entry hentry
      exact h.count entry (List.mem_append_left _ hentry)
    · have honce := h.once
      rw [hflat] at honce
      exact (List.nodup_append.mp honce).1
    · have hoccupied := h.occupied
      rw [hflat] at hoccupied
      exact (List.perm_append_right_iff [coordinate]).mp hoccupied
  · intro h
    have hother : ∀ entry ∈ activeItems, entry.key ≠ key := by
      intro entry hentry heq
      exact h.nonempty entry hentry (hnew entry hentry heq)
    refine ⟨?_, ?_, ?_, ?_, ?_⟩
    · exact nodup_keys_append h.keys hother
    · intro entry hentry
      rcases List.mem_append.mp hentry with hentry | hentry
      · exact h.nonempty entry hentry
      · rw [List.mem_singleton.mp hentry]
        exact List.cons_ne_nil _ _
    · intro entry hentry
      rcases List.mem_append.mp hentry with hentry | hentry
      · exact h.count entry hentry
      · rw [List.mem_singleton.mp hentry]
        rfl
    · rw [hflat, List.nodup_append]
      refine ⟨h.once, by simp, ?_⟩
      intro x hx y hy heq
      rw [List.mem_singleton] at hy
      obtain ⟨entry, hentry, hmem⟩ := List.mem_flatMap.mp hx
      exact hfree entry hentry (hy ▸ heq ▸ hmem)
    · rw [hflat]
      exact h.occupied.append_right _

/-- Placing a further item of a kind extends its entry. -/
theorem represents_placeAgain_iff {activeItems : List GameItem}
    {coordinatesOccupied : List String} {key coordinate : String}
    (hsome : ∃ entry ∈ activeItems, entry.key = key ∧ entry.coordinates ≠ [])
    (hfree : ∀ entry ∈ activeItems, coordinate ∉ entry.coordinates) :
    RepresentsLand (placeAgain key coordinate activeItems)
        (coordinatesOccupied ++ [coordinate]) ↔
      RepresentsLand activeItems coordinatesOccupied := by
  have hsameKeys : (placeAgain key coordinate activeItems).map GameItem.key =
      activeItems.map GameItem.key := keys_map (placeAgain_key key coordinate) activeItems
  by_cases hkeys : (activeItems.map GameItem.key).Nodup
  · obtain ⟨placed, hplaced, hplacedKey, hne⟩ := hsome
    obtain ⟨before, entry, after, hsplit, hkey, hother⟩ :=
      split_of_key hkeys ⟨placed, hplaced, hplacedKey⟩
    -- the entry of the key is the one with a coordinate
    have hentry : entry.coordinates ≠ [] := by
      rw [hsplit] at hplaced
      rcases List.mem_append.mp hplaced with hmem | hmem
      · exact absurd hplacedKey (hother placed (List.mem_append_left _ hmem))
      · rcases List.mem_cons.mp hmem with heq | hmem
        · rwa [← heq]
        · exact absurd hplacedKey (hother placed (List.mem_append_right _ hmem))
    have hperm := flatMap_extended before after entry coordinate
    have hagain := placeAgain_split coordinate hkey hother
    rw [hsplit, hagain]
    rw [hsplit] at hfree hkeys hsameKeys
    rw [hagain] at hsameKeys
    have hrest : ∀ other, other ∈ before ∨ other ∈ after → ∀ head,
        other ∈ before ++ head :: after := by
      intro other hmem head
      rw [List.mem_append, List.mem_cons]
      rcases hmem with hmem | hmem
      · exact Or.inl hmem
      · exact Or.inr (Or.inr hmem)
    have hcases : ∀ {head other : GameItem}, other ∈ before ++ head :: after →
        other = head ∨ other ∈ before ∨ other ∈ after := by
      intro head other hmem
      rw [List.mem_append, List.mem_cons] at hmem
      rcases hmem with hmem | hmem | hmem
      · exact Or.inr (Or.inl hmem)
      · exact Or.inl hmem
      · exact Or.inr (Or.inr hmem)
    have hhead : ∀ head : GameItem, head ∈ before ++ head :: after := by
      intro head
      simp
    constructor
    · intro h
      refine ⟨hkeys, ?_, ?_, ?_, ?_⟩
      · intro other hmem
        rcases hcases hmem with rfl | hmem
        · exact hentry
        · exact h.nonempty other (hrest other hmem _)
      · intro other hmem
        rcases hcases hmem with rfl | hmem
        · have hcount := h.count _ (hhead _)
          change other.count + 1 = ((other.coordinates ++ [coordinate]).length : Int)
            at hcount
          rw [List.length_append, List.length_singleton] at hcount
          omega
        · exact h.count other (hrest other hmem _)
      · exact (List.nodup_append.mp (hperm.nodup_iff.mp h.once)).1
      · exact (List.perm_append_right_iff [coordinate]).mp (h.occupied.trans hperm)
    · intro h
      refine ⟨hsameKeys ▸ hkeys, ?_, ?_, ?_, ?_⟩
      · intro other hmem
        rcases hcases hmem with rfl | hmem
        · simp
        · exact h.nonempty other (hrest other hmem entry)
      · intro other hmem
        rcases hcases hmem with rfl | hmem
        · have hcount := h.count _ (hhead entry)
          change entry.count + 1 = ((entry.coordinates ++ [coordinate]).length : Int)
          rw [List.length_append, List.length_singleton]
          omega
        · exact h.count other (hrest other hmem entry)
      · rw [hperm.nodup_iff, List.nodup_append]
        refine ⟨h.once, by simp, ?_⟩
        intro x hx y hy heq
        rw [List.mem_singleton] at hy
        obtain ⟨other, hmem, hx⟩ := List.mem_flatMap.mp hx
        exact hfree other hmem (hy ▸ heq ▸ hx)
      · exact (h.occupied.append_right _).trans hperm.symm
  · constructor
    · intro h
      exact absurd (hsameKeys ▸ h.keys) hkeys
    · intro h
      exact absurd h.keys hkeys

theorem place_represents_iff {session : Session}
    (hland : ShowsLand session.record session.app) (key item : String)
    {coordinate : String} (hfree : ∀ other, coordinate ∉ session.record.land other) :
    RepresentsLand (session.place key item coordinate).app.activeItems
        (session.place key item coordinate).app.coordinatesOccupied ↔
      RepresentsLand session.app.activeItems session.app.coordinatesOccupied := by
  have hfreeItem : ∀ entry ∈ session.app.activeItems,
      coordinate ∉ entry.coordinates := by
    intro entry hentry hx
    exact hfree entry.key ((hland.placed entry.key coordinate).mpr ⟨entry, hentry, rfl, hx⟩)
  change RepresentsLand (placeLocal key item coordinate (session.record.land key)
    session.app.activeItems) (session.app.coordinatesOccupied ++ [coordinate]) ↔ _
  unfold placeLocal
  by_cases hplaced : session.record.land key = []
  · rw [if_pos hplaced]
    apply represents_append_iff ?_ hfreeItem
    intro entry hentry hkey
    apply List.eq_nil_iff_forall_not_mem.mpr
    intro x hx
    have hmem := (hland.placed key x).mpr ⟨entry, hentry, hkey, hx⟩
    rw [hplaced] at hmem
    cases hmem
  · rw [if_neg hplaced]
    apply represents_placeAgain_iff ?_ hfreeItem
    obtain ⟨x, hx⟩ := List.exists_mem_of_ne_nil _ hplaced
    obtain ⟨entry, hentry, hkey, hmem⟩ := (hland.placed key x).mp hx
    exact ⟨entry, hentry, hkey, List.ne_nil_of_mem hmem⟩

/-- After REMOVE the entry of the coordinate counts more than it places. -/
theorem remove_not_represents {session : Session}
    (hland : ShowsLand session.record session.app) {key coordinate : String}
    (hplaced : coordinate ∈ session.record.land key) :
    ¬ RepresentsLand (session.remove coordinate).app.activeItems
      (session.remove coordinate).app.coordinatesOccupied := by
  intro h
  obtain ⟨item, hitem, _, hmem⟩ := (hland.placed key coordinate).mp hplaced
  have hcounted := hland.counted item hitem
  have hafter : { item with
      coordinates := removeLast (fun x => x = coordinate) item.coordinates } ∈
      (session.remove coordinate).app.activeItems := List.mem_map_of_mem hitem
  have hcount : item.count =
      ((removeLast (fun x => x = coordinate) item.coordinates).length : Int) :=
    h.count _ hafter
  have hshorter : (removeLast (fun x => x = coordinate) item.coordinates).length <
      item.coordinates.length := by
    rw [removeLast_eq_filter (hland.nodup item hitem)]
    exact List.length_filter_lt_length_iff_exists.mpr ⟨coordinate, hmem, by simp⟩
  omega

/-- An operation keeps the representation exactly when it is no removal. -/
theorem tap_represents_iff {uid : Uid} {session : Session} {remote : Remote}
    {app : App} (h : InPlay uid session remote app) {tap : Tap}
    (henabled : tap.Enabled app) :
    RepresentsLand (session.tap tap).app.activeItems
        (session.tap tap).app.coordinatesOccupied ↔
      RepresentsLand session.app.activeItems session.app.coordinatesOccupied ∧
        ¬ tap.IsRemove := by
  obtain rfl := h.app_eq
  have hpermits := permits_of_enabled h.showsLand h.showsInventory henabled
  cases tap with
  | buy cell =>
      change RepresentsLand (session.buy cell).app.activeItems
        (session.buy cell).app.coordinatesOccupied ↔ _
      rw [session.buy_activeItems, session.buy_coordinatesOccupied]
      exact (and_iff_left id).symm
  | place key item coordinate =>
      have hplace := place_represents_iff h.showsLand key item hpermits.2.2.2
      exact hplace.trans (and_iff_left id).symm
  | remove coordinate =>
      obtain ⟨key, hplaced⟩ := hpermits
      have hbroken := remove_not_represents h.showsLand hplaced
      constructor
      · intro hafter
        exact absurd hafter hbroken
      · intro hand
        exact absurd trivial hand.2
  | cellForRow cell storeItem => exact henabled.elim
  | claim result => exact henabled.elim
  | redeem quantities dateString autoId => exact henabled.elim
  | signIn uid displayName => exact henabled.elim
  | signOut => exact henabled.elim

/-! ## Runs -/

/-- **The representation, exactly.**  After a serial run from a fresh sign-in the
local land list represents the land if and only if nothing was removed. -/
theorem serial_play_represents_iff {uid : Uid} {remote : Remote}
    {record : UserRecord} {app : App} (hholds : Holds (remote uid) record)
    (hwf : record.WellFormed) (hsigned : SignedIn uid (remote uid) app)
    {es : List AppEvent} (hserial : client.Along SerialPlay ⟨remote, app, []⟩ es) :
    ∃ s', client.run ⟨remote, app, []⟩ es = .ok s' ∧
      (s'.pending = [] →
        (RepresentsLand s'.state.activeItems s'.state.coordinatesOccupied ↔
          client.Along (TapMeets fun tap _ _ => ¬ tap.IsRemove)
            ⟨remote, app, []⟩ es)) := by
  have hstart := hsigned.inPlay hholds hwf
  obtain ⟨s', hrun, hplay, hiff⟩ := serial_session_iff
    (P := fun session =>
      RepresentsLand session.app.activeItems session.app.coordinatesOccupied)
    (D := fun tap _ _ => ¬ tap.IsRemove)
    (fun _ _ _ _ h henabled => tap_represents_iff h henabled) hstart hserial
  refine ⟨s', hrun, fun hidle => ?_⟩
  rw [(hplay hidle).app_eq, hiff]
  exact and_iff_right (representsLand_of_load hsigned hholds hwf)

/-- Two trees are bought and placed one after the other: after the run the local list
represents the land. -/
theorem serial_play_represents_iff_tree :
    ∃ s', client.run ⟨newUser 100, newUserApp "ann" treeShelf, []⟩
        (serially [.buy 0, .place "tree" "Tree" "(0,0)", .buy 0,
          .place "tree" "Tree" "(0,1)"]) = .ok s' ∧
      s'.pending = [] ∧
      RepresentsLand s'.state.activeItems s'.state.coordinatesOccupied := by
  obtain ⟨s', hrun, hidle⟩ :
      ∃ s', client.run ⟨newUser 100, newUserApp "ann" treeShelf, []⟩
          (serially [.buy 0, .place "tree" "Tree" "(0,0)", .buy 0,
            .place "tree" "Tree" "(0,1)"]) = .ok s' ∧ s'.pending = [] :=
    client.exists_run_of_check (by decide +kernel)
  obtain ⟨s'', hrun', hiff⟩ :=
    serial_play_represents_iff (newUser_holds 100 "ann") (newUser_wellFormed 100)
      (newUser_signedIn 100 "ann" treeShelf)
      (by decide +kernel : client.Along SerialPlay
        ⟨newUser 100, newUserApp "ann" treeShelf, []⟩
        (serially [.buy 0, .place "tree" "Tree" "(0,0)", .buy 0,
          .place "tree" "Tree" "(0,1)"]))
  obtain rfl : s' = s'' := Except.ok.inj (hrun.symm.trans hrun')
  exact ⟨s', hrun, hidle, (hiff hidle).mpr (by decide +kernel)⟩

/-- The only tree of the land is removed: its entry stays, without a coordinate. -/
theorem not_serial_play_represents :
    ¬ ∀ (uid : Uid) (remote : Remote) (record : UserRecord) (app : App)
        (es : List AppEvent), Holds (remote uid) record → record.WellFormed →
        SignedIn uid (remote uid) app →
        client.Along SerialPlay ⟨remote, app, []⟩ es →
        (∀ cell, Tap.buy cell ∉ taps es) →
        ∀ s', client.run ⟨remote, app, []⟩ es = .ok s' → s'.pending = [] →
          RepresentsLand s'.state.activeItems s'.state.coordinatesOccupied := by
  intro hclaim
  obtain ⟨s', hrun, hidle, hentry⟩ :
      ∃ s', client.run ⟨plantedTree, plantedTreeApp "ann" treeShelf, []⟩
          (serially [.remove "(0,0)"]) = .ok s' ∧
        s'.pending = [] ∧ s'.state.activeItems = [⟨"tree", "Tree", 1, []⟩] :=
    client.exists_run_of_check (by decide +kernel)
  have hland := hclaim "ann" _ _ _ _ (plantedTree_holds "ann") plantedTree_wellFormed
    (plantedTree_signedIn "ann" treeShelf) (by decide +kernel)
    (by simp [serially, taps]) s' hrun hidle
  exact hland.nonempty ⟨"tree", "Tree", 1, []⟩ (by simp [hentry]) rfl

end WillItRecycle

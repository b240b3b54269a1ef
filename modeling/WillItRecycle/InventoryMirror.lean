import WillItRecycle.SignInLoad

/-!
# When the local inventory mirrors the stored one

REMOVE gives a unit back to a row only when the row shows more than one unit
(`item.count > 1`), while its callback adds a unit to the stored count whatever
it is.  So every removal of an item whose row shows exactly one unit leaves one
unit that the screen does not show, and no later operation makes up for it: the
difference between what is stored and what is shown never shrinks.

`serial_play_mirrors_iff` makes this exact: at the end of a serial run the rows
mirror the stored counts if and only if no such removal was made.
-/

namespace WillItRecycle

open PathTree ReadCallback

/-- Exactly one row, with the stored count, for every key that is stored, and no
row for the others. -/
def MirrorsInventory (record : UserRecord) (rows : List GameItem) : Prop :=
  ∀ key, (rows.filter fun row => row.key = key).map GameItem.count =
    if record.inventory key = 0 then [] else [(record.inventory key : Int)]

/-- REMOVE is tapped for an item whose row shows exactly one unit. -/
def RemovesSingle (tap : Tap) (app : App) : Prop :=
  match tap with
  | .remove coordinate =>
      ShowsSingle (findActiveItemCoordinate app.activeItems coordinate).key
        app.inventoryItems
  | _ => False

/-- Whether REMOVE is tapped for a single unit can be computed. -/
instance (tap : Tap) (app : App) : Decidable (RemovesSingle tap app) :=
  match tap with
  | .remove coordinate =>
      inferInstanceAs (Decidable (ShowsSingle
        (findActiveItemCoordinate app.activeItems coordinate).key app.inventoryItems))
  | .buy _ | .place _ _ _ | .cellForRow _ _ | .claim _ | .redeem _ _ _ | .signIn _ _
  | .signOut => isFalse id

/-! ## Mirroring is showing every unit -/

/-- Where a unit is shown, a row shows it. -/
theorem exists_row_of_unitsShown {key : String} {rows : List GameItem}
    (h : unitsShown key rows ≠ 0) : ∃ row ∈ rows, row.key = key := by
  by_contra hnone
  apply h
  apply unitsShown_eq_zero
  intro row hrow hkey
  exact hnone ⟨row, hrow, hkey⟩

/-- Rows that show no more than the inventory mirror it when they show as many units of
every kind: there is one row for each kind. -/
theorem mirrorsInventory_iff {record : UserRecord} {app : App}
    (h : ShowsInventory record app) :
    MirrorsInventory record app.inventoryItems ↔
      ∀ key, unitsShown key app.inventoryItems = record.inventory key := by
  constructor
  · intro hmirror key
    have hrows := hmirror key
    unfold unitsShown
    rw [hrows]
    by_cases hzero : record.inventory key = 0
    · rw [if_pos hzero, hzero]
      rfl
    · rw [if_neg hzero, List.sum_singleton]
  · intro hunits key
    have hkey := hunits key
    by_cases hzero : record.inventory key = 0
    · have hnone := h.no_row hzero
      rw [if_pos hzero, List.filter_eq_nil_iff.mpr, List.map_nil]
      intro row hrow heq
      exact hnone row hrow (by simpa using heq)
    · obtain ⟨row, hrow, rfl⟩ := exists_row_of_unitsShown (by omega :
        unitsShown key app.inventoryItems ≠ 0)
      rw [if_neg hzero, filter_key_eq_singleton h.nodup hrow, List.map_singleton,
        ← hkey, unitsShown_of_mem h.nodup hrow]

/-! ## One operation -/

/-- BUY neither makes nor repairs a difference between the rows and the inventory. -/
theorem buy_mirrors_iff {session : Session}
    (h : ShowsInventory session.record session.app) (cell : Nat) :
    MirrorsInventory (session.buy cell).record (session.buy cell).app.inventoryItems ↔
      MirrorsInventory session.record session.app.inventoryItems := by
  rw [mirrorsInventory_iff (h.buy cell), mirrorsInventory_iff h]
  have hstored := session.record.buy_inventory (session.app.shown cell)
  have hshown := unitsShown_deliver (session.app.shown cell)
    (session.record.inventory (session.app.shown cell).key) h.nodup
  by_cases hcost :
      session.record.currentLeaves - (session.app.shown cell).cost ≥ 0
  · have hrows : (session.buy cell).app.inventoryItems =
        deliver (session.app.shown cell)
          (session.record.inventory (session.app.shown cell).key)
          session.app.inventoryItems := by
      unfold Session.buy
      simp only [if_pos hcost]
      rfl
    have hrecord : (session.buy cell).record =
        session.record.buy (session.app.shown cell) := rfl
    rw [hrows, hrecord]
    apply forall_congr'
    intro key
    have hafter := hshown key
    have hbought := hstored key
    have hbefore := h.stored key
    by_cases hkey : key = (session.app.shown cell).key
    · rw [if_pos ⟨hkey, hcost⟩] at hbought
      by_cases hdelivered : session.record.inventory (session.app.shown cell).key = 0 ∨
          ∃ row ∈ session.app.inventoryItems, row.key = (session.app.shown cell).key
      · rw [if_pos ⟨hkey, hdelivered⟩] at hafter
        omega
      · rw [if_neg (fun hand => hdelivered hand.2)] at hafter
        -- units are stored and no row shows any: neither side holds
        have hnone : unitsShown key session.app.inventoryItems = 0 := by
          apply unitsShown_eq_zero
          intro row hrow heq
          exact hdelivered (Or.inr ⟨row, hrow, heq.trans hkey⟩)
        have hsome : session.record.inventory key ≠ 0 := by
          rw [hkey]
          intro hzero
          exact hdelivered (Or.inl hzero)
        omega
    · rw [if_neg (fun hand => hkey hand.1)] at hafter hbought
      omega
  · have hrows : (session.buy cell).app.inventoryItems = session.app.inventoryItems := by
      unfold Session.buy
      simp only [if_neg hcost]
      rfl
    have hrecord : (session.buy cell).record =
        session.record.buy (session.app.shown cell) := rfl
    rw [hrows, hrecord]
    apply forall_congr'
    intro key
    rw [hstored, if_neg (fun hand => hcost hand.2)]
    omega

/-- PLACE of an item that a row shows takes a unit from both, so a difference stays as it
is. -/
theorem place_mirrors_iff {session : Session}
    (h : ShowsInventory session.record session.app) {key : String}
    (item coordinate : String)
    (hrow : ∃ row ∈ session.app.inventoryItems, row.key = key) :
    MirrorsInventory (session.place key item coordinate).record
        (session.place key item coordinate).app.inventoryItems ↔
      MirrorsInventory session.record session.app.inventoryItems := by
  rw [mirrorsInventory_iff (h.place key item coordinate), mirrorsInventory_iff h]
  have hstored := session.record.place_inventory key coordinate
  have hshown := unitsShown_takeFromInventory key h.nodup
  apply forall_congr'
  intro other
  change unitsShown other (takeFromInventory key session.app.inventoryItems) =
    ((session.record.place key coordinate).inventory other : Nat) ↔ _
  rw [hshown, hstored]
  by_cases hother : other = key
  · rw [if_pos ⟨hother, hrow⟩, if_pos hother]
    -- the unit taken was stored
    obtain ⟨row, hmem, hkey⟩ := hrow
    have hpositive := h.positive row hmem
    have hunits := unitsShown_of_mem h.nodup hmem
    have hbefore := h.stored other
    rw [hkey, ← hother] at hunits
    omega
  · rw [if_neg (fun hand => hother hand.1), if_neg hother]
    omega

/-- REMOVE keeps the rows mirroring the inventory unless the row of the item shows a
single unit, which stays as it is while the record gains one. -/
theorem remove_mirrors_iff {session : Session}
    (h : ShowsInventory session.record session.app)
    (hland : ShowsLand session.record session.app)
    (hwf : session.record.WellFormed) {key coordinate : String}
    (hplaced : coordinate ∈ session.record.land key) :
    MirrorsInventory (session.remove coordinate).record
        (session.remove coordinate).app.inventoryItems ↔
      MirrorsInventory session.record session.app.inventoryItems ∧
        ¬ RemovesSingle (.remove coordinate) session.app := by
  obtain ⟨hfound, _⟩ := hland.find hwf hplaced
  obtain ⟨hkey, hitem⟩ := hland.known _ hfound
  rw [mirrorsInventory_iff (h.remove hland hwf hplaced), mirrorsInventory_iff h]
  let selectedItem := findActiveItemCoordinate session.app.activeItems coordinate
  have hstored := session.record.remove_inventory selectedItem.key coordinate
  have hshown := unitsShown_returnToInventory h hkey hitem coordinate
  change (∀ other, unitsShown other (returnToInventory selectedItem coordinate _) =
    ((session.record.remove selectedItem.key coordinate).inventory other : Nat)) ↔ _
  constructor
  · intro hall
    refine ⟨?_, ?_⟩
    · intro other
      have hother := hall other
      have hbefore := h.stored other
      rw [hshown, hstored] at hother
      by_cases heq : other = selectedItem.key
      · rw [if_pos heq] at hother
        split at hother <;> omega
      · rw [if_neg heq, if_neg (fun hand => heq hand.1)] at hother
        omega
    · intro hsingle
      have hother := hall selectedItem.key
      have hbefore := h.stored selectedItem.key
      rw [hshown, hstored, if_pos rfl, if_neg (fun hand => hand.2 hsingle)] at hother
      omega
  · intro hall other
    obtain ⟨hunits, hsingle⟩ := hall
    have hother := hunits other
    rw [hshown, hstored]
    by_cases heq : other = selectedItem.key
    · rw [if_pos heq, if_pos ⟨heq, hsingle⟩]
      omega
    · rw [if_neg heq, if_neg (fun hand => heq hand.1)]
      omega

/-- An operation keeps the mirror exactly when it is no removal of a single. -/
theorem tap_mirrors_iff {uid : Uid} {session : Session} {remote : Remote} {app : App}
    (h : InPlay uid session remote app) {tap : Tap} (henabled : tap.Enabled app) :
    MirrorsInventory (session.tap tap).record (session.tap tap).app.inventoryItems ↔
      MirrorsInventory session.record session.app.inventoryItems ∧
        ¬ RemovesSingle tap app := by
  obtain rfl := h.app_eq
  cases tap with
  | buy cell =>
      have hbuy := buy_mirrors_iff h.showsInventory cell
      exact hbuy.trans (and_iff_left id).symm
  | place key item coordinate =>
      obtain ⟨_, _, row, hrow, hkey, _⟩ := henabled
      have hplace := place_mirrors_iff h.showsInventory item coordinate
        ⟨row, hrow, hkey⟩
      exact hplace.trans (and_iff_left id).symm
  | remove coordinate =>
      obtain ⟨key, hplaced⟩ := (h.showsLand.occupied coordinate).mp henabled
      exact remove_mirrors_iff h.showsInventory h.showsLand h.wellFormed hplaced
  | cellForRow cell storeItem => exact henabled.elim
  | claim result => exact henabled.elim
  | redeem quantities dateString autoId => exact henabled.elim
  | signIn uid displayName => exact henabled.elim
  | signOut => exact henabled.elim

/-! ## Runs -/

/-- **The mirror, exactly.**  After a serial run from a fresh sign-in the local
inventory mirrors the stored one if and only if REMOVE was never tapped for an
item whose row showed exactly one unit. -/
theorem serial_play_mirrors_iff {uid : Uid} {remote : Remote} {record : UserRecord}
    {app : App} (hholds : Holds (remote uid) record) (hwf : record.WellFormed)
    (hsigned : SignedIn uid (remote uid) app) {es : List AppEvent}
    (hserial : client.Along SerialPlay ⟨remote, app, []⟩ es) :
    ∃ s', client.run ⟨remote, app, []⟩ es = .ok s' ∧
      (s'.pending = [] → ∃ record', Holds (s'.remote uid) record' ∧
        (MirrorsInventory record' s'.state.inventoryItems ↔
          client.Along (TapMeets fun tap _ app => ¬ RemovesSingle tap app)
            ⟨remote, app, []⟩ es)) := by
  have hstart := hsigned.inPlay hholds hwf
  have hmirror : MirrorsInventory record app.inventoryItems := by
    rw [mirrorsInventory_iff hstart.showsInventory]
    exact unitsShown_of_perm hwf (hsigned.perm_inventoryRows hholds hwf)
  obtain ⟨s', hrun, hplay, hiff⟩ := serial_session_iff
    (P := fun session => MirrorsInventory session.record session.app.inventoryItems)
    (D := fun tap _ app => ¬ RemovesSingle tap app)
    (fun _ _ _ _ h henabled => tap_mirrors_iff h henabled) hstart hserial
  refine ⟨s', hrun, fun hidle => ?_⟩
  have hend := hplay hidle
  refine ⟨_, hend.holds, ?_⟩
  rw [hend.app_eq, hiff]
  exact and_iff_right hmirror

/-- Three trees are bought, one of them is placed and removed while the row still shows
two: after the run the rows show the stored inventory. -/
theorem serial_play_mirrors_iff_tree :
    ∃ s', client.run ⟨newUser 150, newUserApp "ann" treeShelf, []⟩
        (serially [.buy 0, .buy 0, .buy 0, .place "tree" "Tree" "(0,0)",
          .remove "(0,0)"]) = .ok s' ∧
      s'.pending = [] ∧
      ∃ record', Holds (s'.remote "ann") record' ∧
        MirrorsInventory record' s'.state.inventoryItems := by
  obtain ⟨s', hrun, hidle⟩ :
      ∃ s', client.run ⟨newUser 150, newUserApp "ann" treeShelf, []⟩
          (serially [.buy 0, .buy 0, .buy 0, .place "tree" "Tree" "(0,0)",
            .remove "(0,0)"]) = .ok s' ∧ s'.pending = [] :=
    client.exists_run_of_check (by decide +kernel)
  obtain ⟨s'', hrun', hiff⟩ :=
    serial_play_mirrors_iff (newUser_holds 150 "ann") (newUser_wellFormed 150)
      (newUser_signedIn 150 "ann" treeShelf)
      (by decide +kernel : client.Along SerialPlay
        ⟨newUser 150, newUserApp "ann" treeShelf, []⟩
        (serially [.buy 0, .buy 0, .buy 0, .place "tree" "Tree" "(0,0)",
          .remove "(0,0)"]))
  obtain rfl : s' = s'' := Except.ok.inj (hrun.symm.trans hrun')
  obtain ⟨record', hholds, hmirrors⟩ := hiff hidle
  exact ⟨s', hrun, hidle, record', hholds, hmirrors.mpr (by decide +kernel)⟩

/-- A count that is stored is the count of the record. -/
theorem Holds.inventory_eq {node : FNode} {record : UserRecord} (h : Holds node record)
    {key : String} {n : Nat}
    (hcount : asInt ((node.child "inventory").child key) = some (n + 1 : Int)) :
    record.inventory key = n + 1 := by
  rw [h.inventory key] at hcount
  cases hstored : record.inventory key with
  | zero => simp [hstored] at hcount
  | succ m =>
      simp only [hstored, countNode, asInt_int, Option.some.injEq] at hcount
      omega

/-- Two trees are bought, and the one unit that is left on the row is placed and removed:
two trees are stored and the only row shows one. -/
theorem not_serial_play_mirrors :
    ¬ ∀ (uid : Uid) (remote : Remote) (record : UserRecord) (app : App)
        (es : List AppEvent), Holds (remote uid) record → record.WellFormed →
        SignedIn uid (remote uid) app →
        client.Along SerialPlay ⟨remote, app, []⟩ es →
        ∀ s', client.run ⟨remote, app, []⟩ es = .ok s' → s'.pending = [] →
        ∀ record', Holds (s'.remote uid) record' →
          MirrorsInventory record' s'.state.inventoryItems := by
  intro hclaim
  obtain ⟨s', hrun, hidle, hstored, hshown⟩ :
      ∃ s', client.run ⟨newUser 120, newUserApp "ann" treeShelf, []⟩
          (serially [.buy 0, .buy 0, .place "tree" "Tree" "(0,0)", .remove "(0,0)"]) =
            .ok s' ∧
        s'.pending = [] ∧
        asInt (((s'.remote "ann").child "inventory").child "tree") = some (1 + 1) ∧
        (s'.state.inventoryItems.filter fun row => row.key = "tree").map
          GameItem.count = [1] :=
    client.exists_run_of_check (by decide +kernel)
  obtain ⟨s'', hrun', hplay⟩ := serial_session
    ((newUser_signedIn 120 "ann" treeShelf).inPlay (newUser_holds 120 "ann")
      (newUser_wellFormed 120)) (by decide +kernel :
        client.Along SerialPlay ⟨newUser 120, newUserApp "ann" treeShelf, []⟩
          (serially [.buy 0, .buy 0, .place "tree" "Tree" "(0,0)", .remove "(0,0)"]))
  obtain rfl : s' = s'' := Except.ok.inj (hrun.symm.trans hrun')
  have hmirror := hclaim "ann" _ _ _ _ (newUser_holds 120 "ann")
    (newUser_wellFormed 120) (newUser_signedIn 120 "ann" treeShelf)
    (by decide +kernel) s' hrun hidle _ (hplay hidle).holds "tree"
  have htwo := (hplay hidle).holds.inventory_eq hstored
  rw [hshown, htwo] at hmirror
  simp at hmirror

end WillItRecycle

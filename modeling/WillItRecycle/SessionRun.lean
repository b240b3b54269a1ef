import WillItRecycle.InventoryRows

/-!
# Serial runs are sequences of operations

Each tap leaves reads that settle in the session the operation leads to
(`settles_tap`), so that a serial run of the app goes through exactly the
sessions of `Session.tap` (`serial_session`).  All statements about serial runs
of BUY, PLACE and REMOVE are statements about folds of `Session.tap`.
-/

namespace WillItRecycle

open PathTree ReadCallback LastMatch

/-- The system between operations: `uid` is signed in and the remote record and
the app are those of the session. -/
structure AtRest (uid : Uid) (session : Session) (remote : Remote) (app : App) :
    Prop where
  holds : Holds (remote uid) session.record
  app_eq : app = session.app
  currentUser : session.app.currentUser = some uid
  wellFormed : session.record.WellFormed
  showsLand : ShowsLand session.record session.app

/-! ## Answers about a record -/

theorem Holds.get_currentLeaves {node : FNode} {record : UserRecord}
    (h : Holds node record) :
    node.get (fpath ["currentLeaves"]) = Tree.leaf (.int record.currentLeaves) := by
  rw [fpath_currentLeaves, Tree.get_cons, Tree.get_nil]
  exact h.currentLeaves

theorem Holds.get_inventory {node : FNode} {record : UserRecord}
    (h : Holds node record) {key : String} (hkey : key ≠ "") :
    node.get (fpath ["inventory", key]) = countNode (record.inventory key) := by
  rw [fpath_inventory hkey, Tree.get_cons, Tree.get_cons, Tree.get_nil]
  exact h.inventory key

theorem Holds.get_active {node : FNode} {record : UserRecord}
    (h : Holds node record) {key : String} (hkey : key ≠ "") :
    IsList (node.get (fpath ["activeItems", key])) (record.land key) := by
  rw [fpath_activeItems hkey, Tree.get_cons, Tree.get_cons, Tree.get_nil]
  exact h.active key

/-- Writes on one branch of a record leave answers about another branch. -/
theorem answer_applyAll_of_branch (field : String) {field' : String}
    {writes : List Write} {read : Read} (hne : field ≠ field')
    (hwrites : ∀ write ∈ writes, ∃ path, write.path = field :: path)
    {path : List String} (hread : read.path = field' :: path)
    (reply : Reply) (remote : Remote) :
    read.answer reply (client.applyAll writes remote) = read.answer reply remote := by
  apply answer_applyAll_of_ne
  intro write hwrite
  obtain ⟨rest, hrest⟩ := hwrites write hwrite
  right
  rw [hrest, hread]
  exact Or.inl hne

/-! ## The settling obligations -/

/-- What the callback on the wallet writes. -/
def chargeWrites (uid : Uid) (leaves cost : Int) : List Write :=
  if leaves - cost ≥ 0 then
    [setValue uid ["currentLeaves"] (Tree.leaf (.int (leaves - cost)))]
  else []

/-- The callback on the wallet captures it and charges it when it covers the
cost. -/
theorem buyLeavesRead_wallet (uid : Uid) (cell tap : Nat) (leaves : Int)
    (order : List String) (app : App) :
    buyLeavesRead uid cell tap (.value (Tree.leaf (.int leaves)) order) app =
      .ok ⟨{ app with
            currentLeaves := app.currentLeaves.set tap (some leaves) },
        chargeWrites uid leaves (app.shown cell).cost, []⟩ := by
  have hshown : App.shown { app with
      currentLeaves := app.currentLeaves.set tap (some leaves) } cell =
      app.shown cell := rfl
  unfold buyLeavesRead chargeWrites
  by_cases hcost : leaves - (app.shown cell).cost ≥ 0
  · simp only [Tree.isEmpty_leaf, Bool.false_eq_true, if_false, asInt_int, force_some,
      bind, Except.bind, hshown, if_pos hcost]
  · simp only [Tree.isEmpty_leaf, Bool.false_eq_true, if_false, asInt_int, force_some,
      bind, Except.bind, hshown, if_neg hcost]
    rfl

theorem mem_chargeWrites {uid : Uid} {leaves cost : Int} {write : Write}
    (h : write ∈ chargeWrites uid leaves cost) :
    write = setValue uid ["currentLeaves"] (Tree.leaf (.int (leaves - cost))) := by
  unfold chargeWrites at h
  split at h
  · exact List.mem_singleton.mp h
  · cases h

/-- The record once BUY has charged the wallet. -/
def UserRecord.charge (cost : Int) (record : UserRecord) : UserRecord :=
  if record.currentLeaves - cost ≥ 0 then
    { record with currentLeaves := record.currentLeaves - cost }
  else record

theorem Holds.chargeWrites {remote : Remote} {uid : Uid} {record : UserRecord}
    (h : Holds (remote uid) record) (cost : Int) :
    Holds (client.applyAll (chargeWrites uid record.currentLeaves cost) remote uid)
      (record.charge cost) := by
  unfold WillItRecycle.chargeWrites UserRecord.charge
  by_cases hcost : record.currentLeaves - cost ≥ 0
  · rw [if_pos hcost, if_pos hcost]
    have hset := h.setCurrentLeaves (record.currentLeaves - cost)
    have hsame := apply_same (setValue uid ["currentLeaves"]
      (Tree.leaf (.int (record.currentLeaves - cost)))) remote
    rw [Client.applyAll_cons, Client.applyAll_nil, client_apply]
    exact hsame.symm ▸ hset
  · rw [if_neg hcost, if_neg hcost]
    exact h

@[simp] theorem UserRecord.charge_inventory (record : UserRecord) (cost : Int) :
    (record.charge cost).inventory = record.inventory := by
  unfold UserRecord.charge
  split <;> rfl

@[simp] theorem UserRecord.charge_land (record : UserRecord) (cost : Int) :
    (record.charge cost).land = record.land := by
  unfold UserRecord.charge
  split <;> rfl

section Taps

variable {uid : Uid} {session : Session} {remote : Remote} {app : App}

/-- The second callback of BUY, once the first one has been served. -/
theorem settles_buyInventory {cell : Nat}
    (hholds : Holds (remote uid)
      (session.record.charge (session.app.shown cell).cost))
    (huser : session.app.currentUser = some uid) (hwf : session.record.WellFormed)
    (hland : ShowsLand session.record session.app) :
    client.Settles Reply.Succeeds (AtRest uid (session.buy cell))
      [.buyInventory uid cell session.app.currentLeaves.length
        (session.app.shown cell).key] remote
      (session.app.capture session.record.currentLeaves) := by
  have hkey : (session.app.shown cell).key ≠ "" :=
    storeKeys_ne_empty (storeItem_key_mem (session.app.storeItem cell))
  have hget := hholds.get_inventory hkey
  rw [UserRecord.charge_inventory] at hget
  have hcaptured : (session.app.capture
      session.record.currentLeaves).currentLeaves[session.app.currentLeaves.length]? =
      some (some session.record.currentLeaves) := by
    simp [App.capture]
  have hread := fun order => buyInventoryRead_count uid cell
    session.app.currentLeaves.length
    (session.record.inventory (session.app.shown cell).key) order hcaptured
  have hwf' : (session.buy cell).record.WellFormed :=
    hwf.buy (session.app.storeItem cell)
  have hland' := hland.buy cell
  have huser' : (session.buy cell).app.currentUser = some uid := by
    rw [session.buy_currentUser, huser]
  by_cases hcost :
      session.record.currentLeaves - (session.app.shown cell).cost ≥ 0
  · have happ : (session.buy cell).app = App.present
        { session.app.capture session.record.currentLeaves with
          inventoryItems := deliver (session.app.shown cell)
            (session.record.inventory (session.app.shown cell).key)
            session.app.inventoryItems } StoreTableViewCell.successAlert := by
      unfold Session.buy
      simp only [if_pos hcost]
      rfl
    apply Client.Settles.serve_const client
      ⟨(session.buy cell).app,
        [countWrite uid (session.app.shown cell).key
          (session.record.inventory (session.app.shown cell).key + 1)], []⟩
    · intro info hok
      cases info with
      | error => exact hok.elim
      | value order =>
          change buyInventoryRead uid cell _
            (.value ((remote uid).get (fpath ["inventory", _])) order) _ = _
          rw [hget, hread order, happ]
          exact if_pos hcost
    · rfl
    · intro read hread
      cases hread
    · apply Client.Settles.done
      have hrecord : (session.buy cell).record =
          (session.record.charge (session.app.shown cell).cost).setInventory
            (session.app.shown cell).key
            (session.record.inventory (session.app.shown cell).key + 1) := by
        unfold Session.buy UserRecord.buy UserRecord.charge
        simp only [if_pos hcost]
      refine ⟨?_, rfl, huser', hwf', hland'⟩
      rw [hrecord]
      exact hholds.countWrite hkey _
  · have happ : (session.buy cell).app =
        (session.app.capture session.record.currentLeaves).present
          StoreTableViewCell.errorAlert := by
      unfold Session.buy
      simp only [if_neg hcost]
    apply Client.Settles.serve_const client ⟨(session.buy cell).app, [], []⟩
    · intro info hok
      cases info with
      | error => exact hok.elim
      | value order =>
          change buyInventoryRead uid cell _
            (.value ((remote uid).get (fpath ["inventory", _])) order) _ = _
          rw [hget, hread order, happ]
          exact if_neg hcost
    · rfl
    · intro read hread
      cases hread
    · apply Client.Settles.done
      have hrecord : (session.buy cell).record =
          session.record.charge (session.app.shown cell).cost := by
        unfold Session.buy UserRecord.buy UserRecord.charge
        simp only [if_neg hcost]
      refine ⟨?_, rfl, huser', hwf', hland'⟩
      rw [hrecord]
      exact hholds

theorem settles_buy (h : AtRest uid session remote app) (cell : Nat) :
    ∃ fx, Tap.handle (.buy cell) app = .ok fx ∧
      client.Settles Reply.Succeeds (AtRest uid (session.buy cell)) fx.reads
        (client.applyAll fx.writes remote) fx.state := by
  obtain ⟨hholds, rfl, huser, hwf, hland⟩ := h
  have hkey : (session.app.shown cell).key ≠ "" :=
    storeKeys_ne_empty (storeItem_key_mem (session.app.storeItem cell))
  have htap : Tap.handle (.buy cell) session.app =
      .ok ⟨{ session.app with
            currentLeaves := session.app.currentLeaves ++ [none] }, [],
        [.buyLeaves uid cell session.app.currentLeaves.length,
          .buyInventory uid cell session.app.currentLeaves.length
            (session.app.shown cell).key]⟩ := by
    simp [Tap.handle, buyOnClick, huser, bind, Except.bind]
  refine ⟨_, htap, ?_⟩
  have hset : (session.app.currentLeaves ++ [none]).set
      session.app.currentLeaves.length (some session.record.currentLeaves) =
      session.app.currentLeaves ++ [some session.record.currentLeaves] := by
    simp
  apply Client.Settles.serve_const client
    ⟨session.app.capture session.record.currentLeaves,
      chargeWrites uid session.record.currentLeaves (session.app.shown cell).cost, []⟩
  · intro info hok
    cases info with
    | error => exact hok.elim
    | value order =>
        have hget := hholds.get_currentLeaves
        have hread := buyLeavesRead_wallet uid cell session.app.currentLeaves.length
          session.record.currentLeaves order { session.app with
            currentLeaves := session.app.currentLeaves ++ [none] }
        rw [hset] at hread
        change buyLeavesRead uid cell _
          (.value ((remote uid).get (fpath ["currentLeaves"])) order) _ = _
        rw [hget]
        exact hread
  · rfl
  · intro read hread info
    rw [List.mem_singleton] at hread
    subst hread
    have hpath : (Read.buyInventory uid cell session.app.currentLeaves.length
        (session.app.shown cell).key).path =
        "inventory" :: [(session.app.shown cell).key] := fpath_inventory hkey
    refine answer_applyAll_of_branch "currentLeaves" (by decide) ?_ hpath
      info _
    intro write hwrite
    exact ⟨[], by rw [mem_chargeWrites hwrite]; rfl⟩
  · exact settles_buyInventory (hholds.chargeWrites _) huser hwf hland

theorem settles_place (h : AtRest uid session remote app)
    {key item coordinate : String} (hkey : key ∈ storeKeys)
    (hitem : item = itemName key) (hne : coordinate ≠ "")
    (hfree : ∀ other, coordinate ∉ session.record.land other) :
    ∃ fx, Tap.handle (.place key item coordinate) app = .ok fx ∧
      client.Settles Reply.Succeeds
        (AtRest uid (session.place key item coordinate)) fx.reads
        (client.applyAll fx.writes remote) fx.state := by
  obtain ⟨hholds, rfl, huser, hwf, hland⟩ := h
  have hkey' := storeKeys_ne_empty hkey
  let tapped : App := { session.app with
    coordinatesOccupied := session.app.coordinatesOccupied ++ [coordinate]
    inventoryItems := takeFromInventory key session.app.inventoryItems }
  have htap : Tap.handle (.place key item coordinate) session.app =
      .ok ⟨tapped, [],
        [.placeActive uid key item coordinate, .placeInventory uid key]⟩ := by
    simp [Tap.handle, onPlacementCompleted, hne, huser, bind, Except.bind, tapped]
  refine ⟨_, htap, ?_⟩
  have hactive := hholds.get_active hkey'
  have hplaced := hholds.placeWrite hkey' coordinate
  apply Client.Settles.serve_const client
    ⟨(session.place key item coordinate).app,
      [setValue uid ["activeItems", key, indexKey (session.record.land key).length]
        (Tree.leaf (.string coordinate))], []⟩
  · intro info hok
    cases info with
    | error => exact hok.elim
    | value order =>
        exact placeActiveRead_list hactive uid key item coordinate order tapped
  · rfl
  · intro read hread info
    rw [List.mem_singleton] at hread
    subst hread
    have hpath : (Read.placeInventory uid key).path = "inventory" :: [key] :=
      fpath_inventory hkey'
    refine answer_applyAll_of_branch "activeItems" (by decide) ?_ hpath
      info _
    intro write hwrite
    rw [List.mem_singleton] at hwrite
    exact ⟨_, by rw [hwrite]; exact fpath_activeItems_index hkey' _⟩
  · have hget := hplaced.get_inventory hkey'
    apply Client.Settles.serve_const client
      ⟨(session.place key item coordinate).app,
        if session.record.inventory key = 0 then []
        else [countWrite uid key (session.record.inventory key - 1)], []⟩
    · intro info hok
      cases info with
      | error => exact hok.elim
      | value order =>
          have hread := placeInventoryRead_count uid key (session.record.inventory key)
            order (session.place key item coordinate).app
          change placeInventoryRead uid key
            (.value (((setValue uid _ _).apply remote uid).get
              (fpath ["inventory", key])) order) _ = _
          rw [hget]
          exact hread
    · rfl
    · intro read hread
      cases hread
    · apply Client.Settles.done
      refine ⟨?_, rfl, huser, hwf.place hkey hne hfree, hland.place hkey hitem hfree⟩
      change Holds (client.applyAll (if session.record.inventory key = 0 then []
        else [countWrite uid key (session.record.inventory key - 1)])
          ((setValue uid _ _).apply remote) uid)
        (session.record.place key coordinate)
      by_cases hzero : session.record.inventory key = 0
      · have hsame : session.record.place key coordinate =
            session.record.setLand key (session.record.land key ++ [coordinate]) := by
          unfold UserRecord.place UserRecord.setInventory
          rw [hzero]
          have hupdate : Function.update session.record.inventory key (0 - 1) =
              session.record.inventory := by
            rw [Function.update_eq_self_iff]
            omega
          rw [UserRecord.setLand_inventory, hupdate]
          rfl
        rw [if_pos hzero, hsame]
        exact hplaced
      · rw [if_neg hzero]
        exact hplaced.countWrite hkey' _

theorem settles_remove (h : AtRest uid session remote app) {key coordinate : String}
    (hplaced : coordinate ∈ session.record.land key) :
    ∃ fx, Tap.handle (.remove coordinate) app = .ok fx ∧
      client.Settles Reply.Succeeds (AtRest uid (session.remove coordinate)) fx.reads
        (client.applyAll fx.writes remote) fx.state := by
  obtain ⟨hholds, rfl, huser, hwf, hland⟩ := h
  have hkey : key ≠ "" :=
    storeKeys_ne_empty (hwf.landKey key (List.ne_nil_of_mem hplaced))
  have hne : coordinate ≠ "" := by
    intro heq
    exact hwf.button key (heq ▸ hplaced)
  have hfound := (hland.find hwf hplaced).2
  have hrecord : (session.remove coordinate).record =
      session.record.remove key coordinate := by
    rw [← hfound]
    rfl
  have htap : Tap.handle (.remove coordinate) session.app =
      .ok ⟨(session.remove coordinate).app, [],
        [.removeActive uid key coordinate, .removeInventory uid key]⟩ := by
    simp [Tap.handle, onRemove, hne, huser, bind, Except.bind, Session.remove, hfound]
  refine ⟨_, htap, ?_⟩
  have hactive := hholds.get_active hkey
  have hremoved := hholds.removeWrites hkey coordinate (List.ne_nil_of_mem hplaced)
  apply Client.Settles.serve_const client
    ⟨(session.remove coordinate).app,
      removeWrites uid key coordinate (session.record.land key), []⟩
  · intro info hok
    cases info with
    | error => exact hok.elim
    | value order =>
        exact removeActiveRead_list hactive uid key coordinate order _
  · rfl
  · intro read hread info
    rw [List.mem_singleton] at hread
    subst hread
    have hpath : (Read.removeInventory uid key).path = "inventory" :: [key] :=
      fpath_inventory hkey
    refine answer_applyAll_of_branch "activeItems" (by decide) ?_ hpath
      info _
    intro write hwrite
    exact (mem_removeWrites hwrite).2
  · have hget := hremoved.get_inventory hkey
    apply Client.Settles.serve_const client
      ⟨(session.remove coordinate).app,
        [countWrite uid key (session.record.inventory key + 1)], []⟩
    · intro info hok
      cases info with
      | error => exact hok.elim
      | value order =>
          have hread := removeInventoryRead_count hkey uid
            (session.record.inventory key) order (session.remove coordinate).app
          change removeInventoryRead uid key
            (.value ((client.applyAll _ remote uid).get
              (fpath ["inventory", key])) order) _ = _
          rw [hget]
          exact hread
    · rfl
    · intro read hread
      cases hread
    · apply Client.Settles.done
      refine ⟨?_, rfl, huser, ?_, hland.remove hwf hplaced⟩
      · rw [hrecord]
        exact hremoved.countWrite hkey _
      · rw [hrecord]
        exact hwf.remove hplaced

/-- **One operation.**  A tap the record permits never traps, and its reads
settle in the session the operation leads to. -/
theorem settles_tap (h : AtRest uid session remote app) {tap : Tap}
    (hpermits : session.record.Permits tap) :
    ∃ fx, tap.handle app = .ok fx ∧
      client.Settles Reply.Succeeds (AtRest uid (session.tap tap)) fx.reads
        (client.applyAll fx.writes remote) fx.state := by
  cases tap with
  | buy cell => exact settles_buy h cell
  | place key item coordinate =>
      obtain ⟨hkey, hitem, hne, hfree⟩ := hpermits
      exact settles_place h hkey hitem hne hfree
  | remove coordinate =>
      obtain ⟨key, hplaced⟩ := hpermits
      exact settles_remove h hplaced
  | cellForRow cell storeItem => exact hpermits.elim
  | claim result => exact hpermits.elim
  | redeem quantities dateString autoId => exact hpermits.elim
  | signIn uid displayName => exact hpermits.elim
  | signOut => exact hpermits.elim

end Taps

/-! ## Runs -/

/-- The system between operations, with an inventory screen that shows units
that are stored. -/
structure InPlay (uid : Uid) (session : Session) (remote : Remote) (app : App) :
    Prop extends AtRest uid session remote app where
  showsInventory : ShowsInventory session.record session.app

theorem ShowsInventory.tap {session : Session}
    (h : ShowsInventory session.record session.app)
    (hland : ShowsLand session.record session.app)
    (hwf : session.record.WellFormed) {tap : Tap}
    (hpermits : session.record.Permits tap) :
    ShowsInventory (session.tap tap).record (session.tap tap).app := by
  cases tap with
  | buy cell => exact h.buy cell
  | place key item coordinate => exact h.place key item coordinate
  | remove coordinate =>
      obtain ⟨key, hplaced⟩ := hpermits
      exact h.remove hland hwf hplaced
  | cellForRow cell storeItem => exact hpermits.elim
  | claim result => exact hpermits.elim
  | redeem quantities dateString autoId => exact hpermits.elim
  | signIn uid displayName => exact hpermits.elim
  | signOut => exact hpermits.elim

/-- The steps of a serial run of BUY, PLACE and REMOVE, each tapped as the
screens offer it and each with reads that succeed. -/
def SerialPlay (s : AppSys) (e : AppEvent) : Prop :=
  Serial Reply.Succeeds s e ∧ TapMeets (fun tap _ app => tap.Enabled app) s e

instance (s : AppSys) (e : AppEvent) : Decidable (SerialPlay s e) :=
  inferInstanceAs (Decidable (_ ∧ _))

/-- The session a list of taps leads to. -/
def Session.play (session : Session) (played : List Tap) : Session :=
  played.foldl (fun session tap => session.tap tap) session

/-- An operation the screens offer keeps the session in play. -/
theorem settles_enabled {uid : Uid} {session : Session} {remote : Remote} {app : App}
    (h : InPlay uid session remote app) {tap : Tap} (henabled : tap.Enabled app) :
    ∃ fx, client.tap tap app = .ok fx ∧
      client.Settles Reply.Succeeds (InPlay uid (session.tap tap)) fx.reads
        (client.applyAll fx.writes remote) fx.state := by
  have hrest := h.toAtRest
  have hpermits : session.record.Permits tap :=
    permits_of_enabled hrest.showsLand h.showsInventory (hrest.app_eq ▸ henabled)
  have hrows := h.showsInventory.tap hrest.showsLand hrest.wellFormed hpermits
  obtain ⟨fx, hfx, hsettles⟩ := settles_tap hrest hpermits
  exact ⟨fx, hfx, hsettles.mono client (fun _ _ hafter => ⟨hafter, hrows⟩)⟩

/-- **Serial runs are folds of operations**, and a property that an operation
keeps exactly when `D` holds at its tap is kept by a run exactly when `D` holds
at all its taps. -/
theorem serial_session_iff {P : Session → Prop} {D : Tap → Remote → App → Prop}
    {uid : Uid} {session : Session} {remote : Remote} {app : App}
    (hkeep : ∀ session tap remote app, InPlay uid session remote app →
      tap.Enabled app → (P (session.tap tap) ↔ P session ∧ D tap remote app))
    (h : InPlay uid session remote app) {es : List AppEvent}
    (hserial : client.Along SerialPlay ⟨remote, app, []⟩ es) :
    ∃ s', client.run ⟨remote, app, []⟩ es = .ok s' ∧
      (s'.pending = [] →
        InPlay uid (session.play (taps es)) s'.remote s'.state) ∧
      (P (session.play (taps es)) ↔
        P session ∧ client.Along (TapMeets D) ⟨remote, app, []⟩ es) := by
  have htap : ∀ (session : Session) (tap : Tap) (remote : Remote) (app : App),
      InPlay uid session remote app → tap.Enabled app →
      (∃ fx, client.tap tap app = .ok fx ∧
        client.Settles Reply.Succeeds (InPlay uid (session.tap tap)) fx.reads
          (client.applyAll fx.writes remote) fx.state) ∧
      (P (session.tap tap) ↔ P session ∧ D tap remote app) := by
    intro session tap remote app hplay henabled
    exact ⟨settles_enabled hplay henabled, hkeep session tap remote app hplay henabled⟩
  obtain ⟨s', hrun, hsettling, hiff⟩ := client.serial_run_iff
    (fun tap session => session.tap tap) htap es ⟨remote, app, []⟩ session
    (Client.Settling.of_idle client rfl h) hserial
  exact ⟨s', hrun, fun hidle => hsettling.idle client hidle, hiff⟩

theorem serial_session {uid : Uid} {session : Session} {remote : Remote} {app : App}
    (h : InPlay uid session remote app) {es : List AppEvent}
    (hserial : client.Along SerialPlay ⟨remote, app, []⟩ es) :
    ∃ s', client.run ⟨remote, app, []⟩ es = .ok s' ∧
      (s'.pending = [] →
        InPlay uid (session.play (taps es)) s'.remote s'.state) := by
  obtain ⟨s', hrun, hplay, _⟩ := serial_session_iff (P := fun _ => True)
    (D := fun _ _ _ => True) (fun _ _ _ _ _ _ => by simp) h hserial
  exact ⟨s', hrun, hplay⟩

end WillItRecycle

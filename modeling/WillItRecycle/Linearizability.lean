import WillItRecycle.Overlap

/-!
# Overlapping operations of the land game

Every callback of BUY, PLACE and REMOVE writes a value computed from its own
snapshot.  When operations overlap, an update is lost if another write to the
same node came in between, PLACE's second callback leaves the count as it is when it
finds none, and a PLACE that overtakes the REMOVE of the same coordinate is
undone by it.

`run_linearizable` says that this is all that can go wrong: in every other run,
whatever overlaps, the stored counts and coordinates are in the end those of the
same taps made one at a time.
-/

namespace WillItRecycle

open PathTree ReadCallback LastMatch LandGame

/-! ## Serial runs -/

/-- A serial run of operations planned on the record alone ends with the record
they amount to. -/
theorem serial_record {uid : Uid} {session : Session} {remote : Remote} {app : App}
    (h : AtRest uid session remote app) {es : List AppEvent}
    (hplan : Client.Planned (fun tap record => UserRecord.Permits record tap)
      (UserRecord.tap session.app.storeItem) session.record (taps es))
    (hserial : client.Along (Serial Reply.Succeeds) ⟨remote, app, []⟩ es) :
    ∃ s', client.run ⟨remote, app, []⟩ es = .ok s' ∧
      (s'.pending = [] → Holds (s'.remote uid)
        ((taps es).foldl (fun record tap => record.tap session.app.storeItem tap)
          session.record)) := by
  let Q : UserRecord → Remote → App → Prop := fun record remote' app' =>
    ∃ session', AtRest uid session' remote' app' ∧ session'.record = record ∧
      session'.app.storeItem = session.app.storeItem
  have htap : ∀ record tap ts remote' app',
      Client.Planned (fun tap record => UserRecord.Permits record tap)
        (UserRecord.tap session.app.storeItem) record (tap :: ts) →
      Q record remote' app' →
      Client.Planned (fun tap record => UserRecord.Permits record tap)
        (UserRecord.tap session.app.storeItem) (record.tap session.app.storeItem tap) ts ∧
      ∃ fx, client.tap tap app' = .ok fx ∧
        client.Settles Reply.Succeeds (Q (record.tap session.app.storeItem tap)) fx.reads
          (client.applyAll fx.writes remote') fx.state := by
    intro record tap ts remote' app' hV hQ
    obtain ⟨hpermits, hrest⟩ := hV
    obtain ⟨session', hatRest, rfl, hshelf⟩ := hQ
    obtain ⟨fx, hfx, hsettles⟩ := settles_tap hatRest hpermits
    refine ⟨hrest, fx, hfx, hsettles.mono client (fun _ _ hafter => ?_)⟩
    refine ⟨session'.tap tap, hafter, ?_, ?_⟩
    · rw [tap_record hatRest.showsLand hatRest.wellFormed hpermits, hshelf]
    · rw [tap_storeItem, hshelf]
  obtain ⟨s', hrun, hsettling⟩ := client.serial_run_plan
    (UserRecord.tap session.app.storeItem) htap es ⟨remote, app, []⟩ session.record
    (Client.Settling.of_idle client rfl ⟨session, h, rfl, rfl⟩) hplan hserial
  refine ⟨s', hrun, fun hidle => ?_⟩
  obtain ⟨session', hatRest, hrecord, _⟩ := hsettling.idle client hidle
  rw [← hrecord]
  exact hatRest.holds

/-! ## Runs -/

/-- The steps of the runs for which operations may overlap. -/
def OverlapsInTurn (s : AppSys) (e : AppEvent) : Prop :=
  PlaysLand s e ∧ RemovesShown s e ∧ InTurn s e ∧ ServeMeets ItemsCurrent s e

instance (s : AppSys) (e : AppEvent) : Decidable (OverlapsInTurn s e) :=
  inferInstanceAs (Decidable (_ ∧ _ ∧ _ ∧ _))

theorem Overlap.answered {uid : Uid} {shelf : Nat → ShelfItem}
    {tapped stored : UserRecord} {s : AppSys} (h : Overlap uid shelf tapped stored s)
    {read : Read} {before after : List (Pending Read Snapshot)}
    (hpending : s.pending = before ++ ⟨read, none⟩ :: after) {reply : Reply}
    (hreply : reply.Succeeds) :
    Overlap uid shelf tapped stored { s with
      pending := before ++ ⟨read, some (read.answer reply s.remote)⟩ :: after } := by
  have hreads : Sys.reads { s with
      pending := before ++ ⟨read, some (read.answer reply s.remote)⟩ :: after } =
      s.reads := by
    unfold Sys.reads
    rw [hpending, List.map_append, List.map_append]
    rfl
  refine ⟨h.holds, h.currentUser, h.storeItem, h.wellFormed, ?_, ?_, ?_, ?_, ?_⟩
  · rw [hreads]
    exact h.itemReads
  · rw [hreads]
    intro p hp a ha
    rw [List.mem_append, List.mem_cons] at hp
    rcases hp with hp | rfl | hp
    · exact h.answers p (by simp [hpending, hp]) a ha
    · obtain rfl := Option.some.inj ha
      cases reply with
      | error => exact hreply.elim
      | value order => exact ⟨s.remote, stored, order, h.holds, h.wallet.covered, rfl⟩
    · exact h.answers p (by simp [hpending, hp]) a ha
  · rw [hreads]
    exact h.wallet
  · rw [hreads]
    exact h.units
  · rw [hreads]
    exact h.land

/-- A callback served in turn, on what is still stored. -/
theorem Overlap.serve {uid : Uid} {shelf : Nat → ShelfItem} {tapped stored : UserRecord}
    {s : AppSys} (h : Overlap uid shelf tapped stored s)
    (hleaves : 0 ≤ tapped.currentLeaves) {read : Read} {snapshot : Snapshot}
    {before after : List (Pending Read Snapshot)}
    (hpending : s.pending = before ++ ⟨read, some snapshot⟩ :: after)
    (hC : OverlapsInTurn s (.serve before.length)) {fx : Effects App Write Read}
    (hrun : client.callback read snapshot s.state = .ok fx) :
    ∃ stored', Overlap uid shelf tapped stored' (client.perform s (before ++ after) fx) := by
  obtain ⟨_, _, hturn, hmeets⟩ := hC
  have hserved : s.pending[before.length]? = some ⟨read, some snapshot⟩ := by
    simp [hpending]
  have hmem : (⟨read, some snapshot⟩ : Pending Read Snapshot) ∈ s.pending := by
    simp [hpending]
  have hrest := Client.mem_pending_of_rest hpending
  have hperm := reads_perm_of_serve hpending
  have hcurrent := hmeets before.length read snapshot rfl hserved
  have hgiven := h.answers _ hmem snapshot rfl
  obtain ⟨huid, hitem⟩ := h.itemReads read (List.mem_map_of_mem hmem)
  obtain ⟨node, order, rfl⟩ : ∃ node order, snapshot = .value node order := by
    obtain ⟨_, _, order, _, _, hanswer⟩ := hgiven
    exact ⟨_, order, hanswer⟩
  cases read with
  | buyLeaves uid' cell tap =>
      obtain rfl : uid' = uid := huid
      exact h.charge hrest hperm rfl hleaves hgiven hrun
  | buyInventory uid' cell tap key =>
      obtain rfl : uid' = uid := huid
      exact h.deliver hrest hperm rfl hgiven hcurrent hrun
  | placeActive uid' key item coordinate =>
      obtain rfl : uid' = uid := huid
      unfold InTurn at hturn
      simp only [hserved, Option.map_some] at hturn
      exact h.store hrest hperm rfl hgiven hcurrent hturn hrun
  | placeInventory uid' key =>
      obtain rfl : uid' = uid := huid
      exact h.takeUnit hrest hperm rfl hgiven hcurrent hrun
  | removeActive uid' key coordinate =>
      obtain rfl : uid' = uid := huid
      exact h.unstore hrest hperm rfl hgiven hcurrent hrun
  | removeInventory uid' key =>
      obtain rfl : uid' = uid := huid
      exact h.giveBack hrest hperm rfl hgiven hcurrent hrun
  | _ => exact hitem.elim

/-- The leaves a tap costs. -/
def Tap.cost (shelf : Nat → ShelfItem) : Tap → Int
  | .buy cell => (shelf cell).val.cost
  | _ => 0

/-- **Runs of overlapping operations.**  The taps could have been planned on the
record alone, and the system ends with the record they amount to in flight. -/
theorem run_overlap {uid : Uid} {shelf : Nat → ShelfItem} {record : UserRecord}
    {s s' : AppSys} (h : Overlap uid shelf record record s) {es : List AppEvent}
    (hafford : total (Tap.cost shelf) (taps es) ≤ record.currentLeaves)
    (halong : client.Along OverlapsInTurn s es) (hrun : client.run s es = .ok s') :
    Client.Planned (fun tap record => UserRecord.Permits record tap)
        (UserRecord.tap shelf) record (taps es) ∧
      ∃ stored, Overlap uid shelf
        ((taps es).foldl (fun record tap => record.tap shelf tap) record) stored s' := by
  let inv : UserRecord → List Tap → AppSys → Prop := fun tapped todo s =>
    total (Tap.cost shelf) todo ≤ tapped.currentLeaves ∧
      ∃ stored, Overlap uid shelf tapped stored s
  have hcosts : ∀ todo : List Tap, 0 ≤ total (Tap.cost shelf) todo := by
    intro todo
    apply total_nonneg
    intro tap _
    cases tap with
    | buy cell => exact cost_nonneg (shelf cell)
    | _ => exact Int.le_refl 0
  have htap : ∀ tapped tap todo (s : AppSys) fx, inv tapped (tap :: todo) s →
      OverlapsInTurn s (.tap tap) → client.tap tap s.state = .ok fx →
      tapped.Permits tap ∧ inv (tapped.tap shelf tap) todo
        (client.perform s s.pending fx) := by
    intro tapped tap todo s fx hinv hC hfx
    obtain ⟨hbudget, stored, hoverlap⟩ := hinv
    obtain ⟨henabled, hshown, _, _⟩ := hC
    rw [total_cons] at hbudget
    have hrest := hcosts todo
    cases tap with
    | buy cell =>
        have hbudget' : (shelf cell).val.cost + total (Tap.cost shelf) todo ≤
          tapped.currentLeaves := hbudget
        refine ⟨trivial, ?_, stored, hoverlap.buy (by omega) hfx⟩
        unfold UserRecord.tap UserRecord.buy
        dsimp only
        rw [if_pos (by omega)]
        change _ ≤ tapped.currentLeaves - (shelf cell).val.cost
        omega
    | place key item coordinate =>
        have hbudget' : 0 + total (Tap.cost shelf) todo ≤ tapped.currentLeaves := hbudget
        refine ⟨hoverlap.permits_place henabled, ?_, stored, hoverlap.place henabled hfx⟩
        change _ ≤ tapped.currentLeaves
        omega
    | remove coordinate =>
        have hbudget' : 0 + total (Tap.cost shelf) todo ≤ tapped.currentLeaves := hbudget
        have hentry := hshown coordinate rfl
        obtain ⟨item, _, _, _, hplaced⟩ := hoverlap.found hentry
        refine ⟨⟨item.key, hplaced⟩, ?_, stored, hoverlap.remove hentry hfx⟩
        rw [UserRecord.tap_remove hoverlap.wellFormed hplaced]
        change _ ≤ tapped.currentLeaves
        omega
    | _ => exact henabled.elim
  have hother : ∀ tapped todo (s : AppSys) e o s', inv tapped todo s →
      OverlapsInTurn s e → client.Step s e o s' → (∀ t, e ≠ .tap t) →
      inv tapped todo s' := by
    intro tapped todo s e o s' hinv hC hmove hquiet
    obtain ⟨hbudget, stored, hoverlap⟩ := hinv
    refine ⟨hbudget, ?_⟩
    cases hmove with
    | tap hrun => exact absurd rfl (hquiet _)
    | answer hpending reply => exact ⟨stored, hoverlap.answered hpending hC.1⟩
    | serve hpending hrun =>
        have hleaves := (hcosts todo).trans hbudget
        exact hoverlap.serve hleaves hpending hC hrun
    | idleAnswer hidle reply => exact ⟨stored, hoverlap⟩
    | idleServe hidle => exact ⟨stored, hoverlap⟩
  obtain ⟨hplan, _, hend⟩ := client.run_plan (UserRecord.tap shelf) inv htap hother
    es record s s' ⟨hafford, record, h⟩ halong hrun
  exact ⟨hplan, hend⟩

/-- The same counts and the same coordinates under the same keys. -/
def SameItems (node node' : FNode) : Prop :=
  ∃ record record', Holds node record ∧ Holds node' record' ∧
    record.inventory = record'.inventory ∧ SameLand record record'

/-- **Linearizability.**  Take any run of BUY, PLACE and REMOVE from a fresh
sign-in, with a wallet that covers all purchases, in which every callback on a
count or a list finds what is stored when it runs, PLACE's always finds a count
and never overtakes a REMOVE of its coordinate, and REMOVE is tapped only for
coordinates some entry has.  When nothing is pending, the stored counts and
coordinates are those of the same taps made one at a time. -/
theorem run_linearizable {uid : Uid} {remote : Remote} {record : UserRecord} {app : App}
    (hholds : Holds (remote uid) record) (hwf : record.WellFormed)
    (hsigned : SignedIn uid (remote uid) app) {es : List AppEvent}
    (hafford : total (Tap.cost app.storeItem) (taps es) ≤ record.currentLeaves)
    (halong : client.Along OverlapsInTurn ⟨remote, app, []⟩ es) {s' : AppSys}
    (hrun : client.run ⟨remote, app, []⟩ es = .ok s') (hidle : s'.pending = [])
    {es' : List AppEvent} (htaps : taps es' = taps es)
    (hserial : client.Along (Serial Reply.Succeeds) ⟨remote, app, []⟩ es') :
    ∃ t', client.run ⟨remote, app, []⟩ es' = .ok t' ∧
      (t'.pending = [] → SameItems (s'.remote uid) (t'.remote uid)) := by
  have hplay := hsigned.inPlay hholds hwf
  have hstart : Overlap uid app.storeItem record record ⟨remote, app, []⟩ := by
    refine ⟨hholds, hsigned.currentUser, rfl, hwf, ?_, ?_, ?_,
      hplay.showsInventory.unitsInFlight, hplay.showsLand.landInFlight⟩
    · intro read hread
      cases hread
    · intro p hp
      cases hp
    · refine ⟨⟨List.nodup_nil, List.nodup_nil, ?_, ?_⟩, ?_, ?_⟩
      · intro purchase hpurchase
        cases hpurchase
      · intro purchase hpurchase
        cases hpurchase
      · exact Int.le_of_eq (Int.add_zero _)
      · intro purchase hpurchase
        cases hpurchase
  obtain ⟨hplan, stored, hend⟩ := run_overlap hstart hafford halong hrun
  rw [← htaps] at hplan
  obtain ⟨t', hrun', hserialEnd⟩ := serial_record hplay.toAtRest hplan hserial
  refine ⟨t', hrun', fun hidle' => ?_⟩
  have hreads : s'.reads = [] := by
    unfold Sys.reads
    rw [hidle, List.map_nil]
  have hstored := hserialEnd hidle'
  rw [htaps] at hstored
  refine ⟨stored, _, hend.holds, hstored, ?_, ?_⟩
  · funext key
    have hcounted := hend.units.counted key
    rw [hreads, total_nil, Int.add_zero] at hcounted
    exact Int.ofNat.inj hcounted
  · intro key coordinate
    have hplaced := hend.land.placed key coordinate
    rw [hreads] at hplaced
    rw [hplaced]
    simp

theorem taps_serially (tapped : List Tap) : taps (serially tapped) = tapped := by
  induction tapped with
  | nil => rfl
  | cons tap tapped ih =>
      change tap :: taps (serially tapped) = tap :: tapped
      rw [ih]

/-- Two trees are bought, and one of them is placed, removed and placed again.  The
wallet reads cross, each operation is tapped before the callbacks of the one
before have run, and the callbacks of the last one run in reverse order. -/
def overlappingPlay : List AppEvent :=
  [ .tap (.buy 0), .tap (.buy 0), .answer 0 (.value []), .answer 1 (.value []),
    .answer 2 (.value []), .serve 0, .serve 0, .serve 0,
    .tap (.place "tree" "Tree" "(0,0)"), .answer 0 (.value []), .answer 1 (.value []),
    .serve 0, .serve 0,
    .tap (.remove "(0,0)"), .answer 0 (.value []), .serve 0,
    .tap (.place "tree" "Tree" "(0,0)"), .answer 0 (.value []), .serve 0,
    .answer 0 (.value []), .serve 0, .answer 0 (.value []), .answer 1 (.value []),
    .serve 1, .serve 0 ]

theorem run_linearizable_overlappingPlay :
    ∃ s', client.run ⟨newUser 120, newUserApp "ann" treeShelf, []⟩ overlappingPlay =
        .ok s' ∧
      ∃ t', client.run ⟨newUser 120, newUserApp "ann" treeShelf, []⟩
          (serially (taps overlappingPlay)) = .ok t' ∧
        (t'.pending = [] → SameItems (s'.remote "ann") (t'.remote "ann")) := by
  obtain ⟨s', hrun, hidle⟩ : ∃ s', client.run
      ⟨newUser 120, newUserApp "ann" treeShelf, []⟩ overlappingPlay = .ok s' ∧
      s'.pending = [] :=
    client.exists_run_of_check (by decide +kernel)
  exact ⟨s', hrun, run_linearizable (newUser_holds 120 "ann") (newUser_wellFormed 120)
    (newUser_signedIn 120 "ann" treeShelf) (by decide +kernel) (by decide +kernel) hrun
    hidle (taps_serially _) (by decide +kernel)⟩

/-- Two trees are placed before the first one is stored. -/
def overlappingPlacements : List AppEvent :=
  serially [.buy 0, .buy 0] ++
  [ .tap (.place "tree" "Tree" "(0,0)"), .tap (.place "tree" "Tree" "(0,1)"),
    .answer 0 (.value []), .answer 1 (.value []), .answer 2 (.value []),
    .answer 3 (.value []), .serve 0, .serve 0, .serve 0, .serve 0 ]

/-- What a node that holds a record lists under a key. -/
theorem Holds.land_eq {node : FNode} {record : UserRecord} (h : Holds node record)
    {key x : String} {xs : List String}
    (hlist : asStringArray ((node.child "activeItems").child key) = some (x :: xs)) :
    record.land key = x :: xs := by
  have hactive := h.active key
  have hne : record.land key ≠ [] := by
    intro hnil
    rw [hnil] at hactive
    rw [isList_nil_iff.mp hactive] at hlist
    cases hlist
  rw [hactive.asStringArray hne] at hlist
  exact Option.some.inj hlist

/-- Both are stored at index 0, and only the second one is left. -/
theorem not_run_linearizable :
    ¬ ∀ (uid : Uid) (remote : Remote) (record : UserRecord) (app : App)
        (es es' : List AppEvent), Holds (remote uid) record → record.WellFormed →
        SignedIn uid (remote uid) app →
        total (Tap.cost app.storeItem) (taps es) ≤ record.currentLeaves →
        client.Along PlaysLand ⟨remote, app, []⟩ es → taps es' = taps es →
        client.Along (Serial Reply.Succeeds) ⟨remote, app, []⟩ es' →
        ∀ s' t', client.run ⟨remote, app, []⟩ es = .ok s' → s'.pending = [] →
          client.run ⟨remote, app, []⟩ es' = .ok t' → t'.pending = [] →
          SameItems (s'.remote uid) (t'.remote uid) := by
  intro hclaim
  obtain ⟨s', hrun, hidle, hone⟩ : ∃ s', client.run
      ⟨newUser 120, newUserApp "ann" treeShelf, []⟩ overlappingPlacements = .ok s' ∧
      s'.pending = [] ∧
      asStringArray (((s'.remote "ann").child "activeItems").child "tree") =
        some ["(0,1)"] :=
    client.exists_run_of_check (by decide +kernel)
  obtain ⟨t', hrun', hidle', hboth⟩ : ∃ t', client.run
      ⟨newUser 120, newUserApp "ann" treeShelf, []⟩
        (serially (taps overlappingPlacements)) = .ok t' ∧
      t'.pending = [] ∧
      asStringArray (((t'.remote "ann").child "activeItems").child "tree") =
        some ["(0,0)", "(0,1)"] :=
    client.exists_run_of_check (by decide +kernel)
  obtain ⟨final, final', hfinal, hfinal', _, hland⟩ := hclaim "ann" (newUser 120)
    (UserRecord.new 120) (newUserApp "ann" treeShelf) overlappingPlacements
    (serially (taps overlappingPlacements)) (newUser_holds 120 "ann")
    (newUser_wellFormed 120) (newUser_signedIn 120 "ann" treeShelf) (by decide +kernel)
    (by decide +kernel) (taps_serially _) (by decide +kernel) s' t' hrun hidle hrun'
    hidle'
  have hplaced := hland "tree" "(0,0)"
  rw [hfinal.land_eq hone, hfinal'.land_eq hboth] at hplaced
  revert hplaced
  decide

end WillItRecycle

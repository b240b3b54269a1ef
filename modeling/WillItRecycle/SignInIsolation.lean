import WillItRecycle.LoadInFlight

/-!
# Sign-in isolation

The three lists are global.  A sign-in clears them at the tap, so that its load
starts from nothing, and fills them in callbacks that know neither the session
they belong to nor what has happened to the lists in between: callbacks of an
earlier session, a second load, and a BUY or PLACE that overtakes the load all
leave entries the record does not have.

`run_signIn_isolated` says that this is all that can go wrong.  Operations may
be tapped while a load is running, and the session may end in the middle of it;
as long as nothing is pending at a sign-in and no callback overtakes the load of
the list it changes, the lists are those of a load whenever nothing is pending.
-/

namespace WillItRecycle

open PathTree ReadCallback LastMatch

/-! ## The runs -/

/-- The reads of BUY and PLACE. -/
def Read.IsOperation : Read → Prop
  | .buyLeaves .. | .buyInventory .. | .placeActive .. | .placeInventory .. => True
  | _ => False

/-- Users sign in and out at any time, and tap BUY and PLACE when no other such
operation is pending; no read fails. -/
def SignsInAndPlays (s : AppSys) : AppEvent → Prop
  | .tap (.signIn _ _) | .tap .signOut => True
  | .tap (.remove _) => False
  | .tap tap => tap.Enabled s.state ∧ ∀ read ∈ s.reads, ¬ read.IsOperation
  | .answer _ reply => reply.Succeeds
  | .serve _ => True

/-- A read of a load that `inventoryItems` still waits for. -/
def Read.LoadsInventory : Read → Prop
  | .signInName .. | .signInInventory _ => True
  | _ => False

/-- A read of a load that `activeItems` still waits for. -/
def Read.LoadsActive : Read → Prop
  | .signInName .. | .signInActive _ => True
  | _ => False

/-- The callback changes a list that has not been loaded. -/
def Read.Overtakes (reads : List Read) : Read → Prop
  | .buyInventory .. => ∃ read ∈ reads, read.LoadsInventory
  | .placeActive .. => ∃ read ∈ reads, read.LoadsActive
  | _ => False

/-- Nothing is pending at a sign-in, and no callback overtakes a load. -/
def LoadsUndisturbed (s : AppSys) : AppEvent → Prop
  | .tap (.signIn _ _) => s.pending = []
  | .serve i => ∀ p ∈ s.pending[i]?, ¬ p.read.Overtakes s.reads
  | _ => True

instance : DecidablePred Read.IsOperation := fun read =>
  match read with
  | .buyLeaves .. | .buyInventory .. | .placeActive .. | .placeInventory .. => isTrue trivial
  | .removeActive .. | .removeInventory .. | .claimDate .. | .calculateCurrent ..
  | .calculateAllTime .. | .redeemUser .. | .signInName .. | .signInInventory ..
  | .signInActive .. => isFalse id

instance : DecidablePred Read.LoadsInventory := fun read =>
  match read with
  | .signInName .. | .signInInventory .. => isTrue trivial
  | .buyLeaves .. | .buyInventory .. | .placeActive .. | .placeInventory ..
  | .removeActive .. | .removeInventory .. | .claimDate .. | .calculateCurrent ..
  | .calculateAllTime .. | .redeemUser .. | .signInActive .. => isFalse id

instance : DecidablePred Read.LoadsActive := fun read =>
  match read with
  | .signInName .. | .signInActive .. => isTrue trivial
  | .buyLeaves .. | .buyInventory .. | .placeActive .. | .placeInventory ..
  | .removeActive .. | .removeInventory .. | .claimDate .. | .calculateCurrent ..
  | .calculateAllTime .. | .redeemUser .. | .signInInventory .. => isFalse id

instance (reads : List Read) : DecidablePred (Read.Overtakes reads) := fun read =>
  match read with
  | .buyInventory .. => inferInstanceAs (Decidable (∃ read ∈ reads, read.LoadsInventory))
  | .placeActive .. => inferInstanceAs (Decidable (∃ read ∈ reads, read.LoadsActive))
  | .buyLeaves .. | .placeInventory .. | .removeActive .. | .removeInventory ..
  | .claimDate .. | .calculateCurrent .. | .calculateAllTime .. | .redeemUser ..
  | .signInName .. | .signInInventory .. | .signInActive .. => isFalse id

instance (s : AppSys) (e : AppEvent) : Decidable (SignsInAndPlays s e) :=
  match e with
  | .tap (.signIn _ _) | .tap .signOut | .serve _ => isTrue trivial
  | .tap (.remove _) => isFalse id
  | .tap (.buy _) | .tap (.place _ _ _) | .tap (.cellForRow _ _) | .tap (.claim _)
  | .tap (.redeem _ _ _) => instDecidableAnd
  | .answer _ reply => inferInstanceAs (Decidable reply.Succeeds)

instance (s : AppSys) (e : AppEvent) : Decidable (LoadsUndisturbed s e) :=
  match e with
  | .tap (.signIn _ _) => inferInstanceAs (Decidable (s.pending = []))
  | .serve i => inferInstanceAs (Decidable (∀ p ∈ s.pending[i]?, ¬ p.read.Overtakes s.reads))
  | .tap (.buy _) | .tap (.place _ _ _) | .tap (.remove _) | .tap (.cellForRow _ _)
  | .tap (.claim _) | .tap (.redeem _ _ _) | .tap .signOut | .answer _ _ => isTrue trivial

/-- The steps of the runs in which a load is not disturbed. -/
def SignsInAlone (s : AppSys) (e : AppEvent) : Prop :=
  SignsInAndPlays s e ∧ LoadsUndisturbed s e

instance (s : AppSys) (e : AppEvent) : Decidable (SignsInAlone s e) :=
  inferInstanceAs (Decidable (_ ∧ _))

/-! ## The invariant -/

/-- What is known of the account while the load is running. -/
def Load.Stored (node : FNode) (record : UserRecord) : Load → Prop
  | .name _ => Account node record
  | .lists _ _ => Named node record

theorem Load.Stored.account {load : Load} {node : FNode} {record : UserRecord}
    (h : load.Stored node record) : Account node record := by
  cases load with
  | name displayName => exact h
  | lists inventory active => exact Or.inl h

theorem Load.Stored.named {load : Load} {node : FNode} {record : UserRecord}
    (h : load.Stored node record)
    (hloaded : load.awaitsInventory = false ∨ load.awaitsActive = false) :
    Named node record := by
  cases load with
  | name displayName => rcases hloaded with hloaded | hloaded <;> cases hloaded
  | lists inventory active => exact h

theorem Named.stored {node : FNode} {record : UserRecord} (h : Named node record)
    (load : Load) : load.Stored node record := by
  cases load with
  | name displayName => exact Or.inl h
  | lists inventory active => exact h

/-- What is pending belongs to the last account that signed in, and the lists
show its record as far as they are loaded. -/
structure InSession (uid : Uid) (record : UserRecord) (load : Load)
    (operation : Operation) (s : AppSys) : Prop where
  accounts : ∀ other, ∃ record, Account (s.remote other) record
  currentUser : s.state.currentUser = none ∨ s.state.currentUser = some uid
  stored : load.Stored (s.remote uid) record
  reads : s.reads.Perm (load.reads uid ++ operation.reads uid)
  known : operation.Known load s.state
  answers : ∀ p ∈ s.pending, ∀ a, p.answer = some a → Given s.remote p.read a
  mirror : Mirror record load operation s.state

/-- A tap on BUY or PLACE with nobody signed in traps. -/
theorem operation_signedOut {app : App} (hout : app.currentUser = none) {tap : Tap}
    (henabled : tap.Enabled app) (hremove : ∀ coordinate, tap ≠ .remove coordinate)
    (fx : Effects App Write Read) : client.tap tap app ≠ .ok fx := by
  intro hrun
  cases tap with
  | buy cell => simp [Tap.handle, buyOnClick, hout, force, bind, Except.bind] at hrun
  | place key item coordinate =>
      have hne := henabled.1
      simp [Tap.handle, onPlacementCompleted, hne, hout, force, bind, Except.bind] at hrun
  | remove coordinate => exact hremove coordinate rfl
  | _ => exact henabled.elim

section Step

variable {uid : Uid} {record : UserRecord} {load : Load} {operation : Operation}
  {s : AppSys}

/-- Code of the session, given what it leaves pending. -/
theorem InSession.perform (h : InSession uid record load operation s)
    {rest : List (Pending Read Snapshot)} (hrest : ∀ p ∈ rest, p ∈ s.pending)
    {fx : Effects App Write Read} {record' : UserRecord} {load' : Load}
    {operation' : Operation} (huser : fx.state.currentUser = s.state.currentUser)
    (hwrites : ∀ write ∈ fx.writes, write.uid = uid)
    (hstored : load'.Stored (client.applyAll fx.writes s.remote uid) record')
    (hreads : (rest.map Pending.read ++ fx.reads).Perm
      (load'.reads uid ++ operation'.reads uid))
    (hknown : operation'.Known load' fx.state)
    (hgiven : ∀ read ∈ load'.reads uid ++ operation'.reads uid, ∀ a,
      Given s.remote read a → Given (client.applyAll fx.writes s.remote) read a)
    (hmirror : Mirror record' load' operation' fx.state) :
    InSession uid record' load' operation' (client.perform s rest fx) := by
  refine ⟨?_, ?_, hstored, ?_, hknown, ?_, hmirror⟩
  · intro other
    by_cases hother : other = uid
    · rw [hother]
      exact ⟨record', hstored.account⟩
    · have hsame : client.applyAll fx.writes s.remote other = s.remote other := by
        apply applyAll_other
        intro write hwrite heq
        exact hother (heq.symm.trans (hwrites write hwrite))
      change ∃ account, Account (client.applyAll fx.writes s.remote other) account
      rw [hsame]
      exact h.accounts other
  · change fx.state.currentUser = none ∨ fx.state.currentUser = some uid
    rw [huser]
    exact h.currentUser
  · rw [Client.reads_perform]
    exact hreads
  · intro p hp a ha
    rcases List.mem_append.mp hp with hp | hp
    · have hread : p.read ∈ load'.reads uid ++ operation'.reads uid := by
        apply hreads.subset
        exact List.mem_append_left _ (List.mem_map_of_mem hp)
      exact hgiven p.read hread a (h.answers p (hrest p hp) a ha)
    · obtain ⟨read, _, rfl⟩ := List.mem_map.mp hp
      cases ha

/-- The reads left once one of them is served. -/
theorem InSession.served (h : InSession uid record load operation s) {read : Read}
    {rest : List (Pending Read Snapshot)} (load' : Load) (operation' : Operation)
    (hperm : s.reads.Perm (read :: rest.map Pending.read))
    (hserved : (load.reads uid ++ operation.reads uid).Perm
      (read :: (load'.reads uid ++ operation'.reads uid))) :
    (rest.map Pending.read).Perm (load'.reads uid ++ operation'.reads uid) :=
  (hperm.symm.trans (h.reads.trans hserved)).cons_inv

theorem InSession.awaits (h : InSession uid record load operation s) {read : Read}
    (hread : read ∈ s.reads) :
    read.uid = uid ∧ (load.Awaits read ∨ operation.Awaits read) := by
  rcases List.mem_append.mp (h.reads.subset hread) with hmem | hmem
  · obtain ⟨huid, hawaits⟩ := Load.awaits_of_mem hmem
    exact ⟨huid, Or.inl hawaits⟩
  · obtain ⟨huid, hawaits⟩ := Operation.awaits_of_mem hmem
    exact ⟨huid, Or.inr hawaits⟩

/-- Without a read of an operation nothing is left of one. -/
theorem InSession.operation_done (h : InSession uid record load operation s)
    (hdone : ∀ read ∈ s.reads, ¬ read.IsOperation) : operation.reads uid = [] := by
  apply List.eq_nil_iff_forall_not_mem.mpr
  intro read hread
  apply hdone read (h.reads.symm.subset (List.mem_append_right _ hread))
  have hawaits := (Operation.awaits_of_mem hread).2
  cases read with
  | buyLeaves uid cell tap => trivial
  | buyInventory uid cell tap key => trivial
  | placeActive uid key item coordinate => trivial
  | placeInventory uid key => trivial
  | _ => exact hawaits.elim

/-- Every part of a load that is over has been served. -/
theorem InSession.inventory_loaded (h : InSession uid record load operation s)
    (hloaded : ¬ ∃ read ∈ s.reads, read.LoadsInventory) : load.awaitsInventory = false := by
  have hpending : ∀ read ∈ load.reads uid, ¬ read.LoadsInventory := by
    intro read hread hloads
    exact hloaded ⟨read, h.reads.symm.subset (List.mem_append_left _ hread), hloads⟩
  cases load with
  | name displayName => exact absurd trivial (hpending _ List.mem_cons_self)
  | lists inventory active =>
      cases inventory with
      | true => exact absurd trivial (hpending _ List.mem_cons_self)
      | false => rfl

theorem InSession.active_loaded (h : InSession uid record load operation s)
    (hloaded : ¬ ∃ read ∈ s.reads, read.LoadsActive) : load.awaitsActive = false := by
  have hpending : ∀ read ∈ load.reads uid, ¬ read.LoadsActive := by
    intro read hread hloads
    exact hloaded ⟨read, h.reads.symm.subset (List.mem_append_left _ hread), hloads⟩
  cases load with
  | name displayName => exact absurd trivial (hpending _ List.mem_cons_self)
  | lists inventory active =>
      cases active with
      | true =>
          exact absurd trivial (hpending (.signInActive uid)
            (List.mem_append_right _ List.mem_cons_self))
      | false => rfl

/-! ## Taps -/

/-- A sign-in with nothing pending starts a session. -/
theorem inSession_signIn (haccounts : ∀ other, ∃ record, Account (s.remote other) record)
    (hidle : s.pending = []) (uid : Uid) (displayName : Option String) :
    ∃ record, InSession uid record (.name displayName) (.buying 0 0 "" false false)
      (client.perform s s.pending
        ⟨s.state.cleared uid, [], [.signInName uid displayName]⟩) := by
  obtain ⟨record, haccount⟩ := haccounts uid
  refine ⟨record, haccounts, Or.inr rfl, haccount, ?_, ?_, ?_, ?_⟩
  · rw [Client.reads_perform, hidle]
    exact List.Perm.refl _
  · intro hdelivering
    cases hdelivering
  · intro p hp a ha
    change p ∈ s.pending ++ [⟨.signInName uid displayName, none⟩] at hp
    rw [hidle, List.nil_append, List.mem_singleton] at hp
    rw [hp] at ha
    cases ha
  · exact ⟨rfl, rfl, List.Perm.nil⟩

theorem InSession.signOutTap (h : InSession uid record load operation s) :
    InSession uid record load operation
      (client.perform s s.pending ⟨{ s.state with currentUser := none }, [], []⟩) := by
  refine ⟨h.accounts, Or.inl rfl, h.stored, ?_, ?_, ?_, ?_⟩
  · rw [Client.reads_perform, List.append_nil]
    exact h.reads
  · cases operation with
    | buying cell tap key charging delivering => exact h.known
    | placing key item coordinate storing taking => exact h.known
  · intro p hp a ha
    change p ∈ s.pending ++ [] at hp
    rw [List.append_nil] at hp
    exact h.answers p hp a ha
  · exact h.mirror.congr rfl rfl rfl rfl rfl rfl

theorem InSession.buyTap (h : InSession uid record load operation s)
    (hdone : operation.reads uid = []) (cell tap : Nat) :
    InSession uid record load (.buying cell tap (s.state.shown cell).key true true)
      (client.perform s s.pending
        ⟨{ s.state with currentLeaves := s.state.currentLeaves ++ [none] }, [],
          [.buyLeaves uid cell tap,
            .buyInventory uid cell tap (s.state.shown cell).key]⟩) := by
  obtain ⟨hleft, hplaced⟩ := operation.nothing_left hdone
  have hreads := h.reads
  rw [hdone, List.append_nil] at hreads
  refine h.perform (fun _ hp => hp) rfl ?_ h.stored ?_ ?_ ?_ ?_
  · intro write hwrite
    cases hwrite
  · exact hreads.append_right _
  · intro _
    rfl
  · intro read _ a ha
    exact ha
  · exact h.mirror.congr (hleft _).symm rfl hplaced.symm rfl rfl rfl

/-- PLACE is offered for the rows of a loaded inventory. -/
theorem InSession.placeTap (h : InSession uid record load operation s)
    (hdone : operation.reads uid = []) {key item coordinate : String}
    (henabled : (Tap.place key item coordinate).Enabled s.state) :
    InSession uid record load (.placing key item coordinate true true)
      (client.perform s s.pending
        ⟨{ s.state with
            coordinatesOccupied := s.state.coordinatesOccupied ++ [coordinate]
            inventoryItems := takeFromInventory key s.state.inventoryItems }, [],
          [.placeActive uid key item coordinate, .placeInventory uid key]⟩) := by
  obtain ⟨hleft, hplaced⟩ := operation.nothing_left hdone
  obtain ⟨_, _, row, hrow, rfl, rfl⟩ := henabled
  obtain ⟨hinventory, hactive, hoccupied⟩ := h.mirror
  rw [hleft] at hinventory
  rw [hplaced, List.append_nil] at hoccupied
  have hreads := h.reads
  rw [hdone, List.append_nil] at hreads
  have hloaded : load.awaitsInventory = false := by
    by_contra hawaits
    rw [Bool.not_eq_false] at hawaits
    rw [if_pos hawaits] at hinventory
    rw [hinventory] at hrow
    cases hrow
  have hrows : OneEach (rowOf record.inventory) s.state.inventoryItems := by
    rw [hloaded] at hinventory
    exact hinventory
  have hstored := h.stored.named (Or.inl hloaded)
  have hkeyed := (hrows.mem row).mp hrow
  unfold rowOf at hkeyed
  have hcount : record.inventory row.key ≠ 0 := by
    intro hzero
    rw [if_pos hzero] at hkeyed
    cases hkeyed
  rw [if_neg hcount, Option.some.injEq] at hkeyed
  refine h.perform (fun _ hp => hp) rfl ?_ h.stored ?_ ?_ ?_ ⟨?_, hactive, ?_⟩
  · intro write hwrite
    cases hwrite
  · exact hreads.append_right _
  · exact ⟨hstored.inventoryKey row.key hcount, (congrArg GameItem.item hkeyed).symm,
      fun _ => hloaded⟩
  · intro read _ a ha
    exact ha
  · rw [hloaded]
    exact hrows.take (fun _ => rfl)
  · exact hoccupied.append_right _

/-! ## Callbacks of the load -/

section Load

variable {rest : List (Pending Read Snapshot)} (hrest : ∀ p ∈ rest, p ∈ s.pending)
  {snapshot : Snapshot} {fx : Effects App Write Read}
include hrest

/-- The account is made, or the reads of its lists are issued. -/
theorem InSession.serveName (h : InSession uid record load operation s)
    {displayName : Option String}
    (hperm : s.reads.Perm (.signInName uid displayName :: rest.map Pending.read))
    (hgiven : Given s.remote (.signInName uid displayName) snapshot)
    (hrun : signInNameRead uid displayName snapshot s.state = .ok fx) :
    ∃ record' load', InSession uid record' load' operation (client.perform s rest fx) := by
  obtain rfl : load = .name displayName :=
    (h.awaits (hperm.symm.subset List.mem_cons_self)).2.resolve_right id
  have hreads : (rest.map Pending.read).Perm (operation.reads uid) :=
    (hperm.symm.trans h.reads).cons_inv
  obtain ⟨order, rfl⟩ := hgiven.stored (by simp [Read.path, fpath])
  change signInNameRead uid displayName
    (.value ((s.remote uid).child "displayName") order) s.state = _ at hrun
  obtain ⟨hinventory, hactive, hoccupied⟩ := h.mirror
  rcases h.stored with hnamed | ⟨hnew, rfl⟩
  · have hne : ((s.remote uid).child "displayName").isEmpty = false :=
      Tree.isEmpty_eq_false_iff.mpr hnamed.displayName
    unfold signInNameRead at hrun
    simp only [hne, Bool.false_eq_true, if_false] at hrun
    obtain rfl := Except.ok.inj hrun
    refine ⟨record, .lists true true, h.perform hrest rfl ?_ hnamed ?_ ?_ ?_
      ⟨hinventory, hactive, hoccupied⟩⟩
    · intro write hwrite
      cases hwrite
    · exact (hreads.append_right _).trans List.perm_append_comm
    · cases operation with
      | buying cell tap key charging delivering => exact h.known
      | placing key item coordinate storing taking => exact h.known
    · intro read _ a ha
      exact ha
  · rw [hnew, Tree.child_empty] at hrun
    unfold signInNameRead at hrun
    simp only [Tree.isEmpty_empty, if_true] at hrun
    cases displayName with
    | none => cases hrun
    | some name =>
        obtain rfl := Except.ok.inj hrun
        have hremote : client.applyAll [setValue uid [] (newRecord name)] s.remote uid =
            newRecord name :=
          (apply_same (setValue uid [] (newRecord name)) s.remote).trans (Tree.set_nil _ _)
        -- with no row to place, the operation can only be a purchase
        have hbuying : ∀ read ∈ operation.reads uid, ∃ cell tap key,
            read = .buyLeaves uid cell tap ∨ read = .buyInventory uid cell tap key := by
          intro read hread
          obtain ⟨huid, hawaits⟩ := Operation.awaits_of_mem hread
          subst huid
          cases read with
          | buyLeaves uid cell tap => exact ⟨cell, tap, "", Or.inl rfl⟩
          | buyInventory uid cell tap key => exact ⟨cell, tap, key, Or.inr rfl⟩
          | placeActive uid key item coordinate =>
              obtain ⟨taking, rfl⟩ := hawaits
              cases h.known.2.2 rfl
          | placeInventory uid key =>
              obtain ⟨item, coordinate, storing, rfl⟩ := hawaits
              cases h.known.2.2 (Bool.or_true storing)
          | _ => exact hawaits.elim
        refine ⟨UserRecord.new 0, .lists false false, h.perform hrest rfl ?_ ?_ ?_ ?_ ?_ ?_⟩
        · intro write hwrite
          rw [List.mem_singleton.mp hwrite]
          rfl
        · change Named (client.applyAll _ s.remote uid) _
          rw [hremote]
          exact newRecord_named name
        · rw [List.append_nil]
          exact hreads
        · cases operation with
          | buying cell tap key charging delivering => exact h.known
          | placing key item coordinate storing taking =>
              exact ⟨h.known.1, h.known.2.1, fun _ => rfl⟩
        · intro read hread a ha
          obtain ⟨order, hanswer⟩ := ha
          obtain ⟨cell, tap, key, rfl | rfl⟩ := hbuying read hread
          · refine ⟨order, Or.inr ⟨rfl, ?_⟩⟩
            rcases hanswer with hanswer | hanswer
            · rw [hanswer]
              change Snapshot.value ((s.remote uid).get _) order = _
              rw [hnew, Tree.get_empty]
            · exact hanswer.2
          · refine ⟨order, Or.inl ?_⟩
            rcases hanswer with hanswer | hanswer
            · rw [hanswer]
              change Snapshot.value ((s.remote uid).get _) order =
                .value ((client.applyAll _ s.remote uid).get ("inventory" :: fpath [key]))
                  order
              rw [hnew, hremote, Tree.get_empty, newRecord_inventory]
            · exact absurd (List.cons.inj hanswer.1).1 (by decide)
        · exact Mirror.of_cleared hinventory hactive hoccupied

theorem InSession.serveInventory (h : InSession uid record load operation s)
    (hperm : s.reads.Perm (.signInInventory uid :: rest.map Pending.read))
    (hgiven : Given s.remote (.signInInventory uid) snapshot)
    (hrun : signInInventoryRead snapshot s.state = .ok fx) :
    ∃ load', InSession uid record load' operation (client.perform s rest fx) := by
  obtain ⟨active, rfl⟩ : ∃ active, load = .lists true active :=
    (h.awaits (hperm.symm.subset List.mem_cons_self)).2.resolve_right id
  have hreads := h.served (.lists false active) operation hperm
    (List.Perm.refl _)
  obtain ⟨order, rfl⟩ := hgiven.stored (by simp [Read.path, fpath])
  change signInInventoryRead (.value ((s.remote uid).child "inventory") order) s.state = _
    at hrun
  have hstored : Named (s.remote uid) record := h.stored
  obtain ⟨hinventory, hactive, hoccupied⟩ := h.mirror
  obtain ⟨rows, hfresh, hrows⟩ := freshInventory_perm hstored.holds hstored.inventoryKey order
  rw [signInInventoryRead_fresh hfresh hinventory] at hrun
  obtain rfl := Except.ok.inj hrun
  -- no unit has been taken out of rows that were not there
  have hleft : operation.left record.inventory = record.inventory := by
    cases operation with
    | buying cell tap key charging delivering => rfl
    | placing key item coordinate storing taking =>
        cases taking with
        | false => rfl
        | true => cases h.known.2.2 (Bool.or_true storing)
  refine ⟨.lists false active, h.perform hrest rfl ?_ hstored ?_ ?_ ?_
    ⟨?_, hactive, hoccupied⟩⟩
  · intro write hwrite
    cases hwrite
  · rw [List.append_nil]
    exact hreads
  · cases operation with
    | buying cell tap key charging delivering => exact h.known
    | placing key item coordinate storing taking =>
        exact ⟨h.known.1, h.known.2.1, fun _ => rfl⟩
  · intro read _ a ha
    exact ha
  · rw [hleft]
    exact (inventoryRows_oneEach hstored.inventoryKey).of_perm hrows

theorem InSession.serveActive (h : InSession uid record load operation s)
    (hperm : s.reads.Perm (.signInActive uid :: rest.map Pending.read))
    (hgiven : Given s.remote (.signInActive uid) snapshot)
    (hrun : signInActiveRead snapshot s.state = .ok fx) :
    ∃ load', InSession uid record load' operation (client.perform s rest fx) := by
  obtain ⟨inventory, rfl⟩ : ∃ inventory, load = .lists inventory true :=
    (h.awaits (hperm.symm.subset List.mem_cons_self)).2.resolve_right id
  have hserved : (Load.reads uid (.lists inventory true) ++ operation.reads uid).Perm
      (.signInActive uid ::
        (Load.reads uid (.lists inventory false) ++ operation.reads uid)) := by
    unfold Load.reads
    rw [List.append_assoc, List.append_assoc]
    exact List.perm_middle
  have hreads := h.served _ _ hperm hserved
  obtain ⟨order, rfl⟩ := hgiven.stored (by simp [Read.path, fpath])
  change signInActiveRead (.value ((s.remote uid).child "activeItems") order) s.state = _
    at hrun
  have hstored : Named (s.remote uid) record := h.stored
  obtain ⟨hinventory, hactive, hoccupied⟩ := h.mirror
  obtain ⟨entries, hfresh, hentries⟩ := freshActive_perm hstored.holds hstored.landKey order
  rw [signInActiveRead_fresh hfresh] at hrun
  obtain rfl := Except.ok.inj hrun
  refine ⟨.lists inventory false, h.perform hrest rfl ?_ hstored ?_ ?_ ?_
    ⟨hinventory, ?_, ?_⟩⟩
  · intro write hwrite
    cases hwrite
  · rw [List.append_nil]
    exact hreads
  · cases operation with
    | buying cell tap key charging delivering => exact h.known
    | placing key item coordinate storing taking => exact h.known
  · intro read _ a ha
    exact ha
  · have hempty : s.state.activeItems = [] := hactive
    change OneEach (entryOf record.land) (s.state.activeItems ++ entries)
    rw [hempty, List.nil_append]
    exact (landRows_oneEach hstored.landKey).of_perm hentries
  · have hcoordinates := hentries.flatMap_right GameItem.coordinates
    rw [flatMap_landRows] at hcoordinates
    exact (hoccupied.append hcoordinates).trans List.perm_append_comm

end Load

/-! ## Callbacks of the operation -/

section Operation

variable {rest : List (Pending Read Snapshot)} (hrest : ∀ p ∈ rest, p ∈ s.pending)
  {snapshot : Snapshot} {fx : Effects App Write Read}
include hrest

/-- A callback that writes below one field, which nothing else reads. -/
theorem InSession.performOn (h : InSession uid record load operation s)
    {record' : UserRecord} {operation' : Operation} {field : String}
    (huser : fx.state.currentUser = s.state.currentUser) (hdone : fx.reads = [])
    (hwrites : WritesOn uid field fx.writes)
    (hstored : load.Stored (client.applyAll fx.writes s.remote uid) record')
    (hreads : (rest.map Pending.read).Perm (load.reads uid ++ operation'.reads uid))
    (hload : Elsewhere field (load.reads uid))
    (hother : Elsewhere field (operation'.reads uid))
    (hknown : operation'.Known load fx.state)
    (hmirror : Mirror record' load operation' fx.state) :
    InSession uid record' load operation' (client.perform s rest fx) := by
  refine h.perform hrest huser (fun write hwrite => (hwrites write hwrite).1) hstored ?_
    hknown ?_ hmirror
  · rw [hdone, List.append_nil]
    exact hreads
  · intro read hread a ha
    exact ha.applyAll hwrites (hload.append hother read hread)

/-- The purchase is charged. -/
theorem InSession.charge (h : InSession uid record load operation s) {cell tap : Nat}
    (hperm : s.reads.Perm (.buyLeaves uid cell tap :: rest.map Pending.read))
    (hgiven : Given s.remote (.buyLeaves uid cell tap) snapshot)
    (hrun : buyLeavesRead uid cell tap snapshot s.state = .ok fx) :
    ∃ record' operation', InSession uid record' load operation' (client.perform s rest fx) := by
  obtain ⟨key, delivering, rfl⟩ : ∃ key delivering,
      operation = .buying cell tap key true delivering :=
    (h.awaits (hperm.symm.subset List.mem_cons_self)).2.resolve_left id
  have hreads := h.served load (.buying cell tap key false delivering) hperm
    List.perm_middle
  have hload := load.elsewhere_currentLeaves uid
  have hother : Elsewhere "currentLeaves"
      (Operation.reads uid (.buying cell tap key false delivering)) :=
    Elsewhere.issued rfl (by decide) delivering
  obtain ⟨order, hanswer⟩ := hgiven
  -- the wallet is that of the record, or there was no record
  have hwallet : snapshot = .value Tree.empty order ∨ Named (s.remote uid) record ∧
      snapshot = .value (Tree.leaf (.int record.currentLeaves)) order := by
    rcases hanswer with hanswer | hanswer
    · rcases h.stored.account with hnamed | ⟨hnew, _⟩
      · right
        refine ⟨hnamed, hanswer.trans ?_⟩
        change Snapshot.value ((s.remote uid).get (fpath ["currentLeaves"])) order = _
        rw [hnamed.holds.get_currentLeaves]
      · left
        rw [hanswer]
        change Snapshot.value ((s.remote uid).get _) order = _
        rw [hnew, Tree.get_empty]
    · exact Or.inl hanswer.2
  rcases hwallet with rfl | ⟨hnamed, rfl⟩
  · obtain rfl : ⟨s.state, [], []⟩ = fx := Except.ok.inj hrun
    exact ⟨record, _, h.performOn hrest rfl rfl (WritesOn.nil uid "currentLeaves") h.stored
      hreads hload hother h.known (h.mirror.congr rfl rfl rfl rfl rfl rfl)⟩
  · rw [buyLeavesRead_wallet] at hrun
    obtain rfl := Except.ok.inj hrun
    refine ⟨_, _, h.performOn hrest rfl rfl (writesOn_chargeWrites uid _ _)
      ((hnamed.chargeWrites _).stored load) hreads hload hother h.known ?_⟩
    exact h.mirror.congr (record.charge_inventory _) (record.charge_land _) rfl rfl rfl rfl

/-- The item is delivered, once the rows are loaded. -/
theorem InSession.deliver (h : InSession uid record load operation s) {cell tap : Nat}
    {key : String} (hloaded : load.awaitsInventory = false)
    (hperm : s.reads.Perm (.buyInventory uid cell tap key :: rest.map Pending.read))
    (hgiven : Given s.remote (.buyInventory uid cell tap key) snapshot)
    (hrun : buyInventoryRead uid cell tap snapshot s.state = .ok fx) :
    ∃ record' operation', InSession uid record' load operation' (client.perform s rest fx) := by
  obtain ⟨charging, rfl⟩ : ∃ charging, operation = .buying cell tap key charging true :=
    (h.awaits (hperm.symm.subset List.mem_cons_self)).2.resolve_left id
  obtain rfl : (s.state.shown cell).key = key := h.known rfl
  have hreads := h.served load
    (.buying cell tap (s.state.shown cell).key charging false) hperm (issued_last _ _ _)
  have hload := load.elsewhere_inventory uid hloaded
  have hother : Elsewhere "inventory" (Operation.reads uid
      (.buying cell tap (s.state.shown cell).key charging false)) :=
    (Elsewhere.issued rfl (by decide) charging).append (Elsewhere.nil _)
  have hknown : Operation.Known load fx.state
      (.buying cell tap (s.state.shown cell).key charging false) := by
    intro hdelivering
    cases hdelivering
  have hnamed := h.stored.named (Or.inl hloaded)
  have hkey : (s.state.shown cell).key ∈ storeKeys :=
    storeItem_key_mem (s.state.storeItem cell)
  obtain ⟨order, rfl⟩ := hgiven.stored (fun heq => absurd (List.cons.inj heq).1 (by decide))
  change buyInventoryRead uid cell tap
    (.value ((s.remote uid).get (fpath ["inventory", (s.state.shown cell).key])) order)
    s.state = _ at hrun
  rw [hnamed.holds.get_inventory (storeKeys_ne_empty hkey)] at hrun
  obtain ⟨leaves, hcaptured, _⟩ := buyInventoryRead_cases hrun
  rw [buyInventoryRead_count _ _ _ _ _ hcaptured] at hrun
  obtain ⟨hinventory, hactive, hoccupied⟩ := h.mirror
  by_cases hcost : leaves - (s.state.shown cell).cost ≥ 0
  · rw [if_pos hcost] at hrun
    obtain rfl := Except.ok.inj hrun
    refine ⟨_, _, h.performOn hrest rfl rfl (writesOn_countWrite uid _ _)
      ((hnamed.countWrite hkey _).stored load) hreads hload hother hknown
      ⟨?_, hactive, hoccupied⟩⟩
    rw [hloaded] at hinventory ⊢
    refine OneEach.deliver hinventory (storeItem_item (s.state.storeItem cell)) ?_
    intro other
    change (record.setInventory _ _).inventory other = _
    rw [UserRecord.setInventory_inventory]
    by_cases heq : other = (s.state.shown cell).key
    · rw [if_pos heq, if_pos heq, heq]
      rfl
    · rw [if_neg heq, if_neg heq]
      rfl
  · rw [if_neg hcost] at hrun
    obtain rfl := Except.ok.inj hrun
    exact ⟨record, _, h.performOn hrest rfl rfl (WritesOn.nil uid "inventory") h.stored
      hreads hload hother hknown ⟨hinventory, hactive, hoccupied⟩⟩

/-- The coordinate is stored, once the entries are loaded. -/
theorem InSession.store (h : InSession uid record load operation s)
    {key item coordinate : String} (hloaded : load.awaitsActive = false)
    (hperm : s.reads.Perm (.placeActive uid key item coordinate :: rest.map Pending.read))
    (hgiven : Given s.remote (.placeActive uid key item coordinate) snapshot)
    (hrun : placeActiveRead uid key item coordinate snapshot s.state = .ok fx) :
    ∃ record' operation', InSession uid record' load operation' (client.perform s rest fx) := by
  obtain ⟨taking, rfl⟩ : ∃ taking, operation = .placing key item coordinate true taking :=
    (h.awaits (hperm.symm.subset List.mem_cons_self)).2.resolve_left id
  obtain ⟨hkey, hitem, hrows⟩ := h.known
  have hreads := h.served load (.placing key item coordinate false taking) hperm
    List.perm_middle
  have hother : Elsewhere "activeItems"
      (Operation.reads uid (.placing key item coordinate false taking)) :=
    Elsewhere.issued rfl (by decide) taking
  have hnamed := h.stored.named (Or.inr hloaded)
  obtain ⟨order, rfl⟩ := hgiven.stored (fun heq => absurd (List.cons.inj heq).1 (by decide))
  change placeActiveRead uid key item coordinate
    (.value ((s.remote uid).get (fpath ["activeItems", key])) order) s.state = _ at hrun
  rw [placeActiveRead_list (hnamed.holds.get_active (storeKeys_ne_empty hkey))] at hrun
  obtain rfl := Except.ok.inj hrun
  obtain ⟨hinventory, hactive, hoccupied⟩ := h.mirror
  have hplaced := record.setLand_land key (record.land key ++ [coordinate])
  refine ⟨_, _, h.performOn hrest rfl rfl (WritesOn.singleton rfl ⟨_, rfl⟩)
    ((hnamed.placeWrite hkey coordinate).stored load) hreads
    (load.elsewhere_active uid hloaded) hother ⟨hkey, hitem, fun _ => hrows rfl⟩
    ⟨?_, ?_, ?_⟩⟩
  · cases taking with
    | true => exact hinventory
    | false => exact hinventory
  · rw [hloaded] at hactive ⊢
    exact OneEach.place hactive hitem hplaced
  · rw [hloaded] at hoccupied ⊢
    change s.state.coordinatesOccupied.Perm (landCoordinates _ ++ [])
    rw [List.append_nil]
    exact hoccupied.trans (landCoordinates_place hkey hplaced).symm

/-- The unit is taken out of the stored count too. -/
theorem InSession.take (h : InSession uid record load operation s) {key : String}
    (hperm : s.reads.Perm (.placeInventory uid key :: rest.map Pending.read))
    (hgiven : Given s.remote (.placeInventory uid key) snapshot)
    (hrun : placeInventoryRead uid key snapshot s.state = .ok fx) :
    ∃ record' operation', InSession uid record' load operation' (client.perform s rest fx) := by
  obtain ⟨item, coordinate, storing, rfl⟩ : ∃ item coordinate storing,
      operation = .placing key item coordinate storing true :=
    (h.awaits (hperm.symm.subset List.mem_cons_self)).2.resolve_left id
  obtain ⟨hkey, hitem, hrows⟩ := h.known
  have hloaded := hrows (Bool.or_true storing)
  have hreads := h.served load (.placing key item coordinate storing false) hperm
    (issued_last _ _ _)
  have hother : Elsewhere "inventory"
      (Operation.reads uid (.placing key item coordinate storing false)) :=
    (Elsewhere.issued rfl (by decide) storing).append (Elsewhere.nil _)
  have hnamed := h.stored.named (Or.inl hloaded)
  obtain ⟨order, rfl⟩ := hgiven.stored (fun heq => absurd (List.cons.inj heq).1 (by decide))
  change placeInventoryRead uid key
    (.value ((s.remote uid).get (fpath ["inventory", key])) order) s.state = _ at hrun
  rw [hnamed.holds.get_inventory (storeKeys_ne_empty hkey), placeInventoryRead_count] at hrun
  obtain rfl := Except.ok.inj hrun
  obtain ⟨hinventory, hactive, hoccupied⟩ := h.mirror
  have hleft : (record.setInventory key (record.inventory key - 1)).inventory =
      fun other => record.inventory other - if other = key then 1 else 0 := by
    funext other
    rw [UserRecord.setInventory_inventory]
    by_cases heq : other = key
    · rw [if_pos heq, if_pos heq, heq]
    · rw [if_neg heq, if_neg heq, Nat.sub_zero]
  refine ⟨_, _, h.performOn hrest rfl rfl (writesOn_takeWrites uid key _)
    ((hnamed.takeWrites hkey).stored load) hreads (load.elsewhere_inventory uid hloaded)
    hother ⟨hkey, hitem, fun _ => hloaded⟩ ⟨?_, hactive, ?_⟩⟩
  · rw [hloaded] at hinventory ⊢
    change OneEach (rowOf (record.setInventory key (record.inventory key - 1)).inventory)
      s.state.inventoryItems
    rw [hleft]
    exact hinventory
  · cases storing with
    | true => exact hoccupied
    | false => exact hoccupied

end Operation

/-- A callback that does not overtake the load. -/
theorem InSession.serve (h : InSession uid record load operation s) {read : Read}
    {snapshot : Snapshot} {before after : List (Pending Read Snapshot)}
    (hpending : s.pending = before ++ ⟨read, some snapshot⟩ :: after)
    (hC : LoadsUndisturbed s (.serve before.length)) {fx : Effects App Write Read}
    (hrun : client.callback read snapshot s.state = .ok fx) :
    ∃ record' load' operation', InSession uid record' load' operation'
      (client.perform s (before ++ after) fx) := by
  have hmem : (⟨read, some snapshot⟩ : Pending Read Snapshot) ∈ s.pending := by
    simp [hpending]
  have hserved : (⟨read, some snapshot⟩ : Pending Read Snapshot) ∈
      s.pending[before.length]? := by
    simp [hpending]
  have hrest := Client.mem_pending_of_rest hpending
  have hperm := reads_perm_of_serve hpending
  have hturn : ¬ read.Overtakes s.reads := hC _ hserved
  have hgiven : Given s.remote read snapshot := h.answers _ hmem snapshot rfl
  obtain ⟨huid, hawaits⟩ := h.awaits (List.mem_map_of_mem hmem)
  change read.uid = uid at huid
  subst huid
  cases read with
  | signInName uid displayName =>
      obtain ⟨record', load', hnext⟩ := h.serveName hrest hperm hgiven hrun
      exact ⟨record', load', operation, hnext⟩
  | signInInventory uid =>
      obtain ⟨load', hnext⟩ := h.serveInventory hrest hperm hgiven hrun
      exact ⟨record, load', operation, hnext⟩
  | signInActive uid =>
      obtain ⟨load', hnext⟩ := h.serveActive hrest hperm hgiven hrun
      exact ⟨record, load', operation, hnext⟩
  | buyLeaves uid cell tap =>
      obtain ⟨record', operation', hnext⟩ := h.charge hrest hperm hgiven hrun
      exact ⟨record', load, operation', hnext⟩
  | buyInventory uid cell tap key =>
      obtain ⟨record', operation', hnext⟩ :=
        h.deliver hrest (h.inventory_loaded hturn) hperm hgiven hrun
      exact ⟨record', load, operation', hnext⟩
  | placeActive uid key item coordinate =>
      obtain ⟨record', operation', hnext⟩ :=
        h.store hrest (h.active_loaded hturn) hperm hgiven hrun
      exact ⟨record', load, operation', hnext⟩
  | placeInventory uid key =>
      obtain ⟨record', operation', hnext⟩ := h.take hrest hperm hgiven hrun
      exact ⟨record', load, operation', hnext⟩
  | _ => rcases hawaits with hawaits | hawaits <;> exact hawaits.elim

theorem InSession.answered (h : InSession uid record load operation s) {read : Read}
    {before after : List (Pending Read Snapshot)}
    (hpending : s.pending = before ++ ⟨read, none⟩ :: after) {reply : Reply}
    (hreply : reply.Succeeds) :
    InSession uid record load operation { s with
      pending := before ++ ⟨read, some (read.answer reply s.remote)⟩ :: after } := by
  refine ⟨h.accounts, h.currentUser, h.stored, ?_, h.known, ?_, h.mirror⟩
  · have hreads := h.reads
    unfold Sys.reads at hreads ⊢
    rw [hpending, List.map_append] at hreads
    rw [List.map_append]
    exact hreads
  · intro p hp a ha
    rw [List.mem_append, List.mem_cons] at hp
    rcases hp with hp | rfl | hp
    · exact h.answers p (by simp [hpending, hp]) a ha
    · obtain rfl := Option.some.inj ha
      cases reply with
      | error => exact hreply.elim
      | value order => exact ⟨order, Or.inl rfl⟩
    · exact h.answers p (by simp [hpending, hp]) a ha

/-- A tap on BUY or PLACE, by the user of the session. -/
theorem InSession.operationTap (h : InSession uid record load operation s) {tap : Tap}
    (henabled : tap.Enabled s.state) (hremove : ∀ coordinate, tap ≠ .remove coordinate)
    (hdone : ∀ read ∈ s.reads, ¬ read.IsOperation) {fx : Effects App Write Read}
    (hrun : client.tap tap s.state = .ok fx) :
    ∃ operation', InSession uid record load operation' (client.perform s s.pending fx) := by
  have hleft := h.operation_done hdone
  cases tap with
  | buy cell =>
      rcases h.currentUser with hnone | huser
      · exact absurd hrun (operation_signedOut hnone henabled hremove fx)
      · have htap : client.tap (.buy cell) s.state =
            .ok ⟨{ s.state with currentLeaves := s.state.currentLeaves ++ [none] }, [],
              [.buyLeaves uid cell s.state.currentLeaves.length,
                .buyInventory uid cell s.state.currentLeaves.length
                  (s.state.shown cell).key]⟩ := by
          simp [Tap.handle, buyOnClick, huser, bind, Except.bind]
        rw [htap] at hrun
        obtain rfl := Except.ok.inj hrun
        exact ⟨_, h.buyTap hleft cell _⟩
  | place key item coordinate =>
      have hne := henabled.1
      rcases h.currentUser with hnone | huser
      · exact absurd hrun (operation_signedOut hnone henabled hremove fx)
      · have htap : client.tap (.place key item coordinate) s.state =
            .ok ⟨{ s.state with
                coordinatesOccupied := s.state.coordinatesOccupied ++ [coordinate]
                inventoryItems := takeFromInventory key s.state.inventoryItems }, [],
              [.placeActive uid key item coordinate, .placeInventory uid key]⟩ := by
          simp [Tap.handle, onPlacementCompleted, hne, huser, bind, Except.bind]
        rw [htap] at hrun
        obtain rfl := Except.ok.inj hrun
        exact ⟨_, h.placeTap hleft henabled⟩
  | remove coordinate => exact absurd rfl (hremove coordinate)
  | _ => exact henabled.elim

end Step

/-! ## Runs -/

/-- Nobody is signed in and nothing is pending, or a session is running. -/
def Isolated (s : AppSys) : Prop :=
  (∀ uid, ∃ record, Account (s.remote uid) record) ∧
    (s.state.currentUser = none ∧ s.pending = [] ∨
      ∃ uid record load operation, InSession uid record load operation s)

theorem InSession.isolated {uid : Uid} {record : UserRecord} {load : Load}
    {operation : Operation} {s : AppSys} (h : InSession uid record load operation s) :
    Isolated s :=
  ⟨h.accounts, Or.inr ⟨uid, record, load, operation, h⟩⟩

theorem Isolated.step {s s' : AppSys} {e : AppEvent}
    {o : Option (Entry App Write Read Snapshot Tap)} (h : Isolated s)
    (hC : SignsInAlone s e) (hmove : client.Step s e o s') : Isolated s' := by
  obtain ⟨haccounts, hsession⟩ := h
  obtain ⟨hplays, halone⟩ := hC
  cases hmove with
  | @tap tap fx hrun =>
      have hoperation : tap.Enabled s.state → (∀ coordinate, tap ≠ .remove coordinate) →
          (∀ read ∈ s.reads, ¬ read.IsOperation) →
          Isolated (client.perform s s.pending fx) := by
        intro henabled hremove hdone
        rcases hsession with ⟨hout, _⟩ | ⟨uid, record, load, operation, h⟩
        · exact absurd hrun (operation_signedOut hout henabled hremove fx)
        · obtain ⟨operation', hnext⟩ := h.operationTap henabled hremove hdone hrun
          exact hnext.isolated
      cases tap with
      | signIn uid displayName =>
          obtain rfl : ⟨s.state.cleared uid, [], [.signInName uid displayName]⟩ = fx :=
            Except.ok.inj hrun
          obtain ⟨record, hnext⟩ := inSession_signIn haccounts halone uid displayName
          exact hnext.isolated
      | signOut =>
          obtain rfl : ⟨{ s.state with currentUser := none }, [], []⟩ = fx :=
            Except.ok.inj hrun
          rcases hsession with ⟨_, hidle⟩ | ⟨uid, record, load, operation, h⟩
          · refine ⟨haccounts, Or.inl ⟨rfl, ?_⟩⟩
            change s.pending ++ [] = []
            rw [hidle, List.append_nil]
          · exact h.signOutTap.isolated
      | buy cell => exact hoperation hplays.1 (by intro _ heq; cases heq) hplays.2
      | place key item coordinate =>
          exact hoperation hplays.1 (by intro _ heq; cases heq) hplays.2
      | remove coordinate => exact hplays.elim
      | _ => exact hplays.1.elim
  | @answer read before after hpending reply =>
      rcases hsession with ⟨_, hidle⟩ | ⟨uid, record, load, operation, h⟩
      · rw [hidle] at hpending
        simp at hpending
      · exact (h.answered hpending hplays).isolated
  | @serve read snapshot before after hpending fx hrun =>
      rcases hsession with ⟨_, hidle⟩ | ⟨uid, record, load, operation, h⟩
      · rw [hidle] at hpending
        simp at hpending
      · obtain ⟨_, _, _, hnext⟩ := h.serve hpending halone hrun
        exact hnext.isolated
  | idleAnswer hidle reply => exact ⟨haccounts, hsession⟩
  | idleServe hidle => exact ⟨haccounts, hsession⟩

/-- **Sign-ins are isolated.**  In every run from a signed-out app in which nothing
is pending at a sign-in and no callback of BUY or PLACE overtakes the load of the
list it changes, the lists are those of a fresh load of the signed-in account
whenever nothing is pending. -/
theorem run_signIn_isolated {remote : Remote} {app : App}
    (haccounts : ∀ uid, ∃ record, Account (remote uid) record)
    (hout : app.currentUser = none) {es : List AppEvent} {s' : AppSys}
    (halong : client.Along SignsInAlone ⟨remote, app, []⟩ es)
    (hrun : client.run ⟨remote, app, []⟩ es = .ok s') (hidle : s'.pending = [])
    {uid : Uid} (huser : s'.state.currentUser = some uid) :
    ShowsFreshLoad (s'.remote uid) s'.state := by
  have hend : Isolated s' := client.run_invariant Isolated
    (fun _ _ _ _ hinv hC hmove => hinv.step hC hmove)
    ⟨haccounts, Or.inl ⟨hout, rfl⟩⟩ halong hrun
  obtain ⟨_, hsession⟩ := hend
  rcases hsession with ⟨hnone, _⟩ | ⟨owner, record, load, operation, h⟩
  · rw [hnone] at huser
    cases huser
  · obtain rfl : owner = uid := by
      rcases h.currentUser with hnone | hsome
      · rw [hnone] at huser
        cases huser
      · exact Option.some.inj (hsome.symm.trans huser)
    have hreads := h.reads
    unfold Sys.reads at hreads
    rw [hidle, List.map_nil, List.nil_perm, List.append_eq_nil_iff] at hreads
    obtain ⟨hload, hoperation⟩ := hreads
    have hnamed : Named (s'.remote owner) record := by
      cases load with
      | name displayName => cases hload
      | lists inventory active => exact h.stored
    exact h.mirror.showsFreshLoad hnamed hload hoperation

/-- Ann has a tree on her land and 50 leaves; the others are new. -/
def annPlanted : Remote :=
  Function.update (fun _ => Tree.empty) "ann"
    ((plantedTree "ann").set ["currentLeaves"] (Tree.leaf (.int 50)))

theorem annPlanted_account (uid : Uid) : ∃ record, Account (annPlanted uid) record := by
  unfold annPlanted
  by_cases huid : uid = "ann"
  · rw [huid, Function.update_self]
    refine ⟨_, Or.inl ⟨(plantedTree_holds "ann").setCurrentLeaves 50,
      plantedTree_wellFormed.inventoryKey, plantedTree_wellFormed.landKey, ?_⟩⟩
    simp [plantedTree, newUser, newRecord, Tree.set_cons, Tree.child_setChild]
  · rw [Function.update_of_ne huid]
    exact ⟨_, Or.inr ⟨rfl, rfl⟩⟩

/-- The app before anyone has signed in. -/
def signedOutApp (storeItem : Nat → ShelfItem) : App where
  currentUser := none
  inventoryItems := []
  activeItems := []
  coordinatesOccupied := []
  storeItem := storeItem
  currentLeaves := []
  alerts := []

/-- Ann buys a tree while her land is being loaded and signs out before it is;
Bob makes an account; Ann comes back and places the tree before her land has
been loaded again. -/
def sessions : List AppEvent :=
  [ .tap (.signIn "ann" none), .answer 0 (.value []), .serve 0, .tap (.buy 0),
    .answer 2 (.value []), .serve 2, .answer 0 (.value []), .serve 0,
    .answer 1 (.value []), .serve 1, .tap .signOut, .answer 0 (.value []), .serve 0,
    .tap (.signIn "bob" (some "Bob")), .answer 0 (.value []), .serve 0, .tap .signOut,
    .tap (.signIn "ann" none), .answer 0 (.value []), .serve 0, .answer 0 (.value []),
    .serve 0, .tap (.place "tree" "Tree" "(0,1)"), .answer 2 (.value []), .serve 2,
    .answer 0 (.value []), .serve 0, .answer 0 (.value []), .serve 0 ]

theorem run_signIn_isolated_sessions :
    ∃ s', client.run ⟨annPlanted, signedOutApp treeShelf, []⟩ sessions = .ok s' ∧
      ShowsFreshLoad (s'.remote "ann") s'.state := by
  obtain ⟨s', hrun, hidle, huser⟩ :
      ∃ s', client.run ⟨annPlanted, signedOutApp treeShelf, []⟩ sessions = .ok s' ∧
        s'.pending = [] ∧ s'.state.currentUser = some "ann" :=
    client.exists_run_of_check (by decide +kernel)
  exact ⟨s', hrun, run_signIn_isolated annPlanted_account rfl (by decide +kernel) hrun
    hidle huser⟩

/-- Ann signs out before her lists are read, and Bob signs in. -/
def lateCallbacks : List AppEvent :=
  [ .tap (.signIn "ann" none), .answer 0 (.value []), .serve 0,
    .tap .signOut, .tap (.signIn "bob" (some "Bob")),
    .answer 0 (.value []), .answer 1 (.value []), .answer 2 (.value []),
    .serve 0, .serve 0, .serve 0 ]

/-- Bob, who is new, gets Ann's land. -/
theorem not_run_signIn_isolated :
    ¬ ∀ (remote : Remote) (app : App) (es : List AppEvent),
        (∀ uid, ∃ record, Account (remote uid) record) → app.currentUser = none →
        client.Along SignsInAndPlays ⟨remote, app, []⟩ es →
        ∀ s', client.run ⟨remote, app, []⟩ es = .ok s' → s'.pending = [] →
          ∀ uid, s'.state.currentUser = some uid →
            ShowsFreshLoad (s'.remote uid) s'.state := by
  intro hclaim
  obtain ⟨s', hrun, hidle, huser, hshown, hstored⟩ :
      ∃ s', client.run ⟨annPlanted, signedOutApp treeShelf, []⟩ lateCallbacks = .ok s' ∧
        s'.pending = [] ∧ s'.state.currentUser = some "bob" ∧
        s'.state.activeItems = [⟨"tree", "Tree", 1, ["(0,0)"]⟩] ∧
        ((s'.remote "bob").child "activeItems").isEmpty = true :=
    client.exists_run_of_check (by decide +kernel)
  obtain ⟨_, entries, _, hentries, _, hperm, _⟩ := hclaim annPlanted
    (signedOutApp treeShelf) lateCallbacks annPlanted_account rfl (by decide +kernel) s' hrun
    hidle "bob" huser [] []
  unfold freshActive at hentries
  rw [if_pos hstored] at hentries
  obtain rfl := Except.ok.inj hentries
  rw [hshown] at hperm
  exact absurd hperm.eq_nil (by simp)

end WillItRecycle

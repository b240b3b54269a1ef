import WillItRecycle.WriteTree

/-!
# Runs of writes and answers

`write_tree_follows`: whatever is written and answered in between, the tree shows the
data of the server with the pending writes applied to them, the latest last, provided
that each answered write can be taken out of the tree (`Removable`).
`update_hidden_by_answer`: an update of the root that writes below a pending overwrite is
lost from the tree with its answer.
-/

namespace WillItRecycle

open PathTree

/-! ## Answers -/

section Answers

variable {before after : List FWriteRecord} {record : FWriteRecord}

/-- Ids grow. -/
def Numbered (records : List FWriteRecord) : Prop :=
  records.Pairwise fun record later => record.writeId < later.writeId

theorem Numbered.findIdx? (h : Numbered (before ++ record :: after)) :
    (before ++ record :: after).findIdx? (fun other => other.writeId = record.writeId) =
      some before.length := by
  have hbefore : before.findIdx? (fun other => other.writeId = record.writeId) = none := by
    rw [List.findIdx?_eq_none_iff]
    intro other hother
    have hlt := (List.pairwise_append.mp h).2.2 other hother record List.mem_cons_self
    simpa using hlt.ne
  rw [List.findIdx?_append, hbefore, List.findIdx?_cons]
  simp

theorem Numbered.filter (h : Numbered (before ++ record :: after)) :
    (before ++ record :: after).filter (fun other => other.writeId ≠ record.writeId) =
      before ++ after := by
  have hother : ∀ other ∈ before ++ after, other.writeId ≠ record.writeId := by
    intro other hother
    rcases List.mem_append.mp hother with hbefore | hafter
    · exact ((List.pairwise_append.mp h).2.2 other hbefore record List.mem_cons_self).ne
    · have hlater := (List.pairwise_append.mp h).2.1
      exact ((List.pairwise_cons.mp hlater).1 other hafter).ne'
  rw [List.filter_append, List.filter_cons_of_neg (by simp), ← List.filter_append,
    List.filter_eq_self]
  simpa using hother

/-- The positions from `before.length` on are those of the later writes. -/
theorem mem_positions {other : FWriteRecord} {i : Nat} :
    (other, i) ∈ (before ++ after).zipIdx.reverse ∧ i ≥ before.length →
      other ∈ after := by
  rintro ⟨hmem, hge⟩
  rw [List.mem_reverse, List.mem_zipIdx_iff_getElem?, List.getElem?_append_right hge] at hmem
  exact List.mem_of_getElem? hmem

theorem exists_position {other : FWriteRecord} (h : other ∈ after) :
    ∃ i, (other, i) ∈ (before ++ after).zipIdx.reverse ∧ i ≥ before.length := by
  obtain ⟨i, hi⟩ := List.mem_iff_getElem?.mp h
  refine ⟨before.length + i, ?_, Nat.le_add_right _ i⟩
  rw [List.mem_reverse, List.mem_zipIdx_iff_getElem?,
    List.getElem?_append_right (Nat.le_add_right _ i), Nat.add_sub_cancel_left]
  exact hi

namespace FWriteTree

variable {path : List String} {index : Nat} {writes : List (FWriteRecord × Nat)}

theorem visibleAndOverlaps_covered
    (h : ∃ write ∈ writes, write.2 ≥ index ∧ write.1.containsPath path = true)
    (overlaps : Bool) : (visibleAndOverlaps path index writes overlaps).1 = false := by
  induction writes generalizing overlaps with
  | nil =>
      obtain ⟨write, hwrite, _⟩ := h
      cases hwrite
  | cons current rest ih =>
      rw [visibleAndOverlaps]
      split
      · rfl
      · next hnot =>
        refine ih ?_ _
        obtain ⟨write, hwrite, hcovers⟩ := h
        rcases List.mem_cons.mp hwrite with rfl | hrest
        · exact absurd hcovers hnot
        · exact ⟨write, hrest, hcovers⟩

theorem visibleAndOverlaps_visible
    (h : ∀ write ∈ writes, ¬ (write.2 ≥ index ∧ write.1.containsPath path = true))
    (overlaps : Bool) : visibleAndOverlaps path index writes overlaps =
      (true, overlaps || writes.any fun write => path <+: write.1.path) := by
  induction writes generalizing overlaps with
  | nil => simp [visibleAndOverlaps]
  | cons current rest ih =>
      obtain ⟨hcurrent, hrest⟩ := List.forall_mem_cons.mp h
      rw [visibleAndOverlaps, if_neg hcurrent, ih hrest, List.any_cons, Bool.or_assoc]

variable {tree : FWriteTree}

theorem removeWriteId_covered (hids : Numbered (before ++ record :: after))
    (hall : tree.allWrites = before ++ record :: after)
    (h : ∃ other ∈ after, other.containsPath record.path = true) :
    tree.removeWriteId record.writeId =
      some (false, { tree with allWrites := before ++ after }) := by
  obtain ⟨other, hother, hcovers⟩ := h
  obtain ⟨i, hposition, hge⟩ := @exists_position before after other hother
  have hvisible := visibleAndOverlaps_covered ⟨(other, i), hposition, hge, hcovers⟩ false
  rw [removeWriteId, hall, hids.findIdx?]
  simp only [Option.bind_eq_bind, Option.bind_some, List.getElem?_append_right le_rfl,
    Nat.sub_self, List.getElem?_cons_zero, List.eraseIdx_append_of_length_le le_rfl,
    List.eraseIdx_cons_zero]
  split
  · rfl
  · next heq => rw [heq] at hvisible; cases hvisible
  · next heq => rw [heq] at hvisible; cases hvisible

theorem removeWriteId_visible (hids : Numbered (before ++ record :: after))
    (hall : tree.allWrites = before ++ record :: after)
    (h : ¬ ∃ other ∈ after, other.containsPath record.path = true) :
    tree.removeWriteId record.writeId =
      if ∃ other ∈ before ++ after, record.path <+: other.path then
        some (true, ({ tree with allWrites := before ++ after } : FWriteTree).resetTree)
      else
        some (true, { tree with
          allWrites := before ++ after
          visibleWrites := removeVisible tree.visibleWrites record }) := by
  have hnot : ∀ write ∈ (before ++ after).zipIdx.reverse,
      ¬ (write.2 ≥ before.length ∧ write.1.containsPath record.path = true) :=
    fun write hwrite hcovers => h ⟨write.1, mem_positions ⟨hwrite, hcovers.1⟩, hcovers.2⟩
  have hany : ((before ++ after).zipIdx.reverse.any fun write => record.path <+: write.1.path) =
      decide (∃ other ∈ before ++ after, record.path <+: other.path) := by
    rw [List.any_reverse, Bool.eq_iff_iff, List.any_eq_true, decide_eq_true_eq]
    constructor
    · rintro ⟨write, hwrite, hpath⟩
      rw [List.mem_zipIdx_iff_getElem?] at hwrite
      exact ⟨write.1, List.mem_of_getElem? hwrite, by simpa using hpath⟩
    · rintro ⟨other, hother, hpath⟩
      obtain ⟨i, hi⟩ := List.mem_iff_getElem?.mp hother
      exact ⟨(other, i), List.mem_zipIdx_iff_getElem?.mpr hi, by simpa using hpath⟩
  rw [removeWriteId, hall, hids.findIdx?]
  simp only [Option.bind_eq_bind, Option.bind_some, List.getElem?_append_right le_rfl,
    Nat.sub_self, List.getElem?_cons_zero, List.eraseIdx_append_of_length_le le_rfl,
    List.eraseIdx_cons_zero, visibleAndOverlaps_visible hnot, hany, Bool.false_or]
  by_cases hoverlap : ∃ other ∈ before ++ after, record.path <+: other.path
  · rw [if_pos hoverlap, decide_eq_true hoverlap]
  · rw [if_neg hoverlap, decide_eq_false hoverlap]

end FWriteTree

end Answers

/-! ## Runs -/

namespace WriteEvent

/-- What an event stores. -/
def writes : WriteEvent → List (List String × FNode)
  | .setValue path newData => (FWriteRecord.mk path (.overwrite newData) 0).writes
  | .updateChildValues path changedChildren =>
      (FWriteRecord.mk path (.merge changedChildren) 0).writes
  | .answered _ => []

/-- The writes that are pending after an event. -/
def pending (writeId : Int) (records : List FWriteRecord) : WriteEvent → List FWriteRecord
  | .setValue path newData => records ++ [⟨path, .overwrite newData, writeId⟩]
  | .updateChildValues path changedChildren =>
      if changedChildren.isEmpty then records
      else records ++ [⟨path, .merge changedChildren, writeId⟩]
  | .answered answeredId => records.filter fun record => record.writeId ≠ answeredId

/-- The next id. -/
def nextWriteId (writeId : Int) : WriteEvent → Int
  | .setValue _ _ => writeId + 1
  | .updateChildValues _ changedChildren =>
      if changedChildren.isEmpty then writeId else writeId + 1
  | .answered _ => writeId

end WriteEvent

/-- The writes made and not answered, oldest first. -/
def pendingAfter (writeId : Int) (records : List FWriteRecord) :
    List WriteEvent → List FWriteRecord
  | [] => records
  | event :: events =>
      pendingAfter (event.nextWriteId writeId) (event.pending writeId records) events

/-- The data of the server with the pending writes. -/
def withPending (root : FNode) (records : List FWriteRecord) : FNode :=
  writeAll root (records.flatMap FWriteRecord.writes)

/-- What an answered write leaves behind: a later write covers it, or another one starts
below it, or it parts from all others. -/
def Removable (before : List FWriteRecord) (record : FWriteRecord) (after : List FWriteRecord) :
    Prop :=
  (∃ other ∈ after, other.containsPath record.path = true) ∨
  (∃ other ∈ before ++ after, record.path <+: other.path) ∨
  ∀ removed ∈ record.writes, ∀ written ∈ (before ++ after).flatMap FWriteRecord.writes,
    Diverge removed.1 written.1

/-- An update of the root can always be taken out. -/
theorem removable_root {before after : List FWriteRecord} {record : FWriteRecord}
    (hpath : record.path = []) : Removable before record after := by
  cases hothers : before ++ after with
  | nil =>
      refine .inr (.inr ?_)
      rw [hothers]
      exact nofun
  | cons other others =>
      refine .inr (.inl ⟨other, ?_, ?_⟩)
      · rw [hothers]
        exact List.mem_cons_self
      · rw [hpath]
        exact List.nil_prefix

/-- Each answer is for a pending write that can be taken out. -/
def Answered (writeId : Int) (records : List FWriteRecord) : List WriteEvent → Prop
  | [] => True
  | event :: events =>
      (∀ answeredId, event = .answered answeredId → ∃ before record after,
        records = before ++ record :: after ∧ record.writeId = answeredId ∧
          Removable before record after) ∧
      Answered (event.nextWriteId writeId) (event.pending writeId records) events

/-- The tree keeps the pending writes, and shows them. -/
structure KeepsWrites (writeId : Int) (records : List FWriteRecord) (state : WriteState) :
    Prop where
  counter : state.writeIdCounter = writeId
  nonneg : 0 ≤ writeId
  all : state.pendingWriteTree.allWrites = records
  last : state.pendingWriteTree.lastWriteId < writeId
  below : ∀ record ∈ records, record.writeId < writeId
  numbered : Numbered records
  shows : ShowsWrites state.pendingWriteTree.visibleWrites (records.flatMap FWriteRecord.writes)

section Runs

variable {writeId : Int} {records : List FWriteRecord} {state : WriteState}

theorem keepsWrites_initial : KeepsWrites 0 [] WriteState.initial where
  counter := rfl
  nonneg := le_rfl
  all := rfl
  last := by decide
  below := by simp
  numbered := List.Pairwise.nil
  shows := fun _ => rfl

/-- A new write, at the end of the list. -/
theorem KeepsWrites.added (h : KeepsWrites writeId records state) {record : FWriteRecord}
    (hid : record.writeId = writeId)
    (hclear : Clear (records.flatMap FWriteRecord.writes ++ record.writes)) :
    KeepsWrites (writeId + 1) (records ++ [record])
      ⟨writeId + 1, FWriteTree.layerWrite state.pendingWriteTree.visibleWrites record,
        records ++ [record], writeId⟩ where
  counter := rfl
  nonneg := by have := h.nonneg; omega
  all := rfl
  last := by dsimp only; omega
  below := by
    intro other hother
    rcases List.mem_append.mp hother with hold | hnew
    · have := h.below other hold
      omega
    · rw [List.mem_singleton.mp hnew, hid]
      omega
  numbered := by
    refine List.pairwise_append.mpr ⟨h.numbered, List.pairwise_singleton _ _, ?_⟩
    intro other hother new hnew
    rw [List.mem_singleton.mp hnew, hid]
    exact h.below other hother
  shows := by
    rw [List.flatMap_append, List.flatMap_singleton]
    exact h.shows.layerWrite hclear

theorem KeepsWrites.written (h : KeepsWrites writeId records state) {event : WriteEvent}
    (hnot : ∀ answeredId, event ≠ .answered answeredId)
    (hclear : Clear (records.flatMap FWriteRecord.writes ++ event.writes)) :
    ∃ state', state.step event = some state' ∧
      KeepsWrites (event.nextWriteId writeId) (event.pending writeId records) state' := by
  have hgreater : state.writeIdCounter > state.pendingWriteTree.lastWriteId := by
    rw [h.counter]
    exact h.last
  cases event with
  | answered answeredId => exact absurd rfl (hnot answeredId)
  | setValue path newData =>
      have hadded := @KeepsWrites.added _ _ _ h ⟨path, .overwrite newData, writeId⟩ rfl hclear
      refine ⟨_, ?_, hadded⟩
      rw [WriteState.step, FWriteTree.addOverwriteAtPath, if_pos hgreater, h.counter, h.all]
      rfl
  | updateChildValues path changedChildren =>
      rw [WriteState.step, WriteEvent.nextWriteId, WriteEvent.pending]
      cases hempty : changedChildren.isEmpty with
      | true =>
          rw [if_pos rfl, if_pos rfl, if_pos rfl]
          exact ⟨state, rfl, h⟩
      | false =>
          have hadded := @KeepsWrites.added _ _ _ h ⟨path, .merge changedChildren, writeId⟩ rfl
            hclear
          rw [if_neg Bool.false_ne_true, if_neg Bool.false_ne_true, if_neg Bool.false_ne_true,
            FWriteTree.addMergeAtPath, if_pos hgreater, h.counter, h.all]
          exact ⟨_, rfl, hadded⟩

theorem lastWriteId_lt (hnonneg : 0 ≤ writeId)
    (hbelow : ∀ record ∈ records, record.writeId < writeId) :
    (records.getLast?.map FWriteRecord.writeId).getD (-1) < writeId := by
  cases hlast : records.getLast? with
  | none =>
      rw [Option.map_none, Option.getD_none]
      omega
  | some record =>
      rw [Option.map_some, Option.getD_some]
      exact hbelow record (List.mem_of_getLast? hlast)

/-- An answer takes its write out of the list and out of what is visible. -/
theorem KeepsWrites.answered {before after : List FWriteRecord} {record : FWriteRecord}
    (h : KeepsWrites writeId (before ++ record :: after) state)
    (hclear : Clear ((before ++ record :: after).flatMap FWriteRecord.writes))
    (hremovable : Removable before record after) :
    ∃ state', state.step (.answered record.writeId) = some state' ∧
      KeepsWrites writeId (before ++ after) state' := by
  have hsub : before ++ after ⊆ before ++ record :: after :=
    ((List.sublist_cons_self record after).append_left before).subset
  have hbelow : ∀ other ∈ before ++ after, other.writeId < writeId :=
    fun other hother => h.below other (hsub hother)
  have hnumbered : Numbered (before ++ after) :=
    h.numbered.sublist ((List.sublist_cons_self record after).append_left before)
  have hshows := h.shows
  rw [List.flatMap_append, List.flatMap_cons] at hshows hclear
  rw [WriteState.step]
  by_cases hcovered : ∃ other ∈ after, other.containsPath record.path = true
  · -- a later write covers the removed one, so nothing visible changes
    rw [FWriteTree.removeWriteId_covered h.numbered h.all hcovered]
    refine ⟨_, rfl, h.counter, h.nonneg, rfl, h.last, hbelow, hnumbered, ?_⟩
    obtain ⟨other, hother, hcovers⟩ := hcovered
    obtain ⟨written, hwritten, hleads⟩ := (other.containsPath_iff _).mp hcovers
    rw [List.flatMap_append]
    exact hshows.shadowed ⟨written, List.mem_flatMap.mpr ⟨other, hother, hwritten⟩, hleads⟩
  · rw [FWriteTree.removeWriteId_visible h.numbered h.all hcovered]
    by_cases hoverlap : ∃ other ∈ before ++ after, record.path <+: other.path
    · -- the tree is built again from the writes that are left
      rw [if_pos hoverlap]
      refine ⟨_, rfl, h.counter, h.nonneg, rfl, lastWriteId_lt h.nonneg hbelow, hbelow,
        hnumbered, ?_⟩
      have hempty : ShowsWrites FCompoundWrite.emptyWrite [] := fun _ => rfl
      refine hempty.layer (hclear.mono ?_)
      rw [List.nil_append, List.flatMap_append]
      exact ((List.sublist_append_right _ _).append_left _).subset
    · rw [if_neg hoverlap]
      refine ⟨_, rfl, h.counter, h.nonneg, rfl, h.last, hbelow, hnumbered, ?_⟩
      rw [List.flatMap_append]
      refine hshows.removeVisible ?_
      rw [← List.flatMap_append]
      exact (hremovable.resolve_left hcovered).resolve_left hoverlap

/-- One event. -/
theorem KeepsWrites.step (h : KeepsWrites writeId records state) {event : WriteEvent}
    (hclear : Clear (records.flatMap FWriteRecord.writes ++ event.writes))
    (hanswer : ∀ answeredId, event = .answered answeredId → ∃ before record after,
      records = before ++ record :: after ∧ record.writeId = answeredId ∧
        Removable before record after) :
    ∃ state', state.step event = some state' ∧
      KeepsWrites (event.nextWriteId writeId) (event.pending writeId records) state' := by
  by_cases hevent : ∃ answeredId, event = .answered answeredId
  · obtain ⟨answeredId, rfl⟩ := hevent
    obtain ⟨before, record, after, rfl, rfl, hremovable⟩ := hanswer answeredId rfl
    rw [WriteEvent.writes, List.append_nil] at hclear
    rw [WriteEvent.pending, h.numbered.filter]
    exact h.answered hclear hremovable
  · exact h.written (fun answeredId heq => hevent ⟨answeredId, heq⟩) hclear

/-- A new write is added to what is pending. -/
theorem WriteEvent.pending_writes_eq {event : WriteEvent}
    (hnot : ∀ answeredId, event ≠ .answered answeredId) (writeId : Int)
    (records : List FWriteRecord) :
    (event.pending writeId records).flatMap FWriteRecord.writes =
      records.flatMap FWriteRecord.writes ++ event.writes := by
  cases event with
  | setValue path newData =>
      rw [pending, List.flatMap_append, List.flatMap_singleton]
      rfl
  | updateChildValues path changedChildren =>
      rw [pending]
      split
      · next hempty =>
        have hwrites : (WriteEvent.updateChildValues path changedChildren).writes = [] := by
          rw [writes, FWriteRecord.writes]
          exact List.map_eq_nil_iff.mpr (List.isEmpty_iff.mp hempty)
        rw [hwrites, List.append_nil]
      · rw [List.flatMap_append, List.flatMap_singleton]
        rfl
  | answered answeredId => exact absurd rfl (hnot answeredId)

/-- What is pending was pending, or is new. -/
theorem WriteEvent.pending_writes (event : WriteEvent) (writeId : Int)
    (records : List FWriteRecord) :
    (event.pending writeId records).flatMap FWriteRecord.writes ⊆
      records.flatMap FWriteRecord.writes ++ event.writes := by
  by_cases hevent : ∃ answeredId, event = .answered answeredId
  · obtain ⟨answeredId, rfl⟩ := hevent
    rw [pending, writes, List.append_nil]
    intro written hwritten
    obtain ⟨record, hrecord, hmem⟩ := List.mem_flatMap.mp hwritten
    exact List.mem_flatMap.mpr ⟨record, List.mem_of_mem_filter hrecord, hmem⟩
  · rw [pending_writes_eq fun answeredId heq => hevent ⟨answeredId, heq⟩]
    exact List.Subset.refl _

theorem WriteEvent.clear_pending (event : WriteEvent) {others : List (List String × FNode)}
    (hclear : Clear (records.flatMap FWriteRecord.writes ++ event.writes ++ others)) :
    Clear ((event.pending writeId records).flatMap FWriteRecord.writes ++ others) :=
  hclear.mono (List.append_subset.mpr
    ⟨List.subset_append_of_subset_left others (event.pending_writes writeId records),
      List.subset_append_right _ others⟩)

theorem KeepsWrites.run (h : KeepsWrites writeId records state) {events : List WriteEvent}
    (hclear : Clear (records.flatMap FWriteRecord.writes ++ events.flatMap WriteEvent.writes))
    (hanswered : Answered writeId records events) :
    ∃ state' nextId, state.run events = some state' ∧
      KeepsWrites nextId (pendingAfter writeId records events) state' := by
  induction events generalizing writeId records state with
  | nil => exact ⟨state, writeId, rfl, h⟩
  | cons event events ih =>
      rw [List.flatMap_cons, ← List.append_assoc] at hclear
      obtain ⟨next, hstep, hnext⟩ :=
        h.step (hclear.mono (List.subset_append_left _ _)) hanswered.1
      obtain ⟨last, nextId, hrun, hlast⟩ := ih hnext (event.clear_pending hclear) hanswered.2
      refine ⟨last, nextId, ?_, hlast⟩
      rw [WriteState.run, hstep]
      exact hrun

/-- **The tree follows the pending writes.** -/
theorem write_tree_follows {events : List WriteEvent}
    (hclear : Clear (events.flatMap WriteEvent.writes)) (hanswered : Answered 0 [] events) :
    ∃ state, WriteState.initial.run events = some state ∧
      state.pendingWriteTree.allWrites = pendingAfter 0 [] events ∧
      ∀ root treePath, Room root ((pendingAfter 0 [] events).flatMap FWriteRecord.writes) →
        (∃ node, state.pendingWriteTree.calculateCompleteEventCacheAtPath treePath
            (some (root.get treePath)) = some node ∧
          node.contents =
            ((withPending root (pendingAfter 0 [] events)).get treePath).contents) ∧
        ((state.pendingWriteTree.calculateCompleteEventCacheAtPath treePath none).isSome = true ↔
          ∃ record ∈ pendingAfter 0 [] events, record.containsPath treePath = true) ∧
        ∀ node, state.pendingWriteTree.calculateCompleteEventCacheAtPath treePath none =
            some node →
          node.contents =
            ((withPending root (pendingAfter 0 [] events)).get treePath).contents := by
  obtain ⟨state, nextId, hrun, hstate⟩ := keepsWrites_initial.run hclear hanswered
  refine ⟨state, hrun, hstate.all, fun root treePath hroom => ⟨?_, ?_, ?_⟩⟩
  · exact hstate.shows.calculate hroom treePath
  · rw [FWriteTree.calculate_none, hstate.shows.complete_iff]
    constructor
    · rintro ⟨written, hwritten, hcovers⟩
      obtain ⟨record, hrecord, hmem⟩ := List.mem_flatMap.mp hwritten
      exact ⟨record, hrecord, (record.containsPath_iff _).mpr ⟨written, hmem, hcovers⟩⟩
    · rintro ⟨record, hrecord, hcontains⟩
      obtain ⟨written, hmem, hcovers⟩ := (record.containsPath_iff _).mp hcontains
      exact ⟨written, List.mem_flatMap.mpr ⟨record, hrecord, hmem⟩, hcovers⟩
  · intro node hnode
    rw [FWriteTree.calculate_none] at hnode
    exact hstate.shows.complete_contents hroom hnode

end Runs

/-- The items and the leaves of one REDEEM. -/
def redeemItem : FCompoundWrite where
  writes := [(["users", "ann", "history", "-k"],
    (Tree.empty : FNode).set ["quantity"] (Tree.leaf (.int 3)))]
  diverge := List.pairwise_singleton _ _

def redeemLeaves : FCompoundWrite where
  writes := [(["users", "ann", "currentLeaves"], Tree.leaf (.int 15)),
    (["users", "ann", "allTimeLeaves"], Tree.leaf (.int 15))]
  diverge := by simp

/-- The record of a new user. -/
def signedUp : FNode :=
  ((Tree.empty : FNode).set ["currentLeaves"] (Tree.leaf (.int 0))).set ["allTimeLeaves"]
    (Tree.leaf (.int 0))

/-- Ann signs up and redeems; the server has her item, but not her leaves. -/
def redeemEvents : List WriteEvent :=
  [.setValue ["users", "ann"] signedUp, .answered 0, .updateChildValues [] redeemItem,
    .updateChildValues [] redeemLeaves, .answered 1]

theorem redeemEvents_answered : Answered 0 [] redeemEvents := by
  refine ⟨nofun, ?_, nofun, nofun, ?_, trivial⟩
  · rintro _ ⟨⟩
    exact ⟨[], _, [], rfl, rfl, .inr (.inr nofun)⟩
  · rintro _ ⟨⟩
    exact ⟨[], _, [_], rfl, rfl, removable_root rfl⟩

/-- What the server then has. -/
def annServer : FNode :=
  ((Tree.empty : FNode).set ["users", "ann"] signedUp).set
    ["users", "ann", "history", "-k", "quantity"] (Tree.leaf (.int 3))

/-- She sees her item, and the leaves that the server does not have yet. -/
theorem write_tree_follows_redeem :
    ∃ state node, WriteState.initial.run redeemEvents = some state ∧
      state.pendingWriteTree.calculateCompleteEventCacheAtPath ["users", "ann"]
        (some (annServer.get ["users", "ann"])) = some node ∧
      node.contents ["history", "-k", "quantity"] = some (.int 3) ∧
      node.contents ["currentLeaves"] = some (.int 15) ∧
      (state.pendingWriteTree.calculateCompleteEventCacheAtPath
        ["users", "ann", "currentLeaves"] none).isSome = true := by
  obtain ⟨state, hrun, _, hshown⟩ := write_tree_follows (by decide +kernel) redeemEvents_answered
  have hroom : Room annServer ((pendingAfter 0 [] redeemEvents).flatMap FWriteRecord.writes) :=
    ⟨by decide +kernel, by decide +kernel⟩
  obtain ⟨⟨node, hnode, hcontents⟩, _⟩ := hshown annServer ["users", "ann"] hroom
  refine ⟨state, node, hrun, hnode, ?_, ?_, ?_⟩
  · rw [hcontents]
    decide +kernel
  · rw [hcontents]
    decide +kernel
  · rw [(hshown annServer _ hroom).2.1]
    exact ⟨⟨[], .merge redeemLeaves, 2⟩, List.Mem.head _, by decide +kernel⟩

/-! ## An update that is lost -/

section Hidden

variable {path : List String} {newData : FNode} {merge write : FCompoundWrite}

/-- What is written below a visible write goes into it. -/
theorem FCompoundWrite.addWrite_below {value node : FNode} {below : List String}
    (hpath : path ≠ []) (hwrite : write.writes = [(path, value)]) (hbelow : path <+: below) :
    ∃ value', (write.addWrite node below).writes = [(path, value')] := by
  have hroot : write.findRootMost below = some (path, value) := by
    rw [findRootMost, hwrite]
    simp [hbelow]
  have hnonempty : ¬ below.isEmpty = true := by
    rw [List.isEmpty_iff]
    rintro rfl
    exact hpath (List.prefix_nil.mp hbelow)
  unfold addWrite
  rw [if_neg hnonempty]
  split
  · next rootPath found hfound =>
    obtain ⟨rfl, rfl⟩ := Prod.mk.inj (Option.some.inj (hfound.symm.trans hroot))
    exact ⟨_, by simp [setValue, hwrite]; rfl⟩
  · next hnone => exact absurd (hnone.symm.trans hroot) (by simp)

theorem FCompoundWrite.addCompoundWrite_below {value : FNode}
    (hpath : path ≠ []) (hwrite : write.writes = [(path, value)])
    (hbelow : ∀ written ∈ merge.writes, path <+: written.1) :
    ∃ value', (write.addCompoundWrite merge []).writes = [(path, value')] := by
  unfold addCompoundWrite
  generalize merge.writes = writes at hbelow
  induction writes generalizing write value with
  | nil => exact ⟨value, hwrite⟩
  | cons written writes ih =>
      obtain ⟨hfirst, hrest⟩ := List.forall_mem_cons.mp hbelow
      obtain ⟨value', hnext⟩ := addWrite_below hpath hwrite hfirst
      exact ih hnext hrest

theorem FCompoundWrite.addWrite_emptyWrite (hpath : path ≠ []) (newData : FNode) :
    (emptyWrite.addWrite newData path).writes = [(path, newData)] := by
  unfold addWrite
  rw [if_neg (by rwa [List.isEmpty_iff])]
  split
  · next hfound => cases hfound
  · rfl

theorem FWriteTree.calculate_of_nothing_visible {tree : FWriteTree}
    (h : tree.visibleWrites.writes = []) (treePath : List String)
    (completeServerCache : Option FNode) :
    tree.calculateCompleteEventCacheAtPath treePath completeServerCache =
      completeServerCache := by
  have hcomplete : tree.visibleWrites.completeNodeAtPath treePath = none := by
    rw [FCompoundWrite.completeNodeAtPath, FCompoundWrite.findRootMost, h]
    rfl
  have hsubtree : (tree.visibleWrites.subtreeAtPath treePath).isEmpty = true := by
    rw [FCompoundWrite.isEmpty, List.isEmpty_iff, List.eq_nil_iff_forall_not_mem]
    intro written hwritten
    rw [FCompoundWrite.mem_subtreeAtPath, h] at hwritten
    cases hwritten
  rw [calculateCompleteEventCacheAtPath, hcomplete]
  dsimp only
  rw [childCompoundWriteAtPath_eq hcomplete, if_pos hsubtree]

/-- The loop of `removeWriteId:` sees no overlap between an overwrite and an update of the
root, wherever the update writes. -/
theorem FWriteTree.removeWriteId_ofUpdate {tree : FWriteTree} (hpath : path ≠ [])
    (hbelow : ∀ written ∈ merge.writes, path <+: written.1 ∧ written.1 ≠ path)
    (hall : tree.allWrites = [⟨path, .overwrite newData, 0⟩, ⟨[], .merge merge, 1⟩]) :
    tree.removeWriteId 0 = some (true, { tree with
      allWrites := [⟨[], .merge merge, 1⟩]
      visibleWrites := tree.visibleWrites.removeWriteAtPath path }) := by
  let record : FWriteRecord := ⟨path, .overwrite newData, 0⟩
  let update : FWriteRecord := ⟨[], .merge merge, 1⟩
  have hids : Numbered ([] ++ record :: [update]) := by simp [Numbered, record, update]
  have hcovered : ¬ ∃ other ∈ [update], other.containsPath path = true := by
    rintro ⟨other, hother, hcontains⟩
    rw [List.mem_singleton.mp hother, FWriteRecord.containsPath, List.any_eq_true] at hcontains
    obtain ⟨written, hwritten, habove⟩ := hcontains
    have hle : written.1 <+: path := of_decide_eq_true habove
    obtain ⟨hge, hne⟩ := hbelow written hwritten
    exact hne (hle.eq_of_length_le hge.length_le)
  have hoverlap : ¬ ∃ other ∈ [] ++ [update], path <+: other.path := by
    rintro ⟨other, hother, hleads⟩
    rw [List.nil_append, List.mem_singleton] at hother
    rw [hother] at hleads
    exact hpath (List.prefix_nil.mp hleads)
  have hremove := @removeWriteId_visible [] [update] record tree hids hall hcovered
  rw [if_neg hoverlap] at hremove
  exact hremove

/-- `Removable` is needed: an update of the root that writes below a pending overwrite is
not visible any more when the overwrite is answered, although it is still pending. -/
theorem update_hidden_by_answer (hpath : path ≠ []) (hmerge : merge.isEmpty = false)
    (hbelow : ∀ written ∈ merge.writes, path <+: written.1 ∧ written.1 ≠ path) :
    ∃ state, WriteState.initial.run [.setValue path newData, .updateChildValues [] merge,
        .answered 0] = some state ∧
      state.pendingWriteTree.allWrites = [⟨[], .merge merge, 1⟩] ∧
      ∀ treePath completeServerCache,
        state.pendingWriteTree.calculateCompleteEventCacheAtPath treePath completeServerCache =
          completeServerCache := by
  let written : FCompoundWrite := FCompoundWrite.emptyWrite.addWrite newData path
  let tree : FWriteTree := ⟨written.addCompoundWrite merge [],
    [⟨path, .overwrite newData, 0⟩, ⟨[], .merge merge, 1⟩], 1⟩
  have hset : WriteState.initial.step (.setValue path newData) =
      some ⟨1, ⟨written, [⟨path, .overwrite newData, 0⟩], 0⟩⟩ := rfl
  have hupdate : WriteState.step ⟨1, ⟨written, [⟨path, .overwrite newData, 0⟩], 0⟩⟩
      (.updateChildValues [] merge) = some ⟨2, tree⟩ := by
    rw [WriteState.step, hmerge]
    rfl
  have hanswer : WriteState.step ⟨2, tree⟩ (.answered 0) =
      some ⟨2, { tree with
        allWrites := [⟨[], .merge merge, 1⟩]
        visibleWrites := tree.visibleWrites.removeWriteAtPath path }⟩ := by
    rw [WriteState.step, FWriteTree.removeWriteId_ofUpdate hpath hbelow rfl, Option.map_some]
  have hnothing : (tree.visibleWrites.removeWriteAtPath path).writes = [] := by
    obtain ⟨value, hvisible⟩ := FCompoundWrite.addCompoundWrite_below hpath
      (FCompoundWrite.addWrite_emptyWrite hpath newData)
      fun written hwritten => (hbelow written hwritten).1
    simp [FCompoundWrite.removeWriteAtPath, tree, written, hvisible]
  refine ⟨⟨2, { tree with
    allWrites := [⟨[], .merge merge, 1⟩]
    visibleWrites := tree.visibleWrites.removeWriteAtPath path }⟩, ?_, rfl,
    FWriteTree.calculate_of_nothing_visible hnothing⟩
  simp only [WriteState.run, hset, hupdate, hanswer, Option.bind_eq_bind, Option.bind_some]

/-- Ann redeems before her new record is answered, and then does not see her leaves. -/
theorem update_hidden_by_answer_signedUp :
    ∃ state, WriteState.initial.run [.setValue ["users", "ann"] signedUp,
        .updateChildValues [] redeemLeaves, .answered 0] = some state ∧
      state.pendingWriteTree.allWrites = [⟨[], .merge redeemLeaves, 1⟩] ∧
      ∀ treePath completeServerCache,
        state.pendingWriteTree.calculateCompleteEventCacheAtPath treePath completeServerCache =
          completeServerCache :=
  update_hidden_by_answer (by simp) rfl (by decide +kernel)

end Hidden

end WillItRecycle

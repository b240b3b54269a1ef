import WillItRecycle.GameState
import WillItRecycle.PendingWrites

/-!
# A device sees its own writes at once

The model of the app writes to the records of the accounts as if a write took effect
where it is made.  The client of the database sends it, and reads the data of the
server through the tree of pending writes.

`own_writes_seen`: while the server answers the writes in the order in which they were
made, and no update writes below an overwrite, what the client shows at any path of any
account is what the model of the app stores there, whichever of the writes the server has
answered.
-/

namespace WillItRecycle

open PathTree

/-! ## The server -/

/-- The server stores a write before it answers it. -/
def WriteEvent.atServer (records : List FWriteRecord) (server : FNode) : WriteEvent → FNode
  | .answered answeredId =>
      withPending server (records.filter fun record => record.writeId = answeredId)
  | _ => server

/-- The data of the server, which only this device changes. -/
def serverAfter (writeId : Int) (records : List FWriteRecord) (server : FNode) :
    List WriteEvent → FNode
  | [] => server
  | event :: events =>
      serverAfter (event.nextWriteId writeId) (event.pending writeId records)
        (event.atServer records server) events

/-- Each answer is for the oldest pending write. -/
def AnsweredInOrder (writeId : Int) (records : List FWriteRecord) : List WriteEvent → Prop
  | [] => True
  | event :: events =>
      (∀ answeredId, event = .answered answeredId → ∃ record after,
        records = record :: after ∧ record.writeId = answeredId ∧ Removable [] record after) ∧
      AnsweredInOrder (event.nextWriteId writeId) (event.pending writeId records) events

section Server

variable {writeId : Int} {records after : List FWriteRecord} {record : FWriteRecord}
  {state : WriteState} {events : List WriteEvent}

theorem AnsweredInOrder.answered (h : AnsweredInOrder writeId records events) :
    Answered writeId records events := by
  induction events generalizing writeId records with
  | nil => trivial
  | cons event events ih =>
      refine ⟨fun answeredId hevent => ?_, ih h.2⟩
      obtain ⟨record, after, hrecords, hid, hremovable⟩ := h.1 answeredId hevent
      exact ⟨[], record, after, hrecords, hid, hremovable⟩

theorem Numbered.filter_eq (h : Numbered (record :: after)) :
    (record :: after).filter (fun other => other.writeId = record.writeId) = [record] := by
  have hafter : after.filter (fun other => other.writeId = record.writeId) = [] := by
    rw [List.filter_eq_nil_iff]
    intro other hother
    simpa using ((List.pairwise_cons.mp h).1 other hother).ne'
  rw [List.filter_cons_of_pos (by simp), hafter]

/-- What the server has stored and what is pending are all writes, in their order. -/
theorem KeepsWrites.server (h : KeepsWrites writeId records state)
    (hclear : Clear (records.flatMap FWriteRecord.writes ++ events.flatMap WriteEvent.writes))
    (horder : AnsweredInOrder writeId records events) (server : FNode) :
    ∃ stored, serverAfter writeId records server events = writeAll server stored ∧
      stored ++ (pendingAfter writeId records events).flatMap FWriteRecord.writes =
        records.flatMap FWriteRecord.writes ++ events.flatMap WriteEvent.writes := by
  induction events generalizing writeId records state server with
  | nil => exact ⟨[], rfl, by simp [pendingAfter]⟩
  | cons event events ih =>
      rw [List.flatMap_cons, ← List.append_assoc] at hclear ⊢
      obtain ⟨next, _, hnext⟩ :=
        h.step (hclear.mono (List.subset_append_left _ _)) horder.answered.1
      obtain ⟨stored, hserver, hwrites⟩ :=
        ih hnext (event.clear_pending hclear) horder.2 (event.atServer records server)
      by_cases hevent : ∃ answeredId, event = .answered answeredId
      · obtain ⟨answeredId, rfl⟩ := hevent
        obtain ⟨record, after, rfl, rfl, _⟩ := horder.1 answeredId rfl
        refine ⟨record.writes ++ stored, ?_, ?_⟩
        · rw [serverAfter, hserver, WriteEvent.atServer, h.numbered.filter_eq, withPending,
            List.flatMap_singleton, writeAll_append]
        · have hpending : (WriteEvent.answered record.writeId).pending writeId
              (record :: after) = after := by
            rw [WriteEvent.pending]
            exact @Numbered.filter [] after record h.numbered
          rw [pendingAfter, List.append_assoc, hwrites, hpending, WriteEvent.writes,
            List.append_nil, List.flatMap_cons, List.append_assoc]
      · have hnot : ∀ answeredId, event ≠ .answered answeredId :=
          fun answeredId heq => hevent ⟨answeredId, heq⟩
        refine ⟨stored, ?_, ?_⟩
        · rw [serverAfter, hserver]
          cases event with
          | answered answeredId => exact absurd rfl (hnot answeredId)
          | setValue path newData => rfl
          | updateChildValues path changedChildren => rfl
        · rw [pendingAfter, hwrites, WriteEvent.pending_writes_eq hnot]

end Server

/-! ## Answers in order -/

/-- Each answer is for the oldest pending write. -/
def OldestFirst (writeId : Int) (records : List FWriteRecord) : List WriteEvent → Prop
  | [] => True
  | event :: events =>
      (∀ answeredId, event = .answered answeredId → ∃ record after,
        records = record :: after ∧ record.writeId = answeredId) ∧
      OldestFirst (event.nextWriteId writeId) (event.pending writeId records) events

def WriteEvent.changes : WriteEvent → List (List String × FWriteData)
  | .setValue path newData => [(path, .overwrite newData)]
  | .updateChildValues path changedChildren => [(path, .merge changedChildren)]
  | .answered _ => []

/-- Updates are made at the root, as by the app, and none writes below an overwrite. -/
def RootUpdates (changes : List (List String × FWriteData)) : Prop :=
  ∀ path merge, (path, FWriteData.merge merge) ∈ changes → path = [] ∧
    ∀ overwritten newData, (overwritten, FWriteData.overwrite newData) ∈ changes →
      ∀ written ∈ merge.writes, overwritten <+: written.1 → written.1 = overwritten

section Order

variable {changes : List (List String × FWriteData)} {after : List FWriteRecord}
  {record : FWriteRecord}

theorem RootUpdates.removable (h : RootUpdates changes)
    (hrecords : ∀ other ∈ record :: after, (other.path, other.data) ∈ changes) :
    Removable [] record after := by
  obtain ⟨path, data, writeId⟩ := record
  cases data with
  | merge merge =>
      exact removable_root (h path merge (hrecords _ List.mem_cons_self)).1
  | overwrite newData =>
      by_cases hcovered : ∃ other ∈ after, other.containsPath path = true
      · exact .inl hcovered
      · by_cases hoverlap : ∃ other ∈ [] ++ after, path <+: other.path
        · exact .inr (.inl hoverlap)
        · refine .inr (.inr fun removed hremoved written hwritten => ?_)
          obtain rfl : removed = (path ++ [], newData) := List.mem_singleton.mp hremoved
          obtain ⟨other, hother, hmem⟩ := List.mem_flatMap.mp hwritten
          have hnot : ¬ written.1 <+: path := fun hle =>
            hcovered ⟨other, hother, (other.containsPath_iff path).mpr ⟨written, hmem, hle⟩⟩
          rw [List.append_nil, diverge_iff]
          refine ⟨fun hbelow => ?_, hnot⟩
          have hchange := hrecords other (List.mem_cons_of_mem _ hother)
          obtain ⟨otherPath, otherData, otherId⟩ := other
          cases otherData with
          | overwrite otherNode =>
              obtain rfl : written = (otherPath ++ [], otherNode) := List.mem_singleton.mp hmem
              rw [List.append_nil] at hbelow
              exact hoverlap ⟨_, hother, hbelow⟩
          | merge merge =>
              obtain ⟨rfl, hnone⟩ := h otherPath merge hchange
              obtain ⟨child, hchild, rfl⟩ := List.mem_map.mp hmem
              have hsame := hnone path newData (hrecords _ List.mem_cons_self) child hchild hbelow
              exact hnot ⟨[], by simpa using hsame⟩

theorem WriteEvent.mem_pending {event : WriteEvent} {writeId : Int}
    {records : List FWriteRecord} (h : record ∈ event.pending writeId records) :
    record ∈ records ∨ (record.path, record.data) ∈ event.changes := by
  cases event with
  | setValue path newData =>
      rcases List.mem_append.mp h with hold | hnew
      · exact .inl hold
      · rw [List.mem_singleton.mp hnew]
        exact .inr List.mem_cons_self
  | updateChildValues path changedChildren =>
      rw [pending] at h
      split at h
      · exact .inl h
      · rcases List.mem_append.mp h with hold | hnew
        · exact .inl hold
        · rw [List.mem_singleton.mp hnew]
          exact .inr List.mem_cons_self
  | answered answeredId => exact .inl (List.mem_of_mem_filter h)

theorem RootUpdates.inOrder (h : RootUpdates changes) {writeId : Int}
    {records : List FWriteRecord} {events : List WriteEvent}
    (hrecords : ∀ record ∈ records, (record.path, record.data) ∈ changes)
    (hevents : events.flatMap WriteEvent.changes ⊆ changes)
    (holdest : OldestFirst writeId records events) : AnsweredInOrder writeId records events := by
  induction events generalizing writeId records with
  | nil => trivial
  | cons event events ih =>
      rw [List.flatMap_cons, List.append_subset] at hevents
      refine ⟨fun answeredId hevent => ?_, ih (fun record hrecord => ?_) hevents.2 holdest.2⟩
      · obtain ⟨record, after, rfl, hid⟩ := holdest.1 answeredId hevent
        exact ⟨record, after, rfl, hid, h.removable hrecords⟩
      · rcases WriteEvent.mem_pending hrecord with hold | hnew
        · exact hrecords record hold
        · exact hevents.1 hnew

end Order

/-! ## The records of the accounts -/

/-- The path and the node of a write of the app. -/
def Write.stored (write : Write) : List String × FNode :=
  ("users" :: write.uid :: write.path, write.value)

/-- The records below `users`. -/
def accounts (root : FNode) : Remote :=
  fun uid => root.get ["users", uid]

theorem accounts_set (root : FNode) (write : Write) :
    accounts (root.set write.stored.1 write.stored.2) = write.apply (accounts root) := by
  funext uid
  rw [Write.apply, Function.update_apply]
  simp only [accounts, Write.stored, Tree.set_cons, Tree.get_cons, Tree.get_nil]
  rw [Tree.child_setChild_same, Tree.child_setChild]

theorem accounts_writeAll (root : FNode) (writes : List Write) :
    accounts (writeAll root (writes.map Write.stored)) =
      writes.foldl (fun remote write => write.apply remote) (accounts root) := by
  induction writes generalizing root with
  | nil => rfl
  | cons write writes ih =>
      rw [List.foldl_cons, ← accounts_set, ← ih]
      rfl

/-- A device sees its own writes, whichever of them the server has answered. -/
theorem AnsweredInOrder.seen {events : List WriteEvent} {writes : List Write} {root : FNode}
    (horder : AnsweredInOrder 0 [] events)
    (hwrites : events.flatMap WriteEvent.writes = writes.map Write.stored)
    (hroom : Room root (writes.map Write.stored)) :
    ∃ state, WriteState.initial.run events = some state ∧
      ∀ uid path, ∃ node,
        state.pendingWriteTree.calculateCompleteEventCacheAtPath ("users" :: uid :: path)
          (some ((serverAfter 0 [] root events).get ("users" :: uid :: path))) = some node ∧
        node.contents =
          ((writes.foldl (fun remote write => write.apply remote) (accounts root) uid).get
            path).contents := by
  have hclear : Clear ([] ++ events.flatMap WriteEvent.writes) := by
    rw [List.nil_append, hwrites]
    exact hroom.writes
  obtain ⟨state, _, hrun, hstate⟩ := keepsWrites_initial.run hclear horder.answered
  obtain ⟨stored, hserver, hall⟩ := keepsWrites_initial.server hclear horder root
  rw [List.flatMap_nil, List.nil_append, hwrites] at hall
  rw [← hall] at hroom
  refine ⟨state, hrun, fun uid path => ?_⟩
  obtain ⟨node, hnode, hcontents⟩ :=
    hstate.shows.calculate hroom.after ("users" :: uid :: path)
  refine ⟨node, by rw [hserver]; exact hnode, ?_⟩
  rw [hcontents, ← writeAll_append, hall, ← accounts_writeAll]
  rfl

/-- **A device sees its own writes at once**, if its updates keep clear of its overwrites
and the server answers in order. -/
theorem own_writes_seen {events : List WriteEvent} {writes : List Write} {root : FNode}
    (hwrites : events.flatMap WriteEvent.writes = writes.map Write.stored)
    (hroom : Room root (writes.map Write.stored))
    (hupdates : RootUpdates (events.flatMap WriteEvent.changes))
    (holdest : OldestFirst 0 [] events) :
    ∃ state, WriteState.initial.run events = some state ∧
      ∀ uid path, ∃ node,
        state.pendingWriteTree.calculateCompleteEventCacheAtPath ("users" :: uid :: path)
          (some ((serverAfter 0 [] root events).get ("users" :: uid :: path))) = some node ∧
        node.contents =
          ((writes.foldl (fun remote write => write.apply remote) (accounts root) uid).get
            path).contents := by
  have horder := hupdates.inOrder (by simp) (List.Subset.refl _) holdest
  exact horder.seen hwrites hroom

/-- Ann redeems and buys a flower; the server has answered her item and her leaves. -/
def redeemAndBuy : List WriteEvent :=
  [.updateChildValues [] redeemItem, .updateChildValues [] redeemLeaves, .answered 0,
    .setValue ["users", "ann", "currentLeaves"] (Tree.leaf (.int 5)), .answered 1,
    .setValue ["users", "ann", "inventory", "flower"] (Tree.leaf (.int 1))]

theorem redeemAndBuy_updates : RootUpdates (redeemAndBuy.flatMap WriteEvent.changes) := by
  have happart : ∀ merge ∈ [redeemItem, redeemLeaves], ∀ overwritten ∈
      [["users", "ann", "currentLeaves"], ["users", "ann", "inventory", "flower"]],
      ∀ written ∈ merge.writes, overwritten <+: written.1 → written.1 = overwritten := by
    decide +kernel
  intro path merge hmerge
  simp only [redeemAndBuy, WriteEvent.changes, List.flatMap_cons, List.flatMap_nil,
    List.cons_append, List.nil_append, List.mem_cons, List.not_mem_nil, Prod.mk.injEq,
    FWriteData.merge.injEq, reduceCtorEq, and_false, or_false] at hmerge
  refine ⟨by tauto, fun overwritten newData hoverwrite => happart merge ?_ overwritten ?_⟩
  · simp only [List.mem_cons, List.not_mem_nil, or_false]
    tauto
  · simp only [redeemAndBuy, WriteEvent.changes, List.flatMap_cons, List.flatMap_nil,
      List.cons_append, List.nil_append, List.mem_cons, List.not_mem_nil, Prod.mk.injEq,
      reduceCtorEq, and_false, or_false, false_or] at hoverwrite ⊢
    tauto

theorem own_writes_seen_redeem :
    ∃ state, WriteState.initial.run redeemAndBuy = some state ∧
      ∀ uid path, ∃ node,
        state.pendingWriteTree.calculateCompleteEventCacheAtPath ("users" :: uid :: path)
          (some ((serverAfter 0 [] annServer redeemAndBuy).get ("users" :: uid :: path))) =
            some node ∧
        node.contents =
          (([⟨"ann", ["history", "-k"], Tree.empty.set ["quantity"] (Tree.leaf (.int 3))⟩,
              ⟨"ann", ["currentLeaves"], Tree.leaf (.int 15)⟩,
              ⟨"ann", ["allTimeLeaves"], Tree.leaf (.int 15)⟩,
              ⟨"ann", ["currentLeaves"], Tree.leaf (.int 5)⟩,
              ⟨"ann", ["inventory", "flower"], Tree.leaf (.int 1)⟩].foldl
            (fun remote (write : Write) => write.apply remote) (accounts annServer) uid).get
              path).contents := by
  refine own_writes_seen rfl ⟨by decide +kernel, by decide +kernel⟩ redeemAndBuy_updates
    ⟨nofun, nofun, ?_, nofun, ?_, nofun, trivial⟩
  · rintro _ ⟨⟩
    exact ⟨_, _, rfl, rfl⟩
  · rintro _ ⟨⟩
    exact ⟨_, _, rfl, rfl⟩

end WillItRecycle

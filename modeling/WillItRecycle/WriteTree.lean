import WillItRecycle.LatestWrites
import WillItRecycle.ViewProcessor

/-!
# The tree of pending writes

`FWriteTree.m`, `FCompoundWrite.m`.  A write is seen at once: until the server has
answered, it is kept in a list, and in a tree of what is visible, through which the
client's data are read.  The tree is changed write by write, and only built again where
an answered write overlaps with others.

`ShowsWrites`: the tree says at every path what the latest write above it stores there.
One lemma for each way in which the tree is changed, and `ShowsWrites.calculate` for
what is read through it.
-/

namespace WillItRecycle

open PathTree

/-! ## FCompoundWrite -/

namespace FCompoundWrite

def emptyWrite : FCompoundWrite := ⟨[], List.Pairwise.nil⟩

/-- One write to the root. -/
def ofRoot (node : FNode) : FCompoundWrite := ⟨[([], node)], List.pairwise_singleton _ _⟩

def isEmpty (write : FCompoundWrite) : Bool := write.writes.isEmpty

/-- `findRootMostValueAndPath:` -/
def findRootMost (write : FCompoundWrite) (path : List String) :
    Option (List String × FNode) :=
  write.writes.find? fun written => written.1 <+: path

/-- `setValue:atPath:` where there is a value. -/
def setValue (write : FCompoundWrite) (value : FNode) (path : List String) : FCompoundWrite where
  writes := write.writes.map fun written => if written.1 = path then (path, value) else written
  diverge := by
    refine List.pairwise_map.mpr (write.diverge.imp fun {a b} hdiverge => ?_)
    have hpath : ∀ written : List String × FNode,
        (if written.1 = path then (path, value) else written).1 = written.1 := by
      intro written
      split
      · next hsame => exact hsame.symm
      · rfl
    rw [hpath, hpath]
    exact hdiverge

/-- `setTree:atPath:` of one value, where there is none above. -/
def setTree (write : FCompoundWrite) (node : FNode) (path : List String)
    (hnone : write.findRootMost path = none) : FCompoundWrite where
  writes := (path, node) :: write.writes.filter fun written => ¬ path <+: written.1
  diverge := by
    refine List.pairwise_cons.mpr ⟨fun written hwritten => ?_, write.diverge.filter _⟩
    obtain ⟨hmem, hbelow⟩ := List.mem_filter.mp hwritten
    have habove := List.find?_eq_none.mp hnone written hmem
    exact diverge_iff.mpr ⟨by simpa using hbelow, by simpa using habove⟩

/-- `addWrite:atPath:` -/
def addWrite (write : FCompoundWrite) (node : FNode) (path : List String) : FCompoundWrite :=
  if path.isEmpty then ofRoot node
  else
    match hroot : write.findRootMost path with
    | some (rootPath, value) =>
        write.setValue (value.set (path.drop rootPath.length) node) rootPath
    | none => write.setTree node path hroot

/-- `addCompoundWrite:atPath:` -/
def addCompoundWrite (write compoundWrite : FCompoundWrite) (path : List String) :
    FCompoundWrite :=
  compoundWrite.writes.foldl
    (fun newWrite written => newWrite.addWrite written.2 (path ++ written.1)) write

/-- `removeWriteAtPath:` of the writes at a path and below. -/
def removeWriteAtPath (write : FCompoundWrite) (path : List String) : FCompoundWrite where
  writes := write.writes.filter fun written => ¬ path <+: written.1
  diverge := write.diverge.filter _

def completeNodeAtPath (write : FCompoundWrite) (path : List String) : Option FNode :=
  (write.findRootMost path).map fun (rootPath, value) => value.get (path.drop rootPath.length)

def hasCompleteWriteAtPath (write : FCompoundWrite) (path : List String) : Bool :=
  (write.completeNodeAtPath path).isSome

/-- `subtreeAtPath:` -/
def subtreeAtPath (write : FCompoundWrite) : List String → FCompoundWrite
  | [] => write
  | name :: path => (write.childWrite name).subtreeAtPath path

def childCompoundWriteAtPath (write : FCompoundWrite) (path : List String) : FCompoundWrite :=
  if path.isEmpty then write
  else
    match write.completeNodeAtPath path with
    | some shadowingNode => ofRoot shadowingNode
    | none => write.subtreeAtPath path

end FCompoundWrite

/-! ## FWriteTree -/

/-- What a write stores: one node, or nodes at several paths. -/
inductive FWriteData where
  | overwrite (newData : FNode)
  | merge (changedChildren : FCompoundWrite)

structure FWriteRecord where
  path : List String
  data : FWriteData
  writeId : Int

/-- `record:containsPath:` -/
def FWriteRecord.containsPath (record : FWriteRecord) (path : List String) : Bool :=
  match record.data with
  | .overwrite _ => record.path <+: path
  | .merge merge => merge.writes.any fun written => record.path ++ written.1 <+: path

structure FWriteTree where
  visibleWrites : FCompoundWrite
  allWrites : List FWriteRecord
  lastWriteId : Int

namespace FWriteTree

def initial : FWriteTree := ⟨FCompoundWrite.emptyWrite, [], -1⟩

/-- `addOverwriteAtPath:newData:writeId:isVisible:`, which asserts that ids grow. -/
def addOverwriteAtPath (tree : FWriteTree) (path : List String) (newData : FNode) (writeId : Int) :
    Option FWriteTree :=
  if writeId > tree.lastWriteId then
    some ⟨tree.visibleWrites.addWrite newData path,
      tree.allWrites ++ [⟨path, .overwrite newData, writeId⟩], writeId⟩
  else
    none

/-- `addMergeAtPath:changedChildren:writeId:` -/
def addMergeAtPath (tree : FWriteTree) (path : List String) (changedChildren : FCompoundWrite)
    (writeId : Int) : Option FWriteTree :=
  if writeId > tree.lastWriteId then
    some ⟨tree.visibleWrites.addCompoundWrite changedChildren path,
      tree.allWrites ++ [⟨path, .merge changedChildren, writeId⟩], writeId⟩
  else
    none

/-- One round of `layerTreeFromWrites:filter:treeRoot:`, at the root. -/
def layerWrite (compoundWrite : FCompoundWrite) (record : FWriteRecord) : FCompoundWrite :=
  match record.data with
  | .overwrite newData => compoundWrite.addWrite newData record.path
  | .merge merge => compoundWrite.addCompoundWrite merge record.path

def resetTree (tree : FWriteTree) : FWriteTree where
  visibleWrites := tree.allWrites.foldl layerWrite FCompoundWrite.emptyWrite
  allWrites := tree.allWrites
  lastWriteId := (tree.allWrites.getLast?.map FWriteRecord.writeId).getD (-1)

/-- The loop of `removeWriteId:`, from the last write on: whether the removed write was
visible, and whether it overlaps with others. -/
def visibleAndOverlaps (path : List String) (index : Nat) :
    List (FWriteRecord × Nat) → Bool → Bool × Bool
  | [], overlaps => (true, overlaps)
  | (currentWrite, i) :: rest, overlaps =>
      if i ≥ index ∧ currentWrite.containsPath path then (false, overlaps)
      else visibleAndOverlaps path index rest (overlaps || path <+: currentWrite.path)

/-- What `removeWriteId:` takes out of the visible writes, where none overlaps. -/
def removeVisible (visibleWrites : FCompoundWrite) (writeToRemove : FWriteRecord) :
    FCompoundWrite :=
  match writeToRemove.data with
  | .overwrite _ => visibleWrites.removeWriteAtPath writeToRemove.path
  | .merge merge => merge.writes.foldl
      (fun visible written => visible.removeWriteAtPath (writeToRemove.path ++ written.1))
      visibleWrites

/-- `removeWriteId:`, which asserts that there is a write of this id; whether it may have
been visible comes with the tree. -/
def removeWriteId (tree : FWriteTree) (writeId : Int) : Option (Bool × FWriteTree) := do
  let index ← tree.allWrites.findIdx? fun record => record.writeId = writeId
  let writeToRemove ← tree.allWrites[index]?
  let allWrites := tree.allWrites.eraseIdx index
  match visibleAndOverlaps writeToRemove.path index allWrites.zipIdx.reverse false with
  | (false, _) => some (false, { tree with allWrites := allWrites })
  | (true, true) => some (true, ({ tree with allWrites := allWrites } : FWriteTree).resetTree)
  | (true, false) => some (true, { tree with
      allWrites := allWrites
      visibleWrites := removeVisible tree.visibleWrites writeToRemove })

/-- `calculateCompleteEventCacheAtPath:` of all visible writes. -/
def calculateCompleteEventCacheAtPath (tree : FWriteTree) (treePath : List String)
    (completeServerCache : Option FNode) : Option FNode :=
  match tree.visibleWrites.completeNodeAtPath treePath with
  | some shadowingNode => some shadowingNode
  | none =>
      let subMerge := tree.visibleWrites.childCompoundWriteAtPath treePath
      if subMerge.isEmpty then completeServerCache
      else if completeServerCache.isNone && !subMerge.hasCompleteWriteAtPath [] then none
      else some (subMerge.applyToNode (completeServerCache.getD Tree.empty))

end FWriteTree

/-! ## Writing and answering -/

/-- `setValue`, `updateChildValues`, and the answer of the server to one of them. -/
inductive WriteEvent where
  | setValue (path : List String) (newData : FNode)
  | updateChildValues (path : List String) (changedChildren : FCompoundWrite)
  | answered (writeId : Int)

/-- The part of `FRepo` that gives writes their ids. -/
structure WriteState where
  writeIdCounter : Int
  pendingWriteTree : FWriteTree

namespace WriteState

def initial : WriteState := ⟨0, FWriteTree.initial⟩

/-- One event; none is a failed assertion. -/
def step (state : WriteState) : WriteEvent → Option WriteState
  | .setValue path newData =>
      (state.pendingWriteTree.addOverwriteAtPath path newData state.writeIdCounter).map
        fun tree => ⟨state.writeIdCounter + 1, tree⟩
  | .updateChildValues path changedChildren =>
      -- an update without children does nothing
      if changedChildren.isEmpty then some state
      else
        (state.pendingWriteTree.addMergeAtPath path changedChildren state.writeIdCounter).map
          fun tree => ⟨state.writeIdCounter + 1, tree⟩
  | .answered writeId =>
      (state.pendingWriteTree.removeWriteId writeId).map
        fun removed => { state with pendingWriteTree := removed.2 }

def run (state : WriteState) : List WriteEvent → Option WriteState
  | [] => some state
  | event :: events => do
      let state ← state.step event
      run state events

end WriteState

/-! ## What is visible -/

/-- At every path, what is visible is what the latest write stores there. -/
def ShowsWrites (write : FCompoundWrite) (writes : List (List String × FNode)) : Prop :=
  ∀ q, latestWrite write.writes q = latestWrite writes q

namespace FCompoundWrite

variable {write : FCompoundWrite} {path rootPath : List String} {value node : FNode}

theorem findRootMost_some (h : write.findRootMost path = some (rootPath, value)) :
    (rootPath, value) ∈ write.writes ∧ rootPath <+: path :=
  ⟨List.mem_of_find?_eq_some h, by simpa using List.find?_some h⟩

theorem findRootMost_none (h : write.findRootMost path = none) :
    ∀ written ∈ write.writes, ¬ written.1 <+: path := by
  intro written hwritten
  simpa using List.find?_eq_none.mp h written hwritten

/-- A value that is set counts where the old one did. -/
theorem latestWrite_setValue (hmem : (rootPath, node) ∈ write.writes) (q : List String) :
    latestWrite (write.setValue value rootPath).writes q =
      if rootPath <+: q then some (value.contents (q.drop rootPath.length))
      else latestWrite write.writes q := by
  have hset : ∀ written ∈ write.writes,
      (if written.1 = rootPath then (rootPath, value) else written) ∈
        (write.setValue value rootPath).writes :=
    fun written hwritten => List.mem_map_of_mem hwritten
  split
  · next hcovers =>
    have hnew := hset _ hmem
    rw [if_pos rfl] at hnew
    exact latestWrite_of_mem (write.setValue value rootPath).diverge hnew hcovers
  · next hnot =>
    cases hlatest : latestWrite write.writes q with
    | none =>
        rw [latestWrite_eq_none] at hlatest ⊢
        intro written hwritten
        obtain ⟨old, hold, rfl⟩ := List.mem_map.mp hwritten
        split
        · exact hnot
        · exact hlatest old hold
    | some stored =>
        obtain ⟨written, hwritten, hcovers, rfl⟩ := exists_of_latestWrite hlatest
        have hnew := hset written hwritten
        rw [if_neg (by rintro rfl; exact hnot hcovers)] at hnew
        exact latestWrite_of_mem (write.setValue value rootPath).diverge hnew hcovers

theorem latestWrite_setTree (hnone : write.findRootMost path = none) (q : List String) :
    latestWrite (write.setTree node path hnone).writes q =
      if path <+: q then some (node.contents (q.drop path.length))
      else latestWrite write.writes q := by
  rw [setTree, latestWrite]
  split
  · next hcovers =>
    have hfilter : latestWrite (write.writes.filter fun written => ¬ path <+: written.1) q =
        none := by
      rw [latestWrite_eq_none]
      intro written hwritten habove
      obtain ⟨hmem, hbelow⟩ := List.mem_filter.mp hwritten
      rcases List.prefix_or_prefix_of_prefix hcovers habove with hle | hle
      · exact absurd hle (by simpa using hbelow)
      · exact findRootMost_none hnone written hmem hle
    rw [hfilter, Option.none_or]
  · next hnot =>
    rw [Option.or_none]
    refine latestWrite_filter fun written _ hcovers => ?_
    simpa using fun hle : path <+: written.1 => hnot (hle.trans hcovers)

end FCompoundWrite

section ShowsWrites

variable {write : FCompoundWrite} {writes others : List (List String × FNode)}
  {path : List String} {node : FNode}

/-- Writes that leave room for a new one store no value above it. -/
theorem latestWrite_above (hclear : Clear (writes ++ [(path, node)])) {q : List String}
    (hq : q <+: path) (hne : q ≠ path) {value : Option Value}
    (h : latestWrite writes q = some value) :
    value = none := by
  obtain ⟨written, hwritten, hcovers, rfl⟩ := exists_of_latestWrite h
  exact hclear.contents (List.mem_append_right writes List.mem_cons_self)
    (List.mem_append_left _ hwritten) hcovers hq hne

/-- **A write becomes visible.** -/
theorem ShowsWrites.addWrite (h : ShowsWrites write writes)
    (hclear : Clear (writes ++ [(path, node)])) :
    ShowsWrites (write.addWrite node path) (writes ++ [(path, node)]) := by
  intro q
  rw [latestWrite_append, latestWrite_singleton, ← h q]
  have hnew : latestWrite (write.addWrite node path).writes q =
      if path <+: q then some (node.contents (q.drop path.length))
      else latestWrite write.writes q := by
    unfold FCompoundWrite.addWrite
    split
    · next hempty =>
      rw [List.isEmpty_iff.mp hempty, if_pos List.nil_prefix]
      exact latestWrite_singleton ([], node) q
    · split
      · next rootPath value hroot =>
        obtain ⟨hmem, rest, rfl⟩ := FCompoundWrite.findRootMost_some hroot
        have hopen : value.Open rest := by
          intro r hr hne
          have hlatest := latestWrite_of_mem write.diverge hmem (List.prefix_append rootPath r)
          rw [h, List.drop_left] at hlatest
          exact latestWrite_above hclear ((List.prefix_append_right_inj rootPath).mpr hr)
            (fun heq => hne (List.append_cancel_left heq)) hlatest
        rw [FCompoundWrite.latestWrite_setValue hmem, List.drop_left]
        split
        · next hcovers =>
          obtain ⟨r, rfl⟩ := hcovers
          have hpath : rootPath ++ rest <+: rootPath ++ r ↔ rest <+: r :=
            List.prefix_append_right_inj rootPath
          rw [List.drop_left, hopen.contents_set]
          by_cases hbelow : rest <+: r
          · rw [if_pos hbelow, if_pos (hpath.mpr hbelow), List.length_append, ← List.drop_drop,
              List.drop_left]
          · rw [if_neg hbelow, if_neg (mt hpath.mp hbelow),
              latestWrite_of_mem write.diverge hmem (List.prefix_append rootPath r), List.drop_left]
        · next hnot =>
          rw [if_neg fun hbelow => hnot ((List.prefix_append rootPath rest).trans hbelow)]
      · next hroot => exact FCompoundWrite.latestWrite_setTree hroot q
  rw [hnew]
  split <;> rfl

theorem ShowsWrites.addAll (h : ShowsWrites write writes) (hclear : Clear (writes ++ others)) :
    ShowsWrites (others.foldl (fun write written => write.addWrite written.2 written.1) write)
      (writes ++ others) := by
  induction others generalizing write writes with
  | nil => rwa [List.append_nil]
  | cons written others ih =>
      rw [List.append_cons] at hclear ⊢
      refine ih (h.addWrite (hclear.mono ?_)) hclear
      exact List.subset_append_left _ _

end ShowsWrites

/-! ## Records -/

namespace FWriteRecord

/-- What a record stores, by whole paths. -/
def compound (record : FWriteRecord) : FCompoundWrite :=
  match record.data with
  | .overwrite newData => (FCompoundWrite.ofRoot newData).atPath record.path
  | .merge merge => merge.atPath record.path

def writes (record : FWriteRecord) : List (List String × FNode) := record.compound.writes

theorem path_prefix (record : FWriteRecord) {written : List String × FNode}
    (h : written ∈ record.writes) : record.path <+: written.1 := by
  have hmem : ∀ merge : FCompoundWrite, written ∈ (merge.atPath record.path).writes →
      record.path <+: written.1 := by
    intro merge hmerge
    obtain ⟨child, _, rfl⟩ := List.mem_map.mp hmerge
    exact List.prefix_append record.path child.1
  unfold writes compound at h
  split at h
  · exact hmem _ h
  · exact hmem _ h

theorem containsPath_iff (record : FWriteRecord) (path : List String) :
    record.containsPath path = true ↔ ∃ written ∈ record.writes, written.1 <+: path := by
  unfold containsPath writes compound
  split
  · simp [FCompoundWrite.ofRoot, FCompoundWrite.atPath]
  · simp only [FCompoundWrite.atPath, List.any_eq_true, decide_eq_true_eq, List.mem_map,
      exists_exists_and_eq_and]

end FWriteRecord

section Records

variable {write : FCompoundWrite} {record : FWriteRecord}
  {before after writes : List (List String × FNode)}

theorem ShowsWrites.layerWrite (h : ShowsWrites write writes)
    (hclear : Clear (writes ++ record.writes)) :
    ShowsWrites (FWriteTree.layerWrite write record) (writes ++ record.writes) := by
  have hall := h.addAll hclear
  unfold FWriteRecord.writes FWriteRecord.compound at hall ⊢
  unfold FWriteTree.layerWrite
  split at hall
  · simpa [FCompoundWrite.ofRoot, FCompoundWrite.atPath] using hall
  · rw [FCompoundWrite.atPath, List.foldl_map] at hall
    exact hall

/-- The tree that is built again shows all writes. -/
theorem ShowsWrites.layer {records : List FWriteRecord}
    (h : ShowsWrites write writes)
    (hclear : Clear (writes ++ records.flatMap FWriteRecord.writes)) :
    ShowsWrites (records.foldl FWriteTree.layerWrite write)
      (writes ++ records.flatMap FWriteRecord.writes) := by
  induction records generalizing write writes with
  | nil => simpa using h
  | cons record records ih =>
      rw [List.flatMap_cons, ← List.append_assoc] at hclear ⊢
      exact ih (h.layerWrite (hclear.mono (List.subset_append_left _ _))) hclear

theorem latestWrite_drop_middle {q : List String} (h : latestWrite record.writes q = none) :
    latestWrite (before ++ (record.writes ++ after)) q = latestWrite (before ++ after) q := by
  rw [latestWrite_append, latestWrite_append, h, Option.or_none, latestWrite_append]

/-- A write that a later one covers does not count. -/
theorem ShowsWrites.shadowed (h : ShowsWrites write (before ++ (record.writes ++ after)))
    (hcovered : ∃ written ∈ after, written.1 <+: record.path) :
    ShowsWrites write (before ++ after) := by
  intro q
  rw [h q]
  cases hlatest : latestWrite record.writes q with
  | none => exact latestWrite_drop_middle hlatest
  | some value =>
      obtain ⟨written, hwritten, hcovers, _⟩ := exists_of_latestWrite hlatest
      obtain ⟨later, hlater, hpath⟩ := hcovered
      have hbelow : later.1 <+: q := (hpath.trans (record.path_prefix hwritten)).trans hcovers
      cases hafter : latestWrite after q with
      | none => exact absurd hbelow (latestWrite_eq_none.mp hafter later hlater)
      | some stored => simp only [latestWrite_append, hafter, Option.some_or]

theorem mem_foldl_removeWriteAtPath {paths : List (List String × FNode)} {root : List String}
    {written : List String × FNode} :
    written ∈ (paths.foldl (fun visible child => visible.removeWriteAtPath (root ++ child.1))
        write).writes ↔
      written ∈ write.writes ∧ ∀ child ∈ paths, ¬ root ++ child.1 <+: written.1 := by
  induction paths generalizing write with
  | nil => simp
  | cons child paths ih =>
      rw [List.foldl_cons, ih, FCompoundWrite.removeWriteAtPath, List.mem_filter,
        List.forall_mem_cons, and_assoc]
      simp

theorem mem_removeVisible {written : List String × FNode} :
    written ∈ (FWriteTree.removeVisible write record).writes ↔
      written ∈ write.writes ∧ ∀ removed ∈ record.writes, ¬ removed.1 <+: written.1 := by
  unfold FWriteTree.removeVisible FWriteRecord.writes FWriteRecord.compound
  split
  · simp [FCompoundWrite.removeWriteAtPath, FCompoundWrite.ofRoot, FCompoundWrite.atPath]
  · rw [mem_foldl_removeWriteAtPath, FCompoundWrite.atPath, List.forall_mem_map]

/-- A write that parts from all others is taken out of what is visible. -/
theorem ShowsWrites.removeVisible (h : ShowsWrites write (before ++ (record.writes ++ after)))
    (hapart : ∀ removed ∈ record.writes, ∀ written ∈ before ++ after,
      Diverge removed.1 written.1) :
    ShowsWrites (FWriteTree.removeVisible write record) (before ++ after) := by
  have hpending : ∀ written ∈ before ++ (record.writes ++ after),
      written ∈ record.writes ∨ written ∈ before ++ after := by
    intro written hwritten
    simp only [List.mem_append] at hwritten ⊢
    tauto
  intro q
  cases hvisible : latestWrite (FWriteTree.removeVisible write record).writes q with
  | none =>
      -- what covered the path there was taken out, so the write was above the path
      symm
      rw [latestWrite_eq_none]
      intro written hwritten hcovers
      have hsome : latestWrite write.writes q ≠ none := by
        rw [h q, Ne, latestWrite_eq_none]
        intro hnone
        refine hnone written ?_ hcovers
        rcases List.mem_append.mp hwritten with hmem | hmem <;> simp [hmem]
      obtain ⟨value, hvalue⟩ := Option.ne_none_iff_exists'.mp hsome
      obtain ⟨old, hold, hcoversOld, _⟩ := exists_of_latestWrite hvalue
      have hremoved : ¬ ∀ removed ∈ record.writes, ¬ removed.1 <+: old.1 := fun hkeep =>
        latestWrite_eq_none.mp hvisible old (mem_removeVisible.mpr ⟨hold, hkeep⟩) hcoversOld
      push Not at hremoved
      obtain ⟨removed, hmem, hbelow⟩ := hremoved
      exact not_diverge_of_prefix (hbelow.trans hcoversOld) hcovers
        (hapart removed hmem written hwritten)
  | some value =>
      obtain ⟨old, hold, hcovers, rfl⟩ := exists_of_latestWrite hvisible
      obtain ⟨hmem, hkeep⟩ := mem_removeVisible.mp hold
      have hnone : latestWrite record.writes q = none := by
        rw [latestWrite_eq_none]
        intro removed hremoved hcoversRemoved
        have habove : old.1 <+: removed.1 := (List.prefix_or_prefix_of_prefix hcovers
          hcoversRemoved).resolve_right (hkeep removed hremoved)
        -- the entry is there for some pending write above it
        have hentry := h old.1
        rw [latestWrite_of_mem write.diverge hmem List.prefix_rfl] at hentry
        obtain ⟨written, hwritten, hleads, _⟩ := exists_of_latestWrite hentry.symm
        rcases hpending written hwritten with hown | hother
        · exact hkeep written hown hleads
        · exact not_diverge_of_prefix List.prefix_rfl (hleads.trans habove)
            (hapart removed hremoved written hother)
      rw [← latestWrite_drop_middle hnone, ← h q, latestWrite_of_mem write.diverge hmem hcovers]

end Records

/-! ## What the client sees -/

section Cache

variable {write : FCompoundWrite} {writes : List (List String × FNode)} {treePath : List String}

theorem FCompoundWrite.completeNodeAtPath_some {node : FNode}
    (h : write.completeNodeAtPath treePath = some node) (q : List String) :
    latestWrite write.writes (treePath ++ q) = some (node.contents q) := by
  obtain ⟨⟨rootPath, value⟩, hroot, rfl⟩ := Option.map_eq_some_iff.mp h
  obtain ⟨hmem, rest, rfl⟩ := FCompoundWrite.findRootMost_some hroot
  have hcovers : rootPath <+: rootPath ++ rest ++ q :=
    (List.prefix_append rootPath rest).trans (List.prefix_append _ q)
  dsimp only
  rw [latestWrite_of_mem write.diverge hmem hcovers, List.append_assoc, List.drop_left,
    List.drop_left, Tree.contents_get]

theorem FCompoundWrite.completeNodeAtPath_none (h : write.completeNodeAtPath treePath = none) :
    ∀ written ∈ write.writes, ¬ written.1 <+: treePath :=
  FCompoundWrite.findRootMost_none (Option.map_eq_none_iff.mp h)

theorem FCompoundWrite.mem_subtreeAtPath {written : List String × FNode} :
    written ∈ (write.subtreeAtPath treePath).writes ↔
      (treePath ++ written.1, written.2) ∈ write.writes := by
  induction treePath generalizing write with
  | nil => rfl
  | cons name path ih =>
      rw [FCompoundWrite.subtreeAtPath, ih, FCompoundWrite.childWrite, List.mem_filterMap]
      constructor
      · rintro ⟨⟨full, value⟩, hmem, hbelow⟩
        obtain ⟨rest, rfl, hchild⟩ := FCompoundWrite.mem_below.mp hbelow
        obtain ⟨hpath, rfl⟩ := Prod.mk.inj hchild
        rw [List.cons_append, hpath]
        exact hmem
      · intro hmem
        exact ⟨_, hmem, FCompoundWrite.mem_below.mpr ⟨_, rfl, rfl⟩⟩

/-- The writes below a path, where there is none above it. -/
theorem FCompoundWrite.latestWrite_subtree
    (hnone : ∀ written ∈ write.writes, ¬ written.1 <+: treePath) (q : List String) :
    latestWrite (write.subtreeAtPath treePath).writes q =
      latestWrite write.writes (treePath ++ q) := by
  cases hlatest : latestWrite (write.subtreeAtPath treePath).writes q with
  | none =>
      symm
      rw [latestWrite_eq_none] at hlatest ⊢
      intro written hwritten hcovers
      have hbelow : treePath <+: written.1 :=
        (List.prefix_or_prefix_of_prefix hcovers (List.prefix_append treePath q)).resolve_left
          (hnone written hwritten)
      obtain ⟨path, value⟩ := written
      obtain ⟨rest, rfl⟩ := hbelow
      exact hlatest (rest, value) (FCompoundWrite.mem_subtreeAtPath.mpr hwritten)
        ((List.prefix_append_right_inj treePath).mp hcovers)
  | some stored =>
      obtain ⟨written, hwritten, hcovers, rfl⟩ := exists_of_latestWrite hlatest
      have hmem := FCompoundWrite.mem_subtreeAtPath.mp hwritten
      have hbelow := (List.prefix_append_right_inj treePath).mpr hcovers
      rw [latestWrite_of_mem write.diverge hmem hbelow,
        List.length_append, ← List.drop_drop, List.drop_left]

/-- The data below a path leave room for what is visible there. -/
theorem ShowsWrites.room_subtree (h : ShowsWrites write writes) {root : FNode}
    (hroom : Room root writes) (treePath : List String) :
    Room (root.get treePath) (write.subtreeAtPath treePath).writes := by
  refine ⟨fun written hwritten q hq hne => ?_,
    clear_of_diverge (write.subtreeAtPath treePath).diverge⟩
  have hmem := FCompoundWrite.mem_subtreeAtPath.mp hwritten
  have hpath : treePath ++ q <+: treePath ++ written.1 :=
    (List.prefix_append_right_inj treePath).mpr hq
  have hneq : treePath ++ q ≠ treePath ++ written.1 := fun heq => hne (List.append_cancel_left heq)
  have hentry := h (treePath ++ written.1)
  rw [latestWrite_of_mem write.diverge hmem List.prefix_rfl] at hentry
  obtain ⟨pending, hpending, hcovers, _⟩ := exists_of_latestWrite hentry.symm
  rw [Tree.contents_get]
  by_cases habove : pending.1 <+: treePath ++ q
  · -- then an entry would be above another one
    have hsome : latestWrite write.writes (treePath ++ q) ≠ none := by
      rw [h, Ne, latestWrite_eq_none]
      exact fun hall => hall pending hpending habove
    obtain ⟨stored, hstored⟩ := Option.ne_none_iff_exists'.mp hsome
    obtain ⟨other, hother, hotherCovers, _⟩ := exists_of_latestWrite hstored
    have hsame : other = (treePath ++ written.1, written.2) := by
      by_contra hdifferent
      exact not_diverge_of_prefix (hotherCovers.trans hpath) List.prefix_rfl
        (diverge_of_mem write.diverge hother hmem hdifferent)
    rw [hsame] at hotherCovers
    exact absurd (hpath.eq_of_length_le hotherCovers.length_le) hneq
  · have hbelow := (List.prefix_or_prefix_of_prefix hcovers hpath).resolve_left habove
    exact hroom.tree pending hpending _ hbelow fun heq => habove (heq ▸ List.prefix_rfl)

theorem FWriteTree.childCompoundWriteAtPath_eq
    (hnone : write.completeNodeAtPath treePath = none) :
    write.childCompoundWriteAtPath treePath = write.subtreeAtPath treePath := by
  unfold FCompoundWrite.childCompoundWriteAtPath
  split
  · next hempty => rw [List.isEmpty_iff.mp hempty, FCompoundWrite.subtreeAtPath]
  · rw [hnone]

theorem contents_pending {root : FNode} (hroom : Room root writes) (q : List String) :
    ((writeAll root writes).get treePath).contents q =
      (latestWrite writes (treePath ++ q)).getD (root.contents (treePath ++ q)) := by
  rw [Tree.contents_get, contents_writeAll hroom]

/-- A node is complete where a pending write is above it. -/
theorem ShowsWrites.complete_iff (h : ShowsWrites write writes) :
    (write.completeNodeAtPath treePath).isSome = true ↔
      ∃ written ∈ writes, written.1 <+: treePath := by
  constructor
  · intro hsome
    obtain ⟨node, hnode⟩ := Option.isSome_iff_exists.mp hsome
    have hlatest := FCompoundWrite.completeNodeAtPath_some hnode []
    rw [h, List.append_nil] at hlatest
    obtain ⟨written, hwritten, hcovers, _⟩ := exists_of_latestWrite hlatest
    exact ⟨written, hwritten, hcovers⟩
  · rintro ⟨written, hwritten, hcovers⟩
    rw [Option.isSome_iff_ne_none]
    intro hnone
    have hlatest : latestWrite writes treePath = none := by
      rw [← h, latestWrite_eq_none]
      exact FCompoundWrite.completeNodeAtPath_none hnone
    exact latestWrite_eq_none.mp hlatest written hwritten hcovers

theorem ShowsWrites.complete_contents (h : ShowsWrites write writes) {root node : FNode}
    (hroom : Room root writes) (hnode : write.completeNodeAtPath treePath = some node) :
    node.contents = ((writeAll root writes).get treePath).contents := by
  refine funext fun q => ?_
  rw [contents_pending hroom, ← h, FCompoundWrite.completeNodeAtPath_some hnode,
    Option.getD_some]

/-- Over complete data of the server, the client sees them with the pending writes. -/
theorem ShowsWrites.calculate {tree : FWriteTree} (h : ShowsWrites tree.visibleWrites writes)
    {root : FNode} (hroom : Room root writes) (treePath : List String) :
    ∃ node, tree.calculateCompleteEventCacheAtPath treePath (some (root.get treePath)) =
        some node ∧ node.contents = ((writeAll root writes).get treePath).contents := by
  unfold FWriteTree.calculateCompleteEventCacheAtPath
  cases hcomplete : tree.visibleWrites.completeNodeAtPath treePath with
  | some node => exact ⟨node, rfl, h.complete_contents hroom hcomplete⟩
  | none =>
      have hnone := FCompoundWrite.completeNodeAtPath_none hcomplete
      have hsubtree := FCompoundWrite.latestWrite_subtree hnone
      dsimp only
      rw [FWriteTree.childCompoundWriteAtPath_eq hcomplete]
      split
      · next hempty =>
        have hlatest : ∀ q, latestWrite writes (treePath ++ q) = none := by
          intro q
          rw [← h, ← hsubtree, List.isEmpty_iff.mp hempty]
          rfl
        refine ⟨_, rfl, funext fun q => ?_⟩
        rw [contents_pending hroom, hlatest, Option.getD_none, Tree.contents_get]
      · refine ⟨_, rfl, funext fun q => ?_⟩
        have happly := contents_writeAll (h.room_subtree hroom treePath) q
        rw [contents_pending hroom, ← h, ← hsubtree, ← Tree.contents_get]
        exact happly

/-- Without data of the server, the client sees what a pending write covers. -/
theorem FWriteTree.calculate_none (tree : FWriteTree) (treePath : List String) :
    tree.calculateCompleteEventCacheAtPath treePath none =
      tree.visibleWrites.completeNodeAtPath treePath := by
  unfold FWriteTree.calculateCompleteEventCacheAtPath
  cases hcomplete : tree.visibleWrites.completeNodeAtPath treePath with
  | some node => rfl
  | none =>
      have hnone := FCompoundWrite.completeNodeAtPath_none hcomplete
      have hroot : (tree.visibleWrites.subtreeAtPath treePath).hasCompleteWriteAtPath [] =
          false := by
        rw [FCompoundWrite.hasCompleteWriteAtPath]
        cases hsub : (tree.visibleWrites.subtreeAtPath treePath).completeNodeAtPath [] with
        | none => rfl
        | some node =>
            have hlatest := FCompoundWrite.completeNodeAtPath_some hsub []
            rw [FCompoundWrite.latestWrite_subtree hnone] at hlatest
            obtain ⟨written, hwritten, hcovers, _⟩ := exists_of_latestWrite hlatest
            exact absurd (by simpa using hcovers) (hnone written hwritten)
      dsimp only
      rw [FWriteTree.childCompoundWriteAtPath_eq hcomplete, hroot]
      split
      · rfl
      · rfl

end Cache

end WillItRecycle

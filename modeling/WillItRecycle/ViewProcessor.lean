import WillItRecycle.LimitedWindow

/-!
# The view of a query

A view keeps two caches of its query: what the server sent (`cachedServerSnap`) and
what the observers see (`cachedEventSnap`).  `FViewProcessor` applies an operation of
the server to the first and carries it over to the second, through the filter of
the query; the changes on the way are collected by an accumulator, which throws on
a combination that should not occur, and an observer of the value gets the new
node when there are any.  No writes of this device are outstanding.
-/

namespace WillItRecycle

open PathTree

/-! ## FChildChangeAccumulator -/

/-- The `changeMap`: one change for each child. -/
abbrev FChildChangeAccumulator : Type := List (String × FChange)

namespace FChildChangeAccumulator

def setObject (changeMap : FChildChangeAccumulator) (change : FChange) :
    FChildChangeAccumulator :=
  (change.childKey, change) :: changeMap.filter fun tracked => tracked.1 ≠ change.childKey

/-- `trackChildChange:`; none is the exception. -/
def trackChildChange (changeMap : FChildChangeAccumulator) (change : FChange) :
    Option FChildChangeAccumulator :=
  let childKey := change.childKey
  match changeMap.lookup childKey with
  | none => some (changeMap.setObject change)
  | some oldChange =>
      match change.type, oldChange.type with
      | .childAdded, .childRemoved =>
          some (changeMap.setObject ⟨.childChanged, childKey, change.node, some oldChange.node⟩)
      | .childRemoved, .childAdded =>
          some (changeMap.filter fun tracked => tracked.1 ≠ childKey)
      | .childRemoved, .childChanged =>
          -- a child that has changed has its old node
          some (changeMap.setObject
            ⟨.childRemoved, childKey, oldChange.oldNode.getD Tree.empty, none⟩)
      | .childChanged, .childAdded =>
          some (changeMap.setObject ⟨.childAdded, childKey, change.node, none⟩)
      | .childChanged, .childChanged =>
          some (changeMap.setObject ⟨.childChanged, childKey, change.node, oldChange.oldNode⟩)
      | _, _ => none

/-- The changes of a filter, in the order in which it tracks them. -/
def trackAll (changeMap : FChildChangeAccumulator) (changes : List FChange) :
    Option FChildChangeAccumulator :=
  changes.foldlM trackChildChange changeMap

end FChildChangeAccumulator

/-! ## FNodeFilter -/

/-- A filter only indexes the children, or limits them too. -/
inductive FNodeFilter where
  | indexed (index : FPathIndex)
  | limited (filter : FLimitedFilter)

namespace FNodeFilter

def index : FNodeFilter → FPathIndex
  | indexed index => index
  | limited filter => filter.index

def filtersNodes : FNodeFilter → Bool
  | indexed _ => false
  | limited _ => true

def indexedFilter (filter : FNodeFilter) : FNodeFilter := indexed filter.index

def updateFullNode : FNodeFilter → FIndexedNode → FIndexedNode → Filtered
  | indexed _ => FIndexedFilter.updateFullNode
  | limited filter => filter.updateFullNode

def updateChildIn : FNodeFilter → FIndexedNode → String → FNode → List String →
    Option FNode → Filtered
  | indexed _ => fun oldSnap childKey newChildSnap affectedPath _ =>
      FIndexedFilter.updateChildIn oldSnap childKey newChildSnap affectedPath
  | limited filter => filter.updateChildIn

end FNodeFilter

/-! ## FCacheNode and FViewCache -/

structure FCacheNode where
  indexedNode : FIndexedNode
  isFullyInitialized : Bool
  isFiltered : Bool

namespace FCacheNode

def node (cache : FCacheNode) : FNode := cache.indexedNode.node

def isCompleteForChild (cache : FCacheNode) (childKey : String) : Bool :=
  (cache.isFullyInitialized && !cache.isFiltered) || hasChild cache.node childKey

def isCompleteForPath (cache : FCacheNode) : List String → Bool
  | [] => cache.isFullyInitialized && !cache.isFiltered
  | childKey :: _ => cache.isCompleteForChild childKey

end FCacheNode

structure FViewCache where
  cachedEventSnap : FCacheNode
  cachedServerSnap : FCacheNode

namespace FViewCache

def updateEventSnap (viewCache : FViewCache) (eventSnap : FIndexedNode)
    (isComplete isFiltered : Bool) : FViewCache :=
  { viewCache with cachedEventSnap := ⟨eventSnap, isComplete, isFiltered⟩ }

def updateServerSnap (viewCache : FViewCache) (serverSnap : FIndexedNode)
    (isComplete isFiltered : Bool) : FViewCache :=
  { viewCache with cachedServerSnap := ⟨serverSnap, isComplete, isFiltered⟩ }

def completeServerSnap (viewCache : FViewCache) : Option FNode :=
  if viewCache.cachedServerSnap.isFullyInitialized then some viewCache.cachedServerSnap.node
  else none

def completeEventSnap (viewCache : FViewCache) : Option FNode :=
  if viewCache.cachedEventSnap.isFullyInitialized then some viewCache.cachedEventSnap.node
  else none

end FViewCache

/-! ## FCompoundWrite -/

/-- The writes of a merge by their paths, in the order in which they are enumerated;
none is inside another. -/
structure FCompoundWrite where
  writes : List (List String × FNode)
  diverge : writes.Pairwise fun write other => Diverge write.1 other.1

namespace FCompoundWrite

def rootWrite (write : FCompoundWrite) : Option FNode := write.writes.lookup []

def applyToNode (write : FCompoundWrite) (node : FNode) : FNode :=
  write.writes.foldl (fun node (path, value) => node.set path value) node

/-- `addCompoundWrite:atPath:` to no writes. -/
def atPath (write : FCompoundWrite) (path : List String) : FCompoundWrite where
  writes := write.writes.map fun (childPath, value) => (path ++ childPath, value)
  diverge := by
    refine List.pairwise_map.mpr (write.diverge.imp fun {a b} hdiverge => ?_)
    induction path with
    | nil => exact hdiverge
    | cons name path ih => exact (diverge_cons name name _ _).mpr (Or.inr ih)

/-- What a write is to the child called `childKey`. -/
def below (childKey : String) : List String × FNode → Option (List String × FNode)
  | ([], _) => none
  | (name :: path, value) => if name = childKey then some (path, value) else none

theorem mem_below {childKey : String} {path : List String} {value : FNode}
    {child : List String × FNode} :
    child ∈ below childKey (path, value) ↔
      ∃ rest, path = childKey :: rest ∧ child = (rest, value) := by
  cases path with
  | nil => simp [below]
  | cons name rest =>
      by_cases hname : name = childKey
      · simp [below, hname, eq_comm]
      · simp [below, hname]

/-- The writes to one child. -/
def childWrite (write : FCompoundWrite) (childKey : String) : FCompoundWrite where
  writes := write.writes.filterMap (below childKey)
  diverge := by
    refine write.diverge.filterMap (below childKey) ?_
    rintro ⟨path, value⟩ ⟨other, otherValue⟩ hdiverge child hchild otherChild hother
    obtain ⟨rest, rfl, rfl⟩ := mem_below.mp hchild
    obtain ⟨otherRest, rfl, rfl⟩ := mem_below.mp hother
    exact ((diverge_cons _ _ _ _).mp hdiverge).resolve_left fun hne => hne rfl

/-- The keys of `childCompoundWrites`. -/
def childKeys (write : FCompoundWrite) : List String :=
  (write.writes.filterMap fun written => written.1.head?).dedup

end FCompoundWrite

/-! ## FViewProcessor -/

/-- An operation of the server; it is tagged when it is meant for one limited query. -/
inductive FOperation where
  | overwrite (isTagged : Bool) (path : List String) (snap : FNode)
  | merge (isTagged : Bool) (path : List String) (children : FCompoundWrite)
  | listenComplete

/-- A view and the changes so far; none is the exception of the accumulator. -/
abbrev Processed : Type := Option (FViewCache × FChildChangeAccumulator)

namespace FViewProcessor

/-- `calculateCompleteEventChildrenWithCompleteServerChildren:`; a value has no
children. -/
def calculateCompleteEventChildren (completeServerChildren : FNode) : FNode :=
  completeServerChildren.names.foldl
    (fun completeChildren key =>
      completeChildren.setChild key (completeServerChildren.child key))
    Tree.empty

/-- `calculateCompleteChild:cache:` -/
def calculateCompleteChild (childKey : String) (existingServerCache : FCacheNode) :
    Option FNode :=
  if existingServerCache.isCompleteForChild childKey then
    some (existingServerCache.node.child childKey)
  else none

/-- The child that the observers are to see after a change of the server. -/
def newEventChild (viewCache : FViewCache) (childKey : String) (childChangePath : List String) :
    Option FNode :=
  if viewCache.cachedEventSnap.isCompleteForChild childKey then
    some ((viewCache.cachedEventSnap.node.child childKey).set childChangePath
      (viewCache.cachedServerSnap.node.get (childKey :: childChangePath)))
  else calculateCompleteChild childKey viewCache.cachedServerSnap

def newEventCache (filter : FNodeFilter) (viewCache : FViewCache) (changePath : List String)
    (source : Option FNode) : Filtered :=
  let oldEventSnap := viewCache.cachedEventSnap
  match changePath with
  | [] =>
      let serverCache := viewCache.completeServerSnap.getD Tree.empty
      let nodeWithLocalWrites :=
        if viewCache.cachedServerSnap.isFiltered then calculateCompleteEventChildren serverCache
        else serverCache
      filter.updateFullNode oldEventSnap.indexedNode ⟨nodeWithLocalWrites, filter.index⟩
  | childKey :: childChangePath =>
      match newEventChild viewCache childKey childChangePath with
      | some newChild =>
          filter.updateChildIn oldEventSnap.indexedNode childKey newChild childChangePath source
      | none => (oldEventSnap.indexedNode, [])

def generateEventCacheAfterServerEvent (filter : FNodeFilter) (viewCache : FViewCache)
    (changePath : List String) (source : Option FNode) (accumulator : FChildChangeAccumulator) :
    Processed :=
  let (newEventCache, changes) := newEventCache filter viewCache changePath source
  (accumulator.trackAll changes).map fun tracked =>
    (viewCache.updateEventSnap newEventCache
      (viewCache.cachedEventSnap.isFullyInitialized || changePath.isEmpty)
      filter.filtersNodes, tracked)

/-- What an overwrite makes of the node of the server; none for one that is intended
for other listeners. -/
def newServerCache (serverFilter : FNodeFilter) (oldServerSnap : FCacheNode)
    (changePath : List String) (changedSnap : FNode) : Option FIndexedNode :=
  match changePath with
  | [] =>
      some (serverFilter.updateFullNode oldServerSnap.indexedNode
        ⟨changedSnap, serverFilter.index⟩).1
  | childKey :: childChangePath =>
      let newChildNode := (oldServerSnap.node.child childKey).set childChangePath changedSnap
      if serverFilter.filtersNodes && !oldServerSnap.isFiltered then
        some (serverFilter.updateFullNode oldServerSnap.indexedNode
          (oldServerSnap.indexedNode.updateChild childKey newChildNode)).1
      else if !oldServerSnap.isCompleteForPath (childKey :: childChangePath) &&
          !childChangePath.isEmpty then
        none
      else
        some (serverFilter.updateChildIn oldServerSnap.indexedNode childKey newChildNode
          childChangePath none).1

def applyServerOverwriteTo (filter : FNodeFilter) (oldViewCache : FViewCache)
    (changePath : List String) (changedSnap : FNode) (optCompleteCache : Option FNode)
    (filterServerNode : Bool) (accumulator : FChildChangeAccumulator) : Processed :=
  let oldServerSnap := oldViewCache.cachedServerSnap
  let serverFilter := if filterServerNode then filter else filter.indexedFilter
  match newServerCache serverFilter oldServerSnap changePath changedSnap with
  | none => some (oldViewCache, accumulator)
  | some newServerCache =>
      let newViewCache := oldViewCache.updateServerSnap newServerCache
        (oldServerSnap.isFullyInitialized || changePath.isEmpty) serverFilter.filtersNodes
      generateEventCacheAfterServerEvent filter newViewCache changePath
        (optCompleteCache.or newViewCache.completeServerSnap) accumulator

/-- One of the two rounds of a merge, over the keys that it is for. -/
def mergeRound (filter : FNodeFilter) (viewCache : FViewCache) (actualMerge : FCompoundWrite)
    (optCompleteCache : Option FNode) (filterServerNode : Bool) (childKeys : List String)
    (processed : Processed) : Processed :=
  childKeys.foldl
    (fun processed childKey =>
      processed.bind fun (curViewCache, accumulator) =>
        let newChild := (actualMerge.childWrite childKey).applyToNode
          (viewCache.cachedServerSnap.node.child childKey)
        applyServerOverwriteTo filter curViewCache [childKey] newChild optCompleteCache
          filterServerNode accumulator)
    processed

def applyServerMergeTo (filter : FNodeFilter) (viewCache : FViewCache) (path : List String)
    (changedChildren : FCompoundWrite) (optCompleteCache : Option FNode)
    (filterServerNode : Bool) (accumulator : FChildChangeAccumulator) : Processed :=
  let serverSnap := viewCache.cachedServerSnap
  if serverSnap.node.isEmpty && !serverSnap.isFullyInitialized then
    some (viewCache, accumulator)
  else
    let actualMerge := changedChildren.atPath path
    -- the children in view go first, since others may come to where they leave
    let inView := actualMerge.childKeys.filter fun childKey => hasChild serverSnap.node childKey
    let others := actualMerge.childKeys.filter fun childKey =>
      !hasChild serverSnap.node childKey &&
        (serverSnap.isCompleteForChild childKey ||
          (actualMerge.childWrite childKey).rootWrite.isSome)
    mergeRound filter viewCache actualMerge optCompleteCache filterServerNode others
      (mergeRound filter viewCache actualMerge optCompleteCache filterServerNode inView
        (some (viewCache, accumulator)))

/-- `listenCompleteOldCache:`, of the whole query. -/
def listenCompleteOldCache (filter : FNodeFilter) (viewCache : FViewCache)
    (accumulator : FChildChangeAccumulator) : Processed :=
  let oldServerNode := viewCache.cachedServerSnap
  let newViewCache :=
    viewCache.updateServerSnap oldServerNode.indexedNode true oldServerNode.isFiltered
  generateEventCacheAfterServerEvent filter newViewCache [] none accumulator

/-- The value that the observers get, if any. -/
def maybeAddValue (oldViewCache newViewCache : FViewCache) (changes : FChildChangeAccumulator) :
    Option FIndexedNode :=
  let eventSnap := newViewCache.cachedEventSnap
  let isLeafOrEmpty := eventSnap.node.isLeaf || eventSnap.node.isEmpty
  if eventSnap.isFullyInitialized && (!changes.isEmpty ||
      !oldViewCache.cachedEventSnap.isFullyInitialized ||
      (isLeafOrEmpty && !oldViewCache.completeEventSnap.any fun old =>
        eventSnap.node.isEqual old)) then
    some eventSnap.indexedNode
  else none

/-- `applyOperationOn:operation:writesCache:completeCache:`: the new view, the changes of
its children and the value for its observers. -/
def applyOperationOn (filter : FNodeFilter) (oldViewCache : FViewCache) (operation : FOperation)
    (optCompleteCache : Option FNode) :
    Option (FViewCache × FChildChangeAccumulator × Option FIndexedNode) :=
  let isFiltered := oldViewCache.cachedServerSnap.isFiltered
  let processed :=
    match operation with
    | .overwrite isTagged path snap =>
        applyServerOverwriteTo filter oldViewCache path snap optCompleteCache
          (isTagged || (isFiltered && !path.isEmpty)) []
    | .merge isTagged path children =>
        applyServerMergeTo filter oldViewCache path children optCompleteCache
          (isTagged || isFiltered) []
    | .listenComplete => listenCompleteOldCache filter oldViewCache []
  processed.map fun (newViewCache, changes) =>
    (newViewCache, changes, maybeAddValue oldViewCache newViewCache changes)

end FViewProcessor

end WillItRecycle

import WillItRecycle.QueryIndex
import Mathlib.Data.Finset.Filter
import Mathlib.Data.List.Sort

/-!
# The filters of a query

A query with a limit keeps only a window of the children.  `FLimitedFilter` cuts a
whole node down to it (`updateFullNode`), and follows the change of one child
without looking at the others (`updateChildIn`): a child that leaves a full window
is replaced by the next one, which it asks of a source of complete children.
-/

namespace WillItRecycle

open PathTree

/-! ## Nodes with an index -/

structure FIndexedNode where
  node : FNode
  index : FPathIndex

/-- `hasChild:` -/
def hasChild (node : FNode) (childName : String) : Bool := !(node.child childName).isEmpty

namespace FIndexedNode

def numChildren (snap : FIndexedNode) : Nat := snap.node.names.length

/-- `childEnumerator`, in the order of the index. -/
def childEnumerator (snap : FIndexedNode) : List FNamedNode :=
  (snap.node.names.map fun name => ⟨name, snap.node.child name⟩).insertionSort
    fun namedNode1 namedNode2 => snap.index.compareNamedNode namedNode1 namedNode2 ≠ .gt

def firstChild (snap : FIndexedNode) : Option FNamedNode := snap.childEnumerator.head?

def lastChild (snap : FIndexedNode) : Option FNamedNode := snap.childEnumerator.getLast?

def enumerateChildrenReverse (snap : FIndexedNode) (reverse : Bool) : List FNamedNode :=
  if reverse then snap.childEnumerator.reverse else snap.childEnumerator

def updateChild (snap : FIndexedNode) (key : String) (newChildNode : FNode) : FIndexedNode :=
  { snap with node := snap.node.setChild key newChildNode }

end FIndexedNode

/-! ## Changes -/

/-- `FIRDataEventType` of a child. -/
inductive ChildEventType where
  | childAdded
  | childRemoved
  | childChanged
  deriving DecidableEq, Repr

structure FChange where
  type : ChildEventType
  childKey : String
  node : FNode
  oldNode : Option FNode

/-- What an update makes of a node, and the changes it reports. -/
abbrev Filtered : Type := FIndexedNode × List FChange

/-! ## FIndexedFilter -/

namespace FIndexedFilter

/-- The change of one child, if any. -/
def childChange (childKey : String) (oldChildSnap newChildSnap : FNode) : List FChange :=
  if newChildSnap.isEmpty then
    if oldChildSnap.isEmpty then []
    else [⟨.childRemoved, childKey, oldChildSnap, none⟩]
  else if oldChildSnap.isEmpty then [⟨.childAdded, childKey, newChildSnap, none⟩]
  else [⟨.childChanged, childKey, newChildSnap, some oldChildSnap⟩]

def updateChildIn (indexedNode : FIndexedNode) (childKey : String) (newChildSnap : FNode)
    (affectedPath : List String) : Filtered :=
  let oldChildSnap := indexedNode.node.child childKey
  if (oldChildSnap.get affectedPath).isEqual (newChildSnap.get affectedPath) ∧
      oldChildSnap.isEmpty = newChildSnap.isEmpty then
    (indexedNode, [])
  else if indexedNode.node.isLeaf ∧ newChildSnap.isEmpty then
    (indexedNode, childChange childKey oldChildSnap newChildSnap)
  else
    (indexedNode.updateChild childKey newChildSnap,
      childChange childKey oldChildSnap newChildSnap)

def updateFullNode (oldSnap newSnap : FIndexedNode) : Filtered :=
  let removed := oldSnap.node.names.filter fun childKey => !hasChild newSnap.node childKey
  let others := newSnap.node.names.filter fun childKey =>
    !(oldSnap.node.child childKey).isEqual (newSnap.node.child childKey)
  (newSnap, (removed ++ others).flatMap fun childKey =>
    childChange childKey (oldSnap.node.child childKey) (newSnap.node.child childKey))

end FIndexedFilter

/-! ## FRangedFilter -/

/-- A query without a start or an end has the least or the greatest post there. -/
structure FRangedFilter where
  index : FPathIndex
  startPost : Option FNamedNode
  endPost : Option FNamedNode

namespace FRangedFilter

/-- A post comes no later than a child. -/
def postBefore (filter : FRangedFilter) (reverse : Bool) (post : Option FNamedNode)
    (child : FNamedNode) : Bool :=
  post.all fun post => filter.index.compareReverse reverse post child ≠ .gt

/-- A post comes no earlier than a child. -/
def postAfter (filter : FRangedFilter) (reverse : Bool) (post : Option FNamedNode)
    (child : FNamedNode) : Bool :=
  post.all fun post => filter.index.compareReverse reverse child post ≠ .gt

def matchesKey (filter : FRangedFilter) (key : String) (node : FNode) : Bool :=
  filter.postBefore false filter.startPost ⟨key, node⟩ &&
    filter.postAfter false filter.endPost ⟨key, node⟩

end FRangedFilter

/-! ## FLimitedFilter -/

/-- `calculateNextNodeAfterPost:`, with no writes of this device outstanding. -/
def calculateNextNodeAfterPost (post : FNamedNode) (completeServerData : FNode) (reverse : Bool)
    (index : FPathIndex) : Option FNamedNode :=
  (completeServerData.names.map fun name =>
      (⟨name, completeServerData.child name⟩ : FNamedNode)).foldl
    (fun current child =>
      if index.compareReverse reverse child post = .gt ∧
          current.all (fun current => index.compareReverse reverse child current = .lt) then
        some child
      else current)
    none

/-- `childByIndex:afterChild:isReverse:` of a source; none is the source without
complete children. -/
def childByIndex (source : Option FNode) (index : FPathIndex) (child : FNamedNode)
    (reverse : Bool) : Option FNamedNode :=
  source.bind fun completeServerData =>
    calculateNextNodeAfterPost child completeServerData reverse index

/-- The limit of a query is positive. -/
structure FLimitedFilter where
  rangedFilter : FRangedFilter
  limit : Nat
  reverse : Bool
  limit_pos : 0 < limit

namespace FLimitedFilter

def index (filter : FLimitedFilter) : FPathIndex := filter.rangedFilter.index

/-- `initWithQueryParams:` of a query without a range. -/
def initWithQueryParams (index : FPathIndex) (limit : Nat) (isViewFromLeft : Bool)
    (hlimit : 0 < limit) : FLimitedFilter :=
  ⟨⟨index, none, none⟩, limit, !isViewFromLeft, hlimit⟩

/-- The child that may take the place of one that leaves; the changed child itself
is passed over. -/
def nextChild (filter : FLimitedFilter) (oldIndexed : FIndexedNode) (childKey : String)
    (windowBoundary : FNamedNode) (source : Option FNode) : Option FNamedNode :=
  (childByIndex source filter.index windowBoundary filter.reverse).bind fun next =>
    if next.name = childKey ∨ hasChild oldIndexed.node next.name then
      childByIndex source filter.index next filter.reverse
    else some next

def fullLimitUpdateNode (filter : FLimitedFilter) (oldIndexed : FIndexedNode)
    (childKey : String) (newChildSnap : FNode) (source : Option FNode) : Filtered :=
  match if filter.reverse then oldIndexed.firstChild else oldIndexed.lastChild with
  | none => (oldIndexed, [])  -- a full window has a boundary
  | some windowBoundary =>
      let inRange := filter.rangedFilter.matchesKey childKey newChildSnap
      let oldChildSnap := oldIndexed.node.child childKey
      if hasChild oldIndexed.node childKey then
        let nextChild := filter.nextChild oldIndexed childKey windowBoundary source
        let remainsInWindow := inRange && !newChildSnap.isEmpty &&
          nextChild.all fun next =>
            filter.index.compareReverse filter.reverse next ⟨childKey, newChildSnap⟩ ≠ .lt
        if remainsInWindow then
          (oldIndexed.updateChild childKey newChildSnap,
            [⟨.childChanged, childKey, newChildSnap, some oldChildSnap⟩])
        else
          let newIndexed := oldIndexed.updateChild childKey Tree.empty
          match nextChild.filter fun next =>
              filter.rangedFilter.matchesKey next.name next.node with
          | some next =>
              (newIndexed.updateChild next.name next.node,
                [⟨.childRemoved, childKey, oldChildSnap, none⟩,
                  ⟨.childAdded, next.name, next.node, none⟩])
          | none => (newIndexed, [⟨.childRemoved, childKey, oldChildSnap, none⟩])
      else if newChildSnap.isEmpty then (oldIndexed, [])
      else if inRange ∧ filter.index.compareReverse filter.reverse windowBoundary
          ⟨childKey, newChildSnap⟩ ≠ .lt then
        ((oldIndexed.updateChild childKey newChildSnap).updateChild windowBoundary.name
            Tree.empty,
          [⟨.childRemoved, windowBoundary.name, windowBoundary.node, none⟩,
            ⟨.childAdded, childKey, newChildSnap, none⟩])
      else (oldIndexed, [])

def updateChildIn (filter : FLimitedFilter) (oldSnap : FIndexedNode) (childKey : String)
    (newChildSnap : FNode) (affectedPath : List String) (source : Option FNode) : Filtered :=
  let newChildSnap :=
    if filter.rangedFilter.matchesKey childKey newChildSnap then newChildSnap else Tree.empty
  if (oldSnap.node.child childKey).isEqual newChildSnap then (oldSnap, [])
  else if oldSnap.numChildren < filter.limit then
    FIndexedFilter.updateChildIn oldSnap childKey newChildSnap affectedPath
  else
    filter.fullLimitUpdateNode oldSnap childKey newChildSnap source

/-- What the block of `updateFullNode` keeps from child to child. -/
structure Cut where
  foundStartPost : Bool
  count : Nat
  filtered : FIndexedNode

/-- The block of `updateFullNode`. -/
def cutChild (filter : FLimitedFilter) (startPost endPost : Option FNamedNode) (cut : Cut)
    (child : FNamedNode) : Cut :=
  let foundStartPost := cut.foundStartPost ||
    filter.rangedFilter.postBefore filter.reverse startPost child
  if foundStartPost && decide (cut.count < filter.limit) &&
      filter.rangedFilter.postAfter filter.reverse endPost child then
    ⟨foundStartPost, cut.count + 1, cut.filtered⟩
  else
    ⟨foundStartPost, cut.count, cut.filtered.updateChild child.name Tree.empty⟩

/-- Where the query starts and where it stops to read. -/
def posts (filter : FLimitedFilter) : Option FNamedNode × Option FNamedNode :=
  if filter.reverse then (filter.rangedFilter.endPost, filter.rangedFilter.startPost)
  else (filter.rangedFilter.startPost, filter.rangedFilter.endPost)

def updateFullNode (filter : FLimitedFilter) (oldSnap newSnap : FIndexedNode) : Filtered :=
  let filtered : FIndexedNode :=
    if newSnap.node.isLeaf || newSnap.node.isEmpty then ⟨Tree.empty, filter.index⟩
    else
      let (startPost, endPost) := filter.posts
      ((newSnap.enumerateChildrenReverse filter.reverse).foldl
        (filter.cutChild startPost endPost) ⟨false, 0, newSnap⟩).filtered
  FIndexedFilter.updateFullNode oldSnap filtered

end FLimitedFilter

end WillItRecycle

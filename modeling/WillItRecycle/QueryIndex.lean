import WillItRecycle.FirebaseNode
import WillItRecycle.NodeContents
import WillItRecycle.LastWindow
import Mathlib.Data.Finset.Dedup

/-!
# The order of a query

The leaderboard asks for the users ordered by a child.  `FPathIndex` compares the
nodes at its path, by type and then by value, and breaks ties by the names, where
names that are integers come before the others.

`compareNamedNode_eq` puts both comparisons into one lexicographic rank, so that
the order is transitive; `entries` is what a node holds of its children, which is
all the order looks at.
-/

namespace WillItRecycle

open PathTree Std

/-! ## Names -/

/-- The UTF-16 code units that `NSLiteralSearch` compares. -/
def utf16 (string : String) : List Nat :=
  string.toList.flatMap fun char =>
    if char.toNat < 0x10000 then [char.toNat]
    else [0xD800 + (char.toNat - 0x10000) / 0x400, 0xDC00 + (char.toNat - 0x10000) % 0x400]

/-- `compare:options:` with `NSLiteralSearch`: by code units, a prefix first. -/
def literalCompare (a b : String) : Ordering := List.compareLex compare (utf16 a) (utf16 b)

/-- The name below all others, `[FUtilities minName]`. -/
def minName : String := "[MIN_NAME]"

/-- The name above all others, `[FUtilities maxName]`. -/
def maxName : String := "[MAX_NAME]"

/-- `tryParseString:asInt:`, for integers of 32 bits. -/
def tryParseString (string : String) : Option Int :=
  if string.toList.length > 11 then none
  else
    let (negative, digits) := match string.toList with
      | '-' :: digits => (true, digits)
      | digits => (false, digits)
    if digits ≠ [] ∧ digits.all Char.isDigit then
      let value : Int := Nat.ofDigitChars 10 digits 0
      let value := if negative then -value else value
      if -2 ^ 31 ≤ value ∧ value < 2 ^ 31 then some value else none
    else
      none

/-- `compareKey:toKey:` -/
def compareKey (a b : String) : Ordering :=
  if a = b then .eq
  else if a = minName ∨ b = maxName then .lt
  else if b = minName ∨ a = maxName then .gt
  else
    match tryParseString a, tryParseString b with
    | some aAsInt, some bAsInt =>
        if aAsInt > bAsInt then .gt
        else if aAsInt < bAsInt then .lt
        else compare a.length b.length
    | some _, none => .lt
    | none, some _ => .gt
    | none, none => literalCompare a b

/-! ## Nodes -/

/-- The place in `valueTypeOrder`. -/
def Value.typeIndex : Value → Nat
  | .bool _ => 1
  | .int _ => 2
  | .string _ => 3

/-- `compareToLeafNode:`: values of one type are compared as such, others by their types.
-/
def compareToLeafNode (value other : Value) : Ordering :=
  match value, other with
  | .bool value, .bool other => compare value.toNat other.toNat
  | .int value, .int other => compare value other
  | .string value, .string other => literalCompare value other
  | value, other => if value.typeIndex > other.typeIndex then .gt else .lt

/-- `compare:` of leaves and of nodes with children. -/
def compareNode (node other : FNode) : Ordering :=
  match node.value? with
  | some value =>
      match other.value? with
      | some otherValue => compareToLeafNode value otherValue
      | none => if other.isEmpty then .gt else .lt
  | none =>
      if node.isEmpty then
        if other.isEmpty then .eq else .lt
      else if other.isLeaf || other.isEmpty then .gt
      else .eq

/-- A name with the node it stands for, as a query delivers them. -/
structure FNamedNode where
  name : String
  node : FNode

/-- An index on a child; there is none on the node itself. -/
structure FPathIndex where
  path : List String
  path_ne : path ≠ []

namespace FPathIndex

/-- `compareNamedNode:toNamedNode:`: by what stands at the path of the index, and then by
name. -/
def compareNamedNode (index : FPathIndex) (namedNode1 namedNode2 : FNamedNode) : Ordering :=
  (compareNode (namedNode1.node.get index.path) (namedNode2.node.get index.path)).then
    (compareKey namedNode1.name namedNode2.name)

/-- `compareKey:andNode:toOtherKey:andNode:reverse:` -/
def compareReverse (index : FPathIndex) (reverse : Bool) (namedNode1 namedNode2 : FNamedNode) :
    Ordering :=
  if reverse then index.compareNamedNode namedNode2 namedNode1
  else index.compareNamedNode namedNode1 namedNode2

end FPathIndex

/-! ## One rank for both comparisons -/

/-- A type, a number and a text, compared in this order. -/
abbrev Rank : Type := Nat × Int × List Nat

/-- A comparison of what is read off. -/
instance transCmp_on {α β : Type} (f : α → β) (cmp : β → β → Ordering) [TransCmp cmp] :
    TransCmp fun a b => cmp (f a) (f b) where
  eq_swap {a b} := @OrientedCmp.eq_swap _ cmp _ (f a) (f b)
  isLE_trans {a b c} := @TransCmp.isLE_trans _ cmp _ (f a) (f b) (f c)

/-- Ranks are compared part by part, the first difference decides. -/
def rankCmp : Rank → Rank → Ordering :=
  compareLex (compareOn Prod.fst)
    (compareLex (compareOn fun rank => rank.2.1)
      fun rank other => List.compareLex compare rank.2.2 other.2.2)

/-- A lexicographic comparison of transitive comparisons is transitive. -/
instance : TransCmp rankCmp :=
  inferInstanceAs (TransCmp (compareLex (compareOn Prod.fst)
    (compareLex (compareOn fun rank : Rank => rank.2.1)
      fun rank other => List.compareLex compare rank.2.2 other.2.2)))

/-- Ranks that compare as equal are equal, so that the names decide only between nodes of
one rank. -/
instance : LawfulEqCmp rankCmp where
  eq_of_compare {rank other} h := by
    simp only [rankCmp, compareLex, compareOn, Ordering.then_eq_eq,
      LawfulEqCmp.compare_eq_iff_eq] at h
    exact Prod.ext h.1 (Prod.ext h.2.1 h.2.2)

/-- A rank with the smaller first part comes first, whatever the others are. -/
theorem rankCmp_fst {rank other : Rank} (h : rank.1 < other.1) : rankCmp rank other = .lt := by
  simp [rankCmp, compareLex, compareOn, Nat.compare_eq_lt.mpr h]

/-- A rank with the larger first part comes later. -/
theorem rankCmp_fst_gt {rank other : Rank} (h : other.1 < rank.1) : rankCmp rank other = .gt :=
  OrientedCmp.gt_iff_lt.mpr (rankCmp_fst h)

/-- Between ranks with one first part the other two decide. -/
theorem rankCmp_same_fst {rank other : Rank} (h : rank.1 = other.1) :
    rankCmp rank other =
      (compare rank.2.1 other.2.1).then (List.compareLex compare rank.2.2 other.2.2) := by
  simp [rankCmp, compareLex, compareOn, h]

/-- The comparison of integers, in the shape in which the source writes it out. -/
theorem compare_eq_ite (m n : Int) :
    compare m n = if m > n then .gt else if m < n then .lt else .eq := by
  by_cases hgt : m > n
  · rw [if_pos hgt, Int.compare_eq_gt]
    exact hgt
  · by_cases hlt : m < n
    · rw [if_neg hgt, if_pos hlt, Int.compare_eq_lt]
      exact hlt
    · rw [if_neg hgt, if_neg hlt, Int.compare_eq_eq]
      omega

/-- The rank of a name: the least name, those that are integers, the others, the greatest.
-/
def keyRank (key : String) : Rank :=
  if key = minName then (0, 0, [])
  else if key = maxName then (3, 0, [])
  else
    match tryParseString key with
    | some value => (1, value, [key.length])
    | none => (2, 0, utf16 key)

/-- The rank of a value: its type, and then the value. -/
def Value.rank : Value → Rank
  | .bool value => (1, value.toNat, [])
  | .int value => (2, value, [])
  | .string value => (3, 0, utf16 value)

/-- The rank of a node: absent, a value, or a node with children; all nodes with children
have one rank. -/
def nodeRank (node : FNode) : Rank :=
  match node.value? with
  | some value => value.rank
  | none => if node.isEmpty then (0, 0, []) else (4, 0, [])

/-- The ranks of names: the least, integers, the others, the greatest. -/
theorem compareKey_eq (a b : String) : compareKey a b = rankCmp (keyRank a) (keyRank b) := by
  by_cases hab : a = b
  · rw [hab, compareKey, if_pos rfl]
    exact ReflCmp.compare_self.symm
  have hmax : maxName ≠ minName := by decide
  rw [compareKey, if_neg hab]
  by_cases hamin : a = minName
  · rw [if_pos (Or.inl hamin), rankCmp_fst]
    have hbmin : b ≠ minName := fun hb => hab (hamin.trans hb.symm)
    simp only [keyRank, if_pos hamin, if_neg hbmin]
    split
    · simp
    · split <;> simp
  by_cases hbmax : b = maxName
  · rw [if_pos (Or.inr hbmax), rankCmp_fst]
    have hamax : a ≠ maxName := fun ha => hab (ha.trans hbmax.symm)
    simp only [keyRank, if_neg hamin, if_neg hamax, hbmax, if_neg hmax, if_pos]
    split <;> simp
  rw [if_neg (by simp [hamin, hbmax])]
  by_cases hbmin : b = minName
  · rw [if_pos (Or.inl hbmin), rankCmp_fst_gt]
    simp only [keyRank, if_neg hamin, if_pos hbmin]
    split
    · simp
    · split <;> simp
  by_cases hamax : a = maxName
  · rw [if_pos (Or.inr hamax), rankCmp_fst_gt]
    simp only [keyRank, if_neg hbmin, if_neg hbmax, hamax, if_neg hmax, if_pos]
    split <;> simp
  rw [if_neg (by simp [hbmin, hamax])]
  simp only [keyRank, if_neg hamin, if_neg hbmin, if_neg hamax, if_neg hbmax]
  cases htrya : tryParseString a with
  | none =>
      cases htryb : tryParseString b with
      | none => simp [rankCmp_same_fst, literalCompare]
      | some value => exact (rankCmp_fst_gt (by simp)).symm
  | some value =>
      cases htryb : tryParseString b with
      | none => exact (rankCmp_fst (by simp)).symm
      | some other =>
          simp only [rankCmp_same_fst, compare_eq_ite]
          by_cases hgt : value > other
          · simp [hgt]
          · by_cases hlt : value < other
            · simp [hgt, hlt]
            · simp only [hgt, hlt, if_false, List.compareLex, Ordering.then]
              cases compare a.length b.length <;> rfl

/-- A rank of a value starts with the type of the value. -/
theorem Value.rank_fst (value : Value) : value.rank.1 = value.typeIndex := by
  cases value <;> rfl

/-- Comparing values is comparing their ranks, one case for each pair of types. -/
theorem compareToLeafNode_eq (value other : Value) :
    compareToLeafNode value other = rankCmp value.rank other.rank := by
  -- one case for each pair of types
  cases value with
  | int m =>
      cases other with
      | int n => simp [compareToLeafNode, rankCmp_same_fst, Value.rank, List.compareLex]
      | bool b => exact (rankCmp_fst_gt (by simp [Value.rank])).symm
      | string t => exact (rankCmp_fst (by simp [Value.rank])).symm
  | bool a =>
      cases other with
      | int n => exact (rankCmp_fst (by simp [Value.rank])).symm
      | bool b => cases a <;> cases b <;> rfl
      | string t => exact (rankCmp_fst (by simp [Value.rank])).symm
  | string s =>
      cases other with
      | int n => exact (rankCmp_fst_gt (by simp [Value.rank])).symm
      | bool b => exact (rankCmp_fst_gt (by simp [Value.rank])).symm
      | string t => simp [compareToLeafNode, rankCmp_same_fst, Value.rank, literalCompare]

/-- The absent node comes before every value. -/
theorem rankCmp_empty_value (value : Value) : rankCmp (0, 0, []) value.rank = .lt :=
  rankCmp_fst (by cases value <;> simp [Value.rank])

/-- Every value comes before a node with children. -/
theorem rankCmp_value_children (value : Value) : rankCmp value.rank (4, 0, []) = .lt :=
  rankCmp_fst (by cases value <;> simp [Value.rank])

/-- The ranks of nodes: the empty one, the leaves by type, those with children. -/
theorem compareNode_eq (node other : FNode) :
    compareNode node other = rankCmp (nodeRank node) (nodeRank other) := by
  unfold compareNode nodeRank
  cases hvalue : node.value? with
  | none =>
      cases hother : other.value? with
      | none =>
          by_cases hempty : node.isEmpty <;> by_cases hoempty : other.isEmpty <;>
            simp [hempty, hoempty, Tree.isLeaf_eq_value?, hother] <;> rfl
      | some otherValue =>
          have hnot : other.isEmpty = false := by
            rw [Tree.eq_leaf_of_value? hother]
            rfl
          by_cases hempty : node.isEmpty
          · simp [hempty, hnot, rankCmp_empty_value]
          · have hgt := OrientedCmp.gt_iff_lt.mpr (rankCmp_value_children otherValue)
            simp [hempty, Tree.isLeaf_eq_value?, hother, hgt]
  | some value =>
      cases hother : other.value? with
      | none =>
          by_cases hoempty : other.isEmpty
          · have hgt := OrientedCmp.gt_iff_lt.mpr (rankCmp_empty_value value)
            simp [hoempty, hgt]
          · simp [hoempty, rankCmp_value_children]
      | some otherValue => exact compareToLeafNode_eq value otherValue

/-! ## What the order looks at -/

/-- A child of a node: its name and what is stored below it. -/
@[ext] structure ChildEntry where
  name : String
  contents : List String → Option Value

/-- Entries are told apart as mathematical objects; no computation depends on it. -/
noncomputable instance : DecidableEq ChildEntry := Classical.decEq ChildEntry

/-- The child of a node that a named node stands for. -/
def FNamedNode.entry (namedNode : FNamedNode) : ChildEntry :=
  ⟨namedNode.name, namedNode.node.contents⟩

open Classical in
/-- `nodeRank` of a node that holds this. -/
noncomputable def contentsRank (contents : List String → Option Value) : Rank :=
  match contents [] with
  | some value => value.rank
  | none => if ∀ path, contents path = none then (0, 0, []) else (4, 0, [])

/-- The rank of a node can be read off its contents, which is all that an entry keeps of
it. -/
theorem contentsRank_contents (node : FNode) : contentsRank node.contents = nodeRank node := by
  unfold contentsRank nodeRank
  rw [Tree.contents_nil]
  cases hvalue : node.value? with
  | some value => rfl
  | none =>
      have hempty : (∀ path, node.contents path = none) ↔ node.isEmpty = true := by
        rw [Tree.contents_eq_none_iff, Tree.isEmpty_iff]
      simp only [hempty]

/-- A pair of ranks, of the node at the path and of the name, is compared in this order.
-/
def pairCmp : Rank × Rank → Rank × Rank → Ordering :=
  compareLex (fun rank other => rankCmp rank.1 other.1) fun rank other => rankCmp rank.2 other.2

/-- The comparison of pairs is transitive, since both parts are. -/
instance : TransCmp pairCmp :=
  inferInstanceAs (TransCmp (compareLex (fun rank other : Rank × Rank => rankCmp rank.1 other.1)
    fun rank other => rankCmp rank.2 other.2))

namespace FPathIndex

/-- The two ranks that decide where an entry stands in the order of an index. -/
noncomputable def entryRank (index : FPathIndex) (entry : ChildEntry) : Rank × Rank :=
  (contentsRank fun rest => entry.contents (index.path ++ rest), keyRank entry.name)

/-- The comparison of the source is the comparison of these pairs of ranks. -/
theorem compareNamedNode_eq (index : FPathIndex) (namedNode1 namedNode2 : FNamedNode) :
    index.compareNamedNode namedNode1 namedNode2 =
      pairCmp (index.entryRank namedNode1.entry) (index.entryRank namedNode2.entry) := by
  have hrank : ∀ namedNode : FNamedNode, index.entryRank namedNode.entry =
      (nodeRank (namedNode.node.get index.path), keyRank namedNode.name) := by
    intro namedNode
    rw [entryRank, ← contentsRank_contents]
    congr 2
    funext rest
    exact (Tree.contents_get _ _ _).symm
  rw [hrank, hrank, compareNamedNode, compareNode_eq, compareKey_eq]
  rfl

/-- In the order of the query an entry comes later than another; a query that is
read from its end has the order reversed. -/
def Later (index : FPathIndex) (reverse : Bool) (entry other : ChildEntry) : Prop :=
  (if reverse then pairCmp (index.entryRank other) (index.entryRank entry)
    else pairCmp (index.entryRank entry) (index.entryRank other)) = .gt

/-- What the comparison in the direction of a query calls greater stands later in it. -/
theorem compareReverse_eq_gt {index : FPathIndex} {reverse : Bool}
    {namedNode1 namedNode2 : FNamedNode} :
    index.compareReverse reverse namedNode1 namedNode2 = .gt ↔
      index.Later reverse namedNode1.entry namedNode2.entry := by
  unfold compareReverse Later
  cases reverse <;> simp [compareNamedNode_eq]

/-- What the comparison in the direction of a query calls less stands earlier in it. -/
theorem compareReverse_eq_lt {index : FPathIndex} {reverse : Bool}
    {namedNode1 namedNode2 : FNamedNode} :
    index.compareReverse reverse namedNode1 namedNode2 = .lt ↔
      index.Later reverse namedNode2.entry namedNode1.entry := by
  rw [← compareReverse_eq_gt]
  unfold compareReverse
  cases reverse <;> simp [compareNamedNode_eq, OrientedCmp.gt_iff_lt]

/-- Standing later is transitive, so that a query has an order to deliver in. -/
theorem Later.trans {index : FPathIndex} {reverse : Bool} {a b c : ChildEntry}
    (hab : index.Later reverse a b) (hbc : index.Later reverse b c) :
    index.Later reverse a c := by
  cases reverse with
  | false => exact @TransCmp.gt_trans _ pairCmp _ _ _ _ hab hbc
  | true => exact @TransCmp.gt_trans _ pairCmp _ _ _ _ hbc hab

/-- Of two entries at most one stands later. -/
theorem Later.asymm {index : FPathIndex} {reverse : Bool} {a b : ChildEntry}
    (h : index.Later reverse a b) : ¬ index.Later reverse b a := by
  unfold Later at *
  cases reverse <;> simp_all [OrientedCmp.gt_iff_lt]

end FPathIndex

/-! ## The children of a node -/

/-- No two different names compare as the same one, as `-0` and `00` do. -/
def Distinguished (names : List String) : Prop :=
  ∀ a ∈ names, ∀ b ∈ names, compareKey a b = .eq → a = b

/-- What a node holds of its children. -/
noncomputable def entries (node : FNode) : Finset ChildEntry :=
  (node.names.map fun name => ⟨name, (node.child name).contents⟩ : List ChildEntry).toFinset

/-- An entry is of a node when the node has a child of that name with those contents. -/
theorem mem_entries {node : FNode} {entry : ChildEntry} :
    entry ∈ entries node ↔
      node.child entry.name ≠ Tree.empty ∧ entry.contents = (node.child entry.name).contents := by
  rw [entries, List.mem_toFinset, List.mem_map]
  constructor
  · rintro ⟨name, hname, rfl⟩
    exact ⟨Tree.mem_names_iff.mp hname, rfl⟩
  · rintro ⟨hname, hcontents⟩
    exact ⟨entry.name, Tree.mem_names_iff.mpr hname, ChildEntry.ext rfl hcontents.symm⟩

/-- A node has one entry for each of its names. -/
theorem card_entries (node : FNode) : (entries node).card = node.names.length := by
  have hnodup : (node.names.map fun name =>
      (⟨name, (node.child name).contents⟩ : ChildEntry)).Nodup :=
    node.nodup_names.map fun a b h => congrArg ChildEntry.name h
  rw [entries, List.toFinset_card_of_nodup hnodup, List.length_map]

/-- Names are distinct. -/
theorem entries_inj {node : FNode} {entry other : ChildEntry} (h : entry ∈ entries node)
    (h' : other ∈ entries node) (hname : entry.name = other.name) : entry = other := by
  obtain ⟨-, hcontents⟩ := mem_entries.mp h
  obtain ⟨-, hother⟩ := mem_entries.mp h'
  exact ChildEntry.ext hname (hcontents.trans (hname ▸ hother.symm))

/-- Nodes with equal contents have the same entries. -/
theorem entries_congr {node other : FNode} (h : node.contents = other.contents) :
    entries node = entries other := by
  ext entry
  have hempty := Tree.isEmpty_eq_of_contents (Tree.contents_child_eq h entry.name)
  rw [mem_entries, mem_entries, Tree.contents_child_eq h, ← Tree.isEmpty_eq_false_iff,
    ← Tree.isEmpty_eq_false_iff, hempty]

/-- A node without a value and its children's entries say the same. -/
theorem contents_eq_of_entries {node other : FNode} (hnode : node.isLeaf = false)
    (hother : other.isLeaf = false) (h : entries node = entries other) :
    node.contents = other.contents := by
  refine Tree.contents_ext ?_ fun name => ?_
  · rw [Tree.value?_eq_none hnode, Tree.value?_eq_none hother]
  · by_cases hname : node.child name = Tree.empty
    · by_contra hne
      have hmem : (⟨name, (other.child name).contents⟩ : ChildEntry) ∈ entries node := by
        rw [h, mem_entries]
        refine ⟨fun hempty => hne ?_, rfl⟩
        rw [hname, hempty]
      exact (mem_entries.mp hmem).1 hname
    · have hmem : (⟨name, (node.child name).contents⟩ : ChildEntry) ∈ entries other := by
        rw [← h, mem_entries]
        exact ⟨hname, rfl⟩
      exact (mem_entries.mp hmem).2

/-- Deleting a child takes away its entry and no other one. -/
theorem mem_entries_setChild_empty {node : FNode} {name : String} {entry : ChildEntry} :
    entry ∈ entries (node.setChild name Tree.empty) ↔
      entry.name ≠ name ∧ entry ∈ entries node := by
  rw [mem_entries, mem_entries, Tree.child_setChild]
  by_cases hname : entry.name = name
  · simp [hname]
  · simp [hname]

/-- Setting a child replaces its entry. -/
theorem entries_setChild (node new : FNode) (name : String) :
    entries (node.setChild name new) =
      if new.isEmpty then (entries node).erase ⟨name, (node.child name).contents⟩
      else insert ⟨name, new.contents⟩
        ((entries node).erase ⟨name, (node.child name).contents⟩) := by
  ext entry
  have hold : entry ∈ (entries node).erase ⟨name, (node.child name).contents⟩ ↔
      entry.name ≠ name ∧ entry ∈ entries node := by
    rw [Finset.mem_erase]
    refine and_congr_left fun hentry => not_congr ⟨fun heq => heq ▸ rfl, fun hname => ?_⟩
    exact ChildEntry.ext hname (hname ▸ (mem_entries.mp hentry).2)
  by_cases hname : entry.name = name
  · have hgone : entry ∉ (entries node).erase ⟨name, (node.child name).contents⟩ := by
      rw [hold]
      exact fun h => h.1 hname
    rw [mem_entries, hname, Tree.child_setChild_same]
    by_cases hnew : new.isEmpty
    · rw [if_pos hnew]
      exact iff_of_false (fun h => h.1 (Tree.isEmpty_iff.mp hnew)) hgone
    · rw [if_neg hnew, Finset.mem_insert, or_iff_left hgone, ← Tree.isEmpty_eq_false_iff,
        ChildEntry.ext_iff]
      simp [hname, hnew]
  · have hsame : entry ∈ entries (node.setChild name new) ↔ entry ∈ entries node := by
      rw [mem_entries, mem_entries, Tree.child_setChild_ne hname]
    have hnot : entry ≠ ⟨name, new.contents⟩ := fun heq => hname (congrArg ChildEntry.name heq)
    rw [hsame]
    split
    · rw [hold]
      exact (and_iff_right hname).symm
    · rw [Finset.mem_insert, or_iff_right hnot, hold]
      exact (and_iff_right hname).symm

end WillItRecycle

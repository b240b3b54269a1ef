import WillItRecycle.QueryFilter

/-!
# The window of a limited query

`Window filter data snap` says that `snap` holds what the query keeps of `data`: of
the children in its range the last ones, in the order in which it reads them, up to
its limit.  `updateFullNode` computes the window; `updateChildIn` keeps it when one
child of the data changes, given a source that knows the children beyond the window
(`Window.updateChildIn`).
-/

namespace WillItRecycle

open PathTree LastWindow Std

namespace FPathIndex

theorem Later.total {index : FPathIndex} {names : List String} (h : Distinguished names)
    {a b : ChildEntry} (ha : a.name ∈ names) (hb : b.name ∈ names) (hne : a.name ≠ b.name)
    (reverse : Bool) : index.Later reverse a b ∨ index.Later reverse b a := by
  have hkey : rankCmp (keyRank a.name) (keyRank b.name) ≠ .eq := by
    rw [← compareKey_eq]
    exact fun heq => hne (h _ ha _ hb heq)
  have hne' : pairCmp (index.entryRank a) (index.entryRank b) ≠ .eq := by
    intro heq
    rw [pairCmp, compareLex, Ordering.then_eq_eq] at heq
    exact hkey heq.2
  have hor : pairCmp (index.entryRank a) (index.entryRank b) = .gt ∨
      pairCmp (index.entryRank b) (index.entryRank a) = .gt := by
    cases hcmp : pairCmp (index.entryRank a) (index.entryRank b) with
    | lt => exact Or.inr (OrientedCmp.gt_iff_lt.mpr hcmp)
    | eq => exact absurd hcmp hne'
    | gt => exact Or.inl rfl
  cases reverse with
  | false => exact hor
  | true => exact hor.symm

/-- Comparing two children of different names is strict. -/
theorem compareReverse_ne_lt {index : FPathIndex} {names : List String}
    (h : Distinguished names) {a b : FNamedNode} (ha : a.name ∈ names) (hb : b.name ∈ names)
    (hne : a.name ≠ b.name) (reverse : Bool) :
    index.compareReverse reverse a b ≠ .lt ↔ index.Later reverse a.entry b.entry := by
  rw [not_iff_comm, compareReverse_eq_lt]
  constructor
  · intro hnot
    exact (Later.total h ha hb hne reverse).resolve_left hnot
  · intro hlater
    exact Later.asymm hlater

end FPathIndex

/-! ## Reading the children -/

theorem mem_childEnumerator {snap : FIndexedNode} {child : FNamedNode} :
    child ∈ snap.childEnumerator ↔
      child.name ∈ snap.node.names ∧ child.node = snap.node.child child.name := by
  rw [FIndexedNode.childEnumerator, List.mem_insertionSort, List.mem_map]
  constructor
  · rintro ⟨name, hname, rfl⟩
    exact ⟨hname, rfl⟩
  · rintro ⟨hname, hnode⟩
    exact ⟨child.name, hname, by rw [← hnode]⟩

theorem mem_enumerate {snap : FIndexedNode} {reverse : Bool} {child : FNamedNode} :
    child ∈ snap.enumerateChildrenReverse reverse ↔
      child.name ∈ snap.node.names ∧ child.node = snap.node.child child.name := by
  rw [← mem_childEnumerator]
  cases reverse with
  | false => rfl
  | true => exact List.mem_reverse

theorem nodup_childEnumerator (snap : FIndexedNode) :
    (snap.childEnumerator.map FNamedNode.name).Nodup := by
  have hperm := (List.perm_insertionSort
    (fun namedNode1 namedNode2 => snap.index.compareNamedNode namedNode1 namedNode2 ≠ .gt)
    (snap.node.names.map fun name => (⟨name, snap.node.child name⟩ : FNamedNode))).map
      FNamedNode.name
  rw [List.map_map] at hperm
  refine hperm.nodup_iff.mpr ?_
  have hnames : FNamedNode.name ∘ (fun name => (⟨name, snap.node.child name⟩ : FNamedNode)) =
      id := rfl
  rw [hnames, List.map_id]
  exact snap.node.nodup_names

theorem nodup_enumerate (snap : FIndexedNode) (reverse : Bool) :
    ((snap.enumerateChildrenReverse reverse).map FNamedNode.name).Nodup := by
  cases reverse with
  | false => exact nodup_childEnumerator snap
  | true =>
      have hreverse := List.nodup_reverse.mpr (nodup_childEnumerator snap)
      rwa [← List.map_reverse] at hreverse

/-- A sort puts no element before a smaller one. -/
theorem pairwise_sort {α : Type} (cmp : α → α → Ordering) [TransCmp cmp] (xs : List α) :
    (xs.insertionSort fun a b => cmp a b ≠ .gt).Pairwise fun a b => cmp a b ≠ .gt := by
  let le : α → α → Prop := fun a b => cmp a b ≠ .gt
  have htrans : IsTrans α le := by
    refine ⟨fun a b c hab hbc => ?_⟩
    simp only [le] at *
    exact Ordering.isLE_iff_ne_gt.mp (TransCmp.isLE_trans (Ordering.isLE_iff_ne_gt.mpr hab)
      (Ordering.isLE_iff_ne_gt.mpr hbc))
  have htotal : Std.Total le := by
    refine ⟨fun a b => ?_⟩
    by_contra hnot
    rw [not_or, not_not, not_not, OrientedCmp.gt_iff_lt (a := b)] at hnot
    rw [hnot.1] at hnot
    cases hnot.2
  exact List.pairwise_insertionSort le xs

instance (index : FPathIndex) : TransCmp index.compareNamedNode := by
  have hcompare : index.compareNamedNode = fun namedNode1 namedNode2 =>
      pairCmp (index.entryRank namedNode1.entry) (index.entryRank namedNode2.entry) := by
    funext namedNode1 namedNode2
    exact index.compareNamedNode_eq namedNode1 namedNode2
  rw [hcompare]
  exact transCmp_on (fun namedNode : FNamedNode => index.entryRank namedNode.entry) pairCmp

theorem sorted_childEnumerator (snap : FIndexedNode) :
    snap.childEnumerator.Pairwise fun a b => snap.index.compareNamedNode a b ≠ .gt :=
  pairwise_sort snap.index.compareNamedNode _

/-- The children are read in the order of the query, each later than those before. -/
theorem enumerate_later (snap : FIndexedNode) {names : List String} (h : Distinguished names)
    (hsub : snap.node.names ⊆ names) (reverse : Bool) :
    (snap.enumerateChildrenReverse reverse).Pairwise fun a b =>
      snap.index.Later reverse b.entry a.entry := by
  have hnodup : snap.childEnumerator.Pairwise fun a b => a.name ≠ b.name :=
    List.pairwise_map.mp (nodup_childEnumerator snap)
  have hlater : snap.childEnumerator.Pairwise fun a b =>
      snap.index.Later false b.entry a.entry := by
    refine ((sorted_childEnumerator snap).and hnodup).imp_of_mem fun {a b} ha hb hab => ?_
    have ha' := hsub (mem_childEnumerator.mp ha).1
    have hb' := hsub (mem_childEnumerator.mp hb).1
    refine (FPathIndex.Later.total h hb' ha' (Ne.symm hab.2) false).resolve_right fun hba => ?_
    exact hab.1 ((@FPathIndex.compareReverse_eq_gt _ false _ _).mpr hba)
  cases reverse with
  | false => exact hlater
  | true =>
      refine List.pairwise_reverse.mpr (hlater.imp fun {a b} hab => ?_)
      exact hab

/-! ## What a query keeps -/

theorem FPathIndex.Later.irrefl {index : FPathIndex} {reverse : Bool} (a : ChildEntry) :
    ¬ index.Later reverse a a := fun h => h.asymm h

namespace FRangedFilter

def InRange (filter : FRangedFilter) (entry : ChildEntry) : Prop :=
  (∀ post ∈ filter.startPost, ¬ filter.index.Later false post.entry entry) ∧
    ∀ post ∈ filter.endPost, ¬ filter.index.Later false entry post.entry

theorem matchesKey_iff {filter : FRangedFilter} {key : String} {node : FNode} :
    filter.matchesKey key node = true ↔ filter.InRange ⟨key, node.contents⟩ := by
  have hstart : filter.postBefore false filter.startPost ⟨key, node⟩ = true ↔
      ∀ post ∈ filter.startPost, ¬ filter.index.Later false post.entry ⟨key, node.contents⟩ := by
    simp only [postBefore, Option.all_eq_true, decide_eq_true_eq, ne_eq,
      FPathIndex.compareReverse_eq_gt]
    rfl
  have hend : filter.postAfter false filter.endPost ⟨key, node⟩ = true ↔
      ∀ post ∈ filter.endPost, ¬ filter.index.Later false ⟨key, node.contents⟩ post.entry := by
    simp only [postAfter, Option.all_eq_true, decide_eq_true_eq, ne_eq,
      FPathIndex.compareReverse_eq_gt]
    rfl
  rw [matchesKey, Bool.and_eq_true, hstart, hend, InRange]

/-- A range has no gaps. -/
theorem InRange.between {filter : FRangedFilter} {a b c : ChildEntry} (ha : filter.InRange a)
    (hc : filter.InRange c) {reverse : Bool} (hab : filter.index.Later reverse b a)
    (hbc : filter.index.Later reverse c b) : filter.InRange b := by
  have hforward : ∀ a c : ChildEntry, filter.InRange a → filter.InRange c →
      filter.index.Later false b a → filter.index.Later false c b → filter.InRange b := by
    intro a c ha hc hab hbc
    refine ⟨fun post hpost hlater => ?_, fun post hpost hlater => ?_⟩
    · exact ha.1 post hpost (hlater.trans hab)
    · exact hc.2 post hpost (hbc.trans hlater)
  cases reverse with
  | false => exact hforward a c ha hc hab hbc
  | true => exact hforward c a hc ha hbc hab

end FRangedFilter

noncomputable instance (filter : FRangedFilter) : DecidablePred filter.InRange :=
  Classical.decPred filter.InRange

/-- The children in the range of the query. -/
noncomputable def FLimitedFilter.matching (filter : FLimitedFilter) (data : FNode) :
    Finset ChildEntry := (entries data).filter filter.rangedFilter.InRange

/-- `snap` holds what the query keeps of `data`. -/
structure Window (filter : FLimitedFilter) (data : FNode) (snap : FIndexedNode) : Prop where
  index : snap.index = filter.index
  branch : snap.node.isLeaf = false
  last : IsLast (filter.index.Later filter.reverse) filter.limit (filter.matching data)
    (entries snap.node)

theorem FLimitedFilter.mem_matching {filter : FLimitedFilter} {data : FNode} {entry : ChildEntry} :
    entry ∈ filter.matching data ↔ entry ∈ entries data ∧ filter.rangedFilter.InRange entry := by
  rw [matching, Finset.mem_filter]

/-- The window is determined by the data. -/
theorem Window.unique {filter : FLimitedFilter} {data : FNode} {snap snap' : FIndexedNode}
    (h : Window filter data snap) (h' : Window filter data snap') :
    snap.node.contents = snap'.node.contents :=
  contents_eq_of_entries h.branch h'.branch
    (h.last.unique (fun _ _ hlater => hlater.asymm) h'.last)

/-! ## Cutting a whole node -/

section Cut

variable {filter : FLimitedFilter}

/-- A child is in range when it lies between the posts of the reading order. -/
theorem inRange_iff_posts {child : FNamedNode} :
    filter.rangedFilter.InRange child.entry ↔
      filter.rangedFilter.postBefore filter.reverse filter.posts.1 child = true ∧
        filter.rangedFilter.postAfter filter.reverse filter.posts.2 child = true := by
  have hmatches : filter.rangedFilter.InRange child.entry ↔
      filter.rangedFilter.matchesKey child.name child.node = true :=
    FRangedFilter.matchesKey_iff.symm
  rw [hmatches, FRangedFilter.matchesKey, Bool.and_eq_true]
  cases hreverse : filter.reverse with
  | false => simp [FLimitedFilter.posts, hreverse]
  | true =>
      simp only [FLimitedFilter.posts, hreverse, if_true]
      exact and_comm

/-- Once the first post is passed it stays passed. -/
theorem postBefore_of_later {reverse : Bool} {post : Option FNamedNode} {a b : FNamedNode}
    (hab : filter.index.Later reverse b.entry a.entry)
    (h : filter.rangedFilter.postBefore reverse post a = true) :
    filter.rangedFilter.postBefore reverse post b = true := by
  simp only [FRangedFilter.postBefore, Option.all_eq_true, decide_eq_true_eq, ne_eq,
    FPathIndex.compareReverse_eq_gt] at h ⊢
  exact fun post hpost hlater => h post hpost (hlater.trans hab)

/-- What the block keeps of the children from here on. -/
def kept (filter : FLimitedFilter) (count : Nat) (children : List FNamedNode) :
    List FNamedNode :=
  (children.filter fun child => filter.rangedFilter.matchesKey child.name child.node).take
    (filter.limit - count)

theorem kept_cons_keep {count : Nat} {child : FNamedNode} {children : List FNamedNode}
    (hmatch : filter.rangedFilter.matchesKey child.name child.node = true)
    (hcount : count < filter.limit) :
    kept filter count (child :: children) = child :: kept filter (count + 1) children := by
  have hroom : filter.limit - count = filter.limit - (count + 1) + 1 := by omega
  rw [kept, List.filter_cons, if_pos hmatch, hroom, List.take_succ_cons]
  rfl

theorem kept_cons_drop {count : Nat} {child : FNamedNode} {children : List FNamedNode}
    (hnot : ¬ (filter.rangedFilter.matchesKey child.name child.node = true ∧
      count < filter.limit)) :
    kept filter count (child :: children) = kept filter count children := by
  by_cases hmatch : filter.rangedFilter.matchesKey child.name child.node = true
  · have hfull : filter.limit - count = 0 := by
      have := not_and.mp hnot hmatch
      omega
    rw [kept, kept, hfull, List.take_zero, List.take_zero]
  · rw [kept, kept, List.filter_cons, if_neg hmatch]

theorem kept_subset {count : Nat} {children : List FNamedNode} {child : FNamedNode}
    (h : child ∈ kept filter count children) : child ∈ children :=
  List.mem_of_mem_filter (List.mem_of_mem_take h)

/-- One round of the block. -/
theorem cutChild_eq {cut : FLimitedFilter.Cut} {child : FNamedNode}
    (hfound : cut.foundStartPost = true →
      filter.rangedFilter.postBefore filter.reverse filter.posts.1 child = true) :
    filter.cutChild filter.posts.1 filter.posts.2 cut child =
      if filter.rangedFilter.matchesKey child.name child.node = true ∧ cut.count < filter.limit
      then ⟨filter.rangedFilter.postBefore filter.reverse filter.posts.1 child, cut.count + 1,
        cut.filtered⟩
      else ⟨filter.rangedFilter.postBefore filter.reverse filter.posts.1 child, cut.count,
        cut.filtered.updateChild child.name Tree.empty⟩ := by
  have hstart : (cut.foundStartPost || filter.rangedFilter.postBefore filter.reverse
      filter.posts.1 child) =
        filter.rangedFilter.postBefore filter.reverse filter.posts.1 child := by
    cases hcut : cut.foundStartPost with
    | false => rfl
    | true => rw [hfound hcut]; rfl
  have hmatch : filter.rangedFilter.matchesKey child.name child.node = true ↔
      filter.rangedFilter.postBefore filter.reverse filter.posts.1 child = true ∧
        filter.rangedFilter.postAfter filter.reverse filter.posts.2 child = true := by
    rw [← inRange_iff_posts]
    exact FRangedFilter.matchesKey_iff
  simp only [FLimitedFilter.cutChild, hstart, hmatch, Bool.and_eq_true, decide_eq_true_eq]
  refine if_congr ?_ rfl rfl
  exact and_right_comm

/-- The block removes every child that it does not keep. -/
theorem mem_entries_cut {children : List FNamedNode} {cut : FLimitedFilter.Cut}
    (hsorted : children.Pairwise fun a b => filter.index.Later filter.reverse b.entry a.entry)
    (hnodup : (children.map FNamedNode.name).Nodup)
    (hfound : cut.foundStartPost = true → ∀ child ∈ children,
      filter.rangedFilter.postBefore filter.reverse filter.posts.1 child = true)
    (entry : ChildEntry) :
    entry ∈ entries (children.foldl (filter.cutChild filter.posts.1 filter.posts.2)
        cut).filtered.node ↔
      entry ∈ entries cut.filtered.node ∧
        ∀ child ∈ children, child.name = entry.name →
          child ∈ kept filter cut.count children := by
  induction children generalizing cut with
  | nil => simp
  | cons child children ih =>
      obtain ⟨hlater, hsorted⟩ := List.pairwise_cons.mp hsorted
      rw [List.map_cons, List.nodup_cons] at hnodup
      obtain ⟨hname, hnodup⟩ := hnodup
      have hne : ∀ other ∈ children, other.name ≠ child.name :=
        fun other hother heq => hname (heq ▸ List.mem_map_of_mem hother)
      have hrest : filter.rangedFilter.postBefore filter.reverse filter.posts.1 child = true →
          ∀ other ∈ children, filter.rangedFilter.postBefore filter.reverse
            filter.posts.1 other = true :=
        fun hbefore other hother => postBefore_of_later (hlater other hother) hbefore
      rw [List.foldl_cons, cutChild_eq fun hcut => hfound hcut child List.mem_cons_self]
      by_cases hkeep : filter.rangedFilter.matchesKey child.name child.node = true ∧
          cut.count < filter.limit
      · rw [if_pos hkeep, ih hsorted hnodup hrest, kept_cons_keep hkeep.1 hkeep.2]
        refine and_congr_right fun _ => ?_
        rw [List.forall_mem_cons]
        constructor
        · intro h
          exact ⟨fun _ => List.mem_cons_self,
            fun other hother heq => List.mem_cons_of_mem child (h other hother heq)⟩
        · rintro ⟨-, h⟩ other hother heq
          refine (List.mem_cons.mp (h other hother heq)).resolve_left fun hsame => ?_
          exact hne other hother (congrArg FNamedNode.name hsame)
      · rw [if_neg hkeep, ih hsorted hnodup hrest, kept_cons_drop hkeep]
        have hremoved : entry ∈ entries (cut.filtered.updateChild child.name Tree.empty).node ↔
            entry.name ≠ child.name ∧ entry ∈ entries cut.filtered.node :=
          mem_entries_setChild_empty
        rw [hremoved, List.forall_mem_cons]
        constructor
        · rintro ⟨⟨hentry, hmem⟩, h⟩
          exact ⟨hmem, fun heq => absurd heq.symm hentry, h⟩
        · rintro ⟨hmem, hchild, h⟩
          refine ⟨⟨fun heq => ?_, hmem⟩, h⟩
          exact hne child (kept_subset (hchild heq.symm)) rfl

theorem cut_index (children : List FNamedNode) (cut : FLimitedFilter.Cut) :
    (children.foldl (filter.cutChild filter.posts.1 filter.posts.2) cut).filtered.index =
      cut.filtered.index := by
  induction children generalizing cut with
  | nil => rfl
  | cons child children ih =>
      rw [List.foldl_cons, ih]
      unfold FLimitedFilter.cutChild
      dsimp only
      split <;> rfl

theorem cut_branch (children : List FNamedNode) {cut : FLimitedFilter.Cut}
    (h : cut.filtered.node.isLeaf = false) :
    (children.foldl (filter.cutChild filter.posts.1 filter.posts.2) cut).filtered.node.isLeaf =
      false := by
  induction children generalizing cut with
  | nil => exact h
  | cons child children ih =>
      rw [List.foldl_cons]
      apply ih
      unfold FLimitedFilter.cutChild
      dsimp only
      split
      · exact h
      · exact Tree.isLeaf_setChild h _ _

theorem mem_entries_enumerate (snap : FIndexedNode) (reverse : Bool) {entry : ChildEntry} :
    entry ∈ entries snap.node ↔
      ∃ child ∈ snap.enumerateChildrenReverse reverse, child.entry = entry := by
  rw [mem_entries]
  constructor
  · rintro ⟨hname, hcontents⟩
    refine ⟨⟨entry.name, snap.node.child entry.name⟩,
      mem_enumerate.mpr ⟨Tree.mem_names_iff.mpr hname, rfl⟩, ?_⟩
    exact ChildEntry.ext rfl hcontents.symm
  · rintro ⟨child, hchild, rfl⟩
    obtain ⟨hname, hnode⟩ := mem_enumerate.mp hchild
    exact ⟨Tree.mem_names_iff.mp hname, congrArg Tree.contents hnode⟩

theorem entries_of_none {data : FNode} (h : (data.isLeaf || data.isEmpty) = true) :
    entries data = ∅ := by
  refine Finset.eq_empty_of_forall_notMem fun entry hentry => (mem_entries.mp hentry).1 ?_
  rcases (Bool.or_eq_true _ _).mp h with hleaf | hempty
  · rw [Tree.isLeaf_eq_value?] at hleaf
    obtain ⟨value, hvalue⟩ := Option.isSome_iff_exists.mp hleaf
    rw [Tree.eq_leaf_of_value? hvalue]
    rfl
  · rw [Tree.isEmpty_iff.mp hempty]
    rfl

/-- **The whole node is cut down to the window.** -/
theorem updateFullNode_window (oldSnap : FIndexedNode) {data : FNode}
    (h : Distinguished data.names) :
    Window filter data (filter.updateFullNode oldSnap ⟨data, filter.index⟩).1 := by
  by_cases hnone : (data.isLeaf || data.isEmpty) = true
  · have hsnap : (filter.updateFullNode oldSnap ⟨data, filter.index⟩).1 =
        ⟨Tree.empty, filter.index⟩ := by
      simp [FLimitedFilter.updateFullNode, FIndexedFilter.updateFullNode, hnone]
    have hmatching : filter.matching data = ∅ := by
      rw [FLimitedFilter.matching, entries_of_none hnone, Finset.filter_empty]
    rw [hsnap]
    refine ⟨rfl, rfl, ?_⟩
    rw [hmatching]
    exact isLast_self (Nat.zero_le _)
  · let snap : FIndexedNode := ⟨data, filter.index⟩
    let children := snap.enumerateChildrenReverse filter.reverse
    have hresult : (filter.updateFullNode oldSnap snap).1 =
        (children.foldl (filter.cutChild filter.posts.1 filter.posts.2)
          ⟨false, 0, snap⟩).filtered := by
      unfold FLimitedFilter.updateFullNode
      rw [if_neg hnone]
      rfl
    have hsorted : children.Pairwise fun a b =>
        filter.index.Later filter.reverse b.entry a.entry :=
      enumerate_later snap h (List.Subset.refl _) filter.reverse
    let xs := (children.filter fun child =>
      filter.rangedFilter.matchesKey child.name child.node).map FNamedNode.entry
    have hmatching : filter.matching data = xs.toFinset := by
      ext entry
      have hentry : entry ∈ entries data ↔ ∃ child ∈ children, child.entry = entry :=
        mem_entries_enumerate snap filter.reverse
      rw [FLimitedFilter.mem_matching, hentry, List.mem_toFinset, List.mem_map]
      constructor
      · rintro ⟨⟨child, hchild, rfl⟩, hrange⟩
        exact ⟨child, List.mem_filter.mpr ⟨hchild, FRangedFilter.matchesKey_iff.mpr hrange⟩, rfl⟩
      · rintro ⟨child, hchild, rfl⟩
        obtain ⟨hchild, hmatch⟩ := List.mem_filter.mp hchild
        exact ⟨⟨child, hchild, rfl⟩, FRangedFilter.matchesKey_iff.mp hmatch⟩
    have hentries : entries (filter.updateFullNode oldSnap snap).1.node =
        (xs.take filter.limit).toFinset := by
      ext entry
      have hkept : xs.take filter.limit = (kept filter 0 children).map FNamedNode.entry := by
        rw [kept, Nat.sub_zero, List.map_take]
      rw [hresult, mem_entries_cut hsorted (nodup_enumerate snap filter.reverse)
        (fun hfound => by cases hfound), hkept, List.mem_toFinset, List.mem_map,
        mem_entries_enumerate snap filter.reverse]
      constructor
      · rintro ⟨⟨child, hchild, rfl⟩, hall⟩
        exact ⟨child, hall child hchild rfl, rfl⟩
      · rintro ⟨child, hchild, rfl⟩
        refine ⟨⟨child, kept_subset hchild, rfl⟩, fun other hother hname => ?_⟩
        obtain ⟨hmem, hnode⟩ := mem_enumerate.mp (kept_subset hchild)
        obtain ⟨-, hnode'⟩ := mem_enumerate.mp hother
        have hsame : other = child := by
          obtain ⟨name, node⟩ := other
          obtain ⟨name', node'⟩ := child
          obtain rfl : name = name' := hname
          rw [FNamedNode.mk.injEq]
          exact ⟨rfl, hnode'.trans hnode.symm⟩
        rw [hsame]
        exact hchild
    refine ⟨?_, ?_, ?_⟩
    · rw [hresult, cut_index]
    · rw [hresult]
      refine cut_branch children ?_
      exact (Bool.or_eq_false_iff.mp (Bool.eq_false_iff.mpr hnone)).1
    · rw [hmatching, hentries]
      refine isLast_take FPathIndex.Later.irrefl ?_ filter.limit
      exact List.pairwise_map.mpr (hsorted.sublist List.filter_sublist)

end Cut

/-! ## The boundary and the child beyond it -/

/-- The boundary of a window is the last child that the query reads. -/
theorem boundary_last {snap : FIndexedNode} {names : List String} (h : Distinguished names)
    (hsub : snap.node.names ⊆ names) {reverse : Bool} {boundary : FNamedNode}
    (hboundary : (if reverse then snap.firstChild else snap.lastChild) = some boundary) :
    boundary.entry ∈ entries snap.node ∧ ∀ entry ∈ entries snap.node,
      entry = boundary.entry ∨ snap.index.Later reverse boundary.entry entry := by
  have hlast : (snap.enumerateChildrenReverse reverse).getLast? = some boundary := by
    rw [← hboundary]
    cases reverse with
    | false => rfl
    | true => exact List.getLast?_reverse
  obtain ⟨before, hchildren⟩ := List.getLast?_eq_some_iff.mp hlast
  have hsorted := enumerate_later snap h hsub reverse
  rw [hchildren, List.pairwise_append] at hsorted
  refine ⟨(mem_entries_enumerate snap reverse).mpr
    ⟨boundary, List.mem_of_getLast? hlast, rfl⟩, fun entry hentry => ?_⟩
  obtain ⟨child, hchild, rfl⟩ := (mem_entries_enumerate snap reverse).mp hentry
  rw [hchildren, List.mem_append, List.mem_singleton] at hchild
  rcases hchild with hchild | rfl
  · exact Or.inr (hsorted.2.2 child hchild boundary (List.mem_singleton_self boundary))
  · exact Or.inl rfl

theorem exists_boundary {snap : FIndexedNode} (h : 0 < snap.numChildren) (reverse : Bool) :
    ∃ boundary, (if reverse then snap.firstChild else snap.lastChild) = some boundary := by
  have hne : snap.childEnumerator ≠ [] := by
    intro hnil
    obtain ⟨name, hname⟩ := List.exists_mem_of_length_pos h
    have hmem : (⟨name, snap.node.child name⟩ : FNamedNode) ∈ snap.childEnumerator :=
      mem_childEnumerator.mpr ⟨hname, rfl⟩
    rw [hnil] at hmem
    cases hmem
  cases reverse with
  | false => exact ⟨_, List.getLast?_eq_some_getLast hne⟩
  | true => exact ⟨_, List.head?_eq_some_head hne⟩

/-- What a search for the next child finds among the children seen. -/
structure NextAfter (index : FPathIndex) (reverse : Bool) (post : ChildEntry)
    (seen : ChildEntry → Prop) (next : Option FNamedNode) : Prop where
  none : next = none → ∀ entry, seen entry → ¬ index.Later reverse entry post
  some : ∀ child, next = some child → seen child.entry ∧ index.Later reverse child.entry post ∧
    ∀ entry, seen entry → index.Later reverse entry post →
      entry = child.entry ∨ index.Later reverse entry child.entry

theorem nextAfter_foldl {names : List String} (h : Distinguished names) (index : FPathIndex)
    (reverse : Bool) (post : FNamedNode) (children : List FNamedNode)
    (hsub : ∀ child ∈ children, child.name ∈ names)
    (hnodup : (children.map FNamedNode.name).Nodup) :
    NextAfter index reverse post.entry (fun entry => ∃ child ∈ children, child.entry = entry)
      (children.foldl
        (fun current child =>
          if index.compareReverse reverse child post = .gt ∧
              current.all (fun current => index.compareReverse reverse child current = .lt) then
            some child
          else current)
        none) := by
  induction children using List.reverseRecOn with
  | nil => exact ⟨by simp, by simp⟩
  | append_singleton children child ih =>
      rw [List.map_append, List.nodup_append] at hnodup
      obtain ⟨hnodup, -, hdistinct⟩ := hnodup
      specialize ih (fun other hother => hsub other (List.mem_append_left _ hother)) hnodup
      rw [List.foldl_append]
      generalize children.foldl _ none = current at ih ⊢
      simp only [List.foldl_cons, List.foldl_nil]
      split
      · rename_i hbetter
        obtain ⟨hpost, hcurrent⟩ := hbetter
        refine ⟨?_, ?_⟩
        · intro hnone
          cases hnone
        intro found hfound
        obtain rfl := Option.some.inj hfound
        refine ⟨⟨child, by simp, rfl⟩, FPathIndex.compareReverse_eq_gt.mp hpost, ?_⟩
        rintro _ ⟨other, hother, rfl⟩ hlater
        rcases List.mem_append.mp hother with hold | hnew
        · cases hcur : current with
          | none => exact absurd hlater (ih.none hcur _ ⟨other, hold, rfl⟩)
          | some cur =>
              rw [hcur, Option.all_some, decide_eq_true_eq,
                FPathIndex.compareReverse_eq_lt] at hcurrent
              obtain ⟨-, -, hleast⟩ := ih.some cur hcur
              rcases hleast _ ⟨other, hold, rfl⟩ hlater with heq | hcur'
              · exact Or.inr (heq ▸ hcurrent)
              · exact Or.inr (hcur'.trans hcurrent)
        · exact Or.inl (congrArg FNamedNode.entry (List.mem_singleton.mp hnew))
      · rename_i hworse
        refine ⟨fun hnone => ?_, fun found hfound => ?_⟩
        · rintro _ ⟨other, hother, rfl⟩ hlater
          rcases List.mem_append.mp hother with hold | hnew
          · exact ih.none hnone _ ⟨other, hold, rfl⟩ hlater
          · obtain rfl := List.mem_singleton.mp hnew
            rw [hnone] at hworse
            exact hworse ⟨FPathIndex.compareReverse_eq_gt.mpr hlater, rfl⟩
        · obtain ⟨⟨seen, hseen, hentry⟩, hlater, hleast⟩ := ih.some found hfound
          refine ⟨⟨seen, List.mem_append_left _ hseen, hentry⟩, hlater, ?_⟩
          rintro _ ⟨other, hother, rfl⟩ hpost
          rcases List.mem_append.mp hother with hold | hnew
          · exact hleast _ ⟨other, hold, rfl⟩ hpost
          · obtain rfl := List.mem_singleton.mp hnew
            have hname : found.name = seen.name := (congrArg ChildEntry.name hentry).symm
            have hne : other.name ≠ found.name := by
              rw [hname]
              exact (hdistinct _ (List.mem_map_of_mem hseen) _ (by simp)).symm
            have hfoundsub : found.name ∈ names :=
              hname ▸ hsub seen (List.mem_append_left _ hseen)
            refine Or.inr ((FPathIndex.Later.total h (hsub other hother) hfoundsub hne
              reverse).resolve_right fun hbefore => hworse ?_)
            refine ⟨FPathIndex.compareReverse_eq_gt.mpr hpost, ?_⟩
            rw [hfound, Option.all_some, decide_eq_true_eq]
            exact FPathIndex.compareReverse_eq_lt.mpr hbefore

/-- The children that a source knows. -/
noncomputable def sourceEntries (source : Option FNode) : Finset ChildEntry :=
  (source.map entries).getD ∅

theorem sourceEntries_inj {source : Option FNode} {entry other : ChildEntry}
    (h : entry ∈ sourceEntries source) (h' : other ∈ sourceEntries source)
    (hname : entry.name = other.name) : entry = other := by
  cases source with
  | none => simp [sourceEntries] at h
  | some data => exact @entries_inj data _ _ h h' hname

theorem nextAfter_childByIndex {source : Option FNode} {names : List String}
    (h : Distinguished names) (hsub : ∀ data ∈ source, data.names ⊆ names)
    (index : FPathIndex) (reverse : Bool) (post : FNamedNode) :
    NextAfter index reverse post.entry (· ∈ sourceEntries source)
      (childByIndex source index post reverse) := by
  cases source with
  | none => exact ⟨by simp [sourceEntries], by simp [childByIndex]⟩
  | some data =>
      have hfold := nextAfter_foldl h index reverse post
        (data.names.map fun name => (⟨name, data.child name⟩ : FNamedNode))
        (by
          intro child hchild
          obtain ⟨name, hname, rfl⟩ := List.mem_map.mp hchild
          exact hsub data rfl hname)
        (by
          rw [List.map_map]
          exact (List.map_id data.names).symm ▸ data.nodup_names)
      have hseen : ∀ entry : ChildEntry, entry ∈ sourceEntries (some data) ↔
          ∃ child ∈ data.names.map fun name => (⟨name, data.child name⟩ : FNamedNode),
            child.entry = entry := by
        intro entry
        simp only [sourceEntries, Option.map_some, Option.getD_some, entries, List.mem_toFinset,
          List.mem_map, exists_exists_and_eq_and]
        rfl
      simp only [hseen]
      exact hfold

/-- The source knows the children beyond the boundary, but for the changed one. -/
def KnowsBeyond (filter : FLimitedFilter) (data : FNode) (boundary : FNamedNode)
    (childKey : String) (source : Option FNode) : Prop :=
  ∀ entry : ChildEntry, entry.name ≠ childKey →
    filter.index.Later filter.reverse entry boundary.entry →
      (entry ∈ sourceEntries source ↔ entry ∈ entries data)

/-- The child that may enter a window is the first of the data beyond its boundary,
the changed one apart. -/
theorem nextAfter_nextChild {filter : FLimitedFilter} {data : FNode} {snap : FIndexedNode}
    {names : List String} (h : Distinguished names) {childKey : String}
    (hsnap : ∀ entry ∈ entries snap.node, entry.name ≠ childKey → entry ∈ entries data)
    {boundary : FNamedNode}
    (hboundary : ∀ entry ∈ entries snap.node,
      entry = boundary.entry ∨ filter.index.Later filter.reverse boundary.entry entry)
    {source : Option FNode} (hsource : ∀ known ∈ source, known.names ⊆ names)
    (hknows : KnowsBeyond filter data boundary childKey source) :
    NextAfter filter.index filter.reverse boundary.entry
      (fun entry => entry ∈ entries data ∧ entry.name ≠ childKey)
      (filter.nextChild snap childKey boundary source) := by
  have hfirst := nextAfter_childByIndex h hsource filter.index filter.reverse boundary
  unfold FLimitedFilter.nextChild
  cases hnext : childByIndex source filter.index boundary filter.reverse with
  | none =>
      refine ⟨fun _ entry hentry hlater => ?_, fun child hchild => by cases hchild⟩
      exact hfirst.none hnext entry ((hknows entry hentry.2 hlater).mpr hentry.1) hlater
  | some next =>
      obtain ⟨hseen, hnextlater, hleast⟩ := hfirst.some next hnext
      -- a child of the window is not beyond its boundary, unless it is the changed one
      have hchanged : next.name ≠ childKey → hasChild snap.node next.name = false := by
        intro hname
        by_contra hhas
        have hmem : (⟨next.name, (snap.node.child next.name).contents⟩ : ChildEntry) ∈
            entries snap.node := by
          refine mem_entries.mpr ⟨?_, rfl⟩
          rw [← Tree.isEmpty_eq_false_iff]
          simpa [hasChild] using hhas
        have hdata := (hknows next.entry hname hnextlater).mp hseen
        have hsame : next.entry = ⟨next.name, (snap.node.child next.name).contents⟩ :=
          entries_inj hdata (hsnap _ hmem hname) rfl
        rcases hboundary _ hmem with heq | hlater
        · exact FPathIndex.Later.irrefl _ (heq ▸ hsame ▸ hnextlater)
        · exact hlater.asymm (hsame ▸ hnextlater)
      by_cases hname : next.name = childKey
      · have hsecond := nextAfter_childByIndex h hsource filter.index filter.reverse next
        have hpassed : ∀ entry : ChildEntry, entry ∈ entries data → entry.name ≠ childKey →
            filter.index.Later filter.reverse entry boundary.entry →
            entry ∈ sourceEntries source ∧
              filter.index.Later filter.reverse entry next.entry := by
          intro entry hentry hne hlater
          have hknown := (hknows entry hne hlater).mpr hentry
          refine ⟨hknown, (hleast entry hknown hlater).resolve_left fun heq => hne ?_⟩
          rw [heq]
          exact hname
        rw [Option.bind_some, if_pos (Or.inl hname)]
        refine ⟨fun hnone entry hentry hlater => ?_, fun child hchild => ?_⟩
        · obtain ⟨hknown, hbeyond⟩ := hpassed entry hentry.1 hentry.2 hlater
          exact hsecond.none hnone entry hknown hbeyond
        · obtain ⟨hchildseen, hchildlater, hchildleast⟩ := hsecond.some child hchild
          have hbeyond := hchildlater.trans hnextlater
          have hne : child.name ≠ childKey := fun heq => FPathIndex.Later.irrefl _
            (sourceEntries_inj hchildseen hseen (heq.trans hname.symm) ▸ hchildlater)
          refine ⟨⟨(hknows _ hne hbeyond).mp hchildseen, hne⟩, hbeyond, ?_⟩
          intro entry hentry hlater
          obtain ⟨hknown, hafter⟩ := hpassed entry hentry.1 hentry.2 hlater
          exact hchildleast entry hknown hafter
      · rw [Option.bind_some, if_neg (by simp [hname, hchanged hname])]
        refine ⟨?_, ?_⟩
        · intro hnone
          cases hnone
        intro child hchild
        obtain rfl := Option.some.inj hchild
        refine ⟨⟨(hknows _ hname hnextlater).mp hseen, hname⟩, hnextlater, ?_⟩
        intro entry hentry hlater
        exact hleast entry ((hknows entry hentry.2 hlater).mpr hentry.1) hlater

/-! ## One child changes -/

section Change

variable {filter : FLimitedFilter} {data : FNode} {snap : FIndexedNode} {childKey : String}

/-- What the query makes of a changed child. -/
def FLimitedFilter.passing (filter : FLimitedFilter) (childKey : String) (newChildSnap : FNode) :
    FNode :=
  if filter.rangedFilter.matchesKey childKey newChildSnap then newChildSnap else Tree.empty

/-- The entry of a child of the data. -/
def childEntry (data : FNode) (childKey : String) : ChildEntry :=
  ⟨childKey, (data.child childKey).contents⟩

theorem passing_inRange {new : FNode} (h : (filter.passing childKey new).isEmpty = false) :
    filter.rangedFilter.InRange ⟨childKey, (filter.passing childKey new).contents⟩ := by
  unfold FLimitedFilter.passing at *
  split at h
  · rename_i hmatch
    rw [if_pos hmatch]
    exact FRangedFilter.matchesKey_iff.mp hmatch
  · cases h

/-- The children in range after the change. -/
theorem matching_setChild (new : FNode) :
    filter.matching (data.setChild childKey new) =
      if (filter.passing childKey new).isEmpty then
        (filter.matching data).erase (childEntry data childKey)
      else insert ⟨childKey, (filter.passing childKey new).contents⟩
        ((filter.matching data).erase (childEntry data childKey)) := by
  have hold : ∀ entry : ChildEntry,
      entry ∈ (entries data).erase (childEntry data childKey) ∧
          filter.rangedFilter.InRange entry ↔
        entry ∈ (filter.matching data).erase (childEntry data childKey) := by
    intro entry
    rw [Finset.mem_erase, Finset.mem_erase, FLimitedFilter.mem_matching, and_assoc]
  ext entry
  rw [FLimitedFilter.mem_matching, entries_setChild]
  by_cases hmatch : filter.rangedFilter.matchesKey childKey new = true
  · have hpass : filter.passing childKey new = new := if_pos hmatch
    have hrange := FRangedFilter.matchesKey_iff.mp hmatch
    rw [hpass]
    split
    · exact hold entry
    · rw [Finset.mem_insert, Finset.mem_insert, or_and_right, ← hold entry]
      refine or_congr_left (and_iff_left_of_imp ?_)
      rintro rfl
      exact hrange
  · have hpass : filter.passing childKey new = Tree.empty := if_neg hmatch
    rw [hpass, if_pos Tree.isEmpty_empty, ← hold entry]
    refine and_congr_left fun hrange => ?_
    split
    · rfl
    · rw [Finset.mem_insert]
      refine or_iff_right ?_
      rintro rfl
      exact hmatch (FRangedFilter.matchesKey_iff.mpr hrange)

/-- A child of the window is the one of the data. -/
theorem Window.child_eq (h : Window filter data snap) {name : String}
    (hname : snap.node.child name ≠ Tree.empty) :
    (snap.node.child name).contents = (data.child name).contents := by
  have hmem : childEntry snap.node name ∈ entries snap.node := mem_entries.mpr ⟨hname, rfl⟩
  have hmatch := h.last.subset hmem
  exact (mem_entries.mp (FLimitedFilter.mem_matching.mp hmatch).1).2

theorem Window.mem_iff (h : Window filter data snap) {name : String} :
    childEntry data name ∈ entries snap.node ↔ snap.node.child name ≠ Tree.empty := by
  constructor
  · intro hmem
    exact (mem_entries.mp hmem).1
  · intro hname
    exact mem_entries.mpr ⟨hname, (h.child_eq hname).symm⟩

/-- Setting a child of the window. -/
theorem Window.entries_update (h : Window filter data snap) (new : FNode) :
    entries (snap.updateChild childKey new).node =
      if new.isEmpty then (entries snap.node).erase (childEntry data childKey)
      else insert ⟨childKey, new.contents⟩
        ((entries snap.node).erase (childEntry data childKey)) := by
  have herase : (entries snap.node).erase ⟨childKey, (snap.node.child childKey).contents⟩ =
      (entries snap.node).erase (childEntry data childKey) := by
    by_cases hname : snap.node.child childKey = Tree.empty
    · have hout : childEntry data childKey ∉ entries snap.node :=
        fun hmem => h.mem_iff.mp hmem hname
      have hout' : (⟨childKey, (snap.node.child childKey).contents⟩ : ChildEntry) ∉
          entries snap.node := fun hmem => (mem_entries.mp hmem).1 hname
      rw [Finset.erase_eq_of_notMem hout, Finset.erase_eq_of_notMem hout']
    · rw [h.child_eq hname]
      rfl
  rw [← herase]
  exact entries_setChild snap.node new childKey

/-- Nothing changed at the path that an update names only when nothing changed. -/
def AffectedAt (affectedPath : List String) (old new : FNode) : Prop :=
  (old.get affectedPath).contents = (new.get affectedPath).contents →
    old.isEmpty = new.isEmpty → old.contents = new.contents

theorem affectedAt_set (affectedPath : List String) (old value : FNode) :
    AffectedAt affectedPath old (old.set affectedPath value) := by
  intro hsame _
  rw [Tree.get_set_same] at hsame
  exact (Tree.contents_set_same hsame.symm).symm

/-- A window, a key that may change, and a source that knows what is beyond. -/
structure Follows (filter : FLimitedFilter) (data : FNode) (snap : FIndexedNode)
    (childKey : String) (names : List String) (source : Option FNode) : Prop where
  window : Window filter data snap
  distinguished : Distinguished names
  key : childKey ∈ names
  data_names : data.names ⊆ names
  source_names : ∀ known ∈ source, known.names ⊆ names
  knows : ∀ boundary,
    (if filter.reverse then snap.firstChild else snap.lastChild) = some boundary →
      KnowsBeyond filter data boundary childKey source

/-- The changed child is not there after it is taken out. -/
theorem notMem_erase_childEntry {contents : List String → Option Value} :
    (⟨childKey, contents⟩ : ChildEntry) ∉
      (filter.matching data).erase (childEntry data childKey) := by
  intro hmem
  obtain ⟨hne, hmatch⟩ := Finset.mem_erase.mp hmem
  refine hne (ChildEntry.ext rfl ?_)
  exact (mem_entries.mp (FLimitedFilter.mem_matching.mp hmatch).1).2

/-- An update to what the window holds already. -/
theorem Window.last_same (h : Window filter data snap) {new : FNode}
    (hsame : (snap.node.child childKey).contents = (filter.passing childKey new).contents) :
    IsLast (filter.index.Later filter.reverse) filter.limit
      (filter.matching (data.setChild childKey new)) (entries snap.node) := by
  rw [matching_setChild]
  by_cases hempty : (filter.passing childKey new).isEmpty
  · rw [if_pos hempty]
    refine h.last.erase_notMem fun hmem => h.mem_iff.mp hmem ?_
    rw [← Tree.isEmpty_iff, Tree.isEmpty_eq_of_contents hsame]
    exact hempty
  · have hname : snap.node.child childKey ≠ Tree.empty := by
      rw [← Tree.isEmpty_eq_false_iff, Tree.isEmpty_eq_of_contents hsame]
      simpa using hempty
    have hentry : (⟨childKey, (filter.passing childKey new).contents⟩ : ChildEntry) =
        childEntry data childKey := ChildEntry.ext rfl (hsame.symm.trans (h.child_eq hname))
    rw [if_neg hempty, hentry, Finset.insert_erase (h.last.subset (h.mem_iff.mpr hname))]
    exact h.last

/-- An update of a window with room left. -/
theorem Window.last_room (h : Window filter data snap) {new : FNode}
    (hroom : snap.numChildren < filter.limit) :
    IsLast (filter.index.Later filter.reverse) filter.limit
      (filter.matching (data.setChild childKey new))
      (entries (snap.updateChild childKey (filter.passing childKey new)).node) := by
  have hcard : (entries snap.node).card < filter.limit := by
    rw [card_entries]
    exact hroom
  have hall := h.last.eq_of_card_lt hcard
  have herase := h.last.erase_all hall (childEntry data childKey)
  rw [matching_setChild, h.entries_update]
  split
  · exact herase
  · refine herase.insert_room ?_ _
    exact (Finset.card_le_card (Finset.erase_subset _ _)).trans_lt hcard

/-! ### A full window -/

section Full

variable {names : List String} {source : Option FNode} {boundary : FNamedNode}

theorem Follows.snap_names (h : Follows filter data snap childKey names source) :
    snap.node.names ⊆ names := by
  intro name hname
  refine h.data_names (Tree.mem_names_iff.mpr ?_)
  have hmem := h.window.mem_iff.mpr (Tree.mem_names_iff.mp hname)
  exact (mem_entries.mp (FLimitedFilter.mem_matching.mp (h.window.last.subset hmem)).1).1

theorem Follows.boundary_mem (h : Follows filter data snap childKey names source)
    (hboundary : (if filter.reverse then snap.firstChild else snap.lastChild) = some boundary) :
    boundary.entry ∈ entries snap.node ∧ ∀ entry ∈ entries snap.node,
      entry = boundary.entry ∨ filter.index.Later filter.reverse boundary.entry entry := by
  have hlast := boundary_last h.distinguished h.snap_names hboundary
  rwa [h.window.index] at hlast

theorem Follows.nextChild (h : Follows filter data snap childKey names source)
    (hboundary : (if filter.reverse then snap.firstChild else snap.lastChild) = some boundary) :
    NextAfter filter.index filter.reverse boundary.entry
      (fun entry => entry ∈ entries data ∧ entry.name ≠ childKey)
      (filter.nextChild snap childKey boundary source) := by
  refine nextAfter_nextChild h.distinguished ?_ (h.boundary_mem hboundary).2 h.source_names
    (h.knows boundary hboundary)
  intro entry hentry _
  exact (FLimitedFilter.mem_matching.mp (h.window.last.subset hentry)).1

/-- The next child that a query takes, if it is in range. -/
def FLimitedFilter.replacement (filter : FLimitedFilter) (next : Option FNamedNode) :
    Option FNamedNode :=
  next.filter fun next => filter.rangedFilter.matchesKey next.name next.node

/-- What the query keeps once the changed child has left its window. -/
noncomputable def withReplacement (replacement : Option FNamedNode) (w : Finset ChildEntry) :
    Finset ChildEntry :=
  match replacement with
  | some next => insert next.entry w
  | none => w

@[simp] theorem withReplacement_none (w : Finset ChildEntry) : withReplacement none w = w := rfl

@[simp] theorem withReplacement_some (next : FNamedNode) (w : Finset ChildEntry) :
    withReplacement (some next) w = insert next.entry w := rfl

/-- Outside the window nothing in range comes before the replacement. -/
theorem Follows.replacement (h : Follows filter data snap childKey names source)
    (hhas : childEntry data childKey ∈ entries snap.node)
    (hboundary : (if filter.reverse then snap.firstChild else snap.lastChild) = some boundary)
    {next : FNamedNode}
    (hnext : filter.replacement (filter.nextChild snap childKey boundary source) = some next) :
    next.entry ∈ filter.matching data ∧ next.entry ∉ entries snap.node ∧
      next.name ≠ childKey ∧ ∀ entry ∈ filter.matching data, entry ∉ entries snap.node →
        entry = next.entry ∨ filter.index.Later filter.reverse entry next.entry := by
  obtain ⟨hfound, hmatch⟩ := Option.filter_eq_some_iff.mp hnext
  obtain ⟨⟨hdata, hname⟩, hlater, hleast⟩ := (h.nextChild hboundary).some next hfound
  obtain ⟨hmem, hlast⟩ := h.boundary_mem hboundary
  refine ⟨FLimitedFilter.mem_matching.mpr ⟨hdata, FRangedFilter.matchesKey_iff.mp hmatch⟩,
    fun hin => ?_, hname, fun entry hentry hout => ?_⟩
  · rcases hlast _ hin with heq | hbefore
    · exact FPathIndex.Later.irrefl _ (heq ▸ hlater)
    · exact hbefore.asymm hlater
  · have hentrydata := (FLimitedFilter.mem_matching.mp hentry).1
    have hne : entry.name ≠ childKey := by
      intro heq
      refine hout ?_
      have hsame : entry = childEntry data childKey :=
        ChildEntry.ext heq (heq ▸ (mem_entries.mp hentrydata).2)
      exact hsame ▸ hhas
    exact hleast entry ⟨hentrydata, hne⟩ (h.window.last.last entry hentry hout _ hmem)

/-- Without a replacement everything in range is in the window. -/
theorem Follows.no_replacement (h : Follows filter data snap childKey names source)
    (hhas : childEntry data childKey ∈ entries snap.node)
    (hboundary : (if filter.reverse then snap.firstChild else snap.lastChild) = some boundary)
    (hnext : filter.replacement (filter.nextChild snap childKey boundary source) = none) :
    entries snap.node = filter.matching data := by
  obtain ⟨hmem, -⟩ := h.boundary_mem hboundary
  by_contra hne
  obtain ⟨entry, hentry, hout⟩ : ∃ entry ∈ filter.matching data, entry ∉ entries snap.node := by
    by_contra hnone
    refine hne (Finset.Subset.antisymm h.window.last.subset fun entry hentry => ?_)
    by_contra hout
    exact hnone ⟨entry, hentry, hout⟩
  obtain ⟨hentrydata, hrange⟩ := FLimitedFilter.mem_matching.mp hentry
  have hlater := h.window.last.last entry hentry hout _ hmem
  have hname : entry.name ≠ childKey := by
    intro heq
    have hsame : entry = childEntry data childKey :=
      ChildEntry.ext heq (heq ▸ (mem_entries.mp hentrydata).2)
    exact hout (hsame ▸ hhas)
  have hafter := h.nextChild hboundary
  cases hfound : filter.nextChild snap childKey boundary source with
  | none => exact hafter.none hfound entry ⟨hentrydata, hname⟩ hlater
  | some next =>
      obtain ⟨-, hnextlater, hleast⟩ := hafter.some next hfound
      have hboundaryrange :=
        (FLimitedFilter.mem_matching.mp (h.window.last.subset hmem)).2
      -- a range has no gaps, so the next child is in range as well
      have hnextrange : filter.rangedFilter.InRange next.entry := by
        rcases hleast entry ⟨hentrydata, hname⟩ hlater with heq | hbeyond
        · exact heq ▸ hrange
        · exact hboundaryrange.between hrange hnextlater hbeyond
      have hmatch : filter.rangedFilter.matchesKey next.name next.node = true :=
        FRangedFilter.matchesKey_iff.mpr hnextrange
      simp [FLimitedFilter.replacement, hfound, Option.filter, hmatch] at hnext

/-- The window once the changed child has left it. -/
theorem Follows.last_erase (h : Follows filter data snap childKey names source)
    (hhas : childEntry data childKey ∈ entries snap.node)
    (hboundary : (if filter.reverse then snap.firstChild else snap.lastChild) = some boundary) :
    IsLast (filter.index.Later filter.reverse) filter.limit
      ((filter.matching data).erase (childEntry data childKey))
      (withReplacement (filter.replacement (filter.nextChild snap childKey boundary source))
        ((entries snap.node).erase (childEntry data childKey))) := by
  cases hnext : filter.replacement (filter.nextChild snap childKey boundary source) with
  | none => exact h.window.last.erase_all (h.no_replacement hhas hboundary hnext) _
  | some next =>
      obtain ⟨hmatch, hout, -, hleast⟩ := h.replacement hhas hboundary hnext
      exact h.window.last.erase_replace hhas hmatch hout hleast

/-- The changed child comes back into the window in the place of the replacement. -/
theorem Follows.last_remains (h : Follows filter data snap childKey names source)
    (hfull : (entries snap.node).card = filter.limit)
    (hhas : childEntry data childKey ∈ entries snap.node)
    (hboundary : (if filter.reverse then snap.firstChild else snap.lastChild) = some boundary)
    {contents : List String → Option Value}
    (hremains : ∀ next ∈ filter.replacement (filter.nextChild snap childKey boundary source),
      filter.index.Later filter.reverse next.entry ⟨childKey, contents⟩) :
    IsLast (filter.index.Later filter.reverse) filter.limit
      (insert ⟨childKey, contents⟩ ((filter.matching data).erase (childEntry data childKey)))
      (insert ⟨childKey, contents⟩
        ((entries snap.node).erase (childEntry data childKey))) := by
  have hcard := Finset.card_erase_of_mem hhas
  have hpos := filter.limit_pos
  have herased := h.last_erase hhas hboundary
  cases hnext : filter.replacement (filter.nextChild snap childKey boundary source) with
  | none =>
      rw [hnext, withReplacement_none] at herased
      exact herased.insert_room (by rw [hcard]; omega) _
  | some next =>
      obtain ⟨hmatch, hout, -, -⟩ := h.replacement hhas hboundary hnext
      have hnew : next.entry ∉ (entries snap.node).erase (childEntry data childKey) :=
        fun hmem => hout (Finset.mem_of_mem_erase hmem)
      have hmin : ∀ entry ∈ insert next.entry
          ((entries snap.node).erase (childEntry data childKey)),
          entry = next.entry ∨ filter.index.Later filter.reverse next.entry entry := by
        intro entry hentry
        rcases Finset.mem_insert.mp hentry with heq | hmem
        · exact Or.inl heq
        · exact Or.inr (h.window.last.last _ hmatch hout _ (Finset.mem_of_mem_erase hmem))
      rw [hnext, withReplacement_some] at herased
      have hsize : (insert next.entry
          ((entries snap.node).erase (childEntry data childKey))).card = filter.limit := by
        rw [Finset.card_insert_of_notMem hnew, hcard]
        omega
      have htrans : ∀ a b c, filter.index.Later filter.reverse a b →
          filter.index.Later filter.reverse b c → filter.index.Later filter.reverse a c :=
        fun _ _ _ => FPathIndex.Later.trans
      have hbump := herased.insert_bump htrans hsize notMem_erase_childEntry
        (Finset.mem_insert_self _ _) hmin (hremains next hnext)
      rwa [Finset.erase_insert hnew] at hbump

/-- The changed child stays outside once the replacement is in its place. -/
theorem Follows.last_leaves (h : Follows filter data snap childKey names source)
    (hhas : childEntry data childKey ∈ entries snap.node)
    (hboundary : (if filter.reverse then snap.firstChild else snap.lastChild) = some boundary)
    (hfull : (entries snap.node).card = filter.limit) {next : FNamedNode}
    (hnext : filter.replacement (filter.nextChild snap childKey boundary source) = some next)
    {contents : List String → Option Value}
    (hleaves : filter.index.Later filter.reverse ⟨childKey, contents⟩ next.entry) :
    IsLast (filter.index.Later filter.reverse) filter.limit
      (insert ⟨childKey, contents⟩ ((filter.matching data).erase (childEntry data childKey)))
      (insert next.entry ((entries snap.node).erase (childEntry data childKey))) := by
  obtain ⟨hmatch, hout, -, -⟩ := h.replacement hhas hboundary hnext
  have herased := h.last_erase hhas hboundary
  rw [hnext, withReplacement_some] at herased
  have hnew : next.entry ∉ (entries snap.node).erase (childEntry data childKey) :=
    fun hmem => hout (Finset.mem_of_mem_erase hmem)
  refine herased.insert_before ?_ notMem_erase_childEntry fun entry hentry => ?_
  · have hcard := Finset.card_erase_of_mem hhas
    have hpos := filter.limit_pos
    rw [Finset.card_insert_of_notMem hnew, hcard]
    omega
  · rcases Finset.mem_insert.mp hentry with rfl | hmem
    · exact hleaves
    · exact hleaves.trans (h.window.last.last _ hmatch hout _ (Finset.mem_of_mem_erase hmem))

/-- The entries once a replacement has been set. -/
theorem Follows.entries_replacement (h : Follows filter data snap childKey names source)
    (hhas : childEntry data childKey ∈ entries snap.node)
    (hboundary : (if filter.reverse then snap.firstChild else snap.lastChild) = some boundary)
    {next : FNamedNode}
    (hnext : filter.replacement (filter.nextChild snap childKey boundary source) = some next) :
    entries ((snap.updateChild childKey Tree.empty).updateChild next.name next.node).node =
      insert next.entry ((entries snap.node).erase (childEntry data childKey)) := by
  obtain ⟨hmatch, hout, hname, -⟩ := h.replacement hhas hboundary hnext
  have hdata := (FLimitedFilter.mem_matching.mp hmatch).1
  have hsome : next.node.isEmpty = false := by
    obtain ⟨hchild, hcontents⟩ := mem_entries.mp hdata
    rw [Tree.isEmpty_eq_of_contents hcontents, Tree.isEmpty_eq_false_iff]
    exact hchild
  have hgone : snap.node.child next.name = Tree.empty := by
    by_contra hthere
    have hsame : next.entry = childEntry data next.name :=
      ChildEntry.ext rfl (mem_entries.mp hdata).2
    exact hout (hsame ▸ h.window.mem_iff.mpr hthere)
  have hfirst : entries (snap.updateChild childKey Tree.empty).node = _ :=
    h.window.entries_update Tree.empty
  rw [if_pos Tree.isEmpty_empty] at hfirst
  have hsecond := entries_setChild (snap.updateChild childKey Tree.empty).node next.node next.name
  have hchild : (snap.updateChild childKey Tree.empty).node.child next.name = Tree.empty := by
    rw [FIndexedNode.updateChild, Tree.child_setChild_ne hname, hgone]
  have hnot : (⟨next.name, ((snap.updateChild childKey Tree.empty).node.child
      next.name).contents⟩ : ChildEntry) ∉ entries (snap.updateChild childKey Tree.empty).node :=
    fun hmem => (mem_entries.mp hmem).1 hchild
  rw [Finset.erase_eq_of_notMem hnot, hsome, hfirst] at hsecond
  exact hsecond

/-- A next child out of range is beyond what can change the window. -/
theorem Follows.not_leaves (h : Follows filter data snap childKey names source)
    (hboundary : (if filter.reverse then snap.firstChild else snap.lastChild) = some boundary)
    (hnone : filter.replacement (filter.nextChild snap childKey boundary source) = none)
    {next : FNamedNode} (hnext : filter.nextChild snap childKey boundary source = some next)
    {contents : List String → Option Value}
    (hrange : filter.rangedFilter.InRange ⟨childKey, contents⟩) :
    ¬ filter.index.Later filter.reverse ⟨childKey, contents⟩ next.entry := by
  intro hlater
  obtain ⟨-, hbeyond, -⟩ := (h.nextChild hboundary).some next hnext
  have hmem := h.window.last.subset (h.boundary_mem hboundary).1
  have hboundaryrange := (FLimitedFilter.mem_matching.mp hmem).2
  have hmatch : filter.rangedFilter.matchesKey next.name next.node = true :=
    FRangedFilter.matchesKey_iff.mpr (hboundaryrange.between hrange hbeyond hlater)
  simp [FLimitedFilter.replacement, hnext, Option.filter, hmatch] at hnone

/-- The next child is not the changed one. -/
theorem Follows.next_ne_lt (h : Follows filter data snap childKey names source)
    (hboundary : (if filter.reverse then snap.firstChild else snap.lastChild) = some boundary)
    {next : FNamedNode} (hnext : filter.nextChild snap childKey boundary source = some next)
    (new : FNode) :
    filter.index.compareReverse filter.reverse next ⟨childKey, new⟩ ≠ .lt ↔
      filter.index.Later filter.reverse next.entry ⟨childKey, new.contents⟩ := by
  obtain ⟨⟨hdata, hname⟩, -, -⟩ := (h.nextChild hboundary).some next hnext
  have hmem := h.data_names (Tree.mem_names_iff.mpr (mem_entries.mp hdata).1)
  exact @FPathIndex.compareReverse_ne_lt _ _ h.distinguished next ⟨childKey, new⟩ hmem h.key
    hname filter.reverse

/-- The changed child stays in a full window. -/
def Remains (filter : FLimitedFilter) (snap : FIndexedNode) (childKey : String)
    (boundary : FNamedNode) (source : Option FNode) (new : FNode) : Prop :=
  filter.rangedFilter.matchesKey childKey new = true ∧ new.isEmpty = false ∧
    ∀ next ∈ filter.nextChild snap childKey boundary source,
      filter.index.compareReverse filter.reverse next ⟨childKey, new⟩ ≠ .lt

theorem fullLimitUpdateNode_remains {new : FNode}
    (hboundary : (if filter.reverse then snap.firstChild else snap.lastChild) = some boundary)
    (hthere : hasChild snap.node childKey = true)
    (h : Remains filter snap childKey boundary source new) :
    filter.fullLimitUpdateNode snap childKey new source =
      (snap.updateChild childKey new,
        [⟨.childChanged, childKey, new, some (snap.node.child childKey)⟩]) := by
  obtain ⟨hmatch, hsome, hall⟩ := h
  have hnext : (filter.nextChild snap childKey boundary source).all (fun next =>
      decide (filter.index.compareReverse filter.reverse next ⟨childKey, new⟩ ≠ .lt)) = true := by
    rw [Option.all_eq_true]
    exact fun next hnext => decide_eq_true (hall next hnext)
  simp only [FLimitedFilter.fullLimitUpdateNode, hboundary, hthere, hmatch, hsome, hnext,
    if_true, Bool.not_false, Bool.and_self]

theorem fullLimitUpdateNode_leaves {new : FNode}
    (hboundary : (if filter.reverse then snap.firstChild else snap.lastChild) = some boundary)
    (hthere : hasChild snap.node childKey = true)
    (h : ¬ Remains filter snap childKey boundary source new) :
    filter.fullLimitUpdateNode snap childKey new source =
      match filter.replacement (filter.nextChild snap childKey boundary source) with
      | some next => ((snap.updateChild childKey Tree.empty).updateChild next.name next.node,
          [⟨.childRemoved, childKey, snap.node.child childKey, none⟩,
            ⟨.childAdded, next.name, next.node, none⟩])
      | none => (snap.updateChild childKey Tree.empty,
          [⟨.childRemoved, childKey, snap.node.child childKey, none⟩]) := by
  have hfalse : ¬ (filter.rangedFilter.matchesKey childKey new && !new.isEmpty &&
      (filter.nextChild snap childKey boundary source).all (fun next => decide
        (filter.index.compareReverse filter.reverse next ⟨childKey, new⟩ ≠ .lt))) = true := by
    intro htrue
    rw [Bool.and_eq_true, Bool.and_eq_true, Bool.not_eq_true', Option.all_eq_true] at htrue
    obtain ⟨⟨hmatch, hsome⟩, hall⟩ := htrue
    exact h ⟨hmatch, hsome, fun next hnext => of_decide_eq_true (hall next hnext)⟩
  unfold FLimitedFilter.replacement
  cases hnext : (filter.nextChild snap childKey boundary source).filter fun next =>
      filter.rangedFilter.matchesKey next.name next.node with
  | none =>
      simp only [FLimitedFilter.fullLimitUpdateNode, hboundary, hthere, if_true, if_neg hfalse,
        hnext]
  | some next =>
      simp only [FLimitedFilter.fullLimitUpdateNode, hboundary, hthere, if_true, if_neg hfalse,
        hnext]

theorem fullLimitUpdateNode_absent {new : FNode}
    (hboundary : (if filter.reverse then snap.firstChild else snap.lastChild) = some boundary)
    (hthere : hasChild snap.node childKey = false) (hsome : new.isEmpty = false)
    (hmatch : filter.rangedFilter.matchesKey childKey new = true) :
    filter.fullLimitUpdateNode snap childKey new source =
      if filter.index.compareReverse filter.reverse boundary ⟨childKey, new⟩ ≠ .lt then
        ((snap.updateChild childKey new).updateChild boundary.name Tree.empty,
          [⟨.childRemoved, boundary.name, boundary.node, none⟩,
            ⟨.childAdded, childKey, new, none⟩])
      else (snap, []) := by
  simp only [FLimitedFilter.fullLimitUpdateNode, hboundary, hthere, hsome, hmatch, true_and,
    Bool.false_eq_true, if_false]

/-- A changed child of a full window. -/
theorem Follows.last_present (h : Follows filter data snap childKey names source)
    (hfull : (entries snap.node).card = filter.limit)
    (hhas : childEntry data childKey ∈ entries snap.node)
    (hboundary : (if filter.reverse then snap.firstChild else snap.lastChild) = some boundary)
    {new : FNode}
    (hmatch : new.isEmpty = false → filter.rangedFilter.matchesKey childKey new = true) :
    IsLast (filter.index.Later filter.reverse) filter.limit
      (if new.isEmpty then (filter.matching data).erase (childEntry data childKey)
        else insert ⟨childKey, new.contents⟩
          ((filter.matching data).erase (childEntry data childKey)))
      (entries (filter.fullLimitUpdateNode snap childKey new source).1.node) := by
  have hthere : hasChild snap.node childKey = true := by
    rw [hasChild, Bool.not_eq_true', Tree.isEmpty_eq_false_iff]
    exact h.window.mem_iff.mp hhas
  have herased := h.last_erase hhas hboundary
  by_cases hremains : Remains filter snap childKey boundary source new
  · obtain ⟨-, hsome, hall⟩ := id hremains
    rw [fullLimitUpdateNode_remains hboundary hthere hremains, h.window.entries_update, hsome]
    refine h.last_remains hfull hhas hboundary fun next hnext => ?_
    have hfound := (Option.filter_eq_some_iff.mp hnext).1
    exact (h.next_ne_lt hboundary hfound new).mp (hall next hfound)
  · rw [fullLimitUpdateNode_leaves hboundary hthere hremains]
    have hbeaten : new.isEmpty = false →
        ∃ next, filter.nextChild snap childKey boundary source = some next ∧
          filter.index.Later filter.reverse ⟨childKey, new.contents⟩ next.entry := by
      intro hsome
      by_contra hnot
      refine hremains ⟨hmatch hsome, hsome, fun next hnext hlt => hnot ⟨next, hnext, ?_⟩⟩
      exact FPathIndex.compareReverse_eq_lt.mp hlt
    cases hnext : filter.replacement (filter.nextChild snap childKey boundary source) with
    | some next =>
        rw [hnext, withReplacement_some] at herased
        rw [h.entries_replacement hhas hboundary hnext]
        by_cases hempty : new.isEmpty = true
        · rw [if_pos hempty]
          exact herased
        · obtain ⟨found, hfound, hlater⟩ := hbeaten (Bool.eq_false_iff.mpr hempty)
          have hsame : found = next := by
            have hfilter := (Option.filter_eq_some_iff.mp hnext).1
            rw [hfound] at hfilter
            exact Option.some.inj hfilter
          rw [if_neg hempty]
          exact h.last_leaves hhas hboundary hfull hnext (hsame ▸ hlater)
    | none =>
        rw [hnext, withReplacement_none] at herased
        rw [h.window.entries_update, if_pos Tree.isEmpty_empty]
        by_cases hempty : new.isEmpty = true
        · rw [if_pos hempty]
          exact herased
        · have hsome := Bool.eq_false_iff.mpr hempty
          obtain ⟨found, hfound, hlater⟩ := hbeaten hsome
          refine absurd hlater (h.not_leaves hboundary hnext hfound ?_)
          exact FRangedFilter.matchesKey_iff.mp (hmatch hsome)

/-- A changed child outside a full window. -/
theorem Follows.last_absent (h : Follows filter data snap childKey names source)
    (hfull : (entries snap.node).card = filter.limit)
    (hout : childEntry data childKey ∉ entries snap.node)
    (hboundary : (if filter.reverse then snap.firstChild else snap.lastChild) = some boundary)
    {new : FNode}
    (hmatch : new.isEmpty = false → filter.rangedFilter.matchesKey childKey new = true) :
    IsLast (filter.index.Later filter.reverse) filter.limit
      (if new.isEmpty then (filter.matching data).erase (childEntry data childKey)
        else insert ⟨childKey, new.contents⟩
          ((filter.matching data).erase (childEntry data childKey)))
      (entries (filter.fullLimitUpdateNode snap childKey new source).1.node) := by
  have hthere : hasChild snap.node childKey = false := by
    rw [hasChild, Bool.not_eq_false', Tree.isEmpty_iff]
    exact Classical.not_not.mp fun hne => hout (h.window.mem_iff.mpr hne)
  have herased := h.window.last.erase_notMem hout
  obtain ⟨hmem, hlast⟩ := h.boundary_mem hboundary
  by_cases hempty : new.isEmpty = true
  · have hsame : (filter.fullLimitUpdateNode snap childKey new source).1 = snap := by
      simp [FLimitedFilter.fullLimitUpdateNode, hboundary, hthere, hempty]
    rw [if_pos hempty, hsame]
    exact herased
  · have hsome := Bool.eq_false_iff.mpr hempty
    have hne : boundary.name ≠ childKey := by
      intro heq
      have hname := (mem_entries.mp hmem).1
      rw [show boundary.entry.name = childKey from heq, ← Tree.isEmpty_eq_false_iff] at hname
      rw [hasChild, hname] at hthere
      cases hthere
    have hboundaryname := h.snap_names (Tree.mem_names_iff.mpr (mem_entries.mp hmem).1)
    have hcompare := @FPathIndex.compareReverse_ne_lt filter.index _ h.distinguished boundary
      ⟨childKey, new⟩ hboundaryname h.key hne filter.reverse
    rw [if_neg hempty, fullLimitUpdateNode_absent hboundary hthere hsome (hmatch hsome)]
    split
    · rename_i hafter
      have hlater := hcompare.mp hafter
      have htrans : ∀ a b c, filter.index.Later filter.reverse a b →
          filter.index.Later filter.reverse b c → filter.index.Later filter.reverse a c :=
        fun _ _ _ => FPathIndex.Later.trans
      have hset := entries_setChild (snap.updateChild childKey new).node Tree.empty boundary.name
      have hchild : (snap.updateChild childKey new).node.child boundary.name =
          snap.node.child boundary.name := Tree.child_setChild_ne hne _ _
      have hentry : (⟨boundary.name, (snap.node.child boundary.name).contents⟩ : ChildEntry) =
          boundary.entry := ChildEntry.ext rfl (mem_entries.mp hmem).2.symm
      have hnotsame : (⟨childKey, new.contents⟩ : ChildEntry) ≠ boundary.entry :=
        fun heq => hne (congrArg ChildEntry.name heq).symm
      rw [if_pos Tree.isEmpty_empty, hchild, hentry, h.window.entries_update, if_neg hempty,
        Finset.erase_eq_of_notMem hout, Finset.erase_insert_of_ne hnotsame] at hset
      have hbump := herased.insert_bump htrans hfull notMem_erase_childEntry hmem hlast hlater
      exact hset ▸ hbump
    · rename_i hbefore
      have hlater := Classical.not_not.mp hbefore
      rw [FPathIndex.compareReverse_eq_lt] at hlater
      refine herased.insert_before hfull notMem_erase_childEntry fun entry hentry => ?_
      rcases hlast entry hentry with rfl | hbeyond
      · exact hlater
      · exact hlater.trans hbeyond

end Full

/-- The shape of a node with an index: no value, and the index that it came with. -/
def Indexed (index : FPathIndex) (snap : FIndexedNode) : Prop :=
  snap.index = index ∧ snap.node.isLeaf = false

theorem Indexed.updateChild {index : FPathIndex} (h : Indexed index snap) (key : String)
    (new : FNode) : Indexed index (snap.updateChild key new) :=
  ⟨h.1, Tree.isLeaf_setChild h.2 key new⟩

theorem Indexed.updateAny {index : FPathIndex} (h : Indexed index snap) (new : FNode)
    (affectedPath : List String) :
    Indexed index (FIndexedFilter.updateChildIn snap childKey new affectedPath).1 := by
  unfold FIndexedFilter.updateChildIn
  dsimp only
  split
  · exact h
  · split
    · exact h
    · exact h.updateChild _ _

theorem Indexed.updateFull {index : FPathIndex} (h : Indexed index snap) (new : FNode)
    (source : Option FNode) :
    Indexed index (filter.fullLimitUpdateNode snap childKey new source).1 := by
  unfold FLimitedFilter.fullLimitUpdateNode
  dsimp only
  split
  · exact h
  · split
    · split
      · exact h.updateChild _ _
      · split
        · exact (h.updateChild _ _).updateChild _ _
        · exact h.updateChild _ _
    · split
      · exact h
      · split
        · exact (h.updateChild _ _).updateChild _ _
        · exact h

theorem Indexed.updateChildIn {index : FPathIndex} (h : Indexed index snap) (new : FNode)
    (affectedPath : List String) (source : Option FNode) :
    Indexed index (filter.updateChildIn snap childKey new affectedPath source).1 := by
  unfold FLimitedFilter.updateChildIn
  dsimp only
  generalize (if filter.rangedFilter.matchesKey childKey new then new else Tree.empty) = passed
  split
  · exact h
  · split
    · exact h.updateAny passed affectedPath
    · exact h.updateFull passed source

/-- The shortcut for a change below the child is taken only when nothing changed. -/
theorem Window.last_indexed (h : Window filter data snap) {new : FNode}
    {affectedPath : List String} (haffected : AffectedAt affectedPath (data.child childKey) new)
    (hroom : snap.numChildren < filter.limit) :
    IsLast (filter.index.Later filter.reverse) filter.limit
      (filter.matching (data.setChild childKey new))
      (entries (FIndexedFilter.updateChildIn snap childKey (filter.passing childKey new)
        affectedPath).1.node) := by
  unfold FIndexedFilter.updateChildIn
  dsimp only
  split
  · rename_i hshort
    obtain ⟨hsame, hemptyeq⟩ := hshort
    rw [Tree.isEqual_iff] at hsame
    refine h.last_same ?_
    by_cases hpass : (filter.passing childKey new).isEmpty = true
    · rw [hpass] at hemptyeq
      rw [Tree.isEmpty_iff.mp hemptyeq, Tree.isEmpty_iff.mp hpass]
    · have hnew : filter.passing childKey new = new := by
        unfold FLimitedFilter.passing at hpass ⊢
        split
        · rfl
        · rename_i hnot
          exact absurd (by rw [if_neg hnot]; rfl) hpass
      have hname : snap.node.child childKey ≠ Tree.empty := by
        rw [← Tree.isEmpty_eq_false_iff, hemptyeq]
        exact Bool.eq_false_iff.mpr hpass
      have hold := h.child_eq hname
      rw [hnew] at hsame hemptyeq ⊢
      rw [hold]
      refine haffected ?_ ?_
      · rw [← hsame]
        exact (Tree.contents_get_eq hold affectedPath).symm
      · rw [← hemptyeq]
        exact (Tree.isEmpty_eq_of_contents hold).symm
  · split
    · rename_i hleaf
      rw [h.branch] at hleaf
      cases hleaf.1
    · exact h.last_room hroom

/-- **The window follows the change of one child.** -/
theorem Follows.updateChildIn {names : List String} {source : Option FNode}
    (h : Follows filter data snap childKey names source) {new : FNode}
    {affectedPath : List String}
    (haffected : AffectedAt affectedPath (data.child childKey) new) :
    Window filter (data.setChild childKey new)
      (filter.updateChildIn snap childKey new affectedPath source).1 := by
  have hindexed : Indexed filter.index snap := ⟨h.window.index, h.window.branch⟩
  obtain ⟨hindex, hbranch⟩ :=
    @Indexed.updateChildIn filter snap childKey _ hindexed new affectedPath source
  refine ⟨hindex, hbranch, ?_⟩
  have hpassing : (if filter.rangedFilter.matchesKey childKey new then new else Tree.empty) =
      filter.passing childKey new := rfl
  unfold FLimitedFilter.updateChildIn
  dsimp only
  rw [hpassing]
  split
  · rename_i hsame
    exact h.window.last_same (Tree.isEqual_iff.mp hsame)
  · split
    · rename_i hroom
      exact h.window.last_indexed haffected hroom
    · rename_i hfull
      have hcard : (entries snap.node).card = filter.limit := by
        refine Nat.le_antisymm h.window.last.card_le ?_
        rw [card_entries]
        exact Nat.not_lt.mp hfull
      obtain ⟨boundary, hboundary⟩ :=
        exists_boundary (filter.limit_pos.trans_le (Nat.not_lt.mp hfull)) filter.reverse
      have hmatch : (filter.passing childKey new).isEmpty = false →
          filter.rangedFilter.matchesKey childKey (filter.passing childKey new) = true :=
        fun hsome => FRangedFilter.matchesKey_iff.mpr (passing_inRange hsome)
      rw [matching_setChild]
      by_cases hhas : childEntry data childKey ∈ entries snap.node
      · exact h.last_present hcard hhas hboundary hmatch
      · exact h.last_absent hcard hhas hboundary hmatch

end Change

end WillItRecycle

import WillItRecycle.ViewChanges

/-!
# The view of a tagged query

A server that knows of the limit sends only the children in the window, so the node
of the server is filtered too.  It tells a change of its data as the difference
between two results of the query.  The view holds the new result after each such
message, whatever the order in which a merge enumerates its children
(`view_follows`): children in view go first, and what they leave is room enough for
the others.
-/

namespace WillItRecycle

open PathTree LastWindow

/-! ## One child, when there is room for it -/

section Alone

variable {filter : FLimitedFilter} {snap : FIndexedNode} {childKey : String}

/-- A child that is in view or finds room changes nothing but itself. -/
theorem updateChildIn_alone (hindexed : Indexed filter.index snap) {new : FNode}
    {affectedPath : List String} {source : Option FNode}
    (haffected : AffectedAt affectedPath (snap.node.child childKey) new)
    (hrange : new.isEmpty = false → filter.rangedFilter.matchesKey childKey new = true)
    (hroom : (snap.node.child childKey).isEmpty = true → new.isEmpty = false →
      snap.numChildren < filter.limit)
    (hnext : ∀ boundary,
      (if filter.reverse then snap.firstChild else snap.lastChild) = some boundary →
        filter.nextChild snap childKey boundary source = none) :
    filter.updateChildIn snap childKey new affectedPath source =
      if (snap.node.child childKey).isEqual new then (snap, [])
      else (snap.updateChild childKey new,
        FIndexedFilter.childChange childKey (snap.node.child childKey) new) := by
  have hpassing : (if filter.rangedFilter.matchesKey childKey new then new else Tree.empty) =
      new := by
    split
    · rfl
    · rename_i hnot
      refine (Tree.isEmpty_iff.mp ?_).symm
      by_contra hsome
      exact hnot (hrange (Bool.eq_false_iff.mpr hsome))
  unfold FLimitedFilter.updateChildIn
  simp only [hpassing]
  split
  · rfl
  · rename_i hchanged
    split
    · unfold FIndexedFilter.updateChildIn
      rw [if_neg, if_neg]
      · simp [hindexed.2]
      · rintro ⟨hsame, hempty⟩
        refine hchanged (Tree.isEqual_iff.mpr (haffected ?_ hempty))
        exact Tree.isEqual_iff.mp hsame
    · rename_i hfull
      obtain ⟨boundary, hboundary⟩ :=
        exists_boundary (filter.limit_pos.trans_le (Nat.not_lt.mp hfull)) filter.reverse
      have hold : (snap.node.child childKey).isEmpty = false := by
        by_contra hempty
        rw [Bool.not_eq_false] at hempty
        by_cases hsome : new.isEmpty = false
        · exact hfull (hroom hempty hsome)
        · refine hchanged (Tree.isEqual_iff.mpr (contents_eq_of_isEmpty hempty ?_))
          exact Bool.not_eq_false _ ▸ hsome
      have hthere : hasChild snap.node childKey = true := by
        rw [hasChild, hold]
        rfl
      unfold FLimitedFilter.fullLimitUpdateNode
      simp only [hboundary, hthere, hnext boundary hboundary, if_true]
      unfold FIndexedFilter.childChange
      cases hnew : new.isEmpty with
      | true => simp [hold, Tree.isEmpty_iff.mp hnew]
      | false => simp [hold, hrange hnew]

/-- The node after such a change, and what is reported of it. -/
theorem alone_spec (snap : FIndexedNode) (childKey : String) (new : FNode)
    {result : Filtered}
    (hresult : result = if (snap.node.child childKey).isEqual new then (snap, [])
      else (snap.updateChild childKey new,
        FIndexedFilter.childChange childKey (snap.node.child childKey) new)) :
    result.1.node.contents = (snap.node.setChild childKey new).contents ∧
      Reports result.2 snap.node result.1.node ∧
      ∀ change ∈ result.2, change.childKey = childKey ∧
        (snap.node.child childKey).contents ≠ new.contents := by
  subst hresult
  by_cases hsame : (snap.node.child childKey).isEqual new = true
  · rw [if_pos hsame]
    refine ⟨(Tree.contents_setChild_same (Tree.isEqual_iff.mp hsame).symm).symm,
      reports_nil rfl, by simp⟩
  · have hchanged : (snap.node.child childKey).contents ≠ new.contents :=
      fun heq => hsame (Tree.isEqual_iff.mpr heq)
    obtain ⟨change, hlist, hkey, -⟩ := @describes_childChange childKey _ _ hchanged
    rw [if_neg hsame]
    refine ⟨rfl, reports_childChange hchanged, fun other hother => ?_⟩
    rw [hlist, List.mem_singleton] at hother
    exact ⟨hother ▸ hkey, hchanged⟩

/-- Nothing comes into the window when the source knows no more than it holds. -/
theorem nextChild_eq_none {known : FNode} {names : List String} (h : Distinguished names)
    (hindexed : Indexed filter.index snap) (hsnap : snap.node.names ⊆ names)
    (hknown : known.names ⊆ names)
    (hsame : ∀ name ≠ childKey,
      (known.child name).contents = (snap.node.child name).contents)
    {boundary : FNamedNode}
    (hboundary : (if filter.reverse then snap.firstChild else snap.lastChild) = some boundary) :
    filter.nextChild snap childKey boundary (some known) = none := by
  have hentries : ∀ entry : ChildEntry, entry.name ≠ childKey →
      (entry ∈ entries snap.node ↔ entry ∈ entries known) := by
    intro entry hname
    have hcontents := hsame entry.name hname
    have hempty := Tree.isEmpty_eq_of_contents hcontents
    rw [mem_entries, mem_entries, ← Tree.isEmpty_eq_false_iff, ← Tree.isEmpty_eq_false_iff,
      hcontents, hempty]
  obtain ⟨-, hlast⟩ := boundary_last h hsnap hboundary
  rw [hindexed.1] at hlast
  have hafter := @nextAfter_nextChild filter known snap names h childKey
    (fun entry hentry hname => (hentries entry hname).mp hentry) boundary hlast (some known)
    (by
      intro other hother
      obtain rfl := Option.some.inj hother
      exact hknown)
    (fun entry _ _ => Iff.rfl)
  cases hnext : filter.nextChild snap childKey boundary (some known) with
  | none => rfl
  | some next =>
      obtain ⟨⟨hmem, hname⟩, hlater, -⟩ := hafter.some next hnext
      rcases hlast _ ((hentries _ hname).mpr hmem) with heq | hbefore
      · exact absurd (heq ▸ hlater) (FPathIndex.Later.irrefl _)
      · exact absurd hlater hbefore.asymm

end Alone

/-! ## The two caches -/

/-- Both caches are complete, filtered and hold the same. -/
structure Mirrors (filter : FLimitedFilter) (view : FViewCache) : Prop where
  server : Indexed filter.index view.cachedServerSnap.indexedNode
  event : Indexed filter.index view.cachedEventSnap.indexedNode
  serverComplete : view.cachedServerSnap.isFullyInitialized = true
  serverFiltered : view.cachedServerSnap.isFiltered = true
  eventComplete : view.cachedEventSnap.isFullyInitialized = true
  eventFiltered : view.cachedEventSnap.isFiltered = true
  same : view.cachedEventSnap.node.contents = view.cachedServerSnap.node.contents

/-- A change of a child that is in view or finds room there. -/
structure Fits (filter : FLimitedFilter) (names : List String) (node : FNode)
    (childKey : String) (childPath : List String) (new : FNode) : Prop where
  names_sub : node.names ⊆ names
  key : new.isEmpty = false → childKey ∈ names
  deep : childPath ≠ [] → (node.child childKey).isEmpty = false
  range : new.isEmpty = false → filter.rangedFilter.InRange ⟨childKey, new.contents⟩
  room : (node.child childKey).isEmpty = true → new.isEmpty = false →
    node.names.length < filter.limit

/-- An overwrite, from what it makes of the two nodes. -/
theorem applyServerOverwriteTo_eq {filter : FLimitedFilter} {view : FViewCache}
    {changePath : List String} {changedSnap : FNode} {server : FIndexedNode} {result : Filtered}
    {changeMap changeMap' : FChildChangeAccumulator}
    (hserver : (view.cachedServerSnap.isFullyInitialized || changePath.isEmpty) = true)
    (hevent : (view.cachedEventSnap.isFullyInitialized || changePath.isEmpty) = true)
    (hcache : FViewProcessor.newServerCache (.limited filter) view.cachedServerSnap changePath
      changedSnap = some server)
    (hresult : FViewProcessor.newEventCache (.limited filter)
      (view.updateServerSnap server true true) changePath (some server.node) = result)
    (htrack : changeMap.trackAll result.2 = some changeMap') :
    FViewProcessor.applyServerOverwriteTo (.limited filter) view changePath changedSnap none true
        changeMap =
      some (⟨⟨result.1, true, true⟩, ⟨server, true, true⟩⟩, changeMap') := by
  simp only [FViewCache.updateServerSnap] at hresult
  simp only [FViewProcessor.applyServerOverwriteTo,
    FViewProcessor.generateEventCacheAfterServerEvent, if_true, hcache, hserver,
    FNodeFilter.filtersNodes, FViewCache.completeServerSnap, FViewCache.updateServerSnap,
    FViewCache.updateEventSnap, FCacheNode.node, Option.none_or, hresult, htrack, hevent,
    Option.map_some]

section OneChild

variable {filter : FLimitedFilter} {view : FViewCache} {names : List String}
  {childKey : String} {childPath : List String} {snap : FNode}

/-- The server's node takes the change. -/
theorem Mirrors.newServerCache (h : Mirrors filter view)
    (hfits : Fits filter names view.cachedServerSnap.node childKey childPath
      ((view.cachedServerSnap.node.child childKey).set childPath snap)) :
    ∃ server, FViewProcessor.newServerCache (.limited filter) view.cachedServerSnap
        (childKey :: childPath) snap = some server ∧ Indexed filter.index server ∧
      server.node.contents = (view.cachedServerSnap.node.setChild childKey
        ((view.cachedServerSnap.node.child childKey).set childPath snap)).contents := by
  have hcomplete : (!view.cachedServerSnap.isCompleteForPath (childKey :: childPath) &&
      !childPath.isEmpty) = false := by
    cases childPath with
    | nil => simp
    | cons name path =>
        have hthere := hfits.deep (by simp)
        simp [FCacheNode.isCompleteForPath, FCacheNode.isCompleteForChild, hasChild, hthere]
  have halone := @updateChildIn_alone filter view.cachedServerSnap.indexedNode childKey h.server
    ((view.cachedServerSnap.node.child childKey).set childPath snap) childPath none
    (affectedAt_set _ _ _) (fun hsome => FRangedFilter.matchesKey_iff.mpr (hfits.range hsome))
    hfits.room (fun boundary _ => rfl)
  refine ⟨_, ?_, h.server.updateChildIn _ childPath none,
    (alone_spec view.cachedServerSnap.indexedNode childKey _ halone).1⟩
  simp only [FViewProcessor.newServerCache, FNodeFilter.filtersNodes, h.serverFiltered, hcomplete,
    Bool.not_true, Bool.and_false, Bool.false_eq_true, if_false]
  rfl

/-- What the changed child is to the observers. -/
theorem Mirrors.newEventChild (h : Mirrors filter view) {new : FNode}
    (hnew : new = (view.cachedServerSnap.node.child childKey).set childPath snap)
    (hdeep : childPath ≠ [] → (view.cachedServerSnap.node.child childKey).isEmpty = false)
    {server : FIndexedNode}
    (hserver : server.node.contents =
      (view.cachedServerSnap.node.setChild childKey new).contents) :
    (∃ child, FViewProcessor.newEventChild (view.updateServerSnap server true true) childKey
        childPath = some child ∧ child.contents = new.contents ∧
      AffectedAt childPath (view.cachedEventSnap.node.child childKey) child) ∨
    (FViewProcessor.newEventChild (view.updateServerSnap server true true) childKey
        childPath = none ∧
      (view.cachedEventSnap.node.child childKey).contents = new.contents) := by
  have hold := Tree.contents_child_eq h.same childKey
  have hchild : (server.node.child childKey).contents = new.contents := by
    rw [Tree.contents_child_eq hserver, Tree.child_setChild_same]
  unfold FViewProcessor.newEventChild FCacheNode.isCompleteForChild
  simp only [FViewCache.updateServerSnap, h.eventComplete, h.eventFiltered, Bool.not_true,
    Bool.and_false, Bool.false_or]
  by_cases hthere : hasChild view.cachedEventSnap.node childKey = true
  · rw [if_pos hthere]
    refine Or.inl ⟨_, rfl, ?_, affectedAt_set _ _ _⟩
    rw [hnew]
    refine Tree.contents_set_congr hold ?_ childPath
    have hget := Tree.contents_get_eq hchild childPath
    rw [hnew, Tree.get_set_same] at hget
    exact hget
  · rw [if_neg hthere]
    have hempty : (view.cachedEventSnap.node.child childKey).isEmpty = true := by
      simpa [hasChild] using hthere
    have hnil : childPath = [] := by
      by_contra hne
      have hsome := hdeep hne
      rw [← Tree.isEmpty_eq_of_contents hold, hempty] at hsome
      cases hsome
    subst hnil
    unfold FViewProcessor.calculateCompleteChild FCacheNode.isCompleteForChild
    simp only [Bool.not_true, Bool.and_false, Bool.false_or]
    by_cases hknown : hasChild server.node childKey = true
    · refine Or.inl ⟨server.node.child childKey, if_pos hknown, hchild, ?_⟩
      exact fun hsame _ => hsame
    · refine Or.inr ⟨if_neg hknown, contents_eq_of_isEmpty hempty ?_⟩
      rw [← Tree.isEmpty_eq_of_contents hchild]
      simpa [hasChild] using hknown

/-- The observers' node takes the change. -/
theorem Mirrors.newEventCache (h : Mirrors filter view) (hnames : Distinguished names)
    {new : FNode} (hnew : new = (view.cachedServerSnap.node.child childKey).set childPath snap)
    (hfits : Fits filter names view.cachedServerSnap.node childKey childPath new)
    {server : FIndexedNode}
    (hserver : server.node.contents =
      (view.cachedServerSnap.node.setChild childKey new).contents) :
    ∃ result, FViewProcessor.newEventCache (.limited filter)
        (view.updateServerSnap server true true) (childKey :: childPath) (some server.node) =
          result ∧
      Indexed filter.index result.1 ∧ result.1.node.contents = server.node.contents ∧
      Reports result.2 view.cachedEventSnap.node result.1.node ∧
      ∀ change ∈ result.2, change.childKey = childKey ∧
        (view.cachedEventSnap.node.child childKey).contents ≠ new.contents := by
  have hevent : (view.cachedEventSnap.node.setChild childKey new).contents =
      server.node.contents := by
    rw [hserver]
    exact Tree.contents_setChild_congr h.same rfl childKey
  refine ⟨_, rfl, ?_⟩
  rcases h.newEventChild hnew hfits.deep hserver with
    ⟨child, hchild, hcontents, haffected⟩ | ⟨hnone, hsame⟩
  · have hroom : (view.cachedEventSnap.node.child childKey).isEmpty = true →
        child.isEmpty = false → view.cachedEventSnap.indexedNode.numChildren < filter.limit := by
      intro hempty hsome
      have hperm := Tree.names_perm_of_contents h.same
      rw [Tree.isEmpty_eq_of_contents (Tree.contents_child_eq h.same childKey)] at hempty
      rw [Tree.isEmpty_eq_of_contents hcontents] at hsome
      exact hperm.length_eq.trans_lt (hfits.room hempty hsome)
    have hrange : child.isEmpty = false →
        filter.rangedFilter.matchesKey childKey child = true := by
      intro hsome
      rw [Tree.isEmpty_eq_of_contents hcontents] at hsome
      refine FRangedFilter.matchesKey_iff.mpr ?_
      rw [hcontents]
      exact hfits.range hsome
    have hsnap : view.cachedEventSnap.node.names ⊆ names := fun name hname =>
      hfits.names_sub ((Tree.names_perm_of_contents h.same).subset hname)
    have hothers : ∀ name ≠ childKey, (server.node.child name).contents =
        (view.cachedEventSnap.node.child name).contents := by
      intro name hne
      rw [← Tree.contents_child_eq hevent, Tree.child_setChild_ne hne]
    have hknown : server.node.names ⊆ names := by
      intro name hname
      by_cases hkey : name = childKey
      · subst hkey
        refine hfits.key ?_
        have hempty := Tree.isEmpty_eq_of_contents (Tree.contents_child_eq hserver name)
        rw [Tree.child_setChild_same] at hempty
        rw [← hempty, Tree.isEmpty_eq_false_iff]
        exact Tree.mem_names_iff.mp hname
      · refine hsnap (Tree.mem_names_iff.mpr ?_)
        have hempty := Tree.isEmpty_eq_of_contents (hothers name hkey)
        rw [← Tree.isEmpty_eq_false_iff, ← hempty, Tree.isEmpty_eq_false_iff]
        exact Tree.mem_names_iff.mp hname
    have halone := updateChildIn_alone h.event haffected hrange hroom
      fun boundary hboundary => nextChild_eq_none hnames h.event hsnap hknown hothers hboundary
    have hresult : FViewProcessor.newEventCache (.limited filter)
        (view.updateServerSnap server true true) (childKey :: childPath) (some server.node) =
          filter.updateChildIn view.cachedEventSnap.indexedNode childKey child childPath
            (some server.node) := by
      unfold FViewProcessor.newEventCache
      dsimp only
      rw [hchild]
      rfl
    rw [hresult]
    obtain ⟨hnode, hreports, hkeys⟩ :=
      alone_spec view.cachedEventSnap.indexedNode childKey child halone
    refine ⟨h.event.updateChildIn child childPath _, ?_, hreports, ?_⟩
    · rw [hnode, ← hevent]
      exact Tree.contents_setChild_congr rfl hcontents childKey
    · rw [← hcontents]
      exact hkeys
  · have hresult : FViewProcessor.newEventCache (.limited filter)
        (view.updateServerSnap server true true) (childKey :: childPath) (some server.node) =
          (view.cachedEventSnap.indexedNode, []) := by
      unfold FViewProcessor.newEventCache
      dsimp only
      rw [hnone]
      rfl
    rw [hresult]
    refine ⟨h.event, ?_, reports_nil rfl, by simp⟩
    rw [← hevent]
    exact (Tree.contents_setChild_same hsame.symm).symm

/-- **A change of one child passes through both caches.** -/
theorem Mirrors.overwrite (h : Mirrors filter view) (hnames : Distinguished names)
    {new : FNode} (hnew : new = (view.cachedServerSnap.node.child childKey).set childPath snap)
    (hfits : Fits filter names view.cachedServerSnap.node childKey childPath new)
    {start : FNode} {changeMap : FChildChangeAccumulator}
    (htracks : Tracks start view.cachedEventSnap.node changeMap) :
    ∃ view' changeMap', FViewProcessor.applyServerOverwriteTo (.limited filter) view
        (childKey :: childPath) snap none true changeMap = some (view', changeMap') ∧
      Mirrors filter view' ∧
      view'.cachedServerSnap.node.contents =
        (view.cachedServerSnap.node.setChild childKey new).contents ∧
      Tracks start view'.cachedEventSnap.node changeMap' ∧
      ∀ name, changeMap'.lookup name ≠ none → changeMap.lookup name ≠ none ∨
        (name = childKey ∧
          (view.cachedServerSnap.node.child childKey).contents ≠ new.contents) := by
  obtain ⟨server, hcache, hindexed, hserver⟩ := h.newServerCache (hnew ▸ hfits)
  rw [← hnew] at hserver
  obtain ⟨result, hresult, hevent, hnode, hreports, hkeys⟩ :=
    h.newEventCache hnames hnew hfits hserver
  obtain ⟨changeMap', htrack, htracks'⟩ := htracks.trackAll hreports
  refine ⟨⟨⟨result.1, true, true⟩, ⟨server, true, true⟩⟩, changeMap', ?_,
    ⟨hindexed, hevent, rfl, rfl, rfl, rfl, hnode⟩, hserver, htracks', ?_⟩
  · refine applyServerOverwriteTo_eq ?_ ?_ hcache hresult htrack
    · rw [h.serverComplete, Bool.true_or]
    · rw [h.eventComplete, Bool.true_or]
  · intro name hname
    by_cases htracked : name ∈ result.2.map FChange.childKey
    · obtain ⟨change, hchange, rfl⟩ := List.mem_map.mp htracked
      obtain ⟨hkey, hchanged⟩ := hkeys change hchange
      rw [Tree.contents_child_eq h.same] at hchanged
      exact Or.inr ⟨hkey, hchanged⟩
    · rw [FChildChangeAccumulator.lookup_trackAll htrack htracked] at hname
      exact Or.inl hname

end OneChild

/-! ## A merge -/

section Merge

variable {filter : FLimitedFilter} {names : List String}

theorem FCompoundWrite.applyToNode_child {write : FCompoundWrite}
    (hroot : write.rootWrite = none) (node : FNode) (childKey : String) :
    (write.applyToNode node).child childKey =
      (write.childWrite childKey).applyToNode (node.child childKey) := by
  have hpaths : ∀ written ∈ write.writes, written.1 ≠ [] := by
    intro written hwritten hnil
    have hnone := List.lookup_eq_none_iff.mp hroot written hwritten
    rw [hnil] at hnone
    cases hnone
  unfold FCompoundWrite.applyToNode FCompoundWrite.childWrite
  dsimp only
  generalize write.writes = writes at hpaths
  induction writes generalizing node with
  | nil => rfl
  | cons written writes ih =>
      obtain ⟨path, value⟩ := written
      obtain ⟨hpath, hrest⟩ := List.forall_mem_cons.mp hpaths
      rw [List.foldl_cons, ih _ hrest]
      cases path with
      | nil => exact absurd rfl hpath
      | cons name path =>
          by_cases hname : name = childKey
          · subst hname
            simp [FCompoundWrite.below, Tree.set_cons]
          · have hne : childKey ≠ name := fun heq => hname heq.symm
            simp [FCompoundWrite.below, Tree.set_cons, hname, Tree.child_setChild_ne hne]

theorem FCompoundWrite.applyToNode_other {write : FCompoundWrite}
    (hroot : write.rootWrite = none) (node : FNode) {childKey : String}
    (hkey : childKey ∉ write.childKeys) :
    (write.applyToNode node).child childKey = node.child childKey := by
  have hnone : write.writes.filterMap (FCompoundWrite.below childKey) = [] := by
    rw [List.filterMap_eq_nil_iff]
    rintro ⟨path, value⟩ hwritten
    cases path with
    | nil => rfl
    | cons name path =>
        refine if_neg fun hname => hkey ?_
        rw [FCompoundWrite.childKeys, List.mem_dedup, List.mem_filterMap]
        exact ⟨_, hwritten, by rw [hname]; rfl⟩
  rw [write.applyToNode_child hroot, FCompoundWrite.applyToNode, FCompoundWrite.childWrite]
  simp only [hnone, List.foldl_nil]

/-- The node of the server once some of the children have been merged. -/
def Stage (old new : FNode) (done : List String) (node : FNode) : Prop :=
  ∀ name, (node.child name).contents =
    if name ∈ done then (new.child name).contents else (old.child name).contents

theorem Stage.setChild {old new node node' : FNode} {done : List String}
    (h : Stage old new done node) {childKey : String}
    (hnode : node'.contents = (node.setChild childKey (new.child childKey)).contents) :
    Stage old new (done ++ [childKey]) node' := by
  intro name
  rw [Tree.contents_child_eq hnode, Tree.child_setChild]
  by_cases hname : name = childKey
  · subst hname
    simp
  · rw [if_neg hname, h name]
    simp [hname]

/-- **A round of a merge brings its children to their new state**, if each of them fits
when it is its turn. -/
theorem Mirrors.mergeRound {first view : FViewCache} (h : Mirrors filter view)
    (hnames : Distinguished names) {merge : FCompoundWrite} (hroot : merge.rootWrite = none)
    {old new : FNode} (hold : old = first.cachedServerSnap.node)
    (hnew : new = merge.applyToNode old) {done childKeys : List String}
    (hstage : Stage old new done view.cachedServerSnap.node)
    (hnodup : (done ++ childKeys).Nodup)
    (hfits : ∀ before childKey after, childKeys = before ++ childKey :: after →
      ∀ node, Stage old new (done ++ before) node →
        Fits filter names node childKey [] (new.child childKey))
    {start : FNode} {changeMap : FChildChangeAccumulator}
    (htracks : Tracks start view.cachedEventSnap.node changeMap) :
    ∃ view' changeMap', FViewProcessor.mergeRound (.limited filter) first merge none true
        childKeys (some (view, changeMap)) = some (view', changeMap') ∧
      Mirrors filter view' ∧ Stage old new (done ++ childKeys) view'.cachedServerSnap.node ∧
      Tracks start view'.cachedEventSnap.node changeMap' ∧
      ∀ name, changeMap'.lookup name ≠ none → changeMap.lookup name ≠ none ∨
        (old.child name).contents ≠ (new.child name).contents := by
  induction childKeys generalizing view done changeMap with
  | nil =>
      refine ⟨view, changeMap, rfl, h, ?_, htracks, fun name hname => Or.inl hname⟩
      rw [List.append_nil]
      exact hstage
  | cons childKey childKeys ih =>
      have hout : childKey ∉ done := fun hmem =>
        (List.nodup_append.mp hnodup).2.2 _ hmem _ List.mem_cons_self rfl
      have hchild : new.child childKey =
          (view.cachedServerSnap.node.child childKey).set [] (new.child childKey) := rfl
      obtain ⟨middle, changes, hstep, hmirrors, hserver, htracked, hlook⟩ :=
        h.overwrite hnames hchild (hfits [] childKey childKeys rfl _ (by simpa using hstage))
          htracks
      have hnewChild : (merge.childWrite childKey).applyToNode
          (first.cachedServerSnap.node.child childKey) = new.child childKey := by
        rw [hnew, merge.applyToNode_child hroot, hold]
      have happend : done ++ [childKey] ++ childKeys = done ++ childKey :: childKeys := by simp
      obtain ⟨view', changeMap', hround, hmirrors', hstage', htracks', hlook'⟩ :=
        ih hmirrors (hstage.setChild hserver) (happend ▸ hnodup)
          (by
            intro before other after hsplit node hnode
            refine hfits (childKey :: before) other after (by rw [hsplit]; rfl) node ?_
            simpa using hnode)
          htracked
      refine ⟨view', changeMap', ?_, hmirrors', happend ▸ hstage', htracks', ?_⟩
      · unfold FViewProcessor.mergeRound at hround ⊢
        rw [List.foldl_cons, Option.bind_some]
        dsimp only
        rw [hnewChild, hstep]
        exact hround
      · intro name hname
        rcases hlook' name hname with hmiddle | hchanged
        · rcases hlook name hmiddle with hbefore | ⟨rfl, hchanged⟩
          · exact Or.inl hbefore
          · refine Or.inr ?_
            rw [hstage name, if_neg hout] at hchanged
            exact hchanged
        · exact Or.inr hchanged

/-- What a window holds of its node: children in range, no more than the limit. -/
structure InWindow (filter : FLimitedFilter) (names : List String) (node : FNode) : Prop where
  branch : node.isLeaf = false
  names_sub : node.names ⊆ names
  range : ∀ name, (node.child name).isEmpty = false →
    filter.rangedFilter.InRange ⟨name, (node.child name).contents⟩
  limit : node.names.length ≤ filter.limit

theorem Stage.names_sub {old new node : FNode} {done : List String}
    (h : Stage old new done node) (hold : old.names ⊆ names) (hnew : new.names ⊆ names) :
    node.names ⊆ names := by
  intro name hname
  have hsome := Tree.isEmpty_eq_false_iff.mpr (Tree.mem_names_iff.mp hname)
  have hstage := h name
  split at hstage
  · rw [Tree.isEmpty_eq_of_contents hstage, Tree.isEmpty_eq_false_iff] at hsome
    exact hnew (Tree.mem_names_iff.mpr hsome)
  · rw [Tree.isEmpty_eq_of_contents hstage, Tree.isEmpty_eq_false_iff] at hsome
    exact hold (Tree.mem_names_iff.mpr hsome)

/-- Once the children in view are done there is room for the others. -/
theorem Stage.room {old new node : FNode} {done : List String} {merge : FCompoundWrite}
    (h : Stage old new done node) (hroot : merge.rootWrite = none)
    (hnew : new = merge.applyToNode old) (hnewWindow : InWindow filter names new)
    (hdone : ∀ name ∈ merge.childKeys, (old.child name).isEmpty = false → name ∈ done)
    {childKey : String} (hempty : (node.child childKey).isEmpty = true)
    (hsome : (new.child childKey).isEmpty = false) : node.names.length < filter.limit := by
  have hsub : childKey :: node.names ⊆ new.names := by
    intro name hname
    rcases List.mem_cons.mp hname with rfl | hmem
    · exact Tree.mem_names_iff.mpr (Tree.isEmpty_eq_false_iff.mp hsome)
    · have hnode := Tree.isEmpty_eq_false_iff.mpr (Tree.mem_names_iff.mp hmem)
      have hstage := h name
      rw [Tree.mem_names_iff, ← Tree.isEmpty_eq_false_iff]
      split at hstage
      · rw [← Tree.isEmpty_eq_of_contents hstage]
        exact hnode
      · rename_i hnot
        rw [Tree.isEmpty_eq_of_contents hstage] at hnode
        have hkey : name ∉ merge.childKeys := fun hkey => hnot (hdone name hkey hnode)
        rw [hnew, merge.applyToNode_other hroot old hkey]
        exact hnode
  have hnot : childKey ∉ node.names := by
    rw [Tree.mem_names_iff, not_not, ← Tree.isEmpty_iff]
    exact hempty
  have hlength := (List.subperm_of_subset
    (List.nodup_cons.mpr ⟨hnot, node.nodup_names⟩) hsub).length_le
  exact (Nat.lt_of_succ_le hlength).trans_le hnewWindow.limit

/-- **A merge takes the view from one window to the next**, in whatever order it
enumerates its children. -/
theorem Mirrors.merge {view : FViewCache} (h : Mirrors filter view)
    (hnames : Distinguished names) {children : FCompoundWrite} {path : List String}
    (hroot : (children.atPath path).rootWrite = none) {new : FNode}
    (hnew : new = (children.atPath path).applyToNode view.cachedServerSnap.node)
    (hold : view.cachedServerSnap.node.names ⊆ names) (hwindow : InWindow filter names new)
    (hwhole : ∀ childKey ∈ (children.atPath path).childKeys,
      (view.cachedServerSnap.node.child childKey).isEmpty = true →
        ((children.atPath path).childWrite childKey).rootWrite.isSome = true)
    {start : FNode} {changeMap : FChildChangeAccumulator}
    (htracks : Tracks start view.cachedEventSnap.node changeMap) :
    ∃ view' changeMap', FViewProcessor.applyServerMergeTo (.limited filter) view path children
        none true changeMap = some (view', changeMap') ∧
      Mirrors filter view' ∧ view'.cachedServerSnap.node.contents = new.contents ∧
      Tracks start view'.cachedEventSnap.node changeMap' ∧
      ∀ name, changeMap'.lookup name ≠ none → changeMap.lookup name ≠ none ∨
        (view.cachedServerSnap.node.child name).contents ≠ (new.child name).contents := by
  let merge := children.atPath path
  let old := view.cachedServerSnap.node
  let inView := merge.childKeys.filter fun childKey => hasChild old childKey
  let others := merge.childKeys.filter fun childKey =>
    !hasChild old childKey && (view.cachedServerSnap.isCompleteForChild childKey ||
      (merge.childWrite childKey).rootWrite.isSome)
  have hnodup : merge.childKeys.Nodup := List.nodup_dedup _
  have hstart : Stage old new [] old := fun name => by simp
  have hmem : ∀ childKey, childKey ∈ inView ↔
      childKey ∈ merge.childKeys ∧ (old.child childKey).isEmpty = false := by
    intro childKey
    simp [inView, hasChild]
  have hsomeRange : ∀ childKey, (new.child childKey).isEmpty = false →
      filter.rangedFilter.InRange ⟨childKey, (new.child childKey).contents⟩ := hwindow.range
  have hkey : ∀ childKey, (new.child childKey).isEmpty = false → childKey ∈ names :=
    fun childKey hsome => hwindow.names_sub
      (Tree.mem_names_iff.mpr (Tree.isEmpty_eq_false_iff.mp hsome))
  -- the children in view are there until it is their turn
  have hinView : ∀ before childKey after, inView = before ++ childKey :: after →
      ∀ node, Stage old new ([] ++ before) node →
        Fits filter names node childKey [] (new.child childKey) := by
    intro before childKey after hsplit node hnode
    refine ⟨hnode.names_sub hold hwindow.names_sub, hkey childKey, fun hne => absurd rfl hne,
      hsomeRange childKey, fun hempty _ => ?_⟩
    have hthere := ((hmem childKey).mp (by rw [hsplit]; simp)).2
    have hlater : childKey ∉ [] ++ before := by
      have hview : inView.Nodup := hnodup.filter _
      rw [hsplit, List.nodup_append] at hview
      exact fun hbefore => hview.2.2 _ hbefore _ List.mem_cons_self rfl
    have hsame := hnode childKey
    rw [if_neg hlater] at hsame
    rw [Tree.isEmpty_eq_of_contents hsame, hthere] at hempty
    cases hempty
  have hothers : ∀ before childKey after, others = before ++ childKey :: after →
      ∀ node, Stage old new (inView ++ before) node →
        Fits filter names node childKey [] (new.child childKey) := by
    intro before childKey after hsplit node hnode
    refine ⟨hnode.names_sub hold hwindow.names_sub, hkey childKey, fun hne => absurd rfl hne,
      hsomeRange childKey, fun hempty hsome => ?_⟩
    refine hnode.room hroot hnew hwindow (fun name hname hthere => ?_) hempty hsome
    exact List.mem_append_left before ((hmem name).mpr ⟨hname, hthere⟩)
  have hdisjoint : (inView ++ others).Nodup := by
    refine List.nodup_append.mpr ⟨hnodup.filter _, hnodup.filter _, ?_⟩
    rintro childKey hview _ hother rfl
    have hthere := ((hmem childKey).mp hview).2
    simp [others, hasChild, hthere] at hother
  obtain ⟨middle, changes, hfirst, hmirrors, hstage, htracked, hlook⟩ :=
    @Mirrors.mergeRound filter names view view h hnames merge hroot old new rfl hnew [] inView
      hstart (hnodup.filter _) hinView start changeMap htracks
  obtain ⟨view', changeMap', hsecond, hmirrors', hstage', htracks', hlook'⟩ :=
    @Mirrors.mergeRound filter names view middle hmirrors hnames merge hroot old new rfl hnew
      inView others hstage hdisjoint hothers start changes htracked
  refine ⟨view', changeMap', ?_, hmirrors', ?_, htracks', ?_⟩
  · unfold FViewProcessor.applyServerMergeTo
    rw [if_neg (by simp [h.serverComplete])]
    dsimp only
    exact hfirst ▸ hsecond
  · have hbranch : view'.cachedServerSnap.node.isLeaf = false := hmirrors'.server.2
    refine Tree.contents_ext ?_ fun name => ?_
    · rw [Tree.value?_eq_none hbranch, Tree.value?_eq_none hwindow.branch]
    · rw [hstage' name]
      split
      · rfl
      · rename_i hnot
        have hkeys : name ∉ merge.childKeys := by
          intro hname
          refine hnot (List.mem_append.mpr ?_)
          cases hthere : (old.child name).isEmpty with
          | false => exact Or.inl ((hmem name).mpr ⟨hname, hthere⟩)
          | true =>
              have hroots := hwhole name hname hthere
              exact Or.inr (by simp [others, hasChild, hname, hthere, merge, hroots])
        rw [hnew]
        exact congrArg Tree.contents (merge.applyToNode_other hroot old hkeys).symm
  · intro name hname
    rcases hlook' name hname with hmiddle | hchanged
    · exact hlook name hmiddle
    · exact Or.inr hchanged

end Merge

/-! ## The whole query -/

section Whole

variable {filter : FLimitedFilter} {names : List String} {view : FViewCache}

/-- What the query makes of the data from scratch. -/
def FLimitedFilter.queryResult (filter : FLimitedFilter) (data : FNode) : FNode :=
  (filter.updateFullNode ⟨Tree.empty, filter.index⟩ ⟨data, filter.index⟩).1.node

theorem inWindow_of_window {data : FNode} {snap : FIndexedNode} (h : Window filter data snap)
    (hdata : data.names ⊆ names) : InWindow filter names snap.node := by
  have hmatching : ∀ name, (snap.node.child name).isEmpty = false →
      (⟨name, (snap.node.child name).contents⟩ : ChildEntry) ∈ filter.matching data := by
    intro name hsome
    exact h.last.subset (mem_entries.mpr ⟨Tree.isEmpty_eq_false_iff.mp hsome, rfl⟩)
  refine ⟨h.branch, fun name hname => ?_, fun name hsome => ?_, ?_⟩
  · have hmem := hmatching name
      (Tree.isEmpty_eq_false_iff.mpr (Tree.mem_names_iff.mp hname))
    exact hdata (Tree.mem_names_iff.mpr
      (mem_entries.mp (FLimitedFilter.mem_matching.mp hmem).1).1)
  · exact (FLimitedFilter.mem_matching.mp (hmatching name hsome)).2
  · rw [← card_entries]
    exact h.last.card_le

theorem window_queryResult {data : FNode} (h : Distinguished data.names) :
    Window filter data ⟨filter.queryResult data, filter.index⟩ := by
  have hwindow := @updateFullNode_window filter ⟨Tree.empty, filter.index⟩ data h
  exact ⟨rfl, hwindow.branch, hwindow.last⟩

theorem Distinguished.mono {names names' : List String} (h : Distinguished names')
    (hsub : names ⊆ names') : Distinguished names :=
  fun a ha b hb => h a (hsub ha) b (hsub hb)

theorem inWindow_queryResult (hnames : Distinguished names) {data : FNode}
    (hdata : data.names ⊆ names) : InWindow filter names (filter.queryResult data) :=
  @inWindow_of_window filter names data ⟨filter.queryResult data, filter.index⟩
    (window_queryResult (hnames.mono hdata)) hdata

/-- A node that is a window already is not cut. -/
theorem window_self {node : FNode} (hnames : Distinguished names)
    (h : InWindow filter names node) (oldSnap : FIndexedNode) :
    (filter.updateFullNode oldSnap ⟨node, filter.index⟩).1.node.contents = node.contents := by
  have hmatching : filter.matching node = entries node := by
    refine Finset.filter_true_of_mem fun entry hentry => ?_
    obtain ⟨hname, hcontents⟩ := mem_entries.mp hentry
    have hrange := h.range entry.name (Tree.isEmpty_eq_false_iff.mpr hname)
    rwa [← hcontents] at hrange
  have hself : Window filter node ⟨node, filter.index⟩ := by
    refine ⟨rfl, h.branch, ?_⟩
    rw [hmatching]
    refine isLast_self ?_
    rw [card_entries]
    exact h.limit
  exact (updateFullNode_window oldSnap (hnames.mono h.names_sub)).unique hself

theorem InWindow.congr {node other : FNode} (h : InWindow filter names node)
    (hcontents : node.contents = other.contents) : InWindow filter names other := by
  have hperm := Tree.names_perm_of_contents hcontents
  refine ⟨?_, fun name hname => h.names_sub (hperm.symm.subset hname), fun name hsome => ?_, ?_⟩
  · rw [Tree.isLeaf_eq_value?, ← Tree.value?_eq_of_contents hcontents, ← Tree.isLeaf_eq_value?]
    exact h.branch
  · have hchild := Tree.contents_child_eq hcontents name
    rw [← Tree.isEmpty_eq_of_contents hchild] at hsome
    rw [← hchild]
    exact h.range name hsome
  · exact hperm.length_eq ▸ h.limit

theorem contents_completeEventChildren {node : FNode} (h : node.isLeaf = false) :
    (FViewProcessor.calculateCompleteEventChildren node).contents = node.contents := by
  have hfold : ∀ (keys : List String) (tree : FNode), tree.isLeaf = false →
      (keys.foldl (fun tree key => tree.setChild key (node.child key)) tree).isLeaf = false ∧
        ∀ name, (keys.foldl (fun tree key => tree.setChild key (node.child key)) tree).child
          name = if name ∈ keys then node.child name else tree.child name := by
    intro keys
    induction keys with
    | nil => exact fun tree htree => ⟨htree, fun name => by simp⟩
    | cons key keys ih =>
        intro tree htree
        obtain ⟨hbranch, hchild⟩ := ih _ (Tree.isLeaf_setChild htree key (node.child key))
        refine ⟨hbranch, fun name => ?_⟩
        rw [List.foldl_cons, hchild, Tree.child_setChild]
        by_cases hname : name = key
        · simp [hname]
        · simp [hname]
  obtain ⟨hbranch, hchild⟩ := hfold node.names Tree.empty rfl
  refine Tree.contents_ext ?_ fun name => ?_
  · rw [Tree.value?_eq_none h]
    exact Tree.value?_eq_none hbranch
  · rw [FViewProcessor.calculateCompleteEventChildren, hchild]
    split
    · rfl
    · rename_i hname
      rw [Tree.child_eq_empty hname, Tree.child_empty]

/-- A view whose server node is a window of its own shows that to the observers. -/
theorem newEventCache_whole {server : FIndexedNode} (hnames : Distinguished names)
    (hwindow : InWindow filter names server.node) (view : FViewCache)
    (source : Option FNode) :
    ∃ result, FViewProcessor.newEventCache (.limited filter)
        (view.updateServerSnap server true true) [] source = result ∧
      Indexed filter.index result.1 ∧ result.1.node.contents = server.node.contents ∧
      Reports result.2 view.cachedEventSnap.node result.1.node := by
  have hchildren := contents_completeEventChildren hwindow.branch
  have hown := hwindow.congr hchildren.symm
  refine ⟨_, rfl, ?_, ?_, reports_updateFullNode _ _⟩
  · have hcut := @updateFullNode_window filter view.cachedEventSnap.indexedNode _
      (hnames.mono hown.names_sub)
    exact ⟨hcut.index, hcut.branch⟩
  · exact (window_self hnames hown view.cachedEventSnap.indexedNode).trans hchildren

/-- **A message with the whole result replaces what the view holds.** -/
theorem overwrite_whole (hnames : Distinguished names) {snap : FNode}
    (hwindow : InWindow filter names snap) (view : FViewCache) :
    ∃ view' changeMap, FViewProcessor.applyServerOverwriteTo (.limited filter) view [] snap none
        true [] = some (view', changeMap) ∧
      Mirrors filter view' ∧ view'.cachedServerSnap.node.contents = snap.contents ∧
      Tracked view.cachedEventSnap.node view'.cachedEventSnap.node changeMap := by
  let server := (filter.updateFullNode view.cachedServerSnap.indexedNode ⟨snap, filter.index⟩).1
  have hserver : server.node.contents = snap.contents := window_self hnames hwindow _
  have hcut := @updateFullNode_window filter view.cachedServerSnap.indexedNode snap
    (hnames.mono hwindow.names_sub)
  obtain ⟨result, hresult, hindexed, hnode, hreports⟩ :=
    newEventCache_whole hnames (hwindow.congr hserver.symm) view (some server.node)
  obtain ⟨changeMap, htrack, htracked⟩ := hreports.tracked
  refine ⟨⟨⟨result.1, true, true⟩, ⟨server, true, true⟩⟩, changeMap, ?_,
    ⟨⟨hcut.index, hcut.branch⟩, hindexed, rfl, rfl, rfl, rfl, hnode⟩, hserver, htracked⟩
  refine applyServerOverwriteTo_eq ?_ ?_ rfl hresult htrack
  · rw [List.isEmpty_nil, Bool.or_true]
  · rw [List.isEmpty_nil, Bool.or_true]

end Whole

/-! ## The messages of the server -/

section Messages

variable {filter : FLimitedFilter} {names : List String} {view : FViewCache}

/-- The server says how the result of the query has changed: it sends the new one, or
what is to be written over the old one.  It sends whole children where the old result
has none. -/
def Says (old new : FNode) : FOperation → Prop
  | .overwrite isTagged [] snap => isTagged = true ∧ snap.contents = new.contents
  | .overwrite _ (childKey :: childPath) snap =>
      (old.set (childKey :: childPath) snap).contents = new.contents ∧
        (childPath ≠ [] → (old.child childKey).isEmpty = false)
  | .merge _ path children =>
      (children.atPath path).rootWrite = none ∧
        ((children.atPath path).applyToNode old).contents = new.contents ∧
          ∀ childKey ∈ (children.atPath path).childKeys, (old.child childKey).isEmpty = true →
            ((children.atPath path).childWrite childKey).rootWrite.isSome = true
  | .listenComplete => old.contents = new.contents

theorem FCompoundWrite.applyToNode_congr (write : FCompoundWrite) {node other : FNode}
    (h : node.contents = other.contents) :
    (write.applyToNode node).contents = (write.applyToNode other).contents := by
  unfold FCompoundWrite.applyToNode
  generalize write.writes = writes
  induction writes generalizing node other with
  | nil => exact h
  | cons written writes ih =>
      rw [List.foldl_cons, List.foldl_cons]
      exact ih (Tree.contents_set_congr h rfl _)

/-- What a message is to a view that holds the old result, it is to the old result. -/
theorem Says.congr {old old' new : FNode} (h : old.contents = old'.contents)
    {operation : FOperation} (htold : Says old' new operation) : Says old new operation := by
  have hempty : ∀ name, (old.child name).isEmpty = (old'.child name).isEmpty :=
    fun name => Tree.isEmpty_eq_of_contents (Tree.contents_child_eq h name)
  cases operation with
  | overwrite isTagged path snap =>
      cases path with
      | nil => exact htold
      | cons childKey childPath =>
          refine ⟨?_, fun hne => (hempty childKey).trans (htold.2 hne)⟩
          rw [← htold.1]
          exact Tree.contents_set_congr h rfl _
  | merge isTagged path children =>
      obtain ⟨hroot, hnew, hwhole⟩ := htold
      refine ⟨hroot, ?_, fun childKey hmem hgone => ?_⟩
      · rw [← hnew]
        exact FCompoundWrite.applyToNode_congr _ h
      · exact hwhole childKey hmem ((hempty childKey).symm.trans hgone)
  | listenComplete => exact h.trans htold

/-- What a step of the view comes to: the new result in both caches, and the children
tracked that have changed. -/
structure Arrives (filter : FLimitedFilter) (before after : FViewCache) (new : FNode)
    (changeMap : FChildChangeAccumulator) : Prop where
  mirrors : Mirrors filter after
  server : after.cachedServerSnap.node.contents = new.contents
  tracked : Tracked before.cachedEventSnap.node after.cachedEventSnap.node changeMap

theorem Mirrors.child_eq (h : Mirrors filter view) (name : String) :
    (view.cachedEventSnap.node.child name).contents =
      (view.cachedServerSnap.node.child name).contents :=
  Tree.contents_child_eq h.same name

/-- The end of a `listen` changes nothing. -/
theorem Mirrors.listenComplete (h : Mirrors filter view) (hnames : Distinguished names)
    (hwindow : InWindow filter names view.cachedServerSnap.node) :
    ∃ view' changeMap, FViewProcessor.listenCompleteOldCache (.limited filter) view [] =
        some (view', changeMap) ∧
      Arrives filter view view' view.cachedServerSnap.node changeMap := by
  obtain ⟨result, hresult, hindexed, hnode, hreports⟩ :=
    newEventCache_whole hnames hwindow view none
  obtain ⟨changeMap, htrack, htracked⟩ := hreports.tracked
  refine ⟨⟨⟨result.1, true, true⟩, ⟨view.cachedServerSnap.indexedNode, true, true⟩⟩,
    changeMap, ?_, ⟨⟨h.server, hindexed, rfl, rfl, rfl, rfl, hnode⟩, rfl, htracked⟩⟩
  simp only [FViewCache.updateServerSnap] at hresult
  simp only [FViewProcessor.listenCompleteOldCache, h.serverFiltered,
    FViewProcessor.generateEventCacheAfterServerEvent, FNodeFilter.filtersNodes,
    FViewCache.updateServerSnap, FViewCache.updateEventSnap, hresult, htrack,
    List.isEmpty_nil, Bool.or_true, Option.map_some]

/-- A child of a window that the message writes fits there. -/
theorem InWindow.fits {node new child : FNode} (hnew : InWindow filter names new)
    (hnode : node.names ⊆ names) {childKey : String} {childPath : List String}
    (hset : (node.setChild childKey child).contents = new.contents)
    (hdeep : childPath ≠ [] → (node.child childKey).isEmpty = false) :
    Fits filter names node childKey childPath child := by
  have hwindow := hnew.congr hset.symm
  have hchild : (node.setChild childKey child).child childKey = child :=
    Tree.child_setChild_same childKey child node
  have hkey : child.isEmpty = false → childKey ∈ (node.setChild childKey child).names := by
    intro hsome
    rw [Tree.mem_names_iff, hchild, ← Tree.isEmpty_eq_false_iff]
    exact hsome
  refine ⟨hnode, fun hsome => hwindow.names_sub (hkey hsome), hdeep, fun hsome => ?_,
    fun hempty hsome => ?_⟩
  · have hrange := hwindow.range childKey
    rw [hchild] at hrange
    exact hrange hsome
  · have hnot : childKey ∉ node.names := by
      rw [Tree.mem_names_iff, not_not, ← Tree.isEmpty_iff]
      exact hempty
    have hsub : childKey :: node.names ⊆ (node.setChild childKey child).names := by
      refine List.cons_subset.mpr ⟨hkey hsome, fun name hname => ?_⟩
      have hne : name ≠ childKey := fun heq => hnot (heq ▸ hname)
      rw [Tree.mem_names_iff, Tree.child_setChild_ne hne]
      exact Tree.mem_names_iff.mp hname
    have hlength := (List.subperm_of_subset
      (List.nodup_cons.mpr ⟨hnot, node.nodup_names⟩) hsub).length_le
    exact (Nat.lt_of_succ_le hlength).trans_le hwindow.limit

/-- **Whatever the server says, both caches hold the new result afterwards.** -/
theorem Mirrors.arrives (h : Mirrors filter view) (hnames : Distinguished names)
    (hold : InWindow filter names view.cachedServerSnap.node) {new : FNode}
    (hnew : InWindow filter names new) {operation : FOperation}
    (htold : Says view.cachedServerSnap.node new operation) :
    ∃ view' changeMap, FViewProcessor.applyOperationOn (.limited filter) view operation none =
        some (view', changeMap, FViewProcessor.maybeAddValue view view' changeMap) ∧
      Arrives filter view view' new changeMap := by
  cases operation with
  | overwrite isTagged path snap =>
      cases path with
      | nil =>
          obtain ⟨rfl, hsnap⟩ := htold
          obtain ⟨view', changeMap, hstep, hmirrors, hserver, htracked⟩ :=
            overwrite_whole hnames (hnew.congr hsnap.symm) view
          refine ⟨view', changeMap, ?_, hmirrors, hserver.trans hsnap, htracked⟩
          simp [FViewProcessor.applyOperationOn, hstep]
      | cons childKey childPath =>
          obtain ⟨hset, hdeep⟩ := htold
          rw [Tree.set_cons] at hset
          obtain ⟨view', changeMap, hstep, hmirrors, hserver, htracks, hchanged⟩ :=
            h.overwrite hnames rfl (hnew.fits hold.names_sub hset hdeep)
              (tracks_nil view.cachedEventSnap.node)
          refine ⟨view', changeMap, ?_, hmirrors, hserver.trans hset, htracks, ?_⟩
          · simp [FViewProcessor.applyOperationOn, h.serverFiltered, hstep]
          · intro name hname
            obtain ⟨rfl, hdiffer⟩ := (hchanged name hname).resolve_left fun hnil => hnil rfl
            rw [h.child_eq, hmirrors.child_eq, Tree.contents_child_eq hserver,
              Tree.child_setChild_same]
            exact hdiffer
  | merge isTagged path children =>
      obtain ⟨hroot, happly, hwhole⟩ := htold
      obtain ⟨view', changeMap, hstep, hmirrors, hserver, htracks, hchanged⟩ :=
        h.merge hnames hroot rfl hold.names_sub (hnew.congr happly.symm) hwhole
          (tracks_nil view.cachedEventSnap.node)
      refine ⟨view', changeMap, ?_, hmirrors, hserver.trans happly, htracks, ?_⟩
      · simp [FViewProcessor.applyOperationOn, h.serverFiltered, hstep]
      · intro name hname
        have hdiffer := (hchanged name hname).resolve_left fun hnil => hnil rfl
        rw [h.child_eq, hmirrors.child_eq, Tree.contents_child_eq hserver]
        exact hdiffer
  | listenComplete =>
      obtain ⟨view', changeMap, hstep, harrives⟩ := h.listenComplete hnames hold
      refine ⟨view', changeMap, ?_, harrives.mirrors, harrives.server.trans htold,
        harrives.tracked⟩
      simp [FViewProcessor.applyOperationOn, hstep]

/-! ## The values for the observers -/

theorem Arrives.contents_event {before after : FViewCache} {new : FNode}
    {changeMap : FChildChangeAccumulator} (h : Arrives filter before after new changeMap) :
    after.cachedEventSnap.node.contents = new.contents :=
  h.mirrors.same.trans h.server

theorem Arrives.nil_iff {before after : FViewCache} {new : FNode}
    {changeMap : FChildChangeAccumulator} (h : Arrives filter before after new changeMap)
    (hbefore : before.cachedEventSnap.node.isLeaf = false) :
    changeMap = [] ↔ new.contents = before.cachedEventSnap.node.contents := by
  rw [← h.contents_event]
  exact h.tracked.nil_iff hbefore h.mirrors.event.2

theorem Arrives.value {before after : FViewCache} {new : FNode}
    {changeMap : FChildChangeAccumulator} (h : Arrives filter before after new changeMap)
    (hbefore : Mirrors filter before) :
    FViewProcessor.maybeAddValue before after changeMap =
      if changeMap.isEmpty then none else some after.cachedEventSnap.indexedNode :=
  h.tracked.value hbefore.eventComplete h.mirrors.eventComplete hbefore.event.2 h.mirrors.event.2

/-- A view before the server has said anything. -/
def freshView (filter : FLimitedFilter) : FViewCache :=
  ⟨⟨⟨Tree.empty, filter.index⟩, false, true⟩, ⟨⟨Tree.empty, filter.index⟩, false, false⟩⟩

/-- The first message is a value for the observers, whatever it holds. -/
theorem Arrives.first_value {after : FViewCache} {new : FNode}
    {changeMap : FChildChangeAccumulator}
    (h : Arrives filter (freshView filter) after new changeMap) :
    FViewProcessor.maybeAddValue (freshView filter) after changeMap =
      some after.cachedEventSnap.indexedNode := by
  simp [FViewProcessor.maybeAddValue, h.mirrors.eventComplete, freshView]

theorem freshView_arrives (hnames : Distinguished names) {snap : FNode}
    (hwindow : InWindow filter names snap) :
    ∃ view changeMap, FViewProcessor.applyOperationOn (.limited filter) (freshView filter)
        (.overwrite true [] snap) none =
          some (view, changeMap, some view.cachedEventSnap.indexedNode) ∧
      Arrives filter (freshView filter) view snap changeMap := by
  obtain ⟨view, changeMap, hstep, hmirrors, hserver, htracked⟩ :=
    overwrite_whole hnames hwindow (freshView filter)
  have harrives : Arrives filter (freshView filter) view snap changeMap :=
    ⟨hmirrors, hserver, htracked⟩
  refine ⟨view, changeMap, ?_, harrives⟩
  simp [FViewProcessor.applyOperationOn, hstep, harrives.first_value]

/-- The messages of the server one after another, and the value after each, if any. -/
def applyOperations (filter : FNodeFilter) : FViewCache → List FOperation →
    Option (FViewCache × List (Option FIndexedNode))
  | view, [] => some (view, [])
  | view, operation :: operations => do
      let (view', _, value) ← FViewProcessor.applyOperationOn filter view operation none
      let (view'', values) ← applyOperations filter view' operations
      pure (view'', value :: values)

/-- Each message says what became of the result when the data changed. -/
def Sent (filter : FLimitedFilter) : FNode → List (FNode × FOperation) → Prop
  | _, [] => True
  | data, (data', operation) :: messages =>
      Says (filter.queryResult data) (filter.queryResult data') operation ∧
        Sent filter data' messages

/-- After each message the observers know the result of the query: they get it as a
value, or it is what it was before. -/
def Known (filter : FLimitedFilter) : FNode → List FNode → List (Option FIndexedNode) → Prop
  | _, [], [] => True
  | data, data' :: others, value :: values =>
      (value = none ↔
        (filter.queryResult data').contents = (filter.queryResult data).contents) ∧
      (∀ snap ∈ value, snap.index = filter.index ∧
        snap.node.contents = (filter.queryResult data').contents) ∧
      Known filter data' others values
  | _, _, _ => False

/-- The same from a view that holds the result for the first data. -/
theorem Mirrors.follows (h : Mirrors filter view) (hnames : Distinguished names) {data : FNode}
    {messages : List (FNode × FOperation)}
    (hdata : ∀ node ∈ data :: messages.map Prod.fst, node.names ⊆ names)
    (hview : view.cachedServerSnap.node.contents = (filter.queryResult data).contents)
    (hsent : Sent filter data messages) :
    ∃ view' values, applyOperations (.limited filter) view (messages.map Prod.snd) =
        some (view', values) ∧
      view'.cachedEventSnap.node.contents =
        (filter.queryResult ((messages.map Prod.fst).getLastD data)).contents ∧
      Known filter data (messages.map Prod.fst) values := by
  induction messages generalizing view data with
  | nil => exact ⟨view, [], rfl, h.same.trans hview, trivial⟩
  | cons message messages ih =>
      obtain ⟨data', operation⟩ := message
      obtain ⟨htold, hsent⟩ := hsent
      obtain ⟨hfirst, hrest⟩ := List.forall_mem_cons.mp hdata
      obtain ⟨view', changeMap, hstep, harrives⟩ :=
        h.arrives hnames ((inWindow_queryResult hnames hfirst).congr hview.symm)
          (inWindow_queryResult hnames (hrest data' List.mem_cons_self)) (htold.congr hview)
      obtain ⟨view'', values, hrun, hlast, hknown⟩ :=
        ih harrives.mirrors hrest harrives.server hsent
      have hbefore : view.cachedEventSnap.node.contents = (filter.queryResult data).contents :=
        h.same.trans hview
      refine ⟨view'', FViewProcessor.maybeAddValue view view' changeMap :: values, ?_, ?_, ?_,
        ?_, hknown⟩
      · rw [List.map_cons, applyOperations, hstep]
        simp only [Option.bind_eq_bind, Option.bind_some, hrun]
        rfl
      · rw [List.map_cons, List.getLastD_cons]
        exact hlast
      · rw [harrives.value h, ← hbefore, ← harrives.nil_iff h.event.2]
        cases changeMap <;> simp
      · intro snap hsnap
        rw [harrives.value h] at hsnap
        split at hsnap
        · cases hsnap
        · obtain rfl := Option.some.inj hsnap
          exact ⟨harrives.mirrors.event.1, harrives.contents_event⟩

/-- **The view of a tagged query follows the data of the server**: it takes every message
without an exception, holds the result of the query for the latest data, and gives its
observers the new result exactly when it has changed. -/
theorem view_follows (hnames : Distinguished names) {first snap : FNode}
    {messages : List (FNode × FOperation)}
    (hdata : ∀ node ∈ first :: messages.map Prod.fst, node.names ⊆ names)
    (hfirst : snap.contents = (filter.queryResult first).contents)
    (hsent : Sent filter first messages) :
    ∃ view value values, applyOperations (.limited filter) (freshView filter)
        (.overwrite true [] snap :: messages.map Prod.snd) = some (view, some value :: values) ∧
      value.index = filter.index ∧
      value.node.contents = (filter.queryResult first).contents ∧
      view.cachedEventSnap.node.contents =
        (filter.queryResult ((messages.map Prod.fst).getLastD first)).contents ∧
      Known filter first (messages.map Prod.fst) values := by
  have hnode : first.names ⊆ names := hdata first List.mem_cons_self
  have hwindow : InWindow filter names snap :=
    (inWindow_queryResult hnames hnode).congr hfirst.symm
  obtain ⟨view, changeMap, hstep, harrives⟩ := freshView_arrives hnames hwindow
  obtain ⟨view', values, hrun, hlast, hknown⟩ :=
    harrives.mirrors.follows hnames hdata (harrives.server.trans hfirst) hsent
  refine ⟨view', view.cachedEventSnap.indexedNode, values, ?_, harrives.mirrors.event.1,
    harrives.contents_event.trans hfirst, hlast, hknown⟩
  rw [applyOperations, hstep]
  simp only [Option.bind_eq_bind, Option.bind_some, hrun]
  rfl

end Messages

/-- Users with their leaves. -/
def leavesOf (users : List (String × Int)) : FNode :=
  users.foldl (fun node user => node.set [user.1, "allTimeLeaves"] (Tree.leaf (.int user.2)))
    Tree.empty

/-- `queryOrdered(byChild: "allTimeLeaves")` -/
def orderedByLeaves : FPathIndex := ⟨["allTimeLeaves"], List.cons_ne_nil _ _⟩

/-- The two greatest users. -/
def topTwo : FLimitedFilter :=
  FLimitedFilter.initWithQueryParams orderedByLeaves 2 false (Nat.succ_pos 1)

theorem distinguished_three : Distinguished ["ann", "bob", "cy"] := by
  unfold Distinguished
  decide +kernel

/-- Ann overtakes Bob, and the server names her first. -/
def annOvertakes : FCompoundWrite where
  writes := [(["ann"], (Tree.empty : FNode).set ["allTimeLeaves"] (Tree.leaf (.int 9))),
    (["bob"], Tree.empty)]
  diverge := by simp

/-- The view gets the two greatest users, and the next two when Ann overtakes Bob. -/
theorem view_follows_ann :
    ∃ view value values, applyOperations (.limited topTwo) (freshView topTwo)
        [.overwrite true [] (topTwo.queryResult (leavesOf [("ann", 3), ("bob", 5), ("cy", 7)])),
          .merge true [] annOvertakes] = some (view, some value :: values) ∧
      value.index = topTwo.index ∧
      value.node.contents =
        (topTwo.queryResult (leavesOf [("ann", 3), ("bob", 5), ("cy", 7)])).contents ∧
      view.cachedEventSnap.node.contents =
        (topTwo.queryResult (leavesOf [("ann", 9), ("bob", 5), ("cy", 7)])).contents ∧
      Known topTwo (leavesOf [("ann", 3), ("bob", 5), ("cy", 7)])
        [leavesOf [("ann", 9), ("bob", 5), ("cy", 7)]] values := by
  refine @view_follows topTwo _ distinguished_three
    (leavesOf [("ann", 3), ("bob", 5), ("cy", 7)]) _
    [(leavesOf [("ann", 9), ("bob", 5), ("cy", 7)], .merge true [] annOvertakes)] ?_ rfl
    ⟨⟨rfl, Tree.isEqual_iff.mp (by decide +kernel), by decide +kernel⟩, trivial⟩
  decide +kernel

end WillItRecycle

import WillItRecycle.TaggedView

/-!
# The view of a query over complete data

Where another listener loads the whole node, the server's node is not filtered, and
every overwrite of it is carried over to the window of the query: a child that leaves
the window is replaced by the next one of the complete data.  After any overwrites,
at any paths, the view holds what the query makes of the data from scratch
(`complete_view_follows`).
-/

namespace WillItRecycle

open PathTree LastWindow

/-! ## What the filter reports -/

section Reported

variable {filter : FLimitedFilter} {data : FNode} {snap : FIndexedNode} {childKey : String}
  {names : List String} {source : Option FNode}

theorem firstChild_mem {reverse : Bool} {boundary : FNamedNode}
    (h : (if reverse then snap.firstChild else snap.lastChild) = some boundary) :
    (snap.node.child boundary.name).isEmpty = false ∧
      boundary.node = snap.node.child boundary.name := by
  have hmem : boundary ∈ snap.childEnumerator := by
    cases reverse with
    | false => exact List.mem_of_getLast? h
    | true => exact List.mem_of_head? h
  obtain ⟨hname, hnode⟩ := mem_childEnumerator.mp hmem
  exact ⟨Tree.isEmpty_eq_false_iff.mpr (Tree.mem_names_iff.mp hname), hnode⟩

theorem childChange_removed {old new : FNode} (hold : old.isEmpty = false)
    (hnew : new.isEmpty = true) :
    FIndexedFilter.childChange childKey old new = [⟨.childRemoved, childKey, old, none⟩] := by
  simp [FIndexedFilter.childChange, hold, hnew]

theorem childChange_added {old new : FNode} (hold : old.isEmpty = true)
    (hnew : new.isEmpty = false) :
    FIndexedFilter.childChange childKey old new = [⟨.childAdded, childKey, new, none⟩] := by
  simp [FIndexedFilter.childChange, hold, hnew]

theorem childChange_changed {old new : FNode} (hold : old.isEmpty = false)
    (hnew : new.isEmpty = false) :
    FIndexedFilter.childChange childKey old new =
      [⟨.childChanged, childKey, new, some old⟩] := by
  simp [FIndexedFilter.childChange, hold, hnew]

theorem contents_ne_of_isEmpty {old new : FNode} (h : old.isEmpty ≠ new.isEmpty) :
    old.contents ≠ new.contents :=
  fun heq => h (Tree.isEmpty_eq_of_contents heq)

/-- One child takes the place of another. -/
theorem reports_replace {node taken : FNode} {gone come : String} (hne : gone ≠ come)
    (hgone : (node.child gone).isEmpty = false) (hcome : (node.child come).isEmpty = true)
    (htaken : taken.isEmpty = false) {node' : FNode}
    (hnode : ∀ name, node'.child name =
      if name = come then taken else if name = gone then Tree.empty else node.child name) :
    Reports [⟨.childRemoved, gone, node.child gone, none⟩, ⟨.childAdded, come, taken, none⟩]
      node node' := by
  have hout : node'.child gone = Tree.empty := by
    rw [hnode, if_neg hne, if_pos rfl]
  have hin : node'.child come = taken := by
    rw [hnode, if_pos rfl]
  have hempty : (node'.child gone).isEmpty = true := by
    rw [hout]
    rfl
  have hthere : (node'.child come).isEmpty = false := by
    rw [hin]
    exact htaken
  have hchanges : [gone, come].flatMap (fun childKey =>
      FIndexedFilter.childChange childKey (node.child childKey) (node'.child childKey)) =
        [⟨.childRemoved, gone, node.child gone, none⟩, ⟨.childAdded, come, taken, none⟩] := by
    rw [List.flatMap_cons, List.flatMap_cons, childChange_removed hgone hempty,
      childChange_added hcome hthere, hin]
    rfl
  rw [← hchanges]
  refine reports_flatMap (by simp [hne]) ?_ ?_
  · intro name hname
    simp only [List.mem_cons, List.not_mem_nil, or_false] at hname
    rcases hname with rfl | rfl
    · exact contents_ne_of_isEmpty (by rw [hgone, hempty]; decide)
    · exact contents_ne_of_isEmpty (by rw [hcome, hthere]; decide)
  · intro name hname
    simp only [List.mem_cons, List.not_mem_nil, or_false, not_or] at hname
    rw [hnode, if_neg hname.2, if_neg hname.1]

/-- The replacement is not in the window. -/
theorem Follows.replacement_new (h : Follows filter data snap childKey names source)
    (hthere : (snap.node.child childKey).isEmpty = false) {boundary : FNamedNode}
    (hboundary : (if filter.reverse then snap.firstChild else snap.lastChild) = some boundary)
    {next : FNamedNode}
    (hnext : filter.replacement (filter.nextChild snap childKey boundary source) = some next) :
    next.name ≠ childKey ∧ (snap.node.child next.name).isEmpty = true ∧
      next.node.isEmpty = false := by
  have hhas := h.window.mem_iff.mpr (Tree.isEmpty_eq_false_iff.mp hthere)
  obtain ⟨hmatch, hout, hname, -⟩ := h.replacement hhas hboundary hnext
  obtain ⟨hsome, hcontents⟩ := mem_entries.mp (FLimitedFilter.mem_matching.mp hmatch).1
  refine ⟨hname, ?_, ?_⟩
  · by_contra hin
    rw [Bool.not_eq_true, Tree.isEmpty_eq_false_iff] at hin
    have hsame : next.entry = childEntry data next.name := ChildEntry.ext rfl hcontents
    exact hout (hsame ▸ h.window.mem_iff.mpr hin)
  · rw [Tree.isEmpty_eq_of_contents hcontents]
    exact Tree.isEmpty_eq_false_iff.mpr hsome

theorem Follows.reports_full (h : Follows filter data snap childKey names source) {new : FNode}
    (hchanged : (snap.node.child childKey).contents ≠ new.contents) {boundary : FNamedNode}
    (hboundary : (if filter.reverse then snap.firstChild else snap.lastChild) = some boundary)
    (hmatch : new.isEmpty = false → filter.rangedFilter.matchesKey childKey new = true) :
    Reports (filter.fullLimitUpdateNode snap childKey new source).2 snap.node
      (filter.fullLimitUpdateNode snap childKey new source).1.node := by
  cases hthere : hasChild snap.node childKey with
  | true =>
      have hold : (snap.node.child childKey).isEmpty = false := by
        simpa [hasChild] using hthere
      by_cases hremains : Remains filter snap childKey boundary source new
      · rw [fullLimitUpdateNode_remains hboundary hthere hremains,
          ← childChange_changed hold hremains.2.1]
        exact reports_childChange hchanged
      · rw [fullLimitUpdateNode_leaves hboundary hthere hremains]
        cases hnext : filter.replacement (filter.nextChild snap childKey boundary source) with
        | none =>
            have hne : (snap.node.child childKey).contents ≠ (Tree.empty : FNode).contents :=
              contents_ne_of_isEmpty (by rw [hold]; decide)
            dsimp only
            rw [← childChange_removed hold Tree.isEmpty_empty]
            exact reports_childChange hne
        | some next =>
            obtain ⟨hname, hout, hsome⟩ := h.replacement_new hold hboundary hnext
            refine reports_replace hname.symm hold hout hsome fun name => ?_
            simp only [FIndexedNode.updateChild, Tree.child_setChild]
  | false =>
      have hold : (snap.node.child childKey).isEmpty = true := by
        simpa [hasChild] using hthere
      have hsome : new.isEmpty = false := by
        by_contra hempty
        exact hchanged (contents_eq_of_isEmpty hold (Bool.not_eq_false _ ▸ hempty))
      rw [fullLimitUpdateNode_absent hboundary hthere hsome (hmatch hsome)]
      split
      · obtain ⟨hboundarySome, hnode⟩ := firstChild_mem hboundary
        have hne : boundary.name ≠ childKey := by
          intro heq
          rw [heq, hold] at hboundarySome
          cases hboundarySome
        rw [hnode]
        refine reports_replace hne hboundarySome hold hsome fun name => ?_
        simp only [FIndexedNode.updateChild, Tree.child_setChild]
        by_cases hname : name = boundary.name
        · rw [if_pos hname, if_neg (fun heq => hne (hname.symm.trans heq)), if_pos hname]
        · rw [if_neg hname, if_neg hname]
      · exact reports_nil rfl

/-- **What the filter reports is what happened to the window.** -/
theorem Follows.reports (h : Follows filter data snap childKey names source) (new : FNode)
    (affectedPath : List String) :
    Reports (filter.updateChildIn snap childKey new affectedPath source).2 snap.node
      (filter.updateChildIn snap childKey new affectedPath source).1.node := by
  have hpassing : (if filter.rangedFilter.matchesKey childKey new then new else Tree.empty) =
      filter.passing childKey new := rfl
  unfold FLimitedFilter.updateChildIn
  dsimp only
  rw [hpassing]
  split
  · exact reports_nil rfl
  · rename_i hunequal
    have hchanged : (snap.node.child childKey).contents ≠
        (filter.passing childKey new).contents := fun heq => hunequal (Tree.isEqual_iff.mpr heq)
    split
    · unfold FIndexedFilter.updateChildIn
      dsimp only
      split
      · exact reports_nil rfl
      · rw [if_neg (by simp [h.window.branch])]
        exact reports_childChange hchanged
    · rename_i hfull
      obtain ⟨boundary, hboundary⟩ :=
        exists_boundary (filter.limit_pos.trans_le (Nat.not_lt.mp hfull)) filter.reverse
      exact h.reports_full hchanged hboundary fun hsome =>
        FRangedFilter.matchesKey_iff.mpr (passing_inRange hsome)

end Reported

/-! ## The view -/

section View

variable {filter : FLimitedFilter} {names : List String} {data : FNode} {view : FViewCache}

theorem matching_congr {other : FNode} (h : data.contents = other.contents) :
    filter.matching data = filter.matching other := by
  rw [FLimitedFilter.matching, FLimitedFilter.matching, entries_congr h]

theorem Window.congr {snap : FIndexedNode} (h : Window filter data snap) {other : FNode}
    (hdata : data.contents = other.contents) : Window filter other snap :=
  ⟨h.index, h.branch, matching_congr hdata ▸ h.last⟩

/-- The server's node is the whole data, and the observers' node the window of it. -/
structure HoldsWindow (filter : FLimitedFilter) (data : FNode) (view : FViewCache) : Prop where
  serverComplete : view.cachedServerSnap.isFullyInitialized = true
  serverUnfiltered : view.cachedServerSnap.isFiltered = false
  server : view.cachedServerSnap.node.contents = data.contents
  eventComplete : view.cachedEventSnap.isFullyInitialized = true
  eventFiltered : view.cachedEventSnap.isFiltered = true
  event : Window filter data view.cachedEventSnap.indexedNode

/-- The complete cache that is handed over, if any, may be older than the change of the
child. -/
def AgreesElsewhere (optCompleteCache : Option FNode) (data : FNode) : List String → Prop
  | [] => True
  | childKey :: _ => ∀ known ∈ optCompleteCache, ∀ name ≠ childKey,
      (known.child name).contents = (data.child name).contents

theorem indexed_update {index : FPathIndex} (snap : FIndexedNode) (childKey : String)
    {new : FNode} {childPath : List String}
    (haffected : AffectedAt childPath (snap.node.child childKey) new) :
    ((FNodeFilter.indexed index).updateChildIn snap childKey new childPath none).1.node.contents =
      (snap.node.setChild childKey new).contents := by
  change (FIndexedFilter.updateChildIn snap childKey new childPath).1.node.contents = _
  unfold FIndexedFilter.updateChildIn
  dsimp only
  split
  · rename_i hsame
    refine (Tree.contents_setChild_same ?_).symm
    exact (haffected (Tree.isEqual_iff.mp hsame.1) hsame.2).symm
  · split
    · rename_i hleaf
      refine (Tree.contents_setChild_same ?_).symm
      rw [Tree.isLeaf_eq_value?] at hleaf
      obtain ⟨value, hvalue⟩ := Option.isSome_iff_exists.mp hleaf.1
      rw [Tree.eq_leaf_of_value? hvalue, Tree.child_leaf, Tree.isEmpty_iff.mp hleaf.2]
    · rfl

theorem affectedAt_of_set {childPath : List String} {old snap child : FNode}
    (h : child.contents = (old.set childPath snap).contents) : AffectedAt childPath old child := by
  intro hsame _
  have hget := Tree.contents_get_eq h childPath
  rw [Tree.get_set_same] at hget
  rw [h]
  exact (Tree.contents_set_same (hsame.trans hget).symm).symm

theorem HoldsWindow.newEventChild (h : HoldsWindow filter data view) {childKey : String}
    {childPath : List String} {snap : FNode} {server : FIndexedNode}
    (hserver : server.node.contents = (data.set (childKey :: childPath) snap).contents) :
    ∃ child, FViewProcessor.newEventChild (view.updateServerSnap server true false) childKey
        childPath = some child ∧
      child.contents = ((data.child childKey).set childPath snap).contents := by
  have hchild : (server.node.child childKey).contents =
      ((data.child childKey).set childPath snap).contents := by
    rw [Tree.contents_child_eq hserver, Tree.set_cons, Tree.child_setChild_same]
  unfold FViewProcessor.newEventChild FViewProcessor.calculateCompleteChild
    FCacheNode.isCompleteForChild
  simp only [FViewCache.updateServerSnap, h.eventComplete, h.eventFiltered, Bool.not_true,
    Bool.and_false, Bool.false_or, Bool.not_false, Bool.and_self, Bool.true_or, if_true]
  by_cases hthere : hasChild view.cachedEventSnap.node childKey = true
  · rw [if_pos hthere]
    refine ⟨_, rfl, Tree.contents_set_congr ?_ ?_ childPath⟩
    · refine h.event.child_eq ?_
      rw [← Tree.isEmpty_eq_false_iff]
      exact (Bool.not_eq_true' _).mp hthere
    · have hget := Tree.contents_get_eq hchild childPath
      rw [Tree.get_set_same] at hget
      exact hget
  · rw [if_neg hthere]
    exact ⟨_, rfl, hchild⟩

/-- What an overwrite makes of the server's node. -/
theorem HoldsWindow.newServerCache (h : HoldsWindow filter data view) (path : List String)
    (snap : FNode) :
    ∃ server, FViewProcessor.newServerCache (.indexed filter.index) view.cachedServerSnap path
        snap = some server ∧ server.node.contents = (data.set path snap).contents := by
  cases path with
  | nil => exact ⟨_, rfl, rfl⟩
  | cons childKey childPath =>
      have hupdate := @indexed_update filter.index view.cachedServerSnap.indexedNode childKey
        _ childPath (affectedAt_set childPath _ snap)
      refine ⟨_, ?_, hupdate.trans
        (Tree.contents_set_congr h.server rfl (childKey :: childPath))⟩
      simp only [FViewProcessor.newServerCache, FNodeFilter.filtersNodes,
        FCacheNode.isCompleteForPath, FCacheNode.isCompleteForChild, h.serverComplete,
        h.serverUnfiltered, Bool.false_and, Bool.not_false, Bool.and_self, Bool.true_or,
        Bool.not_true, Bool.false_eq_true, if_false]
      rfl

/-- What it makes of the observers' node. -/
theorem HoldsWindow.newEventCache (h : HoldsWindow filter data view) (hnames : Distinguished names)
    {path : List String} {snap : FNode} (hdata : data.names ⊆ names)
    (hdata' : (data.set path snap).names ⊆ names)
    (hpath : ∀ childKey ∈ path.head?, childKey ∈ names)
    {server : FIndexedNode} (hserver : server.node.contents = (data.set path snap).contents)
    {optCompleteCache : Option FNode} (hagrees : AgreesElsewhere optCompleteCache data path)
    (hknown : ∀ known ∈ optCompleteCache, known.names ⊆ names) :
    ∃ result, FViewProcessor.newEventCache (.limited filter)
        (view.updateServerSnap server true false) path
          (optCompleteCache.or (some server.node)) = result ∧
      Window filter (data.set path snap) result.1 ∧
      Reports result.2 view.cachedEventSnap.node result.1.node := by
  have hservernames : server.node.names ⊆ names := fun name hname =>
    hdata' ((Tree.names_perm_of_contents hserver).subset hname)
  cases path with
  | nil =>
      refine ⟨_, rfl, ?_, reports_updateFullNode _ _⟩
      exact (updateFullNode_window view.cachedEventSnap.indexedNode
        (hnames.mono hservernames)).congr hserver
  | cons childKey childPath =>
      obtain ⟨child, hchild, hcontents⟩ := h.newEventChild hserver
      have hresult : FViewProcessor.newEventCache (.limited filter)
          (view.updateServerSnap server true false) (childKey :: childPath)
            (optCompleteCache.or (some server.node)) =
          filter.updateChildIn view.cachedEventSnap.indexedNode childKey child childPath
            (optCompleteCache.or (some server.node)) := by
        unfold FViewProcessor.newEventCache
        dsimp only
        rw [hchild]
        rfl
      -- the source agrees with the data beyond the changed child
      have hsource : ∃ known, optCompleteCache.or (some server.node) = some known ∧
          known.names ⊆ names ∧ ∀ name ≠ childKey,
            (known.child name).contents = (data.child name).contents := by
        cases optCompleteCache with
        | none =>
            refine ⟨server.node, rfl, hservernames, fun name hname => ?_⟩
            rw [Tree.contents_child_eq hserver, Tree.set_cons, Tree.child_setChild_ne hname]
        | some known => exact ⟨known, rfl, hknown known rfl, hagrees known rfl⟩
      obtain ⟨known, hor, hknownnames, hsame⟩ := hsource
      have hfollows : Follows filter data view.cachedEventSnap.indexedNode childKey names
          (some known) := by
        refine ⟨h.event, hnames, hpath childKey rfl, hdata, ?_, ?_⟩
        · intro other hother
          obtain rfl := Option.some.inj hother
          exact hknownnames
        · intro boundary _ entry hname _
          have hchildren := hsame entry.name hname
          have hempty := Tree.isEmpty_eq_of_contents hchildren
          change entry ∈ entries known ↔ _
          rw [mem_entries, mem_entries, ← Tree.isEmpty_eq_false_iff,
            ← Tree.isEmpty_eq_false_iff, hchildren, hempty]
      rw [hor] at hresult ⊢
      refine ⟨_, hresult, ?_, hfollows.reports child childPath⟩
      refine (hfollows.updateChildIn (affectedAt_of_set hcontents)).congr ?_
      exact Tree.contents_setChild_congr rfl hcontents childKey

/-- **An overwrite of the data passes through to the window.** -/
theorem HoldsWindow.overwrite (h : HoldsWindow filter data view) (hnames : Distinguished names)
    {path : List String} {snap : FNode} (hdata : data.names ⊆ names)
    (hdata' : (data.set path snap).names ⊆ names)
    (hpath : ∀ childKey ∈ path.head?, childKey ∈ names)
    {optCompleteCache : Option FNode} (hagrees : AgreesElsewhere optCompleteCache data path)
    (hknown : ∀ known ∈ optCompleteCache, known.names ⊆ names) :
    ∃ view' changeMap, FViewProcessor.applyOperationOn (.limited filter) view
        (.overwrite false path snap) optCompleteCache =
          some (view', changeMap, FViewProcessor.maybeAddValue view view' changeMap) ∧
      HoldsWindow filter (data.set path snap) view' ∧
      Tracked view.cachedEventSnap.node view'.cachedEventSnap.node changeMap := by
  obtain ⟨server, hcache, hserver⟩ := h.newServerCache path snap
  obtain ⟨result, hresult, hwindow, hreports⟩ :=
    h.newEventCache hnames hdata hdata' hpath hserver hagrees hknown
  obtain ⟨changeMap, htrack, htracked⟩ := hreports.tracked
  refine ⟨⟨⟨result.1, true, true⟩, ⟨server, true, false⟩⟩, changeMap, ?_,
    ⟨rfl, rfl, hserver, rfl, rfl, hwindow⟩, htracked⟩
  simp only [FViewCache.updateServerSnap] at hresult
  simp only [FViewProcessor.applyOperationOn, FViewProcessor.applyServerOverwriteTo,
    FViewProcessor.generateEventCacheAfterServerEvent, h.serverUnfiltered, h.serverComplete,
    Bool.false_and, Bool.or_self, Bool.false_eq_true, if_false, FNodeFilter.indexedFilter,
    FNodeFilter.index, hcache, FNodeFilter.filtersNodes, FViewCache.completeServerSnap,
    FViewCache.updateServerSnap, FViewCache.updateEventSnap, FCacheNode.node, Bool.true_or,
    if_true, hresult, htrack, h.eventComplete, Option.map_some]

end View

/-! ## Many overwrites -/

section Runs

variable {filter : FLimitedFilter} {names : List String} {data : FNode} {view : FViewCache}

/-- An overwrite, and the complete cache that is handed over with it. -/
structure Overwrite where
  path : List String
  snap : FNode
  optCompleteCache : Option FNode

/-- The overwrites one after another, and the value after each, if any. -/
def applyOverwrites (filter : FNodeFilter) : FViewCache → List Overwrite →
    Option (FViewCache × List (Option FIndexedNode))
  | view, [] => some (view, [])
  | view, write :: writes => do
      let (view', _, value) ← FViewProcessor.applyOperationOn filter view
        (.overwrite false write.path write.snap) write.optCompleteCache
      let (view'', values) ← applyOverwrites filter view' writes
      pure (view'', value :: values)

/-- The data of the server after each overwrite. -/
def dataAfter (data : FNode) : List Overwrite → List FNode
  | [] => []
  | write :: writes =>
      data.set write.path write.snap :: dataAfter (data.set write.path write.snap) writes

/-- The names are among those given, and a complete cache that is handed over is the one
before the overwrite. -/
def Handed (names : List String) : FNode → List Overwrite → Prop
  | _, [] => True
  | data, write :: writes =>
      (∀ childKey ∈ write.path.head?, childKey ∈ names) ∧
      (data.set write.path write.snap).names ⊆ names ∧
      (∀ known ∈ write.optCompleteCache, known.contents = data.contents) ∧
      Handed names (data.set write.path write.snap) writes

theorem HoldsWindow.contents_event (h : HoldsWindow filter data view)
    (hnames : Distinguished data.names) :
    view.cachedEventSnap.node.contents = (filter.queryResult data).contents := by
  have hscratch : Window filter data ⟨filter.queryResult data, filter.index⟩ :=
    window_queryResult hnames
  have hunique := h.event.unique hscratch
  exact hunique

/-- The same from a view that holds the first data. -/
theorem HoldsWindow.follows (hnames : Distinguished names) (hdata : data.names ⊆ names)
    (h : HoldsWindow filter data view) {writes : List Overwrite}
    (hhanded : Handed names data writes) :
    ∃ view' values, applyOverwrites (.limited filter) view writes = some (view', values) ∧
      view'.cachedEventSnap.node.contents =
        (filter.queryResult ((dataAfter data writes).getLastD data)).contents ∧
      Known filter data (dataAfter data writes) values := by
  induction writes generalizing data view with
  | nil => exact ⟨view, [], rfl, h.contents_event (hnames.mono hdata), trivial⟩
  | cons write writes ih =>
      obtain ⟨hpath, hdata', hcache, hhanded⟩ := hhanded
      have hagrees : AgreesElsewhere write.optCompleteCache data write.path := by
        cases hcases : write.path with
        | nil => trivial
        | cons childKey childPath =>
            exact fun known hknown name _ => Tree.contents_child_eq (hcache known hknown) name
      have hknown : ∀ known ∈ write.optCompleteCache, known.names ⊆ names :=
        fun known hmem name hname =>
          hdata ((Tree.names_perm_of_contents (hcache known hmem)).subset hname)
      obtain ⟨view', changeMap, hstep, hholds, htracked⟩ :=
        h.overwrite hnames hdata hdata' hpath hagrees hknown
      obtain ⟨view'', values, hrun, hlast, hknows⟩ := ih hdata' hholds hhanded
      have hbefore := h.contents_event (hnames.mono hdata)
      have hafter := hholds.contents_event (hnames.mono hdata')
      have hvalue := htracked.value h.eventComplete hholds.eventComplete h.event.branch
        hholds.event.branch
      refine ⟨view'', FViewProcessor.maybeAddValue view view' changeMap :: values, ?_, ?_, ?_,
        ?_, hknows⟩
      · rw [applyOverwrites, hstep]
        simp only [Option.bind_eq_bind, Option.bind_some, hrun]
        rfl
      · rw [dataAfter, List.getLastD_cons]
        exact hlast
      · rw [hvalue, ← hbefore, ← hafter,
          ← htracked.nil_iff h.event.branch hholds.event.branch]
        cases changeMap <;> simp
      · intro snap hsnap
        rw [hvalue] at hsnap
        split at hsnap
        · cases hsnap
        · obtain rfl := Option.some.inj hsnap
          exact ⟨hholds.event.index, hafter⟩

/-- The whole data is the first thing that the server sends. -/
theorem holds_first (hnames : Distinguished data.names) :
    ∃ view' changeMap, FViewProcessor.applyOperationOn (.limited filter) (freshView filter)
        (.overwrite false [] data) none =
          some (view', changeMap, some view'.cachedEventSnap.indexedNode) ∧
      HoldsWindow filter data view' := by
  have hwindow := @updateFullNode_window filter ⟨Tree.empty, filter.index⟩ data hnames
  have hreports : Reports
      (filter.updateFullNode ⟨Tree.empty, filter.index⟩ ⟨data, filter.index⟩).2 Tree.empty
      (filter.updateFullNode ⟨Tree.empty, filter.index⟩ ⟨data, filter.index⟩).1.node :=
    reports_updateFullNode _ _
  obtain ⟨changeMap, htrack, -⟩ := hreports.tracked
  refine ⟨⟨⟨(filter.updateFullNode ⟨Tree.empty, filter.index⟩ ⟨data, filter.index⟩).1, true,
    true⟩, ⟨⟨data, filter.index⟩, true, false⟩⟩, changeMap, ?_,
    ⟨rfl, rfl, rfl, rfl, rfl, hwindow⟩⟩
  have hresult : FViewProcessor.newEventCache (.limited filter)
      ((freshView filter).updateServerSnap ⟨data, filter.index⟩ true false) []
        (some data) = filter.updateFullNode ⟨Tree.empty, filter.index⟩ ⟨data, filter.index⟩ := rfl
  simp only [FViewCache.updateServerSnap, freshView] at hresult
  simp only [FViewProcessor.applyOperationOn, FViewProcessor.applyServerOverwriteTo,
    FViewProcessor.generateEventCacheAfterServerEvent, FViewProcessor.newServerCache, freshView,
    FNodeFilter.indexedFilter, FNodeFilter.updateFullNode, FIndexedFilter.updateFullNode,
    FNodeFilter.index, FNodeFilter.filtersNodes, FViewCache.completeServerSnap,
    FViewCache.updateServerSnap, FViewCache.updateEventSnap, FCacheNode.node,
    FViewProcessor.maybeAddValue, Bool.false_and, Bool.or_self, Bool.false_eq_true, if_false,
    List.isEmpty_nil, Bool.or_true, if_true, Option.none_or, hresult,
    htrack, Option.map_some]
  simp

/-- **The view of a query over complete data follows it**: any overwrites, at any paths,
leave the view with what the query makes of the data from scratch, and the observers get
the new result exactly when it has changed. -/
theorem complete_view_follows (hnames : Distinguished names) (hdata : data.names ⊆ names)
    {writes : List Overwrite} (hhanded : Handed names data writes) :
    ∃ view' value values, applyOverwrites (.limited filter) (freshView filter)
        (⟨[], data, none⟩ :: writes) = some (view', some value :: values) ∧
      value.index = filter.index ∧ value.node.contents = (filter.queryResult data).contents ∧
      view'.cachedEventSnap.node.contents =
        (filter.queryResult ((dataAfter data writes).getLastD data)).contents ∧
      Known filter data (dataAfter data writes) values := by
  obtain ⟨view, changeMap, hfirst, hholds⟩ := @holds_first filter data (hnames.mono hdata)
  obtain ⟨view', values, hrun, hlast, hknown⟩ := hholds.follows hnames hdata hhanded
  refine ⟨view', view.cachedEventSnap.indexedNode, values, ?_, hholds.event.index,
    hholds.contents_event (hnames.mono hdata), hlast, hknown⟩
  rw [applyOverwrites, hfirst]
  simp only [Option.bind_eq_bind, Option.bind_some, hrun]
  rfl

end Runs

/-- Cy leaves, and Ann takes his place; then Bob's leaves change. -/
theorem complete_view_follows_cy :
    ∃ view' value values, applyOverwrites (.limited topTwo) (freshView topTwo)
        [⟨[], leavesOf [("ann", 3), ("bob", 5), ("cy", 7)], none⟩,
          ⟨["cy"], Tree.empty, some (leavesOf [("ann", 3), ("bob", 5), ("cy", 7)])⟩,
          ⟨["bob", "allTimeLeaves"], Tree.leaf (.int 1), none⟩] =
            some (view', some value :: values) ∧
      value.index = topTwo.index ∧
      value.node.contents =
        (topTwo.queryResult (leavesOf [("ann", 3), ("bob", 5), ("cy", 7)])).contents ∧
      view'.cachedEventSnap.node.contents = (topTwo.queryResult
        (((leavesOf [("ann", 3), ("bob", 5), ("cy", 7)]).set ["cy"] Tree.empty).set
          ["bob", "allTimeLeaves"] (Tree.leaf (.int 1)))).contents ∧
      Known topTwo (leavesOf [("ann", 3), ("bob", 5), ("cy", 7)])
        (dataAfter (leavesOf [("ann", 3), ("bob", 5), ("cy", 7)])
          [⟨["cy"], Tree.empty, some (leavesOf [("ann", 3), ("bob", 5), ("cy", 7)])⟩,
            ⟨["bob", "allTimeLeaves"], Tree.leaf (.int 1), none⟩]) values := by
  refine complete_view_follows distinguished_three (by decide +kernel)
    ⟨by simp, by decide +kernel, ?_, by simp, by decide +kernel, by simp, trivial⟩
  rintro known ⟨⟩
  rfl

end WillItRecycle

import WillItRecycle.TaggedView
import WillItRecycle.OpenDashboard

/-!
# The query of the leaderboard

The dashboard observes `users`, ordered by `allTimeLeaves`, the last 15 of them.  Each
call of `populateDashboard` observes them once more, `viewDidLoad` with the first call
and every `viewWillAppear` with another, so that the first appearance alone adds two
observers.  A new observer gets what the view holds, if it is complete; every value of
the view goes to all of the observers.

However often the dashboard is populated between the messages of the server, its first
slots show the users who joined among the 15 greatest of the server's latest users,
greatest first, as long as every user that the server has can be shown: the observer
casts the name, the switch and the leaves of each (`dashboard_follows`).
-/

namespace WillItRecycle

open PathTree LastWindow TopRanked

/-! ## The query -/

/-- `queryOrdered(byChild: "allTimeLeaves").queryLimited(toLast: 15)` -/
def leaderboardQuery : FLimitedFilter :=
  FLimitedFilter.initWithQueryParams orderedByLeaves 15 false (Nat.succ_pos 14)

/-- `snapshot.children.allObjects` -/
def allObjects (snap : FIndexedNode) : List DataSnapshot :=
  snap.childEnumerator.map fun child => ⟨child.name, child.node⟩

/-- The users that the server has. -/
def usersOf (data : FNode) : List DataSnapshot :=
  data.names.map fun uid => ⟨uid, data.child uid⟩

/-- What the dashboard casts of a user can be cast, and the leaves are a number. -/
structure Ranked (user : FNode) : Prop where
  listed : Listed user
  leaves : ∃ leaves, (user.child "allTimeLeaves").value? = some (.int leaves)

def DataSnapshot.entry (snap : DataSnapshot) : ChildEntry := ⟨snap.key, snap.value.contents⟩

section Contents

variable {user other : FNode}

theorem asInt_congr (h : user.contents = other.contents) : asInt user = asInt other := by
  rw [asInt, asInt, Tree.value?_eq_of_contents h]

theorem asString_congr (h : user.contents = other.contents) :
    asString user = asString other := by
  rw [asString, asString, Tree.value?_eq_of_contents h]

theorem Ranked.congr (hranked : Ranked user) (h : user.contents = other.contents) :
    Ranked other := by
  have hchild := fun name => Tree.contents_child_eq h name
  refine ⟨⟨?_, ?_, ?_⟩, ?_⟩
  · rw [← asString_congr (hchild "displayName")]
    exact hranked.listed.displayName
  · rw [← asInt_congr (hchild "leaderboard")]
    exact hranked.listed.leaderboard
  · rw [← asInt_congr (hchild "allTimeLeaves")]
    exact hranked.listed.allTimeLeaves
  · rw [← Tree.value?_eq_of_contents (hchild "allTimeLeaves")]
    exact hranked.leaves

theorem joined_congr (uid : String) (h : user.contents = other.contents) :
    DataSnapshot.joined ⟨uid, user⟩ = DataSnapshot.joined ⟨uid, other⟩ := by
  rw [DataSnapshot.joined, DataSnapshot.joined, asInt_congr (Tree.contents_child_eq h _)]

theorem slot_congr (uid : String) (h : user.contents = other.contents) :
    DataSnapshot.slot ⟨uid, user⟩ = DataSnapshot.slot ⟨uid, other⟩ := by
  rw [DataSnapshot.slot, DataSnapshot.slot, DataSnapshot.allTimeLeaves,
    DataSnapshot.allTimeLeaves, asInt_congr (Tree.contents_child_eq h _),
    asString_congr (Tree.contents_child_eq h _)]

end Contents

/-! ## The order of the users -/

/-- A user who comes later has no fewer leaves. -/
theorem allTimeLeaves_le_of_later {snap other : DataSnapshot} (hsnap : Ranked snap.value)
    (hother : Ranked other.value)
    (h : leaderboardQuery.index.Later false snap.entry other.entry) :
    other.allTimeLeaves ≤ snap.allTimeLeaves := by
  obtain ⟨leaves, hleaves⟩ := hsnap.leaves
  obtain ⟨otherLeaves, hotherLeaves⟩ := hother.leaves
  have hcompare : leaderboardQuery.index.compareNamedNode ⟨snap.key, snap.value⟩
      ⟨other.key, other.value⟩ = .gt := by
    rw [FPathIndex.compareNamedNode_eq]
    exact h
  have hsnapInt : snap.allTimeLeaves = leaves := by
    simp [DataSnapshot.allTimeLeaves, asInt, hleaves]
  have hotherInt : other.allTimeLeaves = otherLeaves := by
    simp [DataSnapshot.allTimeLeaves, asInt, hotherLeaves]
  have hnode : compareNode (snap.value.get leaderboardQuery.index.path)
      (other.value.get leaderboardQuery.index.path) = compare leaves otherLeaves := by
    change compareNode (snap.value.child "allTimeLeaves") (other.value.child "allTimeLeaves") = _
    rw [compareNode, hleaves, hotherLeaves]
    rfl
  rw [FPathIndex.compareNamedNode, hnode] at hcompare
  rw [hsnapInt, hotherInt]
  by_contra hlt
  rw [Int.compare_eq_lt.mpr (Int.not_le.mp hlt)] at hcompare
  cases hcompare

/-- The users of a window, as the data has them, greatest first. -/
def topOf (data : FNode) (snap : FIndexedNode) : List DataSnapshot :=
  snap.childEnumerator.reverse.map fun child => ⟨child.name, data.child child.name⟩

section Top

variable {data : FNode} {snap : FIndexedNode}

theorem matching_leaderboard (data : FNode) : leaderboardQuery.matching data = entries data := by
  refine Finset.filter_true_of_mem fun entry _ => ⟨?_, ?_⟩
  · rintro post ⟨⟩
  · rintro post ⟨⟩

/-- The children that are read are those of the data. -/
theorem Window.read (h : Window leaderboardQuery data snap) {child : FNamedNode}
    (hchild : child ∈ snap.childEnumerator) :
    child.name ∈ data.names ∧ child.node.contents = (data.child child.name).contents ∧
      child.entry ∈ entries snap.node := by
  obtain ⟨hname, hnode⟩ := mem_childEnumerator.mp hchild
  have hmem : child.entry ∈ entries snap.node :=
    mem_entries.mpr ⟨Tree.mem_names_iff.mp hname, congrArg Tree.contents hnode⟩
  have hdata := h.last.subset hmem
  rw [matching_leaderboard] at hdata
  exact ⟨Tree.mem_names_iff.mpr (mem_entries.mp hdata).1, (mem_entries.mp hdata).2, hmem⟩

theorem names_topOf_append (hsub : snap.node.names ⊆ data.names) :
    (snap.childEnumerator.reverse.map FNamedNode.name ++
      data.names.filter fun uid => uid ∉ snap.node.names).Perm data.names := by
  have hread : ∀ uid, uid ∈ snap.childEnumerator.reverse.map FNamedNode.name ↔
      uid ∈ snap.node.names := by
    intro uid
    rw [List.map_reverse, List.mem_reverse, List.mem_map]
    constructor
    · rintro ⟨child, hchild, rfl⟩
      exact (mem_childEnumerator.mp hchild).1
    · exact fun huid => ⟨⟨uid, snap.node.child uid⟩, mem_childEnumerator.mpr ⟨huid, rfl⟩, rfl⟩
  refine (List.perm_ext_iff_of_nodup ?_ data.nodup_names).mpr fun uid => ?_
  · refine List.nodup_append.mpr ⟨?_, data.nodup_names.filter _, ?_⟩
    · rw [List.map_reverse, List.nodup_reverse]
      exact nodup_childEnumerator snap
    · rintro uid hin _ hout rfl
      have hnot := (List.mem_filter.mp hout).2
      simp [(hread uid).mp hin] at hnot
  · rw [List.mem_append, hread, List.mem_filter]
    constructor
    · rintro (hin | ⟨hin, -⟩)
      · exact hsub hin
      · exact hin
    · intro hin
      by_cases hsnap : uid ∈ snap.node.names
      · exact Or.inl hsnap
      · exact Or.inr ⟨hin, by simpa using hsnap⟩

/-- **The window of the query holds the 15 greatest users.** -/
theorem Window.top (h : Window leaderboardQuery data snap) (hnames : Distinguished data.names)
    (hranked : ∀ uid ∈ data.names, Ranked (data.child uid)) :
    Top DataSnapshot.allTimeLeaves 15 (usersOf data) (topOf data snap) := by
  have hsub : snap.node.names ⊆ data.names := by
    intro uid huid
    exact (h.read (mem_childEnumerator.mpr ⟨huid, rfl⟩ :
      (⟨uid, snap.node.child uid⟩ : FNamedNode) ∈ snap.childEnumerator)).1
  refine ⟨?_, ?_, ?_⟩
  · have hcard := h.last.card
    rw [matching_leaderboard, card_entries, card_entries] at hcard
    have hlength : snap.childEnumerator.length = snap.node.names.length := by
      rw [FIndexedNode.childEnumerator, List.length_insertionSort, List.length_map]
    rw [topOf, usersOf, List.length_map, List.length_reverse, List.length_map, hlength, hcard]
    rfl
  · have hsorted := enumerate_later snap hnames hsub false
    refine List.pairwise_map.mpr (List.pairwise_reverse.mpr (hsorted.imp_of_mem ?_))
    intro a b ha hb hlater
    obtain ⟨hauid, hacontents, -⟩ := h.read ha
    obtain ⟨hbuid, hbcontents, -⟩ := h.read hb
    refine allTimeLeaves_le_of_later (hranked _ hbuid) (hranked _ hauid) ?_
    rw [h.index] at hlater
    simp only [DataSnapshot.entry, ← hacontents, ← hbcontents]
    exact hlater
  · let rest := (data.names.filter fun uid => uid ∉ snap.node.names).map fun uid =>
      (⟨uid, data.child uid⟩ : DataSnapshot)
    refine ⟨rest, ?_, ?_⟩
    · have hperm := (names_topOf_append hsub).map fun uid => (⟨uid, data.child uid⟩ : DataSnapshot)
      rw [List.map_append, List.map_map] at hperm
      exact hperm
    · intro user huser other hother
      obtain ⟨child, hchild, rfl⟩ := List.mem_map.mp huser
      obtain ⟨uid, huid, rfl⟩ := List.mem_map.mp hother
      obtain ⟨hout, hnot⟩ := List.mem_filter.mp huid
      obtain ⟨hcuid, hccontents, hmem⟩ := h.read (List.mem_reverse.mp hchild)
      have hmatching : childEntry data uid ∈ leaderboardQuery.matching data := by
        rw [matching_leaderboard]
        exact mem_entries.mpr ⟨Tree.mem_names_iff.mp hout, rfl⟩
      have houtside : childEntry data uid ∉ entries snap.node := by
        intro hin
        have hthere := Tree.mem_names_iff.mpr (mem_entries.mp hin).1
        exact (of_decide_eq_true hnot) hthere
      refine allTimeLeaves_le_of_later (hranked _ hcuid) (hranked _ hout) ?_
      have hlater := h.last.last _ hmatching houtside _ hmem
      simp only [DataSnapshot.entry, ← hccontents]
      exact hlater

end Top

/-! ## What a value shows -/

/-- The slots look at the contents of the users only. -/
theorem slots_congr {users others : List DataSnapshot}
    (h : users.map DataSnapshot.entry = others.map DataSnapshot.entry) :
    (users.filter DataSnapshot.joined).map DataSnapshot.slot =
      (others.filter DataSnapshot.joined).map DataSnapshot.slot := by
  induction users generalizing others with
  | nil =>
      cases others with
      | nil => rfl
      | cons other others => cases h
  | cons user users ih =>
      cases others with
      | nil => cases h
      | cons other others =>
          obtain ⟨uid, value⟩ := user
          obtain ⟨otherUid, otherValue⟩ := other
          obtain ⟨hentry, hrest⟩ := List.cons.inj h
          obtain ⟨rfl, hcontents⟩ := ChildEntry.mk.inj hentry
          rw [List.filter_cons, List.filter_cons, joined_congr uid hcontents]
          split
          · rw [List.map_cons, List.map_cons, slot_congr uid hcontents, ih hrest]
          · exact ih hrest

/-- Equal contents are read in the same order. -/
theorem entries_enumerator {snap other : FIndexedNode} {names : List String}
    (hnames : Distinguished names) (hsub : snap.node.names ⊆ names)
    (hindex : snap.index = other.index) (h : snap.node.contents = other.node.contents) :
    snap.childEnumerator.map FNamedNode.entry = other.childEnumerator.map FNamedNode.entry := by
  have hother : other.node.names ⊆ names := fun name hname =>
    hsub ((Tree.names_perm_of_contents h).symm.subset hname)
  have hsorted : ∀ snap : FIndexedNode, snap.node.names ⊆ names →
      (snap.childEnumerator.map FNamedNode.entry).Pairwise fun a b =>
        snap.index.Later false b a := fun snap hsnap =>
    List.pairwise_map.mpr (enumerate_later snap hnames hsnap false)
  have hnodup : ∀ snap : FIndexedNode, (snap.childEnumerator.map FNamedNode.entry).Nodup := by
    intro snap
    have hkeys := nodup_childEnumerator snap
    refine List.Nodup.of_map ChildEntry.name ?_
    rw [List.map_map]
    exact hkeys
  have hperm : (snap.childEnumerator.map FNamedNode.entry).Perm
      (other.childEnumerator.map FNamedNode.entry) := by
    refine (List.perm_ext_iff_of_nodup (hnodup snap) (hnodup other)).mpr fun entry => ?_
    have hread := fun snap => @mem_entries_enumerate snap false entry
    rw [List.mem_map, List.mem_map]
    exact (hread snap).symm.trans (by rw [entries_congr h]; exact hread other)
  refine hperm.eq_of_pairwise ?_ (hsorted snap hsub) (hindex ▸ hsorted other hother)
  intro a b _ _ hba hab
  exact absurd hab hba.asymm

/-! ## The dashboard and its observers -/

/-- What ends the app: a trap, or the exception of the accumulator. -/
inductive Ended where
  | internalError
  | trap (trap : Trap)

/-- The view of the query, the observers that `populateDashboard` has added, and the
screen. -/
structure LeaderboardState where
  view : FViewCache
  observers : Nat
  dashboard : DashboardViewController

/-- A call of `populateDashboard`, by `viewDidLoad` or `viewWillAppear`, or a message of
the server, with the users that it has then. -/
inductive LeaderboardEvent where
  | populateDashboard
  | message (data : FNode) (operation : FOperation)

namespace LeaderboardState

/-- A value goes to all of the observers. -/
def observeAll (children : List DataSnapshot) :
    Nat → DashboardViewController → Except Trap DashboardViewController
  | 0, dashboard => .ok dashboard
  | observers + 1, dashboard => do
      let shown ← usersObserved children dashboard
      observeAll children observers shown

/-- A value, if any, for a number of observers. -/
def raise (value : Option FIndexedNode) (observers : Nat) (dashboard : DashboardViewController) :
    Except Ended DashboardViewController :=
  match value with
  | none => .ok dashboard
  | some snap =>
      match observeAll (allObjects snap) observers dashboard with
      | .ok shown => .ok shown
      | .error trap => .error (.trap trap)

/-- The value of `initialEvents:`, for the observer that is added. -/
def initialValue (view : FViewCache) : Option FIndexedNode :=
  if view.cachedEventSnap.isFullyInitialized then some view.cachedEventSnap.indexedNode else none

def step (state : LeaderboardState) : LeaderboardEvent → Except Ended LeaderboardState
  | .populateDashboard => do
      let shown ← raise (initialValue state.view) 1 state.dashboard
      .ok ⟨state.view, state.observers + 1, shown⟩
  | .message _ operation =>
      match FViewProcessor.applyOperationOn (.limited leaderboardQuery) state.view operation
          none with
      | none => .error .internalError
      | some (view, _, value) => do
          let shown ← raise value state.observers state.dashboard
          .ok ⟨view, state.observers, shown⟩

/-- Before the dashboard has been loaded. -/
def start (dashboard : DashboardViewController) : LeaderboardState :=
  ⟨freshView leaderboardQuery, 0, dashboard⟩

end LeaderboardState

open LeaderboardState

/-- The server's latest users after some events. -/
def latest : Option FNode → List LeaderboardEvent → Option FNode
  | data, [] => data
  | data, .populateDashboard :: events => latest data events
  | _, .message data _ :: events => latest (some data) events

/-- The server first sends the result of the query and then says how it changes. -/
def Serves : Option FNode → List LeaderboardEvent → Prop
  | _, [] => True
  | data, .populateDashboard :: events => Serves data events
  | none, .message data operation :: events =>
      (∃ snap, operation = .overwrite true [] snap ∧
        snap.contents = (leaderboardQuery.queryResult data).contents) ∧ Serves (some data) events
  | some before, .message data operation :: events =>
      Says (leaderboardQuery.queryResult before) (leaderboardQuery.queryResult data) operation ∧
        Serves (some data) events

/-- The first slots show the users who joined among the 15 greatest. -/
def ShowsTop (data : FNode) (dashboard : DashboardViewController) : Prop :=
  ∃ top, Top DataSnapshot.allTimeLeaves 15 (usersOf data) top ∧
    ∃ rest, dashboard.slots =
      ((top.filter DataSnapshot.joined).take 5).map DataSnapshot.slot ++ rest

/-! ## Every message reaches the screen -/

section Screen

variable {names : List String} {data : FNode} {view : FViewCache}

/-- Users that the dashboard can show. -/
structure Users (names : List String) (data : FNode) : Prop where
  names_sub : data.names ⊆ names
  ranked : ∀ uid ∈ data.names, Ranked (data.child uid)

theorem Mirrors.window (h : Mirrors leaderboardQuery view) (hnames : Distinguished data.names)
    (hserver : view.cachedServerSnap.node.contents =
      (leaderboardQuery.queryResult data).contents) :
    Window leaderboardQuery data view.cachedEventSnap.indexedNode := by
  have hscratch : Window leaderboardQuery data
      ⟨leaderboardQuery.queryResult data, leaderboardQuery.index⟩ := window_queryResult hnames
  have hentries : entries view.cachedEventSnap.indexedNode.node =
      entries (leaderboardQuery.queryResult data) := entries_congr (h.same.trans hserver)
  refine ⟨h.event.1, h.event.2, ?_⟩
  rw [hentries]
  exact hscratch.last

/-- The first slots show what the view holds. -/
def ShowsView (view : FViewCache) (dashboard : DashboardViewController) : Prop :=
  ∃ rest, dashboard.slots =
    (candidates (allObjects view.cachedEventSnap.indexedNode)).map DataSnapshot.slot ++ rest

theorem listed_allObjects {snap : FIndexedNode} (h : Window leaderboardQuery data snap)
    (husers : Users names data) : ∀ user ∈ allObjects snap, Listed user.value := by
  intro user huser
  obtain ⟨child, hchild, rfl⟩ := List.mem_map.mp huser
  obtain ⟨huid, hcontents, -⟩ := h.read hchild
  exact ((husers.ranked _ huid).congr hcontents.symm).listed

theorem observeAll_listed {children : List DataSnapshot}
    (hlisted : ∀ user ∈ children, Listed user.value) (observers : Nat)
    (dashboard : DashboardViewController) :
    ∃ shown, observeAll children observers dashboard = .ok shown ∧
      (0 < observers → ∃ rest, shown.slots =
        (candidates children).map DataSnapshot.slot ++ rest) := by
  induction observers generalizing dashboard with
  | zero => exact ⟨dashboard, rfl, fun hpos => absurd hpos (Nat.lt_irrefl 0)⟩
  | succ observers ih =>
      obtain ⟨once, honce, hslots⟩ := usersObserved_listed hlisted dashboard
      obtain ⟨shown, hshown, hrest⟩ := ih once
      refine ⟨shown, ?_, fun _ => ?_⟩
      · simp only [observeAll, honce, bind, Except.bind]
        exact hshown
      · cases observers with
        | zero =>
            obtain rfl := Except.ok.inj hshown
            rw [overlay_zero, DashboardViewController.length_slots, ← List.map_take] at hslots
            exact ⟨_, hslots⟩
        | succ observers => exact hrest (Nat.succ_pos observers)

theorem raise_some {snap : FIndexedNode} (h : Window leaderboardQuery data snap)
    (husers : Users names data) (observers : Nat) (dashboard : DashboardViewController) :
    ∃ shown, raise (some snap) observers dashboard = .ok shown ∧
      (0 < observers → ∃ rest, shown.slots =
        (candidates (allObjects snap)).map DataSnapshot.slot ++ rest) := by
  obtain ⟨shown, hshown, hslots⟩ :=
    observeAll_listed (listed_allObjects h husers) observers dashboard
  refine ⟨shown, ?_, hslots⟩
  rw [raise]
  simp only [hshown]

theorem slots_candidates {snap other : FIndexedNode}
    (h : snap.childEnumerator.map FNamedNode.entry =
      other.childEnumerator.map FNamedNode.entry) :
    (candidates (allObjects snap)).map DataSnapshot.slot =
      (candidates (allObjects other)).map DataSnapshot.slot := by
  have hentry : DataSnapshot.entry ∘ (fun child : FNamedNode => ⟨child.name, child.node⟩) =
      FNamedNode.entry := rfl
  have hreverse : (allObjects snap).reverse.map DataSnapshot.entry =
      (allObjects other).reverse.map DataSnapshot.entry := by
    rw [List.map_reverse, List.map_reverse, allObjects, allObjects, List.map_map, List.map_map,
      hentry, h]
  rw [candidates, candidates, List.map_take, List.map_take, slots_congr hreverse]

/-- A view that holds the same shows the same. -/
theorem ShowsView.congr {before after : FViewCache} {dashboard : DashboardViewController}
    (h : ShowsView before dashboard) (hnames : Distinguished names)
    (hsub : before.cachedEventSnap.node.names ⊆ names)
    (hindex : before.cachedEventSnap.indexedNode.index =
      after.cachedEventSnap.indexedNode.index)
    (hsame : before.cachedEventSnap.node.contents = after.cachedEventSnap.node.contents) :
    ShowsView after dashboard := by
  obtain ⟨rest, hslots⟩ := h
  refine ⟨rest, ?_⟩
  rw [hslots, slots_candidates (entries_enumerator hnames hsub hindex hsame)]

/-- What the view holds are the greatest users of the data. -/
theorem ShowsView.top {dashboard : DashboardViewController} (h : ShowsView view dashboard)
    (hwindow : Window leaderboardQuery data view.cachedEventSnap.indexedNode)
    (hnames : Distinguished data.names) (husers : Users names data) :
    ShowsTop data dashboard := by
  obtain ⟨rest, hslots⟩ := h
  refine ⟨_, hwindow.top hnames husers.ranked, rest, ?_⟩
  have hentries : (allObjects view.cachedEventSnap.indexedNode).reverse.map DataSnapshot.entry =
      (topOf data view.cachedEventSnap.indexedNode).map DataSnapshot.entry := by
    rw [allObjects, topOf, ← List.map_reverse, List.map_map, List.map_map]
    refine List.map_congr_left fun child hchild => ChildEntry.ext rfl ?_
    exact (hwindow.read (List.mem_reverse.mp hchild)).2.1
  rw [hslots, candidates, List.map_take, List.map_take, slots_congr hentries]

/-- What holds between the events: the view follows the server, and once there are
observers the screen shows what the view holds. -/
def InStep (names : List String) : Option FNode → LeaderboardState → Prop
  | none, state => state.view = freshView leaderboardQuery
  | some data, state =>
      Users names data ∧ Mirrors leaderboardQuery state.view ∧
        state.view.cachedServerSnap.node.contents =
          (leaderboardQuery.queryResult data).contents ∧
        (0 < state.observers → ShowsView state.view state.dashboard)

theorem InStep.populateDashboard (hnames : Distinguished names) {data : Option FNode}
    {state : LeaderboardState} (h : InStep names data state) :
    ∃ state', state.step .populateDashboard = .ok state' ∧ InStep names data state' := by
  cases data with
  | none =>
      refine ⟨⟨state.view, state.observers + 1, state.dashboard⟩, ?_, h⟩
      have hview : state.view = freshView leaderboardQuery := h
      simp [LeaderboardState.step, initialValue, raise, hview, freshView, bind, Except.bind]
  | some data =>
      obtain ⟨husers, hmirrors, hserver, -⟩ := h
      have hwindow := hmirrors.window (hnames.mono husers.names_sub) hserver
      obtain ⟨shown, hraise, hslots⟩ := raise_some hwindow husers 1 state.dashboard
      refine ⟨⟨state.view, state.observers + 1, shown⟩, ?_, husers, hmirrors, hserver,
        fun _ => hslots Nat.one_pos⟩
      simp [LeaderboardState.step, initialValue, hmirrors.eventComplete, hraise, bind,
        Except.bind]

/-- A value of the view, once it has come to the screen. -/
theorem InStep.raised (hnames : Distinguished names) {data : FNode} (husers : Users names data)
    {state : LeaderboardState} {operation : FOperation} {changes : FChildChangeAccumulator}
    {value : FIndexedNode} {data' : FNode}
    (hstep : FViewProcessor.applyOperationOn (.limited leaderboardQuery) state.view operation
      none = some (view, changes, some value))
    (hmirrors : Mirrors leaderboardQuery view)
    (hserver : view.cachedServerSnap.node.contents =
      (leaderboardQuery.queryResult data).contents)
    (hvalue : value = view.cachedEventSnap.indexedNode) :
    ∃ state', state.step (.message data' operation) = .ok state' ∧
      InStep names (some data) state' := by
  subst hvalue
  have hwindow := hmirrors.window (hnames.mono husers.names_sub) hserver
  obtain ⟨shown, hraise, hslots⟩ := raise_some hwindow husers state.observers state.dashboard
  refine ⟨⟨view, state.observers, shown⟩, ?_, husers, hmirrors, hserver, hslots⟩
  simp [LeaderboardState.step, hstep, hraise, bind, Except.bind]

theorem InStep.firstMessage (hnames : Distinguished names) (husers : Users names data)
    {state : LeaderboardState} (h : InStep names none state) {snap : FNode}
    (hsnap : snap.contents = (leaderboardQuery.queryResult data).contents) :
    ∃ state', state.step (.message data (.overwrite true [] snap)) = .ok state' ∧
      InStep names (some data) state' := by
  have hview : state.view = freshView leaderboardQuery := h
  obtain ⟨view, changes, hstep, harrives⟩ := freshView_arrives hnames
    ((inWindow_queryResult hnames husers.names_sub).congr hsnap.symm)
  rw [← hview] at hstep
  exact InStep.raised hnames husers hstep harrives.mirrors (harrives.server.trans hsnap) rfl

theorem InStep.message (hnames : Distinguished names) (husers : Users names data)
    {before : FNode} {state : LeaderboardState} (h : InStep names (some before) state)
    {operation : FOperation}
    (htold : Says (leaderboardQuery.queryResult before) (leaderboardQuery.queryResult data)
      operation) :
    ∃ state', state.step (.message data operation) = .ok state' ∧
      InStep names (some data) state' := by
  obtain ⟨hbefore, hmirrors, hserver, hshows⟩ := h
  have hold := @inWindow_queryResult leaderboardQuery names hnames before hbefore.names_sub
  obtain ⟨view, changes, hstep, harrives⟩ := hmirrors.arrives hnames (hold.congr hserver.symm)
    (inWindow_queryResult hnames husers.names_sub) (htold.congr hserver)
  rw [harrives.value hmirrors] at hstep
  cases hchanges : changes.isEmpty with
  | false =>
      rw [hchanges] at hstep
      exact InStep.raised hnames husers hstep harrives.mirrors harrives.server rfl
  | true =>
      -- no value for the observers, but then the result is what they have already
      rw [hchanges] at hstep
      have hsame := (harrives.nil_iff hmirrors.event.2).mp (List.isEmpty_iff.mp hchanges)
      rw [← harrives.contents_event] at hsame
      refine ⟨⟨view, state.observers, state.dashboard⟩, ?_, husers, harrives.mirrors,
        harrives.server, fun hpos => ?_⟩
      · simp [LeaderboardState.step, hstep, raise, bind, Except.bind]
      · refine (hshows hpos).congr hnames (hold.congr ?_).names_sub
          (hmirrors.event.1.trans harrives.mirrors.event.1.symm) hsame.symm
        exact (hmirrors.same.trans hserver).symm

/-- What holds between the events holds after any of them. -/
theorem InStep.run (hnames : Distinguished names) {data : Option FNode}
    {state : LeaderboardState} (h : InStep names data state) {events : List LeaderboardEvent}
    (husers : ∀ data operation, .message data operation ∈ events → Users names data)
    (hserves : Serves data events) :
    ∃ final, EventRun.run LeaderboardState.step state events = .ok final ∧
      InStep names (latest data events) final := by
  induction events generalizing data state with
  | nil => exact ⟨state, rfl, h⟩
  | cons event events ih =>
      have hrest : ∀ data operation, .message data operation ∈ events → Users names data :=
        fun data operation hmem => husers data operation (List.mem_cons_of_mem event hmem)
      cases event with
      | populateDashboard =>
          obtain ⟨state', hstep, hinstep⟩ := h.populateDashboard hnames
          obtain ⟨final, hrun, hfinal⟩ := ih hinstep hrest hserves
          exact ⟨final, (EventRun.run_cons_of_step _ hstep events).trans hrun, hfinal⟩
      | message data' operation =>
          have hdata := husers data' operation List.mem_cons_self
          have hmessage : ∃ state', state.step (.message data' operation) = .ok state' ∧
              InStep names (some data') state' ∧ Serves (some data') events := by
            cases data with
            | none =>
                obtain ⟨⟨snap, rfl, hsnap⟩, hserves⟩ := hserves
                obtain ⟨state', hstep, hinstep⟩ := h.firstMessage hnames hdata hsnap
                exact ⟨state', hstep, hinstep, hserves⟩
            | some before =>
                obtain ⟨htold, hserves⟩ := hserves
                obtain ⟨state', hstep, hinstep⟩ := h.message hnames hdata htold
                exact ⟨state', hstep, hinstep, hserves⟩
          obtain ⟨state', hstep, hinstep, hserves'⟩ := hmessage
          obtain ⟨final, hrun, hfinal⟩ := ih hinstep hrest hserves'
          exact ⟨final, (EventRun.run_cons_of_step _ hstep events).trans hrun, hfinal⟩

end Screen

instance (user : FNode) : Decidable (Listed user) :=
  decidable_of_iff ((asString (user.child "displayName")).isSome ∧
      (asInt (user.child "leaderboard")).isSome ∧ (asInt (user.child "allTimeLeaves")).isSome)
    ⟨fun h => ⟨h.1, h.2.1, h.2.2⟩, fun h => ⟨h.displayName, h.leaderboard, h.allTimeLeaves⟩⟩

instance (node : FNode) : Decidable (∃ leaves, node.value? = some (.int leaves)) :=
  match hvalue : node.value? with
  | some (.int leaves) => isTrue ⟨leaves, rfl⟩
  | some (.bool _) | some (.string _) | none => isFalse (by simp)

instance (user : FNode) : Decidable (Ranked user) :=
  decidable_of_iff (Listed user ∧ ∃ leaves, (user.child "allTimeLeaves").value? =
      some (.int leaves))
    ⟨fun h => ⟨h.1, h.2⟩, fun h => ⟨h.listed, h.leaves⟩⟩

end WillItRecycle

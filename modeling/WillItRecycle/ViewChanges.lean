import WillItRecycle.ViewProcessor

/-!
# The changes of a view

`Tracks node node' changeMap` says that the accumulator holds what happened to the
children between two nodes.  Whatever a filter reports of one more step, the
accumulator takes it without an exception and tracks the two steps together
(`Tracks.trackAll`).
-/

namespace WillItRecycle

open PathTree

/-- A change says what happened to a child. -/
def FChange.Describes (change : FChange) (old new : FNode) : Prop :=
  match change.type with
  | .childAdded => old.isEmpty = true ∧ new.isEmpty = false ∧ change.node.contents = new.contents
  | .childRemoved =>
      old.isEmpty = false ∧ new.isEmpty = true ∧ change.node.contents = old.contents
  | .childChanged =>
      old.isEmpty = false ∧ new.isEmpty = false ∧ change.node.contents = new.contents ∧
        ∃ oldNode, change.oldNode = some oldNode ∧ oldNode.contents = old.contents

theorem FChange.Describes.congr {change : FChange} {old new old' new' : FNode}
    (h : change.Describes old new) (hold : old.contents = old'.contents)
    (hnew : new.contents = new'.contents) : change.Describes old' new' := by
  unfold FChange.Describes at h ⊢
  rwa [← hold, ← hnew, ← Tree.isEmpty_eq_of_contents hold, ← Tree.isEmpty_eq_of_contents hnew]

/-- The changes that a filter reports are what happened to the children. -/
structure Reports (changes : List FChange) (node node' : FNode) : Prop where
  nodup : (changes.map FChange.childKey).Nodup
  describes : ∀ change ∈ changes,
    change.Describes (node.child change.childKey) (node'.child change.childKey)
  changed : ∀ change ∈ changes,
    (node.child change.childKey).contents ≠ (node'.child change.childKey).contents
  others : ∀ name ∉ changes.map FChange.childKey,
    (node'.child name).contents = (node.child name).contents

theorem contents_eq_of_isEmpty {node other : FNode} (h : node.isEmpty = true)
    (hother : other.isEmpty = true) : node.contents = other.contents := by
  rw [Tree.isEmpty_iff.mp h, Tree.isEmpty_iff.mp hother]

/-- The change of one child. -/
theorem describes_childChange {childKey : String} {old new : FNode}
    (h : old.contents ≠ new.contents) :
    ∃ change, FIndexedFilter.childChange childKey old new = [change] ∧
      change.childKey = childKey ∧ change.Describes old new := by
  unfold FIndexedFilter.childChange
  cases hnew : new.isEmpty with
  | true =>
      have hold : old.isEmpty = false := by
        by_contra hempty
        exact h (contents_eq_of_isEmpty (Bool.not_eq_false _ ▸ hempty) hnew)
      simp [hold, hnew, FChange.Describes]
  | false =>
      cases hold : old.isEmpty with
      | true => simp [hold, hnew, FChange.Describes]
      | false => simp [hold, hnew, FChange.Describes]

theorem reports_nil {node node' : FNode} (h : node'.contents = node.contents) :
    Reports [] node node' :=
  ⟨List.nodup_nil, by simp, by simp, fun name _ => Tree.contents_child_eq h name⟩

theorem reports_childChange {childKey : String} {node : FNode} {new : FNode}
    (h : (node.child childKey).contents ≠ new.contents) :
    Reports (FIndexedFilter.childChange childKey (node.child childKey) new) node
      (node.setChild childKey new) := by
  obtain ⟨change, hlist, rfl, hdescribes⟩ := @describes_childChange childKey _ _ h
  rw [hlist]
  refine ⟨by simp, ?_, ?_, ?_⟩
  · intro other hother
    obtain rfl := List.mem_singleton.mp hother
    rw [Tree.child_setChild_same]
    exact hdescribes
  · intro other hother
    obtain rfl := List.mem_singleton.mp hother
    rw [Tree.child_setChild_same]
    exact h
  · intro name hname
    rw [Tree.child_setChild_ne (by simpa using hname)]

/-- The changes of several children. -/
theorem reports_flatMap {node node' : FNode} {keys : List String} (hnodup : keys.Nodup)
    (hchanged : ∀ name ∈ keys, (node.child name).contents ≠ (node'.child name).contents)
    (hothers : ∀ name ∉ keys, (node'.child name).contents = (node.child name).contents) :
    Reports (keys.flatMap fun childKey =>
      FIndexedFilter.childChange childKey (node.child childKey) (node'.child childKey))
      node node' := by
  have hsingle : ∀ name ∈ keys, ∃ change, FIndexedFilter.childChange name (node.child name)
      (node'.child name) = [change] ∧ change.childKey = name ∧
        change.Describes (node.child name) (node'.child name) :=
    fun name hname => describes_childChange (hchanged name hname)
  have hkeys : (keys.flatMap fun childKey => FIndexedFilter.childChange childKey
      (node.child childKey) (node'.child childKey)).map FChange.childKey = keys := by
    rw [List.map_flatMap]
    have hcongr : ∀ name ∈ keys, (FIndexedFilter.childChange name (node.child name)
        (node'.child name)).map FChange.childKey = [name] := by
      intro name hname
      obtain ⟨change, hlist, hkey, -⟩ := hsingle name hname
      rw [hlist, List.map_singleton, hkey]
    rw [List.flatMap_congr hcongr, List.flatMap_singleton']
  refine ⟨hkeys.symm ▸ hnodup, ?_, ?_, ?_⟩
  · intro change hchange
    obtain ⟨name, hname, hmem⟩ := List.mem_flatMap.mp hchange
    obtain ⟨other, hlist, rfl, hdescribes⟩ := hsingle name hname
    rw [hlist, List.mem_singleton] at hmem
    rw [hmem]
    exact hdescribes
  · intro change hchange
    refine hchanged _ ?_
    rw [← hkeys]
    exact List.mem_map_of_mem hchange
  · rw [hkeys]
    exact hothers

theorem reports_updateFullNode (oldSnap newSnap : FIndexedNode) :
    Reports (FIndexedFilter.updateFullNode oldSnap newSnap).2 oldSnap.node newSnap.node := by
  refine reports_flatMap ?_ ?_ ?_
  · refine List.nodup_append.mpr ⟨oldSnap.node.nodup_names.filter _,
      newSnap.node.nodup_names.filter _, ?_⟩
    rintro name hremoved _ hother rfl
    have hgone := (List.mem_filter.mp hremoved).2
    have hthere := Tree.mem_names_iff.mp (List.mem_filter.mp hother).1
    rw [← Tree.isEmpty_eq_false_iff] at hthere
    simp [hasChild, hthere] at hgone
  · intro name hname
    rcases List.mem_append.mp hname with hremoved | hother
    · obtain ⟨hold, hgone⟩ := List.mem_filter.mp hremoved
      have hthere := Tree.isEmpty_eq_false_iff.mpr (Tree.mem_names_iff.mp hold)
      intro heq
      rw [Tree.isEmpty_eq_of_contents heq] at hthere
      simp [hasChild, hthere] at hgone
    · have hunequal := (List.mem_filter.mp hother).2
      intro heq
      simp [Tree.isEqual_iff.mpr heq] at hunequal
  · intro name hname
    rw [List.mem_append, not_or, List.mem_filter, List.mem_filter] at hname
    obtain ⟨hnotRemoved, hnotOther⟩ := hname
    cases hnew : (newSnap.node.child name).isEmpty with
    | true =>
        refine contents_eq_of_isEmpty hnew ?_
        by_contra hthere
        rw [Bool.not_eq_true, Tree.isEmpty_eq_false_iff] at hthere
        exact hnotRemoved ⟨Tree.mem_names_iff.mpr hthere, by simp [hasChild, hnew]⟩
    | false =>
        rw [Tree.isEmpty_eq_false_iff] at hnew
        refine (Tree.isEqual_iff.mp ?_).symm
        by_contra hunequal
        exact hnotOther ⟨Tree.mem_names_iff.mpr hnew, by simpa using hunequal⟩

/-! ## The accumulator -/

/-- The accumulator holds what happened to the children between two nodes. -/
def Tracks (node node' : FNode) (changeMap : FChildChangeAccumulator) : Prop :=
  ∀ name, match changeMap.lookup name with
    | none => (node.child name).contents = (node'.child name).contents
    | some change => change.childKey = name ∧
        change.Describes (node.child name) (node'.child name)

theorem tracks_nil (node : FNode) : Tracks node node [] := fun _ => rfl

namespace FChildChangeAccumulator

theorem lookup_filter_self (changeMap : FChildChangeAccumulator) (name : String) :
    (changeMap.filter fun tracked => tracked.1 ≠ name).lookup name = none := by
  rw [List.lookup_eq_none_iff]
  intro tracked htracked
  have hne : tracked.1 ≠ name := by simpa using (List.mem_filter.mp htracked).2
  exact bne_iff_ne.mpr hne.symm

theorem lookup_filter_ne {name other : String} (hne : other ≠ name)
    (changeMap : FChildChangeAccumulator) :
    (changeMap.filter fun tracked => tracked.1 ≠ name).lookup other = changeMap.lookup other := by
  induction changeMap with
  | nil => rfl
  | cons tracked rest ih =>
      obtain ⟨key, change⟩ := tracked
      by_cases hkey : key = name
      · have hother : (other == key) = false := by simpa [hkey] using hne
        rw [List.filter_cons_of_neg (by simpa using hkey), ih, List.lookup_cons, hother]
      · rw [List.filter_cons_of_pos (by simpa using hkey), List.lookup_cons,
          List.lookup_cons, ih]

@[simp] theorem lookup_setObject_self (changeMap : FChildChangeAccumulator) (change : FChange) :
    (changeMap.setObject change).lookup change.childKey = some change := by
  simp [setObject]

theorem lookup_setObject_ne {change : FChange} {name : String} (hne : name ≠ change.childKey)
    (changeMap : FChildChangeAccumulator) :
    (changeMap.setObject change).lookup name = changeMap.lookup name := by
  have hbeq : (name == change.childKey) = false := beq_eq_false_iff_ne.mpr hne
  rw [setObject, List.lookup_cons, hbeq]
  exact lookup_filter_ne hne changeMap

/-- A change leaves what is tracked of the other children. -/
theorem lookup_trackChildChange {changeMap changeMap' : FChildChangeAccumulator}
    {change : FChange} (h : changeMap.trackChildChange change = some changeMap') {name : String}
    (hne : name ≠ change.childKey) : changeMap'.lookup name = changeMap.lookup name := by
  obtain ⟨type, childKey, new, oldNode⟩ := change
  have hset : ∀ type' node' oldNode', (changeMap.setObject
      ⟨type', childKey, node', oldNode'⟩).lookup name = changeMap.lookup name :=
    fun type' node' oldNode' =>
      @lookup_setObject_ne ⟨type', childKey, node', oldNode'⟩ name hne changeMap
  simp only [FChildChangeAccumulator.trackChildChange] at h
  split at h
  · obtain rfl := Option.some.inj h
    exact hset _ _ _
  · split at h
    · obtain rfl := Option.some.inj h
      exact hset _ _ _
    · obtain rfl := Option.some.inj h
      exact lookup_filter_ne hne changeMap
    · obtain rfl := Option.some.inj h
      exact hset _ _ _
    · obtain rfl := Option.some.inj h
      exact hset _ _ _
    · obtain rfl := Option.some.inj h
      exact hset _ _ _
    · cases h

theorem lookup_trackAll {changeMap changeMap' : FChildChangeAccumulator}
    {changes : List FChange} (h : changeMap.trackAll changes = some changeMap') {name : String}
    (hname : name ∉ changes.map FChange.childKey) :
    changeMap'.lookup name = changeMap.lookup name := by
  induction changes generalizing changeMap with
  | nil =>
      obtain rfl := Option.some.inj h
      rfl
  | cons change changes ih =>
      rw [List.map_cons, List.mem_cons, not_or] at hname
      rw [FChildChangeAccumulator.trackAll, List.foldlM_cons] at h
      obtain ⟨middle, hmiddle, hrest⟩ := Option.bind_eq_some_iff.mp h
      rw [ih hrest hname.2, lookup_trackChildChange hmiddle hname.1]

end FChildChangeAccumulator

open FChildChangeAccumulator

/-- A change takes the place of what was tracked of its child. -/
theorem Tracks.setObject {node node' node'' : FNode} {changeMap : FChildChangeAccumulator}
    (h : Tracks node node' changeMap) {change : FChange}
    (hothers : ∀ name ≠ change.childKey,
      (node''.child name).contents = (node'.child name).contents)
    (hdescribes : change.Describes (node.child change.childKey) (node''.child change.childKey)) :
    Tracks node node'' (changeMap.setObject change) := by
  intro name
  by_cases hname : name = change.childKey
  · subst hname
    rw [lookup_setObject_self]
    exact ⟨rfl, hdescribes⟩
  · rw [lookup_setObject_ne hname]
    have hbefore := h name
    cases hlook : changeMap.lookup name with
    | none =>
        rw [hlook] at hbefore
        exact hbefore.trans (hothers name hname).symm
    | some old =>
        rw [hlook] at hbefore
        exact ⟨hbefore.1, hbefore.2.congr rfl (hothers name hname).symm⟩

/-- A child that was added and is removed again is not tracked. -/
theorem Tracks.drop {node node' node'' : FNode} {changeMap : FChildChangeAccumulator}
    (h : Tracks node node' changeMap) {childKey : String}
    (hothers : ∀ name ≠ childKey, (node''.child name).contents = (node'.child name).contents)
    (hsame : (node.child childKey).contents = (node''.child childKey).contents) :
    Tracks node node'' (changeMap.filter fun tracked => tracked.1 ≠ childKey) := by
  intro name
  by_cases hname : name = childKey
  · subst hname
    rw [lookup_filter_self]
    exact hsame
  · rw [lookup_filter_ne hname]
    have hbefore := h name
    cases hlook : changeMap.lookup name with
    | none =>
        rw [hlook] at hbefore
        exact hbefore.trans (hothers name hname).symm
    | some old =>
        rw [hlook] at hbefore
        exact ⟨hbefore.1, hbefore.2.congr rfl (hothers name hname).symm⟩

/-- **One more change is tracked without an exception.** -/
theorem Tracks.trackChildChange {node node' node'' : FNode}
    {changeMap : FChildChangeAccumulator} (h : Tracks node node' changeMap) {change : FChange}
    (hothers : ∀ name ≠ change.childKey,
      (node''.child name).contents = (node'.child name).contents)
    (hdescribes : change.Describes (node'.child change.childKey)
      (node''.child change.childKey)) :
    ∃ changeMap', changeMap.trackChildChange change = some changeMap' ∧
      Tracks node node'' changeMap' := by
  obtain ⟨type, childKey, new, oldNode⟩ := change
  have hbefore := h childKey
  cases hlook : changeMap.lookup childKey with
  | none =>
      rw [hlook] at hbefore
      refine ⟨changeMap.setObject ⟨type, childKey, new, oldNode⟩, ?_,
        h.setObject hothers (hdescribes.congr hbefore.symm rfl)⟩
      simp [FChildChangeAccumulator.trackChildChange, hlook]
  | some oldChange =>
      rw [hlook] at hbefore
      obtain ⟨oldType, oldKey, old, oldOldNode⟩ := oldChange
      obtain ⟨rfl, hold⟩ := hbefore
      simp only [FChildChangeAccumulator.trackChildChange, hlook]
      -- between the two changes the child is there or not, which rules out the illegal ones
      cases oldType with
      | childAdded =>
          obtain ⟨hnone, hthere, -⟩ := hold
          cases type with
          | childAdded => exact absurd (hdescribes.1.symm.trans hthere) (by decide)
          | childRemoved =>
              obtain ⟨-, hgone, -⟩ := hdescribes
              exact ⟨_, rfl, h.drop hothers (contents_eq_of_isEmpty hnone hgone)⟩
          | childChanged =>
              obtain ⟨-, hstays, hnew, -⟩ := hdescribes
              exact ⟨_, rfl, h.setObject hothers ⟨hnone, hstays, hnew⟩⟩
      | childRemoved =>
          obtain ⟨hthere, hgone, hnode⟩ := hold
          cases type with
          | childAdded =>
              obtain ⟨-, hback, hnew⟩ := hdescribes
              exact ⟨_, rfl, h.setObject hothers ⟨hthere, hback, hnew, old, rfl, hnode⟩⟩
          | childRemoved => exact absurd (hdescribes.1.symm.trans hgone) (by decide)
          | childChanged => exact absurd (hdescribes.1.symm.trans hgone) (by decide)
      | childChanged =>
          obtain ⟨hthere, hstill, -, oldest, rfl, holdest⟩ := hold
          cases type with
          | childAdded => exact absurd (hdescribes.1.symm.trans hstill) (by decide)
          | childRemoved =>
              obtain ⟨-, hgone, -⟩ := hdescribes
              exact ⟨_, rfl, h.setObject hothers ⟨hthere, hgone, holdest⟩⟩
          | childChanged =>
              obtain ⟨-, hstays, hnew, -⟩ := hdescribes
              exact ⟨_, rfl, h.setObject hothers
                ⟨hthere, hstays, hnew, oldest, rfl, holdest⟩⟩

/-- **Whatever a filter reports is tracked without an exception.** -/
theorem Tracks.trackAll {node node' node'' : FNode} {changeMap : FChildChangeAccumulator}
    (h : Tracks node node' changeMap) {changes : List FChange}
    (hreports : Reports changes node' node'') :
    ∃ changeMap', changeMap.trackAll changes = some changeMap' ∧
      Tracks node node'' changeMap' := by
  induction changes generalizing node' changeMap with
  | nil =>
      refine ⟨changeMap, rfl, fun name => ?_⟩
      have hbefore := h name
      have hsame := hreports.others name List.not_mem_nil
      cases hlook : changeMap.lookup name with
      | none =>
          rw [hlook] at hbefore
          exact hbefore.trans hsame.symm
      | some change =>
          rw [hlook] at hbefore
          exact ⟨hbefore.1, hbefore.2.congr rfl hsame.symm⟩
  | cons change changes ih =>
      have hnodup := hreports.nodup
      rw [List.map_cons, List.nodup_cons] at hnodup
      obtain ⟨hname, hnodup⟩ := hnodup
      -- the node in which this one child has changed
      let middle := node'.setChild change.childKey (node''.child change.childKey)
      have hmiddle : ∀ name ≠ change.childKey, middle.child name = node'.child name :=
        fun name hne => Tree.child_setChild_ne hne _ _
      have hchanged : middle.child change.childKey = node''.child change.childKey :=
        Tree.child_setChild_same _ _ _
      have hfirst : change.Describes (node'.child change.childKey)
          (middle.child change.childKey) := by
        rw [hchanged]
        exact hreports.describes change List.mem_cons_self
      obtain ⟨changeMap', htrack, htracks⟩ := h.trackChildChange
        (fun name hne => congrArg Tree.contents (hmiddle name hne)) hfirst
      have hne : ∀ other ∈ changes, other.childKey ≠ change.childKey := by
        intro other hother heq
        exact hname (heq ▸ List.mem_map_of_mem hother)
      have hrest : Reports changes middle node'' := by
        refine ⟨hnodup, fun other hother => ?_, fun other hother => ?_, fun name hnot => ?_⟩
        · rw [hmiddle _ (hne other hother)]
          exact hreports.describes other (List.mem_cons_of_mem change hother)
        · rw [hmiddle _ (hne other hother)]
          exact hreports.changed other (List.mem_cons_of_mem change hother)
        · by_cases hsame : name = change.childKey
          · rw [hsame, hchanged]
          · rw [hmiddle name hsame]
            exact hreports.others name (by simp [hsame, hnot])
      obtain ⟨changeMap'', htrackAll, htracksAll⟩ := ih htracks hrest
      refine ⟨changeMap'', ?_, htracksAll⟩
      rw [FChildChangeAccumulator.trackAll, List.foldlM_cons, htrack]
      exact htrackAll

/-- Nothing is tracked only when nothing changed. -/
theorem Tracks.contents_eq {node node' : FNode} (h : Tracks node node' [])
    (hnode : node.isLeaf = false) (hnode' : node'.isLeaf = false) :
    node'.contents = node.contents := by
  refine Tree.contents_ext ?_ fun name => (h name).symm
  rw [Tree.value?_eq_none hnode, Tree.value?_eq_none hnode']

/-- The accumulator holds the children that have changed, and no others. -/
structure Tracked (node node' : FNode) (changeMap : FChildChangeAccumulator) : Prop where
  tracks : Tracks node node' changeMap
  changed : ∀ name, changeMap.lookup name ≠ none →
    (node.child name).contents ≠ (node'.child name).contents

theorem Reports.tracked {changes : List FChange} {node node' : FNode}
    (h : Reports changes node node') :
    ∃ changeMap, FChildChangeAccumulator.trackAll [] changes = some changeMap ∧
      Tracked node node' changeMap := by
  obtain ⟨changeMap, htrack, htracks⟩ := (tracks_nil node).trackAll h
  refine ⟨changeMap, htrack, htracks, fun name hname => ?_⟩
  by_cases htracked : name ∈ changes.map FChange.childKey
  · obtain ⟨change, hchange, rfl⟩ := List.mem_map.mp htracked
    exact h.changed change hchange
  · rw [FChildChangeAccumulator.lookup_trackAll htrack htracked] at hname
    exact absurd rfl hname

/-- Children are tracked exactly when the contents have changed. -/
theorem Tracked.nil_iff {node node' : FNode} {changeMap : FChildChangeAccumulator}
    (h : Tracked node node' changeMap) (hnode : node.isLeaf = false)
    (hnode' : node'.isLeaf = false) :
    changeMap = [] ↔ node'.contents = node.contents := by
  constructor
  · rintro rfl
    exact h.tracks.contents_eq hnode hnode'
  · intro hsame
    rw [List.eq_nil_iff_forall_not_mem]
    rintro ⟨name, change⟩ hmem
    refine h.changed name (fun hnone => ?_) (Tree.contents_child_eq hsame name).symm
    have hne := List.lookup_eq_none_iff.mp hnone _ hmem
    simp at hne

/-- **The observers get a value exactly when a child has changed.** -/
theorem Tracked.value {before after : FViewCache} {changeMap : FChildChangeAccumulator}
    (h : Tracked before.cachedEventSnap.node after.cachedEventSnap.node changeMap)
    (hbefore : before.cachedEventSnap.isFullyInitialized = true)
    (hafter : after.cachedEventSnap.isFullyInitialized = true)
    (hbranch : before.cachedEventSnap.node.isLeaf = false)
    (hbranch' : after.cachedEventSnap.node.isLeaf = false) :
    FViewProcessor.maybeAddValue before after changeMap =
      if changeMap.isEmpty then none else some after.cachedEventSnap.indexedNode := by
  unfold FViewProcessor.maybeAddValue
  simp only [hafter, hbefore, FViewCache.completeEventSnap]
  cases hchanges : changeMap.isEmpty with
  | false => simp
  | true =>
      obtain rfl := List.isEmpty_iff.mp hchanges
      have hsame := h.tracks.contents_eq hbranch hbranch'
      simp [Tree.isEqual_iff.mpr hsame]

end WillItRecycle

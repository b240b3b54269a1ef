import WillItRecycle.RedeemHistory
import WillItRecycle.ShortStyle
import WillItRecycle.SortedRows

/-!
# The recycling history

`RecycleHistoryViewController.swift`.  The screen reads the history in whatever
order Swift enumerates it and sorts its rows by the text of their dates.

The rows are in the order in which the items were redeemed exactly when the texts
of the dates compare as the moments do (`chronological_iff`).
-/

namespace WillItRecycle

open PathTree ReadCallback SortedRows

/-! ## The screen -/

/-- A row of the history as the screen keeps it: the item, how many of it, and the text of
the date. -/
structure RecycleHistoryItem where
  item : String
  count : String
  date : String
  deriving DecidableEq, Repr

/-- The rows of the screen of the history. -/
structure RecycleHistoryViewController where
  recycleHistoryData : List RecycleHistoryItem
  deriving DecidableEq, Repr

/-- `as? [String:[String:Any]]`, as the list of keys. -/
def asDictionaries (node : FNode) : Option (List String) :=
  (asDictionary node).filter fun keys => keys.all fun key => (asDictionary (node.child key)).isSome

/-- One round of the loop over the history. -/
def recycleHistoryItem (item : FNode) : Except Trap RecycleHistoryItem := do
  let name ← force .forceCast (asString (item.child "name"))
  let quantity ← force .forceCast (asInt (item.child "quantity"))
  let date ← force .forceCast (asString (item.child "date"))
  .ok ⟨name, toString quantity, date⟩

/-- The callback of `viewDidLoad`; `$0.date < $1.date` compares texts. -/
def recycleHistoryRead (snapshot : Snapshot) (screen : RecycleHistoryViewController) :
    Except Trap RecycleHistoryViewController :=
  match snapshot with
  | .error => .ok screen
  | .value node order =>
      if node.isEmpty then .ok screen
      else
        match asDictionary node with
        | none => .ok screen
        | some _ =>
            match asDictionaries (node.child "history") with
            | none => .ok screen
            | some keys => do
                let items ← (enumerate order keys).mapM fun key =>
                  recycleHistoryItem ((node.child "history").child key)
                .ok ⟨sortRows RecycleHistoryItem.date (screen.recycleHistoryData ++ items)⟩

/-! ## What is stored -/

/-- What REDEEM stores for one item. -/
structure HistoryEntry where
  key : String
  moment : Moment
  name : String
  quantity : Int

namespace HistoryEntry

/-- What REDEEM stores of an entry below its key. -/
def node (entry : HistoryEntry) : FNode :=
  historyItem entry.moment.dateString entry.name entry.quantity

/-- What the screen shows of it. -/
def row (entry : HistoryEntry) : RecycleHistoryItem :=
  ⟨entry.name, toString entry.quantity, entry.moment.dateString⟩

/-- The write that stores an entry below `history`. -/
def write (uid : Uid) (entry : HistoryEntry) : Write :=
  setValue uid ["history", entry.key] entry.node

end HistoryEntry

/-- A tap on REDEEM at some moment. -/
structure Redeem where
  moment : Moment
  quantities : Quantities
  autoId : Nat → String

namespace Redeem

/-- The tap on REDEEM with these quantities, on this date. -/
def tap (redeem : Redeem) : RedeemTap :=
  ⟨redeem.quantities, redeem.moment.dateString, redeem.autoId⟩

/-- The entries a redeem stores, one for each item with a positive quantity, in the order
of the items. -/
def entries (redeem : Redeem) : List HistoryEntry :=
  (positiveItems redeem.quantities).map fun i =>
    ⟨redeem.autoId i.val, redeem.moment, (manualEntryData.get i).name, redeem.quantities i⟩

/-- What a tap on REDEEM writes of the history are its entries. -/
theorem history_tap (redeem : Redeem) (uid : Uid) :
    redeem.tap.history uid = redeem.entries.map (HistoryEntry.write uid) := by
  unfold entries
  rw [List.map_map]
  rfl

end Redeem

/-- `childByAutoId` makes different names; until 2109 they start with a hyphen. -/
structure AutoIds (entries : List HistoryEntry) : Prop where
  nodup : (entries.map HistoryEntry.key).Nodup
  hyphen : ∀ entry ∈ entries, entry.key.toList.head? = some '-'

/-- A key that `childByAutoId` made is a name. -/
theorem AutoIds.ne_empty {entries : List HistoryEntry} (h : AutoIds entries)
    {entry : HistoryEntry} (hentry : entry ∈ entries) : entry.key ≠ "" := by
  intro hempty
  have hhead := h.hyphen entry hentry
  rw [hempty] at hhead
  cases hhead

/-- A key that `childByAutoId` made is not an integer, so the history is never exported as
an array. -/
theorem AutoIds.integerKey_eq {entries : List HistoryEntry} (h : AutoIds entries)
    {entry : HistoryEntry} (hentry : entry ∈ entries) : integerKey entry.key = none := by
  have hhead := h.hyphen entry hentry
  obtain ⟨rest, hchars⟩ := List.head?_eq_some_iff.mp hhead
  simp [integerKey, intForString, hchars]

/-- The keys of the first entries are such keys too. -/
theorem AutoIds.left {entries rest : List HistoryEntry} (h : AutoIds (entries ++ rest)) :
    AutoIds entries where
  nodup := by
    have hnodup := h.nodup
    rw [List.map_append] at hnodup
    exact hnodup.of_append_left
  hyphen := fun entry hentry => h.hyphen entry (List.mem_append_left rest hentry)

/-- `node` stores the entries below their keys. -/
structure StoresHistory (entries : List HistoryEntry) (node : FNode) : Prop where
  branch : node.isLeaf = false
  entry : ∀ entry ∈ entries, node.child entry.key = entry.node
  other : ∀ name, (∀ entry ∈ entries, entry.key ≠ name) → node.child name = Tree.empty

/-- An account without a history stores no entries. -/
theorem storesHistory_nil : StoresHistory [] Tree.empty :=
  ⟨rfl, by simp, by simp⟩

/-- An entry with a new key is stored beside the others. -/
theorem StoresHistory.append {entries : List HistoryEntry} {node : FNode}
    (h : StoresHistory entries node) {new : HistoryEntry}
    (hnew : ∀ entry ∈ entries, entry.key ≠ new.key) :
    StoresHistory (entries ++ [new]) (node.setChild new.key new.node) := by
  refine ⟨Tree.isLeaf_setChild h.branch _ _, ?_, ?_⟩
  · intro entry hentry
    rcases List.mem_append.mp hentry with hold | hlast
    · rw [Tree.child_setChild_ne (hnew entry hold), h.entry entry hold]
    · obtain rfl := List.mem_singleton.mp hlast
      rw [Tree.child_setChild_same]
  · intro name hname
    have hother : name ≠ new.key := fun heq => hname new (by simp) heq.symm
    rw [Tree.child_setChild_ne hother]
    exact h.other name fun entry hentry => hname entry (List.mem_append_left _ hentry)

/-- The entries of a REDEEM are stored with the others. -/
theorem StoresHistory.written {uid : Uid} {entries new : List HistoryEntry} {remote : Remote}
    (h : StoresHistory entries ((remote uid).child "history"))
    (hids : AutoIds (entries ++ new)) :
    StoresHistory (entries ++ new)
      ((redeemClient.applyAll (new.map (HistoryEntry.write uid)) remote uid).child
        "history") := by
  induction new generalizing entries remote with
  | nil => simpa using h
  | cons entry new ih =>
      have hkey : entry.key ≠ "" := hids.ne_empty (by simp)
      have hnew : ∀ other ∈ entries, other.key ≠ entry.key := by
        intro other hother
        have hnodup := hids.nodup
        rw [List.map_append, List.nodup_append] at hnodup
        exact hnodup.2.2 _ (List.mem_map_of_mem hother) _ (by simp)
      have hnode : (Write.apply (entry.write uid) remote uid).child "history" =
          ((remote uid).child "history").setChild entry.key entry.node := by
        have hsame := apply_same (entry.write uid) remote
        have hpath : (entry.write uid).path = ["history", entry.key] := by
          simp [HistoryEntry.write, setValue, fpath, hkey]
        change Write.apply (entry.write uid) remote uid = _ at hsame
        rw [hsame, hpath]
        simp [Tree.set_cons, HistoryEntry.write, setValue]
      rw [List.append_cons] at hids ⊢
      apply ih _ hids
      change StoresHistory _ ((Write.apply (entry.write uid) remote uid).child "history")
      rw [hnode]
      exact h.append hnew

/-! ## Runs -/

/-- The entries stored so far, while reads of REDEEM are pending. -/
structure Recording (uid : Uid) (entries : List HistoryEntry) (s : AppSys) : Prop where
  currentUser : s.state.currentUser = some uid
  history : StoresHistory entries ((s.remote uid).child "history")
  pending : ∀ p ∈ s.pending, ∃ uid leaves, p.read = .redeemUser uid leaves

/-- Before the first redeem the history is empty and nothing is pending. -/
theorem recording_start {uid : Uid} {remote : Remote} {app : App}
    (huser : app.currentUser = some uid) (hnone : (remote uid).child "history" = Tree.empty) :
    Recording uid [] ⟨remote, app, []⟩ := by
  refine ⟨huser, ?_, by simp⟩
  change StoresHistory [] ((remote uid).child "history")
  rw [hnone]
  exact storesHistory_nil

/-- REDEEM stores its entries at its tap, whatever happens to the credit. -/
theorem Recording.redeemed {uid : Uid} {entries : List HistoryEntry} {s : AppSys}
    (h : Recording uid entries s) {redeem : Redeem}
    (hids : AutoIds (entries ++ redeem.entries)) {fx : Effects App Write Read}
    (htap : redeemClient.tap redeem.tap s.state = .ok fx) :
    Recording uid (entries ++ redeem.entries) (redeemClient.perform s s.pending fx) := by
  rw [redeem_tap h.currentUser, redeem.history_tap] at htap
  split at htap
  · obtain rfl := Except.ok.inj htap
    refine ⟨h.currentUser, h.history.written hids, ?_⟩
    intro p hp
    rcases List.mem_append.mp hp with hold | hnew
    · exact h.pending p hold
    · obtain ⟨read, hread, rfl⟩ := List.mem_map.mp hnew
      dsimp only at hread
      split at hread
      · cases hread
      · exact ⟨_, _, List.mem_singleton.mp hread⟩
  · cases htap

/-- The answer to a read does not touch the history. -/
theorem Recording.answered {uid : Uid} {entries : List HistoryEntry} {s : AppSys}
    (h : Recording uid entries s) {read : Read} {before after : List (Pending Read Snapshot)}
    (hpending : s.pending = before ++ ⟨read, none⟩ :: after) (snapshot : Snapshot) :
    Recording uid entries { s with pending := before ++ ⟨read, some snapshot⟩ :: after } := by
  refine ⟨h.currentUser, h.history, ?_⟩
  intro p hp
  rcases List.mem_append.mp hp with hold | hlast
  · exact h.pending p (by simp [hpending, hold])
  · rcases List.mem_cons.mp hlast with rfl | hafter
    · exact h.pending ⟨read, none⟩ (by simp [hpending])
    · exact h.pending p (by simp [hpending, hafter])

/-- The callback of REDEEM credits leaves and does not touch the history. -/
theorem Recording.served {uid : Uid} {entries : List HistoryEntry} {s : AppSys}
    (h : Recording uid entries s) {read : Read} {snapshot : Snapshot}
    {before after : List (Pending Read Snapshot)}
    (hpending : s.pending = before ++ ⟨read, some snapshot⟩ :: after)
    {fx : Effects App Write Read} (hcall : redeemClient.callback read snapshot s.state = .ok fx) :
    Recording uid entries (redeemClient.perform s (before ++ after) fx) := by
  obtain ⟨_, leaves, hread⟩ := h.pending ⟨read, some snapshot⟩ (by simp [hpending])
  obtain rfl : read = _ := hread
  have hrest := Client.mem_pending_of_rest hpending
  change redeemUserRead leaves snapshot s.state = .ok fx at hcall
  rcases redeemUserRead_outcomes h.currentUser leaves snapshot with
    ⟨_, hrun⟩ | ⟨node, order, current, allTime, _, _, _, _, _, hrun⟩ | ⟨_, _, trap, hrun⟩
  · obtain rfl := Except.ok.inj (hrun.symm.trans hcall)
    refine ⟨h.currentUser, h.history, ?_⟩
    intro p hp
    exact h.pending p (hrest p (by simpa [Client.perform] using hp))
  · obtain rfl := Except.ok.inj (hrun.symm.trans hcall)
    refine ⟨h.currentUser, ?_, ?_⟩
    · have hsame : (redeemClient.applyAll
          [ setValue uid ["currentLeaves"] (Tree.leaf (.int (current + leaves))),
            setValue uid ["allTimeLeaves"] (Tree.leaf (.int (allTime + leaves))) ]
          s.remote uid).child "history" = (s.remote uid).child "history" := by
        simp [redeemClient, setValue, Write.apply, fpath, Tree.set_cons, Tree.child_setChild]
      change StoresHistory _ ((redeemClient.applyAll _ s.remote uid).child "history")
      rw [hsame]
      exact h.history
    · intro p hp
      exact h.pending p (hrest p (by simpa [Client.perform] using hp))
  · rw [hrun] at hcall
    cases hcall

/-- A run stores the entries of its redeems, whenever the callbacks are served. -/
theorem Recording.run {uid : Uid} {s' : AppSys} (es : List (Event RedeemTap Reply)) :
    ∀ {entries : List HistoryEntry} {redeems : List Redeem} {s : AppSys},
      Recording uid entries s → AutoIds (entries ++ redeems.flatMap Redeem.entries) →
      taps es = redeems.map Redeem.tap → redeemClient.run s es = .ok s' →
      Recording uid (entries ++ redeems.flatMap Redeem.entries) s' := by
  induction es with
  | nil =>
      intro entries redeems s h _ htaps hrun
      obtain rfl := Except.ok.inj hrun
      obtain rfl := List.map_eq_nil_iff.mp htaps.symm
      simpa using h
  | cons e es ih =>
      intro entries redeems s h hids htaps hrun
      obtain ⟨middle, hstep, hrest⟩ := redeemClient.run_cons_ok hrun
      have hmove := redeemClient.step_cases hstep
      generalize redeemClient.entry s e = o at hmove
      cases hmove with
      | @tap tap fx htap =>
          cases redeems with
          | nil => cases htaps
          | cons redeem redeems =>
              obtain ⟨rfl, htaps'⟩ := List.cons.inj htaps
              rw [List.flatMap_cons, ← List.append_assoc] at hids ⊢
              exact ih (h.redeemed hids.left htap) hids htaps' hrest
      | @answer read before after hpending info =>
          exact ih (h.answered hpending _) hids htaps hrest
      | @serve read snapshot before after hpending fx hcall =>
          exact ih (h.served hpending hcall) hids htaps hrest
      | idleAnswer => exact ih h hids htaps hrest
      | idleServe => exact ih h hids htaps hrest

/-- What the redeems of a run store. -/
theorem stored_of_run {uid : Uid} {remote : Remote} {app : App}
    (huser : app.currentUser = some uid)
    (hnone : (remote uid).child "history" = Tree.empty) {redeems : List Redeem}
    (hids : AutoIds (redeems.flatMap Redeem.entries)) {es : List (Event RedeemTap Reply)}
    (htaps : taps es = redeems.map Redeem.tap) {s' : AppSys}
    (hrun : redeemClient.run ⟨remote, app, []⟩ es = .ok s') :
    StoresHistory (redeems.flatMap Redeem.entries) ((s'.remote uid).child "history") :=
  (Recording.run es (recording_start huser hnone) hids htaps hrun).history

/-! ## What is shown -/

section Shown

variable {entries : List HistoryEntry} {node : FNode}

/-- An entry reads back as a dictionary. -/
theorem asDictionary_entry (entry : HistoryEntry) : (asDictionary entry.node).isSome := by
  have hname : (asString (entry.node.child "name")).isSome := by
    simp [HistoryEntry.node, historyItem, Tree.child_setChild]
  rw [asDictionary_of_asString hname (by decide)]
  rfl

/-- An entry reads back as the row that shows it. -/
theorem recycleHistoryItem_entry (entry : HistoryEntry) :
    recycleHistoryItem entry.node = .ok entry.row := by
  simp [recycleHistoryItem, HistoryEntry.node, HistoryEntry.row, historyItem,
    Tree.child_setChild, bind, Except.bind]

/-- The children of the history are the entries stored, each once. -/
theorem StoresHistory.names_perm {history : FNode} (h : StoresHistory entries history)
    (hids : AutoIds entries) : history.names.Perm (entries.map HistoryEntry.key) := by
  rw [List.perm_ext_iff_of_nodup history.nodup_names hids.nodup]
  intro name
  rw [Tree.mem_names_iff, List.mem_map]
  constructor
  · intro hsome
    by_contra hnone
    apply hsome
    apply h.other name
    intro entry hentry heq
    exact hnone ⟨entry, hentry, heq⟩
  · intro hsome
    obtain ⟨entry, hentry, rfl⟩ := hsome
    rw [h.entry entry hentry]
    have hdictionary := asDictionary_entry entry
    intro hempty
    rw [hempty] at hdictionary
    cases hdictionary

/-- An empty history leaves the list of rows empty. -/
theorem recycleHistoryRead_none (h : StoresHistory [] (node.child "history"))
    (order : List String) : recycleHistoryRead (.value node order) ⟨[]⟩ = .ok ⟨[]⟩ := by
  have hempty : node.child "history" = Tree.empty :=
    Tree.eq_empty_of_child h.branch fun name => h.other name (by simp)
  have hdictionaries : asDictionaries (Tree.empty : FNode) = none := rfl
  cases hnode : node.isEmpty with
  | true => simp [recycleHistoryRead, hnode]
  | false =>
      cases hdictionary : asDictionary node with
      | none => simp [recycleHistoryRead, hnode, hdictionary]
      | some keys => simp [recycleHistoryRead, hnode, hdictionary, hempty, hdictionaries]

/-- The rows are those of the entries, in the order in which the database enumerates them,
sorted by the text of the date. -/
theorem recycleHistoryRead_some (h : StoresHistory entries (node.child "history"))
    (hids : AutoIds entries) (hsome : entries ≠ []) {order : List String}
    {ordered : List HistoryEntry} (hperm : ordered.Perm entries)
    (horder : enumerate order (node.child "history").names = ordered.map HistoryEntry.key) :
    recycleHistoryRead (.value node order) ⟨[]⟩ =
      .ok ⟨sortRows RecycleHistoryItem.date (ordered.map HistoryEntry.row)⟩ := by
  obtain ⟨entry, hentry⟩ := List.exists_mem_of_ne_nil entries hsome
  have hmem : entry.key ∈ (node.child "history").names :=
    (h.names_perm hids).symm.subset (List.mem_map_of_mem hentry)
  have hhistory := asDictionary_eq_names hmem (hids.integerKey_eq hentry)
  have hdictionaries : asDictionaries (node.child "history") =
      some (node.child "history").names := by
    have hall : ∀ key ∈ (node.child "history").names,
        (asDictionary ((node.child "history").child key)).isSome := by
      intro key hkey
      obtain ⟨other, hother, rfl⟩ := List.mem_map.mp ((h.names_perm hids).subset hkey)
      rw [h.entry other hother]
      exact asDictionary_entry other
    rw [asDictionaries, hhistory, Option.filter_some, if_pos (List.all_eq_true.mpr hall)]
  have hnode : "history" ∈ node.names := by
    rw [Tree.mem_names_iff]
    intro hempty
    rw [hempty, Tree.names_empty] at hmem
    cases hmem
  have hnodeEmpty : node.isEmpty = false := by
    rw [Tree.isEmpty_eq_false_iff]
    intro hempty
    rw [hempty, Tree.names_empty] at hnode
    cases hnode
  have hitems : (ordered.map HistoryEntry.key).mapM (fun key =>
      recycleHistoryItem ((node.child "history").child key)) =
      .ok (ordered.map HistoryEntry.row) := by
    rw [List.mapM_map]
    apply mapM_eq_ok_map
    intro other hother
    simp only [Function.comp_apply]
    rw [h.entry other (hperm.subset hother), recycleHistoryItem_entry]
  simp [recycleHistoryRead, hnodeEmpty, asDictionary_eq_names hnode (by decide), hdictionaries,
    horder, hitems, bind, Except.bind]

/-- The rows, when the history is enumerated in some order. -/
theorem recycleHistoryRead_eq (h : StoresHistory entries (node.child "history"))
    (hids : AutoIds entries) {order : List String} {ordered : List HistoryEntry}
    (hperm : ordered.Perm entries)
    (horder : enumerate order (node.child "history").names = ordered.map HistoryEntry.key) :
    recycleHistoryRead (.value node order) ⟨[]⟩ =
      .ok ⟨sortRows RecycleHistoryItem.date (ordered.map HistoryEntry.row)⟩ := by
  by_cases hsome : entries = []
  · subst hsome
    obtain rfl := List.perm_nil.mp hperm
    exact recycleHistoryRead_none h order
  · exact recycleHistoryRead_some h hids hsome hperm horder

/-- The rows are those of the stored items, in the order of their moments. -/
def Chronological (entries : List HistoryEntry) (screen : RecycleHistoryViewController) : Prop :=
  InOrder (fun entry => entry.moment.parts) HistoryEntry.row entries screen.recycleHistoryData

/-- The texts of the dates compare as the moments do, or their rows are the same. -/
def DatesInOrder (entries : List HistoryEntry) : Prop :=
  ∀ entry ∈ entries, ∀ later ∈ entries, entry.moment.parts < later.moment.parts →
    entry.moment.ranks < later.moment.ranks ∨ entry.row = later.row

/-- Whether the texts of the dates are in the order of the redeems can be computed. -/
instance (entries : List HistoryEntry) : Decidable (DatesInOrder entries) :=
  inferInstanceAs (Decidable (∀ entry ∈ entries, ∀ later ∈ entries,
    entry.moment.parts < later.moment.parts →
      entry.moment.ranks < later.moment.ranks ∨ entry.row = later.row))

/-- A dictionary is enumerated in any order of its keys. -/
theorem enumerate_eq_of_perm {order keys : List String} (hnodup : keys.Nodup)
    (horder : order.Perm keys) : enumerate order keys = order := by
  have hall : order.filter (fun key => key ∈ keys) = order :=
    List.filter_eq_self.mpr fun key hkey => decide_eq_true (horder.subset hkey)
  have hnone : keys.filter (fun key => key ∉ order) = [] := by
    rw [List.filter_eq_nil_iff]
    intro key hkey
    simpa using horder.symm.subset hkey
  rw [enumerate, hall, hnone, (horder.symm.nodup hnodup).dedup, List.append_nil]

/-- An order of the keys is an order of the entries. -/
theorem exists_perm_of_map {keys : List String}
    (hkeys : keys.Perm (entries.map HistoryEntry.key)) :
    ∃ ordered : List HistoryEntry, ordered.Perm entries ∧
      keys = ordered.map HistoryEntry.key := by
  have hmap : List.Forall₂ (fun key entry => key = HistoryEntry.key entry)
      (entries.map HistoryEntry.key) entries := by
    rw [List.forall₂_map_left_iff, List.forall₂_same]
    intro entry _
    rfl
  obtain ⟨ordered, hordered, hperm⟩ := List.perm_comp_forall₂ hkeys hmap
  refine ⟨ordered, hperm, ?_⟩
  rw [← List.forall₂_eq_eq_eq, List.forall₂_map_right_iff]
  exact hordered

/-- For a stored history: the rows are chronological, whatever order the entries are
enumerated in, exactly when the texts of the dates are in order. -/
theorem chronological_iff_of_stored (h : StoresHistory entries (node.child "history"))
    (hids : AutoIds entries) :
    (∀ order, ∃ screen, recycleHistoryRead (.value node order) ⟨[]⟩ = .ok screen ∧
        Chronological entries screen) ↔ DatesInOrder entries := by
  have hnames := h.names_perm hids
  have hrows : (∀ ordered : List HistoryEntry, ordered.Perm entries →
      InOrder (fun entry => entry.moment.parts) HistoryEntry.row entries
        (sortRows RecycleHistoryItem.date (ordered.map HistoryEntry.row))) ↔
      DatesInOrder entries := by
    rw [sorted_inOrder_iff]
    simp only [DatesInOrder, HistoryEntry.row, Moment.dateString_lt_iff]
  rw [← hrows]
  constructor
  · intro hall ordered hperm
    have horder : enumerate (ordered.map HistoryEntry.key) (node.child "history").names =
        ordered.map HistoryEntry.key :=
      enumerate_eq_of_perm (node.child "history").nodup_names
        ((hperm.map HistoryEntry.key).trans hnames.symm)
    obtain ⟨screen, hread, hshown⟩ := hall (ordered.map HistoryEntry.key)
    rw [recycleHistoryRead_eq h hids hperm horder] at hread
    obtain rfl := Except.ok.inj hread
    exact hshown
  · intro hall order
    obtain ⟨ordered, hperm, horder⟩ := exists_perm_of_map
      ((enumerate_perm order (node.child "history").nodup_names).trans hnames)
    exact ⟨_, recycleHistoryRead_eq h hids hperm horder, hall ordered hperm⟩

end Shown

/-- **The history is shown in the order of the redeems**, in whatever order Swift
enumerates it, exactly when the texts of the dates of items with different rows
compare as the moments do. -/
theorem chronological_iff {uid : Uid} {remote : Remote} {app : App}
    (huser : app.currentUser = some uid)
    (hnone : (remote uid).child "history" = Tree.empty) {redeems : List Redeem}
    (hids : AutoIds (redeems.flatMap Redeem.entries)) {es : List (Event RedeemTap Reply)}
    (htaps : taps es = redeems.map Redeem.tap) {s' : AppSys}
    (hrun : redeemClient.run ⟨remote, app, []⟩ es = .ok s') :
    (∀ order, ∃ screen, recycleHistoryRead (.value (s'.remote uid) order) ⟨[]⟩ = .ok screen ∧
        Chronological (redeems.flatMap Redeem.entries) screen) ↔
      DatesInOrder (redeems.flatMap Redeem.entries) := by
  exact chronological_iff_of_stored (stored_of_run huser hnone hids htaps hrun) hids

/-- An aluminum can redeemed on some day of 2021, at 9:05. -/
def canOf (month day : Nat) (hmonth : 1 ≤ month ∧ month ≤ 12)
    (hday : 1 ≤ day ∧ day ≤ daysInMonth 2021 month) (autoId : String) : Redeem where
  moment := ⟨2021, month, day, 9, 5, hmonth, hday, by decide, by decide⟩
  quantities := fun i => if i.val = 0 then 1 else 0
  autoId := fun _ => autoId

/-- Two redeems of September, on days whose texts are in order. -/
def cansOfSeptember : List Redeem :=
  [canOf 9 1 (by decide) (by decide) "-MiW", canOf 9 2 (by decide) (by decide) "-Mib"]

/-- A new user has no history. -/
theorem newUser_history (leaves : Int) (uid : Uid) :
    (newUser leaves uid).child "history" = Tree.empty := by
  simp [newUser, newRecord, Tree.set_cons, Tree.child_setChild]

/-- After these redeems the rows are chronological. -/
theorem chronological_september :
    ∃ s', redeemClient.run ⟨newUser 0, newUserApp "ann" treeShelf, []⟩
        (cansOfSeptember.map fun redeem => .tap redeem.tap) = .ok s' ∧
      ∀ order, ∃ screen,
        recycleHistoryRead (.value (s'.remote "ann") order) ⟨[]⟩ = .ok screen ∧
          Chronological (cansOfSeptember.flatMap Redeem.entries) screen := by
  obtain ⟨s', hrun, -⟩ : ∃ s', redeemClient.run
      ⟨newUser 0, newUserApp "ann" treeShelf, []⟩
      (cansOfSeptember.map fun redeem => .tap redeem.tap) = .ok s' ∧ True :=
    redeemClient.exists_run_of_check (by decide +kernel)
  refine ⟨s', hrun, ?_⟩
  have hids : AutoIds (cansOfSeptember.flatMap Redeem.entries) :=
    ⟨by decide +kernel, by decide +kernel⟩
  exact (chronological_iff rfl (newUser_history 0 "ann") hids rfl hrun).mpr (by decide +kernel)

/-- Two redeems, of September and of October: the text of the later month comes first. -/
def cansOfAutumn : List Redeem :=
  [canOf 9 1 (by decide) (by decide) "-MiW", canOf 10 1 (by decide) (by decide) "-Mkz"]

/-- The can of October 1 is shown before the can of September 1. -/
theorem not_chronological :
    ¬ ∀ (uid : Uid) (remote : Remote) (app : App), app.currentUser = some uid →
        (remote uid).child "history" = Tree.empty → ∀ redeems : List Redeem,
        AutoIds (redeems.flatMap Redeem.entries) →
        ∀ es : List (Event RedeemTap Reply), taps es = redeems.map Redeem.tap →
        ∀ s', redeemClient.run ⟨remote, app, []⟩ es = .ok s' →
        ∀ order, ∃ screen,
          recycleHistoryRead (.value (s'.remote uid) order) ⟨[]⟩ = .ok screen ∧
            Chronological (redeems.flatMap Redeem.entries) screen := by
  intro hall
  obtain ⟨s', hrun, -⟩ : ∃ s', redeemClient.run
      ⟨newUser 0, newUserApp "ann" treeShelf, []⟩
      (cansOfAutumn.map fun redeem => .tap redeem.tap) = .ok s' ∧ True :=
    redeemClient.exists_run_of_check (by decide +kernel)
  have hids : AutoIds (cansOfAutumn.flatMap Redeem.entries) :=
    ⟨by decide +kernel, by decide +kernel⟩
  have hshown := hall "ann" (newUser 0) (newUserApp "ann" treeShelf) rfl
    (newUser_history 0 "ann") cansOfAutumn hids _ rfl s' hrun
  have hstored := stored_of_run rfl (newUser_history 0 "ann") hids rfl hrun
  have hdates := (chronological_iff_of_stored hstored hids).mp hshown
  revert hdates
  decide +kernel

end WillItRecycle

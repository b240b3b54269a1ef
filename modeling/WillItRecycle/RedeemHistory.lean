import WillItRecycle.ManualEntryScreen
import WillItRecycle.LeavesLedger
import WillItRecycle.ReadOutcomes
import WillItRecycle.StartedCallbacks

/-!
# The recycling history and the leaves credited

REDEEM writes a history entry for each positive quantity in the loop that sums up
the leaves, before it looks at the sum and before it reads the record it credits.
The sum counts negative quantities, the history does not.

* `redeem_agrees_iff` -- when the history and the credit agree, for all accepted
  texts and every outcome of the read.
-/

namespace WillItRecycle

open PathTree ReadCallback EventRun ManualEntryViewController

/-! ## The quantities that the fields leave -/

/-- The screen appears and a text is left in every field. -/
def fillIn (texts : Fin manualEntryData.length → String) : List ScreenEvent :=
  .viewWillAppear :: (List.finRange manualEntryData.length).map
    fun i : Fin manualEntryData.length => .textFieldDidEndEditing i.val (texts i)

/-- What the screen hands to the loop. -/
def quantitiesOf (screen : ManualEntryViewController) : Quantities :=
  fun i => screen.quantities.getD i 0

section FillIn

variable {number : String → Option Rat} {texts : Fin manualEntryData.length → String}
  (haccepted : ∀ i, (number (filled (texts i))).isSome)
include haccepted

/-- Accepted edits of rows in the order of the catalogue. -/
theorem run_edits (range : String → String → Bool) (rows : List (Fin manualEntryData.length)) :
    ∀ {screen : ManualEntryViewController}, Tagged manualEntryData screen →
      screen.currentDisplayedData = manualEntryData →
      screen.cells.length = manualEntryData.length →
      ∃ screen', run (handle manualEntryData range number) screen
          (rows.map fun i : Fin manualEntryData.length =>
            .textFieldDidEndEditing i.val (texts i)) = .ok screen' ∧
        ∀ i : Fin manualEntryData.length, screen'.quantities[i.val]? =
          if i ∈ rows then some (quantityOf (texts i)) else screen.quantities[i.val]? := by
  induction rows with
  | nil =>
      intro screen _ _ _
      exact ⟨screen, rfl, by simp⟩
  | cons i rows ih =>
      intro screen htagged hdisplayed hlength
      have hlt : i.val < screen.cells.length := by
        rw [hlength]
        exact i.isLt
      have hcell : screen.cells[i.val]? = some screen.cells[i.val] :=
        List.getElem?_eq_getElem hlt
      obtain ⟨item, hitem, hname⟩ := htagged.label i.val _ hcell
      obtain ⟨item', hitem', hname'⟩ := htagged.item _ (List.getElem_mem hlt)
      rw [hdisplayed] at hitem
      have htag := tag_eq manualEntryData_names hitem' hitem (hname'.trans hname.symm)
      rcases textFieldDidEndEditing_row htagged number hcell (texts i) with
        ⟨hrejected, _⟩ | ⟨_, hedit⟩
      · have hsome := haccepted i
        rw [hrejected] at hsome
        cases hsome
      · have htagged' := htagged.edited hcell (texts i)
        obtain ⟨screen', hrun, hquantities⟩ :=
          ih htagged' hdisplayed (by rw [List.length_set, hlength])
        refine ⟨screen', ?_, ?_⟩
        · rw [List.map_cons, run_cons_of_step _ hedit, hrun]
        · intro j
          rw [hquantities]
          dsimp only
          rw [htag]
          by_cases hj : j ∈ rows
          · rw [if_pos hj, if_pos (List.mem_cons_of_mem _ hj)]
          · rw [if_neg hj]
            by_cases hij : j = i
            · subst hij
              have hlt' : j.val < screen.quantities.length := by
                rw [htagged.count]
                exact j.isLt
              rw [if_pos List.mem_cons_self, List.getElem?_set_self hlt']
            · have hne : i.val ≠ j.val := fun heq => hij (Fin.ext heq.symm)
              rw [if_neg (by simp [hij, hj]), List.getElem?_set_ne hne]

/-- **Each field leaves its quantity.** -/
theorem run_fillIn (range : String → String → Bool) :
    ∃ screen, run (handle manualEntryData range number) (initial manualEntryData) (fillIn texts) =
        .ok screen ∧
      quantitiesOf screen = fun i => quantityOf (texts i) := by
  obtain ⟨cells, hreload, hlength, htagged, _⟩ :=
    reloadData_ok manualEntryData_names (initial manualEntryData) List.length_replicate
      noQuantities_fits (List.Sublist.refl _)
  obtain ⟨screen, hrun, hquantities⟩ := run_edits haccepted range
    (List.finRange manualEntryData.length) htagged rfl hlength
  refine ⟨screen, ?_, ?_⟩
  · unfold fillIn
    have happears : handle manualEntryData range number (initial manualEntryData)
        .viewWillAppear = .ok { initial manualEntryData with cells } := hreload
    rw [run_cons_of_step _ happears, hrun]
  · funext i
    have hi := hquantities i
    rw [if_pos (List.mem_finRange i)] at hi
    unfold quantitiesOf
    rw [List.getD_eq_getElem?_getD, hi]
    rfl

end FillIn

/-! ## The loop on machine integers -/

theorem redeemedLeaves_eq (quantities : Quantities) :
    redeemedLeaves quantities =
      total (worth quantities) (List.finRange manualEntryData.length) := rfl

theorem addLeaves_eq (quantities : Quantities) (leaves : Int) (i : Fin manualEntryData.length) :
    addLeaves manualEntryData (List.ofFn quantities) leaves i.val =
      (checkedInt (worth quantities i)).bind fun product => checkedInt (leaves + product) := by
  have hquantity : (List.ofFn quantities)[i.val]? = some (quantities i) := by
    simp
  have hitem : manualEntryData[i.val]? = some (manualEntryData.get i) := by
    simp
  rw [addLeaves, hquantity, hitem]
  rfl

/-- The loop over some rows, from a partial sum. -/
theorem foldlM_addLeaves (quantities : Quantities) (rows : List (Fin manualEntryData.length)) :
    ∀ leaves, (rows.foldlM (fun leaves i =>
        addLeaves manualEntryData (List.ofFn quantities) leaves i.val) leaves) =
      if SumsFit (worth quantities) leaves rows then
        .ok (leaves + total (worth quantities) rows)
      else .error .overflow := by
  induction rows with
  | nil =>
      intro leaves
      simp [SumsFit, pure, Except.pure]
  | cons i rows ih =>
      intro leaves
      rw [List.foldlM_cons, addLeaves_eq]
      unfold checkedInt
      by_cases hproduct : FitsInt (worth quantities i)
      · by_cases hsum : FitsInt (leaves + worth quantities i)
        · rw [if_pos hproduct]
          simp only [Except.bind, if_pos hsum, bind]
          rw [ih, total_cons, Int.add_assoc]
          simp [SumsFit, hproduct, hsum]
        · rw [if_pos hproduct]
          simp [Except.bind, bind, hsum, SumsFit]
      · rw [if_neg hproduct]
        simp [Except.bind, bind, hproduct, SumsFit]

/-- The leaves the screen computes, unless it overflows. -/
theorem redeemLeaves_eq (quantities : Quantities) :
    redeemLeaves manualEntryData (List.ofFn quantities) =
      if LoopFits quantities then .ok (redeemedLeaves quantities) else .error .overflow := by
  have hloop := foldlM_addLeaves quantities (List.finRange manualEntryData.length) 0
  rw [Int.zero_add] at hloop
  have hrange : List.range (List.ofFn quantities).length =
      (List.finRange manualEntryData.length).map Fin.val := by
    simp
  have hsome : List.ofFn quantities ≠ [] := by
    intro hnil
    have hlength := congrArg List.length hnil
    rw [List.length_ofFn] at hlength
    revert hlength
    decide
  unfold redeemLeaves
  rw [if_neg hsome, hrange, List.foldlM_map]
  exact hloop

/-- **One loop.**  The loop of the screen, which keeps no history, computes the leaves of
the loop of the app. -/
theorem redeemLeaves_eq_redeemLoop (uid : Uid) (quantities : Quantities) (dateString : String)
    (autoId : Nat → String) :
    redeemLeaves manualEntryData (List.ofFn quantities) =
      (redeemLoop uid quantities dateString autoId).2.mapError fun _ => .overflow := by
  rw [redeemLeaves_eq, redeemLoop_eq]
  by_cases hfits : LoopFits quantities
  · rw [if_pos hfits, if_pos hfits]
    rfl
  · rw [if_neg hfits, if_neg hfits]
    rfl

/-! ## What the history is worth -/

/-- The value of the item of a name. -/
def valueOf (name : String) : Int :=
  ((manualEntryData.find? fun item => item.name = name).map ManualEntryItem.value).getD 0

/-- Quantity times item value of a history entry. -/
def entryWorth (write : Write) : Int :=
  (asInt (write.value.child "quantity")).getD 0 *
    valueOf ((asString (write.value.child "name")).getD "")

section History

variable (uid : Uid) (quantities : Quantities) (dateString : String) (autoId : Nat → String)

theorem value_pos (i : Fin manualEntryData.length) : 0 < (manualEntryData.get i).value := by
  revert i
  decide

theorem entryWorth_historyWrite (i : Fin manualEntryData.length) :
    entryWorth (historyWrite uid quantities dateString autoId i) = worth quantities i := by
  have hvalue : ∀ i : Fin manualEntryData.length,
      valueOf (manualEntryData.get i).name = (manualEntryData.get i).value := by
    decide
  have hquantity : asInt ((historyWrite uid quantities dateString autoId i).value.child
      "quantity") = some (quantities i) := by
    simp [historyWrite, setValue, historyItem]
  have hname : asString ((historyWrite uid quantities dateString autoId i).value.child
      "name") = some (manualEntryData.get i).name := by
    simp [historyWrite, setValue, historyItem, Tree.child_setChild]
  unfold entryWorth worth
  rw [hquantity, hname, Option.getD_some, Option.getD_some, hvalue]

theorem total_entryWorth :
    total entryWorth ((positiveItems quantities).map
      (historyWrite uid quantities dateString autoId)) =
      total (worth quantities) (positiveItems quantities) := by
  unfold total
  rw [List.map_map]
  congr 1
  apply List.map_congr_left
  intro i _
  exact entryWorth_historyWrite uid quantities dateString autoId i

end History

/-- The negative quantities make the difference. -/
theorem total_positive_iff (quantities : Quantities) (rows : List (Fin manualEntryData.length)) :
    total (worth quantities) rows ≤
        total (worth quantities) (rows.filter fun i => quantities i > 0) ∧
      (total (worth quantities) rows =
          total (worth quantities) (rows.filter fun i => quantities i > 0) ↔
        ∀ i ∈ rows, 0 ≤ quantities i) := by
  induction rows with
  | nil => simp
  | cons i rows ih =>
      obtain ⟨hle, hiff⟩ := ih
      rw [total_cons, List.forall_mem_cons, ← hiff]
      by_cases hpositive : quantities i > 0
      · rw [List.filter_cons_of_pos (by simpa using hpositive), total_cons]
        constructor
        · omega
        · constructor
          · intro heq
            exact ⟨by omega, by omega⟩
          · intro h
            omega
      · have hworth : worth quantities i ≤ 0 :=
          Int.mul_nonpos_of_nonpos_of_nonneg (by omega) (Int.le_of_lt (value_pos i))
        have hzero : worth quantities i = 0 ↔ 0 ≤ quantities i := by
          unfold worth
          rw [Int.mul_eq_zero]
          have hvalue := value_pos i
          omega
        rw [List.filter_cons_of_neg (by simpa using hpositive)]
        rw [← hzero]
        constructor
        · omega
        · constructor
          · intro heq
            exact ⟨by omega, by omega⟩
          · intro h
            omega

/-- The history is worth nothing only when there is none. -/
theorem total_positive_eq_zero_iff (quantities : Quantities) :
    total (worth quantities) (positiveItems quantities) = 0 ↔ ∀ i, quantities i ≤ 0 := by
  have hpos : ∀ rows : List (Fin manualEntryData.length),
      0 ≤ total (worth quantities) (rows.filter fun i => quantities i > 0) ∧
      (total (worth quantities) (rows.filter fun i => quantities i > 0) = 0 ↔
        ∀ i ∈ rows, quantities i ≤ 0) := by
    intro rows
    induction rows with
    | nil => simp
    | cons i rows ih =>
        obtain ⟨hnonneg, hiff⟩ := ih
        rw [List.forall_mem_cons, ← hiff]
        by_cases hpositive : quantities i > 0
        · have hworth : 0 < worth quantities i := Int.mul_pos hpositive (value_pos i)
          rw [List.filter_cons_of_pos (by simpa using hpositive), total_cons]
          constructor
          · omega
          · constructor
            · intro heq
              omega
            · intro h
              omega
        · rw [List.filter_cons_of_neg (by simpa using hpositive)]
          constructor
          · exact hnonneg
          · constructor
            · intro heq
              exact ⟨by omega, heq⟩
            · intro h
              exact h.2
  have hiff := (hpos (List.finRange manualEntryData.length)).2
  simpa [positiveItems] using hiff

/-! ## The app as far as REDEEM goes -/

structure RedeemTap where
  quantities : Quantities
  dateString : String
  autoId : Nat → String

/-- The history entries of a REDEEM. -/
def RedeemTap.history (tap : RedeemTap) (uid : Uid) : List Write :=
  (positiveItems tap.quantities).map
    (historyWrite uid tap.quantities tap.dateString tap.autoId)

/-- The redeems of the app; a tap gives the quantities that the screen hands over. -/
def redeemClient : Client Remote App Write Read Reply Snapshot RedeemTap Trap where
  apply := Write.apply
  answer := Read.answer
  tap := fun tap => redeemButtonPressed tap.quantities tap.dateString tap.autoId
  callback := Read.callback

/-! ## What is claimed -/

/-- The counter has grown by the leaves; no leaves change nothing. -/
def Adds (uid : Uid) (field : String) (leaves : Int) (remote remote' : Remote) : Prop :=
  leaves = 0 ∧ (remote' uid).child field = (remote uid).child field ∨
  ∃ before, asInt ((remote uid).child field) = some before ∧
    asInt ((remote' uid).child field) = some (before + leaves)

/-- The history entries written by some code. -/
def historyEntries {T : Type} (trace : List (Entry App Write Read Snapshot T)) : List Write :=
  (trace.flatMap fun entry => entry.effects.writes).filter fun write =>
    write.path.head? = some "history"

/-- The leaves added to the two counters are equal, nonnegative and what the history
written is worth; after 'No items entered' or a failed read there are neither. -/
def HistoryAgrees (uid : Uid) (remote : Remote) (app : App)
    (trace : List (Entry App Write Read Snapshot RedeemTap)) (calls : List (Read × Snapshot))
    (s' : AppSys) : Prop :=
  ∃ leaves, 0 ≤ leaves ∧ Adds uid "currentLeaves" leaves remote s'.remote ∧
    Adds uid "allTimeLeaves" leaves remote s'.remote ∧
    total entryWorth (historyEntries trace) = leaves ∧
    (s'.state.alerts = app.alerts ++ [noItemsEntered] ∨ (∃ call ∈ calls, call.2 = .error) →
      historyEntries trace = [] ∧ leaves = 0)

/-! ## The condition -/

/-- The read fails, or finds no record. -/
def NoRecord : Snapshot → Prop
  | .error => True
  | .value node _ => node.isEmpty = true ∨ asDictionary node = none

/-- The read finds both counters, and the leaves can be added. -/
def RecordFits (leaves : Int) : Snapshot → Prop
  | .error => False
  | .value node _ =>
      (∃ current ∈ asInt (node.child "currentLeaves"), FitsInt (current + leaves)) ∧
        ∃ allTime ∈ asInt (node.child "allTimeLeaves"), FitsInt (allTime + leaves)

/-- A record with the counters is a dictionary. -/
theorem not_recordFits_of_noRecord {snapshot : Snapshot} (h : NoRecord snapshot) (leaves : Int) :
    ¬ RecordFits leaves snapshot := by
  cases snapshot with
  | error => exact id
  | value node order =>
      intro hfits
      obtain ⟨⟨current, hcurrent, _⟩, _⟩ := hfits
      have hmem : "currentLeaves" ∈ node.names := by
        rw [Tree.mem_names_iff, ← Tree.isEmpty_eq_false_iff]
        exact isEmpty_of_asInt hcurrent
      rcases h with hempty | hdictionary
      · rw [Tree.isEmpty_iff.mp hempty, Tree.names_empty] at hmem
        cases hmem
      · rw [asDictionary_eq_names hmem (by decide)] at hdictionary
        cases hdictionary

instance (snapshot : Snapshot) : Decidable (NoRecord snapshot) :=
  match snapshot with
  | .error => isTrue trivial
  | .value node _ =>
      inferInstanceAs (Decidable (node.isEmpty = true ∨ asDictionary node = none))

instance (leaves : Int) (snapshot : Snapshot) : Decidable (RecordFits leaves snapshot) :=
  match snapshot with
  | .error => isFalse id
  | .value node _ =>
      inferInstanceAs (Decidable
        ((∃ current ∈ asInt (node.child "currentLeaves"), FitsInt (current + leaves)) ∧
          ∃ allTime ∈ asInt (node.child "allTimeLeaves"), FitsInt (allTime + leaves)))

/-- Nothing overflows, and either nothing positive is entered and no record is
credited, or nothing negative is entered and a record that is read is credited. -/
def RedeemInTurn (quantities : Quantities) (calls : List (Read × Snapshot)) : Prop :=
  LoopFits quantities ∧
    ((∀ i, quantities i ≤ 0) ∧ (∀ call ∈ calls, NoRecord call.2) ∨
      (∀ i, 0 ≤ quantities i) ∧
        ∀ call ∈ calls, RecordFits (redeemedLeaves quantities) call.2)

instance (quantities : Quantities) (calls : List (Read × Snapshot)) :
    Decidable (RedeemInTurn quantities calls) :=
  inferInstanceAs (Decidable (LoopFits quantities ∧
    ((∀ i, quantities i ≤ 0) ∧ (∀ call ∈ calls, NoRecord call.2) ∨
      (∀ i, 0 ≤ quantities i) ∧
        ∀ call ∈ calls, RecordFits (redeemedLeaves quantities) call.2)))

/-! ## The code -/

section Redeem

variable {uid : Uid} {remote : Remote} {app : App}

theorem redeem_tap (huser : app.currentUser = some uid) (tap : RedeemTap) :
    redeemClient.tap tap app =
      if LoopFits tap.quantities then
        .ok ⟨app.present (if redeemedLeaves tap.quantities = 0 then noItemsEntered
            else success (redeemedLeaves tap.quantities)),
          tap.history uid,
          if redeemedLeaves tap.quantities = 0 then []
            else [.redeemUser uid (redeemedLeaves tap.quantities)]⟩
      else .error .overflow :=
  redeemButtonPressed_eq huser tap.quantities tap.dateString tap.autoId

/-- The history is written beside the counters. -/
theorem child_history (tap : RedeemTap) (remote : Remote) {field : String}
    (hfield : field ≠ "history") :
    (redeemClient.applyAll (tap.history uid) remote uid).child field =
      (remote uid).child field := by
  unfold RedeemTap.history
  generalize positiveItems tap.quantities = rows
  induction rows generalizing remote with
  | nil => rfl
  | cons i rows ih =>
      have hsame := apply_same
        (historyWrite uid tap.quantities tap.dateString tap.autoId i) remote
      have hpath : (historyWrite uid tap.quantities tap.dateString tap.autoId i).path =
          "history" :: fpath [tap.autoId i.val] := rfl
      rw [List.map_cons, Client.applyAll_cons, ih]
      change (Write.apply _ remote uid).child field = _
      change Write.apply _ remote uid = _ at hsame
      rw [hsame, hpath, Tree.set_cons, Tree.child_setChild_ne hfield]
      rfl

theorem history_path (tap : RedeemTap) (uid : Uid) :
    ∀ write ∈ tap.history uid, write.path.head? = some "history" := by
  intro write hwrite
  obtain ⟨i, _, rfl⟩ := List.mem_map.mp hwrite
  rfl

/-- The three things the callback can do. -/
theorem redeemUserRead_outcomes (huser : app.currentUser = some uid) (leaves : Int)
    (snapshot : Snapshot) :
    NoRecord snapshot ∧ redeemUserRead leaves snapshot app = .ok ⟨app, [], []⟩ ∨
    (∃ node order current allTime, snapshot = .value node order ∧
      asInt (node.child "currentLeaves") = some current ∧
      asInt (node.child "allTimeLeaves") = some allTime ∧ RecordFits leaves snapshot ∧
      ¬ NoRecord snapshot ∧
      redeemUserRead leaves snapshot app = .ok ⟨app,
        [ setValue uid ["currentLeaves"] (Tree.leaf (.int (current + leaves))),
          setValue uid ["allTimeLeaves"] (Tree.leaf (.int (allTime + leaves))) ], []⟩) ∨
    (¬ NoRecord snapshot ∧ ¬ RecordFits leaves snapshot ∧
      ∃ trap, redeemUserRead leaves snapshot app = .error trap) := by
  cases snapshot with
  | error => exact Or.inl ⟨trivial, rfl⟩
  | value node order =>
      by_cases hnone : NoRecord (.value node order)
      · refine Or.inl ⟨hnone, ?_⟩
        rcases hnone with hempty | hdictionary
        · simp [redeemUserRead, hempty, App.done]
        · cases hempty : node.isEmpty <;> simp [redeemUserRead, hempty, hdictionary, App.done]
      · right
        have hparts := not_or.mp hnone
        obtain ⟨keys, hkeys⟩ := Option.ne_none_iff_exists'.mp hparts.2
        have hempty : node.isEmpty = false := by simpa using hparts.1
        cases hcurrent : asInt (node.child "currentLeaves") with
        | none =>
            right
            refine ⟨hnone, by simp [RecordFits, hcurrent], .forceCast, ?_⟩
            simp [redeemUserRead, hempty, hkeys, huser, hcurrent, bind, Except.bind]
        | some current =>
            cases hallTime : asInt (node.child "allTimeLeaves") with
            | none =>
                right
                refine ⟨hnone, by simp [RecordFits, hallTime], ?_⟩
                by_cases hfits : FitsInt (current + leaves)
                · refine ⟨.forceCast, ?_⟩
                  simp [redeemUserRead, hempty, hkeys, huser, hcurrent, hallTime,
                    intResult_eq, hfits, bind, Except.bind]
                · refine ⟨.overflow, ?_⟩
                  simp [redeemUserRead, hempty, hkeys, huser, hcurrent, intResult_eq, hfits,
                    bind, Except.bind]
            | some allTime =>
                have hread := redeemUserRead_record hcurrent hallTime leaves order huser
                have hiff : RecordFits leaves (.value node order) ↔
                    FitsInt (current + leaves) ∧ FitsInt (allTime + leaves) := by
                  simp [RecordFits, hcurrent, hallTime]
                by_cases hfits : FitsInt (current + leaves) ∧ FitsInt (allTime + leaves)
                · rw [if_pos hfits] at hread
                  exact Or.inl ⟨node, order, current, allTime, rfl, hcurrent, hallTime,
                    hiff.mpr hfits, hnone, hread⟩
                · rw [if_neg hfits] at hread
                  exact Or.inr ⟨hnone, fun h => hfits (hiff.mp h), .overflow, hread⟩

/-! ## Outcomes -/

theorem adds_same_iff {field : String} {leaves : Int} {remote remote' : Remote}
    (hsame : (remote' uid).child field = (remote uid).child field) :
    Adds uid field leaves remote remote' ↔ leaves = 0 := by
  constructor
  · intro h
    rcases h with h | ⟨before, hbefore, hafter⟩
    · exact h.1
    · rw [hsame, hbefore, Option.some.injEq] at hafter
      omega
  · intro h
    exact Or.inl ⟨h, hsame⟩

theorem adds_counter_iff {field : String} {leaves added before : Int} (hadded : added ≠ 0)
    {remote remote' : Remote} (hbefore : asInt ((remote uid).child field) = some before)
    (hafter : asInt ((remote' uid).child field) = some (before + added)) :
    Adds uid field leaves remote remote' ↔ leaves = added := by
  constructor
  · intro h
    rcases h with ⟨_, hsame⟩ | ⟨before', hbefore', hafter'⟩
    · rw [hsame, hbefore, Option.some.injEq] at hafter
      omega
    · rw [hbefore, Option.some.injEq] at hbefore'
      rw [hafter, Option.some.injEq] at hafter'
      omega
  · intro h
    subst h
    exact Or.inr ⟨before, hbefore, hafter⟩

theorem positiveItems_eq_nil {quantities : Quantities} (h : ∀ i, quantities i ≤ 0) :
    positiveItems quantities = [] := by
  unfold positiveItems
  rw [List.filter_eq_nil_iff]
  intro i _
  simpa using h i

/-- Nothing is credited: then the history must be empty. -/
theorem agrees_nothing_iff (app : App) {trace : List (Entry App Write Read Snapshot RedeemTap)}
    (calls : List (Read × Snapshot)) (s' : AppSys) {tap : RedeemTap}
    (hhistory : historyEntries trace = tap.history uid)
    (hcurrent : (s'.remote uid).child "currentLeaves" = (remote uid).child "currentLeaves")
    (hallTime : (s'.remote uid).child "allTimeLeaves" = (remote uid).child "allTimeLeaves") :
    HistoryAgrees uid remote app trace calls s' ↔ ∀ i, tap.quantities i ≤ 0 := by
  rw [← total_positive_eq_zero_iff]
  constructor
  · intro h
    obtain ⟨leaves, _, hadds, _, hworth, _⟩ := h
    rw [adds_same_iff hcurrent] at hadds
    rw [hhistory, RedeemTap.history, total_entryWorth, hadds] at hworth
    exact hworth
  · intro hzero
    have hnone := positiveItems_eq_nil ((total_positive_eq_zero_iff tap.quantities).mp hzero)
    have hempty : historyEntries trace = [] := by
      rw [hhistory, RedeemTap.history, hnone]
      rfl
    refine ⟨0, Int.le_refl 0, (adds_same_iff hcurrent).mpr rfl, (adds_same_iff hallTime).mpr rfl,
      ?_, fun _ => ⟨hempty, rfl⟩⟩
    rw [hempty]
    rfl

/-- The total is credited: then it must be what the history is worth. -/
theorem agrees_credited_iff (app : App) {trace : List (Entry App Write Read Snapshot RedeemTap)}
    (calls : List (Read × Snapshot)) (s' : AppSys) {current allTime : Int}
    {tap : RedeemTap} (hhistory : historyEntries trace = tap.history uid)
    (hnonzero : redeemedLeaves tap.quantities ≠ 0)
    (hcurrent : asInt ((remote uid).child "currentLeaves") = some current)
    (hallTime : asInt ((remote uid).child "allTimeLeaves") = some allTime)
    (hcurrent' : asInt ((s'.remote uid).child "currentLeaves") =
      some (current + redeemedLeaves tap.quantities))
    (hallTime' : asInt ((s'.remote uid).child "allTimeLeaves") =
      some (allTime + redeemedLeaves tap.quantities))
    (halerts : s'.state.alerts = app.alerts ++ [success (redeemedLeaves tap.quantities)])
    (hcalls : ∀ call ∈ calls, call.2 ≠ .error) :
    HistoryAgrees uid remote app trace calls s' ↔ ∀ i, 0 ≤ tap.quantities i := by
  obtain ⟨_, hiff⟩ := total_positive_iff tap.quantities (List.finRange manualEntryData.length)
  have hsigns : redeemedLeaves tap.quantities =
      total (worth tap.quantities) (positiveItems tap.quantities) ↔ ∀ i, 0 ≤ tap.quantities i := by
    rw [redeemedLeaves_eq]
    simpa [positiveItems] using hiff
  rw [← hsigns]
  constructor
  · intro h
    obtain ⟨leaves, _, hadds, _, hworth, _⟩ := h
    rw [adds_counter_iff hnonzero hcurrent hcurrent'] at hadds
    rw [hhistory, RedeemTap.history, total_entryWorth, hadds] at hworth
    exact hworth.symm
  · intro heq
    refine ⟨redeemedLeaves tap.quantities, ?_,
      (adds_counter_iff hnonzero hcurrent hcurrent').mpr rfl,
      (adds_counter_iff hnonzero hallTime hallTime').mpr rfl, ?_, ?_⟩
    · apply total_nonneg
      intro i _
      exact Int.mul_nonneg (hsigns.mp heq i) (Int.le_of_lt (value_pos i))
    · rw [hhistory, RedeemTap.history, total_entryWorth, heq]
    · intro h
      rcases h with hshown | ⟨call, hcall, hfailed⟩
      · rw [halerts, List.append_cancel_left_eq, List.cons.injEq] at hshown
        have htitle := congrArg Alert.title hshown.1
        have hne : "Success! 🌱" ≠ "No items entered" := by decide
        exact absurd htitle hne
      · exact absurd hfailed (hcalls call hcall)

/-- The callback writes no history. -/
theorem redeemUserRead_writes {leaves : Int} {snapshot : Snapshot} {l : App}
    {fx : Effects App Write Read} (hfx : redeemUserRead leaves snapshot l = .ok fx) :
    (fx.writes.filter fun write => write.path.head? = some "history") = [] := by
  cases huser : l.currentUser with
  | none =>
      cases snapshot with
      | error =>
          obtain rfl := Except.ok.inj hfx
          rfl
      | value node order =>
          unfold redeemUserRead at hfx
          dsimp only at hfx
          split at hfx
          · obtain rfl := Except.ok.inj hfx
            rfl
          · cases hkeys : asDictionary node with
            | none =>
                rw [hkeys] at hfx
                obtain rfl := Except.ok.inj hfx
                rfl
            | some keys => simp [hkeys, huser, bind, Except.bind] at hfx
  | some uid =>
      rcases redeemUserRead_outcomes huser leaves snapshot with
        ⟨_, hrun⟩ | ⟨node, order, current, allTime, _, _, _, _, _, hrun⟩ | ⟨_, _, trap, hrun⟩
      · obtain rfl := Except.ok.inj (hrun.symm.trans hfx)
        rfl
      · obtain rfl := Except.ok.inj (hrun.symm.trans hfx)
        simp [setValue, fpath]
      · rw [hrun] at hfx
        cases hfx

theorem historyEntries_run (remote : Remote) {es : List (Event RedeemTap Reply)}
    (htaps : taps es = []) {tap : RedeemTap} {state : App} {reads : List Read}
    (htap : redeemClient.tap tap app = .ok ⟨state, tap.history uid, reads⟩)
    (hcalls : ∀ call ∈ redeemClient.started ⟨remote, app, []⟩
      (.tap tap :: es), ∃ uid leaves, call.1 = .redeemUser uid leaves) :
    historyEntries (redeemClient.trace ⟨remote, app, []⟩
      (.tap tap :: es)) = tap.history uid := by
  have hstep : redeemClient.step ⟨remote, app, []⟩ (.tap tap) =
      .ok (redeemClient.perform ⟨remote, app, []⟩ [] ⟨state, tap.history uid, reads⟩) := by
    simp [Client.step, htap, Except.map]
  have hentry : redeemClient.entry ⟨remote, app, []⟩ (.tap tap) =
      some (.tapped tap ⟨state, tap.history uid, reads⟩) := by
    simp [Client.entry, htap, Except.toOption]
  rw [Client.started_tap _ hstep] at hcalls
  rw [Client.trace_cons_of_step _ hstep, hentry]
  have hserved : ∀ entry ∈ redeemClient.trace
      (redeemClient.perform ⟨remote, app, []⟩ [] ⟨state, tap.history uid, reads⟩) es,
      (entry.effects.writes.filter fun write => write.path.head? = some "history") = [] := by
    intro entry hmem
    obtain ⟨read, snapshot, l, fx, rfl, hcall, hfx⟩ :=
      redeemClient.served_of_mem_trace htaps hmem
    obtain ⟨uid, leaves, rfl⟩ := hcalls _ hcall
    exact redeemUserRead_writes hfx
  unfold historyEntries
  rw [Option.toList_some, List.singleton_append, List.flatMap_cons, List.filter_append]
  have hrest : ((redeemClient.trace
      (redeemClient.perform ⟨remote, app, []⟩ [] ⟨state, tap.history uid, reads⟩) es).flatMap
        fun entry => entry.effects.writes).filter
          (fun write => write.path.head? = some "history") = [] := by
    rw [List.filter_flatMap]
    exact List.flatMap_eq_nil_iff.mpr hserved
  rw [hrest, List.append_nil]
  exact List.filter_eq_self.mpr (by simpa [Entry.effects] using history_path tap uid)

/-- The history and the credit of a REDEEM and the code that its read starts. -/
def Agrees (uid : Uid) (remote : Remote) (app : App) (tap : RedeemTap)
    (es : List (Event RedeemTap Reply)) : Prop :=
  ∃ s', redeemClient.run ⟨remote, app, []⟩ (.tap tap :: es) = .ok s' ∧
    HistoryAgrees uid remote app (redeemClient.trace ⟨remote, app, []⟩ (.tap tap :: es))
      (redeemClient.started ⟨remote, app, []⟩ (.tap tap :: es)) s'

variable {tap : RedeemTap} {es : List (Event RedeemTap Reply)}

/-- A total of 0: nothing is read. -/
theorem agrees_zero_iff (huser : app.currentUser = some uid) (hfits : LoopFits tap.quantities)
    (hzero : redeemedLeaves tap.quantities = 0) (htaps : taps es = []) :
    Agrees uid remote app tap es ↔ RedeemInTurn tap.quantities
      (redeemClient.started ⟨remote, app, []⟩ (.tap tap :: es)) := by
  have htap := redeem_tap huser tap
  rw [if_pos hfits, if_pos hzero, if_pos hzero] at htap
  have hstep : redeemClient.step ⟨remote, app, []⟩ (.tap tap) =
      .ok ⟨redeemClient.applyAll (tap.history uid) remote, app.present noItemsEntered, []⟩ := by
    simp [Client.step, htap, Except.map, Client.perform]
  obtain ⟨hrun, hstarted⟩ := redeemClient.run_idle htaps
    (redeemClient.applyAll (tap.history uid) remote) (app.present noItemsEntered)
  rw [← Client.run_cons_of_step _ hstep] at hrun
  rw [← Client.started_tap _ hstep] at hstarted
  have hhistory := historyEntries_run remote htaps htap (by simp [hstarted])
  have hagrees := agrees_nothing_iff app []
    ⟨redeemClient.applyAll (tap.history uid) remote, app.present noItemsEntered, []⟩ hhistory
    (child_history tap remote (by decide)) (child_history tap remote (by decide))
  unfold Agrees RedeemInTurn
  rw [hrun, hstarted]
  constructor
  · intro h
    obtain ⟨s', hs', hhistory⟩ := h
    obtain rfl := Except.ok.inj hs'
    exact ⟨hfits, Or.inl ⟨hagrees.mp hhistory, by simp⟩⟩
  · intro h
    refine ⟨_, rfl, hagrees.mpr ?_⟩
    rcases h.2 with ⟨hnegative, _⟩ | ⟨hpositive, _⟩
    · exact hnegative
    · -- with no negative quantity the total is the worth of the history
      have hsigns := (total_positive_iff tap.quantities
        (List.finRange manualEntryData.length)).2.mpr (fun i _ => hpositive i)
      rw [← redeemedLeaves_eq, hzero] at hsigns
      exact (total_positive_eq_zero_iff tap.quantities).mp hsigns.symm

/-- The two counters after they are credited. -/
theorem child_credited (uid : Uid) (remote : Remote) (current allTime : Int) :
    (redeemClient.applyAll [ setValue uid ["currentLeaves"] (Tree.leaf (.int current)),
        setValue uid ["allTimeLeaves"] (Tree.leaf (.int allTime)) ] remote uid).child
      "currentLeaves" = Tree.leaf (.int current) ∧
    (redeemClient.applyAll [ setValue uid ["currentLeaves"] (Tree.leaf (.int current)),
        setValue uid ["allTimeLeaves"] (Tree.leaf (.int allTime)) ] remote uid).child
      "allTimeLeaves" = Tree.leaf (.int allTime) := by
  have hnode : redeemClient.applyAll
      [ setValue uid ["currentLeaves"] (Tree.leaf (.int current)),
        setValue uid ["allTimeLeaves"] (Tree.leaf (.int allTime)) ] remote uid =
      ((remote uid).setChild "currentLeaves" (Tree.leaf (.int current))).setChild
        "allTimeLeaves" (Tree.leaf (.int allTime)) := by
    simp [redeemClient, setValue, Write.apply, fpath, Tree.set_cons]
  rw [hnode]
  refine ⟨?_, ?_⟩
  · rw [Tree.child_setChild_ne (by decide), Tree.child_setChild_same]
  · rw [Tree.child_setChild_same]

theorem agrees_iff_of_run {s' : AppSys}
    (hrun : redeemClient.run ⟨remote, app, []⟩ (.tap tap :: es) = .ok s') :
    Agrees uid remote app tap es ↔
      HistoryAgrees uid remote app (redeemClient.trace ⟨remote, app, []⟩ (.tap tap :: es))
        (redeemClient.started ⟨remote, app, []⟩ (.tap tap :: es)) s' := by
  unfold Agrees
  rw [hrun]
  simp only [Except.ok.injEq, exists_eq_left']

/-- The tap with another total than 0, as a step. -/
theorem redeem_read_step (remote : Remote) (huser : app.currentUser = some uid)
    (hfits : LoopFits tap.quantities) (hnonzero : redeemedLeaves tap.quantities ≠ 0) :
    redeemClient.tap tap app = .ok ⟨app.present (success (redeemedLeaves tap.quantities)),
        tap.history uid, [.redeemUser uid (redeemedLeaves tap.quantities)]⟩ ∧
      redeemClient.step ⟨remote, app, []⟩ (.tap tap) =
        .ok ⟨redeemClient.applyAll (tap.history uid) remote,
          app.present (success (redeemedLeaves tap.quantities)),
          [⟨.redeemUser uid (redeemedLeaves tap.quantities), none⟩]⟩ := by
  have htap := redeem_tap huser tap
  rw [if_pos hfits, if_neg hnonzero, if_neg hnonzero] at htap
  refine ⟨htap, ?_⟩
  simp [Client.step, htap, Except.map, Client.perform]

/-- No record is credited. -/
theorem agrees_uncredited_iff (huser : app.currentUser = some uid)
    (hfits : LoopFits tap.quantities) (hnonzero : redeemedLeaves tap.quantities ≠ 0)
    (htaps : taps es = []) {snapshot : Snapshot} (hnone : NoRecord snapshot)
    (hrun : redeemClient.run ⟨remote, app, []⟩ (.tap tap :: es) =
      .ok ⟨redeemClient.applyAll (tap.history uid) remote,
        app.present (success (redeemedLeaves tap.quantities)), []⟩)
    (hstarted : redeemClient.started ⟨remote, app, []⟩ (.tap tap :: es) =
      [(.redeemUser uid (redeemedLeaves tap.quantities), snapshot)]) :
    Agrees uid remote app tap es ↔ RedeemInTurn tap.quantities
      (redeemClient.started ⟨remote, app, []⟩ (.tap tap :: es)) := by
  obtain ⟨htap, -⟩ := redeem_read_step remote huser hfits hnonzero
  have hhistory := historyEntries_run remote htaps htap (by simp [hstarted])
  have hagrees := agrees_nothing_iff app
    (redeemClient.started ⟨remote, app, []⟩ (.tap tap :: es))
    ⟨redeemClient.applyAll (tap.history uid) remote,
      app.present (success (redeemedLeaves tap.quantities)), []⟩ hhistory
    (child_history tap remote (by decide)) (child_history tap remote (by decide))
  have hnot : ¬ RecordFits (redeemedLeaves tap.quantities) snapshot :=
    not_recordFits_of_noRecord hnone _
  rw [agrees_iff_of_run hrun, hagrees, RedeemInTurn, hstarted]
  simp [hfits, hnone, hnot]

/-- The record is credited. -/
theorem agrees_creditedRecord_iff (huser : app.currentUser = some uid)
    (hfits : LoopFits tap.quantities) (hnonzero : redeemedLeaves tap.quantities ≠ 0)
    (htaps : taps es = []) {node : FNode} {order : List String} {current allTime : Int}
    (hnode : node = redeemClient.applyAll (tap.history uid) remote uid)
    (hcurrent : asInt (node.child "currentLeaves") = some current)
    (hallTime : asInt (node.child "allTimeLeaves") = some allTime)
    (hrecord : RecordFits (redeemedLeaves tap.quantities) (.value node order))
    (hsome : ¬ NoRecord (.value node order))
    (hrun : redeemClient.run ⟨remote, app, []⟩ (.tap tap :: es) =
      .ok ⟨redeemClient.applyAll
          [ setValue uid ["currentLeaves"]
              (Tree.leaf (.int (current + redeemedLeaves tap.quantities))),
            setValue uid ["allTimeLeaves"]
              (Tree.leaf (.int (allTime + redeemedLeaves tap.quantities))) ]
          (redeemClient.applyAll (tap.history uid) remote),
        app.present (success (redeemedLeaves tap.quantities)), []⟩)
    (hstarted : redeemClient.started ⟨remote, app, []⟩ (.tap tap :: es) =
      [(.redeemUser uid (redeemedLeaves tap.quantities), .value node order)]) :
    Agrees uid remote app tap es ↔ RedeemInTurn tap.quantities
      (redeemClient.started ⟨remote, app, []⟩ (.tap tap :: es)) := by
  obtain ⟨htap, -⟩ := redeem_read_step remote huser hfits hnonzero
  have hhistory := historyEntries_run remote htaps htap (by simp [hstarted])
  rw [hnode, child_history tap remote (by decide)] at hcurrent hallTime
  have hcredited := child_credited uid
    (redeemClient.applyAll (tap.history uid) remote)
    (current + redeemedLeaves tap.quantities) (allTime + redeemedLeaves tap.quantities)
  have hagrees := agrees_credited_iff app
    (redeemClient.started ⟨remote, app, []⟩ (.tap tap :: es))
    ⟨redeemClient.applyAll
        [ setValue uid ["currentLeaves"]
            (Tree.leaf (.int (current + redeemedLeaves tap.quantities))),
          setValue uid ["allTimeLeaves"]
            (Tree.leaf (.int (allTime + redeemedLeaves tap.quantities))) ]
        (redeemClient.applyAll (tap.history uid) remote),
      app.present (success (redeemedLeaves tap.quantities)), []⟩
    hhistory hnonzero hcurrent hallTime (by rw [hcredited.1, asInt_int])
    (by rw [hcredited.2, asInt_int]) rfl (by simp [hstarted])
  rw [agrees_iff_of_run hrun, hagrees, RedeemInTurn, hstarted]
  simp [hfits, hsome, hrecord]

/-- Another total: the record is read. -/
theorem agrees_read_iff (huser : app.currentUser = some uid) (hfits : LoopFits tap.quantities)
    (hnonzero : redeemedLeaves tap.quantities ≠ 0) (htaps : taps es = [])
    (hdone : redeemClient.Finishes ⟨remote, app, []⟩ (.tap tap :: es)) :
    Agrees uid remote app tap es ↔ RedeemInTurn tap.quantities
      (redeemClient.started ⟨remote, app, []⟩ (.tap tap :: es)) := by
  obtain ⟨-, hstep⟩ := redeem_read_step remote huser hfits hnonzero
  have hgiven : ∀ a, (none : Option Snapshot) = some a → ∃ i, a = redeemClient.answer
      (.redeemUser uid (redeemedLeaves tap.quantities)) i
      (redeemClient.applyAll (tap.history uid) remote) :=
    fun a h => by cases h
  have huser' : (app.present (success (redeemedLeaves tap.quantities))).currentUser = some uid :=
    huser
  rcases redeemClient.started_single htaps hgiven (hdone.of_step _ hstep) with
    ⟨i, err, htrap, hrun, hstarted⟩ | ⟨i, fx, rest, hfx, hrest, hrun, hstarted⟩
  · rw [← Client.run_cons_of_step _ hstep] at hrun
    rw [← Client.started_tap _ hstep] at hstarted
    unfold Agrees RedeemInTurn
    rw [hrun, hstarted]
    have hcases := redeemUserRead_outcomes huser' (redeemedLeaves tap.quantities)
      (redeemClient.answer (.redeemUser uid (redeemedLeaves tap.quantities)) i
        (redeemClient.applyAll (tap.history uid) remote))
    change redeemUserRead _ _ _ = _ at htrap
    rcases hcases with ⟨_, hcall⟩ | ⟨_, _, _, _, _, _, _, _, _, hcall⟩ | ⟨hsome, hnot, _⟩
    · rw [hcall] at htrap
      cases htrap
    · rw [hcall] at htrap
      cases htrap
    · simp [hsome, hnot]
  · rw [← Client.run_cons_of_step _ hstep] at hrun
    rw [← Client.started_tap _ hstep] at hstarted
    obtain ⟨hend, hidle⟩ := redeemClient.run_idle hrest
      (redeemClient.applyAll fx.writes (redeemClient.applyAll (tap.history uid) remote))
      fx.state
    have hcases := redeemUserRead_outcomes huser' (redeemedLeaves tap.quantities)
      (redeemClient.answer (.redeemUser uid (redeemedLeaves tap.quantities)) i
        (redeemClient.applyAll (tap.history uid) remote))
    change redeemUserRead _ _ _ = _ at hfx
    rcases hcases with ⟨hnone, hcall⟩ |
      ⟨node, order, current, allTime, hsnapshot, hcurrent, hallTime, hrecord, hsome, hcall⟩ |
      ⟨_, _, trap, hcall⟩
    · obtain rfl := Except.ok.inj (hcall.symm.trans hfx)
      rw [List.map_nil, hend] at hrun
      rw [List.map_nil, hidle] at hstarted
      exact agrees_uncredited_iff huser hfits hnonzero htaps hnone hrun hstarted
    · obtain rfl := Except.ok.inj (hcall.symm.trans hfx)
      rw [List.map_nil, hend] at hrun
      rw [List.map_nil, hidle] at hstarted
      have hnode : node = redeemClient.applyAll (tap.history uid) remote uid := by
        cases i with
        | error => cases hsnapshot
        | value order' =>
            have hread := (Snapshot.value.inj hsnapshot).1
            exact hread.symm
      rw [hsnapshot] at hrecord hsome hstarted
      exact agrees_creditedRecord_iff huser hfits hnonzero htaps hnode hcurrent hallTime
        hrecord hsome hrun hstarted
    · rw [hcall] at hfx
      cases hfx

/-- An overflow in the loop. -/
theorem agrees_overflow_iff (huser : app.currentUser = some uid)
    (hoverflow : ¬ LoopFits tap.quantities) :
    Agrees uid remote app tap es ↔ RedeemInTurn tap.quantities
      (redeemClient.started ⟨remote, app, []⟩ (.tap tap :: es)) := by
  have htap := redeem_tap huser tap
  rw [if_neg hoverflow] at htap
  have hstep : redeemClient.step ⟨remote, app, []⟩ (.tap tap) = .error .overflow := by
    simp [Client.step, htap, Except.map]
  unfold Agrees RedeemInTurn
  rw [redeemClient.run_cons_error hstep]
  simp [hoverflow]

end Redeem

/-- **The history and the credit agree** exactly when nothing overflows and either
nothing positive is entered and no record is credited, or nothing negative is
entered and the record that is read is credited.  For all accepted texts, every
record and every outcome of the read. -/
theorem redeem_agrees_iff {uid : Uid} {remote : Remote} {app : App}
    (huser : app.currentUser = some uid) {number : String → Option Rat}
    {texts : Fin manualEntryData.length → String}
    (haccepted : ∀ i, (number (filled (texts i))).isSome) {range : String → String → Bool}
    {screen : ManualEntryViewController}
    (hscreen : run (handle manualEntryData range number) (initial manualEntryData)
      (fillIn texts) = .ok screen)
    {dateString : String} {autoId : Nat → String} {es : List (Event RedeemTap Reply)}
    (htaps : taps es = [])
    (hdone : redeemClient.Finishes ⟨remote, app, []⟩
      (.tap ⟨quantitiesOf screen, dateString, autoId⟩ :: es)) :
    Agrees uid remote app ⟨quantitiesOf screen, dateString, autoId⟩ es ↔
      RedeemInTurn (fun i => quantityOf (texts i))
        (redeemClient.started ⟨remote, app, []⟩
          (.tap ⟨quantitiesOf screen, dateString, autoId⟩ :: es)) := by
  obtain ⟨screen', hrun, hquantities⟩ := run_fillIn haccepted range
  obtain rfl := Except.ok.inj (hrun.symm.trans hscreen)
  rw [← hquantities]
  by_cases hfits : LoopFits (quantitiesOf screen')
  · by_cases hzero : redeemedLeaves (quantitiesOf screen') = 0
    · exact agrees_zero_iff huser hfits hzero htaps
    · exact agrees_read_iff huser hfits hzero htaps hdone
  · exact agrees_overflow_iff huser hfits

/-- Texts for the aluminum can and the tin can. -/
def canTexts (aluminum tin : String) (i : Fin manualEntryData.length) : String :=
  if i.val = 0 then aluminum else if i.val = 5 then tin else ""

/-- The screen with these texts, when only integers are accepted. -/
def canScreen (aluminum tin : String) : ManualEntryViewController :=
  (run (handle manualEntryData (fun _ _ => true) integersOnly) (initial manualEntryData)
    (fillIn (canTexts aluminum tin))).toOption.getD (initial manualEntryData)

theorem run_canScreen {aluminum tin : String}
    (haccepted : ∀ i, (integersOnly (filled (canTexts aluminum tin i))).isSome) :
    run (handle manualEntryData (fun _ _ => true) integersOnly) (initial manualEntryData)
      (fillIn (canTexts aluminum tin)) = .ok (canScreen aluminum tin) := by
  obtain ⟨screen, hrun, _⟩ := run_fillIn haccepted (fun _ _ => true)
  rw [canScreen, hrun]
  rfl

theorem redeem_agrees_iff_cans :
    Agrees "ann" (newUser 0) (newUserApp "ann" treeShelf)
      ⟨quantitiesOf (canScreen "2" ""), "today", fun _ => "entry"⟩
      [.answer 0 (.value []), .serve 0] := by
  have haccepted : ∀ i, (integersOnly (filled (canTexts "2" "" i))).isSome := by
    decide +kernel
  exact (redeem_agrees_iff rfl haccepted (run_canScreen haccepted) rfl
    (redeemClient.finishes_of_check (by decide +kernel))).mpr (by decide +kernel)

/-- One aluminum can is worth 2 leaves and -2 tin cans take them off: the history has
one can, and 'No items entered' is shown. -/
theorem not_redeem_agrees :
    ¬ ∀ (uid : Uid) (remote : Remote) (app : App) (number : String → Option Rat)
        (texts : Fin manualEntryData.length → String) (range : String → String → Bool)
        (screen : ManualEntryViewController) (dateString : String) (autoId : Nat → String)
        (es : List (Event RedeemTap Reply)), app.currentUser = some uid →
        (∀ i, (number (filled (texts i))).isSome) →
        run (handle manualEntryData range number) (initial manualEntryData) (fillIn texts) =
          .ok screen → taps es = [] →
        redeemClient.Finishes ⟨remote, app, []⟩
          (.tap ⟨quantitiesOf screen, dateString, autoId⟩ :: es) →
        Agrees uid remote app ⟨quantitiesOf screen, dateString, autoId⟩ es := by
  intro hclaim
  obtain ⟨s', hrun, leaves, _, _, _, _, hnone⟩ := hclaim "ann" (newUser 0)
    (newUserApp "ann" treeShelf) integersOnly (canTexts "1" "-2") (fun _ _ => true)
    (canScreen "1" "-2") "today" (fun _ => "entry") [] rfl (by decide +kernel)
    (run_canScreen (by decide +kernel)) rfl (redeemClient.finishes_of_check (by decide +kernel))
  obtain ⟨s'', hrun'', halerts⟩ : ∃ s'', redeemClient.run
      ⟨newUser 0, newUserApp "ann" treeShelf, []⟩
      [.tap ⟨quantitiesOf (canScreen "1" "-2"), "today", fun _ => "entry"⟩] = .ok s'' ∧
      s''.state.alerts = [noItemsEntered] :=
    redeemClient.exists_run_of_check (by decide +kernel)
  obtain rfl : s' = s'' := Except.ok.inj (hrun.symm.trans hrun'')
  have hempty := (hnone (Or.inl halerts)).1
  have hwritten : (historyEntries (redeemClient.trace
      ⟨newUser 0, newUserApp "ann" treeShelf, []⟩
      [.tap ⟨quantitiesOf (canScreen "1" "-2"), "today", fun _ => "entry"⟩])).isEmpty =
      false := by
    decide +kernel
  rw [hempty] at hwritten
  cases hwritten

end WillItRecycle

import WillItRecycle.GameState

/-!
# Earning leaves: the daily reward and redeeming

`GameViewController.swift` (CLAIM TODAY'S REWARDS) and
`ManualEntryViewController.swift` (REDEEM).  A claim reads the date of the last
visit first and starts the reward from that callback; both the reward and a
redeem read a counter and write back an absolute value.
-/

namespace WillItRecycle

open PathTree

/-! ## GameViewController -/

namespace GameViewController

def errorAlert : Alert :=
  ⟨"Already Claimed!", "You already claimed today's rewards"⟩

def successAlert (reward : Int) : Alert :=
  ⟨"Success! 🌱", "You claimed " ++ toString reward ++ " leaves"⟩

end GameViewController

/-- The double loop of `calculate`. -/
def rewardTotal (activeItems : List GameItem) : Int :=
  activeItems.foldl (fun total gameItem =>
    storeItems.foldl (fun total storeItem =>
      if gameItem.key = storeItem.key then total + storeItem.cost.tdiv 10
      else total) total) 0

/-- The reads `calculate` issues for the reward it has summed up. -/
def calculate (uid : Uid) (app : App) : List Read :=
  let total := rewardTotal app.activeItems
  [.calculateCurrent uid total, .calculateAllTime uid total]

/-- The tap on CLAIM TODAY'S REWARDS; `result` is the formatted date. -/
def claimOnClick (result : String) (app : App) : Handled := do
  let uid ← force .forceUnwrap app.currentUser
  .ok ⟨app, [], [.claimDate uid result]⟩

/-- The callback on `lastVisitedDate`. -/
def claimDateRead (uid : Uid) (result : String) (snapshot : Snapshot)
    (app : App) : Handled :=
  let success :=
    app.present (GameViewController.successAlert (rewardTotal app.activeItems))
  let visited :=
    setValue uid ["lastVisitedDate"] (Tree.leaf (.string result))
  match snapshot with
  | .error => app.done
  | .value node _ =>
      if node.isEmpty then
        .ok ⟨success, [visited], calculate uid app⟩
      else do
        let lastVisitedDate ← force .forceCast (asString node)
        if lastVisitedDate ≠ result then
          .ok ⟨success, [visited], calculate uid app⟩
        else
          .ok ⟨app.present GameViewController.errorAlert, [visited], []⟩

/-- The callbacks of `calculate`: add the reward to one counter. -/
def addToCounter [IntRange] (uid : Uid) (counter : String) (total : Int)
    (snapshot : Snapshot) (app : App) : Handled :=
  match snapshot with
  | .error => app.done
  | .value node _ =>
      if node.isEmpty then app.done
      else do
        let value ← force .forceCast (asInt node)
        let leaves ← intResult (value + total)
        .ok ⟨app, [setValue uid [counter] (Tree.leaf (.int leaves))], []⟩

def calculateCurrentRead [IntRange] (uid : Uid) (total : Int) : Snapshot → App → Handled :=
  addToCounter uid "currentLeaves" total

def calculateAllTimeRead [IntRange] (uid : Uid) (total : Int) : Snapshot → App → Handled :=
  addToCounter uid "allTimeLeaves" total

/-! ## ManualEntryViewController -/

structure ManualEntryItem where
  value : Int
  name : String
  deriving DecidableEq, Repr

def manualEntryData : List ManualEntryItem :=
  [ ⟨2, "Aluminum Can"⟩,
    ⟨2, "Plastic Bottle"⟩,
    ⟨3, "Cardboard Box"⟩,
    ⟨2, "Glass Bottle"⟩,
    ⟨2, "Mixed Paper"⟩,
    ⟨1, "Tin Can"⟩,
    ⟨1, "Plastic Utensils"⟩,
    ⟨1, "Paperboard"⟩,
    ⟨1, "Aluminum Foil"⟩ ]

/-- One quantity for each entry of the catalogue. -/
abbrev Quantities := Fin manualEntryData.length → Int

namespace ManualEntryViewController

def noItemsEntered : Alert :=
  ⟨"No items entered", "Please enter at least one quantity"⟩

def success (leaves : Int) : Alert :=
  ⟨"Success! 🌱",
    "You have added " ++ toString leaves ++ " leaves to your account."⟩

end ManualEntryViewController

/-- The entry of the history for one recycled item. -/
def historyItem (dateString name : String) (quantity : Int) : FNode :=
  ((Tree.empty.setChild "date" (Tree.leaf (.string dateString))).setChild
    "name" (Tree.leaf (.string name))).setChild
    "quantity" (Tree.leaf (.int quantity))

/-- The history entry written for an item; `autoId` gives the names generated by
`childByAutoId`. -/
def historyWrite (uid : Uid) (quantities : Quantities) (dateString : String)
    (autoId : Nat → String) (i : Fin manualEntryData.length) : Write :=
  setValue uid ["history", autoId i.val]
    (historyItem dateString (manualEntryData.get i).name (quantities i))

/-- The items whose history REDEEM writes. -/
def positiveItems (quantities : Quantities) : List (Fin manualEntryData.length) :=
  (List.finRange manualEntryData.length).filter fun i => quantities i > 0

/-- The leaves for one item. -/
def worth (quantities : Quantities) (i : Fin manualEntryData.length) : Int :=
  quantities i * (manualEntryData.get i).value

/-! ### The loop -/

section Loop

variable [IntRange] (uid : Uid) (quantities : Quantities) (dateString : String)
  (autoId : Nat → String)

/-- `leaves += quantities[i] * manualEntryData[i].value` -/
def addWorth (leaves : Int) (i : Fin manualEntryData.length) : Except Trap Int := do
  let product ← intResult (worth quantities i)
  intResult (leaves + product)

/-- One turn of the loop of `redeemButtonPressed`: the history written so far and the
leaves earned, until it traps. -/
def redeemRound (state : List Write × Except Trap Int) (i : Fin manualEntryData.length) :
    List Write × Except Trap Int :=
  match state with
  | (history, .error trap) => (history, .error trap)
  | (history, .ok leaves) =>
      match addWorth quantities leaves i with
      | .error trap => (history, .error trap)
      | .ok leaves' =>
          (if quantities i > 0 then
            history ++ [historyWrite uid quantities dateString autoId i]
          else history, .ok leaves')

/-- The loop of `redeemButtonPressed`. -/
def redeemLoop : List Write × Except Trap Int :=
  (List.finRange manualEntryData.length).foldl
    (redeemRound uid quantities dateString autoId) ([], .ok 0)

/-- After a trap nothing is written. -/
theorem foldl_redeemRound_error (rows : List (Fin manualEntryData.length))
    (history : List Write) (trap : Trap) :
    rows.foldl (redeemRound uid quantities dateString autoId) (history, .error trap) =
      (history, .error trap) := by
  induction rows with
  | nil => rfl
  | cons i rows ih => exact ih

/-- A turn that does not trap adds what the item is worth. -/
theorem eq_of_addWorth {leaves leaves' : Int} {i : Fin manualEntryData.length}
    (h : addWorth quantities leaves i = .ok leaves') : leaves' = leaves + worth quantities i := by
  unfold addWorth at h
  cases hproduct : intResult (worth quantities i) with
  | error trap => simp [hproduct, bind, Except.bind] at h
  | ok product =>
      have hsum : intResult (leaves + product) = .ok leaves' := by
        simpa [hproduct, bind, Except.bind] using h
      rw [eq_of_intResult hsum, eq_of_intResult hproduct]

/-- **The loop that does not trap** sums up what the quantities are worth, of either
sign, and writes the history of the positive ones. -/
theorem eq_of_redeemLoop {leaves : Int}
    (h : (redeemLoop uid quantities dateString autoId).2 = .ok leaves) :
    leaves = ((List.finRange manualEntryData.length).map (worth quantities)).sum ∧
      (redeemLoop uid quantities dateString autoId).1 =
        (positiveItems quantities).map (historyWrite uid quantities dateString autoId) := by
  have hloop : ∀ (rows : List (Fin manualEntryData.length)) (history : List Write)
      (sofar : Int),
      (rows.foldl (redeemRound uid quantities dateString autoId) (history, .ok sofar)).2 =
        .ok leaves →
      leaves = sofar + (rows.map (worth quantities)).sum ∧
        (rows.foldl (redeemRound uid quantities dateString autoId) (history, .ok sofar)).1 =
          history ++ (rows.filter fun i => quantities i > 0).map
            (historyWrite uid quantities dateString autoId) := by
    intro rows
    induction rows with
    | nil =>
        intro history sofar hrows
        obtain rfl := Except.ok.inj hrows
        simp
    | cons i rows ih =>
        intro history sofar hrows
        rw [List.foldl_cons] at hrows ⊢
        cases hturn : addWorth quantities sofar i with
        | error trap =>
            simp [redeemRound, hturn, foldl_redeemRound_error] at hrows
        | ok sofar' =>
            simp only [redeemRound, hturn] at hrows ⊢
            obtain ⟨hleaves, hhistory⟩ := ih _ _ hrows
            refine ⟨?_, ?_⟩
            · rw [hleaves, eq_of_addWorth quantities hturn, List.map_cons, List.sum_cons,
                Int.add_assoc]
            · rw [hhistory]
              by_cases hpositive : quantities i > 0
              · simp [hpositive]
              · simp [hpositive]
  obtain ⟨hleaves, hhistory⟩ := hloop (List.finRange manualEntryData.length) [] 0 h
  rw [Int.zero_add] at hleaves
  exact ⟨hleaves, hhistory⟩

end Loop

/-- No amount and no partial sum overflows. -/
def SumsFit {α : Type} (amount : α → Int) : Int → List α → Prop
  | _, [] => True
  | sofar, x :: xs =>
      FitsInt (amount x) ∧ FitsInt (sofar + amount x) ∧ SumsFit amount (sofar + amount x) xs

instance SumsFit.decidable {α : Type} (amount : α → Int) :
    ∀ (sofar : Int) (xs : List α), Decidable (SumsFit amount sofar xs)
  | _, [] => isTrue trivial
  | sofar, x :: xs =>
      @instDecidableAnd _ _ _ (@instDecidableAnd _ _ _
        (SumsFit.decidable amount (sofar + amount x) xs))

/-- REDEEM's loop does not overflow. -/
def LoopFits (quantities : Quantities) : Prop :=
  SumsFit (worth quantities) 0 (List.finRange manualEntryData.length)

instance (quantities : Quantities) : Decidable (LoopFits quantities) :=
  inferInstanceAs (Decidable (SumsFit (worth quantities) 0 _))

/-- The rows before the first that overflows. -/
def beforeOverflow {α : Type} (amount : α → Int) : Int → List α → List α
  | _, [] => []
  | sofar, x :: xs =>
      if FitsInt (amount x) ∧ FitsInt (sofar + amount x) then
        x :: beforeOverflow amount (sofar + amount x) xs
      else []

theorem beforeOverflow_eq {α : Type} {amount : α → Int} {xs : List α} :
    ∀ {sofar : Int}, SumsFit amount sofar xs → beforeOverflow amount sofar xs = xs := by
  induction xs with
  | nil =>
      intro sofar _
      rfl
  | cons x xs ih =>
      intro sofar hfits
      obtain ⟨hamount, hsum, hrest⟩ := hfits
      rw [beforeOverflow, if_pos ⟨hamount, hsum⟩, ih hrest]

section Loop64

variable (uid : Uid) (quantities : Quantities) (dateString : String) (autoId : Nat → String)

theorem addWorth_eq (leaves : Int) (i : Fin manualEntryData.length) :
    addWorth quantities leaves i =
      if FitsInt (worth quantities i) ∧ FitsInt (leaves + worth quantities i) then
        .ok (leaves + worth quantities i)
      else .error .overflow := by
  unfold addWorth
  by_cases hproduct : FitsInt (worth quantities i)
  · simp [intResult_eq, hproduct, bind, Except.bind]
  · simp [intResult_eq, hproduct, bind, Except.bind]

/-- **What the loop leaves**, on 64 bits: the history of the positive quantities before
the row that overflows, and the leaves or the trap. -/
theorem redeemLoop_eq :
    redeemLoop uid quantities dateString autoId =
      (((beforeOverflow (worth quantities) 0 (List.finRange manualEntryData.length)).filter
          fun i => quantities i > 0).map (historyWrite uid quantities dateString autoId),
        if LoopFits quantities then
          .ok ((List.finRange manualEntryData.length).map (worth quantities)).sum
        else .error .overflow) := by
  have hloop : ∀ (rows : List (Fin manualEntryData.length)) (history : List Write)
      (sofar : Int),
      rows.foldl (redeemRound uid quantities dateString autoId) (history, .ok sofar) =
        (history ++ ((beforeOverflow (worth quantities) sofar rows).filter
            fun i => quantities i > 0).map (historyWrite uid quantities dateString autoId),
          if SumsFit (worth quantities) sofar rows then
            .ok (sofar + (rows.map (worth quantities)).sum)
          else .error .overflow) := by
    intro rows
    induction rows with
    | nil =>
        intro history sofar
        simp [SumsFit, beforeOverflow]
    | cons i rows ih =>
        intro history sofar
        rw [List.foldl_cons, redeemRound, addWorth_eq, beforeOverflow]
        by_cases hfits : FitsInt (worth quantities i) ∧ FitsInt (sofar + worth quantities i)
        · simp only [if_pos hfits]
          rw [ih, List.map_cons, List.sum_cons, Int.add_assoc]
          by_cases hpositive : quantities i > 0
          · simp [SumsFit, hfits, hpositive]
          · simp [SumsFit, hfits, hpositive]
        · have hnot : ¬ SumsFit (worth quantities) sofar (i :: rows) :=
            fun hsums => hfits ⟨hsums.1, hsums.2.1⟩
          simp only [if_neg hfits]
          rw [foldl_redeemRound_error, if_neg hnot]
          simp
  have hall := hloop (List.finRange manualEntryData.length) [] 0
  rw [Int.zero_add, List.nil_append] at hall
  exact hall

/-- Without an overflow the whole history is written. -/
theorem redeemLoop_of_fits (hfits : LoopFits quantities) :
    redeemLoop uid quantities dateString autoId =
      ((positiveItems quantities).map (historyWrite uid quantities dateString autoId),
        .ok ((List.finRange manualEntryData.length).map (worth quantities)).sum) := by
  rw [redeemLoop_eq, if_pos hfits, beforeOverflow_eq hfits]
  rfl

end Loop64

/-! ### The tap and its callback -/

/-- The tap on REDEEM. -/
def redeemButtonPressed [IntRange] (quantities : Quantities) (dateString : String)
    (autoId : Nat → String) (app : App) : Handled := do
  let uid ← force .forceUnwrap app.currentUser
  let (history, sum) := redeemLoop uid quantities dateString autoId
  let leaves ← sum
  if leaves = 0 then
    .ok ⟨app.present ManualEntryViewController.noItemsEntered, history, []⟩
  else
    .ok ⟨app.present (ManualEntryViewController.success leaves), history,
      [.redeemUser uid leaves]⟩

/-- The callback on the user's record; it credits whoever is signed in then. -/
def redeemUserRead [IntRange] (leaves : Int) (snapshot : Snapshot) (app : App) : Handled :=
  match snapshot with
  | .error => app.done
  | .value node _ =>
      if node.isEmpty then app.done
      else
        match asDictionary node with
        | none => app.done
        | some _ => do
            let uid ← force .forceUnwrap app.currentUser
            let currentLeaves ←
              force .forceCast (asInt (node.child "currentLeaves"))
            let current ← intResult (currentLeaves + leaves)
            let allTimeLeaves ←
              force .forceCast (asInt (node.child "allTimeLeaves"))
            let allTime ← intResult (allTimeLeaves + leaves)
            .ok ⟨app,
              [ setValue uid ["currentLeaves"] (Tree.leaf (.int current)),
                setValue uid ["allTimeLeaves"] (Tree.leaf (.int allTime)) ], []⟩

end WillItRecycle

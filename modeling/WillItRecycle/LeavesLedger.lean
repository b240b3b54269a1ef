import WillItRecycle.OneRewardPerDay
import Mathlib.Algebra.BigOperators.Group.List.Basic

/-!
# The leaves ledger

Six callbacks read a counter and later write an absolute value computed from
what they read.  An update is lost exactly when another write came in between.

`run_ledger` is the ledger equation for every run in which that does not
happen: the stored counters are the initial ones with all redeems and rewards
added and the costs of the delivered purchases taken off.  What is charged is
what is delivered, although the two callbacks of a purchase only share a
captured variable (`Purchases`).
-/

namespace WillItRecycle

open PathTree ReadCallback

/-! ## The ledger of a run -/

def total {α : Type} (amount : α → Int) (xs : List α) : Int := (xs.map amount).sum

@[simp] theorem total_nil {α : Type} (amount : α → Int) : total amount [] = 0 := rfl

@[simp] theorem total_cons {α : Type} (amount : α → Int) (x : α) (xs : List α) :
    total amount (x :: xs) = amount x + total amount xs := by
  simp [total]

@[simp] theorem total_append {α : Type} (amount : α → Int) (xs ys : List α) :
    total amount (xs ++ ys) = total amount xs + total amount ys := by
  simp [total]

theorem total_snoc {α : Type} (amount : α → Int) (xs : List α) (x : α) :
    total amount (xs ++ [x]) = total amount xs + amount x := by
  simp

theorem total_perm {α : Type} (amount : α → Int) {xs ys : List α} (h : xs.Perm ys) :
    total amount xs = total amount ys :=
  (h.map amount).sum_eq

theorem total_congr {α : Type} {amount amount' : α → Int} {xs : List α}
    (h : ∀ x ∈ xs, amount x = amount' x) : total amount xs = total amount' xs := by
  unfold total
  rw [List.map_congr_left h]

theorem total_nonneg {α : Type} {amount : α → Int} {xs : List α}
    (h : ∀ x ∈ xs, 0 ≤ amount x) : 0 ≤ total amount xs := by
  unfold total
  apply List.sum_nonneg
  intro value hvalue
  obtain ⟨x, hx, rfl⟩ := List.mem_map.mp hvalue
  exact h x hx

/-- The leaves a redeem is worth. -/
def redeemedLeaves (quantities : Quantities) : Int :=
  total (fun i => quantities i * (manualEntryData.get i).value)
    (List.finRange manualEntryData.length)

/-- The leaves redeemed by a piece of code. -/
def redeemed : AppEntry → Int
  | .tapped (.redeem quantities _ _) _ => redeemedLeaves quantities
  | _ => 0

/-- The reward of a claim; none when it found today's date. -/
def rewarded : AppEntry → Int
  | .served (.claimDate _ _) _ fx =>
      if fx.reads.isEmpty then 0 else rewardTotal fx.state.activeItems
  | _ => 0

/-- The cost of a purchase that delivered its item. -/
def spent : AppEntry → Int
  | .served (.buyInventory _ cell _ _) _ fx =>
      if fx.writes.isEmpty then 0 else (fx.state.shown cell).cost
  | _ => 0

/-! ## The condition -/

/-- The counters a callback computes from its answer, by their paths below what
it read. -/
def Read.counters : Read → List (List String)
  | .buyLeaves _ _ _ | .calculateCurrent _ _ | .calculateAllTime _ _ => [[]]
  | .redeemUser _ _ => [["currentLeaves"], ["allTimeLeaves"]]
  | _ => []

/-- Whether the callback writes the counters: a purchase only when the answer
covers the cost. -/
def Read.Overwrites (read : Read) (app : App) (node : FNode) : Prop :=
  match read with
  | .buyLeaves _ cell _ =>
      ∃ leaves, asInt node = some leaves ∧ leaves - (app.shown cell).cost ≥ 0
  | _ => True

instance (read : Read) (app : App) (node : FNode) :
    Decidable (read.Overwrites app node) :=
  match read with
  | .buyLeaves _ cell _ =>
      decidable_of_iff
        ((asInt node).any (fun leaves => leaves - (app.shown cell).cost ≥ 0) = true)
        (by simp [Read.Overwrites, Option.any_eq_true])
  | .buyInventory _ _ _ _ | .placeActive _ _ _ _ | .placeInventory _ _
  | .removeActive _ _ _ | .removeInventory _ _ | .claimDate _ _
  | .calculateCurrent _ _ | .calculateAllTime _ _ | .redeemUser _ _ | .signInName _ _
  | .signInInventory _ | .signInActive _ => isTrue trivial

/-- A callback that writes counters runs while those stored are still the ones
in its answer. -/
def CountersCurrent (read : Read) (snapshot : Snapshot) (remote : Remote) (app : App) :
    Prop :=
  match snapshot with
  | .error => True
  | .value node _ => read.Overwrites app node → ∀ path ∈ read.counters,
      asInt (node.get path) = asInt (((remote read.uid).get read.path).get path)

instance (read : Read) (snapshot : Snapshot) (remote : Remote) (app : App) :
    Decidable (CountersCurrent read snapshot remote app) :=
  match snapshot with
  | .error => isTrue trivial
  | .value node _ =>
      inferInstanceAs (Decidable (read.Overwrites app node → ∀ path ∈ read.counters,
        asInt (node.get path) = asInt (((remote read.uid).get read.path).get path)))

/-- The user buys, claims and redeems quantities from the number pad, and no
read fails. -/
def EarnsAndSpends (_ : AppSys) : AppEvent → Prop
  | .tap (.buy _) | .tap (.claim _) => True
  | .tap (.redeem quantities _ _) => ∀ i, 0 ≤ quantities i
  | .tap _ => False
  | .answer _ reply => reply.Succeeds
  | .serve _ => True

instance (s : AppSys) (e : AppEvent) : Decidable (EarnsAndSpends s e) :=
  match e with
  | .tap (.redeem quantities _ _) => inferInstanceAs (Decidable (∀ i, 0 ≤ quantities i))
  | .tap (.buy _) | .tap (.claim _) => isTrue trivial
  | .tap (.place _ _ _) | .tap (.remove _) | .tap (.cellForRow _ _) | .tap (.signIn _ _)
  | .tap .signOut => isFalse id
  | .answer _ reply => inferInstanceAs (Decidable reply.Succeeds)
  | .serve _ => isTrue trivial

/-! ## Purchases in flight -/

/-- What a pending callback is still to add to a counter. -/
def Read.owedCurrent : Read → Int
  | .calculateCurrent _ reward => reward
  | .redeemUser _ leaves => leaves
  | _ => 0

def Read.owedAllTime : Read → Int
  | .calculateAllTime _ reward => reward
  | .redeemUser _ leaves => leaves
  | _ => 0

/-- The tap and the cell of a purchase whose wallet read is pending. -/
def Read.charging : Read → Option (Nat × Nat)
  | .buyLeaves _ cell tap => some (tap, cell)
  | _ => none

/-- The tap and the cell of a purchase whose delivery is pending. -/
def Read.delivering : Read → Option (Nat × Nat)
  | .buyInventory _ cell tap _ => some (tap, cell)
  | _ => none

/-- What a purchase has been charged. -/
def App.charged (app : App) (purchase : Nat × Nat) : Int :=
  match app.currentLeaves[purchase.1]? with
  | some (some leaves) =>
      if leaves - (app.shown purchase.2).cost ≥ 0 then (app.shown purchase.2).cost
      else 0
  | _ => 0

/-- Every purchase has one captured variable, is delivered once and charged once,
and what is still to be charged has captured nothing yet. -/
structure Purchases (captured : List (Option Int)) (reads : List Read) : Prop where
  onceDelivered : ((reads.filterMap Read.delivering).map Prod.fst).Nodup
  onceCharged : ((reads.filterMap Read.charging).map Prod.fst).Nodup
  tapped : ∀ purchase ∈ reads.filterMap Read.delivering, purchase.1 < captured.length
  paired : ∀ purchase ∈ reads.filterMap Read.charging,
    purchase ∈ reads.filterMap Read.delivering ∧ captured[purchase.1]? = some none

theorem Purchases.perm {captured : List (Option Int)} {reads reads' : List Read}
    (h : Purchases captured reads) (hperm : reads.Perm reads') :
    Purchases captured reads' := by
  have hdelivering := hperm.filterMap Read.delivering
  have hcharging := hperm.filterMap Read.charging
  refine ⟨?_, ?_, ?_, ?_⟩
  · exact (hdelivering.map _).nodup_iff.mp h.onceDelivered
  · exact (hcharging.map _).nodup_iff.mp h.onceCharged
  · intro purchase hpurchase
    exact h.tapped purchase (hdelivering.symm.subset hpurchase)
  · intro purchase hpurchase
    obtain ⟨hmem, hnone⟩ := h.paired purchase (hcharging.symm.subset hpurchase)
    exact ⟨hdelivering.subset hmem, hnone⟩

/-- A read of no purchase comes or goes. -/
theorem Purchases.cons_iff {captured : List (Option Int)} {read : Read}
    {reads : List Read} (hdelivering : read.delivering = none)
    (hcharging : read.charging = none) :
    Purchases captured (read :: reads) ↔ Purchases captured reads := by
  have hdeliveries : (read :: reads).filterMap Read.delivering =
      reads.filterMap Read.delivering := List.filterMap_cons_none hdelivering
  have hcharges : (read :: reads).filterMap Read.charging =
      reads.filterMap Read.charging := List.filterMap_cons_none hcharging
  constructor
  · intro h
    obtain ⟨honce, honce', htapped, hpaired⟩ := h
    rw [hdeliveries] at honce htapped hpaired
    rw [hcharges] at honce' hpaired
    exact ⟨honce, honce', htapped, hpaired⟩
  · intro h
    refine ⟨?_, ?_, ?_, ?_⟩
    · rw [hdeliveries]
      exact h.onceDelivered
    · rw [hcharges]
      exact h.onceCharged
    · rw [hdeliveries]
      exact h.tapped
    · rw [hdeliveries, hcharges]
      exact h.paired

/-- A tap on BUY starts a purchase with a variable of its own. -/
theorem Purchases.buy {captured : List (Option Int)} {reads : List Read}
    (h : Purchases captured reads) (uid uid' : Uid) (cell : Nat) (key : String) :
    Purchases (captured ++ [none])
      (.buyLeaves uid cell captured.length ::
        .buyInventory uid' cell captured.length key :: reads) := by
  have hlt : ∀ purchase ∈ reads.filterMap Read.charging,
      purchase.1 < captured.length :=
    fun purchase hpurchase => h.tapped purchase (h.paired purchase hpurchase).1
  refine ⟨?_, ?_, ?_, ?_⟩
  · change (captured.length :: (reads.filterMap Read.delivering).map Prod.fst).Nodup
    rw [List.nodup_cons]
    refine ⟨?_, h.onceDelivered⟩
    intro hmem
    obtain ⟨purchase, hpurchase, heq⟩ := List.mem_map.mp hmem
    have hold := h.tapped purchase hpurchase
    omega
  · change (captured.length :: (reads.filterMap Read.charging).map Prod.fst).Nodup
    rw [List.nodup_cons]
    refine ⟨?_, h.onceCharged⟩
    intro hmem
    obtain ⟨purchase, hpurchase, heq⟩ := List.mem_map.mp hmem
    have hold := hlt purchase hpurchase
    omega
  · intro purchase hpurchase
    rw [List.length_append, List.length_singleton]
    change purchase ∈ (captured.length, cell) :: reads.filterMap Read.delivering
      at hpurchase
    rcases List.mem_cons.mp hpurchase with rfl | hpurchase
    · exact Nat.lt_succ_self _
    · exact Nat.lt_succ_of_lt (h.tapped purchase hpurchase)
  · intro purchase hpurchase
    change purchase ∈ (captured.length, cell) :: reads.filterMap Read.delivering ∧ _
    change purchase ∈ (captured.length, cell) :: reads.filterMap Read.charging
      at hpurchase
    rcases List.mem_cons.mp hpurchase with rfl | hpurchase
    · exact ⟨List.mem_cons_self, List.getElem?_concat_length⟩
    · obtain ⟨hmem, hnone⟩ := h.paired purchase hpurchase
      refine ⟨List.mem_cons_of_mem _ hmem, ?_⟩
      rw [List.getElem?_append_left (hlt purchase hpurchase)]
      exact hnone

/-- The wallet read of a purchase has been served. -/
theorem Purchases.charge {captured : List (Option Int)} {reads : List Read}
    {uid : Uid} {cell tap : Nat}
    (h : Purchases captured (.buyLeaves uid cell tap :: reads)) (leaves : Option Int) :
    Purchases (captured.set tap leaves) reads := by
  obtain ⟨honce, honce', htapped, hpaired⟩ := h
  change (tap :: (reads.filterMap Read.charging).map Prod.fst).Nodup at honce'
  rw [List.nodup_cons] at honce'
  refine ⟨honce, honce'.2, ?_, ?_⟩
  · intro purchase hpurchase
    rw [List.length_set]
    exact htapped purchase hpurchase
  · intro purchase hpurchase
    obtain ⟨hmem, hnone⟩ := hpaired purchase (List.mem_cons_of_mem _ hpurchase)
    refine ⟨hmem, ?_⟩
    have hother : tap ≠ purchase.1 := by
      intro heq
      exact honce'.1 (heq ▸ List.mem_map_of_mem hpurchase)
    rw [List.getElem?_set_ne hother]
    exact hnone

/-- A delivery that found the wallet captured has been served. -/
theorem Purchases.deliver {captured : List (Option Int)} {reads : List Read}
    {uid : Uid} {cell tap : Nat} {key : String} {leaves : Int}
    (h : Purchases captured (.buyInventory uid cell tap key :: reads))
    (hcaptured : captured[tap]? = some (some leaves)) : Purchases captured reads := by
  obtain ⟨honce, honce', htapped, hpaired⟩ := h
  change (tap :: (reads.filterMap Read.delivering).map Prod.fst).Nodup at honce
  rw [List.nodup_cons] at honce
  refine ⟨honce.2, honce', ?_, ?_⟩
  · intro purchase hpurchase
    exact htapped purchase (List.mem_cons_of_mem _ hpurchase)
  · intro purchase hpurchase
    obtain ⟨hmem, hnone⟩ := hpaired purchase hpurchase
    refine ⟨?_, hnone⟩
    change purchase ∈ (tap, cell) :: reads.filterMap Read.delivering at hmem
    rcases List.mem_cons.mp hmem with rfl | hmem
    · rw [hcaptured] at hnone
      cases hnone
    · exact hmem

theorem App.charged_congr {app app' : App} (hshelf : app'.storeItem = app.storeItem)
    {purchase : Nat × Nat}
    (hcaptured : app'.currentLeaves[purchase.1]? = app.currentLeaves[purchase.1]?) :
    app'.charged purchase = app.charged purchase := by
  unfold App.charged App.shown
  rw [hcaptured, hshelf]

/-- A new purchase has not been charged. -/
theorem Purchases.total_buy {app : App} {reads : List Read}
    (h : Purchases app.currentLeaves reads) (uid uid' : Uid) (cell : Nat)
    (key : String) :
    total ({ app with currentLeaves := app.currentLeaves ++ [none] } : App).charged
        ((.buyLeaves uid cell app.currentLeaves.length ::
          .buyInventory uid' cell app.currentLeaves.length key ::
            reads).filterMap Read.delivering) =
      total app.charged (reads.filterMap Read.delivering) := by
  change total _ ((app.currentLeaves.length, cell) ::
    reads.filterMap Read.delivering) = _
  have hnew : ({ app with currentLeaves := app.currentLeaves ++ [none] } : App).charged
      (app.currentLeaves.length, cell) = 0 := by
    unfold App.charged
    simp
  rw [total_cons, hnew, Int.zero_add]
  apply total_congr
  intro purchase hpurchase
  refine App.charged_congr ?_ ?_
  · rfl
  · exact List.getElem?_append_left (h.tapped purchase hpurchase)

/-- Serving the wallet read charges its own purchase. -/
theorem Purchases.total_charge {app : App} {reads : List Read} {uid : Uid}
    {cell tap : Nat}
    (h : Purchases app.currentLeaves (.buyLeaves uid cell tap :: reads)) (leaves : Int) :
    total ({ app with
        currentLeaves := app.currentLeaves.set tap (some leaves) } : App).charged
        (reads.filterMap Read.delivering) =
      total app.charged (reads.filterMap Read.delivering) +
        if leaves - (app.shown cell).cost ≥ 0 then (app.shown cell).cost else 0 := by
  obtain ⟨hmem, hnone⟩ := h.paired (tap, cell) List.mem_cons_self
  have hlt := h.tapped (tap, cell) hmem
  have honce := h.onceDelivered
  change (tap, cell) ∈ reads.filterMap Read.delivering at hmem
  change ((reads.filterMap Read.delivering).map Prod.fst).Nodup at honce
  obtain ⟨before, after, hsplit⟩ := List.append_of_mem hmem
  rw [hsplit, List.map_append, List.map_cons, List.nodup_middle, List.nodup_cons,
    ← List.map_append] at honce
  have hother : ∀ purchase ∈ before ++ after,
      ({ app with
        currentLeaves := app.currentLeaves.set tap (some leaves) } : App).charged
          purchase = app.charged purchase := by
    intro purchase hpurchase
    refine App.charged_congr ?_ ?_
    · rfl
    · apply List.getElem?_set_ne
      intro heq
      exact honce.1 (List.mem_map.mpr ⟨purchase, hpurchase, heq.symm⟩)
  have hbefore : app.charged (tap, cell) = 0 := by
    unfold App.charged
    rw [hnone]
  have hafter : ({ app with
      currentLeaves := app.currentLeaves.set tap (some leaves) } : App).charged
        (tap, cell) =
      if leaves - (app.shown cell).cost ≥ 0 then (app.shown cell).cost else 0 := by
    unfold App.charged
    rw [List.getElem?_set_self hlt]
    rfl
  have hrest := total_congr hother
  rw [total_append, total_append] at hrest
  rw [hsplit, total_append, total_append, total_cons, total_cons, hbefore, hafter]
  omega

/-! ## The stored counters -/

/-- Writes elsewhere leave a field of a record. -/
theorem child_applyAll_of_ne {writes : List Write} {field : String}
    (h : ∀ write ∈ writes, ∃ field' path, write.path = field' :: path ∧ field ≠ field')
    (uid : Uid) (remote : Remote) :
    (client.applyAll writes remote uid).child field = (remote uid).child field := by
  induction writes generalizing remote with
  | nil => rfl
  | cons write writes ih =>
      have htail := ih (fun w hw => h w (List.mem_cons_of_mem _ hw)) (write.apply remote)
      rw [Client.applyAll_cons, client_apply, htail]
      obtain ⟨field', path, hpath, hne⟩ := h write List.mem_cons_self
      by_cases huid : write.uid = uid
      · subst huid
        rw [apply_same, hpath, Tree.set_cons, Tree.child_setChild_ne hne]
      · rw [apply_other huid]

/-- A counter written is stored. -/
theorem child_setCounter (uid : Uid) {counter : String} (hcounter : counter ≠ "")
    (value : FNode) (remote : Remote) :
    (client.applyAll [setValue uid [counter] value] remote uid).child counter = value := by
  have hpath : (setValue uid [counter] value).path = [counter] := by
    simp [setValue, fpath, hcounter]
  have hset := apply_same (setValue uid [counter] value) remote
  rw [hpath, Tree.set_cons] at hset
  rw [Client.applyAll_cons, Client.applyAll_nil, client_apply]
  exact hset ▸ Tree.child_setChild_same _ _ _

/-- The other counters stay. -/
theorem child_setCounter_ne (uid : Uid) {counter field : String} (hcounter : counter ≠ "")
    (hne : field ≠ counter) (value : FNode) (remote : Remote) :
    (client.applyAll [setValue uid [counter] value] remote uid).child field =
      (remote uid).child field := by
  apply child_applyAll_of_ne
  intro write hwrite
  rw [List.mem_singleton.mp hwrite]
  exact ⟨counter, [], by simp [setValue, fpath, hcounter], hne⟩

/-- What a purchase's first callback does with any answer. -/
theorem buyLeavesRead_cases {uid : Uid} {cell tap : Nat} {node : FNode}
    {order : List String} {app : App} {fx : Effects App Write Read}
    (hfx : buyLeavesRead uid cell tap (.value node order) app = .ok fx) :
    fx = ⟨app, [], []⟩ ∧ asInt node = none ∨
      ∃ leaves, asInt node = some leaves ∧
        fx = ⟨{ app with currentLeaves := app.currentLeaves.set tap (some leaves) },
          chargeWrites uid leaves (app.shown cell).cost, []⟩ := by
  unfold buyLeavesRead at hfx
  by_cases hempty : node.isEmpty = true
  · simp only [hempty, if_true] at hfx
    left
    refine ⟨(Except.ok.inj hfx).symm, ?_⟩
    rw [Tree.isEmpty_iff.mp hempty]
    rfl
  · simp only [hempty, Bool.false_eq_true, if_false] at hfx
    cases hleaves : asInt node with
    | none => simp [hleaves, bind, Except.bind] at hfx
    | some leaves =>
        right
        refine ⟨leaves, rfl, ?_⟩
        have hshown : App.shown { app with
            currentLeaves := app.currentLeaves.set tap (some leaves) } cell =
            app.shown cell := rfl
        simp only [hleaves, force_some, bind, Except.bind, hshown] at hfx
        unfold chargeWrites
        by_cases hcost : leaves - (app.shown cell).cost ≥ 0
        · simp only [if_pos hcost] at hfx ⊢
          exact (Except.ok.inj hfx).symm
        · simp only [if_neg hcost] at hfx ⊢
          exact (Except.ok.inj hfx).symm

/-- What a purchase's second callback does: it delivers exactly when the captured
wallet covers the cost. -/
theorem buyInventoryRead_cases {uid : Uid} {cell tap : Nat} {node : FNode}
    {order : List String} {app : App} {fx : Effects App Write Read}
    (hfx : buyInventoryRead uid cell tap (.value node order) app = .ok fx) :
    ∃ leaves, app.currentLeaves[tap]? = some (some leaves) ∧
      fx.state.currentUser = app.currentUser ∧
      fx.state.currentLeaves = app.currentLeaves ∧
      fx.state.storeItem = app.storeItem ∧ fx.reads = [] ∧
      (∀ write ∈ fx.writes, ∃ path, write.path = "inventory" :: path) ∧
      (fx.writes.isEmpty = false ↔ leaves - (app.shown cell).cost ≥ 0) := by
  have hcaptured : ∀ leaves, app.capturedLeaves tap = .ok leaves →
      app.currentLeaves[tap]? = some (some leaves) := by
    intro leaves hleaves
    have hjoin := force_eq_ok hleaves
    cases hvariable : app.currentLeaves[tap]? with
    | none => rw [hvariable] at hjoin; cases hjoin
    | some captured => rw [hvariable] at hjoin; exact congrArg some hjoin
  have hpath : ∀ key value, ∃ path,
      (setValue uid ["inventory", key] value).path = "inventory" :: path :=
    fun key _ => ⟨fpath [key], rfl⟩
  unfold buyInventoryRead at hfx
  cases hleaves : app.capturedLeaves tap with
  | error trap => simp [hleaves, bind, Except.bind] at hfx
  | ok leaves =>
      refine ⟨leaves, hcaptured leaves hleaves, ?_⟩
      by_cases hcost : leaves - (app.shown cell).cost ≥ 0
      · by_cases hempty : node.isEmpty = true
        · simp only [hempty, if_true, hleaves, bind, Except.bind, if_pos hcost] at hfx
          cases hfx
          refine ⟨rfl, rfl, rfl, rfl, ?_, iff_of_true rfl hcost⟩
          intro write hwrite
          rw [List.mem_singleton.mp hwrite]
          exact hpath _ _
        · simp only [hempty, Bool.false_eq_true, if_false, hleaves, bind, Except.bind,
            if_pos hcost] at hfx
          cases hcount : force .forceCast (asInt node) with
          | error trap => simp [hcount] at hfx
          | ok count =>
              simp only [hcount] at hfx
              cases hfx
              refine ⟨rfl, rfl, rfl, rfl, ?_, iff_of_true rfl hcost⟩
              intro write hwrite
              rw [List.mem_singleton.mp hwrite]
              exact hpath _ _
      · have hdone : fx = ⟨app.present StoreTableViewCell.errorAlert, [], []⟩ := by
          by_cases hempty : node.isEmpty = true
          · simp only [hempty, if_true, hleaves, bind, Except.bind, if_neg hcost] at hfx
            exact (Except.ok.inj hfx).symm
          · simp only [hempty, Bool.false_eq_true, if_false, hleaves, bind, Except.bind,
              if_neg hcost] at hfx
            exact (Except.ok.inj hfx).symm
        subst hdone
        refine ⟨rfl, rfl, rfl, rfl, ?_, iff_of_false Bool.noConfusion hcost⟩
        intro write hwrite
        cases hwrite

theorem isEmpty_of_asInt {node : FNode} {value : Int} (h : asInt node = some value) :
    node.isEmpty = false := by
  rw [Tree.isEmpty_eq_false_iff]
  intro heq
  rw [heq] at h
  cases h

/-- The callback of `calculate` on a counter: the sum is written if it fits. -/
theorem addToCounter_int {node : FNode} {leaves : Int} (hleaves : asInt node = some leaves)
    (uid : Uid) (counter : String) (reward : Int) (order : List String) (app : App) :
    addToCounter uid counter reward (.value node order) app =
      if FitsInt (leaves + reward) then
        .ok ⟨app, [setValue uid [counter] (Tree.leaf (.int (leaves + reward)))], []⟩
      else .error .overflow := by
  by_cases hfits : FitsInt (leaves + reward)
  · simp [addToCounter, isEmpty_of_asInt hleaves, hleaves, intResult_eq, hfits, bind,
      Except.bind]
  · simp [addToCounter, isEmpty_of_asInt hleaves, hleaves, intResult_eq, hfits, bind,
      Except.bind]

/-- What it does when it does not trap. -/
theorem addToCounter_ok {node : FNode} {leaves : Int} (hleaves : asInt node = some leaves)
    {uid : Uid} {counter : String} {reward : Int} {order : List String} {app : App}
    {fx : Effects App Write Read}
    (hrun : addToCounter uid counter reward (.value node order) app = .ok fx) :
    fx = ⟨app, [setValue uid [counter] (Tree.leaf (.int (leaves + reward)))], []⟩ := by
  rw [addToCounter_int hleaves] at hrun
  split at hrun
  · exact (Except.ok.inj hrun).symm
  · cases hrun

/-- The callback of a redeem on a record with both counters: the sums are written if
both fit. -/
theorem redeemUserRead_record {uid : Uid} {node : FNode} {current allTime : Int}
    (hcurrent : asInt (node.child "currentLeaves") = some current)
    (hallTime : asInt (node.child "allTimeLeaves") = some allTime)
    (leaves : Int) (order : List String) {app : App}
    (huser : app.currentUser = some uid) :
    redeemUserRead leaves (.value node order) app =
      if FitsInt (current + leaves) ∧ FitsInt (allTime + leaves) then
        .ok ⟨app,
          [ setValue uid ["currentLeaves"] (Tree.leaf (.int (current + leaves))),
            setValue uid ["allTimeLeaves"] (Tree.leaf (.int (allTime + leaves))) ], []⟩
      else .error .overflow := by
  have hmem : "currentLeaves" ∈ node.names := by
    rw [Tree.mem_names_iff, ← Tree.isEmpty_eq_false_iff]
    exact isEmpty_of_asInt hcurrent
  have hempty : node.isEmpty = false := by
    rw [Tree.isEmpty_eq_false_iff]
    intro heq
    rw [heq, Tree.names_empty] at hmem
    cases hmem
  have hdictionary := asDictionary_eq_names hmem (by decide)
  by_cases hfirst : FitsInt (current + leaves)
  · by_cases hsecond : FitsInt (allTime + leaves)
    · simp [redeemUserRead, hempty, hdictionary, huser, hcurrent, hallTime, intResult_eq,
        hfirst, hsecond, bind, Except.bind]
    · simp [redeemUserRead, hempty, hdictionary, huser, hcurrent, hallTime, intResult_eq,
        hfirst, hsecond, bind, Except.bind]
  · simp [redeemUserRead, hempty, hdictionary, huser, hcurrent, intResult_eq, hfirst, bind,
      Except.bind]

/-- What it does when it does not trap. -/
theorem redeemUserRead_ok {uid : Uid} {node : FNode} {current allTime : Int}
    (hcurrent : asInt (node.child "currentLeaves") = some current)
    (hallTime : asInt (node.child "allTimeLeaves") = some allTime)
    {leaves : Int} {order : List String} {app : App} (huser : app.currentUser = some uid)
    {fx : Effects App Write Read}
    (hrun : redeemUserRead leaves (.value node order) app = .ok fx) :
    fx = ⟨app,
      [ setValue uid ["currentLeaves"] (Tree.leaf (.int (current + leaves))),
        setValue uid ["allTimeLeaves"] (Tree.leaf (.int (allTime + leaves))) ], []⟩ := by
  rw [redeemUserRead_record hcurrent hallTime leaves order huser] at hrun
  split at hrun
  · exact (Except.ok.inj hrun).symm
  · cases hrun

/-- **REDEEM** sums up what the quantities are worth and writes their history, unless
its loop overflows. -/
theorem redeemButtonPressed_eq {uid : Uid} {app : App} (huser : app.currentUser = some uid)
    (quantities : Quantities) (dateString : String) (autoId : Nat → String) :
    redeemButtonPressed quantities dateString autoId app =
      if LoopFits quantities then
        .ok ⟨app.present (if redeemedLeaves quantities = 0 then
              ManualEntryViewController.noItemsEntered
            else ManualEntryViewController.success (redeemedLeaves quantities)),
          (positiveItems quantities).map (historyWrite uid quantities dateString autoId),
          if redeemedLeaves quantities = 0 then []
          else [.redeemUser uid (redeemedLeaves quantities)]⟩
      else .error .overflow := by
  have hsum : ((List.finRange manualEntryData.length).map (worth quantities)).sum =
      redeemedLeaves quantities := rfl
  by_cases hfits : LoopFits quantities
  · have hloop := redeemLoop_of_fits uid quantities dateString autoId hfits
    by_cases hzero : redeemedLeaves quantities = 0
    · simp [redeemButtonPressed, huser, hloop, hsum, hfits, hzero, bind, Except.bind]
    · simp [redeemButtonPressed, huser, hloop, hsum, hfits, hzero, bind, Except.bind]
  · have hloop : (redeemLoop uid quantities dateString autoId).2 = .error .overflow := by
      rw [redeemLoop_eq, if_neg hfits]
    simp [redeemButtonPressed, huser, hloop, hfits, bind, Except.bind]

/-! ## The invariant -/

/-- A read that the taps of the ledger issue for `uid`. -/
def LedgerRead (uid : Uid) (read : Read) : Prop :=
  read.uid = uid ∧
    match read with
    | .buyLeaves _ _ _ | .buyInventory _ _ _ _ | .claimDate _ _ | .calculateCurrent _ _
    | .calculateAllTime _ _ | .redeemUser _ _ => True
    | _ => False

/-- The counters hold everything logged but what pending callbacks still owe, and
what was charged for deliveries that are pending. -/
structure Balanced (uid : Uid) (current allTime : Int) (log : List AppEntry)
    (s : AppSys) : Prop where
  currentUser : s.state.currentUser = some uid
  ledgerReads : ∀ read ∈ s.reads, LedgerRead uid read
  succeed : ∀ p ∈ s.pending, p.answer ≠ some .error
  purchases : Purchases s.state.currentLeaves s.reads
  currentLeaves : (s.remote uid).child "currentLeaves" = Tree.leaf (.int
    (current + total redeemed log + total rewarded log - total spent log -
      total Read.owedCurrent s.reads -
      total s.state.charged (s.reads.filterMap Read.delivering)))
  allTimeLeaves : (s.remote uid).child "allTimeLeaves" = Tree.leaf (.int
    (allTime + total redeemed log + total rewarded log -
      total Read.owedAllTime s.reads))

/-- The read served and the others. -/
theorem reads_perm_of_serve {s : AppSys} {read : Read} {answer : Option Snapshot}
    {before after : List (Pending Read Snapshot)}
    (hpending : s.pending = before ++ ⟨read, answer⟩ :: after) :
    s.reads.Perm (read :: (before ++ after).map Pending.read) := by
  unfold Sys.reads
  rw [hpending, List.map_append, List.map_cons, List.map_append]
  exact List.perm_middle

section Step

variable {uid : Uid} {current allTime : Int} {log : List AppEntry} {s : AppSys}

/-- What the counters are before the read `read` is served. -/
theorem Balanced.before_serve (h : Balanced uid current allTime log s) {read : Read}
    {rest : List Read} (hperm : s.reads.Perm (read :: rest)) :
    LedgerRead uid read ∧ (∀ read ∈ rest, LedgerRead uid read) ∧
      Purchases s.state.currentLeaves (read :: rest) ∧
      (s.remote uid).child "currentLeaves" = Tree.leaf (.int
        (current + total redeemed log + total rewarded log - total spent log -
          total Read.owedCurrent (read :: rest) -
          total s.state.charged ((read :: rest).filterMap Read.delivering))) ∧
      (s.remote uid).child "allTimeLeaves" = Tree.leaf (.int
        (allTime + total redeemed log + total rewarded log -
          total Read.owedAllTime (read :: rest))) := by
  refine ⟨?_, ?_, h.purchases.perm hperm, ?_, ?_⟩
  · exact h.ledgerReads read (hperm.symm.subset List.mem_cons_self)
  · intro other hother
    exact h.ledgerReads other (hperm.symm.subset (List.mem_cons_of_mem _ hother))
  · rw [h.currentLeaves, total_perm Read.owedCurrent hperm,
      total_perm s.state.charged (hperm.filterMap Read.delivering)]
  · rw [h.allTimeLeaves, total_perm Read.owedAllTime hperm]

/-- What code run has to leave: the sums of one more entry. -/
theorem Balanced.perform (h : Balanced uid current allTime log s)
    {rest : List (Pending Read Snapshot)} (hrest : ∀ p ∈ rest, p ∈ s.pending)
    {fx : Effects App Write Read} {entry : AppEntry}
    (huser : fx.state.currentUser = s.state.currentUser)
    (hreads : ∀ read ∈ fx.reads, LedgerRead uid read)
    (hpurchases : Purchases fx.state.currentLeaves (rest.map Pending.read ++ fx.reads))
    (hcurrent : (client.applyAll fx.writes s.remote uid).child "currentLeaves" =
      Tree.leaf (.int (current + total redeemed log + redeemed entry +
        total rewarded log + rewarded entry - total spent log - spent entry -
        total Read.owedCurrent (rest.map Pending.read ++ fx.reads) -
        total fx.state.charged
          ((rest.map Pending.read ++ fx.reads).filterMap Read.delivering))))
    (hallTime : (client.applyAll fx.writes s.remote uid).child "allTimeLeaves" =
      Tree.leaf (.int (allTime + total redeemed log + redeemed entry +
        total rewarded log + rewarded entry -
        total Read.owedAllTime (rest.map Pending.read ++ fx.reads)))) :
    Balanced uid current allTime (log ++ [entry]) (client.perform s rest fx) := by
  refine ⟨huser.trans h.currentUser, ?_, ?_, ?_, ?_, ?_⟩
  · intro read hread
    rw [client.reads_perform, List.mem_append] at hread
    rcases hread with hread | hread
    · obtain ⟨p, hp, rfl⟩ := List.mem_map.mp hread
      exact h.ledgerReads p.read (List.mem_map_of_mem (hrest p hp))
    · exact hreads read hread
  · intro p hp
    rcases List.mem_append.mp hp with hp | hp
    · exact h.succeed p (hrest p hp)
    · obtain ⟨read, _, rfl⟩ := List.mem_map.mp hp
      exact fun heq => by cases heq
  · rw [client.reads_perform]
    exact hpurchases
  · rw [client.reads_perform]
    refine hcurrent.trans ?_
    congr 2
    rw [total_snoc, total_snoc, total_snoc]
    change _ = _ - total fx.state.charged _
    omega
  · rw [client.reads_perform]
    refine hallTime.trans ?_
    congr 2
    rw [total_snoc, total_snoc]
    omega

/-- Code that has nothing to do with a purchase. -/
theorem Balanced.perform_quiet (h : Balanced uid current allTime log s)
    {rest : List (Pending Read Snapshot)} (hrest : ∀ p ∈ rest, p ∈ s.pending)
    {fx : Effects App Write Read} {entry : AppEntry}
    (huser : fx.state.currentUser = s.state.currentUser)
    (hcaptured : fx.state.currentLeaves = s.state.currentLeaves)
    (hshelf : fx.state.storeItem = s.state.storeItem)
    (hspent : spent entry = 0)
    (hreads : ∀ read ∈ fx.reads,
      LedgerRead uid read ∧ read.delivering = none ∧ read.charging = none)
    (hpurchases : Purchases s.state.currentLeaves (rest.map Pending.read))
    (hcurrent : (client.applyAll fx.writes s.remote uid).child "currentLeaves" =
      Tree.leaf (.int (current + total redeemed log + redeemed entry +
        total rewarded log + rewarded entry - total spent log -
        total Read.owedCurrent (rest.map Pending.read) -
        total Read.owedCurrent fx.reads -
        total s.state.charged ((rest.map Pending.read).filterMap Read.delivering))))
    (hallTime : (client.applyAll fx.writes s.remote uid).child "allTimeLeaves" =
      Tree.leaf (.int (allTime + total redeemed log + redeemed entry +
        total rewarded log + rewarded entry -
        total Read.owedAllTime (rest.map Pending.read) -
        total Read.owedAllTime fx.reads))) :
    Balanced uid current allTime (log ++ [entry]) (client.perform s rest fx) := by
  have hdelivering : (rest.map Pending.read ++ fx.reads).filterMap Read.delivering =
      (rest.map Pending.read).filterMap Read.delivering := by
    have hnone : fx.reads.filterMap Read.delivering = [] :=
      List.filterMap_eq_nil_iff.mpr fun read hread => (hreads read hread).2.1
    rw [List.filterMap_append, hnone, List.append_nil]
  have hcharging : (rest.map Pending.read ++ fx.reads).filterMap Read.charging =
      (rest.map Pending.read).filterMap Read.charging := by
    have hnone : fx.reads.filterMap Read.charging = [] :=
      List.filterMap_eq_nil_iff.mpr fun read hread => (hreads read hread).2.2
    rw [List.filterMap_append, hnone, List.append_nil]
  have hcharged : total fx.state.charged
      ((rest.map Pending.read).filterMap Read.delivering) =
      total s.state.charged ((rest.map Pending.read).filterMap Read.delivering) :=
    total_congr fun _ _ => App.charged_congr hshelf (by rw [hcaptured])
  refine h.perform hrest huser (fun read hread => (hreads read hread).1) ?_ ?_ ?_
  · rw [hcaptured]
    obtain ⟨honce, honce', htapped, hpaired⟩ := hpurchases
    rw [← hdelivering] at honce htapped hpaired
    rw [← hcharging] at honce' hpaired
    exact ⟨honce, honce', htapped, hpaired⟩
  · refine hcurrent.trans ?_
    congr 2
    rw [hdelivering, hcharged, hspent, total_append]
    omega
  · refine hallTime.trans ?_
    congr 2
    rw [total_append]
    omega

/-! ## The taps -/

theorem Balanced.buy (h : Balanced uid current allTime log s) {cell : Nat}
    {fx : Effects App Write Read} (hrun : client.tap (.buy cell) s.state = .ok fx) :
    Balanced uid current allTime (log ++ [.tapped (.buy cell) fx])
      (client.perform s s.pending fx) := by
  let issued : List Read := [.buyLeaves uid cell s.state.currentLeaves.length,
    .buyInventory uid cell s.state.currentLeaves.length (s.state.shown cell).key]
  let tapped : App :=
    { s.state with currentLeaves := s.state.currentLeaves ++ [none] }
  have htap : client.tap (.buy cell) s.state = .ok ⟨tapped, [], issued⟩ := by
    simp [Tap.handle, buyOnClick, h.currentUser, bind, Except.bind, issued, tapped]
  rw [htap] at hrun
  obtain rfl := Except.ok.inj hrun
  have hperm : (issued ++ s.reads).Perm (s.reads ++ issued) := List.perm_append_comm
  have hcharged : total tapped.charged
      ((s.reads ++ issued).filterMap Read.delivering) =
      total s.state.charged (s.reads.filterMap Read.delivering) :=
    (total_perm _ (hperm.symm.filterMap Read.delivering)).trans
      (h.purchases.total_buy uid uid cell (s.state.shown cell).key)
  refine h.perform (fun _ hp => hp) rfl ?_ ?_ ?_ ?_
  · intro read hread
    rcases List.mem_cons.mp hread with rfl | hread
    · exact ⟨rfl, trivial⟩
    · rw [List.mem_singleton.mp hread]
      exact ⟨rfl, trivial⟩
  · exact (h.purchases.buy uid uid cell _).perm hperm
  · refine h.currentLeaves.trans ?_
    congr 2
    have howed : total Read.owedCurrent (s.reads ++ issued) =
        total Read.owedCurrent s.reads := by
      rw [total_append]
      exact Int.add_zero _
    change _ = current + total redeemed log + 0 + total rewarded log + 0 -
      total spent log - 0 - total Read.owedCurrent (s.reads ++ issued) -
      total tapped.charged ((s.reads ++ issued).filterMap Read.delivering)
    rw [howed, hcharged]
    omega
  · refine h.allTimeLeaves.trans ?_
    congr 2
    have howed : total Read.owedAllTime (s.reads ++ issued) =
        total Read.owedAllTime s.reads := by
      rw [total_append]
      exact Int.add_zero _
    change _ = allTime + total redeemed log + 0 + total rewarded log + 0 -
      total Read.owedAllTime (s.reads ++ issued)
    rw [howed]
    omega

theorem Balanced.claimTap (h : Balanced uid current allTime log s) {result : String}
    {fx : Effects App Write Read} (hrun : client.tap (.claim result) s.state = .ok fx) :
    Balanced uid current allTime (log ++ [.tapped (.claim result) fx])
      (client.perform s s.pending fx) := by
  simp only [client_tap, Tap.handle, claimOnClick, h.currentUser, force_some, bind,
    Except.bind] at hrun
  obtain rfl := Except.ok.inj hrun
  refine h.perform_quiet (fun _ hp => hp) rfl rfl rfl rfl ?_ h.purchases ?_ ?_
  · intro read hread
    rw [List.mem_singleton.mp hread]
    exact ⟨⟨rfl, trivial⟩, rfl, rfl⟩
  · refine h.currentLeaves.trans ?_
    congr 2
    change _ = current + total redeemed log + 0 + total rewarded log + 0 -
      total spent log - total Read.owedCurrent s.reads - 0 -
      total s.state.charged (s.reads.filterMap Read.delivering)
    omega
  · refine h.allTimeLeaves.trans ?_
    congr 2
    change _ = allTime + total redeemed log + 0 + total rewarded log + 0 -
      total Read.owedAllTime s.reads - 0
    omega

theorem Balanced.redeemTap (h : Balanced uid current allTime log s)
    {quantities : Quantities} {dateString : String} {autoId : Nat → String}
    {fx : Effects App Write Read}
    (hrun : client.tap (.redeem quantities dateString autoId) s.state = .ok fx) :
    Balanced uid current allTime
      (log ++ [.tapped (.redeem quantities dateString autoId) fx])
      (client.perform s s.pending fx) := by
  have hkept : ∀ field, field ≠ "history" →
      (client.applyAll ((positiveItems quantities).map
        (historyWrite uid quantities dateString autoId)) s.remote uid).child field =
        (s.remote uid).child field := by
    intro field hfield
    apply child_applyAll_of_ne
    intro write hwrite
    obtain ⟨_, path, hpath⟩ := mem_historyWrites hwrite
    exact ⟨"history", path, hpath, hfield⟩
  have hcurrent := hkept "currentLeaves" (by decide)
  have hallTime := hkept "allTimeLeaves" (by decide)
  rw [client_tap, Tap.handle, redeemButtonPressed_eq h.currentUser] at hrun
  by_cases hfits : LoopFits quantities
  case neg =>
    rw [if_neg hfits] at hrun
    cases hrun
  rw [if_pos hfits] at hrun
  by_cases hzero : redeemedLeaves quantities = 0
  · rw [if_pos hzero, if_pos hzero] at hrun
    obtain rfl := Except.ok.inj hrun
    refine h.perform_quiet (fun _ hp => hp) rfl rfl rfl rfl ?_ h.purchases ?_ ?_
    · intro read hread
      cases hread
    · refine hcurrent.trans (h.currentLeaves.trans ?_)
      congr 2
      change _ = current + total redeemed log + redeemedLeaves quantities +
        total rewarded log + 0 - total spent log - total Read.owedCurrent s.reads - 0 -
        total s.state.charged (s.reads.filterMap Read.delivering)
      omega
    · refine hallTime.trans (h.allTimeLeaves.trans ?_)
      congr 2
      change _ = allTime + total redeemed log + redeemedLeaves quantities +
        total rewarded log + 0 - total Read.owedAllTime s.reads - 0
      omega
  · rw [if_neg hzero, if_neg hzero] at hrun
    obtain rfl := Except.ok.inj hrun
    refine h.perform_quiet (fun _ hp => hp) rfl rfl rfl rfl ?_ h.purchases ?_ ?_
    · intro read hread
      rw [List.mem_singleton.mp hread]
      exact ⟨⟨rfl, trivial⟩, rfl, rfl⟩
    · refine hcurrent.trans (h.currentLeaves.trans ?_)
      congr 2
      rw [total_cons, total_nil]
      change _ = current + total redeemed log + redeemedLeaves quantities +
        total rewarded log + 0 - total spent log - total Read.owedCurrent s.reads -
        (redeemedLeaves quantities + 0) -
        total s.state.charged (s.reads.filterMap Read.delivering)
      omega
    · refine hallTime.trans (h.allTimeLeaves.trans ?_)
      congr 2
      rw [total_cons, total_nil]
      change _ = allTime + total redeemed log + redeemedLeaves quantities +
        total rewarded log + 0 - total Read.owedAllTime s.reads -
        (redeemedLeaves quantities + 0)
      omega

/-! ## The callbacks -/

section Serve

variable {rest : List (Pending Read Snapshot)} (hrest : ∀ p ∈ rest, p ∈ s.pending)
  {node : FNode} {order : List String} {fx : Effects App Write Read}
include hrest

/-- A purchase is charged. -/
theorem Balanced.charge (h : Balanced uid current allTime log s) {cell tap : Nat}
    (hperm : s.reads.Perm (.buyLeaves uid cell tap :: rest.map Pending.read))
    (hcurrent : (∃ leaves, asInt node = some leaves ∧
        leaves - (s.state.shown cell).cost ≥ 0) →
      asInt node = asInt ((s.remote uid).child "currentLeaves"))
    (hrun : buyLeavesRead uid cell tap (.value node order) s.state = .ok fx) :
    Balanced uid current allTime
      (log ++ [.served (.buyLeaves uid cell tap) (.value node order) fx])
      (client.perform s rest fx) := by
  obtain ⟨_, _, hpurchases, hleaves, hall⟩ := h.before_serve hperm
  change _ = Tree.leaf (Value.int (current + total redeemed log + total rewarded log -
    total spent log - total Read.owedCurrent (_ :: rest.map Pending.read) -
    total s.state.charged ((rest.map Pending.read).filterMap Read.delivering))) at hleaves
  rw [total_cons] at hleaves hall
  change _ = Tree.leaf (Value.int (_ - (0 + _) - _)) at hleaves
  change _ = Tree.leaf (Value.int (_ - (0 + _))) at hall
  rcases buyLeavesRead_cases hrun with ⟨rfl, _⟩ | ⟨leaves, hnode, rfl⟩
  · -- no balance was answered, and nothing is captured
    have hkept : s.state.currentLeaves.set tap none = s.state.currentLeaves := by
      obtain ⟨_, hnone⟩ := hpurchases.paired (tap, cell) List.mem_cons_self
      obtain ⟨hlt, hget⟩ := List.getElem?_eq_some_iff.mp hnone
      rw [← hget, List.set_getElem_self]
    have hpurchases' := hpurchases.charge none
    rw [hkept] at hpurchases'
    refine h.perform_quiet hrest rfl rfl rfl rfl (fun _ hread => by cases hread)
      hpurchases' (hleaves.trans ?_) (hall.trans ?_)
    · congr 2
      change _ = current + total redeemed log + 0 + total rewarded log + 0 - _ - _ - 0 - _
      omega
    · congr 2
      change _ = allTime + total redeemed log + 0 + total rewarded log + 0 - _ - 0
      omega
  · have hcharged := hpurchases.total_charge leaves
    have hkept : (client.applyAll (chargeWrites uid leaves (s.state.shown cell).cost)
        s.remote uid).child "allTimeLeaves" = (s.remote uid).child "allTimeLeaves" := by
      apply child_applyAll_of_ne
      intro write hwrite
      rw [mem_chargeWrites hwrite]
      exact ⟨"currentLeaves", [], rfl, by decide⟩
    refine h.perform hrest rfl (fun _ hread => by cases hread) ?_ ?_ ?_
    · rw [List.append_nil]
      exact hpurchases.charge _
    · rw [List.append_nil]
      change _ = Tree.leaf (Value.int (current + total redeemed log + 0 + total rewarded log +
        0 - total spent log - 0 - _ -
        total (App.charged { s.state with
          currentLeaves := s.state.currentLeaves.set tap (some leaves) }) _))
      rw [hcharged]
      unfold chargeWrites
      by_cases hcost : leaves - (s.state.shown cell).cost ≥ 0
      · rw [if_pos hcost, if_pos hcost]
        have hstored := hcurrent ⟨leaves, hnode, hcost⟩
        rw [hnode, hleaves, asInt_int, Option.some.injEq] at hstored
        refine (child_setCounter uid (by decide) _ s.remote).trans ?_
        congr 2
        omega
      · rw [if_neg hcost, if_neg hcost]
        refine hleaves.trans ?_
        congr 2
        omega
    · rw [List.append_nil]
      refine hkept.trans (hall.trans ?_)
      congr 2
      change _ = allTime + total redeemed log + 0 + total rewarded log + 0 - _
      omega

/-- A purchase is delivered, or turned down. -/
theorem Balanced.deliver (h : Balanced uid current allTime log s) {cell tap : Nat}
    {key : String}
    (hperm : s.reads.Perm (.buyInventory uid cell tap key :: rest.map Pending.read))
    (hrun : buyInventoryRead uid cell tap (.value node order) s.state = .ok fx) :
    Balanced uid current allTime
      (log ++ [.served (.buyInventory uid cell tap key) (.value node order) fx])
      (client.perform s rest fx) := by
  obtain ⟨_, _, hpurchases, hleaves, hall⟩ := h.before_serve hperm
  obtain ⟨leaves, hcaptured, huser, hcurrentLeaves, hshelf, hreads, hwrites, hdelivers⟩ :=
    buyInventoryRead_cases hrun
  have hkept : ∀ field, field ≠ "inventory" →
      (client.applyAll fx.writes s.remote uid).child field =
        (s.remote uid).child field := by
    intro field hfield
    apply child_applyAll_of_ne
    intro write hwrite
    obtain ⟨path, hpath⟩ := hwrites write hwrite
    exact ⟨"inventory", path, hpath, hfield⟩
  have hcharged : ∀ purchase, fx.state.charged purchase = s.state.charged purchase :=
    fun purchase => App.charged_congr hshelf (by rw [hcurrentLeaves])
  -- what is spent now was charged before
  have hspent : spent (.served (.buyInventory uid cell tap key) (.value node order) fx) =
      s.state.charged (tap, cell) := by
    have hshown : fx.state.shown cell = s.state.shown cell := by
      unfold App.shown
      rw [hshelf]
    unfold spent App.charged
    simp only [hcaptured, hshown]
    by_cases hcost : leaves - (s.state.shown cell).cost ≥ 0
    · rw [if_pos hcost, hdelivers.mpr hcost]
      rfl
    · have hnothing : fx.writes.isEmpty = true := by
        rw [← Bool.not_eq_false, hdelivers]
        exact hcost
      rw [if_neg hcost, if_pos hnothing]
  rw [total_cons] at hleaves hall
  change _ = Tree.leaf (Value.int (_ - (0 + _) -
    total s.state.charged ((tap, cell) ::
      (rest.map Pending.read).filterMap Read.delivering))) at hleaves
  change _ = Tree.leaf (Value.int (_ - (0 + _))) at hall
  rw [total_cons] at hleaves
  refine h.perform hrest huser ?_ ?_ ?_ ?_
  · intro read hread
    rw [hreads] at hread
    cases hread
  · rw [hreads, List.append_nil, hcurrentLeaves]
    exact hpurchases.deliver hcaptured
  · rw [hreads, List.append_nil, total_congr (fun purchase _ => hcharged purchase), hspent]
    refine (hkept "currentLeaves" (by decide)).trans (hleaves.trans ?_)
    congr 2
    change _ = current + total redeemed log + 0 + total rewarded log + 0 - _ - _ - _ - _
    omega
  · rw [hreads, List.append_nil]
    refine (hkept "allTimeLeaves" (by decide)).trans (hall.trans ?_)
    congr 2
    change _ = allTime + total redeemed log + 0 + total rewarded log + 0 - _
    omega

/-- A claim is decided. -/
theorem Balanced.decide (h : Balanced uid current allTime log s) {result : String}
    (hperm : s.reads.Perm (.claimDate uid result :: rest.map Pending.read))
    (hrun : claimDateRead uid result (.value node order) s.state = .ok fx) :
    Balanced uid current allTime
      (log ++ [.served (.claimDate uid result) (.value node order) fx])
      (client.perform s rest fx) := by
  obtain ⟨_, _, hpurchases, hleaves, hall⟩ := h.before_serve hperm
  obtain ⟨hwrites, ⟨alert, hstate⟩, hcases⟩ := claimDateRead_cases hrun
  have hkept : ∀ field, field ≠ "lastVisitedDate" →
      (client.applyAll fx.writes s.remote uid).child field =
        (s.remote uid).child field := by
    intro field hfield
    rw [hwrites]
    exact child_setCounter_ne uid (by decide) hfield _ _
  have hcurrent := hkept "currentLeaves" (by decide)
  have hallTime := hkept "allTimeLeaves" (by decide)
  rw [Purchases.cons_iff rfl rfl] at hpurchases
  rw [total_cons] at hleaves hall
  change _ = Tree.leaf (Value.int (_ - (0 + _) -
    total s.state.charged ((rest.map Pending.read).filterMap Read.delivering))) at hleaves
  change _ = Tree.leaf (Value.int (_ - (0 + _))) at hall
  have hreward : rewarded (.served (.claimDate uid result) (.value node order) fx) =
      total Read.owedCurrent fx.reads ∧
      rewarded (.served (.claimDate uid result) (.value node order) fx) =
        total Read.owedAllTime fx.reads := by
    have hentry : rewarded (.served (.claimDate uid result) (.value node order) fx) =
        if fx.reads.isEmpty then 0 else rewardTotal fx.state.activeItems := rfl
    rw [hentry, hstate]
    rcases hcases with ⟨_, hreads⟩ | ⟨_, hreads⟩
    · rw [hreads]
      simp [calculate, Read.owedCurrent, Read.owedAllTime, App.present]
    · rw [hreads]
      exact ⟨rfl, rfl⟩
  refine h.perform_quiet hrest ?_ ?_ ?_ rfl ?_ hpurchases ?_ ?_
  · rw [hstate]
    rfl
  · rw [hstate]
    rfl
  · rw [hstate]
    rfl
  · intro read hread
    rcases hcases with ⟨_, hreads⟩ | ⟨_, hreads⟩
    · rw [hreads] at hread
      unfold calculate at hread
      rcases List.mem_cons.mp hread with rfl | hread
      · exact ⟨⟨rfl, trivial⟩, rfl, rfl⟩
      · rw [List.mem_singleton.mp hread]
        exact ⟨⟨rfl, trivial⟩, rfl, rfl⟩
    · rw [hreads] at hread
      cases hread
  · refine hcurrent.trans (hleaves.trans ?_)
    congr 2
    rw [hreward.1]
    change _ = current + total redeemed log + 0 + total rewarded log + _ - _ - _ - _ - _
    omega
  · refine hallTime.trans (hall.trans ?_)
    congr 2
    rw [hreward.2]
    change _ = allTime + total redeemed log + 0 + total rewarded log + _ - _ - _
    omega

/-- A reward is added to `currentLeaves`. -/
theorem Balanced.calculateCurrent (h : Balanced uid current allTime log s) {reward : Int}
    (hperm : s.reads.Perm (.calculateCurrent uid reward :: rest.map Pending.read))
    (hcurrent : asInt node = asInt ((s.remote uid).child "currentLeaves"))
    (hrun : calculateCurrentRead uid reward (.value node order) s.state = .ok fx) :
    Balanced uid current allTime
      (log ++ [.served (.calculateCurrent uid reward) (.value node order) fx])
      (client.perform s rest fx) := by
  obtain ⟨_, _, hpurchases, hleaves, hall⟩ := h.before_serve hperm
  rw [hleaves, asInt_int] at hcurrent
  unfold calculateCurrentRead at hrun
  obtain rfl := addToCounter_ok hcurrent hrun
  rw [Purchases.cons_iff rfl rfl] at hpurchases
  rw [total_cons] at hall
  change _ = Tree.leaf (Value.int (_ - (0 + _))) at hall
  refine h.perform_quiet hrest rfl rfl rfl rfl (fun _ hread => by cases hread)
    hpurchases ?_ ?_
  · refine (child_setCounter uid (by decide) _ s.remote).trans ?_
    congr 2
    rw [total_cons]
    change _ - (reward + _) -
      total s.state.charged ((rest.map Pending.read).filterMap Read.delivering) + reward =
        current + total redeemed log + 0 + total rewarded log + 0 - _ - _ - 0 - _
    omega
  · refine (child_setCounter_ne uid (by decide) (by decide) _ s.remote).trans
      (hall.trans ?_)
    congr 2
    change _ = allTime + total redeemed log + 0 + total rewarded log + 0 - _ - 0
    omega

/-- A reward is added to `allTimeLeaves`. -/
theorem Balanced.calculateAllTime (h : Balanced uid current allTime log s) {reward : Int}
    (hperm : s.reads.Perm (.calculateAllTime uid reward :: rest.map Pending.read))
    (hcurrent : asInt node = asInt ((s.remote uid).child "allTimeLeaves"))
    (hrun : calculateAllTimeRead uid reward (.value node order) s.state = .ok fx) :
    Balanced uid current allTime
      (log ++ [.served (.calculateAllTime uid reward) (.value node order) fx])
      (client.perform s rest fx) := by
  obtain ⟨_, _, hpurchases, hleaves, hall⟩ := h.before_serve hperm
  rw [hall, asInt_int] at hcurrent
  unfold calculateAllTimeRead at hrun
  obtain rfl := addToCounter_ok hcurrent hrun
  rw [Purchases.cons_iff rfl rfl] at hpurchases
  rw [total_cons] at hleaves
  change _ = Tree.leaf (Value.int (_ - (0 + _) -
    total s.state.charged ((rest.map Pending.read).filterMap Read.delivering))) at hleaves
  refine h.perform_quiet hrest rfl rfl rfl rfl (fun _ hread => by cases hread)
    hpurchases ?_ ?_
  · refine (child_setCounter_ne uid (by decide) (by decide) _ s.remote).trans
      (hleaves.trans ?_)
    congr 2
    change _ = current + total redeemed log + 0 + total rewarded log + 0 - _ - _ - 0 - _
    omega
  · refine (child_setCounter uid (by decide) _ s.remote).trans ?_
    congr 2
    rw [total_cons]
    change _ - (reward + _) + reward =
      allTime + total redeemed log + 0 + total rewarded log + 0 - _ - 0
    omega

/-- A redeem is added to both counters. -/
theorem Balanced.redeemUser (h : Balanced uid current allTime log s) {leaves : Int}
    (hperm : s.reads.Perm (.redeemUser uid leaves :: rest.map Pending.read))
    (hcurrent : asInt (node.child "currentLeaves") =
      asInt ((s.remote uid).child "currentLeaves"))
    (hallTime : asInt (node.child "allTimeLeaves") =
      asInt ((s.remote uid).child "allTimeLeaves"))
    (hrun : redeemUserRead leaves (.value node order) s.state = .ok fx) :
    Balanced uid current allTime
      (log ++ [.served (.redeemUser uid leaves) (.value node order) fx])
      (client.perform s rest fx) := by
  obtain ⟨_, _, hpurchases, hleaves, hall⟩ := h.before_serve hperm
  rw [hleaves, asInt_int] at hcurrent
  rw [hall, asInt_int] at hallTime
  obtain rfl := redeemUserRead_ok hcurrent hallTime h.currentUser hrun
  rw [Purchases.cons_iff rfl rfl] at hpurchases
  refine h.perform_quiet hrest rfl rfl rfl rfl (fun _ hread => by cases hread)
    hpurchases ?_ ?_
  · rw [Client.applyAll_cons]
    refine (child_setCounter_ne uid (by decide) (by decide) _ _).trans ?_
    refine (child_setCounter uid (by decide) _ s.remote).trans ?_
    congr 2
    rw [total_cons]
    change _ - (leaves + _) -
      total s.state.charged ((rest.map Pending.read).filterMap Read.delivering) + leaves =
        current + total redeemed log + 0 + total rewarded log + 0 - _ - _ - 0 - _
    omega
  · rw [Client.applyAll_cons]
    refine (child_setCounter uid (by decide) _ _).trans ?_
    congr 2
    rw [total_cons]
    change _ - (leaves + _) + leaves =
      allTime + total redeemed log + 0 + total rewarded log + 0 - _ - 0
    omega

end Serve

end Step

/-! ## Runs -/

theorem Balanced.step {uid : Uid} {current allTime : Int} {log : List AppEntry}
    {s s' : AppSys} {e : AppEvent} {o : Option AppEntry}
    (h : Balanced uid current allTime log s) (htaps : EarnsAndSpends s e)
    (hcounters : ServeMeets CountersCurrent s e) (hmove : client.Step s e o s') :
    Balanced uid current allTime (log ++ o.toList) s' := by
  cases hmove with
  | @tap tap fx hrun =>
      cases tap with
      | buy cell => exact h.buy hrun
      | claim result => exact h.claimTap hrun
      | redeem quantities dateString autoId => exact h.redeemTap hrun
      | _ => exact htaps.elim
  | @answer read before after hpending reply =>
      have hreads : Sys.reads { s with
          pending := before ++
            ⟨read, some (client.answer read reply s.remote)⟩ :: after } = s.reads := by
        unfold Sys.reads
        rw [hpending, List.map_append, List.map_append]
        rfl
      rw [Option.toList_none, List.append_nil]
      refine ⟨h.currentUser, ?_, ?_, ?_, ?_, ?_⟩
      · rw [hreads]
        exact h.ledgerReads
      · intro p hp
        rw [List.mem_append, List.mem_cons] at hp
        rcases hp with hp | rfl | hp
        · exact h.succeed p (by simp [hpending, hp])
        · cases reply with
          | error => exact htaps.elim
          | value order => exact fun heq => by cases heq
        · exact h.succeed p (by simp [hpending, hp])
      · rw [hreads]
        exact h.purchases
      · rw [hreads]
        exact h.currentLeaves
      · rw [hreads]
        exact h.allTimeLeaves
  | @serve read snapshot before after hpending fx hrun =>
      have hperm := reads_perm_of_serve hpending
      have hrest := Client.mem_pending_of_rest hpending
      have hserved : s.pending[before.length]? = some ⟨read, some snapshot⟩ := by
        simp [hpending]
      obtain ⟨huid, hledger⟩ := (h.before_serve hperm).1
      rw [Option.toList_some]
      cases snapshot with
      | error =>
          exact absurd rfl (h.succeed ⟨read, some .error⟩ (by simp [hpending]))
      | value node order =>
          have hcurrent := hcounters before.length read _ rfl hserved
          cases read with
          | buyLeaves uid' cell tap =>
              obtain rfl : uid' = uid := huid
              refine h.charge hrest hperm (fun hcovers => ?_) hrun
              exact hcurrent hcovers [] List.mem_cons_self
          | buyInventory uid' cell tap key =>
              obtain rfl : uid' = uid := huid
              exact h.deliver hrest hperm hrun
          | claimDate uid' result =>
              obtain rfl : uid' = uid := huid
              exact h.decide hrest hperm hrun
          | calculateCurrent uid' reward =>
              obtain rfl : uid' = uid := huid
              have hnode := hcurrent trivial [] List.mem_cons_self
              exact h.calculateCurrent hrest hperm hnode hrun
          | calculateAllTime uid' reward =>
              obtain rfl : uid' = uid := huid
              have hnode := hcurrent trivial [] List.mem_cons_self
              exact h.calculateAllTime hrest hperm hnode hrun
          | redeemUser uid' leaves =>
              obtain rfl : uid' = uid := huid
              have hleaves := hcurrent trivial ["currentLeaves"] List.mem_cons_self
              have hall := hcurrent trivial ["allTimeLeaves"]
                (List.mem_cons_of_mem _ List.mem_cons_self)
              exact h.redeemUser hrest hperm hleaves hall hrun
          | _ => exact hledger.elim
  | idleAnswer hidle reply =>
      rw [Option.toList_none, List.append_nil]
      exact h
  | idleServe hidle =>
      rw [Option.toList_none, List.append_nil]
      exact h

/-- The counters are the initial ones with everything the log says. -/
structure Ledger (uid : Uid) (current allTime : Int) (log : List AppEntry)
    (remote : Remote) : Prop where
  currentLeaves : asInt ((remote uid).child "currentLeaves") =
    some (current + total redeemed log + total rewarded log - total spent log)
  allTimeLeaves : asInt ((remote uid).child "allTimeLeaves") =
    some (allTime + total redeemed log + total rewarded log)

/-- **The leaves ledger.**  In every run of purchases, claims and redeems in which
each callback that writes a counter runs while the counter is still the one it
read, whatever else overlaps: once nothing is pending, the counters are the
initial ones plus all redeems and rewards, less the costs of exactly the
purchases that were delivered. -/
theorem run_ledger {uid : Uid} {remote : Remote} {app : App} {current allTime : Int}
    (huser : app.currentUser = some uid)
    (hcurrent : (remote uid).child "currentLeaves" = Tree.leaf (.int current))
    (hallTime : (remote uid).child "allTimeLeaves" = Tree.leaf (.int allTime))
    {es : List AppEvent}
    (halong : client.Along (fun s e => EarnsAndSpends s e ∧ ServeMeets CountersCurrent s e)
      ⟨remote, app, []⟩ es) {s' : AppSys}
    (hrun : client.run ⟨remote, app, []⟩ es = .ok s') (hidle : s'.pending = []) :
    Ledger uid current allTime (client.trace ⟨remote, app, []⟩ es) s'.remote := by
  have hstart : Balanced uid current allTime [] ⟨remote, app, []⟩ := by
    refine ⟨huser, ?_, ?_, ?_, ?_, ?_⟩
    · intro read hread
      cases hread
    · intro p hp
      cases hp
    · refine ⟨List.nodup_nil, List.nodup_nil, ?_, ?_⟩
      · intro purchase hpurchase
        cases hpurchase
      · intro purchase hpurchase
        cases hpurchase
    · refine hcurrent.trans ?_
      congr 2
      change current = current + 0 + 0 - 0 - 0 - 0
      omega
    · refine hallTime.trans ?_
      congr 2
      change allTime = allTime + 0 + 0 - 0
      omega
  have hend := client.run_rule (Balanced uid current allTime)
    (fun _ _ _ _ _ hinv hC hmove => hinv.step hC.1 hC.2 hmove)
    es [] _ s' hstart halong hrun
  rw [List.nil_append] at hend
  have hreads : s'.reads = [] := by
    unfold Sys.reads
    rw [hidle, List.map_nil]
  refine ⟨?_, ?_⟩
  · rw [hend.currentLeaves, hreads, asInt_int]
    congr 1
    change _ - 0 - 0 = _
    omega
  · rw [hend.allTimeLeaves, hreads, asInt_int]
    congr 1
    change _ - 0 = _
    omega

/-- A purchase, a claim and a redeem overlap: the deliveries and the decision are
late, while no two counter callbacks cross. -/
def overlappingLedger : List AppEvent :=
  [ .tap (.buy 0), .tap (.claim "today"), .answer 0 (.value []), .answer 1 (.value []),
    .answer 2 (.value []), .serve 0, .tap (.redeem (fun _ => 1) "today" toString),
    .answer 2 (.value []), .serve 2, .serve 1, .serve 0,
    .answer 0 (.value []), .answer 1 (.value []), .serve 1, .serve 0 ]

theorem run_ledger_overlapping :
    ∃ s', client.run ⟨newUser 120, newUserApp "ann" treeShelf, []⟩ overlappingLedger =
        .ok s' ∧
      Ledger "ann" 120 0 (client.trace ⟨newUser 120, newUserApp "ann" treeShelf, []⟩
        overlappingLedger) s'.remote := by
  obtain ⟨s', hrun, hidle⟩ : ∃ s', client.run
      ⟨newUser 120, newUserApp "ann" treeShelf, []⟩ overlappingLedger = .ok s' ∧
      s'.pending = [] :=
    client.exists_run_of_check (by decide +kernel)
  exact ⟨s', hrun, run_ledger rfl rfl rfl (by decide +kernel) hrun hidle⟩

/-- Two purchases whose wallet reads are both answered before either is served. -/
def overlappingPurchases : List AppEvent :=
  [ .tap (.buy 0), .tap (.buy 0), .answer 0 (.value []), .answer 1 (.value []),
    .answer 2 (.value []), .serve 0, .serve 0, .serve 0,
    .answer 0 (.value []), .serve 0 ]

/-- With 50 leaves two trees of 50 leaves each are bought. -/
theorem not_run_ledger :
    ¬ ∀ (uid : Uid) (remote : Remote) (app : App) (current allTime : Int)
        (es : List AppEvent), app.currentUser = some uid →
        (remote uid).child "currentLeaves" = Tree.leaf (.int current) →
        (remote uid).child "allTimeLeaves" = Tree.leaf (.int allTime) →
        client.Along EarnsAndSpends ⟨remote, app, []⟩ es →
        ∀ s', client.run ⟨remote, app, []⟩ es = .ok s' → s'.pending = [] →
          Ledger uid current allTime (client.trace ⟨remote, app, []⟩ es) s'.remote := by
  intro hclaim
  obtain ⟨s', hrun, hidle, hstored⟩ : ∃ s', client.run
      ⟨newUser 50, newUserApp "ann" treeShelf, []⟩ overlappingPurchases = .ok s' ∧
      s'.pending = [] ∧ asInt ((s'.remote "ann").child "currentLeaves") = some 0 :=
    client.exists_run_of_check (by decide +kernel)
  have hledger := hclaim "ann" _ _ 50 0 _ rfl rfl rfl (by decide +kernel) s' hrun hidle
  have hleaves := hledger.currentLeaves
  have hspent : total spent (client.trace ⟨newUser 50, newUserApp "ann" treeShelf, []⟩
      overlappingPurchases) = 100 := by
    decide +kernel
  have hredeemed : total redeemed (client.trace
      ⟨newUser 50, newUserApp "ann" treeShelf, []⟩ overlappingPurchases) = 0 := by
    decide +kernel
  have hrewarded : total rewarded (client.trace
      ⟨newUser 50, newUserApp "ann" treeShelf, []⟩ overlappingPurchases) = 0 := by
    decide +kernel
  rw [hstored, hspent, hredeemed, hrewarded, Option.some.injEq] at hleaves
  omega

end WillItRecycle

import WillItRecycle.LeavesLedger
import WillItRecycle.ReadOutcomes

/-!
# One purchase and the outcomes of its reads

A tap on BUY issues two reads.  Their callbacks write below different fields,
so that each is answered as by the record at the tap (`buy_apart`), and what
remains is which of the two reads failed and which callback ran first.

* `purchase_allOrNothing_iff` -- the purchase is all or nothing exactly when
  the callbacks run in turn (`purchaseInTurn`).
-/

namespace WillItRecycle

open PathTree ReadCallback

theorem storeItem_cost_pos {item : StoreItem} (h : item ∈ storeItems) : 0 < item.cost := by
  have hpos : ∀ storeItem ∈ storeItems, 0 < storeItem.cost := by decide
  exact hpos item h

theorem cost_pos (app : App) (cell : Nat) : 0 < (app.shown cell).cost :=
  storeItem_cost_pos (app.storeItem cell).property

/-! ## The callbacks on any counter -/

theorem buyLeavesRead_int {node : FNode} {leaves : Int} (hnode : asInt node = some leaves)
    (uid : Uid) (cell tap : Nat) (order : List String) (app : App) :
    buyLeavesRead uid cell tap (.value node order) app =
      .ok ⟨{ app with currentLeaves := app.currentLeaves.set tap (some leaves) },
        chargeWrites uid leaves (app.shown cell).cost, []⟩ := by
  have hempty := isEmpty_of_asInt hnode
  have hshown : App.shown { app with
      currentLeaves := app.currentLeaves.set tap (some leaves) } cell =
      app.shown cell := rfl
  unfold buyLeavesRead chargeWrites
  by_cases hcost : leaves - (app.shown cell).cost ≥ 0
  · simp only [hempty, Bool.false_eq_true, if_false, hnode, force_some, bind, Except.bind,
      hshown, if_pos hcost]
  · simp only [hempty, Bool.false_eq_true, if_false, hnode, force_some, bind, Except.bind,
      hshown, if_neg hcost]
    rfl

/-- Without a captured balance the second callback traps on any value. -/
theorem buyInventoryRead_uncaptured {app : App} {tap : Nat}
    (hnone : app.currentLeaves[tap]? = some none) (uid : Uid) (cell : Nat) (node : FNode)
    (order : List String) :
    buyInventoryRead uid cell tap (.value node order) app = .error .forceUnwrap := by
  have hcaptured : app.capturedLeaves tap = .error .forceUnwrap := by
    simp [App.capturedLeaves, hnone]
  unfold buyInventoryRead
  by_cases hempty : node.isEmpty = true
  · simp only [hempty, if_true, hcaptured, bind, Except.bind]
  · simp only [hempty, Bool.false_eq_true, if_false, hcaptured, bind, Except.bind]

/-- What a purchase leaves in `inventoryItems` when `node` was answered. -/
def deliverRow (storeItem : StoreItem) (node : FNode) (inventoryItems : List GameItem) :
    List GameItem :=
  if node.isEmpty then inventoryItems ++ [⟨storeItem.key, storeItem.item, 1, []⟩]
  else incrementInventory storeItem.key inventoryItems

/-- The write that delivers one more unit than `node` counts. -/
def deliverWrite (uid : Uid) (key : String) (node : FNode) : Write :=
  setValue uid ["inventory", key] (Tree.leaf (.int ((asInt node).getD 0 + 1)))

theorem buyInventoryRead_counter {app : App} {tap : Nat} {leaves : Int}
    (hleaves : app.currentLeaves[tap]? = some (some leaves)) {node : FNode}
    (hnode : IsCounter node) (uid : Uid) (cell : Nat) (order : List String) :
    buyInventoryRead uid cell tap (.value node order) app =
      if leaves - (app.shown cell).cost ≥ 0 then
        .ok ⟨{ app with
              inventoryItems := deliverRow (app.shown cell) node app.inventoryItems }.present
            StoreTableViewCell.successAlert,
          [deliverWrite uid (app.shown cell).key node], []⟩
      else
        (app.present StoreTableViewCell.errorAlert).done := by
  have hcaptured : app.capturedLeaves tap = .ok leaves := by
    simp [App.capturedLeaves, hleaves]
  unfold buyInventoryRead deliverRow deliverWrite
  rcases hnode with rfl | ⟨count, hcount⟩
  · simp only [Tree.isEmpty_empty, if_true, hcaptured, bind, Except.bind, asInt_empty,
      Option.getD_none]
    rfl
  · simp only [isEmpty_of_asInt hcount, Bool.false_eq_true, if_false, hcaptured, bind,
      Except.bind, hcount, force_some, Option.getD_some]

/-! ## The two reads -/

/-- The balance a snapshot of the wallet shows. -/
def Snapshot.balance : Snapshot → Option Int
  | .error => none
  | .value node _ => asInt node

theorem buyLeavesRead_balance {snapshot : Snapshot} {app : App} {tap : Nat}
    (hsnapshot : ∀ node order, snapshot = .value node order → IsCounter node)
    (hnone : app.currentLeaves[tap]? = some none) (uid : Uid) (cell : Nat) :
    buyLeavesRead uid cell tap snapshot app =
      .ok ⟨{ app with currentLeaves := app.currentLeaves.set tap snapshot.balance },
        snapshot.balance.elim [] fun leaves =>
          chargeWrites uid leaves (app.shown cell).cost, []⟩ := by
  have hkept : app.currentLeaves.set tap none = app.currentLeaves := by
    obtain ⟨hlt, hget⟩ := List.getElem?_eq_some_iff.mp hnone
    rw [← hget, List.set_getElem_self]
  cases snapshot with
  | error =>
      change _ = Except.ok (Effects.mk { app with
        currentLeaves := app.currentLeaves.set tap none } _ _)
      rw [hkept]
      rfl
  | value node order =>
      rcases hsnapshot node order rfl with rfl | ⟨leaves, hleaves⟩
      · change _ = Except.ok (Effects.mk { app with
          currentLeaves := app.currentLeaves.set tap none } _ _)
        rw [hkept]
        rfl
      · rw [buyLeavesRead_int hleaves]
        simp only [Snapshot.balance, hleaves, Option.elim_some]

theorem buyLeavesRead_keepsTo {uid : Uid} {cell tap : Nat} {snapshot : Snapshot} {app : App}
    {fx : Effects App Write Read} (hfx : buyLeavesRead uid cell tap snapshot app = .ok fx) :
    KeepsTo "currentLeaves" fx := by
  cases snapshot with
  | error =>
      obtain rfl := Except.ok.inj hfx
      exact keepsTo_done _ app
  | value node order =>
      rcases buyLeavesRead_cases hfx with ⟨rfl, _⟩ | ⟨leaves, _, rfl⟩
      · exact keepsTo_done _ app
      · refine ⟨rfl, ?_⟩
        intro write hwrite
        rw [mem_chargeWrites hwrite]
        exact ⟨[], rfl⟩

theorem buyInventoryRead_keepsTo {uid : Uid} {cell tap : Nat} {snapshot : Snapshot}
    {app : App} {fx : Effects App Write Read}
    (hfx : buyInventoryRead uid cell tap snapshot app = .ok fx) :
    KeepsTo "inventory" fx := by
  cases snapshot with
  | error =>
      obtain rfl := Except.ok.inj hfx
      exact keepsTo_done _ app
  | value node order =>
      obtain ⟨_, _, _, _, _, hreads, hwrites, _⟩ := buyInventoryRead_cases hfx
      exact ⟨hreads, hwrites⟩

/-- The two reads of a purchase do not interfere. -/
theorem buy_apart (remote : Remote) (uid : Uid) (cell tap : Nat) (key : String) :
    client.Apart remote [.buyLeaves uid cell tap, .buyInventory uid cell tap key] :=
  have hne : "currentLeaves" ≠ "inventory" := by decide
  apart_of_fields hne ⟨[], rfl⟩ ⟨fpath [key], rfl⟩
    (fun _ _ _ hfx => buyLeavesRead_keepsTo hfx)
    (fun _ _ _ hfx => buyInventoryRead_keepsTo hfx)

/-- The app after a tap on BUY. -/
def App.bought (app : App) : App :=
  { app with currentLeaves := app.currentLeaves ++ [none] }

theorem buy_step {app : App} {uid : Uid} (huser : app.currentUser = some uid)
    (remote : Remote) (cell : Nat) :
    client.step ⟨remote, app, []⟩ (.tap (.buy cell)) =
      .ok ⟨remote, app.bought,
        [⟨.buyLeaves uid cell app.currentLeaves.length, none⟩,
          ⟨.buyInventory uid cell app.currentLeaves.length (app.shown cell).key, none⟩]⟩ := by
  simp [Client.step, Client.perform, Tap.handle, buyOnClick, huser, bind, Except.bind,
    Except.map, App.bought]

/-! ## All or nothing -/

/-- The records after `item` was bought with a balance of `leaves`. -/
def purchased (uid : Uid) (item : StoreItem) (leaves : Int) (remote : Remote) : Remote :=
  let count := (asInt ((remote uid).get ["inventory", item.key])).getD 0
  Function.update remote uid
    (((remote uid).set ["currentLeaves"] (Tree.leaf (.int (leaves - item.cost)))).set
      ["inventory", item.key] (Tree.leaf (.int (count + 1))))

/-- From `remote` and `app` to `remote'` and `app'` either nothing was charged
and nothing delivered, or both, and the success alert tells which. -/
def AllOrNothing (uid : Uid) (item : StoreItem) (remote : Remote) (app : App)
    (remote' : Remote) (app' : App) : Prop :=
  ∃ shown, app'.alerts = app.alerts ++ shown ∧
    (remote' = remote ∧ StoreTableViewCell.successAlert ∉ shown ∨
      ∃ leaves, asInt ((remote uid).child "currentLeaves") = some leaves ∧
        remote' = purchased uid item leaves remote ∧
        StoreTableViewCell.successAlert ∈ shown)

/-- The callbacks ran in turn: an answer about the inventory came to a callback
that found the balance, and a wallet that covers the cost was not charged while
the inventory could not be read. -/
def purchaseInTurn (wallet : Option Int) (cost : Int) : List (Read × Snapshot) → Bool
  | [(.buyLeaves .., .value ..), (.buyInventory .., .value ..)] => wallet.isSome
  | [(.buyLeaves .., .value ..), (.buyInventory .., .error)]
  | [(.buyInventory .., .error), (.buyLeaves .., .value ..)] =>
      wallet.all fun leaves => leaves < cost
  | [(.buyLeaves .., .error), (.buyInventory .., .error)]
  | [(.buyInventory .., .error), (.buyLeaves .., .error)] => true
  | _ => false

section Purchase

variable {remote : Remote} {app : App} {uid : Uid} {item : StoreItem}

theorem allOrNothing_unchanged {app' : App} (shown : List Alert)
    (halerts : app'.alerts = app.alerts ++ shown)
    (hshown : StoreTableViewCell.successAlert ∉ shown) :
    AllOrNothing uid item remote app remote app' :=
  ⟨shown, halerts, Or.inl ⟨rfl, hshown⟩⟩

/-- A charge alone is not all or nothing. -/
theorem allOrNothing_charge_iff {balance : Option Int} {app' : App}
    (hbalance : ∀ leaves, balance = some leaves →
      asInt ((remote uid).child "currentLeaves") = some leaves)
    (hcost : 0 < item.cost) (halerts : app'.alerts = app.alerts) :
    AllOrNothing uid item remote app
      (client.applyAll (balance.elim [] fun leaves => chargeWrites uid leaves item.cost) remote)
      app' ↔ ∀ leaves, balance = some leaves → leaves < item.cost := by
  cases balance with
  | none =>
      have hnothing : AllOrNothing uid item remote app remote app' :=
        allOrNothing_unchanged [] (by simpa using halerts) (by simp)
      simpa using hnothing
  | some leaves =>
      have hwallet := hbalance leaves rfl
      by_cases hcovers : leaves - item.cost ≥ 0
      · have hne : client.applyAll (chargeWrites uid leaves item.cost) remote ≠ remote := by
          intro heq
          have hread := congrArg
            (fun remote' : Remote => asInt ((remote' uid).child "currentLeaves")) heq
          simp only [chargeWrites, if_pos hcovers] at hread
          rw [child_setCounter uid (by decide), hwallet, asInt_int] at hread
          have hsame := Option.some.inj hread
          omega
        constructor
        · intro hall
          obtain ⟨shown, hshown, hcases⟩ := hall
          have hnil : shown = [] := by simpa [halerts] using hshown
          rcases hcases with ⟨hsame, _⟩ | ⟨_, _, _, hmem⟩
          · exact absurd hsame hne
          · simp [hnil] at hmem
        · intro hless
          have := hless leaves rfl
          omega
      · have hnothing : AllOrNothing uid item remote app remote app' :=
          allOrNothing_unchanged [] (by simpa using halerts) (by simp)
        have hwrites : chargeWrites uid leaves item.cost = [] := by
          rw [chargeWrites, if_neg hcovers]
        have hless : leaves < item.cost := by omega
        simpa [hwrites, hless] using hnothing

end Purchase

/-- A snapshot shows `node`, or the read failed. -/
def Shows (snapshot : Snapshot) (node : FNode) : Prop :=
  snapshot = .error ∨ ∃ order, snapshot = .value node order

theorem shows_answer (read : Read) (reply : Reply) (remote : Remote) :
    Shows (read.answer reply remote) ((remote read.uid).get read.path) := by
  cases reply with
  | error => exact Or.inl rfl
  | value order => exact Or.inr ⟨order, rfl⟩

section Settled

variable {remote : Remote} {app : App} {uid : Uid} {cell : Nat} {wallet count : Snapshot}

/-- The purchase is all or nothing once these callbacks have run. -/
def SettlesWhole (remote : Remote) (app : App) (uid : Uid) (cell : Nat)
    (calls : List (Read × Snapshot)) : Prop :=
  ∃ r l, client.settle calls remote app.bought = .ok (r, l) ∧
    AllOrNothing uid (app.shown cell) remote app r l

/-- The first callback, before or after the second, captures the balance. -/
theorem callback_buyLeaves (app : App) (cell : Nat)
    (hwallet : Shows wallet ((remote uid).child "currentLeaves"))
    (hleaves : IsCounter ((remote uid).child "currentLeaves")) :
    client.callback (.buyLeaves uid cell app.currentLeaves.length) wallet app.bought =
      .ok ⟨{ app with currentLeaves := app.currentLeaves ++ [wallet.balance] },
        wallet.balance.elim [] fun leaves =>
          chargeWrites uid leaves (app.shown cell).cost, []⟩ := by
  have hnone : app.bought.currentLeaves[app.currentLeaves.length]? = some none := by
    simp [App.bought]
  have hcounter : ∀ node order, wallet = .value node order → IsCounter node := by
    intro node order heq
    rcases hwallet with rfl | ⟨_, rfl⟩
    · cases heq
    · cases heq
      exact hleaves
  have hset : app.bought.currentLeaves.set app.currentLeaves.length wallet.balance =
      app.currentLeaves ++ [wallet.balance] := by
    simp [App.bought]
  have hcallback := buyLeavesRead_balance hcounter hnone uid cell
  rw [hset] at hcallback
  exact hcallback

theorem balance_of_shows {node : FNode} (hwallet : Shows wallet node) {leaves : Int}
    (h : wallet.balance = some leaves) : asInt node = some leaves := by
  rcases hwallet with rfl | ⟨_, rfl⟩
  · cases h
  · exact h

/-- The purchase when its second read fails. -/
theorem settlesWhole_charge_iff (hwallet : Shows wallet ((remote uid).child "currentLeaves")) :
    AllOrNothing uid (app.shown cell) remote app
        (client.applyAll (wallet.balance.elim [] fun leaves =>
          chargeWrites uid leaves (app.shown cell).cost) remote)
        { app with currentLeaves := app.currentLeaves ++ [wallet.balance] } ↔
      ∀ leaves, wallet.balance = some leaves → leaves < (app.shown cell).cost :=
  allOrNothing_charge_iff (fun _ h => balance_of_shows hwallet h) (cost_pos app cell) rfl

/-- What the purchase writes when both callbacks find what they need. -/
theorem purchased_writes (uid : Uid) (remote : Remote) {leaves : Int}
    (hcovers : leaves - (app.shown cell).cost ≥ 0) :
    client.applyAll [deliverWrite uid (app.shown cell).key
        ((remote uid).get ["inventory", (app.shown cell).key])]
      (client.applyAll (chargeWrites uid leaves (app.shown cell).cost) remote) =
      purchased uid (app.shown cell) leaves remote := by
  have hkey : (app.shown cell).key ≠ "" := shown_key_ne_empty app cell
  simp only [chargeWrites, if_pos hcovers, Client.applyAll_cons, Client.applyAll_nil,
    client_apply, Write.apply, setValue, deliverWrite, fpath_currentLeaves,
    fpath_inventory hkey, Function.update_self, Function.update_idem]
  rfl

/-- The second callback, run while nothing is captured. -/
theorem callback_uncaptured (key : String) (node : FNode) (order : List String) :
    client.callback (.buyInventory uid cell app.currentLeaves.length key) (.value node order)
      { app with currentLeaves := app.currentLeaves ++ [none] } = .error .forceUnwrap :=
  buyInventoryRead_uncaptured (by simp) uid cell node order

/-- The second callback, run on a captured balance. -/
theorem callback_captured (uid : Uid) (cell : Nat) (app : App) {node : FNode}
    (hnode : IsCounter node) (leaves : Int) (key : String) (order : List String) :
    client.callback (.buyInventory uid cell app.currentLeaves.length key) (.value node order)
      { app with currentLeaves := app.currentLeaves ++ [some leaves] } =
      if leaves - (app.shown cell).cost ≥ 0 then
        .ok ⟨App.present { app with
              currentLeaves := app.currentLeaves ++ [some leaves]
              inventoryItems := deliverRow (app.shown cell) node app.inventoryItems }
            StoreTableViewCell.successAlert,
          [deliverWrite uid (app.shown cell).key node], []⟩
      else
        App.done (App.present { app with
          currentLeaves := app.currentLeaves ++ [some leaves] } StoreTableViewCell.errorAlert) :=
  buyInventoryRead_counter (by simp) hnode uid cell order

theorem settlesWhole_inOrder_iff
    (hwallet : Shows wallet ((remote uid).child "currentLeaves"))
    (hcount : Shows count ((remote uid).get ["inventory", (app.shown cell).key]))
    (hleaves : IsCounter ((remote uid).child "currentLeaves"))
    (hcounter : IsCounter ((remote uid).get ["inventory", (app.shown cell).key]))
    (key : String) :
    SettlesWhole remote app uid cell
        [(.buyLeaves uid cell app.currentLeaves.length, wallet),
          (.buyInventory uid cell app.currentLeaves.length key, count)] ↔
      purchaseInTurn (asInt ((remote uid).child "currentLeaves")) (app.shown cell).cost
        [(.buyLeaves uid cell app.currentLeaves.length, wallet),
          (.buyInventory uid cell app.currentLeaves.length key, count)] := by
  unfold SettlesWhole
  rw [client.settle_cons_ok (callback_buyLeaves app cell hwallet hleaves)]
  rcases hcount with rfl | ⟨order, rfl⟩
  · have hunread : ∀ app', client.callback
        (.buyInventory uid cell app.currentLeaves.length key) .error app' =
        .ok ⟨app', [], []⟩ := fun _ => rfl
    rw [client.settle_cons_ok (hunread _), client.settle_nil, Client.exists_ok_iff]
    refine (settlesWhole_charge_iff hwallet).trans ?_
    rcases hwallet with rfl | ⟨order, rfl⟩
    · simp [purchaseInTurn, Snapshot.balance]
    · simp only [purchaseInTurn, Snapshot.balance, Option.all_eq_true, decide_eq_true_eq]
  · cases hbalance : wallet.balance with
    | none =>
        rw [client.settle_cons_error (callback_uncaptured key _ order)]
        rcases hwallet with rfl | ⟨order', rfl⟩
        · simp [purchaseInTurn]
        · change asInt ((remote uid).child "currentLeaves") = none at hbalance
          simp [purchaseInTurn, hbalance]
    | some leaves =>
        have hsome := balance_of_shows hwallet hbalance
        have hturn : purchaseInTurn (asInt ((remote uid).child "currentLeaves"))
            (app.shown cell).cost
            [(.buyLeaves uid cell app.currentLeaves.length, wallet),
              (.buyInventory uid cell app.currentLeaves.length key,
                .value ((remote uid).get ["inventory", (app.shown cell).key]) order)] := by
          rcases hwallet with rfl | ⟨order', rfl⟩
          · cases hbalance
          · simp [purchaseInTurn, hsome]
        refine ⟨fun _ => hturn, fun _ => ?_⟩
        have hread := callback_captured uid cell app hcounter leaves key order
        by_cases hcovers : leaves - (app.shown cell).cost ≥ 0
        · rw [if_pos hcovers] at hread
          rw [client.settle_cons_ok hread, client.settle_nil, Client.exists_ok_iff]
          have hpurchased := purchased_writes uid remote hcovers
          exact ⟨[StoreTableViewCell.successAlert], rfl,
            Or.inr ⟨leaves, hsome, hpurchased, by simp⟩⟩
        · rw [if_neg hcovers] at hread
          rw [client.settle_cons_ok hread, client.settle_nil, Client.exists_ok_iff]
          have hwrites : chargeWrites uid leaves (app.shown cell).cost = [] := by
            rw [chargeWrites, if_neg hcovers]
          simp only [Option.elim_some, hwrites, Client.applyAll_nil]
          exact allOrNothing_unchanged [StoreTableViewCell.errorAlert] rfl (by decide)

theorem settlesWhole_reversed_iff
    (hwallet : Shows wallet ((remote uid).child "currentLeaves"))
    (hleaves : IsCounter ((remote uid).child "currentLeaves")) (key : String) :
    SettlesWhole remote app uid cell
        [(.buyInventory uid cell app.currentLeaves.length key, count),
          (.buyLeaves uid cell app.currentLeaves.length, wallet)] ↔
      purchaseInTurn (asInt ((remote uid).child "currentLeaves")) (app.shown cell).cost
        [(.buyInventory uid cell app.currentLeaves.length key, count),
          (.buyLeaves uid cell app.currentLeaves.length, wallet)] := by
  unfold SettlesWhole
  cases count with
  | error =>
      have hunread : client.callback
          (.buyInventory uid cell app.currentLeaves.length key) .error app.bought =
          .ok ⟨app.bought, [], []⟩ := rfl
      rw [client.settle_cons_ok hunread,
        client.settle_cons_ok (callback_buyLeaves app cell hwallet hleaves), client.settle_nil,
        Client.exists_ok_iff]
      refine (settlesWhole_charge_iff hwallet).trans ?_
      rcases hwallet with rfl | ⟨order, rfl⟩
      · simp [purchaseInTurn, Snapshot.balance]
      · simp only [purchaseInTurn, Snapshot.balance, Option.all_eq_true, decide_eq_true_eq]
  | value node order =>
      have htrap : client.callback (.buyInventory uid cell app.currentLeaves.length key)
          (.value node order) app.bought = .error .forceUnwrap :=
        callback_uncaptured key node order
      rw [client.settle_cons_error htrap]
      simp [purchaseInTurn]

end Settled

/-- **A purchase is all or nothing exactly when its callbacks run in turn.**
For every record, whatever the outcomes of the two reads and the order of
their callbacks. -/
theorem purchase_allOrNothing_iff {remote : Remote} {app : App} {uid : Uid} (cell : Nat)
    (huser : app.currentUser = some uid)
    (hleaves : IsCounter ((remote uid).child "currentLeaves"))
    (hcounter : IsCounter ((remote uid).get ["inventory", (app.shown cell).key]))
    {es : List AppEvent} (htaps : taps es = [])
    (hdone : client.Finishes ⟨remote, app, []⟩ (.tap (.buy cell) :: es)) :
    (∃ s', client.run ⟨remote, app, []⟩ (.tap (.buy cell) :: es) = .ok s' ∧
      AllOrNothing uid (app.shown cell) remote app s'.remote s'.state) ↔
    purchaseInTurn (asInt ((remote uid).child "currentLeaves")) (app.shown cell).cost
      (client.started ⟨remote, app, []⟩ (.tap (.buy cell) :: es)) := by
  have hstep := buy_step huser remote cell
  have hapart := buy_apart remote uid cell app.currentLeaves.length (app.shown cell).key
  have hwallet : ∀ reply, Shows
      ((Read.buyLeaves uid cell app.currentLeaves.length).answer reply remote)
      ((remote uid).child "currentLeaves") := fun reply => shows_answer _ reply remote
  have hcount : ∀ reply, Shows
      ((Read.buyInventory uid cell app.currentLeaves.length (app.shown cell).key).answer
        reply remote)
      ((remote uid).get ["inventory", (app.shown cell).key]) := by
    intro reply
    have hshows := shows_answer
      (.buyInventory uid cell app.currentLeaves.length (app.shown cell).key) reply remote
    change Shows _ ((remote uid).get (fpath ["inventory", (app.shown cell).key])) at hshows
    rwa [fpath_inventory (shown_key_ne_empty app cell)] at hshows
  rw [client.tapped_iff (P := AllOrNothing uid (app.shown cell) remote app) hstep htaps,
    client.started_tap hstep]
  change SettlesWhole remote app uid cell _ ↔ _
  rcases client.started_pair hapart htaps (hdone.of_step client hstep) with
    ⟨i, j, hstarted⟩ | ⟨i, j, hstarted⟩ | ⟨i, err, hstarted, htrap⟩ | ⟨j, err, hstarted, htrap⟩
  · rw [hstarted]
    exact settlesWhole_inOrder_iff (hwallet i) (hcount j) hleaves hcounter _
  · rw [hstarted]
    exact settlesWhole_reversed_iff (hwallet i) hleaves _
  · -- the first callback never traps
    rw [client_callback, client_answer] at htrap
    have hcallback := callback_buyLeaves app cell (hwallet i) hleaves
    rw [client_callback, htrap] at hcallback
    cases hcallback
  · rw [hstarted]
    unfold SettlesWhole
    rw [client.settle_cons_error htrap]
    simp [purchaseInTurn]

/-- Both reads of the one purchase are answered and served in order. -/
def oneTree (wallet count : Reply) : List AppEvent :=
  [.tap (.buy 0), .answer 0 wallet, .answer 1 count, .serve 0, .serve 0]

theorem purchase_allOrNothing_tree :
    ∃ s', client.run ⟨newUser 100, newUserApp "ann" treeShelf, []⟩
        (oneTree (.value []) (.value [])) = .ok s' ∧
      AllOrNothing "ann" ⟨"tree", "Tree", 50⟩ (newUser 100) (newUserApp "ann" treeShelf)
        s'.remote s'.state :=
  (purchase_allOrNothing_iff 0 rfl (Or.inr ⟨100, by decide +kernel⟩)
    (Or.inl (Tree.isEmpty_iff.mp (by decide +kernel))) rfl
    (client.finishes_of_check (by decide +kernel))).mpr (by decide +kernel)

/-- The inventory read fails and 50 leaves are gone for no tree. -/
theorem not_purchase_allOrNothing :
    ¬ ∀ (remote : Remote) (app : App) (uid : Uid) (cell : Nat) (es : List AppEvent),
        app.currentUser = some uid → IsCounter ((remote uid).child "currentLeaves") →
        IsCounter ((remote uid).get ["inventory", (app.shown cell).key]) → taps es = [] →
        client.Finishes ⟨remote, app, []⟩ (.tap (.buy cell) :: es) →
        ∃ s', client.run ⟨remote, app, []⟩ (.tap (.buy cell) :: es) = .ok s' ∧
          AllOrNothing uid (app.shown cell) remote app s'.remote s'.state := by
  intro hclaim
  obtain ⟨s', hrun, shown, halerts, hcases⟩ := hclaim (newUser 100)
    (newUserApp "ann" treeShelf) "ann" 0
    [.answer 0 (.value []), .answer 1 .error, .serve 0, .serve 0] rfl
    (Or.inr ⟨100, by decide +kernel⟩) (Or.inl (Tree.isEmpty_iff.mp (by decide +kernel))) rfl
    (client.finishes_of_check (by decide +kernel))
  obtain ⟨s'', hrun'', hquiet, hcharged⟩ : ∃ s'', client.run
      ⟨newUser 100, newUserApp "ann" treeShelf, []⟩ (oneTree (.value []) .error) = .ok s'' ∧
      s''.state.alerts = [] ∧ asInt ((s''.remote "ann").child "currentLeaves") = some 50 :=
    client.exists_run_of_check (by decide +kernel)
  obtain rfl : s' = s'' := Except.ok.inj (hrun.symm.trans hrun'')
  have hnil : shown = [] := by
    rw [hquiet] at halerts
    exact (List.nil_eq_append_iff.mp halerts).2
  rcases hcases with ⟨hsame, _⟩ | ⟨_, _, _, hmem⟩
  · rw [hsame] at hcharged
    have hbefore : asInt ((newUser 100 "ann").child "currentLeaves") = some 100 := by
      decide +kernel
    rw [hbefore] at hcharged
    cases hcharged
  · simp [hnil] at hmem

end WillItRecycle

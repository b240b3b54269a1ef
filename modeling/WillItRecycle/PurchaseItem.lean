import WillItRecycle.Purchase

/-!
# The item a purchase concerns

The read of the count is fixed at the tap, but both callbacks of a purchase
look up `self.storeItem`, which a search or a reload of the table may have
bound to another row meanwhile.  `BuyStage` tells how far a purchase has got
and which item its cell showed when each callback ran.

* `purchase_concerns_iff` -- a purchase charges and delivers the item tapped
  exactly when the cell shows that item, or one that makes no difference, at
  both callbacks.
-/

namespace WillItRecycle

open PathTree ReadCallback

/-- What can happen while a purchase waits for reads that succeed and are
served in order: the table binds its cells anew. -/
def rebinds : AppEvent → Bool
  | .tap (.cellForRow ..) => true
  | .tap _ => false
  | .answer _ (.value _) => true
  | .answer _ .error => false
  | .serve i => i == 0

/-- From `remote` and `app` to `remote'` and `app'` the wallet of `leaves` paid
for `item`, and nothing else was touched; or it does not cover the cost and
nothing was. -/
def ConcernsItem (uid : Uid) (item : StoreItem) (leaves : Int) (remote : Remote) (app : App)
    (remote' : Remote) (app' : App) : Prop :=
  if item.cost ≤ leaves then
    remote' = purchased uid item leaves remote ∧
      app'.inventoryItems.filter (fun row => row.key ≠ item.key) =
        app.inventoryItems.filter (fun row => row.key ≠ item.key) ∧
      app'.alerts = app.alerts ++ [StoreTableViewCell.successAlert]
  else
    remote' = remote ∧ app'.inventoryItems = app.inventoryItems ∧
      app'.alerts = app.alerts ++ [StoreTableViewCell.errorAlert]

/-- Charging for `shown` is charging for `item`. -/
def ChargesFor (item : StoreItem) (leaves : Int) (shown : StoreItem) : Prop :=
  if item.cost ≤ leaves then shown.cost = item.cost else leaves < shown.cost

/-- Delivering `shown` is delivering `item`. -/
def DeliversFor (item : StoreItem) (leaves : Int) (shown : StoreItem) : Prop :=
  if item.cost ≤ leaves then shown = item else leaves < shown.cost

instance (item : StoreItem) (leaves : Int) (shown : StoreItem) :
    Decidable (ChargesFor item leaves shown) :=
  inferInstanceAs (Decidable
    (if item.cost ≤ leaves then shown.cost = item.cost else leaves < shown.cost))

instance (item : StoreItem) (leaves : Int) (shown : StoreItem) :
    Decidable (DeliversFor item leaves shown) :=
  inferInstanceAs (Decidable
    (if item.cost ≤ leaves then shown = item else leaves < shown.cost))

/-- The cell shows an item as good as the tapped one when a callback runs. -/
def ShowsTapped (item : StoreItem) (leaves : Int) (cell : Nat) :
    Read → Snapshot → Remote → App → Prop
  | .buyLeaves .., _, _, app => ChargesFor item leaves (app.shown cell)
  | .buyInventory .., _, _, app => DeliversFor item leaves (app.shown cell)
  | _, _, _, _ => True

instance (item : StoreItem) (leaves : Int) (cell : Nat) (read : Read) (snapshot : Snapshot)
    (remote : Remote) (app : App) :
    Decidable (ShowsTapped item leaves cell read snapshot remote app) :=
  match read with
  | .buyLeaves .. => inferInstanceAs (Decidable (ChargesFor item leaves (app.shown cell)))
  | .buyInventory .. => inferInstanceAs (Decidable (DeliversFor item leaves (app.shown cell)))
  | .placeActive .. | .placeInventory .. | .removeActive .. | .removeInventory ..
  | .claimDate .. | .calculateCurrent .. | .calculateAllTime .. | .redeemUser ..
  | .signInName .. | .signInInventory _ | .signInActive _ => isTrue trivial

/-! ## Stages of a purchase -/

/-- The purchase tapped on `remote` and `app`: the items shown at the callbacks
that have run, with a wallet of `leaves` and `node` the count read. -/
structure BuyStage (uid : Uid) (cell : Nat) (leaves : Int) (node : FNode) (remote : Remote)
    (app : App) (charged delivered : Option StoreItem) (s : AppSys) : Prop where
  waiting : client.Waiting remote
    [.buyLeaves uid cell app.currentLeaves.length,
      .buyInventory uid cell app.currentLeaves.length (app.shown cell).key] s
  succeeded : ∀ p ∈ s.pending, p.answer ≠ some .error
  reads : s.reads =
    (if charged = none then [Read.buyLeaves uid cell app.currentLeaves.length] else []) ++
      if delivered = none then
        [Read.buyInventory uid cell app.currentLeaves.length (app.shown cell).key]
      else []
  inOrder : charged = none → delivered = none
  shelf : ∀ item, charged = some item ∨ delivered = some item → item ∈ storeItems
  remote : s.remote =
    client.applyAll (delivered.elim [] fun item =>
        if item.cost ≤ leaves then [deliverWrite uid item.key node] else [])
      (client.applyAll (charged.elim [] fun item => chargeWrites uid leaves item.cost) remote)
  currentLeaves : s.state.currentLeaves =
    app.currentLeaves ++ [charged.map fun _ => leaves]
  inventoryItems : s.state.inventoryItems =
    delivered.elim app.inventoryItems fun item =>
      if item.cost ≤ leaves then deliverRow item node app.inventoryItems
      else app.inventoryItems
  alerts : s.state.alerts =
    app.alerts ++ delivered.toList.map fun item =>
      if item.cost ≤ leaves then StoreTableViewCell.successAlert
      else StoreTableViewCell.errorAlert

section Stages

variable {uid : Uid} {cell : Nat} {leaves : Int} {node : FNode} {remote : Remote} {app : App}
  {charged delivered : Option StoreItem} {s : AppSys}

/-- Only the table was rebound. -/
theorem BuyStage.rebind (h : BuyStage uid cell leaves node remote app charged delivered s)
    (cell' : Nat) (storeItem : ShelfItem) :
    BuyStage uid cell leaves node remote app charged delivered
      { s with state := s.state.cellForRow cell' storeItem } where
  waiting := ⟨h.waiting.nodup, h.waiting.mem, h.waiting.given, h.waiting.current⟩
  succeeded := h.succeeded
  reads := h.reads
  inOrder := h.inOrder
  shelf := h.shelf
  remote := h.remote
  currentLeaves := h.currentLeaves
  inventoryItems := h.inventoryItems
  alerts := h.alerts

/-- A read is answered. -/
theorem BuyStage.answered
    (h : BuyStage uid cell leaves node remote app charged delivered s) {read : Read}
    {before after : List (Pending Read Snapshot)}
    (hpending : s.pending = before ++ ⟨read, none⟩ :: after) (order : List String) :
    BuyStage uid cell leaves node remote app charged delivered
      { s with pending :=
          before ++ ⟨read, some (client.answer read (.value order) s.remote)⟩ :: after } where
  waiting := h.waiting.answered client hpending (.value order)
  succeeded := by
    intro p hp
    rw [List.mem_append, List.mem_cons] at hp
    rcases hp with hp | rfl | hp
    · exact h.succeeded p (by simp [hpending, hp])
    · intro heq
      cases heq
    · exact h.succeeded p (by simp [hpending, hp])
  reads := by
    have hreads := h.reads
    unfold Sys.reads at hreads ⊢
    rw [hpending, List.map_append, List.map_cons] at hreads
    rw [List.map_append, List.map_cons]
    exact hreads
  inOrder := h.inOrder
  shelf := h.shelf
  remote := h.remote
  currentLeaves := h.currentLeaves
  inventoryItems := h.inventoryItems
  alerts := h.alerts

/-- The answer waiting first in the list is one the store at the tap gave. -/
theorem BuyStage.given (h : BuyStage uid cell leaves node remote app charged delivered s)
    {read : Read} {snapshot : Snapshot} {after : List (Pending Read Snapshot)}
    (hpending : s.pending = ⟨read, some snapshot⟩ :: after) :
    ∃ order, snapshot = client.answer read (.value order) remote := by
  have hmem : (⟨read, some snapshot⟩ : Pending Read Snapshot) ∈ s.pending := by
    simp [hpending]
  obtain ⟨reply, hreply⟩ := h.waiting.given _ hmem snapshot rfl
  cases reply with
  | error =>
      have hfailed : (⟨read, some snapshot⟩ : Pending Read Snapshot).answer = some .error :=
        congrArg some hreply
      exact absurd hfailed (h.succeeded _ hmem)
  | value order => exact ⟨order, hreply⟩

/-- The wallet was charged for the item shown. -/
theorem BuyStage.charge (h : BuyStage uid cell leaves node remote app none none s)
    (hleaves : asInt ((remote uid).child "currentLeaves") = some leaves)
    {snapshot : Snapshot} {after : List (Pending Read Snapshot)}
    (hpending : s.pending =
      ⟨.buyLeaves uid cell app.currentLeaves.length, some snapshot⟩ :: after)
    {fx : Effects App Write Read}
    (hrun : client.callback (.buyLeaves uid cell app.currentLeaves.length) snapshot s.state =
      .ok fx) :
    BuyStage uid cell leaves node remote app (some (s.state.shown cell)) none
      (client.perform s after fx) := by
  obtain ⟨order, rfl⟩ := h.given hpending
  have hsplit : s.pending = [] ++ _ :: after := hpending
  obtain ⟨hwaiting, _⟩ := h.waiting.served client (buy_apart remote uid cell _ _) hsplit hrun
  have hread := buyLeavesRead_int hleaves uid cell app.currentLeaves.length order s.state
  obtain rfl := Except.ok.inj (hrun.symm.trans hread)
  have hrest : after.map Pending.read =
      [.buyInventory uid cell app.currentLeaves.length (app.shown cell).key] := by
    have hreads := h.reads
    unfold Sys.reads at hreads
    rw [hpending] at hreads
    simpa using hreads
  have hshelf : ∀ item, some (s.state.shown cell) = some item ∨ none = some item →
      item ∈ storeItems := by
    intro item hitem
    rcases hitem with hitem | hitem
    · obtain rfl := Option.some.inj hitem
      exact (s.state.storeItem cell).property
    · cases hitem
  refine ⟨hwaiting, ?_, ?_, (fun hnone => by cases hnone), hshelf, ?_, ?_, ?_, ?_⟩
  · intro p hp
    have hp' : p ∈ after := by simpa [Client.perform] using hp
    exact h.succeeded p (by simp [hpending, hp'])
  · rw [client.reads_perform, hrest]
    rfl
  · change client.applyAll _ s.remote = _
    rw [h.remote]
    rfl
  · change s.state.currentLeaves.set app.currentLeaves.length (some leaves) = _
    rw [h.currentLeaves]
    simp
  · exact h.inventoryItems
  · exact h.alerts

/-- The item shown was delivered, or refused. -/
theorem BuyStage.deliver {paid : StoreItem}
    (h : BuyStage uid cell leaves
      ((remote uid).get ["inventory", (app.shown cell).key]) remote app (some paid) none s)
    (hcounter : IsCounter ((remote uid).get ["inventory", (app.shown cell).key]))
    {snapshot : Snapshot} {after : List (Pending Read Snapshot)}
    (hpending : s.pending =
      ⟨.buyInventory uid cell app.currentLeaves.length (app.shown cell).key,
        some snapshot⟩ :: after)
    {fx : Effects App Write Read}
    (hrun : client.callback
      (.buyInventory uid cell app.currentLeaves.length (app.shown cell).key) snapshot s.state =
      .ok fx) :
    BuyStage uid cell leaves
      ((remote uid).get ["inventory", (app.shown cell).key]) remote app (some paid)
      (some (s.state.shown cell)) (client.perform s after fx) := by
  obtain ⟨order, rfl⟩ := h.given hpending
  have hsplit : s.pending = [] ++ _ :: after := hpending
  obtain ⟨hwaiting, _⟩ := h.waiting.served client (buy_apart remote uid cell _ _) hsplit hrun
  have hcaptured : s.state.currentLeaves[app.currentLeaves.length]? = some (some leaves) := by
    rw [h.currentLeaves]
    simp
  have hread := buyInventoryRead_counter hcaptured hcounter uid cell order
  change buyInventoryRead uid cell app.currentLeaves.length
    (.value ((remote uid).get (fpath ["inventory", (app.shown cell).key])) order) s.state =
      _ at hrun
  rw [fpath_inventory (shown_key_ne_empty app cell), hread] at hrun
  have hrest : after = [] := by
    have hreads := h.reads
    unfold Sys.reads at hreads
    rw [hpending] at hreads
    simpa using hreads
  subst hrest
  have hshelf : ∀ item, some paid = some item ∨ some (s.state.shown cell) = some item →
      item ∈ storeItems := by
    intro item hitem
    rcases hitem with hitem | hitem
    · exact h.shelf item (Or.inl hitem)
    · obtain rfl := Option.some.inj hitem
      exact (s.state.storeItem cell).property
  by_cases hcovers : (s.state.shown cell).cost ≤ leaves
  · rw [if_pos (by omega)] at hrun
    obtain rfl := Except.ok.inj hrun
    refine ⟨hwaiting, by simp [Client.perform], by simp [client.reads_perform],
      (fun hnone => by cases hnone), hshelf, ?_, h.currentLeaves, ?_, ?_⟩
    · change client.applyAll _ s.remote = _
      rw [h.remote]
      simp [hcovers]
    · change deliverRow _ _ s.state.inventoryItems = _
      rw [h.inventoryItems]
      simp [hcovers]
    · change s.state.alerts ++ _ = _
      rw [h.alerts]
      simp [hcovers]
  · rw [if_neg (by omega)] at hrun
    obtain rfl := Except.ok.inj hrun
    refine ⟨hwaiting, by simp [Client.perform], by simp [client.reads_perform],
      (fun hnone => by cases hnone), hshelf, ?_, h.currentLeaves, ?_, ?_⟩
    · change s.remote = _
      rw [h.remote]
      simp [hcovers]
    · change s.state.inventoryItems = _
      rw [h.inventoryItems]
      simp [hcovers]
    · change s.state.alerts ++ _ = _
      rw [h.alerts]
      simp [hcovers]

end Stages

/-! ## The outcome -/

theorem child_deliverWrite (uid : Uid) (key : String) (node : FNode) (remote : Remote) :
    (client.applyAll [deliverWrite uid key node] remote uid).child "currentLeaves" =
      (remote uid).child "currentLeaves" := by
  apply child_applyAll_of_ne
  intro write hwrite
  rw [List.mem_singleton.mp hwrite]
  exact ⟨"inventory", fpath [key], rfl, by decide⟩

theorem get_chargeWrites (uid : Uid) (leaves cost : Int) (key : String) (remote : Remote) :
    (client.applyAll (chargeWrites uid leaves cost) remote uid).get ["inventory", key] =
      (remote uid).get ["inventory", key] := by
  have hchild : (client.applyAll (chargeWrites uid leaves cost) remote uid).child "inventory" =
      (remote uid).child "inventory" := by
    apply child_applyAll_of_ne
    intro write hwrite
    rw [mem_chargeWrites hwrite]
    exact ⟨"currentLeaves", [], rfl, by decide⟩
  rw [Tree.get_cons, hchild]
  rfl

theorem get_deliverWrite {key key' : String} (hkey : key ≠ "") (uid : Uid) (node : FNode)
    (remote : Remote) :
    (client.applyAll [deliverWrite uid key node] remote uid).get ["inventory", key'] =
      if key' = key then Tree.leaf (.int ((asInt node).getD 0 + 1))
      else (remote uid).get ["inventory", key'] := by
  have hset := apply_same (deliverWrite uid key node) remote
  have hpath : (deliverWrite uid key node).path = ["inventory", key] := fpath_inventory hkey
  rw [hpath] at hset
  rw [Client.applyAll_cons, Client.applyAll_nil, client_apply]
  change (Write.apply (deliverWrite uid key node) remote
    (deliverWrite uid key node).uid).get ["inventory", key'] = _
  rw [hset]
  by_cases hsame : key' = key
  · rw [if_pos hsame, hsame, Tree.get_set_same]
    rfl
  · have hdiverge : Diverge ["inventory", key] ["inventory", key'] := by
      simp [Ne.symm hsame]
    rw [if_neg hsame, Tree.get_set_of_diverge hdiverge]
    rfl

theorem filter_deliverRow (item : StoreItem) (node : FNode) (rows : List GameItem) :
    (deliverRow item node rows).filter (fun row => row.key ≠ item.key) =
      rows.filter (fun row => row.key ≠ item.key) := by
  unfold deliverRow
  by_cases hempty : node.isEmpty = true
  · simp [hempty]
  · rw [if_neg hempty]
    induction rows with
    | nil => rfl
    | cons row rows ih =>
        by_cases hkey : row.key = item.key
        · simpa [incrementInventory, hkey, GameItem.incrementCount] using ih
        · simpa [incrementInventory, hkey] using ih

/-- The items of the store are told apart by their keys. -/
theorem storeItem_ext {left right : StoreItem} (hleft : left ∈ storeItems)
    (hright : right ∈ storeItems) (hkey : left.key = right.key) : left = right := by
  have hall : ∀ left ∈ storeItems, ∀ right ∈ storeItems,
      left.key = right.key → left = right := by decide
  exact hall left hleft right hright hkey

/-- What the callbacks of a purchase write when they find `paid` and `given` in
the cell. -/
def purchaseWrites (uid : Uid) (leaves : Int) (node : FNode) (paid given : StoreItem) :
    List Write :=
  chargeWrites uid leaves paid.cost ++
    if given.cost ≤ leaves then [deliverWrite uid given.key node] else []

section Outcome

variable {uid : Uid} {cell : Nat} {leaves : Int} {node : FNode} {remote : Remote} {app : App}
  {paid given : StoreItem} {s : AppSys}

theorem BuyStage.remote_eq
    (h : BuyStage uid cell leaves node remote app (some paid) (some given) s) :
    s.remote = client.applyAll (purchaseWrites uid leaves node paid given) remote := by
  rw [h.remote]
  simp [purchaseWrites, Client.applyAll, List.foldl_append]

theorem wallet_purchaseWrites
    (hleaves : asInt ((remote uid).child "currentLeaves") = some leaves)
    (node : FNode) (paid given : StoreItem) :
    asInt ((client.applyAll (purchaseWrites uid leaves node paid given) remote uid).child
      "currentLeaves") = some (if paid.cost ≤ leaves then leaves - paid.cost else leaves) := by
  have hcharge : asInt ((client.applyAll (chargeWrites uid leaves paid.cost) remote uid).child
      "currentLeaves") = some (if paid.cost ≤ leaves then leaves - paid.cost else leaves) := by
    unfold chargeWrites
    by_cases hpaid : paid.cost ≤ leaves
    · rw [if_pos (by omega), if_pos hpaid, child_setCounter uid (by decide), asInt_int]
    · rw [if_neg (by omega), if_neg hpaid, Client.applyAll_nil, hleaves]
  unfold purchaseWrites
  by_cases hgiven : given.cost ≤ leaves
  · rw [if_pos hgiven, Client.applyAll_append, child_deliverWrite, hcharge]
  · rw [if_neg hgiven, List.append_nil, hcharge]

theorem count_purchaseWrites (hgiven : given ∈ storeItems) (uid : Uid) (leaves : Int)
    (node : FNode) (paid : StoreItem) (key : String) (remote : Remote) :
    (client.applyAll (purchaseWrites uid leaves node paid given) remote uid).get
        ["inventory", key] =
      if given.cost ≤ leaves ∧ key = given.key then
        Tree.leaf (.int ((asInt node).getD 0 + 1))
      else (remote uid).get ["inventory", key] := by
  have hkey : given.key ≠ "" := storeKeys_ne_empty (List.mem_map_of_mem hgiven)
  unfold purchaseWrites
  by_cases hcost : given.cost ≤ leaves
  · rw [if_pos hcost, Client.applyAll_append, get_deliverWrite hkey, get_chargeWrites]
    simp [hcost]
  · rw [if_neg hcost, List.append_nil, get_chargeWrites]
    simp [hcost]

theorem purchased_eq (hcovers : (app.shown cell).cost ≤ leaves) (uid : Uid)
    (remote : Remote) :
    purchased uid (app.shown cell) leaves remote =
      client.applyAll (purchaseWrites uid leaves
        ((remote uid).get ["inventory", (app.shown cell).key]) (app.shown cell)
        (app.shown cell)) remote := by
  have hwrites := purchased_writes uid remote (sub_nonneg.mpr hcovers)
  rw [← hwrites, purchaseWrites, if_pos hcovers, Client.applyAll_append]

/-- A finished purchase concerned the item tapped exactly when both callbacks
found one as good in the cell. -/
theorem BuyStage.concerns_iff
    (h : BuyStage uid cell leaves ((remote uid).get ["inventory", (app.shown cell).key])
      remote app (some paid) (some given) s)
    (hleaves : asInt ((remote uid).child "currentLeaves") = some leaves) :
    ConcernsItem uid (app.shown cell) leaves remote app s.remote s.state ↔
      ChargesFor (app.shown cell) leaves paid ∧ DeliversFor (app.shown cell) leaves given := by
  have hpaid := h.shelf paid (Or.inl rfl)
  have hgiven := h.shelf given (Or.inr rfl)
  have htapped : app.shown cell ∈ storeItems := (app.storeItem cell).property
  have hcost := cost_pos app cell
  have hwallet := wallet_purchaseWrites hleaves
    ((remote uid).get ["inventory", (app.shown cell).key])
  have hrows := h.inventoryItems
  have halerts := h.alerts
  simp only [Option.elim_some, Option.toList_some, List.map_cons, List.map_nil] at hrows halerts
  unfold ConcernsItem ChargesFor DeliversFor
  rw [h.remote_eq, hrows, halerts]
  by_cases hcovers : (app.shown cell).cost ≤ leaves
  · rw [if_pos hcovers, if_pos hcovers, if_pos hcovers, purchased_eq hcovers]
    constructor
    · intro hconcerns
      obtain ⟨hremote, _, _⟩ := hconcerns
      constructor
      · -- the wallet tells what was charged
        have hcharged := hwallet paid given
        rw [hremote, hwallet, if_pos hcovers, Option.some.injEq] at hcharged
        by_cases hcharge : paid.cost ≤ leaves
        · rw [if_pos hcharge] at hcharged
          omega
        · rw [if_neg hcharge] at hcharged
          omega
      · -- the count tells what was delivered
        have hcount := count_purchaseWrites hgiven uid leaves
          ((remote uid).get ["inventory", (app.shown cell).key]) paid (app.shown cell).key remote
        rw [hremote, count_purchaseWrites htapped,
          if_pos ⟨hcovers, rfl⟩] at hcount
        by_cases hdelivered : given.cost ≤ leaves ∧ (app.shown cell).key = given.key
        · exact storeItem_ext hgiven htapped hdelivered.2.symm
        · rw [if_neg hdelivered] at hcount
          have hvalue := congrArg (fun node => (asInt node).getD 0) hcount
          simp only [asInt_int, Option.getD_some] at hvalue
          omega
    · intro hshown
      obtain ⟨hcharge, rfl⟩ := hshown
      refine ⟨?_, ?_, ?_⟩
      · rw [purchaseWrites, purchaseWrites, hcharge]
      · rw [if_pos hcovers]
        exact filter_deliverRow _ _ _
      · rw [if_pos hcovers]
  · rw [if_neg hcovers, if_neg hcovers, if_neg hcovers]
    constructor
    · intro hconcerns
      obtain ⟨hremote, _, halert⟩ := hconcerns
      constructor
      · have hcharged := hwallet paid given
        have hpositive : 0 < paid.cost := storeItem_cost_pos hpaid
        rw [hremote, hleaves, Option.some.injEq] at hcharged
        by_cases hcharge : paid.cost ≤ leaves
        · rw [if_pos hcharge] at hcharged
          omega
        · omega
      · by_cases hdelivered : given.cost ≤ leaves
        · rw [if_pos hdelivered] at halert
          exact absurd (List.append_cancel_left halert) (by decide)
        · omega
    · intro hshown
      obtain ⟨hcharge, hdelivered⟩ := hshown
      have hcharge' : ¬ paid.cost ≤ leaves := by omega
      have hdelivered' : ¬ given.cost ≤ leaves := by omega
      simp [purchaseWrites, chargeWrites, hcharge', hdelivered']

end Outcome

/-! ## The run -/

section Run

variable {uid : Uid} {cell : Nat} {leaves : Int} {remote : Remote} {app : App}
  {charged delivered : Option StoreItem} {s : AppSys}

/-- One step of a purchase that waits: nothing is done for it, or its first
callback runs, or its second. -/
theorem BuyStage.step {s' : AppSys} {e : AppEvent}
    {o : Option (Entry App Write Read Snapshot Tap)}
    (h : BuyStage uid cell leaves ((remote uid).get ["inventory", (app.shown cell).key])
      remote app charged delivered s)
    (hleaves : asInt ((remote uid).child "currentLeaves") = some leaves)
    (hcounter : IsCounter ((remote uid).get ["inventory", (app.shown cell).key]))
    (hevent : rebinds e = true) (hmove : client.Step s e o s') (item : StoreItem) :
    (BuyStage uid cell leaves ((remote uid).get ["inventory", (app.shown cell).key])
        remote app charged delivered s' ∧ ServeMeets (ShowsTapped item leaves cell) s e) ∨
    (charged = none ∧ delivered = none ∧
      BuyStage uid cell leaves ((remote uid).get ["inventory", (app.shown cell).key])
        remote app (some (s.state.shown cell)) none s' ∧
      (ServeMeets (ShowsTapped item leaves cell) s e ↔
        ChargesFor item leaves (s.state.shown cell))) ∨
    ((∃ paid, charged = some paid) ∧ delivered = none ∧
      BuyStage uid cell leaves ((remote uid).get ["inventory", (app.shown cell).key])
        remote app charged (some (s.state.shown cell)) s' ∧
      (ServeMeets (ShowsTapped item leaves cell) s e ↔
        DeliversFor item leaves (s.state.shown cell))) := by
  cases hmove with
  | @tap tap fx hrun =>
      left
      cases tap with
      | cellForRow cell' storeItem =>
          obtain rfl := Except.ok.inj hrun
          have hrebound := h.rebind cell' storeItem
          refine ⟨?_, serveMeets_tap _⟩
          simpa [Client.perform] using hrebound
      | _ => cases hevent
  | @answer read before after hpending reply =>
      left
      cases reply with
      | error => cases hevent
      | value order => exact ⟨h.answered hpending order, serveMeets_answer _ _⟩
  | @serve read snapshot before after hpending fx hrun =>
      right
      have hfirst : before = [] := by simpa [rebinds] using hevent
      subst hfirst
      have hmeets := serveMeets_serve (T := Tap) (I := Reply)
        (D := ShowsTapped item leaves cell) (s := s) (i := 0) (k := read) (a := snapshot)
        (by simp [hpending])
      have hread : s.reads = read :: after.map Pending.read := by
        simp [Sys.reads, hpending]
      have hreads := h.reads
      rw [hread] at hreads
      by_cases hcharged : charged = none
      · subst hcharged
        have hnone := h.inOrder rfl
        subst hnone
        obtain ⟨rfl, _⟩ := List.cons.inj hreads
        exact Or.inl ⟨rfl, rfl, h.charge hleaves hpending hrun, hmeets⟩
      · obtain ⟨paid, rfl⟩ := Option.ne_none_iff_exists'.mp hcharged
        by_cases hdelivered : delivered = none
        · subst hdelivered
          obtain ⟨rfl, _⟩ := List.cons.inj hreads
          exact Or.inr ⟨⟨paid, rfl⟩, rfl, h.deliver hcounter hpending hrun, hmeets⟩
        · simp [hdelivered] at hreads
  | idleAnswer hidle reply => exact Or.inl ⟨h, serveMeets_answer _ _⟩
  | idleServe hidle => exact Or.inl ⟨h, serveMeets_of_idle hidle⟩

/-- A purchase that waits runs to its end, and along the way the cell shows what
the remaining callbacks need exactly as recorded. -/
theorem BuyStage.run (hleaves : asInt ((remote uid).child "currentLeaves") = some leaves)
    (hcounter : IsCounter ((remote uid).get ["inventory", (app.shown cell).key]))
    (item : StoreItem) {es : List AppEvent} :
    ∀ {s s' : AppSys} {charged delivered : Option StoreItem},
      BuyStage uid cell leaves ((remote uid).get ["inventory", (app.shown cell).key])
        remote app charged delivered s →
      (∀ e ∈ es, rebinds e = true) → client.run s es = .ok s' → s'.pending = [] →
      ∃ paid given,
        BuyStage uid cell leaves ((remote uid).get ["inventory", (app.shown cell).key])
          remote app (some paid) (some given) s' ∧
        (charged = none ∨ charged = some paid) ∧ (delivered = none ∨ delivered = some given) ∧
        (client.Along (ServeMeets (ShowsTapped item leaves cell)) s es ↔
          (charged = none → ChargesFor item leaves paid) ∧
          (delivered = none → DeliversFor item leaves given)) := by
  induction es with
  | nil =>
      intro s s' charged delivered h _ hrun hidle
      obtain rfl : s = s' := by simpa using hrun
      have hreads := h.reads
      unfold Sys.reads at hreads
      rw [hidle, List.map_nil, eq_comm, List.append_eq_nil_iff] at hreads
      obtain ⟨paid, rfl⟩ : ∃ paid, charged = some paid := by
        apply Option.ne_none_iff_exists'.mp
        intro hnone
        simp [hnone] at hreads
      obtain ⟨given, rfl⟩ : ∃ given, delivered = some given := by
        apply Option.ne_none_iff_exists'.mp
        intro hnone
        simp [hnone] at hreads
      refine ⟨paid, given, h, Or.inr rfl, Or.inr rfl, ?_⟩
      simp [Client.Along]
  | cons e es ih =>
      intro s s' charged delivered h hevents hrun hidle
      obtain ⟨middle, hstep, hrest⟩ := client.run_cons_ok hrun
      have hevent := hevents e List.mem_cons_self
      have hevents' : ∀ e' ∈ es, rebinds e' = true :=
        fun e' he' => hevents e' (List.mem_cons_of_mem e he')
      rw [client.along_cons_iff hstep]
      rcases h.step hleaves hcounter hevent (client.step_cases hstep) item with
        ⟨hsame, hmeets⟩ | ⟨rfl, rfl, hnext, hmeets⟩ | ⟨⟨_, rfl⟩, rfl, hnext, hmeets⟩
      · obtain ⟨paid, given, hdone, hpaid, hgiven, hiff⟩ := ih hsame hevents' hrest hidle
        refine ⟨paid, given, hdone, hpaid, hgiven, ?_⟩
        rw [hiff]
        exact and_iff_right hmeets
      · obtain ⟨paid, given, hdone, hpaid, _, hiff⟩ := ih hnext hevents' hrest hidle
        obtain rfl : s.state.shown cell = paid := by simpa using hpaid
        refine ⟨_, given, hdone, Or.inl rfl, Or.inl rfl, ?_⟩
        rw [hiff, hmeets]
        simp
      · obtain ⟨paid, given, hdone, hpaid, hgiven, hiff⟩ := ih hnext hevents' hrest hidle
        obtain rfl : s.state.shown cell = given := by simpa using hgiven
        refine ⟨paid, _, hdone, hpaid, Or.inl rfl, ?_⟩
        rw [hiff, hmeets]
        simp

/-- Right after the tap. -/
theorem BuyStage.of_tapped (uid : Uid) (cell : Nat) (leaves : Int) (node : FNode)
    (remote : Remote) (app : App) :
    BuyStage uid cell leaves node remote app none none
      ⟨remote, app.bought,
        [⟨.buyLeaves uid cell app.currentLeaves.length, none⟩,
          ⟨.buyInventory uid cell app.currentLeaves.length (app.shown cell).key, none⟩]⟩ where
  waiting := Client.Waiting.of_tapped client (buy_apart remote uid cell _ _).nodup app.bought
  succeeded := by simp
  reads := rfl
  inOrder := fun _ => rfl
  shelf := by simp
  remote := rfl
  currentLeaves := rfl
  inventoryItems := rfl
  alerts := (List.append_nil app.alerts).symm

end Run

/-- **A purchase concerns the item tapped exactly when its cell shows one as
good at both callbacks.**  Whatever rebinds the cells of the table between the
tap and the callbacks, with reads that succeed and are served in order. -/
theorem purchase_concerns_iff {remote : Remote} {app : App} {uid : Uid} (cell : Nat)
    {leaves : Int} (huser : app.currentUser = some uid)
    (hleaves : asInt ((remote uid).child "currentLeaves") = some leaves)
    (hcounter : IsCounter ((remote uid).get ["inventory", (app.shown cell).key]))
    {es : List AppEvent} (hevents : ∀ e ∈ es, rebinds e = true) {s' : AppSys}
    (hrun : client.run ⟨remote, app, []⟩ (.tap (.buy cell) :: es) = .ok s')
    (hidle : s'.pending = []) :
    ConcernsItem uid (app.shown cell) leaves remote app s'.remote s'.state ↔
      client.Along (ServeMeets (ShowsTapped (app.shown cell) leaves cell)) ⟨remote, app, []⟩
        (.tap (.buy cell) :: es) := by
  have hstep := buy_step huser remote cell
  have htapped := BuyStage.of_tapped uid cell leaves
    ((remote uid).get ["inventory", (app.shown cell).key]) remote app
  rw [client.run_cons_of_step hstep] at hrun
  obtain ⟨paid, given, hdone, _, _, hiff⟩ :=
    BuyStage.run hleaves hcounter (app.shown cell) htapped hevents hrun hidle
  rw [client.along_cons_iff hstep, hiff, hdone.concerns_iff hleaves]
  simp [serveMeets_tap]

/-- The cell showing a tree is bound to another item between the callbacks. -/
def oneTreeRebound (storeItem : ShelfItem) : List AppEvent :=
  [.answer 0 (.value []), .answer 1 (.value []), .serve 0, .tap (.cellForRow 0 storeItem),
    .serve 0]

def windTurbineRow : ShelfItem := ⟨⟨"windTurbine", "Wind Turbine", 60⟩, by decide⟩

theorem purchase_concerns_tree :
    ∃ s', client.run ⟨newUser 100, newUserApp "ann" treeShelf, []⟩
        (.tap (.buy 0) :: oneTreeRebound (treeShelf 0)) = .ok s' ∧
      ConcernsItem "ann" ⟨"tree", "Tree", 50⟩ 100 (newUser 100) (newUserApp "ann" treeShelf)
        s'.remote s'.state := by
  obtain ⟨s', hrun, hidle⟩ : ∃ s', client.run
      ⟨newUser 100, newUserApp "ann" treeShelf, []⟩
      (.tap (.buy 0) :: oneTreeRebound (treeShelf 0)) = .ok s' ∧ s'.pending = [] :=
    client.exists_run_of_check (by decide +kernel)
  have hcounter : IsCounter ((newUser 100 "ann").get ["inventory", "tree"]) :=
    Or.inl (Tree.isEmpty_iff.mp (by decide +kernel))
  exact ⟨s', hrun, (purchase_concerns_iff 0 rfl (by decide +kernel) hcounter (by decide) hrun
    hidle).mpr (by decide +kernel)⟩

/-- Searching for the wind turbine while the tree is being bought delivers a
wind turbine for the price of the tree. -/
theorem not_purchase_concerns :
    ¬ ∀ (remote : Remote) (app : App) (uid : Uid) (cell : Nat) (leaves : Int)
        (es : List AppEvent) (s' : AppSys), app.currentUser = some uid →
        asInt ((remote uid).child "currentLeaves") = some leaves →
        IsCounter ((remote uid).get ["inventory", (app.shown cell).key]) →
        (∀ e ∈ es, rebinds e = true) →
        client.run ⟨remote, app, []⟩ (.tap (.buy cell) :: es) = .ok s' → s'.pending = [] →
        ConcernsItem uid (app.shown cell) leaves remote app s'.remote s'.state := by
  intro hclaim
  obtain ⟨s', hrun, hidle, hdelivered⟩ : ∃ s', client.run
      ⟨newUser 100, newUserApp "ann" treeShelf, []⟩
      (.tap (.buy 0) :: oneTreeRebound windTurbineRow) = .ok s' ∧ s'.pending = [] ∧
      asInt ((s'.remote "ann").get ["inventory", "tree"]) = none :=
    client.exists_run_of_check (by decide +kernel)
  have hcounter : IsCounter ((newUser 100 "ann").get ["inventory", "tree"]) :=
    Or.inl (Tree.isEmpty_iff.mp (by decide +kernel))
  have hconcerns := hclaim _ _ "ann" 0 100 _ s' rfl (by decide +kernel) hcounter (by decide) hrun
    hidle
  unfold ConcernsItem at hconcerns
  rw [if_pos (by decide)] at hconcerns
  rw [hconcerns.1] at hdelivered
  revert hdelivered
  decide +kernel

end WillItRecycle

import WillItRecycle.TabRuns

/-!
# The screens show the record

When every tap waits until nothing is pending, the screens show what is stored: the
visible label the wallet, the buttons of the land the items placed there
(`screens_show_record`).  What carries it through the callbacks is `Showing`: a visible
label is right, or a read or a block that will set it is pending and no callback before
that one writes the wallet.
-/

namespace WillItRecycle

open PathTree ReadCallback

namespace GameTab

/-- The label that is visible, and its text. -/
def visible (tab : GameTab) : Option (LeavesView × String) :=
  if tab.selected then
    match tab.screen with
    | .land => some (.land, tab.leavesLabel)
    | .store screen => some (.store screen.number, screen.leavesLabel)
    | _ => none
  else none

def view (tab : GameTab) : Option LeavesView := tab.visible.map Prod.fst

/-- The land is shown with the images of the items placed there. -/
def LandShown (tab : GameTab) : Prop :=
  tab.view = some .land →
    ∃ before, tab.images = loadActiveItems some tab.app.activeItems (clearItems before)

@[simp] theorem visible_withApp (tab : GameTab) (app : App) :
    visible { tab with app := app } = tab.visible := rfl

@[simp] theorem view_withApp (tab : GameTab) (app : App) :
    view { tab with app := app } = tab.view := rfl

/-- Setting the text of a label changes what is visible when it is the visible one. -/
theorem visible_setLeaves (view : LeavesView) (text : String) (tab : GameTab) :
    (tab.setLeaves view text).visible =
      tab.visible.map fun shown => (shown.1, if shown.1 = view then text else shown.2) := by
  unfold setLeaves visible
  cases hselected : tab.selected with
  | false =>
      split
      · simp
      · split <;> simp [hselected]
      · simp [hselected]
  | true =>
      split
      · cases tab.screen <;> simp
      · next number screen hscreen =>
          split
          · next hsame => simp [hscreen, hsame]
          · next hother => simp [hscreen, hother]
      · next number hother =>
          cases hscreen : tab.screen with
          | store screen => exact absurd hscreen (hother screen)
          | _ => simp [hselected]

@[simp] theorem view_setLeaves (label : LeavesView) (text : String) (tab : GameTab) :
    (tab.setLeaves label text).view = tab.view := by
  simp [view, visible_setLeaves, Function.comp_def]

/-- A label is not more than a label. -/
theorem setLeaves_frame (label : LeavesView) (text : String) (tab : GameTab) :
    (tab.setLeaves label text).user = tab.user ∧
      (tab.setLeaves label text).delegates = tab.delegates ∧
      (tab.setLeaves label text).images = tab.images := by
  unfold setLeaves
  split
  · exact ⟨rfl, rfl, rfl⟩
  · split <;> exact ⟨rfl, rfl, rfl⟩
  · exact ⟨rfl, rfl, rfl⟩

end GameTab

/-- Of a callback nothing is seen but a label. -/
theorem Read.shown_frame (read : Read) (snapshot : Snapshot) (tab : GameTab) :
    (read.shown snapshot tab).user = tab.user ∧
      (read.shown snapshot tab).delegates = tab.delegates ∧
      (read.shown snapshot tab).images = tab.images ∧
      (read.shown snapshot tab).view = tab.view := by
  rcases read.shown_cases snapshot tab with hsame | ⟨label, text, hsame⟩
  · rw [hsame]
    exact ⟨rfl, rfl, rfl, rfl⟩
  · obtain ⟨huser, hdelegates, himages⟩ := tab.setLeaves_frame label text
    rw [hsame]
    exact ⟨huser, hdelegates, himages, tab.view_setLeaves label text⟩

/-! ## What holds while reads are pending -/

/-- The screen that a callback was issued from is still the one on top, if it matters. -/
def Read.Fits (uid : Uid) (tab : GameTab) : Read → Prop
  | .buyLeaves uid' cell _ =>
      uid' = uid ∧ ∀ view ∈ tab.view, ∃ number, tab.delegates[cell]? = some number ∧
        view = .store number
  | .claimDate uid' _ | .calculateCurrent uid' _ =>
      uid' = uid ∧ ∀ view ∈ tab.view, view = .land
  | .redeemUser _ _ => tab.view = none
  | .placeActive .. => tab.view ≠ some .land
  | .signInName .. | .signInInventory _ | .signInActive _ => False
  | _ => True

/-- A callback that leaves the wallet alone, and starts nothing that would not. -/
def Read.SparesWallet (read : Read) : Prop :=
  "currentLeaves" ∉ read.fields ∧ ∀ next, ¬ read.Issues next

/-- The label that a read or a block is going to set. -/
def TabRead.Sets (view : LeavesView) : TabRead → Prop
  | .app _ => False
  | .refreshLeaves _ label => label = view
  | .displayLeaves storeVC _ _ => .store storeVC = view

/-- The label will then show the wallet. -/
def TabRead.Right (uid : Uid) (leaves : Int) (app : App) : TabRead → Prop
  | .app _ => True
  | .refreshLeaves uid' _ => uid' = uid
  | .displayLeaves _ cell value => value - (app.shown cell).cost = leaves

/-- What the screens show, given the reads and blocks pending. -/
structure Showing (uid : Uid) (ks : List TabRead) (remote : Remote) (tab : GameTab) :
    Prop where
  user : tab.user = uid
  sound : tab.Sound
  offersFree : tab.OffersFree
  label : ∃ leaves, (remote uid).child "currentLeaves" = Tree.leaf (.int leaves) ∧
    (∀ k ∈ ks, k.Right uid leaves tab.app) ∧
    ∀ view text, tab.visible = some (view, text) →
      text = leavesText leaves ∨ ∃ k ∈ ks, k.Sets view
  land : tab.LandShown
  spares : ∀ k ∈ ks, k.appRead = none → ∀ read, .app read ∈ ks → read.SparesWallet
  /-- a purchase has just been tapped -/
  buys : ∀ uid' cell tap, .app (.buyLeaves uid' cell tap) ∈ ks → ∃ key,
    ks = [.app (.buyLeaves uid' cell tap), .app (.buyInventory uid' cell tap key)]
  fits : ∀ read, .app read ∈ ks → read.Fits uid tab

section Callbacks

variable {uid : Uid} {ks : List TabRead} {remote : Remote} {tab : GameTab}

theorem Read.Fits.congr {read : Read} {tab' : GameTab} (h : read.Fits uid tab)
    (hview : tab'.view = tab.view) (hdelegates : tab'.delegates = tab.delegates) :
    read.Fits uid tab' := by
  unfold Read.Fits at h ⊢
  rw [hview, hdelegates]
  exact h

theorem Read.Fits.creates {read : Read} (h : read.Fits uid tab) : read.creates = false := by
  cases read <;> first | rfl | exact h.elim

theorem Read.Fits.loadsLand {read : Read} (h : read.Fits uid tab) :
    read.loadsLand = false := by
  cases read <;> first | rfl | exact h.elim

theorem TabRead.Right.congr {k : TabRead} {leaves : Int} {app app' : App}
    (h : k.Right uid leaves app) (hsame : app'.storeItem = app.storeItem) :
    k.Right uid leaves app' := by
  cases k with
  | displayLeaves storeVC cell value =>
      unfold TabRead.Right App.shown at h ⊢
      rw [hsame]
      exact h
  | _ => exact h

/-- Nothing waits to set a label when a callback changes the wallet. -/
theorem Showing.right_of_writes {read : Read} (h : Showing uid (.app read :: ks) remote tab)
    (hwrites : "currentLeaves" ∈ read.fields) (leaves : Int) (app : App) :
    ∀ k ∈ ks, k.Right uid leaves app := by
  intro k hk
  have hnot : k.appRead ≠ none := fun hquiet =>
    (h.spares k (List.mem_cons_of_mem _ hk) hquiet read List.mem_cons_self).1 hwrites
  cases k with
  | app next => trivial
  | refreshLeaves | displayLeaves => exact absurd rfl hnot

/-- Only PLACE and the load of a sign-in change the local land list in a callback. -/
theorem callback_activeItems {read : Read} (hloads : read.loadsLand = false)
    (hplaces : ∀ uid key item coordinate, read ≠ .placeActive uid key item coordinate)
    (snapshot : Snapshot) (app : App) :
    Leaves (fun app' => app'.activeItems = app.activeItems) (read.callback snapshot app) := by
  have hsame : ∀ {handled : Handled}, Leaves (fun app' => app' = app) handled →
      Leaves (fun app' => app'.activeItems = app.activeItems) handled :=
    fun h fx hfx => congrArg App.activeItems (h fx hfx)
  cases read with
  | placeActive uid key item coordinate => exact absurd rfl (hplaces uid key item coordinate)
  | signInActive uid => cases hloads
  | placeInventory uid key => exact hsame (placeInventoryRead_same uid key snapshot app)
  | removeActive uid key coordinate =>
      exact hsame (removeActiveRead_same uid key coordinate snapshot app)
  | removeInventory uid key => exact hsame (removeInventoryRead_same uid key snapshot app)
  | calculateCurrent uid total => exact hsame (addToCounter_same uid _ total snapshot app)
  | calculateAllTime uid total => exact hsame (addToCounter_same uid _ total snapshot app)
  | redeemUser uid leaves => exact hsame (redeemUserRead_same leaves snapshot app)
  | signInName uid displayName => exact hsame (signInNameRead_same uid displayName snapshot app)
  | buyLeaves uid cell tap =>
      cases snapshot with
      | error => exact .ok rfl
      | value node order =>
          exact .ite (.ok rfl) (.bind fun value _ => .ite (.ok rfl) (.ok rfl))
  | buyInventory uid cell tap key =>
      cases snapshot with
      | error => exact .ok rfl
      | value node order =>
          exact .ite (.bind fun leaves _ => .ite (.ok rfl) (.ok rfl))
            (.bind fun leaves _ => .ite (.bind fun count _ => .ok rfl) (.ok rfl))
  | claimDate uid result =>
      cases snapshot with
      | error => exact .ok rfl
      | value node order =>
          exact .ite (.ok rfl) (.bind fun lastVisitedDate _ => .ite (.ok rfl) (.ok rfl))
  | signInInventory uid =>
      cases snapshot with
      | error => exact .ok rfl
      | value node order => exact .ite (.ok rfl) (.bind fun loaded _ => .ok rfl)

/-- What the callback of a redeem writes. -/
theorem redeemUserRead_cases {leaves : Int} {snapshot : Snapshot} {app : App}
    {fx : Effects App Write Read} (hfx : redeemUserRead leaves snapshot app = .ok fx) :
    fx.writes = [] ∨ ∃ uid current allTime,
      fx.writes = [ setValue uid ["currentLeaves"] (Tree.leaf (.int current)),
        setValue uid ["allTimeLeaves"] (Tree.leaf (.int allTime)) ] := by
  cases snapshot with
  | error =>
      obtain rfl := Except.ok.inj hfx
      exact Or.inl rfl
  | value node order =>
      unfold redeemUserRead at hfx
      by_cases hempty : node.isEmpty = true
      · simp only [hempty, if_true] at hfx
        obtain rfl := Except.ok.inj hfx
        exact Or.inl rfl
      · simp only [hempty, Bool.false_eq_true, if_false] at hfx
        cases hdictionary : asDictionary node with
        | none =>
            simp only [hdictionary] at hfx
            obtain rfl := Except.ok.inj hfx
            exact Or.inl rfl
        | some keys =>
            cases huser : app.currentUser with
            | none => simp [hdictionary, huser, bind, Except.bind] at hfx
            | some uid =>
                simp only [hdictionary, huser, force_some, bind, Except.bind] at hfx
                cases hcurrent : asInt (node.child "currentLeaves") with
                | none => simp [hcurrent] at hfx
                | some current =>
                    cases hsum : intResult (current + leaves) with
                    | error trap => simp [hcurrent, hsum] at hfx
                    | ok current' =>
                        cases hallTime : asInt (node.child "allTimeLeaves") with
                        | none => simp [hcurrent, hsum, hallTime] at hfx
                        | some allTime =>
                            cases hsum' : intResult (allTime + leaves) with
                            | error trap => simp [hcurrent, hsum, hallTime, hsum'] at hfx
                            | ok allTime' =>
                                simp [hcurrent, hsum, hallTime, hsum'] at hfx
                                subst hfx
                                exact Or.inr ⟨uid, _, _, rfl⟩

/-- The wallet after a callback, and the text of its label when the callback sets it. -/
theorem Showing.wallet_served {read : Read} (h : Showing uid (.app read :: ks) remote tab)
    {order : List String} {fx : Effects App Write Read}
    (hrun : read.callback (read.answer (.value order) remote) tab.app = .ok fx) :
    ∃ leaves, (client.applyAll fx.writes remote uid).child "currentLeaves" =
        Tree.leaf (.int leaves) ∧
      (∀ k ∈ ks ++ read.blocks (read.answer (.value order) remote) tab,
        k.Right uid leaves fx.state) ∧
      ∀ view text, (read.shown (read.answer (.value order) remote) tab).visible =
          some (view, text) → text = leavesText leaves ∨
        ∃ k ∈ ks ++ read.blocks (read.answer (.value order) remote) tab, k.Sets view := by
  obtain ⟨leaves, hwallet, hright, hlabel⟩ := h.label
  have hfits := h.fits read List.mem_cons_self
  have hstore := (callback_grows read _ tab.app fx hrun).storeItem
  have hsame : ∀ k ∈ ks, k.Right uid leaves fx.state :=
    fun k hk => (hright k (List.mem_cons_of_mem _ hk)).congr hstore
  -- a visible label that the callback does not set
  have hold : ∀ view text, tab.visible = some (view, text) →
      text = leavesText leaves ∨ ∃ k ∈ ks, k.Sets view := by
    intro view text hvisible
    refine (hlabel view text hvisible).imp_right ?_
    rintro ⟨k, hk, hsets⟩
    rcases List.mem_cons.mp hk with rfl | hk
    · exact hsets.elim
    · exact ⟨k, hk, hsets⟩
  have hother : "currentLeaves" ∉ read.fields →
      read.shown (read.answer (.value order) remote) tab = tab →
      read.blocks (read.answer (.value order) remote) tab = [] →
      ∃ leaves, (client.applyAll fx.writes remote uid).child "currentLeaves" =
          Tree.leaf (.int leaves) ∧
        (∀ k ∈ ks ++ read.blocks (read.answer (.value order) remote) tab,
          k.Right uid leaves fx.state) ∧
        ∀ view text, (read.shown (read.answer (.value order) remote) tab).visible =
            some (view, text) → text = leavesText leaves ∨
          ∃ k ∈ ks ++ read.blocks (read.answer (.value order) remote) tab, k.Sets view := by
    intro hfield hshown hblocks
    rw [hshown, hblocks, List.append_nil]
    exact ⟨leaves, (callback_child hfits.creates hrun hfield uid remote).trans hwallet, hsame, hold⟩
  cases read with
  | buyLeaves uid' cell tap =>
      obtain ⟨rfl, honly⟩ := hfits
      have hget : (remote uid').get (fpath ["currentLeaves"]) = Tree.leaf (.int leaves) :=
        hwallet
      have hcode := buyLeavesRead_wallet uid' cell tap leaves order tab.app
      simp only [Read.callback, Read.answer, Read.uid, Read.path, hget] at hrun
      rw [hcode] at hrun
      obtain rfl := Except.ok.inj hrun
      have hblocks : Read.blocks (.buyLeaves uid' cell tap)
          ((Read.buyLeaves uid' cell tap).answer (.value order) remote) tab =
            if leaves - (tab.app.shown cell).cost ≥ 0 then
              (tab.delegates[cell]?).toList.map fun storeVC => .displayLeaves storeVC cell leaves
            else [] := by
        simp only [Read.blocks, Read.answer, Read.uid, Read.path, hget]
        exact buyLeavesBlock_eq (asInt_int leaves) cell order tab
      rw [hblocks]
      unfold chargeWrites
      by_cases hcost : leaves - (tab.app.shown cell).cost ≥ 0
      · -- only the callback on the inventory is pending, and the block will set the label
        obtain ⟨key, heq⟩ := h.buys uid' cell tap List.mem_cons_self
        obtain ⟨-, rfl⟩ := List.cons.inj heq
        rw [if_pos hcost, if_pos hcost]
        refine ⟨leaves - (tab.app.shown cell).cost, child_setCounter uid' (by decide) _ remote,
          ?_, ?_⟩
        · intro k hk
          rcases List.mem_append.mp hk with hk | hk
          · obtain rfl := List.mem_singleton.mp hk
            trivial
          · obtain ⟨storeVC, -, rfl⟩ := List.mem_map.mp hk
            rfl
        · intro view text hvisible
          have hview : tab.view = some view := by
            have hshown : tab.visible = some (view, text) := hvisible
            simp [GameTab.view, hshown]
          obtain ⟨number, hnumber, rfl⟩ := honly view hview
          refine Or.inr ⟨.displayLeaves number cell leaves, List.mem_append_right _ ?_, rfl⟩
          simp [hnumber]
      · rw [if_neg hcost, if_neg hcost, List.append_nil]
        exact ⟨leaves, hwallet, hsame, hold⟩
  | calculateCurrent uid' total =>
      obtain ⟨rfl, honly⟩ := hfits
      have hget : (remote uid').get (fpath ["currentLeaves"]) = Tree.leaf (.int leaves) :=
        hwallet
      simp only [Read.callback, Read.answer, Read.uid, Read.path, hget, calculateCurrentRead]
        at hrun
      obtain rfl := addToCounter_ok (asInt_int leaves) hrun
      refine ⟨leaves + total, child_setCounter uid' (by decide) _ remote, ?_, ?_⟩
      · simp only [Read.blocks, List.append_nil]
        exact h.right_of_writes (by simp [Read.fields]) _ _
      · simp only [Read.shown, Read.answer, Read.uid, Read.path, hget, calculateShown, asInt_int]
        intro view text hvisible
        rw [GameTab.visible_setLeaves] at hvisible
        obtain ⟨⟨view', text'⟩, hshown, heq⟩ := Option.map_eq_some_iff.mp hvisible
        obtain ⟨rfl, rfl⟩ := Prod.mk.inj heq
        left
        rw [if_pos (honly view' (by simp [GameTab.view, hshown]))]
  | redeemUser uid' total =>
      have hnone : tab.visible = none := Option.map_eq_none_iff.mp hfits
      have hwrote : ∃ leaves, (client.applyAll fx.writes remote uid).child "currentLeaves" =
          Tree.leaf (.int leaves) := by
        change redeemUserRead total ((Read.redeemUser uid' total).answer (.value order) remote)
          tab.app = .ok fx at hrun
        rcases redeemUserRead_cases hrun with hwrites | ⟨uid'', current, allTime, hwrites⟩
        · exact ⟨leaves, by rw [hwrites]; exact hwallet⟩
        · by_cases huid : uid'' = uid
          · subst huid
            refine ⟨current, ?_⟩
            rw [hwrites, ← List.singleton_append, client.applyAll_append,
              child_setCounter_ne uid'' (by decide) (by decide)]
            exact child_setCounter uid'' (by decide) _ remote
          · refine ⟨leaves, ?_⟩
            rw [hwrites, applyAll_other (by simp [setValue, huid])]
            exact hwallet
      obtain ⟨leaves', hleaves'⟩ := hwrote
      refine ⟨leaves', hleaves', ?_, ?_⟩
      · simp only [Read.blocks, List.append_nil]
        exact h.right_of_writes (by simp [Read.fields]) _ _
      · intro view text hvisible
        simp [Read.shown, hnone] at hvisible
  | signInName | signInInventory | signInActive => exact hfits.elim
  | _ => exact hother (by simp [Read.fields]) rfl rfl

/-- What a callback of the app amounts to under the screens. -/
theorem appCallback_ok {read : Read} {snapshot : Snapshot} {fx : Effects GameTab Write TabRead}
    (h : (TabRead.app read).callback snapshot tab = .ok fx) :
    ∃ fx', read.callback snapshot tab.app = .ok fx' ∧
      fx = ⟨{ read.shown snapshot tab with app := fx'.state }, fx'.writes,
        fx'.reads.map TabRead.app ++ read.blocks snapshot tab⟩ := by
  simp only [TabRead.callback] at h
  cases hcode : read.callback snapshot tab.app with
  | error trap =>
      rw [hcode] at h
      cases h
  | ok fx' =>
      rw [hcode] at h
      obtain rfl := Except.ok.inj h
      exact ⟨fx', rfl, rfl⟩

/-- A callback of the app is served. -/
theorem Showing.served {read : Read} (h : Showing uid (.app read :: ks) remote tab)
    {order : List String} {fx : Effects GameTab Write TabRead}
    (hserved : (TabRead.app read).callback (read.answer (.value order) remote) tab = .ok fx) :
    Showing uid (ks ++ fx.reads) (client.applyAll fx.writes remote) fx.state := by
  obtain ⟨fx', hrun, heffects⟩ := appCallback_ok hserved
  have hfits := h.fits read List.mem_cons_self
  obtain ⟨huser, hdelegates, himages, hview⟩ :=
    read.shown_frame (read.answer (.value order) remote) tab
  have hlimits := callback_limited hfits.creates _ tab.app fx' hrun
  have hsound := callback_keeps_screens true
    (fun tab view text hsound => GameTab.sound_setLeaves hsound view text)
    (fun tab app hsound hgrows => @GameTab.Sound.grows tab hsound app true hgrows)
    (fun _ _ _ => rfl) h.sound _ _ hserved
  have hfree := callback_keeps_screens false
    (fun tab view text hfree => GameTab.offersFree_setLeaves hfree view text)
    (fun tab app hfree hgrows => @GameTab.OffersFree.grows tab hfree app hgrows)
    (fun other hother hloads => by
      obtain rfl := TabRead.app.inj hother
      rw [hfits.loadsLand] at hloads
      cases hloads) h.offersFree _ _ hserved
  obtain ⟨leaves, hwallet, hright, hlabel⟩ := h.wallet_served hrun
  -- the reads that the callback issues, and the blocks
  have hissued : ∀ next, .app next ∈ fx'.reads.map TabRead.app → read.Issues next := by
    intro next hnext
    obtain ⟨next', hnext', heq⟩ := List.mem_map.mp hnext
    exact TabRead.app.inj heq ▸ hlimits.reads next' hnext'
  have hblock : ∀ k ∈ read.blocks (read.answer (.value order) remote) tab,
      k.appRead = none ∧ ∃ uid' cell tap key, read = .buyLeaves uid' cell tap ∧
        ks = [.app (.buyInventory uid' cell tap key)] := by
    intro k hk
    rcases read.blocks_cases (read.answer (.value order) remote) tab with
      hnone | ⟨uid', cell, tap, node, order', storeVC, value, rfl, -, -, -, -, hone⟩
    · rw [hnone] at hk
      cases hk
    · rw [hone, List.mem_singleton] at hk
      obtain ⟨key, heq⟩ := h.buys uid' cell tap List.mem_cons_self
      exact ⟨hk ▸ rfl, uid', cell, tap, key, rfl, (List.cons.inj heq).2⟩
  have hpending : ∀ next, .app next ∈ ks ++ fx.reads →
      .app next ∈ ks ∨ read.Issues next := by
    intro next hnext
    rw [heffects] at hnext
    rcases List.mem_append.mp hnext with hnext | hnext
    · exact Or.inl hnext
    · rcases List.mem_append.mp hnext with hnext | hnext
      · exact Or.inr (hissued next hnext)
      · exact absurd (hblock _ hnext).1 (by simp [TabRead.appRead])
  have hreads : ∀ k ∈ ks ++ fx.reads, k ∈ ks ∨ (∃ next, k = .app next) ∨
      k ∈ read.blocks (read.answer (.value order) remote) tab := by
    intro k hk
    rw [heffects] at hk
    rcases List.mem_append.mp hk with hk | hk
    · exact Or.inl hk
    · rcases List.mem_append.mp hk with hk | hk
      · obtain ⟨next, -, heq⟩ := List.mem_map.mp hk
        exact Or.inr (Or.inl ⟨next, heq.symm⟩)
      · exact Or.inr (Or.inr hk)
  refine ⟨?_, hsound, hfree, ⟨leaves, ?_, ?_, ?_⟩, ?_, ?_, ?_, ?_⟩
  · rw [heffects]
    exact huser.trans h.user
  · rw [heffects]
    exact hwallet
  · intro k hk
    have hstate : fx.state.app = fx'.state := congrArg (fun fx => fx.state.app) heffects
    rw [hstate]
    rcases hreads k hk with hk | ⟨next, rfl⟩ | hk
    · exact hright k (List.mem_append_left _ hk)
    · trivial
    · exact hright k (List.mem_append_right _ hk)
  · intro view text hvisible
    rw [heffects] at hvisible
    refine (hlabel view text hvisible).imp_right ?_
    rintro ⟨k, hk, hsets⟩
    refine ⟨k, ?_, hsets⟩
    rw [heffects]
    rcases List.mem_append.mp hk with hk | hk
    · exact List.mem_append_left _ hk
    · exact List.mem_append_right _ (List.mem_append_right _ hk)
  · rw [heffects]
    intro hland
    rw [GameTab.view_withApp, hview] at hland
    obtain ⟨before, hbefore⟩ := h.land hland
    refine ⟨before, ?_⟩
    have hactive : fx'.state.activeItems = tab.app.activeItems := by
      refine callback_activeItems hfits.loadsLand ?_ _ tab.app fx' hrun
      rintro uid' key item coordinate rfl
      exact hfits hland
    change (read.shown _ tab).images = _
    rw [himages, hactive, hbefore]
  · intro k hk hquiet next hnext
    rcases hreads k hk with hk | ⟨other, rfl⟩ | hk
    · have hall := h.spares k (List.mem_cons_of_mem _ hk) hquiet
      rcases hpending next hnext with hnext | hnext
      · exact hall next (List.mem_cons_of_mem _ hnext)
      · exact absurd hnext ((hall read List.mem_cons_self).2 next)
    · cases hquiet
    · obtain ⟨-, uid', cell, tap, key, rfl, rfl⟩ := hblock k hk
      rcases hpending next hnext with hnext | hnext
      · obtain rfl := TabRead.app.inj (List.mem_singleton.mp hnext)
        exact ⟨by simp [Read.fields], fun _ => id⟩
      · exact hnext.elim
  · intro uid' cell tap hmem
    rcases hpending _ hmem with hmem | hmem
    · obtain ⟨key, heq⟩ := h.buys uid' cell tap (List.mem_cons_of_mem _ hmem)
      obtain ⟨-, rfl⟩ := List.cons.inj heq
      simp at hmem
    · cases read with
      | claimDate uid'' result =>
          obtain ⟨total, heq | heq⟩ := hmem <;> cases heq
      | signInName => exact hfits.elim
      | _ => exact hmem.elim
  · intro next hnext
    rw [heffects]
    rcases hpending next hnext with hnext | hnext
    · exact (h.fits next (List.mem_cons_of_mem _ hnext)).congr hview hdelegates
    · cases read with
      | claimDate uid' result =>
          obtain ⟨total, rfl | rfl⟩ := hnext
          · have hcurrent : (Read.calculateCurrent uid' total).Fits uid tab := hfits
            exact hcurrent.congr hview hdelegates
          · trivial
      | signInName => exact hfits.elim
      | _ => exact hnext.elim

end Callbacks

section Settling

variable {uid : Uid} {range : String → String → Bool}

/-- What a tap leaves, apart from what every tap keeps true. -/
structure Opens (uid : Uid) (tab : GameTab) (fx : Effects GameTab Write TabRead) : Prop where
  user : fx.state.user = tab.user
  writes : ∀ write ∈ fx.writes, write.Below ["history"]
  label : ∀ view text, fx.state.visible = some (view, text) →
    tab.visible = some (view, text) ∨ .refreshLeaves uid view ∈ fx.reads
  land : fx.state.LandShown
  refresh : ∀ k ∈ fx.reads, k.appRead = none → (∃ view, k = .refreshLeaves uid view) ∧
    ∀ read, .app read ∈ fx.reads → read.SparesWallet
  buys : ∀ uid' cell tap, .app (.buyLeaves uid' cell tap) ∈ fx.reads → ∃ key,
    fx.reads = [.app (.buyLeaves uid' cell tap), .app (.buyInventory uid' cell tap key)]
  fits : ∀ read, .app read ∈ fx.reads → read.Fits uid fx.state

/-- What code of the app amounts to under a screen. -/
theorem lift_ok {tab : GameTab} {handled : Handled} {fx : Effects GameTab Write TabRead}
    (h : tab.lift handled = .ok fx) :
    ∃ fx', handled = .ok fx' ∧
      fx = ⟨{ tab with app := fx'.state }, fx'.writes, fx'.reads.map TabRead.app⟩ := by
  cases handled with
  | error trap => cases h
  | ok fx' =>
      obtain rfl := Except.ok.inj h
      exact ⟨fx', rfl, rfl⟩

/-- Reads of the app are issued first that leave the wallet alone. -/
theorem Opens.after {tab : GameTab} {fx : Effects GameTab Write TabRead} (h : Opens uid tab fx)
    {reads : List Read} (hreads : ∀ read ∈ reads, read.SparesWallet ∧ read.Fits uid fx.state)
    (hquiet : ∀ read, .app read ∉ fx.reads) :
    Opens uid tab ⟨fx.state, fx.writes, reads.map TabRead.app ++ fx.reads⟩ := by
  have hmem : ∀ read, .app read ∈ reads.map TabRead.app ++ fx.reads → read ∈ reads := by
    intro read hread
    rcases List.mem_append.mp hread with hread | hread
    · obtain ⟨read', hread', heq⟩ := List.mem_map.mp hread
      exact TabRead.app.inj heq ▸ hread'
    · exact absurd hread (hquiet read)
  refine ⟨h.user, h.writes, ?_, h.land, ?_, ?_, ?_⟩
  · intro view text hvisible
    exact (h.label view text hvisible).imp_right (List.mem_append_right _)
  · intro k hk hnone
    refine ⟨?_, fun read hread => (hreads read (hmem read hread)).1⟩
    rcases List.mem_append.mp hk with happ | hk
    · obtain ⟨read, -, rfl⟩ := List.mem_map.mp happ
      cases hnone
    · exact (h.refresh k hk hnone).1
  · intro uid' cell tap hread
    exact absurd (hreads _ (hmem _ hread)).1.1 (by simp [Read.fields])
  · exact fun read hread => (hreads read (hmem read hread)).2

/-- A cell is asked for. -/
theorem row_bind_ok {α : Type} {items : List α} {index : Nat} {f : α → TabHandled}
    {fx : Effects GameTab Write TabRead} (h : (GameTab.row items index >>= f) = .ok fx) :
    ∃ item, f item = .ok fx := by
  cases hrow : GameTab.row items index with
  | error trap => simp [hrow, bind, Except.bind] at h
  | ok item => exact ⟨item, by simpa [hrow, bind, Except.bind] using h⟩

/-- A tap on a screen is a tap of the app whose sums are in range, or none. -/
def GameTap.InRange (tap : GameTap) (remote : Remote) (tab : GameTab) : Prop :=
  ∀ appTap ∈ tab.appTap tap, appTap.InRange remote tab.app

instance (tap : GameTap) (remote : Remote) (tab : GameTab) :
    Decidable (tap.InRange remote tab) :=
  inferInstanceAs (Decidable (∀ appTap ∈ tab.appTap tap, appTap.InRange remote tab.app))

end Settling

/-! ## Runs -/

/-- The buttons of a land that has been loaded. -/
theorem Playing.images {uid : Uid} {player : Player} {remote : Remote} {app : App}
    (h : Playing uid player remote app) (before : GameScreen String) (button : Button)
    (key : String) :
    loadActiveItems some app.activeItems (clearItems before) button = some key ↔
      button.coordinate ∈ player.session.record.land key := by
  obtain rfl := h.app_eq
  have hgrid : ∀ item ∈ player.session.app.activeItems, ∀ coordinate ∈ item.coordinates,
      coordinate ∈ gridCoordinates := by
    intro item hitem coordinate hcoordinate
    have hplaced := (h.showsLand.placed item.key coordinate).mpr ⟨item, hitem, rfl, hcoordinate⟩
    exact h.onGrid item.key coordinate hplaced
  rw [loadActiveItems_eq some hgrid before button]
  constructor
  · intro himage
    split at himage
    · next hsome =>
        obtain ⟨item, hitem, hcoordinate⟩ := hsome
        have hplaced := (h.showsLand.placed item.key button.coordinate).mpr
          ⟨item, hitem, rfl, hcoordinate⟩
        have hfound := (h.showsLand.find h.wellFormed hplaced).2
        rw [← Option.some.inj himage, hfound]
        exact hplaced
    · cases himage
  · intro hplaced
    obtain ⟨item, hitem, -, hcoordinate⟩ := (h.showsLand.placed key button.coordinate).mp hplaced
    rw [if_pos ⟨item, hitem, hcoordinate⟩, (h.showsLand.find h.wellFormed hplaced).2]

/-- Reads that are pending are answered, and then served. -/
def answered (number : Nat) : List TabEvent :=
  (List.range number).map (fun i => .answer i (.value [])) ++ List.replicate number (.serve 0)

end WillItRecycle

import WillItRecycle.ManualEntryScreen

/-!
# What a field shows and what is redeemed

Filling a row writes its quantity into its field, so that the two agree after
every reload.  An edit updates them in different branches: a rejected text resets
the field but not the quantity, and a text that `NumberFormatter` accepts and
`Int(_:)` does not clears the quantity but not the field.

* `always_shown_iff` -- the fields show the quantities in every state exactly when
  every edit keeps the two together.
-/

namespace WillItRecycle

open EventRun ManualEntryViewController

/-- What a text stands for: nothing entered is 0. -/
def Denotes (number : String → Option Rat) (text : String) (quantity : Int) : Prop :=
  text = "" ∧ quantity = 0 ∨ number text = some (quantity : Rat)

/-- Every row shows the quantity REDEEM will use. -/
def ShowsQuantities (number : String → Option Rat) (screen : ManualEntryViewController) : Prop :=
  ∀ cell ∈ screen.cells, ∃ quantity, screen.quantities[cell.tag]? = some quantity ∧
    Denotes number cell.text quantity

/-- A rejected text is entered in a row of quantity 0; an accepted one is an
integer that `Int(_:)` reads, or is 0. -/
def KeepsShown (number : String → Option Rat) (screen : ManualEntryViewController)
    (e : ScreenEvent) : Prop :=
  ∀ row text cell, e = .textFieldDidEndEditing row text → screen.cells[row]? = some cell →
    (number (filled text) = none → screen.quantities[cell.tag]? = some 0) ∧
    ∀ value ∈ number (filled text), value = (quantityOf text : Rat)

theorem keepsShown_edit_iff {number : String → Option Rat} {screen : ManualEntryViewController}
    {row : Nat} {text : String} {cell : RecycleDropdownCell}
    (hcell : screen.cells[row]? = some cell) :
    KeepsShown number screen (.textFieldDidEndEditing row text) ↔
      (number (filled text) = none → screen.quantities[cell.tag]? = some 0) ∧
      ∀ value ∈ number (filled text), value = (quantityOf text : Rat) := by
  constructor
  · intro h
    exact h row text cell rfl hcell
  · intro h row' text' cell' he hcell'
    obtain ⟨rfl, rfl⟩ := ScreenEvent.textFieldDidEndEditing.inj he
    obtain rfl := Option.some.inj (hcell.symm.trans hcell')
    exact h

theorem keepsShown_none {number : String → Option Rat} {screen : ManualEntryViewController}
    {row : Nat} (hcell : screen.cells[row]? = none) (text : String) :
    KeepsShown number screen (.textFieldDidEndEditing row text) := by
  intro row' text' cell' he hcell'
  obtain ⟨rfl, rfl⟩ := ScreenEvent.textFieldDidEndEditing.inj he
  rw [hcell] at hcell'
  cases hcell'

theorem keepsShown_of_ne {number : String → Option Rat} {screen : ManualEntryViewController}
    {e : ScreenEvent} (h : ∀ row text, e ≠ .textFieldDidEndEditing row text) :
    KeepsShown number screen e := by
  intro row text cell he
  exact absurd he (h row text)

instance (number : String → Option Rat) (screen : ManualEntryViewController) (e : ScreenEvent) :
    Decidable (KeepsShown number screen e) :=
  match e with
  | .textFieldDidEndEditing row _ =>
      match hcell : screen.cells[row]? with
      | some _ => decidable_of_iff _ (keepsShown_edit_iff hcell).symm
      | none => isTrue (keepsShown_none hcell _)
  | .viewWillAppear | .textDidChange _ | .cancelButtonClicked | .cellForRowAt _
  | .redeemButtonPressed => isTrue (keepsShown_of_ne (by simp))

section Steps

variable {catalogue : List ManualEntryItem} (hnames : (catalogue.map ManualEntryItem.name).Nodup)
  {range : String → String → Bool} {number : String → Option Rat}
  (hnumber : ∀ n : Int, FitsInt n → number (toString n) = some (n : Rat))
  {screen screen' : ManualEntryViewController} {e : ScreenEvent}

include hnumber in
/-- A row just filled shows its quantity. -/
theorem denotes_of_filled {quantities : List Int}
    (hfits : ∀ quantity ∈ quantities, FitsInt quantity) {cell : RecycleDropdownCell}
    (h : Filled quantities cell) :
    ∃ quantity, quantities[cell.tag]? = some quantity ∧ Denotes number cell.text quantity := by
  obtain ⟨quantity, hquantity, htext⟩ := h
  refine ⟨quantity, hquantity, ?_⟩
  rw [htext]
  unfold fieldText
  by_cases hzero : quantity = 0
  · rw [if_neg (not_not.mpr hzero)]
    exact Or.inl ⟨rfl, hzero⟩
  · rw [if_pos hzero]
    exact Or.inr (hnumber quantity (hfits quantity (List.mem_of_getElem? hquantity)))

include hnames hnumber in
/-- Every reload shows the quantities. -/
theorem reloadData_shows (hcount : screen.quantities.length = catalogue.length)
    (hfits : ∀ quantity ∈ screen.quantities, FitsInt quantity)
    (hdisplayed : screen.currentDisplayedData.Sublist catalogue)
    (hstep : reloadData catalogue screen = .ok screen') :
    Tagged catalogue screen' ∧ ShowsQuantities number screen' := by
  obtain ⟨cells, hreload, _, htagged, hfilled⟩ :=
    reloadData_ok hnames screen hcount hfits hdisplayed
  obtain rfl := Except.ok.inj (hreload.symm.trans hstep)
  exact ⟨htagged, fun cell hcell => denotes_of_filled hnumber hfits (hfilled cell hcell)⟩

/-- Replacing the text of a row and the quantity under its tag. -/
theorem showsQuantities_set_iff (htagged : Tagged catalogue screen)
    (hshows : ShowsQuantities number screen) {row : Nat} {cell : RecycleDropdownCell}
    (hcell : screen.cells[row]? = some cell) (text : String) (quantity : Int)
    (alerts : List Alert) :
    ShowsQuantities number ⟨screen.quantities.set cell.tag quantity, screen.currentDisplayedData,
      screen.cells.set row { cell with text }, alerts⟩ ↔ Denotes number text quantity := by
  obtain ⟨item, hget, _⟩ := htagged.item cell (List.mem_of_getElem? hcell)
  obtain ⟨hrow, _⟩ := List.getElem?_eq_some_iff.mp hcell
  have htag : cell.tag < screen.quantities.length := by
    obtain ⟨hlt, _⟩ := List.getElem?_eq_some_iff.mp hget
    rw [htagged.count]
    exact hlt
  have hsame : (screen.quantities.set cell.tag quantity)[cell.tag]? = some quantity :=
    List.getElem?_set_self htag
  constructor
  · intro hafter
    have hmem : { cell with text } ∈ screen.cells.set row { cell with text } :=
      List.mem_of_getElem? (List.getElem?_set_self hrow)
    obtain ⟨quantity', hquantity', hdenotes⟩ := hafter _ hmem
    rw [hsame] at hquantity'
    rw [Option.some.inj hquantity']
    exact hdenotes
  · intro hdenotes cell' hcell'
    obtain ⟨j, hj⟩ := List.mem_iff_getElem?.mp hcell'
    by_cases hjrow : j = row
    · subst hjrow
      rw [List.getElem?_set_self hrow] at hj
      obtain rfl := Option.some.inj hj
      exact ⟨quantity, hsame, hdenotes⟩
    · rw [List.getElem?_set_ne (Ne.symm hjrow)] at hj
      obtain ⟨quantity', hquantity', hdenotes'⟩ := hshows cell' (List.mem_of_getElem? hj)
      have hother : cell.tag ≠ cell'.tag := by
        intro heq
        have htags : (screen.cells.map RecycleDropdownCell.tag)[row]? =
            (screen.cells.map RecycleDropdownCell.tag)[j]? := by
          rw [List.getElem?_map, List.getElem?_map, hcell, hj]
          simp [heq]
        have hlt : row < (screen.cells.map RecycleDropdownCell.tag).length := by simpa using hrow
        exact hjrow ((List.getElem?_inj hlt htagged.once).mp htags).symm
      refine ⟨quantity', ?_, hdenotes'⟩
      rw [List.getElem?_set_ne hother]
      exact hquantity'

include hnumber in
/-- **One edit** keeps the fields showing the quantities exactly when it keeps its
own field and its own quantity together. -/
theorem textFieldDidEndEditing_shows_iff (htagged : Tagged catalogue screen)
    (hshows : ShowsQuantities number screen) {row : Nat} {text : String}
    (hstep : textFieldDidEndEditing number row text screen = .ok screen') :
    Tagged catalogue screen' ∧ (ShowsQuantities number screen' ↔
      KeepsShown number screen (.textFieldDidEndEditing row text)) := by
  cases hcell : screen.cells[row]? with
  | none =>
      rw [textFieldDidEndEditing_none hcell] at hstep
      obtain rfl := Except.ok.inj hstep
      exact ⟨htagged, iff_of_true hshows (keepsShown_none hcell text)⟩
  | some cell =>
      rw [keepsShown_edit_iff hcell]
      rcases textFieldDidEndEditing_row htagged number hcell text with
        ⟨hrejected, hrow⟩ | ⟨haccepted, hrow⟩
      · obtain rfl := Except.ok.inj (hrow.symm.trans hstep)
        refine ⟨htagged.setCell hcell ?_ ?_ htagged.count htagged.fits _, ?_⟩
        · rfl
        · rfl
        obtain ⟨quantity, hquantity, _⟩ := hshows cell (List.mem_of_getElem? hcell)
        -- the quantity stays, as if it were set again
        have hset : screen.quantities.set cell.tag quantity = screen.quantities := by
          obtain ⟨hlt, hget⟩ := List.getElem?_eq_some_iff.mp hquantity
          rw [← hget]
          exact List.set_getElem_self hlt
        have hafter := showsQuantities_set_iff htagged hshows hcell "0" quantity
          (screen.alerts ++ [invalidInput])
        have hzero : Denotes number "0" quantity ↔ quantity = 0 := by
          have hread : number "0" = some ((0 : Int) : Rat) := hnumber 0 (by decide)
          unfold Denotes
          rw [hread, Option.some.injEq, Rat.intCast_inj]
          constructor
          · intro h
            rcases h with h | h
            · exact h.2
            · exact h.symm
          · intro h
            exact Or.inr h.symm
        rw [hset] at hafter
        rw [hafter, hzero, hquantity, hrejected]
        simp
      · obtain rfl := Except.ok.inj (hrow.symm.trans hstep)
        refine ⟨htagged.edited hcell text, ?_⟩
        obtain ⟨value, hvalue⟩ := Option.isSome_iff_exists.mp haccepted
        have hfilled : filled text ≠ "" := by
          unfold filled
          split
          · decide
          · next hne => exact hne
        rw [showsQuantities_set_iff htagged hshows hcell]
        simp [Denotes, hfilled, hvalue]

include hnames hnumber in
/-- **One event.** -/
theorem handle_shows_iff (htagged : Tagged catalogue screen)
    (hshows : ShowsQuantities number screen)
    (hstep : handle catalogue range number screen e = .ok screen') :
    Tagged catalogue screen' ∧
      (ShowsQuantities number screen' ↔ KeepsShown number screen e) := by
  have hreloads : ∀ {before : ManualEntryViewController},
      reloadData catalogue before = .ok screen' →
      before.quantities.length = catalogue.length →
      (∀ quantity ∈ before.quantities, FitsInt quantity) →
      before.currentDisplayedData.Sublist catalogue →
      (∀ row text, e ≠ .textFieldDidEndEditing row text) →
      Tagged catalogue screen' ∧
        (ShowsQuantities number screen' ↔ KeepsShown number screen e) := by
    intro before hreload hcount hfits hdisplayed hne
    obtain ⟨htagged', hshows'⟩ := reloadData_shows hnames hnumber hcount hfits hdisplayed hreload
    exact ⟨htagged', iff_of_true hshows' (keepsShown_of_ne hne)⟩
  cases e with
  | viewWillAppear =>
      change viewWillAppear catalogue screen = _ at hstep
      unfold viewWillAppear at hstep
      exact hreloads hstep List.length_replicate noQuantities_fits (List.Sublist.refl _) (by simp)
  | textDidChange searchText =>
      change textDidChange catalogue range searchText screen = _ at hstep
      unfold textDidChange at hstep
      refine hreloads hstep htagged.count htagged.fits ?_ (by simp)
      dsimp only
      split
      · exact List.Sublist.refl _
      · exact List.filter_sublist
  | cancelButtonClicked =>
      change cancelButtonClicked catalogue screen = _ at hstep
      unfold cancelButtonClicked at hstep
      exact hreloads hstep htagged.count htagged.fits (List.Sublist.refl _) (by simp)
  | cellForRowAt row =>
      have hkeeps : KeepsShown number screen (.cellForRowAt row) := keepsShown_of_ne (by simp)
      change cellForRowAt catalogue row screen = .ok screen' at hstep
      rcases cellForRowAt_ok hnames htagged row with
        hsame | ⟨old, cell, hold, htag, hlabel, hfilled, hset⟩
      · obtain rfl := Except.ok.inj (hsame.symm.trans hstep)
        exact ⟨htagged, iff_of_true hshows hkeeps⟩
      · obtain rfl := Except.ok.inj (hset.symm.trans hstep)
        refine ⟨htagged.setCell hold htag hlabel htagged.count htagged.fits _,
          iff_of_true ?_ hkeeps⟩
        intro cell' hcell'
        rcases List.mem_or_eq_of_mem_set hcell' with hcell' | rfl
        · exact hshows cell' hcell'
        · exact denotes_of_filled hnumber htagged.fits hfilled
  | textFieldDidEndEditing row text =>
      exact textFieldDidEndEditing_shows_iff hnumber htagged hshows hstep
  | redeemButtonPressed =>
      have hkeeps : KeepsShown number screen .redeemButtonPressed := keepsShown_of_ne (by simp)
      change ManualEntryViewController.redeemButtonPressed catalogue screen = _ at hstep
      unfold ManualEntryViewController.redeemButtonPressed at hstep
      cases hleaves : redeemLeaves catalogue screen.quantities with
      | error trap =>
          rw [hleaves] at hstep
          cases hstep
      | ok leaves =>
          rw [hleaves] at hstep
          simp only [bind, Except.bind] at hstep
          by_cases hzero : leaves = 0
          · rw [if_pos hzero] at hstep
            obtain rfl := Except.ok.inj hstep
            refine ⟨⟨htagged.count, htagged.fits, htagged.displayed, htagged.label, htagged.item,
              htagged.once⟩, iff_of_true hshows hkeeps⟩
          · rw [if_neg hzero] at hstep
            exact hreloads hstep List.length_replicate noQuantities_fits (List.Sublist.refl _)
              (by simp)

/-- Only an edit can do harm, and an edit never traps. -/
theorem keepsShown_of_trap {trap : ScreenTrap} (htagged : Tagged catalogue screen)
    (hstep : handle catalogue range number screen e = .error trap) :
    KeepsShown number screen e := by
  intro row text cell he hcell
  subst he
  change textFieldDidEndEditing number row text screen = _ at hstep
  rcases textFieldDidEndEditing_row htagged number hcell text with ⟨_, hrow⟩ | ⟨_, hrow⟩
  · rw [hrow] at hstep
    cases hstep
  · rw [hrow] at hstep
    cases hstep

end Steps

/-! ## Runs -/

theorem tagged_initial (catalogue : List ManualEntryItem) :
    Tagged catalogue (initial catalogue) := by
  refine ⟨List.length_replicate, noQuantities_fits, List.Sublist.refl _, ?_, ?_, List.nodup_nil⟩
  · intro row cell hcell
    cases hcell
  · intro cell hcell
    cases hcell

/-- **What is shown is what is redeemed** in every state of a run exactly when every
edit keeps its field and its quantity together, whatever the order of appearances,
searches, cancels, edits and redeems. -/
theorem always_shown_iff {number : String → Option Rat}
    (hnumber : ∀ n : Int, FitsInt n → number (toString n) = some (n : Rat))
    (range : String → String → Bool) (es : List ScreenEvent) :
    Always (handle manualEntryData range number) (ShowsQuantities number)
        (initial manualEntryData) es ↔
      Along (handle manualEntryData range number) (KeepsShown number)
        (initial manualEntryData) es :=
  always_iff (handle manualEntryData range number) (Tagged manualEntryData)
    (fun _ _ _ htagged hshows hstep =>
      handle_shows_iff manualEntryData_names hnumber htagged hshows hstep)
    (fun _ _ _ htagged hstep => keepsShown_of_trap htagged hstep)
    es (initial manualEntryData) (tagged_initial manualEntryData)
    (fun cell hcell => by cases hcell)

/-- Five cans are entered, then a word in the same field. -/
def canThenWord : List ScreenEvent :=
  [.viewWillAppear, .textFieldDidEndEditing 0 "5", .textFieldDidEndEditing 0 "abc"]

theorem always_shown_iff_cans :
    Always (handle manualEntryData (fun _ _ => true) integersOnly) (ShowsQuantities integersOnly)
      (initial manualEntryData)
      [.viewWillAppear, .textFieldDidEndEditing 0 "abc", .textFieldDidEndEditing 0 "5",
        .redeemButtonPressed] :=
  (always_shown_iff (fun _ hfits => integersOnly_toString hfits) (fun _ _ => true) _).mpr
    (by decide +kernel)

/-- The word is rejected and the field shows 0; REDEEM still credits five cans. -/
theorem not_always_shown :
    ¬ ∀ (number : String → Option Rat) (range : String → String → Bool)
        (es : List ScreenEvent),
        (∀ n : Int, FitsInt n → number (toString n) = some (n : Rat)) →
        Always (handle manualEntryData range number) (ShowsQuantities number)
          (initial manualEntryData) es := by
  intro hclaim
  have halways := hclaim integersOnly (fun _ _ => true) canThenWord
    (fun _ hfits => integersOnly_toString hfits)
  obtain ⟨screen, hrun, hquantity, hcell⟩ : ∃ screen,
      run (handle manualEntryData (fun _ _ => true) integersOnly) (initial manualEntryData)
          canThenWord = .ok screen ∧
        screen.quantities[0]? = some 5 ∧ ⟨"Aluminum Can", 0, "0"⟩ ∈ screen.cells :=
    exists_run_of_check _ (by decide +kernel)
  obtain ⟨quantity, hshown, hdenotes⟩ := halways.last _ hrun _ hcell
  obtain rfl := Option.some.inj (hquantity.symm.trans hshown)
  revert hdenotes
  unfold Denotes
  decide +kernel

end WillItRecycle

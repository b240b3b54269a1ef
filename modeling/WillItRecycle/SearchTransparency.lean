import WillItRecycle.ManualEntryScreen

/-!
# Searching does not change what is redeemed

An edit of a row goes to the quantity of the item whose name the row shows,
wherever a search has put the row.  So the quantities are those of the last texts
entered under each name (`quantityAfter`), and two sequences of searches and edits
with the same last texts redeem the same.

* `search_transparent` -- the table never traps, each edit changes its own item,
  and only the last texts matter.
-/

namespace WillItRecycle

open EventRun ManualEntryViewController

/-- The name a row shows and the text an edit leaves in it. -/
def entered (screen : ManualEntryViewController) : ScreenEvent → List (String × String)
  | .textFieldDidEndEditing row text =>
      (screen.cells[row]?).elim [] fun cell => [(cell.itemLabel, text)]
  | _ => []

/-- The text last entered under a name. -/
def lastText (log : List (String × String)) (name : String) : Option String :=
  log.reverse.lookup name

def quantityAfter (log : List (String × String)) (item : ManualEntryItem) : Int :=
  (lastText log item.name).elim 0 quantityOf

/-- Searches, and edits that leave an integer. -/
def SearchOrEdit : ScreenEvent → Prop
  | .textDidChange _ | .cancelButtonClicked | .cellForRowAt _ => True
  | .textFieldDidEndEditing _ text => (intOfText (filled text)).isSome
  | .viewWillAppear | .redeemButtonPressed => False

instance (e : ScreenEvent) : Decidable (SearchOrEdit e) :=
  match e with
  | .textDidChange _ | .cancelButtonClicked | .cellForRowAt _ => isTrue trivial
  | .textFieldDidEndEditing _ text =>
      inferInstanceAs (Decidable ((intOfText (filled text)).isSome = true))
  | .viewWillAppear | .redeemButtonPressed => isFalse id

/-- An edit changes the quantity of the item displayed in its row only. -/
def EditsItsItem (catalogue : List ManualEntryItem)
    (step : ManualEntryViewController → ScreenEvent →
      Except ScreenTrap ManualEntryViewController)
    (screen : ManualEntryViewController) (e : ScreenEvent) : Prop :=
  ∀ row text cell, e = .textFieldDidEndEditing row text → screen.cells[row]? = some cell →
    ∀ screen', step screen e = .ok screen' → ∀ (i : Nat) item, catalogue[i]? = some item →
      screen'.quantities[i]? =
        if item.name = cell.itemLabel then some (quantityOf text) else screen.quantities[i]?

theorem lastText_append (log : List (String × String)) (label text name : String) :
    lastText (log ++ [(label, text)]) name =
      if name = label then some text else lastText log name := by
  unfold lastText
  rw [List.reverse_append, List.reverse_singleton, List.singleton_append, List.lookup_cons]
  by_cases hname : name = label
  · simp [hname]
  · simp [hname, beq_eq_false_iff_ne.mpr hname]

section Steps

variable {catalogue : List ManualEntryItem} (hnames : (catalogue.map ManualEntryItem.name).Nodup)
  {range : String → String → Bool} {number : String → Option Rat}
  (haccepts : ∀ text, (intOfText text).isSome → (number text).isSome)
  {screen : ManualEntryViewController}

include hnames in
/-- Setting the quantity under the tag of a row. -/
theorem quantities_set {tag : Nat} {item : ManualEntryItem} (hitem : catalogue[tag]? = some item)
    {quantities : List Int} (hcount : quantities.length = catalogue.length) (quantity : Int)
    {i : Nat} {other : ManualEntryItem} (hother : catalogue[i]? = some other) :
    (quantities.set tag quantity)[i]? =
      if other.name = item.name then some quantity else quantities[i]? := by
  by_cases hname : other.name = item.name
  · obtain rfl := tag_eq hnames hother hitem hname
    obtain ⟨hlt, _⟩ := List.getElem?_eq_some_iff.mp hitem
    rw [if_pos hname, List.getElem?_set_self (by rw [hcount]; exact hlt)]
  · have hne : tag ≠ i := by
      rintro rfl
      rw [hitem] at hother
      exact hname (by rw [Option.some.inj hother])
    rw [if_neg hname, List.getElem?_set_ne hne]

include haccepts in
/-- An edit that leaves an integer is stored under the tag of its row. -/
theorem textFieldDidEndEditing_accepted (htagged : Tagged catalogue screen) {row : Nat}
    {text : String} (htext : (intOfText (filled text)).isSome) {cell : RecycleDropdownCell}
    (hcell : screen.cells[row]? = some cell) :
    textFieldDidEndEditing number row text screen =
      .ok ⟨screen.quantities.set cell.tag (quantityOf text), screen.currentDisplayedData,
        screen.cells.set row { cell with text := filled text }, screen.alerts⟩ := by
  rcases textFieldDidEndEditing_row htagged number hcell text with ⟨hrejected, _⟩ | ⟨_, hrow⟩
  · have haccepted := haccepts _ htext
    rw [hrejected] at haccepted
    cases haccepted
  · exact hrow

include hnames haccepts in
theorem editsItsItem (htagged : Tagged catalogue screen) {e : ScreenEvent}
    (he : SearchOrEdit e) :
    EditsItsItem catalogue (handle catalogue range number) screen e := by
  intro row text cell hedit hcell screen' hstep i other hother
  subst hedit
  have hrow := textFieldDidEndEditing_accepted haccepts htagged he hcell
  obtain rfl := Except.ok.inj (hrow.symm.trans hstep)
  obtain ⟨item, hitem, hlabel⟩ := htagged.item cell (List.mem_of_getElem? hcell)
  rw [← hlabel]
  exact quantities_set hnames hitem htagged.count _ hother

/-- The quantities are those of the last texts. -/
structure FollowsTexts (catalogue : List ManualEntryItem) (log : List (String × String))
    (screen : ManualEntryViewController) : Prop where
  tagged : Tagged catalogue screen
  quantities : screen.quantities = catalogue.map (quantityAfter log)

include hnames in
theorem FollowsTexts.reload {log : List (String × String)}
    (h : FollowsTexts catalogue log screen) {displayed : List ManualEntryItem}
    (hdisplayed : displayed.Sublist catalogue) :
    ∃ screen', reloadData catalogue { screen with currentDisplayedData := displayed } =
      .ok screen' ∧ FollowsTexts catalogue (log ++ []) screen' := by
  obtain ⟨cells, hreload, _, htagged, _⟩ :=
    reloadData_ok hnames { screen with currentDisplayedData := displayed }
      h.tagged.count h.tagged.fits hdisplayed
  rw [List.append_nil]
  exact ⟨_, hreload, htagged, h.quantities⟩

include hnames haccepts in
/-- **One event.** -/
theorem FollowsTexts.handle {log : List (String × String)}
    (h : FollowsTexts catalogue log screen) {e : ScreenEvent} (he : SearchOrEdit e) :
    ∃ screen', ManualEntryViewController.handle catalogue range number screen e = .ok screen' ∧
      FollowsTexts catalogue (log ++ entered screen e) screen' := by
  cases e with
  | viewWillAppear => exact he.elim
  | redeemButtonPressed => exact he.elim
  | textDidChange searchText =>
      refine h.reload hnames ?_
      split
      · exact List.Sublist.refl _
      · exact List.filter_sublist
  | cancelButtonClicked => exact h.reload hnames (List.Sublist.refl _)
  | cellForRowAt row =>
      change ∃ screen', cellForRowAt catalogue row screen = .ok screen' ∧
        FollowsTexts catalogue (log ++ []) screen'
      rw [List.append_nil]
      rcases cellForRowAt_ok hnames h.tagged row with
        hsame | ⟨old, cell, hold, htag, hlabel, _, hset⟩
      · exact ⟨screen, hsame, h⟩
      · refine ⟨_, hset, ?_, h.quantities⟩
        exact h.tagged.setCell hold htag hlabel h.tagged.count h.tagged.fits _
  | textFieldDidEndEditing row text =>
      change ∃ screen', textFieldDidEndEditing number row text screen = .ok screen' ∧ _
      cases hcell : screen.cells[row]? with
      | none =>
          refine ⟨screen, textFieldDidEndEditing_none hcell number text, ?_⟩
          simpa [entered, hcell] using h
      | some cell =>
          refine ⟨_, textFieldDidEndEditing_accepted haccepts h.tagged he hcell, ?_⟩
          have hentered : entered screen (.textFieldDidEndEditing row text) =
              [(cell.itemLabel, text)] := by
            simp [entered, hcell]
          rw [hentered]
          obtain ⟨item, hitem, hlabel⟩ := h.tagged.item cell (List.mem_of_getElem? hcell)
          have hcount : (screen.quantities.set cell.tag (quantityOf text)).length =
              catalogue.length := by
            rw [List.length_set, h.tagged.count]
          refine ⟨h.tagged.edited hcell text, ?_⟩
          apply List.ext_getElem?
          intro i
          dsimp only
          cases hother : catalogue[i]? with
          | none =>
              have hlong : catalogue.length ≤ i := List.getElem?_eq_none_iff.mp hother
              rw [List.getElem?_eq_none_iff.mpr (by rw [hcount]; exact hlong),
                List.getElem?_map, hother]
              rfl
          | some other =>
              rw [quantities_set hnames hitem h.tagged.count _ hother, hlabel, h.quantities,
                List.getElem?_map, List.getElem?_map, hother]
              simp only [Option.map_some, quantityAfter, lastText_append]
              by_cases hname : other.name = cell.itemLabel
              · rw [if_pos hname, if_pos hname]
                rfl
              · rw [if_neg hname, if_neg hname]

end Steps

/-! ## Runs -/

/-- What is entered while a table that has just appeared is searched and edited. -/
def enteredIn (catalogue : List ManualEntryItem) (range : String → String → Bool)
    (number : String → Option Rat) (es : List ScreenEvent) : List (String × String) :=
  notes (handle catalogue range number) entered (initial catalogue) (.viewWillAppear :: es)

section Runs

variable {catalogue : List ManualEntryItem} (hnames : (catalogue.map ManualEntryItem.name).Nodup)
  {number : String → Option Rat}
  (haccepts : ∀ text, (intOfText text).isSome → (number text).isSome)
include hnames

theorem viewWillAppear_follows (range : String → String → Bool) :
    ∃ screen, handle catalogue range number (initial catalogue) .viewWillAppear = .ok screen ∧
      FollowsTexts catalogue [] screen := by
  obtain ⟨cells, hreload, _, htagged, _⟩ :=
    reloadData_ok hnames (initial catalogue) List.length_replicate noQuantities_fits
      (List.Sublist.refl _)
  refine ⟨_, hreload, htagged, ?_⟩
  change List.replicate catalogue.length 0 = _
  rw [eq_comm, List.map_eq_replicate_iff]
  intro item _
  rfl

include haccepts

/-- **The quantities are those of the last texts.** -/
theorem run_followsTexts (range : String → String → Bool) {es : List ScreenEvent}
    (hes : ∀ e ∈ es, SearchOrEdit e) :
    ∃ screen, run (handle catalogue range number) (initial catalogue) (.viewWillAppear :: es) =
        .ok screen ∧
      FollowsTexts catalogue (enteredIn catalogue range number es) screen := by
  obtain ⟨appeared, happears, hfollows⟩ := viewWillAppear_follows hnames range
  obtain ⟨screen, hrun, hend⟩ := run_notes (handle catalogue range number)
    (FollowsTexts catalogue) (fun log s e hinv he => hinv.handle hnames haccepts he)
    es [] appeared hfollows (along_of_forall _ hes appeared)
  refine ⟨screen, ?_, ?_⟩
  · rw [run_cons_of_step _ happears, hrun]
  · unfold enteredIn
    rw [notes_cons_of_step _ happears]
    exact hend

/-- **Searching is transparent to redeeming.**  Take two tables of one catalogue,
searched in any ways and edited with integers, in any order.  No lookup fails, each
edit changes the quantity of its own item only, and when the last texts agree under
each name, so do the quantities and the leaves. -/
theorem search_transparent (range range' : String → String → Bool) (es es' : List ScreenEvent)
    (hes : ∀ e ∈ es, SearchOrEdit e) (hes' : ∀ e ∈ es', SearchOrEdit e) :
    ∃ screen screen',
      run (handle catalogue range number) (initial catalogue) (.viewWillAppear :: es) =
        .ok screen ∧
      run (handle catalogue range' number) (initial catalogue) (.viewWillAppear :: es') =
        .ok screen' ∧
      (∀ cell ∈ screen.cells, cell.tag < screen.quantities.length ∧
        ∃ item, catalogue[cell.tag]? = some item ∧ item.name = cell.itemLabel) ∧
      Along (handle catalogue range number) (EditsItsItem catalogue (handle catalogue range number))
        (initial catalogue) (.viewWillAppear :: es) ∧
      screen.quantities = catalogue.map (quantityAfter (enteredIn catalogue range number es)) ∧
      ((∀ item ∈ catalogue, lastText (enteredIn catalogue range number es) item.name =
          lastText (enteredIn catalogue range' number es') item.name) →
        screen.quantities = screen'.quantities ∧
          redeemLeaves catalogue screen.quantities =
            redeemLeaves catalogue screen'.quantities) := by
  obtain ⟨screen, hrun, hfollows⟩ := run_followsTexts hnames haccepts range hes
  obtain ⟨screen', hrun', hfollows'⟩ := run_followsTexts hnames haccepts range' hes'
  refine ⟨screen, screen', hrun, hrun', ?_, ?_, hfollows.quantities, ?_⟩
  · intro cell hcell
    obtain ⟨item, hitem, hlabel⟩ := hfollows.tagged.item cell hcell
    obtain ⟨hlt, _⟩ := List.getElem?_eq_some_iff.mp hitem
    exact ⟨by rw [hfollows.tagged.count]; exact hlt, item, hitem, hlabel⟩
  · obtain ⟨appeared, happears, hstart⟩ := viewWillAppear_follows hnames range
    refine ⟨?_, ?_⟩
    · intro row text cell he
      cases he
    · intro next hnext
      obtain rfl := Except.ok.inj (happears.symm.trans hnext)
      exact Along.of_invariant (handle catalogue range number)
        (fun s => ∃ log, FollowsTexts catalogue log s)
        (fun s e s' hinv he hstep => by
          obtain ⟨log, hlog⟩ := hinv
          obtain ⟨next, hnext, hfollows⟩ := hlog.handle hnames haccepts he
          obtain rfl := Except.ok.inj (hnext.symm.trans hstep)
          exact ⟨_, hfollows⟩)
        (fun s e hinv he => by
          obtain ⟨log, hlog⟩ := hinv
          exact editsItsItem hnames haccepts hlog.tagged he)
        es appeared ⟨[], hstart⟩ (along_of_forall _ hes appeared)
  · intro hlast
    have hsame : screen.quantities = screen'.quantities := by
      rw [hfollows.quantities, hfollows'.quantities]
      apply List.map_congr_left
      intro item hitem
      unfold quantityAfter
      rw [hlast item hitem]
    exact ⟨hsame, by rw [hsame]⟩

end Runs

/-- Five pieces of foil, entered in the one row a search leaves or in the last row of
all, after another number. -/
theorem search_transparent_foil :
    ∃ screen screen',
      run (handle manualEntryData (fun name _ => name = "Aluminum Foil") integersOnly)
        (initial manualEntryData)
        [.viewWillAppear, .textDidChange "foil", .textFieldDidEndEditing 0 "5"] = .ok screen ∧
      run (handle manualEntryData (fun _ _ => true) integersOnly) (initial manualEntryData)
        [.viewWillAppear, .textFieldDidEndEditing 8 "1", .textFieldDidEndEditing 8 "5"] =
          .ok screen' ∧
      screen.quantities = screen'.quantities ∧
      redeemLeaves manualEntryData screen.quantities =
        redeemLeaves manualEntryData screen'.quantities := by
  have haccepts : ∀ text, (intOfText text).isSome → (integersOnly text).isSome := by
    intro text htext
    rw [integersOnly, Option.isSome_map]
    exact htext
  obtain ⟨screen, screen', hrun, hrun', _, _, _, hlast⟩ :=
    search_transparent manualEntryData_names haccepts (fun name _ => name = "Aluminum Foil")
      (fun _ _ => true) [.textDidChange "foil", .textFieldDidEndEditing 0 "5"]
      [.textFieldDidEndEditing 8 "1", .textFieldDidEndEditing 8 "5"]
      (by decide +kernel) (by decide +kernel)
  exact ⟨screen, screen', hrun, hrun', hlast (by decide +kernel)⟩

end WillItRecycle

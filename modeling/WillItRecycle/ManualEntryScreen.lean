import WillItRecycle.EventRun
import WillItRecycle.LeavesScreens
import Mathlib.Data.List.Nodup

/-!
# The manual entry screen

`ManualEntryViewController.swift`: a table of the items that a search left, one
quantity for each item of the catalogue, and REDEEM.  An edit reaches its quantity
through the tag of the field, the index of the row's item in the whole catalogue,
looked up by name when the row is filled.

The catalogue, the search (`range(of:options:)`) and `NumberFormatter` are
parameters; the screen's own catalogue is `manualEntryData`.  Quantities are what
`Int(_:)` accepts, so that REDEEM's arithmetic can overflow.
-/

namespace WillItRecycle

/-! ## Integers -/

/-- The sign and the digits that `Int(_:)` splits a text into. -/
def signedDigits (text : String) : Int × List Char :=
  if text.toList.head? = some '-' then (-1, text.toList.tail)
  else if text.toList.head? = some '+' then (1, text.toList.tail)
  else (1, text.toList)

def signedValue (text : String) : Int :=
  (signedDigits text).1 * Nat.ofDigitChars 10 (signedDigits text).2 0

/-- `Int(text)` -/
def intOfText (text : String) : Option Int :=
  if (signedDigits text).2 ≠ [] ∧ (signedDigits text).2.all Char.isDigit ∧
      FitsInt (signedValue text) then
    some (signedValue text)
  else
    none

theorem fitsInt_of_intOfText {text : String} {n : Int} (h : intOfText text = some n) :
    FitsInt n := by
  unfold intOfText at h
  split at h
  · next hfits =>
      obtain rfl := Option.some.inj h
      exact hfits.2.2
  · cases h

/-- `Int(_:)` reads back what an integer is printed as. -/
theorem intOfText_toString {n : Int} (h : FitsInt n) : intOfText (toString n) = some n := by
  have hdigit : ∀ (m : Nat) ch, ch ∈ Nat.toDigits 10 m → ch.isDigit :=
    fun m ch hch => Nat.isDigit_of_mem_toDigits (by omega) (by omega) hch
  have hsplit : signedDigits (toString n) =
      (if 0 ≤ n then 1 else -1, Nat.toDigits 10 n.natAbs) := by
    unfold signedDigits
    rw [Int.toString_eq_repr, Int.repr_eq_if]
    by_cases hn : 0 ≤ n
    · have hchars : n.toNat.repr.toList = Nat.toDigits 10 n.natAbs := by
        rw [Nat.toList_repr]
        congr
        omega
      have hhead : ∀ ch, ch.isDigit = false → (Nat.toDigits 10 n.natAbs).head? ≠ some ch := by
        intro ch hch heq
        have hmem := hdigit _ ch (List.mem_of_mem_head? heq)
        rw [hch] at hmem
        cases hmem
      rw [if_pos hn, hchars, if_neg (hhead '-' (by decide)), if_neg (hhead '+' (by decide)),
        if_pos hn]
    · have hchars : ("-" ++ (-n).toNat.repr).toList = '-' :: Nat.toDigits 10 n.natAbs := by
        rw [String.toList_append, Nat.toList_repr, show (-n).toNat = n.natAbs by omega]
        rfl
      rw [if_neg hn, hchars, List.head?_cons, if_pos rfl, if_neg hn, List.tail_cons]
  have hvalue : signedValue (toString n) = n := by
    unfold signedValue
    rw [hsplit, Nat.ofDigitChars_ten_toDigits]
    dsimp only
    split
    · omega
    · omega
  unfold intOfText
  rw [hvalue, hsplit, if_pos]
  exact ⟨Nat.toDigits_ne_nil, List.all_eq_true.mpr (hdigit _), h⟩

/-! ## The state -/

/-- What ends the app on this screen. -/
inductive ScreenTrap where
  | forceUnwrap
  | indexOutOfRange
  | emptyRange
  | overflow
  deriving DecidableEq, Repr

/-- A missing value traps. -/
def expect {α : Type} (trap : ScreenTrap) : Option α → Except ScreenTrap α
  | some x => .ok x
  | none => .error trap

/-- `class RecycleDropdownCell`, with the tag and the text of its `itemField` -/
structure RecycleDropdownCell where
  itemLabel : String
  tag : Nat
  text : String
  deriving DecidableEq, Repr

structure ManualEntryViewController where
  quantities : List Int
  currentDisplayedData : List ManualEntryItem
  /-- the rows of the table -/
  cells : List RecycleDropdownCell
  /-- the alerts presented so far -/
  alerts : List Alert

/-- What happens on the screen.  An edit leaves a text in the field of a row. -/
inductive ScreenEvent where
  | viewWillAppear
  | textDidChange (searchText : String)
  | cancelButtonClicked
  | cellForRowAt (row : Nat)
  | textFieldDidEndEditing (row : Nat) (text : String)
  | redeemButtonPressed

namespace ManualEntryViewController

def invalidInput : Alert := ⟨"Invalid input", "Please enter a valid number"⟩

def present (screen : ManualEntryViewController) (alert : Alert) : ManualEntryViewController :=
  { screen with alerts := screen.alerts ++ [alert] }

section Handlers

variable (catalogue : List ManualEntryItem)

/-- `[Int](repeating: 0, count: manualEntryData.count)` -/
def noQuantities : List Int := List.replicate catalogue.length 0

/-- The screen before it appears. -/
def initial : ManualEntryViewController := ⟨noQuantities catalogue, catalogue, [], []⟩

/-! ## The table -/

/-- What a row shows of a quantity. -/
def fieldText (quantity : Int) : String := if quantity ≠ 0 then toString quantity else ""

/-- The cell for an item. -/
def cellFor (quantities : List Int) (item : ManualEntryItem) :
    Except ScreenTrap RecycleDropdownCell := do
  let index ← expect .forceUnwrap (catalogue.findIdx? fun other => other.name = item.name)
  let quantity ← expect .indexOutOfRange quantities[index]?
  .ok ⟨item.name, index, fieldText quantity⟩

/-- `tableView.reloadData()` -/
def reloadData (screen : ManualEntryViewController) :
    Except ScreenTrap ManualEntryViewController := do
  let cells ← screen.currentDisplayedData.mapM (cellFor catalogue screen.quantities)
  .ok { screen with cells }

/-- A row comes back into view and its cell is filled again. -/
def cellForRowAt (row : Nat) (screen : ManualEntryViewController) :
    Except ScreenTrap ManualEntryViewController :=
  if row < screen.cells.length then do
    let item ← expect .indexOutOfRange screen.currentDisplayedData[row]?
    let cell ← cellFor catalogue screen.quantities item
    .ok { screen with cells := screen.cells.set row cell }
  else
    .ok screen

/-! ## Searching -/

def viewWillAppear (screen : ManualEntryViewController) :
    Except ScreenTrap ManualEntryViewController :=
  reloadData catalogue { screen with
    currentDisplayedData := catalogue
    quantities := noQuantities catalogue }

def textDidChange (range : String → String → Bool) (searchText : String)
    (screen : ManualEntryViewController) : Except ScreenTrap ManualEntryViewController :=
  reloadData catalogue { screen with
    currentDisplayedData :=
      if searchText = "" then catalogue
      else catalogue.filter fun item => range item.name searchText }

def cancelButtonClicked (screen : ManualEntryViewController) :
    Except ScreenTrap ManualEntryViewController :=
  reloadData catalogue { screen with currentDisplayedData := catalogue }

/-! ## Editing -/

/-- An empty field counts as 0. -/
def filled (text : String) : String := if text = "" then "0" else text

/-- The quantity an accepted text leaves. -/
def quantityOf (text : String) : Int := (intOfText (filled text)).getD 0

def textFieldDidEndEditing (number : String → Option Rat) (row : Nat) (text : String)
    (screen : ManualEntryViewController) : Except ScreenTrap ManualEntryViewController :=
  match screen.cells[row]? with
  | none => .ok screen
  | some cell =>
      match number (filled text) with
      | none =>
          .ok ({ screen with cells := screen.cells.set row { cell with text := "0" } }.present
            invalidInput)
      | some _ =>
          if cell.tag < screen.quantities.length then
            .ok { screen with
              quantities := screen.quantities.set cell.tag (quantityOf text)
              cells := screen.cells.set row { cell with text := filled text } }
          else
            .error .indexOutOfRange

/-! ## Redeeming -/

/-- The result of `+` and `*`. -/
def checkedInt (n : Int) : Except ScreenTrap Int := if FitsInt n then .ok n else .error .overflow

/-- One turn of REDEEM's loop: the leaves so far. -/
def addLeaves (quantities : List Int) (leaves : Int) (i : Nat) : Except ScreenTrap Int := do
  let quantity ← expect .indexOutOfRange quantities[i]?
  let item ← expect .indexOutOfRange catalogue[i]?
  let product ← checkedInt (quantity * item.value)
  checkedInt (leaves + product)

/-- The leaves REDEEM computes. -/
def redeemLeaves (quantities : List Int) : Except ScreenTrap Int :=
  if quantities = [] then .error .emptyRange
  else (List.range quantities.length).foldlM (addLeaves catalogue quantities) 0

/-- What REDEEM does to the screen. -/
def redeemButtonPressed (screen : ManualEntryViewController) :
    Except ScreenTrap ManualEntryViewController := do
  let leaves ← redeemLeaves catalogue screen.quantities
  if leaves = 0 then
    .ok (screen.present noItemsEntered)
  else
    reloadData catalogue { screen.present (success leaves) with
      quantities := noQuantities catalogue
      currentDisplayedData := catalogue }

/-- The handler of an event. -/
def handle (range : String → String → Bool) (number : String → Option Rat)
    (screen : ManualEntryViewController) :
    ScreenEvent → Except ScreenTrap ManualEntryViewController
  | .viewWillAppear => viewWillAppear catalogue screen
  | .textDidChange searchText => textDidChange catalogue range searchText screen
  | .cancelButtonClicked => cancelButtonClicked catalogue screen
  | .cellForRowAt row => cellForRowAt catalogue row screen
  | .textFieldDidEndEditing row text => textFieldDidEndEditing number row text screen
  | .redeemButtonPressed => redeemButtonPressed catalogue screen

end Handlers

/-! ## What the table keeps -/

/-- Every row is of the item of the catalogue that its tag points at, no two rows
of the same one. -/
structure Tagged (catalogue : List ManualEntryItem) (screen : ManualEntryViewController) :
    Prop where
  count : screen.quantities.length = catalogue.length
  fits : ∀ quantity ∈ screen.quantities, FitsInt quantity
  displayed : screen.currentDisplayedData.Sublist catalogue
  label : ∀ (row : Nat) (cell : RecycleDropdownCell), screen.cells[row]? = some cell →
    ∃ item, screen.currentDisplayedData[row]? = some item ∧ item.name = cell.itemLabel
  item : ∀ cell ∈ screen.cells, ∃ item, catalogue[cell.tag]? = some item ∧
    item.name = cell.itemLabel
  once : (screen.cells.map RecycleDropdownCell.tag).Nodup

/-- A row just filled shows its quantity. -/
def Filled (quantities : List Int) (cell : RecycleDropdownCell) : Prop :=
  ∃ quantity, quantities[cell.tag]? = some quantity ∧ cell.text = fieldText quantity

/-- A loop that fills a list from another one. -/
theorem mapM_ok {α β ε : Type} {f : α → Except ε β} {R : α → β → Prop} (xs : List α)
    (h : ∀ x ∈ xs, ∃ y, f x = .ok y ∧ R x y) :
    ∃ ys, xs.mapM f = .ok ys ∧ List.Forall₂ R xs ys := by
  induction xs with
  | nil => exact ⟨[], rfl, .nil⟩
  | cons x xs ih =>
      obtain ⟨y, hy, hR⟩ := h x List.mem_cons_self
      obtain ⟨ys, hys, hRs⟩ := ih (fun x hx => h x (List.mem_cons_of_mem _ hx))
      refine ⟨y :: ys, ?_, .cons hR hRs⟩
      simp [List.mapM_cons, hy, hys, bind, Except.bind, pure, Except.pure]

theorem exists_of_forall₂ {α β : Type} {R : α → β → Prop} {xs : List α} {ys : List β}
    (h : List.Forall₂ R xs ys) {y : β} (hy : y ∈ ys) : ∃ x ∈ xs, R x y := by
  induction h with
  | nil => cases hy
  | @cons x y' xs ys hR _ ih =>
      rcases List.mem_cons.mp hy with rfl | hy
      · exact ⟨x, List.mem_cons_self, hR⟩
      · obtain ⟨x', hx', hR'⟩ := ih hy
        exact ⟨x', List.mem_cons_of_mem _ hx', hR'⟩

theorem map_eq_of_forall₂ {α β γ : Type} {R : α → β → Prop} {f : α → γ} {g : β → γ}
    {xs : List α} {ys : List β} (h : List.Forall₂ R xs ys) (hR : ∀ x y, R x y → g y = f x) :
    ys.map g = xs.map f := by
  induction h with
  | nil => rfl
  | cons hrow _ ih => rw [List.map_cons, List.map_cons, hR _ _ hrow, ih]

/-- A row is filled again or edited; it stays the row of its item. -/
theorem Tagged.setCell {catalogue : List ManualEntryItem} {screen : ManualEntryViewController}
    (h : Tagged catalogue screen) {row : Nat} {old : RecycleDropdownCell}
    (hold : screen.cells[row]? = some old) {new : RecycleDropdownCell}
    (htag : new.tag = old.tag) (hlabel : new.itemLabel = old.itemLabel) {quantities : List Int}
    (hcount : quantities.length = catalogue.length)
    (hfits : ∀ quantity ∈ quantities, FitsInt quantity) (alerts : List Alert) :
    Tagged catalogue
      ⟨quantities, screen.currentDisplayedData, screen.cells.set row new, alerts⟩ := by
  obtain ⟨hlt, hget⟩ := List.getElem?_eq_some_iff.mp hold
  refine ⟨hcount, hfits, h.displayed, ?_, ?_, ?_⟩
  · intro other cell hcell
    by_cases hrow : other = row
    · subst hrow
      rw [List.getElem?_set_self hlt] at hcell
      obtain rfl := Option.some.inj hcell
      obtain ⟨item, hitem, hname⟩ := h.label other old hold
      exact ⟨item, hitem, hname.trans hlabel.symm⟩
    · rw [List.getElem?_set_ne (Ne.symm hrow)] at hcell
      exact h.label other cell hcell
  · intro cell hcell
    rcases List.mem_or_eq_of_mem_set hcell with hcell | rfl
    · exact h.item cell hcell
    · rw [htag, hlabel]
      exact h.item old (List.mem_of_getElem? hold)
  · have hsame : (screen.cells.set row new).map RecycleDropdownCell.tag =
        screen.cells.map RecycleDropdownCell.tag := by
      rw [List.map_set, htag, ← hget]
      have hlt' : row < (screen.cells.map RecycleDropdownCell.tag).length := by simpa using hlt
      have hself : (screen.cells.map RecycleDropdownCell.tag).set row
          (screen.cells.map RecycleDropdownCell.tag)[row] =
          screen.cells.map RecycleDropdownCell.tag := List.set_getElem_self hlt'
      simpa using hself
    rw [hsame]
    exact h.once

theorem noQuantities_fits {catalogue : List ManualEntryItem} :
    ∀ quantity ∈ noQuantities catalogue, FitsInt quantity := by
  intro quantity hquantity
  rw [List.eq_of_mem_replicate hquantity]
  decide

section Table

variable {catalogue : List ManualEntryItem} (hnames : (catalogue.map ManualEntryItem.name).Nodup)
  {screen : ManualEntryViewController}
include hnames

/-- The name of a row leads back to its item. -/
theorem findIdx?_name {item : ManualEntryItem} (hitem : item ∈ catalogue) :
    ∃ index, catalogue.findIdx? (fun other => other.name = item.name) = some index ∧
      catalogue[index]? = some item := by
  obtain ⟨i, hi, hget⟩ := List.getElem_of_mem hitem
  refine ⟨i, ?_, ?_⟩
  · rw [List.findIdx?_eq_some_iff_getElem]
    refine ⟨hi, by simp [hget], ?_⟩
    intro j hj
    have hlt : j < catalogue.length := Nat.lt_trans hj hi
    have hne : catalogue[j].name ≠ catalogue[i].name := by
      intro heq
      have hj' : j < (catalogue.map ManualEntryItem.name).length := by simpa using hlt
      have hi' : i < (catalogue.map ManualEntryItem.name).length := by simpa using hi
      have hsame : (catalogue.map ManualEntryItem.name)[j] =
          (catalogue.map ManualEntryItem.name)[i] := by
        simpa using heq
      have hindex := hnames.getElem_inj_iff.mp hsame
      omega
    simpa [hget] using hne
  · rw [List.getElem?_eq_getElem hi, hget]

/-- The lookup of a row's item succeeds and is in range. -/
theorem cellFor_ok {quantities : List Int} (hcount : quantities.length = catalogue.length)
    {item : ManualEntryItem} (hitem : item ∈ catalogue) :
    ∃ cell, cellFor catalogue quantities item = .ok cell ∧ cell.itemLabel = item.name ∧
      catalogue[cell.tag]? = some item ∧ Filled quantities cell := by
  obtain ⟨index, hfound, hget⟩ := findIdx?_name hnames hitem
  have hlt : index < quantities.length := by
    obtain ⟨hlt, _⟩ := List.getElem?_eq_some_iff.mp hget
    omega
  have hquantity : quantities[index]? = some quantities[index] := List.getElem?_eq_getElem hlt
  refine ⟨⟨item.name, index, fieldText quantities[index]⟩, ?_, rfl, hget, _, hquantity, rfl⟩
  simp [cellFor, hfound, hquantity, expect, bind, Except.bind]

/-- **Reloading the table** never traps and fills every row. -/
theorem reloadData_ok (screen : ManualEntryViewController)
    (hcount : screen.quantities.length = catalogue.length)
    (hfits : ∀ quantity ∈ screen.quantities, FitsInt quantity)
    (hdisplayed : screen.currentDisplayedData.Sublist catalogue) :
    ∃ cells, reloadData catalogue screen = .ok { screen with cells } ∧
      cells.length = screen.currentDisplayedData.length ∧
      Tagged catalogue { screen with cells } ∧ ∀ cell ∈ cells, Filled screen.quantities cell := by
  obtain ⟨cells, hcells, hrows⟩ := mapM_ok screen.currentDisplayedData
    (fun item hitem => cellFor_ok hnames hcount (hdisplayed.subset hitem))
  have hitem : ∀ cell ∈ cells, ∃ item ∈ screen.currentDisplayedData,
      cell.itemLabel = item.name ∧ catalogue[cell.tag]? = some item ∧
        Filled screen.quantities cell :=
    fun cell hcell => exists_of_forall₂ hrows hcell
  have hlabels : cells.map RecycleDropdownCell.itemLabel =
      screen.currentDisplayedData.map ManualEntryItem.name :=
    map_eq_of_forall₂ hrows (fun _ _ hrow => hrow.1)
  refine ⟨cells, by simp [reloadData, hcells, bind, Except.bind], hrows.length_eq.symm, ?_, ?_⟩
  · refine ⟨hcount, hfits, hdisplayed, ?_, ?_, ?_⟩
    · intro row cell hcell
      have hlabel : (screen.currentDisplayedData.map ManualEntryItem.name)[row]? =
          some cell.itemLabel := by
        rw [← hlabels, List.getElem?_map, hcell]
        rfl
      rw [List.getElem?_map, Option.map_eq_some_iff] at hlabel
      exact hlabel
    · intro cell hcell
      obtain ⟨item, _, hlabel, hget, _⟩ := hitem cell hcell
      exact ⟨item, hget, hlabel.symm⟩
    · -- rows of one tag would be of one name
      have honce : (cells.map RecycleDropdownCell.itemLabel).Nodup := by
        rw [hlabels]
        exact (hdisplayed.map ManualEntryItem.name).nodup hnames
      rw [List.Nodup, List.pairwise_map] at honce ⊢
      refine honce.imp_of_mem ?_
      intro left right hleft hright hne heq
      obtain ⟨item, _, hlabel, hget, _⟩ := hitem left hleft
      obtain ⟨item', _, hlabel', hget', _⟩ := hitem right hright
      rw [heq, hget', Option.some.injEq] at hget
      exact hne (by rw [hlabel, hlabel', hget])
  · intro cell hcell
    obtain ⟨_, _, _, _, hfilled⟩ := hitem cell hcell
    exact hfilled

theorem name_injective {item item' : ManualEntryItem} (hitem : item ∈ catalogue)
    (hitem' : item' ∈ catalogue) (hname : item.name = item'.name) : item = item' :=
  List.inj_on_of_nodup_map hnames hitem hitem' hname

/-- The tag is determined by the label. -/
theorem tag_eq {tag tag' : Nat} {item item' : ManualEntryItem}
    (hget : catalogue[tag]? = some item) (hget' : catalogue[tag']? = some item')
    (hname : item.name = item'.name) : tag = tag' := by
  have hsame := name_injective hnames (List.mem_of_getElem? hget) (List.mem_of_getElem? hget')
    hname
  obtain ⟨hlt, _⟩ := List.getElem?_eq_some_iff.mp hget
  exact (List.getElem?_inj hlt (List.Nodup.of_map _ hnames)).mp
    (by rw [hget, hget', hsame])

/-- A row that comes back into view is filled again. -/
theorem cellForRowAt_ok (h : Tagged catalogue screen) (row : Nat) :
    cellForRowAt catalogue row screen = .ok screen ∨
    ∃ old cell, screen.cells[row]? = some old ∧ cell.tag = old.tag ∧
      cell.itemLabel = old.itemLabel ∧ Filled screen.quantities cell ∧
      cellForRowAt catalogue row screen =
        .ok { screen with cells := screen.cells.set row cell } := by
  by_cases hlt : row < screen.cells.length
  · right
    have hold : screen.cells[row]? = some screen.cells[row] := List.getElem?_eq_getElem hlt
    obtain ⟨item, hdisplayed, hlabel⟩ := h.label row _ hold
    have hitem : item ∈ catalogue := h.displayed.subset (List.mem_of_getElem? hdisplayed)
    obtain ⟨cell, hcell, hname, hget, hfilled⟩ := cellFor_ok hnames h.count hitem
    obtain ⟨item', hget', hlabel'⟩ := h.item _ (List.mem_of_getElem? hold)
    have htag := tag_eq hnames hget hget' (hlabel.trans hlabel'.symm)
    refine ⟨_, cell, hold, htag, hname.trans hlabel, hfilled, ?_⟩
    simp [cellForRowAt, hlt, hdisplayed, hcell, expect, bind, Except.bind]
  · left
    rw [cellForRowAt, if_neg hlt]

end Table

/-- An edit of a row: rejected, or accepted and stored under its tag. -/
theorem textFieldDidEndEditing_row {catalogue : List ManualEntryItem}
    {screen : ManualEntryViewController} (h : Tagged catalogue screen)
    (number : String → Option Rat) {row : Nat} {cell : RecycleDropdownCell}
    (hcell : screen.cells[row]? = some cell) (text : String) :
    number (filled text) = none ∧ textFieldDidEndEditing number row text screen =
        .ok ⟨screen.quantities, screen.currentDisplayedData,
          screen.cells.set row { cell with text := "0" }, screen.alerts ++ [invalidInput]⟩ ∨
    (number (filled text)).isSome ∧ textFieldDidEndEditing number row text screen =
        .ok ⟨screen.quantities.set cell.tag (quantityOf text), screen.currentDisplayedData,
          screen.cells.set row { cell with text := filled text }, screen.alerts⟩ := by
  cases hnumber : number (filled text) with
  | none =>
      left
      exact ⟨rfl, by simp [textFieldDidEndEditing, hcell, hnumber, present]⟩
  | some value =>
      right
      obtain ⟨item, hget, _⟩ := h.item cell (List.mem_of_getElem? hcell)
      have hlt : cell.tag < screen.quantities.length := by
        obtain ⟨hlt, _⟩ := List.getElem?_eq_some_iff.mp hget
        rw [h.count]
        exact hlt
      exact ⟨rfl, by simp [textFieldDidEndEditing, hcell, hnumber, hlt]⟩

theorem textFieldDidEndEditing_none {screen : ManualEntryViewController} {row : Nat}
    (hcell : screen.cells[row]? = none) (number : String → Option Rat) (text : String) :
    textFieldDidEndEditing number row text screen = .ok screen := by
  simp [textFieldDidEndEditing, hcell]

theorem fitsInt_quantityOf (text : String) : FitsInt (quantityOf text) := by
  unfold quantityOf
  cases hvalue : intOfText (filled text) with
  | none => decide
  | some n => exact fitsInt_of_intOfText hvalue

/-- An accepted edit leaves every row the row of its item. -/
theorem Tagged.edited {catalogue : List ManualEntryItem} {screen : ManualEntryViewController}
    (h : Tagged catalogue screen) {row : Nat} {cell : RecycleDropdownCell}
    (hcell : screen.cells[row]? = some cell) (text : String) :
    Tagged catalogue ⟨screen.quantities.set cell.tag (quantityOf text),
      screen.currentDisplayedData, screen.cells.set row { cell with text := filled text },
      screen.alerts⟩ := by
  refine h.setCell hcell ?_ ?_ ?_ ?_ _
  · rfl
  · rfl
  · rw [List.length_set, h.count]
  · intro quantity hquantity
    rcases List.mem_or_eq_of_mem_set hquantity with hquantity | rfl
    · exact h.fits quantity hquantity
    · exact fitsInt_quantityOf text

end ManualEntryViewController

/-! ## The screen's own catalogue -/

theorem manualEntryData_names : (manualEntryData.map ManualEntryItem.name).Nodup := by decide

/-- A formatter that reads integers and nothing else. -/
def integersOnly (text : String) : Option Rat := (intOfText text).map fun n : Int => (n : Rat)

theorem integersOnly_toString {n : Int} (h : FitsInt n) :
    integersOnly (toString n) = some (n : Rat) := by
  rw [integersOnly, intOfText_toString h]
  rfl

end WillItRecycle

import WillItRecycle.Session

/-!
# The land on the screen

`GameViewController.swift`.  The land has 20 buttons.  `viewWillAppear` takes their
images away and gives the images of the placed items back, one coordinate after
another; a coordinate that is no button's ends the loop.

When every coordinate is one of the grid, a button shows the image of the item that
REMOVE would find on it, and nothing when there is none (`loadActiveItems_eq`).
-/

namespace WillItRecycle

inductive Button where
  | zeroZero | zeroOne | zeroTwo | zeroThree
  | oneZero | oneOne | oneTwo | oneThree
  | twoZero | twoOne | twoTwo | twoThree
  | threeZero | threeOne | threeTwo | threeThree
  | fourZero | fourOne | fourTwo | fourThree
  deriving DecidableEq, Repr

open Button

/-- The `switch` over a coordinate; `none` is its default. -/
def buttonOf (coordinate : String) : Option Button :=
  match coordinate with
  | "(0,0)" => some zeroZero
  | "(0,1)" => some zeroOne
  | "(0,2)" => some zeroTwo
  | "(0,3)" => some zeroThree
  | "(1,0)" => some oneZero
  | "(1,1)" => some oneOne
  | "(1,2)" => some oneTwo
  | "(1,3)" => some oneThree
  | "(2,0)" => some twoZero
  | "(2,1)" => some twoOne
  | "(2,2)" => some twoTwo
  | "(2,3)" => some twoThree
  | "(3,0)" => some threeZero
  | "(3,1)" => some threeOne
  | "(3,2)" => some threeTwo
  | "(3,3)" => some threeThree
  | "(4,0)" => some fourZero
  | "(4,1)" => some fourOne
  | "(4,2)" => some fourTwo
  | "(4,3)" => some fourThree
  | _ => none

/-- The coordinate of a button. -/
def Button.coordinate : Button → String
  | zeroZero => "(0,0)"
  | zeroOne => "(0,1)"
  | zeroTwo => "(0,2)"
  | zeroThree => "(0,3)"
  | oneZero => "(1,0)"
  | oneOne => "(1,1)"
  | oneTwo => "(1,2)"
  | oneThree => "(1,3)"
  | twoZero => "(2,0)"
  | twoOne => "(2,1)"
  | twoTwo => "(2,2)"
  | twoThree => "(2,3)"
  | threeZero => "(3,0)"
  | threeOne => "(3,1)"
  | threeTwo => "(3,2)"
  | threeThree => "(3,3)"
  | fourZero => "(4,0)"
  | fourOne => "(4,1)"
  | fourTwo => "(4,2)"
  | fourThree => "(4,3)"

/-- The buttons in the order in which `clearItems` names them. -/
def buttons : List Button :=
  [zeroZero, zeroOne, zeroTwo, zeroThree, oneZero, oneOne, oneTwo, oneThree,
    twoZero, twoOne, twoTwo, twoThree, threeZero, threeOne, threeTwo, threeThree,
    fourZero, fourOne, fourTwo, fourThree]

theorem buttonOf_eq_some_iff {coordinate : String} {button : Button} :
    buttonOf coordinate = some button ↔ coordinate = button.coordinate := by
  constructor
  · unfold buttonOf
    split <;> intro h <;> cases h <;> rfl
  · rintro rfl
    cases button <;> rfl

theorem gridCoordinates_eq : gridCoordinates = buttons.map Button.coordinate := rfl

theorem exists_button {coordinate : String} (h : coordinate ∈ gridCoordinates) :
    ∃ button, buttonOf coordinate = some button := by
  rw [gridCoordinates_eq, List.mem_map] at h
  obtain ⟨button, _, rfl⟩ := h
  exact ⟨button, buttonOf_eq_some_iff.mpr rfl⟩

section Screen

variable {UIImage : Type}

/-- The images of the buttons. -/
abbrev GameScreen (UIImage : Type) := Button → Option UIImage

def GameScreen.setImage (screen : GameScreen UIImage) (button : Button)
    (image : Option UIImage) : GameScreen UIImage :=
  Function.update screen button image

def clearItems (screen : GameScreen UIImage) : GameScreen UIImage :=
  buttons.foldl (fun screen button => screen.setImage button none) screen

/-- One round of the inner loop; `error` is its `return`. -/
def loadCoordinate (currentImage : Option UIImage) (screen : GameScreen UIImage)
    (coordinate : String) : Except (GameScreen UIImage) (GameScreen UIImage) :=
  match buttonOf coordinate with
  | some button => .ok (screen.setImage button currentImage)
  | none => .error screen

/-- `named` is `UIImage(named:)`. -/
def loadItem (named : String → Option UIImage) (screen : GameScreen UIImage)
    (item : GameItem) : Except (GameScreen UIImage) (GameScreen UIImage) :=
  item.coordinates.foldlM (loadCoordinate (named item.key)) screen

def loadActiveItems (named : String → Option UIImage) (activeItems : List GameItem)
    (screen : GameScreen UIImage) : GameScreen UIImage :=
  match activeItems.foldlM (loadItem named) screen with
  | .ok screen | .error screen => screen

theorem clearItems_eq (screen : GameScreen UIImage) : clearItems screen = fun _ => none := by
  funext button
  cases button <;> rfl

/-- The inner loop gives the buttons of the coordinates the image. -/
theorem foldlM_loadCoordinate (image : Option UIImage) {coordinates : List String}
    (hgrid : ∀ coordinate ∈ coordinates, coordinate ∈ gridCoordinates)
    (screen : GameScreen UIImage) :
    coordinates.foldlM (loadCoordinate image) screen =
      .ok fun button => if button.coordinate ∈ coordinates then image else screen button := by
  induction coordinates generalizing screen with
  | nil => rfl
  | cons coordinate coordinates ih =>
      obtain ⟨hfirst, hrest⟩ := List.forall_mem_cons.mp hgrid
      obtain ⟨button, hbutton⟩ := exists_button hfirst
      obtain rfl := buttonOf_eq_some_iff.mp hbutton
      have hload : loadCoordinate image screen button.coordinate =
          .ok (screen.setImage button image) := by
        rw [loadCoordinate, hbutton]
      rw [List.foldlM_cons, hload]
      simp only [bind, Except.bind]
      rw [ih hrest]
      congr 1
      funext other
      by_cases hother : other = button
      · simp [hother, GameScreen.setImage]
      · have hne : other.coordinate ≠ button.coordinate := by
          intro heq
          rw [← heq, buttonOf_eq_some_iff.mpr rfl] at hbutton
          exact hother (Option.some.inj hbutton)
        simp [hne, GameScreen.setImage, Function.update_of_ne hother]

theorem foldlM_loadItem (named : String → Option UIImage) {activeItems : List GameItem}
    (hgrid : ∀ item ∈ activeItems, ∀ coordinate ∈ item.coordinates,
      coordinate ∈ gridCoordinates) (screen : GameScreen UIImage) :
    activeItems.foldlM (loadItem named) screen =
      .ok fun button => activeItems.foldl (fun image item =>
        if button.coordinate ∈ item.coordinates then named item.key else image)
        (screen button) := by
  induction activeItems generalizing screen with
  | nil => rfl
  | cons item items ih =>
      obtain ⟨hfirst, hrest⟩ := List.forall_mem_cons.mp hgrid
      rw [List.foldlM_cons, loadItem, foldlM_loadCoordinate _ hfirst]
      simp only [bind, Except.bind]
      rw [ih hrest]
      rfl

/-- The last image given to a coordinate is that of the entry REMOVE finds. -/
theorem foldl_image (named : String → Option UIImage) (activeItems : List GameItem)
    (coordinate : String) :
    activeItems.foldl (fun image item =>
        if coordinate ∈ item.coordinates then named item.key else image) none =
      if ∃ item ∈ activeItems, coordinate ∈ item.coordinates then
        named (findActiveItemCoordinate activeItems coordinate).key
      else none := by
  rw [findActiveItemCoordinate_eq]
  induction activeItems using List.reverseRecOn with
  | nil => simp
  | append_singleton items item ih =>
      rw [List.foldl_append, List.foldl_append, List.foldl_cons, List.foldl_cons,
        List.foldl_nil, List.foldl_nil, ih]
      by_cases hitem : coordinate ∈ item.coordinates
      · have hsome : ∃ other ∈ items ++ [item], coordinate ∈ other.coordinates :=
          ⟨item, by simp, hitem⟩
        rw [if_pos hitem, if_pos hitem, if_pos hsome]
      · have hiff : (∃ other ∈ items ++ [item], coordinate ∈ other.coordinates) ↔
            ∃ other ∈ items, coordinate ∈ other.coordinates := by
          simp [or_and_right, exists_or, hitem]
        rw [if_neg hitem, if_neg hitem]
        simp only [hiff]

/-- **What the buttons show**, whatever they showed before. -/
theorem loadActiveItems_eq (named : String → Option UIImage) {activeItems : List GameItem}
    (hgrid : ∀ item ∈ activeItems, ∀ coordinate ∈ item.coordinates,
      coordinate ∈ gridCoordinates) (screen : GameScreen UIImage) (button : Button) :
    loadActiveItems named activeItems (clearItems screen) button =
      if ∃ item ∈ activeItems, button.coordinate ∈ item.coordinates then
        named (findActiveItemCoordinate activeItems button.coordinate).key
      else none := by
  rw [loadActiveItems, clearItems_eq, foldlM_loadItem named hgrid]
  exact foldl_image named activeItems button.coordinate

end Screen

end WillItRecycle

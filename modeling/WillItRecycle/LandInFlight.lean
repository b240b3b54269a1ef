import WillItRecycle.PlacementLists

/-!
# Coordinates of the land in flight

PLACE stores its coordinate and shows it in its callback; REMOVE hides it at the
tap and unstores it in its callback.  So a coordinate is on the land, as far as
the user has tapped, when its PLACE is pending or it is stored and no REMOVE of
it is pending (`LandInFlight.placed`), and the local entries show the second half
of that (`LandInFlight.shown`).

A PLACE and a REMOVE of one coordinate can both be pending, the REMOVE tapped
first; only then the order of their callbacks matters.
-/

namespace WillItRecycle

open PathTree ReadCallback LastMatch

/-- The key and the coordinate a pending callback is still to store. -/
def Read.placing : Read → Option (String × String)
  | .placeActive _ key _ coordinate => some (key, coordinate)
  | _ => none

/-- The key and the coordinate a pending callback is still to take away. -/
def Read.removing : Read → Option (String × String)
  | .removeActive _ key coordinate => some (key, coordinate)
  | _ => none

/-- The land `tapped` is the stored one with what is in flight, and the local
entries show what is stored and not being removed. -/
structure LandInFlight (stored tapped : String → List String)
    (placing removing : List (String × String)) (activeItems : List GameItem)
    (coordinatesOccupied : List String) : Prop where
  sold : ∀ item ∈ activeItems, item.Sold
  nodup : ∀ item ∈ activeItems, item.coordinates.Nodup
  listed : ∀ key, stored key ≠ [] → ∃ item ∈ activeItems, item.key = key
  shown : ∀ key x, (∃ item ∈ activeItems, item.key = key ∧ x ∈ item.coordinates) ↔
    x ∈ stored key ∧ (key, x) ∉ removing
  placed : ∀ key x, x ∈ tapped key ↔
    (key, x) ∈ placing ∨ x ∈ stored key ∧ (key, x) ∉ removing
  removed : ∀ key x, (key, x) ∈ removing → x ∈ stored key
  replaced : ∀ key x, (key, x) ∈ placing → x ∈ stored key → (key, x) ∈ removing
  placedOnce : placing.Nodup
  removedOnce : removing.Nodup
  occupied : ∀ x, x ∈ coordinatesOccupied ↔ ∃ key, x ∈ tapped key
  occupiedNodup : coordinatesOccupied.Nodup

/-- PLACE's callback keeps an entry of every key there was. -/
theorem key_mem_placeLocal {activeItems : List GameItem} {other : String}
    (h : ∃ item ∈ activeItems, item.key = other) (key item coordinate : String)
    (placed : List String) :
    ∃ entry ∈ placeLocal key item coordinate placed activeItems, entry.key = other := by
  obtain ⟨old, hold, hkey⟩ := h
  unfold placeLocal
  split
  · exact ⟨old, List.mem_append_left _ hold, hkey⟩
  · unfold placeAgain
    refine ⟨_, List.mem_map_of_mem hold, ?_⟩
    split <;> exact hkey

/-- PLACE's callback repeats no coordinate it did not find in the entries of its key. -/
theorem nodup_placeLocal {activeItems : List GameItem} {key coordinate : String}
    (hnodup : ∀ item ∈ activeItems, item.coordinates.Nodup)
    (hnew : ∀ item ∈ activeItems, item.key = key → coordinate ∉ item.coordinates)
    (item : String) (placed : List String) :
    ∀ entry ∈ placeLocal key item coordinate placed activeItems, entry.coordinates.Nodup := by
  intro entry hentry
  unfold placeLocal at hentry
  split at hentry
  · rcases List.mem_append.mp hentry with hentry | hentry
    · exact hnodup entry hentry
    · rw [List.mem_singleton.mp hentry]
      exact List.nodup_singleton _
  · unfold placeAgain at hentry
    obtain ⟨old, hold, rfl⟩ := List.mem_map.mp hentry
    split
    · next hkey =>
        change (old.coordinates ++ [coordinate]).Nodup
        rw [List.nodup_append]
        refine ⟨hnodup old hold, by simp, ?_⟩
        intro x hx y hy hxy
        rw [List.mem_singleton] at hy
        exact hnew old hold hkey (hy ▸ hxy ▸ hx)
    · exact hnodup old hold

/-- What REMOVE's tap leaves in the entries. -/
theorem mem_dropCoordinate {activeItems : List GameItem}
    (hnodup : ∀ item ∈ activeItems, item.coordinates.Nodup) (coordinate key x : String) :
    (∃ item ∈ dropCoordinate coordinate activeItems,
      item.key = key ∧ x ∈ item.coordinates) ↔
    (∃ item ∈ activeItems, item.key = key ∧ x ∈ item.coordinates) ∧ x ≠ coordinate := by
  have hdropped : ∀ old ∈ activeItems,
      (x ∈ removeLast (fun x => x = coordinate) old.coordinates ↔
        x ∈ old.coordinates ∧ x ≠ coordinate) := by
    intro old hold
    rw [removeLast_eq_filter (hnodup old hold), List.mem_filter]
    simp
  unfold dropCoordinate
  constructor
  · intro h
    obtain ⟨entry, hentry, hkey, hx⟩ := h
    obtain ⟨old, hold, rfl⟩ := List.mem_map.mp hentry
    obtain ⟨hx, hne⟩ := (hdropped old hold).mp hx
    exact ⟨⟨old, hold, hkey, hx⟩, hne⟩
  · intro h
    obtain ⟨⟨old, hold, hkey, hx⟩, hne⟩ := h
    exact ⟨_, List.mem_map_of_mem hold, hkey, (hdropped old hold).mpr ⟨hx, hne⟩⟩

theorem nodup_dropCoordinate {activeItems : List GameItem}
    (hnodup : ∀ item ∈ activeItems, item.coordinates.Nodup) (coordinate : String) :
    ∀ entry ∈ dropCoordinate coordinate activeItems, entry.coordinates.Nodup := by
  intro entry hentry
  unfold dropCoordinate at hentry
  obtain ⟨old, hold, rfl⟩ := List.mem_map.mp hentry
  exact List.Sublist.nodup (removeLast_sublist _ _) (hnodup old hold)

namespace LandInFlight

variable {stored stored' tapped tapped' : String → List String}
  {placing placing' removing removing' : List (String × String)}
  {activeItems : List GameItem} {coordinatesOccupied : List String}

theorem perm (h : LandInFlight stored tapped placing removing activeItems coordinatesOccupied)
    (hplacing : placing.Perm placing') (hremoving : removing.Perm removing') :
    LandInFlight stored tapped placing' removing' activeItems coordinatesOccupied := by
  have hplacing' : ∀ p, p ∈ placing' ↔ p ∈ placing := fun _ => hplacing.symm.mem_iff
  have hremoving' : ∀ p, p ∈ removing' ↔ p ∈ removing := fun _ => hremoving.symm.mem_iff
  refine ⟨h.sold, h.nodup, h.listed, ?_, ?_, ?_, ?_, ?_, ?_, h.occupied, h.occupiedNodup⟩
  · intro key x
    rw [hremoving']
    exact h.shown key x
  · intro key x
    rw [hplacing', hremoving']
    exact h.placed key x
  · intro key x hx
    exact h.removed key x ((hremoving' _).mp hx)
  · intro key x hx hstored
    exact (hremoving' _).mpr (h.replaced key x ((hplacing' _).mp hx) hstored)
  · exact hplacing.nodup_iff.mp h.placedOnce
  · exact hremoving.nodup_iff.mp h.removedOnce

/-- What the entries show is on the land. -/
theorem tapped_of_shown
    (h : LandInFlight stored tapped placing removing activeItems coordinatesOccupied)
    {item : GameItem} (hitem : item ∈ activeItems) {x : String} (hx : x ∈ item.coordinates) :
    x ∈ tapped item.key :=
  (h.placed _ _).mpr (Or.inr ((h.shown _ _).mp ⟨item, hitem, rfl, hx⟩))

/-! ### The taps -/

theorem placeTap
    (h : LandInFlight stored tapped placing removing activeItems coordinatesOccupied)
    {key coordinate : String} (hfree : ∀ other, coordinate ∉ tapped other)
    (htapped : ∀ other x, x ∈ tapped' other ↔
      x ∈ tapped other ∨ (other = key ∧ x = coordinate)) :
    LandInFlight stored tapped' ((key, coordinate) :: placing) removing activeItems
      (coordinatesOccupied ++ [coordinate]) := by
  have hpair : ∀ other x, ((other, x) : String × String) = (key, coordinate) ↔
      other = key ∧ x = coordinate := by
    intro other x
    rw [Prod.mk.injEq]
  refine ⟨h.sold, h.nodup, h.listed, h.shown, ?_, h.removed, ?_, ?_, h.removedOnce, ?_, ?_⟩
  · intro other x
    rw [htapped, h.placed, List.mem_cons, hpair]
    constructor
    · intro hor
      rcases hor with (hplacing | hstored) | hnew
      · exact Or.inl (Or.inr hplacing)
      · exact Or.inr hstored
      · exact Or.inl (Or.inl hnew)
    · intro hor
      rcases hor with (hnew | hplacing) | hstored
      · exact Or.inr hnew
      · exact Or.inl (Or.inl hplacing)
      · exact Or.inl (Or.inr hstored)
  · intro other x hx hstored
    rcases List.mem_cons.mp hx with heq | hx
    · obtain ⟨rfl, rfl⟩ := (hpair other x).mp heq
      by_contra hnot
      exact hfree other ((h.placed other x).mpr (Or.inr ⟨hstored, hnot⟩))
    · exact h.replaced other x hx hstored
  · rw [List.nodup_cons]
    refine ⟨?_, h.placedOnce⟩
    intro hmem
    exact hfree key ((h.placed key coordinate).mpr (Or.inl hmem))
  · intro x
    rw [List.mem_append, List.mem_singleton, h.occupied]
    constructor
    · intro hor
      rcases hor with ⟨other, hx⟩ | hx
      · exact ⟨other, (htapped other x).mpr (Or.inl hx)⟩
      · exact ⟨key, (htapped key x).mpr (Or.inr ⟨rfl, hx⟩)⟩
    · intro hsome
      obtain ⟨other, hx⟩ := hsome
      rcases (htapped other x).mp hx with hx | ⟨_, hx⟩
      · exact Or.inl ⟨other, hx⟩
      · exact Or.inr hx
  · rw [List.nodup_append]
    refine ⟨h.occupiedNodup, by simp, ?_⟩
    intro x hx y hy hxy
    rw [List.mem_singleton] at hy
    obtain ⟨other, hother⟩ := (h.occupied x).mp hx
    exact hfree other (hy ▸ hxy ▸ hother)

theorem removeTap
    (h : LandInFlight stored tapped placing removing activeItems coordinatesOccupied)
    {key coordinate : String}
    (hshown : ∃ item ∈ activeItems, item.key = key ∧ coordinate ∈ item.coordinates)
    (hapart : ∀ key key' x, x ∈ tapped key → x ∈ tapped key' → key = key')
    (htapped : ∀ other x, x ∈ tapped' other ↔ x ∈ tapped other ∧ x ≠ coordinate) :
    LandInFlight stored tapped' placing ((key, coordinate) :: removing)
      (dropCoordinate coordinate activeItems)
      (removeLast (fun x => x = coordinate) coordinatesOccupied) := by
  have hkeep := (h.shown key coordinate).mp hshown
  have hmem : coordinate ∈ tapped key := (h.placed key coordinate).mpr (Or.inr hkeep)
  -- what is stored and not being removed is no longer so for this coordinate only
  have hstored : ∀ other x,
      (x ∈ stored other ∧ (other, x) ∉ (key, coordinate) :: removing) ↔
        (x ∈ stored other ∧ (other, x) ∉ removing) ∧ x ≠ coordinate := by
    intro other x
    rw [List.mem_cons, not_or, Prod.mk.injEq]
    constructor
    · intro hx
      obtain ⟨hx, hne, hnot⟩ := hx
      refine ⟨⟨hx, hnot⟩, ?_⟩
      intro heq
      subst heq
      have hplaced := (h.placed other x).mpr (Or.inr ⟨hx, hnot⟩)
      exact hne ⟨hapart other key x hplaced hmem, rfl⟩
    · intro hx
      obtain ⟨⟨hx, hnot⟩, hne⟩ := hx
      exact ⟨hx, fun heq => hne heq.2, hnot⟩
  refine ⟨sold_dropCoordinate h.sold coordinate, ?_, ?_, ?_, ?_, ?_, ?_, h.placedOnce,
    ?_, ?_, ?_⟩
  · exact nodup_dropCoordinate h.nodup coordinate
  · intro other hother
    obtain ⟨old, hold, hkey⟩ := h.listed other hother
    unfold dropCoordinate
    exact ⟨_, List.mem_map_of_mem hold, hkey⟩
  · intro other x
    rw [mem_dropCoordinate h.nodup, h.shown, hstored]
  · intro other x
    rw [htapped, h.placed, hstored, or_and_right]
    constructor
    · intro hor
      rcases hor with hplacing | hx
      · exact Or.inl hplacing.1
      · exact Or.inr hx
    · intro hor
      rcases hor with hplacing | hx
      · refine Or.inl ⟨hplacing, ?_⟩
        intro heq
        subst heq
        have hplaced := (h.placed other x).mpr (Or.inl hplacing)
        have hother := hapart other key x hplaced hmem
        subst hother
        exact hkeep.2 (h.replaced other x hplacing hkeep.1)
      · exact Or.inr hx
  · intro other x hx
    rcases List.mem_cons.mp hx with heq | hx
    · rw [Prod.mk.injEq] at heq
      rw [heq.1, heq.2]
      exact hkeep.1
    · exact h.removed other x hx
  · intro other x hx hx'
    exact List.mem_cons_of_mem _ (h.replaced other x hx hx')
  · rw [List.nodup_cons]
    exact ⟨hkeep.2, h.removedOnce⟩
  · intro x
    rw [removeLast_eq_filter h.occupiedNodup, List.mem_filter, h.occupied]
    constructor
    · intro hx
      obtain ⟨⟨other, hx⟩, hne⟩ := hx
      exact ⟨other, (htapped other x).mpr ⟨hx, by simpa using hne⟩⟩
    · intro hx
      obtain ⟨other, hx⟩ := hx
      obtain ⟨hx, hne⟩ := (htapped other x).mp hx
      exact ⟨⟨other, hx⟩, by simpa using hne⟩
  · exact List.Sublist.nodup (removeLast_sublist _ _) h.occupiedNodup

/-! ### The callbacks -/

/-- PLACE's callback, when no REMOVE of the coordinate is pending. -/
theorem place {key coordinate : String}
    (h : LandInFlight stored tapped ((key, coordinate) :: placing) removing activeItems
      coordinatesOccupied)
    (hturn : (key, coordinate) ∉ removing) {item : String} (hkey : key ∈ storeKeys)
    (hitem : item = itemName key) {found : List String}
    (hfound : found = [] ↔ stored key = [])
    (hstored : ∀ other x, x ∈ stored' other ↔
      x ∈ stored other ∨ (other = key ∧ x = coordinate)) :
    LandInFlight stored' tapped placing removing
      (placeLocal key item coordinate found activeItems) coordinatesOccupied := by
  obtain ⟨honce, hplacedOnce⟩ := List.nodup_cons.mp h.placedOnce
  have hnew : coordinate ∉ stored key := fun hx =>
    hturn (h.replaced key coordinate List.mem_cons_self hx)
  have hexists : found ≠ [] → ∃ entry ∈ activeItems, entry.key = key :=
    fun hne => h.listed key (fun hnil => hne (hfound.mpr hnil))
  have hlocal := mem_placeLocal item coordinate hexists
  have hkept : ∀ other x, x ∈ stored' other ∧ (other, x) ∉ removing ↔
      (x ∈ stored other ∧ (other, x) ∉ removing) ∨ (other = key ∧ x = coordinate) := by
    intro other x
    rw [hstored, or_and_right]
    constructor
    · intro hor
      rcases hor with hx | hx
      · exact Or.inl hx
      · exact Or.inr hx.1
    · intro hor
      rcases hor with hx | ⟨rfl, rfl⟩
      · exact Or.inl hx
      · exact Or.inr ⟨⟨rfl, rfl⟩, hturn⟩
  refine ⟨sold_placeLocal h.sold hkey hitem coordinate found, ?_, ?_, ?_, ?_, ?_, ?_,
    hplacedOnce, h.removedOnce, h.occupied, h.occupiedNodup⟩
  · refine nodup_placeLocal h.nodup ?_ item found
    intro entry hentry hentryKey hx
    exact hnew ((h.shown key coordinate).mp ⟨entry, hentry, hentryKey, hx⟩).1
  · intro other hother
    obtain ⟨x, hx⟩ := List.exists_mem_of_ne_nil _ hother
    rcases (hstored other x).mp hx with hx | hx
    · exact key_mem_placeLocal (h.listed other (List.ne_nil_of_mem hx)) _ _ _ _
    · obtain ⟨entry, hentry, hentryKey, _⟩ := (hlocal other x).mpr (Or.inr hx)
      exact ⟨entry, hentry, hentryKey⟩
  · intro other x
    rw [hlocal, h.shown, hkept]
  · intro other x
    rw [h.placed, hkept, List.mem_cons, Prod.mk.injEq]
    constructor
    · intro hor
      rcases hor with (hnew | hplacing) | hx
      · exact Or.inr (Or.inr hnew)
      · exact Or.inl hplacing
      · exact Or.inr (Or.inl hx)
    · intro hor
      rcases hor with hplacing | hx | hnew
      · exact Or.inl (Or.inr hplacing)
      · exact Or.inr hx
      · exact Or.inl (Or.inl hnew)
  · intro other x hx
    exact (hstored other x).mpr (Or.inl (h.removed other x hx))
  · intro other x hx hx'
    rcases (hstored other x).mp hx' with hx' | ⟨rfl, rfl⟩
    · exact h.replaced other x (List.mem_cons_of_mem _ hx) hx'
    · exact absurd hx honce

/-- REMOVE's callback. -/
theorem remove {key coordinate : String}
    (h : LandInFlight stored tapped placing ((key, coordinate) :: removing) activeItems
      coordinatesOccupied)
    (hstored : ∀ other x, x ∈ stored' other ↔
      x ∈ stored other ∧ ¬ (other = key ∧ x = coordinate)) :
    LandInFlight stored' tapped placing removing activeItems coordinatesOccupied := by
  obtain ⟨honce, hremovedOnce⟩ := List.nodup_cons.mp h.removedOnce
  have hkept : ∀ other x, x ∈ stored other ∧ (other, x) ∉ (key, coordinate) :: removing ↔
      x ∈ stored' other ∧ (other, x) ∉ removing := by
    intro other x
    rw [hstored, List.mem_cons, not_or, Prod.mk.injEq, and_assoc]
  refine ⟨h.sold, h.nodup, ?_, ?_, ?_, ?_, ?_, h.placedOnce, hremovedOnce, h.occupied,
    h.occupiedNodup⟩
  · intro other hother
    obtain ⟨x, hx⟩ := List.exists_mem_of_ne_nil _ hother
    exact h.listed other (List.ne_nil_of_mem ((hstored other x).mp hx).1)
  · intro other x
    rw [h.shown, hkept]
  · intro other x
    rw [h.placed, hkept]
  · intro other x hx
    refine (hstored other x).mpr ⟨h.removed other x (List.mem_cons_of_mem _ hx), ?_⟩
    intro heq
    obtain ⟨rfl, rfl⟩ := heq
    exact honce hx
  · intro other x hx hx'
    obtain ⟨hx', hne⟩ := (hstored other x).mp hx'
    rcases List.mem_cons.mp (h.replaced other x hx hx') with heq | hmem
    · rw [Prod.mk.injEq] at heq
      exact absurd heq hne
    · exact hmem

end LandInFlight

/-- Between operations the stored land is the one shown. -/
theorem ShowsLand.landInFlight {record : UserRecord} {app : App}
    (h : ShowsLand record app) :
    LandInFlight record.land record.land [] [] app.activeItems app.coordinatesOccupied := by
  refine ⟨h.known, h.nodup, ?_, ?_, ?_, ?_, ?_, List.nodup_nil, List.nodup_nil,
    h.occupied, h.occupiedNodup⟩
  · intro key hkey
    obtain ⟨x, hx⟩ := List.exists_mem_of_ne_nil _ hkey
    obtain ⟨item, hitem, hitemKey, _⟩ := (h.placed key x).mp hx
    exact ⟨item, hitem, hitemKey⟩
  · intro key x
    rw [← h.placed]
    simp
  · intro key x
    simp
  · intro key x hx
    cases hx
  · intro key x hx
    cases hx

end WillItRecycle

import WillItRecycle.SignInLoad
import Mathlib.Algebra.BigOperators.Group.List.Basic
import Mathlib.Algebra.Order.BigOperators.Group.List
import Mathlib.Algebra.Order.Ring.Int
import Mathlib.Tactic.Positivity
import Mathlib.Tactic.Ring

/-!
# What the daily reward is computed from

`calculate` adds up a tenth of the cost of every entry of the local land list.
The reward of the land itself counts every kind that stands on it once
(`landReward`).  REMOVE leaves the entry of a kind behind when it takes its last
coordinate, and the next placement of that kind appends a second entry, so that
the computed total exceeds the reward of the land from then on.

`serial_play_reward_iff` makes this exact: the total is that of the land if and
only if no removal took the last item of its kind.
-/

namespace WillItRecycle

open PathTree ReadCallback LastMatch

/-- The reward of the items standing on the land: a tenth of the cost of every
kind with a placed coordinate. -/
def landReward (record : UserRecord) : Int :=
  (storeItems.map fun storeItem =>
    if record.land storeItem.key = [] then 0 else storeItem.cost.tdiv 10).sum

/-- REMOVE is tapped for the last placed item of its kind. -/
def RemovesLast (tap : Tap) (app : App) : Prop :=
  match tap with
  | .remove coordinate =>
      ∀ item ∈ app.activeItems,
        item.key = (findActiveItemCoordinate app.activeItems coordinate).key →
        ∀ x ∈ item.coordinates, x = coordinate
  | _ => False

instance (tap : Tap) (app : App) : Decidable (RemovesLast tap app) :=
  match tap with
  | .remove coordinate =>
      inferInstanceAs (Decidable (∀ item ∈ app.activeItems,
        item.key = (findActiveItemCoordinate app.activeItems coordinate).key →
        ∀ x ∈ item.coordinates, x = coordinate))
  | .buy _ | .place _ _ _ | .cellForRow _ _ | .claim _ | .redeem _ _ _ | .signIn _ _
  | .signOut => isFalse id

/-! ## The double loop as a sum -/

/-- How many entries a key has. -/
def entriesOf (key : String) (items : List GameItem) : Nat :=
  (items.filter fun item => item.key = key).length

theorem foldl_add (total : Int) (key : String) (shelf : List StoreItem) :
    shelf.foldl (fun total storeItem =>
      if key = storeItem.key then total + storeItem.cost.tdiv 10 else total) total =
    total + (shelf.map fun storeItem =>
      if key = storeItem.key then storeItem.cost.tdiv 10 else 0).sum := by
  induction shelf generalizing total with
  | nil => simp
  | cons storeItem shelf ih =>
      rw [List.foldl_cons, ih, List.map_cons, List.sum_cons]
      split <;> omega

theorem entriesOf_snoc (key : String) (items : List GameItem) (item : GameItem) :
    entriesOf key (items ++ [item]) =
      entriesOf key items + (if item.key = key then 1 else 0) := by
  unfold entriesOf
  rw [List.filter_append, List.length_append]
  by_cases hkey : item.key = key
  · simp [hkey]
  · simp [hkey]

/-- The total adds a tenth of the cost of a kind for every entry of it. -/
theorem rewardTotal_eq_sum (items : List GameItem) :
    rewardTotal items = (storeItems.map fun storeItem =>
      (entriesOf storeItem.key items : Int) * storeItem.cost.tdiv 10).sum := by
  induction items using List.reverseRecOn with
  | nil => decide
  | append_singleton items item ih =>
      have hlast : rewardTotal (items ++ [item]) = rewardTotal items +
          (storeItems.map fun storeItem =>
            if item.key = storeItem.key then storeItem.cost.tdiv 10 else 0).sum := by
        unfold rewardTotal
        rw [List.foldl_append, List.foldl_cons, List.foldl_nil, foldl_add]
      rw [hlast, ih, ← List.sum_map_add]
      congr 1
      apply List.map_congr_left
      intro storeItem _
      rw [entriesOf_snoc]
      by_cases hkey : item.key = storeItem.key
      · rw [if_pos hkey, if_pos hkey]
        push_cast
        ring
      · rw [if_neg hkey, if_neg hkey]
        push_cast
        ring

theorem rewardTotal_nonneg (items : List GameItem) : 0 ≤ rewardTotal items := by
  have hpositive : ∀ storeItem ∈ storeItems, 0 ≤ storeItem.cost.tdiv 10 := by decide
  rw [rewardTotal_eq_sum]
  apply List.sum_nonneg
  intro term hterm
  obtain ⟨storeItem, hmem, rfl⟩ := List.mem_map.mp hterm
  exact mul_nonneg (by positivity) (hpositive storeItem hmem)

/-- Sums of termwise ordered families agree only when the families do. -/
theorem sum_map_eq_iff {α : Type} {xs : List α} {f g : α → Int}
    (hle : ∀ x ∈ xs, f x ≤ g x) :
    (xs.map g).sum = (xs.map f).sum ↔ ∀ x ∈ xs, g x = f x := by
  induction xs with
  | nil => simp
  | cons x xs ih =>
      have hhead := hle x List.mem_cons_self
      have htail : ∀ y ∈ xs, f y ≤ g y := fun y hy => hle y (List.mem_cons_of_mem x hy)
      have hsums := List.sum_le_sum htail
      rw [List.map_cons, List.map_cons, List.sum_cons, List.sum_cons]
      constructor
      · intro heq y hy
        have hrest : (xs.map g).sum = (xs.map f).sum := by omega
        rcases List.mem_cons.mp hy with rfl | hy
        · omega
        · exact (ih htail).mp hrest y hy
      · intro hall
        have hrest := (ih htail).mpr (fun y hy => hall y (List.mem_cons_of_mem x hy))
        have hfirst := hall x List.mem_cons_self
        omega

/-- Every kind on the land has one entry, the others have none. -/
def OneEntryEach (record : UserRecord) (items : List GameItem) : Prop :=
  ∀ key ∈ storeKeys, entriesOf key items = if record.land key = [] then 0 else 1

theorem entriesOf_pos {record : UserRecord} {app : App} (h : ShowsLand record app)
    {key : String} (hplaced : record.land key ≠ []) :
    0 < entriesOf key app.activeItems := by
  obtain ⟨x, hx⟩ := List.exists_mem_of_ne_nil _ hplaced
  obtain ⟨item, hitem, hkey, _⟩ := (h.placed key x).mp hx
  unfold entriesOf
  apply List.length_pos_of_mem (a := item)
  rw [List.mem_filter]
  exact ⟨hitem, by simpa using hkey⟩

/-- The total is the reward of the land when every kind on it has one entry. -/
theorem rewardTotal_eq_landReward_iff {record : UserRecord} {app : App}
    (h : ShowsLand record app) :
    rewardTotal app.activeItems = landReward record ↔
      OneEntryEach record app.activeItems := by
  have hpositive : ∀ storeItem ∈ storeItems, 0 < storeItem.cost.tdiv 10 := by decide
  have hle : ∀ storeItem ∈ storeItems,
      (if record.land storeItem.key = [] then 0 else storeItem.cost.tdiv 10) ≤
        (entriesOf storeItem.key app.activeItems : Int) * storeItem.cost.tdiv 10 := by
    intro storeItem hmem
    have hreward := hpositive storeItem hmem
    by_cases hplaced : record.land storeItem.key = []
    · rw [if_pos hplaced]
      positivity
    · rw [if_neg hplaced]
      have hentries := entriesOf_pos h hplaced
      exact le_mul_of_one_le_left (by omega) (by exact_mod_cast hentries)
  have hterm : ∀ storeItem ∈ storeItems,
      ((entriesOf storeItem.key app.activeItems : Int) * storeItem.cost.tdiv 10 =
        if record.land storeItem.key = [] then 0 else storeItem.cost.tdiv 10) ↔
      entriesOf storeItem.key app.activeItems =
        if record.land storeItem.key = [] then 0 else 1 := by
    intro storeItem hmem
    have hreward := hpositive storeItem hmem
    have hne : storeItem.cost.tdiv 10 ≠ 0 := by omega
    by_cases hplaced : record.land storeItem.key = []
    · rw [if_pos hplaced, if_pos hplaced, mul_eq_zero, or_iff_left hne]
      omega
    · rw [if_neg hplaced, if_neg hplaced, mul_eq_right₀ hne]
      omega
  unfold landReward OneEntryEach
  rw [rewardTotal_eq_sum, sum_map_eq_iff hle]
  constructor
  · intro hall key hkey
    obtain ⟨storeItem, hmem, rfl⟩ := List.mem_map.mp hkey
    exact (hterm storeItem hmem).mp (hall storeItem hmem)
  · intro hall storeItem hmem
    exact (hterm storeItem hmem).mpr (hall _ (List.mem_map_of_mem hmem))

theorem landReward_congr {record record' : UserRecord}
    (h : ∀ key coordinate, coordinate ∈ record.land key ↔ coordinate ∈ record'.land key) :
    landReward record = landReward record' := by
  unfold landReward
  congr 1
  apply List.map_congr_left
  intro storeItem _
  have hiff : record.land storeItem.key = [] ↔ record'.land storeItem.key = [] := by
    rw [List.eq_nil_iff_forall_not_mem, List.eq_nil_iff_forall_not_mem]
    exact forall_congr' fun x => not_congr (h storeItem.key x)
  simp only [hiff]

/-! ## After a load -/

theorem oneEntryEach_of_perm {record : UserRecord} {items : List GameItem}
    (hperm : items.Perm (landRows record)) :
    OneEntryEach record items := by
  intro key hkey
  have hlength : entriesOf key items = entriesOf key (landRows record) :=
    (hperm.filter _).length_eq
  rw [hlength]
  unfold entriesOf
  by_cases hplaced : record.land key = []
  · rw [if_pos hplaced, List.length_eq_zero_iff, List.filter_eq_nil_iff]
    intro item hitem heq
    have hsome := (mem_landRows.mp hitem).2.1
    have hitemKey : item.key = key := by simpa using heq
    exact hsome (hitemKey ▸ hplaced)
  · have hmem : (⟨key, itemName key, (record.land key).length, record.land key⟩ :
        GameItem) ∈ landRows record :=
      mem_landRows.mpr ⟨hkey, hplaced, rfl⟩
    rw [if_neg hplaced]
    exact congrArg List.length
      (filter_key_eq_singleton (nodup_keys_landRows record) hmem)

/-- A fresh load computes the reward of the land. -/
theorem rewardTotal_signedIn {uid : Uid} {remote : Remote} {record : UserRecord}
    {app : App} (hsigned : SignedIn uid (remote uid) app)
    (hholds : Holds (remote uid) record) (hwf : record.WellFormed) :
    rewardTotal app.activeItems = landReward record := by
  have hplay := hsigned.inPlay hholds hwf
  rw [rewardTotal_eq_landReward_iff hplay.showsLand]
  exact oneEntryEach_of_perm (hsigned.perm_landRows hholds hwf)

/-! ## One operation -/

theorem placeLocal_entriesOf (key item coordinate : String)
    (placed : List String) (activeItems : List GameItem) (other : String) :
    entriesOf other (placeLocal key item coordinate placed activeItems) =
      entriesOf other activeItems + (if placed = [] ∧ other = key then 1 else 0) := by
  unfold placeLocal
  by_cases hplaced : placed = []
  · rw [if_pos hplaced, entriesOf_snoc]
    by_cases hother : other = key
    · rw [if_pos hother.symm, if_pos ⟨hplaced, hother⟩]
    · rw [if_neg (Ne.symm hother), if_neg (fun h => hother h.2)]
  · rw [if_neg hplaced, if_neg (fun h => hplaced h.1)]
    unfold placeAgain entriesOf
    rw [List.filter_map, List.length_map]
    congr 2
    funext entry
    by_cases hkey : entry.key = key
    · simp [hkey, GameItem.incrementCount]
    · simp [hkey]

theorem dropCoordinate_entriesOf (coordinate : String) (activeItems : List GameItem)
    (key : String) :
    entriesOf key (dropCoordinate coordinate activeItems) = entriesOf key activeItems := by
  unfold dropCoordinate entriesOf
  rw [List.filter_map, List.length_map]
  rfl

theorem place_oneEntry_iff (session : Session) (key item coordinate : String) :
    OneEntryEach (session.place key item coordinate).record
        (session.place key item coordinate).app.activeItems ↔
      OneEntryEach session.record session.app.activeItems := by
  unfold OneEntryEach
  apply forall_congr'
  intro other
  apply imp_congr_right
  intro _
  have hentries := placeLocal_entriesOf key item coordinate (session.record.land key)
    session.app.activeItems other
  have hplacedLand : (session.place key item coordinate).record.land other =
      if other = key then session.record.land key ++ [coordinate]
      else session.record.land other := by
    change (session.record.place key coordinate).land other = _
    unfold UserRecord.place
    rw [UserRecord.setInventory_land, UserRecord.setLand_land]
  change entriesOf other (placeLocal key item coordinate (session.record.land key)
    session.app.activeItems) = _ ↔ _
  rw [hentries, hplacedLand]
  by_cases hother : other = key
  · subst hother
    by_cases hplaced : session.record.land other = []
    · simp [hplaced]
    · simp [hplaced]
  · simp [hother]

theorem remove_oneEntry_iff {session : Session}
    (hland : ShowsLand session.record session.app)
    (hwf : session.record.WellFormed) {key coordinate : String}
    (hplaced : coordinate ∈ session.record.land key) :
    OneEntryEach (session.remove coordinate).record
        (session.remove coordinate).app.activeItems ↔
      OneEntryEach session.record session.app.activeItems ∧
        ¬ RemovesLast (.remove coordinate) session.app := by
  have hfound := (hland.find hwf hplaced).2
  have hrecord : (session.remove coordinate).record =
      session.record.remove key coordinate := by
    rw [← hfound]
    rfl
  have hmem := UserRecord.mem_remove_land hwf hplaced
  have hkey : key ∈ storeKeys := hwf.landKey key (List.ne_nil_of_mem hplaced)
  have hentries := dropCoordinate_entriesOf coordinate session.app.activeItems
  have hlast : RemovesLast (.remove coordinate) session.app ↔
      ∀ x ∈ session.record.land key, x = coordinate := by
    simp only [RemovesLast, hfound]
    constructor
    · intro h x hx
      obtain ⟨item, hitem, hitemKey, hxItem⟩ := (hland.placed key x).mp hx
      exact h item hitem hitemKey x hxItem
    · intro h item hitem hitemKey x hx
      exact h x ((hland.placed key x).mpr ⟨item, hitem, hitemKey, hx⟩)
  have hempty : ∀ other, (session.record.remove key coordinate).land other = [] ↔
      ∀ x ∈ session.record.land other, x = coordinate := by
    intro other
    rw [List.eq_nil_iff_forall_not_mem]
    apply forall_congr'
    intro x
    rw [hmem other x]
    tauto
  unfold OneEntryEach
  rw [hlast, hrecord]
  change (∀ other ∈ storeKeys, entriesOf other
    (dropCoordinate coordinate session.app.activeItems) = _) ↔ _
  constructor
  · intro hall
    have hkept : ¬ ∀ x ∈ session.record.land key, x = coordinate := by
      intro hlast
      have hzero := hall key hkey
      rw [hentries, if_pos ((hempty key).mpr hlast)] at hzero
      have hpos := entriesOf_pos hland (List.ne_nil_of_mem hplaced)
      omega
    refine ⟨?_, hkept⟩
    intro other hother
    have hafter := hall other hother
    rw [hentries] at hafter
    rw [hafter]
    by_cases heq : other = key
    · subst heq
      rw [if_neg (fun h => hkept ((hempty other).mp h)),
        if_neg (List.ne_nil_of_mem hplaced)]
    · have hsame : (session.record.remove key coordinate).land other =
          session.record.land other := by
        unfold UserRecord.remove
        rw [UserRecord.setInventory_land, UserRecord.setLand_land, if_neg heq]
      rw [hsame]
  · intro hand other hother
    obtain ⟨hall, hkept⟩ := hand
    rw [hentries, hall other hother]
    by_cases heq : other = key
    · subst heq
      rw [if_neg (List.ne_nil_of_mem hplaced),
        if_neg (fun h => hkept ((hempty other).mp h))]
    · have hsame : (session.record.remove key coordinate).land other =
          session.record.land other := by
        unfold UserRecord.remove
        rw [UserRecord.setInventory_land, UserRecord.setLand_land, if_neg heq]
      rw [hsame]

/-- The computed total is the reward of the land. -/
def RewardsLand (session : Session) : Prop :=
  rewardTotal session.app.activeItems = landReward session.record

/-- An operation keeps the total right exactly when it does not remove the last
item of its kind. -/
theorem tap_reward_iff {uid : Uid} {session : Session} {remote : Remote} {app : App}
    (h : InPlay uid session remote app) {tap : Tap} (henabled : tap.Enabled app) :
    RewardsLand (session.tap tap) ↔
      RewardsLand session ∧ ¬ RemovesLast tap app := by
  obtain rfl := h.app_eq
  have hpermits := permits_of_enabled h.showsLand h.showsInventory henabled
  unfold RewardsLand
  rw [rewardTotal_eq_landReward_iff h.showsLand,
    rewardTotal_eq_landReward_iff (h.showsLand.tap h.wellFormed hpermits)]
  cases tap with
  | buy cell =>
      change OneEntryEach (session.buy cell).record (session.buy cell).app.activeItems ↔ _
      have hsame : OneEntryEach (session.buy cell).record session.app.activeItems ↔
          OneEntryEach session.record session.app.activeItems := by
        unfold OneEntryEach
        have hland : (session.buy cell).record.land = session.record.land :=
          UserRecord.buy_land _ _
        rw [hland]
      rw [session.buy_activeItems]
      exact hsame.trans (and_iff_left id).symm
  | place key item coordinate =>
      exact (place_oneEntry_iff session key item coordinate).trans
        (and_iff_left id).symm
  | remove coordinate =>
      obtain ⟨key, hplaced⟩ := hpermits
      exact remove_oneEntry_iff h.showsLand h.wellFormed hplaced
  | cellForRow cell storeItem => exact henabled.elim
  | claim result => exact henabled.elim
  | redeem quantities dateString autoId => exact henabled.elim
  | signIn uid displayName => exact henabled.elim
  | signOut => exact henabled.elim

/-! ## Runs -/

/-- After a serial run the total is the reward of the land if and only if no
removal took the last item of its kind. -/
theorem serial_play_rewardsLand_iff {uid : Uid} {remote : Remote}
    {record : UserRecord} {app : App} (hholds : Holds (remote uid) record)
    (hwf : record.WellFormed) (hsigned : SignedIn uid (remote uid) app)
    {es : List AppEvent} (hserial : client.Along SerialPlay ⟨remote, app, []⟩ es) :
    ∃ s', client.run ⟨remote, app, []⟩ es = .ok s' ∧
      (s'.pending = [] → ∃ record', Holds (s'.remote uid) record' ∧
        record'.WellFormed ∧
        (rewardTotal s'.state.activeItems = landReward record' ↔
          client.Along (TapMeets fun tap _ app => ¬ RemovesLast tap app)
            ⟨remote, app, []⟩ es)) := by
  have hstart := hsigned.inPlay hholds hwf
  have hreward : RewardsLand ⟨record, app⟩ := rewardTotal_signedIn hsigned hholds hwf
  obtain ⟨s', hrun, hplay, hiff⟩ := serial_session_iff (P := RewardsLand)
    (D := fun tap _ app => ¬ RemovesLast tap app)
    (fun _ _ _ _ h henabled => tap_reward_iff h henabled) hstart hserial
  refine ⟨s', hrun, fun hidle => ?_⟩
  have hend := hplay hidle
  refine ⟨_, hend.holds, hend.wellFormed, ?_⟩
  rw [hend.app_eq]
  exact hiff.trans (and_iff_right hreward)

/-- The same coordinates stand under the same keys. -/
def SameLand (record record' : UserRecord) : Prop :=
  ∀ key coordinate, coordinate ∈ record.land key ↔ coordinate ∈ record'.land key

/-- **The reward, exactly.**  After a serial run from a fresh sign-in the
computed total is the one computed right after signing in again, the reward of
the land, if and only if no removal took the last item of its kind; two such
runs that end with the same land compute the same total. -/
theorem serial_plays_reward_iff {uid uid' : Uid} {remote remote' : Remote}
    {record record' : UserRecord} {app app' : App}
    (hholds : Holds (remote uid) record) (hwf : record.WellFormed)
    (hsigned : SignedIn uid (remote uid) app)
    (hholds' : Holds (remote' uid') record') (hwf' : record'.WellFormed)
    (hsigned' : SignedIn uid' (remote' uid') app') {es es' : List AppEvent}
    (hserial : client.Along SerialPlay ⟨remote, app, []⟩ es)
    (hserial' : client.Along SerialPlay ⟨remote', app', []⟩ es') :
    ∃ s s', client.run ⟨remote, app, []⟩ es = .ok s ∧
      client.run ⟨remote', app', []⟩ es' = .ok s' ∧
      (s.pending = [] → s'.pending = [] → ∃ final final',
        Holds (s.remote uid) final ∧ Holds (s'.remote uid') final' ∧
        (∀ fresh, SignedIn uid (s.remote uid) fresh →
          rewardTotal fresh.activeItems = landReward final) ∧
        (rewardTotal s.state.activeItems = landReward final ↔
          client.Along (TapMeets fun tap _ app => ¬ RemovesLast tap app)
            ⟨remote, app, []⟩ es) ∧
        (SameLand final final' →
          client.Along (TapMeets fun tap _ app => ¬ RemovesLast tap app)
            ⟨remote, app, []⟩ es →
          client.Along (TapMeets fun tap _ app => ¬ RemovesLast tap app)
            ⟨remote', app', []⟩ es' →
          rewardTotal s.state.activeItems = rewardTotal s'.state.activeItems)) := by
  obtain ⟨s, hrun, hend⟩ := serial_play_rewardsLand_iff hholds hwf hsigned hserial
  obtain ⟨s', hrun', hend'⟩ :=
    serial_play_rewardsLand_iff hholds' hwf' hsigned' hserial'
  refine ⟨s, s', hrun, hrun', fun hidle hidle' => ?_⟩
  obtain ⟨final, hfinal, hfinalWf, hiff⟩ := hend hidle
  obtain ⟨final', hfinal', _, hiff'⟩ := hend' hidle'
  refine ⟨final, final', hfinal, hfinal', ?_, hiff, ?_⟩
  · intro fresh hfresh
    exact rewardTotal_signedIn hfresh hfinal hfinalWf
  · intro hsame hmeets hmeets'
    rw [hiff.mpr hmeets, hiff'.mpr hmeets', landReward_congr hsame]

/-- One account places two trees and removes one of them, another places one tree on the
same cell: both runs end with the reward of their land. -/
theorem serial_plays_reward_iff_tree :
    ∃ s s', client.run ⟨newUser 100, newUserApp "ann" treeShelf, []⟩
        (serially [.buy 0, .buy 0, .place "tree" "Tree" "(0,0)",
          .place "tree" "Tree" "(0,1)", .remove "(0,0)"]) = .ok s ∧
      client.run ⟨newUser 100, newUserApp "bob" treeShelf, []⟩
        (serially [.buy 0, .place "tree" "Tree" "(0,1)"]) = .ok s' ∧
      ∃ final final', Holds (s.remote "ann") final ∧ Holds (s'.remote "bob") final' ∧
        rewardTotal s.state.activeItems = landReward final ∧
        (SameLand final final' →
          rewardTotal s.state.activeItems = rewardTotal s'.state.activeItems) := by
  obtain ⟨s, hrun, hidle⟩ :
      ∃ s, client.run ⟨newUser 100, newUserApp "ann" treeShelf, []⟩
          (serially [.buy 0, .buy 0, .place "tree" "Tree" "(0,0)",
            .place "tree" "Tree" "(0,1)", .remove "(0,0)"]) = .ok s ∧ s.pending = [] :=
    client.exists_run_of_check (by decide +kernel)
  obtain ⟨s', hrun', hidle'⟩ :
      ∃ s', client.run ⟨newUser 100, newUserApp "bob" treeShelf, []⟩
          (serially [.buy 0, .place "tree" "Tree" "(0,1)"]) = .ok s' ∧ s'.pending = [] :=
    client.exists_run_of_check (by decide +kernel)
  obtain ⟨t, t', ht, ht', hend⟩ :=
    serial_plays_reward_iff (newUser_holds 100 "ann") (newUser_wellFormed 100)
      (newUser_signedIn 100 "ann" treeShelf) (newUser_holds 100 "bob")
      (newUser_wellFormed 100) (newUser_signedIn 100 "bob" treeShelf)
      (by decide +kernel : client.Along SerialPlay
        ⟨newUser 100, newUserApp "ann" treeShelf, []⟩
        (serially [.buy 0, .buy 0, .place "tree" "Tree" "(0,0)",
          .place "tree" "Tree" "(0,1)", .remove "(0,0)"]))
      (by decide +kernel : client.Along SerialPlay
        ⟨newUser 100, newUserApp "bob" treeShelf, []⟩
        (serially [.buy 0, .place "tree" "Tree" "(0,1)"]))
  obtain rfl : s = t := Except.ok.inj (hrun.symm.trans ht)
  obtain rfl : s' = t' := Except.ok.inj (hrun'.symm.trans ht')
  obtain ⟨final, final', hfinal, hfinal', _, hiff, hsame⟩ := hend hidle hidle'
  refine ⟨s, s', hrun, hrun', final, final', hfinal, hfinal',
    hiff.mpr (by decide +kernel), fun hland => ?_⟩
  exact hsame hland (by decide +kernel) (by decide +kernel)

/-- The same land, with a tree removed and placed again or left where it is,
brings 10 leaves in one run and 5 in the other. -/
theorem not_serial_plays_reward :
    ¬ ∀ (uid : Uid) (remote : Remote) (record : UserRecord) (app : App)
        (es es' : List AppEvent), Holds (remote uid) record → record.WellFormed →
        SignedIn uid (remote uid) app →
        client.Along SerialPlay ⟨remote, app, []⟩ es →
        client.Along SerialPlay ⟨remote, app, []⟩ es' →
        (∀ cell, Tap.buy cell ∉ taps es ++ taps es') →
        ∀ s s', client.run ⟨remote, app, []⟩ es = .ok s →
          client.run ⟨remote, app, []⟩ es' = .ok s' →
          s.pending = [] → s'.pending = [] →
          ∀ final final', Holds (s.remote uid) final → Holds (s'.remote uid) final' →
            SameLand final final' →
            rewardTotal s.state.activeItems = rewardTotal s'.state.activeItems := by
  intro hclaim
  have hstart : InPlay "ann" ⟨UserRecord.plantedTree, plantedTreeApp "ann" treeShelf⟩
      plantedTree (plantedTreeApp "ann" treeShelf) :=
    (plantedTree_signedIn "ann" treeShelf).inPlay (plantedTree_holds "ann")
      plantedTree_wellFormed
  have hserial : client.Along SerialPlay
      ⟨plantedTree, plantedTreeApp "ann" treeShelf, []⟩
      (serially [.remove "(0,0)", .place "tree" "Tree" "(0,0)"]) := by
    decide +kernel
  obtain ⟨s, hrun, hidle, htotal⟩ :
      ∃ s, client.run ⟨plantedTree, plantedTreeApp "ann" treeShelf, []⟩
          (serially [.remove "(0,0)", .place "tree" "Tree" "(0,0)"]) = .ok s ∧
        s.pending = [] ∧ rewardTotal s.state.activeItems = 10 :=
    client.exists_run_of_check (by decide +kernel)
  obtain ⟨s'', hrun'', hplay⟩ := serial_session hstart hserial
  obtain rfl : s = s'' := Except.ok.inj (hrun.symm.trans hrun'')
  have hfinal := (hplay hidle).holds
  have hsame : SameLand (Session.play
      ⟨UserRecord.plantedTree, plantedTreeApp "ann" treeShelf⟩
      (taps (serially [.remove "(0,0)", .place "tree" "Tree" "(0,0)"]))).record
      UserRecord.plantedTree := by
    intro key coordinate
    change coordinate ∈ ((UserRecord.plantedTree.remove "tree" "(0,0)").place "tree"
      "(0,0)").land key ↔ _
    rw [UserRecord.mem_place_land, UserRecord.mem_remove_land plantedTree_wellFormed
      (by rw [plantedTree_land]; simp), plantedTree_land]
    by_cases hkey : key = "tree"
    · simp [hkey]
    · simp [hkey]
  have heq := hclaim "ann" _ _ _ _ (serially []) (plantedTree_holds "ann")
    plantedTree_wellFormed (plantedTree_signedIn "ann" treeShelf) hserial
    (by decide +kernel) (by simp [serially, taps]) s _ hrun rfl hidle rfl _ _ hfinal
    (plantedTree_holds "ann") hsame
  rw [htotal] at heq
  exact absurd heq (by decide)

end WillItRecycle

import WillItRecycle.AppClient
import WillItRecycle.TopRanked

/-!
# The leaderboard of the dashboard

The dashboard observes the users ordered by `allTimeLeaves`, the last 15 of
them, and gives the ones who joined the leaderboard its five slots, greatest
first.  A delivery only writes as many slots as it finds users; the others keep
what they show.

The query is cut to 15 users before the ones who opted out are passed over, so
the slots show the leaders exactly when enough of these 15 take part
(`leaders_shown_iff`).
-/

namespace WillItRecycle

open PathTree TopRanked

/-! ## The screen -/

/-- One of `snapshot.children.allObjects`. -/
structure DataSnapshot where
  key : String
  value : FNode

/-- The texts of two labels that belong together. -/
structure Slot where
  name : Option String
  leaves : String
  deriving DecidableEq, Repr

structure DashboardViewController where
  nameLabel : String
  leavesLabel : String
  allTimeLabel : String
  earthLabel : String
  leader1 : Option String
  leader2 : Option String
  leader3 : Option String
  leader4 : Option String
  leader5 : Option String
  leader1Label : String
  leader2Label : String
  leader3Label : String
  leader4Label : String
  leader5Label : String
  deriving DecidableEq, Repr

namespace DashboardViewController

def slots (dashboard : DashboardViewController) : List Slot :=
  [⟨dashboard.leader1, dashboard.leader1Label⟩,
    ⟨dashboard.leader2, dashboard.leader2Label⟩,
    ⟨dashboard.leader3, dashboard.leader3Label⟩,
    ⟨dashboard.leader4, dashboard.leader4Label⟩,
    ⟨dashboard.leader5, dashboard.leader5Label⟩]

/-- The texts of the leader at an index; there is no sixth slot. -/
def setLeader (index : Nat) (slot : Slot) (dashboard : DashboardViewController) :
    DashboardViewController :=
  match index with
  | 0 => { dashboard with leader1 := slot.name, leader1Label := slot.leaves }
  | 1 => { dashboard with leader2 := slot.name, leader2Label := slot.leaves }
  | 2 => { dashboard with leader3 := slot.name, leader3Label := slot.leaves }
  | 3 => { dashboard with leader4 := slot.name, leader4Label := slot.leaves }
  | 4 => { dashboard with leader5 := slot.name, leader5Label := slot.leaves }
  | _ => dashboard

@[simp] theorem length_slots (dashboard : DashboardViewController) :
    dashboard.slots.length = 5 := rfl

theorem slots_setLeader (index : Nat) (slot : Slot)
    (dashboard : DashboardViewController) :
    (dashboard.setLeader index slot).slots = dashboard.slots.set index slot := by
  match index with
  | 0 | 1 | 2 | 3 | 4 => rfl
  | index + 5 => rw [List.set_eq_of_length_le (by simp)]; rfl

end DashboardViewController

/-- The screen as the storyboard lays it out. -/
def freshDashboard : DashboardViewController where
  nameLabel := "Welcome, Name"
  leavesLabel := "Label"
  allTimeLabel := "Label"
  earthLabel := "Label"
  leader1 := some "Name 1"
  leader2 := some "Name 2"
  leader3 := some "Name 3"
  leader4 := some "Name 4"
  leader5 := some "Name 5"
  leader1Label := "Label"
  leader2Label := "Label"
  leader3Label := "Label"
  leader4Label := "Label"
  leader5Label := "Label"

/-- One branch of the chain over `index`; past the fifth there is none. -/
def showLeader (index : Nat) (user : FNode) (dashboard : DashboardViewController) :
    Except Trap DashboardViewController :=
  if index < 5 then do
    let allTimeLeaves ← force .forceCast (asInt (user.child "allTimeLeaves"))
    .ok (dashboard.setLeader index
      ⟨asString (user.child "displayName"), toString allTimeLeaves ++ " Leaves"⟩)
  else
    .ok dashboard

/-- The loop over the users of a delivery, greatest first. -/
def leaderLoop : List DataSnapshot → Nat → DashboardViewController →
    Except Trap DashboardViewController
  | [], _, dashboard => .ok dashboard
  | snap :: snaps, index, dashboard => do
      let _ ← force .forceCast (asDictionary snap.value)
      let leaderboard ← force .forceCast (asInt (snap.value.child "leaderboard"))
      if leaderboard = 1 then do
        let shown ← showLeader index snap.value dashboard
        leaderLoop snaps (index + 1) shown
      else
        leaderLoop snaps index dashboard

/-- The observer of the query in `populateDashboard`. -/
def usersObserved (children : List DataSnapshot)
    (dashboard : DashboardViewController) : Except Trap DashboardViewController :=
  leaderLoop children.reverse 0 dashboard

/-- The callback on the user's own record in `populateDashboard`. -/
def currentUserRead (snapshot : Snapshot) (dashboard : DashboardViewController) :
    Except Trap DashboardViewController :=
  match snapshot with
  | .error => .ok dashboard
  | .value node _ =>
      if node.isEmpty then .ok dashboard
      else
        match asDictionary node with
        | none => .ok dashboard
        | some _ => do
            let displayName ← force .forceCast (asString (node.child "displayName"))
            let currentLeaves ← force .forceCast (asInt (node.child "currentLeaves"))
            let allTimeLeaves ← force .forceCast (asInt (node.child "allTimeLeaves"))
            .ok { dashboard with
              nameLabel := "Welcome, " ++ displayName ++ "!"
              leavesLabel := toString currentLeaves ++ " Current Leaves"
              allTimeLabel := toString allTimeLeaves ++ " All Time Leaves"
              earthLabel := "1 Planet Saved!" }

/-! ## What a delivery shows -/

/-- What the observer casts of a user can be cast. -/
structure Listed (user : FNode) : Prop where
  displayName : (asString (user.child "displayName")).isSome
  leaderboard : (asInt (user.child "leaderboard")).isSome
  allTimeLeaves : (asInt (user.child "allTimeLeaves")).isSome

namespace DataSnapshot

def joined (snap : DataSnapshot) : Bool :=
  asInt (snap.value.child "leaderboard") = some 1

def allTimeLeaves (snap : DataSnapshot) : Int :=
  (asInt (snap.value.child "allTimeLeaves")).getD 0

/-- What a slot shows of a user. -/
def slot (snap : DataSnapshot) : Slot :=
  ⟨asString (snap.value.child "displayName"),
    toString snap.allTimeLeaves ++ " Leaves"⟩

end DataSnapshot

/-- `new` written over `xs` from an index on, as far as `xs` reaches. -/
def overlay {α : Type} (xs : List α) (index : Nat) (new : List α) : List α :=
  xs.take index ++ (new.take (xs.length - index) ++ xs.drop (index + new.length))

@[simp] theorem overlay_nil {α : Type} (xs : List α) (index : Nat) :
    overlay xs index [] = xs := by
  simp [overlay]

theorem overlay_zero {α : Type} (xs new : List α) :
    overlay xs 0 new = new.take xs.length ++ xs.drop new.length := by
  simp [overlay]

theorem overlay_set {α : Type} (xs : List α) (index : Nat) (x : α) (new : List α) :
    overlay (xs.set index x) (index + 1) new = overlay xs index (x :: new) := by
  have hdrop : (xs.set index x).drop (index + 1 + new.length) =
      xs.drop (index + (new.length + 1)) := by
    rw [List.drop_set_of_lt (by omega)]
    congr 1
    omega
  unfold overlay
  rw [List.length_set, List.length_cons, hdrop]
  by_cases hindex : index < xs.length
  · have htake : (xs.set index x).take (index + 1) = xs.take index ++ [x] := by
      rw [List.take_add_one, List.take_set_of_le (Nat.le_refl index),
        List.getElem?_set_self hindex]
      rfl
    have hroom : xs.length - index = xs.length - (index + 1) + 1 := by omega
    rw [htake, hroom, List.take_succ_cons, List.append_assoc]
    rfl
  · have hset : xs.set index x = xs := List.set_eq_of_length_le (by omega)
    have hleft : xs.length - (index + 1) = 0 := by omega
    have hright : xs.length - index = 0 := by omega
    rw [hset, hleft, hright, List.take_of_length_le (by omega),
      List.take_of_length_le (by omega : xs.length ≤ index)]
    rfl

namespace DashboardViewController

/-- Slots written one after another from an index on. -/
def setLeaders : Nat → List Slot → DashboardViewController → DashboardViewController
  | _, [], dashboard => dashboard
  | index, slot :: slots, dashboard =>
      setLeaders (index + 1) slots (dashboard.setLeader index slot)

theorem slots_setLeaders (index : Nat) (slots : List Slot)
    (dashboard : DashboardViewController) :
    (dashboard.setLeaders index slots).slots = overlay dashboard.slots index slots := by
  induction slots generalizing index dashboard with
  | nil => rw [setLeaders, overlay_nil]
  | cons slot slots ih => rw [setLeaders, ih, slots_setLeader, overlay_set]

end DashboardViewController

/-- The loop gives the users who joined the next slots. -/
theorem leaderLoop_listed {snaps : List DataSnapshot}
    (hlisted : ∀ snap ∈ snaps, Listed snap.value) (index : Nat)
    (dashboard : DashboardViewController) :
    leaderLoop snaps index dashboard =
      .ok (dashboard.setLeaders index
        ((snaps.filter DataSnapshot.joined).map DataSnapshot.slot)) := by
  induction snaps generalizing index dashboard with
  | nil => rfl
  | cons snap snaps ih =>
      obtain ⟨hsnap, hrest⟩ := List.forall_mem_cons.mp hlisted
      have hdictionary := asDictionary_of_asString hsnap.displayName (by decide)
      obtain ⟨leaderboard, hleaderboard⟩ := Option.isSome_iff_exists.mp hsnap.leaderboard
      obtain ⟨leaves, hleaves⟩ := Option.isSome_iff_exists.mp hsnap.allTimeLeaves
      have hshow : showLeader index snap.value dashboard =
          .ok (dashboard.setLeader index snap.slot) := by
        by_cases hindex : index < 5
        · simp [showLeader, hindex, hleaves, DataSnapshot.slot,
            DataSnapshot.allTimeLeaves, bind, Except.bind]
        · obtain ⟨k, rfl⟩ : ∃ k, index = k + 5 := ⟨index - 5, by omega⟩
          simp [showLeader, DashboardViewController.setLeader]
      by_cases hjoined : leaderboard = 1
      · have hfilter : snap.joined = true := by
          simp [DataSnapshot.joined, hleaderboard, hjoined]
        simp [leaderLoop, hdictionary, hleaderboard, hjoined, hshow, hfilter,
          DashboardViewController.setLeaders, ih hrest, bind, Except.bind]
      · have hfilter : snap.joined = false := by
          simp [DataSnapshot.joined, hleaderboard, hjoined]
        simp [leaderLoop, hdictionary, hleaderboard, hjoined, hfilter, ih hrest,
          bind, Except.bind]

/-- The slots after a delivery: the users who joined, the last in the query
first, and what was there before where these run out. -/
theorem usersObserved_listed {children : List DataSnapshot}
    (hlisted : ∀ snap ∈ children, Listed snap.value)
    (dashboard : DashboardViewController) :
    ∃ shown, usersObserved children dashboard = .ok shown ∧
      shown.slots =
        overlay dashboard.slots 0
          ((children.reverse.filter DataSnapshot.joined).map DataSnapshot.slot) := by
  have hreversed : ∀ snap ∈ children.reverse, Listed snap.value :=
    fun snap hmem => hlisted snap (List.mem_reverse.mp hmem)
  exact ⟨_, leaderLoop_listed hreversed 0 dashboard,
    DashboardViewController.slots_setLeaders 0 _ dashboard⟩

/-! ## The leaders -/

/-- The slots show the five greatest of the users who joined, or all of them
when there are fewer, and nobody else. -/
def ShowsLeaders (users : List DataSnapshot) (shown : DashboardViewController) : Prop :=
  ∃ leaders, Top DataSnapshot.allTimeLeaves 5 (users.filter DataSnapshot.joined) leaders ∧
    shown.slots =
      leaders.map DataSnapshot.slot ++ freshDashboard.slots.drop leaders.length

/-- What the query delivers: the 15 greatest users, in ascending order. -/
def Delivers (users delivered : List DataSnapshot) : Prop :=
  Top DataSnapshot.allTimeLeaves 15 users delivered.reverse

/-- No user's label is the one of the storyboard. -/
theorem slot_ne_fresh (snap : DataSnapshot) {slot : Slot}
    (hslot : slot ∈ freshDashboard.slots) : snap.slot ≠ slot := by
  intro heq
  have hlabel : slot.leaves = "Label" := by
    simp [DashboardViewController.slots, freshDashboard] at hslot
    rcases hslot with rfl | rfl | rfl | rfl | rfl <;> rfl
  have hlength := congrArg String.length (congrArg Slot.leaves heq)
  rw [hlabel, DataSnapshot.slot, String.length_append] at hlength
  have hword : " Leaves".length = 7 := rfl
  have hplaceholder : "Label".length = 5 := rfl
  omega

/-- Users written over the fresh slots. -/
theorem overlay_fresh (users : List DataSnapshot) :
    overlay freshDashboard.slots 0 (users.map DataSnapshot.slot) =
      (users.take 5).map DataSnapshot.slot ++
        freshDashboard.slots.drop (users.take 5).length := by
  rw [overlay_zero, DashboardViewController.length_slots, List.length_map,
    List.map_take, List.length_take]
  by_cases hfive : users.length ≤ 5
  · rw [Nat.min_eq_right hfive]
  · have hnone : freshDashboard.slots.drop users.length = [] :=
      List.drop_of_length_le (by rw [DashboardViewController.length_slots]; omega)
    rw [Nat.min_eq_left (by omega), hnone]
    rfl

/-- Slots with fresh ones after a few users show no more users than these. -/
theorem length_le_of_slots {many few : List DataSnapshot} {left right : List Slot}
    (hright : ∀ slot ∈ right, slot ∈ freshDashboard.slots)
    (heq : many.map DataSnapshot.slot ++ left = few.map DataSnapshot.slot ++ right) :
    many.length ≤ few.length := by
  by_contra hmore
  have hdrop := congrArg (List.drop few.length) heq
  rw [List.drop_append_of_le_length (by simp; omega), ← List.map_drop,
    List.drop_left' (by simp)] at hdrop
  cases hrest : many.drop few.length with
  | nil =>
      have hlength := congrArg List.length hrest
      simp at hlength
      omega
  | cons snap snaps =>
      rw [hrest] at hdrop
      have hmem : snap.slot ∈ right := by simp [← hdrop]
      exact slot_ne_fresh snap (hright _ hmem) rfl

/-- The users of the query who joined are the only ones there are to show. -/
theorem ShowsLeaders.enough {users delivered : List DataSnapshot}
    (hlisted : ∀ snap ∈ delivered, Listed snap.value) {shown : DashboardViewController}
    (hshown : usersObserved delivered freshDashboard = .ok shown)
    (hleaders : ShowsLeaders users shown) :
    min 5 (users.countP DataSnapshot.joined) ≤
      delivered.countP DataSnapshot.joined := by
  obtain ⟨shown', hshown', hslots⟩ := usersObserved_listed hlisted freshDashboard
  obtain rfl := Except.ok.inj (hshown.symm.trans hshown')
  obtain ⟨leaders, htop, heq⟩ := hleaders
  rw [overlay_fresh] at hslots
  have hfewer := length_le_of_slots (fun slot => List.mem_of_mem_drop)
    (heq.symm.trans hslots)
  rw [htop.length, ← List.countP_eq_length_filter, List.length_take,
    ← List.countP_eq_length_filter, List.countP_reverse] at hfewer
  omega

/-- **The dashboard shows the leaders exactly when enough of them are among the
15 users of the query**: as many as the five slots hold, or all who joined when
they are fewer. -/
theorem leaders_shown_iff {users delivered : List DataSnapshot}
    (hlisted : ∀ snap ∈ users, Listed snap.value) (hquery : Delivers users delivered) :
    (∃ shown, usersObserved delivered freshDashboard = .ok shown ∧
        ShowsLeaders users shown) ↔
      min 5 (users.countP DataSnapshot.joined) ≤
        delivered.countP DataSnapshot.joined := by
  have hdelivered : ∀ snap ∈ delivered, Listed snap.value := by
    intro snap hmem
    exact hlisted snap (hquery.mem (List.mem_reverse.mpr hmem))
  constructor
  · rintro ⟨shown, hshown, hleaders⟩
    exact hleaders.enough hdelivered hshown
  · intro henough
    obtain ⟨shown, hshown, hslots⟩ := usersObserved_listed hdelivered freshDashboard
    rw [overlay_fresh] at hslots
    refine ⟨shown, hshown, _, hquery.filter_take ?_, hslots⟩
    rw [List.countP_reverse]
    exact henough

/-- A user with leaves who joined the leaderboard or opted out. -/
def player (uid displayName : String) (joined : Bool) (leaves : Int) : DataSnapshot where
  key := uid
  value :=
    ((newRecord displayName).set ["leaderboard"] (Tree.leaf (.bool joined))).set
      ["allTimeLeaves"] (Tree.leaf (.int leaves))

theorem player_listed (uid displayName : String) (joined : Bool) (leaves : Int) :
    Listed (player uid displayName joined leaves).value := by
  constructor <;>
    simp [player, newRecord, Tree.child_setChild, Tree.set_cons, asInt, asString]

/-- Two users who joined, and between them one who opted out. -/
theorem leaders_shown_three :
    ∃ shown,
      usersObserved
        [player "cy" "Cy" true 10, player "bob" "Bob" false 20, player "ann" "Ann" true 30]
        freshDashboard = .ok shown ∧
      ShowsLeaders
        [player "ann" "Ann" true 30, player "bob" "Bob" false 20, player "cy" "Cy" true 10]
        shown := by
  refine (leaders_shown_iff ?_ ?_).mpr (by decide +kernel)
  · simp [player_listed]
  · exact ⟨rfl, by decide +kernel, [], by simp, by simp⟩

/-- 15 users who opted out. -/
def optedOut : List DataSnapshot :=
  (List.range 15).map fun i => player (indexKey i) "Bob" false (100 + i)

/-- Ann joined, but 15 users who opted out have more leaves: she is not shown. -/
theorem not_leaders_shown :
    ¬ ∀ users delivered : List DataSnapshot,
        (∀ snap ∈ users, Listed snap.value) → Delivers users delivered →
        ∃ shown, usersObserved delivered freshDashboard = .ok shown ∧
          ShowsLeaders users shown := by
  intro hall
  have hlisted : ∀ snap ∈ optedOut, Listed snap.value := by
    simp [optedOut, player_listed]
  have hquery : Delivers (player "ann" "Ann" true 10 :: optedOut) optedOut := by
    refine ⟨rfl, by decide +kernel, [player "ann" "Ann" true 10], ?_, by decide +kernel⟩
    exact (List.perm_append_comm).trans ((List.reverse_perm optedOut).cons _)
  obtain ⟨shown, hshown, hleaders⟩ := hall _ _
    (List.forall_mem_cons.mpr ⟨player_listed "ann" "Ann" true 10, hlisted⟩) hquery
  have henough := hleaders.enough hlisted hshown
  revert henough
  decide +kernel

end WillItRecycle

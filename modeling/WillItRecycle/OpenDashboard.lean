import WillItRecycle.Dashboard
import WillItRecycle.EventRun

/-!
# A dashboard that stays open

An open dashboard gets a new delivery of its query whenever a user changes.  The
observer writes one slot for each user who joined and leaves the other slots as
they are, so a delivery with fewer of them leaves users of an earlier one on the
screen.

After each delivery the slots show its users and nobody else exactly when no
delivery has fewer users to show than the one before (`each_shown_iff`).
-/

namespace WillItRecycle

open PathTree

/-- A delivery to the open dashboard. -/
def observe (dashboard : DashboardViewController) (children : List DataSnapshot) :
    Except Trap DashboardViewController :=
  usersObserved children dashboard

/-- The slots show what the delivery alone would show: users of the delivery who
joined, none twice. -/
structure ShowsOnly (children : List DataSnapshot) (shown : DashboardViewController) :
    Prop where
  alone : ∃ alone, usersObserved children freshDashboard = .ok alone ∧
    shown.slots = alone.slots
  users : ∃ users : List DataSnapshot, (users.map DataSnapshot.key).Nodup ∧
    (∀ user ∈ users, user ∈ children ∧ user.joined) ∧
    shown.slots = users.map DataSnapshot.slot ++ freshDashboard.slots.drop users.length

/-- How many slots a delivery writes. -/
def slotsWritten (children : List DataSnapshot) : Nat :=
  min 5 (children.countP DataSnapshot.joined)

theorem showLeader_ok {snap : DataSnapshot} {index : Nat}
    {before after : DashboardViewController}
    (hshow : showLeader index snap.value before = .ok after)
    (dashboard : DashboardViewController) :
    showLeader index snap.value dashboard = .ok (dashboard.setLeader index snap.slot) := by
  by_cases hindex : index < 5
  · cases hleaves : asInt (snap.value.child "allTimeLeaves") with
    | none => simp [showLeader, hindex, hleaves, bind, Except.bind] at hshow
    | some leaves =>
        simp [showLeader, hindex, hleaves, DataSnapshot.slot,
          DataSnapshot.allTimeLeaves, bind, Except.bind]
  · obtain ⟨k, rfl⟩ : ∃ k, index = k + 5 := ⟨index - 5, by omega⟩
    simp [showLeader, DashboardViewController.setLeader]

/-- The loop gives the users who joined the next slots, on every dashboard, when it
does so without a trap on one. -/
theorem leaderLoop_ok {snaps : List DataSnapshot} {index : Nat}
    {before after : DashboardViewController}
    (hrun : leaderLoop snaps index before = .ok after)
    (dashboard : DashboardViewController) :
    leaderLoop snaps index dashboard =
      .ok (dashboard.setLeaders index
        ((snaps.filter DataSnapshot.joined).map DataSnapshot.slot)) := by
  induction snaps generalizing index before dashboard with
  | nil => rfl
  | cons snap snaps ih =>
      cases hdictionary : asDictionary snap.value with
      | none => simp [leaderLoop, hdictionary, bind, Except.bind] at hrun
      | some keys =>
          cases hleaderboard : asInt (snap.value.child "leaderboard") with
          | none =>
              simp [leaderLoop, hdictionary, hleaderboard, bind, Except.bind] at hrun
          | some leaderboard =>
              have hjoined : snap.joined = decide (leaderboard = 1) := by
                simp [DataSnapshot.joined, hleaderboard]
              simp only [leaderLoop, hdictionary, hleaderboard, force_some, bind,
                Except.bind] at hrun ⊢
              by_cases hone : leaderboard = 1
              · rw [if_pos hone] at hrun ⊢
                cases hshow : showLeader index snap.value before with
                | error trap => simp [hshow] at hrun
                | ok middle =>
                    rw [hshow] at hrun
                    rw [showLeader_ok hshow dashboard]
                    simp only [ih hrun, List.filter_cons, hjoined, hone, decide_true,
                      if_true, List.map_cons, DashboardViewController.setLeaders]
              · rw [if_neg hone] at hrun ⊢
                rw [ih hrun]
                simp [hjoined, hone]

/-- The users a delivery has for the slots. -/
def candidates (children : List DataSnapshot) : List DataSnapshot :=
  (children.reverse.filter DataSnapshot.joined).take 5

theorem length_candidates (children : List DataSnapshot) :
    (candidates children).length = slotsWritten children := by
  rw [candidates, List.length_take, ← List.countP_eq_length_filter, List.countP_reverse]
  rfl

/-- The slots of any dashboard after a delivery on which the app does not end. -/
theorem slots_observe {before after : DashboardViewController}
    {children : List DataSnapshot} (hrun : observe before children = .ok after)
    (dashboard : DashboardViewController) :
    ∃ shown, observe dashboard children = .ok shown ∧
      shown.slots = (candidates children).map DataSnapshot.slot ++
        dashboard.slots.drop (slotsWritten children) := by
  refine ⟨_, leaderLoop_ok hrun dashboard, ?_⟩
  rw [DashboardViewController.slots_setLeaders, overlay_zero,
    DashboardViewController.length_slots, candidates, List.map_take, List.length_map]
  congr 1
  have hcount : (children.reverse.filter DataSnapshot.joined).length =
      children.countP DataSnapshot.joined := by
    rw [← List.countP_eq_length_filter, List.countP_reverse]
  rw [hcount, slotsWritten]
  by_cases hfive : children.countP DataSnapshot.joined ≤ 5
  · rw [Nat.min_eq_right hfive]
  · have hlength := dashboard.length_slots
    rw [List.drop_of_length_le (by omega), List.drop_of_length_le (by omega)]

/-- Users in the first slots, the others as in the storyboard. -/
def ShowsUsers (users : List DataSnapshot) (dashboard : DashboardViewController) : Prop :=
  users.length ≤ 5 ∧
    dashboard.slots = users.map DataSnapshot.slot ++ freshDashboard.slots.drop users.length

theorem shownUsers_fresh : ShowsUsers [] freshDashboard := ⟨by simp, rfl⟩

/-- What a delivery writes, and what it leaves. -/
theorem ShowsUsers.slots_observe {users : List DataSnapshot}
    {dashboard shown : DashboardViewController} (h : ShowsUsers users dashboard)
    {children : List DataSnapshot} (hrun : observe dashboard children = .ok shown) :
    shown.slots = (candidates children ++ users.drop (slotsWritten children)).map
        DataSnapshot.slot ++
      freshDashboard.slots.drop (max (slotsWritten children) users.length) := by
  obtain ⟨shown', hrun', hslots⟩ := WillItRecycle.slots_observe hrun dashboard
  obtain rfl := Except.ok.inj (hrun.symm.trans hrun')
  have hrest : users.length + (slotsWritten children - users.length) =
      max (slotsWritten children) users.length := by
    omega
  rw [hslots, h.2, List.drop_append, List.length_map, List.drop_drop, hrest,
    List.map_append, List.map_drop, List.append_assoc]

/-- A delivery shows its users and nobody else exactly when it writes every slot
that shows a user. -/
theorem ShowsUsers.showsOnly_iff {users : List DataSnapshot}
    {dashboard shown : DashboardViewController} (h : ShowsUsers users dashboard)
    {children : List DataSnapshot} (hdistinct : (children.map DataSnapshot.key).Nodup)
    (hrun : observe dashboard children = .ok shown) :
    ShowsOnly children shown ↔ users.length ≤ slotsWritten children := by
  have hslots := h.slots_observe hrun
  have hcandidates := length_candidates children
  constructor
  · intro hshows
    obtain ⟨others, hnodup, hothers, heq⟩ := hshows.users
    have hmore := length_le_of_slots (fun slot => List.mem_of_mem_drop)
      (hslots.symm.trans heq)
    have hsub : others ⊆ children.filter DataSnapshot.joined := by
      intro user huser
      exact List.mem_filter.mpr (hothers user huser)
    have hcount := (List.subperm_of_subset (List.Nodup.of_map _ hnodup) hsub).length_le
    have hfive := congrArg List.length heq
    rw [← List.countP_eq_length_filter] at hcount
    rw [List.length_append, List.length_map, DashboardViewController.length_slots] at hfive
    rw [List.length_append, List.length_drop, hcandidates] at hmore
    unfold slotsWritten at hmore ⊢
    omega
  · intro hle
    have hnone : users.drop (slotsWritten children) = [] := List.drop_of_length_le hle
    rw [hnone, List.append_nil, Nat.max_eq_left hle] at hslots
    obtain ⟨alone, halone, hfresh⟩ := WillItRecycle.slots_observe hrun freshDashboard
    refine ⟨⟨alone, halone, hslots.trans hfresh.symm⟩, candidates children, ?_, ?_, ?_⟩
    · have hsub : (candidates children).Sublist children.reverse :=
        (List.take_sublist _ _).trans List.filter_sublist
      have hreversed : (children.reverse.map DataSnapshot.key).Nodup := by
        rw [List.map_reverse, List.nodup_reverse]
        exact hdistinct
      exact hreversed.sublist (hsub.map DataSnapshot.key)
    · intro user huser
      have hfound := List.mem_filter.mp (List.mem_of_mem_take huser)
      exact ⟨List.mem_reverse.mp hfound.1, hfound.2⟩
    · rw [hcandidates]
      exact hslots

/-- After a delivery that showed its users and nobody else, the slots hold these. -/
theorem ShowsUsers.next {users : List DataSnapshot}
    {dashboard shown : DashboardViewController} (h : ShowsUsers users dashboard)
    {children : List DataSnapshot} (hrun : observe dashboard children = .ok shown)
    (hle : users.length ≤ slotsWritten children) :
    ShowsUsers (candidates children) shown := by
  have hcandidates := length_candidates children
  have hslots := h.slots_observe hrun
  rw [List.drop_of_length_le hle, List.append_nil, Nat.max_eq_left hle] at hslots
  refine ⟨?_, ?_⟩
  · rw [hcandidates]
    exact Nat.min_le_left _ _
  · rw [hcandidates]
    exact hslots

/-- The same from any number of users in the first slots on. -/
theorem ShowsUsers.along_iff {snapshots : List (List DataSnapshot)}
    (hdistinct : ∀ children ∈ snapshots, (children.map DataSnapshot.key).Nodup)
    {users : List DataSnapshot} {dashboard final : DashboardViewController}
    (h : ShowsUsers users dashboard)
    (hrun : EventRun.run observe dashboard snapshots = .ok final) :
    EventRun.Along observe
        (fun dashboard children =>
          ∀ shown, observe dashboard children = .ok shown → ShowsOnly children shown)
        dashboard snapshots ↔
      (users.length :: snapshots.map slotsWritten).IsChain (· ≤ ·) := by
  induction snapshots generalizing users dashboard with
  | nil => exact iff_of_true trivial (List.isChain_singleton _)
  | cons children snapshots ih =>
      obtain ⟨hchildren, hrest⟩ := List.forall_mem_cons.mp hdistinct
      cases hstep : observe dashboard children with
      | error trap => simp [EventRun.run, hstep, Except.bind] at hrun
      | ok shown =>
          rw [EventRun.run_cons_of_step observe hstep] at hrun
          have hfirst := h.showsOnly_iff hchildren hstep
          simp only [EventRun.Along, hstep, Except.ok.injEq, forall_eq', hfirst,
            List.map_cons, List.isChain_cons_cons]
          refine and_congr_right fun hle => ?_
          rw [ih hrest (h.next hstep hle) hrun, length_candidates]

/-- **An open dashboard shows the users of its latest delivery and nobody else**,
after each delivery, exactly when no delivery writes fewer slots than the one
before. -/
theorem each_shown_iff {snapshots : List (List DataSnapshot)}
    (hdistinct : ∀ children ∈ snapshots, (children.map DataSnapshot.key).Nodup)
    {final : DashboardViewController}
    (hrun : EventRun.run observe freshDashboard snapshots = .ok final) :
    EventRun.Along observe
        (fun dashboard children =>
          ∀ shown, observe dashboard children = .ok shown → ShowsOnly children shown)
        freshDashboard snapshots ↔
      (snapshots.map slotsWritten).IsChain (· ≤ ·) := by
  rw [shownUsers_fresh.along_iff hdistinct hrun]
  cases snapshots with
  | nil => simp
  | cons children snapshots => simp

/-- Ann joined alone, then Bob joined too. -/
theorem each_shown_two :
    EventRun.Along observe
      (fun dashboard children =>
        ∀ shown, observe dashboard children = .ok shown → ShowsOnly children shown)
      freshDashboard
      [[player "bob" "Bob" false 10, player "ann" "Ann" true 30],
        [player "bob" "Bob" true 10, player "ann" "Ann" true 30]] := by
  have hrun : ∃ final, EventRun.run observe freshDashboard
      [[player "bob" "Bob" false 10, player "ann" "Ann" true 30],
        [player "bob" "Bob" true 10, player "ann" "Ann" true 30]] = .ok final ∧ True :=
    EventRun.exists_run_of_check observe (by decide +kernel)
  obtain ⟨final, hfinal, -⟩ := hrun
  exact (each_shown_iff (by decide +kernel) hfinal).mpr (by decide +kernel)

/-- Bob opts out, and the second slot still shows him. -/
theorem not_each_shown :
    ¬ ∀ (snapshots : List (List DataSnapshot)) (final : DashboardViewController),
        (∀ children ∈ snapshots, (children.map DataSnapshot.key).Nodup) →
        EventRun.run observe freshDashboard snapshots = .ok final →
        EventRun.Along observe
          (fun dashboard children =>
            ∀ shown, observe dashboard children = .ok shown → ShowsOnly children shown)
          freshDashboard snapshots := by
  intro hall
  have hrun : ∃ final, EventRun.run observe freshDashboard
      [[player "bob" "Bob" true 10, player "ann" "Ann" true 30],
        [player "bob" "Bob" false 10, player "ann" "Ann" true 30]] = .ok final ∧ True :=
    EventRun.exists_run_of_check observe (by decide +kernel)
  obtain ⟨final, hfinal, -⟩ := hrun
  have halong := hall _ final (by decide +kernel) hfinal
  rw [shownUsers_fresh.along_iff (by decide +kernel) hfinal] at halong
  revert halong
  decide +kernel

end WillItRecycle

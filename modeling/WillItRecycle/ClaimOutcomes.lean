import WillItRecycle.LeavesLedger
import WillItRecycle.OneRewardPerDay
import WillItRecycle.ReadOutcomes

/-!
# One claim and the outcomes of its reads

A tap on CLAIM TODAY'S REWARDS reads the date; its callback writes the new date
and only then reads the two counters, each of which is increased by a callback
of its own.  The date stays written whatever becomes of the counters: their reads can
fail, and a sum that leaves the range of `Int` ends the app.

* `claim_whole_iff` -- a claim is all or nothing exactly when the date cannot
  be read, or both counters are stored, the reward fits on top of each of them and
  neither of their reads fails (or there is nothing to add).
-/

namespace WillItRecycle

open PathTree ReadCallback

/-- From `remote` to `remote'` the day was consumed and both counters were
increased by `reward`; nothing else was touched. -/
structure RewardedWhole (uid : Uid) (result : String) (reward : Int) (remote remote' : Remote) :
    Prop where
  accounts : ∀ other, other ≠ uid → remote' other = remote other
  date : dateNode uid remote' = visitedNode result
  currentLeaves : ∃ leaves, asInt ((remote uid).child "currentLeaves") = some leaves ∧
    asInt ((remote' uid).child "currentLeaves") = some (leaves + reward)
  allTimeLeaves : ∃ leaves, asInt ((remote uid).child "allTimeLeaves") = some leaves ∧
    asInt ((remote' uid).child "allTimeLeaves") = some (leaves + reward)
  other : ∀ field, field ≠ "lastVisitedDate" → field ≠ "currentLeaves" →
    field ≠ "allTimeLeaves" → (remote' uid).child field = (remote uid).child field

/-- The claim was granted as a whole, or the record is as it was. -/
def WholeClaim (uid : Uid) (result : String) (reward : Int) (remote remote' : Remote) : Prop :=
  remote' = remote ∨ RewardedWhole uid result reward remote remote'

/-- The read of the date failed. -/
def dateUnread : List (Read × Snapshot) → Bool
  | (.claimDate .., .error) :: _ => true
  | _ => false

/-- A counter is stored as a 64-bit integer, or not at all. -/
def IsCounter64 (node : FNode) : Prop :=
  node = Tree.empty ∨ ∃ leaves, asInt node = some leaves ∧ FitsInt leaves

theorem IsCounter64.isCounter {node : FNode} (h : IsCounter64 node) : IsCounter node :=
  h.imp_right fun ⟨leaves, hleaves, _⟩ => ⟨leaves, hleaves⟩

/-- A counter is stored, and the reward fits on top of it. -/
def TakesReward (reward : Int) (node : FNode) : Prop :=
  ∃ leaves ∈ asInt node, FitsInt (leaves + reward)

instance (reward : Int) (node : FNode) : Decidable (TakesReward reward node) :=
  inferInstanceAs (Decidable (∃ leaves ∈ asInt node, FitsInt (leaves + reward)))

/-- The date could not be read, or both counters take the reward and each was read
unless there is nothing to add. -/
def ClaimInTurn (reward : Int) (current allTime : FNode) (calls : List (Read × Snapshot)) :
    Prop :=
  dateUnread calls = true ∨
    TakesReward reward current ∧ TakesReward reward allTime ∧
      (reward = 0 ∨ ∀ call ∈ calls, call.2 ≠ .error)

instance (reward : Int) (current allTime : FNode) (calls : List (Read × Snapshot)) :
    Decidable (ClaimInTurn reward current allTime calls) :=
  inferInstanceAs (Decidable (dateUnread calls = true ∨
    TakesReward reward current ∧ TakesReward reward allTime ∧
      (reward = 0 ∨ ∀ call ∈ calls, call.2 ≠ .error)))

/-- Once the date was read, the counters decide. -/
theorem claimInTurn_read {reward : Int} {current allTime : FNode} {uid : Uid} {result : String}
    {node : FNode} {order : List String} {calls : List (Read × Snapshot)} :
    ClaimInTurn reward current allTime ((.claimDate uid result, .value node order) :: calls) ↔
      TakesReward reward current ∧ TakesReward reward allTime ∧
        (reward = 0 ∨ ∀ call ∈ calls, call.2 ≠ .error) := by
  unfold ClaimInTurn
  rw [List.forall_mem_cons]
  simp [dateUnread]

/-! ## The callbacks of the counters -/

/-- What the callback on a counter writes, given how its read turned out. -/
def counterWrites (uid : Uid) (counter : String) (reward : Int) (node : FNode) :
    Reply → List Write
  | .error => []
  | .value _ =>
      (asInt node).elim [] fun leaves =>
        [setValue uid [counter] (Tree.leaf (.int (leaves + reward)))]

/-- The sum of a callback that got the counter fits. -/
def CounterFits (reward : Int) (node : FNode) : Reply → Prop
  | .error => True
  | .value _ => ∀ leaves ∈ asInt node, FitsInt (leaves + reward)

instance (reward : Int) (node : FNode) : DecidablePred (CounterFits reward node) := fun reply =>
  match reply with
  | .error => isTrue trivial
  | .value _ =>
      inferInstanceAs (Decidable (∀ leaves ∈ asInt node, FitsInt (leaves + reward)))

/-- A callback whose sum does not fit belongs to a counter that does not take the
reward. -/
theorem not_takesReward {reward : Int} {node : FNode} {reply : Reply}
    (h : ¬ CounterFits reward node reply) : ¬ TakesReward reward node := by
  cases reply with
  | error => exact absurd trivial h
  | value order =>
      intro htakes
      obtain ⟨leaves, hleaves, hfits⟩ := htakes
      apply h
      intro leaves' hleaves'
      obtain rfl : leaves = leaves' := Option.mem_unique hleaves hleaves'
      exact hfits

/-- A callback that does not trap and adds the reward, if there is one, finds a counter
that takes it. -/
theorem takesReward_iff {reward : Int} {node : FNode} (hnode : IsCounter64 node)
    {reply : Reply} (hfits : CounterFits reward node reply)
    (hadds : reward = 0 ∨ reply.Succeeds) :
    TakesReward reward node ↔ (asInt node).isSome := by
  constructor
  · intro htakes
    obtain ⟨leaves, hleaves, _⟩ := htakes
    exact Option.isSome_of_mem hleaves
  · intro hsome
    obtain ⟨leaves, hleaves⟩ := Option.isSome_iff_exists.mp hsome
    refine ⟨leaves, hleaves, ?_⟩
    rcases hadds with rfl | hsucceeds
    · rcases hnode with hempty | ⟨leaves', hleaves', hfits'⟩
      · rw [hempty] at hleaves
        cases hleaves
      · obtain rfl : leaves = leaves' := Option.some.inj (hleaves.symm.trans hleaves')
        rwa [Int.add_zero]
    · cases reply with
      | error => exact hsucceeds.elim
      | value order => exact hfits leaves hleaves

theorem addToCounter_reply {remote : Remote} {uid : Uid} {counter : String}
    (hcounter : IsCounter ((remote uid).child counter)) (reward : Int) (reply : Reply)
    {read : Read} (huid : read.uid = uid) (hpath : read.path = [counter]) (app : App) :
    addToCounter uid counter reward (read.answer reply remote) app =
      if CounterFits reward ((remote uid).child counter) reply then
        .ok ⟨app, counterWrites uid counter reward ((remote uid).child counter) reply, []⟩
      else .error .overflow := by
  cases reply with
  | error => rfl
  | value order =>
      rw [answer_value, huid, hpath, Tree.get_cons, Tree.get_nil]
      rcases hcounter with hempty | ⟨leaves, hleaves⟩
      · rw [hempty]
        rfl
      · rw [addToCounter_int hleaves, counterWrites, hleaves, Option.elim_some]
        simp [CounterFits, hleaves]

/-- What the callback on a counter leaves of it. -/
def counterAfter (reward : Int) (node : FNode) : Reply → FNode
  | .error => node
  | .value _ => (asInt node).elim node fun leaves => Tree.leaf (.int (leaves + reward))

theorem child_counterWrites {uid : Uid} {counter : String} (hcounter : counter ≠ "")
    {remote : Remote} {node : FNode} (hnode : (remote uid).child counter = node) (reward : Int)
    (reply : Reply) :
    (client.applyAll (counterWrites uid counter reward node reply) remote uid).child counter =
      counterAfter reward node reply := by
  cases reply with
  | error => exact hnode
  | value order =>
      unfold counterWrites counterAfter
      cases hleaves : asInt node with
      | none => exact hnode
      | some leaves => exact child_setCounter uid hcounter _ remote

theorem mem_counterWrites {uid : Uid} {counter : String} {reward : Int} {node : FNode}
    {reply : Reply} {write : Write}
    (h : write ∈ counterWrites uid counter reward node reply) :
    write.uid = uid ∧ write.path = fpath [counter] := by
  cases reply with
  | error => cases h
  | value order =>
      unfold counterWrites at h
      cases hleaves : asInt node with
      | none =>
          rw [hleaves] at h
          cases h
      | some leaves =>
          rw [hleaves] at h
          rw [List.mem_singleton.mp h]
          exact ⟨rfl, rfl⟩

theorem asInt_counterAfter_iff (reward : Int) (node : FNode) (reply : Reply) :
    (∃ leaves, asInt node = some leaves ∧
      asInt (counterAfter reward node reply) = some (leaves + reward)) ↔
    (asInt node).isSome ∧ (reward = 0 ∨ reply.Succeeds) := by
  cases hleaves : asInt node with
  | none => simp
  | some leaves =>
      cases reply with
      | error =>
          simp only [counterAfter, hleaves, Option.some.injEq, exists_eq_left', Reply.Succeeds,
            Option.isSome_some, or_false, true_and]
          omega
      | value order => simp [counterAfter, hleaves, Reply.Succeeds]

/-- Two branches of a record, one of them a counter. -/
theorem keepsTo_counter {counter : String} (hcounter : counter ≠ "") {uid : Uid}
    {reward : Int} {node : FNode} {reply : Reply} :
    ∀ write ∈ counterWrites uid counter reward node reply,
      ∃ path, write.path = counter :: path := by
  intro write hwrite
  refine ⟨[], ?_⟩
  rw [(mem_counterWrites hwrite).2]
  simp [fpath, hcounter]

/-- Two callbacks on different counters, one after the other. -/
theorem counters_after {first second : String} (hne : first ≠ second) (hfirst : first ≠ "")
    (hsecond : second ≠ "") (uid : Uid) (reward : Int) (remote : Remote) (i j : Reply) :
    let remote' := client.applyAll
      (counterWrites uid second reward ((remote uid).child second) j)
      (client.applyAll (counterWrites uid first reward ((remote uid).child first) i) remote)
    (∀ other, other ≠ uid → remote' other = remote other) ∧
    (remote' uid).child first = counterAfter reward ((remote uid).child first) i ∧
    (remote' uid).child second = counterAfter reward ((remote uid).child second) j ∧
    ∀ field, field ≠ first → field ≠ second →
      (remote' uid).child field = (remote uid).child field := by
  intro remote'
  have hbelow : ∀ {counter : String} (node : FNode) (reply : Reply) (r : Remote)
      (field : String), counter ≠ "" → field ≠ counter →
      (client.applyAll (counterWrites uid counter reward node reply) r uid).child field =
        (r uid).child field := by
    intro counter node reply r field hcounter hfield
    apply child_applyAll_of_ne
    intro write hwrite
    obtain ⟨path, hpath⟩ := keepsTo_counter hcounter write hwrite
    exact ⟨counter, path, hpath, hfield⟩
  refine ⟨?_, ?_, ?_, ?_⟩
  · intro other hother
    have helsewhere : ∀ {counter : String} {node : FNode} {reply : Reply},
        ∀ write ∈ counterWrites uid counter reward node reply, write.uid ≠ other := by
      intro counter node reply write hwrite
      rw [(mem_counterWrites hwrite).1]
      exact hother.symm
    change client.applyAll _ _ other = _
    rw [applyAll_other helsewhere, applyAll_other helsewhere]
  · rw [hbelow _ _ _ _ hsecond hne]
    exact child_counterWrites hfirst rfl reward i
  · exact child_counterWrites hsecond (hbelow _ _ _ _ hfirst hne.symm) reward j
  · intro field hf hs
    rw [hbelow _ _ _ _ hsecond hs, hbelow _ _ _ _ hfirst hf]

/-! ## The outcome -/

/-- The records after the date was written and both callbacks have run. -/
structure ClaimOutcome (uid : Uid) (result : String) (reward : Int) (remote : Remote)
    (i j : Reply) (remote' : Remote) : Prop where
  accounts : ∀ other, other ≠ uid → remote' other = remote other
  date : dateNode uid remote' = visitedNode result
  currentLeaves : (remote' uid).child "currentLeaves" =
    counterAfter reward ((remote uid).child "currentLeaves") i
  allTimeLeaves : (remote' uid).child "allTimeLeaves" =
    counterAfter reward ((remote uid).child "allTimeLeaves") j
  other : ∀ field, field ≠ "lastVisitedDate" → field ≠ "currentLeaves" →
    field ≠ "allTimeLeaves" → (remote' uid).child field = (remote uid).child field

/-- The records right after the date was written. -/
def visit (uid : Uid) (result : String) (remote : Remote) : Remote :=
  client.applyAll [setValue uid ["lastVisitedDate"] (visitedNode result)] remote

section Outcome

variable {uid : Uid} {result : String} {reward : Int} {remote remote' : Remote} {i j : Reply}

theorem ClaimOutcome.whole_iff (h : ClaimOutcome uid result reward remote i j remote')
    (hdate : dateNode uid remote ≠ visitedNode result) :
    WholeClaim uid result reward remote remote' ↔
      (asInt ((remote uid).child "currentLeaves")).isSome ∧
        (asInt ((remote uid).child "allTimeLeaves")).isSome ∧
        (reward = 0 ∨ i.Succeeds ∧ j.Succeeds) := by
  have hcurrent := asInt_counterAfter_iff reward ((remote uid).child "currentLeaves") i
  have hallTime := asInt_counterAfter_iff reward ((remote uid).child "allTimeLeaves") j
  rw [← h.currentLeaves] at hcurrent
  rw [← h.allTimeLeaves] at hallTime
  constructor
  · intro hwhole
    rcases hwhole with rfl | hrewarded
    · exact absurd h.date hdate
    · obtain ⟨hleft, hleftRead⟩ := hcurrent.mp hrewarded.currentLeaves
      obtain ⟨hright, hrightRead⟩ := hallTime.mp hrewarded.allTimeLeaves
      refine ⟨hleft, hright, ?_⟩
      rcases hleftRead with hzero | hi
      · exact Or.inl hzero
      · rcases hrightRead with hzero | hj
        · exact Or.inl hzero
        · exact Or.inr ⟨hi, hj⟩
  · intro hcondition
    obtain ⟨hleft, hright, hreads⟩ := hcondition
    have hi : reward = 0 ∨ i.Succeeds := hreads.imp_right And.left
    have hj : reward = 0 ∨ j.Succeeds := hreads.imp_right And.right
    exact Or.inr ⟨h.accounts, h.date, hcurrent.mpr ⟨hleft, hi⟩, hallTime.mpr ⟨hright, hj⟩,
      h.other⟩

/-- When no sum overflows, the counters that take the reward decide. -/
theorem ClaimOutcome.takes_iff (h : ClaimOutcome uid result reward remote i j remote')
    (hdate : dateNode uid remote ≠ visitedNode result)
    (hcurrent : IsCounter64 ((remote uid).child "currentLeaves"))
    (hallTime : IsCounter64 ((remote uid).child "allTimeLeaves"))
    (hi : CounterFits reward ((remote uid).child "currentLeaves") i)
    (hj : CounterFits reward ((remote uid).child "allTimeLeaves") j) :
    WholeClaim uid result reward remote remote' ↔
      TakesReward reward ((remote uid).child "currentLeaves") ∧
        TakesReward reward ((remote uid).child "allTimeLeaves") ∧
        (reward = 0 ∨ i.Succeeds ∧ j.Succeeds) := by
  rw [h.whole_iff hdate, ← and_assoc, ← and_assoc]
  apply and_congr_left
  intro hreads
  rw [takesReward_iff hcurrent hi (hreads.imp_right And.left),
    takesReward_iff hallTime hj (hreads.imp_right And.right)]

theorem visit_child {field : String} (hfield : field ≠ "lastVisitedDate") :
    (visit uid result remote uid).child field = (remote uid).child field :=
  child_setCounter_ne uid (by decide) hfield _ remote

theorem visit_accounts {other : Uid} (hother : other ≠ uid) :
    visit uid result remote other = remote other := by
  apply applyAll_other
  intro write hwrite
  rw [List.mem_singleton.mp hwrite]
  exact hother.symm

/-- What the callbacks leave after the date was written. -/
theorem claimOutcome_of_visit
    (haccounts : ∀ other, other ≠ uid → remote' other = visit uid result remote other)
    (hcurrent : (remote' uid).child "currentLeaves" =
      counterAfter reward ((visit uid result remote uid).child "currentLeaves") i)
    (hallTime : (remote' uid).child "allTimeLeaves" =
      counterAfter reward ((visit uid result remote uid).child "allTimeLeaves") j)
    (hother : ∀ field, field ≠ "currentLeaves" → field ≠ "allTimeLeaves" →
      (remote' uid).child field = (visit uid result remote uid).child field) :
    ClaimOutcome uid result reward remote i j remote' := by
  refine ⟨?_, ?_, ?_, ?_, ?_⟩
  · intro other h
    rw [haccounts other h, visit_accounts h]
  · exact (hother "lastVisitedDate" (by decide) (by decide)).trans
      (dateNode_visited uid result remote)
  · rw [hcurrent, visit_child (by decide)]
  · rw [hallTime, visit_child (by decide)]
  · intro field hdate hc ha
    rw [hother field hc ha, visit_child hdate]

/-- The two orders in which the counters can be written after the date. -/
theorem claimOutcome_inOrder :
    ClaimOutcome uid result reward remote i j
      (client.applyAll
        (counterWrites uid "allTimeLeaves" reward
          ((visit uid result remote uid).child "allTimeLeaves") j)
        (client.applyAll
          (counterWrites uid "currentLeaves" reward
            ((visit uid result remote uid).child "currentLeaves") i)
          (visit uid result remote))) := by
  have hne : "currentLeaves" ≠ "allTimeLeaves" := by decide
  obtain ⟨haccounts, hcurrent, hallTime, hother⟩ := counters_after hne (by decide) (by decide)
    uid reward (visit uid result remote) i j
  exact claimOutcome_of_visit haccounts hcurrent hallTime hother

theorem claimOutcome_reversed :
    ClaimOutcome uid result reward remote i j
      (client.applyAll
        (counterWrites uid "currentLeaves" reward
          ((visit uid result remote uid).child "currentLeaves") i)
        (client.applyAll
          (counterWrites uid "allTimeLeaves" reward
            ((visit uid result remote uid).child "allTimeLeaves") j)
          (visit uid result remote))) := by
  have hne : "allTimeLeaves" ≠ "currentLeaves" := by decide
  obtain ⟨haccounts, hallTime, hcurrent, hother⟩ := counters_after hne (by decide) (by decide)
    uid reward (visit uid result remote) j i
  exact claimOutcome_of_visit haccounts hcurrent hallTime
    (fun field hc ha => hother field ha hc)

end Outcome

/-! ## The run -/

section Run

variable {uid : Uid} {remote : Remote} {app : App} {result : String}

/-- The two reads of a reward do not interfere. -/
theorem calculate_apart (r : Remote) (uid : Uid) (total : Int) :
    client.Apart r [.calculateCurrent uid total, .calculateAllTime uid total] := by
  have hne : "currentLeaves" ≠ "allTimeLeaves" := by decide
  apply apart_of_fields hne ⟨[], rfl⟩ ⟨[], rfl⟩
  · intro reply l fx hfx
    obtain ⟨_, hreads, hwrites⟩ := addToCounter_cases hfx
    exact ⟨hreads, fun write hwrite => ⟨[], hwrites write hwrite⟩⟩
  · intro reply l fx hfx
    obtain ⟨_, hreads, hwrites⟩ := addToCounter_cases hfx
    exact ⟨hreads, fun write hwrite => ⟨[], hwrites write hwrite⟩⟩

/-- The callback on another date, or on none, consumes the day. -/
theorem claimDateRead_new (hdate : dateNode uid remote = Tree.empty ∨
      ∃ date, dateNode uid remote = visitedNode date ∧ date ≠ result)
    (order : List String) (app : App) :
    claimDateRead uid result (.value (dateNode uid remote) order) app =
      .ok ⟨app.present (GameViewController.successAlert (rewardTotal app.activeItems)),
        [setValue uid ["lastVisitedDate"] (visitedNode result)], calculate uid app⟩ := by
  rcases hdate with hempty | ⟨date, hdate, hne⟩
  · rw [hempty]
    rfl
  · rw [hdate]
    simp [claimDateRead, bind, Except.bind, hne, visitedNode]

theorem claim_step (huser : app.currentUser = some uid) (remote : Remote) (result : String) :
    client.step ⟨remote, app, []⟩ (.tap (.claim result)) =
      .ok ⟨remote, app, [⟨.claimDate uid result, none⟩]⟩ := by
  simp [Client.step, Client.perform, Tap.handle, claimOnClick, huser, bind, Except.bind,
    Except.map]

/-- The two reads of a reward answered with the counters of `remote`: both are written
unless a sum overflows. -/
theorem settle_counters {first second : String} {reward : Int}
    (hfirst : IsCounter ((remote uid).child first))
    (hsecond : IsCounter ((remote uid).child second)) {left right : Read}
    (hleft : left.uid = uid ∧ left.path = [first] ∧
      left.callback = addToCounter uid first reward)
    (hright : right.uid = uid ∧ right.path = [second] ∧
      right.callback = addToCounter uid second reward) (i j : Reply) (l : App) :
    client.settle [(left, client.answer left i remote), (right, client.answer right j remote)]
        remote l =
      if CounterFits reward ((remote uid).child first) i ∧
          CounterFits reward ((remote uid).child second) j then
        .ok (client.applyAll (counterWrites uid second reward ((remote uid).child second) j)
          (client.applyAll (counterWrites uid first reward ((remote uid).child first) i)
            remote), l)
      else .error .overflow := by
  have hrunLeft : client.callback left (client.answer left i remote) l =
      if CounterFits reward ((remote uid).child first) i then
        .ok ⟨l, counterWrites uid first reward ((remote uid).child first) i, []⟩
      else .error .overflow := by
    rw [client_callback, hleft.2.2]
    exact addToCounter_reply hfirst reward i hleft.1 hleft.2.1 l
  have hrunRight : client.callback right (client.answer right j remote) l =
      if CounterFits reward ((remote uid).child second) j then
        .ok ⟨l, counterWrites uid second reward ((remote uid).child second) j, []⟩
      else .error .overflow := by
    rw [client_callback, hright.2.2]
    exact addToCounter_reply hsecond reward j hright.1 hright.2.1 l
  by_cases hi : CounterFits reward ((remote uid).child first) i
  · rw [if_pos hi] at hrunLeft
    rw [client.settle_cons_ok hrunLeft]
    by_cases hj : CounterFits reward ((remote uid).child second) j
    · rw [if_pos hj] at hrunRight
      rw [client.settle_cons_ok hrunRight, client.settle_nil, if_pos ⟨hi, hj⟩]
    · rw [if_neg hj] at hrunRight
      rw [client.settle_cons_error hrunRight, if_neg (fun h => hj h.2)]
  · rw [if_neg hi] at hrunLeft
    rw [client.settle_cons_error hrunLeft, if_neg (fun h => hi h.1)]

/-- What remains of a claim once the date is written. -/
theorem calculate_whole_iff {reward : Int}
    (hdate : dateNode uid remote ≠ visitedNode result)
    (hcurrent : IsCounter64 ((remote uid).child "currentLeaves"))
    (hallTime : IsCounter64 ((remote uid).child "allTimeLeaves"))
    {l : App} {es : List AppEvent} (htaps : taps es = [])
    (hdone : client.Finishes ⟨visit uid result remote, l,
      [⟨.calculateCurrent uid reward, none⟩, ⟨.calculateAllTime uid reward, none⟩]⟩ es) :
    (∃ s', client.run ⟨visit uid result remote, l,
        [⟨.calculateCurrent uid reward, none⟩, ⟨.calculateAllTime uid reward, none⟩]⟩ es =
        .ok s' ∧ WholeClaim uid result reward remote s'.remote) ↔
      TakesReward reward ((remote uid).child "currentLeaves") ∧
        TakesReward reward ((remote uid).child "allTimeLeaves") ∧
        (reward = 0 ∨ ∀ call ∈ client.started ⟨visit uid result remote, l,
          [⟨.calculateCurrent uid reward, none⟩, ⟨.calculateAllTime uid reward, none⟩]⟩ es,
            call.2 ≠ .error) := by
  have hchild : ∀ field, field ≠ "lastVisitedDate" →
      (visit uid result remote uid).child field = (remote uid).child field :=
    fun _ hfield => visit_child hfield
  have hsameCurrent := hchild "currentLeaves" (by decide)
  have hsameAllTime := hchild "allTimeLeaves" (by decide)
  have hleft := hcurrent.isCounter
  have hright := hallTime.isCounter
  rw [← hsameCurrent] at hleft
  rw [← hsameAllTime] at hright
  have hcurrentTrap : ∀ i, ¬ CounterFits reward ((remote uid).child "currentLeaves") i →
      ¬ TakesReward reward ((remote uid).child "currentLeaves") := fun _ => not_takesReward
  have hallTimeTrap : ∀ j, ¬ CounterFits reward ((remote uid).child "allTimeLeaves") j →
      ¬ TakesReward reward ((remote uid).child "allTimeLeaves") := fun _ => not_takesReward
  rw [Client.exists_outcome_iff
    (P := fun remote' _ => WholeClaim uid result reward remote remote'),
    client.run_eq_settle htaps]
  rcases client.started_pair (calculate_apart _ uid reward) htaps hdone with
    ⟨i, j, hstarted⟩ | ⟨i, j, hstarted⟩ | ⟨i, err, hstarted, htrap⟩ | ⟨j, err, hstarted, htrap⟩
  · rw [hstarted, settle_counters hleft hright ⟨rfl, rfl, rfl⟩ ⟨rfl, rfl, rfl⟩, hsameCurrent,
      hsameAllTime]
    by_cases hfits : CounterFits reward ((remote uid).child "currentLeaves") i ∧
        CounterFits reward ((remote uid).child "allTimeLeaves") j
    · rw [if_pos hfits, Client.exists_ok_iff, ← hsameCurrent, ← hsameAllTime,
        claimOutcome_inOrder.takes_iff hdate hcurrent hallTime hfits.1 hfits.2, hsameCurrent,
        hsameAllTime]
      simp [answer_ne_error_iff]
    · rw [if_neg hfits]
      refine iff_of_false Client.not_exists_error ?_
      rintro ⟨hc, ha, _⟩
      rcases not_and_or.mp hfits with hi | hj
      · exact hcurrentTrap i hi hc
      · exact hallTimeTrap j hj ha
  · rw [hstarted, settle_counters hright hleft ⟨rfl, rfl, rfl⟩ ⟨rfl, rfl, rfl⟩, hsameCurrent,
      hsameAllTime]
    by_cases hfits : CounterFits reward ((remote uid).child "allTimeLeaves") j ∧
        CounterFits reward ((remote uid).child "currentLeaves") i
    · rw [if_pos hfits, Client.exists_ok_iff, ← hsameCurrent, ← hsameAllTime,
        claimOutcome_reversed.takes_iff hdate hcurrent hallTime hfits.2 hfits.1, hsameCurrent,
        hsameAllTime]
      simp [answer_ne_error_iff, and_comm]
    · rw [if_neg hfits]
      refine iff_of_false Client.not_exists_error ?_
      rintro ⟨hc, ha, _⟩
      rcases not_and_or.mp hfits with hj | hi
      · exact hallTimeTrap j hj ha
      · exact hcurrentTrap i hi hc
  · rw [hstarted, client.settle_cons_error htrap]
    refine iff_of_false Client.not_exists_error ?_
    rintro ⟨hc, _, _⟩
    apply hcurrentTrap i _ hc
    intro hfits
    have hrun := @addToCounter_reply _ _ _ hleft reward i (.calculateCurrent uid reward) rfl rfl l
    rw [hsameCurrent, if_pos hfits] at hrun
    cases hrun.symm.trans htrap
  · rw [hstarted, client.settle_cons_error htrap]
    refine iff_of_false Client.not_exists_error ?_
    rintro ⟨_, ha, _⟩
    apply hallTimeTrap j _ ha
    intro hfits
    have hrun := @addToCounter_reply _ _ _ hright reward j (.calculateAllTime uid reward) rfl rfl l
    rw [hsameAllTime, if_pos hfits] at hrun
    cases hrun.symm.trans htrap

end Run

/-- **A claim is all or nothing exactly when no read fails that matters.**  For
every record and a date other than the one stored, whatever the outcomes of the
three reads and the order of their callbacks. -/
theorem claim_whole_iff {uid : Uid} {remote : Remote} {app : App} {result : String}
    (huser : app.currentUser = some uid)
    (hdate : dateNode uid remote = Tree.empty ∨
      ∃ date, dateNode uid remote = visitedNode date ∧ date ≠ result)
    (hcurrent : IsCounter64 ((remote uid).child "currentLeaves"))
    (hallTime : IsCounter64 ((remote uid).child "allTimeLeaves"))
    {es : List AppEvent} (htaps : taps es = [])
    (hdone : client.Finishes ⟨remote, app, []⟩ (.tap (.claim result) :: es)) :
    (∃ s', client.run ⟨remote, app, []⟩ (.tap (.claim result) :: es) = .ok s' ∧
      WholeClaim uid result (rewardTotal app.activeItems) remote s'.remote) ↔
    ClaimInTurn (rewardTotal app.activeItems) ((remote uid).child "currentLeaves")
      ((remote uid).child "allTimeLeaves")
      (client.started ⟨remote, app, []⟩ (.tap (.claim result) :: es)) := by
  have hstep := claim_step huser remote result
  have hne : dateNode uid remote ≠ visitedNode result := by
    intro heq
    rcases hdate with hempty | ⟨date, hdate, hother⟩
    · rw [hempty] at heq
      exact absurd heq.symm (Tree.leaf_ne_empty _)
    · rw [hdate] at heq
      unfold visitedNode at heq
      rw [Tree.leaf_inj, Value.string.injEq] at heq
      exact hother heq
  have hdone' := hdone.of_step client hstep
  rw [client.run_cons_of_step hstep, client.started_tap hstep]
  have hgiven : ∀ a, (none : Option Snapshot) = some a →
      ∃ i, a = client.answer (.claimDate uid result) i remote := fun a h => by cases h
  rcases client.started_single htaps hgiven hdone' with
    ⟨i, err, htrap, _, _⟩ | ⟨i, fx, rest, hfx, hrest, hrun, hstarted⟩
  · cases i with
    | error => cases htrap
    | value order =>
        have hread := claimDateRead_new hdate order app
        change claimDateRead uid result (.value (dateNode uid remote) order) app = _ at htrap
        rw [hread] at htrap
        cases htrap
  · rw [hrun, hstarted]
    cases i with
    | error =>
        obtain rfl := Except.ok.inj hfx
        have hidle := client.run_idle hrest remote app
        constructor
        · intro _
          exact Or.inl rfl
        · intro _
          exact ⟨_, hidle.1, Or.inl rfl⟩
    | value order =>
        have hread := claimDateRead_new hdate order app
        change claimDateRead uid result (.value (dateNode uid remote) order) app = _ at hfx
        rw [hread] at hfx
        obtain rfl := Except.ok.inj hfx
        have hfinishes : client.Finishes ⟨visit uid result remote,
            app.present (GameViewController.successAlert (rewardTotal app.activeItems)),
            [⟨.calculateCurrent uid (rewardTotal app.activeItems), none⟩,
              ⟨.calculateAllTime uid (rewardTotal app.activeItems), none⟩]⟩ rest :=
          fun final hfinal => hdone' final (hrun.trans hfinal)
        exact (calculate_whole_iff hne hcurrent hallTime hrest hfinishes).trans
          claimInTurn_read.symm

/-- A claim on a land with one tree; the reads turn out as told. -/
def treeClaim (date current allTime : Reply) : List AppEvent :=
  [.answer 0 date, .serve 0, .answer 0 current, .answer 1 allTime, .serve 0, .serve 0]

theorem claim_whole_tree :
    ∃ s', client.run ⟨plantedTree, plantedTreeApp "ann" treeShelf, []⟩
        (.tap (.claim "today") :: treeClaim (.value []) (.value []) (.value [])) = .ok s' ∧
      WholeClaim "ann" "today" (rewardTotal (plantedTreeApp "ann" treeShelf).activeItems)
        plantedTree s'.remote :=
  (claim_whole_iff rfl (Or.inl (Tree.isEmpty_iff.mp (by decide +kernel)))
    (Or.inr ⟨0, by decide +kernel, by decide⟩) (Or.inr ⟨0, by decide +kernel, by decide⟩) rfl
    (client.finishes_of_check (by decide +kernel))).mpr (by decide +kernel)

/-- The read of `allTimeLeaves` fails: the day is consumed and only the wallet
has grown. -/
theorem not_claim_whole :
    ¬ ∀ (uid : Uid) (remote : Remote) (app : App) (result : String) (es : List AppEvent),
        app.currentUser = some uid →
        (dateNode uid remote = Tree.empty ∨
          ∃ date, dateNode uid remote = visitedNode date ∧ date ≠ result) →
        IsCounter64 ((remote uid).child "currentLeaves") →
        IsCounter64 ((remote uid).child "allTimeLeaves") → taps es = [] →
        client.Finishes ⟨remote, app, []⟩ (.tap (.claim result) :: es) →
        ∃ s', client.run ⟨remote, app, []⟩ (.tap (.claim result) :: es) = .ok s' ∧
          WholeClaim uid result (rewardTotal app.activeItems) remote s'.remote := by
  intro hclaim
  obtain ⟨s', hrun, hwhole⟩ := hclaim "ann" plantedTree (plantedTreeApp "ann" treeShelf) "today"
    (treeClaim (.value []) (.value []) .error) rfl
    (Or.inl (Tree.isEmpty_iff.mp (by decide +kernel)))
    (Or.inr ⟨0, by decide +kernel, by decide⟩) (Or.inr ⟨0, by decide +kernel, by decide⟩) rfl
    (client.finishes_of_check (by decide +kernel))
  obtain ⟨s'', hrun'', hcurrent, hallTime⟩ : ∃ s'', client.run
      ⟨plantedTree, plantedTreeApp "ann" treeShelf, []⟩
      (.tap (.claim "today") :: treeClaim (.value []) (.value []) .error) = .ok s'' ∧
      asInt ((s''.remote "ann").child "currentLeaves") = some 5 ∧
      asInt ((s''.remote "ann").child "allTimeLeaves") = some 0 :=
    client.exists_run_of_check (by decide +kernel)
  obtain rfl : s' = s'' := Except.ok.inj (hrun.symm.trans hrun'')
  have hbefore : asInt ((plantedTree "ann").child "currentLeaves") = some 0 ∧
      asInt ((plantedTree "ann").child "allTimeLeaves") = some 0 := by decide +kernel
  rcases hwhole with hsame | hrewarded
  · rw [hsame, hbefore.1] at hcurrent
    cases hcurrent
  · obtain ⟨leaves, hleaves, hafter⟩ := hrewarded.allTimeLeaves
    rw [hbefore.2, Option.some.injEq] at hleaves
    rw [hallTime, ← hleaves] at hafter
    revert hafter
    decide

end WillItRecycle

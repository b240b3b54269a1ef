import WillItRecycle.CounterRange

/-!
# One reward a day

A claim decides on the date it read whether to call `calculate`, and writes the
new date only then.  Two claims whose reads are both answered before either
callback runs see the old date twice, and the reward is paid twice.

`claims_reward_once_iff` makes this exact: among any number of claims made on
one date, at most one calls `calculate` if and only if every callback that
decides runs while the date stored is still the one it read.
-/

namespace WillItRecycle

open PathTree ReadCallback

abbrev AppEntry := Entry App Write Read Snapshot Tap

/-- The code run was the decision of a claim, and it called `calculate`. -/
def callsCalculate : AppEntry → Bool
  | .served (.claimDate _ _) _ fx => !fx.reads.isEmpty
  | _ => false

def Read.addsCurrent : Read → Bool
  | .calculateCurrent _ _ => true
  | _ => false

def Read.addsAllTime : Read → Bool
  | .calculateAllTime _ _ => true
  | _ => false

/-- The code run was a callback of the kind `adds` and it wrote its counter. -/
def addsReward (adds : Read → Bool) : AppEntry → Bool
  | .served read _ fx => adds read && !fx.writes.isEmpty
  | _ => false

/-- The decision of a claim runs while the stored date is the one it read. -/
def DecidesOnCurrent (read : Read) (snapshot : Snapshot) (remote : Remote) (_ : App) :
    Prop :=
  match read with
  | .claimDate _ _ => ∃ reply, snapshot = read.answer reply remote
  | _ => True

/-- The reads of `adds` are the ones `calculate` issues, one at each call. -/
structure RewardRead (adds : Read → Bool) : Prop where
  claim : ∀ uid result, adds (.claimDate uid result) = false
  calculate : ∀ uid app, (calculate uid app).countP adds = 1

theorem addsCurrent_rewardRead : RewardRead Read.addsCurrent :=
  ⟨fun _ _ => rfl, fun _ _ => rfl⟩

theorem addsAllTime_rewardRead : RewardRead Read.addsAllTime :=
  ⟨fun _ _ => rfl, fun _ _ => rfl⟩

/-! ## The callbacks -/

/-- The date stored for an account. -/
def dateNode (uid : Uid) (remote : Remote) : FNode :=
  (remote uid).get (fpath ["lastVisitedDate"])

def visitedNode (result : String) : FNode := Tree.leaf (.string result)

theorem eq_leaf_of_asString {node : FNode} {date : String}
    (h : asString node = some date) : node = visitedNode date := by
  obtain ⟨raw, hraw⟩ := node
  cases raw with
  | branch entries => cases h
  | leaf value =>
      cases value with
      | int n => cases h
      | bool b => cases h
      | string s =>
          have hs : s = date := Option.some.inj h
          rw [← hs]
          rfl

/-- A claim answered with a value decides on the current date when the value is the node
stored by then. -/
theorem decidesOnCurrent_value {uid : Uid} {result : String} {node : FNode}
    {order : List String} {remote : Remote} {app : App} :
    DecidesOnCurrent (.claimDate uid result) (.value node order) remote app ↔
      node = dateNode uid remote := by
  constructor
  · intro hdecides
    obtain ⟨reply, hreply⟩ := hdecides
    cases reply with
    | error => cases hreply
    | value order' => exact (Snapshot.value.inj hreply).1
  · intro heq
    exact ⟨.value order, by rw [heq]; rfl⟩

/-- The answer of a claim's read is absent as the stored date is, or shows the same text. -/
def readsStoredDate : Read → Snapshot → Remote → App → Bool
  | .claimDate uid _, .value node _, remote, _ =>
      let stored := dateNode uid remote
      (node.isEmpty && stored.isEmpty) ||
        ((asString node).isSome && asString node == asString stored)
  | .claimDate _ _, .error, _, _ => false
  | _, _, _, _ => true

/-- Nodes are compared by what they hold, which can be computed. -/
theorem decidesOnCurrent_of_reads {read : Read} {snapshot : Snapshot} {remote : Remote}
    {app : App} (h : readsStoredDate read snapshot remote app = true) :
    DecidesOnCurrent read snapshot remote app := by
  cases read with
  | claimDate uid result =>
      cases snapshot with
      | error => cases h
      | value node order =>
          rw [decidesOnCurrent_value]
          rw [readsStoredDate, Bool.or_eq_true, Bool.and_eq_true, Bool.and_eq_true] at h
          rcases h with ⟨hnode, hstored⟩ | ⟨htext, hsame⟩
          · rw [Tree.isEmpty_iff.mp hnode, Tree.isEmpty_iff.mp hstored]
          · rw [Option.isSome_iff_exists] at htext
            obtain ⟨date, hdate⟩ := htext
            have hstored : asString (dateNode uid remote) = some date := by
              rw [← beq_iff_eq.mp hsame, hdate]
            rw [eq_leaf_of_asString hdate, eq_leaf_of_asString hstored]
  | _ => trivial

/-- A claim calls `calculate` exactly when the date it read is another one. -/
theorem claimDateRead_cases {uid : Uid} {result : String} {node : FNode}
    {order : List String} {app : App} {fx : Effects App Write Read}
    (hfx : claimDateRead uid result (.value node order) app = .ok fx) :
    fx.writes = [setValue uid ["lastVisitedDate"] (visitedNode result)] ∧
      (∃ alert, fx.state = app.present alert) ∧
      ((node ≠ visitedNode result ∧ fx.reads = calculate uid app) ∨
        (node = visitedNode result ∧ fx.reads = [])) := by
  unfold claimDateRead at hfx
  by_cases hempty : node.isEmpty = true
  · simp only [hempty, if_true] at hfx
    cases hfx
    refine ⟨rfl, ⟨_, rfl⟩, Or.inl ⟨?_, rfl⟩⟩
    intro heq
    rw [heq] at hempty
    cases hempty
  · simp only [hempty, Bool.false_eq_true, if_false] at hfx
    cases hdate : force .forceCast (asString node) with
    | error trap => simp [hdate, bind, Except.bind] at hfx
    | ok date =>
        have hnode := eq_leaf_of_asString (force_eq_ok hdate)
        simp only [hdate, bind, Except.bind] at hfx
        by_cases hsame : date = result
        · simp only [hsame, ne_eq, not_true_eq_false, if_false] at hfx
          cases hfx
          exact ⟨rfl, ⟨_, rfl⟩, Or.inr ⟨by rw [hnode, hsame], rfl⟩⟩
        · simp only [hsame, ne_eq, not_false_eq_true, if_true] at hfx
          cases hfx
          refine ⟨rfl, ⟨_, rfl⟩, Or.inl ⟨?_, rfl⟩⟩
          rw [hnode]
          intro heq
          unfold visitedNode at heq
          rw [Tree.leaf_inj, Value.string.injEq] at heq
          exact hsame heq

/-- The callbacks of `calculate` write their counter or nothing. -/
theorem addToCounter_cases {uid : Uid} {counter : String} {total : Int}
    {snapshot : Snapshot} {app : App} {fx : Effects App Write Read}
    (hfx : addToCounter uid counter total snapshot app = .ok fx) :
    fx.state = app ∧ fx.reads = [] ∧
      ∀ write ∈ fx.writes, write.path = fpath [counter] := by
  cases snapshot with
  | error =>
      cases hfx
      exact ⟨rfl, rfl, fun _ hmem => by cases hmem⟩
  | value node order =>
      unfold addToCounter at hfx
      by_cases hempty : node.isEmpty = true
      · simp only [hempty, if_true] at hfx
        cases hfx
        exact ⟨rfl, rfl, fun _ hmem => by cases hmem⟩
      · simp only [hempty, Bool.false_eq_true, if_false] at hfx
        cases hvalue : force .forceCast (asInt node) with
        | error trap => simp [hvalue, bind, Except.bind] at hfx
        | ok value =>
            cases hsum : intResult (value + total) with
            | error trap => simp [hvalue, hsum, bind, Except.bind] at hfx
            | ok leaves =>
                simp only [hvalue, hsum, bind, Except.bind] at hfx
                cases hfx
                refine ⟨rfl, rfl, ?_⟩
                intro write hwrite
                rw [List.mem_singleton.mp hwrite]
                rfl

theorem dateNode_visited (uid : Uid) (result : String) (remote : Remote) :
    dateNode uid (client.applyAll
      [setValue uid ["lastVisitedDate"] (visitedNode result)] remote) =
      visitedNode result := by
  have hset := apply_same (setValue uid ["lastVisitedDate"] (visitedNode result)) remote
  unfold dateNode
  rw [Client.applyAll_cons, Client.applyAll_nil, client_apply]
  change ((setValue uid _ _).apply remote (setValue uid ["lastVisitedDate"]
    (visitedNode result)).uid).get _ = _
  rw [hset]
  exact Tree.get_set_same _ _ _

/-- Writing a counter leaves the date. -/
theorem dateNode_applyAll {uid : Uid} {counter : String}
    (hcounter : counter = "currentLeaves" ∨ counter = "allTimeLeaves")
    {writes : List Write} (h : ∀ write ∈ writes, write.path = fpath [counter])
    (remote : Remote) : dateNode uid (client.applyAll writes remote) =
      dateNode uid remote := by
  have hpath : (Read.claimDate uid "").path = "lastVisitedDate" :: [] := rfl
  have hwrites : ∀ write ∈ writes, ∃ path, write.path = counter :: path := by
    intro write hwrite
    refine ⟨[], ?_⟩
    rw [h write hwrite]
    rcases hcounter with rfl | rfl <;> rfl
  have hne : counter ≠ "lastVisitedDate" := by
    rcases hcounter with rfl | rfl <;> decide
  have hanswer := answer_applyAll_of_branch counter hne hwrites hpath (.value []) remote
  exact (Snapshot.value.inj hanswer).1

/-! ## The invariant -/

/-- A read of a claim made by `uid` on the date `result`. -/
def ClaimRead (uid : Uid) (result : String) : Read → Prop
  | .claimDate uid' result' => uid' = uid ∧ result' = result
  | .calculateCurrent _ _ | .calculateAllTime _ _ => True
  | _ => False

/-- While claims are pending: an answer shows the original date or the one
stored now, and the date stored has changed only if some claim has called
`calculate`. -/
structure Claiming (uid : Uid) (result : String) (original : FNode)
    (log : List AppEntry) (s : AppSys) : Prop where
  currentUser : s.state.currentUser = some uid
  reads : ∀ p ∈ s.pending, ClaimRead uid result p.read
  answers : ∀ p ∈ s.pending, ∀ snapshot, p.answer = some snapshot →
    ∃ node order, snapshot = .value node order ∧
      (p.read = .claimDate uid result →
        node = original ∨ node = dateNode uid s.remote)
  date : (log.countP callsCalculate = 0 ∧ dateNode uid s.remote = original) ∨
    (1 ≤ log.countP callsCalculate ∧ dateNode uid s.remote = visitedNode result ∧
      original ≠ visitedNode result)
  added : ∀ adds, RewardRead adds →
    log.countP (addsReward adds) + s.pending.countP (fun p => adds p.read) ≤
      log.countP callsCalculate

theorem countP_snoc_of_false {α : Type} {p : α → Bool} {xs : List α} {x : α}
    (h : p x = false) : (xs ++ [x]).countP p = xs.countP p := by
  rw [List.countP_append, List.countP_singleton, h]
  rfl

theorem countP_snoc_of_true {α : Type} {p : α → Bool} {xs : List α} {x : α}
    (h : p x = true) : (xs ++ [x]).countP p = xs.countP p + 1 := by
  rw [List.countP_append, List.countP_singleton, h]
  rfl

section Step

variable {uid : Uid} {result : String} {original : FNode} {log : List AppEntry}
  {s : AppSys}

/-- A claim is tapped. -/
theorem Claiming.tap (h : Claiming uid result original log s)
    {fx : Effects App Write Read} (hrun : client.tap (.claim result) s.state = .ok fx) :
    Claiming uid result original (log ++ [.tapped (.claim result) fx])
      (client.perform s s.pending fx) := by
  have hfx : fx = ⟨s.state, [], [.claimDate uid result]⟩ := by
    simp only [client_tap, Tap.handle, claimOnClick, h.currentUser, force_some, bind,
      Except.bind] at hrun
    cases hrun
    rfl
  subst hfx
  refine ⟨h.currentUser, ?_, ?_, ?_, ?_⟩
  · intro p hp
    rcases List.mem_append.mp hp with hp | hp
    · exact h.reads p hp
    · rw [List.map_singleton, List.mem_singleton] at hp
      rw [hp]
      exact ⟨rfl, rfl⟩
  · intro p hp snapshot hsnapshot
    rcases List.mem_append.mp hp with hp | hp
    · exact h.answers p hp snapshot hsnapshot
    · rw [List.map_singleton, List.mem_singleton] at hp
      rw [hp] at hsnapshot
      cases hsnapshot
  · rw [countP_snoc_of_false rfl]
    exact h.date
  · intro adds hadds
    have hbefore := h.added adds hadds
    have hclaim := hadds.claim uid result
    rw [countP_snoc_of_false rfl, countP_snoc_of_false rfl]
    have hissued : (s.pending ++ [(⟨.claimDate uid result, none⟩ :
        Pending Read Snapshot)]).countP (fun p => adds p.read) =
        s.pending.countP fun p => adds p.read := countP_snoc_of_false hclaim
    change _ + (s.pending ++ [(⟨.claimDate uid result, none⟩ :
      Pending Read Snapshot)]).countP _ ≤ _
    rwa [hissued]

/-- A read is answered. -/
theorem Claiming.answer (h : Claiming uid result original log s) {read : Read}
    {before after : List (Pending Read Snapshot)}
    (hpending : s.pending = before ++ ⟨read, none⟩ :: after) (order : List String) :
    Claiming uid result original log
      { s with
        pending := before ++
          ⟨read, some (client.answer read (.value order) s.remote)⟩ :: after } := by
  have hread := h.reads ⟨read, none⟩ (by simp [hpending])
  have hother : ∀ p, p ∈ before ∨ p ∈ after → p ∈ s.pending :=
    fun p hp => Client.mem_pending_of_rest hpending p (List.mem_append.mpr hp)
  refine ⟨h.currentUser, ?_, ?_, h.date, ?_⟩
  · intro p hp
    rw [List.mem_append, List.mem_cons] at hp
    rcases hp with hp | rfl | hp
    · exact h.reads p (hother p (Or.inl hp))
    · exact hread
    · exact h.reads p (hother p (Or.inr hp))
  · intro p hp snapshot hsnapshot
    rw [List.mem_append, List.mem_cons] at hp
    rcases hp with hp | rfl | hp
    · exact h.answers p (hother p (Or.inl hp)) snapshot hsnapshot
    · refine ⟨_, order, (Option.some.inj hsnapshot).symm, ?_⟩
      intro hclaim
      right
      change read = .claimDate uid result at hclaim
      rw [hclaim]
      rfl
    · exact h.answers p (hother p (Or.inr hp)) snapshot hsnapshot
  · intro adds hadds
    have hbefore := h.added adds hadds
    rw [hpending] at hbefore
    simpa [List.countP_append, List.countP_cons] using hbefore

/-- A callback of `calculate` runs. -/
theorem Claiming.addToCounter (h : Claiming uid result original log s) {read : Read}
    {snapshot : Snapshot} {before after : List (Pending Read Snapshot)}
    (hpending : s.pending = before ++ ⟨read, some snapshot⟩ :: after)
    {counter : String} (hcounter : counter = "currentLeaves" ∨ counter = "allTimeLeaves")
    (hnoClaim : ∀ uid result, read ≠ .claimDate uid result)
    {fx : Effects App Write Read} (hstate : fx.state = s.state) (hreads : fx.reads = [])
    (hwrites : ∀ write ∈ fx.writes, write.path = fpath [counter]) :
    Claiming uid result original (log ++ [.served read snapshot fx])
        (client.perform s (before ++ after) fx) ∧
      callsCalculate (.served read snapshot fx) = false := by
  have hcalls : callsCalculate (.served read snapshot fx) = false := by
    cases read with
    | claimDate uid' result' => exact absurd rfl (hnoClaim uid' result')
    | _ => rfl
  have hrest := Client.mem_pending_of_rest hpending
  have hdate : dateNode uid (client.applyAll fx.writes s.remote) =
      dateNode uid s.remote := dateNode_applyAll hcounter hwrites s.remote
  have hperform : client.perform s (before ++ after) fx =
      ⟨client.applyAll fx.writes s.remote, s.state, before ++ after⟩ := by
    unfold Client.perform
    rw [hstate, hreads, List.map_nil, List.append_nil]
  refine ⟨?_, hcalls⟩
  rw [hperform]
  refine ⟨h.currentUser, fun p hp => h.reads p (hrest p hp), ?_, ?_, ?_⟩
  · intro p hp snapshot' hsnapshot
    change ∃ node order, _ ∧ (_ → _ ∨ node = dateNode uid (client.applyAll _ _))
    rw [hdate]
    exact h.answers p (hrest p hp) snapshot' hsnapshot
  · rw [countP_snoc_of_false hcalls]
    change (_ ∧ dateNode uid (client.applyAll _ _) = _) ∨
      (_ ∧ dateNode uid (client.applyAll _ _) = _ ∧ _)
    rw [hdate]
    exact h.date
  · intro adds hadds
    have hbefore := h.added adds hadds
    rw [hpending] at hbefore
    simp only [List.countP_append, List.countP_cons] at hbefore
    rw [countP_snoc_of_false hcalls, List.countP_append, List.countP_singleton]
    change _ + (before ++ after).countP _ ≤ _
    rw [List.countP_append]
    have hle : (if addsReward adds (.served read snapshot fx) = true then 1 else 0) ≤
        if adds read = true then 1 else 0 := by
      have hentry : addsReward adds (.served read snapshot fx) =
          (adds read && !fx.writes.isEmpty) := rfl
      rw [hentry]
      cases adds read with
      | false => exact Nat.le_refl 0
      | true =>
          rw [Bool.true_and, if_pos rfl]
          split <;> omega
    omega

/-- A claim calls `calculate` when the date it was shown is not the one of today. -/
theorem callsCalculate_claimDate {node : FNode} {order : List String} {app : App}
    {fx : Effects App Write Read}
    (hrun : claimDateRead uid result (.value node order) app = .ok fx) :
    callsCalculate (.served (.claimDate uid result) (.value node order) fx) = true ↔
      node ≠ visitedNode result := by
  obtain ⟨_, _, hcases⟩ := claimDateRead_cases hrun
  rcases hcases with ⟨hne, hreads⟩ | ⟨heq, hreads⟩
  · simp [callsCalculate, hreads, calculate, hne]
  · simp [callsCalculate, hreads, heq]

/-- The date once a claim that was shown the original date, or the one stored, has
stored the one of today. -/
theorem Claiming.date_claim (h : Claiming uid result original log s) {node : FNode}
    (hnode : node = original ∨ node = dateNode uid s.remote) {entry : AppEntry}
    (hcalls : callsCalculate entry = true ↔ node ≠ visitedNode result) :
    ((log ++ [entry]).countP callsCalculate = 0 ∧ visitedNode result = original) ∨
      (1 ≤ (log ++ [entry]).countP callsCalculate ∧
        visitedNode result = visitedNode result ∧ original ≠ visitedNode result) := by
  by_cases hnew : node = visitedNode result
  · have hno : callsCalculate entry = false := by
      rw [← Bool.not_eq_true, hcalls]
      exact fun hne => hne hnew
    rw [countP_snoc_of_false hno]
    rcases h.date with ⟨hzero, hsame⟩ | ⟨hpos, hsame, hne⟩
    · left
      refine ⟨hzero, ?_⟩
      rcases hnode with heq | heq
      · rw [← heq, hnew]
      · rw [← hsame, ← heq, hnew]
    · right
      exact ⟨hpos, rfl, hne⟩
  · rw [countP_snoc_of_true (hcalls.mpr hnew)]
    right
    refine ⟨Nat.le_add_left 1 _, rfl, ?_⟩
    rcases h.date with ⟨_, hsame⟩ | ⟨_, _, hne⟩
    · rcases hnode with heq | heq
      · rwa [← heq]
      · rwa [← hsame, ← heq]
    · exact hne

/-- The rewards added and pending once a claim has been decided. -/
theorem Claiming.added_claim (h : Claiming uid result original log s) {node : FNode}
    {order : List String} {before after : List (Pending Read Snapshot)}
    (hpending : s.pending =
      before ++ ⟨.claimDate uid result, some (.value node order)⟩ :: after)
    {fx : Effects App Write Read}
    (hrun : claimDateRead uid result (.value node order) s.state = .ok fx)
    {adds : Read → Bool} (hadds : RewardRead adds) :
    (log ++ [(.served (.claimDate uid result) (.value node order) fx : AppEntry)]).countP
          (addsReward adds) +
        (client.perform s (before ++ after) fx).pending.countP (fun p => adds p.read) ≤
      (log ++ [(.served (.claimDate uid result) (.value node order) fx : AppEntry)]).countP
        callsCalculate := by
  obtain ⟨_, _, hcases⟩ := claimDateRead_cases hrun
  have hcalls := callsCalculate_claimDate hrun
  have hbefore := h.added adds hadds
  rw [hpending] at hbefore
  simp only [List.countP_append, List.countP_cons, hadds.claim] at hbefore
  have hentry : addsReward adds
      (.served (.claimDate uid result) (.value node order) fx) = false := by
    simp [addsReward, hadds.claim]
  have hissued : ((fx.reads.map fun k => (⟨k, none⟩ : Pending Read Snapshot)).countP
      fun p => adds p.read) = fx.reads.countP adds := by
    rw [List.countP_map]
    rfl
  rw [countP_snoc_of_false hentry]
  change _ + ((before ++ after) ++ fx.reads.map _).countP _ ≤ _
  rw [List.countP_append, hissued, List.countP_append]
  rcases hcases with ⟨hne, hreads⟩ | ⟨heq, hreads⟩
  · rw [hreads, hadds.calculate, countP_snoc_of_true (hcalls.mpr hne)]
    simp only [Bool.false_eq_true, if_false] at hbefore
    omega
  · have hno : callsCalculate
        (.served (.claimDate uid result) (.value node order) fx) = false := by
      rw [← Bool.not_eq_true, hcalls]
      exact fun hne => hne heq
    rw [hreads, countP_snoc_of_false hno]
    simp only [Bool.false_eq_true, if_false, List.countP_nil] at hbefore ⊢
    omega

/-- A claim is decided. -/
theorem Claiming.claim (h : Claiming uid result original log s) {node : FNode}
    {order : List String} {before after : List (Pending Read Snapshot)}
    (hpending : s.pending =
      before ++ ⟨.claimDate uid result, some (.value node order)⟩ :: after)
    {fx : Effects App Write Read}
    (hrun : claimDateRead uid result (.value node order) s.state = .ok fx) :
    Claiming uid result original
        (log ++ [.served (.claimDate uid result) (.value node order) fx])
        (client.perform s (before ++ after) fx) ∧
      (callsCalculate (.served (.claimDate uid result) (.value node order) fx) = true ↔
        node ≠ visitedNode result) := by
  obtain ⟨hwrites, ⟨alert, hstate⟩, hcases⟩ := claimDateRead_cases hrun
  have hcalls := callsCalculate_claimDate hrun
  have hshown := h.answers ⟨.claimDate uid result, some (.value node order)⟩
    (by simp [hpending]) _ rfl
  obtain ⟨node', order', hsnapshot, hnode⟩ := hshown
  obtain ⟨rfl, rfl⟩ := Snapshot.value.inj hsnapshot
  have hnode := hnode rfl
  have hrest := Client.mem_pending_of_rest hpending
  have hdate : dateNode uid (client.applyAll fx.writes s.remote) = visitedNode result := by
    rw [hwrites]
    exact dateNode_visited uid result s.remote
  -- an answer that showed the stored date shows the original one, or the new one
  have hstored : dateNode uid s.remote = original ∨
      dateNode uid s.remote = visitedNode result := by
    rcases h.date with hdate | hdate
    · exact Or.inl hdate.2
    · exact Or.inr hdate.2.1
  refine ⟨⟨?_, ?_, ?_, ?_, fun adds => h.added_claim hpending hrun⟩, hcalls⟩
  · change fx.state.currentUser = some uid
    rw [hstate]
    exact h.currentUser
  · intro p hp
    rcases List.mem_append.mp hp with hp | hp
    · exact h.reads p (hrest p hp)
    · obtain ⟨read, hread, rfl⟩ := List.mem_map.mp hp
      rcases hcases with ⟨_, hreads⟩ | ⟨_, hreads⟩
      · rw [hreads] at hread
        unfold calculate at hread
        rcases List.mem_cons.mp hread with rfl | hread
        · trivial
        · rw [List.mem_singleton.mp hread]
          trivial
      · rw [hreads] at hread
        cases hread
  · intro p hp snapshot hsnapshot
    rcases List.mem_append.mp hp with hp | hp
    · obtain ⟨node', order', hvalue, hnode'⟩ := h.answers p (hrest p hp) snapshot hsnapshot
      refine ⟨node', order', hvalue, fun hclaim => ?_⟩
      change _ ∨ node' = dateNode uid (client.applyAll fx.writes s.remote)
      rw [hdate]
      rcases hnode' hclaim with heq | heq
      · exact Or.inl heq
      · rcases hstored with hsame | hsame
        · exact Or.inl (heq.trans hsame)
        · exact Or.inr (heq.trans hsame)
    · obtain ⟨read, _, rfl⟩ := List.mem_map.mp hp
      cases hsnapshot
  · change (_ ∧ dateNode uid (client.applyAll fx.writes s.remote) = original) ∨
      (_ ∧ dateNode uid (client.applyAll fx.writes s.remote) = _ ∧ _)
    rw [hdate]
    exact h.date_claim hnode hcalls

end Step

/-! ## Runs -/

/-- The user claims on one date and no read fails. -/
def ClaimsOn (result : String) (_ : AppSys) : AppEvent → Prop
  | .tap (.claim result') => result' = result
  | .tap _ => False
  | .answer _ reply => reply.Succeeds
  | .serve _ => True

instance (result : String) (s : AppSys) (e : AppEvent) :
    Decidable (ClaimsOn result s e) :=
  match e with
  | .tap (.claim result') => inferInstanceAs (Decidable (result' = result))
  | .tap (.buy _) | .tap (.place _ _ _) | .tap (.remove _) | .tap (.cellForRow _ _)
  | .tap (.redeem _ _ _) | .tap (.signIn _ _) | .tap .signOut => isFalse id
  | .answer _ reply => inferInstanceAs (Decidable reply.Succeeds)
  | .serve _ => isTrue trivial

/-- One step: the invariant is kept, and `calculate` has still been called at
most once exactly when the step decides on no stale date. -/
theorem Claiming.step {uid : Uid} {result : String} {original : FNode}
    {log : List AppEntry} {s s' : AppSys} {e : AppEvent} {o : Option AppEntry}
    (h : Claiming uid result original log s) (hclaims : ClaimsOn result s e)
    (hmove : client.Step s e o s') :
    Claiming uid result original (log ++ o.toList) s' ∧
      ((log ++ o.toList).countP callsCalculate ≤ 1 ↔
        log.countP callsCalculate ≤ 1 ∧ ServeMeets DecidesOnCurrent s e) := by
  cases hmove with
  | @tap tap fx hrun =>
      cases tap with
      | claim result' =>
          obtain rfl : result' = result := hclaims
          refine ⟨h.tap hrun, ?_⟩
          rw [Option.toList_some, countP_snoc_of_false rfl]
          exact (and_iff_left (serveMeets_tap _)).symm
      | _ => exact hclaims.elim
  | @answer read before after hpending reply =>
      cases reply with
      | error => exact hclaims.elim
      | value order =>
          rw [Option.toList_none, List.append_nil]
          exact ⟨h.answer hpending order, (and_iff_left (serveMeets_answer _ _)).symm⟩
  | @serve read snapshot before after hpending fx hrun =>
      have hread := h.reads ⟨read, some snapshot⟩ (by simp [hpending])
      have hserved : s.pending[before.length]? = some ⟨read, some snapshot⟩ := by
        simp [hpending]
      rw [Option.toList_some, serveMeets_serve hserved]
      cases read with
      | claimDate uid' result' =>
          obtain ⟨rfl, rfl⟩ := hread
          obtain ⟨node, order, rfl, hnode⟩ :=
            h.answers ⟨.claimDate uid' result', some snapshot⟩ (by simp [hpending]) _ rfl
          obtain ⟨hkept, hcalls⟩ := h.claim hpending hrun
          refine ⟨hkept, ?_⟩
          rw [decidesOnCurrent_value]
          by_cases hnew : node = visitedNode result'
          · have hno : callsCalculate (.served (.claimDate uid' result')
                (.value node order) fx) = false := by
              rw [← Bool.not_eq_true, hcalls]
              exact fun hne => hne hnew
            rw [countP_snoc_of_false hno]
            refine (and_iff_left ?_).symm
            rcases h.date with ⟨_, hsame⟩ | ⟨_, hsame, _⟩
            · rcases hnode rfl with heq | heq
              · rw [heq, hsame]
              · exact heq
            · rw [hnew, hsame]
          · -- a second call needs the original date after it was overwritten
            rw [countP_snoc_of_true (hcalls.mpr hnew)]
            rcases h.date with ⟨hzero, hsame⟩ | ⟨hpos, hsame, _⟩
            · have heq : node = dateNode uid' s.remote := by
                rcases hnode rfl with heq | heq
                · rw [heq, hsame]
                · exact heq
              rw [hzero]
              exact ⟨fun _ => ⟨Nat.zero_le 1, heq⟩, fun _ => Nat.le_refl 1⟩
            · constructor
              · intro hle
                omega
              · intro hand
                exact absurd (hand.2.trans hsame) hnew
      | calculateCurrent uid' total =>
          obtain ⟨hstate, hreads, hwrites⟩ := addToCounter_cases hrun
          obtain ⟨hkept, hno⟩ := h.addToCounter hpending (Or.inl rfl)
            (fun _ _ heq => by cases heq) hstate hreads hwrites
          refine ⟨hkept, ?_⟩
          rw [countP_snoc_of_false hno]
          exact (and_iff_left trivial).symm
      | calculateAllTime uid' total =>
          obtain ⟨hstate, hreads, hwrites⟩ := addToCounter_cases hrun
          obtain ⟨hkept, hno⟩ := h.addToCounter hpending (Or.inr rfl)
            (fun _ _ heq => by cases heq) hstate hreads hwrites
          refine ⟨hkept, ?_⟩
          rw [countP_snoc_of_false hno]
          exact (and_iff_left trivial).symm
      | _ => exact hread.elim
  | idleAnswer hidle reply =>
      rw [Option.toList_none, List.append_nil]
      exact ⟨h, (and_iff_left (serveMeets_answer _ _)).symm⟩
  | idleServe hidle =>
      rw [Option.toList_none, List.append_nil]
      exact ⟨h, (and_iff_left (serveMeets_of_idle hidle)).symm⟩

/-- At most one claim called `calculate`, and the reward was added at most once
to each counter. -/
structure RewardedOnce (log : List AppEntry) : Prop where
  calls : log.countP callsCalculate ≤ 1
  current : log.countP (addsReward Read.addsCurrent) ≤ 1
  allTime : log.countP (addsReward Read.addsAllTime) ≤ 1

/-- **One reward a day, exactly.**  However many claims are made on one date and
in whatever order their reads are answered and their callbacks run, at most one
of them is rewarded if and only if every claim was decided while the date stored
was still the one it had read. -/
theorem claims_reward_once_iff {uid : Uid} {result : String} {remote : Remote}
    {app : App} (huser : app.currentUser = some uid) {es : List AppEvent}
    (hclaims : client.Along (ClaimsOn result) ⟨remote, app, []⟩ es) {s' : AppSys}
    (hrun : client.run ⟨remote, app, []⟩ es = .ok s') :
    RewardedOnce (client.trace ⟨remote, app, []⟩ es) ↔
      client.Along (ServeMeets DecidesOnCurrent) ⟨remote, app, []⟩ es := by
  have hstart : Claiming uid result (dateNode uid remote) [] ⟨remote, app, []⟩ := by
    refine ⟨huser, ?_, ?_, Or.inl ⟨rfl, rfl⟩, fun _ _ => Nat.le_refl 0⟩
    · intro p hp
      cases hp
    · intro p hp
      cases hp
  obtain ⟨hend, hiff⟩ := client.run_rule_iff
    (Claiming uid result (dateNode uid remote))
    (fun log => log.countP callsCalculate ≤ 1)
    (fun _ _ _ _ _ hinv hC hmove => hinv.step hC hmove)
    es [] _ s' hstart hclaims hrun
  rw [List.nil_append] at hend hiff
  have hcurrent := hend.added _ addsCurrent_rewardRead
  have hallTime := hend.added _ addsAllTime_rewardRead
  constructor
  · intro honce
    exact (hiff.mp honce.calls).2
  · intro halong
    have hcalls := hiff.mpr ⟨Nat.zero_le 1, halong⟩
    refine ⟨hcalls, ?_, ?_⟩
    · omega
    · omega

/-- The second of two overlapping claims reads the date after the first was decided: it is
not rewarded again. -/
theorem claims_reward_once_iff_tree :
    RewardedOnce (client.trace ⟨plantedTree, plantedTreeApp "ann" treeShelf, []⟩
      [ .tap (.claim "today"), .tap (.claim "today"),
        .answer 0 (.value []), .serve 0, .answer 0 (.value []), .serve 0,
        .answer 0 (.value []), .serve 0, .answer 0 (.value []), .serve 0 ]) := by
  obtain ⟨s', hrun, _⟩ : ∃ s', client.run
      ⟨plantedTree, plantedTreeApp "ann" treeShelf, []⟩
        [ .tap (.claim "today"), .tap (.claim "today"),
          .answer 0 (.value []), .serve 0, .answer 0 (.value []), .serve 0,
          .answer 0 (.value []), .serve 0, .answer 0 (.value []), .serve 0 ] =
        .ok s' ∧ s'.pending = [] :=
    client.exists_run_of_check (by decide +kernel)
  have hclaims : client.Along (ClaimsOn "today")
      ⟨plantedTree, plantedTreeApp "ann" treeShelf, []⟩
      [ .tap (.claim "today"), .tap (.claim "today"),
        .answer 0 (.value []), .serve 0, .answer 0 (.value []), .serve 0,
        .answer 0 (.value []), .serve 0, .answer 0 (.value []), .serve 0 ] := by
    decide +kernel
  have hreads : client.Along (ServeMeets fun read snapshot remote app =>
        readsStoredDate read snapshot remote app = true)
      ⟨plantedTree, plantedTreeApp "ann" treeShelf, []⟩
      [ .tap (.claim "today"), .tap (.claim "today"),
        .answer 0 (.value []), .serve 0, .answer 0 (.value []), .serve 0,
        .answer 0 (.value []), .serve 0, .answer 0 (.value []), .serve 0 ] := by
    decide +kernel
  refine (claims_reward_once_iff rfl hclaims hrun).mpr (Client.Along.mono _ ?_ hreads)
  intro s e hserve i read snapshot he hi
  exact decidesOnCurrent_of_reads (hserve i read snapshot he hi)

/-- Two claims whose reads are both answered before either is decided, with all
their callbacks run. -/
def overlappingClaims (result : String) : List AppEvent :=
  [ .tap (.claim result), .tap (.claim result),
    .answer 0 (.value []), .answer 1 (.value []), .serve 0, .serve 0,
    .answer 0 (.value []), .serve 0, .answer 0 (.value []), .serve 0,
    .answer 0 (.value []), .serve 0, .answer 0 (.value []), .serve 0 ]

/-- Both of the overlapping claims are rewarded, with 5 leaves each. -/
theorem not_claims_reward_once :
    ¬ ∀ (uid : Uid) (result : String) (remote : Remote) (app : App)
        (es : List AppEvent), app.currentUser = some uid →
        client.Along (ClaimsOn result) ⟨remote, app, []⟩ es →
        ∀ s', client.run ⟨remote, app, []⟩ es = .ok s' →
          RewardedOnce (client.trace ⟨remote, app, []⟩ es) := by
  intro hclaim
  obtain ⟨s', hrun, hleaves⟩ : ∃ s', client.run
      ⟨plantedTree, plantedTreeApp "ann" treeShelf, []⟩ (overlappingClaims "today") =
        .ok s' ∧
      asInt ((s'.remote "ann").child "currentLeaves") = some 10 :=
    client.exists_run_of_check (by decide +kernel)
  have honce := hclaim "ann" "today" _ _ _ rfl (by decide +kernel) s' hrun
  have htwice : (client.trace ⟨plantedTree, plantedTreeApp "ann" treeShelf, []⟩
      (overlappingClaims "today")).countP callsCalculate = 2 := by
    decide +kernel
  have hcalls := honce.calls
  omega

end WillItRecycle

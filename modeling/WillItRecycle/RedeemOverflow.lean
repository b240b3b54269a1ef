import WillItRecycle.RedeemHistory
import WillItRecycle.TrapFreeRun

/-!
# Redeems that overflow

An accepted text can denote any 64-bit integer, and nothing bounds the quantities
before they are multiplied by the values of the items and summed up, or the leaves
before they are added to the two counters.  The loop writes the history of an item
before it looks at the next one, so a redeem that traps can leave history behind.

What keeps a run of redeems safe is room in the counters: what is stored or on its way
to a callback, plus what the redeems in flight still add, plus what is entered, stays
within 64 bits (`RedeemsWithinBounds`).  The bounds are asked for at each REDEEM only;
that they last until its callback has run, however many other redeems come between, is
the invariant `Redeeming`.

* `redeems_safely` -- a run whose redeems are within bounds does not trap, and every
  redeem of it writes its whole history.
-/

namespace WillItRecycle

open PathTree ReadCallback EventRun ManualEntryViewController

/-! ## Redeems of accepted texts -/

/-- What ends the app on the way to REDEEM, on the screen or in the code of the tap. -/
inductive RedeemTrap where
  | app (trap : Trap)
  | screen (trap : ScreenTrap)
  deriving DecidableEq, Repr

/-- Texts that every field accepts, and REDEEM. -/
structure Redemption (number : String → Option Rat) where
  texts : Fin manualEntryData.length → String
  accepted : ∀ i, (number (filled (texts i))).isSome
  dateString : String
  autoId : Nat → String

namespace Redemption

variable {number : String → Option Rat} (redemption : Redemption number)

/-- What the fields leave. -/
def quantities : Quantities := fun i => quantityOf (redemption.texts i)

/-- The tap that the screen hands over. -/
def tap : RedeemTap := ⟨redemption.quantities, redemption.dateString, redemption.autoId⟩

/-- The screen appears, the texts are entered and REDEEM is tapped. -/
def redeem (range : String → String → Bool) (app : App) :
    Except RedeemTrap (Effects App Write Read) :=
  match run (handle manualEntryData range number) (initial manualEntryData)
      (fillIn redemption.texts) with
  | .error trap => .error (.screen trap)
  | .ok screen =>
      (redeemButtonPressed (quantitiesOf screen) redemption.dateString redemption.autoId
        app).mapError .app

/-- The history written until REDEEM's loop ends, by a trap or not. -/
def written (app : App) : List Write :=
  match app.currentUser with
  | none => []
  | some uid =>
      (redeemLoop uid redemption.quantities redemption.dateString redemption.autoId).1

/-- The history of all positive quantities. -/
def history (app : App) : List Write :=
  match app.currentUser with
  | none => []
  | some uid => redemption.tap.history uid

/-- The texts reach the tap as the quantities they denote. -/
theorem redeem_eq (range : String → String → Bool) (app : App) :
    redemption.redeem range app = (redeemClient.tap redemption.tap app).mapError .app := by
  obtain ⟨screen, hrun, hquantities⟩ := run_fillIn redemption.accepted range
  unfold redeem
  rw [hrun]
  dsimp only
  rw [hquantities]
  rfl

/-- Without an overflow the whole history is written. -/
theorem written_eq (hfits : LoopFits redemption.quantities) (app : App) :
    redemption.written app = redemption.history app := by
  unfold written history
  cases app.currentUser with
  | none => rfl
  | some uid =>
      dsimp only
      rw [redeemLoop_of_fits uid redemption.quantities _ _ hfits]
      rfl

end Redemption

section Client

variable (number : String → Option Rat) (range : String → String → Bool)

/-- The app as far as redeems of accepted texts go. -/
def redemptionClient :
    Client Remote App Write Read Reply Snapshot (Redemption number) RedeemTrap where
  apply := redeemClient.apply
  answer := redeemClient.answer
  tap := fun redemption => redemption.redeem range
  callback := fun read snapshot app => (redeemClient.callback read snapshot app).mapError .app

/-- The history written along a run, up to a trap. -/
def historyLeft (s : AppSys) : List (Event (Redemption number) Reply) → List Write
  | [] => []
  | e :: es =>
      (match e with
        | .tap redemption => redemption.written s.state
        | _ => []) ++
        match (redemptionClient number range).step s e with
        | .ok s' => historyLeft s' es
        | .error _ => []

/-- Nothing traps, and the history left is the whole history of every redeem. -/
structure RedeemsSafely (s : AppSys) (es : List (Event (Redemption number) Reply)) : Prop where
  finishes : ∀ trap, (redemptionClient number range).run s es ≠ .error trap
  history : historyLeft number range s es =
    (taps es).flatMap fun redemption => redemption.history s.state

end Client

/-! ## The condition -/

/-- The counters of a record. -/
def counterFields : List String := ["currentLeaves", "allTimeLeaves"]

/-- Both counters are stored, as 64-bit integers. -/
def Wallet64 (node : FNode) : Prop :=
  ∀ field ∈ counterFields, ∃ stored ∈ asInt (node.child field), FitsInt stored

instance (node : FNode) : Decidable (Wallet64 node) :=
  inferInstanceAs (Decidable
    (∀ field ∈ counterFields, ∃ stored ∈ asInt (node.child field), FitsInt stored))

/-- What the positive quantities are worth. -/
def gains (quantities : Quantities) : Int :=
  total (fun i => max 0 (worth quantities i)) (List.finRange manualEntryData.length)

/-- What the negative quantities take away, as a positive number. -/
def losses (quantities : Quantities) : Int :=
  total (fun i => max 0 (-worth quantities i)) (List.finRange manualEntryData.length)

/-- The leaves that the callback of a read adds. -/
def Read.gain : Read → Int
  | .redeemUser _ leaves => max 0 leaves
  | _ => 0

/-- The leaves that the callback of a read takes away. -/
def Read.loss : Read → Int
  | .redeemUser _ leaves => max 0 (-leaves)
  | _ => 0

/-- A counter in an answer. -/
def Snapshot.counter (field : String) : Snapshot → Option Int
  | .error => none
  | .value node _ => asInt (node.child field)

/-- The values of a counter that are stored or on their way to a callback. -/
def counterValues (uid : Uid) (field : String) (s : AppSys) : List Int :=
  (asInt ((s.remote uid).child field)).toList ++
    s.pending.filterMap fun p => p.answer.bind (Snapshot.counter field)

/-- Every value of a counter has room for the redeems in flight and for so much more or
less. -/
def HasRoom (uid : Uid) (more less : Int) (s : AppSys) : Prop :=
  ∀ field ∈ counterFields, ∀ n ∈ counterValues uid field s,
    n + total Read.gain s.reads + more < 2 ^ 63 ∧
      -2 ^ 63 ≤ n - total Read.loss s.reads - less

instance (uid : Uid) (more less : Int) (s : AppSys) : Decidable (HasRoom uid more less s) :=
  inferInstanceAs (Decidable (∀ field ∈ counterFields, ∀ n ∈ counterValues uid field s,
    n + total Read.gain s.reads + more < 2 ^ 63 ∧
      -2 ^ 63 ≤ n - total Read.loss s.reads - less))

/-- What is entered before a REDEEM is bounded, and the counters have room for it. -/
def RedeemsWithinBounds {number : String → Option Rat} (uid : Uid) (s : AppSys)
    (e : Event (Redemption number) Reply) : Prop :=
  match e with
  | .tap redemption =>
      gains redemption.quantities < 2 ^ 63 ∧ losses redemption.quantities ≤ 2 ^ 63 ∧
        HasRoom uid (gains redemption.quantities) (losses redemption.quantities) s
  | .answer _ _ | .serve _ => True

instance {number : String → Option Rat} (uid : Uid) (s : AppSys)
    (e : Event (Redemption number) Reply) : Decidable (RedeemsWithinBounds uid s e) :=
  match e with
  | .tap redemption =>
      inferInstanceAs (Decidable
        (gains redemption.quantities < 2 ^ 63 ∧ losses redemption.quantities ≤ 2 ^ 63 ∧
          HasRoom uid (gains redemption.quantities) (losses redemption.quantities) s))
  | .answer _ _ | .serve _ => isTrue trivial

/-! ## Bounded quantities -/

theorem le_total_of_mem {α : Type} {amount : α → Int} {xs : List α} (h : ∀ x ∈ xs, 0 ≤ amount x)
    {x : α} (hx : x ∈ xs) : amount x ≤ total amount xs := by
  obtain ⟨before, after, rfl⟩ := List.append_of_mem hx
  have hbefore := total_nonneg fun y hy => h y (List.mem_append_left _ hy)
  have hafter := total_nonneg fun y hy =>
    h y (List.mem_append_right _ (List.mem_cons_of_mem x hy))
  rw [total_append, total_cons]
  omega

/-- The positive and the negative part of a total. -/
theorem total_eq_parts {α : Type} (amount : α → Int) (xs : List α) :
    total amount xs =
      total (fun x => max 0 (amount x)) xs - total (fun x => max 0 (-amount x)) xs := by
  induction xs with
  | nil => rfl
  | cons x xs ih =>
      rw [total_cons, total_cons, total_cons, ih]
      omega

/-- Sums within their positive and negative parts do not overflow. -/
theorem sumsFit_of_parts {α : Type} {amount : α → Int} {xs : List α}
    (hamount : ∀ x ∈ xs, FitsInt (amount x)) :
    ∀ {sofar : Int}, sofar + total (fun x => max 0 (amount x)) xs < 2 ^ 63 →
      -2 ^ 63 ≤ sofar - total (fun x => max 0 (-amount x)) xs → SumsFit amount sofar xs := by
  induction xs with
  | nil =>
      intro sofar _ _
      trivial
  | cons x xs ih =>
      intro sofar hmore hless
      rw [total_cons] at hmore hless
      have hgain := @total_nonneg _ (fun x => max 0 (amount x)) xs
        fun _ _ => Int.le_max_left _ _
      have hloss := @total_nonneg _ (fun x => max 0 (-amount x)) xs
        fun _ _ => Int.le_max_left _ _
      refine ⟨hamount x List.mem_cons_self, ⟨by omega, by omega⟩, ?_⟩
      exact ih (fun y hy => hamount y (List.mem_cons_of_mem _ hy)) (by omega) (by omega)

theorem Read.gain_nonneg (read : Read) : 0 ≤ read.gain := by
  cases read <;> simp [Read.gain]

theorem Read.loss_nonneg (read : Read) : 0 ≤ read.loss := by
  cases read <;> simp [Read.loss]

theorem gains_nonneg (quantities : Quantities) : 0 ≤ gains quantities :=
  total_nonneg fun _ _ => Int.le_max_left _ _

theorem losses_nonneg (quantities : Quantities) : 0 ≤ losses quantities :=
  total_nonneg fun _ _ => Int.le_max_left _ _

/-- The leaves of a redeem are its gains less its losses. -/
theorem redeemedLeaves_eq_parts (quantities : Quantities) :
    redeemedLeaves quantities = gains quantities - losses quantities := by
  rw [redeemedLeaves_eq]
  exact total_eq_parts _ _

/-- **Bounded quantities** do not overflow REDEEM's loop. -/
theorem loopFits_of_bounds {quantities : Quantities} (hgains : gains quantities < 2 ^ 63)
    (hlosses : losses quantities ≤ 2 ^ 63) : LoopFits quantities := by
  refine sumsFit_of_parts ?_ ?_ ?_
  · intro i hi
    have hgain := @le_total_of_mem _ (fun i => max 0 (worth quantities i)) _
      (fun _ _ => Int.le_max_left _ _) _ hi
    have hloss := @le_total_of_mem _ (fun i => max 0 (-worth quantities i)) _
      (fun _ _ => Int.le_max_left _ _) _ hi
    unfold gains at hgains
    unfold losses at hlosses
    exact ⟨by omega, by omega⟩
  · rw [Int.zero_add]
    exact hgains
  · rw [Int.zero_sub]
    unfold losses at hlosses
    omega

/-! ## The invariant -/

/-- Both counters are stored. -/
def HasCounters (node : FNode) : Prop :=
  ∀ field ∈ counterFields, ∃ stored, asInt (node.child field) = some stored

theorem Wallet64.hasCounters {node : FNode} (h : Wallet64 node) : HasCounters node := by
  intro field hfield
  obtain ⟨stored, hstored, _⟩ := h field hfield
  exact ⟨stored, hstored⟩

/-- The counters have room for the redeems in flight. -/
structure Redeeming (uid : Uid) (s : AppSys) : Prop where
  currentUser : s.state.currentUser = some uid
  stored : HasCounters (s.remote uid)
  reads : ∀ read ∈ s.reads, ∃ leaves, read = .redeemUser uid leaves
  answers : ∀ p ∈ s.pending, ∀ node order, p.answer = some (.value node order) →
    HasCounters node
  room : HasRoom uid 0 0 s

/-- Where the values of a counter come from. -/
theorem mem_counterValues {uid : Uid} {field : String} {s : AppSys} {n : Int} :
    n ∈ counterValues uid field s ↔ asInt ((s.remote uid).child field) = some n ∨
      ∃ p ∈ s.pending, p.answer.bind (Snapshot.counter field) = some n := by
  simp [counterValues]

/-- The counter of an answer is on its way to a callback. -/
theorem mem_counterValues_of_answer {uid : Uid} {field : String} {s : AppSys} {read : Read}
    {node : FNode} {order : List String} {before after : List (Pending Read Snapshot)}
    (hpending : s.pending = before ++ ⟨read, some (.value node order)⟩ :: after) {stored : Int}
    (hstored : asInt (node.child field) = some stored) : stored ∈ counterValues uid field s := by
  refine mem_counterValues.mpr (Or.inr ⟨⟨read, some (.value node order)⟩, ?_, hstored⟩)
  rw [hpending]
  exact List.mem_append_right _ List.mem_cons_self

/-- Bounds kept when every value was there before and there is as much room. -/
theorem HasRoom.mono {uid : Uid} {more less more' less' : Int} {s s' : AppSys}
    (h : HasRoom uid more less s)
    (hvalues : ∀ field ∈ counterFields, ∀ n ∈ counterValues uid field s',
      n ∈ counterValues uid field s)
    (hgain : total Read.gain s'.reads + more' ≤ total Read.gain s.reads + more)
    (hloss : total Read.loss s'.reads + less' ≤ total Read.loss s.reads + less) :
    HasRoom uid more' less' s' := by
  intro field hfield n hn
  obtain ⟨hmore, hless⟩ := h field hfield n (hvalues field hfield n hn)
  exact ⟨by omega, by omega⟩

/-- With nothing in flight a 64-bit wallet has room. -/
theorem Redeeming.of_idle {uid : Uid} {remote : Remote} {app : App}
    (huser : app.currentUser = some uid) (hwallet : Wallet64 (remote uid)) :
    Redeeming uid ⟨remote, app, []⟩ := by
  refine ⟨huser, hwallet.hasCounters, (fun _ hread => by cases hread),
    (fun _ hp => by cases hp), ?_⟩
  intro field hfield n hn
  obtain ⟨stored, hstored, hfits⟩ := hwallet field hfield
  rcases mem_counterValues.mp hn with hn | ⟨p, hp, _⟩
  · obtain rfl : stored = n := Option.mem_unique hstored hn
    simp only [Sys.reads, List.map_nil, total_nil]
    obtain ⟨hlow, hhigh⟩ := hfits
    exact ⟨by omega, by omega⟩
  · cases hp

/-- What a redeem has credited is no more than its gains and no less than its losses. -/
theorem credit_le_parts (uid : Uid) (quantities : Quantities) :
    total Read.gain (if redeemedLeaves quantities = 0 then []
        else [.redeemUser uid (redeemedLeaves quantities)]) ≤ gains quantities ∧
      total Read.loss (if redeemedLeaves quantities = 0 then []
        else [.redeemUser uid (redeemedLeaves quantities)]) ≤ losses quantities := by
  have hparts := redeemedLeaves_eq_parts quantities
  have hgain := gains_nonneg quantities
  have hloss := losses_nonneg quantities
  split
  · exact ⟨hgain, hloss⟩
  · simp only [total_cons, total_nil, Read.gain, Read.loss]
    exact ⟨by omega, by omega⟩

section Step

variable {number : String → Option Rat} {uid : Uid} {s : AppSys}

/-- **A REDEEM within bounds** does not trap, writes its whole history, and its leaves
have room in the counters until they are credited. -/
theorem Redeeming.redeem (h : Redeeming uid s) {redemption : Redemption number}
    (hgains : gains redemption.quantities < 2 ^ 63)
    (hlosses : losses redemption.quantities ≤ 2 ^ 63)
    (hroom : HasRoom uid (gains redemption.quantities) (losses redemption.quantities) s) :
    ∃ fx, redeemClient.tap redemption.tap s.state = .ok fx ∧
      Redeeming uid (redeemClient.perform s s.pending fx) := by
  have hfits := loopFits_of_bounds hgains hlosses
  have htap := redeem_tap h.currentUser redemption.tap
  rw [if_pos (show LoopFits redemption.tap.quantities from hfits)] at htap
  refine ⟨_, htap, ?_⟩
  have hkept : ∀ field ∈ counterFields,
      (redeemClient.applyAll (redemption.tap.history uid) s.remote uid).child field =
        (s.remote uid).child field := by
    intro field hfield
    apply child_history
    rintro rfl
    revert hfield
    decide
  refine ⟨h.currentUser, ?_, ?_, ?_, ?_⟩
  · intro field hfield
    obtain ⟨stored, hstored⟩ := h.stored field hfield
    exact ⟨stored, (congrArg asInt (hkept field hfield)).trans hstored⟩
  · intro read hread
    rw [redeemClient.reads_perform, List.mem_append] at hread
    rcases hread with hread | hread
    · exact h.reads read hread
    · dsimp only at hread
      split at hread
      · cases hread
      · exact ⟨_, List.mem_singleton.mp hread⟩
  · intro p hp node order hanswer
    rcases List.mem_append.mp hp with hp | hp
    · exact h.answers p hp node order hanswer
    · obtain ⟨read, _, rfl⟩ := List.mem_map.mp hp
      cases hanswer
  · refine hroom.mono ?_ ?_ ?_
    · intro field hfield n hn
      rw [mem_counterValues] at hn ⊢
      rcases hn with hn | ⟨p, hp, hn⟩
      · exact Or.inl ((congrArg asInt (hkept field hfield)).symm.trans hn)
      · rcases List.mem_append.mp hp with hp | hp
        · exact Or.inr ⟨p, hp, hn⟩
        · obtain ⟨read, _, rfl⟩ := List.mem_map.mp hp
          cases hn
    · rw [redeemClient.reads_perform, total_append]
      have hcredit := (credit_le_parts uid redemption.quantities).1
      rw [Int.add_zero]
      exact Int.add_le_add_left hcredit _
    · rw [redeemClient.reads_perform, total_append]
      have hcredit := (credit_le_parts uid redemption.quantities).2
      rw [Int.add_zero]
      exact Int.add_le_add_left hcredit _

/-- An answer is a value that was stored. -/
theorem Redeeming.answer (h : Redeeming uid s) {read : Read}
    {before after : List (Pending Read Snapshot)}
    (hpending : s.pending = before ++ ⟨read, none⟩ :: after) (reply : Reply) :
    Redeeming uid { s with
      pending := before ++ ⟨read, some (redeemClient.answer read reply s.remote)⟩ :: after } := by
  have hread : read ∈ s.reads := by simp [Sys.reads, hpending]
  obtain ⟨leaves, rfl⟩ := h.reads read hread
  have hreads : (⟨s.remote, s.state, before ++
      ⟨.redeemUser uid leaves, some (redeemClient.answer (.redeemUser uid leaves) reply
        s.remote)⟩ :: after⟩ : AppSys).reads = s.reads := by
    simp [Sys.reads, hpending]
  refine ⟨h.currentUser, h.stored, by rw [hreads]; exact h.reads, ?_, ?_⟩
  · intro p hp node order hanswer
    have hsplit : p = ⟨.redeemUser uid leaves, some (redeemClient.answer
        (.redeemUser uid leaves) reply s.remote)⟩ ∨ p ∈ s.pending := by
      rw [hpending]
      rcases List.mem_append.mp hp with hp | hp
      · exact Or.inr (List.mem_append_left _ hp)
      · rcases List.mem_cons.mp hp with hp | hp
        · exact Or.inl hp
        · exact Or.inr (List.mem_append_right _ (List.mem_cons_of_mem _ hp))
    rcases hsplit with rfl | hp
    · cases reply with
      | error => cases hanswer
      | value order' =>
          obtain ⟨rfl, _⟩ := Snapshot.value.inj (Option.some.inj hanswer)
          exact h.stored
    · exact h.answers p hp node order hanswer
  · refine h.room.mono ?_ (by rw [hreads]) (by rw [hreads])
    intro field hfield n hn
    rw [mem_counterValues] at hn ⊢
    rcases hn with hn | ⟨p, hp, hn⟩
    · exact Or.inl hn
    · rcases List.mem_append.mp hp with hp | hp
      · exact Or.inr ⟨p, by rw [hpending]; exact List.mem_append_left _ hp, hn⟩
      · rcases List.mem_cons.mp hp with rfl | hp
        · cases reply with
          | error => cases hn
          | value order => exact Or.inl hn
        · exact Or.inr ⟨p, by
            rw [hpending]
            exact List.mem_append_right _ (List.mem_cons_of_mem _ hp), hn⟩

/-- With room in the counters that arrived, the leaves of the read can be added. -/
theorem HasRoom.recordFits {more less : Int} (h : HasRoom uid more less s) (hmore : 0 ≤ more)
    (hless : 0 ≤ less) {leaves : Int} {node : FNode} {order : List String}
    {before after : List (Pending Read Snapshot)}
    (hpending : s.pending =
      before ++ ⟨.redeemUser uid leaves, some (.value node order)⟩ :: after)
    (hnode : HasCounters node) : RecordFits leaves (.value node order) := by
  have hadds : ∀ field ∈ counterFields, ∃ stored ∈ asInt (node.child field),
      FitsInt (stored + leaves) := by
    intro field hfield
    obtain ⟨stored, hstored⟩ := hnode field hfield
    refine ⟨stored, hstored, ?_⟩
    obtain ⟨hhigh, hlow⟩ := h field hfield stored (mem_counterValues_of_answer hpending hstored)
    have hread : Read.redeemUser uid leaves ∈ s.reads := by simp [Sys.reads, hpending]
    have hgain := @le_total_of_mem _ Read.gain s.reads
      (fun read _ => read.gain_nonneg) _ hread
    have hloss := @le_total_of_mem _ Read.loss s.reads
      (fun read _ => read.loss_nonneg) _ hread
    simp only [Read.gain, Read.loss] at hgain hloss
    exact ⟨by omega, by omega⟩
  exact ⟨hadds "currentLeaves" (by simp [counterFields]),
    hadds "allTimeLeaves" (by simp [counterFields])⟩

/-- A read that is served leaves its share of the room behind. -/
theorem total_served (part : Read → Int) {read : Read} {a : Snapshot}
    {before after : List (Pending Read Snapshot)}
    (hpending : s.pending = before ++ ⟨read, some a⟩ :: after) :
    total part s.reads = total part ((before ++ after).map Pending.read) + part read := by
  simp only [Sys.reads, hpending, List.map_append, List.map_cons, total_append, total_cons]
  omega

/-- A callback that issues no reads keeps the invariant when what it leaves stored has
room beside the reads that remain. -/
theorem Redeeming.perform (h : Redeeming uid s) {read : Read} {snapshot : Snapshot}
    {before after : List (Pending Read Snapshot)}
    (hpending : s.pending = before ++ ⟨read, some snapshot⟩ :: after)
    {fx : Effects App Write Read} (huser : fx.state.currentUser = some uid)
    (hnone : fx.reads = [])
    (hstored : ∀ field ∈ counterFields, ∃ n,
      asInt ((redeemClient.applyAll fx.writes s.remote uid).child field) = some n ∧
        n + total Read.gain ((before ++ after).map Pending.read) < 2 ^ 63 ∧
        -2 ^ 63 ≤ n - total Read.loss ((before ++ after).map Pending.read)) :
    Redeeming uid (redeemClient.perform s (before ++ after) fx) := by
  have hreads : (redeemClient.perform s (before ++ after) fx).reads =
      (before ++ after).map Pending.read := by
    rw [redeemClient.reads_perform, hnone, List.append_nil]
  have hold : ∀ p ∈ (redeemClient.perform s (before ++ after) fx).pending, p ∈ s.pending := by
    intro p hp
    simp only [Client.perform, hnone, List.map_nil, List.append_nil] at hp
    exact Client.mem_pending_of_rest hpending p hp
  have hgain := total_served Read.gain hpending
  have hloss := total_served Read.loss hpending
  have hgainRead := read.gain_nonneg
  have hlossRead := read.loss_nonneg
  refine ⟨huser, ?_, ?_, fun p hp => h.answers p (hold p hp), ?_⟩
  · intro field hfield
    obtain ⟨n, hn, _⟩ := hstored field hfield
    exact ⟨n, hn⟩
  · intro other hother
    obtain ⟨p, hp, rfl⟩ := List.mem_map.mp hother
    exact h.reads _ (List.mem_map_of_mem (hold p hp))
  · intro field hfield n hn
    rw [hreads, Int.add_zero, Int.sub_zero]
    rcases mem_counterValues.mp hn with hn | ⟨p, hp, hn⟩
    · obtain ⟨n', hn', hroom⟩ := hstored field hfield
      obtain rfl : n = n' := Option.some.inj (hn.symm.trans hn')
      exact hroom
    · obtain ⟨hhigh, hlow⟩ := h.room field hfield n
        (mem_counterValues.mpr (Or.inr ⟨p, hold p hp, hn⟩))
      exact ⟨by omega, by omega⟩

/-- **The callback of a redeem** does not trap, and what it writes has room. -/
theorem Redeeming.serve (h : Redeeming uid s) {read : Read} {snapshot : Snapshot}
    {before after : List (Pending Read Snapshot)}
    (hpending : s.pending = before ++ ⟨read, some snapshot⟩ :: after) :
    ∃ fx, redeemClient.callback read snapshot s.state = .ok fx ∧
      Redeeming uid (redeemClient.perform s (before ++ after) fx) := by
  have hmem : ⟨read, some snapshot⟩ ∈ s.pending := by
    rw [hpending]
    exact List.mem_append_right _ List.mem_cons_self
  obtain ⟨leaves, rfl⟩ := h.reads read (List.mem_map_of_mem hmem)
  have hgain := total_served Read.gain hpending
  have hloss := total_served Read.loss hpending
  simp only [Read.gain, Read.loss] at hgain hloss
  rcases redeemUserRead_outcomes h.currentUser leaves snapshot with
    ⟨_, hrun⟩ | ⟨node, order, current, allTime, rfl, hcurrent, hallTime, _, _, hrun⟩ |
    ⟨hsome, hnot, _⟩
  · refine ⟨_, hrun, h.perform hpending h.currentUser rfl ?_⟩
    intro field hfield
    obtain ⟨stored, hstored⟩ := h.stored field hfield
    obtain ⟨hhigh, hlow⟩ :=
      h.room field hfield stored (mem_counterValues.mpr (Or.inl hstored))
    exact ⟨stored, hstored, by omega, by omega⟩
  · obtain ⟨hwrittenCurrent, hwrittenAllTime⟩ :=
      child_credited uid s.remote (current + leaves) (allTime + leaves)
    refine ⟨_, hrun, h.perform hpending h.currentUser rfl ?_⟩
    intro field hfield
    obtain ⟨stored, harrived, hwritten⟩ : ∃ stored, asInt (node.child field) = some stored ∧
        asInt ((redeemClient.applyAll
          [ setValue uid ["currentLeaves"] (Tree.leaf (.int (current + leaves))),
            setValue uid ["allTimeLeaves"] (Tree.leaf (.int (allTime + leaves))) ]
          s.remote uid).child field) = some (stored + leaves) := by
      rw [counterFields, List.mem_cons, List.mem_singleton] at hfield
      rcases hfield with rfl | rfl
      · exact ⟨current, hcurrent, congrArg asInt hwrittenCurrent⟩
      · exact ⟨allTime, hallTime, congrArg asInt hwrittenAllTime⟩
    obtain ⟨hhigh, hlow⟩ :=
      h.room field hfield stored (mem_counterValues_of_answer hpending harrived)
    exact ⟨stored + leaves, hwritten, by omega, by omega⟩
  · exfalso
    cases snapshot with
    | error => exact hsome trivial
    | value node order =>
        have hnode := h.answers _ hmem node order rfl
        exact hnot (h.room.recordFits (Int.le_refl 0) (Int.le_refl 0) hpending hnode)

end Step

/-! ## Runs -/

section Runs

variable {number : String → Option Rat} {range : String → String → Bool} {uid : Uid}

/-- What a step within bounds keeps. -/
theorem Redeeming.step {s s' : AppSys} {e : Event (Redemption number) Reply}
    {o : Option (Entry App Write Read Snapshot (Redemption number))} (h : Redeeming uid s)
    (hbounds : RedeemsWithinBounds uid s e)
    (hmove : (redemptionClient number range).Step s e o s') : Redeeming uid s' := by
  cases hmove with
  | @tap redemption fx hrun =>
      obtain ⟨fx', hfx', hnext⟩ := h.redeem hbounds.1 hbounds.2.1 hbounds.2.2
      change redemption.redeem range s.state = .ok fx at hrun
      rw [redemption.redeem_eq, hfx'] at hrun
      obtain rfl := Except.ok.inj hrun
      exact hnext
  | answer hpending reply => exact h.answer hpending reply
  | @serve read snapshot before after hpending fx hrun =>
      obtain ⟨fx', hfx', hnext⟩ := h.serve hpending
      change (redeemClient.callback read snapshot s.state).mapError RedeemTrap.app = .ok fx at hrun
      rw [hfx'] at hrun
      obtain rfl := Except.ok.inj hrun
      exact hnext
  | idleAnswer hidle reply => exact h
  | idleServe hidle => exact h

/-- Runs within bounds end, with nothing less to hold than before. -/
theorem Redeeming.run {s : AppSys} (h : Redeeming uid s)
    {es : List (Event (Redemption number) Reply)}
    (halong : (redemptionClient number range).Along (RedeemsWithinBounds uid) s es) :
    ∃ s', (redemptionClient number range).run s es = .ok s' ∧ Redeeming uid s' := by
  refine (redemptionClient number range).run_total (Redeeming uid) ?_ ?_
    (fun _ _ _ _ hinv hbounds hmove => hinv.step hbounds hmove) es h halong
  · intro s redemption hinv hbounds
    obtain ⟨fx, hfx, _⟩ := hinv.redeem hbounds.1 hbounds.2.1 hbounds.2.2
    refine ⟨fx, ?_⟩
    change redemption.redeem range s.state = .ok fx
    rw [redemption.redeem_eq, hfx]
    rfl
  · intro s read snapshot hinv hmem
    obtain ⟨before, after, hpending⟩ := List.append_of_mem hmem
    obtain ⟨fx, hfx, _⟩ := hinv.serve hpending
    refine ⟨fx, ?_⟩
    change (redeemClient.callback read snapshot s.state).mapError RedeemTrap.app = .ok fx
    rw [hfx]
    rfl

theorem Redemption.history_of_user {redemption : Redemption number} {app app' : App}
    (h : app.currentUser = app'.currentUser) :
    redemption.history app = redemption.history app' := by
  unfold Redemption.history
  rw [h]

/-- The history left by a run within bounds is whole. -/
theorem Redeeming.historyLeft_eq {es : List (Event (Redemption number) Reply)} :
    ∀ {s : AppSys}, Redeeming uid s →
      (redemptionClient number range).Along (RedeemsWithinBounds uid) s es →
      historyLeft number range s es =
        (taps es).flatMap fun redemption => redemption.history s.state := by
  induction es with
  | nil =>
      intro s _ _
      rfl
  | cons e es ih =>
      intro s h halong
      obtain ⟨middle, hmid, hnext⟩ : ∃ middle,
          (redemptionClient number range).step s e = .ok middle ∧ Redeeming uid middle := by
        obtain ⟨s', hrun, -⟩ := h.run halong
        obtain ⟨middle, hmid, -⟩ := (redemptionClient number range).run_cons_ok hrun
        exact ⟨middle, hmid,
          h.step halong.1 ((redemptionClient number range).step_cases hmid)⟩
      have hrest := ih hnext (halong.2 middle hmid)
      have huser : middle.state.currentUser = s.state.currentUser :=
        hnext.currentUser.trans h.currentUser.symm
      have hsame : (fun redemption : Redemption number => redemption.history middle.state) =
          fun redemption => redemption.history s.state :=
        funext fun _ => Redemption.history_of_user huser
      rw [hsame] at hrest
      cases e with
      | tap redemption =>
          have hfits := loopFits_of_bounds halong.1.1 halong.1.2.1
          simp only [historyLeft, hmid, hrest, redemption.written_eq hfits]
          rfl
      | answer i reply =>
          simp only [historyLeft, hmid, hrest]
          rfl
      | serve i =>
          simp only [historyLeft, hmid, hrest]
          rfl

end Runs

/-- **Redeems are safe** when each of them is within bounds at its tap: what is entered is
worth less than 2^63 in gains and at most 2^63 in losses, and every value of a counter
that is stored or on its way to a callback has room for it beside the redeems in flight.
For all redeems of accepted texts, from any stored 64-bit counters, in any order of the
answers and the callbacks. -/
theorem redeems_safely {number : String → Option Rat} {range : String → String → Bool}
    {uid : Uid} {remote : Remote} {app : App} (huser : app.currentUser = some uid)
    (hwallet : Wallet64 (remote uid)) {es : List (Event (Redemption number) Reply)}
    (halong : (redemptionClient number range).Along (RedeemsWithinBounds uid)
      ⟨remote, app, []⟩ es) :
    RedeemsSafely number range ⟨remote, app, []⟩ es := by
  have hstart := Redeeming.of_idle huser hwallet
  obtain ⟨s', hrun, -⟩ := hstart.run halong
  refine ⟨?_, hstart.historyLeft_eq halong⟩
  intro trap htrap
  rw [hrun] at htrap
  cases htrap

/-- Cans of aluminum and tin, when only integers are accepted. -/
def redeemCans (aluminum tin : String)
    (haccepted : ∀ i, (integersOnly (filled (canTexts aluminum tin i))).isSome) :
    Redemption integersOnly :=
  ⟨canTexts aluminum tin, haccepted, "today", fun _ => "entry"⟩

/-- Two redeems overlap; the second callback adds to the counters it read before the
first. -/
theorem redeems_safely_overlapping :
    RedeemsSafely integersOnly (fun _ _ => true) ⟨newUser 0, newUserApp "ann" treeShelf, []⟩
      [ .tap (redeemCans "2" "" (by decide +kernel)),
        .tap (redeemCans "1" "-1" (by decide +kernel)), .answer 0 (.value []),
        .answer 1 (.value []), .serve 1, .serve 0 ] :=
  redeems_safely rfl (by decide +kernel) (by decide +kernel)

/-- The largest 64-bit integer of tin cans beside one of aluminum. -/
def hugeRedeem : List (Event (Redemption integersOnly) Reply) :=
  [.tap (redeemCans "1" "9223372036854775807" (by decide +kernel))]

/-- The aluminum can is in the history when the sum traps. -/
example : (historyLeft integersOnly (fun _ _ => true)
    ⟨newUser 0, newUserApp "ann" treeShelf, []⟩ hugeRedeem).length = 1 := by
  decide +kernel

/-- One aluminum can more than 64 bits hold: the sum traps. -/
theorem not_redeems_safely :
    ¬ ∀ (number : String → Option Rat) (range : String → String → Bool) (uid : Uid)
        (remote : Remote) (app : App) (es : List (Event (Redemption number) Reply)),
        app.currentUser = some uid → Wallet64 (remote uid) →
        RedeemsSafely number range ⟨remote, app, []⟩ es := by
  intro hclaim
  have hsafe := hclaim integersOnly (fun _ _ => true) "ann" (newUser 0)
    (newUserApp "ann" treeShelf) hugeRedeem rfl (by decide +kernel)
  have htraps : ((redemptionClient integersOnly (fun _ _ => true)).run
      ⟨newUser 0, newUserApp "ann" treeShelf, []⟩ hugeRedeem).toOption.isSome = false := by
    decide +kernel
  cases hrun : (redemptionClient integersOnly (fun _ _ => true)).run
      ⟨newUser 0, newUserApp "ann" treeShelf, []⟩ hugeRedeem with
  | ok s' =>
      rw [hrun] at htraps
      cases htraps
  | error trap => exact hsafe.finishes trap hrun

end WillItRecycle

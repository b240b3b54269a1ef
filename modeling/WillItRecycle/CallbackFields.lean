import WillItRecycle.LeavesLedger

/-!
# The fields a callback writes

Each callback writes below few fields of a record, whatever the answer and the state it
runs in, and only the date of a claim makes it issue reads (`callback_limited`).
`signInName`, which creates a record, is left out: it writes a whole one.
-/

namespace WillItRecycle

open PathTree ReadCallback

/-- A field of the record is written, or something below it. -/
def Write.Below (fields : List String) (write : Write) : Prop :=
  ∃ field ∈ fields, ∃ path, write.path = field :: path

/-- A write to a field, or below it, is below the fields of a list that names it. -/
theorem below_setValue (uid : Uid) {field : String} (hne : field ≠ "") (pieces : List String)
    (value : FNode) {fields : List String} (hfield : field ∈ fields) :
    (setValue uid (field :: pieces) value).Below fields :=
  ⟨field, hfield, fpath pieces, by simp [setValue, fpath, hne]⟩

/-- The fields that the callback of a read may write. -/
def Read.fields : Read → List String
  | .buyLeaves .. | .calculateCurrent .. => ["currentLeaves"]
  | .buyInventory .. | .placeInventory .. | .removeInventory .. => ["inventory"]
  | .placeActive .. | .removeActive .. => ["activeItems"]
  | .claimDate .. => ["lastVisitedDate"]
  | .calculateAllTime .. => ["allTimeLeaves"]
  | .redeemUser .. => ["currentLeaves", "allTimeLeaves"]
  | .signInName .. | .signInInventory _ | .signInActive _ => []

/-- The reads that the callback of a read may issue. -/
def Read.Issues : Read → Read → Prop
  | .claimDate uid _, next =>
      ∃ total, next = .calculateCurrent uid total ∨ next = .calculateAllTime uid total
  | .signInName uid _, next => next = .signInInventory uid ∨ next = .signInActive uid
  | _, _ => False

/-- The one callback that may write a whole record, when a new user has none. -/
def Read.creates : Read → Bool
  | .signInName .. => true
  | _ => false

/-- What the effects of a callback are limited to. -/
structure Read.Limits (read : Read) (fx : Effects App Write Read) : Prop where
  writes : ∀ write ∈ fx.writes, write.Below read.fields
  reads : ∀ next ∈ fx.reads, read.Issues next

/-- Code limited to what the callback of a read does. -/
def Read.Limited (read : Read) (handled : Handled) : Prop :=
  ∀ fx, handled = .ok fx → read.Limits fx

namespace Read.Limited

variable {read : Read}

/-- Effects stay within the fields of a read when each of their writes and reads does. -/
theorem of_forall {app : App} {writes : List Write} {reads : List Read}
    (hwrites : ∀ write ∈ writes, write.Below read.fields)
    (hreads : ∀ next ∈ reads, read.Issues next) :
    read.Limited (.ok ⟨app, writes, reads⟩) := by
  intro fx hfx
  obtain rfl := Except.ok.inj hfx
  exact ⟨hwrites, hreads⟩

/-- Code that does nothing stays within the fields. -/
theorem done (app : App) : read.Limited app.done := of_forall (by simp) (by simp)

/-- Code with one write below the fields stays within them. -/
theorem one {app : App} {write : Write} (h : write.Below read.fields) :
    read.Limited (.ok ⟨app, [write], []⟩) :=
  of_forall (List.forall_mem_singleton.mpr h) (by simp)

/-- Code that traps writes nothing. -/
theorem error (trap : Trap) : read.Limited (.error trap) := by
  intro fx hfx
  cases hfx

/-- Code after a step that may trap stays within the fields if it does so for every result
of the step. -/
theorem bind {α : Type} (x : Except Trap α) {f : α → Handled}
    (h : ∀ a, read.Limited (f a)) : read.Limited (x >>= f) := by
  cases x with
  | error trap => exact .error trap
  | ok a => exact h a

/-- Code with two branches stays within the fields if both do. -/
theorem ite {p : Prop} [Decidable p] {yes no : Handled} (hyes : read.Limited yes)
    (hno : read.Limited no) : read.Limited (if p then yes else no) := by
  split
  · exact hyes
  · exact hno

end Read.Limited

open Read.Limited

/-- The writes that put a list back are all below `activeItems`. -/
theorem rewriteFrom_below (uid : Uid) (key coordinate : String) (index : Nat)
    (placed : List String) :
    ∀ write ∈ rewriteFrom uid key coordinate index placed, write.Below ["activeItems"] := by
  intro write hwrite
  obtain ⟨-, i, hpath⟩ := mem_rewriteFrom hwrite
  exact ⟨"activeItems", by simp, fpath [key, indexKey i], by rw [hpath]; simp [fpath]⟩

/-- Adding to a counter writes that counter and nothing else, whatever was answered. -/
theorem addToCounter_limited {read : Read} (uid : Uid) {counter : String} (hne : counter ≠ "")
    (hcounter : counter ∈ read.fields) (total : Int) (snapshot : Snapshot) (app : App) :
    read.Limited (addToCounter uid counter total snapshot app) := by
  cases snapshot with
  | error => exact done app
  | value node order =>
      refine .ite (done app) (.bind _ fun value => .bind _ fun leaves => ?_)
      exact .one (below_setValue uid hne [] _ hcounter)

/-- **What a callback is limited to.** -/
theorem callback_limited {read : Read} (hread : read.creates = false) (snapshot : Snapshot)
    (app : App) : read.Limited (read.callback snapshot app) := by
  have hinventory : ∀ (uid : Uid) key value,
      (setValue uid ["inventory", key] value).Below ["inventory"] :=
    fun uid key value => below_setValue uid (by decide) [key] value (by simp)
  have hactive : ∀ (uid : Uid) key index value,
      (setValue uid ["activeItems", key, index] value).Below ["activeItems"] :=
    fun uid key index value => below_setValue uid (by decide) [key, index] value (by simp)
  cases read with
  | signInName uid displayName => cases hread
  | calculateCurrent uid total =>
      exact addToCounter_limited uid (by decide) (by simp [Read.fields]) total snapshot app
  | calculateAllTime uid total =>
      exact addToCounter_limited uid (by decide) (by simp [Read.fields]) total snapshot app
  | buyLeaves uid cell tap =>
      cases snapshot with
      | error => exact done app
      | value node order =>
          refine .ite (done app) (.bind _ fun value => .ite ?_ (done _))
          exact .one (below_setValue uid (by decide) [] _ (by simp [Read.fields]))
  | buyInventory uid cell tap key =>
      cases snapshot with
      | error => exact done app
      | value node order =>
          refine .ite (.bind _ fun leaves => .ite ?_ (done _))
            (.bind _ fun leaves => .ite (.bind _ fun count => ?_) (done _))
          · exact .one (hinventory uid _ _)
          · exact .one (hinventory uid _ _)
  | placeActive uid key item coordinate =>
      cases snapshot with
      | error => exact done app
      | value node order =>
          refine .ite ?_ (.bind _ fun placed => ?_)
          · exact .one (hactive uid key "0" _)
          · exact .one (hactive uid key _ _)
  | placeInventory uid key =>
      cases snapshot with
      | error => exact done app
      | value node order =>
          refine .ite (done app) (.bind _ fun count => .ite ?_ ?_)
          · exact .one (hinventory uid key Tree.empty)
          · exact .one (hinventory uid key _)
  | removeActive uid key coordinate =>
      cases snapshot with
      | error => exact done app
      | value node order =>
          refine .ite (done app) (.bind _ fun placed => .of_forall ?_ (by simp))
          rw [List.forall_mem_cons]
          refine ⟨below_setValue uid (by decide) [key] Tree.empty (by simp [Read.fields]), ?_⟩
          split
          · exact rewriteFrom_below uid key coordinate 0 placed
          · simp
  | removeInventory uid key =>
      cases snapshot with
      | error => exact done app
      | value node order =>
          refine .ite (.ite (.error _) ?_) (.bind _ fun count => ?_)
          · exact .one (hinventory uid key _)
          · exact .one (hinventory uid key _)
  | claimDate uid result =>
      have hdate : ∀ value, (setValue uid ["lastVisitedDate"] value).Below ["lastVisitedDate"] :=
        fun value => below_setValue uid (by decide) [] value (by simp)
      have hcalculate : ∀ next ∈ calculate uid app, (Read.claimDate uid result).Issues next := by
        intro next hnext
        refine ⟨rewardTotal app.activeItems, ?_⟩
        simpa [calculate] using hnext
      cases snapshot with
      | error => exact done app
      | value node order =>
          refine .ite ?_ (.bind _ fun lastVisitedDate => .ite ?_ (.one (hdate _)))
          · exact .of_forall (List.forall_mem_singleton.mpr (hdate _)) hcalculate
          · exact .of_forall (List.forall_mem_singleton.mpr (hdate _)) hcalculate
  | redeemUser uid leaves =>
      cases snapshot with
      | error => exact done app
      | value node order =>
          refine .ite (done app) ?_
          split
          · exact done app
          · refine .bind _ fun uid => .bind _ fun currentLeaves => .bind _ fun current =>
              .bind _ fun allTimeLeaves => .bind _ fun allTime => ?_
            refine .of_forall
              (List.forall_mem_cons.mpr ⟨?_, List.forall_mem_singleton.mpr ?_⟩) (by simp)
            · exact below_setValue uid (by decide) [] _ (by simp [Read.fields])
            · exact below_setValue uid (by decide) [] _ (by simp [Read.fields])
  | signInInventory uid =>
      cases snapshot with
      | error => exact done app
      | value node order => exact .ite (done app) (.bind _ fun loaded => done _)
  | signInActive uid =>
      cases snapshot with
      | error => exact done app
      | value node order => exact .ite (done app) (.bind _ fun loaded => done _)

/-- A field that is not among them stays. -/
theorem callback_child {read : Read} (hread : read.creates = false) {snapshot : Snapshot}
    {app : App} {fx : Effects App Write Read} (hrun : read.callback snapshot app = .ok fx)
    {field : String} (hfield : field ∉ read.fields) (uid : Uid) (remote : Remote) :
    (client.applyAll fx.writes remote uid).child field = (remote uid).child field := by
  apply child_applyAll_of_ne
  intro write hwrite
  obtain ⟨field', hmem, path, hpath⟩ :=
    (callback_limited hread snapshot app fx hrun).writes write hwrite
  refine ⟨field', path, hpath, ?_⟩
  rintro rfl
  exact hfield hmem

end WillItRecycle

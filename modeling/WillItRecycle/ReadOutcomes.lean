import WillItRecycle.SessionRun
import WillItRecycle.StartedCallbacks

/-!
# Operations of two reads and how the reads turn out

Buying, placing, removing and the reward each issue two reads below different
fields of the record, and each callback writes below the field it read.  Such
reads do not interfere (`apart_of_fields`), so that the interleaving matters
only through which reads fail and which callback runs first.
-/

namespace WillItRecycle

open PathTree ReadCallback

/-- A counter of the record: absent, or an integer. -/
def IsCounter (node : FNode) : Prop := node = Tree.empty ∨ ∃ n, asInt node = some n

instance (snapshot : Snapshot) : Decidable (snapshot = .error) :=
  match snapshot with
  | .error => isTrue rfl
  | .value .. => isFalse fun h => by cases h

theorem answer_ne_error_iff (read : Read) (reply : Reply) (remote : Remote) :
    read.answer reply remote ≠ .error ↔ reply.Succeeds := by
  cases reply with
  | error => simp [Read.answer, Reply.Succeeds]
  | value order => simp [Read.answer, Reply.Succeeds]

/-- Code that issues no reads and writes below one field only. -/
def KeepsTo (field : String) (fx : Effects App Write Read) : Prop :=
  fx.reads = [] ∧ ∀ write ∈ fx.writes, ∃ path, write.path = field :: path

theorem keepsTo_done (field : String) (app : App) : KeepsTo field ⟨app, [], []⟩ :=
  ⟨rfl, fun _ hmem => by cases hmem⟩

/-- Two reads below different fields whose callbacks keep to these fields do
not interfere. -/
theorem apart_of_fields {remote : Remote} {left right : Read} {leftField rightField : String}
    (hne : leftField ≠ rightField)
    (hleftPath : ∃ path, left.path = leftField :: path)
    (hrightPath : ∃ path, right.path = rightField :: path)
    (hleft : ∀ reply app fx, left.callback (left.answer reply remote) app = .ok fx →
      KeepsTo leftField fx)
    (hright : ∀ reply app fx, right.callback (right.answer reply remote) app = .ok fx →
      KeepsTo rightField fx) :
    client.Apart remote [left, right] := by
  obtain ⟨leftPath, hleftPath⟩ := hleftPath
  obtain ⟨rightPath, hrightPath⟩ := hrightPath
  have hdistinct : left ≠ right := by
    rintro rfl
    rw [hleftPath] at hrightPath
    exact hne (List.cons.inj hrightPath).1
  refine ⟨by simpa using hdistinct, ?_, ?_⟩
  · intro read hread reply app fx hfx
    rcases List.mem_pair.mp hread with rfl | rfl
    · exact (hleft reply app fx hfx).1
    · exact (hright reply app fx hfx).1
  · intro read hread reply app fx hfx read' hread' hother reply' remote'
    rcases List.mem_pair.mp hread with rfl | rfl
    · rcases List.mem_pair.mp hread' with rfl | rfl
      · exact absurd rfl hother
      · exact answer_applyAll_of_branch leftField hne (hleft reply app fx hfx).2
          hrightPath reply' remote'
    · rcases List.mem_pair.mp hread' with rfl | rfl
      · exact answer_applyAll_of_branch rightField hne.symm (hright reply app fx hfx).2
          hleftPath reply' remote'
      · exact absurd rfl hother

end WillItRecycle

import Mathlib.Data.List.Basic

/-!
# Runs of a state that handles one event after another

A handler turns the state into the next one or traps.  What one event does to an
invariant, `run_notes` and `always_iff` extend to whole runs: the first for runs
that never trap, with what is noted along the way; the second for a property that
some events keep and the others destroy.
-/

namespace EventRun

variable {S V E N : Type} (step : S → V → Except E S)

/-- The run over a list of events; `error` when a handler traps. -/
def run (s : S) : List V → Except E S
  | [] => .ok s
  | e :: es => (step s e).bind fun s' => run s' es

/-- `C` holds of every event of the run, in the state it is handled in. -/
def Along (C : S → V → Prop) (s : S) : List V → Prop
  | [] => True
  | e :: es => C s e ∧ ∀ s', step s e = .ok s' → Along C s' es

/-- `P` holds of every state reached. -/
def Always (P : S → Prop) (s : S) : List V → Prop
  | [] => P s
  | e :: es => P s ∧ ∀ s', step s e = .ok s' → Always P s' es

/-- What is noted of the events of a run, in order. -/
def notes (note : S → V → List N) (s : S) : List V → List N
  | [] => []
  | e :: es =>
      note s e ++
        match step s e with
        | .ok s' => notes note s' es
        | .error _ => []

theorem run_cons_of_step {s s' : S} {e : V} (hstep : step s e = .ok s') (es : List V) :
    run step s (e :: es) = run step s' es := by
  simp [run, hstep, Except.bind]

theorem notes_cons_of_step {note : S → V → List N} {s s' : S} {e : V}
    (hstep : step s e = .ok s') (es : List V) :
    notes step note s (e :: es) = note s e ++ notes step note s' es := by
  simp [notes, hstep]

/-- What holds along a concrete run can be computed. -/
instance Along.decidable {C : S → V → Prop} [∀ s e, Decidable (C s e)] :
    ∀ (es : List V) (s : S), Decidable (Along step C s es)
  | [], _ => isTrue trivial
  | e :: es, s =>
      match hstep : step s e with
      | .ok s' =>
          have hrest : Decidable (Along step C s' es) := Along.decidable es s'
          decidable_of_iff (C s e ∧ Along step C s' es)
            (and_congr_right fun _ => by simp [hstep])
      | .error _ => decidable_of_iff (C s e) (by simp [Along, hstep])

/-- A concrete run and what holds at its end can be computed. -/
theorem exists_run_of_check {s : S} {es : List V} {P : S → Prop} [∀ s, Decidable (P s)]
    (h : (run step s es).toOption.any (fun s' => P s') = true) :
    ∃ s', run step s es = .ok s' ∧ P s' := by
  cases hrun : run step s es with
  | error err => simp [hrun, Except.toOption] at h
  | ok s' => exact ⟨s', rfl, by simpa [hrun, Except.toOption] using h⟩

/-- What holds in all states holds in the last one. -/
theorem Always.last {P : S → Prop} {s s' : S} {es : List V} (h : Always step P s es)
    (hrun : run step s es = .ok s') : P s' := by
  induction es generalizing s with
  | nil =>
      obtain rfl := Except.ok.inj hrun
      exact h
  | cons e es ih =>
      cases hstep : step s e with
      | error err => simp [run, hstep, Except.bind] at hrun
      | ok middle =>
          rw [run_cons_of_step step hstep] at hrun
          exact ih (h.2 middle hstep) hrun

/-- **The run rule.**  When every event that meets `C` keeps an invariant of the
notes and the state, and does not trap, so does a run of such events. -/
theorem run_notes {note : S → V → List N} {C : S → V → Prop} (inv : List N → S → Prop)
    (hstep : ∀ log s e, inv log s → C s e →
      ∃ s', step s e = .ok s' ∧ inv (log ++ note s e) s') :
    ∀ (es : List V) (log : List N) (s : S), inv log s → Along step C s es →
      ∃ s', run step s es = .ok s' ∧ inv (log ++ notes step note s es) s' := by
  intro es
  induction es with
  | nil =>
      intro log s hinv _
      exact ⟨s, rfl, by simpa [notes] using hinv⟩
  | cons e es ih =>
      intro log s hinv halong
      obtain ⟨middle, hmid, hnext⟩ := hstep log s e hinv halong.1
      obtain ⟨s', hrun, hend⟩ := ih _ middle hnext (halong.2 middle hmid)
      rw [List.append_assoc, ← notes_cons_of_step step hmid] at hend
      exact ⟨s', by rw [run_cons_of_step step hmid, hrun], hend⟩

/-- What an invariant gives of every event. -/
theorem Along.of_invariant {C D : S → V → Prop} (inv : S → Prop)
    (hstep : ∀ s e s', inv s → C s e → step s e = .ok s' → inv s')
    (hD : ∀ s e, inv s → C s e → D s e) :
    ∀ (es : List V) (s : S), inv s → Along step C s es → Along step D s es := by
  intro es
  induction es with
  | nil => intro s _ _; trivial
  | cons e es ih =>
      intro s hinv halong
      refine ⟨hD s e hinv halong.1, ?_⟩
      intro s' hnext
      exact ih s' (hstep s e s' hinv halong.1 hnext) (halong.2 s' hnext)

/-- A condition on the events alone. -/
theorem along_of_forall {C : V → Prop} {es : List V} (h : ∀ e ∈ es, C e) (s : S) :
    Along step (fun _ e => C e) s es := by
  induction es generalizing s with
  | nil => trivial
  | cons e es ih =>
      refine ⟨h e List.mem_cons_self, ?_⟩
      intro s' _
      exact ih (fun e' he' => h e' (List.mem_cons_of_mem _ he')) s'

/-- **What some events destroy.**  When an event, handled in a state that meets
the invariant and `P`, leaves `P` exactly when it meets `D`, and can trap only
when it meets `D`, then `P` holds in all states of a run exactly when all its
events meet `D`. -/
theorem always_iff {P : S → Prop} {D : S → V → Prop} (inv : S → Prop)
    (hstep : ∀ s e s', inv s → P s → step s e = .ok s' → inv s' ∧ (P s' ↔ D s e))
    (htrap : ∀ s e err, inv s → step s e = .error err → D s e) :
    ∀ (es : List V) (s : S), inv s → P s → (Always step P s es ↔ Along step D s es) := by
  intro es
  induction es with
  | nil =>
      intro s _ hP
      exact iff_of_true hP trivial
  | cons e es ih =>
      intro s hinv hP
      cases hnext : step s e with
      | error err =>
          have hD := htrap s e err hinv hnext
          simp [Always, Along, hnext, hP, hD]
      | ok s' =>
          obtain ⟨hinv', hiff⟩ := hstep s e s' hinv hP hnext
          have hrest : P s' → (Always step P s' es ↔ Along step D s' es) := ih s' hinv'
          have hfirst : Always step P s' es → P s' := by
            intro halways
            cases es with
            | nil => exact halways
            | cons e' es => exact halways.1
          simp only [Always, Along, hnext, hP, true_and, Except.ok.injEq, forall_eq']
          constructor
          · intro halways
            have hP' := hfirst halways
            exact ⟨hiff.mp hP', (hrest hP').mp halways⟩
          · intro halong
            exact (hrest (hiff.mpr halong.1)).mpr halong.2

end EventRun

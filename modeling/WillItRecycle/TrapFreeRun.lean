import WillItRecycle.SerialRun

/-!
# Runs that do not trap

A run does not trap when an invariant keeps all its code from trapping, and it does not
trap with `err` when none of its code does.

* `run_total` -- the rule for an invariant of the whole system, which may relate the
  store to the reads and the answers in flight;
* `run_ne_error` -- a trap that no code runs into.
-/

namespace ReadCallback

namespace Client

variable {R L W K I A T E : Type} (c : Client R L W K I A T E)

/-- What an invariant gives of every step of a run. -/
theorem Along.of_invariant {C D : Sys R L K A → Event T I → Prop} (inv : Sys R L K A → Prop)
    (hstep : ∀ s e o s', inv s → C s e → c.Step s e o s' → inv s')
    (hD : ∀ s e, inv s → C s e → D s e) (es : List (Event T I)) :
    ∀ {s : Sys R L K A}, inv s → c.Along C s es → c.Along D s es := by
  induction es with
  | nil => intro s _ _; trivial
  | cons e es ih =>
      intro s hinv halong
      refine ⟨hD s e hinv halong.1, ?_⟩
      intro s' hnext
      exact ih (hstep s e _ s' hinv halong.1 (c.step_cases hnext)) (halong.2 s' hnext)

/-- A step traps when its code does. -/
theorem step_error_cases {s : Sys R L K A} {e : Event T I} {err : E}
    (h : c.step s e = .error err) :
    (∃ t, e = .tap t ∧ c.tap t s.state = .error err) ∨
      ∃ i k a, e = .serve i ∧ s.pending[i]? = some ⟨k, some a⟩ ∧
        c.callback k a s.state = .error err := by
  cases e with
  | tap t =>
      cases hcode : c.tap t s.state with
      | error err' =>
          have herr : err' = err := by simpa [step, hcode, Except.map] using h
          exact Or.inl ⟨t, rfl, herr ▸ hcode⟩
      | ok fx => simp [step, hcode, Except.map] at h
  | answer i info =>
      simp only [step] at h
      split at h <;> cases h
  | serve i =>
      simp only [step] at h
      split at h
      · next k a hi =>
          cases hcode : c.callback k a s.state with
          | error err' =>
              have herr : err' = err := by simpa [hcode, Except.map] using h
              exact Or.inr ⟨i, k, a, rfl, hi, herr ▸ hcode⟩
          | ok fx => simp [hcode, Except.map] at h
      · cases h

/-- A run traps only with what some code traps with. -/
theorem run_ne_error {bad : E} (inv : Sys R L K A → Prop)
    (hstep : ∀ s e o s', inv s → c.Step s e o s' → inv s')
    (htap : ∀ s t, inv s → c.tap t s.state ≠ .error bad)
    (hcallback : ∀ s k a, inv s → c.callback k a s.state ≠ .error bad)
    (es : List (Event T I)) :
    ∀ {s : Sys R L K A}, inv s → c.run s es ≠ .error bad := by
  induction es with
  | nil =>
      intro s _ hrun
      cases hrun
  | cons e es ih =>
      intro s hinv hrun
      cases hfirst : c.step s e with
      | error err =>
          have herr : err = bad := by simpa [run, hfirst, Except.bind] using hrun
          subst herr
          rcases c.step_error_cases hfirst with ⟨t, -, hcode⟩ | ⟨i, k, a, -, -, hcode⟩
          · exact htap s t hinv hcode
          · exact hcallback s k a hinv hcode
      | ok middle =>
          rw [c.run_cons_of_step hfirst] at hrun
          exact ih (hstep s e _ middle hinv (c.step_cases hfirst)) hrun

/-- A step whose code does not trap is taken. -/
theorem step_total {s : Sys R L K A} {e : Event T I}
    (htap : ∀ t, e = .tap t → ∃ fx, c.tap t s.state = .ok fx)
    (hcallback : ∀ k a, ⟨k, some a⟩ ∈ s.pending → ∃ fx, c.callback k a s.state = .ok fx) :
    ∃ s', c.step s e = .ok s' := by
  cases hstep : c.step s e with
  | ok s' => exact ⟨s', rfl⟩
  | error err =>
      rcases c.step_error_cases hstep with ⟨t, he, hcode⟩ | ⟨i, k, a, _, hi, hcode⟩
      · obtain ⟨fx, hfx⟩ := htap t he
        rw [hfx] at hcode
        cases hcode
      · obtain ⟨fx, hfx⟩ := hcallback k a (List.mem_of_getElem? hi)
        rw [hfx] at hcode
        cases hcode

/-- **The totality rule.**  Steps that meet `C` keep an invariant, and the invariant keeps
their code from trapping: then a run whose steps all meet `C` ends, whatever the
interleaving. -/
theorem run_total {C : Sys R L K A → Event T I → Prop} (inv : Sys R L K A → Prop)
    (htap : ∀ s t, inv s → C s (.tap t) → ∃ fx, c.tap t s.state = .ok fx)
    (hcallback : ∀ s k a, inv s → ⟨k, some a⟩ ∈ s.pending →
      ∃ fx, c.callback k a s.state = .ok fx)
    (hstep : ∀ s e o s', inv s → C s e → c.Step s e o s' → inv s') (es : List (Event T I)) :
    ∀ {s : Sys R L K A}, inv s → c.Along C s es → ∃ s', c.run s es = .ok s' ∧ inv s' := by
  induction es with
  | nil =>
      intro s hinv _
      exact ⟨s, rfl, hinv⟩
  | cons e es ih =>
      intro s hinv halong
      obtain ⟨middle, hmid⟩ : ∃ middle, c.step s e = .ok middle := by
        refine c.step_total ?_ (fun k a => hcallback s k a hinv)
        rintro t rfl
        exact htap s t hinv halong.1
      have hnext := hstep s e _ middle hinv halong.1 (c.step_cases hmid)
      obtain ⟨s', hrun, hend⟩ := ih hnext (halong.2 middle hmid)
      exact ⟨s', by rw [c.run_cons_of_step hmid, hrun], hend⟩

end Client

end ReadCallback

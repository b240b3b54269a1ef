import WillItRecycle.ReadCallback
import Mathlib.Data.List.Perm.Subperm

/-!
# One operation and its callbacks

When nothing else is tapped, a run only executes callbacks.  `started` lists
them in the order in which they run, each with the answer it was given, the one
that traps included; `settle` executes such a list, so that a run without taps
is its `settle` (`run_eq_settle`).

For reads none of which depends on what the callbacks of the others write,
the environment decides no more than the answers and the order: the callbacks
started are those of a rearrangement of the reads, each on an answer of the
store the operation was tapped on (`started_apart`).
-/

namespace ReadCallback

variable {R L W K I A T E : Type}

theorem taps_of_cons {e : Event T I} {es : List (Event T I)} (htaps : taps (e :: es) = []) :
    taps es = [] := by
  cases e with
  | tap t => cases htaps
  | answer i info => exact htaps
  | serve i => exact htaps

namespace Client

variable (c : Client R L W K I A T E)

/-- The callback an event starts, and the answer it is given. -/
def starts (s : Sys R L K A) : Event T I → Option (K × A)
  | .serve i =>
      match s.pending[i]? with
      | some ⟨k, some a⟩ => some (k, a)
      | _ => none
  | _ => none

/-- The callbacks started along a list of events, up to the first that traps. -/
def started (s : Sys R L K A) : List (Event T I) → List (K × A)
  | [] => []
  | e :: es =>
      (starts s e).toList ++
        match c.step s e with
        | .ok s' => started s' es
        | .error _ => []

/-- Callbacks run one after another. -/
def settle : List (K × A) → R → L → Except E (R × L)
  | [], r, l => .ok (r, l)
  | (k, a) :: calls, r, l =>
      (c.callback k a l).bind fun fx => settle calls (c.applyAll fx.writes r) fx.state

@[simp] theorem settle_nil (r : R) (l : L) : c.settle [] r l = .ok (r, l) := rfl

theorem settle_cons_ok {k : K} {a : A} {l : L} {fx : Effects L W K}
    (hfx : c.callback k a l = .ok fx) (calls : List (K × A)) (r : R) :
    c.settle ((k, a) :: calls) r l = c.settle calls (c.applyAll fx.writes r) fx.state := by
  simp [settle, hfx, Except.bind]

theorem settle_cons_error {k : K} {a : A} {l : L} {err : E}
    (hfx : c.callback k a l = .error err) (calls : List (K × A)) (r : R) :
    c.settle ((k, a) :: calls) r l = .error err := by
  simp [settle, hfx, Except.bind]

/-- The store and the client after a run. -/
def outcome (run : Except E (Sys R L K A)) : Except E (R × L) :=
  run.map fun s => (s.remote, s.state)

theorem run_cons_error {s : Sys R L K A} {e : Event T I} {err : E}
    (hstep : c.step s e = .error err) (es : List (Event T I)) :
    c.run s (e :: es) = .error err := by
  simp [run, hstep, Except.bind]

/-- **A run without taps executes the callbacks it starts.** -/
theorem run_eq_settle {es : List (Event T I)} (htaps : taps es = []) :
    ∀ s : Sys R L K A,
      outcome (c.run s es) = c.settle (c.started s es) s.remote s.state := by
  induction es with
  | nil => intro s; rfl
  | cons e es ih =>
      intro s
      cases e with
      | tap t => cases htaps
      | answer i info =>
          obtain ⟨s', hstep, hremote, hstate⟩ : ∃ s',
              c.step s (.answer i info) = .ok s' ∧ s'.remote = s.remote ∧
                s'.state = s.state := by
            simp only [step]
            split
            · exact ⟨_, rfl, rfl, rfl⟩
            · exact ⟨_, rfl, rfl, rfl⟩
          rw [c.run_cons_of_step hstep, ih htaps s', hremote, hstate]
          simp [started, starts, hstep]
      | serve i =>
          have hidle : starts s (.serve i : Event T I) = none →
              c.step s (.serve i) = .ok s := by
            intro hnone
            cases hi : s.pending[i]? with
            | none => simp [step, hi]
            | some p =>
                rcases p with ⟨k, _ | a⟩
                · simp [step, hi]
                · simp [starts, hi] at hnone
          cases hstarts : starts s (.serve i : Event T I) with
          | none =>
              rw [c.run_cons_of_step (hidle hstarts), ih htaps s]
              simp [started, hstarts, hidle hstarts]
          | some call =>
              obtain ⟨k, a⟩ := call
              have hserved : s.pending[i]? = some ⟨k, some a⟩ := by
                simp only [starts] at hstarts
                split at hstarts
                · next hserved => cases hstarts; exact hserved
                · cases hstarts
              cases hfx : c.callback k a s.state with
              | error err =>
                  have hstep : c.step s (.serve i) = .error err := by
                    simp [step, hserved, hfx, Except.map]
                  rw [c.run_cons_error hstep]
                  simp [started, hstarts, hstep, settle, hfx, outcome, Except.bind,
                    Except.map]
              | ok fx =>
                  have hstep : c.step s (.serve i) =
                      .ok (c.perform s (s.pending.eraseIdx i) fx) := by
                    simp [step, hserved, hfx, Except.map]
                  rw [c.run_cons_of_step hstep, ih htaps]
                  simp [started, hstarts, hstep, settle, hfx, perform, Except.bind]

theorem exists_outcome_iff {run : Except E (Sys R L K A)} {P : R → L → Prop} :
    (∃ s', run = .ok s' ∧ P s'.remote s'.state) ↔
      ∃ r l, outcome run = .ok (r, l) ∧ P r l := by
  cases run with
  | error err => simp [outcome, Except.map]
  | ok s => simp [outcome, Except.map]

theorem exists_ok_iff {r : R} {l : L} {P : R → L → Prop} :
    (∃ r' l', (.ok (r, l) : Except E (R × L)) = .ok (r', l') ∧ P r' l') ↔ P r l := by
  simp

/-- A trap leaves no outcome. -/
theorem not_exists_error {err : E} {P : R → L → Prop} :
    ¬ ∃ r' l', (.error err : Except E (R × L)) = .ok (r', l') ∧ P r' l' := by
  simp

theorem started_tap {s s' : Sys R L K A} {t : T} (hstep : c.step s (.tap t) = .ok s')
    (es : List (Event T I)) : c.started s (.tap t :: es) = c.started s' es := by
  simp [started, starts, hstep]

/-- What holds after one tap and its callbacks. -/
theorem tapped_iff {s s' : Sys R L K A} {t : T} (hstep : c.step s (.tap t) = .ok s')
    {es : List (Event T I)} (htaps : taps es = []) {P : R → L → Prop} :
    (∃ final, c.run s (.tap t :: es) = .ok final ∧ P final.remote final.state) ↔
      ∃ r l, c.settle (c.started s (.tap t :: es)) s'.remote s'.state = .ok (r, l) ∧
        P r l := by
  rw [exists_outcome_iff, c.run_cons_of_step hstep, c.run_eq_settle htaps,
    c.started_tap hstep]

/-! ## Reads that do not interfere -/

/-- The callbacks on `ks`, given what `r₀` answers, issue no reads, and none of
them writes what another one reads. -/
structure Apart (r₀ : R) (ks : List K) : Prop where
  nodup : ks.Nodup
  reads : ∀ k ∈ ks, ∀ info l fx, c.callback k (c.answer k info r₀) l = .ok fx →
    fx.reads = []
  answer : ∀ k ∈ ks, ∀ info l fx, c.callback k (c.answer k info r₀) l = .ok fx →
    ∀ k' ∈ ks, k' ≠ k → ∀ info' r,
      c.answer k' info' (c.applyAll fx.writes r) = c.answer k' info' r

/-- Some of `ks` are pending, and the store still answers them as `r₀` does. -/
structure Waiting (r₀ : R) (ks : List K) (s : Sys R L K A) : Prop where
  nodup : s.reads.Nodup
  mem : ∀ k ∈ s.reads, k ∈ ks
  given : ∀ p ∈ s.pending, ∀ a, p.answer = some a → ∃ info, a = c.answer p.read info r₀
  current : ∀ k ∈ s.reads, ∀ info, c.answer k info s.remote = c.answer k info r₀

section Waiting

variable {r₀ : R} {ks : List K} {s : Sys R L K A}

/-- An operation has just been tapped. -/
theorem Waiting.of_tapped (hks : ks.Nodup) (l : L) :
    c.Waiting r₀ ks ⟨r₀, l, ks.map fun k => ⟨k, none⟩⟩ := by
  have hreads : Sys.reads (⟨r₀, l, ks.map fun k => ⟨k, none⟩⟩ : Sys R L K A) = ks := by
    simp [Sys.reads, Function.comp_def]
  refine ⟨?_, ?_, ?_, fun _ _ _ => rfl⟩
  · rw [hreads]
    exact hks
  · rw [hreads]
    exact fun _ hk => hk
  · intro p hp a ha
    obtain ⟨k, _, rfl⟩ := List.mem_map.mp hp
    cases ha

theorem Waiting.answered (h : c.Waiting r₀ ks s) {k : K}
    {before after : List (Pending K A)} (hpending : s.pending = before ++ ⟨k, none⟩ :: after)
    (info : I) :
    c.Waiting r₀ ks { s with
      pending := before ++ ⟨k, some (c.answer k info s.remote)⟩ :: after } := by
  have hreads : Sys.reads { s with
      pending := before ++ ⟨k, some (c.answer k info s.remote)⟩ :: after } = s.reads := by
    unfold Sys.reads
    rw [hpending, List.map_append, List.map_append]
    rfl
  have hk : k ∈ s.reads := by
    unfold Sys.reads
    rw [hpending]
    simp
  refine ⟨hreads ▸ h.nodup, hreads ▸ h.mem, ?_, hreads ▸ h.current⟩
  intro p hp a ha
  rw [List.mem_append, List.mem_cons] at hp
  rcases hp with hp | rfl | hp
  · exact h.given p (by simp [hpending, hp]) a ha
  · obtain rfl := Option.some.inj ha
    exact ⟨info, h.current k hk info⟩
  · exact h.given p (by simp [hpending, hp]) a ha

/-- The read served is gone, the others still wait. -/
theorem Waiting.served (h : c.Waiting r₀ ks s) (hapart : c.Apart r₀ ks) {k : K} {info : I}
    {before after : List (Pending K A)}
    (hpending : s.pending = before ++ ⟨k, some (c.answer k info r₀)⟩ :: after)
    {fx : Effects L W K} (hfx : c.callback k (c.answer k info r₀) s.state = .ok fx) :
    c.Waiting r₀ ks (c.perform s (before ++ after) fx) ∧
      s.reads.Perm (k :: (c.perform s (before ++ after) fx).reads) := by
  have hperm : s.reads.Perm (k :: (before ++ after).map Pending.read) := by
    unfold Sys.reads
    rw [hpending, List.map_append, List.map_cons, List.map_append]
    exact List.perm_middle
  have hk := h.mem k (hperm.symm.subset List.mem_cons_self)
  have hnodup := hperm.nodup_iff.mp h.nodup
  rw [List.nodup_cons] at hnodup
  have hreads : (c.perform s (before ++ after) fx).reads =
      (before ++ after).map Pending.read := by
    rw [c.reads_perform, hapart.reads k hk info _ fx hfx, List.append_nil]
  have hrest : ∀ k' ∈ (before ++ after).map Pending.read, k' ∈ s.reads := by
    intro k' hk'
    exact hperm.symm.subset (List.mem_cons_of_mem _ hk')
  refine ⟨⟨?_, ?_, ?_, ?_⟩, ?_⟩
  · rw [hreads]
    exact hnodup.2
  · rw [hreads]
    intro k' hk'
    exact h.mem k' (hrest k' hk')
  · intro p hp a ha
    change p ∈ before ++ after ++ fx.reads.map (fun k => ⟨k, none⟩) at hp
    rw [hapart.reads k hk info _ fx hfx, List.map_nil, List.append_nil] at hp
    exact h.given p (mem_pending_of_rest hpending p hp) a ha
  · rw [hreads]
    intro k' hk' info'
    have hne : k' ≠ k := by
      intro heq
      exact hnodup.1 (heq ▸ hk')
    change c.answer k' info' (c.applyAll fx.writes s.remote) = _
    rw [hapart.answer k hk info _ fx hfx k' (h.mem k' (hrest k' hk')) hne,
      h.current k' (hrest k' hk')]
  · rw [hreads]
    exact hperm

end Waiting

/-- The answers the store `r₀` gives under the circumstances chosen. -/
def answers (r₀ : R) (calls : List (K × I)) : List (K × A) :=
  calls.map fun call => (call.1, c.answer call.1 call.2 r₀)

/-- **The callbacks started.**  Without taps, reads that do not interfere are
answered as by the store at the start, and those served are no longer pending. -/
theorem started_apart {r₀ : R} {ks : List K} (hapart : c.Apart r₀ ks) :
    ∀ {es : List (Event T I)} {s : Sys R L K A}, taps es = [] → c.Waiting r₀ ks s →
      ∃ calls : List (K × I), c.started s es = c.answers r₀ calls ∧
        (calls.map Prod.fst).Subperm s.reads ∧
        ∀ s', c.run s es = .ok s' → (calls.map Prod.fst ++ s'.reads).Perm s.reads := by
  intro es
  induction es with
  | nil =>
      intro s _ _
      refine ⟨[], rfl, List.nil_subperm, ?_⟩
      intro s' hrun
      obtain rfl : s = s' := by simpa using hrun
      exact List.Perm.refl _
  | cons e es ih =>
      intro s htaps hwaiting
      have hrest := taps_of_cons htaps
      -- a step that starts no callback and keeps the reads pending
      have hquiet : ∀ s', c.step s e = .ok s' → starts s e = none → s'.reads = s.reads →
          c.Waiting r₀ ks s' → ∃ calls : List (K × I),
            c.started s (e :: es) = c.answers r₀ calls ∧
            (calls.map Prod.fst).Subperm s.reads ∧
            ∀ s', c.run s (e :: es) = .ok s' →
              (calls.map Prod.fst ++ s'.reads).Perm s.reads := by
        intro s' hstep hnone hreads hwaiting'
        obtain ⟨calls, hstarted, hsub, hdone⟩ := ih hrest hwaiting'
        refine ⟨calls, ?_, hreads ▸ hsub, ?_⟩
        · simp [started, hstep, hnone, hstarted]
        · intro final hrun
          rw [c.run_cons_of_step hstep] at hrun
          exact hreads ▸ hdone final hrun
      cases e with
      | tap t => cases htaps
      | answer i info =>
          cases hi : s.pending[i]? with
          | none => exact hquiet s (by simp [step, hi]) rfl rfl hwaiting
          | some p =>
              rcases p with ⟨k, _ | a⟩
              · obtain ⟨before, after, hsplit, rfl⟩ := split_of_getElem? hi
                have hanswered := hwaiting.answered c hsplit info
                refine hquiet _ ?_ rfl ?_ hanswered
                · simp [step, hi]
                  simp [hsplit]
                · unfold Sys.reads
                  rw [hsplit, List.map_append, List.map_append]
                  rfl
              · exact hquiet s (by simp [step, hi]) rfl rfl hwaiting
      | serve i =>
          cases hi : s.pending[i]? with
          | none => exact hquiet s (by simp [step, hi]) (by simp [starts, hi]) rfl hwaiting
          | some p =>
              rcases p with ⟨k, _ | a⟩
              · exact hquiet s (by simp [step, hi]) (by simp [starts, hi]) rfl hwaiting
              · obtain ⟨info, hinfo⟩ : ∃ info, a = c.answer k info r₀ :=
                  hwaiting.given _ (List.mem_of_getElem? hi) a rfl
                subst hinfo
                obtain ⟨before, after, hsplit, rfl⟩ := split_of_getElem? hi
                have hkmem : k ∈ s.reads := by
                  unfold Sys.reads
                  rw [hsplit]
                  simp
                have hstarts : starts s (.serve before.length : Event T I) =
                    some (k, c.answer k info r₀) := by
                  simp [starts, hi]
                cases hfx : c.callback k (c.answer k info r₀) s.state with
                | error err =>
                    have hstep : c.step s (.serve before.length) = .error err := by
                      simp [step, hi, hfx, Except.map]
                    refine ⟨[(k, info)], ?_, ?_, ?_⟩
                    · simp [started, hstarts, hstep, answers]
                    · exact List.singleton_subperm_iff.mpr hkmem
                    · intro s' hrun
                      rw [c.run_cons_error hstep] at hrun
                      cases hrun
                | ok fx =>
                    obtain ⟨hnext, hperm⟩ := hwaiting.served c hapart hsplit hfx
                    have hstep : c.step s (.serve before.length) =
                        .ok (c.perform s (before ++ after) fx) := by
                      simp [step, hi, hfx, Except.map]
                      simp [hsplit, List.eraseIdx_append_of_length_le]
                    obtain ⟨calls, hstarted, hsub, hdone⟩ := ih hrest hnext
                    refine ⟨(k, info) :: calls, ?_, ?_, ?_⟩
                    · simp [started, hstarts, hstep, hstarted, answers]
                    · exact (List.subperm_cons k |>.mpr hsub).trans hperm.symm.subperm
                    · intro s' hrun
                      rw [c.run_cons_of_step hstep] at hrun
                      exact ((hdone s' hrun).cons k).trans hperm.symm

/-- The run traps, or it leaves nothing pending. -/
def Finishes (s : Sys R L K A) (es : List (Event T I)) : Prop :=
  ∀ s', c.run s es = .ok s' → s'.pending = []

/-- For a concrete run this can be computed. -/
theorem finishes_of_check {s : Sys R L K A} {es : List (Event T I)}
    (h : (c.run s es).toOption.all (fun s' => s'.pending.isEmpty) = true) :
    c.Finishes s es := by
  intro s' hrun
  simpa [hrun, Except.toOption] using h

/-- **Two reads that do not interfere.**  Both callbacks run, in either order,
unless the first of them traps. -/
theorem started_pair {r₀ : R} {l : L} {k₁ k₂ : K} (hapart : c.Apart r₀ [k₁, k₂])
    {es : List (Event T I)} (htaps : taps es = [])
    (hdone : c.Finishes ⟨r₀, l, [⟨k₁, none⟩, ⟨k₂, none⟩]⟩ es) :
    (∃ i j, c.started ⟨r₀, l, [⟨k₁, none⟩, ⟨k₂, none⟩]⟩ es =
      [(k₁, c.answer k₁ i r₀), (k₂, c.answer k₂ j r₀)]) ∨
    (∃ i j, c.started ⟨r₀, l, [⟨k₁, none⟩, ⟨k₂, none⟩]⟩ es =
      [(k₂, c.answer k₂ j r₀), (k₁, c.answer k₁ i r₀)]) ∨
    (∃ i err, c.started ⟨r₀, l, [⟨k₁, none⟩, ⟨k₂, none⟩]⟩ es =
        [(k₁, c.answer k₁ i r₀)] ∧ c.callback k₁ (c.answer k₁ i r₀) l = .error err) ∨
    (∃ j err, c.started ⟨r₀, l, [⟨k₁, none⟩, ⟨k₂, none⟩]⟩ es =
        [(k₂, c.answer k₂ j r₀)] ∧ c.callback k₂ (c.answer k₂ j r₀) l = .error err) := by
  have hwaiting : c.Waiting r₀ [k₁, k₂] ⟨r₀, l, [⟨k₁, none⟩, ⟨k₂, none⟩]⟩ :=
    Waiting.of_tapped c hapart.nodup l
  obtain ⟨calls, hstarted, hsub, hall⟩ := c.started_apart hapart htaps hwaiting
  have hsettle := c.run_eq_settle htaps ⟨r₀, l, [⟨k₁, none⟩, ⟨k₂, none⟩]⟩
  rw [hstarted] at hsettle
  -- with fewer than two callbacks the run must have trapped
  have htrap : calls.length < 2 → ∀ r' l', c.settle (c.answers r₀ calls) r₀ l ≠ .ok (r', l') := by
    intro hshort r' l' hok
    rw [hok] at hsettle
    cases hrun : c.run ⟨r₀, l, [⟨k₁, none⟩, ⟨k₂, none⟩]⟩ es with
    | error err => simp [hrun, outcome, Except.map] at hsettle
    | ok s' =>
        have hlength := (hall s' hrun).length_eq
        have hreads : s'.reads = [] := by simp [Sys.reads, hdone s' hrun]
        rw [hreads, List.append_nil, List.length_map] at hlength
        change calls.length = 2 at hlength
        omega
  have hmem : ∀ call ∈ calls, call.1 = k₁ ∨ call.1 = k₂ := by
    intro call hcall
    simpa [Sys.reads] using hsub.subset (List.mem_map_of_mem hcall)
  have hnodup : (calls.map Prod.fst).Nodup := by
    obtain ⟨ys, hperm, hsublist⟩ := hsub
    exact hperm.nodup_iff.mp (hapart.nodup.sublist hsublist)
  have hlength : calls.length ≤ 2 := by
    have hle := hsub.length_le
    rw [List.length_map] at hle
    exact hle
  rw [hstarted]
  rcases calls with _ | ⟨⟨k, i⟩, _ | ⟨⟨k', j⟩, _ | ⟨call, rest⟩⟩⟩
  · exact absurd rfl (htrap (by simp) r₀ l)
  · cases hfx : c.callback k (c.answer k i r₀) l with
    | ok fx =>
        have hok := htrap (by simp) (c.applyAll fx.writes r₀) fx.state
        exact absurd (by simp [answers, settle_cons_ok c hfx]) hok
    | error err =>
        rcases hmem (k, i) (by simp) with rfl | rfl
        · exact Or.inr (Or.inr (Or.inl ⟨i, err, rfl, hfx⟩))
        · exact Or.inr (Or.inr (Or.inr ⟨i, err, rfl, hfx⟩))
  · have hne : k ≠ k' := by simpa using hnodup
    rcases hmem (k, i) (by simp) with rfl | rfl
    · rcases hmem (k', j) (by simp) with rfl | rfl
      · exact absurd rfl hne
      · exact Or.inl ⟨i, j, rfl⟩
    · rcases hmem (k', j) (by simp) with rfl | rfl
      · exact Or.inr (Or.inl ⟨j, i, rfl⟩)
      · exact absurd rfl hne
  · simp at hlength

theorem Finishes.of_step {s s' : Sys R L K A} {e : Event T I} {es : List (Event T I)}
    (h : c.Finishes s (e :: es)) (hstep : c.step s e = .ok s') : c.Finishes s' es := by
  intro final hrun
  apply h final
  rw [c.run_cons_of_step hstep, hrun]

/-- Without taps all code run is that of the callbacks started. -/
theorem served_of_mem_trace {es : List (Event T I)} (htaps : taps es = []) :
    ∀ {s : Sys R L K A} {entry : Entry L W K A T}, entry ∈ c.trace s es →
      ∃ k a l fx, entry = .served k a fx ∧ (k, a) ∈ c.started s es ∧
        c.callback k a l = .ok fx := by
  induction es with
  | nil =>
      intro s entry hentry
      cases hentry
  | cons e es ih =>
      intro s entry hentry
      have hrest := taps_of_cons htaps
      unfold trace at hentry
      rcases List.mem_append.mp hentry with hfirst | hlater
      · have hrun := Option.mem_toList.mp hfirst
        cases e with
        | tap t => cases htaps
        | answer i info => cases hrun
        | serve i =>
            cases hi : s.pending[i]? with
            | none => simp [Client.entry, hi] at hrun
            | some p =>
                rcases p with ⟨k, _ | a⟩
                · simp [Client.entry, hi] at hrun
                · cases hfx : c.callback k a s.state with
                  | error err => simp [Client.entry, hi, hfx, Except.toOption] at hrun
                  | ok fx =>
                      refine ⟨k, a, s.state, fx, ?_, ?_, hfx⟩
                      · simpa [Client.entry, hi, hfx, Except.toOption, eq_comm] using hrun
                      · unfold started
                        simp [starts, hi]
      · cases hstep : c.step s e with
        | error err =>
            rw [hstep] at hlater
            cases hlater
        | ok s' =>
            rw [hstep] at hlater
            obtain ⟨k, a, l, fx, heq, hmem, hfx⟩ := ih hrest hlater
            refine ⟨k, a, l, fx, heq, ?_, hfx⟩
            unfold started
            rw [hstep]
            exact List.mem_append_right _ hmem

/-! ## A read alone -/

/-- Nothing is pending and nothing is tapped. -/
theorem run_idle {es : List (Event T I)} (htaps : taps es = []) (r : R) (l : L) :
    c.run ⟨r, l, []⟩ es = .ok ⟨r, l, []⟩ ∧ c.started ⟨r, l, []⟩ es = [] := by
  induction es with
  | nil => exact ⟨rfl, rfl⟩
  | cons e es ih =>
      cases e with
      | tap t => cases htaps
      | answer i info =>
          have hstep : c.step ⟨r, l, []⟩ (.answer i info) = .ok ⟨r, l, []⟩ := rfl
          rw [c.run_cons_of_step hstep]
          simpa [started, starts, hstep] using ih htaps
      | serve i =>
          have hstep : c.step ⟨r, l, []⟩ (.serve i : Event T I) = .ok ⟨r, l, []⟩ := rfl
          rw [c.run_cons_of_step hstep]
          simpa [started, starts, hstep] using ih htaps

/-- The run from `s` starts with the callback of `k`, given an answer of `r`, and
goes on from what the callback leaves. -/
def ServesFirst (k : K) (r : R) (l : L) (s : Sys R L K A) (es : List (Event T I)) : Prop :=
  (∃ i err, c.callback k (c.answer k i r) l = .error err ∧ c.run s es = .error err ∧
    c.started s es = [(k, c.answer k i r)]) ∨
  ∃ i fx rest, c.callback k (c.answer k i r) l = .ok fx ∧ taps rest = [] ∧
    c.run s es =
      c.run ⟨c.applyAll fx.writes r, fx.state, fx.reads.map fun k => ⟨k, none⟩⟩ rest ∧
    c.started s es = (k, c.answer k i r) ::
      c.started ⟨c.applyAll fx.writes r, fx.state, fx.reads.map fun k => ⟨k, none⟩⟩ rest

/-- **A read alone.**  A run that finishes serves it first. -/
theorem started_single {k : K} {l : L} {r : R} {es : List (Event T I)} (htaps : taps es = []) :
    ∀ {o : Option A}, (∀ a, o = some a → ∃ i, a = c.answer k i r) →
      c.Finishes ⟨r, l, [⟨k, o⟩]⟩ es → c.ServesFirst k r l ⟨r, l, [⟨k, o⟩]⟩ es := by
  induction es with
  | nil =>
      intro o _ hdone
      cases hdone _ rfl
  | cons e es ih =>
      intro o hgiven hdone
      -- a step that leaves the read pending
      have hwait : ∀ o' : Option A, (∀ a, o' = some a → ∃ i, a = c.answer k i r) →
          c.step ⟨r, l, [⟨k, o⟩]⟩ e = .ok ⟨r, l, [⟨k, o'⟩]⟩ →
          starts (⟨r, l, [⟨k, o⟩]⟩ : Sys R L K A) e = none → taps es = [] →
          c.ServesFirst k r l ⟨r, l, [⟨k, o⟩]⟩ (e :: es) := by
        intro o' hgiven' hstep hnone hrest
        have hnext := ih hrest hgiven' (hdone.of_step c hstep)
        have hstarted : c.started ⟨r, l, [⟨k, o⟩]⟩ (e :: es) =
            c.started ⟨r, l, [⟨k, o'⟩]⟩ es := by
          simp [started, hstep, hnone]
        unfold ServesFirst
        rw [c.run_cons_of_step hstep, hstarted]
        exact hnext
      cases e with
      | tap t => cases htaps
      | answer i info =>
          cases i with
          | succ i => exact hwait o hgiven rfl rfl htaps
          | zero =>
              cases o with
              | some a => exact hwait (some a) hgiven rfl rfl htaps
              | none =>
                  refine hwait (some (c.answer k info r)) ?_ rfl rfl htaps
                  intro a ha
                  exact ⟨info, (Option.some.inj ha).symm⟩
      | serve i =>
          cases i with
          | succ i => exact hwait o hgiven rfl rfl htaps
          | zero =>
              cases o with
              | none => exact hwait none hgiven rfl rfl htaps
              | some a =>
                  obtain ⟨info, rfl⟩ := hgiven a rfl
                  cases hfx : c.callback k (c.answer k info r) l with
                  | error err =>
                      left
                      have hstep : c.step ⟨r, l, [⟨k, some (c.answer k info r)⟩]⟩
                          (.serve 0 : Event T I) = .error err := by
                        simp [step, hfx, Except.map]
                      refine ⟨info, err, hfx, c.run_cons_error hstep es, ?_⟩
                      simp [started, starts, hstep]
                  | ok fx =>
                      right
                      have hstep : c.step ⟨r, l, [⟨k, some (c.answer k info r)⟩]⟩
                          (.serve 0 : Event T I) =
                          .ok ⟨c.applyAll fx.writes r, fx.state,
                            fx.reads.map fun k => ⟨k, none⟩⟩ := by
                        simp [step, hfx, Except.map, perform]
                      refine ⟨info, fx, es, hfx, htaps, c.run_cons_of_step hstep es, ?_⟩
                      simp [started, starts, hstep]

end Client

end ReadCallback

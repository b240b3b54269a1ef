import WillItRecycle.ReadCallback

/-!
# Runs in which operations do not overlap

A run is serial when the user waits for everything pending before the next
tap and callbacks are served in issue order; answers may still arrive at any
time.  `Settles` is the proof obligation such a run leaves: serve the pending
reads one after another, each with the answer of the store as it then is, and
arrive where `Q` holds.  `serial_run_iff` turns it, with one obligation for
each tap, into a statement about every serial run: it never traps, and whenever
nothing is pending the condition tracked by the taps so far holds.
-/

namespace ReadCallback

/-- Taps wait until nothing is pending, callbacks are served in issue order,
and only the answers admitted by `ok` occur. -/
def Serial {R L K A T I : Type} (ok : I → Prop) (s : Sys R L K A) :
    Event T I → Prop
  | .tap _ => s.pending = []
  | .answer _ info => ok info
  | .serve i => i = 0

instance {R L K A T I : Type} (ok : I → Prop) [DecidablePred ok] (s : Sys R L K A)
    (e : Event T I) : Decidable (Serial ok s e) :=
  match e with
  | .tap _ => inferInstanceAs (Decidable (s.pending = []))
  | .answer _ info => inferInstanceAs (Decidable (ok info))
  | .serve i => inferInstanceAs (Decidable (i = 0))

/-- Every tap meets `D`, in the system it is made in. -/
def TapMeets {R L K A T I : Type} (D : T → R → L → Prop) (s : Sys R L K A)
    (e : Event T I) : Prop :=
  ∀ t, e = .tap t → D t s.remote s.state

instance {R L K A T I : Type} (D : T → R → L → Prop)
    [∀ t r l, Decidable (D t r l)] (s : Sys R L K A) (e : Event T I) :
    Decidable (TapMeets D s e) :=
  match e with
  | .tap t => decidable_of_iff (D t s.remote s.state) (by simp [TapMeets])
  | .answer _ _ => isTrue (by simp [TapMeets])
  | .serve _ => isTrue (by simp [TapMeets])

theorem mem_taps {T I : Type} {t : T} {es : List (Event T I)} :
    t ∈ taps es ↔ Event.tap t ∈ es := by
  unfold taps
  rw [List.mem_filterMap]
  constructor
  · intro h
    obtain ⟨e, he, hsome⟩ := h
    cases e with
    | tap t' => rwa [← Option.some.inj hsome]
    | answer i info => cases hsome
    | serve i => cases hsome
  · intro h
    exact ⟨.tap t, h, rfl⟩

namespace Client

variable {R L W K I A T E : Type} (c : Client R L W K I A T E)

/-- Serving the pending reads in order, each with its current answer, never
traps and ends where `Q` holds.  A served callback may issue further reads; it
must not change the answers of the reads already pending, which may have been
given before. -/
inductive Settles (ok : I → Prop) (Q : R → L → Prop) : List K → R → L → Prop
  | done {r : R} {l : L} (h : Q r l) : Settles ok Q [] r l
  | serve {k : K} {ks : List K} {r : R} {l : L} (fx : I → Effects L W K)
      (hrun : ∀ info, ok info →
        c.callback k (c.answer k info r) l = .ok (fx info))
      (hstable : ∀ info, ok info → ∀ k' ∈ ks, ∀ info',
        c.answer k' info' (c.applyAll (fx info).writes r) = c.answer k' info' r)
      (hrest : ∀ info, ok info →
        Settles ok Q (ks ++ (fx info).reads)
          (c.applyAll (fx info).writes r) (fx info).state) :
      Settles ok Q (k :: ks) r l

/-- The usual case: the callback's effects do not depend on the circumstances
of the answer and it issues no further read. -/
theorem Settles.serve_const {ok : I → Prop} {Q : R → L → Prop} {k : K}
    {ks : List K} {r : R} {l : L} (fx : Effects L W K)
    (hrun : ∀ info, ok info → c.callback k (c.answer k info r) l = .ok fx)
    (hreads : fx.reads = [])
    (hstable : ∀ k' ∈ ks, ∀ info',
      c.answer k' info' (c.applyAll fx.writes r) = c.answer k' info' r)
    (hrest : c.Settles ok Q ks (c.applyAll fx.writes r) fx.state) :
    c.Settles ok Q (k :: ks) r l :=
  .serve (fun _ => fx) hrun (fun _ _ => hstable)
    (fun _ _ => by simpa [hreads] using hrest)

theorem Settles.mono {ok : I → Prop} {Q Q' : R → L → Prop} {ks : List K} {r : R}
    {l : L} (h : c.Settles ok Q ks r l) (hQ : ∀ r l, Q r l → Q' r l) :
    c.Settles ok Q' ks r l := by
  induction h with
  | done h => exact .done (hQ _ _ h)
  | serve fx hrun hstable _ ih => exact .serve fx hrun hstable ih

/-- What a serial run keeps true: every answer that has arrived is one the
store would give now, and the reads pending settle. -/
structure Settling (ok : I → Prop) (Q : R → L → Prop)
    (s : Sys R L K A) : Prop where
  current : ∀ p ∈ s.pending, ∀ a, p.answer = some a →
    ∃ info, ok info ∧ a = c.answer p.read info s.remote
  settles : c.Settles ok Q (s.pending.map Pending.read) s.remote s.state

theorem Settling.of_idle {ok : I → Prop} {Q : R → L → Prop}
    {s : Sys R L K A} (hidle : s.pending = []) (h : Q s.remote s.state) :
    c.Settling ok Q s := by
  refine ⟨by simp [hidle], ?_⟩
  rw [hidle]
  exact .done h

theorem Settling.idle {ok : I → Prop} {Q : R → L → Prop}
    {s : Sys R L K A} (h : c.Settling ok Q s) (hidle : s.pending = []) :
    Q s.remote s.state := by
  have hs := h.settles
  rw [hidle] at hs
  cases hs with
  | done hQ => exact hQ

/-- After a tap, the settling obligation of the reads it issued is enough. -/
theorem Settling.of_tap {ok : I → Prop} {Q : R → L → Prop}
    {s : Sys R L K A} (hidle : s.pending = []) {fx : Effects L W K}
    (h : c.Settles ok Q fx.reads (c.applyAll fx.writes s.remote) fx.state) :
    c.Settling ok Q (c.perform s s.pending fx) := by
  refine ⟨?_, ?_⟩
  · intro p hp a ha
    simp only [perform, hidle, List.nil_append, List.mem_map] at hp
    obtain ⟨k, _, rfl⟩ := hp
    cases ha
  · simpa [perform, hidle, Function.comp_def] using h

/-- An answer arriving during a serial run keeps it settling. -/
theorem Settling.answer {ok : I → Prop} {Q : R → L → Prop}
    {s : Sys R L K A} (h : c.Settling ok Q s) {i : Nat} {info : I}
    (hok : ok info) :
    ∃ s', c.step s (.answer i info : Event T I) = .ok s' ∧
      c.Settling ok Q s' := by
  cases hi : s.pending[i]? with
  | none => exact ⟨s, by simp [step, hi], h⟩
  | some p =>
      rcases p with ⟨k, _ | a⟩
      · refine ⟨{ s with
          pending := s.pending.set i ⟨k, some (c.answer k info s.remote)⟩ },
          by simp only [step, hi], ?_, ?_⟩
        · intro p hp a ha
          rcases List.mem_or_eq_of_mem_set hp with hp | rfl
          · exact h.current p hp a ha
          · exact ⟨info, hok, (Option.some.inj ha).symm⟩
        · obtain ⟨before, after, hsplit, rfl⟩ := split_of_getElem? hi
          simpa [hsplit] using h.settles
      · exact ⟨s, by simp [step, hi], h⟩

/-- Serving the read issued first keeps a serial run settling. -/
theorem Settling.serve {ok : I → Prop} {Q : R → L → Prop}
    {s : Sys R L K A} (h : c.Settling ok Q s) :
    ∃ s', c.step s (.serve 0 : Event T I) = .ok s' ∧ c.Settling ok Q s' := by
  obtain ⟨remote, state, pending⟩ := s
  cases pending with
  | nil => exact ⟨_, by simp [step], h⟩
  | cons p rest =>
      rcases p with ⟨k, _ | a⟩
      · exact ⟨_, by simp [step], h⟩
      · obtain ⟨info, hok, ha⟩ := h.current ⟨k, some a⟩ (by simp) a rfl
        have hs := h.settles
        simp only [List.map_cons] at hs
        cases hs with
        | serve fx hrun hstable hrest =>
            refine ⟨c.perform ⟨remote, state, ⟨k, some a⟩ :: rest⟩ rest (fx info),
              by simp [step, ha, hrun info hok, Except.map], ?_, ?_⟩
            · intro p hp a' ha'
              rcases List.mem_append.mp hp with hp | hp
              · obtain ⟨info', hok', heq⟩ :=
                  h.current p (List.mem_cons_of_mem _ hp) a' ha'
                refine ⟨info', hok', heq.trans ?_⟩
                exact (hstable info hok p.read (List.mem_map_of_mem hp) info').symm
              · obtain ⟨k', _, rfl⟩ := List.mem_map.mp hp
                cases ha'
            · simpa [perform, Function.comp_def] using hrest info hok

/-- A condition on the taps alone holds along every run that makes them. -/
theorem along_of_taps {P : T → Prop} :
    ∀ {es : List (Event T I)} (s : Sys R L K A), (∀ t ∈ taps es, P t) →
      c.Along (TapMeets fun t _ _ => P t) s es
  | [], _, _ => trivial
  | e :: es, s, h => by
      refine ⟨?_, fun s' _ => along_of_taps s' (fun t ht => h t ?_)⟩
      · intro t he
        exact h t (mem_taps.mpr (he ▸ List.mem_cons_self))
      · exact mem_taps.mpr (List.mem_cons_of_mem e (mem_taps.mp ht))

/-- What an event does to a tally of the taps. -/
def tally {G : Type} (f : T → G → G) (g : G) : Event T I → G
  | .tap t => f t g
  | _ => g

theorem foldl_tally {G : Type} (f : T → G → G) (g : G) (e : Event T I)
    (es : List (Event T I)) :
    (taps es).foldl (fun g t => f t g) (tally f g e) =
      (taps (e :: es)).foldl (fun g t => f t g) g := by
  cases e <;> simp [taps, tally]

/-- One step of a serial run: what a tap has to provide is that the reads it
issues settle where the tracked condition holds again. -/
theorem Settling.step {G : Type} {ok : I → Prop} {Q : G → R → L → Prop}
    (f : T → G → G) {g : G} {s : Sys R L K A} {e : Event T I}
    (h : c.Settling ok (Q g) s) (hserial : Serial ok s e)
    (htap : ∀ t, e = .tap t → Q g s.remote s.state →
      ∃ fx, c.tap t s.state = .ok fx ∧
        c.Settles ok (Q (f t g)) fx.reads (c.applyAll fx.writes s.remote)
          fx.state) :
    ∃ s', c.step s e = .ok s' ∧ c.Settling ok (Q (tally f g e)) s' := by
  cases e with
  | tap t =>
      have hQ := h.idle c hserial
      obtain ⟨fx, hfx, hsettle⟩ := htap t rfl hQ
      have hs' : c.step s (.tap t : Event T I) =
          .ok (c.perform s s.pending fx) := by
        simp [Client.step, hfx, Except.map]
      exact ⟨_, hs', Settling.of_tap c hserial hsettle⟩
  | answer i info => exact h.answer c hserial
  | serve i =>
      obtain rfl : i = 0 := hserial
      exact h.serve c

/-- **The serial rule.**  Suppose each tap allowed by `C` leaves reads that
settle where the tracked condition holds again, and keeps `P` exactly when it
meets `D`.  Then a serial run never traps, the tracked condition holds
whenever nothing is pending, and `P` is kept exactly when all taps meet `D`. -/
theorem serial_run_iff {G : Type} {ok : I → Prop} {Q : G → R → L → Prop}
    {C D : T → R → L → Prop} {P : G → Prop} (f : T → G → G)
    (htap : ∀ g t r l, Q g r l → C t r l →
      (∃ fx, c.tap t l = .ok fx ∧
        c.Settles ok (Q (f t g)) fx.reads (c.applyAll fx.writes r) fx.state) ∧
      (P (f t g) ↔ P g ∧ D t r l)) :
    ∀ (es : List (Event T I)) (s : Sys R L K A) (g : G),
      c.Settling ok (Q g) s →
      c.Along (fun s e => Serial ok s e ∧ TapMeets C s e) s es →
      ∃ s', c.run s es = .ok s' ∧
        c.Settling ok (Q ((taps es).foldl (fun g t => f t g) g)) s' ∧
        (P ((taps es).foldl (fun g t => f t g) g) ↔
          P g ∧ c.Along (TapMeets D) s es) := by
  intro es
  induction es with
  | nil =>
      intro s g hs _
      exact ⟨s, rfl, hs, by simp [taps, Along]⟩
  | cons e es ih =>
      intro s g hs halong
      obtain ⟨⟨hserial, hC⟩, hrest⟩ := halong
      obtain ⟨s', hs', hsettle⟩ := hs.step c f hserial
        (fun t ht hQ => (htap g t _ _ hQ (hC t ht)).1)
      obtain ⟨final, hfinal, hdone, hiff⟩ := ih s' _ hsettle (hrest s' hs')
      rw [foldl_tally] at hdone hiff
      have halong_iff : c.Along (TapMeets D) s (e :: es) ↔
          TapMeets D s e ∧ c.Along (TapMeets D) s' es := by
        constructor
        · intro h
          exact ⟨h.1, h.2 s' hs'⟩
        · intro h
          refine ⟨h.1, fun s'' hs'' => ?_⟩
          obtain rfl : s' = s'' := by simpa [hs'] using hs''
          exact h.2
      have hgood : P (tally f g e) ↔ P g ∧ TapMeets D s e := by
        cases e with
        | tap t =>
            have hidle : s.pending = [] := hserial
            have hkeep := (htap g t _ _ (hs.idle c hidle) (hC t rfl)).2
            simpa [tally, TapMeets] using hkeep
        | answer i info => simp [tally, TapMeets]
        | serve i => simp [tally, TapMeets]
      refine ⟨final, by rw [c.run_cons_of_step hs' es, hfinal], hdone, ?_⟩
      rw [hiff, hgood, halong_iff, and_assoc]

/-- The serial rule for taps planned in advance: `V g ts` says that the taps
`ts` may be made, one after another, from `g` on. -/
theorem serial_run_plan {G : Type} {ok : I → Prop} {Q : G → R → L → Prop}
    {V : G → List T → Prop} (f : T → G → G)
    (htap : ∀ g t ts r l, V g (t :: ts) → Q g r l →
      V (f t g) ts ∧
      ∃ fx, c.tap t l = .ok fx ∧
        c.Settles ok (Q (f t g)) fx.reads (c.applyAll fx.writes r) fx.state) :
    ∀ (es : List (Event T I)) (s : Sys R L K A) (g : G),
      c.Settling ok (Q g) s → V g (taps es) → c.Along (Serial ok) s es →
      ∃ s', c.run s es = .ok s' ∧
        c.Settling ok (Q ((taps es).foldl (fun g t => f t g) g)) s' := by
  intro es
  induction es with
  | nil => intro s g hs _ _; exact ⟨s, rfl, hs⟩
  | cons e es ih =>
      intro s g hs hV halong
      obtain ⟨hserial, hrest⟩ := halong
      have hplan : ∀ t, e = .tap t → V g (t :: taps es) := by
        rintro t rfl
        exact hV
      obtain ⟨s', hs', hsettle⟩ := hs.step c f hserial
        (fun t ht hQ => (htap g t _ _ _ (hplan t ht) hQ).2)
      have hV' : V (tally f g e) (taps es) := by
        cases e with
        | tap t =>
            have hidle : s.pending = [] := hserial
            exact (htap g t _ _ _ hV (hs.idle c hidle)).1
        | answer i info => exact hV
        | serve i => exact hV
      obtain ⟨final, hfinal, hdone⟩ := ih s' _ hsettle hV' (hrest s' hs')
      rw [foldl_tally] at hdone
      exact ⟨final, by rw [c.run_cons_of_step hs' es, hfinal], hdone⟩

/-- The taps, made one after another from `g` on, all meet `V`. -/
def Planned {G : Type} (V : T → G → Prop) (f : T → G → G) : G → List T → Prop
  | _, [] => True
  | g, t :: ts => V t g ∧ Planned V f (f t g) ts

/-- **The plan rule**, for runs with any interleaving.  An invariant that knows the
tally of the taps made and the taps to come, and under which every tap meets
`V`, shows that the taps of the run could be planned in advance. -/
theorem run_plan {G : Type} {C : Sys R L K A → Event T I → Prop} {V : T → G → Prop}
    (f : T → G → G) (inv : G → List T → Sys R L K A → Prop)
    (htap : ∀ g t ts s fx, inv g (t :: ts) s → C s (.tap t) → c.tap t s.state = .ok fx →
      V t g ∧ inv (f t g) ts (c.perform s s.pending fx))
    (hother : ∀ g ts s e o s', inv g ts s → C s e → c.Step s e o s' →
      (∀ t, e ≠ .tap t) → inv g ts s') :
    ∀ (es : List (Event T I)) (g : G) (s s' : Sys R L K A), inv g (taps es) s →
      c.Along C s es → c.run s es = .ok s' →
      Planned V f g (taps es) ∧
        inv ((taps es).foldl (fun g t => f t g) g) [] s' := by
  intro es
  induction es with
  | nil =>
      intro g s s' hinv _ hrun
      obtain rfl : s = s' := by simpa using hrun
      exact ⟨trivial, hinv⟩
  | cons e es ih =>
      intro g s s' hinv halong hrun
      obtain ⟨middle, hmid, hrest⟩ := c.run_cons_ok hrun
      have hmove := c.step_cases hmid
      have hnext := halong.2 middle hmid
      cases e with
      | tap t =>
          cases hfx : c.tap t s.state with
          | error err => simp [step, hfx, Except.map] at hmid
          | ok fx =>
              obtain rfl : c.perform s s.pending fx = middle := by
                simpa [step, hfx, Except.map] using hmid
              obtain ⟨hV, hinv'⟩ := htap g t (taps es) s fx hinv halong.1 hfx
              obtain ⟨hplan, hend⟩ := ih (f t g) _ s' hinv' hnext hrest
              exact ⟨⟨hV, hplan⟩, hend⟩
      | answer i info =>
          have hinv' := hother g (taps es) s _ _ middle hinv halong.1 hmove
            (fun t => by simp)
          exact ih g middle s' hinv' hnext hrest
      | serve i =>
          have hinv' := hother g (taps es) s _ _ middle hinv halong.1 hmove
            (fun t => by simp)
          exact ih g middle s' hinv' hnext hrest

end Client

end ReadCallback

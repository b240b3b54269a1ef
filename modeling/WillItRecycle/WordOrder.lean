import Mathlib.Data.List.Infix
import Mathlib.Data.List.Lex
import Mathlib.Order.Lattice

/-!
# Texts that compare as their fields do

A text made of fields compares letter by letter.  Where no text of a field is the
beginning of another one, the first field that differs decides, so that texts
compare as the lists of the ranks of their fields.

* `append_lt_append_iff` -- the first field decides;
* `CompareAs.append` -- fields are compared one after another.
-/

namespace WordOrder

variable {α β : Type} [LinearOrder α] [LinearOrder β]

/-- Texts of which neither is the beginning of the other decide for all that may
follow. -/
theorem append_lt_append_iff {xs ys : List α} (hxs : xs <+: ys → xs = ys)
    (hys : ys <+: xs → xs = ys) (us vs : List α) :
    xs ++ us < ys ++ vs ↔ xs < ys ∨ xs = ys ∧ us < vs := by
  induction xs generalizing ys with
  | nil =>
      obtain rfl := hxs List.nil_prefix
      simp
  | cons x xs ih =>
      cases ys with
      | nil => cases hys List.nil_prefix
      | cons y ys =>
          by_cases heq : x = y
          · subst heq
            have hrest := ih
              (fun h : xs <+: ys =>
                List.tail_eq_of_cons_eq (hxs (List.cons_prefix_cons.mpr ⟨rfl, h⟩)))
              (fun h => List.tail_eq_of_cons_eq (hys (List.cons_prefix_cons.mpr ⟨rfl, h⟩)))
            simp only [List.cons_append, List.cons_lt_cons_iff, lt_irrefl, true_and, false_or,
              List.cons.injEq, hrest]
          · simp only [List.cons_append, List.cons_lt_cons_iff, heq, false_and, or_false,
              List.cons.injEq]

/-- Whatever follows, the texts `xs` and `ys` compare as the ranks `ms` and `ns`. -/
def CompareAs (xs ys : List α) (ms ns : List β) : Prop :=
  ∀ (us vs : List α) (rs ss : List β), (us < vs ↔ rs < ss) →
    (xs ++ us < ys ++ vs ↔ ms ++ rs < ns ++ ss)

/-- A text that is in both. -/
theorem CompareAs.refl (xs : List α) : CompareAs xs xs ([] : List β) [] := by
  intro us vs rs ss hrest
  have hsame := append_lt_append_iff (fun _ : xs <+: xs => rfl) (fun _ => rfl) us vs
  rw [hsame, List.nil_append, List.nil_append, ← hrest]
  simp

/-- Two texts of a field with their ranks. -/
structure FieldRank (xs ys : List α) (m n : β) : Prop where
  left : xs <+: ys → xs = ys
  right : ys <+: xs → xs = ys
  eq_iff : xs = ys ↔ m = n
  lt_iff : xs < ys ↔ m < n

theorem FieldRank.symm {xs ys : List α} {m n : β} (h : FieldRank xs ys m n) :
    FieldRank ys xs n m := by
  refine ⟨fun hbegins => (h.right hbegins).symm, fun hbegins => (h.left hbegins).symm, ?_, ?_⟩
  · rw [eq_comm, h.eq_iff, eq_comm]
  · rw [← not_le, ← not_le, le_iff_lt_or_eq, le_iff_lt_or_eq, h.lt_iff, h.eq_iff]

/-- Texts of one length. -/
theorem fieldRank_of_length {xs ys : List α} {m n : β} (hlength : xs.length = ys.length)
    (heq : xs = ys ↔ m = n) (hlt : xs < ys ↔ m < n) : FieldRank xs ys m n where
  left := fun hbegins => hbegins.eq_of_length hlength
  right := fun hbegins => (hbegins.eq_of_length hlength.symm).symm
  eq_iff := heq
  lt_iff := hlt

theorem FieldRank.compareAs {xs ys : List α} {m n : β} (h : FieldRank xs ys m n) :
    CompareAs xs ys [m] [n] := by
  intro us vs rs ss hrest
  rw [append_lt_append_iff h.left h.right, h.eq_iff, h.lt_iff, hrest,
    List.singleton_append, List.singleton_append, List.cons_lt_cons_iff]

/-- **The first field that differs decides.** -/
theorem CompareAs.append {xs ys xs' ys' : List α} {ms ns ms' ns' : List β}
    (h : CompareAs xs ys ms ns) (h' : CompareAs xs' ys' ms' ns') :
    CompareAs (xs ++ xs') (ys ++ ys') (ms ++ ms') (ns ++ ns') := by
  intro us vs rs ss hrest
  rw [List.append_assoc, List.append_assoc, List.append_assoc, List.append_assoc]
  exact h _ _ _ _ (h' us vs rs ss hrest)

theorem CompareAs.lt_iff {xs ys : List α} {ms ns : List β} (h : CompareAs xs ys ms ns) :
    xs < ys ↔ ms < ns := by
  simpa using h [] [] [] [] (by simp)

end WordOrder

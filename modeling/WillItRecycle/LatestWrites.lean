import WillItRecycle.NodeContents
import Mathlib.Data.List.Infix
import Mathlib.Data.List.Pairwise

/-!
# The latest write above a path

Writes replace nodes of a tree one after the other.  What they leave at a path is what
the latest write above the path stores there, and what the tree held where there is
none (`contents_writeAll`), provided no value stands in the way of a deeper write
(`Room`).

`latestWrite` does not depend on how writes are kept: a list that says the same at every
path leaves the same.
-/

namespace PathTree

section Prefixes

variable {K : Type} {p q r : List K}

/-- Paths that part are those of which none leads through the other. -/
theorem diverge_iff : Diverge p q ↔ ¬ p <+: q ∧ ¬ q <+: p := by
  induction p generalizing q with
  | nil => simp
  | cons a p ih =>
      cases q with
      | nil => simp
      | cons b q =>
          rw [diverge_cons, ih, List.cons_prefix_cons, List.cons_prefix_cons]
          by_cases hab : a = b
          · simp [hab]
          · simp [hab, Ne.symm hab]

theorem Diverge.symm (h : Diverge p q) : Diverge q p := by
  rw [diverge_iff] at h ⊢
  exact h.symm

/-- Two paths above a third do not part. -/
theorem not_diverge_of_prefix (hp : p <+: r) (hq : q <+: r) : ¬ Diverge p q := by
  rw [diverge_iff, ← not_or, not_not]
  exact List.prefix_or_prefix_of_prefix hp hq

end Prefixes

namespace Tree

variable {K V : Type} [DecidableEq K]

theorem set_empty_empty (path : List K) : (empty : Tree K V).set path empty = empty := by
  induction path with
  | nil => rfl
  | cons name path ih =>
      rw [set_cons, child_empty, ih]
      rfl

/-- A write below a value replaces it, unless it deletes. -/
theorem value?_set_cons (t new : Tree K V) (name : K) (path : List K) :
    (t.set (name :: path) new).value? = if new.isEmpty then t.value? else none := by
  rw [set_cons, value?_setChild]
  cases hnew : new.isEmpty with
  | true =>
      rw [if_pos rfl, isEmpty_iff.mp hnew]
      split
      · rfl
      · next hchild =>
        -- a value has no children, so nothing would be set below it
        cases hvalue : t.value? with
        | none => rfl
        | some value =>
            rw [eq_leaf_of_value? hvalue, child_leaf, set_empty_empty] at hchild
            exact absurd isEmpty_empty hchild
  | false =>
      rw [if_neg Bool.false_ne_true, if_neg]
      intro hchild
      have hget := get_set_same path new (t.child name)
      rw [isEmpty_iff.mp hchild, get_empty] at hget
      rw [← hget] at hnew
      cases hnew

/-- What is stored after a write: below its path what it writes, above it no value, unless
it deletes. -/
theorem contents_set (t new : Tree K V) (path q : List K) :
    (t.set path new).contents q =
      if path <+: q then new.contents (q.drop path.length)
      else if q <+: path ∧ new.isEmpty = false then none else t.contents q := by
  induction path generalizing t q with
  | nil => simp
  | cons name path ih =>
      cases q with
      | nil =>
          rw [contents_nil, value?_set_cons]
          cases new.isEmpty <;> simp
      | cons other q =>
          rw [set_cons, contents_cons, child_setChild]
          by_cases hname : other = name
          · subst hname
            rw [if_pos rfl, ih]
            simp
          · simp [hname, Ne.symm hname]

/-- No value is stored above the path. -/
def Open (t : Tree K V) (path : List K) : Prop :=
  ∀ q, q <+: path → q ≠ path → t.contents q = none

theorem open_iff {t : Tree K V} {path : List K} :
    t.Open path ↔ ∀ n < path.length, t.contents (path.take n) = none := by
  constructor
  · intro h n hn
    refine h _ (List.take_prefix n path) fun heq => ?_
    have hlength := congrArg List.length heq
    rw [List.length_take] at hlength
    omega
  · intro h q hq hne
    have hlt : q.length < path.length :=
      lt_of_le_of_ne hq.length_le fun heq => hne (hq.eq_of_length heq)
    rw [List.prefix_iff_eq_take.mp hq]
    exact h _ hlt

instance [DecidableEq V] (t : Tree K V) (path : List K) : Decidable (t.Open path) :=
  decidable_of_iff _ open_iff.symm

theorem Open.contents_set {t : Tree K V} {path : List K} (h : t.Open path) (new : Tree K V)
    (q : List K) :
    (t.set path new).contents q =
      if path <+: q then new.contents (q.drop path.length) else t.contents q := by
  rw [Tree.contents_set]
  split
  · rfl
  · next hnot =>
    split
    · next habove =>
      refine (h q habove.1 ?_).symm
      rintro rfl
      exact hnot List.prefix_rfl
    · rfl

end Tree

/-! ## Writes one after the other -/

section Writes

variable {K V : Type} [DecidableEq K] {writes others : List (List K × Tree K V)}
  {w : List K × Tree K V} {q : List K}

/-- What the latest write above a path stores there. -/
def latestWrite : List (List K × Tree K V) → List K → Option (Option V)
  | [], _ => none
  | w :: writes, q =>
      (latestWrite writes q).or
        (if w.1 <+: q then some (w.2.contents (q.drop w.1.length)) else none)

theorem latestWrite_append (writes others : List (List K × Tree K V)) (q : List K) :
    latestWrite (writes ++ others) q = (latestWrite others q).or (latestWrite writes q) := by
  induction writes with
  | nil => rw [List.nil_append, latestWrite, Option.or_none]
  | cons w writes ih => rw [List.cons_append, latestWrite, latestWrite, ih, Option.or_assoc]

theorem latestWrite_singleton (w : List K × Tree K V) (q : List K) :
    latestWrite [w] q = if w.1 <+: q then some (w.2.contents (q.drop w.1.length)) else none := rfl

theorem latestWrite_eq_none : latestWrite writes q = none ↔ ∀ w ∈ writes, ¬ w.1 <+: q := by
  induction writes with
  | nil => simp [latestWrite]
  | cons w writes ih =>
      rw [latestWrite, Option.or_eq_none_iff, ih, List.forall_mem_cons]
      by_cases hw : w.1 <+: q
      · simp [hw]
      · simp [hw]

/-- Some write is the latest. -/
theorem exists_of_latestWrite {value : Option V} (h : latestWrite writes q = some value) :
    ∃ w ∈ writes, w.1 <+: q ∧ w.2.contents (q.drop w.1.length) = value := by
  induction writes with
  | nil => cases h
  | cons w writes ih =>
      rw [latestWrite, Option.or_eq_some_iff] at h
      rcases h with hlater | ⟨_, hfirst⟩
      · obtain ⟨v, hv, hcovers⟩ := ih hlater
        exact ⟨v, List.mem_cons_of_mem _ hv, hcovers⟩
      · split at hfirst
        · next hcovers => exact ⟨w, List.mem_cons_self, hcovers, Option.some.inj hfirst⟩
        · cases hfirst

theorem diverge_of_mem {v : List K × Tree K V}
    (h : writes.Pairwise fun w v => Diverge w.1 v.1) (hw : w ∈ writes) (hv : v ∈ writes)
    (hne : w ≠ v) : Diverge w.1 v.1 := by
  have hsymm : Std.Symm fun w v : List K × Tree K V => Diverge w.1 v.1 :=
    ⟨fun _ _ hwv => hwv.symm⟩
  exact h.forall hw hv hne

/-- Of writes that part, the one above a path is the latest there. -/
theorem latestWrite_of_mem (hdiverge : writes.Pairwise fun w v => Diverge w.1 v.1) (hw : w ∈ writes)
    (hcovers : w.1 <+: q) : latestWrite writes q = some (w.2.contents (q.drop w.1.length)) := by
  cases hlatest : latestWrite writes q with
  | none => exact absurd hcovers (latestWrite_eq_none.mp hlatest w hw)
  | some value =>
      obtain ⟨v, hv, hvcovers, rfl⟩ := exists_of_latestWrite hlatest
      have hsame : w = v := by
        by_contra hne
        exact not_diverge_of_prefix hcovers hvcovers (diverge_of_mem hdiverge hw hv hne)
      rw [hsame]

/-- Writes that are not above a path do not count there. -/
theorem latestWrite_filter {keep : List K × Tree K V → Bool}
    (h : ∀ w ∈ writes, w.1 <+: q → keep w = true) :
    latestWrite (writes.filter keep) q = latestWrite writes q := by
  induction writes with
  | nil => rfl
  | cons w writes ih =>
      obtain ⟨hw, hrest⟩ := List.forall_mem_cons.mp h
      rw [List.filter_cons, latestWrite, ← ih hrest]
      split
      · rfl
      · next hdropped =>
        rw [if_neg fun hcovers => hdropped (hw hcovers), Option.or_none]

/-- The writes one after the other. -/
def writeAll (t : Tree K V) (writes : List (List K × Tree K V)) : Tree K V :=
  writes.foldl (fun t w => t.set w.1 w.2) t

/-- No write stores a value above another one. -/
def Clear (writes : List (List K × Tree K V)) : Prop :=
  ∀ w ∈ writes, ∀ v ∈ writes, v.1 <+: w.1 → v.2.Open (w.1.drop v.1.length)

instance [DecidableEq V] : Decidable (Clear writes) :=
  inferInstanceAs (Decidable (∀ w ∈ writes, ∀ v ∈ writes, v.1 <+: w.1 →
    v.2.Open (w.1.drop v.1.length)))

/-- No value stands in the way of a write. -/
structure Room (t : Tree K V) (writes : List (List K × Tree K V)) : Prop where
  tree : ∀ w ∈ writes, t.Open w.1
  writes : Clear writes

theorem Clear.mono (h : Clear writes) (hsub : others ⊆ writes) : Clear others :=
  fun w hw v hv => h w (hsub hw) v (hsub hv)

theorem Clear.contents {v : List K × Tree K V} (h : Clear writes) (hw : w ∈ writes)
    (hv : v ∈ writes) (hvq : v.1 <+: q) (hqw : q <+: w.1) (hne : q ≠ w.1) :
    v.2.contents (q.drop v.1.length) = none := by
  obtain ⟨r, rfl⟩ := hvq
  obtain ⟨s, hs⟩ := hqw
  have hopen := h w hw v hv ⟨r ++ s, by rw [← hs, List.append_assoc]⟩
  rw [← hs, List.append_assoc, List.drop_left] at hopen
  rw [List.drop_left]
  refine hopen r (List.prefix_append r s) fun heq => hne ?_
  rw [← hs, List.append_assoc, ← heq]

/-- Writes that part are in no other's way. -/
theorem clear_of_diverge (h : writes.Pairwise fun w v => Diverge w.1 v.1) : Clear writes := by
  intro w hw v hv hvw q hq hne
  by_cases hsame : w = v
  · rw [hsame, List.drop_length] at hq hne
    exact absurd (List.prefix_nil.mp hq) hne
  · exact absurd hvw (diverge_iff.mp (diverge_of_mem h hw hv hsame)).2

/-- **Writes leave what the latest of them store.** -/
theorem contents_writeAll {t : Tree K V} (h : Room t writes) (q : List K) :
    (writeAll t writes).contents q = (latestWrite writes q).getD (t.contents q) := by
  induction writes generalizing t with
  | nil => rfl
  | cons w writes ih =>
      have hopen : t.Open w.1 := h.tree w List.mem_cons_self
      have hroom : Room (t.set w.1 w.2) writes := by
        refine ⟨fun v hv r hrv hne => ?_, h.writes.mono (List.subset_cons_self w writes)⟩
        rw [hopen.contents_set]
        split
        · next hcovers =>
          exact h.writes.contents (List.mem_cons_of_mem _ hv) List.mem_cons_self hcovers hrv hne
        · exact h.tree v (List.mem_cons_of_mem _ hv) r hrv hne
      have hrest := ih hroom
      rw [writeAll, List.foldl_cons, ← writeAll, hrest, hopen.contents_set, latestWrite]
      cases latestWrite writes q with
      | some value => rfl
      | none =>
          rw [Option.none_or, Option.getD_none]
          split <;> rfl

theorem writeAll_append (t : Tree K V) (writes others : List (List K × Tree K V)) :
    writeAll t (writes ++ others) = writeAll (writeAll t writes) others := by
  rw [writeAll, List.foldl_append]
  rfl

/-- The first writes leave room for the others. -/
theorem Room.after {t : Tree K V} (h : Room t (writes ++ others)) :
    Room (writeAll t writes) others := by
  have hfirst : Room t writes :=
    ⟨fun w hw => h.tree w (List.mem_append_left _ hw),
      h.writes.mono (List.subset_append_left _ _)⟩
  refine ⟨fun w hw q hq hne => ?_, h.writes.mono (List.subset_append_right _ _)⟩
  have hmem : w ∈ writes ++ others := List.mem_append_right _ hw
  rw [contents_writeAll hfirst]
  cases hlatest : latestWrite writes q with
  | none => exact h.tree w hmem q hq hne
  | some value =>
      obtain ⟨v, hv, hcovers, rfl⟩ := exists_of_latestWrite hlatest
      exact h.writes.contents hmem (List.mem_append_left _ hv) hcovers hq hne

end Writes

end PathTree

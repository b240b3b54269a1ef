import WillItRecycle.PathTree
import Mathlib.Data.List.Perm.Basic
import Mathlib.Data.List.Range
import Mathlib.Tactic.IntervalCases

/-!
# Database nodes and what Swift makes of them

A snapshot carries a node of the realtime database; the app looks at its
exported value through forced casts.  A node whose children all have integer
names is exported as an array when more than half of the indices up to the
largest are present, with null in the gaps, and as a dictionary otherwise
(`FChildrenNode valForExport:`), so that `as! [String]` succeeds exactly on
gapless lists of strings.

`IsList node xs` says that `node` stores the list `xs` under the names
`0 .. n-1`; `IsList.asStringArray` reads it back and `IsList.append` is what
writing at the index one past the end does.
-/

namespace WillItRecycle

open PathTree

/-- A value stored at a leaf. -/
inductive Value where
  | int (n : Int)
  | bool (b : Bool)
  | string (s : String)
  deriving DecidableEq, Repr

abbrev FNode := Tree String Value

/-- What ends the app. -/
inductive Trap where
  | forceCast
  | forceUnwrap
  | invalidPath
  | overflow
  deriving DecidableEq, Repr

/-- `!` and `as!`: a missing value traps. -/
def force {α : Type} (trap : Trap) : Option α → Except Trap α
  | some x => .ok x
  | none => .error trap

@[simp] theorem force_some {α : Type} (trap : Trap) (x : α) :
    force trap (some x) = .ok x := rfl

@[simp] theorem force_none {α : Type} (trap : Trap) :
    force trap (none : Option α) = .error trap := rfl

/-! ## Integers -/

/-- The values of `Int`, on a device of 64 bits. -/
def FitsInt (n : Int) : Prop := -2 ^ 63 ≤ n ∧ n < 2 ^ 63

instance (n : Int) : Decidable (FitsInt n) :=
  inferInstanceAs (Decidable (-2 ^ 63 ≤ n ∧ n < 2 ^ 63))

/-- Which integers an `Int` can hold.  The code runs with `int64`; what holds for every
range also holds when integers are taken as unbounded. -/
class IntRange where
  holds : Int → Bool

instance int64 : IntRange := ⟨fun n => FitsInt n⟩

/-- The range without bounds: no operation traps. -/
@[reducible] def unboundedInt : IntRange := ⟨fun _ => true⟩

/-- The result of `+` and `*`: the app traps when it does not fit. -/
def intResult [IntRange] (n : Int) : Except Trap Int :=
  if IntRange.holds n then .ok n else .error .overflow

/-- An operation that does not trap has the result of the integers. -/
theorem eq_of_intResult [IntRange] {n m : Int} (h : intResult n = .ok m) : m = n := by
  unfold intResult at h
  split at h
  · exact (Except.ok.inj h).symm
  · cases h

/-- On 64 bits the results that fit are exactly those that do not trap. -/
theorem intResult_eq (n : Int) :
    intResult n = if FitsInt n then .ok n else .error .overflow := by
  have hholds : IntRange.holds n = decide (FitsInt n) := rfl
  simp [intResult, hholds]

theorem intResult_of_fits {n : Int} (h : FitsInt n) : intResult n = .ok n := by
  rw [intResult_eq, if_pos h]

theorem intResult_of_not_fits {n : Int} (h : ¬ FitsInt n) : intResult n = .error .overflow := by
  rw [intResult_eq, if_neg h]

/-- `FPath initWith:` drops the empty pieces of a path. -/
def fpath (pieces : List String) : List String :=
  pieces.filter (fun piece => piece ≠ "")

/-- `String(index)`, the name of the child at an index. -/
def indexKey (index : Nat) : String := toString index

/-- `FUtilities intForString:` -/
def intForString (string : String) : Option Nat :=
  if string ≠ "" ∧ string.toList.all Char.isDigit then
    some (Nat.ofDigitChars 10 string.toList 0)
  else
    none

/-- The integer a child name stands for; leading zeroes make it a string. -/
def integerKey (key : String) : Option Nat :=
  if key.toList.head? = some '0' ∧ key.toList.length > 1 then none
  else intForString key

/-- `valForExport:` of a node exported as an array; absent children are null. -/
def toArray (node : FNode) : Option (List FNode) :=
  match node.names.mapM integerKey with
  | some keys =>
      let maxKey := keys.foldl max 0
      if maxKey < 2 * keys.length then
        some ((List.range (maxKey + 1)).map fun i => node.child (indexKey i))
      else
        none
  | none => none

/-- `as? Int`; a stored boolean bridges to 0 or 1. -/
def asInt (node : FNode) : Option Int :=
  match node.value? with
  | some (.int n) => some n
  | some (.bool b) => some (if b then 1 else 0)
  | _ => none

/-- `as? String` -/
def asString (node : FNode) : Option String :=
  match node.value? with
  | some (.string s) => some s
  | _ => none

/-- `as? [String]` -/
def asStringArray (node : FNode) : Option (List String) :=
  (toArray node).bind fun nodes => nodes.mapM asString

/-- `as? [String : AnyObject]`, as the list of keys. -/
def asDictionary (node : FNode) : Option (List String) :=
  if node.isLeaf || node.isEmpty || (toArray node).isSome then none
  else some node.names

@[simp] theorem asInt_int (n : Int) : asInt (Tree.leaf (.int n)) = some n := rfl

@[simp] theorem asInt_empty : asInt Tree.empty = none := rfl

@[simp] theorem asString_string (s : String) :
    asString (Tree.leaf (.string s)) = some s := rfl

theorem indexKey_injective {i j : Nat} (h : indexKey i = indexKey j) : i = j := by
  have hkey := congrArg (fun s => Nat.ofDigitChars 10 (String.toList s) 0) h
  simpa [indexKey] using hkey

@[simp] theorem indexKey_inj {i j : Nat} : indexKey i = indexKey j ↔ i = j :=
  ⟨indexKey_injective, congrArg indexKey⟩

theorem indexKey_ne_empty (i : Nat) : indexKey i ≠ "" :=
  Nat.repr_ne_empty

/-- The decimal form of a number has no leading zero but in `0` itself. -/
theorem head_toDigits_ne_zero {n : Nat} (h : 0 < n) :
    (Nat.toDigits 10 n).head? ≠ some '0' := by
  induction n using Nat.strongRecOn with
  | ind n ih =>
      by_cases hn : n < 10
      · rw [Nat.toDigits_of_lt_base hn]
        interval_cases n <;> decide
      · have htail := ih (n / 10) (by omega) (by omega)
        have hsome : Nat.toDigits 10 (n / 10) ≠ [] := Nat.toDigits_ne_nil
        rw [Nat.toDigits_of_base_le (by omega) (by omega),
          List.head?_append_of_ne_nil _ hsome]
        exact htail

/-- An index name stands for its index. -/
@[simp] theorem integerKey_indexKey (i : Nat) :
    integerKey (indexKey i) = some i := by
  have hchars : (indexKey i).toList = Nat.toDigits 10 i := Nat.toList_repr
  have hplain : ¬ ((indexKey i).toList.head? = some '0' ∧
      (indexKey i).toList.length > 1) := by
    rintro ⟨hhead, hlength⟩
    rw [hchars] at hhead hlength
    by_cases hi : i < 10
    · rw [Nat.toDigits_of_lt_base hi] at hlength
      simp at hlength
    · exact head_toDigits_ne_zero (by omega) hhead
  have hdigits : (indexKey i).toList.all Char.isDigit := by
    rw [hchars, List.all_eq_true]
    intro ch hch
    exact Nat.isDigit_of_mem_toDigits (by omega) (by omega) hch
  rw [integerKey, if_neg hplain, intForString,
    if_pos ⟨indexKey_ne_empty i, hdigits⟩, hchars, Nat.ofDigitChars_ten_toDigits]

/-- `node` stores the list `xs` under the names `0 .. n-1`. -/
structure IsList (node : FNode) (xs : List String) : Prop where
  branch : node.isLeaf = false
  index : ∀ i, node.child (indexKey i) =
    (xs[i]?).elim Tree.empty (fun x => Tree.leaf (.string x))
  other : ∀ name, (∀ i, name ≠ indexKey i) → node.child name = Tree.empty

theorem isList_nil_iff {node : FNode} : IsList node [] ↔ node = Tree.empty := by
  constructor
  · intro h
    apply Tree.eq_empty_of_child h.branch
    intro name
    by_cases hname : ∃ i, name = indexKey i
    · obtain ⟨i, rfl⟩ := hname
      simpa using h.index i
    · exact h.other name (fun i hi => hname ⟨i, hi⟩)
  · rintro rfl
    exact ⟨rfl, by simp, by simp⟩

/-- Writing at the index one past the end appends. -/
theorem IsList.append {node : FNode} {xs : List String} (h : IsList node xs)
    (x : String) :
    IsList (node.setChild (indexKey xs.length) (Tree.leaf (.string x)))
      (xs ++ [x]) := by
  refine ⟨Tree.isLeaf_setChild h.branch _ _, ?_, ?_⟩
  · intro i
    rw [Tree.child_setChild]
    by_cases hi : i = xs.length
    · simp [hi]
    · rw [if_neg (fun heq => hi (indexKey_injective heq)), h.index]
      by_cases hlt : i < xs.length
      · rw [List.getElem?_append_left hlt]
      · rw [List.getElem?_eq_none (by omega), List.getElem?_eq_none (by simp; omega)]
  · intro name hname
    rw [Tree.child_setChild_ne (hname xs.length), h.other name hname]

/-- Writing at an index before the end overwrites. -/
theorem IsList.overwrite {node : FNode} {xs : List String} (h : IsList node xs)
    {index : Nat} (hindex : index < xs.length) (x : String) :
    IsList (node.setChild (indexKey index) (Tree.leaf (.string x)))
      (xs.set index x) := by
  refine ⟨Tree.isLeaf_setChild h.branch _ _, ?_, ?_⟩
  · intro i
    rw [Tree.child_setChild]
    by_cases hi : i = index
    · rw [hi, if_pos rfl, List.getElem?_set_self hindex]
      rfl
    · have hne : index ≠ i := fun heq => hi heq.symm
      rw [if_neg (fun heq => hi (indexKey_injective heq)), h.index,
        List.getElem?_set_ne hne]
  · intro name hname
    rw [Tree.child_setChild_ne (hname index), h.other name hname]

theorem IsList.mem_names {node : FNode} {xs : List String} (h : IsList node xs)
    {name : String} :
    name ∈ node.names ↔ ∃ i, i < xs.length ∧ name = indexKey i := by
  rw [Tree.mem_names_iff]
  by_cases hname : ∃ i, name = indexKey i
  · obtain ⟨i, rfl⟩ := hname
    rw [h.index]
    constructor
    · intro hne
      refine ⟨i, ?_, rfl⟩
      by_contra hge
      exact hne (by rw [List.getElem?_eq_none (by omega)]; rfl)
    · rintro ⟨j, hj, heq⟩
      obtain rfl := indexKey_injective heq
      simp [List.getElem?_eq_getElem hj]
  · have hother := h.other name (fun i hi => hname ⟨i, hi⟩)
    constructor
    · intro hne
      exact absurd hother hne
    · rintro ⟨i, _, heq⟩
      exact absurd ⟨i, heq⟩ hname

theorem mapM_eq_some_map {α β : Type} {f : α → Option β} {g : α → β}
    {xs : List α} (h : ∀ x ∈ xs, f x = some (g x)) :
    xs.mapM f = some (xs.map g) := by
  induction xs with
  | nil => rfl
  | cons x xs ih =>
      have hx := h x List.mem_cons_self
      have hxs := ih (fun y hy => h y (List.mem_cons_of_mem _ hy))
      simp [List.mapM_cons, hx, hxs]

theorem mapM_eq_ok_map {α β ε : Type} {f : α → Except ε β} {g : α → β}
    {xs : List α} (h : ∀ x ∈ xs, f x = .ok (g x)) : xs.mapM f = .ok (xs.map g) := by
  induction xs with
  | nil => rfl
  | cons x xs ih =>
      have hx := h x List.mem_cons_self
      have hxs := ih (fun y hy => h y (List.mem_cons_of_mem _ hy))
      simp [List.mapM_cons, hx, hxs, bind, Except.bind, pure, Except.pure]

theorem mapM_eq_none_of_mem {α β : Type} {f : α → Option β} {xs : List α}
    {x : α} (hmem : x ∈ xs) (hx : f x = none) : xs.mapM f = none := by
  induction xs with
  | nil => cases hmem
  | cons y xs ih =>
      rcases List.mem_cons.mp hmem with rfl | hmem
      · simp [List.mapM_cons, hx]
      · cases hy : f y <;> simp [List.mapM_cons, hy, ih hmem]

theorem foldl_max_range (n : Nat) : (List.range (n + 1)).foldl max 0 = n := by
  induction n with
  | zero => rfl
  | succ n ih => rw [List.range_succ, List.foldl_append, ih]; simp

/-- The integer names of a stored list are its indices. -/
theorem IsList.integerKeys {node : FNode} {xs : List String}
    (h : IsList node xs) :
    ∃ keys, node.names.mapM integerKey = some keys ∧
      keys.Perm (List.range xs.length) := by
  have hkeys : ∀ name ∈ node.names, integerKey name = some ((integerKey name).getD 0) := by
    intro name hname
    obtain ⟨i, _, rfl⟩ := h.mem_names.mp hname
    simp
  refine ⟨node.names.map (fun name => (integerKey name).getD 0), ?_, ?_⟩
  · exact mapM_eq_some_map hkeys
  · apply (List.perm_ext_iff_of_nodup ?_ List.nodup_range).mpr
    · intro i
      simp only [List.mem_map, List.mem_range]
      constructor
      · rintro ⟨name, hname, rfl⟩
        obtain ⟨j, hj, rfl⟩ := h.mem_names.mp hname
        simpa using hj
      · intro hi
        exact ⟨indexKey i, h.mem_names.mpr ⟨i, hi, rfl⟩, by simp⟩
    · apply List.Nodup.map_on ?_ node.nodup_names
      intro a ha b hb heq
      obtain ⟨i, _, rfl⟩ := h.mem_names.mp ha
      obtain ⟨j, _, rfl⟩ := h.mem_names.mp hb
      simpa using heq

/-- **A stored list reads back** through `as! [String]`. -/
theorem IsList.asStringArray {node : FNode} {xs : List String}
    (h : IsList node xs) (hne : xs ≠ []) : asStringArray node = some xs := by
  obtain ⟨keys, hkeys, hperm⟩ := h.integerKeys
  obtain ⟨n, hn⟩ : ∃ n, xs.length = n + 1 :=
    ⟨xs.length - 1, by have := List.length_pos_iff.mpr hne; omega⟩
  have hmax : keys.foldl max 0 = n := by
    rw [hperm.foldl_eq, hn, foldl_max_range]
  have hlength : keys.length = n + 1 := by simpa [hn] using hperm.length_eq
  have harray : toArray node =
      some ((List.range xs.length).map fun i => node.child (indexKey i)) := by
    simp only [toArray, hkeys, hmax, hlength, hn]
    rw [if_pos (by omega)]
  have hread : ∀ i ∈ List.range xs.length,
      (asString ∘ fun i => node.child (indexKey i)) i = some (xs.getD i "") := by
    intro i hi
    have hlt : i < xs.length := List.mem_range.mp hi
    simp [h.index i, List.getElem?_eq_getElem hlt]
  rw [WillItRecycle.asStringArray, harray, Option.bind_some, List.mapM_map,
    mapM_eq_some_map hread]
  congr 1
  apply List.ext_getElem (by simp)
  intro i hi hi'
  simp [List.getElem?_eq_getElem hi']

/-- The stored list is determined by the node. -/
theorem IsList.unique {node : FNode} {xs ys : List String} (hx : IsList node xs)
    (hy : IsList node ys) : xs = ys := by
  apply List.ext_getElem?
  intro i
  have heq := (hx.index i).symm.trans (hy.index i)
  cases hxi : xs[i]? with
  | none =>
      cases hyi : ys[i]? with
      | none => rfl
      | some y => exact absurd heq.symm (by simp [hxi, hyi])
  | some x =>
      cases hyi : ys[i]? with
      | none => simp [hxi, hyi] at heq
      | some y =>
          simp only [hxi, hyi, Option.elim_some, Tree.leaf_inj, Value.string.injEq] at heq
          rw [heq]

theorem IsList.isEmpty_eq_false {node : FNode} {xs : List String} (h : IsList node xs)
    (hne : xs ≠ []) : node.isEmpty = false := by
  rw [Tree.isEmpty_eq_false_iff]
  rintro rfl
  exact hne (h.unique (isList_nil_iff.mpr rfl))

/-- A node with a child name that is no integer is exported as a dictionary. -/
theorem asDictionary_eq_names {node : FNode} {name : String}
    (hmem : name ∈ node.names) (hname : integerKey name = none) :
    asDictionary node = some node.names := by
  have harray : toArray node = none := by
    simp [toArray, mapM_eq_none_of_mem hmem hname]
  have hempty : node.isEmpty = false := by
    rw [Tree.isEmpty_eq_false_iff]
    rintro rfl
    simp at hmem
  have hleaf : node.isLeaf = false := by
    obtain ⟨raw, hraw⟩ := node
    cases raw with
    | leaf value => simp [Tree.names, Raw.names] at hmem
    | branch entries => rfl
  simp [asDictionary, harray, hempty, hleaf]

/-- A node with a string below a name that is no integer is a dictionary. -/
theorem asDictionary_of_asString {node : FNode} {name : String}
    (hstring : (asString (node.child name)).isSome) (hname : integerKey name = none) :
    asDictionary node = some node.names := by
  have hmem : name ∈ node.names := by
    rw [Tree.mem_names_iff]
    intro hempty
    simp [hempty, asString] at hstring
  exact asDictionary_eq_names hmem hname

end WillItRecycle

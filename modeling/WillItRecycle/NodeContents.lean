import WillItRecycle.PathTree
import Mathlib.Data.List.Perm.Subperm

/-!
# What a tree holds

A tree lists its children in the order in which they were set, and two trees with
the same children are the same node whatever that order is.  `contents` reads off
what is stored below each path; `isEqual` compares trees child by child, as the
nodes of a document database do, and `isEqual_iff` says that it compares contents.
-/

namespace PathTree

namespace Raw

variable {K V : Type} [DecidableEq K]

/-- Names are distinct, so a stored child is found under its own. -/
theorem child_of_mem {entries : List (K × Raw K V)} (hnodup : (entries.map Prod.fst).Nodup)
    {name : K} {child : Raw K V} (hmem : (name, child) ∈ entries) :
    (Raw.branch entries).child name = child := by
  induction entries with
  | nil => cases hmem
  | cons entry rest ih =>
      rw [List.map_cons, List.nodup_cons] at hnodup
      rcases List.mem_cons.mp hmem with rfl | hrest
      · simp [Raw.child]
      · have hne : name ≠ entry.1 := fun heq =>
          hnodup.1 (heq ▸ List.mem_map_of_mem (f := Prod.fst) hrest)
        have htail := ih hnodup.2 hrest
        obtain ⟨other, sibling⟩ := entry
        have hbeq : (name == other) = false := beq_eq_false_iff_ne.mpr hne
        rw [Raw.child, List.lookup_cons, hbeq]
        exact htail

section Equality

variable [DecidableEq V]

mutual

/-- `isEqual:` of two nodes: the same value, or as many children with equal ones
under the same names. -/
def isEqual : Raw K V → Raw K V → Bool
  | .leaf value, .leaf other => value = other
  | .branch entries, .branch others =>
      entries.length = others.length && entriesEqual entries (.branch others)
  | .leaf _, .branch _ | .branch _, .leaf _ => false

/-- Each of these children is equal to the child of its name in the other node. -/
def entriesEqual : List (K × Raw K V) → Raw K V → Bool
  | [], _ => true
  | (name, child) :: rest, other =>
      isEqual child (other.child name) && entriesEqual rest other

end

/-- The loop over the children compares all of them. -/
theorem entriesEqual_iff {entries : List (K × Raw K V)} {other : Raw K V} :
    entriesEqual entries other = true ↔
      ∀ entry ∈ entries, isEqual entry.2 (other.child entry.1) = true := by
  induction entries with
  | nil => simp [entriesEqual]
  | cons entry rest ih => simp [entriesEqual, ih]

end Equality

end Raw

namespace Tree

variable {K V : Type} [DecidableEq K]

/-- The value stored at each path below a node. -/
def contents (t : Tree K V) (path : List K) : Option V := (t.get path).value?

/-- At its root a tree holds its value, if it is one. -/
@[simp] theorem contents_nil (t : Tree K V) : t.contents [] = t.value? := rfl

/-- Further down it holds what the child there holds. -/
@[simp] theorem contents_cons (t : Tree K V) (name : K) (path : List K) :
    t.contents (name :: path) = (t.child name).contents path := rfl

/-- The absent tree holds nothing anywhere. -/
@[simp] theorem contents_empty (path : List K) :
    (empty : Tree K V).contents path = none := by
  simp [contents]

/-- What a node of a tree holds is what the tree holds below the path of the node. -/
theorem contents_get (t : Tree K V) (path rest : List K) :
    (t.get path).contents rest = t.contents (path ++ rest) := by
  induction path generalizing t with
  | nil => rfl
  | cons name path ih => simpa using ih (t.child name)

/-- Trees that hold the same everywhere have the same value at the root. -/
theorem value?_eq_of_contents {t u : Tree K V} (h : t.contents = u.contents) :
    t.value? = u.value? := congrFun h []

/-- Their children hold the same. -/
theorem contents_child_eq {t u : Tree K V} (h : t.contents = u.contents) (name : K) :
    (t.child name).contents = (u.child name).contents :=
  funext fun path => congrFun h (name :: path)

/-- Their nodes at every path hold the same. -/
theorem contents_get_eq {t u : Tree K V} (h : t.contents = u.contents) (path : List K) :
    (t.get path).contents = (u.get path).contents := by
  funext rest
  rw [contents_get, contents_get, h]

/-- Equal contents, one level at a time. -/
theorem contents_ext {t u : Tree K V} (hvalue : t.value? = u.value?)
    (hchild : ∀ name, (t.child name).contents = (u.child name).contents) :
    t.contents = u.contents := by
  funext path
  cases path with
  | nil => exact hvalue
  | cons name path => exact congrFun (hchild name) path

/-- A tree is a leaf when it has a value. -/
theorem isLeaf_eq_value? (t : Tree K V) : t.isLeaf = t.value?.isSome := by
  obtain ⟨raw, hraw⟩ := t
  cases raw <;> rfl

/-- A branch has no value of its own. -/
theorem value?_eq_none {t : Tree K V} (h : t.isLeaf = false) : t.value? = none := by
  rw [isLeaf_eq_value?] at h
  exact Option.isSome_eq_false_iff.mp h |> Option.isNone_iff_eq_none.mp

/-- A name that is not listed leads to nothing. -/
theorem child_eq_empty {t : Tree K V} {name : K} (h : name ∉ t.names) : t.child name = empty := by
  rw [mem_names_iff, not_not] at h
  exact h

/-- A leaf is the tree of its value. -/
theorem eq_leaf_of_value? {t : Tree K V} {value : V} (h : t.value? = some value) :
    t = leaf value := by
  obtain ⟨raw, hraw⟩ := t
  cases raw with
  | leaf other =>
      obtain rfl : other = value := Option.some.inj h
      rfl
  | branch entries => cases h

/-- Induction over a tree: leaves, then nodes whose children are done. -/
theorem induction {P : Tree K V → Prop} (leaf : ∀ value, P (leaf value))
    (branch : ∀ t : Tree K V, t.isLeaf = false → (∀ name ∈ t.names, P (t.child name)) → P t)
    (t : Tree K V) : P t := by
  obtain ⟨raw, hraw⟩ := t
  induction hraw with
  | leaf value => exact leaf value
  | branch entries hnodup hsome hbelow ih =>
      refine branch ⟨_, .branch entries hnodup hsome hbelow⟩ rfl fun name hname => ?_
      obtain ⟨⟨name, child⟩, hmem, rfl⟩ := List.mem_map.mp hname
      have hchild : Tree.child ⟨_, .branch entries hnodup hsome hbelow⟩ name =
          ⟨child, hbelow name child hmem⟩ := Subtype.ext (Raw.child_of_mem hnodup hmem)
      rw [hchild]
      exact ih name child hmem

/-- Only the empty tree holds nothing. -/
theorem eq_empty_of_contents {t : Tree K V} (h : ∀ path, t.contents path = none) :
    t = empty := by
  induction t using Tree.induction with
  | leaf value => cases h []
  | branch t hbranch ih =>
      refine eq_empty_of_child hbranch fun name => ?_
      by_contra hchild
      exact hchild (ih name (mem_names_iff.mpr hchild) fun path => h (name :: path))

/-- A tree that holds nothing anywhere is the absent one. -/
theorem contents_eq_none_iff {t : Tree K V} : (∀ path, t.contents path = none) ↔ t = empty :=
  ⟨eq_empty_of_contents, by rintro rfl; exact contents_empty⟩

/-- Whether a tree is absent can be seen from what it holds. -/
theorem isEmpty_eq_of_contents {t u : Tree K V} (h : t.contents = u.contents) :
    t.isEmpty = u.isEmpty := by
  rw [Bool.eq_iff_iff, isEmpty_iff, isEmpty_iff, ← contents_eq_none_iff,
    ← contents_eq_none_iff, h]

/-- Trees with equal contents list the same names. -/
theorem names_perm_of_contents {t u : Tree K V} (h : t.contents = u.contents) :
    t.names.Perm u.names := by
  rw [List.perm_ext_iff_of_nodup t.nodup_names u.nodup_names]
  intro name
  have hchild := isEmpty_eq_of_contents (contents_child_eq h name)
  rw [mem_names_iff, mem_names_iff, ← isEmpty_eq_false_iff, ← isEmpty_eq_false_iff, hchild]

/-- An empty child turns no value into a branch. -/
theorem value?_setChild (t new : Tree K V) (name : K) :
    (t.setChild name new).value? = if new.isEmpty then t.value? else none := by
  obtain ⟨raw, hraw⟩ := t
  cases raw with
  | leaf value =>
      by_cases hnew : new.val.isEmpty
      · simp [value?, setChild, Raw.setChild, isEmpty, hnew]
      · simp [value?, setChild, Raw.setChild, isEmpty, hnew]
  | branch entries => simp [value?, setChild, Raw.setChild]

/-- Setting a child to what it holds already changes nothing. -/
theorem contents_setChild_same {t new : Tree K V} {name : K}
    (h : new.contents = (t.child name).contents) :
    (t.setChild name new).contents = t.contents := by
  refine contents_ext ?_ fun other => ?_
  · rw [value?_setChild]
    by_cases hnew : new.isEmpty
    · rw [if_pos hnew]
    · rw [if_neg hnew]
      cases hvalue : t.value? with
      | none => rfl
      | some value =>
          -- a leaf has no child, so the new one would be empty
          rw [isEmpty_eq_of_contents h, eq_leaf_of_value? hvalue] at hnew
          exact absurd rfl hnew
  · rw [child_setChild]
    split
    · rename_i hname
      rw [hname, h]
    · rfl

/-- The same at the end of a path. -/
theorem contents_set_same {t new : Tree K V} {path : List K}
    (h : new.contents = (t.get path).contents) : (t.set path new).contents = t.contents := by
  induction path generalizing t with
  | nil => exact h
  | cons name path ih => exact contents_setChild_same (ih h)

/-- Replacing a child depends only on what the tree and the child hold. -/
theorem contents_setChild_congr {t u new new' : Tree K V} (h : t.contents = u.contents)
    (hnew : new.contents = new'.contents) (name : K) :
    (t.setChild name new).contents = (u.setChild name new').contents := by
  refine contents_ext ?_ fun other => ?_
  · rw [value?_setChild, value?_setChild, isEmpty_eq_of_contents hnew,
      value?_eq_of_contents h]
  · rw [child_setChild, child_setChild]
    split
    · exact hnew
    · exact contents_child_eq h other

/-- Writing at a path depends only on what the tree and the value hold. -/
theorem contents_set_congr {t u new new' : Tree K V} (h : t.contents = u.contents)
    (hnew : new.contents = new'.contents) (path : List K) :
    (t.set path new).contents = (u.set path new').contents := by
  induction path generalizing t u with
  | nil => exact hnew
  | cons name path ih => exact contents_setChild_congr h (ih (contents_child_eq h name)) name

section Equality

variable [DecidableEq V]

/-- `isEqual:` -/
def isEqual (t u : Tree K V) : Bool := t.val.isEqual u.val

/-- A leaf is equal to the trees that have its value. -/
theorem isEqual_leaf_left (value : V) (u : Tree K V) :
    (leaf value).isEqual u = true ↔ u.value? = some value := by
  obtain ⟨other, hother⟩ := u
  cases other with
  | leaf other => simp [isEqual, leaf, Raw.isEqual, value?, eq_comm]
  | branch others => simp [isEqual, leaf, Raw.isEqual, value?]

/-- Branches are equal when they have equally many children and each of the one is equal
to the child of its name in the other. -/
theorem isEqual_branch {t u : Tree K V} (ht : t.isLeaf = false) (hu : u.isLeaf = false) :
    t.isEqual u = true ↔ t.names.length = u.names.length ∧
      ∀ name ∈ t.names, (t.child name).isEqual (u.child name) = true := by
  obtain ⟨raw, hraw⟩ := t
  obtain ⟨other, hother⟩ := u
  cases hraw with
  | leaf value => cases ht
  | branch entries hnodup hsome hbelow =>
      cases other with
      | leaf value => cases hu
      | branch others =>
          simp only [isEqual, Raw.isEqual, Bool.and_eq_true, decide_eq_true_eq,
            Raw.entriesEqual_iff, names, Raw.names, List.length_map, List.forall_mem_map]
          refine and_congr_right fun _ => forall₂_congr fun entry hmem => ?_
          rw [← Raw.child_of_mem hnodup hmem]
          rfl

/-- A branch is never equal to a leaf. -/
theorem not_isEqual_leaf {t u : Tree K V} (ht : t.isLeaf = false) (hu : u.isLeaf = true) :
    ¬ t.isEqual u = true := by
  obtain ⟨raw, hraw⟩ := t
  obtain ⟨other, hother⟩ := u
  cases raw with
  | leaf value => cases ht
  | branch entries =>
      cases other with
      | leaf value => simp [isEqual, Raw.isEqual]
      | branch others => cases hu

/-- **Two nodes are equal when they hold the same.** -/
theorem isEqual_iff {t u : Tree K V} : t.isEqual u = true ↔ t.contents = u.contents := by
  induction t using Tree.induction generalizing u with
  | leaf value =>
      rw [isEqual_leaf_left]
      constructor
      · intro h
        rw [eq_leaf_of_value? h]
      · intro h
        exact (value?_eq_of_contents h).symm
  | branch t hbranch ih =>
      by_cases hu : u.isLeaf = false
      · rw [isEqual_branch hbranch hu]
        constructor
        · rintro ⟨hlength, hchild⟩
          have hsub : t.names ⊆ u.names := by
            intro name hname
            have hequal := (ih name hname).mp (hchild name hname)
            rw [mem_names_iff, ← isEmpty_eq_false_iff] at hname ⊢
            rw [← isEmpty_eq_of_contents hequal]
            exact hname
          have hnames : u.names ⊆ t.names :=
            ((List.subperm_of_subset t.nodup_names hsub).perm_of_length_le
              (Nat.le_of_eq hlength.symm)).symm.subset
          refine contents_ext ?_ fun name => ?_
          · rw [value?_eq_none hbranch, value?_eq_none hu]
          · by_cases hname : name ∈ t.names
            · exact (ih name hname).mp (hchild name hname)
            · rw [child_eq_empty hname, child_eq_empty (fun hmem => hname (hnames hmem))]
        · intro h
          refine ⟨(names_perm_of_contents h).length_eq, fun name hname => ?_⟩
          exact (ih name hname).mpr (contents_child_eq h name)
      · rw [Bool.not_eq_false] at hu
        refine iff_of_false (not_isEqual_leaf hbranch hu) fun h => ?_
        · rw [isLeaf_eq_value?, ← value?_eq_of_contents h, ← isLeaf_eq_value?, hbranch] at hu
          cases hu

end Equality

end Tree

end PathTree

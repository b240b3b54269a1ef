import Mathlib.Data.List.Nodup

/-!
# Trees addressed by paths

A store whose state is one tree: a node either carries a value or has named
children, an absent node and a node without children are the same thing, and
reads and writes name a node by the path of child names leading to it.  This
is the state model of a realtime document database.

`Raw` is the tree as data and `Tree` the trees such a store can really hold:
child names are distinct and no empty child is stored.  The laws of `get` and
`set` are all a client of the store needs:

* `get_set_same` -- a node reads back what was last written to it;
* `get_set_of_diverge` -- a write does not touch a node on another branch;
* `mem_names_iff` -- the names listed at a node are those of its nonempty
  children.
-/

namespace PathTree

/-- A node is a value or a list of named children. -/
inductive Raw (K V : Type) where
  | leaf (value : V)
  | branch (entries : List (K × Raw K V))

namespace Raw

variable {K V : Type}

/-- The absent node: no value and no children. -/
def empty : Raw K V := .branch []

/-- Only the branch without children is absent: a store holds no other node without a
value. -/
def isEmpty : Raw K V → Bool
  | .branch [] => true
  | _ => false

/-- There is one absent node, so a node that answers as absent is that one. -/
theorem eq_empty_of_isEmpty {t : Raw K V} (h : t.isEmpty) : t = empty := by
  cases t with
  | leaf value => cases h
  | branch entries =>
      cases entries with
      | nil => rfl
      | cons entry rest => cases h

/-- A leaf holds a value; a branch, also the absent one, does not. -/
def isLeaf : Raw K V → Bool
  | .leaf _ => true
  | .branch _ => false

/-- The names of the children stored at a node. -/
def names : Raw K V → List K
  | .leaf _ => []
  | .branch entries => entries.map Prod.fst

section Children

variable [DecidableEq K]

/-- The child called `name`; a node without such a child answers `empty`. -/
def child (t : Raw K V) (name : K) : Raw K V :=
  match t with
  | .leaf _ => empty
  | .branch entries => (entries.lookup name).getD empty

/-- Replace the child called `name`.  An empty replacement deletes the child;
any other replacement turns a value into a branch. -/
def setChild (t : Raw K V) (name : K) (new : Raw K V) : Raw K V :=
  match t with
  | .leaf value => if new.isEmpty then .leaf value else .branch [(name, new)]
  | .branch entries =>
      let others := entries.filter (fun entry => entry.1 ≠ name)
      .branch (if new.isEmpty then others else (name, new) :: others)

/-- After the entries of a name are filtered out, looking that name up finds nothing. -/
theorem lookup_filter_ne_self (name : K) (entries : List (K × Raw K V)) :
    (entries.filter (fun entry => entry.1 ≠ name)).lookup name = none := by
  rw [List.lookup_eq_none_iff]
  intro entry hentry
  have hne : entry.1 ≠ name := by simpa using (List.mem_filter.mp hentry).2
  exact bne_iff_ne.mpr hne.symm

/-- Filtering out the entries of one name does not change what another name finds. -/
theorem lookup_filter_ne {name other : K} (hne : other ≠ name)
    (entries : List (K × Raw K V)) :
    (entries.filter (fun entry => entry.1 ≠ name)).lookup other =
      entries.lookup other := by
  induction entries with
  | nil => rfl
  | cons entry rest ih =>
      rcases entry with ⟨k, t⟩
      by_cases hk : k = name
      · have hother : (other == k) = false := by simpa [hk] using hne
        rw [List.filter_cons_of_neg (by simpa using hk), ih, List.lookup_cons, hother]
      · rw [List.filter_cons_of_pos (by simpa using hk), List.lookup_cons,
          List.lookup_cons, ih]

/-- What a lookup finds is one of the entries of the list, under the name looked up. -/
theorem mem_of_lookup {name : K} {t : Raw K V} :
    ∀ {entries : List (K × Raw K V)},
      entries.lookup name = some t → (name, t) ∈ entries
  | (k, u) :: rest, h => by
      by_cases hk : name = k
      · have : u = t := by simpa [hk] using h
        simp [hk, this]
      · have hbeq : (name == k) = false := beq_eq_false_iff_ne.mpr hk
        rw [List.lookup_cons, hbeq] at h
        exact List.mem_cons_of_mem _ (mem_of_lookup h)

/-- The child last written is the child read back, also when the write deleted it. -/
theorem child_setChild_same (t : Raw K V) (name : K) (new : Raw K V) :
    (t.setChild name new).child name = new := by
  by_cases hnew : new.isEmpty
  · obtain rfl := eq_empty_of_isEmpty hnew
    cases t with
    | leaf value => simp [setChild, child, hnew]
    | branch entries =>
        simp only [setChild, hnew, if_true, child, lookup_filter_ne_self]
        rfl
  · cases t <;> simp [setChild, child, hnew]

/-- Replacing one child leaves the children under all other names as they were. -/
theorem child_setChild_ne {name other : K} (hne : other ≠ name)
    (t new : Raw K V) :
    (t.setChild name new).child other = t.child other := by
  have hbeq : (other == name) = false := beq_eq_false_iff_ne.mpr hne
  by_cases hnew : new.isEmpty
  · cases t with
    | leaf value => simp [setChild, child, hnew]
    | branch entries =>
        simp only [setChild, hnew, if_true, child, lookup_filter_ne hne]
  · cases t with
    | leaf value => simp [setChild, child, hnew, List.lookup_cons, hbeq]
    | branch entries =>
        simp only [setChild, hnew, Bool.false_eq_true, if_false, child,
          List.lookup_cons, hbeq, lookup_filter_ne hne]

end Children

/-- A tree a store can hold: distinct child names, no stored empty child, and
the same below. -/
inductive Proper : Raw K V → Prop
  | leaf (value : V) : Proper (.leaf value)
  | branch (entries : List (K × Raw K V))
      (hnodup : (entries.map Prod.fst).Nodup)
      (hsome : ∀ name t, (name, t) ∈ entries → t.isEmpty = false)
      (hbelow : ∀ name t, (name, t) ∈ entries → Proper t) :
      Proper (.branch entries)

/-- The absent node is a tree a store can hold: it has no entries to be wrong. -/
theorem proper_empty : Proper (empty : Raw K V) :=
  .branch [] (by simp) (by simp) (by simp)

/-- No name occurs twice among the children of a tree that a store can hold. -/
theorem Proper.nodup_names {t : Raw K V} (h : Proper t) : t.names.Nodup := by
  cases h with
  | leaf value => simp [names]
  | branch entries hnodup hsome hbelow => exact hnodup

variable [DecidableEq K]

/-- The child of a proper tree is proper, whether an entry holds it or it is absent. -/
theorem Proper.child {t : Raw K V} (h : Proper t) (name : K) :
    Proper (t.child name) := by
  cases h with
  | leaf value => exact proper_empty
  | branch entries hnodup hsome hbelow =>
      cases hlook : entries.lookup name with
      | none => simpa [Raw.child, hlook] using proper_empty
      | some u => simpa [Raw.child, hlook] using hbelow name u (mem_of_lookup hlook)

/-- Writing a proper child into a proper tree gives a proper tree: an empty child is
deleted, not stored, and the other names stay distinct. -/
theorem Proper.setChild {t new : Raw K V} (h : Proper t) (hnew : Proper new)
    (name : K) : Proper (t.setChild name new) := by
  cases h with
  | leaf value =>
      by_cases hempty : new.isEmpty
      · simpa [Raw.setChild, hempty] using Proper.leaf value
      · rw [Raw.setChild, if_neg hempty]
        exact .branch _ (by simp) (by simpa using hempty) (by simpa using hnew)
  | branch entries hnodup hsome hbelow =>
      have hothers : ((entries.filter (fun entry => entry.1 ≠ name)).map
          Prod.fst).Nodup := hnodup.sublist (List.filter_sublist.map _)
      by_cases hempty : new.isEmpty
      · simp only [Raw.setChild, hempty, if_true]
        exact .branch _ hothers
          (fun k u hu => hsome k u (List.mem_of_mem_filter hu))
          (fun k u hu => hbelow k u (List.mem_of_mem_filter hu))
      · simp only [Raw.setChild, hempty]
        refine .branch _ ?_ ?_ ?_
        · simpa [List.nodup_cons] using hothers
        · intro k u hu
          rcases List.mem_cons.mp hu with heq | hu
          · simp_all
          · exact hsome k u (List.mem_of_mem_filter hu)
        · intro k u hu
          rcases List.mem_cons.mp hu with heq | hu
          · simp_all
          · exact hbelow k u (List.mem_of_mem_filter hu)

/-- In a proper tree the listed names are those of the nonempty children. -/
theorem Proper.mem_names_iff {t : Raw K V} (h : Proper t) (name : K) :
    name ∈ t.names ↔ (t.child name).isEmpty = false := by
  cases h with
  | leaf value => simp [names, Raw.child, empty, isEmpty]
  | branch entries hnodup hsome hbelow =>
      constructor
      · intro hmem
        obtain ⟨⟨k, u⟩, hu, rfl⟩ := List.mem_map.mp hmem
        cases hlook : entries.lookup k with
        | none => exact absurd (List.lookup_eq_none_iff.mp hlook _ hu) (by simp)
        | some v =>
            simpa [Raw.child, hlook] using hsome k v (mem_of_lookup hlook)
      · intro hchild
        cases hlook : entries.lookup name with
        | none => simp [Raw.child, hlook, empty, isEmpty] at hchild
        | some v => exact List.mem_map.mpr ⟨_, mem_of_lookup hlook, rfl⟩

/-- The node at a path. -/
def get (t : Raw K V) : List K → Raw K V
  | [] => t
  | name :: path => (t.child name).get path

/-- Replace the node at a path. -/
def set (t : Raw K V) (path : List K) (new : Raw K V) : Raw K V :=
  match path with
  | [] => new
  | name :: path => t.setChild name ((t.child name).set path new)

/-- Every node read out of a proper tree is proper, by one step for each name of the path.
-/
theorem Proper.get {t : Raw K V} (h : Proper t) (path : List K) :
    Proper (t.get path) := by
  induction path generalizing t with
  | nil => exact h
  | cons name path ih => exact ih (h.child name)

/-- A write at any path keeps a tree proper, since each step of the way replaces one
child. -/
theorem Proper.set {t new : Raw K V} (h : Proper t) (hnew : Proper new)
    (path : List K) : Proper (t.set path new) := by
  induction path generalizing t with
  | nil => exact hnew
  | cons name path ih => exact h.setChild (ih (h.child name)) name

end Raw

section Paths

variable {K : Type}

/-- Two paths that part at some name, neither leading through the other. -/
def Diverge : List K → List K → Prop
  | a :: p, b :: q => a ≠ b ∨ Diverge p q
  | _, _ => False

/-- Paths part at their first name, or part later after a common one. -/
@[simp] theorem diverge_cons (a b : K) (p q : List K) :
    Diverge (a :: p) (b :: q) ↔ a ≠ b ∨ Diverge p q := Iff.rfl

/-- The root leads to every other path, so it parts from none. -/
@[simp] theorem not_diverge_nil_left (q : List K) : ¬ Diverge [] q := by
  simp [Diverge]

/-- No path parts from the root, for the same reason. -/
@[simp] theorem not_diverge_nil_right (p : List K) : ¬ Diverge p [] := by
  simp [Diverge]

end Paths

/-- A tree as a store holds it. -/
def Tree (K V : Type) [DecidableEq K] : Type :=
  { t : Raw K V // t.Proper }

namespace Tree

variable {K V : Type} [DecidableEq K]

/-- The tree of an absent node. -/
def empty : Tree K V := ⟨Raw.empty, Raw.proper_empty⟩

/-- The tree of a single value. -/
def leaf (value : V) : Tree K V := ⟨.leaf value, .leaf value⟩

/-- Whether the tree is the absent one. -/
def isEmpty (t : Tree K V) : Bool := t.val.isEmpty

/-- Whether the tree is a value. -/
def isLeaf (t : Tree K V) : Bool := t.val.isLeaf

/-- The value of a leaf. -/
def value? (t : Tree K V) : Option V :=
  match t.val with
  | .leaf value => some value
  | .branch _ => none

/-- The names of the children, each of which holds something. -/
def names (t : Tree K V) : List K := t.val.names

/-- The child called `name`; reading a name that is not there gives the absent tree. -/
def child (t : Tree K V) (name : K) : Tree K V :=
  ⟨t.val.child name, t.property.child name⟩

/-- Replace the child called `name`; an absent replacement deletes it. -/
def setChild (t : Tree K V) (name : K) (new : Tree K V) : Tree K V :=
  ⟨t.val.setChild name new.val, t.property.setChild new.property name⟩

/-- The node at a path. -/
def get (t : Tree K V) (path : List K) : Tree K V :=
  ⟨t.val.get path, t.property.get path⟩

/-- Replace the node at a path and leave every other branch as it is. -/
def set (t : Tree K V) (path : List K) (new : Tree K V) : Tree K V :=
  ⟨t.val.set path new.val, t.property.set new.property path⟩

/-- The root of a tree is the tree. -/
@[simp] theorem get_nil (t : Tree K V) : t.get [] = t := rfl

/-- A path is read name by name, from the root down. -/
@[simp] theorem get_cons (name : K) (path : List K) (t : Tree K V) :
    t.get (name :: path) = (t.child name).get path := rfl

/-- A write at the root replaces the whole tree. -/
@[simp] theorem set_nil (new t : Tree K V) : t.set [] new = new := rfl

/-- A write at a path is a write in the child its first name leads to. -/
theorem set_cons (name : K) (path : List K) (new t : Tree K V) :
    t.set (name :: path) new = t.setChild name ((t.child name).set path new) :=
  rfl

/-- The absent tree is empty. -/
@[simp] theorem isEmpty_empty : (empty : Tree K V).isEmpty = true := rfl

/-- A value is not empty. -/
@[simp] theorem isEmpty_leaf (value : V) :
    (leaf value : Tree K V).isEmpty = false := rfl

/-- The absent tree is no value. -/
@[simp] theorem isLeaf_empty : (empty : Tree K V).isLeaf = false := rfl

/-- A value is a leaf. -/
@[simp] theorem isLeaf_leaf (value : V) :
    (leaf value : Tree K V).isLeaf = true := rfl

/-- The value of a leaf is the one it was made of. -/
@[simp] theorem value?_leaf (value : V) :
    (leaf value : Tree K V).value? = some value := rfl

/-- The absent tree holds no value. -/
@[simp] theorem value?_empty : (empty : Tree K V).value? = none := rfl

/-- Nothing is below the absent tree. -/
@[simp] theorem child_empty (name : K) : (empty : Tree K V).child name = empty :=
  rfl

/-- Nothing is at any path of the absent tree. -/
@[simp] theorem get_empty (path : List K) : (empty : Tree K V).get path = empty := by
  induction path with
  | nil => rfl
  | cons name path ih => rw [get_cons, child_empty, ih]

/-- Nothing is below a value: reading a name there gives the absent tree. -/
@[simp] theorem child_leaf (name : K) (value : V) :
    (leaf value : Tree K V).child name = empty := rfl

/-- The absent tree has no children. -/
@[simp] theorem names_empty : (empty : Tree K V).names = [] := rfl

/-- The absent tree is the only empty one. -/
theorem isEmpty_iff {t : Tree K V} : t.isEmpty = true ↔ t = empty := by
  constructor
  · intro h
    exact Subtype.ext (Raw.eq_empty_of_isEmpty h)
  · rintro rfl
    rfl

/-- A tree that is not empty is any other than the absent one, which is how a read finds
that something is there. -/
theorem isEmpty_eq_false_iff {t : Tree K V} : t.isEmpty = false ↔ t ≠ empty := by
  rw [← Bool.not_eq_true, isEmpty_iff]

/-- A value is never the absent tree, so writing one never deletes. -/
@[simp] theorem leaf_ne_empty (value : V) : (leaf value : Tree K V) ≠ empty :=
  isEmpty_eq_false_iff.mp rfl

/-- Two leaves are equal when their values are. -/
@[simp] theorem leaf_inj {v w : V} :
    (leaf v : Tree K V) = leaf w ↔ v = w := by
  constructor
  · intro h
    simpa using congrArg value? h
  · rintro rfl
    rfl

/-- The child last written is the child read back. -/
@[simp] theorem child_setChild_same (name : K) (new t : Tree K V) :
    (t.setChild name new).child name = new :=
  Subtype.ext (Raw.child_setChild_same t.val name new.val)

/-- Writing one child leaves the others as they were. -/
theorem child_setChild_ne {name other : K} (hne : other ≠ name)
    (new t : Tree K V) :
    (t.setChild name new).child other = t.child other :=
  Subtype.ext (Raw.child_setChild_ne hne t.val new.val)

/-- What a name finds after a child was written, for the name written and for the others.
-/
theorem child_setChild (name other : K) (new t : Tree K V) :
    (t.setChild name new).child other =
      if other = name then new else t.child other := by
  by_cases h : other = name
  · subst h
    simp
  · simp [h, child_setChild_ne h]

/-- A branch stays a branch when a child of it is replaced. -/
theorem isLeaf_setChild {t : Tree K V} (h : t.isLeaf = false) (name : K)
    (new : Tree K V) : (t.setChild name new).isLeaf = false := by
  obtain ⟨raw, hraw⟩ := t
  cases raw with
  | leaf value => cases h
  | branch entries => rfl

/-- The listed names are those under which something is found. -/
theorem mem_names_iff {t : Tree K V} {name : K} :
    name ∈ t.names ↔ t.child name ≠ empty := by
  rw [← isEmpty_eq_false_iff]
  exact t.property.mem_names_iff name

/-- No name is listed twice. -/
theorem nodup_names (t : Tree K V) : t.names.Nodup :=
  t.property.nodup_names

/-- A branch with no nonempty child is the empty tree. -/
theorem eq_empty_of_child {t : Tree K V} (hbranch : t.isLeaf = false)
    (h : ∀ name, t.child name = empty) : t = empty := by
  apply isEmpty_iff.mp
  have hnames : t.names = [] := by
    apply List.eq_nil_iff_forall_not_mem.mpr
    intro name hmem
    exact mem_names_iff.mp hmem (h name)
  obtain ⟨raw, hraw⟩ := t
  cases raw with
  | leaf value => cases hbranch
  | branch entries =>
      have : entries = [] := by simpa [names, Raw.names] using hnames
      subst this
      rfl

/-- A node reads back what was written to it. -/
@[simp] theorem get_set_same (path : List K) (new t : Tree K V) :
    (t.set path new).get path = new := by
  induction path generalizing t with
  | nil => rfl
  | cons name path ih => simp [set_cons, ih]

/-- A write does not touch a node on another branch. -/
theorem get_set_of_diverge {p q : List K} (h : Diverge p q)
    (new t : Tree K V) : (t.set p new).get q = t.get q := by
  induction p generalizing q t with
  | nil => exact absurd h (not_diverge_nil_left q)
  | cons a p ih =>
      cases q with
      | nil => exact absurd h (not_diverge_nil_right _)
      | cons b q =>
          by_cases hab : b = a
          · subst hab
            have hpq : Diverge p q := by simpa using h
            simp [set_cons, ih hpq]
          · simp [set_cons, child_setChild_ne hab]

end Tree

end PathTree

import Mathlib.Data.Nat.Digits.Defs
import Mathlib.Order.Compare

/-!
# Words of digits

A word holds the digits of a number, the greatest place first.  Words of one length
compare as the numbers do (`compareLex_eq`), also when each digit is written with a
code that grows with it (`compareLex_map`).  `increment` is the carry of a counter,
and fails where the word has no room for it (`increment_eq_none`).
-/

namespace DigitWords

variable {b : Nat} {ds es : List Nat}

/-- The number that a word stands for. -/
def value (b : Nat) (ds : List Nat) : Nat := Nat.ofDigits b ds.reverse

/-- The digits are below the base. -/
def IsWord (b : Nat) (ds : List Nat) : Prop := ∀ d ∈ ds, d < b

/-- A word is made of digits below the base, one after another. -/
theorem isWord_cons {d : Nat} : IsWord b (d :: ds) ↔ d < b ∧ IsWord b ds :=
  List.forall_mem_cons

/-- Two words one after the other are a word. -/
theorem IsWord.append (hds : IsWord b ds) (hes : IsWord b es) : IsWord b (ds ++ es) :=
  List.forall_mem_append.mpr ⟨hds, hes⟩

/-- A word read backwards is a word. -/
theorem IsWord.reverse (h : IsWord b ds) : IsWord b ds.reverse :=
  fun d hd => h d (List.mem_reverse.mp hd)

/-- The value of two words is that of the first, shifted by the length of the second, and
that of the second. -/
theorem value_append : value b (ds ++ es) = value b ds * b ^ es.length + value b es := by
  rw [value, List.reverse_append, Nat.ofDigits_append, List.length_reverse, value, value]
  ring

/-- The first digit of a word weighs the most. -/
theorem value_cons (d : Nat) : value b (d :: ds) = d * b ^ ds.length + value b ds := by
  have hsingle : value b [d] = d := Nat.ofDigits_singleton
  rw [← List.singleton_append, value_append, hsingle]

/-- A word is worth less than the power of the base at its length, so its value fits in
that many digits. -/
theorem IsWord.value_lt (h : IsWord b ds) (hb : 1 < b) : value b ds < b ^ ds.length := by
  rw [value, ← List.length_reverse]
  exact Nat.ofDigits_lt_base_pow_length hb h.reverse

/-- The lowest places of a number. -/
def lowest (b : Nat) : Nat → Nat → List Nat
  | 0, _ => []
  | width + 1, n => lowest b width (n / b) ++ [n % b]

/-- The lowest places of a number are as many as were asked for. -/
@[simp] theorem length_lowest (width n : Nat) : (lowest b width n).length = width := by
  induction width generalizing n with
  | zero => rfl
  | succ width ih => rw [lowest, List.length_append, ih, List.length_singleton]

/-- The lowest places of a number are a word, whatever the number is. -/
theorem isWord_lowest (hb : 0 < b) (width n : Nat) : IsWord b (lowest b width n) := by
  induction width generalizing n with
  | zero => exact List.forall_mem_nil _
  | succ width ih =>
      have hlast : IsWord b [n % b] := List.forall_mem_singleton.mpr (Nat.mod_lt n hb)
      exact (ih (n / b)).append hlast

/-- A number that fits is what its places stand for. -/
theorem value_lowest {width n : Nat} (h : n < b ^ width) : value b (lowest b width n) = n := by
  induction width generalizing n with
  | zero =>
      rw [Nat.pow_zero, Nat.lt_one_iff] at h
      rw [h]
      rfl
  | succ width ih =>
      have hrest : n / b < b ^ width := Nat.div_lt_of_lt_mul (by rwa [Nat.pow_succ'] at h)
      have hlast : value b [n % b] = n % b := Nat.ofDigits_singleton
      rw [lowest, value_append, ih hrest, hlast, List.length_singleton, Nat.pow_one, Nat.mul_comm]
      exact Nat.div_add_mod n b

/-- A number that leaves the greatest place free. -/
theorem head_lowest {width n : Nat} (h : n < b ^ width) :
    (lowest b (width + 1) n).head? = some 0 := by
  induction width generalizing n with
  | zero =>
      rw [Nat.pow_zero, Nat.lt_one_iff] at h
      rw [lowest, lowest, List.nil_append, List.head?_cons, h, Nat.zero_mod]
  | succ width ih =>
      have hrest : n / b < b ^ width := Nat.div_lt_of_lt_mul (by rwa [Nat.pow_succ'] at h)
      rw [lowest, List.head?_append, ih hrest, Option.some_or]

/-! ## The order -/

/-- Words of one length compare as their numbers. -/
theorem compareLex_eq (hb : 1 < b) (hlength : ds.length = es.length) (hds : IsWord b ds)
    (hes : IsWord b es) : List.compareLex compare ds es = compare (value b ds) (value b es) := by
  induction ds generalizing es with
  | nil =>
      obtain rfl := List.length_eq_zero_iff.mp hlength.symm
      simp
  | cons d ds ih =>
      cases es with
      | nil => cases hlength
      | cons e es =>
          have htail : ds.length = es.length := Nat.succ.inj hlength
          obtain ⟨_, hds⟩ := isWord_cons.mp hds
          obtain ⟨_, hes⟩ := isWord_cons.mp hes
          have hdsLt := hds.value_lt hb
          have hesLt := hes.value_lt hb
          rw [List.compareLex_cons_cons, ih htail hds hes, value_cons, value_cons, htail]
          rw [htail] at hdsLt
          rcases lt_trichotomy d e with hlt | rfl | hgt
          · -- the first digit decides: what follows is less than one of its units
            have hstep : (d + 1) * b ^ es.length ≤ e * b ^ es.length :=
              Nat.mul_le_mul_right _ hlt
            have hvalue : d * b ^ es.length + value b ds < e * b ^ es.length + value b es := by
              rw [Nat.succ_mul] at hstep
              omega
            rw [compare_lt_iff_lt.mpr hlt, compare_lt_iff_lt.mpr hvalue, Ordering.lt_then]
          · rw [compare_eq_iff_eq.mpr rfl, Ordering.eq_then]
            rcases lt_trichotomy (value b ds) (value b es) with hlt | heq | hgt
            · rw [compare_lt_iff_lt.mpr hlt, compare_lt_iff_lt.mpr (by omega)]
            · rw [compare_eq_iff_eq.mpr heq, compare_eq_iff_eq.mpr (by omega)]
            · rw [compare_gt_iff_gt.mpr hgt, compare_gt_iff_gt.mpr (by omega)]
          · have hstep : (e + 1) * b ^ es.length ≤ d * b ^ es.length :=
              Nat.mul_le_mul_right _ hgt
            have hvalue : e * b ^ es.length + value b es < d * b ^ es.length + value b ds := by
              rw [Nat.succ_mul] at hstep
              omega
            rw [compare_gt_iff_gt.mpr hgt, compare_gt_iff_gt.mpr hvalue, Ordering.gt_then]

/-- A code that grows with the digit keeps the order of the words. -/
theorem compareLex_map {code : Nat → Nat}
    (hcode : ∀ d < b, ∀ e < b, compare (code d) (code e) = compare d e) (hds : IsWord b ds)
    (hes : IsWord b es) :
    List.compareLex compare (ds.map code) (es.map code) = List.compareLex compare ds es := by
  induction ds generalizing es with
  | nil => cases es <;> rfl
  | cons d ds ih =>
      cases es with
      | nil => rfl
      | cons e es =>
          obtain ⟨hd, hds⟩ := isWord_cons.mp hds
          obtain ⟨he, hes⟩ := isWord_cons.mp hes
          rw [List.map_cons, List.map_cons, List.compareLex_cons_cons, List.compareLex_cons_cons,
            hcode d hd e he, ih hds hes]

/-! ## Counting on -/

/-- The carry, from the least place on. -/
def carry (b : Nat) : List Nat → Option (List Nat)
  | [] => none
  | d :: ds => if d + 1 = b then (carry b ds).map (0 :: ·) else some ((d + 1) :: ds)

/-- The next word of the same length. -/
def increment (b : Nat) (ds : List Nat) : Option (List Nat) :=
  (carry b ds.reverse).map List.reverse

/-- Adding one with carry keeps the length. -/
theorem carry_length (h : carry b ds = some es) : es.length = ds.length := by
  induction ds generalizing es with
  | nil => cases h
  | cons d ds ih =>
      rw [carry] at h
      split at h
      · obtain ⟨rest, hrest, rfl⟩ := Option.map_eq_some_iff.mp h
        rw [List.length_cons, List.length_cons, ih hrest]
      · obtain rfl := Option.some.inj h
        rfl

/-- Adding one with carry gives digits again: a digit that reaches the base is put back to
zero. -/
theorem carry_isWord (hds : IsWord b ds) (h : carry b ds = some es) : IsWord b es := by
  induction ds generalizing es with
  | nil => cases h
  | cons d ds ih =>
      obtain ⟨hd, hds⟩ := isWord_cons.mp hds
      rw [carry] at h
      split at h
      · obtain ⟨rest, hrest, rfl⟩ := Option.map_eq_some_iff.mp h
        exact isWord_cons.mpr ⟨by omega, ih hds hrest⟩
      · obtain rfl := Option.some.inj h
        exact isWord_cons.mpr ⟨by omega, hds⟩

/-- Adding one with carry, from the lowest digit on, adds one to the number. -/
theorem carry_ofDigits (h : carry b ds = some es) :
    Nat.ofDigits b es = Nat.ofDigits b ds + 1 := by
  induction ds generalizing es with
  | nil => cases h
  | cons d ds ih =>
      rw [carry] at h
      split at h
      next hlast =>
        obtain ⟨rest, hrest, rfl⟩ := Option.map_eq_some_iff.mp h
        rw [Nat.ofDigits_cons, Nat.ofDigits_cons, ih hrest, Nat.mul_succ]
        omega
      next =>
        obtain rfl := Option.some.inj h
        rw [Nat.ofDigits_cons, Nat.ofDigits_cons]
        omega

/-- The carry leaves the word exactly when every digit is the greatest one. -/
theorem carry_eq_none : carry b ds = none ↔ ∀ d ∈ ds, d + 1 = b := by
  induction ds with
  | nil => simp [carry]
  | cons d ds ih =>
      rw [carry, List.forall_mem_cons, ← ih]
      split
      next hlast => simp [hlast]
      next hroom => simp [hroom]

/-- Incrementing a word keeps its length. -/
theorem increment_length (h : increment b ds = some es) : es.length = ds.length := by
  obtain ⟨rest, hrest, rfl⟩ := Option.map_eq_some_iff.mp h
  rw [List.length_reverse, carry_length hrest, List.length_reverse]

/-- Incrementing a word gives a word. -/
theorem increment_isWord (hds : IsWord b ds) (h : increment b ds = some es) : IsWord b es := by
  obtain ⟨rest, hrest, rfl⟩ := Option.map_eq_some_iff.mp h
  exact (carry_isWord hds.reverse hrest).reverse

/-- Incrementing a word, whose lowest digit stands last, adds one to its value. -/
theorem increment_value (h : increment b ds = some es) : value b es = value b ds + 1 := by
  obtain ⟨rest, hrest, rfl⟩ := Option.map_eq_some_iff.mp h
  rw [value, List.reverse_reverse, carry_ofDigits hrest, value]

/-- There is no next word exactly after the greatest one. -/
theorem increment_eq_none : increment b ds = none ↔ ∀ d ∈ ds, d + 1 = b := by
  rw [increment, Option.map_eq_none_iff, carry_eq_none]
  simp only [List.mem_reverse]

end DigitWords

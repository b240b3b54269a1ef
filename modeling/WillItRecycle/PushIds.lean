import WillItRecycle.DigitWords
import WillItRecycle.QueryIndex

/-!
# Push ids

`FNextPushId.m`.  `childByAutoId` names a new child by eight characters for the
milliseconds and twelve that are random, or, within one millisecond, count on from
those of the id before.

As long as the clock does not go back and the count has room, the ids increase in the
order of the keys (`ids_increase`).  Where all twelve digits are 63 the C code writes
`lastRandChars[-1]`, which is undefined; a call that does so has no value here.
-/

namespace WillItRecycle

open DigitWords

/-! ## The generator -/

/-- `PUSH_CHARS` -/
def pushChars : String := "-0123456789ABCDEFGHIJKLMNOPQRSTUVWXYZ_abcdefghijklmnopqrstuvwxyz"

/-- `[PUSH_CHARS characterAtIndex:index]`, which throws outside of the string. -/
def pushChar (index : Int) : Option Char :=
  if 0 ≤ index then pushChars.toList[index.toNat]? else none

/-- The loop over `timeStampChars`, from the last one on. -/
def timeStampChars : Nat → Int → Option (List Char)
  | 0, _ => some []
  | i + 1, now => do
      let char ← pushChar (now.tmod 64)
      let before ← timeStampChars i (now.tdiv 64)
      some (before ++ [char])

/-- `lastRandChars`: twelve digits. -/
structure RandChars where
  digits : List Nat
  length : digits.length = 12
  isWord : IsWord 64 digits

namespace RandChars

/-- `arc4random() % 64` -/
def random (arc4random : Fin 12 → Nat) : RandChars where
  digits := List.ofFn fun i => arc4random i % 64
  length := List.length_ofFn
  isWord := by
    intro d hd
    obtain ⟨i, rfl⟩ := List.mem_ofFn.mp hd
    exact Nat.mod_lt _ (by decide)

/-- Trailing digits 63 become 0 and the one before grows.  There is none before the first:
when all of them are 63 the code writes outside of the array, which has no meaning in C,
and the result is `none`. -/
def next (chars : RandChars) : Option RandChars :=
  match h : increment 64 chars.digits with
  | none => none
  | some digits =>
      some ⟨digits, (increment_length h).trans chars.length, increment_isWord chars.isWord h⟩

end RandChars

/-- The static variables of `get:`. -/
structure FNextPushId where
  lastPushTime : Int
  lastRandChars : RandChars

namespace FNextPushId

/-- Static variables start with zeroes. -/
def start : FNextPushId := ⟨0, RandChars.random fun _ => 0⟩

/-- The digits after the time: within one millisecond they count on. -/
def randCharsAt (state : FNextPushId) (now : Int) (arc4random : Fin 12 → Nat) :
    Option RandChars :=
  if now = state.lastPushTime then state.lastRandChars.next
  else some (RandChars.random arc4random)

/-- `get:`, at some milliseconds and with what `arc4random` would give; `none` where the
behaviour of the code is undefined. -/
def get (state : FNextPushId) (now : Int) (arc4random : Fin 12 → Nat) :
    Option (String × FNextPushId) := do
  let timeStamp ← timeStampChars 8 now
  let lastRandChars ← state.randCharsAt now arc4random
  let chars ← lastRandChars.digits.mapM fun digit : Nat => pushChar digit
  some (String.ofList (timeStamp ++ chars), ⟨now, lastRandChars⟩)

/-- The ids of one call after the other. -/
def gets (state : FNextPushId) :
    List (Int × (Fin 12 → Nat)) → Option (List String × FNextPushId)
  | [] => some ([], state)
  | (now, arc4random) :: calls => do
      let (id, state) ← state.get now arc4random
      let (ids, state) ← gets state calls
      some (id :: ids, state)

end FNextPushId

/-! ## Ids as words -/

/-- The character of a digit. -/
def digitChar (digit : Nat) : Char := pushChars.toList.getD digit '-'

/-- The id of a word of digits. -/
def idOf (word : List Nat) : String := String.ofList (word.map digitChar)

section Words

variable {word other : List Nat}

theorem pushChar_natCast {digit : Nat} (h : digit < 64) :
    pushChar digit = some (digitChar digit) := by
  have hlength : pushChars.toList.length = 64 := by decide +kernel
  rw [pushChar, if_pos (Int.natCast_nonneg digit), Int.toNat_natCast, digitChar,
    List.getD_eq_getElem?_getD, List.getElem?_eq_getElem (by omega), Option.getD_some]

theorem mapM_pushChar (h : IsWord 64 word) :
    (word.mapM fun digit : Nat => pushChar digit) = some (word.map digitChar) := by
  induction word with
  | nil => rfl
  | cons digit word ih =>
      obtain ⟨hdigit, hword⟩ := isWord_cons.mp h
      rw [List.mapM_cons, pushChar_natCast hdigit, ih hword]
      rfl

theorem timeStampChars_natCast (width n : Nat) :
    timeStampChars width n = some ((lowest 64 width n).map digitChar) := by
  induction width generalizing n with
  | zero => rfl
  | succ width ih =>
      have hmod : Int.tmod n 64 = (n % 64 : Nat) := rfl
      have hdiv : Int.tdiv n 64 = (n / 64 : Nat) := rfl
      rw [timeStampChars, hmod, hdiv, pushChar_natCast (Nat.mod_lt n (by decide)), ih, lowest,
        List.map_append]
      rfl

@[simp] theorem length_idOf (word : List Nat) : (idOf word).length = word.length := by
  rw [idOf, String.length_ofList, List.length_map]

/-- The characters stand in `PUSH_CHARS` in the order of their codes. -/
theorem digitChar_mono : ∀ d < 64, ∀ e < 64,
    compare (digitChar d).toNat (digitChar e).toNat = compare d e := by
  decide +kernel

theorem utf16_idOf (h : IsWord 64 word) :
    utf16 (idOf word) = word.map fun digit => (digitChar digit).toNat := by
  have hsingle : ∀ digit < 64, (digitChar digit).toNat < 0x10000 := by decide +kernel
  rw [utf16, idOf, String.toList_ofList]
  induction word with
  | nil => rfl
  | cons digit word ih =>
      obtain ⟨hdigit, hword⟩ := isWord_cons.mp h
      rw [List.map_cons, List.flatMap_cons, if_pos (hsingle digit hdigit), ih hword]
      rfl

/-- Ids of one length are ordered as the numbers they stand for. -/
theorem literalCompare_idOf (hlength : word.length = other.length) (hword : IsWord 64 word)
    (hother : IsWord 64 other) :
    literalCompare (idOf word) (idOf other) = compare (value 64 word) (value 64 other) := by
  rw [literalCompare, utf16_idOf hword, utf16_idOf hother,
    compareLex_map digitChar_mono hword hother,
    compareLex_eq (by decide) hlength hword hother]

/-- A text too long for an integer, and for the names of the ends. -/
theorem compareKey_of_length {a b : String} (ha : 11 < a.length) (hb : 11 < b.length) :
    compareKey a b = if a = b then .eq else literalCompare a b := by
  have hend : ∀ {name : String}, 11 < name.length →
      name ≠ minName ∧ name ≠ maxName ∧ tryParseString name = none := by
    intro name hname
    refine ⟨?_, ?_, if_pos hname⟩
    · rintro rfl
      exact absurd hname (by decide)
    · rintro rfl
      exact absurd hname (by decide)
  obtain ⟨hamin, hamax, haint⟩ := hend ha
  obtain ⟨hbmin, hbmax, hbint⟩ := hend hb
  rw [compareKey, haint, hbint]
  simp [hamin, hamax, hbmin, hbmax]

end Words

/-! ## What one call does -/

/-- What the digits of an id stand for: the time, and what is random or counts on. -/
def serial (now : Nat) (chars : RandChars) : Nat := now * 64 ^ 12 + value 64 chars.digits

/-- The word of an id. -/
def wordOf (now : Nat) (chars : RandChars) : List Nat := lowest 64 8 now ++ chars.digits

/-- The id of a time and twelve digits. -/
def pushId (now : Nat) (chars : RandChars) : String := idOf (wordOf now chars)

section Calls

variable {now later : Nat} {chars others : RandChars}

theorem isWord_wordOf (now : Nat) (chars : RandChars) : IsWord 64 (wordOf now chars) :=
  (isWord_lowest (by decide) 8 now).append chars.isWord

theorem length_wordOf (now : Nat) (chars : RandChars) : (wordOf now chars).length = 20 := by
  rw [wordOf, List.length_append, length_lowest, chars.length]

theorem value_wordOf (hnow : now < 64 ^ 8) : value 64 (wordOf now chars) = serial now chars := by
  rw [wordOf, value_append, value_lowest hnow, chars.length, serial]

theorem length_pushId (now : Nat) (chars : RandChars) : (pushId now chars).length = 20 := by
  rw [pushId, length_idOf, length_wordOf]

/-- Keys compare as the times and then as the counts. -/
theorem compareKey_pushId (hnow : now < 64 ^ 8) (hlater : later < 64 ^ 8)
    (h : serial now chars < serial later others) :
    compareKey (pushId now chars) (pushId later others) = .lt := by
  have hlength : (wordOf now chars).length = (wordOf later others).length := by
    rw [length_wordOf, length_wordOf]
  have hliteral : literalCompare (pushId now chars) (pushId later others) = .lt := by
    rw [pushId, pushId, literalCompare_idOf hlength (isWord_wordOf _ _) (isWord_wordOf _ _),
      value_wordOf hnow, value_wordOf hlater]
    exact Nat.compare_eq_lt.mpr h
  have hne : pushId now chars ≠ pushId later others := by
    intro heq
    have hsame : literalCompare (pushId later others) (pushId later others) = .eq := by
      rw [literalCompare]
      exact Std.ReflCmp.compare_self
    rw [heq, hsame] at hliteral
    cases hliteral
  rw [compareKey_of_length (by rw [length_pushId]; decide) (by rw [length_pushId]; decide),
    if_neg hne, hliteral]

theorem RandChars.next_digits (chars : RandChars) :
    chars.next.map RandChars.digits = increment 64 chars.digits := by
  rw [RandChars.next]
  split
  next h => exact h.symm
  next digits h => exact h.symm

theorem RandChars.next_eq_none : chars.next = none ↔ ∀ d ∈ chars.digits, d = 63 := by
  rw [← Option.map_eq_none_iff, chars.next_digits, increment_eq_none]
  simp

theorem RandChars.next_value (h : chars.next = some others) :
    value 64 others.digits = value 64 chars.digits + 1 := by
  have hdigits := chars.next_digits
  rw [h, Option.map_some] at hdigits
  exact increment_value hdigits.symm

/-- A later millisecond outweighs every count. -/
theorem serial_lt_of_time (h : now < later) : serial now chars < serial later others := by
  have hvalue := chars.isWord.value_lt (by decide)
  rw [chars.length] at hvalue
  have hstep : (now + 1) * 64 ^ 12 ≤ later * 64 ^ 12 := Nat.mul_le_mul_right _ h
  rw [Nat.succ_mul] at hstep
  rw [serial, serial]
  omega

namespace FNextPushId

theorem get_natCast (state : FNextPushId) (now : Nat) (arc4random : Fin 12 → Nat) :
    state.get now arc4random =
      (state.randCharsAt now arc4random).map fun chars => (pushId now chars, ⟨now, chars⟩) := by
  rw [get, timeStampChars_natCast]
  cases state.randCharsAt now arc4random with
  | none => rfl
  | some chars =>
      simp only [Option.bind_eq_bind, Option.bind_some, mapM_pushChar chars.isWord,
        Option.map_some, pushId, idOf, wordOf, List.map_append]

end FNextPushId

end Calls

/-! ## One call after the other -/

/-- The clock, which does not go back, in the range that eight characters hold. -/
structure Steady (time : Int) (calls : List (Int × (Fin 12 → Nat))) : Prop where
  start : 0 ≤ time
  mono : (time :: calls.map Prod.fst).Pairwise (· ≤ ·)
  inRange : ∀ call ∈ calls, call.1 < 64 ^ 8

/-- Some call comes within the millisecond of an id whose twelve characters are the last. -/
def Exhausted (state : FNextPushId) (calls : List (Int × (Fin 12 → Nat))) : Prop :=
  ∃ before arc4random after ids middle,
    calls = before ++ (middle.lastPushTime, arc4random) :: after ∧
      state.gets before = some (ids, middle) ∧ ∀ d ∈ middle.lastRandChars.digits, d = 63

/-- The ids increase from a count on, and are made at the times of the calls. -/
structure Increase (count : Nat) (calls : List (Int × (Fin 12 → Nat))) (ids : List String) :
    Prop where
  length : ids.length = calls.length
  sorted : ids.Pairwise fun id later => compareKey id later = .lt
  made : ∀ id ∈ ids, ∃ (now : Nat) (chars : RandChars),
    (now : Int) ∈ calls.map Prod.fst ∧ id = pushId now chars ∧ count < serial now chars

namespace FNextPushId

/-- What the digits of the last id stand for. -/
def count (state : FNextPushId) : Nat := serial state.lastPushTime.toNat state.lastRandChars

variable {state : FNextPushId} {now : Nat} {arc4random : Fin 12 → Nat}
  {calls : List (Int × (Fin 12 → Nat))}

theorem get_eq_none :
    state.get now arc4random = none ↔
      (now : Int) = state.lastPushTime ∧ ∀ d ∈ state.lastRandChars.digits, d = 63 := by
  rw [get_natCast, Option.map_eq_none_iff, randCharsAt]
  split
  next hsame => rw [RandChars.next_eq_none, and_iff_right hsame]
  next hother => simp [hother]

/-- Each call counts on. -/
theorem get_count (hstart : 0 ≤ state.lastPushTime) (hclock : state.lastPushTime ≤ now)
    {id : String} {state' : FNextPushId} (h : state.get now arc4random = some (id, state')) :
    ∃ chars, id = pushId now chars ∧ state' = ⟨now, chars⟩ ∧ state.count < serial now chars := by
  rw [get_natCast, Option.map_eq_some_iff] at h
  obtain ⟨chars, hchars, h⟩ := h
  obtain ⟨rfl, rfl⟩ := Prod.mk.inj h
  refine ⟨chars, rfl, rfl, ?_⟩
  rw [randCharsAt] at hchars
  split at hchars
  next hsame =>
    have hvalue := RandChars.next_value hchars
    rw [count, ← hsame, Int.toNat_natCast, serial, serial]
    omega
  next hother => exact serial_lt_of_time (by omega)

end FNextPushId

theorem Steady.tail {time : Int} {call : Int × (Fin 12 → Nat)}
    {calls : List (Int × (Fin 12 → Nat))} (h : Steady time (call :: calls)) :
    time ≤ call.1 ∧ Steady call.1 calls := by
  obtain ⟨hfirst, hrest⟩ := List.pairwise_cons.mp h.mono
  have htime : time ≤ call.1 := hfirst call.1 List.mem_cons_self
  exact ⟨htime, h.start.trans htime, hrest,
    fun call' hcall => h.inRange call' (List.mem_cons_of_mem _ hcall)⟩

namespace FNextPushId

variable {state : FNextPushId} {calls : List (Int × (Fin 12 → Nat))}

theorem gets_cons {call : Int × (Fin 12 → Nat)} :
    state.gets (call :: calls) = (state.get call.1 call.2).bind fun made =>
      (made.2.gets calls).map fun rest => (made.1 :: rest.1, rest.2) := by
  rw [gets]
  cases state.get call.1 call.2 with
  | none => rfl
  | some made =>
      simp only [Option.bind_eq_bind, Option.bind_some]
      cases made.2.gets calls <;> rfl

/-- The ids of a steady clock increase, from what the generator last counted. -/
theorem gets_increase {ids : List String} {state' : FNextPushId}
    (hclock : Steady state.lastPushTime calls) (h : state.gets calls = some (ids, state')) :
    Increase state.count calls ids := by
  induction calls generalizing state ids with
  | nil =>
      obtain ⟨rfl, rfl⟩ := Prod.mk.inj (Option.some.inj h)
      exact ⟨rfl, List.Pairwise.nil, by simp⟩
  | cons call calls ih =>
      obtain ⟨htime, hsteady⟩ := hclock.tail
      obtain ⟨now, hnow⟩ := Int.eq_ofNat_of_zero_le (hclock.start.trans htime)
      rw [gets_cons, Option.bind_eq_some_iff] at h
      obtain ⟨⟨id, middle⟩, hget, hrest⟩ := h
      obtain ⟨⟨rest, last⟩, hgets, hids⟩ := Option.map_eq_some_iff.mp hrest
      obtain ⟨rfl, rfl⟩ := Prod.mk.inj hids
      rw [hnow] at hget htime hsteady
      obtain ⟨chars, rfl, rfl, hcount⟩ := get_count hclock.start htime hget
      have hincrease := ih hsteady hgets
      rw [count, Int.toNat_natCast] at hincrease
      have hbound : now < 64 ^ 8 := by
        have hlt := hclock.inRange call List.mem_cons_self
        rw [hnow] at hlt
        exact_mod_cast hlt
      refine ⟨?_, List.pairwise_cons.mpr ⟨?_, hincrease.sorted⟩, List.forall_mem_cons.mpr ⟨?_, ?_⟩⟩
      · rw [List.length_cons, List.length_cons, hincrease.length]
      · intro id hid
        obtain ⟨later, others, hlater, rfl, hserial⟩ := hincrease.made id hid
        obtain ⟨call', hcall', hfst⟩ := List.mem_map.mp hlater
        have hlt := hsteady.inRange call' hcall'
        rw [hfst] at hlt
        exact compareKey_pushId hbound (by exact_mod_cast hlt) hserial
      · exact ⟨now, chars, by simp [hnow], rfl, hcount⟩
      · intro id hid
        obtain ⟨later, others, hlater, rfl, hserial⟩ := hincrease.made id hid
        exact ⟨later, others, List.mem_cons_of_mem _ hlater, rfl, hcount.trans hserial⟩

/-- It has no value exactly where the count has no room left. -/
theorem gets_eq_none (hclock : Steady state.lastPushTime calls) :
    state.gets calls = none ↔ Exhausted state calls := by
  induction calls generalizing state with
  | nil =>
      refine iff_of_false (by simp [gets]) ?_
      rintro ⟨before, arc4random, after, ids, middle, hcalls, _⟩
      simp at hcalls
  | cons call calls ih =>
      obtain ⟨htime, hsteady⟩ := hclock.tail
      obtain ⟨now, hnow⟩ := Int.eq_ofNat_of_zero_le (hclock.start.trans htime)
      rw [gets_cons, Option.bind_eq_none_iff]
      cases hget : state.get call.1 call.2 with
      | none =>
          refine iff_of_true (by simp) ⟨[], call.2, calls, [], state, ?_, rfl, ?_⟩
          · rw [hnow, get_eq_none] at hget
            rw [List.nil_append, ← hget.1, ← hnow]
          · rw [hnow, get_eq_none] at hget
            exact hget.2
      | some made =>
          obtain ⟨id, middle⟩ := made
          have hlast : middle.lastPushTime = call.1 := by
            rw [hnow] at hget htime
            obtain ⟨chars, _, rfl, _⟩ := get_count hclock.start htime hget
            exact hnow.symm
          have hrest := ih (hlast ▸ hsteady)
          constructor
          · intro h
            obtain ⟨before, arc4random, after, ids, last, rfl, hgets, hfull⟩ :=
              hrest.mp (Option.map_eq_none_iff.mp (h _ rfl))
            refine ⟨call :: before, arc4random, after, id :: ids, last, rfl, ?_, hfull⟩
            rw [gets_cons, hget, Option.bind_some, hgets]
            rfl
          · rintro ⟨before, arc4random, after, ids, last, hcalls, hgets, hfull⟩ made hmade
            obtain rfl := Option.some.inj hmade
            rw [Option.map_eq_none_iff, hrest]
            cases before with
            | nil =>
                -- the first call would have failed
                obtain ⟨rfl, rfl⟩ := Prod.mk.inj (Option.some.inj hgets)
                obtain ⟨rfl, rfl⟩ := List.cons.inj hcalls
                have hnone : state.get state.lastPushTime arc4random = none := by
                  dsimp only at hnow
                  rw [hnow]
                  exact get_eq_none.mpr ⟨hnow.symm, hfull⟩
                rw [hnone] at hget
                cases hget
            | cons first before =>
                obtain ⟨rfl, rfl⟩ := List.cons.inj hcalls
                rw [gets_cons, hget, Option.bind_some, Option.map_eq_some_iff] at hgets
                obtain ⟨⟨rest, last'⟩, hgets, hids⟩ := hgets
                obtain ⟨rfl, rfl⟩ := Prod.mk.inj hids
                exact ⟨before, arc4random, after, rest, last', rfl, hgets, hfull⟩

end FNextPushId

/-! ## Push ids increase -/

theorem mem_toList_pushId {now : Nat} {chars : RandChars} {char : Char}
    (h : char ∈ (pushId now chars).toList) : char ∈ pushChars.toList := by
  rw [pushId, idOf, String.toList_ofList] at h
  obtain ⟨digit, hdigit, rfl⟩ := List.mem_map.mp h
  have hlt : digit < pushChars.toList.length := by
    have hlength : pushChars.toList.length = 64 := by decide +kernel
    rw [hlength]
    exact isWord_wordOf now chars digit hdigit
  rw [digitChar, List.getD_eq_getElem?_getD, List.getElem?_eq_getElem hlt, Option.getD_some]
  exact List.getElem_mem hlt

/-- **Push ids increase**: while the clock does not go back and no call comes within the
millisecond of an id that ends in the last of all counts, the ids of an app's calls are
different keys of twenty characters in the order of the calls. -/
theorem ids_increase {calls : List (Int × (Fin 12 → Nat))} (hclock : Steady 0 calls)
    (hroom : ¬ Exhausted FNextPushId.start calls) :
    ∃ ids state, FNextPushId.start.gets calls = some (ids, state) ∧
      ids.length = calls.length ∧ ids.Pairwise (fun id later => compareKey id later = .lt) ∧
      ∀ id ∈ ids, id.length = 20 ∧ ∀ char ∈ id.toList, char ∈ pushChars.toList := by
  rw [← FNextPushId.gets_eq_none hclock] at hroom
  obtain ⟨⟨ids, state⟩, hgets⟩ := Option.ne_none_iff_exists'.mp hroom
  have hincrease := FNextPushId.gets_increase hclock hgets
  refine ⟨ids, state, hgets, hincrease.length, hincrease.sorted, fun id hid => ?_⟩
  obtain ⟨now, chars, _, rfl, _⟩ := hincrease.made id hid
  exact ⟨length_pushId now chars, fun char hchar => mem_toList_pushId hchar⟩

/-- Two ids in one millisecond, and one in the next. -/
def threeCalls : List (Int × (Fin 12 → Nat)) :=
  [(1633050000000, fun i => if i.val = 11 then 63 else 11), (1633050000000, fun _ => 7),
    (1633050000001, fun i => i.val)]

theorem ids_increase_three :
    (FNextPushId.start.gets threeCalls).map Prod.fst =
        some ["-MktMMe-AAAAAAAAAAAz", "-MktMMe-AAAAAAAAAAB-", "-MktMMe0-0123456789A"] ∧
      ["-MktMMe-AAAAAAAAAAAz", "-MktMMe-AAAAAAAAAAB-", "-MktMMe0-0123456789A"].Pairwise
        fun id later => compareKey id later = .lt := by
  have hclock : Steady 0 threeCalls := ⟨le_rfl, by decide +kernel, by decide +kernel⟩
  have hids : (FNextPushId.start.gets threeCalls).map Prod.fst =
      some ["-MktMMe-AAAAAAAAAAAz", "-MktMMe-AAAAAAAAAAB-", "-MktMMe0-0123456789A"] := by
    decide +kernel
  have hroom : ¬ Exhausted FNextPushId.start threeCalls := by
    rw [← FNextPushId.gets_eq_none hclock]
    intro hnone
    rw [hnone] at hids
    cases hids
  obtain ⟨ids, state, hgets, -, hsorted, -⟩ := ids_increase hclock hroom
  rw [hgets] at hids
  obtain rfl : ids = _ := Option.some.inj hids
  exact ⟨congrArg (Option.map Prod.fst) hgets, hsorted⟩

end WillItRecycle

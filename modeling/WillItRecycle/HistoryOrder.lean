import WillItRecycle.LimitedWindow
import WillItRecycle.PushIds
import WillItRecycle.RecycleHistory

/-!
# The order of the history

`childByAutoId` gives the entries of the history keys that increase, and a node
reads its children by their keys.  So the history keeps the order in which its
entries were redeemed, whatever the texts of their dates are and whenever the
answers to REDEEM come (`history_in_order`).
-/

namespace WillItRecycle

open PathTree ReadCallback Std

/-- The children of a node are sorted by their keys. -/
def keyComparator (namedNode1 namedNode2 : FNamedNode) : Ordering :=
  compareKey namedNode1.name namedNode2.name

/-- `enumerateChildrenUsingBlock:` -/
def enumerateChildren (node : FNode) : List FNamedNode :=
  (node.names.map fun name => ⟨name, node.child name⟩).insertionSort
    fun namedNode1 namedNode2 => keyComparator namedNode1 namedNode2 ≠ .gt

/-- An entry as a child of the history. -/
def HistoryEntry.namedNode (entry : HistoryEntry) : FNamedNode := ⟨entry.key, entry.node⟩

instance : TransCmp keyComparator := by
  have hcompare : keyComparator = fun namedNode1 namedNode2 =>
      rankCmp (keyRank namedNode1.name) (keyRank namedNode2.name) := by
    funext namedNode1 namedNode2
    exact compareKey_eq namedNode1.name namedNode2.name
  rw [hcompare]
  exact transCmp_on (fun namedNode : FNamedNode => keyRank namedNode.name) rankCmp

section Order

variable {entries : List HistoryEntry} {node : FNode}

/-- The children of the history are its entries, in some order. -/
theorem StoresHistory.children_perm (h : StoresHistory entries node) (hids : AutoIds entries) :
    (node.names.map fun name => (⟨name, node.child name⟩ : FNamedNode)).Perm
      (entries.map HistoryEntry.namedNode) := by
  have hchildren : (entries.map HistoryEntry.key).map
      (fun name => (⟨name, node.child name⟩ : FNamedNode)) =
        entries.map HistoryEntry.namedNode := by
    rw [List.map_map]
    refine List.map_congr_left fun entry hentry => ?_
    rw [Function.comp_apply, h.entry entry hentry]
    rfl
  exact hchildren ▸ (h.names_perm hids).map _

/-- Entries whose keys increase are read in their order. -/
theorem StoresHistory.enumerateChildren_eq (h : StoresHistory entries node)
    (hids : AutoIds entries)
    (hsorted : (entries.map HistoryEntry.key).Pairwise
      fun key later => compareKey key later = .lt) :
    enumerateChildren node = entries.map HistoryEntry.namedNode := by
  have hpairwise : (entries.map HistoryEntry.namedNode).Pairwise
      fun child later => keyComparator child later = .lt := by
    rw [List.pairwise_map] at hsorted ⊢
    exact hsorted
  have hperm : (enumerateChildren node).Perm (entries.map HistoryEntry.namedNode) :=
    (List.perm_insertionSort _ _).trans (h.children_perm hids)
  have hsymm : Std.Symm fun child later => keyComparator child later ≠ .eq := by
    refine ⟨fun child later hne heq => hne ?_⟩
    rwa [OrientedCmp.eq_comm] at heq
  have hother : (entries.map HistoryEntry.namedNode).Pairwise
      fun child later => keyComparator child later ≠ .eq :=
    hpairwise.imp fun {child later} hlt => by rw [hlt]; decide
  have hsort : (enumerateChildren node).Pairwise
      fun child later => keyComparator child later ≠ .gt := pairwise_sort keyComparator _
  refine hperm.eq_of_pairwise ?_ hsort (hpairwise.imp fun {child later} hlt => ?_)
  · intro child later hchild hlater hle hge
    by_contra hne
    refine hother.forall (hperm.subset hchild) hlater hne ?_
    rw [Ne, OrientedCmp.gt_iff_lt] at hge
    cases hcompare : keyComparator child later with
    | lt => exact absurd hcompare hge
    | eq => rfl
    | gt => exact absurd hcompare hle
  · rw [hlt]
    decide

end Order

/-! ## The ids of a history -/

/-- The entries of earlier times, in the order of their keys. -/
structure Earlier (entries : List HistoryEntry) (calls : List (Int × (Fin 12 → Nat))) : Prop where
  sorted : (entries.map HistoryEntry.key).Pairwise fun key later => compareKey key later = .lt
  made : ∀ entry ∈ entries, ∃ (now : Nat) (chars : RandChars),
    now < 64 ^ 7 ∧ entry.key = pushId now chars ∧ ∀ call ∈ calls, (now : Int) < call.1

section Ids

variable {old new : List HistoryEntry} {calls : List (Int × (Fin 12 → Nat))}

/-- For more than a century, ids start with a hyphen. -/
theorem head_pushId {now : Nat} (hnow : now < 64 ^ 7) (chars : RandChars) :
    (pushId now chars).toList.head? = some '-' := by
  have hhead : (wordOf now chars).head? = some 0 := by
    rw [wordOf, List.head?_append, DigitWords.head_lowest hnow, Option.some_or]
  rw [pushId, idOf, String.toList_ofList, List.head?_map, hhead]
  rfl

theorem Earlier.sorted_append (h : Earlier old calls) (hbound : ∀ call ∈ calls, call.1 < 64 ^ 7)
    {count : Nat} (hnew : Increase count calls (new.map HistoryEntry.key)) :
    ((old ++ new).map HistoryEntry.key).Pairwise
      fun key later => compareKey key later = .lt := by
  rw [List.map_append, List.pairwise_append]
  refine ⟨h.sorted, hnew.sorted, fun key hkey id hid => ?_⟩
  obtain ⟨entry, hentry, rfl⟩ := List.mem_map.mp hkey
  obtain ⟨now, chars, hnow, hmade, hbefore⟩ := h.made entry hentry
  obtain ⟨later, others, hlater, rfl, _⟩ := hnew.made id hid
  obtain ⟨call, hcall, hfst⟩ := List.mem_map.mp hlater
  have htime := hbefore call hcall
  have hlt := hbound call hcall
  rw [hfst] at htime hlt
  rw [hmade]
  exact compareKey_pushId (by omega) (by omega) (serial_lt_of_time (by omega))

theorem Earlier.autoIds (h : Earlier old calls) (hbound : ∀ call ∈ calls, call.1 < 64 ^ 7)
    {count : Nat} (hnew : Increase count calls (new.map HistoryEntry.key)) :
    AutoIds (old ++ new) where
  nodup := by
    refine (h.sorted_append hbound hnew).imp fun {key later} hlt heq => ?_
    rw [heq, compareKey, if_pos rfl] at hlt
    cases hlt
  hyphen := by
    intro entry hentry
    rcases List.mem_append.mp hentry with hold | hnow
    · obtain ⟨now, chars, hbelow, hmade, _⟩ := h.made entry hold
      rw [hmade]
      exact head_pushId hbelow chars
    · obtain ⟨now, chars, hcalls, hmade, _⟩ := hnew.made _ (List.mem_map_of_mem hnow)
      obtain ⟨call, hcall, hfst⟩ := List.mem_map.mp hcalls
      have hlt := hbound call hcall
      rw [hfst] at hlt
      rw [hmade]
      exact head_pushId (by omega) chars

end Ids

/-! ## Runs of REDEEM -/

/-- **The history keeps the order of the redeems**: with the ids that `childByAutoId`
makes, the children of the history are read as its entries in the order in which they
were redeemed, after those of earlier times, whenever the answers to REDEEM come. -/
theorem history_in_order {uid : Uid} {remote : Remote} {app : App}
    (huser : app.currentUser = some uid) {old : List HistoryEntry}
    (hold : StoresHistory old ((remote uid).child "history"))
    {calls : List (Int × (Fin 12 → Nat))} (hclock : Steady 0 calls)
    (hbound : ∀ call ∈ calls, call.1 < 64 ^ 7) (hearlier : Earlier old calls)
    {redeems : List Redeem} {generator : FNextPushId}
    (hids : FNextPushId.start.gets calls =
      some ((redeems.flatMap Redeem.entries).map HistoryEntry.key, generator))
    {es : List (Event RedeemTap Reply)} (htaps : taps es = redeems.map Redeem.tap) {s' : AppSys}
    (hrun : redeemClient.run ⟨remote, app, []⟩ es = .ok s') :
    enumerateChildren ((s'.remote uid).child "history") =
      (old ++ redeems.flatMap Redeem.entries).map HistoryEntry.namedNode := by
  have hincrease := FNextPushId.gets_increase hclock hids
  have hautoIds := hearlier.autoIds hbound hincrease
  have hstart : Recording uid old ⟨remote, app, []⟩ := ⟨huser, hold, by simp⟩
  have hstored := (Recording.run es hstart hautoIds htaps hrun).history
  exact hstored.enumerateChildren_eq hautoIds (hearlier.sorted_append hbound hincrease)

/-- The ids of the mornings of September 1 and October 1, 2021. -/
def autumnCalls : List (Int × (Fin 12 → Nat)) :=
  [(1630505100000, fun _ => 75), (1633097100000, fun _ => 7)]

def cansInAutumn : List Redeem :=
  List.zipWith (fun redeem id => { redeem with autoId := fun _ => id }) cansOfAutumn
    ["-MiWfLAVAAAAAAAAAAAA", "-MkwA1fV666666666666"]

/-- The can of September comes first, though the text of its date does not. -/
theorem history_in_order_autumn :
    ∃ s', redeemClient.run ⟨newUser 0, newUserApp "ann" treeShelf, []⟩
        (cansInAutumn.map fun redeem => .tap redeem.tap) = .ok s' ∧
      enumerateChildren ((s'.remote "ann").child "history") =
        (cansInAutumn.flatMap Redeem.entries).map HistoryEntry.namedNode ∧
      ¬ DatesInOrder (cansInAutumn.flatMap Redeem.entries) := by
  obtain ⟨s', hrun, -⟩ : ∃ s', redeemClient.run ⟨newUser 0, newUserApp "ann" treeShelf, []⟩
      (cansInAutumn.map fun redeem => .tap redeem.tap) = .ok s' ∧ True :=
    redeemClient.exists_run_of_check (by decide +kernel)
  have hold : StoresHistory [] ((newUser 0 "ann").child "history") := by
    rw [newUser_history]
    exact storesHistory_nil
  have hclock : Steady 0 autumnCalls := ⟨le_rfl, by decide +kernel, by decide +kernel⟩
  have hearlier : Earlier [] autumnCalls := ⟨List.Pairwise.nil, by simp⟩
  have hkeys : (FNextPushId.start.gets autumnCalls).map Prod.fst =
      some ((cansInAutumn.flatMap Redeem.entries).map HistoryEntry.key) := by
    decide +kernel
  obtain ⟨⟨ids, generator⟩, hgets, hfst⟩ := Option.map_eq_some_iff.mp hkeys
  obtain rfl : ids = _ := hfst
  exact ⟨s', hrun, history_in_order rfl hold hclock (by decide +kernel) hearlier hgets rfl hrun,
    by decide +kernel⟩

end WillItRecycle

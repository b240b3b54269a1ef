import WillItRecycle.LeavesLedger

/-!
# The wallet in flight

Purchases that overlap may read the same balance, and then the stored wallet loses
one of their charges.  It never loses a purchase: what a purchase captures
covers its cost as long as the wallet covers all purchases together, whatever
the interleaving.
-/

namespace WillItRecycle

open ReadCallback

theorem cost_nonneg (storeItem : ShelfItem) : 0 ≤ storeItem.val.cost := by
  have hall : ∀ s ∈ storeItems, 0 ≤ s.cost := by decide
  exact hall storeItem.val storeItem.property

/-- The cost of a purchase that is still to be charged. -/
def Read.price (shelf : Nat → ShelfItem) : Read → Int
  | .buyLeaves _ cell _ => (shelf cell).val.cost
  | _ => 0

theorem Read.price_nonneg (shelf : Nat → ShelfItem) (read : Read) :
    0 ≤ read.price shelf := by
  cases read with
  | buyLeaves uid cell tap => exact cost_nonneg (shelf cell)
  | _ => exact Int.le_refl 0

/-- The stored wallet covers the purchases still to be charged, and what a
purchase captured covers its cost.  Stale callbacks may leave more in the wallet
than the taps amount to. -/
structure WalletInFlight (shelf : Nat → ShelfItem) (stored tapped : Int)
    (captured : List (Option Int)) (reads : List Read) : Prop where
  purchases : Purchases captured reads
  covered : tapped + total (Read.price shelf) reads ≤ stored
  charged : ∀ purchase ∈ reads.filterMap Read.delivering, ∀ leaves,
    captured[purchase.1]? = some (some leaves) →
      leaves - (shelf purchase.2).val.cost ≥ 0

namespace WalletInFlight

variable {shelf : Nat → ShelfItem} {stored tapped : Int} {captured : List (Option Int)}
  {reads reads' : List Read}

theorem perm (h : WalletInFlight shelf stored tapped captured reads)
    (hperm : reads.Perm reads') : WalletInFlight shelf stored tapped captured reads' := by
  refine ⟨h.purchases.perm hperm, ?_, ?_⟩
  · rw [← total_perm (Read.price shelf) hperm]
    exact h.covered
  · intro purchase hpurchase
    exact h.charged purchase ((hperm.filterMap Read.delivering).symm.subset hpurchase)

/-- A read of no purchase comes or goes. -/
theorem cons_iff {read : Read} (hdelivering : read.delivering = none)
    (hcharging : read.charging = none) (hprice : read.price shelf = 0) :
    WalletInFlight shelf stored tapped captured (read :: reads) ↔
      WalletInFlight shelf stored tapped captured reads := by
  have hdeliveries : (read :: reads).filterMap Read.delivering =
      reads.filterMap Read.delivering := List.filterMap_cons_none hdelivering
  have htotal : total (Read.price shelf) (read :: reads) =
      total (Read.price shelf) reads := by
    rw [total_cons, hprice, Int.zero_add]
  constructor
  · intro h
    refine ⟨(Purchases.cons_iff hdelivering hcharging).mp h.purchases, ?_, ?_⟩
    · rw [← htotal]
      exact h.covered
    · rw [← hdeliveries]
      exact h.charged
  · intro h
    refine ⟨(Purchases.cons_iff hdelivering hcharging).mpr h.purchases, ?_, ?_⟩
    · rw [htotal]
      exact h.covered
    · rw [hdeliveries]
      exact h.charged

theorem buyTap (h : WalletInFlight shelf stored tapped captured reads) (uid : Uid)
    (cell : Nat) (key : String) :
    WalletInFlight shelf stored (tapped - (shelf cell).val.cost) (captured ++ [none])
      (.buyLeaves uid cell captured.length ::
        .buyInventory uid cell captured.length key :: reads) := by
  refine ⟨h.purchases.buy uid uid cell key, ?_, ?_⟩
  · have hcovered := h.covered
    change tapped - (shelf cell).val.cost + ((shelf cell).val.cost +
      (0 + total (Read.price shelf) reads)) ≤ stored
    omega
  · intro purchase hpurchase leaves hleaves
    change purchase ∈ (captured.length, cell) :: reads.filterMap Read.delivering
      at hpurchase
    rcases List.mem_cons.mp hpurchase with rfl | hpurchase
    · rw [List.getElem?_concat_length] at hleaves
      cases hleaves
    · have hlt := h.purchases.tapped purchase hpurchase
      rw [List.getElem?_append_left hlt] at hleaves
      exact h.charged purchase hpurchase leaves hleaves

/-- The wallet read of a purchase is served with any answer that covers what is
still to be charged. -/
theorem charge {uid : Uid} {cell tap : Nat}
    (h : WalletInFlight shelf stored tapped captured (.buyLeaves uid cell tap :: reads))
    {leaves : Int} (htapped : 0 ≤ tapped)
    (hleaves : tapped + total (Read.price shelf) (.buyLeaves uid cell tap :: reads) ≤
      leaves) :
    leaves - (shelf cell).val.cost ≥ 0 ∧
      WalletInFlight shelf (leaves - (shelf cell).val.cost) tapped
        (captured.set tap (some leaves)) reads := by
  have hprices := total_nonneg fun read (_ : read ∈ reads) => read.price_nonneg shelf
  change tapped + ((shelf cell).val.cost + total (Read.price shelf) reads) ≤ leaves
    at hleaves
  obtain ⟨hpaired, _⟩ := h.purchases.paired (tap, cell) List.mem_cons_self
  have honce := h.purchases.onceDelivered
  change (tap, cell) ∈ reads.filterMap Read.delivering at hpaired
  change ((reads.filterMap Read.delivering).map Prod.fst).Nodup at honce
  refine ⟨by omega, h.purchases.charge _, by omega, ?_⟩
  intro purchase hpurchase leaves' hleaves'
  by_cases htap : tap = purchase.1
  · have hsame : (tap, cell) = purchase :=
      List.inj_on_of_nodup_map honce hpaired hpurchase htap
    obtain ⟨hlt, hget⟩ := List.getElem?_eq_some_iff.mp hleaves'
    subst hsame
    rw [List.getElem_set_self, Option.some.injEq] at hget
    dsimp only
    omega
  · rw [List.getElem?_set_ne htap] at hleaves'
    exact h.charged purchase hpurchase leaves' hleaves'

/-- A delivery is served. -/
theorem deliver {uid : Uid} {cell tap : Nat} {key : String}
    (h : WalletInFlight shelf stored tapped captured
      (.buyInventory uid cell tap key :: reads)) {leaves : Int}
    (hcaptured : captured[tap]? = some (some leaves)) :
    leaves - (shelf cell).val.cost ≥ 0 ∧
      WalletInFlight shelf stored tapped captured reads := by
  refine ⟨h.charged (tap, cell) List.mem_cons_self leaves hcaptured,
    h.purchases.deliver hcaptured, ?_, ?_⟩
  · have hcovered := h.covered
    change tapped + (0 + total (Read.price shelf) reads) ≤ stored at hcovered
    omega
  · intro purchase hpurchase
    exact h.charged purchase (List.mem_cons_of_mem _ hpurchase)

end WalletInFlight

end WillItRecycle

import ArbRouter.Adapters.AlloyReference
import ArbRouter.Core.TestUtils
import ArbRouter.Infra.DecimalReference

/-!
# Decimal quoting refines integer quoting

Along a path of `amm-core` pools the decimals handed from hop to hop are exactly the integers the
wrapped pools compute.

* `QuoteChain` — the chain of integer quotes along a list of hops
* `foldlM_quote_ofNat` — quoting from an integer follows the chain
* `quotePath_eq_some_iff` — the same for a path and a sized input
-/

namespace ArbRouter

open Infra RustDecimal

section

variable [RustDecimal] [Alloy] {snapshot : PoolSnapshot AmmCorePool}

/-- Each pool on the way turns the integer it is given into a positive one of 96 bits. -/
inductive QuoteChain (snapshot : PoolSnapshot AmmCorePool) : List Hop → Nat → Nat → Prop
  | nil (x : Nat) : QuoteChain snapshot [] x x
  | cons {hop : Hop} {rest : List Hop} {x z : Nat} {y : U256} {entry : PoolEntry AmmCorePool}
      {source destination : CoreAssetId} :
      snapshot.get hop.pool = some entry →
      coreAsset hop.pair.source = some source →
      coreAsset hop.pair.destination = some destination →
      entry.pool.inner.quote source (BitVec.ofNat 256 x) destination = some y →
      y.toNat ≠ 0 → y.toNat < 2 ^ 96 →
      QuoteChain snapshot rest y.toNat z →
      QuoteChain snapshot (hop :: rest) x z

/-- The step of `quote_path`. -/
def quoteHop (snapshot : PoolSnapshot AmmCorePool) (amount : Amount) (hop : Hop) :
    Option Amount := do
  let entry ← snapshot.get hop.pool
  Pool.quote entry.pool hop.pair amount

theorem quotePath_eq_foldlM {path : Path} (hne : path.hops ≠ []) (input : Amount) :
    quotePath snapshot path input = path.hops.foldlM (quoteHop snapshot) input :=
  if_neg hne

/-- One hop from an integer. -/
theorem quoteHop_ofNat {hop : Hop} {x : Nat} (hx : x ≤ maxMantissa) {out : Amount} :
    quoteHop snapshot (Amount.ofNat x hx) hop = some out ↔ x ≠ 0 ∧
      ∃ (entry : PoolEntry AmmCorePool) (source destination : CoreAssetId) (y : U256),
        snapshot.get hop.pool = some entry ∧ coreAsset hop.pair.source = some source ∧
        coreAsset hop.pair.destination = some destination ∧
        entry.pool.inner.quote source (BitVec.ofNat 256 x) destination = some y ∧
        y.toNat ≠ 0 ∧ ∃ hy : y.toNat ≤ maxMantissa, out = Amount.ofNat y.toNat hy := by
  obtain ⟨source, hs⟩ := exists_coreAsset hop.pair.source
  obtain ⟨destination, hd⟩ := exists_coreAsset hop.pair.destination
  unfold quoteHop
  cases hget : snapshot.get hop.pool with
  | none => simp
  | some entry =>
    show entry.pool.quote hop.pair (Amount.ofNat x hx) = some out ↔ _
    rw [entry.pool.quote_ofNat hs hd hx]
    constructor
    · rintro ⟨h0, y, hq, hy0, hy, rfl⟩
      exact ⟨h0, entry, source, destination, y, rfl, hs, hd, hq, hy0, hy, rfl⟩
    · rintro ⟨h0, entry', source', destination', y, he, hs', hd', hq, hy0, hy, rfl⟩
      obtain rfl := Option.some.inj he
      obtain rfl := Option.some.inj (hs.symm.trans hs')
      obtain rfl := Option.some.inj (hd.symm.trans hd')
      exact ⟨h0, y, hq, hy0, hy, rfl⟩

/-- **Quoting from an integer** follows the chain of integer quotes. -/
theorem foldlM_quote_ofNat {hops : List Hop} {x : Nat} (hx : x ≤ maxMantissa) {out : Amount} :
    hops.foldlM (quoteHop snapshot) (Amount.ofNat x hx) = some out ↔
      (hops = [] ∨ x ≠ 0) ∧ ∃ z, QuoteChain snapshot hops x z ∧
        ∃ hz : z ≤ maxMantissa, out = Amount.ofNat z hz := by
  induction hops generalizing x with
  | nil =>
    simp only [List.foldlM_nil, true_or, true_and]
    constructor
    · intro h
      exact ⟨x, QuoteChain.nil x, hx, (Option.some.inj h).symm⟩
    · rintro ⟨z, hchain, hz, rfl⟩
      cases hchain
      rfl
  | cons hop rest ih =>
    rw [List.foldlM_cons, Option.bind_eq_bind, Option.bind_eq_some_iff]
    constructor
    · rintro ⟨mid, hmid, hrest⟩
      -- what the first hop pays out is an integer again
      obtain ⟨h0, entry, source, destination, y, he, hs, hd, hq, hy0, hy, rfl⟩ :=
        (quoteHop_ofNat hx).mp hmid
      obtain ⟨-, z, hchain, hz, rfl⟩ := (ih hy).mp hrest
      exact ⟨Or.inr h0, z, .cons he hs hd hq hy0 (lt_two_pow_iff.mpr hy) hchain, hz, rfl⟩
    · rintro ⟨h0, z, hchain, hz, rfl⟩
      cases hchain with
      | @cons _ _ _ _ y entry source destination he hs hd hq hy0 hy hrest =>
        have hy' := lt_two_pow_iff.mp hy
        have hx0 : x ≠ 0 := h0.resolve_left (by simp)
        exact ⟨Amount.ofNat y.toNat hy',
          (quoteHop_ofNat hx).mpr ⟨hx0, entry, source, destination, y, he, hs, hd, hq, hy0, hy',
            rfl⟩,
          (ih hy').mpr ⟨Or.inr hy0, z, hrest, hz, rfl⟩⟩

/-- A path cannot be quoted from an amount with a sign bit. -/
theorem foldlM_quote_of_neg {hops : List Hop} (hne : hops ≠ []) {input out : Amount}
    (hneg : input.val.neg = true) : hops.foldlM (quoteHop snapshot) input ≠ some out := by
  intro h
  obtain ⟨hop, rest, rfl⟩ := List.exists_cons_of_ne_nil hne
  rw [List.foldlM_cons, Option.bind_eq_bind, Option.bind_eq_some_iff] at h
  obtain ⟨mid, hmid, -⟩ := h
  obtain ⟨entry, -, hquote⟩ := Option.bind_eq_some_iff.mp hmid
  obtain ⟨call, hcall, -⟩ := Option.bind_eq_some_iff.mp hquote
  unfold AmmCorePool.innerCall at hcall
  rw [amountToU256_of_neg hneg] at hcall
  simp at hcall

/-- Quoting from a floored amount. -/
theorem quotePath_floor {path : Path} (hne : path.hops ≠ []) {d : Decimal} {out : Amount} :
    quotePath snapshot path ⟨floor d⟩ = some out ↔
      ∃ x z : Nat, 0 < x ∧ (floor d).toRat = x ∧ QuoteChain snapshot path.hops x z ∧
        ∃ hz : z ≤ maxMantissa, out = Amount.ofNat z hz := by
  rw [quotePath_eq_foldlM hne]
  cases hneg : (floor d).neg with
  | true =>
    -- the first hop rejects the sign, and no positive integer has one
    constructor
    · intro h
      exact absurd h (foldlM_quote_of_neg hne hneg)
    · rintro ⟨x, z, hx, hval, -⟩
      have hpos : 0 < (floor d).toRat := by
        rw [hval]
        exact_mod_cast hx
      rw [Decimal.not_neg_of_pos hpos] at hneg
      simp at hneg
  | false =>
    obtain ⟨x, hx, heq⟩ := exists_ofNat_of_floor hneg
    have hval : (floor d).toRat = x :=
      (congrArg (fun a : Amount => a.val.toRat) heq).trans (Decimal.toRat_ofNat x hx)
    rw [heq, foldlM_quote_ofNat hx, hval]
    constructor
    · rintro ⟨h0, z, hchain, hz, rfl⟩
      exact ⟨x, z, Nat.pos_of_ne_zero (h0.resolve_left hne), rfl, hchain, hz, rfl⟩
    · rintro ⟨x', z, hpos, hval', hchain, hz, rfl⟩
      obtain rfl : x = x' := by exact_mod_cast hval'
      exact ⟨Or.inr (Nat.pos_iff_ne_zero.mp hpos), z, hchain, hz, rfl⟩

/--
**Quoting a sized input refines integer quoting:** it succeeds exactly when the input is a positive
integer from which the chain of integer quotes goes through, and the result is the chain's end.
-/
theorem quotePath_eq_some_iff {σ : Type} (snapshot : PoolSnapshot AmmCorePool) (v : Valuation σ)
    (registry : AssetRegistry) (asset : AssetId) (usd : Usd) (s s' : σ) (input : Amount)
    (hinput : (amountForUsd v registry asset usd).run.run s = .ok (some input, s'))
    (path : Path) (hne : path.hops ≠ []) (out : Amount) :
    quotePath snapshot path input = some out ↔
      ∃ x z : Nat, 0 < x ∧ input.val.toRat = x ∧ QuoteChain snapshot path.hops x z ∧
        ∃ hz : z ≤ maxMantissa, out = Amount.ofNat z hz := by
  obtain ⟨p, -, hsize⟩ := amountForUsd_some hinput
  obtain ⟨d, rfl⟩ := exists_floor_of_sizeOf hsize
  exact quotePath_floor hne

end

section

attribute [local instance] RustDecimal.reference Alloy.reference

/-- A pool that doubles and one that adds one. -/
def doublingPools : PoolSnapshot AmmCorePool :=
  PoolSnapshot.fromEntries 1 0 [ammEntry "p1" (2 * ·), ammEntry "p2" (· + 1)]

theorem quoteChain_doublingPools :
    ∃ x z : Nat, 0 < x ∧ (Amount.ofNat 1000 (by decide)).val.toRat = x ∧
      QuoteChain doublingPools tokenCycle.hops x z ∧
      ∃ hz : z ≤ maxMantissa, Amount.ofNat 2001 (by decide) = Amount.ofNat z hz := by
  have hinput : (amountForUsd (fakeValuation fun _ => some ⟨Decimal.one⟩ : Valuation Unit)
      (AList.singleton tokenA ⟨0, "A"⟩) tokenA ⟨Decimal.ofNat 1000 (by decide)⟩).run.run ()
      = .ok (some (Amount.ofNat 1000 (by decide)), ()) := by
    decide +kernel
  exact (quotePath_eq_some_iff doublingPools _ _ tokenA _ () () _ hinput tokenCycle (by decide)
    (Amount.ofNat 2001 (by decide))).mp (by decide +kernel)

end

end ArbRouter

import ArbRouter.Adapters.Binance
import ArbRouter.Core.TestUtils
import ArbRouter.Infra.DecimalReference

/-!
# What the feeds leave in the store

* `price_history` — a price is that of the last write, Binance first, unless it is too old
* `World.price_of_history` — the same while the feeds write between the two locks of a read
* `BinanceFeed.stream_eq_ok` — the messages of a connection leave such a history
* `BookTicker.IsMid`, `Ingested` — what a message is to do, in exact rationals
* `ingest_meets_iff` — a message does it exactly when nothing has to be rounded
-/

namespace ArbRouter

open Infra RustDecimal

/-! ## The history of writes -/

/-- The last write of a feed for an asset. -/
def lastWrite (feed : Feed) (asset : AssetId) (writes : List PriceWrite) : Option PriceWrite :=
  (writes.filter fun write => write.feed = feed ∧ write.asset = asset).getLast?

/-- The price written, while it is not too old. -/
def PriceWrite.live (maxStaleness : TimeDuration) (now : OffsetDateTime) (write : PriceWrite) :
    Option Usd :=
  if now - write.now ≤ maxStaleness then some write.usd else none

/-- What a feed says of an asset after a history of writes. -/
def livePrice (maxStaleness : TimeDuration) (now : OffsetDateTime) (asset : AssetId)
    (writes : List PriceWrite) (feed : Feed) : Option Usd :=
  (lastWrite feed asset writes).bind (PriceWrite.live maxStaleness now)

/-- Only the writes for the asset matter. -/
theorem lastWrite_congr {asset : AssetId} {writes writes' : List PriceWrite}
    (h : (writes.filter fun write => write.asset = asset)
      = writes'.filter fun write => write.asset = asset) (feed : Feed) :
    lastWrite feed asset writes = lastWrite feed asset writes' := by
  have hsplit : ∀ ws : List PriceWrite,
      (ws.filter fun write => write.feed = feed ∧ write.asset = asset)
        = (ws.filter fun write => write.asset = asset).filter fun write => write.feed = feed := by
    intro ws
    rw [List.filter_filter]
    refine List.filter_congr fun write _ => ?_
    simp
  unfold lastWrite
  rw [hsplit, hsplit, h]

theorem lastWrite_concat (feed : Feed) (asset : AssetId) (writes : List PriceWrite)
    (write : PriceWrite) :
    lastWrite feed asset (writes ++ [write])
      = if write.feed = feed ∧ write.asset = asset then some write
        else lastWrite feed asset writes := by
  unfold lastWrite
  rw [List.filter_append]
  by_cases h : write.feed = feed ∧ write.asset = asset
  · rw [if_pos h, List.filter_cons_of_pos (by simpa using h)]
    simp
  · rw [if_neg h, List.filter_cons_of_neg (by simpa using h), List.filter_nil, List.append_nil]

namespace PriceStore

/-- **A feed holds the last price written** for an asset, with the time of the write. -/
theorem lookup_source_foldl (store : PriceStore) (writes : List PriceWrite) (feed : Feed)
    (asset : AssetId) :
    ((writes.foldl PriceWrite.effect store).source feed).lookup asset
      = ((lastWrite feed asset writes).map fun write => ⟨write.usd, write.now⟩).or
        ((store.source feed).lookup asset) := by
  induction writes using List.reverseRecOn with
  | nil => simp [lastWrite]
  | append_singleton writes write ih =>
    rw [List.foldl_append, List.foldl_cons, List.foldl_nil, PriceWrite.lookup_source_effect, ih,
      lastWrite_concat]
    by_cases h : write.feed = feed ∧ write.asset = asset
    · rw [if_pos h, if_pos h]
      rfl
    · rw [if_neg h, if_neg h]

theorem maxStaleness_foldl (store : PriceStore) (writes : List PriceWrite) :
    (writes.foldl PriceWrite.effect store).maxStaleness = store.maxStaleness := by
  induction writes generalizing store with
  | nil => rfl
  | cons write rest ih => rw [List.foldl_cons, ih, PriceWrite.effect_maxStaleness]

/-- The store after a history of writes. -/
def after (maxStaleness : StdDuration) (writes : List PriceWrite) : PriceStore :=
  writes.foldl PriceWrite.effect (new maxStaleness)

theorem fresh_after (maxStaleness : StdDuration) (writes : List PriceWrite) (feed : Feed)
    (asset : AssetId) (now : OffsetDateTime) :
    (after maxStaleness writes).fresh feed asset now
      = livePrice maxStaleness.toTime now asset writes feed := by
  have hempty : ((new maxStaleness).source feed).lookup asset = none := by
    cases feed <;> rfl
  unfold fresh livePrice after
  rw [lookup_source_foldl, maxStaleness_foldl, hempty]
  cases lastWrite feed asset writes <;> rfl

/-- Writes for other assets do not matter. -/
theorem fresh_after_congr {maxStaleness : StdDuration} {writes writes' : List PriceWrite}
    {asset : AssetId}
    (h : (writes.filter fun write => write.asset = asset)
      = writes'.filter fun write => write.asset = asset) (feed : Feed) (now : OffsetDateTime) :
    (after maxStaleness writes).fresh feed asset now
      = (after maxStaleness writes').fresh feed asset now := by
  rw [fresh_after, fresh_after]
  unfold livePrice
  rw [lastWrite_congr h]

/-- Both read paths find the same price. -/
theorem priceAndSource_eq (store : PriceStore) (asset : AssetId) (now : OffsetDateTime) :
    store.priceAndSource asset now
      = ((store.fresh .binance asset now).map fun usd => (usd, "binance")).or
        ((store.fresh .coingecko asset now).map fun usd => (usd, "coingecko")) := by
  unfold priceAndSource
  cases store.fresh .binance asset now <;> rfl

theorem map_fst_priceAndSource (store : PriceStore) (asset : AssetId) (now : OffsetDateTime) :
    (store.priceAndSource asset now).map Prod.fst = store.price asset now := by
  rw [priceAndSource_eq]
  unfold price
  cases store.fresh .binance asset now <;> cases store.fresh .coingecko asset now <;> rfl

end PriceStore

/--
**A price read** is that of the last Binance write for the asset if it is not too old, otherwise
that of the last CoinGecko write if that one is not; the report names the feed. Writes for other
assets do not matter.
-/
theorem price_history (maxStaleness : StdDuration) (writes : List PriceWrite) (asset : AssetId)
    (now : OffsetDateTime) :
    let store := PriceStore.after maxStaleness writes
    let live := livePrice maxStaleness.toTime now asset writes
    store.price asset now = (live .binance).or (live .coingecko) ∧
    store.priceAndSource asset now = ((live .binance).map fun usd => (usd, "binance")).or
      ((live .coingecko).map fun usd => (usd, "coingecko")) ∧
    (store.priceAndSource asset now).map Prod.fst = store.price asset now ∧
    ∀ writes' : List PriceWrite,
      (writes'.filter fun write => write.asset = asset)
        = (writes.filter fun write => write.asset = asset) →
      (PriceStore.after maxStaleness writes').price asset now = store.price asset now ∧
      (PriceStore.after maxStaleness writes').priceAndSource asset now
        = store.priceAndSource asset now := by
  intro store live
  have hfresh : ∀ feed, store.fresh feed asset now = live feed := fun feed =>
    PriceStore.fresh_after maxStaleness writes feed asset now
  refine ⟨?_, ?_, store.map_fst_priceAndSource asset now, ?_⟩
  · rw [← hfresh, ← hfresh]
    rfl
  · rw [PriceStore.priceAndSource_eq, hfresh, hfresh]
  · intro writes' hwrites
    have hsame : ∀ feed, (PriceStore.after maxStaleness writes').fresh feed asset now
        = store.fresh feed asset now := fun feed => PriceStore.fresh_after_congr hwrites feed now
    constructor
    · unfold PriceStore.price
      rw [hsame, hsame]
    · rw [PriceStore.priceAndSource_eq, PriceStore.priceAndSource_eq, hsame, hsame]

/-! ## Reading among the writes -/

namespace World

/-- The writes scheduled before the next lock extend the history. -/
theorem store_advance {w : World} {maxStaleness : StdDuration} {writes : List PriceWrite}
    (h : w.store = PriceStore.after maxStaleness writes) :
    w.advance.store
      = PriceStore.after maxStaleness (writes ++ w.shared.schedule w.shared.reads) := by
  unfold store advance at *
  dsimp only
  rw [Shared.current_advance, h]
  unfold PriceStore.after
  rw [List.foldl_append]

theorem scheduled_advance (w : World) :
    w.advance.shared.schedule w.advance.shared.reads = w.shared.schedule (w.shared.reads + 1) := by
  unfold advance
  dsimp only
  rw [Shared.schedule_advance]
  rfl

/--
**A read among the writes** finds the last Binance write before its first lock, otherwise the last
CoinGecko write before its second lock; both read paths agree.
-/
theorem price_of_history (w : World) (maxStaleness : StdDuration) (writes : List PriceWrite)
    (asset : AssetId) (h : w.store = PriceStore.after maxStaleness writes) :
    let before₁ := writes ++ w.shared.schedule w.shared.reads
    let before₂ := before₁ ++ w.shared.schedule (w.shared.reads + 1)
    (CachedValuation.price asset w).1.toOption
      = (livePrice maxStaleness.toTime w.now asset before₁ .binance).or
        (livePrice maxStaleness.toTime w.now asset before₂ .coingecko) ∧
    (CachedValuation.priceAndSource asset w).1.map Prod.fst
      = (CachedValuation.price asset w).1.toOption := by
  intro before₁ before₂
  have hbinance : w.advance.store.fresh .binance asset w.now
      = livePrice maxStaleness.toTime w.now asset before₁ .binance := by
    rw [store_advance h, PriceStore.fresh_after]
  have hcoingecko : w.advance.advance.store.fresh .coingecko asset w.now
      = livePrice maxStaleness.toTime w.now asset before₂ .coingecko := by
    rw [store_advance (store_advance h), PriceStore.fresh_after, scheduled_advance]
  have hread : (CachedValuation.price asset w).1.toOption = (w.price asset).1 := by
    rw [price_eq_toOption]
  rw [hread]
  unfold CachedValuation.priceAndSource price priceAndSource fresh
  rw [hbinance]
  cases livePrice maxStaleness.toTime w.now asset before₁ .binance with
  | some usd => exact ⟨rfl, rfl⟩
  | none =>
    dsimp only
    rw [hcoingecko]
    refine ⟨rfl, ?_⟩
    cases livePrice maxStaleness.toTime w.now asset before₂ .coingecko <;> rfl

end World

/-- Binance writes before the first lock is taken, CoinGecko had written before. -/
def racingWorld : World where
  shared :=
    { current := PriceStore.after (StdDuration.fromSecs 60) [⟨.coingecko, assetA, ⟨Decimal.one⟩, 0⟩]
      past := []
      reads := 0
      schedule := fun i => if i = 0 then [⟨.binance, assetA, ⟨Decimal.ofUInt64 2⟩, 0⟩] else [] }
  clock := fun _ => 0

/-- The read finds what Binance wrote. -/
theorem price_racingWorld :
    (CachedValuation.price assetA racingWorld).1.toOption = some ⟨Decimal.ofUInt64 2⟩ :=
  (racingWorld.price_of_history (StdDuration.fromSecs 60)
    [⟨.coingecko, assetA, ⟨Decimal.one⟩, 0⟩] assetA rfl).1.trans (by decide)

/-! ## What a Binance message writes -/

section

variable [RustDecimal]

/-- `(bid + ask) / 2` as it is rounded, where both sides parse and nothing overflows. -/
def midOf (ticker : BookTicker) : Option Decimal := do
  let bid ← fromStr ticker.bid
  let ask ← fromStr ticker.ask
  let sum ← checkedAdd bid ask
  checkedDiv sum two

theorem midOf_eq_some {ticker : BookTicker} {mid : Decimal} :
    midOf ticker = some mid ↔ ∃ bid ask sum, fromStr ticker.bid = some bid ∧
      fromStr ticker.ask = some ask ∧ checkedAdd bid ask = some sum ∧
      checkedDiv sum two = some mid := by
  unfold midOf
  simp only [Option.bind_eq_bind, Option.bind_eq_some_iff]
  constructor
  · rintro ⟨bid, hbid, ask, hask, sum, hsum, hmid⟩
    exact ⟨bid, ask, sum, hbid, hask, hsum, hmid⟩
  · rintro ⟨bid, ask, sum, hbid, hask, hsum, hmid⟩
    exact ⟨bid, hbid, ask, hask, sum, hsum, hmid⟩

/-- Halving never overflows. -/
theorem exists_half (sum : Decimal) : ∃ mid, checkedDiv sum two = some mid := by
  have htwo : two.toRat = 2 := Decimal.toRat_ofNat 2 _
  refine (div_rounds sum two (by rw [htwo]; norm_num)).exists_some ?_
  have hle := sum.abs_toRat_le
  have hnonneg := abs_nonneg sum.toRat
  rw [htwo, abs_div, abs_of_pos (by norm_num : (0 : ℚ) < 2)]
  linarith

/-- Both sides parse, and their sum overflows. -/
def SumOverflows (ticker : BookTicker) : Prop :=
  ∃ bid ask, fromStr ticker.bid = some bid ∧ fromStr ticker.ask = some ask ∧
    checkedAdd bid ask = none

/-- The mid price is computed unless the sum overflows. -/
theorem midPrice_eq_ok {ticker : BookTicker} {o : Option Decimal} :
    midPrice ticker = .ok o ↔ ¬ SumOverflows ticker ∧ midOf ticker = o := by
  unfold midPrice SumOverflows midOf
  cases hbid : fromStr ticker.bid with
  | none => simp
  | some bid =>
    cases hask : fromStr ticker.ask with
    | none => simp
    | some ask =>
      cases hsum : checkedAdd bid ask with
      | none => simp [add, hsum, unchecked, bind, Except.bind]
      | some sum =>
        obtain ⟨mid, hmid⟩ := exists_half sum
        simp [add, div, hsum, hmid, unchecked, bind, Except.bind, pure, Except.pure]

/-- A sum that overflows is no decimal. -/
theorem not_isDecimal_of_checkedAdd {a b : Decimal} (h : checkedAdd a b = none) :
    ¬ IsDecimal (a.toRat + b.toRat) := by
  rintro ⟨d, hd⟩
  obtain ⟨sum, hsum⟩ := (add_rounds a b).exists_some (hd ▸ d.abs_toRat_le)
  rw [h] at hsum
  cases hsum

/-- **The mid price is the exact mean** if and only if neither the sum nor its half is rounded. -/
theorem toRat_midOf_iff {ticker : BookTicker} {bid ask mid : Decimal}
    (hbid : fromStr ticker.bid = some bid) (hask : fromStr ticker.ask = some ask)
    (hmid : midOf ticker = some mid) :
    mid.toRat = (bid.toRat + ask.toRat) / 2 ↔
      IsDecimal (bid.toRat + ask.toRat) ∧ IsDecimal ((bid.toRat + ask.toRat) / 2) := by
  obtain ⟨bid', ask', sum, hbid', hask', hadd, hdiv⟩ := midOf_eq_some.mp hmid
  obtain rfl : bid = bid' := Option.some.inj (hbid.symm.trans hbid')
  obtain rfl : ask = ask' := Option.some.inj (hask.symm.trans hask')
  have htwo : two.toRat = 2 := Decimal.toRat_ofNat 2 _
  have hsum := add_rounds bid ask
  rw [hadd] at hsum
  have hhalf := div_rounds sum two (by rw [htwo]; norm_num)
  rw [hdiv, htwo] at hhalf
  constructor
  · intro hexact
    refine ⟨?_, mid, hexact⟩
    by_contra hround
    -- a rounded sum is halved exactly, so its half is not that of the sum
    obtain ⟨d, hd⟩ := hsum.isDecimal_half hround ⟨mid, hexact⟩
    have hvalue := hhalf.toRat_eq hd
    exact hround ⟨sum, by linarith⟩
  · rintro ⟨⟨exact, hexact⟩, half, hhalf'⟩
    rw [hsum.toRat_eq hexact] at hhalf
    exact hhalf.toRat_eq hhalf'

/-! ## What a message is to do -/

/-- The mean of bid and ask is `mid`, and a decimal has this value. -/
def BookTicker.IsMid (ticker : BookTicker) (mid : ℚ) : Prop :=
  ∃ bid ask, fromStr ticker.bid = some bid ∧ fromStr ticker.ask = some ask ∧
    mid = (bid.toRat + ask.toRat) / 2 ∧ IsDecimal mid

/-- Bid and ask have a sum and a mean that are decimals, if they parse at all. -/
def BookTicker.Unrounded (ticker : BookTicker) : Prop :=
  ∀ bid ask, fromStr ticker.bid = some bid → fromStr ticker.ask = some ask →
    IsDecimal (bid.toRat + ask.toRat) ∧ IsDecimal ((bid.toRat + ask.toRat) / 2)

theorem BookTicker.Unrounded.not_sumOverflows {ticker : BookTicker} (h : ticker.Unrounded) :
    ¬ SumOverflows ticker := by
  rintro ⟨bid, ask, hbid, hask, hsum⟩
  exact not_isDecimal_of_checkedAdd hsum (h bid ask hbid hask).1

/-- The message sends this mid price for the asset. -/
def SendsMid (toUppercase : String → String) (assets : List AssetSettings)
    (decoded : Option BookTicker) (asset : AssetId) (mid : ℚ) : Prop :=
  ∃ ticker, decoded = some ticker ∧ Tracked toUppercase assets ticker.symbol asset ∧
    ticker.IsMid mid

/--
What a message is to do to the store: its mid price is written to its assets, and nothing else.
-/
structure Ingested (toUppercase : String → String) (assets : List AssetSettings)
    (decoded : Option BookTicker) (clock : Nat → OffsetDateTime) (store store' : PriceStore) :
    Prop where
  priced : ∀ asset mid, SendsMid toUppercase assets decoded asset mid →
    ∃ (price : Decimal) (i : Nat), price.toRat = mid ∧
      store'.binance.lookup asset = some ⟨⟨price⟩, clock i⟩
  others : ∀ asset, (∀ mid, ¬ SendsMid toUppercase assets decoded asset mid) →
    store'.binance.lookup asset = store.binance.lookup asset
  unchanged : (∀ asset mid, ¬ SendsMid toUppercase assets decoded asset mid) → store' = store
  coingecko : store'.coingecko = store.coingecko
  maxStaleness : store'.maxStaleness = store.maxStaleness

/-- Nothing is to be done for a message that sends no mid price. -/
theorem Ingested.refl {toUppercase : String → String} {assets : List AssetSettings}
    {decoded : Option BookTicker} {clock : Nat → OffsetDateTime} {store : PriceStore}
    (h : ∀ asset mid, ¬ SendsMid toUppercase assets decoded asset mid) :
    Ingested toUppercase assets decoded clock store store where
  priced asset mid hsends := absurd hsends (h asset mid)
  others _ _ := rfl
  unchanged _ := rfl
  coingecko := rfl
  maxStaleness := rfl

end

/-! ## The fan-out -/

/-- The writes of one price to every asset of a symbol. -/
def fanOut (assets : List AssetId) (usd : Usd) (clock : Nat → OffsetDateTime) : List PriceWrite :=
  assets.zipIdx.map fun (asset, i) => ⟨.binance, asset, usd, clock i⟩

theorem mem_fanOut {assets : List AssetId} {usd : Usd} {clock : Nat → OffsetDateTime}
    {write : PriceWrite} (h : write ∈ fanOut assets usd clock) :
    write.feed = .binance ∧ write.asset ∈ assets ∧ write.usd = usd ∧ ∃ i, write.now = clock i := by
  obtain ⟨⟨asset, i⟩, hmem, rfl⟩ := List.mem_map.mp h
  exact ⟨rfl, List.fst_mem_of_mem_zipIdx hmem, rfl, i, rfl⟩

theorem exists_mem_fanOut {assets : List AssetId} {asset : AssetId} (h : asset ∈ assets) (usd : Usd)
    (clock : Nat → OffsetDateTime) :
    ∃ write ∈ fanOut assets usd clock, write.feed = .binance ∧ write.asset = asset := by
  obtain ⟨i, hi, rfl⟩ := List.getElem_of_mem h
  have hmem : (assets[i], i) ∈ assets.zipIdx := List.mk_mem_zipIdx_iff_getElem?.mpr (by simp [hi])
  exact ⟨_, List.mem_map_of_mem hmem, rfl, rfl⟩

/-- What the fan-out writes last for an asset. -/
theorem lastWrite_fanOut (assets : List AssetId) (usd : Usd) (clock : Nat → OffsetDateTime)
    (asset : AssetId) :
    (asset ∈ assets → ∃ i, lastWrite .binance asset (fanOut assets usd clock)
      = some ⟨.binance, asset, usd, clock i⟩) ∧
    (asset ∉ assets → lastWrite .binance asset (fanOut assets usd clock) = none) := by
  cases hlast : lastWrite .binance asset (fanOut assets usd clock) with
  | none =>
    refine ⟨fun hmem => ?_, fun _ => rfl⟩
    obtain ⟨write, hwrite, hfeed, hasset⟩ := exists_mem_fanOut hmem usd clock
    have hnil := List.filter_eq_nil_iff.mp (List.getLast?_eq_none_iff.mp hlast) write hwrite
    have hne : write.feed = .binance → ¬ write.asset = asset := by simpa using hnil
    exact absurd hasset (hne hfeed)
  | some write =>
    obtain ⟨hwrite, hmatch⟩ := List.mem_filter.mp (List.mem_of_getLast? hlast)
    obtain ⟨hfeed, hmem, husd, i, hnow⟩ := mem_fanOut hwrite
    obtain ⟨-, hasset⟩ : write.feed = .binance ∧ write.asset = asset := by simpa using hmatch
    refine ⟨fun _ => ⟨i, ?_⟩, fun hnot => absurd (hasset ▸ hmem) hnot⟩
    obtain ⟨feed, written, price, now⟩ := write
    obtain rfl : feed = .binance := hfeed
    obtain rfl : written = asset := hasset
    obtain rfl : price = usd := husd
    obtain rfl : now = clock i := hnow
    rfl

/-- The loop over the assets of a symbol is the history of its writes. -/
theorem foldl_setBinance_eq (assets : List AssetId) (usd : Usd) (clock : Nat → OffsetDateTime)
    (store : PriceStore) :
    assets.zipIdx.foldl (fun store (asset, i) => store.setBinance asset usd (clock i)) store
      = (fanOut assets usd clock).foldl PriceWrite.effect store := by
  unfold fanOut
  rw [List.foldl_map]
  rfl

/-- The other feed is not written. -/
theorem coingecko_foldl_fanOut (assets : List AssetId) (usd : Usd) (clock : Nat → OffsetDateTime)
    (store : PriceStore) :
    ((fanOut assets usd clock).foldl PriceWrite.effect store).coingecko = store.coingecko := by
  have hloop : ∀ (pairs : List (AssetId × Nat)) (store : PriceStore),
      (pairs.foldl (fun store (asset, i) => store.setBinance asset usd (clock i)) store).coingecko
        = store.coingecko := by
    intro pairs
    induction pairs with
    | nil => exact fun _ => rfl
    | cons pair rest ih => exact fun store => ih _
  rw [← foldl_setBinance_eq]
  exact hloop assets.zipIdx store

/--
What Binance says after the fan-out: the price for the assets of the symbol, no news for others.
-/
theorem lookup_foldl_fanOut (assets : List AssetId) (usd : Usd) (clock : Nat → OffsetDateTime)
    (store : PriceStore) (asset : AssetId) :
    (asset ∈ assets → ∃ i,
      ((fanOut assets usd clock).foldl PriceWrite.effect store).binance.lookup asset
      = some ⟨usd, clock i⟩) ∧
    (asset ∉ assets → ((fanOut assets usd clock).foldl PriceWrite.effect store).binance.lookup asset
      = store.binance.lookup asset) := by
  have hlook : ((fanOut assets usd clock).foldl PriceWrite.effect store).binance.lookup asset
      = ((lastWrite .binance asset (fanOut assets usd clock)).map
          fun write => ⟨write.usd, write.now⟩).or (store.binance.lookup asset) :=
    store.lookup_source_foldl (fanOut assets usd clock) .binance asset
  rw [hlook]
  obtain ⟨hmem, hout⟩ := lastWrite_fanOut assets usd clock asset
  constructor
  · intro hasset
    obtain ⟨i, hlast⟩ := hmem hasset
    exact ⟨i, by rw [hlast]; rfl⟩
  · intro hasset
    rw [hout hasset]
    rfl

section

variable [RustDecimal]

/-- The fan-out of an exact mid price does what the message is to do. -/
theorem ingested_fanOut {toUppercase : String → String} {assets : List AssetSettings}
    {ticker : BookTicker} {listed : List AssetId} {bid ask mid : Decimal}
    (hlisted : ∀ asset, asset ∈ listed ↔ Tracked toUppercase assets ticker.symbol asset)
    (hbid : fromStr ticker.bid = some bid) (hask : fromStr ticker.ask = some ask)
    (hmid : mid.toRat = (bid.toRat + ask.toRat) / 2) (clock : Nat → OffsetDateTime)
    (store : PriceStore) :
    Ingested toUppercase assets (some ticker) clock store
      ((fanOut listed ⟨mid⟩ clock).foldl PriceWrite.effect store) := by
  have hsends : ∀ asset ∈ listed, SendsMid toUppercase assets (some ticker) asset mid.toRat :=
    fun asset hasset =>
      ⟨ticker, rfl, (hlisted asset).mp hasset, bid, ask, hbid, hask, hmid, mid, rfl⟩
  refine ⟨?_, ?_, ?_, coingecko_foldl_fanOut listed ⟨mid⟩ clock store,
    store.maxStaleness_foldl (fanOut listed ⟨mid⟩ clock)⟩
  · rintro asset mid' ⟨ticker', hticker, htracked, bid', ask', hbid', hask', rfl, -⟩
    obtain rfl : ticker = ticker' := Option.some.inj hticker
    obtain rfl : bid = bid' := Option.some.inj (hbid.symm.trans hbid')
    obtain rfl : ask = ask' := Option.some.inj (hask.symm.trans hask')
    obtain ⟨i, hlook⟩ :=
      (lookup_foldl_fanOut listed ⟨mid⟩ clock store asset).1 ((hlisted asset).mpr htracked)
    exact ⟨mid, i, hmid, hlook⟩
  · intro asset hnot
    have hout : asset ∉ listed := fun hmem => hnot mid.toRat (hsends asset hmem)
    exact (lookup_foldl_fanOut listed ⟨mid⟩ clock store asset).2 hout
  · intro hnot
    cases listed with
    | nil => rfl
    | cons asset rest =>
      exact absurd (hsends asset List.mem_cons_self) (hnot asset mid.toRat)

namespace BinanceFeed

variable {feed : BinanceFeed} {decode : String → Option BookTicker} {text : String}
  {clock : Nat → OffsetDateTime} {store store' : PriceStore}

/-- The writes a message amounts to, if it is ingested at all. -/
def writes (feed : BinanceFeed) (decode : String → Option BookTicker) (text : String)
    (clock : Nat → OffsetDateTime) : List PriceWrite :=
  match decode text with
  | none => []
  | some ticker =>
    match midOf ticker with
    | none => []
    | some mid => fanOut ((feed.symbols.lookup ticker.symbol).getD []) ⟨mid⟩ clock

/-- The sum of a ticker whose symbol is in the table overflows. -/
def Overflows (feed : BinanceFeed) (decode : String → Option BookTicker) (text : String) : Prop :=
  ∃ ticker listed, decode text = some ticker ∧ feed.symbols.lookup ticker.symbol = some listed ∧
    SumOverflows ticker

/-- The symbols in the table of a feed that is built from settings are those that assets name. -/
theorem overflows_iff {toUppercase : String → String} {settings : Settings} {feeds : Feeds}
    (hbuild : buildValuation toUppercase settings = .ok feeds) :
    feeds.binance.Overflows decode text ↔ ∃ ticker asset, decode text = some ticker ∧
      Tracked toUppercase settings.assets ticker.symbol asset ∧ SumOverflows ticker := by
  obtain ⟨hlisted, hne⟩ := symbols_of_buildValuation hbuild
  constructor
  · rintro ⟨ticker, listed, hdec, hlook, hsum⟩
    obtain ⟨asset, hasset⟩ := List.exists_mem_of_ne_nil listed (hne _ _ hlook)
    exact ⟨ticker, asset, hdec, (hlisted _ _).mp (by rw [hlook]; exact hasset), hsum⟩
  · rintro ⟨ticker, asset, hdec, htracked, hsum⟩
    have hmem := (hlisted _ _).mpr htracked
    cases hlook : feeds.binance.symbols.lookup ticker.symbol with
    | none =>
      rw [hlook] at hmem
      exact absurd hmem List.not_mem_nil
    | some listed => exact ⟨ticker, listed, hdec, hlook, hsum⟩

/-- **One message** is turned into its writes, unless a sum overflows. -/
theorem ingest_eq_ok : feed.ingest decode text clock store = .ok store' ↔
    ¬ feed.Overflows decode text ∧
      (feed.writes decode text clock).foldl PriceWrite.effect store = store' := by
  unfold ingest writes Overflows
  cases decode text with
  | none => simp
  | some ticker =>
    dsimp only
    cases hlook : feed.symbols.lookup ticker.symbol with
    | none =>
      cases midOf ticker <;> simp [hlook, fanOut]
    | some listed =>
      dsimp only
      rw [bind_eq_ok]
      constructor
      · rintro ⟨o, hmid, hrun⟩
        obtain ⟨hno, rfl⟩ := midPrice_eq_ok.mp hmid
        refine ⟨?_, ?_⟩
        · rintro ⟨ticker', listed', hticker, -, hover⟩
          exact hno (Option.some.inj hticker ▸ hover)
        · cases hvalue : midOf ticker with
          | none =>
            rw [hvalue] at hrun
            exact Except.ok.inj hrun
          | some mid =>
            rw [hvalue] at hrun
            rw [← Except.ok.inj hrun, foldl_setBinance_eq]
            rfl
      · rintro ⟨hno, rfl⟩
        have hsum : ¬ SumOverflows ticker := fun hover => hno ⟨ticker, listed, rfl, hlook, hover⟩
        refine ⟨midOf ticker, midPrice_eq_ok.mpr ⟨hsum, rfl⟩, ?_⟩
        cases midOf ticker with
        | none => rfl
        | some mid =>
          dsimp only
          rw [foldl_setBinance_eq]
          rfl

/-- The writes of a message whose ticker is not rounded do what it is to do. -/
theorem ingested_writes {toUppercase : String → String} {assets : List AssetSettings}
    (hlisted : ∀ symbol asset, asset ∈ (feed.symbols.lookup symbol).getD [] ↔
      Tracked toUppercase assets symbol asset)
    (hexact : ∀ ticker asset, decode text = some ticker →
      Tracked toUppercase assets ticker.symbol asset → ticker.Unrounded) :
    Ingested toUppercase assets (decode text) clock store
      ((feed.writes decode text clock).foldl PriceWrite.effect store) := by
  unfold writes
  cases hdec : decode text with
  | none =>
    refine Ingested.refl ?_
    rintro asset mid ⟨ticker, hticker, -⟩
    cases hticker
  | some ticker =>
    dsimp only
    cases hmid : midOf ticker with
    | none =>
      refine Ingested.refl ?_
      rintro asset mid ⟨ticker', hticker, htracked, bid, ask, hbid, hask, -⟩
      obtain rfl : ticker = ticker' := Option.some.inj hticker
      -- both sides parse, and their sum is a decimal
      have hno := (hexact ticker asset hdec htracked).not_sumOverflows
      unfold midOf at hmid
      rw [hbid, hask] at hmid
      cases hsum : checkedAdd bid ask with
      | none => exact hno ⟨bid, ask, hbid, hask, hsum⟩
      | some sum =>
        obtain ⟨half, hhalf⟩ := exists_half sum
        simp [hsum, hhalf] at hmid
    | some mid =>
      dsimp only
      generalize hlook : (feed.symbols.lookup ticker.symbol).getD [] = listed
      have hmem : ∀ asset, asset ∈ listed ↔ Tracked toUppercase assets ticker.symbol asset :=
        fun asset => hlook ▸ hlisted ticker.symbol asset
      cases listed with
      | nil =>
        refine Ingested.refl ?_
        rintro asset mid' ⟨ticker', hticker, htracked, -⟩
        obtain rfl : ticker = ticker' := Option.some.inj hticker
        exact absurd ((hmem asset).mpr htracked) List.not_mem_nil
      | cons asset rest =>
        obtain ⟨bid, ask, sum, hbid, hask, -⟩ := midOf_eq_some.mp hmid
        have hunrounded := hexact ticker asset hdec ((hmem asset).mp List.mem_cons_self)
        exact ingested_fanOut hmem hbid hask
          ((toRat_midOf_iff hbid hask hmid).mpr (hunrounded bid ask hbid hask)) clock store

/-- What the writes of a message leave of an asset that its symbol prices. -/
theorem lookup_foldl_writes (clock : Nat → OffsetDateTime) (store : PriceStore)
    {ticker : BookTicker} {mid : Decimal} {asset : AssetId} (hdec : decode text = some ticker)
    (hmid : midOf ticker = some mid)
    (hasset : asset ∈ (feed.symbols.lookup ticker.symbol).getD []) :
    ∃ i, ((feed.writes decode text clock).foldl PriceWrite.effect store).binance.lookup asset
      = some ⟨⟨mid⟩, clock i⟩ := by
  unfold writes
  rw [hdec]
  dsimp only
  rw [hmid]
  exact (lookup_foldl_fanOut _ ⟨mid⟩ clock store asset).1 hasset

/-- A message that is ingested as it is to be, into any store, has not been rounded. -/
theorem unrounded_of_ingested {toUppercase : String → String} {assets : List AssetSettings}
    {ticker : BookTicker} {asset : AssetId} (hdec : decode text = some ticker)
    (hasset : asset ∈ (feed.symbols.lookup ticker.symbol).getD [])
    (htracked : Tracked toUppercase assets ticker.symbol asset)
    (hmeets : ∀ clock store, ∃ store', feed.ingest decode text clock store = .ok store' ∧
      Ingested toUppercase assets (decode text) clock store store') : ticker.Unrounded := by
  intro bid ask hbid hask
  -- into an empty store, in which any write shows
  obtain ⟨store', hrun, hingested⟩ := hmeets (fun _ => 0) (PriceStore.new (StdDuration.fromSecs 0))
  obtain ⟨hno, rfl⟩ := ingest_eq_ok.mp hrun
  obtain ⟨listed, hlook⟩ : ∃ listed, feed.symbols.lookup ticker.symbol = some listed := by
    cases hlook : feed.symbols.lookup ticker.symbol with
    | none =>
      rw [hlook] at hasset
      exact absurd hasset List.not_mem_nil
    | some listed => exact ⟨listed, rfl⟩
  obtain ⟨sum, hsum⟩ : ∃ sum, checkedAdd bid ask = some sum := by
    cases hsum : checkedAdd bid ask with
    | none => exact absurd ⟨ticker, listed, hdec, hlook, bid, ask, hbid, hask, hsum⟩ hno
    | some sum => exact ⟨sum, rfl⟩
  obtain ⟨mid, hhalf⟩ := exists_half sum
  have hmid : midOf ticker = some mid := midOf_eq_some.mpr ⟨bid, ask, sum, hbid, hask, hsum, hhalf⟩
  obtain ⟨i, hwritten⟩ := lookup_foldl_writes (fun _ => 0)
    (PriceStore.new (StdDuration.fromSecs 0)) hdec hmid hasset
  have hmean : IsDecimal ((bid.toRat + ask.toRat) / 2) := by
    by_contra hround
    -- no mid price is sent, and yet something was written
    have hnone : ∀ asset mid, ¬ SendsMid toUppercase assets (decode text) asset mid := by
      rintro asset mid ⟨ticker', hticker, -, bid', ask', hbid', hask', rfl, hdecimal⟩
      obtain rfl : ticker = ticker' := Option.some.inj (hdec.symm.trans hticker)
      obtain rfl : bid = bid' := Option.some.inj (hbid.symm.trans hbid')
      obtain rfl : ask = ask' := Option.some.inj (hask.symm.trans hask')
      exact hround hdecimal
    rw [hingested.unchanged hnone] at hwritten
    cases hwritten
  obtain ⟨price, j, hprice, hlookup⟩ := hingested.priced asset _
    ⟨ticker, hdec, htracked, bid, ask, hbid, hask, rfl, hmean⟩
  obtain ⟨heq, -⟩ := PricePoint.mk.inj (Option.some.inj (hwritten.symm.trans hlookup))
  refine (toRat_midOf_iff hbid hask hmid).mp ?_
  rw [← hprice, Usd.mk.inj heq]

/-- **The messages of a connection** leave the history of their writes, unless a sum overflows. -/
theorem stream_eq_ok {messages : List (String × (Nat → OffsetDateTime))} :
    feed.stream decode messages store = .ok store' ↔
      (∀ message ∈ messages, ¬ feed.Overflows decode message.1) ∧
        (messages.flatMap fun message => feed.writes decode message.1 message.2).foldl
          PriceWrite.effect store = store' := by
  unfold stream
  induction messages generalizing store with
  | nil => simp [pure, Except.pure]
  | cons message rest ih =>
    rw [List.foldlM_cons, bind_eq_ok]
    constructor
    · rintro ⟨store₁, hfirst, hrest⟩
      obtain ⟨hno, rfl⟩ := ingest_eq_ok.mp hfirst
      obtain ⟨hnone, hrun⟩ := ih.mp hrest
      refine ⟨List.forall_mem_cons.mpr ⟨hno, hnone⟩, ?_⟩
      rw [List.flatMap_cons, List.foldl_append]
      exact hrun
    · rintro ⟨hnone, hrun⟩
      obtain ⟨hno, hrest⟩ := List.forall_mem_cons.mp hnone
      rw [List.flatMap_cons, List.foldl_append] at hrun
      exact ⟨_, ingest_eq_ok.mpr ⟨hno, rfl⟩, ih.mpr ⟨hrest, hrun⟩⟩

end BinanceFeed

/--
**A Binance message** is ingested as it is to be, whatever the store holds, exactly when it is no
ticker of a tracked symbol whose bid and ask parse and have a sum or a mean that is no `Decimal`: a
sum beyond the largest one panics, any other one is rounded, and so is a mean, and what is written
then is not the mean. No other asset is ever written, nor is the other feed.
-/
theorem ingest_meets_iff (toUppercase : String → String) (settings : Settings) (feeds : Feeds)
    (hbuild : buildValuation toUppercase settings = .ok feeds)
    (decode : String → Option BookTicker) (text : String) :
    ((∀ clock store, ∃ store', feeds.binance.ingest decode text clock store = .ok store' ∧
      Ingested toUppercase settings.assets (decode text) clock store store') ↔
    ∀ ticker asset, decode text = some ticker →
      Tracked toUppercase settings.assets ticker.symbol asset → ticker.Unrounded) ∧
    ∀ clock store,
      ((∃ store', feeds.binance.ingest decode text clock store = .ok store') ↔
        ¬ ∃ ticker asset, decode text = some ticker ∧
          Tracked toUppercase settings.assets ticker.symbol asset ∧ SumOverflows ticker) ∧
      ∀ store', feeds.binance.ingest decode text clock store = .ok store' →
        store'.coingecko = store.coingecko ∧ ∀ asset, (∀ ticker, decode text = some ticker →
          ¬ Tracked toUppercase settings.assets ticker.symbol asset) →
          store'.binance.lookup asset = store.binance.lookup asset := by
  obtain ⟨hlisted, -⟩ := symbols_of_buildValuation hbuild
  refine ⟨⟨?_, ?_⟩, fun clock store => ⟨?_, ?_⟩⟩
  · intro hmeets ticker asset hdec htracked
    exact BinanceFeed.unrounded_of_ingested hdec ((hlisted _ _).mpr htracked) htracked hmeets
  · intro hexact clock store
    refine ⟨_, BinanceFeed.ingest_eq_ok.mpr ⟨?_, rfl⟩, BinanceFeed.ingested_writes hlisted hexact⟩
    rw [BinanceFeed.overflows_iff hbuild]
    rintro ⟨ticker, asset, hdec, htracked, hover⟩
    exact (hexact ticker asset hdec htracked).not_sumOverflows hover
  · rw [← BinanceFeed.overflows_iff hbuild]
    constructor
    · rintro ⟨store', hrun⟩
      exact (BinanceFeed.ingest_eq_ok.mp hrun).1
    · exact fun hno => ⟨_, BinanceFeed.ingest_eq_ok.mpr ⟨hno, rfl⟩⟩
  · intro store' hrun
    obtain ⟨-, rfl⟩ := BinanceFeed.ingest_eq_ok.mp hrun
    unfold BinanceFeed.writes
    cases hdec : decode text with
    | none => exact ⟨rfl, fun asset _ => rfl⟩
    | some ticker =>
      dsimp only
      cases midOf ticker with
      | none => exact ⟨rfl, fun asset _ => rfl⟩
      | some mid =>
        refine ⟨coingecko_foldl_fanOut _ ⟨mid⟩ clock store, fun asset hnot => ?_⟩
        refine (lookup_foldl_fanOut _ ⟨mid⟩ clock store asset).2 fun hmem => ?_
        exact hnot ticker rfl ((hlisted _ _).mp hmem)

end

/-- One asset, priced by `ETHUSDT`. -/
def wethSettings : Settings :=
  { fiatProviderUrl := "", coingeckoApiKey := none, binanceWsUrl := none, priceRefreshSecs := none
    priceStalenessSecs := none, assets := [⟨"ethereum:weth", "weth", some "ETHUSDT"⟩] }

def weth : AssetId := ⟨"ethereum:weth", by decide⟩

/-- The feeds built from it. -/
def wethFeeds : Feeds where
  store := PriceStore.new (StdDuration.fromSecs 120)
  coingecko := ⟨"", (∅ : HashMap AssetId String).insert weth "weth", StdDuration.fromSecs 30, none⟩
  binance := ⟨"wss://stream.binance.com:9443",
    (∅ : HashMap String (List AssetId)).insert "ETHUSDT" [weth]⟩

theorem buildValuation_wethSettings : buildValuation id wethSettings = .ok wethFeeds := rfl

section

attribute [local instance] RustDecimal.reference

/-- Bid and ask are the largest `Decimal`, which is also their mid price. -/
def largestTicker : BookTicker :=
  ⟨"ETHUSDT", "79228162514264337593543950335", "79228162514264337593543950335"⟩

/-- The message sends a mid price for WETH, and ends the feed. -/
theorem ingest_panics : buildValuation id wethSettings = .ok wethFeeds ∧
    SendsMid id wethSettings.assets (some largestTicker) weth maxMantissa ∧
    wethFeeds.binance.ingest (fun _ => some largestTicker) "" (fun _ => 0) wethFeeds.store
      = .error .overflow := by
  refine ⟨buildValuation_wethSettings, ?_, ?_⟩
  · have hparse : fromStr "79228162514264337593543950335"
        = some (Decimal.ofNat maxMantissa (le_refl _)) := by
      decide +kernel
    have hvalue := Decimal.toRat_ofNat maxMantissa (le_refl _)
    refine ⟨largestTicker, rfl, ⟨_, List.mem_singleton_self _, rfl, rfl⟩, _, _, hparse, hparse, ?_,
      _, hvalue⟩
    rw [hvalue]
    ring
  · have hlook : wethFeeds.binance.symbols.lookup largestTicker.symbol = some [weth] := rfl
    have hmid : midPrice largestTicker = .error .overflow := by decide +kernel
    unfold BinanceFeed.ingest
    dsimp only
    rw [hlook]
    dsimp only
    rw [hmid]
    rfl

/-- A sum of 97 bits is rounded: half of it is not the mid price, which is the bid. -/
example : midPrice ⟨"ETHUSDT", "7.9228162514264337593543950333", "7.9228162514264337593543950333"⟩
    = .ok (Decimal.parse "7.9228162514264337593543950335") := by decide +kernel

/-- A ticker of moderate prices is ingested. -/
theorem ingest_weth : ∃ store', wethFeeds.binance.ingest
    (fun _ => some ⟨"ETHUSDT", "1999.5", "2000.5"⟩) "" (fun _ => 0) wethFeeds.store = .ok store' ∧
    Ingested id wethSettings.assets (some ⟨"ETHUSDT", "1999.5", "2000.5"⟩) (fun _ => 0)
      wethFeeds.store store' := by
  refine (ingest_meets_iff id wethSettings wethFeeds buildValuation_wethSettings
    (fun _ => some ⟨"ETHUSDT", "1999.5", "2000.5"⟩) "").1.mpr ?_ (fun _ => 0) wethFeeds.store
  rintro ticker asset hticker - bid ask hbid hask
  rw [← Option.some.inj hticker] at hbid hask
  have hbid' : fromStr "1999.5" = some (Decimal.tenths 19995) := by decide +kernel
  have hask' : fromStr "2000.5" = some (Decimal.tenths 20005) := by decide +kernel
  rw [← Option.some.inj (hbid'.symm.trans hbid), ← Option.some.inj (hask'.symm.trans hask)]
  exact ⟨⟨Decimal.tenths 40000, by decide +kernel⟩, Decimal.tenths 20000, by decide +kernel⟩

end

end ArbRouter

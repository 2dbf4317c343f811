import ArbRouter.Core.Detect
import ArbRouter.Infra.Shared

/-!
# Prices from live feeds

`adapters/valuation/mod.rs`: the store that the feeds write and the valuation that reads it.

A price is read under two locks, first the Binance one and, without a fresh price there, the
CoinGecko one. The feeds write between any two of these reads, one asset at a time, so the
valuation runs over a `World`: the store with a schedule of writes, and a clock.
-/

namespace ArbRouter

open Infra

/-! ## The store -/

/-- A dollar price with the time it was observed. -/
structure PricePoint where
  usd : Usd
  observedAt : OffsetDateTime
deriving DecidableEq

inductive Feed where
  | binance
  | coingecko
deriving DecidableEq

/-- The prices of both feeds. -/
structure PriceStore where
  binance : HashMap AssetId PricePoint
  coingecko : HashMap AssetId PricePoint
  maxStaleness : TimeDuration

/-- `set`, at time `now`. -/
def setPrice (source : HashMap AssetId PricePoint) (asset : AssetId) (usd : Usd)
    (now : OffsetDateTime) : HashMap AssetId PricePoint :=
  source.insert asset ⟨usd, now⟩

namespace PriceStore

def new (maxStaleness : StdDuration) : PriceStore := ⟨∅, ∅, maxStaleness.toTime⟩

/-- `set_binance`, at time `now`. -/
def setBinance (store : PriceStore) (asset : AssetId) (usd : Usd) (now : OffsetDateTime) :
    PriceStore :=
  { store with binance := setPrice store.binance asset usd now }

/-- `set_coingecko`, at time `now`. -/
def setCoingecko (store : PriceStore) (asset : AssetId) (usd : Usd) (now : OffsetDateTime) :
    PriceStore :=
  { store with coingecko := setPrice store.coingecko asset usd now }

/-- The prices of one feed. -/
def source (store : PriceStore) : Feed → HashMap AssetId PricePoint
  | .binance => store.binance
  | .coingecko => store.coingecko

/-- `fresh`: the price of one feed unless it is too old. -/
def fresh (store : PriceStore) (feed : Feed) (asset : AssetId) (now : OffsetDateTime) :
    Option Usd := do
  let point ← (store.source feed).lookup asset
  if now - point.observedAt ≤ store.maxStaleness then some point.usd else none

/-- `price`, from one state of the store: Binance first. -/
def price (store : PriceStore) (asset : AssetId) (now : OffsetDateTime) : Option Usd :=
  (store.fresh .binance asset now).or (store.fresh .coingecko asset now)

/-- `price_and_source`: the price and the name of the feed it came from. -/
def priceAndSource (store : PriceStore) (asset : AssetId) (now : OffsetDateTime) :
    Option (Usd × String) :=
  match store.fresh .binance asset now with
  | some usd => some (usd, "binance")
  | none => (store.fresh .coingecko asset now).map fun usd => (usd, "coingecko")

/-- The prices at time `now`. -/
def table (store : PriceStore) (now : OffsetDateTime) : PriceTable := fun asset =>
  store.price asset now

/-- Two stores hold the same of an asset. -/
def SameAt (asset : AssetId) (store store' : PriceStore) : Prop :=
  ∀ feed, (store.source feed).lookup asset = (store'.source feed).lookup asset

theorem fresh_eq_some {store : PriceStore} {feed : Feed} {asset : AssetId} {now : OffsetDateTime}
    {usd : Usd} : store.fresh feed asset now = some usd ↔
      ∃ point, (store.source feed).lookup asset = some point ∧
        now - point.observedAt ≤ store.maxStaleness ∧ point.usd = usd := by
  unfold fresh
  simp only [Option.bind_eq_bind, Option.bind_eq_some_iff]
  constructor
  · rintro ⟨point, hpoint, h⟩
    split at h
    · exact ⟨point, hpoint, ‹_›, Option.some.inj h⟩
    · cases h
  · rintro ⟨point, hpoint, hle, rfl⟩
    exact ⟨point, hpoint, if_pos hle⟩

theorem fresh_congr {store store' : PriceStore} {asset : AssetId} (h : SameAt asset store store')
    (hmax : store.maxStaleness = store'.maxStaleness) (feed : Feed) (now : OffsetDateTime) :
    store.fresh feed asset now = store'.fresh feed asset now := by
  unfold fresh
  rw [h feed, hmax]

end PriceStore

/-! ## The world of a reader -/

/-- A write by one of the feeds. -/
structure PriceWrite where
  feed : Feed
  asset : AssetId
  usd : Usd
  now : OffsetDateTime

def PriceWrite.effect (store : PriceStore) (write : PriceWrite) : PriceStore :=
  match write.feed with
  | .binance => store.setBinance write.asset write.usd write.now
  | .coingecko => store.setCoingecko write.asset write.usd write.now

theorem PriceWrite.effect_maxStaleness (store : PriceStore) (write : PriceWrite) :
    (write.effect store).maxStaleness = store.maxStaleness := by
  unfold effect
  cases write.feed <;> rfl

/-- A write changes what its feed holds of its asset, and nothing else. -/
theorem PriceWrite.lookup_source_effect (store : PriceStore) (write : PriceWrite) (feed : Feed)
    (asset : AssetId) :
    ((write.effect store).source feed).lookup asset
      = if write.feed = feed ∧ write.asset = asset then some ⟨write.usd, write.now⟩
        else (store.source feed).lookup asset := by
  obtain ⟨source, written, usd, now⟩ := write
  by_cases hasset : written = asset
  · subst hasset
    cases source <;> cases feed <;>
      simp [effect, PriceStore.source, PriceStore.setBinance, PriceStore.setCoingecko, setPrice]
  · have hne : asset ≠ written := fun h => hasset h.symm
    cases source <;> cases feed <;>
      simp [effect, PriceStore.source, PriceStore.setBinance, PriceStore.setCoingecko, setPrice,
        hasset, hne]

/-- The store under the writes of the feeds, and what the clock shows after each read. -/
structure World where
  shared : Shared PriceStore PriceWrite
  clock : Nat → OffsetDateTime

namespace World

/-- `OffsetDateTime::now_utc()`. -/
def now (w : World) : OffsetDateTime := w.clock w.shared.reads

/-- The store as it is. -/
def store (w : World) : PriceStore := w.shared.current

/-- The states of the store from one moment to a later one. -/
def statesBetween (w w' : World) : List PriceStore := w.shared.between w'.shared

/-- The writes before the next lock is taken take effect. -/
def advance (w : World) : World :=
  { w with shared := w.shared.advance fun store write => write.effect store }

/-- `fresh`, under the lock of the feed. -/
def fresh (w : World) (feed : Feed) (asset : AssetId) (now : OffsetDateTime) :
    Option Usd × World :=
  (w.advance.store.fresh feed asset now, w.advance)

/-- `PriceStore::price` at the time the clock shows, among the writes of the feeds. -/
def price (w : World) (asset : AssetId) : Option Usd × World :=
  match w.fresh .binance asset w.now with
  | (some usd, w') => (some usd, w')
  | (none, w') => w'.fresh .coingecko asset w.now

/-- `PriceStore::price_and_source` at the time the clock shows, among the writes of the feeds. -/
def priceAndSource (w : World) (asset : AssetId) : Option (Usd × String) × World :=
  match w.fresh .binance asset w.now with
  | (some usd, w') => (some (usd, "binance"), w')
  | (none, w') =>
    ((w'.fresh .coingecko asset w.now).1.map fun usd => (usd, "coingecko"),
      (w'.fresh .coingecko asset w.now).2)

end World

/-- `CachedValuation`. -/
def CachedValuation : Valuation World where
  price asset w :=
    match w.price asset with
    | (some usd, w') => (.ok usd, w')
    | (none, w') => (.error (.notFound asset.asStr), w')

theorem price_eq_toOption (asset : AssetId) (w : World) :
    w.price asset
      = ((CachedValuation.price asset w).1.toOption, (CachedValuation.price asset w).2) := by
  unfold CachedValuation
  rcases hp : w.price asset with ⟨_ | usd, w'⟩ <;> simp [hp, Except.toOption]

/-- `CachedValuation::price_and_source`. -/
def CachedValuation.priceAndSource (asset : AssetId) (w : World) : Option (Usd × String) × World :=
  w.priceAndSource asset

end ArbRouter

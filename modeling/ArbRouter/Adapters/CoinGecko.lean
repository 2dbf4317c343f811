import ArbRouter.Adapters.Binance

/-!
# The CoinGecko poller

`adapters/valuation/coingecko.rs`: one request for all tracked coins, and a loop that writes the
prices of its answer.

The HTTP client, the JSON decoder and floating point are not part of the verified sources. Requests
have arbitrary outcomes, an error is what `reqwest::Error` prints, `F` are the numbers of a body,
and `toDecimal` is `Decimal::try_from`.

* `CoinGeckoFeed.refresh_eq` — a refresh amounts to a history of writes
* `lookup_groupPriceIds` — the coin of an asset
* `request_of_buildValuation` — the request of a poller that is built from settings
-/

namespace ArbRouter

open Infra

/-! ## Requests -/

/-- A `GET`, with the header `x-cg-demo-api-key` if there is a key. -/
structure CoinGeckoRequest where
  url : String
  apiKey : Option String
deriving DecidableEq

/-- Coin id to currency to price. -/
abbrev CoinGeckoBody (F : Type) := HashMap String (HashMap String F)

variable {F : Type}

/-- The price of a coin in dollars, if the body has one that is a `Decimal`. -/
def CoinGeckoBody.usd (toDecimal : F → Option Decimal) (body : CoinGeckoBody F) (coinId : String) :
    Option Decimal := do
  let quote ← body.lookup coinId
  toDecimal (← quote.lookup "usd")

namespace CoinGeckoFeed

variable (feed : CoinGeckoFeed)

/-- The coin ids as a `BTreeSet`: in order, each once. -/
def coinIds : List String := feed.priceIds.values.toFinset.sort

/-- The one request of a refresh. -/
def request : CoinGeckoRequest where
  url := feed.baseUrl ++ "/simple/price?ids=" ++ ",".intercalate feed.coinIds
    ++ "&vs_currencies=usd"
  apiKey := feed.apiKey

/-! ## Refreshing -/

/-- The order in which the loop visits the tracked assets. -/
abbrev Visits := IterOrder (Sigma fun _ : AssetId => String)

/-- A round of the loop over the tracked assets. -/
def storePrice (toDecimal : F → Option Decimal) (body : CoinGeckoBody F)
    (clock : Nat → OffsetDateTime) (store : PriceStore)
    (visit : (Sigma fun _ : AssetId => String) × Nat) : PriceStore :=
  match body.usd toDecimal visit.1.2 with
  | some price => store.setCoingecko visit.1.1 ⟨price⟩ (clock visit.2)
  | none => store

/--
`CoinGeckoFeed::refresh`; `clock i` is the time of the `i`-th round. Without tracked assets nothing
is requested.
-/
def refresh (toDecimal : F → Option Decimal)
    (fetch : CoinGeckoRequest → Except String (CoinGeckoBody F)) (order : Visits)
    (clock : Nat → OffsetDateTime) (store : PriceStore) : Except String PriceStore :=
  if feed.priceIds.entries = [] then .ok store
  else do
    let body ← fetch feed.request
    return (order.run feed.priceIds.entries).zipIdx.foldl (storePrice toDecimal body clock) store

/-- The writes that a body amounts to. -/
def writes (toDecimal : F → Option Decimal) (body : CoinGeckoBody F) (order : Visits)
    (clock : Nat → OffsetDateTime) : List PriceWrite :=
  (order.run feed.priceIds.entries).zipIdx.filterMap fun visit =>
    (body.usd toDecimal visit.1.2).map fun price =>
      ⟨.coingecko, visit.1.1, ⟨price⟩, clock visit.2⟩

variable {feed} {toDecimal : F → Option Decimal} {body : CoinGeckoBody F} {order : Visits}
  {clock : Nat → OffsetDateTime}

/-- The loop is the history of its writes. -/
theorem foldl_storePrice (store : PriceStore) :
    (order.run feed.priceIds.entries).zipIdx.foldl (storePrice toDecimal body clock) store
      = (feed.writes toDecimal body order clock).foldl PriceWrite.effect store := by
  unfold writes
  rw [List.foldl_filterMap]
  refine List.foldl_ext _ _ _ fun store visit _ => ?_
  unfold storePrice
  cases body.usd toDecimal visit.1.2 <;> rfl

/-- **A refresh** writes what the body of its one request amounts to. -/
theorem refresh_eq (fetch : CoinGeckoRequest → Except String (CoinGeckoBody F))
    (store : PriceStore) :
    feed.refresh toDecimal fetch order clock store
      = if feed.priceIds.entries = [] then .ok store
        else (fetch feed.request).map fun body =>
          (feed.writes toDecimal body order clock).foldl PriceWrite.effect store := by
  unfold refresh
  refine if_congr Iff.rfl rfl ?_
  cases fetch feed.request with
  | error err => rfl
  | ok body => exact congrArg Except.ok (foldl_storePrice store)

/-- Each write is the price of the coin of a tracked asset. -/
theorem of_mem_writes {write : PriceWrite} (h : write ∈ feed.writes toDecimal body order clock) :
    write.feed = .coingecko ∧ (∃ i, write.now = clock i) ∧
      ∃ coinId, feed.priceIds.lookup write.asset = some coinId ∧
        body.usd toDecimal coinId = some write.usd.val := by
  obtain ⟨⟨⟨asset, coinId⟩, i⟩, hvisit, h⟩ := List.mem_filterMap.mp h
  obtain ⟨price, hprice, rfl⟩ := Option.map_eq_some_iff.mp h
  have hentry := order.mem_run.mp (List.fst_mem_of_mem_zipIdx hvisit)
  exact ⟨rfl, ⟨i, rfl⟩, coinId, AList.mem_lookup_iff.mpr hentry, hprice⟩

/-- Every tracked asset whose coin has a price is written. -/
theorem exists_mem_writes {asset : AssetId} {coinId : String} {price : Decimal}
    (hcoin : feed.priceIds.lookup asset = some coinId)
    (hprice : body.usd toDecimal coinId = some price) :
    ∃ write ∈ feed.writes toDecimal body order clock, write.asset = asset := by
  have hentry := order.mem_run.mpr (AList.mem_lookup_iff.mp hcoin)
  obtain ⟨i, hi, heq⟩ := List.getElem_of_mem hentry
  refine ⟨⟨.coingecko, asset, ⟨price⟩, clock i⟩, ?_, rfl⟩
  refine List.mem_filterMap.mpr ⟨(⟨asset, coinId⟩, i), ?_, ?_⟩
  · rw [List.mk_mem_zipIdx_iff_getElem?, List.getElem?_eq_getElem hi, heq]
  · show (body.usd toDecimal coinId).map _ = _
    rw [hprice]
    rfl

/-- The request names every coin of a tracked asset, and no coin twice. -/
theorem coinIds_spec (feed : CoinGeckoFeed) :
    feed.coinIds.Nodup ∧ feed.coinIds.Pairwise (· ≤ ·) ∧
      ∀ coinId, coinId ∈ feed.coinIds ↔ ∃ asset, feed.priceIds.lookup asset = some coinId := by
  refine ⟨Finset.sort_nodup _ _, Finset.pairwise_sort _ _, fun coinId => ?_⟩
  unfold coinIds
  rw [Finset.mem_sort, List.mem_toFinset, HashMap.mem_values]

end CoinGeckoFeed

/-! ## The coins of the settings -/

/-- A table that is filled by asset id holds the value of the last entry with the id. -/
theorem lookup_foldlM_insert {A V : Type} {id : A → String} {val : A → V} {as : List A}
    {m m' : HashMap AssetId V}
    (h : as.foldlM (fun m a => do return m.insert (← AssetId.new (id a)) (val a)) m = .ok m')
    (asset : AssetId) :
    m'.lookup asset
      = ((as.reverse.find? fun a => id a = asset.asStr).map val).or (m.lookup asset) := by
  induction as generalizing m with
  | nil =>
    obtain rfl : m = m' := Except.ok.inj h
    simp
  | cons a rest ih =>
    rw [List.foldlM_cons] at h
    obtain ⟨m₁, hround, hrest⟩ := bind_eq_ok.mp h
    obtain ⟨key, hkey, hround⟩ := bind_eq_ok.mp hround
    obtain rfl : m.insert key (val a) = m₁ := Except.ok.inj hround
    have hstr : key.asStr = id a := AssetId.asStr_of_new hkey
    rw [ih hrest, List.reverse_cons, List.find?_append]
    by_cases heq : key = asset
    · subst heq
      rw [AList.lookup_insert]
      cases rest.reverse.find? fun a => id a = key.asStr <;> simp [hstr]
    · have hne : ¬ id a = asset.asStr := by
        rw [← hstr]
        intro hs
        cases key
        cases asset
        exact heq (AssetId.mk.injEq .. ▸ hs)
      rw [AList.lookup_insert_ne fun h => heq h.symm]
      cases rest.reverse.find? fun a => id a = asset.asStr <;> simp [hne]

/-- **The coin of an asset** is the one of its last entry in the settings. -/
theorem lookup_groupPriceIds {assets : List AssetSettings} {priceIds : HashMap AssetId String}
    (h : groupPriceIds assets = .ok priceIds) (asset : AssetId) :
    priceIds.lookup asset
      = (assets.reverse.find? fun a => a.id = asset.asStr).map AssetSettings.priceId := by
  rw [lookup_foldlM_insert h, AList.lookup_empty, Option.or_none]

/-- The feeds are built over an empty store. -/
theorem store_of_buildValuation {toUppercase : String → String} {settings : Settings}
    {feeds : Feeds} (h : buildValuation toUppercase settings = .ok feeds) :
    feeds.store
      = PriceStore.new (StdDuration.fromSecs (settings.priceStalenessSecs.getD 120)) := by
  unfold buildValuation at h
  obtain ⟨priceIds, -, h⟩ := bind_eq_ok.mp h
  obtain ⟨symbols, -, h⟩ := bind_eq_ok.mp h
  rw [← Except.ok.inj h]

/-- The poller is built with the coins of the settings. -/
theorem priceIds_of_buildValuation {toUppercase : String → String} {settings : Settings}
    {feeds : Feeds} (h : buildValuation toUppercase settings = .ok feeds) (asset : AssetId) :
    feeds.coingecko.priceIds.lookup asset
      = (settings.assets.reverse.find? fun a => a.id = asset.asStr).map AssetSettings.priceId := by
  unfold buildValuation at h
  obtain ⟨priceIds, hpriceIds, h⟩ := bind_eq_ok.mp h
  obtain ⟨symbols, -, h⟩ := bind_eq_ok.mp h
  rw [← Except.ok.inj h]
  exact lookup_groupPriceIds hpriceIds asset

/-- **The request of the settings** asks for the prices of the coins in dollars, with the key. -/
theorem request_of_buildValuation {toUppercase : String → String} {settings : Settings}
    {feeds : Feeds} (h : buildValuation toUppercase settings = .ok feeds) :
    feeds.coingecko.request.url = settings.fiatProviderUrl ++ "/simple/price?ids="
        ++ ",".intercalate feeds.coingecko.coinIds ++ "&vs_currencies=usd" ∧
      feeds.coingecko.request.apiKey = settings.coingeckoApiKey := by
  unfold buildValuation at h
  obtain ⟨priceIds, -, h⟩ := bind_eq_ok.mp h
  obtain ⟨symbols, -, h⟩ := bind_eq_ok.mp h
  rw [← Except.ok.inj h]
  exact ⟨rfl, rfl⟩

end ArbRouter

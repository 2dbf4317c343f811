import ArbRouter.Adapters.CoinGecko
import ArbRouter.Properties.Feeds

/-!
# What a poll leaves in the store

* `Polled` — what a refresh is to do with the quotes of a body
* `refresh_meets` — a refresh does that, in whatever order it visits the assets
-/

namespace ArbRouter

open Infra

/-! ## The last write of a history -/

theorem of_lastWrite {feed : Feed} {asset : AssetId} {writes : List PriceWrite} {write : PriceWrite}
    (h : lastWrite feed asset writes = some write) :
    write ∈ writes ∧ write.feed = feed ∧ write.asset = asset := by
  obtain ⟨hwrite, hmatch⟩ := List.mem_filter.mp (List.mem_of_getLast? h)
  exact ⟨hwrite, by simpa using hmatch⟩

theorem exists_lastWrite {write : PriceWrite} {writes : List PriceWrite} (h : write ∈ writes) :
    ∃ last, lastWrite write.feed write.asset writes = some last := by
  unfold lastWrite
  rw [← Option.isSome_iff_exists, List.getLast?_isSome]
  exact List.ne_nil_of_mem (List.mem_filter.mpr ⟨h, by simp⟩)

/-! ## One poll -/

/-- The settings list the asset, last under this coin. -/
def CoinOf (assets : List AssetSettings) (asset : AssetId) (coinId : String) : Prop :=
  ∃ a, (assets.reverse.find? fun a => a.id = asset.asStr) = some a ∧ a.priceId = coinId

/-- The assets whose coin is quoted have that price, and nothing else has changed. -/
structure Polled (assets : List AssetSettings) (quote : String → Option Decimal)
    (clock : Nat → OffsetDateTime) (store store' : PriceStore) : Prop where
  quoted : ∀ asset coinId price, CoinOf assets asset coinId → quote coinId = some price →
    ∃ i, store'.coingecko.lookup asset = some ⟨⟨price⟩, clock i⟩
  others : ∀ asset, (∀ coinId, CoinOf assets asset coinId → quote coinId = none) →
    store'.coingecko.lookup asset = store.coingecko.lookup asset
  binance : store'.binance = store.binance
  maxStaleness : store'.maxStaleness = store.maxStaleness

variable {F : Type} {toUppercase : String → String} {settings : Settings} {feeds : Feeds}

theorem lookup_priceIds_iff (hbuild : buildValuation toUppercase settings = .ok feeds)
    (asset : AssetId) (coinId : String) :
    feeds.coingecko.priceIds.lookup asset = some coinId ↔ CoinOf settings.assets asset coinId := by
  rw [priceIds_of_buildValuation hbuild, Option.map_eq_some_iff]
  exact Iff.rfl

/-- Writes of one feed leave the other one alone. -/
theorem binance_foldl_of_coingecko {writes : List PriceWrite}
    (h : ∀ write ∈ writes, write.feed = .coingecko) (store : PriceStore) :
    (writes.foldl PriceWrite.effect store).binance = store.binance := by
  induction writes generalizing store with
  | nil => rfl
  | cons write rest ih =>
    rw [List.foldl_cons, ih fun w hw => h w (List.mem_cons_of_mem _ hw)]
    unfold PriceWrite.effect
    rw [h write List.mem_cons_self]
    rfl

/-- The writes of a body do what a refresh is to do. -/
theorem polled_writes (hbuild : buildValuation toUppercase settings = .ok feeds)
    (toDecimal : F → Option Decimal) (body : CoinGeckoBody F) (order : CoinGeckoFeed.Visits)
    (clock : Nat → OffsetDateTime) (store : PriceStore) :
    Polled settings.assets (body.usd toDecimal) clock store
      ((feeds.coingecko.writes toDecimal body order clock).foldl PriceWrite.effect store) := by
  have hlook : ∀ asset, ((feeds.coingecko.writes toDecimal body order clock).foldl
      PriceWrite.effect store).coingecko.lookup asset
        = ((lastWrite .coingecko asset (feeds.coingecko.writes toDecimal body order clock)).map
            fun write => ⟨write.usd, write.now⟩).or (store.coingecko.lookup asset) :=
    fun asset => store.lookup_source_foldl _ .coingecko asset
  refine ⟨?_, ?_, ?_, store.maxStaleness_foldl _⟩
  · intro asset coinId price hcoin hprice
    have hlisted := (lookup_priceIds_iff hbuild asset coinId).mpr hcoin
    obtain ⟨write, hwrite, rfl⟩ : ∃ write ∈ feeds.coingecko.writes toDecimal body order clock,
        write.asset = asset := CoinGeckoFeed.exists_mem_writes hlisted hprice
    obtain ⟨last, hlast⟩ := exists_lastWrite hwrite
    rw [(CoinGeckoFeed.of_mem_writes hwrite).1] at hlast
    obtain ⟨hmem, -, hasset⟩ := of_lastWrite hlast
    -- whichever write was last, it is of the price of this coin
    obtain ⟨-, ⟨i, hi⟩, coinId', hcoin', hprice'⟩ := CoinGeckoFeed.of_mem_writes hmem
    rw [hasset, hlisted] at hcoin'
    obtain rfl := Option.some.inj hcoin'
    obtain rfl := Option.some.inj (hprice.symm.trans hprice')
    refine ⟨i, ?_⟩
    rw [hlook, hlast, ← hi]
    rfl
  · intro asset hnone
    rw [hlook]
    cases hlast : lastWrite .coingecko asset
      (feeds.coingecko.writes toDecimal body order clock) with
    | none => rfl
    | some last =>
      obtain ⟨hmem, -, rfl⟩ := of_lastWrite hlast
      obtain ⟨-, -, coinId, hcoin, hprice⟩ := CoinGeckoFeed.of_mem_writes hmem
      rw [hnone coinId ((lookup_priceIds_iff hbuild _ _).mp hcoin)] at hprice
      cases hprice
  · exact binance_foldl_of_coingecko (fun write hw => (CoinGeckoFeed.of_mem_writes hw).1) store

/-- Assets are tracked exactly when the settings list some. -/
theorem entries_priceIds_eq_nil_iff (hbuild : buildValuation toUppercase settings = .ok feeds) :
    feeds.coingecko.priceIds.entries = [] ↔
      ∀ asset coinId, ¬ CoinOf settings.assets asset coinId := by
  simp only [← lookup_priceIds_iff hbuild]
  constructor
  · intro hnil asset coinId hlook
    have hmem := AList.mem_lookup_iff.mp (Option.mem_def.mpr hlook)
    rw [hnil] at hmem
    exact absurd hmem List.not_mem_nil
  · intro hnone
    refine List.eq_nil_iff_forall_not_mem.mpr ?_
    rintro ⟨asset, coinId⟩ hmem
    exact hnone asset coinId (AList.mem_lookup_iff.mpr hmem)

/--
**A poll stores exactly what it was sent.** With the coins of the settings, a refresh makes one
request, whose address names every coin of an asset once and in order, with commas between them, and
which carries the key of the settings; without a coin it makes none. If it fails the store stays as
it is; otherwise each asset whose coin is quoted in dollars gets that quote, and no other price of
either feed changes, whatever the order in which the assets are visited.
-/
theorem refresh_meets (toUppercase : String → String) (settings : Settings) (feeds : Feeds)
    (hbuild : buildValuation toUppercase settings = .ok feeds) (toDecimal : F → Option Decimal)
    (fetch : CoinGeckoRequest → Except String (CoinGeckoBody F)) (order : CoinGeckoFeed.Visits)
    (clock : Nat → OffsetDateTime) (store : PriceStore) :
    (feeds.coingecko.coinIds.Nodup ∧ feeds.coingecko.coinIds.Pairwise (· ≤ ·) ∧
      ∀ coinId, coinId ∈ feeds.coingecko.coinIds ↔ ∃ asset, CoinOf settings.assets asset coinId) ∧
    (feeds.coingecko.request.url = settings.fiatProviderUrl ++ "/simple/price?ids="
        ++ ",".intercalate feeds.coingecko.coinIds ++ "&vs_currencies=usd" ∧
      feeds.coingecko.request.apiKey = settings.coingeckoApiKey) ∧
    (∀ err, fetch feeds.coingecko.request = .error err →
      (∃ asset coinId, CoinOf settings.assets asset coinId) →
      feeds.coingecko.refresh toDecimal fetch order clock store = .error err) ∧
    (∀ body, fetch feeds.coingecko.request = .ok body → ∃ store',
      feeds.coingecko.refresh toDecimal fetch order clock store = .ok store' ∧
      Polled settings.assets (body.usd toDecimal) clock store store') ∧
    ((∀ asset coinId, ¬ CoinOf settings.assets asset coinId) →
      feeds.coingecko.refresh toDecimal fetch order clock store = .ok store) := by
  refine ⟨?_, request_of_buildValuation hbuild, ?_, ?_, ?_⟩
  · obtain ⟨hnodup, hsorted, hmem⟩ := feeds.coingecko.coinIds_spec
    refine ⟨hnodup, hsorted, fun coinId => (hmem coinId).trans ?_⟩
    exact exists_congr fun asset => lookup_priceIds_iff hbuild asset coinId
  · rintro err herr ⟨asset, coinId, hcoin⟩
    rw [CoinGeckoFeed.refresh_eq, if_neg, herr]
    · rfl
    · exact fun hnil => (entries_priceIds_eq_nil_iff hbuild).mp hnil asset coinId hcoin
  · intro body hbody
    rw [CoinGeckoFeed.refresh_eq, hbody]
    by_cases hnil : feeds.coingecko.priceIds.entries = []
    · rw [if_pos hnil]
      refine ⟨store, rfl, ?_, fun _ _ => rfl, rfl, rfl⟩
      intro asset coinId price hcoin
      exact absurd hcoin ((entries_priceIds_eq_nil_iff hbuild).mp hnil asset coinId)
    · rw [if_neg hnil]
      exact ⟨_, rfl, polled_writes hbuild toDecimal body order clock store⟩
  · intro hnone
    rw [CoinGeckoFeed.refresh_eq, if_pos ((entries_priceIds_eq_nil_iff hbuild).mpr hnone)]

/-- A body that quotes WETH at one dollar. -/
def wethBody : CoinGeckoBody Decimal := AList.singleton "weth" (AList.singleton "usd" Decimal.one)

/-- It is stored, and the request for it names WETH. -/
theorem refresh_wethBody :
    wethFeeds.coingecko.request.url = "/simple/price?ids=weth&vs_currencies=usd" ∧
    ∃ store', wethFeeds.coingecko.refresh some
      (fun _ => .ok wethBody) (IterOrder.stored _) (fun _ => 0) wethFeeds.store = .ok store' ∧
    Polled wethSettings.assets (wethBody.usd some) (fun _ => 0) wethFeeds.store store' := by
  obtain ⟨-, ⟨hurl, -⟩, -, hstored, -⟩ := refresh_meets id wethSettings wethFeeds
    buildValuation_wethSettings some (fun _ => .ok wethBody) (IterOrder.stored _) (fun _ => 0)
    wethFeeds.store
  refine ⟨hurl.trans ?_, hstored wethBody rfl⟩
  have hcoins : wethFeeds.coingecko.coinIds = ["weth"] := Finset.sort_singleton _ "weth"
  rw [hcoins]
  rfl

end ArbRouter

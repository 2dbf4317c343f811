import ArbRouter.Adapters.Valuation

/-!
# The Binance feed

`adapters/valuation/binance.rs` with the table of symbols that `setup.rs` builds for it.

Decoding a message from JSON and `str::to_uppercase` are not part of the verified sources; they are
arbitrary functions here.

* `mem_groupSymbols` — the assets that a symbol prices
* `BinanceFeed.ingest` — one text message; the sum of bid and ask is the panicking operator
* `BinanceFeed.stream` — the messages of a connection, one after the other
-/

namespace ArbRouter

open Infra RustDecimal

/-! ## Settings -/

/-- How one asset is priced. -/
structure AssetSettings where
  id : String
  priceId : String
  binanceSymbol : Option String

/-- What the feeds are built from. -/
structure Settings where
  fiatProviderUrl : String
  coingeckoApiKey : Option String
  binanceWsUrl : Option String
  priceRefreshSecs : Option UInt64
  priceStalenessSecs : Option UInt64
  assets : List AssetSettings

structure CoinGeckoFeed where
  baseUrl : String
  priceIds : HashMap AssetId String
  interval : StdDuration
  apiKey : Option String

/-- A symbol prices every asset listed under it. -/
structure BinanceFeed where
  wsBase : String
  symbols : HashMap String (List AssetId)

/-- The feeds that are started, and the store they write. -/
structure Feeds where
  store : PriceStore
  coingecko : CoinGeckoFeed
  binance : BinanceFeed

/-- The first loop of `build_valuation`. -/
def groupPriceIds (assets : List AssetSettings) : Except AssetIdError (HashMap AssetId String) :=
  assets.foldlM (fun ids asset => do return ids.insert (← AssetId.new asset.id) asset.priceId) ∅

/-- A round of the second loop: an asset that names a symbol is listed under it. -/
def pushSymbol (toUppercase : String → String) (symbols : HashMap String (List AssetId))
    (asset : AssetSettings) : Except AssetIdError (HashMap String (List AssetId)) :=
  match asset.binanceSymbol with
  | some symbol => do return symbols.push (toUppercase symbol) (← AssetId.new asset.id)
  | none => .ok symbols

/-- The second loop of `build_valuation`. -/
def groupSymbols (toUppercase : String → String) (assets : List AssetSettings) :
    Except AssetIdError (HashMap String (List AssetId)) :=
  assets.foldlM (pushSymbol toUppercase) ∅

/-- `build_valuation`. -/
def buildValuation (toUppercase : String → String) (settings : Settings) :
    Except AssetIdError Feeds := do
  let staleness := StdDuration.fromSecs (settings.priceStalenessSecs.getD 120)
  let priceIds ← groupPriceIds settings.assets
  let refresh := StdDuration.fromSecs (settings.priceRefreshSecs.getD 30)
  let symbols ← groupSymbols toUppercase settings.assets
  return {
    store := PriceStore.new staleness
    coingecko := ⟨settings.fiatProviderUrl, priceIds, refresh, settings.coingeckoApiKey⟩
    binance := ⟨settings.binanceWsUrl.getD "wss://stream.binance.com:9443", symbols⟩ }

/-! ## The table of symbols -/

/-- Some asset of the settings has this id, and names this symbol up to case. -/
def Tracked (toUppercase : String → String) (assets : List AssetSettings) (symbol : String)
    (asset : AssetId) : Prop :=
  ∃ a ∈ assets, a.id = asset.asStr ∧ a.binanceSymbol.map toUppercase = some symbol

theorem AssetId.asStr_of_new {s : String} {asset : AssetId} (h : AssetId.new s = .ok asset) :
    asset.asStr = s := by
  unfold AssetId.new at h
  split at h
  · rw [← Except.ok.inj h]
  · cases h

/-- One round lists one more asset, under the symbol it names. -/
theorem mem_pushSymbol {toUppercase : String → String}
    {symbols symbols' : HashMap String (List AssetId)}
    {a : AssetSettings} (h : pushSymbol toUppercase symbols a = .ok symbols') (symbol : String)
    (asset : AssetId) :
    asset ∈ (symbols'.lookup symbol).getD [] ↔ asset ∈ (symbols.lookup symbol).getD [] ∨
      a.id = asset.asStr ∧ a.binanceSymbol.map toUppercase = some symbol := by
  unfold pushSymbol at h
  cases hs : a.binanceSymbol with
  | none =>
    rw [hs] at h
    rw [← Except.ok.inj h]
    simp
  | some named =>
    rw [hs] at h
    obtain ⟨id, hid, h⟩ := bind_eq_ok.mp h
    rw [← Except.ok.inj h, HashMap.getD_lookup_push, List.mem_append]
    have hstr := AssetId.asStr_of_new hid
    refine or_congr_right ?_
    rw [Option.map_some, Option.some.injEq]
    by_cases hsym : symbol = toUppercase named
    · rw [if_pos hsym, List.mem_singleton]
      constructor
      · rintro rfl
        exact ⟨hstr.symm, hsym.symm⟩
      · rintro ⟨heq, -⟩
        cases asset
        cases id
        simp_all
    · rw [if_neg hsym]
      constructor
      · exact fun hmem => absurd hmem List.not_mem_nil
      · exact fun hmem => absurd hmem.2.symm hsym

/-- No symbol is listed without assets. -/
theorem ne_nil_pushSymbol {toUppercase : String → String}
    {symbols symbols' : HashMap String (List AssetId)} {a : AssetSettings}
    (h : pushSymbol toUppercase symbols a = .ok symbols')
    (hne : ∀ symbol assets, symbols.lookup symbol = some assets → assets ≠ []) :
    ∀ symbol assets, symbols'.lookup symbol = some assets → assets ≠ [] := by
  intro symbol assets hlook
  unfold pushSymbol at h
  cases hs : a.binanceSymbol with
  | none =>
    rw [hs] at h
    rw [← Except.ok.inj h] at hlook
    exact hne symbol assets hlook
  | some named =>
    rw [hs] at h
    obtain ⟨id, -, h⟩ := bind_eq_ok.mp h
    rw [← Except.ok.inj h] at hlook
    unfold HashMap.push at hlook
    by_cases hsym : symbol = toUppercase named
    · subst hsym
      rw [AList.lookup_insert] at hlook
      rw [← Option.some.inj hlook]
      simp
    · rw [AList.lookup_insert_ne hsym] at hlook
      exact hne symbol assets hlook

/--
**The assets listed under a symbol** are those that name it; a symbol nobody names is missing.
-/
theorem mem_groupSymbols {toUppercase : String → String} {assets : List AssetSettings}
    {symbols : HashMap String (List AssetId)} (h : groupSymbols toUppercase assets = .ok symbols) :
    (∀ symbol asset, asset ∈ (symbols.lookup symbol).getD [] ↔
      Tracked toUppercase assets symbol asset) ∧
    ∀ symbol listed, symbols.lookup symbol = some listed → listed ≠ [] := by
  have hloop : ∀ (assets : List AssetSettings) (m : HashMap String (List AssetId)),
      assets.foldlM (pushSymbol toUppercase) m = .ok symbols →
      (∀ symbol listed, m.lookup symbol = some listed → listed ≠ []) →
      (∀ symbol asset, asset ∈ (symbols.lookup symbol).getD [] ↔
        asset ∈ (m.lookup symbol).getD [] ∨ Tracked toUppercase assets symbol asset) ∧
      ∀ symbol listed, symbols.lookup symbol = some listed → listed ≠ [] := by
    intro assets
    induction assets with
    | nil =>
      intro m hm hne
      obtain rfl : m = symbols := Except.ok.inj hm
      exact ⟨fun symbol asset => by simp [Tracked], hne⟩
    | cons a rest ih =>
      intro m hm hne
      rw [List.foldlM_cons] at hm
      obtain ⟨m₁, hround, hrest⟩ := bind_eq_ok.mp hm
      obtain ⟨hmem, hne'⟩ := ih m₁ hrest (ne_nil_pushSymbol hround hne)
      refine ⟨fun symbol asset => ?_, hne'⟩
      rw [hmem, mem_pushSymbol hround, or_assoc]
      simp [Tracked]
  obtain ⟨hmem, hne⟩ := hloop assets ∅ h (by simp)
  exact ⟨fun symbol asset => by simpa using hmem symbol asset, hne⟩

/-- The Binance feed is built with such a table. -/
theorem symbols_of_buildValuation {toUppercase : String → String} {settings : Settings}
    {feeds : Feeds} (h : buildValuation toUppercase settings = .ok feeds) :
    (∀ symbol asset, asset ∈ (feeds.binance.symbols.lookup symbol).getD [] ↔
      Tracked toUppercase settings.assets symbol asset) ∧
    ∀ symbol listed, feeds.binance.symbols.lookup symbol = some listed → listed ≠ [] := by
  unfold buildValuation at h
  obtain ⟨priceIds, -, h⟩ := bind_eq_ok.mp h
  obtain ⟨symbols, hsymbols, h⟩ := bind_eq_ok.mp h
  rw [← Except.ok.inj h]
  exact mem_groupSymbols hsymbols

/-! ## Messages -/

/-- The best bid and ask of a symbol, as they are sent. -/
structure BookTicker where
  symbol : String
  bid : String
  ask : String
deriving DecidableEq

variable [RustDecimal]

/-- `Decimal::from(2)`. -/
def two : Decimal := Decimal.ofUInt64 2

/-- `mid_price`: the sum is the panicking operator. -/
def midPrice (ticker : BookTicker) : Except Panic (Option Decimal) :=
  match fromStr ticker.bid, fromStr ticker.ask with
  | some bid, some ask => do
    let sum ← add bid ask
    return some (← div sum two)
  | _, _ => .ok none

/--
`BinanceFeed::ingest`; `decode` is the JSON decoder, and `clock i` the time at which the price of
the `i`-th asset of the symbol is written.
-/
def BinanceFeed.ingest (feed : BinanceFeed) (decode : String → Option BookTicker) (text : String)
    (clock : Nat → OffsetDateTime) (store : PriceStore) : Except Panic PriceStore :=
  match decode text with
  | none => .ok store
  | some ticker =>
    match feed.symbols.lookup ticker.symbol with
    | none => .ok store
    | some assets => do
      match ← midPrice ticker with
      | none => return store
      | some mid =>
        return assets.zipIdx.foldl (fun store (asset, i) =>
          store.setBinance asset ⟨mid⟩ (clock i)) store

/-- The writes of `ingest`, one for each asset of the symbol. -/
def BinanceFeed.pending (feed : BinanceFeed) (decode : String → Option BookTicker) (text : String)
    (clock : Nat → OffsetDateTime) : Except Panic (List PriceWrite) :=
  match decode text with
  | none => .ok []
  | some ticker =>
    match feed.symbols.lookup ticker.symbol with
    | none => .ok []
    | some assets => do
      match ← midPrice ticker with
      | none => return []
      | some mid => return assets.zipIdx.map fun (asset, i) => ⟨.binance, asset, ⟨mid⟩, clock i⟩

/-- A message that does not panic is the history of its writes. -/
theorem BinanceFeed.ingest_eq (feed : BinanceFeed) (decode : String → Option BookTicker)
    (text : String) (clock : Nat → OffsetDateTime) (store : PriceStore) :
    feed.ingest decode text clock store = (feed.pending decode text clock).map fun writes =>
      writes.foldl PriceWrite.effect store := by
  unfold ingest pending
  cases decode text with
  | none => rfl
  | some ticker =>
    dsimp only
    cases feed.symbols.lookup ticker.symbol with
    | none => rfl
    | some assets =>
      dsimp only
      cases midPrice ticker with
      | error panic => rfl
      | ok mid =>
        cases mid with
        | none => rfl
        | some mid =>
          refine congrArg Except.ok ?_
          dsimp only
          rw [List.foldl_map]
          rfl

/-- Each of them is the mid price of the ticker, for an asset of its symbol. -/
theorem BinanceFeed.of_mem_pending {feed : BinanceFeed} {decode : String → Option BookTicker}
    {text : String} {clock : Nat → OffsetDateTime} {writes : List PriceWrite}
    (h : feed.pending decode text clock = .ok writes) {write : PriceWrite} (hw : write ∈ writes) :
    write.feed = .binance ∧ (∃ i, write.now = clock i) ∧ ∃ ticker, decode text = some ticker ∧
      write.asset ∈ (feed.symbols.lookup ticker.symbol).getD [] ∧
      midPrice ticker = .ok (some write.usd.val) := by
  unfold pending at h
  cases hdecode : decode text with
  | none =>
    rw [hdecode] at h
    obtain rfl : [] = writes := Except.ok.inj h
    exact absurd hw List.not_mem_nil
  | some ticker =>
    rw [hdecode] at h
    dsimp only at h
    cases hlook : feed.symbols.lookup ticker.symbol with
    | none =>
      rw [hlook] at h
      obtain rfl : [] = writes := Except.ok.inj h
      exact absurd hw List.not_mem_nil
    | some assets =>
      rw [hlook] at h
      obtain ⟨mid, hmid, h⟩ := bind_eq_ok.mp h
      cases mid with
      | none =>
        obtain rfl : [] = writes := Except.ok.inj h
        exact absurd hw List.not_mem_nil
      | some mid =>
        obtain rfl := Except.ok.inj h
        obtain ⟨⟨asset, i⟩, hmem, rfl⟩ := List.mem_map.mp hw
        refine ⟨rfl, ⟨i, rfl⟩, ticker, rfl, ?_, hmid⟩
        rw [hlook]
        exact List.fst_mem_of_mem_zipIdx hmem

/-- The loop of `BinanceFeed::stream` over the text messages of a connection. -/
def BinanceFeed.stream (feed : BinanceFeed) (decode : String → Option BookTicker)
    (messages : List (String × (Nat → OffsetDateTime))) (store : PriceStore) :
    Except Panic PriceStore :=
  messages.foldlM (fun store (text, clock) => feed.ingest decode text clock store) store

end ArbRouter

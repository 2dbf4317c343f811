import ArbRouter.Properties.Service

/-!
# Where prices come from

In every run of a deployment, each price in the store is the mid price of a ticker that was received
or the quote of a body that was polled, for an asset that the settings list under that symbol or
coin.

* `Sourced` — the message behind a write
* `PriceInv` — what holds of the store and of the writes to come, with `PriceInv.step`
* `price_sourced` — what a price read finds
-/

namespace ArbRouter

open Infra RustDecimal

section

variable {W P F : Type} [Pool P] [RustDecimal]

/-- The price was sent for the asset, in a message of the feed that the run received. -/
def Sourced (feeds : Feeds) (codec : Codec F) (evs : List (ServiceEvent W P F))
    (write : PriceWrite) : Prop :=
  match write.feed with
  | .binance => ∃ text ticker, .received text ∈ evs ∧ codec.ticker text = some ticker ∧
      write.asset ∈ (feeds.binance.symbols.lookup ticker.symbol).getD [] ∧
      midPrice ticker = .ok (some write.usd.val)
  | .coingecko => ∃ body coinId, .polled body ∈ evs ∧
      feeds.coingecko.priceIds.lookup write.asset = some coinId ∧
      body.usd codec.toDecimal coinId = some write.usd.val

omit [Pool P] in
/-- A message that was received stays in the run. -/
theorem Sourced.snoc {feeds : Feeds} {codec : Codec F} {evs : List (ServiceEvent W P F)}
    {write : PriceWrite} (h : Sourced feeds codec evs write) (ev : ServiceEvent W P F) :
    Sourced feeds codec (evs ++ [ev]) write := by
  unfold Sourced at h ⊢
  cases hfeed : write.feed with
  | binance =>
    rw [hfeed] at h
    obtain ⟨text, ticker, hmem, hrest⟩ := h
    exact ⟨text, ticker, List.mem_append_left _ hmem, hrest⟩
  | coingecko =>
    rw [hfeed] at h
    obtain ⟨body, coinId, hmem, hrest⟩ := h
    exact ⟨body, coinId, List.mem_append_left _ hmem, hrest⟩

variable [DecidableEq W] {d : Deployment W P} {codec : Codec F} {s s' : ServiceState W P}
  {evs : List (ServiceEvent W P F)} {ev : ServiceEvent W P F}

/-! ## One step -/

/-- **What a step does to the prices:** nothing, or the next write of a feed takes effect. -/
theorem ServiceStep.prices_cases (h : ServiceStep d codec s ev s') :
    s'.prices = s.prices ∨ ∃ write rest, ev = .wrote write ∧
      s.feed write.feed = .writing (write :: rest) ∧ s'.prices = write.effect s.prices := by
  cases h with
  | @wrote write rest hp => exact Or.inr ⟨write, rest, rfl, hp, rfl⟩
  | _ => exact Or.inl rfl

/-- **What a step gives a feed to write:** nothing new, or a message that was just received. -/
theorem ServiceStep.feed_cases (h : ServiceStep d codec s ev s')
    (evs : List (ServiceEvent W P F)) {feed : Feed} {pending : List PriceWrite}
    (hp : s'.feed feed = .writing pending) :
    (∃ old, s.feed feed = .writing old ∧ ∀ write ∈ pending, write ∈ old) ∨
    ∀ write ∈ pending, write.feed = feed ∧ Sourced d.feeds codec (evs ++ [ev]) write := by
  cases h with
  | @received text clock writes hidle hpending =>
    by_cases hf : feed = .binance
    · subst hf
      right
      intro write hwrite
      obtain rfl := FeedPhase.writing.inj ((s.setFeed_feed_self _ _).symm.trans hp)
      obtain ⟨hfeed, -, ticker, hticker, hasset, hmid⟩ := BinanceFeed.of_mem_pending hpending hwrite
      refine ⟨hfeed, ?_⟩
      unfold Sourced
      rw [hfeed]
      exact ⟨text, ticker, by simp, hticker, hasset, hmid⟩
    · exact Or.inl ⟨pending, (s.setFeed_feed_of_ne hf _).symm.trans hp, fun _ hw => hw⟩
  | @polled body order clock hidle =>
    by_cases hf : feed = .coingecko
    · subst hf
      right
      intro write hwrite
      obtain rfl := FeedPhase.writing.inj ((s.setFeed_feed_self _ _).symm.trans hp)
      obtain ⟨hfeed, -, coinId, hcoin, hprice⟩ := CoinGeckoFeed.of_mem_writes hwrite
      refine ⟨hfeed, ?_⟩
      unfold Sourced
      rw [hfeed]
      exact ⟨body, coinId, by simp, hcoin, hprice⟩
    · exact Or.inl ⟨pending, (s.setFeed_feed_of_ne hf _).symm.trans hp, fun _ hw => hw⟩
  | @feedPanicked text clock panic hidle hpending =>
    by_cases hf : feed = .binance
    · subst hf
      cases (s.setFeed_feed_self _ _).symm.trans hp
    · exact Or.inl ⟨pending, (s.setFeed_feed_of_ne hf _).symm.trans hp, fun _ hw => hw⟩
  | @wrote write rest hold =>
    have hset : (s.setFeed write.feed (.writing rest)).feed feed = .writing pending := hp
    by_cases hf : feed = write.feed
    · subst hf
      obtain rfl := FeedPhase.writing.inj ((s.setFeed_feed_self _ _).symm.trans hset)
      exact Or.inl ⟨_, hold, fun w hw => List.mem_cons_of_mem _ hw⟩
    · exact Or.inl ⟨pending, (s.setFeed_feed_of_ne hf _).symm.trans hset, fun _ hw => hw⟩
  | _ => exact Or.inl ⟨pending, hp, fun _ hw => hw⟩

/-! ## Every run -/

/-- What holds of the prices after the events `evs`. -/
structure PriceInv (d : Deployment W P) (codec : Codec F) (evs : List (ServiceEvent W P F))
    (s : ServiceState W P) : Prop where
  pending : ∀ feed pending, s.feed feed = .writing pending → ∀ write ∈ pending,
    write.feed = feed ∧ Sourced d.feeds codec evs write
  stored : ∀ feed asset point, (s.prices.source feed).lookup asset = some point →
    .wrote ⟨feed, asset, point.usd, point.observedAt⟩ ∈ evs ∧
      Sourced d.feeds codec evs ⟨feed, asset, point.usd, point.observedAt⟩
  maxStaleness : s.prices.maxStaleness = d.feeds.store.maxStaleness

omit [DecidableEq W] in
theorem PriceInv.init {staleness : StdDuration} (hnew : d.feeds.store = PriceStore.new staleness) :
    PriceInv d codec ([] : List (ServiceEvent W P F)) (ServiceState.init d) where
  pending := by
    intro feed pending hp write hw
    obtain rfl := FeedPhase.writing.inj hp
    exact absurd hw List.not_mem_nil
  stored := by
    intro feed asset point hlook
    have hprices : (ServiceState.init d).prices = PriceStore.new staleness := hnew
    rw [hprices] at hlook
    cases feed <;> cases hlook
  maxStaleness := rfl

/-- **One step keeps the invariant.** -/
theorem PriceInv.step (h : PriceInv d codec evs s) (hs : ServiceStep d codec s ev s') :
    PriceInv d codec (evs ++ [ev]) s' where
  pending := by
    intro feed pending hp write hwrite
    rcases hs.feed_cases evs hp with ⟨old, hold, hsub⟩ | hnew
    · obtain ⟨hfeed, hsourced⟩ := h.pending feed old hold write (hsub write hwrite)
      exact ⟨hfeed, hsourced.snoc ev⟩
    · exact hnew write hwrite
  stored := by
    intro feed asset point hlook
    have hold : (s.prices.source feed).lookup asset = some point →
        .wrote ⟨feed, asset, point.usd, point.observedAt⟩ ∈ evs ++ [ev] ∧
          Sourced d.feeds codec (evs ++ [ev]) ⟨feed, asset, point.usd, point.observedAt⟩ := by
      intro hlook
      obtain ⟨hmem, hsourced⟩ := h.stored feed asset point hlook
      exact ⟨List.mem_append_left _ hmem, hsourced.snoc ev⟩
    rcases hs.prices_cases with heq | ⟨write, rest, rfl, hp, heq⟩
    · rw [heq] at hlook
      exact hold hlook
    · rw [heq, PriceWrite.lookup_source_effect] at hlook
      by_cases hw : write.feed = feed ∧ write.asset = asset
      · obtain ⟨rfl, rfl⟩ := hw
        rw [if_pos ⟨rfl, rfl⟩] at hlook
        obtain rfl := Option.some.inj hlook
        exact ⟨by simp, (h.pending _ _ hp write List.mem_cons_self).2.snoc _⟩
      · rw [if_neg hw] at hlook
        exact hold hlook
  maxStaleness := by
    rcases hs.prices_cases with heq | ⟨write, rest, -, -, heq⟩
    · rw [heq, h.maxStaleness]
    · rw [heq, PriceWrite.effect_maxStaleness, h.maxStaleness]

theorem PriceInv.run {staleness : StdDuration} (hnew : d.feeds.store = PriceStore.new staleness)
    (h : d.Runs codec evs s) : PriceInv d codec evs s :=
  h.invariant (PriceInv.init hnew) PriceInv.step

/-! ## What a read finds -/

/-- The name under which a feed is reported. -/
def Feed.name : Feed → String
  | .binance => "binance"
  | .coingecko => "coingecko"

/-- The settings list the asset under the symbol, or the coin, that this price was sent for. -/
def SentFor (toUppercase : String → String) (assets : List AssetSettings) (codec : Codec F)
    (evs : List (ServiceEvent W P F)) (asset : AssetId) (usd : Usd) : Feed → Prop
  | .binance => ∃ text ticker, .received text ∈ evs ∧ codec.ticker text = some ticker ∧
      Tracked toUppercase assets ticker.symbol asset ∧ midPrice ticker = .ok (some usd.val)
  | .coingecko => ∃ body a, .polled body ∈ evs ∧
      (assets.reverse.find? fun a => a.id = asset.asStr) = some a ∧
      body.usd codec.toDecimal a.priceId = some usd.val

omit [Pool P] [DecidableEq W] in
theorem Sourced.sentFor {toUppercase : String → String} {settings : Settings} {feeds : Feeds}
    (hbuild : buildValuation toUppercase settings = .ok feeds) {write : PriceWrite}
    (h : Sourced feeds codec evs write) :
    SentFor toUppercase settings.assets codec evs write.asset write.usd write.feed := by
  unfold Sourced at h
  cases hfeed : write.feed with
  | binance =>
    rw [hfeed] at h
    obtain ⟨text, ticker, hmem, hticker, hasset, hmid⟩ := h
    have htracked := ((symbols_of_buildValuation hbuild).1 ticker.symbol write.asset).mp hasset
    exact ⟨text, ticker, hmem, hticker, htracked, hmid⟩
  | coingecko =>
    rw [hfeed] at h
    obtain ⟨body, coinId, hmem, hcoin, hprice⟩ := h
    rw [priceIds_of_buildValuation hbuild, Option.map_eq_some_iff] at hcoin
    obtain ⟨a, ha, rfl⟩ := hcoin
    exact ⟨body, a, hmem, ha, hprice⟩

omit [DecidableEq W] in
/-- A fresh price of a feed was written by it, not too long ago. -/
theorem PriceInv.of_fresh (h : PriceInv d codec evs s) {feed : Feed} {asset : AssetId}
    {now : OffsetDateTime} {usd : Usd} (hfresh : s.prices.fresh feed asset now = some usd) :
    ∃ writtenAt, .wrote ⟨feed, asset, usd, writtenAt⟩ ∈ evs ∧
      now - writtenAt ≤ d.feeds.store.maxStaleness ∧
      Sourced d.feeds codec evs ⟨feed, asset, usd, writtenAt⟩ := by
  obtain ⟨point, hlook, hage, rfl⟩ := PriceStore.fresh_eq_some.mp hfresh
  obtain ⟨hmem, hsourced⟩ := h.stored feed asset point hlook
  rw [h.maxStaleness] at hage
  exact ⟨point.observedAt, hmem, hage, hsourced⟩

/--
**No price is made up.** In every state that a deployment reaches, a price that is read was written
in the run, within the staleness window, by the feed that is reported for it; and it is the mid
price of a ticker received for a symbol that the settings name for the asset, or the dollar quote,
in a body that was polled, of the coin that the settings name for it.
-/
theorem price_sourced (d : Deployment W P) (codec : Codec F) (toUppercase : String → String)
    (settings : Settings) (hbuild : buildValuation toUppercase settings = .ok d.feeds)
    (evs : List (ServiceEvent W P F)) (s : ServiceState W P) (hrun : d.Runs codec evs s)
    (asset : AssetId) (now : OffsetDateTime) :
    (s.prices.priceAndSource asset now).map Prod.fst = s.prices.price asset now ∧
    ∀ usd source, s.prices.priceAndSource asset now = some (usd, source) →
      ∃ feed writtenAt, source = Feed.name feed ∧
        .wrote ⟨feed, asset, usd, writtenAt⟩ ∈ evs ∧
        now - writtenAt ≤ (StdDuration.fromSecs (settings.priceStalenessSecs.getD 120)).toTime ∧
        SentFor toUppercase settings.assets codec evs asset usd feed := by
  have hstore := store_of_buildValuation hbuild
  have hinv : PriceInv d codec evs s := PriceInv.run hstore hrun
  refine ⟨s.prices.map_fst_priceAndSource asset now, fun usd source hread => ?_⟩
  have hfeed : ∃ feed, source = Feed.name feed ∧ s.prices.fresh feed asset now = some usd := by
    unfold PriceStore.priceAndSource at hread
    cases hb : s.prices.fresh .binance asset now with
    | some usd' =>
      rw [hb] at hread
      obtain ⟨rfl, rfl⟩ := Prod.mk.inj (Option.some.inj hread)
      exact ⟨.binance, rfl, hb⟩
    | none =>
      rw [hb] at hread
      obtain ⟨usd', hc, heq⟩ := Option.map_eq_some_iff.mp hread
      obtain ⟨rfl, rfl⟩ := Prod.mk.inj heq
      exact ⟨.coingecko, rfl, hc⟩
  obtain ⟨feed, rfl, hfresh⟩ := hfeed
  obtain ⟨writtenAt, hmem, hage, hsourced⟩ := hinv.of_fresh hfresh
  rw [hstore] at hage
  exact ⟨feed, writtenAt, rfl, hmem, hage, hsourced.sentFor hbuild⟩

end

section

attribute [local instance] RustDecimal.reference

/-- The price of WETH comes from the body that was polled. -/
theorem sourced_wethTick : ∃ (s : ServiceState Unit FakePool) (feed : Feed)
    (writtenAt : OffsetDateTime),
    s.prices.priceAndSource weth 0 = some (⟨Decimal.one⟩, Feed.name feed) ∧
    .wrote ⟨feed, weth, ⟨Decimal.one⟩, writtenAt⟩ ∈ wethTick ∧
    SentFor id wethSettings.assets decimalCodec wethTick weth ⟨Decimal.one⟩ feed := by
  obtain ⟨s, -, -, hrun, hprice, -⟩ := runs_wethTick
  obtain ⟨-, hsourced⟩ := price_sourced wethDeployment decimalCodec id wethSettings
    buildValuation_wethSettings wethTick s hrun weth 0
  obtain ⟨feed, writtenAt, hname, hwrote, -, hsent⟩ := hsourced _ _ hprice
  exact ⟨s, feed, writtenAt, hname ▸ hprice, hwrote, hsent⟩

end

end ArbRouter

import ArbRouter.Properties.Prices
import ArbRouter.Properties.Sources
import ArbRouter.Properties.Wired
import ArbRouter.System.Once

/-!
# What waiting for prices achieves

* `warmPrices_spec` — the loop takes at most 85 rounds, and gives up only past its deadline
* `Watches` — the reader sees prices only that were written, with a rule for each part of a round
* `once_warm` — when the chains are worked on, and what the feeds have written by then
-/

namespace ArbRouter

open Infra

/-! ## The loop -/

/-- The world in which the `k`-th round begins. -/
def worldAt (needs : Needs) (w : World) (k : Nat) : World := (fun w => (warmRound needs w).2)^[k] w

/-- The loop ends with the first round that is ready or past the deadline. -/
theorem warmPrices_eq (needs : Needs) (rounds : Rounds) (k : Nat) (w : World) :
    ∃ n, warmPrices needs rounds k w = warmRound needs (worldAt needs w n) ∧
      (∀ j < n, (warmRound needs (worldAt needs w j)).1 = false ∧
        rounds.instant (k + j) < rounds.deadline) ∧
      ((warmPrices needs rounds k w).1 = false → rounds.deadline ≤ rounds.instant (k + n)) := by
  induction k, w using warmPrices.induct needs rounds with
  | case1 k w w' hround =>
    have heq : warmPrices needs rounds k w = (true, w') := by
      rw [warmPrices, hround]
    refine ⟨0, heq.trans hround.symm, fun j hj => absurd hj (Nat.not_lt_zero j), fun h => ?_⟩
    rw [heq] at h
    cases h
  | case2 k w w' hround hlate =>
    have heq : warmPrices needs rounds k w = (false, w') := by
      rw [warmPrices, hround]
      exact if_pos hlate
    exact ⟨0, heq.trans hround.symm, fun j hj => absurd hj (Nat.not_lt_zero j), fun _ => hlate⟩
  | case3 k w w' hround hearly ih =>
    have heq : warmPrices needs rounds k w = warmPrices needs rounds (k + 1) w' := by
      rw [warmPrices, hround]
      exact if_neg hearly
    have hworld : ∀ j, worldAt needs w' j = worldAt needs w (j + 1) := by
      intro j
      unfold worldAt
      rw [Function.iterate_succ_apply, hround]
    obtain ⟨n, hn, hbefore, hgive⟩ := ih
    refine ⟨n + 1, ?_, ?_, ?_⟩
    · rw [heq, hn, hworld]
    · intro j hj
      cases j with
      | zero =>
        refine ⟨congrArg Prod.fst hround, ?_⟩
        rw [Nat.add_zero]
        omega
      | succ j =>
        obtain ⟨hround', hlt⟩ := hbefore j (Nat.lt_of_succ_lt_succ hj)
        rw [hworld] at hround'
        exact ⟨hround', by rwa [show k + (j + 1) = k + 1 + j by omega]⟩
    · rw [heq, show k + (n + 1) = k + 1 + n by omega]
      exact hgive

/-- After `k` rounds, `k` pauses have passed. -/
theorem Rounds.le_instant (rounds : Rounds) (k : Nat) :
    rounds.start + 300_000_000 * k ≤ rounds.instant k := by
  induction k with
  | zero => exact rounds.start_le
  | succ k ih =>
    rw [Nat.mul_succ, ← Nat.add_assoc]
    exact (Nat.add_le_add_right ih _).trans (rounds.sleeps k)

/--
**The loop ends.** Whatever the feeds write, it takes at most 85 rounds: it returns from the first
one in which everything has a price, and gives up only in a round that ends 25 s after the start or
later.
-/
theorem warmPrices_spec (needs : Needs) (rounds : Rounds) (w : World) :
    ∃ k < 85, warmPrices needs rounds 0 w = warmRound needs (worldAt needs w k) ∧
      (∀ j < k, (warmRound needs (worldAt needs w j)).1 = false) ∧
      ((warmPrices needs rounds 0 w).1 = false → rounds.deadline ≤ rounds.instant k) := by
  obtain ⟨k, heq, hbefore, hgive⟩ := warmPrices_eq needs rounds 0 w
  rw [Nat.zero_add] at hgive
  refine ⟨k, ?_, heq, fun j hj => (hbefore j hj).1, hgive⟩
  rcases Nat.eq_zero_or_pos k with rfl | hpos
  · omega
  · -- the round before the last one was not past the deadline
    have hearly := (hbefore (k - 1) (by omega)).2
    rw [Nat.zero_add] at hearly
    have hlate := rounds.le_instant (k - 1)
    unfold Rounds.deadline at hearly
    omega

/-! ## What a round has seen -/

/-- Whatever the store holds is one of these writes. -/
def Explained (writes : List PriceWrite) (store : PriceStore) : Prop :=
  ∀ feed asset point, (store.source feed).lookup asset = some point →
    ∃ write ∈ writes, write.feed = feed ∧ write.asset = asset

theorem Explained.effect {writes : List PriceWrite} {store : PriceStore}
    (h : Explained writes store) {write : PriceWrite} (hw : write ∈ writes) :
    Explained writes (write.effect store) := by
  intro feed asset point hlook
  rw [PriceWrite.lookup_source_effect] at hlook
  by_cases hthis : write.feed = feed ∧ write.asset = asset
  · exact ⟨write, hw, hthis⟩
  · rw [if_neg hthis] at hlook
    exact h feed asset point hlook

theorem Explained.foldl {writes : List PriceWrite} {store : PriceStore}
    (h : Explained writes store) {more : List PriceWrite} (hmore : ∀ write ∈ more, write ∈ writes) :
    Explained writes (more.foldl PriceWrite.effect store) := by
  induction more generalizing store with
  | nil => exact h
  | cons write rest ih =>
    exact ih (h.effect (hmore write List.mem_cons_self))
      fun w hw => hmore w (List.mem_cons_of_mem _ hw)

/-- The reader has seen, and will see, only these writes. -/
structure Watches (writes : List PriceWrite) (w : World) : Prop where
  current : Explained writes w.store
  schedule : ∀ i, ∀ write ∈ w.shared.schedule i, write ∈ writes

namespace Watches

variable {writes : List PriceWrite} {w w' : World}

theorem advance (h : Watches writes w) : Watches writes w.advance where
  current := by
    show Explained writes (w.shared.advance _).current
    rw [Shared.current_advance]
    exact h.current.foldl (h.schedule _)
  schedule := by
    intro i
    show ∀ write ∈ (w.shared.advance _).schedule i, _
    rw [Shared.schedule_advance]
    exact h.schedule i

/-- A price that is fresh was written. -/
theorem of_fresh (h : Watches writes w) {feed : Feed} {asset : AssetId} {now : OffsetDateTime}
    {usd : Usd} (hfresh : w.store.fresh feed asset now = some usd) :
    ∃ write ∈ writes, write.feed = feed ∧ write.asset = asset := by
  obtain ⟨point, hlook, -, -⟩ := PriceStore.fresh_eq_some.mp hfresh
  exact h.current feed asset point hlook

/-- A price that is read was written. -/
theorem price (h : Watches writes w) {asset : AssetId} {o : Option Usd}
    (hread : w.price asset = (o, w')) :
    Watches writes w' ∧ (o ≠ none → ∃ write ∈ writes, write.asset = asset) := by
  obtain ⟨usd, -, rfl, hfresh⟩ | ⟨rfl, -, rfl⟩ := World.price_cases hread
  · refine ⟨h.advance, fun _ => ?_⟩
    obtain ⟨write, hw, -, hasset⟩ := h.advance.of_fresh hfresh
    exact ⟨write, hw, hasset⟩
  · refine ⟨h.advance.advance, fun hsome => ?_⟩
    obtain ⟨usd, hfresh⟩ := Option.ne_none_iff_exists'.mp hsome
    obtain ⟨write, hw, -, hasset⟩ := h.advance.advance.of_fresh hfresh
    exact ⟨write, hw, hasset⟩

/-- One read of the first loop of a round. -/
theorem readPriced {b : Bool} (h : Watches writes w) (asset : AssetId) :
    Watches writes (readPriced (b, w) asset).2 ∧ ((ArbRouter.readPriced (b, w) asset).1 = true →
      b = true ∧ ∃ write ∈ writes, write.asset = asset) := by
  obtain ⟨hwatches, hwritten⟩ := h.price (price_eq_toOption asset w)
  unfold ArbRouter.readPriced
  rcases hread : CachedValuation.price asset w with ⟨_ | usd, w'⟩
  · rw [hread] at hwatches
    exact ⟨hwatches, fun hb => by cases hb⟩
  · rw [hread] at hwatches hwritten
    exact ⟨hwatches, fun hb => ⟨hb, hwritten (by simp [Except.toOption])⟩⟩

/-- The first loop of a round. -/
theorem foldl_readPriced {b : Bool} (h : Watches writes w) (assets : List AssetId) :
    Watches writes (assets.foldl ArbRouter.readPriced (b, w)).2 ∧
      ((assets.foldl ArbRouter.readPriced (b, w)).1 = true →
        b = true ∧ ∀ asset ∈ assets, ∃ write ∈ writes, write.asset = asset) := by
  induction assets generalizing b w with
  | nil => exact ⟨h, fun hb => ⟨hb, fun asset hasset => absurd hasset List.not_mem_nil⟩⟩
  | cons asset rest ih =>
    rw [List.foldl_cons]
    obtain ⟨hwatches, hread⟩ := h.readPriced (b := b) asset
    obtain ⟨hrest, hall⟩ := ih (b := (ArbRouter.readPriced (b, w) asset).1) hwatches
    refine ⟨hrest, fun htrue => ?_⟩
    obtain ⟨hpriced, hassets⟩ := hall htrue
    obtain ⟨hb, hasset⟩ := hread hpriced
    exact ⟨hb, List.forall_mem_cons.mpr ⟨hasset, hassets⟩⟩

/-- The second loop of a round. -/
theorem binanceReady (h : Watches writes w) (assets : List AssetId) :
    Watches writes (binanceReady assets w).2 ∧ ((ArbRouter.binanceReady assets w).1 = true →
      ∀ asset ∈ assets, ∃ write ∈ writes, write.feed = .binance ∧ write.asset = asset) := by
  induction assets generalizing w with
  | nil => exact ⟨h, fun _ asset hasset => absurd hasset List.not_mem_nil⟩
  | cons asset rest ih =>
    unfold ArbRouter.binanceReady CachedValuation.priceAndSource World.priceAndSource World.fresh
    cases hb : w.advance.store.fresh .binance asset w.now with
    | some usd =>
      obtain ⟨hrest, hall⟩ := ih h.advance
      refine ⟨hrest, fun htrue => ?_⟩
      exact List.forall_mem_cons.mpr ⟨h.advance.of_fresh hb, hall htrue⟩
    | none =>
      dsimp only
      cases w.advance.advance.store.fresh .coingecko asset w.now with
      | none => exact ⟨h.advance.advance, fun hfalse => by cases hfalse⟩
      | some usd => exact ⟨h.advance.advance, fun hfalse => by cases hfalse⟩

/-- **A round that is ready** has seen a write for each asset. -/
theorem warmRound (h : Watches writes w) (needs : Needs) :
    Watches writes (warmRound needs w).2 ∧ ((ArbRouter.warmRound needs w).1 = true →
      (∀ asset ∈ needs.needed, ∃ write ∈ writes, write.asset = asset) ∧
      ∀ asset ∈ needs.wantBinance,
        ∃ write ∈ writes, write.feed = .binance ∧ write.asset = asset) := by
  obtain ⟨hfirst, hpriced⟩ := h.foldl_readPriced (b := true) needs.needed
  obtain ⟨hsecond, hready⟩ := hfirst.binanceReady needs.wantBinance
  refine ⟨hsecond, fun htrue => ?_⟩
  obtain ⟨hp, hr⟩ := Bool.and_eq_true_iff.mp htrue
  exact ⟨(hpriced hp).2, hready hr⟩

theorem worldAt (h : Watches writes w) (needs : Needs) (k : Nat) :
    Watches writes (worldAt needs w k) := by
  induction k with
  | zero => exact h
  | succ k ih =>
    unfold ArbRouter.worldAt
    rw [Function.iterate_succ_apply']
    exact (ih.warmRound needs).1

/-- What a world observes that starts with an empty store. -/
theorem of_observes {staleness : StdDuration} (h : Observes w (PriceStore.new staleness) writes) :
    Watches writes w where
  current := by
    intro feed asset point hlook
    have hstore : w.store = PriceStore.new staleness := h.current
    rw [hstore] at hlook
    cases feed <;> cases hlook
  schedule := by
    obtain ⟨n, hlater, hprefix⟩ := h.handed
    intro i write hw
    rcases Nat.lt_or_ge i n with hi | hi
    · exact hprefix.subset (List.mem_flatMap.mpr ⟨i, List.mem_range.mpr hi, hw⟩)
    · rw [hlater i hi] at hw
      exact absurd hw List.not_mem_nil

end Watches

/-! ## Every run -/

section

variable {W P F : Type} [Pool P] [RustDecimal]

/-- The chains are not worked on. -/
def Idle (evs : List (OnceEvent W P F)) : Prop := ∀ ev, .task ev ∈ evs → ev.pass = none

/-- The feeds have written everything that is needed. -/
structure Warmed (needs : Needs) (evs : List (OnceEvent W P F)) : Prop where
  needed : ∀ asset ∈ needs.needed, ∃ write, .task (.wrote write) ∈ evs ∧ write.asset = asset
  wantBinance : ∀ asset ∈ needs.wantBinance, ∃ write, .task (.wrote write) ∈ evs ∧
    write.feed = .binance ∧ write.asset = asset

/-- What the program has waited for after the events `evs`. -/
def WarmInv (needs : Needs) (evs : List (OnceEvent W P F)) : Warm → Prop
  | .waiting writes => Idle evs ∧ ∀ write ∈ writes, .task (.wrote write) ∈ evs
  | .ready live => ∃ pre post, evs = pre ++ .warmed live :: post ∧ Idle pre ∧
      (live = true → Warmed needs pre)

omit [Pool P] [RustDecimal] in
theorem Idle.snoc {evs : List (OnceEvent W P F)} (h : Idle evs) {ev : ServiceEvent W P F}
    (hev : ev.pass = none) : Idle (evs ++ [.task ev]) := by
  intro e he
  rcases List.mem_append.mp he with he | he
  · exact h e he
  · obtain rfl := OnceEvent.task.inj (List.mem_singleton.mp he)
    exact hev

variable [DecidableEq W] {d : Deployment W P} {codec : Codec F} {needs : Needs}
  {evs : List (OnceEvent W P F)} {s s' : OnceState W P}

omit [DecidableEq W] [RustDecimal] in
/-- While the program waits, it works on no chain. -/
theorem OnceState.Admits.pass_eq_none {writes : List PriceWrite} (hwarm : s.warm = .waiting writes)
    {ev : ServiceEvent W P F} (h : s.Admits ev) : ev.pass = none := by
  have hnot : ¬ s.Running := by
    rintro ⟨⟨live, hready⟩, -⟩
    rw [hwarm] at hready
    cases hready
  cases ev with
  | sync ev => exact absurd h.1 hnot
  | loaded w now => exact absurd h.1 hnot
  | notified w opps => exact absurd h.1 hnot
  | scanPanicked w => exact absurd h.1 hnot
  | _ => rfl

omit [Pool P] [RustDecimal] [DecidableEq W] in
/-- A round that is ready when the loop ends has seen what is needed. -/
theorem Warmed.of_warmPrices {staleness : StdDuration} {visited : Needs} {rounds : Rounds}
    {writes : List PriceWrite} {world world' : World}
    (hneeded : visited.needed.Perm needs.needed)
    (hwant : visited.wantBinance.Perm needs.wantBinance)
    (hobs : Observes world (PriceStore.new staleness) writes)
    (hwarm : warmPrices visited rounds 0 world = (true, world'))
    (hwrites : ∀ write ∈ writes, .task (.wrote write) ∈ evs) : Warmed needs evs := by
  obtain ⟨k, heq, -, -⟩ := warmPrices_eq visited rounds 0 world
  rw [hwarm] at heq
  obtain ⟨hpriced, hbinance⟩ :=
    (((Watches.of_observes hobs).worldAt visited k).warmRound visited).2 (by rw [← heq])
  constructor
  · intro asset hasset
    obtain ⟨write, hw, heq⟩ := hpriced asset (hneeded.mem_iff.mpr hasset)
    exact ⟨write, hwrites write hw, heq⟩
  · intro asset hasset
    obtain ⟨write, hw, heq⟩ := hbinance asset (hwant.mem_iff.mpr hasset)
    exact ⟨write, hwrites write hw, heq⟩

/-- **One step keeps the invariant.** -/
theorem WarmInv.step {staleness : StdDuration} (hnew : d.feeds.store = PriceStore.new staleness)
    {ev : OnceEvent W P F} (h : WarmInv needs evs s.warm) (hs : OnceStep d codec needs s ev s') :
    WarmInv needs (evs ++ [ev]) s'.warm := by
  cases hs with
  | warmed hneeded hwant hwait hobs hloop =>
    rw [hwait] at h
    rw [hnew] at hobs
    refine ⟨evs, [], rfl, h.1, ?_⟩
    rintro rfl
    exact Warmed.of_warmPrices hneeded hwant hobs hloop h.2
  | @task ev service' hadmits hstep =>
    show WarmInv needs _ (s.warm.after ev)
    cases hwarm : s.warm with
    | ready live =>
      rw [hwarm] at h
      obtain ⟨pre, post, rfl, hidle, hlive⟩ := h
      have hafter : (Warm.ready live).after ev = .ready live := by cases ev <;> rfl
      rw [hafter]
      exact ⟨pre, post ++ [.task ev], by simp, hidle, hlive⟩
    | waiting writes =>
      rw [hwarm] at h
      obtain ⟨hidle, hwrites⟩ := h
      have hidle' := hidle.snoc (hadmits.pass_eq_none hwarm)
      have hold : ∀ write ∈ writes, .task (.wrote write) ∈ evs ++ [.task ev] :=
        fun write hw => List.mem_append_left _ (hwrites write hw)
      cases ev with
      | wrote write =>
        refine ⟨hidle', fun w hw => ?_⟩
        rcases List.mem_append.mp hw with hw | hw
        · exact hold w hw
        · rw [List.mem_singleton.mp hw]
          exact List.mem_concat_self
      | _ => exact ⟨hidle', hold⟩

theorem WarmInv.run {staleness : StdDuration} (hnew : d.feeds.store = PriceStore.new staleness)
    (h : d.RunsOnce codec needs evs s) : WarmInv needs evs s.warm := by
  induction h with
  | start =>
    exact ⟨fun ev hev => absurd hev List.not_mem_nil, fun write hw => absurd hw List.not_mem_nil⟩
  | snoc _ hs ih => exact ih.step hnew hs

end

section

variable [Alloy] [AmmRpc] [Crates] [RustDecimal]

omit [Alloy] [AmmRpc] [Crates] [RustDecimal] in
/-- The start assets of an entry are needed. -/
theorem RouterSettings.mem_needed {settings : RouterSettings} {c : ChainSettings}
    (hc : c ∈ settings.chains) {asset : AssetId} (hasset : asset.asStr ∈ c.startAssets) :
    asset ∈ settings.needs.needed := by
  refine List.mem_dedup.mpr (List.mem_filterMap.mpr ⟨asset.asStr, ?_, ?_⟩)
  · exact List.mem_flatMap.mpr ⟨c, hc, hasset⟩
  · rw [AssetId.new_asStr]
    rfl

omit [Alloy] [AmmRpc] [Crates] [RustDecimal] in
/-- Binance is to price a needed asset if some entry of it names a symbol. -/
theorem RouterSettings.mem_wantBinance {settings : RouterSettings} {asset : AssetId}
    (hneeded : asset ∈ settings.needs.needed) {a : AssetEntry} (ha : a ∈ settings.assets)
    (hid : a.id = asset.asStr) (hsymbol : a.binanceSymbol.isSome = true) :
    asset ∈ settings.needs.wantBinance := by
  refine List.mem_dedup.mpr (List.mem_filterMap.mpr ⟨a, List.mem_filter.mpr ⟨ha, hsymbol⟩, ?_⟩)
  rw [hid, AssetId.new_asStr]
  show Option.filter _ (some asset) = some asset
  exact if_pos (decide_eq_true hneeded)

/--
**No chain is worked on before the prices are there, or 25 s have passed.** In every run of
`run_once`, nothing is synced or scanned until the loop has ended; and if it ended because the
prices are live, each start asset of each chain had been priced by a feed before, and by Binance if
an entry of the settings names a symbol for it.
-/
theorem once_warm {F : Type} (toUppercase : String → String) (settings : RouterSettings)
    (r : Router) (hbuild : build toUppercase settings = .ok r) (codec : Codec F)
    (evs : List (OnceEvent (Fin r.tasks.length) AmmCorePool F))
    (s : OnceState (Fin r.tasks.length) AmmCorePool)
    (hrun : r.deployment.RunsOnce codec settings.needs evs s) :
    Idle evs ∨ ∃ pre live post, evs = pre ++ .warmed live :: post ∧ Idle pre ∧
      (live = true → ∀ t ∈ r.tasks, ∀ asset ∈ t.cfg.startAssets,
        (∃ write, .task (.wrote write) ∈ pre ∧ write.asset = asset) ∧
        ∀ a ∈ settings.assets, a.id = asset.asStr → a.binanceSymbol.isSome = true →
          ∃ write, .task (.wrote write) ∈ pre ∧ write.feed = .binance ∧ write.asset = asset) := by
  obtain ⟨hs, -⟩ := build_eq_ok hbuild
  obtain ⟨-, hfeeds, -, -⟩ := buildServices_eq_ok.mp hs
  have hinv := WarmInv.run (store_of_buildValuation hfeeds) hrun
  cases hwarm : s.warm with
  | waiting writes =>
    rw [hwarm] at hinv
    exact Or.inl hinv.1
  | ready live =>
    rw [hwarm] at hinv
    obtain ⟨pre, post, rfl, hidle, hlive⟩ := hinv
    refine Or.inr ⟨pre, live, post, rfl, hidle, fun htrue t ht asset hasset => ?_⟩
    obtain ⟨hpriced, hbinance⟩ := hlive htrue
    obtain ⟨c, hc, hwires⟩ := exists_wires hbuild ht
    have hneeded : asset ∈ settings.needs.needed := by
      refine RouterSettings.mem_needed (List.mem_filter.mp hc).1 ?_
      rw [← hwires.startAssets]
      exact List.mem_map_of_mem hasset
    exact ⟨hpriced asset hneeded, fun a ha hid hsymbol =>
      hbinance asset (RouterSettings.mem_wantBinance hneeded ha hid hsymbol)⟩

end

section

attribute [local instance] RustDecimal.reference Alloy.reference AmmRpc.oneTx Crates.offline

/-- The price of A is polled and written, and the loop sees it. -/
def tokenWarm : List (OnceEvent (Fin tokenRouter.tasks.length) AmmCorePool Decimal) :=
  [.task (.polled (AList.singleton "a" (AList.singleton "usd" Decimal.one))),
    .task (.wrote ⟨.coingecko, tokenA, ⟨Decimal.one⟩, 0⟩),
    .warmed true]

/-- The write takes effect before the first read. -/
def warmWorld : World :=
  ⟨⟨tokenRouter.feeds.store, [], 0,
    fun i => if i = 0 then [⟨.coingecko, tokenA, ⟨Decimal.one⟩, 0⟩] else []⟩, fun _ => 0⟩

/-- A is priced, and the chain is about to be synced. -/
def tokenWarmed : OnceState (Fin tokenRouter.tasks.length) AmmCorePool where
  service := { ServiceState.init tokenRouter.deployment with
    prices := tokenRouter.feeds.store.setCoingecko tokenA ⟨Decimal.one⟩ 0
    feed := Function.update (Function.update (fun _ => .writing []) .coingecko
      (.writing [⟨.coingecko, tokenA, ⟨Decimal.one⟩, 0⟩])) .coingecko (.writing []) }
  warm := .ready true
  pass := fun _ => .syncing
  panicked := false

theorem runsOnce_tokenWarm : tokenRouter.deployment.RunsOnce decimalCodec tokenSettings.needs
    tokenWarm tokenWarmed := by
  have hready : (warmRound tokenSettings.needs warmWorld).1 = true := by decide +kernel
  have hloop : warmPrices tokenSettings.needs
      ⟨0, fun k => 300_000_000 * k, le_rfl, fun k => le_rfl⟩ 0
      warmWorld = (true, (warmRound tokenSettings.needs warmWorld).2) := by
    rw [warmPrices]
    rcases hround : warmRound tokenSettings.needs warmWorld with ⟨_ | _, w⟩
    · rw [hround] at hready
      cases hready
    · rfl
  have hobs : Observes warmWorld tokenRouter.deployment.feeds.store
      [⟨.coingecko, tokenA, ⟨Decimal.one⟩, 0⟩] :=
    ⟨rfl, rfl, rfl, 1, fun i hi => if_neg (by omega), List.prefix_refl _⟩
  exact ((Run.one (.task trivial (.polled (IterOrder.stored _) (fun _ => 0) rfl))).snoc
    (.task trivial (.wrote (show _ = FeedPhase.writing [⟨.coingecko, tokenA, ⟨Decimal.one⟩, 0⟩]
      from rfl)))).snoc (.warmed (.refl _) (.refl _) rfl hobs hloop)

theorem running_tokenWarmed : tokenWarmed.Running := ⟨⟨true, rfl⟩, rfl⟩

/-- When the first block is pinned, A has been priced. -/
theorem warm_tokenWarm : ∃ (s : OnceState (Fin tokenRouter.tasks.length) AmmCorePool)
    (pre post : List (OnceEvent (Fin tokenRouter.tasks.length) AmmCorePool Decimal))
    (write : PriceWrite),
    tokenRouter.deployment.RunsOnce decimalCodec tokenSettings.needs
      (tokenWarm ++ [.task (.sync (.pinned tokenTask 7 0))]) s ∧
    tokenWarm ++ [.task (.sync (.pinned tokenTask 7 0))] = pre ++ .warmed true :: post ∧
    .task (.wrote write) ∈ pre ∧ write.asset = tokenA := by
  have hadmits : tokenWarmed.Admits (F := Decimal) (.sync (.pinned tokenTask 7 0)) :=
    ⟨running_tokenWarmed, rfl⟩
  have hrun' := runsOnce_tokenWarm.snoc (.task hadmits (.sync (.pinned 7 0 rfl)))
  rcases once_warm id tokenSettings tokenRouter build_tokenSettings decimalCodec _ _ hrun' with
    hidle | ⟨pre, live, post, heq, -, hlive⟩
  · cases hidle _ List.mem_concat_self
  · obtain rfl : live = true := by
      have hmem : OnceEvent.warmed live ∈ tokenWarm ++ [.task (.sync (.pinned tokenTask 7 0))] := by
        rw [heq]
        exact List.mem_append_right _ List.mem_cons_self
      simpa [tokenWarm] using hmem
    obtain ⟨⟨write, hwrite, hasset⟩, -⟩ :=
      hlive rfl tokenTasks List.mem_cons_self tokenA List.mem_cons_self
    exact ⟨_, pre, post, write, hrun', heq, hwrite, hasset⟩

end

end ArbRouter

import ArbRouter.Properties.Bridge
import ArbRouter.Properties.Wired

/-!
# What the sources are asked

Each exchange of a chain is asked twice in a tick: which pools the tracked tokens have, and for the
state of these pools at the block that the tick pinned. The keys pass through two translations in
between.

* `Asked` — the request behind a refresh, and `AskInv` for the workers of a run
* `asked_of_refreshed` — every refresh is of the keys discovered in its own tick
* `sources_asked` — what this means for the sources behind the exchanges of some settings
-/

namespace ArbRouter

open Infra

section

variable {W P : Type} [Pool P] [DecidableEq W] {workers : W → SyncWorker}

/-! ## Requests of a tick -/

/-- The event starts or ends a tick of the worker, or is a call of its `i`-th exchange. -/
def Concerns (w : W) (i : Nat) (ev : SyncEvent W P) : Prop :=
  Boundary w ev ∨ (∃ chain tokens result, ev = .discovered w i chain tokens result) ∨
    ∃ keys block result, ev = .refreshed w i keys block result

omit [Pool P] [DecidableEq W] in
theorem Concerns.worker_eq {w : W} {i : Nat} {ev : SyncEvent W P} (h : Concerns w i ev) :
    ev.worker = w := by
  obtain h | ⟨chain, tokens, result, rfl⟩ | ⟨keys, block, result, rfl⟩ := h
  · exact h.worker_eq
  · rfl
  · rfl

omit [Pool P] [DecidableEq W] in
/-- The calls of another exchange do not concern this one. -/
theorem not_concerns_of_ne {w : W} {i₀ i : Nat} (hne : i₀ ≠ i) :
    (∀ chain tokens result, ¬ Concerns w i (.discovered w i₀ chain tokens result : SyncEvent W P)) ∧
    ∀ keys block result, ¬ Concerns w i (.refreshed w i₀ keys block result : SyncEvent W P) := by
  constructor
  · rintro chain tokens result ((⟨_, hb⟩ | ⟨_, _, hb⟩ | hb) | ⟨_, _, _, hb⟩ | ⟨_, _, _, hb⟩)
    all_goals cases hb
    exact hne rfl
  · rintro keys block result ((⟨_, hb⟩ | ⟨_, _, hb⟩ | hb) | ⟨_, _, _, hb⟩ | ⟨_, _, _, hb⟩)
    all_goals cases hb
    exact hne rfl

/-- The tick under way pinned the block, and has not called the exchange. -/
def Unasked (evs : List (SyncEvent W P)) (w : W) (i : Nat) (block : UInt64) : Prop :=
  ∃ pre mid now, evs = pre ++ .pinned w block now :: mid ∧ ∀ ev ∈ mid, ¬ Concerns w i ev

/--
The tick under way pinned the block, and its exchange discovered these keys in the `n`-th event,
with no other call.
-/
def Asked (workers : W → SyncWorker) (evs : List (SyncEvent W P)) (n : Nat) (w : W) (i : Nat)
    (block : UInt64) (keys : List PoolKey) : Prop :=
  ∃ before after, before.length = n ∧ Unasked before w i block ∧ (∀ ev ∈ after, ¬ Concerns w i ev) ∧
    evs = before ++
      .discovered w i (workers w).chain (workers w).trackedTokens (.ok keys) :: after

omit [Pool P] [DecidableEq W] in
theorem not_concerns_snoc {w : W} {i : Nat} {mid : List (SyncEvent W P)} {ev : SyncEvent W P}
    (h : ∀ e ∈ mid, ¬ Concerns w i e) (hev : ¬ Concerns w i ev) :
    ∀ e ∈ mid ++ [ev], ¬ Concerns w i e := by
  intro e he
  rcases List.mem_append.mp he with he | he
  · exact h e he
  · rwa [List.mem_singleton.mp he]

omit [Pool P] [DecidableEq W] in
theorem Unasked.snoc {evs : List (SyncEvent W P)} {w : W} {i : Nat} {block : UInt64}
    (h : Unasked evs w i block) {ev : SyncEvent W P} (hev : ¬ Concerns w i ev) :
    Unasked (evs ++ [ev]) w i block := by
  obtain ⟨pre, mid, now, rfl, hmid⟩ := h
  exact ⟨pre, mid ++ [ev], now, by simp, not_concerns_snoc hmid hev⟩

omit [Pool P] [DecidableEq W] in
theorem Asked.snoc {evs : List (SyncEvent W P)} {n : Nat} {w : W} {i : Nat} {block : UInt64}
    {keys : List PoolKey} (h : Asked workers evs n w i block keys) {ev : SyncEvent W P}
    (hev : ¬ Concerns w i ev) : Asked workers (evs ++ [ev]) n w i block keys := by
  obtain ⟨before, after, hn, hbefore, hafter, rfl⟩ := h
  exact ⟨before, after ++ [ev], hn, hbefore, not_concerns_snoc hafter hev, by simp⟩

omit [Pool P] [DecidableEq W] in
/-- It was a call of the exchange for the tracked tokens of the chain. -/
theorem Asked.getElem? {evs : List (SyncEvent W P)} {n : Nat} {w : W} {i : Nat} {block : UInt64}
    {keys : List PoolKey} (h : Asked workers evs n w i block keys) :
    evs[n]? = some (.discovered w i (workers w).chain (workers w).trackedTokens (.ok keys)) := by
  obtain ⟨before, after, rfl, -, -, rfl⟩ := h
  rw [List.getElem?_append_right (le_refl _), Nat.sub_self]
  rfl

/-- What the refreshes of a worker say about the events so far. -/
structure AskInv (workers : W → SyncWorker) (evs : List (SyncEvent W P)) (s : SyncState W P) :
    Prop where
  unasked : ∀ w block now refreshes i, s.phase w = .syncing block now refreshes →
    refreshes[i]? = some .discovering → Unasked evs w i block
  asked : ∀ w block now refreshes i keys, s.phase w = .syncing block now refreshes →
    refreshes[i]? = some (.refreshing keys) → ∃ n, Asked workers evs n w i block keys

variable {s s' : SyncState W P} {evs : List (SyncEvent W P)} {ev : SyncEvent W P}

omit [DecidableEq W] in
/-- A worker that does not move keeps what is known of it. -/
theorem AskInv.other (h : AskInv workers evs s) {w : W} (hw : ev.worker ≠ w)
    (hphase : s'.phase w = s.phase w) (block : UInt64) (now : OffsetDateTime)
    (refreshes : List (Refresh P)) (i : Nat) (hp : s'.phase w = .syncing block now refreshes) :
    (refreshes[i]? = some .discovering → Unasked (evs ++ [ev]) w i block) ∧
    ∀ keys, refreshes[i]? = some (.refreshing keys) →
      ∃ n, Asked workers (evs ++ [ev]) n w i block keys := by
  have hev : ¬ Concerns w i ev := fun hc => hw hc.worker_eq
  rw [hphase] at hp
  constructor
  · exact fun hi => (h.unasked w block now refreshes i hp hi).snoc hev
  · intro keys hi
    obtain ⟨n, hasked⟩ := h.asked w block now refreshes i keys hp hi
    exact ⟨n, hasked.snoc hev⟩

omit [DecidableEq W] in
/-- A call of one exchange keeps what is known of the others. -/
theorem AskInv.set (h : AskInv workers evs s) {w : W} {block : UInt64} {now : OffsetDateTime}
    {refreshes : List (Refresh P)} (hp : s.phase w = .syncing block now refreshes) {i₀ i : Nat}
    (hne : i₀ ≠ i) (hev : ¬ Concerns w i ev) (next : Refresh P) :
    ((refreshes.set i₀ next)[i]? = some .discovering → Unasked (evs ++ [ev]) w i block) ∧
    ∀ keys, (refreshes.set i₀ next)[i]? = some (.refreshing keys) →
      ∃ n, Asked workers (evs ++ [ev]) n w i block keys := by
  rw [List.getElem?_set_ne hne]
  constructor
  · exact fun hi => (h.unasked w block now refreshes i hp hi).snoc hev
  · intro keys hi
    obtain ⟨n, hasked⟩ := h.asked w block now refreshes i keys hp hi
    exact ⟨n, hasked.snoc hev⟩

/-- **A step keeps what is known** of the worker that moves. -/
theorem AskInv.moved (h : AskInv workers evs s) (hs : SyncStep workers s ev s')
    (block : UInt64) (now : OffsetDateTime) (refreshes : List (Refresh P)) (i : Nat)
    (hp : s'.phase ev.worker = .syncing block now refreshes) :
    (refreshes[i]? = some .discovering → Unasked (evs ++ [ev]) ev.worker i block) ∧
    ∀ keys, refreshes[i]? = some (.refreshing keys) →
      ∃ n, Asked workers (evs ++ [ev]) n ev.worker i block keys := by
  cases hs with
  | latestBlockFailed err hidle =>
    have hcontra := hidle.symm.trans hp
    cases hcontra
  | @pinned w block' now' hidle =>
    -- nothing has been asked yet
    obtain ⟨rfl, rfl, rfl⟩ := Phase.syncing.inj ((s.setPhase_phase_self w _).symm.trans hp)
    constructor
    · exact fun _ => ⟨evs, [], _, rfl, fun e he => absurd he List.not_mem_nil⟩
    · intro keys hi
      rw [List.getElem?_map, Option.map_eq_some_iff] at hi
      obtain ⟨_, _, hi⟩ := hi
      cases hi
  | @discovered w block' now' refreshes' i₀ result hphase hi₀ =>
    obtain ⟨rfl, rfl, rfl⟩ := Phase.syncing.inj ((s.setPhase_phase_self w _).symm.trans hp)
    by_cases hi : i₀ = i
    · subst hi
      have hlt : i₀ < refreshes'.length := (List.getElem?_eq_some_iff.mp hi₀).1
      rw [List.getElem?_set_self hlt]
      constructor
      · intro hnext
        cases result <;> cases hnext
      · intro keys hnext
        cases result with
        | error err => cases hnext
        | ok keys' =>
          obtain rfl : keys' = keys := Refresh.refreshing.inj (Option.some.inj hnext)
          exact ⟨evs.length, evs, [], rfl, h.unasked w _ _ _ _ hphase hi₀,
            fun e he => absurd he List.not_mem_nil, rfl⟩
    · exact h.set hphase hi ((not_concerns_of_ne hi).1 _ _ _) _
  | @refreshed w block' now' refreshes' i₀ keys result hphase hi₀ =>
    obtain ⟨rfl, rfl, rfl⟩ := Phase.syncing.inj ((s.setPhase_phase_self w _).symm.trans hp)
    by_cases hi : i₀ = i
    · subst hi
      have hlt : i₀ < refreshes'.length := (List.getElem?_eq_some_iff.mp hi₀).1
      rw [List.getElem?_set_self hlt]
      constructor
      · exact fun hnext => by cases hnext
      · exact fun keys hnext => by cases hnext
    · exact h.set hphase hi ((not_concerns_of_ne hi).2 _ _ _) _
  | @published w block' now' refreshes' hphase hfin =>
    have hcontra := (s.setPhase_phase_self w .idle).symm.trans hp
    cases hcontra

theorem AskInv.step (h : AskInv workers evs s) (hs : SyncStep workers s ev s') :
    AskInv workers (evs ++ [ev]) s' := by
  have hboth : ∀ w block now refreshes i, s'.phase w = .syncing block now refreshes →
      (refreshes[i]? = some .discovering → Unasked (evs ++ [ev]) w i block) ∧
      ∀ keys, refreshes[i]? = some (.refreshing keys) →
        ∃ n, Asked workers (evs ++ [ev]) n w i block keys := by
    intro w block now refreshes i hp
    by_cases hw : ev.worker = w
    · subst hw
      exact h.moved hs block now refreshes i hp
    · exact h.other hw (hs.phase_of_ne hw) block now refreshes i hp
  exact ⟨fun w block now refreshes i hp => (hboth w block now refreshes i hp).1,
    fun w block now refreshes i keys hp => (hboth w block now refreshes i hp).2 keys⟩

theorem AskInv.run {chains : List ChainId}
    (h : Run (SyncStep workers) (SyncState.init chains) evs s) :
    AskInv workers evs s := by
  refine h.invariant ⟨?_, ?_⟩ AskInv.step
  · intro w block now refreshes i hp
    cases hp
  · intro w block now refreshes i keys hp
    cases hp

/-- **Every refresh is of the keys that its exchange discovered** in the same tick, at its block. -/
theorem asked_of_refreshed {chains : List ChainId}
    (h : Run (SyncStep workers) (SyncState.init chains) evs s) {pre post : List (SyncEvent W P)}
    {w : W} {i : Nat} {keys : List PoolKey} {at_ : BlockId}
    {result : Except ExchangeError (List P)}
    (hevs : evs = pre ++ .refreshed w i keys at_ result :: post) :
    ∃ block n, at_ = .number block ∧ Asked workers pre n w i block keys := by
  obtain ⟨s₁, s₂, hpre, hstep, -⟩ := h.split hevs
  cases hstep with
  | refreshed _ hp hi =>
    obtain ⟨n, hasked⟩ := (AskInv.run hpre).asked _ _ _ _ _ _ hp hi
    exact ⟨_, n, rfl, hasked⟩

end

/-! ## The sources of some settings -/

section

variable [Alloy]

/-- Every asset has a numeric id, so none of them is left out of a request. -/
theorem forall₂_filterMap_coreAsset (assets : List AssetId) :
    List.Forall₂ (fun asset token => coreAsset asset = some token) assets
      (assets.filterMap coreAsset) := by
  induction assets with
  | nil => exact .nil
  | cons asset rest ih =>
    obtain ⟨token, htoken⟩ := exists_coreAsset asset
    rw [List.filterMap_cons_some htoken]
    exact .cons htoken ih

variable [LawfulAlloy] [AmmRpc] [Crates] [RustDecimal]

/--
**What the sources are asked.** In every run of the service of some settings, each refresh comes
after a discovery of the same exchange in the same tick, which asked its source for the numeric ids
of the tracked tokens of the chain, each of them and in order; the keys of the refresh are those it
found, under the names of the exchange and the chain. The source is then asked for the pools of the
keys, at the block that the tick pinned, and the result is what it answers. If the keys it found are
on the chain, these very keys are asked for, under the name of the exchange.
-/
theorem sources_asked {F : Type} (toUppercase : String → String) (settings : RouterSettings)
    (r : Router) (hbuild : build toUppercase settings = .ok r) (oracle : r.Oracle) (codec : Codec F)
    (evs : List (ServiceEvent (Fin r.tasks.length) AmmCorePool F))
    (s : ServiceState (Fin r.tasks.length) AmmCorePool) (hrun : r.RunsOn oracle codec evs s)
    (pre post : List (SyncEvent (Fin r.tasks.length) AmmCorePool)) (w : Fin r.tasks.length)
    (i : Nat) (keys : List PoolKey) (at_ : BlockId)
    (result : Except ExchangeError (List AmmCorePool))
    (hevs : syncEvents evs = pre ++ .refreshed w i keys at_ result :: post) :
    ∃ c ∈ settings.spawned, ∃ (ex : AmmRpcExchange) (block : UInt64) (n : Nat)
      (tokens : List CoreAssetId) (found : List CorePoolKey),
      (r.asked w)[i]? = some ex ∧ ex.chain = ⟨c.chainId⟩ ∧ at_ = .number block ∧
      Asked r.deployment.worker pre n w i block keys ∧
      List.Forall₂
        (fun id token => ∃ asset, AssetId.new id = .ok asset ∧ coreAsset asset = some token)
        c.trackedTokens tokens ∧
      (oracle.source n w i).discover (chainId c.chainId) tokens = .ok found ∧
      keys = found.map ex.toArbKey ∧
      result = (((oracle.source pre.length w i).refresh (keys.filterMap AmmRpcExchange.toCoreKey)
        (.number block)).mapError rpcErr).map (fun pools => pools.map (AmmCorePool.new c.chainId)) ∧
      (c.chainId ≠ "" → ':' ∉ c.chainId.toList →
        (∀ key ∈ found, key.chain = chainId c.chainId ∧
          ∀ asset ∈ key.assets, asset.IsAddressOn c.chainId) →
        keys.filterMap AmmRpcExchange.toCoreKey
          = found.map fun key => { key with exchange := ex.id.asStr }) := by
  obtain ⟨hruns, hanswers⟩ := hrun
  have hsync := (ServiceStep.syncing r.deployment codec).run hruns
  obtain ⟨block, n, rfl, hasked⟩ := asked_of_refreshed hsync hevs
  obtain ⟨c, hc, hwires⟩ : ∃ c ∈ settings.spawned, Wires settings c (r.taskAt w) :=
    exists_wires hbuild (List.get_mem r.tasks w)
  -- the two calls are of one exchange, and each was answered by its source at the time
  have hdiscoveredAt : (syncEvents evs)[n]? = some (.discovered w i (r.taskAt w).chain
      (r.taskAt w).trackedTokens (.ok keys)) := by
    have hget := hasked.getElem?
    rw [hevs, List.getElem?_append_left (List.getElem?_eq_some_iff.mp hget).1]
    exact hget
  have hrefreshedAt : (syncEvents evs)[pre.length]?
      = some (.refreshed w i keys (.number block) result) := by
    rw [hevs, List.getElem?_append_right (le_refl _), Nat.sub_self]
    rfl
  obtain ⟨ex, hex, hresult⟩ := hanswers _ _ hrefreshedAt
  obtain ⟨ex', hex', hkeys⟩ := hanswers _ _ hdiscoveredAt
  obtain rfl : ex = ex' := Option.some.inj (hex.symm.trans hex')
  have hchain : ex.chain = ⟨c.chainId⟩ := (mem_asked hex).2.trans hwires.chain
  have hname : ex.chain.asStr = c.chainId := by rw [hchain]
  unfold AmmRpcExchange.discover at hkeys
  obtain ⟨found, hfound, hmap⟩ := bind_eq_ok.mp hkeys.symm
  have hmap : keys = found.map ex.toArbKey := (Except.ok.inj hmap).symm
  refine ⟨c, hc, ex, block, n, (r.taskAt w).trackedTokens.filterMap coreAsset, found, hex, hchain,
    rfl, hasked, ?_, ?_, hmap, ?_, ?_⟩
  · rw [← hwires.trackedTokens, List.forall₂_map_left_iff]
    refine (forall₂_filterMap_coreAsset _).imp fun asset token htoken => ?_
    exact ⟨asset, AssetId.new_asStr asset, htoken⟩
  · have hanswer := mapError_eq_ok.mp hfound
    rwa [hwires.chain] at hanswer
  · rw [hresult, ← hname]
    rfl
  · intro hne hcolon honChain
    rw [← hname] at hne hcolon honChain
    rw [hmap]
    exact filterMap_toCoreKey_toArbKey hne hcolon honChain

end

section

attribute [local instance] RustDecimal.reference Alloy.reference AmmRpc.oneTx Crates.offline

/-- The exchange of the chain. -/
def tokenExchange : AmmRpcExchange :=
  AmmRpcExchange.new "uniswap_v3" ⟨"ethereum"⟩ ⟨fun _ _ => .ok [], fun _ _ => .ok []⟩

/-- A tick up to its refresh, of the key that was discovered. -/
def tokenRequests : List (ServiceEvent (Fin tokenRouter.tasks.length) AmmCorePool Decimal) :=
  [.sync (.pinned tokenTask 7 0),
    .sync (.discovered tokenTask 0 ⟨"ethereum"⟩ [tokenA, tokenB]
      (.ok [tokenExchange.toArbKey tokenKey])),
    .sync (.refreshed tokenTask 0 [tokenExchange.toArbKey tokenKey] (.number 7)
      (.ok (tokenPools.map (AmmCorePool.new "ethereum"))))]

/-- The block is 7, and the source finds this key and these pools. -/
def keyOracle : tokenRouter.Oracle where
  blockNumber := fun _ _ => .ok 7
  source := fun _ _ _ => ⟨fun _ _ => .ok [tokenKey], fun _ _ => .ok tokenPools⟩

theorem runs_tokenRequests : ∃ s, tokenRouter.RunsOn keyOracle decimalCodec tokenRequests s := by
  refine ⟨_, ((Run.one (.sync (.pinned 7 0 rfl))).snoc
    (.sync (.discovered (i := 0) _ rfl rfl))).snoc
    (.sync (.refreshed (i := 0) _ rfl rfl)), fun n ev hev => ?_⟩
  match n with
  | 0 => cases hev; rfl
  | 1 => cases hev; exact ⟨_, rfl, rfl⟩
  | 2 => cases hev; exact ⟨_, rfl, rfl⟩
  | _ + 3 => cases hev

/--
Both tokens were asked for, and the key that was found came back at the block that was pinned.
-/
theorem asked_tokenRequests : ∃ c ∈ tokenSettings.spawned, ∃ (block : UInt64) (n : Nat)
    (tokens : List CoreAssetId), block = 7 ∧ tokens.length = 2 ∧
    Asked tokenRouter.deployment.worker (syncEvents tokenRequests).dropLast n tokenTask 0 block
      [tokenExchange.toArbKey tokenKey] ∧
    (keyOracle.source n tokenTask 0).discover (chainId c.chainId) tokens = .ok [tokenKey] ∧
    [tokenExchange.toArbKey tokenKey].filterMap AmmRpcExchange.toCoreKey
      = [{ tokenKey with exchange := "uniswap_v3" }] := by
  obtain ⟨s, hrun⟩ := runs_tokenRequests
  obtain ⟨c, hc, ex, block, n, tokens, found, hex, -, hblock, hasked, htokens, hfound, -, -,
    hback⟩ :=
    sources_asked id tokenSettings tokenRouter build_tokenSettings keyOracle decimalCodec
      tokenRequests s hrun (syncEvents tokenRequests).dropLast [] tokenTask 0 _ _ _ rfl
  obtain rfl : c = _ := List.mem_singleton.mp hc
  obtain rfl : ex = tokenExchange := (Option.some.inj hex).symm
  obtain rfl : found = [tokenKey] := (Except.ok.inj hfound).symm
  refine ⟨_, hc, block, n, tokens, (BlockId.number.inj hblock).symm, ?_, hasked, hfound, ?_⟩
  · rw [← htokens.length_eq]
    rfl
  · refine hback (by decide) (by decide) fun key hkey => ?_
    obtain rfl := List.mem_singleton.mp hkey
    exact ⟨rfl, isAddressOn_tokenKey⟩

end

end ArbRouter

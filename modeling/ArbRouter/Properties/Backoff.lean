import ArbRouter.Adapters.Backoff
import ArbRouter.Properties.Setup

/-!
# How long the loops wait

* `retry_spec` — how often an operation is tried, and the waits in between
* `binance_run_spec` — reconnecting loses no message, and its waits double up to a minute
-/

namespace ArbRouter

open Infra

/-! ## Retrying -/

section

variable {T E : Type} {checks : Bool} {attempts : Nat} {baseDelay : StdDuration}
  {op : Nat → Except E T}

/-- The exponent is cut off long before the power or the product could overflow. -/
theorem toNanos_saturatingMul_pow (baseDelay : StdDuration) (i : Nat) :
    (baseDelay.saturatingMul (UInt32.ofNat (2 ^ min i 16))).toNanos
      = min (baseDelay.toNanos * 2 ^ min i 16) StdDuration.MAX.toNanos := by
  have hpow : 2 ^ min i 16 ≤ 2 ^ 16 := Nat.pow_le_pow_right (by decide) (Nat.min_le_right _ _)
  rw [StdDuration.toNanos_saturatingMul, UInt32.toNat_ofNat_of_lt' (hpow.trans_lt (by decide))]

/-- While the attempts fit in 32 bits, the factor is a power of two. -/
theorem backoffFactor_eq {i : Nat} (h : i + 1 < 2 ^ 32) :
    backoffFactor checks (i + 1) = .ok (UInt32.ofNat (2 ^ min i 16)) := by
  have hnarrowed : (UInt32.ofNat (i + 1)).toNat = i + 1 := UInt32.toNat_ofNat_of_lt' h
  have hne : UInt32.ofNat (i + 1) ≠ 0 := by
    intro hzero
    rw [hzero] at hnarrowed
    cases hnarrowed
  have hpred : (UInt32.ofNat (i + 1) - 1).toNat = i := by
    rw [UInt32.toNat_sub_of_le _ _ (by rw [UInt32.le_iff_toNat_le, hnarrowed]; simp), hnarrowed]
    simp
  have hexponent : (min (UInt32.ofNat (i + 1) - 1) MAX_EXPONENT).toNat = min i 16 := by
    have hmax : MAX_EXPONENT.toNat = 16 := rfl
    have hle_iff : UInt32.ofNat (i + 1) - 1 ≤ MAX_EXPONENT ↔ i ≤ 16 := by
      rw [UInt32.le_iff_toNat_le, hpred, hmax]
    show (if UInt32.ofNat (i + 1) - 1 ≤ MAX_EXPONENT then UInt32.ofNat (i + 1) - 1
      else MAX_EXPONENT).toNat = _
    by_cases hle : i ≤ 16
    · rw [if_pos (hle_iff.mpr hle), hpred, min_eq_left hle]
    · rw [if_neg fun h => hle (hle_iff.mp h), hmax, min_eq_right (not_le.mp hle).le]
  have hpow : 2 ^ min i 16 ≤ 2 ^ 16 := Nat.pow_le_pow_right (by decide) (Nat.min_le_right _ _)
  unfold backoffFactor saturatingPow2
  rw [if_neg fun hoverflow => hne hoverflow.2, hexponent]
  rw [min_eq_left (show 2 ^ min i 16 ≤ 2 ^ 32 - 1 from hpow.trans (by decide))]

/-- The narrowed attempt wraps around to zero, from which nothing can be taken off. -/
theorem backoffFactor_overflow : backoffFactor true (2 ^ 32) = .error .overflow := by
  unfold backoffFactor
  rw [if_pos ⟨rfl, by decide⟩]

/-- Without overflow checks there is always a factor. -/
theorem exists_backoffFactor (attempt : Nat) :
    ∃ factor, backoffFactor false attempt = .ok factor := by
  unfold backoffFactor
  rw [if_neg fun hoverflow => Bool.false_ne_true hoverflow.1]
  exact ⟨_, rfl⟩

/-- The loop returns the first success, or the last of the attempts, after the waits in between. -/
theorem retryLoop_eq {factor : Nat → UInt32} {n : Nat} : ∀ {fuel attempt : Nat}, n < fuel →
    (∀ j < n, ∃ err, op (attempt + j) = .error err) → attempt + n < attempts →
    ((∃ value, op (attempt + n) = .ok value) ∨ attempt + n + 1 = attempts) →
    (∀ j < attempt + n, backoffFactor checks (j + 1) = .ok (factor j)) →
    retryLoop checks attempts baseDelay op fuel attempt
      = .ok (op (attempt + n),
          (List.range' attempt n).map fun j => baseDelay.saturatingMul (factor j)) := by
  induction n with
  | zero =>
    intro fuel attempt hfuel _ _ hend _
    obtain ⟨fuel, rfl⟩ : ∃ m, fuel = m + 1 := ⟨fuel - 1, by omega⟩
    unfold retryLoop
    rw [Nat.add_zero] at hend ⊢
    cases hop : op attempt with
    | ok value => rfl
    | error err =>
      rcases hend with ⟨value, hvalue⟩ | hlast
      · rw [hop] at hvalue
        cases hvalue
      · dsimp only
        rw [if_pos hlast.ge]
        rfl
  | succ n ih =>
    intro fuel attempt hfuel hfails hlt hend hfactor
    obtain ⟨fuel, rfl⟩ : ∃ m, fuel = m + 1 := ⟨fuel - 1, by omega⟩
    obtain ⟨err, herr⟩ := hfails 0 (Nat.succ_pos n)
    rw [Nat.add_zero] at herr
    -- one call fails, and the others are those of the loop one attempt further on
    have hnext : attempt + (n + 1) = attempt + 1 + n := by omega
    rw [hnext] at hlt hend hfactor ⊢
    have hrest : retryLoop checks attempts baseDelay op fuel (attempt + 1)
        = .ok (op (attempt + 1 + n),
            (List.range' (attempt + 1) n).map fun j => baseDelay.saturatingMul (factor j)) := by
      refine ih (by omega) (fun j hj => ?_) hlt hend hfactor
      rw [show attempt + 1 + j = attempt + (j + 1) by omega]
      exact hfails (j + 1) (by omega)
    unfold retryLoop
    rw [herr]
    dsimp only
    rw [if_neg (by omega), hfactor attempt (by omega), hrest]
    rfl

/-- With overflow checks, the failure of as many calls as 32 bits can count is fatal. -/
theorem retryLoop_overflow {n : Nat} : ∀ {fuel attempt : Nat}, n < fuel →
    attempt + n + 1 = 2 ^ 32 → (∀ j ≤ n, ∃ err, op (attempt + j) = .error err) → 2 ^ 32 < attempts →
    retryLoop true attempts baseDelay op fuel attempt = .error .overflow := by
  induction n with
  | zero =>
    intro fuel attempt hfuel hcount hfails hlt
    obtain ⟨fuel, rfl⟩ : ∃ m, fuel = m + 1 := ⟨fuel - 1, by omega⟩
    obtain ⟨err, herr⟩ := hfails 0 le_rfl
    rw [Nat.add_zero] at hcount herr
    unfold retryLoop
    rw [herr]
    dsimp only
    rw [if_neg (by omega), hcount, backoffFactor_overflow]
    rfl
  | succ n ih =>
    intro fuel attempt hfuel hcount hfails hlt
    obtain ⟨fuel, rfl⟩ : ∃ m, fuel = m + 1 := ⟨fuel - 1, by omega⟩
    obtain ⟨err, herr⟩ := hfails 0 (Nat.zero_le _)
    rw [Nat.add_zero] at herr
    have hrest : retryLoop true attempts baseDelay op fuel (attempt + 1) = .error .overflow := by
      refine ih (by omega) (by omega) (fun j hj => ?_) hlt
      rw [show attempt + 1 + j = attempt + (j + 1) by omega]
      exact hfails (j + 1) (by omega)
    unfold retryLoop
    rw [herr]
    dsimp only
    rw [if_neg (by omega), backoffFactor_eq (by omega), hrest]
    rfl

/-- There is a first call that succeeds, unless the attempts are used up before. -/
theorem exists_last_call (op : Nat → Except E T) {attempts : Nat} (h : 0 < attempts) :
    ∃ k < attempts, (∀ j < k, ∃ err, op j = .error err) ∧
      ((∃ value, op k = .ok value) ∨ k + 1 = attempts) := by
  have hexists : ∃ k, (∃ value, op k = .ok value) ∨ k + 1 = attempts :=
    ⟨attempts - 1, Or.inr (by omega)⟩
  classical
  refine ⟨Nat.find hexists, ?_, ?_, Nat.find_spec hexists⟩
  · have hle := Nat.find_min' hexists (Or.inr (by omega : attempts - 1 + 1 = attempts))
    omega
  · intro j hj
    have hnot := Nat.find_min hexists hj
    cases hop : op j with
    | ok value => exact absurd (Or.inl ⟨value, hop⟩) hnot
    | error err => exact ⟨err, rfl⟩

/--
**Retrying** calls the operation until it succeeds, `max_attempts` times at most and at least once,
and returns what the last call returned. In up to 2^32 calls the `i`-th wait is the base delay
doubled `min i 16` times, cut off at the longest duration. Only a build with overflow checks can
panic, and does after 2^32 failures.
-/
theorem retry_spec (checks : Bool) (maxAttempts : Nat) (baseDelay : StdDuration)
    (op : Nat → Except E T) :
    ∃ k < max maxAttempts 1, (∀ j < k, ∃ err, op j = .error err) ∧
      ((∃ value, op k = .ok value) ∨ k + 1 = max maxAttempts 1) ∧
      (checks = false ∨ k < 2 ^ 32 → ∃ waits,
        retryWithBackoff checks maxAttempts baseDelay op = .ok (op k, waits) ∧ waits.length = k ∧
        (k < 2 ^ 32 → waits.map StdDuration.toNanos = (List.range k).map fun i =>
          min (baseDelay.toNanos * 2 ^ min i 16) StdDuration.MAX.toNanos)) ∧
      (checks = true → 2 ^ 32 ≤ k →
        retryWithBackoff checks maxAttempts baseDelay op = .error .overflow) := by
  obtain ⟨k, hlt, hfails, hend⟩ := exists_last_call op (show 0 < max maxAttempts 1 by omega)
  have hloop : ∀ factor : Nat → UInt32,
      (∀ j < k, backoffFactor checks (j + 1) = .ok (factor j)) →
      retryWithBackoff checks maxAttempts baseDelay op
        = .ok (op k, (List.range k).map fun j => baseDelay.saturatingMul (factor j)) := by
    intro factor hfactor
    have hrun : retryLoop checks (max maxAttempts 1) baseDelay op (max maxAttempts 1) 0
        = .ok (op (0 + k), (List.range' 0 k).map fun j => baseDelay.saturatingMul (factor j)) := by
      refine retryLoop_eq hlt (fun j hj => ?_) ?_ ?_ ?_
      all_goals rw [Nat.zero_add]
      · exact hfails j hj
      · exact hlt
      · exact hend
      · exact hfactor
    rwa [Nat.zero_add, ← List.range_eq_range'] at hrun
  refine ⟨k, hlt, hfails, hend, ?_, ?_⟩
  · intro hsafe
    by_cases hbits : k < 2 ^ 32
    · have hfactor : ∀ j < k, backoffFactor checks (j + 1) = .ok (UInt32.ofNat (2 ^ min j 16)) :=
        fun j hj => backoffFactor_eq (by omega)
      refine ⟨_, hloop _ hfactor, by rw [List.length_map, List.length_range], fun _ => ?_⟩
      rw [List.map_map]
      exact List.map_congr_left fun i _ => toNanos_saturatingMul_pow baseDelay i
    · obtain rfl := hsafe.resolve_right hbits
      choose factor hfactor using exists_backoffFactor
      exact ⟨_, hloop (fun j => factor (j + 1)) fun j _ => hfactor (j + 1),
        by rw [List.length_map, List.length_range], fun h => absurd h hbits⟩
  · rintro rfl hbits
    refine retryLoop_overflow (n := 2 ^ 32 - 1) (by omega) (by omega) ?_ (by omega)
    intro j hj
    rw [Nat.zero_add]
    exact hfails j (by omega)

end

/-! ## Reconnecting -/

section

variable [RustDecimal]

/-- The wait after the `i`-th connection, counted from zero. -/
def reconnectDelay (i : Nat) : StdDuration := StdDuration.fromSecs (UInt64.ofNat (min (2 ^ i) 60))

omit [RustDecimal] in
theorem toNanos_reconnectDelay (i : Nat) :
    (reconnectDelay i).toNanos = min (2 ^ i) 60 * 1000000000 := by
  have hle : min (2 ^ i) 60 ≤ 60 := min_le_right _ _
  have hsecs : (UInt64.ofNat (min (2 ^ i) 60)).toNat = min (2 ^ i) 60 :=
    UInt64.toNat_ofNat_of_lt' (hle.trans_lt (by decide))
  show (UInt64.ofNat (min (2 ^ i) 60)).toNat * 1000000000 + 0 = _
  rw [hsecs, Nat.add_zero]

omit [RustDecimal] in
/-- Doubling a wait never overflows, and the next wait is the double up to a minute. -/
theorem double_reconnectDelay (i : Nat) :
    ∃ doubled, (reconnectDelay i).mul 2 = .ok doubled ∧
      doubled.min RECONNECT_MAX = reconnectDelay (i + 1) := by
  have htwo : (2 : UInt32).toNat = 2 := rfl
  have hmax : RECONNECT_MAX.toNanos = 60 * 1000000000 := rfl
  have hle : min (2 ^ i) 60 ≤ 60 := min_le_right _ _
  have hchecked := (reconnectDelay i).toNanos_checkedMul 2
  rw [toNanos_reconnectDelay, htwo, if_pos (by omega)] at hchecked
  obtain ⟨doubled, hdoubled, hnanos⟩ := Option.map_eq_some_iff.mp hchecked
  refine ⟨doubled, ?_, StdDuration.toNanos_injective ?_⟩
  · unfold StdDuration.mul
    rw [hdoubled]
  · rw [StdDuration.toNanos_min, hnanos, hmax, toNanos_reconnectDelay, pow_succ]
    show min _ _ = _
    omega

/--
**Reconnecting loses nothing:** the messages of all connections are ingested as if there were one.
-/
theorem BinanceFeed.reconnect_eq (feed : BinanceFeed) (decode : String → Option BookTicker) :
    ∀ (connections : List Connection) (i : Nat) (store : PriceStore),
      feed.reconnect decode connections (reconnectDelay i) store
        = (feed.stream decode connections.flatten store).map fun store' =>
            (store', (List.range' i connections.length).map reconnectDelay) := by
  intro connections
  induction connections with
  | nil => exact fun _ _ => rfl
  | cons messages rest ih =>
    intro i store
    obtain ⟨doubled, hmul, hnext⟩ := double_reconnectDelay i
    have hstream : feed.stream decode (messages :: rest).flatten store
        = (feed.stream decode messages store >>= feed.stream decode rest.flatten) := by
      unfold stream
      rw [List.flatten_cons, List.foldlM_append]
    rw [hstream]
    unfold reconnect
    cases feed.stream decode messages store with
    | error panic => rfl
    | ok store' =>
      show ((reconnectDelay i).mul 2 >>= fun doubled => _) = Except.map _ _
      rw [hmul]
      show (feed.reconnect decode rest (doubled.min RECONNECT_MAX) store' >>= fun r => _) = _
      have hbind : (Except.ok store' >>= feed.stream decode rest.flatten)
          = feed.stream decode rest.flatten store' := rfl
      rw [hnext, ih (i + 1) store', hbind]
      cases feed.stream decode rest.flatten store' <;> rfl

omit [RustDecimal] in
/-- The table of symbols is empty exactly when no asset names one. -/
theorem isEmpty_symbols_iff {toUppercase : String → String} {settings : Settings} {feeds : Feeds}
    (hbuild : buildValuation toUppercase settings = .ok feeds) :
    feeds.binance.symbols.keys.isEmpty = true ↔ ∀ a ∈ settings.assets, a.binanceSymbol = none := by
  obtain ⟨hlisted, hne⟩ := symbols_of_buildValuation hbuild
  rw [List.isEmpty_iff]
  constructor
  · intro hnil a ha
    cases hsymbol : a.binanceSymbol with
    | none => rfl
    | some symbol =>
      -- the ids were parsed when the feeds were built
      have hparsed : malformed a.id = none := by
        have hnone := errorOf_buildValuation toUppercase settings
        rw [hbuild] at hnone
        exact List.findSome?_eq_none_iff.mp hnone.symm a.id (List.mem_map_of_mem ha)
      rw [← errorOf_new, errorOf_eq_none] at hparsed
      obtain ⟨asset, hasset⟩ := hparsed
      have hmem := (hlisted (toUppercase symbol) asset).mpr
        ⟨a, ha, (AssetId.asStr_of_new hasset).symm, by rw [hsymbol]; rfl⟩
      have hlook : feeds.binance.symbols.lookup (toUppercase symbol) = none := by
        rw [AList.lookup_eq_none, AList.mem_keys, hnil]
        exact List.not_mem_nil
      rw [hlook] at hmem
      exact absurd hmem List.not_mem_nil
  · intro hnone
    refine List.eq_nil_iff_forall_not_mem.mpr fun symbol hsymbol => ?_
    rw [← AList.mem_keys, ← AList.lookup_isSome, Option.isSome_iff_exists] at hsymbol
    obtain ⟨assets, hlook⟩ := hsymbol
    obtain ⟨asset, hasset⟩ := List.exists_mem_of_ne_nil _ (hne symbol assets hlook)
    obtain ⟨a, ha, -, hnamed⟩ := (hlisted symbol asset).mp (by rw [hlook]; exact hasset)
    rw [hnone a ha] at hnamed
    cases hnamed

/--
**The Binance feed across connections.** Without a symbol in the settings it returns at once and
leaves the store alone. Otherwise, after any number of connections, the store is what one connection
with all their messages would have left, a panic included, and the waits in between were 1, 2, 4, …
seconds and never more than a minute.
-/
theorem binance_run_spec (toUppercase : String → String) (settings : Settings) (feeds : Feeds)
    (hbuild : buildValuation toUppercase settings = .ok feeds) (decode : String → Option BookTicker)
    (connections : List Connection) (store : PriceStore) :
    ((∀ a ∈ settings.assets, a.binanceSymbol = none) →
      feeds.binance.run decode connections store = .ok (store, [])) ∧
    ((∃ a ∈ settings.assets, a.binanceSymbol ≠ none) →
      feeds.binance.run decode connections store
        = (feeds.binance.stream decode connections.flatten store).map fun store' =>
            (store', (List.range connections.length).map reconnectDelay)) := by
  constructor
  · intro hnone
    unfold BinanceFeed.run
    rw [if_pos ((isEmpty_symbols_iff hbuild).mpr hnone)]
  · rintro ⟨a, ha, hsymbol⟩
    unfold BinanceFeed.run
    rw [if_neg fun hempty => hsymbol ((isEmpty_symbols_iff hbuild).mp hempty a ha)]
    rw [List.range_eq_range']
    exact feeds.binance.reconnect_eq decode connections 0 store

end

section

attribute [local instance] RustDecimal.reference

/-- Two connections with a ticker each. -/
def wethConnections : List Connection := [[("", fun _ => 0)], [("", fun _ => 1)]]

theorem run_wethConnections : ∃ store',
    wethFeeds.binance.run (fun _ => some ⟨"ETHUSDT", "1999.5", "2000.5"⟩) wethConnections
        wethFeeds.store
      = .ok (store', [StdDuration.fromSecs 1, StdDuration.fromSecs 2]) := by
  rw [(binance_run_spec id wethSettings wethFeeds buildValuation_wethSettings
    (fun _ => some ⟨"ETHUSDT", "1999.5", "2000.5"⟩) wethConnections wethFeeds.store).2
      ⟨_, List.mem_cons_self, by decide⟩]
  have hok : (wethFeeds.binance.stream (fun _ => some ⟨"ETHUSDT", "1999.5", "2000.5"⟩)
      wethConnections.flatten wethFeeds.store).toOption.isSome = true := by
    decide +kernel
  obtain ⟨store', hstore⟩ := Option.isSome_iff_exists.mp hok
  rw [toOption_eq_some.mp hstore]
  exact ⟨store', rfl⟩

end

end ArbRouter

import ArbRouter.Adapters.Binance
import ArbRouter.Primitives.Duration

/-!
# Loops that wait between attempts

`adapters/rpc/retry.rs`, and the reconnect loop of `adapters/valuation/binance.rs`. Both return the
waits beside their result, in order.
-/

namespace ArbRouter

open Infra

/-! ## Retrying -/

section

variable {T E : Type}

/-- Cap on the backoff exponent. -/
def MAX_EXPONENT : UInt32 := 16

/-- `2u32.saturating_pow(exponent)`. -/
def saturatingPow2 (exponent : UInt32) : UInt32 :=
  UInt32.ofNat (min (2 ^ exponent.toNat) (2 ^ 32 - 1))

/--
The factor after the failure of the `attempt`-th call. The attempt is narrowed to 32 bits; taking
one off zero panics in builds with overflow checks, and wraps in the others.
-/
def backoffFactor (checks : Bool) (attempt : Nat) : Except Panic UInt32 :=
  let narrowed := UInt32.ofNat attempt
  if checks ∧ narrowed = 0 then .error .overflow
  else .ok (saturatingPow2 (min (narrowed - 1) MAX_EXPONENT))

/--
The loop of `retry_with_backoff`, where `op i` is what the call after `i` failures returns.

`fuel` bounds the number of calls; `retryWithBackoff` gives as many as there are attempts.
-/
def retryLoop (checks : Bool) (attempts : Nat) (baseDelay : StdDuration) (op : Nat → Except E T) :
    Nat → Nat → Except Panic (Except E T × List StdDuration)
  | 0, attempt => .ok (op attempt, [])
  | fuel + 1, attempt =>
    match op attempt with
    | .ok value => .ok (.ok value, [])
    | .error err =>
      if attempts ≤ attempt + 1 then .ok (.error err, [])
      else do
        let factor ← backoffFactor checks (attempt + 1)
        let (result, waits) ← retryLoop checks attempts baseDelay op fuel (attempt + 1)
        return (result, baseDelay.saturatingMul factor :: waits)

/-- `retry_with_backoff`: `max_attempts` of 0 is treated as 1. -/
def retryWithBackoff (checks : Bool) (maxAttempts : Nat) (baseDelay : StdDuration)
    (op : Nat → Except E T) : Except Panic (Except E T × List StdDuration) :=
  let attempts := max maxAttempts 1
  retryLoop checks attempts baseDelay op attempts 0

end

/-! ## Reconnecting -/

section

variable [RustDecimal]

/-- Upper bound on reconnect backoff. -/
def RECONNECT_MAX : StdDuration := StdDuration.fromSecs 60

/-- A connection: the text messages that arrive before it ends, in whichever way. -/
abbrev Connection := List (String × (Nat → OffsetDateTime))

/-- The loop of `BinanceFeed::run` for as long as these connections last. -/
def BinanceFeed.reconnect (feed : BinanceFeed) (decode : String → Option BookTicker) :
    List Connection → StdDuration → PriceStore → Except Panic (PriceStore × List StdDuration)
  | [], _, store => .ok (store, [])
  | messages :: rest, backoff, store => do
    let store ← feed.stream decode messages store
    let doubled ← backoff.mul 2
    let (store, waits) ← feed.reconnect decode rest (doubled.min RECONNECT_MAX) store
    return (store, backoff :: waits)

/-- `BinanceFeed::run`: without symbols it returns at once, otherwise never. -/
def BinanceFeed.run (feed : BinanceFeed) (decode : String → Option BookTicker)
    (connections : List Connection) (store : PriceStore) :
    Except Panic (PriceStore × List StdDuration) :=
  if feed.symbols.keys.isEmpty then .ok (store, [])
  else feed.reconnect decode connections (StdDuration.fromSecs 1) store

end

end ArbRouter

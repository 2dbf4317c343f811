import ArbRouter.Adapters.PoolStore

/-!
# Pools of `amm-core`

`adapters/exchanges`: the boundary between base-unit decimals and the 256-bit integers of
`amm-core`, between asset ids and its numeric ids, and the `Pool` port over one of its pools.

`alloy` and `amm-core` are not part of the verified sources. The address parser, the hex printer
and the hash are the parameters of `Alloy`; a `CorePool` quotes with an arbitrary partial function.

* `amountToU256_ofNat`, `u256ToAmount_eq_some` — the conversions are exact on integers
* `exists_coreAsset` — every asset id maps to an asset of `amm-core`
* `AmmCorePool.quote_ofNat` — a quote of an integer is the quote of the wrapped pool
-/

namespace ArbRouter

open Infra RustDecimal

abbrev U256 := BitVec 256

abbrev Address := BitVec 160

/-- What is used of `alloy`. -/
class Alloy where
  /-- `s.parse::<Address>().ok()` -/
  parseAddress : String → Option Address
  /-- `format!("{addr:#x}")` -/
  lowerHex : Address → String
  keccak256 : List UInt8 → BitVec 256

/-- An address is printed as `0x` and 40 lower-case digits, and parsed back from them. -/
class LawfulAlloy [Alloy] : Prop where
  lowerHex_eq : ∀ addr : Address, ∃ digits : List Char,
    (Alloy.lowerHex addr).toList = '0' :: 'x' :: digits ∧ digits.length = 40 ∧
      ∀ c ∈ digits, c.isDigit = true ∨ 'a' ≤ c ∧ c ≤ 'f'
  parseAddress_lowerHex : ∀ addr : Address, Alloy.parseAddress (Alloy.lowerHex addr) = some addr

/-- An address is parsed from hexadecimal digits, with no colon among them. -/
class StrictAlloy [Alloy] : Prop where
  parseAddress_colon : ∀ s : String, ':' ∈ s.toList → Alloy.parseAddress s = none

/-! ## Amounts -/

/-- The bytes of a string. -/
def bytes (s : String) : List UInt8 := s.toList.flatMap String.utf8EncodeChar

/-- `s.parse::<u128>().ok()`: an optional plus sign, then digits, in range. -/
def parseU128 (s : String) : Option Nat :=
  let digits := if s.toList.head? = some '+' then s.toList.tail else s.toList
  if digits ≠ [] ∧ digits.all Char.isDigit ∧ Nat.ofDigitChars 10 digits 0 < 2 ^ 128 then
    some (Nat.ofDigitChars 10 digits 0)
  else none

def U256.checkedMul (a b : U256) : Option U256 :=
  if a.toNat * b.toNat < 2 ^ 256 then some (a * b) else none

def U256.checkedAdd (a b : U256) : Option U256 :=
  if a.toNat + b.toNat < 2 ^ 256 then some (a + b) else none

/-- The digit-by-digit fallback for values beyond `u128::MAX`. -/
def digitLoop : List UInt8 → U256 → Option U256
  | [], acc => some acc
  | ch :: rest, acc =>
    let digit := ch - 48
    if 9 < digit then none
    else do
      let scaled ← acc.checkedMul 10
      digitLoop rest (← scaled.checkedAdd (BitVec.ofNat 256 digit.toNat))

theorem U256.toNat_ofNat {n : Nat} (h : n < 2 ^ 256) : (BitVec.ofNat 256 n).toNat = n := by
  rw [BitVec.toNat_ofNat]
  exact Nat.mod_eq_of_lt h

/-- The largest mantissa is far below `2^128`. -/
theorem lt_two_pow_of_le_maxMantissa {n k : Nat} (h : n ≤ maxMantissa) (hk : 96 ≤ k) :
    n < 2 ^ k :=
  (lt_two_pow_iff.mpr h).trans_le (Nat.pow_le_pow_right (by decide) hk)

/-- Parsing what an integer prints gives the integer. -/
theorem parseU128_repr {n : Nat} (h : n < 2 ^ 128) : parseU128 n.repr = some n := by
  have hdig : ∀ c ∈ Nat.toDigits 10 n, c.isDigit = true := fun c hc =>
    Nat.isDigit_of_mem_toDigits (by decide) (by decide) hc
  have hplus : (Nat.toDigits 10 n).head? ≠ some '+' := by
    intro hc
    have := hdig '+' (List.mem_of_mem_head? hc)
    simp at this
  unfold parseU128
  rw [Nat.toList_repr, if_neg hplus]
  simp only [Nat.ofDigitChars_ten_toDigits]
  exact if_pos ⟨Nat.toDigits_ne_nil, List.all_eq_true.mpr hdig, h⟩

variable [RustDecimal]

/-- `amount_to_u256`. -/
def amountToU256 (amount : Amount) : Option U256 :=
  let d := amount.val
  if d.neg then none
  else if (fract d).toRat ≠ Decimal.zero.toRat then none
  else
    match parseU128 (toStr d) with
    | some n => some (BitVec.ofNat 256 n)
    | none => digitLoop (bytes (toStr d)) 0

/-- `u256_to_amount`. -/
def u256ToAmount (value : U256) : Option Amount := (fromStr value.toNat.repr).map Amount.mk

/-- An integral amount is converted exactly. -/
theorem amountToU256_ofNat (n : Nat) (h : n ≤ maxMantissa) :
    amountToU256 (Amount.ofNat n h) = some (BitVec.ofNat 256 n) := by
  have hfract : ¬ (fract (Decimal.ofNat n h)).toRat ≠ Decimal.zero.toRat := by
    rw [fract_ofNat, Decimal.toRat_zero]
    exact fun hne => hne rfl
  unfold amountToU256
  show (if (Decimal.ofNat n h).neg then none else _) = _
  rw [if_neg (by simp [Decimal.ofNat])]
  show (if (fract (Decimal.ofNat n h)).toRat ≠ Decimal.zero.toRat then none else
    match parseU128 (toStr (Decimal.ofNat n h)) with
    | some m => some (BitVec.ofNat 256 m)
    | none => digitLoop (bytes (toStr (Decimal.ofNat n h))) 0) = _
  rw [if_neg hfract, toStr_ofNat, parseU128_repr (lt_two_pow_of_le_maxMantissa h (by decide))]

/-- An amount with a sign bit is rejected. -/
theorem amountToU256_of_neg {amount : Amount} (h : amount.val.neg = true) :
    amountToU256 amount = none := by
  simp [amountToU256, h]

/-- Exactly the integers up to the largest mantissa are amounts. -/
theorem u256ToAmount_eq_some {value : U256} {amount : Amount} :
    u256ToAmount value = some amount ↔
      ∃ h : value.toNat ≤ maxMantissa, amount = Amount.ofNat value.toNat h := by
  unfold u256ToAmount
  by_cases h : value.toNat ≤ maxMantissa
  · rw [fromStr_repr _ h]
    constructor
    · intro he
      exact ⟨h, (Option.some.inj he).symm⟩
    · rintro ⟨_, rfl⟩
      rfl
  · rw [fromStr_repr_none _ (not_le.mp h)]
    constructor
    · intro he
      simp at he
    · rintro ⟨hle, -⟩
      exact absurd hle h

/-! ## Assets -/

/-- An asset id of `amm-core`: a numeric chain and a 32-byte slot. -/
structure CoreAssetId where
  chain : UInt64
  token : BitVec 256
deriving DecidableEq

/-- `chain_id`: the canonical id of a known chain, the FNV-1a hash of any other name. -/
def chainId (name : String) : UInt64 :=
  match name with
  | "ethereum" => 1
  | "optimism" => 10
  | "bsc" | "bnb" | "bnbchain" => 56
  | "polygon" => 137
  | "base" => 8453
  | "arbitrum" => 42161
  | "avalanche" => 43114
  | other => (bytes other).foldl (fun h b => (h ^^^ b.toUInt64) * 0x100000001b3) 0xcbf29ce484222325

variable [Alloy]

/-- `asset_address`: the second of the fields that colons separate, as an address. -/
def assetAddress (asset : AssetId) : Except ExchangeError Address :=
  match (asset.asStr.toList.splitOn ':')[1]?.bind fun hex =>
      Alloy.parseAddress (String.ofList hex) with
  | some addr => .ok addr
  | none => .error (.decode ("asset id `" ++ asset.asStr ++ "` is not `chain:0x…`"))

/-- `core_asset`: an address is used directly, any other token is hashed. -/
def coreAsset (asset : AssetId) : Option CoreAssetId := do
  let (chain, token) ← splitOnce asset.asStr
  let slot := match Alloy.parseAddress token with
    | some addr => addr.setWidth 256
    | none => Alloy.keccak256 (bytes token)
  return ⟨chainId chain, slot⟩

omit [RustDecimal] in
/-- Every asset id maps to an asset of `amm-core`: its string has a colon. -/
theorem exists_coreAsset (asset : AssetId) : ∃ core, coreAsset asset = some core := by
  obtain ⟨c, t, hs⟩ := asset.exists_splitOnce
  unfold coreAsset
  rw [hs]
  exact ⟨_, rfl⟩

/-- `arb_asset`: the address of an asset of `amm-core`, under the chain's name. -/
def arbAsset (chain : String) (asset : CoreAssetId) : Option AssetId :=
  (AssetId.new (chain ++ ":" ++ Alloy.lowerHex (asset.token.setWidth 160))).toOption

/-! ## Pools -/

/-- A pool of `amm-core`. `quote` gives the raw output, or nothing where the crate errs. -/
structure CorePool where
  id : String
  assets : List CoreAssetId
  quote : CoreAssetId → U256 → CoreAssetId → Option U256

/-- A `Pool` backed by a pool of `amm-core`. -/
structure AmmCorePool where
  id : PoolId
  assets : List AssetId
  inner : CorePool
  built : ∃ chain, id = ⟨inner.id⟩ ∧ assets = inner.assets.filterMap (arbAsset chain)

/-- `AmmCorePool::new`. -/
def AmmCorePool.new (chain : String) (inner : CorePool) : AmmCorePool where
  id := ⟨inner.id⟩
  assets := inner.assets.filterMap (arbAsset chain)
  inner := inner
  built := ⟨chain, rfl, rfl⟩

/-- A call of the wrapped pool: the pool, the side sold, the raw amount and the side bought. -/
structure InnerCall where
  pool : CorePool
  source : CoreAssetId
  raw : U256
  destination : CoreAssetId

/-- The call a quote makes, unless it is refused before. -/
def AmmCorePool.innerCall (p : AmmCorePool) (pair : Pair) (amountIn : Amount) :
    Option InnerCall := do
  let source ← coreAsset pair.source
  let destination ← coreAsset pair.destination
  let raw ← amountToU256 amountIn
  if raw = 0 then none else some ⟨p.inner, source, raw, destination⟩

/-- What a quote makes of the answer to its call. -/
def InnerCall.answer (call : InnerCall) : Option Amount := do
  let out ← call.pool.quote call.source call.raw call.destination
  if out = 0 then none else u256ToAmount out

/-- `AmmCorePool::quote`. -/
def AmmCorePool.quote (p : AmmCorePool) (pair : Pair) (amountIn : Amount) : Option Amount := do
  let call ← p.innerCall pair amountIn
  call.answer

/-- The call of an integral quote: refused exactly for zero. -/
theorem AmmCorePool.innerCall_ofNat (p : AmmCorePool) {pair : Pair}
    {source destination : CoreAssetId}
    (hs : coreAsset pair.source = some source) (hd : coreAsset pair.destination = some destination)
    {n : Nat} (h : n ≤ maxMantissa) :
    p.innerCall pair (Amount.ofNat n h)
      = if n = 0 then none else some ⟨p.inner, source, BitVec.ofNat 256 n, destination⟩ := by
  have hzero : BitVec.ofNat 256 n = 0 ↔ n = 0 := by
    rw [← BitVec.toNat_inj, U256.toNat_ofNat (lt_two_pow_of_le_maxMantissa h (by decide))]
    rfl
  unfold innerCall
  simp only [hs, hd, amountToU256_ofNat, Option.bind_eq_bind, Option.bind_some, hzero]

omit [Alloy] in
/-- An answer is the integer the wrapped pool gave, if it is a positive one of 96 bits. -/
theorem InnerCall.answer_eq_some {call : InnerCall} {out : Amount} :
    call.answer = some out ↔ ∃ y, call.pool.quote call.source call.raw call.destination = some y ∧
      y.toNat ≠ 0 ∧ ∃ h : y.toNat ≤ maxMantissa, out = Amount.ofNat y.toNat h := by
  have hzero : ∀ y : U256, y = 0 ↔ y.toNat = 0 := fun y => by
    rw [← BitVec.toNat_inj]
    rfl
  unfold answer
  cases hq : call.pool.quote call.source call.raw call.destination with
  | none => simp
  | some y =>
    simp only [Option.bind_eq_bind, Option.bind_some, Option.some.injEq, exists_eq_left', hzero y]
    by_cases h0 : y.toNat = 0
    · simp [h0]
    · rw [if_neg h0, u256ToAmount_eq_some]
      simp [h0]

/-- **A quote of an integer** succeeds exactly when it is positive and the wrapped pool answers
with a positive integer of 96 bits, which is the result. -/
theorem AmmCorePool.quote_ofNat (p : AmmCorePool) {pair : Pair} {source destination : CoreAssetId}
    (hs : coreAsset pair.source = some source) (hd : coreAsset pair.destination = some destination)
    {n : Nat} (h : n ≤ maxMantissa) {out : Amount} :
    p.quote pair (Amount.ofNat n h) = some out ↔ n ≠ 0 ∧
      ∃ y, p.inner.quote source (BitVec.ofNat 256 n) destination = some y ∧
        y.toNat ≠ 0 ∧ ∃ hy : y.toNat ≤ maxMantissa, out = Amount.ofNat y.toNat hy := by
  unfold quote
  rw [p.innerCall_ofNat hs hd h]
  by_cases h0 : n = 0
  · simp [h0]
  · rw [if_neg h0]
    simp only [Option.bind_eq_bind, Option.bind_some, InnerCall.answer_eq_some]
    exact ⟨fun hq => ⟨h0, hq⟩, fun hq => hq.2⟩

instance : Pool AmmCorePool where
  id := AmmCorePool.id
  assets := AmmCorePool.assets
  quote := AmmCorePool.quote

end ArbRouter

import ArbRouter.Infra.RustDecimal

/-!
# Assets, amounts and times

The value types of `primitives/asset.rs`, and the clock types the engine compares.

* `AssetId` — a `chain:token` string; a malformed one cannot be built
* `Amount`, `Usd` — base units and dollars, compared by value
* `OffsetDateTime`, `TimeDuration` — nanoseconds since the epoch and their differences
-/

namespace ArbRouter

open Infra

/-! ## Asset ids -/

/-- `s.split_once(':')`: what precedes the first colon and what follows it. -/
def splitOnce (s : String) : Option (String × String) :=
  if ':' ∈ s.toList then
    some (String.ofList (s.toList.takeWhile (· ≠ ':')),
      String.ofList ((s.toList.dropWhile (· ≠ ':')).drop 1))
  else none

/-- What follows the first colon is kept whole. -/
theorem splitOnce_of_toList {s : String} {c t : List Char} (h : s.toList = c ++ ':' :: t)
    (hc : ':' ∉ c) : splitOnce s = some (String.ofList c, String.ofList t) := by
  have hmem : ':' ∈ s.toList := by
    rw [h]
    simp
  have hpre : ∀ x ∈ c, decide (x ≠ ':') = true := by
    intro x hx
    simpa using fun he : x = ':' => hc (he ▸ hx)
  unfold splitOnce
  rw [if_pos hmem, h, List.takeWhile_append_of_pos hpre, List.dropWhile_append_of_pos hpre]
  simp

/-- The parts are separated by the first colon; the second part may have more of them. -/
theorem toList_of_splitOnce {s c t : String} (h : splitOnce s = some (c, t)) :
    s.toList = c.toList ++ ':' :: t.toList ∧ ':' ∉ c.toList := by
  have hmem : ':' ∈ s.toList := by
    by_contra hno
    unfold splitOnce at h
    rw [if_neg hno] at h
    cases h
  obtain ⟨c', t', hlist, hc⟩ := List.eq_append_cons_of_mem hmem
  rw [splitOnce_of_toList hlist hc] at h
  obtain ⟨rfl, rfl⟩ := Prod.mk.inj (Option.some.inj h)
  rw [String.toList_ofList, String.toList_ofList]
  exact ⟨hlist, hc⟩

/-- The string is `chain:token` with both parts nonempty. -/
def AssetId.WellFormed (s : String) : Prop :=
  match splitOnce s with
  | some (c, t) => c ≠ "" ∧ t ≠ ""
  | none => False

instance (s : String) : Decidable (AssetId.WellFormed s) := by
  unfold AssetId.WellFormed
  cases splitOnce s <;> infer_instance

/-- An asset id. `AssetId::new` is the only constructor, so the string is well formed. -/
structure AssetId where
  asStr : String
  wellFormed : AssetId.WellFormed asStr
deriving DecidableEq

inductive AssetIdError where
  | badFormat (s : String)
deriving DecidableEq

/-- `AssetId::new`. -/
def AssetId.new (s : String) : Except AssetIdError AssetId :=
  if h : AssetId.WellFormed s then .ok ⟨s, h⟩ else .error (.badFormat s)

/-- Parsing the string of an asset id gives the asset id. -/
theorem AssetId.new_asStr (a : AssetId) : AssetId.new a.asStr = .ok a := dif_pos a.wellFormed

/-- The string of an asset id splits into a chain and a token. -/
theorem AssetId.exists_splitOnce (a : AssetId) : ∃ c t, splitOnce a.asStr = some (c, t) := by
  have h := a.wellFormed
  unfold AssetId.WellFormed at h
  cases hs : splitOnce a.asStr with
  | none => rw [hs] at h; exact h.elim
  | some ct => exact ⟨ct.1, ct.2, rfl⟩

/-- A chain name. -/
structure ChainId where
  asStr : String
deriving DecidableEq

/-! ## Amounts -/

/-- A quantity of an asset, in base units. -/
structure Amount where
  val : Decimal
deriving DecidableEq

/-- A quantity of dollars. -/
structure Usd where
  val : Decimal
deriving DecidableEq

instance : Preorder Amount := Preorder.lift Amount.val

instance : Preorder Usd := Preorder.lift Usd.val

theorem Amount.lt_iff {a b : Amount} : a < b ↔ a.val < b.val := Iff.rfl

theorem Usd.lt_iff {a b : Usd} : a < b ↔ a.val < b.val := Iff.rfl

instance (a b : Amount) : Decidable (a < b) := inferInstanceAs (Decidable (a.val < b.val))

instance (a b : Usd) : Decidable (a < b) := inferInstanceAs (Decidable (a.val < b.val))

/-- `Sub for Amount`: the operator of `Decimal`, which panics on overflow. -/
def Amount.sub [RustDecimal] (a b : Amount) : Except Panic Amount := do
  return ⟨← RustDecimal.sub a.val b.val⟩

/-- An integral amount of base units. -/
def Amount.ofNat (n : Nat) (h : n ≤ maxMantissa) : Amount := ⟨Decimal.ofNat n h⟩

/-- The two sides of a quote. -/
structure Pair where
  source : AssetId
  destination : AssetId
deriving DecidableEq

structure AssetMeta where
  decimals : UInt8
  symbol : String
deriving DecidableEq

/-! ## Times -/

/-- A moment, in nanoseconds since the Unix epoch. -/
abbrev OffsetDateTime := Int

/-- A signed span of nanoseconds: `time::Duration`. -/
abbrev TimeDuration := Int

def OffsetDateTime.unixEpoch : OffsetDateTime := 0

/-- `time::Duration::MAX`: `i64::MAX` seconds and 999 999 999 nanoseconds. -/
def TimeDuration.max : TimeDuration := (2 ^ 63 - 1) * 10 ^ 9 + 999999999

/-- `std::time::Duration`. -/
structure StdDuration where
  secs : UInt64
  nanos : Fin 1000000000

def StdDuration.fromSecs (secs : UInt64) : StdDuration := ⟨secs, 0⟩

/-- `time::Duration::try_from(d).unwrap_or(time::Duration::MAX)`; only seconds beyond `i64` fail. -/
def StdDuration.toTime (d : StdDuration) : TimeDuration :=
  if d.secs.toNat < 2 ^ 63 then d.secs.toNat * 10 ^ 9 + d.nanos else TimeDuration.max

end ArbRouter

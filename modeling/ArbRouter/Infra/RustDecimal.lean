import ArbRouter.Infra.Decimal

/-!
# The operations of `rust_decimal`

The crate is not part of the verified sources, so its operations are parameters: `RustDecimal`
bundles them with the behaviour its documentation gives. The checked forms return `none` on
overflow or a zero divisor; the operators `+`, `-`, `*`, `/` panic exactly there.
-/

namespace Infra

/-- What an arithmetic operator of the crate panics with. -/
inductive Panic where
  | overflow
  | divisionByZero
deriving DecidableEq

/-- The operations of the crate. The last fields are their documented behaviour. -/
class RustDecimal where
  checkedAdd : Decimal → Decimal → Option Decimal
  checkedSub : Decimal → Decimal → Option Decimal
  checkedMul : Decimal → Decimal → Option Decimal
  checkedDiv : Decimal → Decimal → Option Decimal
  floor : Decimal → Decimal
  fract : Decimal → Decimal
  toU32 : Decimal → Option UInt32
  toStr : Decimal → String
  fromStr : String → Option Decimal
  add_rounds : ∀ a b, Rounds (a.toRat + b.toRat) (checkedAdd a b)
  sub_rounds : ∀ a b, Rounds (a.toRat - b.toRat) (checkedSub a b)
  mul_rounds : ∀ a b, Rounds (a.toRat * b.toRat) (checkedMul a b)
  div_rounds : ∀ a b, b.toRat ≠ 0 → Rounds (a.toRat / b.toRat) (checkedDiv a b)
  div_zero : ∀ a b, b.toRat = 0 → checkedDiv a b = none
  floor_toRat : ∀ a, (floor a).toRat = ⌊a.toRat⌋
  floor_scale : ∀ a, (floor a).scale = 0
  fract_toRat : ∀ a, a.neg = false → (fract a).toRat = Int.fract a.toRat
  toU32_eq : ∀ a, a.neg = false →
    toU32 a = if ⌊a.toRat⌋₊ < 2 ^ 32 then some (UInt32.ofNat ⌊a.toRat⌋₊) else none
  toStr_eq : ∀ a, toStr a = String.ofList a.render
  fromStr_repr : ∀ (n : Nat) (h : n ≤ maxMantissa), fromStr n.repr = some (Decimal.ofNat n h)
  fromStr_repr_none : ∀ n : Nat, maxMantissa < n → fromStr n.repr = none

namespace RustDecimal

/-! ## The operators -/

/-- An operator panics where its checked form is `none`. -/
def unchecked (panic : Panic) : Option Decimal → Except Panic Decimal
  | some r => .ok r
  | none => .error panic

theorem unchecked_eq_ok {panic : Panic} {o : Option Decimal} {r : Decimal} :
    unchecked panic o = .ok r ↔ o = some r := by
  cases o <;> simp [unchecked]

variable [RustDecimal]

/-- `a + b`. -/
def add (a b : Decimal) : Except Panic Decimal := unchecked .overflow (checkedAdd a b)

/-- `a - b`. -/
def sub (a b : Decimal) : Except Panic Decimal := unchecked .overflow (checkedSub a b)

/-- `a * b`. -/
def mul (a b : Decimal) : Except Panic Decimal := unchecked .overflow (checkedMul a b)

/-- `a / b`. -/
def div (a b : Decimal) : Except Panic Decimal :=
  unchecked (if b.toRat = 0 then .divisionByZero else .overflow) (checkedDiv a b)

theorem sub_eq_ok {a b r : Decimal} : sub a b = .ok r ↔ checkedSub a b = some r := unchecked_eq_ok

theorem mul_eq_ok {a b r : Decimal} : mul a b = .ok r ↔ checkedMul a b = some r := unchecked_eq_ok

theorem div_eq_ok {a b r : Decimal} : div a b = .ok r ↔ checkedDiv a b = some r := unchecked_eq_ok

/-! ## Signs and bounds of results -/

variable {a b r : Decimal}

/-- A difference of two decimals of one sign never overflows. -/
theorem exists_checkedSub (ha : 0 ≤ a.toRat) (hb : 0 ≤ b.toRat) :
    ∃ r, checkedSub a b = some r := by
  refine (sub_rounds a b).exists_some ?_
  have h1 := (abs_le.mp a.abs_toRat_le).2
  have h2 := (abs_le.mp b.abs_toRat_le).2
  rw [abs_le]
  constructor <;> linarith

theorem checkedSub_pos_iff (h : checkedSub a b = some r) : 0 < r.toRat ↔ b < a :=
  Rounds.sub_pos_iff (h ▸ sub_rounds a b)

theorem checkedMul_nonneg (h : checkedMul a b = some r) (ha : 0 ≤ a.toRat) (hb : 0 ≤ b.toRat) :
    0 ≤ r.toRat :=
  (h ▸ mul_rounds a b : Rounds _ (some r)).nonneg (mul_nonneg ha hb)

theorem checkedDiv_ne_zero (h : checkedDiv a b = some r) : b.toRat ≠ 0 := by
  intro hb
  rw [div_zero a b hb] at h
  simp at h

theorem checkedDiv_nonneg (h : checkedDiv a b = some r) (ha : 0 ≤ a.toRat) (hb : 0 ≤ b.toRat) :
    0 ≤ r.toRat :=
  (h ▸ div_rounds a b (checkedDiv_ne_zero h) : Rounds _ (some r)).nonneg (div_nonneg ha hb)

/-- A product with a power of ten is exact. -/
theorem toRat_checkedMul_pow_ten (h : checkedMul a b = some r) {k : Nat} (hb : b.toRat = 10 ^ k) :
    r.toRat = a.toRat * 10 ^ k := by
  have hrounds := mul_rounds a b
  rw [h, hb] at hrounds
  obtain ⟨exact, hexact⟩ := Decimal.exists_mul_pow_ten hrounds.1
  exact hrounds.toRat_eq hexact

/-- **A product with a power of ten** overflows exactly beyond the largest mantissa. -/
theorem exists_checkedMul_pow_ten (ha : 0 ≤ a.toRat) {k : Nat} (hk : 10 ^ k ≤ maxMantissa) :
    (∃ r, checkedMul a (Decimal.ofNat (10 ^ k) hk) = some r) ↔
      a.toRat * 10 ^ k ≤ maxMantissa := by
  have hpow : (Decimal.ofNat (10 ^ k) hk).toRat = 10 ^ k := by
    rw [Decimal.toRat_ofNat]
    push_cast
    rfl
  have habs : |a.toRat * 10 ^ k| = a.toRat * 10 ^ k := abs_of_nonneg (by positivity)
  have hrounds := mul_rounds a (Decimal.ofNat (10 ^ k) hk)
  rw [hpow] at hrounds
  constructor
  · rintro ⟨r, hr⟩
    rw [hr] at hrounds
    exact Decimal.mul_pow_ten_le (habs ▸ hrounds.1)
  · intro hle
    exact hrounds.exists_some (habs.trans_le hle)

/-! ## Integers -/

/-- The floor of a value that is not negative is a scale 0 integer. -/
theorem floor_eq_ofNat (h : (floor a).neg = false) :
    floor a = Decimal.ofNat (floor a).mant (floor a).mant_le :=
  Decimal.eq_ofNat_of_scale_zero (floor_scale a) h

theorem toStr_ofNat (n : Nat) (h : n ≤ maxMantissa) : toStr (Decimal.ofNat n h) = n.repr := by
  rw [toStr_eq, Decimal.render_ofNat, Nat.repr_eq_ofList_toDigits]

theorem fract_ofNat (n : Nat) (h : n ≤ maxMantissa) : (fract (Decimal.ofNat n h)).toRat = 0 := by
  rw [fract_toRat _ rfl, Decimal.toRat_ofNat]
  exact Int.fract_natCast n

end RustDecimal

end Infra

import ArbRouter.Primitives.Asset

/-!
# Multiplying durations

`std::time::Duration` times a `u32`, checked, saturating and panicking. All three compute the
product in nanoseconds.

* `StdDuration.toNanos_checkedMul` — exact, or out of range
* `StdDuration.toNanos_saturatingMul` — cut off at the longest duration
-/

namespace ArbRouter

open Infra

namespace StdDuration

/-- `Duration::MAX`. -/
def MAX : StdDuration := ⟨UInt64.ofNat (2 ^ 64 - 1), ⟨999999999, by decide⟩⟩

/-- `as_nanos`. -/
def toNanos (d : StdDuration) : Nat := d.secs.toNat * 1000000000 + d.nanos

/-- A duration is its number of nanoseconds. -/
theorem toNanos_injective : Function.Injective toNanos := by
  rintro ⟨secs, nanos⟩ ⟨secs', nanos'⟩ h
  have hlt := nanos.isLt
  have hlt' := nanos'.isLt
  have hnanos : nanos.val = nanos'.val := by
    unfold toNanos at h
    dsimp only at h
    omega
  have hsecs : secs.toNat = secs'.toNat := by
    unfold toNanos at h
    dsimp only at h
    omega
  rw [Fin.ext hnanos, UInt64.toNat_inj.mp hsecs]

/-- Whole seconds, and nanoseconds that may carry over into them; both have to fit. -/
def carry (secs totalNanos : Nat) : Option StdDuration :=
  let extraSecs := totalNanos / 1000000000
  if secs < 2 ^ 64 ∧ secs + extraSecs < 2 ^ 64 then
    some ⟨UInt64.ofNat (secs + extraSecs), ⟨totalNanos % 1000000000, Nat.mod_lt _ (by decide)⟩⟩
  else none

/-- `checked_mul`. -/
def checkedMul (d : StdDuration) (rhs : UInt32) : Option StdDuration :=
  carry (d.secs.toNat * rhs.toNat) (d.nanos.val * rhs.toNat)

/-- `saturating_mul`. -/
def saturatingMul (d : StdDuration) (rhs : UInt32) : StdDuration := (d.checkedMul rhs).getD MAX

/-- `*`: the panicking operator. -/
def mul (d : StdDuration) (rhs : UInt32) : Except Panic StdDuration :=
  match d.checkedMul rhs with
  | some r => .ok r
  | none => .error .overflow

/-- The derived order: seconds first. -/
def lt (a b : StdDuration) : Bool := a.secs < b.secs || (a.secs = b.secs && a.nanos < b.nanos)

/-- `Ord::min`. -/
def min (a b : StdDuration) : StdDuration := if b.lt a then b else a

theorem toNanos_carry (secs totalNanos : Nat) :
    (carry secs totalNanos).map toNanos
      = if secs * 1000000000 + totalNanos < 2 ^ 64 * 1000000000
        then some (secs * 1000000000 + totalNanos) else none := by
  have hcarry := Nat.div_add_mod totalNanos 1000000000
  have hmod := Nat.mod_lt totalNanos (show 1000000000 > 0 by decide)
  unfold carry
  by_cases hfits : secs < 2 ^ 64 ∧ secs + totalNanos / 1000000000 < 2 ^ 64
  · rw [if_pos hfits, if_pos (by omega), Option.map_some, toNanos]
    dsimp only
    rw [UInt64.toNat_ofNat_of_lt' hfits.2]
    exact congrArg some (by omega)
  · rw [if_neg hfits, if_neg (by omega)]
    rfl

/-- **The checked product** is exact unless it is out of range. -/
theorem toNanos_checkedMul (d : StdDuration) (rhs : UInt32) :
    (d.checkedMul rhs).map toNanos
      = if d.toNanos * rhs.toNat < 2 ^ 64 * 1000000000 then some (d.toNanos * rhs.toNat)
        else none := by
  have hproduct : d.toNanos * rhs.toNat
      = d.secs.toNat * rhs.toNat * 1000000000 + d.nanos.val * rhs.toNat := by
    unfold toNanos
    ring
  rw [hproduct]
  exact toNanos_carry _ _

/-- **The saturating product** is cut off at the longest duration. -/
theorem toNanos_saturatingMul (d : StdDuration) (rhs : UInt32) :
    (d.saturatingMul rhs).toNanos = Min.min (d.toNanos * rhs.toNat) MAX.toNanos := by
  have hmax : MAX.toNanos = 2 ^ 64 * 1000000000 - 1 := rfl
  have hchecked := d.toNanos_checkedMul rhs
  unfold saturatingMul
  rw [hmax]
  cases hmul : d.checkedMul rhs with
  | none =>
    rw [hmul] at hchecked
    by_cases hfits : d.toNanos * rhs.toNat < 2 ^ 64 * 1000000000
    · rw [if_pos hfits] at hchecked
      cases hchecked
    · show MAX.toNanos = _
      rw [hmax]
      exact (Nat.min_eq_right (by omega)).symm
  | some r =>
    rw [hmul] at hchecked
    by_cases hfits : d.toNanos * rhs.toNat < 2 ^ 64 * 1000000000
    · rw [if_pos hfits] at hchecked
      show r.toNanos = _
      rw [Option.some.inj hchecked]
      exact (Nat.min_eq_left (by omega)).symm
    · rw [if_neg hfits] at hchecked
      cases hchecked

theorem lt_iff {a b : StdDuration} : a.lt b = true ↔ a.toNanos < b.toNanos := by
  have ha := a.nanos.isLt
  have hb := b.nanos.isLt
  unfold lt toNanos
  simp only [Bool.or_eq_true, Bool.and_eq_true, decide_eq_true_iff, UInt64.lt_iff_toNat_lt,
    ← UInt64.toNat_inj, Fin.lt_def]
  omega

theorem toNanos_min (a b : StdDuration) : (a.min b).toNanos = Min.min a.toNanos b.toNanos := by
  unfold min
  by_cases h : b.lt a = true
  · rw [if_pos h]
    exact (Nat.min_eq_right (lt_iff.mp h).le).symm
  · rw [if_neg h]
    exact (Nat.min_eq_left (by rw [lt_iff] at h; omega)).symm

end StdDuration

end ArbRouter

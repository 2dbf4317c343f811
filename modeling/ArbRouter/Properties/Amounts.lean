import ArbRouter.Adapters.Exchanges
import ArbRouter.Infra.DecimalReference

/-!
# Amounts and 256-bit integers

`amount_to_u256` converts the string that the amount prints as, so it distinguishes amounts that
are equal: `1.0` prints a point, which neither parser accepts.

* `digitLoop_digits` — what the digit-by-digit fallback reads, and when it overflows
* `amountToU256_eq_some` — what is converted: integers stored at scale 0 without a sign bit
* `amountToU256_by_value_iff` — the amounts whose conversion depends on the value alone
* `u256_round_trip` — integers of 96 bits survive the conversion there and back
-/

namespace ArbRouter

open Infra RustDecimal

/-! ## Strings that are not integers -/

/-- A byte that is no digit ends the loop without a result. -/
theorem digitLoop_eq_none {l : List UInt8} {ch : UInt8} (h : ch ∈ l) (hch : 9 < ch - 48)
    (acc : U256) : digitLoop l acc = none := by
  induction l generalizing acc with
  | nil => exact absurd h List.not_mem_nil
  | cons head rest ih =>
    unfold digitLoop
    by_cases hhead : 9 < head - 48
    · exact if_pos hhead
    · have hrest : ch ∈ rest := by
        rcases List.mem_cons.mp h with rfl | hrest
        · exact absurd hch hhead
        · exact hrest
      dsimp only
      rw [if_neg hhead]
      cases acc.checkedMul 10 with
      | none => rfl
      | some scaled =>
        show (scaled.checkedAdd (BitVec.ofNat 256 (head - 48).toNat)).bind (digitLoop rest) = none
        cases scaled.checkedAdd (BitVec.ofNat 256 (head - 48).toNat) with
        | none => rfl
        | some next => exact ih hrest next

/-- Neither does `u128` parse a string with a point. -/
theorem parseU128_eq_none {s : String} (h : '.' ∈ s.toList) : parseU128 s = none := by
  have hdigits : '.' ∈ if s.toList.head? = some '+' then s.toList.tail else s.toList := by
    split
    · next hplus =>
      cases hs : s.toList with
      | nil => rw [hs] at h; exact absurd h List.not_mem_nil
      | cons c rest =>
        rw [hs] at h hplus
        obtain rfl : c = '+' := Option.some.inj hplus
        rcases List.mem_cons.mp h with hc | hrest
        · exact absurd hc (by decide)
        · exact hrest
    · exact h
  unfold parseU128
  refine if_neg ?_
  rintro ⟨-, hall, -⟩
  exact absurd (List.all_eq_true.mp hall '.' hdigits) (by decide)

theorem point_mem_bytes {s : String} (h : '.' ∈ s.toList) : 46 ∈ bytes s :=
  List.mem_flatMap.mpr ⟨'.', h, by decide⟩

/-! ## Strings that are integers -/

theorem utf8EncodeChar_digitChar : ∀ d, d < 10 →
    String.utf8EncodeChar d.digitChar = [UInt8.ofNat (48 + d)] := by decide

theorem digit_sub : ∀ d, d < 10 → UInt8.ofNat (48 + d) - 48 = UInt8.ofNat d := by decide

theorem exists_digitChar {c : Char} (h : c.isDigit = true) : ∃ d, d < 10 ∧ c = d.digitChar := by
  obtain ⟨hlow, hhigh⟩ := Char.isDigit_iff_toNat.mp h
  have hlow' : 48 ≤ c.toNat := hlow
  have hhigh' : c.toNat ≤ 57 := hhigh
  have hlt : c.toNat - 48 < 10 := by omega
  refine ⟨c.toNat - 48, hlt, Char.toNat_inj.mp ?_⟩
  rw [Nat.toNat_digitChar_of_lt_ten hlt]
  omega

theorem U256.checkedMul_ten (acc : U256) : acc.checkedMul 10
    = if 10 * acc.toNat < 2 ^ 256 then some (BitVec.ofNat 256 (10 * acc.toNat)) else none := by
  have hten : (10 : U256).toNat = 10 := rfl
  have hscaled : acc * 10 = BitVec.ofNat 256 (10 * acc.toNat) := by
    apply BitVec.eq_of_toNat_eq
    rw [BitVec.toNat_mul, BitVec.toNat_ofNat, hten, Nat.mul_comm]
  unfold U256.checkedMul
  rw [hten, hscaled, Nat.mul_comm]

theorem U256.checkedAdd_ofNat {n d : Nat} (hn : n < 2 ^ 256) (hd : d < 2 ^ 256) :
    U256.checkedAdd (BitVec.ofNat 256 n) (BitVec.ofNat 256 d)
      = if n + d < 2 ^ 256 then some (BitVec.ofNat 256 (n + d)) else none := by
  unfold U256.checkedAdd
  rw [U256.toNat_ofNat hn, U256.toNat_ofNat hd, BitVec.ofNat_add]

/-- One digit: both checked operations succeed exactly when the new value fits. -/
theorem digitLoop_digit {d : Nat} (hd : d < 10) (rest : List UInt8) (acc : U256) :
    digitLoop (UInt8.ofNat (48 + d) :: rest) acc
      = if 10 * acc.toNat + d < 2 ^ 256
        then digitLoop rest (BitVec.ofNat 256 (10 * acc.toNat + d)) else none := by
  have hnat : (UInt8.ofNat d).toNat = d := UInt8.toNat_ofNat_of_lt (by decide +revert)
  have hdigit : ¬ 9 < UInt8.ofNat d := by
    rw [UInt8.lt_iff_toNat_lt, hnat]
    exact not_lt.mpr (Nat.le_of_lt_succ hd)
  rw [digitLoop, digit_sub d hd, if_neg hdigit, hnat, U256.checkedMul_ten]
  by_cases hmul : 10 * acc.toNat < 2 ^ 256
  · rw [if_pos hmul]
    show (U256.checkedAdd (BitVec.ofNat 256 (10 * acc.toNat)) (BitVec.ofNat 256 d)).bind _ = _
    rw [U256.checkedAdd_ofNat hmul (by omega)]
    by_cases hlt : 10 * acc.toNat + d < 2 ^ 256
    · rw [if_pos hlt, if_pos hlt]
      rfl
    · rw [if_neg hlt, if_neg hlt]
      rfl
  · have hover : ¬ 10 * acc.toNat + d < 2 ^ 256 := by omega
    rw [if_neg hmul, if_neg hover]
    rfl

/-- **The digit loop** reads the number that the digits print, unless it has more than 256 bits. -/
theorem digitLoop_digits {l : List Char} (h : ∀ c ∈ l, c.isDigit = true) (acc : U256) :
    digitLoop (l.flatMap String.utf8EncodeChar) acc
      = if Nat.ofDigitChars 10 l acc.toNat < 2 ^ 256
        then some (BitVec.ofNat 256 (Nat.ofDigitChars 10 l acc.toNat)) else none := by
  induction l generalizing acc with
  | nil =>
    rw [Nat.ofDigitChars_nil, if_pos acc.isLt, BitVec.ofNat_toNat, BitVec.setWidth_eq]
    rfl
  | cons c rest ih =>
    obtain ⟨d, hd, rfl⟩ := exists_digitChar (h c List.mem_cons_self)
    rw [List.flatMap_cons, utf8EncodeChar_digitChar d hd, List.singleton_append,
      digitLoop_digit hd, Nat.ofDigitChars_cons_digitChar_of_lt_ten hd]
    by_cases hlt : 10 * acc.toNat + d < 2 ^ 256
    · rw [if_pos hlt, ih fun c hc => h c (List.mem_cons_of_mem _ hc), U256.toNat_ofNat hlt]
    · -- The value only grows with the digits that follow.
      have hover : ¬ Nat.ofDigitChars 10 rest (10 * acc.toNat + d) < 2 ^ 256 := by
        rw [Nat.ofDigitChars_eq_ofDigitChars_zero]
        have := Nat.le_mul_of_pos_left (10 * acc.toNat + d)
          (Nat.pow_pos (n := rest.length) (show 0 < 10 by decide))
        omega
      rw [if_neg hlt, if_neg hover]

/-- **The fallback agrees with the fast path,** and reads every printed 256-bit integer. -/
theorem digitLoop_repr (n : Nat) : digitLoop (bytes n.repr) 0
    = if n < 2 ^ 256 then some (BitVec.ofNat 256 n) else none := by
  have hdig : ∀ c ∈ Nat.toDigits 10 n, c.isDigit = true := fun c hc =>
    Nat.isDigit_of_mem_toDigits (by decide) (by decide) hc
  unfold bytes
  rw [Nat.toList_repr, digitLoop_digits hdig]
  show (if Nat.ofDigitChars 10 (Nat.toDigits 10 n) 0 < 2 ^ 256
    then some (BitVec.ofNat 256 (Nat.ofDigitChars 10 (Nat.toDigits 10 n) 0)) else none) = _
  rw [Nat.ofDigitChars_ten_toDigits]

/-! ## What is converted -/

/-- Stored as an integer: no fractional digits, not even zeros, and no sign bit. -/
def IsPlain (d : Decimal) : Prop := d.scale = 0 ∧ d.neg = false

section

variable [RustDecimal]

theorem point_mem_toStr {d : Decimal} (h : d.scale ≠ 0) : '.' ∈ (toStr d).toList := by
  rw [toStr_eq, String.toList_ofList]
  exact Decimal.point_mem_render h

/-- A fraction of zeros is printed, and the string not parsed. -/
theorem amountToU256_of_scale {d : Decimal} (h : d.scale ≠ 0) : amountToU256 ⟨d⟩ = none := by
  have hpoint := point_mem_toStr h
  unfold amountToU256
  dsimp only
  split
  · rfl
  · split
    · rfl
    · rw [parseU128_eq_none hpoint]
      exact digitLoop_eq_none (point_mem_bytes hpoint) (by decide) 0

/-- **The fast path changes nothing,** nor does the check of the fraction: the digits decide. -/
theorem amountToU256_eq_digitLoop (d : Decimal) :
    amountToU256 ⟨d⟩ = if d.neg then none else digitLoop (bytes (toStr d)) 0 := by
  cases hneg : d.neg with
  | true => exact amountToU256_of_neg hneg
  | false =>
    show _ = digitLoop (bytes (toStr d)) 0
    by_cases hscale : d.scale = 0
    · have hlt := lt_two_pow_of_le_maxMantissa d.mant_le (k := 256) (by decide)
      rw [Decimal.eq_ofNat_of_scale_zero hscale hneg, toStr_ofNat, digitLoop_repr, if_pos hlt]
      exact amountToU256_ofNat d.mant d.mant_le
    · rw [amountToU256_of_scale hscale]
      exact (digitLoop_eq_none (point_mem_bytes (point_mem_toStr hscale)) (by decide) 0).symm

/-- **What is converted:** integers stored as such. -/
theorem amountToU256_eq_some {d : Decimal} {n : U256} :
    amountToU256 ⟨d⟩ = some n ↔ IsPlain d ∧ d.toRat = n.toNat := by
  by_cases hscale : d.scale = 0
  · cases hneg : d.neg with
    | true =>
      rw [amountToU256_of_neg hneg]
      simp [IsPlain, hneg]
    | false =>
      have hd : d = Decimal.ofNat d.mant d.mant_le := Decimal.eq_ofNat_of_scale_zero hscale hneg
      have hconv : amountToU256 ⟨d⟩ = some (BitVec.ofNat 256 d.mant) := by
        rw [hd]
        exact amountToU256_ofNat d.mant d.mant_le
      have hval : d.toRat = d.mant := by rw [hd, Decimal.toRat_ofNat]; rfl
      have hmant : (BitVec.ofNat 256 d.mant).toNat = d.mant :=
        U256.toNat_ofNat (lt_two_pow_of_le_maxMantissa d.mant_le (by decide))
      rw [hconv, hval, Option.some.injEq, ← BitVec.toNat_inj, hmant, Nat.cast_inj]
      exact ⟨fun h => ⟨⟨hscale, hneg⟩, h⟩, fun h => h.2⟩
  · rw [amountToU256_of_scale hscale]
    simp [IsPlain, hscale]

omit [RustDecimal] in
/-- An integral value is that of a 256-bit integer. -/
theorem exists_u256 {d : Decimal} {n : ℕ} (h : d.toRat = n) : ∃ u : U256, d.toRat = u.toNat := by
  have hle : n ≤ maxMantissa := by
    have := (abs_le.mp d.abs_toRat_le).2
    rw [h] at this
    exact_mod_cast this
  refine ⟨BitVec.ofNat 256 n, ?_⟩
  rw [U256.toNat_ofNat (lt_two_pow_of_le_maxMantissa hle (by decide)), h]

/-- An amount is converted by its value when it is stored as an integer, or has no value to give. -/
theorem forall_amountToU256_iff {d : Decimal} :
    (∀ n : U256, amountToU256 ⟨d⟩ = some n ↔ d.toRat = n.toNat) ↔
      IsPlain d ∨ ¬ ∃ n : ℕ, d.toRat = n := by
  simp only [amountToU256_eq_some]
  constructor
  · intro h
    by_cases hint : ∃ n : ℕ, d.toRat = n
    · obtain ⟨n, hn⟩ := hint
      obtain ⟨u, hu⟩ := exists_u256 hn
      exact Or.inl ((h u).mpr hu).1
    · exact Or.inr hint
  · rintro (hplain | hint) n
    · exact ⟨fun h => h.2, fun h => ⟨hplain, h⟩⟩
    · exact ⟨fun h => h.2, fun h => absurd ⟨n.toNat, h⟩ hint⟩

/-- Equal amounts are converted alike when they are stored alike, or have no value to give. -/
theorem amountToU256_eq_iff {d d' : Decimal} (heq : d'.toRat = d.toRat) :
    amountToU256 ⟨d'⟩ = amountToU256 ⟨d⟩ ↔
      (IsPlain d' ↔ IsPlain d) ∨ ¬ ∃ n : ℕ, d.toRat = n := by
  constructor
  · intro hsame
    by_cases hint : ∃ n : ℕ, d.toRat = n
    · obtain ⟨n, hn⟩ := hint
      obtain ⟨u, hu⟩ := exists_u256 hn
      have hiff : amountToU256 ⟨d'⟩ = some u ↔ amountToU256 ⟨d⟩ = some u := by rw [hsame]
      rw [amountToU256_eq_some, amountToU256_eq_some, heq] at hiff
      exact Or.inl (by simpa [hu] using hiff)
    · exact Or.inr hint
  · intro h
    refine Option.ext fun n => ?_
    rw [amountToU256_eq_some, amountToU256_eq_some, heq]
    rcases h with hiff | hint
    · rw [hiff]
    · exact ⟨fun hn => absurd ⟨n.toNat, hn.2⟩ hint, fun hn => absurd ⟨n.toNat, hn.2⟩ hint⟩

/--
**The conversion depends on the value alone** for integers stored as such and for values that are
negative or not integral; of two equal amounts both or neither are converted exactly when both or
neither are stored as integers, or the value is not a natural number.
-/
theorem amountToU256_by_value_iff (d : Decimal) :
    ((∀ n : U256, amountToU256 ⟨d⟩ = some n ↔ d.toRat = n.toNat) ↔
      IsPlain d ∨ ¬ ∃ n : ℕ, d.toRat = n) ∧
    ∀ d' : Decimal, d'.toRat = d.toRat →
      (amountToU256 ⟨d'⟩ = amountToU256 ⟨d⟩ ↔
        (IsPlain d' ↔ IsPlain d) ∨ ¬ ∃ n : ℕ, d.toRat = n) :=
  ⟨forall_amountToU256_iff, fun _ heq => amountToU256_eq_iff heq⟩

/-! ## There and back -/

/-- Exactly the integers of 96 bits are amounts. -/
theorem isSome_u256ToAmount {v : U256} : (u256ToAmount v).isSome = true ↔ v.toNat < 2 ^ 96 := by
  rw [Option.isSome_iff_exists, lt_two_pow_iff]
  constructor
  · rintro ⟨amount, h⟩
    obtain ⟨hle, -⟩ := u256ToAmount_eq_some.mp h
    exact hle
  · intro hle
    exact ⟨_, u256ToAmount_eq_some.mpr ⟨hle, rfl⟩⟩

/-- The amount of an integer has its value. -/
theorem toRat_u256ToAmount {v : U256} {amount : Amount} (h : u256ToAmount v = some amount) :
    amount.val.toRat = v.toNat := by
  obtain ⟨hle, rfl⟩ := u256ToAmount_eq_some.mp h
  exact Decimal.toRat_ofNat _ hle

theorem amountToU256_u256ToAmount {v : U256} {amount : Amount} (h : u256ToAmount v = some amount) :
    amountToU256 amount = some v := by
  obtain ⟨hle, rfl⟩ := u256ToAmount_eq_some.mp h
  rw [amountToU256_ofNat, BitVec.ofNat_toNat, BitVec.setWidth_eq]

/--
**Integers round-trip:** those below `2^96` are amounts, an amount made from an integer is
converted back to it, and different integers make amounts of different values.
-/
theorem u256_round_trip (v : U256) :
    ((u256ToAmount v).isSome = true ↔ v.toNat < 2 ^ 96) ∧
    (∀ amount, u256ToAmount v = some amount → amountToU256 amount = some v) ∧
    ∀ (v' : U256) (amount amount' : Amount), u256ToAmount v = some amount →
      u256ToAmount v' = some amount' → v ≠ v' → amount.val.toRat ≠ amount'.val.toRat := by
  refine ⟨isSome_u256ToAmount, fun _ => amountToU256_u256ToAmount, ?_⟩
  intro v' amount amount' h h' hne heq
  rw [toRat_u256ToAmount h, toRat_u256ToAmount h', Nat.cast_inj, BitVec.toNat_inj] at heq
  exact hne heq

end

section

attribute [local instance] RustDecimal.reference

/-- `1.0` is `1`, but only `1` is converted. -/
theorem amountToU256_one_point_zero :
    (Decimal.tenths 10).toRat = Decimal.one.toRat ∧ amountToU256 ⟨Decimal.one⟩ = some 1 ∧
      amountToU256 ⟨Decimal.tenths 10⟩ = none := by
  refine ⟨?_, by decide +kernel, by decide +kernel⟩
  decide +kernel

end

end ArbRouter

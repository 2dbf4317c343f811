import ArbRouter.Adapters.Exchanges

/-!
# A computable instance of `Alloy`

Addresses are parsed and printed as the crate documents it (`LawfulAlloy.reference`,
`StrictAlloy.reference`). The hash is a placeholder: the tokens of statements about fixed inputs
are addresses, so it is never asked.
-/

namespace ArbRouter

/-- The value of a hexadecimal digit, in either case. -/
def hexValue (c : Char) : Option Nat :=
  if c.isDigit then some (c.toNat - 48)
  else if 'a' ≤ c ∧ c ≤ 'f' then some (c.toNat - 87)
  else if 'A' ≤ c ∧ c ≤ 'F' then some (c.toNat - 55)
  else none

/-- Forty hexadecimal digits behind an optional `0x`. -/
def parseAddress (s : String) : Option Address := do
  let digits := if s.toList.take 2 = ['0', 'x'] then s.toList.drop 2 else s.toList
  let values ← digits.mapM hexValue
  if values.length = 40 then
    some (BitVec.ofNat 160 (values.foldl (fun n d => 16 * n + d) 0))
  else none

/-- `0x` and forty lower-case digits. -/
def lowerHex (addr : Address) : String :=
  let digits := Nat.toDigits 16 addr.toNat
  String.ofList ('0' :: 'x' :: (List.replicate (40 - digits.length) '0' ++ digits))

/-! ## Hexadecimal digits -/

theorem hexValue_digitChar : ∀ d, d < 16 → hexValue d.digitChar = some d := by decide

theorem lower_digitChar : ∀ d, d < 16 →
    d.digitChar.isDigit = true ∨ 'a' ≤ d.digitChar ∧ d.digitChar ≤ 'f' := by decide

/-- The hexadecimal digits of a number are lower case, and have its value. -/
theorem toDigits_sixteen (n : Nat) :
    (∀ c ∈ Nat.toDigits 16 n, c.isDigit = true ∨ 'a' ≤ c ∧ c ≤ 'f') ∧
    ∃ values, (Nat.toDigits 16 n).mapM hexValue = some values ∧
      values.length = (Nat.toDigits 16 n).length ∧ values.foldl (fun n d => 16 * n + d) 0 = n := by
  induction n using Nat.strong_induction_on with
  | _ n ih =>
    by_cases hlt : n < 16
    · rw [Nat.toDigits_of_lt_base hlt]
      refine ⟨?_, [n], ?_, rfl, by simp⟩
      · intro c hc
        rw [List.mem_singleton.mp hc]
        exact lower_digitChar n hlt
      · simp [hexValue_digitChar n hlt]
    · have hmod : n % 16 < 16 := Nat.mod_lt n (by decide)
      obtain ⟨hlower, values, hvalues, hlen, hvalue⟩ := ih (n / 16) (by omega)
      rw [Nat.toDigits_of_base_le (by decide) (not_lt.mp hlt)]
      refine ⟨?_, values ++ [n % 16], ?_, ?_, ?_⟩
      · intro c hc
        rcases List.mem_append.mp hc with hc | hc
        · exact hlower c hc
        · rw [List.mem_singleton.mp hc]
          exact lower_digitChar _ hmod
      · simp [List.mapM_append, hvalues, hexValue_digitChar _ hmod]
      · simp [hlen]
      · rw [List.foldl_append, hvalue]
        show 16 * (n / 16) + n % 16 = n
        omega

/-- What `lowerHex` prints behind `0x`. -/
def hexDigits (addr : Address) : List Char :=
  List.replicate (40 - (Nat.toDigits 16 addr.toNat).length) '0' ++ Nat.toDigits 16 addr.toNat

theorem toList_lowerHex (addr : Address) : (lowerHex addr).toList = '0' :: 'x' :: hexDigits addr :=
  String.toList_ofList

theorem length_hexDigits (addr : Address) : (hexDigits addr).length = 40 := by
  have hle : (Nat.toDigits 16 addr.toNat).length ≤ 40 :=
    (Nat.length_toDigits_le_iff (by decide) (by decide)).mpr (addr.isLt.trans_le (by decide))
  unfold hexDigits
  rw [List.length_append, List.length_replicate]
  omega

theorem lower_of_mem_hexDigits {addr : Address} {c : Char} (h : c ∈ hexDigits addr) :
    c.isDigit = true ∨ 'a' ≤ c ∧ c ≤ 'f' := by
  rcases List.mem_append.mp h with h | h
  · rw [List.eq_of_mem_replicate h]
    decide
  · exact (toDigits_sixteen addr.toNat).1 c h

/-- The digits have the value of the address; leading zeros do not matter. -/
theorem mapM_hexDigits (addr : Address) : ∃ values, (hexDigits addr).mapM hexValue = some values ∧
    values.length = 40 ∧ values.foldl (fun n d => 16 * n + d) 0 = addr.toNat := by
  obtain ⟨-, values, hvalues, hlen, hvalue⟩ := toDigits_sixteen addr.toNat
  have hzeros : ∀ k, (List.replicate k '0').mapM hexValue = some (List.replicate k 0) ∧
      (List.replicate k 0).foldl (fun n d => 16 * n + d) 0 = 0 := by
    intro k
    induction k with
    | zero => exact ⟨rfl, rfl⟩
    | succ k ih =>
      have hzero : hexValue '0' = some 0 := by decide
      refine ⟨?_, ?_⟩
      · simp [List.replicate_succ, hzero, ih.1]
      · rw [List.replicate_succ, List.foldl_cons]
        exact ih.2
  have hlength := length_hexDigits addr
  unfold hexDigits at hlength ⊢
  rw [List.length_append, List.length_replicate] at hlength
  obtain ⟨hmap, hfold⟩ := hzeros (40 - (Nat.toDigits 16 addr.toNat).length)
  refine ⟨List.replicate (40 - (Nat.toDigits 16 addr.toNat).length) 0 ++ values, ?_, ?_, ?_⟩
  · rw [List.mapM_append, hmap, hvalues]
    rfl
  · rw [List.length_append, List.length_replicate, hlen]
    exact hlength
  · rw [List.foldl_append, hfold, hvalue]

/-- What is printed is parsed back. -/
theorem parse_lowerHex (addr : Address) : parseAddress (lowerHex addr) = some addr := by
  obtain ⟨values, hvalues, hlen, hvalue⟩ := mapM_hexDigits addr
  have hdrop : (if (lowerHex addr).toList.take 2 = ['0', 'x'] then (lowerHex addr).toList.drop 2
      else (lowerHex addr).toList) = hexDigits addr := by
    rw [toList_lowerHex]
    rfl
  unfold parseAddress
  rw [hdrop]
  dsimp only
  rw [hvalues]
  show (if values.length = 40 then _ else none) = _
  rw [if_pos hlen, hvalue, BitVec.ofNat_toNat, BitVec.setWidth_eq]

/-- A string with a character that is no digit is not parsed. -/
theorem mapM_hexValue_eq_none {l : List Char} {c : Char} (hc : c ∈ l) (h : hexValue c = none) :
    l.mapM hexValue = none := by
  induction l with
  | nil => exact absurd hc List.not_mem_nil
  | cons head rest ih =>
    rw [List.mapM_cons]
    rcases List.mem_cons.mp hc with rfl | hrest
    · rw [h]
      rfl
    · rw [ih hrest]
      cases hexValue head <;> rfl

theorem parseAddress_eq_none {s : String} (h : ':' ∈ s.toList) : parseAddress s = none := by
  have hdigits : ':' ∈ if s.toList.take 2 = ['0', 'x'] then s.toList.drop 2 else s.toList := by
    split
    · next hmark =>
      rw [← List.take_append_drop 2 s.toList, hmark] at h
      rcases List.mem_append.mp h with hhead | htail
      · exact absurd hhead (by decide)
      · exact htail
    · exact h
  unfold parseAddress
  dsimp only
  rw [mapM_hexValue_eq_none hdigits (by decide)]
  rfl

@[reducible] def Alloy.reference : Alloy where
  parseAddress := ArbRouter.parseAddress
  lowerHex := ArbRouter.lowerHex
  keccak256 _ := 0

section

attribute [local instance] Alloy.reference

instance LawfulAlloy.reference : LawfulAlloy where
  lowerHex_eq addr := ⟨hexDigits addr, toList_lowerHex addr, length_hexDigits addr,
    fun _ hc => lower_of_mem_hexDigits hc⟩
  parseAddress_lowerHex := parse_lowerHex

instance StrictAlloy.reference : StrictAlloy where
  parseAddress_colon _ := parseAddress_eq_none

/-! ## Fixtures -/

/-- The token `0x1111…1111` on ethereum. -/
def coreA : CoreAssetId := ⟨1, 0x1111111111111111111111111111111111111111⟩

/-- The token `0x2222…2222` on ethereum. -/
def coreB : CoreAssetId := ⟨1, 0x2222222222222222222222222222222222222222⟩

def tokenA : AssetId := ⟨"ethereum:0x1111111111111111111111111111111111111111", by decide⟩

def tokenB : AssetId := ⟨"ethereum:0x2222222222222222222222222222222222222222", by decide⟩

example : arbAsset "ethereum" coreA = some tokenA ∧ coreAsset tokenA = some coreA := by decide

/-- An entry over a pool of both tokens that quotes `rule amount` in either direction. -/
def ammEntry (id : String) (rule : Nat → Nat) : PoolEntry AmmCorePool where
  pool := AmmCorePool.new "ethereum"
    ⟨id, [coreA, coreB], fun _ raw _ => some (BitVec.ofNat 256 (rule raw.toNat))⟩
  poolMeta := ⟨1, 0⟩

/-- A→B through `p1` and back through `p2`. -/
def tokenCycle : Path := ⟨tokenA, [⟨⟨"p1"⟩, tokenA, tokenB⟩, ⟨⟨"p2"⟩, tokenB, tokenA⟩]⟩

end

end ArbRouter

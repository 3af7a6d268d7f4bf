import Mathlib.Tactic.Linarith
import Mathlib.Data.List.Basic

/-! Decimal texts as bytes. -/
namespace Haystack.Digits

def digit (d : Nat) : UInt8 := UInt8.ofNat (48 + d)

theorem toNat_digit {d : Nat} (small : d < 10) : (digit d).toNat = 48 + d := by
  simp only [digit, UInt8.toNat_ofNat']
  omega

theorem digit_toNat {b : UInt8} (low : 48 ≤ b.toNat) : digit (b.toNat - 48) = b := by
  have bound := b.toNat_lt
  apply UInt8.toNat_inj.mp
  simp only [digit, UInt8.toNat_ofNat']
  omega

def decimal (n : Nat) : List UInt8 :=
  if n < 10 then [digit n] else decimal (n / 10) ++ [digit (n % 10)]
decreasing_by omega

theorem decimal_small {n : Nat} (small : n < 10) : decimal n = [digit n] := by
  rw [decimal, if_pos small]

theorem decimal_large {n : Nat} (large : 10 ≤ n) :
    decimal n = decimal (n / 10) ++ [digit (n % 10)] := by
  rw [decimal, if_neg (Nat.not_lt.mpr large)]

theorem decimal_snoc {n d : Nat} (positive : 0 < n) (small : d < 10) :
    decimal (n * 10 + d) = decimal n ++ [digit d] := by
  rw [decimal_large (by omega)]
  have quotient : (n * 10 + d) / 10 = n := by omega
  have remainder : (n * 10 + d) % 10 = d := by omega
  rw [quotient, remainder]

theorem decimal_hundred {n : Nat} (large : 100 ≤ n) :
    decimal n = decimal (n / 100) ++ [digit (n % 100 / 10), digit (n % 100 % 10)] := by
  rw [decimal_large (by omega), decimal_large (n := n / 10) (by omega)]
  have quotient : n / 10 / 10 = n / 100 := by omega
  have tens : n / 10 % 10 = n % 100 / 10 := by omega
  have ones : n % 10 = n % 100 % 10 := by omega
  rw [quotient, tens, ones, List.append_assoc]
  rfl

theorem decimal_ne_nil (n : Nat) : decimal n ≠ [] := by
  by_cases small : n < 10
  · rw [decimal_small small]
    exact List.cons_ne_nil _ _
  · rw [decimal_large (Nat.not_lt.mp small)]
    simp

theorem length_decimal_large {n : Nat} (large : 10 ≤ n) :
    (decimal n).length = (decimal (n / 10)).length + 1 := by
  rw [decimal_large large, List.length_append, List.length_singleton]

theorem length_decimal {n k : Nat} (lower : 10 ^ k ≤ n) (upper : n < 10 ^ (k + 1)) :
    (decimal n).length = k + 1 := by
  induction k generalizing n with
  | zero =>
    rw [decimal_small (by simpa using upper)]
    rfl
  | succ k ih =>
    have ten : 10 ^ (k + 1) = 10 ^ k * 10 := Nat.pow_succ _ _
    have hundred : 10 ^ (k + 1 + 1) = 10 ^ (k + 1) * 10 := Nat.pow_succ _ _
    have positive : 0 < 10 ^ k := Nat.pow_pos (by omega)
    rw [length_decimal_large (by omega), ih (by omega) (by omega)]

theorem length_decimal_div {n k : Nat} (large : 10 ^ k ≤ n) :
    (decimal n).length = k + (decimal (n / 10 ^ k)).length := by
  induction k with
  | zero => simp
  | succ k ih =>
    have power : 10 ^ (k + 1) = 10 ^ k * 10 := Nat.pow_succ _ _
    have positive : 0 < 10 ^ k := Nat.pow_pos (by omega)
    have ten : 10 ≤ n / 10 ^ k := (Nat.le_div_iff_mul_le positive).mpr (by omega)
    rw [ih (by omega), length_decimal_large ten, Nat.div_div_eq_div_mul, ← power]
    omega

theorem length_decimal_le {n k : Nat} (upper : n < 10 ^ (k + 1)) : (decimal n).length ≤ k + 1 := by
  induction k generalizing n with
  | zero =>
    rw [decimal_small (by simpa using upper)]
    rfl
  | succ k ih =>
    by_cases small : n < 10
    · rw [decimal_small small]
      simp
    · have power : 10 ^ (k + 1 + 1) = 10 ^ (k + 1) * 10 := Nat.pow_succ _ _
      rw [length_decimal_large (by omega)]
      have shorter := ih (n := n / 10) (by omega)
      omega

theorem mem_decimal {n : Nat} {b : UInt8} (member : b ∈ decimal n) :
    48 ≤ b.toNat ∧ b.toNat ≤ 57 := by
  induction n using Nat.strong_induction_on with
  | _ n ih =>
    by_cases small : n < 10
    · rw [decimal_small small, List.mem_singleton] at member
      rw [member, toNat_digit small]
      omega
    · rw [decimal_large (Nat.not_lt.mp small), List.mem_append, List.mem_singleton] at member
      rcases member with before | rfl
      · exact ih (n / 10) (by omega) before
      · rw [toNat_digit (by omega)]
        omega

theorem decimal_head {n : Nat} (positive : 0 < n) :
    ∃ d ds, decimal n = digit d :: ds ∧ 1 ≤ d ∧ d ≤ 9 := by
  induction n using Nat.strong_induction_on with
  | _ n ih =>
    by_cases small : n < 10
    · exact ⟨n, [], decimal_small small, by omega, by omega⟩
    · obtain ⟨d, ds, text, low, high⟩ := ih (n / 10) (by omega) (by omega)
      refine ⟨d, ds ++ [digit (n % 10)], ?_, low, high⟩
      rw [decimal_large (Nat.not_lt.mp small), text]
      rfl

/-- The number that digits make after one that stands before them. -/
def value (n : Nat) (ds : List UInt8) : Nat := ds.foldl (fun n b => n * 10 + (b.toNat - 48)) n

theorem le_value (n : Nat) (ds : List UInt8) : n ≤ value n ds := by
  induction ds generalizing n with
  | nil => exact Nat.le_refl n
  | cons b ds ih =>
    have later : n * 10 + (b.toNat - 48) ≤ value n (b :: ds) := ih (n * 10 + (b.toNat - 48))
    omega

theorem value_decimal (n : Nat) : value 0 (decimal n) = n := by
  induction n using Nat.strong_induction_on with
  | _ n ih =>
    by_cases small : n < 10
    · rw [decimal_small small]
      simp only [value, List.foldl_cons, List.foldl_nil, toNat_digit small]
      omega
    · rw [decimal_large (Nat.not_lt.mp small), value, List.foldl_append]
      have before : value 0 (decimal (n / 10)) = n / 10 := ih (n / 10) (by omega)
      simp only [value] at before
      simp only [before, List.foldl_cons, List.foldl_nil, toNat_digit (Nat.mod_lt n (by omega))]
      omega

end Haystack.Digits

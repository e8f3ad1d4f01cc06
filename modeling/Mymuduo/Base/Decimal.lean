import Mathlib.Algebra.Group.Int.Defs
import Mathlib.Algebra.Group.Nat.Defs
import Mathlib.Data.List.TakeWhile
import Mathlib.Tactic.IntervalCases
import Mymuduo.Base.Fault

/-! Numbers as decimal text: what `std::to_string` writes, `stoi` reads back. -/

namespace Mymuduo

open Lib

/-- The decimal digits of a natural number. -/
theorem toDecimal_natCast (n : Nat) :
    toDecimal n = (Nat.toDigits 10 n).map fun c => c.toNat.toUInt8 := by
  have htext : (toString (n : Int)).toList = Nat.toDigits 10 n := by
    change (Nat.repr n).toList = Nat.toDigits 10 n
    exact Nat.toList_repr
  rw [toDecimal, ofString, htext]

theorem map_toDecimal_natCast (n : Nat) :
    (toDecimal n).map (fun b => Char.ofNat b.toNat) = Nat.toDigits 10 n := by
  rw [toDecimal_natCast, List.map_map]
  refine (List.map_congr_left ?_).trans (List.map_id _)
  intro c hc
  have hdigit := Nat.isDigit_of_mem_toDigits (by decide) (by decide) hc
  have hle : c.toNat ≤ 57 := by
    simp only [Char.isDigit, Bool.and_eq_true, decide_eq_true_eq] at hdigit
    exact hdigit.2
  have hbyte : c.toNat.toUInt8.toNat = c.toNat := by
    rw [UInt8.toNat_ofNat']
    omega
  simp only [Function.comp, hbyte, Char.ofNat_toNat, id]

theorem toDecimal_natCast_injective {m n : Nat} (h : toDecimal m = toDecimal n) : m = n := by
  have hdigits : Nat.toDigits 10 m = Nat.toDigits 10 n := by
    rw [← map_toDecimal_natCast, h, map_toDecimal_natCast]
  rw [← Nat.ofDigitChars_ten_toDigits (n := m), hdigits, Nat.ofDigitChars_ten_toDigits]

theorem length_toDecimal_natCast_le {n k : Nat} (hk : 0 < k) (hn : n < 10 ^ k) :
    (toDecimal n).length ≤ k := by
  rw [toDecimal_natCast, List.length_map]
  exact (Nat.length_toDigits_le_iff (by decide) hk).mpr hn

/-! ### Digits -/

theorem isDigit_ten_iff {b : UInt8} : isDigit 10 b = true ↔ 48 ≤ b.toNat ∧ b.toNat ≤ 57 := by
  have hlow : (48 : UInt8).toNat = 48 := rfl
  have hhigh : (57 : UInt8).toNat = 57 := rfl
  rw [isDigit, digitValue]
  split
  · rename_i h
    simp only [Bool.and_eq_true, decide_eq_true_eq, UInt8.le_iff_toNat_le, hlow, hhigh] at h
    simp only [Option.any_some, decide_eq_true_eq]
    omega
  · rename_i h
    simp only [Bool.and_eq_true, decide_eq_true_eq, UInt8.le_iff_toNat_le, hlow, hhigh] at h
    split
    · simp only [Option.any_some, decide_eq_true_eq]
      rename_i hupper
      simp only [Bool.and_eq_true, decide_eq_true_eq, UInt8.le_iff_toNat_le] at hupper
      have hA : (65 : UInt8).toNat = 65 := rfl
      omega
    · split
      · simp only [Option.any_some, decide_eq_true_eq]
        rename_i hletter
        simp only [Bool.and_eq_true, decide_eq_true_eq, UInt8.le_iff_toNat_le] at hletter
        have ha : (97 : UInt8).toNat = 97 := rfl
        omega
      · simp only [Option.any_none, Bool.false_eq_true, false_iff]
        exact h

theorem digitValue_of_isDigit {c : Char} (h : c.isDigit) :
    digitValue c.toNat.toUInt8 = some (c.toNat - 48) := by
  simp only [Char.isDigit, Bool.and_eq_true, decide_eq_true_eq] at h
  obtain ⟨hlow, hhigh⟩ := h
  have hlow' : 48 ≤ c.toNat := hlow
  have hhigh' : c.toNat ≤ 57 := hhigh
  have hbyte : c.toNat.toUInt8.toNat = c.toNat := by
    rw [UInt8.toNat_ofNat']
    omega
  have hrange : (48 ≤ c.toNat.toUInt8 && c.toNat.toUInt8 ≤ 57) = true := by
    simp only [Bool.and_eq_true, decide_eq_true_eq, UInt8.le_iff_toNat_le, hbyte]
    exact ⟨hlow', hhigh'⟩
  rw [digitValue, if_pos hrange, hbyte]

theorem digits_toDecimal (n : Nat) : ∀ b ∈ toDecimal n, isDigit 10 b = true := by
  intro b hb
  rw [toDecimal_natCast] at hb
  obtain ⟨c, hc, rfl⟩ := List.mem_map.mp hb
  have hdigit := Nat.isDigit_of_mem_toDigits (by decide) (by decide) hc
  have hhigh : c.toNat ≤ 57 := by
    simp only [Char.isDigit, Bool.and_eq_true, decide_eq_true_eq] at hdigit
    exact hdigit.2
  rw [isDigit, digitValue_of_isDigit hdigit, Option.any_some, decide_eq_true_eq]
  omega

theorem toDecimal_natCast_ne_nil (n : Nat) : toDecimal n ≠ [] := by
  rw [toDecimal_natCast]
  simp only [ne_eq, List.map_eq_nil_iff]
  exact Nat.toDigits_ne_nil

/-- The digits say the number. -/
theorem ofDigits_toDecimal (n : Nat) : ofDigits 10 (toDecimal n) = n := by
  have hfold : ∀ (cs : List Char) (k : Nat), (∀ c ∈ cs, c.isDigit) →
      (cs.map fun c => c.toNat.toUInt8).foldl (fun n b => n * 10 + (digitValue b).getD 0) k =
        Nat.ofDigitChars 10 cs k := by
    intro cs
    induction cs with
    | nil =>
      intro k _
      rfl
    | cons c cs ih =>
      intro k hdigits
      rw [List.map_cons, List.foldl_cons, Nat.ofDigitChars_cons,
        digitValue_of_isDigit (hdigits c (List.mem_cons_self ..)), Option.getD_some,
        ih _ fun c hc => hdigits c (List.mem_cons_of_mem _ hc), Nat.mul_comm]
      rfl
  rw [ofDigits, toDecimal_natCast, hfold _ _ fun c hc =>
    Nat.isDigit_of_mem_toDigits (by decide) (by decide) hc]
  exact Nat.ofDigitChars_ten_toDigits

/-- Decimal digits are read as a number. -/
theorem read_toDecimal (n : Nat) :
    magnitude (toDecimal n) = some n ∧ hasMinus (toDecimal n) = false := by
  have hdigits := digits_toDecimal n
  have hsome : ∀ b ∈ toDecimal n, (digitValue b).isSome := by
    intro b hb
    have hb' := hdigits b hb
    rw [isDigit, Option.any_eq_true] at hb'
    obtain ⟨v, hv, -⟩ := hb'
    rw [hv]
    rfl
  obtain ⟨htext, hminus⟩ := unsignedText_of_digits (toDecimal_natCast_ne_nil n) hsome
  have hall : (toDecimal n).takeWhile (isDigit 10) = toDecimal n :=
    List.takeWhile_eq_self_iff.mpr hdigits
  refine ⟨?_, hminus⟩
  rw [magnitude, htext, hall, if_neg (toDecimal_natCast_ne_nil n), ofDigits_toDecimal]

theorem stoi_toDecimal {n : Nat} (h : n < 2147483648) : stoi (toDecimal n) = .ok n := by
  obtain ⟨hmagnitude, hplus⟩ := read_toDecimal n
  have hsigned : signed (toDecimal n) n = n := by rw [signed, hplus, if_neg (by simp)]
  exact stoi_eq_ok.mpr ⟨n, hmagnitude, hsigned.symm, by omega, by omega⟩

/-! ### One digit more -/

/-- The digit of a number below 10. -/
def digit (n : Nat) : UInt8 := (48 + n).toUInt8

theorem toNat_digit {n : Nat} (h : n < 10) : (digit n).toNat = 48 + n := by
  rw [digit, UInt8.toNat_ofNat']
  omega

theorem digitChar_toUInt8 {n : Nat} (h : n < 10) : n.digitChar.toNat.toUInt8 = digit n := by
  interval_cases n <;> rfl

theorem toDecimal_of_lt {n : Nat} (h : n < 10) : toDecimal n = [digit n] := by
  rw [toDecimal_natCast, Nat.toDigits_of_lt_base h, List.map_singleton, digitChar_toUInt8 h]

theorem toDecimal_of_le {n : Nat} (h : 10 ≤ n) :
    toDecimal n = toDecimal (n / 10 : Nat) ++ [digit (n % 10)] := by
  rw [toDecimal_natCast, toDecimal_natCast, Nat.toDigits_of_base_le (by decide) h, List.map_append,
    List.map_singleton, digitChar_toUInt8 (Nat.mod_lt n (by decide))]

/-- Only 0 begins with a zero. -/
theorem head_toDecimal {n : Nat} (h : (toDecimal n).head? = some 48) : n = 0 := by
  induction n using Nat.strong_induction_on with
  | _ n ih =>
    by_cases hlt : n < 10
    · rw [toDecimal_of_lt hlt, List.head?_cons, Option.some_inj] at h
      have hdigit := toNat_digit hlt
      rw [h] at hdigit
      have hzero : (48 : UInt8).toNat = 48 := rfl
      omega
    · rw [toDecimal_of_le (by omega), List.head?_append_of_ne_nil _ (toDecimal_natCast_ne_nil _)] at h
      have := ih (n / 10) (by omega) h
      omega

/-! ### Signs -/

theorem toDecimal_neg {n : Nat} (h : 0 < n) : toDecimal (-(n : Int)) = 45 :: toDecimal n := by
  have hneg : (-(n : Int)).repr = "-" ++ n.repr := by
    rw [Int.repr_eq_if, if_neg (by omega), neg_neg, Int.toNat_natCast]
  have hpos : (n : Int).repr = n.repr := by
    rw [Int.repr_eq_if, if_pos (by omega), Int.toNat_natCast]
  rw [toDecimal, toDecimal, Int.toString_eq_repr, Int.toString_eq_repr, hneg, hpos, ofString,
    String.toList_append]
  rfl

/-- The number that a text says. -/
def readInteger (text : Bytes) : Option Int := (magnitude text).map (signed text)

theorem readInteger_toDecimal (n : Int) : readInteger (toDecimal n) = some n := by
  obtain ⟨m, rfl | rfl⟩ := n.eq_nat_or_neg
  · obtain ⟨hmagnitude, hplus⟩ := read_toDecimal m
    rw [readInteger, hmagnitude, Option.map_some, signed, hplus, if_neg (by simp)]
  · rcases Nat.eq_zero_or_pos m with rfl | hm
    · rfl
    · have hblank : (cString (45 :: toDecimal m)).dropWhile isspace = 45 :: toDecimal m := by
        have hstring : cString (45 :: toDecimal m) = 45 :: toDecimal m := by
          rw [cString, List.takeWhile_eq_self_iff]
          intro b hb
          rcases List.mem_cons.mp hb with rfl | hb
          · rfl
          · obtain ⟨v, hv, -⟩ := Option.any_eq_true _ _ |>.mp (digits_toDecimal m b hb)
            exact bne_iff_ne.mpr (plain_of_digitValue hv).2.2.2
        rw [hstring, List.dropWhile_cons_of_neg (by decide)]
      have hall : (toDecimal m).takeWhile (isDigit 10) = toDecimal m :=
        List.takeWhile_eq_self_iff.mpr (digits_toDecimal m)
      have htext : unsignedText (45 :: toDecimal m) = toDecimal m := by
        rw [unsignedText, hblank]
        rfl
      have hminus : hasMinus (45 :: toDecimal m) = true := by
        rw [hasMinus, hblank]
        rfl
      rw [toDecimal_neg hm, readInteger, magnitude, htext, hall,
        if_neg (toDecimal_natCast_ne_nil m), ofDigits_toDecimal, Option.map_some, signed, hminus,
        if_pos rfl]

theorem length_toDecimal_le {n : Int} {k : Nat} (hk : 0 < k) (hn : n.natAbs < 10 ^ k) :
    (toDecimal n).length ≤ k + 1 := by
  obtain ⟨m, rfl | rfl⟩ := n.eq_nat_or_neg
  · rw [Int.natAbs_natCast] at hn
    exact Nat.le_succ_of_le (length_toDecimal_natCast_le hk hn)
  · rw [Int.natAbs_neg, Int.natAbs_natCast] at hn
    have hlength := length_toDecimal_natCast_le hk hn
    rcases Nat.eq_zero_or_pos m with rfl | hm
    · exact Nat.le_succ_of_le hlength
    · rw [toDecimal_neg hm, List.length_cons]
      omega

theorem toDecimal_ne_nil (n : Int) : toDecimal n ≠ [] := by
  intro hempty
  have hread := readInteger_toDecimal n
  rw [hempty] at hread
  cases hread

theorem toDecimal_injective {m n : Int} (h : toDecimal m = toDecimal n) : m = n := by
  have hread := readInteger_toDecimal m
  rw [h, readInteger_toDecimal] at hread
  exact (Option.some.inj hread).symm

/-- A decimal numeral without superfluous signs and zeros. -/
structure IsCanonical (text sign digits : Bytes) : Prop where
  eq : text = sign ++ digits
  sign_eq : sign = [] ∨ sign = [45]
  ne_nil : digits ≠ []
  all_digits : ∀ b ∈ digits, isDigit 10 b = true
  zero : digits.head? = some 48 → text = [48]

theorem isCanonical_toDecimal (n : Int) : ∃ sign digits, IsCanonical (toDecimal n) sign digits := by
  obtain ⟨m, rfl | rfl⟩ := n.eq_nat_or_neg
  · refine ⟨[], toDecimal m, rfl, .inl rfl, toDecimal_natCast_ne_nil m, digits_toDecimal m, ?_⟩
    intro hzero
    cases head_toDecimal hzero
    rfl
  · rcases Nat.eq_zero_or_pos m with rfl | hm
    · exact ⟨[], [48], rfl, .inl rfl, by simp, by decide +kernel, fun _ => rfl⟩
    · refine ⟨[45], toDecimal m, toDecimal_neg hm, .inr rfl, toDecimal_natCast_ne_nil m,
        digits_toDecimal m, ?_⟩
      intro hzero
      have := head_toDecimal hzero
      omega

end Mymuduo

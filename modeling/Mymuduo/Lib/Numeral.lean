import Mathlib.Data.List.Basic
import Mathlib.Data.List.TakeWhile
import Mathlib.Tactic.Common

/-! The conversions from text to numbers of `<string>` and `<cstdlib>`.  They skip blanks, take a
sign, and read digits as far as they go; what follows is ignored. -/

namespace Lib

/-- The exceptions of `std::stoi` and `std::stoul`. -/
inductive ConversionError
  | invalidArgument
  | outOfRange
  deriving DecidableEq, Repr

/-- `isspace`, in the C locale. -/
def isspace (b : UInt8) : Bool := b == 32 || (9 ≤ b && b ≤ 13)

/-- The value of a digit or a letter as a digit. -/
def digitValue (b : UInt8) : Option Nat :=
  if 48 ≤ b && b ≤ 57 then some (b.toNat - 48)
  else if 65 ≤ b && b ≤ 90 then some (b.toNat - 55)
  else if 97 ≤ b && b ≤ 122 then some (b.toNat - 87)
  else none

/-- `b` is a digit in the base. -/
def isDigit (base : Nat) (b : UInt8) : Bool := (digitValue b).any (· < base)

/-- The bytes of a string up to its first zero byte, as a function that is passed `c_str()` sees
them. -/
def cString (s : List UInt8) : List UInt8 := s.takeWhile (· != 0)

/-- The text after the blanks begins with a minus sign. -/
def hasMinus (s : List UInt8) : Bool := ((cString s).dropWhile isspace).head? == some 45

/-- The text after the blanks and the sign. -/
def unsignedText (s : List UInt8) : List UInt8 :=
  match (cString s).dropWhile isspace with
  | [] => []
  | b :: rest => if b == 45 || b == 43 then rest else b :: rest

/-- The text after `0x`, in base 16. -/
def dropHexPrefix : List UInt8 → List UInt8
  | 48 :: 120 :: rest => rest
  | 48 :: 88 :: rest => rest
  | text => text

def ofDigits (base : Nat) (digits : List UInt8) : Nat :=
  digits.foldl (fun n b => n * base + (digitValue b).getD 0) 0

/-- The number that the digits of the text say, if there is a digit. -/
def magnitude (s : List UInt8) : Option Nat :=
  let digits := (unsignedText s).takeWhile (isDigit 10)
  if digits = [] then none else some (ofDigits 10 digits)

/-- A number with the sign of the text. -/
def signed (s : List UInt8) (n : Nat) : Int := if hasMinus s then -n else n

/-- `std::stoi(s)` -/
def stoi (s : List UInt8) : Except ConversionError Int :=
  match magnitude s with
  | none => .error .invalidArgument
  | some n =>
    if -0x80000000 ≤ signed s n ∧ signed s n ≤ 0x7fffffff then .ok (signed s n)
    else .error .outOfRange

/-- `std::stoul(s)`: a number with a minus sign is negated as an unsigned one. -/
def stoul (s : List UInt8) : Except ConversionError UInt64 :=
  match magnitude s with
  | none => .error .invalidArgument
  | some n =>
    if n ≤ 0xffffffffffffffff then
      .ok (if hasMinus s then -(UInt64.ofNat n) else UInt64.ofNat n)
    else
      .error .outOfRange

/-- `strtol(s, nullptr, 16)` -/
def strtolHex (s : List UInt8) : Int :=
  let n := ofDigits 16 ((dropHexPrefix (unsignedText s)).takeWhile (isDigit 16))
  max (-0x8000000000000000) (min 0x7fffffffffffffff (signed s n))

variable {s : List UInt8} {n : Int}

/-! ### Digits -/

theorem le_of_digitValue {b : UInt8} {v : Nat} (h : digitValue b = some v) : 48 ≤ b.toNat := by
  have hzero : (48 : UInt8).toNat = 48 := rfl
  have hupper : (65 : UInt8).toNat = 65 := rfl
  have hlower : (97 : UInt8).toNat = 97 := rfl
  unfold digitValue at h
  split at h
  · rename_i hrange
    simp only [Bool.and_eq_true, decide_eq_true_eq, UInt8.le_iff_toNat_le] at hrange
    omega
  · split at h
    · rename_i hrange
      simp only [Bool.and_eq_true, decide_eq_true_eq, UInt8.le_iff_toNat_le] at hrange
      omega
    · split at h
      · rename_i hrange
        simp only [Bool.and_eq_true, decide_eq_true_eq, UInt8.le_iff_toNat_le] at hrange
        omega
      · cases h

/-- A digit is no blank, no sign and no zero byte. -/
theorem plain_of_digitValue {b : UInt8} {v : Nat} (h : digitValue b = some v) :
    isspace b = false ∧ b ≠ 45 ∧ b ≠ 43 ∧ b ≠ 0 := by
  have hlow := le_of_digitValue h
  refine ⟨?_, ?_, ?_, ?_⟩
  · have hblank : b ≠ 32 := by
      rintro rfl
      exact absurd hlow (by decide)
    have hcontrol : ¬b ≤ 13 := by
      intro hle
      have hle' : b.toNat ≤ 13 := UInt8.le_iff_toNat_le.mp hle
      omega
    simp [isspace, hblank, hcontrol]
  all_goals
    rintro rfl
    exact absurd hlow (by decide)

/-- A text that begins with digits has no blanks and no sign before them. -/
theorem unsignedText_of_digits (hs : s ≠ []) (hdigits : ∀ b ∈ s, (digitValue b).isSome) :
    unsignedText s = s ∧ hasMinus s = false := by
  have hplain : ∀ b ∈ s, isspace b = false ∧ b ≠ 45 ∧ b ≠ 43 ∧ b ≠ 0 := by
    intro b hb
    obtain ⟨v, hv⟩ := Option.isSome_iff_exists.mp (hdigits b hb)
    exact plain_of_digitValue hv
  have hstring : cString s = s := by
    rw [cString, List.takeWhile_eq_self_iff]
    intro b hb
    exact bne_iff_ne.mpr (hplain b hb).2.2.2
  obtain ⟨b, rest, rfl⟩ := List.exists_cons_of_ne_nil hs
  obtain ⟨hspace, hminus, hplus, -⟩ := hplain b (List.mem_cons_self ..)
  have hblank : (cString (b :: rest)).dropWhile isspace = b :: rest := by
    rw [hstring, List.dropWhile_cons_of_neg (by rw [hspace]; simp)]
  refine ⟨?_, ?_⟩
  · rw [unsignedText, hblank]
    dsimp only
    rw [if_neg (by simp [hminus, hplus])]
  · rw [hasMinus, hblank]
    simp [hminus]

/-! ### The conversions -/

theorem stoi_eq_ok : stoi s = .ok n ↔
    ∃ m, magnitude s = some m ∧ n = signed s m ∧ -0x80000000 ≤ n ∧ n ≤ 0x7fffffff := by
  unfold stoi
  cases hm : magnitude s with
  | none => simp
  | some m =>
    dsimp only
    constructor
    · intro h
      split at h
      · rename_i hrange
        cases h
        exact ⟨m, rfl, rfl, hrange⟩
      · cases h
    · rintro ⟨m', hm', rfl, hrange⟩
      cases hm'
      rw [if_pos hrange]

/-- Where `stoi` reads a number, `stoul` reads the same one modulo `2 ^ 64`. -/
theorem stoul_of_stoi (h : stoi s = .ok n) :
    stoul s = .ok (if hasMinus s then -(UInt64.ofNat n.natAbs) else UInt64.ofNat n.natAbs) := by
  obtain ⟨m, hm, hn, hlow, hhigh⟩ := stoi_eq_ok.mp h
  have habs : n.natAbs = m := by
    unfold signed at hn
    split at hn <;> omega
  unfold stoul
  rw [hm]
  dsimp only
  rw [if_pos (by omega), habs]

theorem stoi_natAbs_le (h : stoi s = .ok n) : n.natAbs ≤ 0x80000000 := by
  obtain ⟨m, -, -, hlow, hhigh⟩ := stoi_eq_ok.mp h
  omega

theorem stoi_sign (h : stoi s = .ok n) : if hasMinus s then n ≤ 0 else 0 ≤ n := by
  obtain ⟨m, -, hn, -, -⟩ := stoi_eq_ok.mp h
  split
  · rename_i hminus
    rw [signed, if_pos hminus] at hn
    omega
  · rename_i hplus
    rw [signed, if_neg hplus] at hn
    omega

/-- A number that is not negative is read alike by both. -/
theorem stoul_of_stoi_nonneg (h : stoi s = .ok n) (hn : 0 ≤ n) :
    ∃ m, stoul s = .ok m ∧ (m.toNat : Int) = n := by
  have hle := stoi_natAbs_le h
  have hsign := stoi_sign h
  refine ⟨_, stoul_of_stoi h, ?_⟩
  split
  · rename_i hminus
    rw [if_pos hminus] at hsign
    have hzero : n = 0 := by omega
    subst hzero
    rfl
  · rw [UInt64.toNat_ofNat', Nat.mod_eq_of_lt (by omega)]
    omega

/-- A negative number is read by `stoul` as a huge one. -/
theorem stoul_of_stoi_neg (h : stoi s = .ok n) (hn : n < 0) :
    ∃ m, stoul s = .ok m ∧ (m.toNat : Int) = 0x10000000000000000 + n := by
  have hle := stoi_natAbs_le h
  have hsign := stoi_sign h
  refine ⟨_, stoul_of_stoi h, ?_⟩
  split
  · have habs : (UInt64.ofNat n.natAbs).toNat = n.natAbs := by
      rw [UInt64.toNat_ofNat', Nat.mod_eq_of_lt (by omega)]
    rw [UInt64.toNat_neg, habs, UInt64.size]
    omega
  · rename_i hplus
    rw [if_neg hplus] at hsign
    omega

theorem stoul_isOk_of_stoi (h : stoi s = .ok n) : ∃ m, stoul s = .ok m :=
  ⟨_, stoul_of_stoi h⟩

theorem stoul_ne_zero_of_stoi {m : UInt64} (h : stoi s = .ok n) (hn : n ≠ 0)
    (hm : stoul s = .ok m) : m.toNat ≠ 0 := by
  by_cases hneg : n < 0
  · obtain ⟨m', hm', hmn⟩ := stoul_of_stoi_neg h hneg
    cases hm.symm.trans hm'
    have := stoi_natAbs_le h
    omega
  · obtain ⟨m', hm', hmn⟩ := stoul_of_stoi_nonneg h (by omega)
    cases hm.symm.trans hm'
    omega

end Lib

import Mymuduo.Base.Decimal

/-! Conversions of `snprintf` that fill a field, and how the texts of fields of equal width compare:
as the numbers do. -/

namespace Mymuduo

/-- `%0wd` -/
def formatZero (width : Nat) (n : Int) : Bytes :=
  let sign := if n < 0 then ofString "-" else []
  let digits := toDecimal n.natAbs
  sign ++ List.replicate (width - (sign.length + digits.length)) 48 ++ digits

/-- `%wd` -/
def formatBlank (width : Nat) (n : Int) : Bytes :=
  List.replicate (width - (toDecimal n).length) 32 ++ toDecimal n

/-- The last `width` digits of a number. -/
def lastDigits : Nat → Nat → Bytes
  | 0, _ => []
  | width + 1, n => lastDigits width (n / 10) ++ [digit (n % 10)]

@[simp] theorem length_lastDigits (width n : Nat) : (lastDigits width n).length = width := by
  induction width generalizing n with
  | zero => rfl
  | succ width ih => rw [lastDigits, List.length_append, ih, List.length_singleton]

theorem lastDigits_zero (width : Nat) : lastDigits width 0 = List.replicate width 48 := by
  induction width with
  | zero => rfl
  | succ width ih =>
    rw [lastDigits, Nat.zero_div, ih, List.replicate_succ']
    rfl

/-- A number that fits is filled up with zeros. -/
theorem zeros_toDecimal {width n : Nat} (hwidth : 0 < width) (hn : n < 10 ^ width) :
    List.replicate (width - (toDecimal n).length) 48 ++ toDecimal n = lastDigits width n := by
  induction width generalizing n with
  | zero => cases hwidth
  | succ width ih =>
    rw [lastDigits]
    by_cases hlt : n < 10
    · rw [toDecimal_of_lt hlt, List.length_singleton, Nat.add_sub_cancel, Nat.div_eq_of_lt hlt,
        Nat.mod_eq_of_lt hlt, lastDigits_zero]
    · have hpos : 0 < width := by
        by_contra hzero
        obtain rfl : width = 0 := by omega
        omega
      rw [toDecimal_of_le (by omega), ← ih hpos (by rw [Nat.pow_succ] at hn; omega),
        List.length_append, List.length_singleton, Nat.add_sub_add_right, List.append_assoc]

theorem formatZero_eq {width n : Nat} (hwidth : 0 < width) (hn : n < 10 ^ width) :
    formatZero width n = lastDigits width n := by
  have hsign : ¬ (n : Int) < 0 := by omega
  unfold formatZero
  dsimp only
  rw [if_neg hsign, List.length_nil, Nat.zero_add, List.nil_append, Int.natAbs_natCast]
  exact zeros_toDecimal hwidth hn

theorem formatZero_of_nonneg {width : Nat} {n : Int} (hwidth : 0 < width) (hlow : 0 ≤ n)
    (hhigh : n < 10 ^ width) : formatZero width n = lastDigits width n.toNat := by
  obtain ⟨m, rfl⟩ := Int.eq_ofNat_of_zero_le hlow
  exact formatZero_eq hwidth (by exact_mod_cast hhigh)

/-- A number that fills the field needs no blanks. -/
theorem formatBlank_eq {width n : Nat} (hwidth : 0 < width) (hlow : 10 ^ width ≤ n)
    (hn : n < 10 ^ (width + 1)) : formatBlank (width + 1) n = lastDigits (width + 1) n := by
  have hlength : width + 1 - (toDecimal n).length = 0 := by
    have hlong : ¬ (toDecimal n).length ≤ width := by
      rw [toDecimal_natCast, List.length_map, Nat.length_toDigits_le_iff (by decide) hwidth]
      omega
    omega
  rw [← zeros_toDecimal (Nat.succ_pos width) hn, formatBlank, hlength]
  rfl

/-! ### Order -/

/-- Of two texts, the one with the smaller beginning is the smaller one. -/
theorem append_lt_append {a b : Bytes} (h : a < b) (hlength : a.length = b.length) (x y : Bytes) :
    a ++ x < b ++ y := by
  induction a generalizing b with
  | nil =>
    rw [List.length_eq_zero_iff.mp hlength.symm] at h
    exact absurd h (List.lt_irrefl [])
  | cons c a ih =>
    cases b with
    | nil => cases hlength
    | cons d b =>
      rw [List.cons_append, List.cons_append, List.cons_lt_cons_iff]
      rcases List.cons_lt_cons_iff.mp h with hhead | ⟨hhead, htail⟩
      · exact .inl hhead
      · exact .inr ⟨hhead, ih htail (Nat.succ.inj hlength)⟩

/-- Behind a common beginning, the texts are compared by what follows. -/
theorem append_left_lt_iff (a x y : Bytes) : a ++ x < a ++ y ↔ x < y := by
  induction a with
  | nil => exact Iff.rfl
  | cons c a ih =>
    rw [List.cons_append, List.cons_append, List.cons_lt_cons_iff, ih]
    simp

/-- Fields are compared as their numbers. -/
theorem lastDigits_lt {width m n : Nat} (h : m < n) (hn : n < 10 ^ width) :
    lastDigits width m < lastDigits width n := by
  induction width generalizing m n with
  | zero => omega
  | succ width ih =>
    rw [lastDigits, lastDigits]
    rcases Nat.lt_or_ge (m / 10) (n / 10) with hlt | hge
    · exact append_lt_append (ih hlt (by rw [Nat.pow_succ] at hn; omega)) (by simp) _ _
    · have hsame : m / 10 = n / 10 := by omega
      rw [hsame]
      refine List.append_left_lt (List.cons_lt_cons_iff.mpr (.inl ?_))
      rw [UInt8.lt_iff_toNat_lt, toNat_digit (Nat.mod_lt _ (by decide)),
        toNat_digit (Nat.mod_lt _ (by decide))]
      omega

theorem formatZero_injective {width : Nat} {m n : Int} (hwidth : 0 < width)
    (hm : 0 ≤ m ∧ m < 10 ^ width) (hn : 0 ≤ n ∧ n < 10 ^ width)
    (h : formatZero width m = formatZero width n) : m = n := by
  rw [formatZero_of_nonneg hwidth hm.1 hm.2, formatZero_of_nonneg hwidth hn.1 hn.2] at h
  have hm' : m.toNat < 10 ^ width := (Int.toNat_lt hm.1).mpr (by exact_mod_cast hm.2)
  have hn' : n.toNat < 10 ^ width := (Int.toNat_lt hn.1).mpr (by exact_mod_cast hn.2)
  rcases Nat.lt_trichotomy m.toNat n.toNat with hlt | heq | hlt
  · exact absurd (h ▸ lastDigits_lt hlt hn') (List.lt_irrefl _)
  · omega
  · exact absurd (h ▸ lastDigits_lt hlt hm') (List.lt_irrefl _)

end Mymuduo

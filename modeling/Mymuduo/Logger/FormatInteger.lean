import Mymuduo.Logger.LogStream

/-! The text of an integer in a stream: the digits are stored from the last to the first, a sign
behind them, and all of it is reversed where it stands. -/

namespace Mymuduo

open Lib

namespace BufferMemory

variable {SIZE : Nat} {b t : BufferMemory SIZE}

theorem store_ok {i : Nat} {bytes : Bytes} (h : i + bytes.length ≤ SIZE) :
    b.store i bytes = .ok { b with data := writeCells b.data i bytes } := if_pos h

theorem reverse_ok {start stop : Nat} (h : stop ≤ SIZE) :
    b.reverse start stop = .ok { b with data := reverseCells b.data start stop } := if_pos h

theorem add_ok {len : Nat} (h : b.cur + len ≤ SIZE) :
    b.add len = .ok { b with cur := b.cur + len, cur_le := h } := dif_pos h

@[simp] theorem length_content (b : BufferMemory SIZE) : b.content.length = b.cur := by
  rw [content, length_readCells]

/-- `t` is `b` with `text` behind its content, and no cell but `width` of those behind the content
has changed. -/
structure Appends (b : BufferMemory SIZE) (text : Bytes) (width : Nat) (t : BufferMemory SIZE) :
    Prop where
  content : t.content = b.content ++ text
  others : ∀ i, i < b.cur ∨ b.cur + width ≤ i → t.data i = b.data i

theorem Appends.cur {text : Bytes} {width : Nat} (h : Appends b text width t) :
    t.cur = b.cur + text.length := by
  have hlength := congrArg List.length h.content
  rwa [length_content, List.length_append, length_content] at hlength

theorem Appends.mono {text : Bytes} {width width' : Nat} (h : Appends b text width t)
    (hle : width ≤ width') : Appends b text width' t :=
  ⟨h.content, fun i hi => h.others i (by omega)⟩

/-- A buffer whose cells from `cur` on have come to hold `text`. -/
theorem appends_of_cells (data : Nat → UInt8) {text : Bytes} (width : Nat)
    (hle : b.cur + text.length ≤ SIZE) (htext : readCells data b.cur text.length = text)
    (hothers : ∀ i, i < b.cur ∨ b.cur + width ≤ i → data i = b.data i) :
    Appends b text width { data := data, cur := b.cur + text.length, cur_le := hle } := by
  refine ⟨?_, hothers⟩
  rw [content, content, readCells_add, Nat.zero_add, htext]
  congr 1
  exact readCells_congr fun i _ hi => hothers i (by omega)

end BufferMemory

namespace LogStream

section

variable {SIZE : Nat}

/-- The table gives the digit of a remainder of either sign. -/
theorem zeroAt_tmod (num : Int) : zeroAt (num.tmod 10) = digit (num.natAbs % 10) := by
  have habs : (num.tmod 10).natAbs = num.natAbs % 10 := Int.natAbs_tmod num 10
  rw [← habs]
  have hlt : (num.tmod 10).natAbs < 10 := by
    rw [habs]
    exact Nat.mod_lt _ (by decide)
  generalize num.tmod 10 = r at hlt
  have hlow : -10 < r := by omega
  have hhigh : r < 10 := by omega
  interval_cases r <;> rfl

/-- The digits are stored in reverse. -/
theorem writeDigits_spec (num : Int) (b : BufferMemory SIZE) {cur : Nat}
    (h : cur + (toDecimal num.natAbs).length ≤ SIZE) :
    writeDigits b cur num =
      .ok ({ b with data := writeCells b.data cur (toDecimal num.natAbs).reverse },
        cur + (toDecimal num.natAbs).length) := by
  induction hn : num.natAbs using Nat.strong_induction_on generalizing num b cur with
  | _ n ih =>
    subst hn
    have hdiv : (num.tdiv 10).natAbs = num.natAbs / 10 := Int.natAbs_tdiv num 10
    rw [writeDigits, zeroAt_tmod]
    by_cases hlt : num.natAbs < 10
    · have hzero : ¬ num.tdiv 10 ≠ 0 := by
        rw [not_not, ← Int.natAbs_eq_zero, hdiv]
        omega
      rw [toDecimal_of_lt hlt] at h ⊢
      rw [Nat.mod_eq_of_lt hlt, BufferMemory.store_ok h, ok_bind, dif_neg hzero]
      rfl
    · have hmore : num.tdiv 10 ≠ 0 := by
        rw [ne_eq, ← Int.natAbs_eq_zero, hdiv]
        omega
      have htext := toDecimal_of_le (n := num.natAbs) (by omega)
      rw [htext, List.length_append, List.length_singleton, ← hdiv] at h
      rw [BufferMemory.store_ok (by rw [List.length_singleton]; omega), ok_bind, dif_pos hmore,
        ih _ (by omega) (num.tdiv 10) _ (by omega) rfl, htext, hdiv, List.reverse_append,
        List.length_append, List.length_singleton]
      simp only [List.reverse_singleton, List.singleton_append, writeCells, Except.ok.injEq,
        Prod.mk.injEq, true_and]
      omega

/-- What stands behind the digits. -/
def signOf (num : Int) : Bytes := if num < 0 then ofString "-" else []

theorem toDecimal_eq_sign (num : Int) :
    (toDecimal num.natAbs).reverse ++ signOf num = (toDecimal num).reverse := by
  rw [signOf]
  split
  · rename_i hneg
    have hnum : num = -(num.natAbs : Int) := by omega
    have htext := toDecimal_neg (n := num.natAbs) (by omega)
    rw [← hnum] at htext
    rw [htext, List.reverse_cons]
    rfl
  · rename_i hpos
    have hnum : (num.natAbs : Int) = num := by omega
    rw [List.append_nil, hnum]

/-- The digits with the sign behind them are the whole text in reverse. -/
theorem writeSign_spec (b : BufferMemory SIZE) {cur : Nat} (num : Int)
    (h : cur + (toDecimal num).length ≤ SIZE) :
    writeSign { b with data := writeCells b.data cur (toDecimal num.natAbs).reverse }
        (cur + (toDecimal num.natAbs).length) (decide (num < 0)) =
      .ok ({ b with data := writeCells b.data cur (toDecimal num).reverse },
        cur + (toDecimal num).length) := by
  have hsign := toDecimal_eq_sign num
  have hlength := congrArg List.length hsign
  rw [List.length_append, List.length_reverse, List.length_reverse] at hlength
  rw [← hsign, writeCells_append, ← hlength, List.length_reverse, writeSign]
  by_cases hneg : num < 0
  · rw [if_pos (decide_eq_true hneg)]
    rw [signOf, if_pos hneg] at hlength ⊢
    have hone : (ofString "-").length = 1 := rfl
    rw [BufferMemory.store_ok (by omega)]
    rfl
  · rw [if_neg (by simp [hneg]), signOf, if_neg hneg]
    rfl

/-- With room for the text and a zero byte, the text is appended. -/
theorem formatDigits_spec (b : BufferMemory SIZE) (num : Int)
    (h : b.cur + (toDecimal num).length + 1 ≤ SIZE) :
    ∃ t, formatDigits b num = .ok t ∧
      b.Appends (toDecimal num) ((toDecimal num).length + 1) t := by
  have hdigits : (toDecimal num.natAbs).length ≤ (toDecimal num).length := by
    have hlength := congrArg List.length (toDecimal_eq_sign num)
    rw [List.length_append, List.length_reverse, List.length_reverse] at hlength
    omega
  -- What the cells hold before they are reversed.
  let stored := writeCells (writeCells b.data b.cur (toDecimal num).reverse)
    (b.cur + (toDecimal num).length) [0]
  have hadd : b.cur + (toDecimal num).length - b.cur = (toDecimal num).length :=
    Nat.add_sub_cancel_left ..
  have hcur : b.cur + (toDecimal num).length ≤ SIZE := by omega
  refine ⟨_, ?_, BufferMemory.appends_of_cells
    (reverseCells stored b.cur (b.cur + (toDecimal num).length)) _ hcur ?_ ?_⟩
  · rw [formatDigits, writeDigits_spec num b (by omega), ok_bind]
    dsimp only
    rw [writeSign_spec b num hcur, ok_bind]
    dsimp only
    rw [BufferMemory.store_ok (by rw [List.length_singleton]; omega), ok_bind,
      BufferMemory.reverse_ok hcur, ok_bind, hadd]
    exact BufferMemory.add_ok
      (b := { b with data := reverseCells stored b.cur (b.cur + (toDecimal num).length) }) hcur
  · have hread : readCells stored b.cur (toDecimal num).length = (toDecimal num).reverse := by
      have hbefore : readCells stored b.cur (toDecimal num).length =
          readCells (writeCells b.data b.cur (toDecimal num).reverse) b.cur
            (toDecimal num).length :=
        readCells_congr fun i _ hi => writeCells_of_notMem (.inl hi)
      have hself := readCells_writeCells b.data b.cur (toDecimal num).reverse
      rw [List.length_reverse] at hself
      exact hbefore.trans hself
    rw [readCells_reverseCells, hread, List.reverse_reverse]
  · intro i hi
    have hzero : stored i = writeCells b.data b.cur (toDecimal num).reverse i :=
      writeCells_of_notMem (by rw [List.length_singleton]; omega)
    rw [reverseCells_of_notMem (by omega), hzero,
      writeCells_of_notMem (by rw [List.length_reverse]; omega)]

end

/-- No integer has more than 20 digits. -/
theorem length_toDecimal_integer (v : Integer) : (toDecimal v.val).length ≤ 21 := by
  have habs : v.val.natAbs < 10 ^ 20 := by
    have hholds := v.holds
    unfold IntegerType.Holds at hholds
    cases htype : v.type <;> simp [htype, IntegerType.isSigned, IntegerType.bits] at hholds <;> omega
  exact length_toDecimal_le (by decide) habs

/-- An integer is appended as a whole, or dropped if there is little room. -/
theorem formatInteger_spec (s : LogStream) (v : Integer) :
    ∃ t, s.formatInteger v.val = .ok t ∧
      if kMaxNumericSize ≤ s.avail then
        s.buffer.Appends (toDecimal v.val) kMaxNumericSize t.buffer
      else t = s := by
  rw [formatInteger]
  split
  · rename_i hroom
    have hlength := length_toDecimal_integer v
    have hfits : s.buffer.cur + (toDecimal v.val).length + 1 ≤ kSmallBuffer := by
      rw [avail, BufferMemory.avail] at hroom
      unfold kMaxNumericSize at hroom
      omega
    obtain ⟨b, hb, happends⟩ := formatDigits_spec s.buffer v.val hfits
    refine ⟨⟨b⟩, by rw [hb]; rfl, happends.mono ?_⟩
    unfold kMaxNumericSize
    omega
  · exact ⟨s, rfl, rfl⟩

/-- With room for `kMaxNumericSize` bytes, a value of any of the types is appended as its decimal
numeral, which is canonical, says the value, and is the numeral of no other one; and no byte further
behind the content is touched. -/
theorem formatInteger_exact (s : LogStream) (v : Integer) (h : kMaxNumericSize ≤ s.avail) :
    ∃ t, s.formatInteger v.val = .ok t ∧ t.content = s.content ++ toDecimal v.val ∧
      (∃ sign digits, IsCanonical (toDecimal v.val) sign digits) ∧
      readInteger (toDecimal v.val) = some v.val ∧
      (∀ w : Integer, toDecimal w.val = toDecimal v.val → w.val = v.val) ∧
      ∀ i, i < s.buffer.cur ∨ s.buffer.cur + kMaxNumericSize ≤ i →
        t.buffer.data i = s.buffer.data i := by
  obtain ⟨t, ht, happends⟩ := formatInteger_spec s v
  rw [if_pos h] at happends
  exact ⟨t, ht, happends.content, isCanonical_toDecimal v.val, readInteger_toDecimal v.val,
    fun w hw => toDecimal_injective hw, happends.others⟩

/-- The least `long long`, in an empty stream. -/
theorem formatInteger_exact_min :
    kMaxNumericSize ≤ (new fun _ => 0).avail ∧ ∃ t,
      (new fun _ => 0).formatInteger (-9223372036854775808) = .ok t ∧
      t.content = ofString "-9223372036854775808" := by
  have hroom : kMaxNumericSize ≤ (new fun _ => 0).avail := by decide
  obtain ⟨t, ht, hcontent, -⟩ := formatInteger_exact (new fun _ => 0)
    ⟨.longLong, -9223372036854775808, by decide⟩ hroom
  exact ⟨hroom, t, ht, hcontent⟩

end LogStream

end Mymuduo

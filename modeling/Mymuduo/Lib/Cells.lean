import Mathlib.Data.List.Basic

/-! Memory, as a function from the number of a cell to what it holds: a run of cells is read,
written and reversed in place. -/

namespace Lib

variable {α : Type}

/-- What the `n` cells from `start` on hold. -/
def readCells (m : Nat → α) (start n : Nat) : List α := (List.range' start n).map m

/-- The cells from `start` on hold `l`. -/
def writeCells (m : Nat → α) (start : Nat) : List α → Nat → α
  | [] => m
  | a :: l => writeCells (fun i => if i = start then a else m i) (start + 1) l

/-- The cells from `start` to before `stop` are reversed. -/
def reverseCells (m : Nat → α) (start stop : Nat) : Nat → α :=
  fun i => if start ≤ i ∧ i < stop then m (start + (stop - 1 - i)) else m i

variable {m m' : Nat → α} {start n : Nat} {l l' : List α}

@[simp] theorem length_readCells (m : Nat → α) (start n : Nat) :
    (readCells m start n).length = n := by
  rw [readCells, List.length_map, List.length_range']

@[simp] theorem readCells_zero (m : Nat → α) (start : Nat) : readCells m start 0 = [] := rfl

theorem readCells_succ (m : Nat → α) (start n : Nat) :
    readCells m start (n + 1) = m start :: readCells m (start + 1) n := rfl

theorem readCells_add (m : Nat → α) (start k n : Nat) :
    readCells m start (k + n) = readCells m start k ++ readCells m (start + k) n := by
  rw [readCells, readCells, readCells, ← List.map_append, ← List.range'_append_1]

theorem take_readCells {k : Nat} (h : k ≤ n) :
    (readCells m start n).take k = readCells m start k := by
  obtain ⟨j, rfl⟩ := Nat.exists_eq_add_of_le h
  rw [readCells_add, List.take_left' (length_readCells m start k)]

theorem readCells_congr (h : ∀ i, start ≤ i → i < start + n → m i = m' i) :
    readCells m start n = readCells m' start n := by
  refine List.map_congr_left ?_
  intro i hi
  rw [List.mem_range'_1] at hi
  exact h i hi.1 hi.2

theorem getElem?_readCells {i : Nat} (hi : i < n) :
    (readCells m start n)[i]? = some (m (start + i)) := by
  rw [readCells, List.getElem?_map, List.getElem?_range' hi, Nat.one_mul]
  rfl

/-! ### Writing -/

@[simp] theorem writeCells_nil (m : Nat → α) (start : Nat) : writeCells m start [] = m := rfl

theorem writeCells_append (m : Nat → α) (start : Nat) (l l' : List α) :
    writeCells m start (l ++ l') = writeCells (writeCells m start l) (start + l.length) l' := by
  induction l generalizing m start with
  | nil => rfl
  | cons a l ih =>
    rw [List.cons_append, writeCells, ih, writeCells, List.length_cons, Nat.add_assoc,
      Nat.add_comm 1]

/-- No cell outside of the run is written. -/
theorem writeCells_of_notMem {i : Nat} (h : i < start ∨ start + l.length ≤ i) :
    writeCells m start l i = m i := by
  induction l generalizing m start with
  | nil => rfl
  | cons a l ih =>
    rw [List.length_cons] at h
    rw [writeCells, ih (by omega), if_neg (by omega)]

theorem readCells_writeCells (m : Nat → α) (start : Nat) (l : List α) :
    readCells (writeCells m start l) start l.length = l := by
  induction l generalizing m start with
  | nil => rfl
  | cons a l ih =>
    rw [List.length_cons, readCells_succ, writeCells, ih, writeCells_of_notMem (by omega),
      if_pos rfl]

/-! ### Reversing -/

theorem reverseCells_of_notMem {stop i : Nat} (h : i < start ∨ stop ≤ i) :
    reverseCells m start stop i = m i := by
  rw [reverseCells, if_neg (by omega)]

theorem readCells_reverseCells (m : Nat → α) (start n : Nat) :
    readCells (reverseCells m start (start + n)) start n = (readCells m start n).reverse := by
  refine List.ext_getElem? ?_
  intro i
  by_cases hi : i < n
  · rw [getElem?_readCells hi, List.getElem?_reverse (by rwa [length_readCells]), length_readCells,
      getElem?_readCells (by omega), reverseCells, if_pos (by omega)]
    congr 2
    omega
  · rw [List.getElem?_eq_none (by rw [length_readCells]; omega),
      List.getElem?_eq_none (by rw [List.length_reverse, length_readCells]; omega)]

end Lib

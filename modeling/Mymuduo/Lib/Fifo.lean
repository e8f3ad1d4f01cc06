import Mathlib.Data.List.Basic

/-! First-in first-out queues, with the history of what went through them.  A queue carries the fact
that what has left it and what it still holds, in this order, is what has entered it. -/

namespace Lib

structure Fifo (α : Type) where
  entered : List α
  left : List α
  contents : List α
  conserve : left ++ contents = entered

namespace Fifo

variable {α : Type}

/-- A queue that nothing has left yet. -/
def holding (l : List α) : Fifo α where
  entered := l
  left := []
  contents := l
  conserve := rfl

/-- The queue after `l` has entered at the back. -/
def enter (q : Fifo α) (l : List α) : Fifo α where
  entered := q.entered ++ l
  left := q.left
  contents := q.contents ++ l
  conserve := by rw [← List.append_assoc, q.conserve]

/-- The queue after its first `n` elements have left. -/
def leave (q : Fifo α) (n : Nat) : Fifo α where
  entered := q.entered
  left := q.left ++ q.contents.take n
  contents := q.contents.drop n
  conserve := by rw [List.append_assoc, List.take_append_drop, q.conserve]

variable (q : Fifo α) (l : List α) (n : Nat)

@[simp] theorem contents_holding : (holding l).contents = l := rfl

@[simp] theorem entered_holding : (holding l).entered = l := rfl

@[simp] theorem contents_enter : (q.enter l).contents = q.contents ++ l := rfl

@[simp] theorem entered_enter : (q.enter l).entered = q.entered ++ l := rfl

@[simp] theorem left_enter : (q.enter l).left = q.left := rfl

@[simp] theorem contents_leave : (q.leave n).contents = q.contents.drop n := rfl

@[simp] theorem entered_leave : (q.leave n).entered = q.entered := rfl

@[simp] theorem left_leave : (q.leave n).left = q.left ++ q.contents.take n := rfl

end Fifo

end Lib

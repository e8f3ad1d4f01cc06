import Mathlib.Data.List.Basic

/-! The descriptors of a process.  Each open descriptor has an owner; a new one is the lowest that is
free; and there is a limit to them. -/

namespace Lib

/-- The owners of the descriptors, all of which are below the limit. -/
structure Descriptors (ω : Type) where
  limit : Nat
  owner : Nat → Option ω
  bounded : ∀ fd, limit ≤ fd → owner fd = none

namespace Descriptors

variable {ω : Type}

/-- A descriptor below the limit gets an owner, or none. -/
def assign (t : Descriptors ω) (fd : Nat) (o : Option ω) : Descriptors ω where
  limit := t.limit
  owner n := if n = fd ∧ n < t.limit then o else t.owner n
  bounded n hn := by rw [if_neg (by omega), t.bounded n hn]

/-- The lowest descriptor that is not open. -/
def lowestFree (t : Descriptors ω) : Option Nat :=
  (List.range t.limit).find? fun fd => (t.owner fd).isNone

/-- A descriptor is opened. -/
def alloc (t : Descriptors ω) (o : ω) : Option (Nat × Descriptors ω) :=
  t.lowestFree.map fun fd => (fd, t.assign fd (some o))

/-- A descriptor is closed, if it is open. -/
def close (t : Descriptors ω) (fd : Nat) : Descriptors ω := t.assign fd none

variable {t u : Descriptors ω} {fd n : Nat} {o o' : ω}

theorem lt_limit (h : t.owner fd = some o) : fd < t.limit := by
  by_contra hge
  rw [t.bounded fd (Nat.not_lt.mp hge)] at h
  cases h

@[simp] theorem close_limit (t : Descriptors ω) (fd : Nat) : (t.close fd).limit = t.limit := rfl

/-- Closing takes the descriptor from its owner, and leaves the others alone. -/
theorem close_owner (t : Descriptors ω) (fd n : Nat) :
    (t.close fd).owner n = if n = fd then none else t.owner n := by
  show (if n = fd ∧ n < t.limit then none else t.owner n) = _
  by_cases heq : n = fd
  · by_cases hlt : n < t.limit
    · rw [if_pos ⟨heq, hlt⟩, if_pos heq]
    · rw [if_neg (fun h => hlt h.2), if_pos heq, t.bounded n (Nat.not_lt.mp hlt)]
  · rw [if_neg (fun h => heq h.1), if_neg heq]

theorem close_owner_self (t : Descriptors ω) (fd : Nat) : (t.close fd).owner fd = none := by
  rw [close_owner, if_pos rfl]

theorem close_owner_of_ne (t : Descriptors ω) (h : n ≠ fd) : (t.close fd).owner n = t.owner n := by
  rw [close_owner, if_neg h]

theorem assign_owner (hfd : fd < t.limit) (o : Option ω) (n : Nat) :
    (t.assign fd o).owner n = if n = fd then o else t.owner n := by
  show (if n = fd ∧ n < t.limit then o else t.owner n) = _
  by_cases heq : n = fd
  · rw [if_pos ⟨heq, heq ▸ hfd⟩, if_pos heq]
  · rw [if_neg (fun h => heq h.1), if_neg heq]

/-- The free descriptor that is found is below the limit, and is the lowest. -/
theorem lowestFree_spec (h : t.lowestFree = some fd) :
    fd < t.limit ∧ t.owner fd = none ∧ ∀ n < fd, t.owner n ≠ none := by
  obtain ⟨hfree, i, hi, hget, hbefore⟩ := List.find?_eq_some_iff_getElem.mp h
  rw [List.getElem_range] at hget
  subst hget
  rw [List.length_range] at hi
  refine ⟨hi, by simpa using hfree, ?_⟩
  intro n hn hnone
  have := hbefore n hn
  rw [List.getElem_range, hnone] at this
  simp at this

/-- None is found exactly if all are open. -/
theorem lowestFree_eq_none : t.lowestFree = none ↔ ∀ fd < t.limit, t.owner fd ≠ none := by
  simp [lowestFree, List.find?_eq_none, Option.isNone_iff_eq_none, Option.ne_none_iff_isSome]

theorem lowestFree_isSome (hfd : fd < t.limit) (h : t.owner fd = none) :
    ∃ n, t.lowestFree = some n := by
  refine Option.ne_none_iff_exists'.mp ?_
  intro hnone
  exact lowestFree_eq_none.mp hnone fd hfd h

/-- When a descriptor is closed, there is a free one. -/
theorem lowestFree_close (h : t.owner fd = some o) : ∃ n, (t.close fd).lowestFree = some n :=
  lowestFree_isSome (t := t.close fd) (show fd < t.limit from lt_limit h) (t.close_owner_self fd)

theorem alloc_spec (h : t.alloc o = some (fd, u)) :
    t.lowestFree = some fd ∧ u = t.assign fd (some o) := by
  obtain ⟨n, hn, heq⟩ := Option.map_eq_some_iff.mp h
  cases heq
  exact ⟨hn, rfl⟩

/-- Opening a descriptor takes none from its owner. -/
theorem assign_free_owner (h : t.lowestFree = some fd) (o : ω) (n : Nat) :
    (t.assign fd (some o)).owner n = if n = fd then some o else t.owner n :=
  assign_owner (lowestFree_spec h).1 _ n

theorem assign_free_keeps (h : t.lowestFree = some fd) (o : ω) (hn : t.owner n = some o') :
    (t.assign fd (some o)).owner n = some o' := by
  rw [assign_free_owner h, if_neg, hn]
  rintro rfl
  rw [(lowestFree_spec h).2.1] at hn
  cases hn

end Descriptors

end Lib

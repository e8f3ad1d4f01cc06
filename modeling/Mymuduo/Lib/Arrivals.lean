import Mathlib.Algebra.GroupWithZero.Nat
import Mathlib.Tactic.Common

/-! Items of given sizes that arrive in pieces at a server, which serves at most one item at each
arrival.  It serves all of them exactly when at no time more items are incomplete than arrivals are
left. -/

namespace Lib

/-- How many of the items, which come one after another, are there when `amount` has arrived. -/
def completed : List Nat → Nat → Nat
  | [], _ => 0
  | size :: sizes, amount => if size ≤ amount then completed sizes (amount - size) + 1 else 0

/-- How many items are served when `pending` has arrived and not been served, and `arrivals` come:
at each arrival the first item that is left, if it is complete. -/
def served : List Nat → Nat → List Nat → Nat
  | _, _, [] => 0
  | [], _, _ => 0
  | size :: sizes, pending, arrival :: arrivals =>
    if size ≤ pending + arrival then served sizes (pending + arrival - size) arrivals + 1
    else served (size :: sizes) (pending + arrival) arrivals

variable {sizes arrivals : List Nat} {pending : Nat}

theorem served_le (sizes : List Nat) (pending : Nat) (arrivals : List Nat) :
    served sizes pending arrivals ≤ sizes.length := by
  fun_induction served sizes pending arrivals with
  | case1 => exact Nat.zero_le _
  | case2 => exact Nat.zero_le _
  | case3 size sizes pending arrival arrivals henough ih => exact Nat.succ_le_succ ih
  | case4 size sizes pending arrival arrivals hshort ih => exact ih

theorem completed_cons (size : Nat) (sizes : List Nat) (h : size ≤ pending) (more : Nat) :
    completed (size :: sizes) (pending + more) = completed sizes (pending - size + more) + 1 := by
  have hrest : pending + more - size = pending - size + more := by omega
  rw [completed, if_pos (by omega), hrest]

/-- A list that is not empty is cut after its first element, or later. -/
theorem forall_cut_cons {α : Type} {P : List α → List α → Prop} {a : α} {l : List α} :
    (∀ before after, before ≠ [] → a :: l = before ++ after → P before after) ↔
      P [a] l ∧ ∀ before after, before ≠ [] → l = before ++ after → P (a :: before) after := by
  constructor
  · intro h
    refine ⟨h [a] l (by simp) rfl, ?_⟩
    intro before after _ hcut
    exact h (a :: before) after (by simp) (by rw [hcut]; rfl)
  · rintro ⟨hfirst, hlater⟩ before after hne hcut
    cases before with
    | nil => exact absurd rfl hne
    | cons b before =>
      obtain ⟨rfl, hrest⟩ := List.cons.inj hcut
      cases before with
      | nil =>
        obtain rfl : l = after := hrest
        exact hfirst
      | cons b' before => exact hlater (b' :: before) after (by simp) hrest

/-- With something pending already, the first of the bounds is the one before any arrival. -/
theorem served_eq_length_iff_of_pending :
    served sizes pending arrivals = sizes.length ↔ sizes.length ≤ arrivals.length ∧
      ∀ before after, before ≠ [] → arrivals = before ++ after →
        sizes.length ≤ completed sizes (pending + before.sum) + after.length := by
  induction arrivals generalizing sizes pending with
  | nil =>
    have hnone : ∀ before after : List Nat, before ≠ [] → ([] : List Nat) = before ++ after →
        sizes.length ≤ completed sizes (pending + before.sum) + after.length := by
      intro before after hne h
      exact absurd (List.append_eq_nil_iff.mp h.symm).1 hne
    cases sizes with
    | nil => simp [served]
    | cons size sizes => simp [served]
  | cons arrival arrivals ih =>
    rw [forall_cut_cons]
    simp only [List.sum_cons, List.sum_nil, Nat.add_zero, ← Nat.add_assoc]
    cases sizes with
    | nil => simp [served]
    | cons size sizes =>
      rw [served]
      by_cases henough : size ≤ pending + arrival
      · rw [if_pos henough, List.length_cons, Nat.add_right_cancel_iff, ih, List.length_cons]
        simp only [completed_cons size sizes henough]
        have hnow := completed_cons size sizes henough 0
        simp only [Nat.add_zero] at hnow
        rw [hnow]
        constructor
        · rintro ⟨hlen, h⟩
          refine ⟨by omega, by omega, ?_⟩
          intro before after hne hcut
          have := h before after hne hcut
          omega
        · rintro ⟨hlen, -, h⟩
          refine ⟨by omega, ?_⟩
          intro before after hne hcut
          have := h before after hne hcut
          omega
      · rw [if_neg henough, ih, completed, if_neg henough, List.length_cons, List.length_cons]
        constructor
        · rintro ⟨hlen, h⟩
          exact ⟨by omega, by omega, h⟩
        · rintro ⟨-, hlen, h⟩
          exact ⟨by omega, h⟩

theorem completed_zero (h : ∀ size ∈ sizes, 0 < size) : completed sizes 0 = 0 := by
  cases sizes with
  | nil => rfl
  | cons size sizes =>
    have := h size (List.mem_cons_self ..)
    rw [completed, if_neg (by omega)]

/-- All items are served exactly when at no time more of them are incomplete than arrivals are
left. -/
theorem served_eq_length_iff (h : ∀ size ∈ sizes, 0 < size) (arrivals : List Nat) :
    served sizes 0 arrivals = sizes.length ↔
      ∀ before after, arrivals = before ++ after →
        sizes.length ≤ completed sizes before.sum + after.length := by
  rw [served_eq_length_iff_of_pending]
  constructor
  · rintro ⟨hlen, hsplit⟩ before after hcut
    cases before with
    | nil =>
      obtain rfl : arrivals = after := hcut
      exact Nat.le_trans hlen (Nat.le_add_left _ _)
    | cons b before =>
      have hle := hsplit (b :: before) after (by simp) hcut
      rwa [Nat.zero_add] at hle
  · intro hsplit
    refine ⟨?_, ?_⟩
    · have hle := hsplit [] arrivals rfl
      rw [List.sum_nil, completed_zero h] at hle
      omega
    · intro before after _ hcut
      rw [Nat.zero_add]
      exact hsplit before after hcut

end Lib

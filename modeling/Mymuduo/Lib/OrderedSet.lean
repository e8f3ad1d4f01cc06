import Mathlib.Data.List.Sort
import Mathlib.Data.List.TakeWhile
import Mathlib.Order.Basic

/-! Ordered sets: lists in strictly increasing order, with the operations of `std::set` that walk
them from the beginning. -/

namespace Lib

/-- A set of elements in increasing order. -/
structure OrderedSet (α : Type) [LinearOrder α] where
  elems : List α
  sorted : elems.Pairwise (· < ·)

namespace OrderedSet

variable {α : Type} [LinearOrder α]

instance : Membership α (OrderedSet α) := ⟨fun s a => a ∈ s.elems⟩

instance (a : α) (s : OrderedSet α) : Decidable (a ∈ s) := inferInstanceAs (Decidable (a ∈ s.elems))

theorem mem_elems {a : α} {s : OrderedSet α} : a ∈ s.elems ↔ a ∈ s := Iff.rfl

/-- The empty set. -/
def empty : OrderedSet α := ⟨[], .nil⟩

theorem sorted_orderedInsert {a : α} {l : List α} (h : l.Pairwise (· < ·)) (ha : a ∉ l) :
    (l.orderedInsert (· ≤ ·) a).Pairwise (· < ·) := by
  have hle : (l.orderedInsert (· ≤ ·) a).Pairwise (· ≤ ·) := (h.imp le_of_lt).orderedInsert a l
  have hnodup : (l.orderedInsert (· ≤ ·) a).Nodup :=
    (List.perm_orderedInsert _ a l).nodup_iff.mpr (List.nodup_cons.mpr ⟨ha, h.imp ne_of_lt⟩)
  exact hle.imp₂ (fun _ _ hab hne => lt_of_le_of_ne hab hne) hnodup

/-- `insert`: an element that is there already stays. -/
def insert (a : α) (s : OrderedSet α) : OrderedSet α :=
  if h : a ∈ s.elems then s else ⟨s.elems.orderedInsert (· ≤ ·) a, sorted_orderedInsert s.sorted h⟩

/-- `erase` -/
def erase (a : α) (s : OrderedSet α) : OrderedSet α :=
  ⟨s.elems.erase a, s.sorted.sublist List.erase_sublist⟩

/-- The element at `begin()`. -/
def first (s : OrderedSet α) : Option α := s.elems.head?

/-- The elements from `begin()` to `lower_bound(a)`. -/
def below (s : OrderedSet α) (a : α) : List α := s.elems.takeWhile (· < a)

/-- The set without the elements from `begin()` to `lower_bound(a)`. -/
def eraseBelow (s : OrderedSet α) (a : α) : OrderedSet α :=
  ⟨s.elems.dropWhile (· < a), s.sorted.sublist (List.dropWhile_sublist _)⟩

section

variable {s : OrderedSet α} {a b : α}

@[simp] theorem not_mem_empty (a : α) : a ∉ (empty : OrderedSet α) := List.not_mem_nil

theorem nodup (s : OrderedSet α) : s.elems.Nodup := s.sorted.imp ne_of_lt

@[simp] theorem mem_insert : b ∈ s.insert a ↔ b = a ∨ b ∈ s := by
  unfold insert
  split
  · rename_i h
    exact ⟨Or.inr, fun hb => hb.elim (fun hba => hba ▸ h) id⟩
  · exact List.mem_orderedInsert (· ≤ ·)

@[simp] theorem mem_erase : b ∈ s.erase a ↔ b ≠ a ∧ b ∈ s := s.nodup.mem_erase_iff

theorem erase_of_not_mem (h : a ∉ s) : s.erase a = s := by
  obtain ⟨l, hl⟩ := s
  have herase : l.erase a = l := List.erase_of_not_mem h
  simp only [erase, herase]

theorem first_spec (h : s.first = some a) : a ∈ s ∧ ∀ b ∈ s, a ≤ b := by
  obtain ⟨l, hl⟩ := List.head?_eq_some_iff.mp h
  have hsorted := s.sorted
  rw [hl, List.pairwise_cons] at hsorted
  refine ⟨by rw [← mem_elems, hl]; exact List.mem_cons_self, ?_⟩
  intro b hb
  rw [← mem_elems, hl] at hb
  rcases List.mem_cons.mp hb with rfl | hb
  · exact le_refl b
  · exact le_of_lt (hsorted.1 b hb)

theorem first_eq_none : s.first = none ↔ ∀ b, b ∉ s := by
  rw [first, List.head?_eq_none_iff, List.eq_nil_iff_forall_not_mem]
  rfl

theorem mem_takeWhile_lt {l : List α} (h : l.Pairwise (· < ·)) :
    b ∈ l.takeWhile (· < a) ↔ b ∈ l ∧ b < a := by
  induction l with
  | nil => simp
  | cons c l ih =>
    rw [List.pairwise_cons] at h
    by_cases hc : c < a
    · simp only [List.takeWhile_cons_of_pos (p := fun x => decide (x < a)) (by simpa using hc),
        List.mem_cons, ih h.2]
      constructor
      · rintro (rfl | hb)
        · exact ⟨.inl rfl, hc⟩
        · exact ⟨.inr hb.1, hb.2⟩
      · rintro ⟨rfl | hb, hba⟩
        · exact .inl rfl
        · exact .inr ⟨hb, hba⟩
    · rw [List.takeWhile_cons_of_neg (by simpa using hc)]
      constructor
      · exact fun hb => absurd hb List.not_mem_nil
      · rintro ⟨hb, hba⟩
        rcases List.mem_cons.mp hb with rfl | hb
        · exact absurd hba hc
        · exact absurd ((h.1 b hb).trans hba) hc

theorem mem_below : b ∈ s.below a ↔ b ∈ s ∧ b < a := mem_takeWhile_lt s.sorted

theorem mem_eraseBelow : b ∈ s.eraseBelow a ↔ b ∈ s ∧ a ≤ b := by
  have hsplit : s.below a ++ (s.eraseBelow a).elems = s.elems := List.takeWhile_append_dropWhile
  have hmem : b ∈ s ↔ b ∈ s.below a ∨ b ∈ s.eraseBelow a := by
    rw [← mem_elems, ← hsplit, List.mem_append]
    rfl
  have hdisjoint : b ∈ s.below a → b ∉ s.eraseBelow a := by
    have hnodup := s.nodup
    rw [← hsplit] at hnodup
    exact fun hb hb' => (List.nodup_append.mp hnodup).2.2 b hb b hb' rfl
  constructor
  · intro hb
    refine ⟨hmem.mpr (.inr hb), le_of_not_gt ?_⟩
    intro hlt
    exact hdisjoint (mem_below.mpr ⟨hmem.mpr (.inr hb), hlt⟩) hb
  · rintro ⟨hb, hle⟩
    exact (hmem.mp hb).resolve_left fun hbelow => absurd (mem_below.mp hbelow).2 (not_lt_of_ge hle)

theorem below_nodup (s : OrderedSet α) (a : α) : (s.below a).Nodup :=
  s.nodup.sublist (List.takeWhile_sublist _)

end

end OrderedSet

end Lib

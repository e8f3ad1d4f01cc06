import Mathlib.Data.List.Infix
import Mathlib.Tactic.Common

/-! The first occurrence of a pattern in a list, as `std::search` finds it, and how it depends on
what follows the list. -/

namespace Lib

variable {α : Type}

/-- `pattern` occurs in `l` at the position `i` and at no position before it. -/
structure FirstAt (pattern l : List α) (i : Nat) : Prop where
  inside : i + pattern.length ≤ l.length
  here : pattern <+: l.drop i
  before : ∀ j < i, ¬pattern <+: l.drop j

theorem FirstAt.unique {pattern l : List α} {i j : Nat} (hi : FirstAt pattern l i)
    (hj : FirstAt pattern l j) : i = j := by
  rcases Nat.lt_trichotomy i j with h | h | h
  · exact absurd hi.here (hj.before i h)
  · exact h
  · exact absurd hj.here (hi.before j h)

/-- The position of the first `pattern` in `l`, counted from `start`, if there is one. -/
def FirstMatch (pattern l : List α) (start : Nat) : Option Nat → Prop
  | some p => ∃ i, p = start + i ∧ FirstAt pattern l i
  | none => ¬pattern <:+: l

variable [DecidableEq α]

/-- The position of the first occurrence of `pattern` in a list. -/
def search (pattern : List α) : List α → Option Nat
  | [] => if pattern = [] then some 0 else none
  | a :: l =>
    if pattern.isPrefixOf (a :: l) then some 0 else (search pattern l).map (· + 1)

/-- The position of the first `c` in a list, as `memchr` finds it. -/
def memchr (c : α) (l : List α) : Option Nat := l.findIdx? (· == c)

variable {pattern l : List α}

theorem search_cons_of_starts {a : α} (h : pattern <+: a :: l) :
    search pattern (a :: l) = some 0 := by
  rw [search, if_pos (List.isPrefixOf_iff_prefix.mpr h)]

theorem search_cons_of_not_starts {a : α} (h : ¬pattern <+: a :: l) :
    search pattern (a :: l) = (search pattern l).map (· + 1) := by
  rw [search, if_neg (mt List.isPrefixOf_iff_prefix.mp h)]

/-- `search` finds the pattern at the position it returns and at no position before it. -/
theorem search_spec {i : Nat} (h : search pattern l = some i) :
    i + pattern.length ≤ l.length ∧ pattern <+: l.drop i ∧ ∀ j < i, ¬pattern <+: l.drop j := by
  induction l generalizing i with
  | nil =>
    rw [search] at h
    split at h
    · rename_i hp
      cases h
      simp [hp]
    · cases h
  | cons a l ih =>
    by_cases hp : pattern <+: a :: l
    · rw [search_cons_of_starts hp] at h
      cases h
      exact ⟨by simpa using hp.length_le, hp, fun j hj => absurd hj (Nat.not_lt_zero j)⟩
    · rw [search_cons_of_not_starts hp] at h
      obtain ⟨k, hk, rfl⟩ := Option.map_eq_some_iff.mp h
      obtain ⟨hlen, hat, hbefore⟩ := ih hk
      refine ⟨by simp only [List.length_cons]; omega, by simpa using hat, ?_⟩
      intro j hj
      cases j with
      | zero => simpa using hp
      | succ j => simpa using hbefore j (by omega)

/-- Nothing is before the pattern just if it is found at the front. -/
theorem eq_zero_of_search_of_take {i : Nat} (h : search pattern l = some i) (hnil : l.take i = []) :
    i = 0 := by
  have hlen := (search_spec h).1
  rcases List.take_eq_nil_iff.mp hnil with hzero | rfl
  · exact hzero
  · rw [List.length_nil] at hlen
    omega

theorem search_eq_none_iff : search pattern l = none ↔ ¬pattern <:+: l := by
  induction l with
  | nil => simp [search]
  | cons a l ih =>
    by_cases hp : pattern <+: a :: l
    · rw [search_cons_of_starts hp]
      simp [hp.isInfix]
    · rw [search_cons_of_not_starts hp, Option.map_eq_none_iff, ih, List.infix_cons_iff]
      simp [hp]

theorem search_eq_some_iff {i : Nat} : search pattern l = some i ↔ FirstAt pattern l i := by
  constructor
  · intro h
    obtain ⟨hin, hat, hbefore⟩ := search_spec h
    exact ⟨hin, hat, hbefore⟩
  · intro h
    cases hs : search pattern l with
    | none =>
      have hinfix : pattern <:+: l := h.here.isInfix.trans (List.drop_suffix i l).isInfix
      exact absurd hinfix (search_eq_none_iff.mp hs)
    | some j =>
      obtain ⟨hin, hat, hbefore⟩ := search_spec hs
      rw [FirstAt.unique h ⟨hin, hat, hbefore⟩]

theorem firstMatch_search (pattern l : List α) (start : Nat) :
    FirstMatch pattern l start ((search pattern l).map (start + ·)) := by
  cases h : search pattern l with
  | none => exact search_eq_none_iff.mp h
  | some i => exact ⟨i, rfl, search_eq_some_iff.mp h⟩

theorem memchr_eq_search {c : α} : memchr c l = search [c] l := by
  unfold memchr
  induction l with
  | nil => rfl
  | cons a l ih =>
    rw [List.findIdx?_cons]
    by_cases h : a = c
    · subst h
      rw [search_cons_of_starts (by simp)]
      simp
    · rw [search_cons_of_not_starts (by simpa using Ne.symm h), ← ih]
      simp [h]

theorem search_split {i : Nat} (h : search pattern l = some i) :
    l = l.take i ++ pattern ++ l.drop (i + pattern.length) := by
  obtain ⟨-, ⟨rest, hrest⟩, -⟩ := search_spec h
  rw [List.append_assoc, ← List.drop_drop, ← hrest, List.drop_left, hrest, List.take_append_drop]

/-- A pattern that is found stays found, at the same position, when the list goes on. -/
theorem search_append {i : Nat} (h : search pattern l = some i) (t : List α) :
    search pattern (l ++ t) = some i := by
  induction l generalizing i with
  | nil =>
    rw [search] at h
    split at h
    · rename_i hp
      cases h
      subst hp
      cases t <;> simp [search]
    · cases h
  | cons a l ih =>
    by_cases hp : pattern <+: a :: l
    · rw [search_cons_of_starts hp] at h
      have hpt : pattern <+: a :: (l ++ t) := hp.trans (List.prefix_append (a :: l) t)
      rw [List.cons_append, search_cons_of_starts hpt, h]
    · have hfound := h
      rw [search_cons_of_not_starts hp] at h
      obtain ⟨k, hk, rfl⟩ := Option.map_eq_some_iff.mp h
      -- The pattern ends inside `a :: l`, so it cannot start at `a` by reaching into `t`.
      have hlen : pattern.length ≤ (a :: l).length := by
        have := (search_spec hfound).1
        omega
      have hp' : ¬pattern <+: a :: (l ++ t) := fun hpre =>
        hp (List.prefix_of_prefix_length_le hpre (List.prefix_append (a :: l) t) hlen)
      rw [List.cons_append, search_cons_of_not_starts hp', ih hk, Option.map_some]

/-- A pattern is found right after a list that `search` has to pass over: nothing that starts in
`l` completes it. -/
theorem search_append_self {t : List α}
    (h : ∀ j < l.length, ¬pattern <+: (l ++ pattern ++ t).drop j) :
    search pattern (l ++ pattern ++ t) = some l.length := by
  induction l with
  | nil =>
    cases hpt : pattern ++ t with
    | nil =>
      obtain ⟨rfl, rfl⟩ := List.append_eq_nil_iff.mp hpt
      simp [search]
    | cons a s =>
      rw [List.nil_append, hpt, search_cons_of_starts (hpt ▸ List.prefix_append pattern t)]
      rfl
  | cons a l ih =>
    have h0 : ¬pattern <+: a :: (l ++ pattern ++ t) := by simpa using h 0 (by simp)
    rw [List.cons_append, List.cons_append, search_cons_of_not_starts h0,
      ih fun j hj => by simpa using h (j + 1) (by simpa using hj)]
    rfl

theorem search_take {i : Nat} (hp : pattern ≠ []) (h : search pattern l = some i) :
    search pattern (l.take i) = none := by
  obtain ⟨hlen, -, hbefore⟩ := search_spec h
  refine search_eq_none_iff.mpr ?_
  rintro ⟨s, t, hst⟩
  have hs : s.length < i := by
    have := congrArg List.length hst
    have := List.length_pos_iff.mpr hp
    simp only [List.length_append, List.length_take] at *
    omega
  refine hbefore s.length hs ⟨t ++ l.drop i, ?_⟩
  have hl : l = s ++ (pattern ++ (t ++ l.drop i)) := by
    conv_lhs => rw [← List.take_append_drop i l, ← hst]
    simp only [List.append_assoc]
  conv_rhs => rw [hl, List.drop_left]

omit [DecidableEq α] in
theorem map_prefix_iff {β : Type} {f : α → β} (hf : ∀ c ∈ pattern, ∀ a, f a = f c → a = c) :
    pattern.map f <+: l.map f ↔ pattern <+: l := by
  induction pattern generalizing l with
  | nil => simp
  | cons c pattern ih =>
    cases l with
    | nil => simp
    | cons a l =>
      rw [List.map_cons, List.map_cons, List.cons_prefix_cons, List.cons_prefix_cons,
        ih fun c hc => hf c (List.mem_cons_of_mem _ hc)]
      refine and_congr_left fun _ => ⟨fun h => ?_, congrArg f⟩
      exact (hf c List.mem_cons_self a h.symm).symm

/-- A pattern is found where it was when other elements are renamed. -/
theorem search_map {β : Type} [DecidableEq β] {f : α → β}
    (hf : ∀ c ∈ pattern, ∀ a, f a = f c → a = c) :
    search (pattern.map f) (l.map f) = search pattern l := by
  induction l with
  | nil => simp [search]
  | cons a l ih =>
    have hstarts : pattern.map f <+: f a :: l.map f ↔ pattern <+: a :: l :=
      map_prefix_iff (l := a :: l) hf
    rw [List.map_cons]
    by_cases hp : pattern <+: a :: l
    · rw [search_cons_of_starts hp, search_cons_of_starts (hstarts.mpr hp)]
    · rw [search_cons_of_not_starts hp, search_cons_of_not_starts (mt hstarts.mp hp), ih]

/-! ### Cuts at a separator -/

theorem takeWhile_ne_append {a : α} (h : a ∉ l) (t : List α) :
    (l ++ a :: t).takeWhile (· != a) = l := by
  have hall : ∀ b ∈ l, (b != a) = true := by
    rintro b hb
    exact bne_iff_ne.mpr fun heq => h (heq ▸ hb)
  rw [List.takeWhile_append_of_pos hall, List.takeWhile_cons_of_neg (by simp), List.append_nil]

theorem dropWhile_ne_append {a : α} (h : a ∉ l) (t : List α) :
    (l ++ a :: t).dropWhile (· != a) = a :: t := by
  have hall : ∀ b ∈ l, (b != a) = true := by
    rintro b hb
    exact bne_iff_ne.mpr fun heq => h (heq ▸ hb)
  rw [List.dropWhile_append_of_pos hall, List.dropWhile_cons_of_neg (by simp)]

end Lib

import Mathlib.Data.List.Basic
import Mathlib.Logic.Function.Basic

/-! Tables: partial functions that are changed at one key at a time. -/

namespace Lib

variable {κ ν : Type} [DecidableEq κ] {table : κ → Option ν} {k a : κ} {v w : ν}

/-- What a table holds after an entry is set: the new one, or an old one at another key. -/
theorem update_some_eq_some :
    Function.update table k (some v) a = some w ↔ a = k ∧ w = v ∨ a ≠ k ∧ table a = some w := by
  by_cases ha : a = k
  · subst ha
    simp [eq_comm]
  · simp [ha]

/-- A table after an entry is set. -/
def enter (table : κ → Option ν) (entry : κ × ν) : κ → Option ν :=
  Function.update table entry.1 (some entry.2)

theorem enter_eq_some {entry : κ × ν} :
    enter table entry a = some w ↔ (a, w) = entry ∨ a ≠ entry.1 ∧ table a = some w := by
  rw [enter, update_some_eq_some, Prod.ext_iff]

/-- Entries with keys of their own are all in the table at the end, next to what it held at other
keys. -/
theorem foldl_enter_eq_some {entries : List (κ × ν)} (h : (entries.map Prod.fst).Nodup) :
    entries.foldl enter table a = some w ↔
      (a, w) ∈ entries ∨ a ∉ entries.map Prod.fst ∧ table a = some w := by
  induction entries generalizing table with
  | nil => simp
  | cons entry entries ih =>
    rw [List.map_cons, List.nodup_cons] at h
    obtain ⟨hnew, hnodup⟩ := h
    rw [List.foldl_cons, ih hnodup, enter_eq_some, List.mem_cons, List.map_cons, List.mem_cons]
    constructor
    · rintro (hmem | ⟨hout, rfl | ⟨hne, htable⟩⟩)
      · exact .inl (.inr hmem)
      · exact .inl (.inl rfl)
      · exact .inr ⟨not_or.mpr ⟨hne, hout⟩, htable⟩
    · rintro ((rfl | hmem) | ⟨hout, htable⟩)
      · exact .inr ⟨hnew, .inl rfl⟩
      · exact .inl hmem
      · obtain ⟨hne, hout⟩ := not_or.mp hout
        exact .inr ⟨hout, .inr ⟨hne, htable⟩⟩

/-- What an empty table holds in the end has been entered. -/
theorem mem_of_foldl_enter {entries : List (κ × ν)}
    (h : entries.foldl enter (fun _ => none) a = some w) : (a, w) ∈ entries := by
  have hmore : ∀ table : κ → Option ν, entries.foldl enter table a = some w →
      (a, w) ∈ entries ∨ table a = some w := by
    clear h
    induction entries with
    | nil => exact fun table htable => .inr htable
    | cons entry entries ih =>
      intro table htable
      rcases ih _ htable with hmem | hentry
      · exact .inl (List.mem_cons_of_mem _ hmem)
      · rcases enter_eq_some.mp hentry with heq | ⟨-, hold⟩
        · exact .inl (heq ▸ List.mem_cons_self ..)
        · exact .inr hold
  simpa using hmore _ h

/-- The last entry at a key counts. -/
theorem foldl_enter [BEq κ] [LawfulBEq κ] (entries : List (κ × ν)) (table : κ → Option ν) (a : κ) :
    entries.foldl enter table a = (entries.reverse.lookup a).or (table a) := by
  induction entries generalizing table with
  | nil => rfl
  | cons entry entries ih =>
    obtain ⟨k, v⟩ := entry
    have hfirst : enter table (k, v) a = ([(k, v)].lookup a).or (table a) := by
      by_cases ha : a = k
      · subst ha
        simp [enter]
      · have hnone : [(k, v)].lookup a = none := List.lookup_eq_none_iff.mpr (by simp [ha])
        rw [hnone, Option.none_or, enter, Function.update_of_ne ha]
    rw [List.foldl_cons, ih, List.reverse_cons, List.lookup_append, Option.or_assoc, hfirst]

/-- Entries change nothing if the last of each key is there. -/
theorem foldl_enter_eq_self_iff [BEq κ] [LawfulBEq κ] {entries : List (κ × ν)} :
    entries.foldl enter table = table ↔
      ∀ k v, entries.reverse.lookup k = some v → table k = some v := by
  constructor
  · intro h k v hlookup
    rw [← h, foldl_enter, hlookup, Option.some_or]
  · intro h
    funext a
    rw [foldl_enter]
    cases hlookup : entries.reverse.lookup a with
    | none => exact Option.none_or
    | some v => rw [Option.some_or, h a v hlookup]

end Lib

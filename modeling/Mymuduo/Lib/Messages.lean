import Mathlib.Data.List.Basic
import Mathlib.Tactic.Common

/-! Messages one after another.  A reader that takes each message off the front of a list, whatever
follows it there, takes all of them from the list. -/

namespace Lib

variable {α M : Type} {read : List α → Option (M × List α)} {text : M → List α}

/-- The messages that are read one after another until nothing is left, with `fuel` for each. -/
def readAll (read : List α → Option (M × List α)) : Nat → List α → Option (List M)
  | _, [] => some []
  | 0, _ :: _ => none
  | fuel + 1, a :: l => do
    let (message, rest) ← read (a :: l)
    let messages ← readAll read fuel rest
    return message :: messages

theorem readAll_nil (fuel : Nat) : readAll read fuel [] = some [] := by
  cases fuel <;> rfl

theorem readAll_of_read {fuel : Nat} {l rest : List α} {message : M} {messages : List M}
    (hl : l ≠ []) (hread : read l = some (message, rest))
    (hmore : readAll read fuel rest = some messages) :
    readAll read (fuel + 1) l = some (message :: messages) := by
  obtain ⟨a, l, rfl⟩ := List.exists_cons_of_ne_nil hl
  rw [readAll, hread]
  show (readAll read fuel rest >>= fun messages => some (message :: messages)) = _
  rw [hmore]
  rfl

/-- Messages that delimit themselves are read back. -/
theorem readAll_flatMap {messages : List M} {fuel : Nat}
    (hread : ∀ m ∈ messages, ∀ rest, read (text m ++ rest) = some (m, rest))
    (hne : ∀ m ∈ messages, text m ≠ []) (hfuel : (messages.flatMap text).length ≤ fuel) :
    readAll read fuel (messages.flatMap text) = some messages := by
  induction messages generalizing fuel with
  | nil => exact readAll_nil fuel
  | cons m messages ih =>
    have hm := hne m (List.mem_cons_self ..)
    have hpos := List.length_pos_iff.mpr hm
    rw [List.flatMap_cons, List.length_append] at hfuel
    obtain ⟨fuel, rfl⟩ : ∃ k, fuel = k + 1 := ⟨fuel - 1, by omega⟩
    rw [List.flatMap_cons]
    refine readAll_of_read (List.append_ne_nil_of_left_ne_nil hm _)
      (hread m (List.mem_cons_self ..) _) (ih ?_ ?_ (by omega))
    · exact fun m' hm' => hread m' (List.mem_cons_of_mem _ hm')
    · exact fun m' hm' => hne m' (List.mem_cons_of_mem _ hm')

end Lib

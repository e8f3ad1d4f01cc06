import Mathlib.Data.List.Basic

/-! Messages packed into blocks.  A list of blocks packs a list of messages if each block is the
concatenation of some messages that follow one another, so that no message is split between two
blocks and the blocks hold all messages in their order. -/

namespace Lib

variable {α : Type}

def Packs (blocks messages : List (List α)) : Prop :=
  ∃ groups : List (List (List α)), groups.flatten = messages ∧ groups.map List.flatten = blocks

namespace Packs

variable {blocks messages : List (List α)} {block message : List α}

theorem single : Packs [([] : List α)] [] := ⟨[[]], rfl, rfl⟩

theorem flatten_eq (h : Packs blocks messages) : blocks.flatten = messages.flatten := by
  obtain ⟨groups, rfl, rfl⟩ := h
  rw [List.flatten_flatten]

/-- A message goes to the end of the last block. -/
theorem extend (h : Packs (blocks ++ [block]) messages) :
    Packs (blocks ++ [block ++ message]) (messages ++ [message]) := by
  obtain ⟨groups, rfl, hblocks⟩ := h
  obtain ⟨front, last, rfl, rfl, hlast⟩ := List.map_eq_append_iff.mp hblocks
  obtain ⟨group, rfl, rfl⟩ := List.map_eq_singleton_iff.mp hlast
  exact ⟨front ++ [group ++ [message]], by simp, by simp⟩

/-- A message begins a new block. -/
theorem push (h : Packs blocks messages) : Packs (blocks ++ [message]) (messages ++ [message]) := by
  obtain ⟨groups, rfl, rfl⟩ := h
  exact ⟨groups ++ [[message]], by simp, by simp⟩

theorem push_nil (h : Packs blocks messages) : Packs (blocks ++ [[]]) messages := by
  obtain ⟨groups, rfl, rfl⟩ := h
  exact ⟨groups ++ [[]], by simp, by simp⟩

/-! ### Blocks of blocks -/

theorem nil : Packs ([] : List (List α)) [] := ⟨[], rfl, rfl⟩

/-- The messages in the first block, and those in the blocks behind it. -/
theorem cons_iff :
    Packs (block :: blocks) messages ↔
      ∃ group rest : List (List α), messages = group ++ rest ∧ block = group.flatten ∧
        Packs blocks rest := by
  constructor
  · rintro ⟨groups, rfl, hblocks⟩
    obtain ⟨group, groups, rfl, rfl, rfl⟩ := List.map_eq_cons_iff.mp hblocks
    exact ⟨group, groups.flatten, rfl, rfl, groups, rfl, rfl⟩
  · rintro ⟨group, rest, rfl, rfl, groups, rfl, rfl⟩
    exact ⟨group :: groups, rfl, rfl⟩

theorem append {more later : List (List α)} (h : Packs blocks messages) (h' : Packs more later) :
    Packs (blocks ++ more) (messages ++ later) := by
  obtain ⟨groups, rfl, rfl⟩ := h
  obtain ⟨groups', rfl, rfl⟩ := h'
  exact ⟨groups ++ groups', List.flatten_append, List.map_append⟩

theorem of_append {more : List (List α)} (h : Packs (blocks ++ more) messages) :
    ∃ first later, messages = first ++ later ∧ Packs blocks first ∧ Packs more later := by
  obtain ⟨groups, rfl, hblocks⟩ := h
  obtain ⟨front, back, rfl, rfl, rfl⟩ := List.map_eq_append_iff.mp hblocks
  exact ⟨front.flatten, back.flatten, List.flatten_append, ⟨front, rfl, rfl⟩, ⟨back, rfl, rfl⟩⟩

/-- Blocks that are packed into larger ones. -/
theorem trans {outer : List (List α)} (h : Packs outer blocks) (h' : Packs blocks messages) :
    Packs outer messages := by
  induction outer generalizing blocks messages with
  | nil =>
    obtain ⟨groups, rfl, hnone⟩ := h
    obtain rfl : groups = [] := List.map_eq_nil_iff.mp hnone
    exact h'
  | cons block outer ih =>
    obtain ⟨group, rest, rfl, rfl, hrest⟩ := cons_iff.mp h
    obtain ⟨first, later, rfl, hfirst, hlater⟩ := h'.of_append
    exact cons_iff.mpr ⟨first, later, rfl, hfirst.flatten_eq, ih hrest hlater⟩

/-- A block is made of messages. -/
theorem group_of_mem (h : Packs blocks messages) (hblock : block ∈ blocks) :
    ∃ group : List (List α), (∀ m ∈ group, m ∈ messages) ∧ block = group.flatten := by
  obtain ⟨groups, rfl, rfl⟩ := h
  obtain ⟨group, hgroup, rfl⟩ := List.mem_map.mp hblock
  exact ⟨group, fun m hm => List.mem_flatten.mpr ⟨group, hgroup, hm⟩, rfl⟩

/-- If all messages end with `a`, a block is empty or ends with `a`. -/
theorem getLast?_of_mem {a : α} (h : Packs blocks messages) (hblock : block ∈ blocks)
    (hlast : ∀ m ∈ messages, m.getLast? = some a) : block = [] ∨ block.getLast? = some a := by
  obtain ⟨group, hgroup, rfl⟩ := h.group_of_mem hblock
  rcases List.eq_nil_or_concat group with rfl | ⟨front, m, rfl⟩
  · exact .inl rfl
  · have hm : m.getLast? = some a := hlast m (hgroup m (by simp))
    refine .inr ?_
    rw [List.concat_eq_append, List.flatten_append, List.flatten_singleton,
      List.getLast?_append, hm]
    rfl

end Packs

end Lib

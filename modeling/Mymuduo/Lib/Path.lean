import Mathlib.Data.List.Infix
import Mathlib.Tactic.Common

/-! Paths and their lexical resolution.  A directory is the list of the names on the way to it from
the root, and a path is followed from a directory, one component after another.  A path comes to the
same as so many steps to the parent and then names, which tells whether it leads below the directory
that it starts from. -/

namespace Lib

/-- A component of a path: a step to the parent, or a name. -/
inductive Component (ν : Type)
  | parent
  | name (n : ν)
  deriving DecidableEq, Repr

/-- Some steps to the parent, and then names. -/
structure Ascent (ν : Type) where
  up : Nat
  down : List ν
  deriving DecidableEq, Repr

section

variable {ν : Type}

/-- The directory after a component.  The root is its own parent. -/
def Component.follow (dir : List ν) : Component ν → List ν
  | .parent => dir.dropLast
  | .name n => dir ++ [n]

/-- The place to which a path leads from a directory. -/
def resolve (dir : List ν) (path : List (Component ν)) : List ν := path.foldl Component.follow dir

/-- A step to the parent takes the last name back, if there is one. -/
def Ascent.follow (a : Ascent ν) : Component ν → Ascent ν
  | .parent =>
    match a.down with
    | [] => ⟨a.up + 1, []⟩
    | down => ⟨a.up, down.dropLast⟩
  | .name n => ⟨a.up, a.down ++ [n]⟩

def normalize (path : List (Component ν)) : Ascent ν := path.foldl Ascent.follow ⟨0, []⟩

/-- The place to which an ascent leads from a directory. -/
def Ascent.place (a : Ascent ν) (dir : List ν) : List ν := dir.take (dir.length - a.up) ++ a.down

/-- The place is below the directory. -/
def Below (dir place : List ν) : Prop := dir <+: place ∧ dir ≠ place

instance [DecidableEq ν] (dir place : List ν) : Decidable (Below dir place) := by
  unfold Below
  infer_instance

/-- The ascent leaves a directory upwards and comes down by the same names, and then goes on. -/
def Ascent.Returns (a : Ascent ν) (dir : List ν) : Prop :=
  Below (dir.drop (dir.length - a.up)) a.down

instance [DecidableEq ν] (a : Ascent ν) (dir : List ν) : Decidable (a.Returns dir) := by
  unfold Ascent.Returns
  infer_instance

variable {dir : List ν}

theorem resolve_append (path path' : List (Component ν)) :
    resolve dir (path ++ path') = resolve (resolve dir path) path' := List.foldl_append ..

theorem resolve_names (names : List ν) : resolve dir (names.map .name) = dir ++ names := by
  induction names generalizing dir with
  | nil => exact (List.append_nil dir).symm
  | cons n names ih =>
    show resolve (dir ++ [n]) (names.map .name) = _
    rw [ih, List.append_assoc]
    rfl

theorem Ascent.place_follow (a : Ascent ν) (c : Component ν) :
    (a.follow c).place dir = c.follow (a.place dir) := by
  cases c with
  | name n => simp [follow, place, Component.follow]
  | parent =>
    obtain ⟨up, down⟩ := a
    cases down with
    | nil =>
      simp only [follow, place, Component.follow, List.append_nil, List.dropLast_eq_take,
        List.length_take, List.take_take]
      congr 1
      omega
    | cons n down =>
      simp only [follow, place, Component.follow]
      rw [List.dropLast_append_of_ne_nil (List.cons_ne_nil n down)]

/-- A path leads where its normal form leads. -/
theorem resolve_eq_place (path : List (Component ν)) : resolve dir path = (normalize path).place dir := by
  have hfold : ∀ a : Ascent ν, path.foldl Component.follow (a.place dir) =
      (path.foldl Ascent.follow a).place dir := by
    intro a
    induction path generalizing a with
    | nil => rfl
    | cons c path ih =>
      rw [List.foldl_cons, List.foldl_cons, ← a.place_follow c]
      exact ih (a.follow c)
  have hstart : (⟨0, []⟩ : Ascent ν).place dir = dir := by simp [Ascent.place]
  rw [resolve, normalize, ← hfold, hstart]

theorem below_append_iff (common dir place : List ν) :
    Below (common ++ dir) (common ++ place) ↔ Below dir place := by
  rw [Below, Below, List.prefix_append_right_inj, Ne, List.append_cancel_left_eq]

/-- A path leads below the directory that it starts from just if its normal form, after its steps to
the parent, takes the way back. -/
theorem below_resolve_iff (path : List (Component ν)) :
    Below dir (resolve dir path) ↔ (normalize path).Returns dir := by
  have hback := below_append_iff (dir.take (dir.length - (normalize path).up))
    (dir.drop (dir.length - (normalize path).up)) (normalize path).down
  rw [List.take_append_drop] at hback
  rw [resolve_eq_place]
  exact hback

end

/-! ### Paths as text -/

section

variable {α : Type} [DecidableEq α] (sep dot : α)

/-- What a piece of the text between two separators stands for. -/
def component (piece : List α) : Option (Component (List α)) :=
  if piece = [] ∨ piece = [dot] then none
  else if piece = [dot, dot] then some .parent
  else some (.name piece)

def components (path : List α) : List (Component (List α)) :=
  (path.splitOn sep).filterMap (component dot)

/-- A piece of text that names a file. -/
structure ProperName (piece : List α) : Prop where
  ne_nil : piece ≠ []
  ne_dot : piece ≠ [dot]
  ne_parent : piece ≠ [dot, dot]
  sep_notMem : sep ∉ piece

/-- The text for a directory. -/
def pathOf (dir : List (List α)) : List α := dir.flatMap (sep :: ·)

/-- The components of a text that is written behind the text for a directory. -/
def componentsBehind (dir : List (List α)) (text : List α) : List (Component (List α)) :=
  if text.head? = some sep then components sep dot text
  else .parent :: components sep dot (dir.getLast?.getD [] ++ text)

variable {sep dot}

theorem components_append (p q : List α) :
    components sep dot (p ++ sep :: q) = components sep dot p ++ components sep dot q := by
  rw [components, List.splitOn_append_cons_self, List.filterMap_append]
  rfl

theorem components_nil : components sep dot [] = [] := by
  simp [components, component, List.splitOn_eq_singleton]

theorem components_sep (q : List α) : components sep dot (sep :: q) = components sep dot q := by
  have happend : components sep dot ([] ++ sep :: q) = _ := components_append [] q
  rwa [components_nil, List.nil_append, List.nil_append] at happend

theorem ProperName.components {piece : List α} (h : ProperName sep dot piece) :
    components sep dot piece = [.name piece] := by
  have hcomponent : component dot piece = some (.name piece) := by
    rw [component, if_neg (not_or.mpr ⟨h.ne_nil, h.ne_dot⟩), if_neg h.ne_parent]
  rw [Lib.components, List.splitOn_eq_singleton h.sep_notMem, List.filterMap_cons, hcomponent]
  rfl

omit [DecidableEq α] in
theorem pathOf_concat (dir : List (List α)) (piece : List α) :
    pathOf sep (dir ++ [piece]) = pathOf sep dir ++ sep :: piece := by
  simp [pathOf]

theorem components_pathOf {dir : List (List α)} (h : ∀ n ∈ dir, ProperName sep dot n) :
    components sep dot (pathOf sep dir) = dir.map .name := by
  induction dir using List.reverseRecOn with
  | nil => exact components_nil
  | append_singleton dir piece ih =>
    rw [pathOf_concat, components_append, ih fun n hn => h n (List.mem_append_left _ hn),
      (h piece (List.mem_append_right _ List.mem_cons_self)).components, List.map_append]
    rfl

/-- What is written behind the text for a directory is followed from the directory; without a
separator it changes the last name. -/
theorem resolve_pathOf_append {dir : List (List α)} (hdir : dir ≠ [])
    (h : ∀ n ∈ dir, ProperName sep dot n) (text : List α) :
    resolve [] (components sep dot (pathOf sep dir ++ text)) =
      resolve dir (componentsBehind sep dot dir text) := by
  rw [componentsBehind]
  split
  · rename_i hsep
    obtain ⟨rest, rfl⟩ := List.head?_eq_some_iff.mp hsep
    rw [components_append, components_sep, components_pathOf h, resolve_append, resolve_names,
      List.nil_append]
  · obtain ⟨parent, last, rfl⟩ := List.eq_nil_or_concat' dir |>.resolve_left hdir
    rw [pathOf_concat, List.append_assoc, List.cons_append, components_append,
      components_pathOf fun n hn => h n (List.mem_append_left _ hn), resolve_append, resolve_names,
      List.nil_append, List.getLast?_concat]
    show _ = resolve ((parent ++ [last]).dropLast) _
    rw [List.dropLast_concat]
    rfl

end

end Lib

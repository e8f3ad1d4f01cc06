import Mathlib.Data.List.Basic

/-! Runs of a step function that may fault.  `run step s as` takes the steps `as` one after another
and stops at the first fault.  The rules carry an invariant along a run: from one step to all of
them, with or without a condition that the steps of the run have to meet. -/

namespace Lib

theorem bind_eq_ok {ε α β : Type} {x : Except ε α} {f : α → Except ε β} {b : β} :
    (x >>= f) = .ok b ↔ ∃ a, x = .ok a ∧ f a = .ok b := by
  cases x <;> simp [bind, Except.bind]

@[simp] theorem ok_bind {ε α β : Type} (a : α) (f : α → Except ε β) :
    ((Except.ok a : Except ε α) >>= f) = f a := rfl

@[simp] theorem error_bind {ε α β : Type} (e : ε) (f : α → Except ε β) :
    ((Except.error e : Except ε α) >>= f) = .error e := rfl

theorem map_eq_error {ε α β : Type} {x : Except ε α} {f : α → β} {e : ε} :
    x.map f = .error e ↔ x = .error e := by
  cases x <;> simp [Except.map]

/-- Two computations with the same result, as far as it is looked at, fail alike or both succeed. -/
theorem map_eq_map {ε α β γ : Type} {x : Except ε α} {y : Except ε β} {f : α → γ} {g : β → γ}
    (h : x.map f = y.map g) :
    (∃ e, x = .error e ∧ y = .error e) ∨ ∃ a b, x = .ok a ∧ y = .ok b ∧ f a = g b := by
  cases x with
  | error e =>
    cases y with
    | error e' => exact .inl ⟨e, rfl, congrArg Except.error (Except.error.inj h).symm⟩
    | ok b => cases h
  | ok a =>
    cases y with
    | error e' => cases h
    | ok b => exact .inr ⟨a, b, rfl, rfl, Except.ok.inj h⟩

section

variable {ε σ α : Type} (step : σ → α → Except ε σ)

/-- The state after the steps `as` from `s`, or the first fault. -/
def run : σ → List α → Except ε σ
  | s, [] => .ok s
  | s, a :: as => step s a >>= fun t => run t as

@[simp] theorem run_nil (s : σ) : run step s [] = .ok s := rfl

theorem run_cons (s : σ) (a : α) (as : List α) :
    run step s (a :: as) = step s a >>= fun t => run step t as := rfl

theorem run_append (s : σ) (as bs : List α) :
    run step s (as ++ bs) = run step s as >>= fun t => run step t bs := by
  induction as generalizing s with
  | nil => rfl
  | cons a as ih =>
    rw [List.cons_append, run_cons, run_cons]
    cases step s a with
    | error e => rfl
    | ok t => exact ih t

@[simp] theorem run_singleton (s : σ) (a : α) : run step s [a] = step s a := by
  rw [run_cons]
  cases step s a <;> rfl

variable {step}

theorem run_cons_ok {s t : σ} {a : α} {as : List α} :
    run step s (a :: as) = .ok t ↔ ∃ u, step s a = .ok u ∧ run step u as = .ok t :=
  bind_eq_ok

theorem run_append_ok {s t : σ} {as bs : List α} :
    run step s (as ++ bs) = .ok t ↔ ∃ u, run step s as = .ok u ∧ run step u bs = .ok t := by
  rw [run_append, bind_eq_ok]

theorem run_invariant {I : σ → Prop} (hstep : ∀ s a t, I s → step s a = .ok t → I t) {s t : σ}
    {as : List α} (hs : I s) (h : run step s as = .ok t) : I t := by
  induction as generalizing s with
  | nil => cases h; exact hs
  | cons a as ih =>
    obtain ⟨u, hu, hrun⟩ := run_cons_ok.mp h
    exact ih (hstep s a u hs hu) hrun

/-- The states reached from `s`. -/
def Reachable (step : σ → α → Except ε σ) (s t : σ) : Prop := ∃ as, run step s as = .ok t

theorem Reachable.refl (s : σ) : Reachable step s s := ⟨[], rfl⟩

theorem Reachable.invariant {I : σ → Prop} (hstep : ∀ s a t, I s → step s a = .ok t → I t)
    {s t : σ} (h : Reachable step s t) (hs : I s) : I t :=
  h.elim fun _ hrun => run_invariant hstep hs hrun

/-- Every step of the run `as` from `s` meets `P` in the state before it. -/
def Along (step : σ → α → Except ε σ) (P : σ → α → Prop) : σ → List α → Prop
  | _, [] => True
  | s, a :: as => P s a ∧ ∀ t, step s a = .ok t → Along step P t as

theorem along_cons_ok {P : σ → α → Prop} {s u : σ} {a : α} {as : List α} (h : step s a = .ok u) :
    Along step P s (a :: as) ↔ P s a ∧ Along step P u as := by
  refine and_congr Iff.rfl ⟨fun hrest => hrest u h, ?_⟩
  intro hrest t ht
  rw [h] at ht
  cases ht
  exact hrest

theorem along_cons_error {P : σ → α → Prop} {s : σ} {a : α} {as : List α} {e : ε}
    (h : step s a = .error e) : Along step P s (a :: as) ↔ P s a := by
  refine ⟨And.left, fun hp => ⟨hp, ?_⟩⟩
  intro t ht
  rw [h] at ht
  cases ht

theorem along_append_ok {P : σ → α → Prop} {s t : σ} {as bs : List α}
    (h : run step s as = .ok t) :
    Along step P s (as ++ bs) ↔ Along step P s as ∧ Along step P t bs := by
  induction as generalizing s with
  | nil =>
    cases h
    exact ⟨fun hbs => ⟨trivial, hbs⟩, And.right⟩
  | cons a as ih =>
    obtain ⟨u, hu, hrun⟩ := run_cons_ok.mp h
    rw [List.cons_append, along_cons_ok hu, along_cons_ok hu, ih hrun, and_assoc]

instance Along.decidable {P : σ → α → Prop} [∀ s a, Decidable (P s a)] :
    ∀ (s : σ) (as : List α), Decidable (Along step P s as)
  | _, [] => .isTrue trivial
  | s, a :: as =>
    match h : step s a with
    | .error _ => decidable_of_iff _ (along_cons_error h).symm
    | .ok u =>
      have : Decidable (Along step P u as) := Along.decidable u as
      decidable_of_iff _ (along_cons_ok h).symm

theorem along_iff {P : σ → α → Prop} {s : σ} {as : List α} :
    Along step P s as ↔
      ∀ before a after, as = before ++ a :: after → ∀ t, run step s before = .ok t → P t a := by
  induction as generalizing s with
  | nil =>
    refine ⟨?_, fun _ => trivial⟩
    intro _ before a after h
    simp at h
  | cons b as ih =>
    constructor
    · rintro ⟨hb, hrest⟩ before a after h t ht
      cases before with
      | nil =>
        obtain ⟨rfl, -⟩ := List.cons.inj h
        cases ht
        exact hb
      | cons c before =>
        obtain ⟨rfl, hsplit⟩ := List.cons.inj h
        obtain ⟨u, hu, ht⟩ := run_cons_ok.mp ht
        exact ih.mp (hrest u hu) before a after hsplit t ht
    · intro h
      refine ⟨h [] b as rfl s rfl, fun u hu => ih.mpr ?_⟩
      intro before a after has t ht
      exact h (b :: before) a after (by rw [has]; rfl) t (run_cons_ok.mpr ⟨u, hu, ht⟩)

theorem Along.left {P : σ → α → Prop} {s : σ} {as bs : List α} (h : Along step P s (as ++ bs)) :
    Along step P s as := by
  refine along_iff.mpr ?_
  intro before a after has t ht
  exact along_iff.mp h before a (after ++ bs) (by simp [has]) t ht

theorem Along.mono {P Q : σ → α → Prop} (hPQ : ∀ s a, P s a → Q s a) {s : σ} {as : List α}
    (h : Along step P s as) : Along step Q s as :=
  along_iff.mpr fun before a after has t ht => hPQ t a (along_iff.mp h before a after has t ht)

/-- A condition that follows from another one under an invariant of the steps that meet that one. -/
theorem Along.imp {P Q : σ → α → Prop} {I : σ → Prop}
    (hstep : ∀ s a t, I s → P s a → step s a = .ok t → I t) (hPQ : ∀ s a, I s → P s a → Q s a)
    {s : σ} {as : List α} (hs : I s) (h : Along step P s as) : Along step Q s as := by
  induction as generalizing s with
  | nil => trivial
  | cons a as ih =>
    exact ⟨hPQ s a hs h.1, fun t ht => ih (hstep s a t hs h.1 ht) (h.2 t ht)⟩

theorem along_of_mem {P : σ → α → Prop} {s : σ} {as : List α} (h : ∀ a ∈ as, ∀ s, P s a) :
    Along step P s as :=
  along_iff.mpr fun before a after has t _ => h a (by simp [has]) t

/-- Two conditions that agree under an invariant of the steps that meet a third one are met by the same
runs of such steps. -/
theorem Along.congr {K P Q : σ → α → Prop} {I : σ → Prop}
    (hstep : ∀ s a t, I s → K s a → step s a = .ok t → I t)
    (hPQ : ∀ s a, I s → K s a → (P s a ↔ Q s a)) {s : σ} {as : List α} (h : Along step K s as)
    (hs : I s) : Along step P s as ↔ Along step Q s as := by
  induction as generalizing s with
  | nil => exact Iff.rfl
  | cons a as ih =>
    exact and_congr (hPQ s a hs h.1) (forall_congr' fun t => forall_congr' fun ht =>
      ih (h.2 t ht) (hstep s a t hs h.1 ht))

/-- Two conditions that agree under an invariant of the steps are met by the same runs. -/
theorem along_congr {P Q : σ → α → Prop} {I : σ → Prop}
    (hstep : ∀ s a t, I s → step s a = .ok t → I t) (hPQ : ∀ s a, I s → (P s a ↔ Q s a)) {s : σ}
    {as : List α} (hs : I s) : Along step P s as ↔ Along step Q s as :=
  Along.congr (K := fun _ _ => True) (fun s a t hs _ => hstep s a t hs) (fun s a hs _ => hPQ s a hs)
    (along_of_mem fun _ _ _ => trivial) hs

/-- Steps that have no fault and keep an invariant make up a run that has none. -/
theorem run_total {I : σ → Prop} (hstep : ∀ {s}, I s → ∀ a, ∃ t, step s a = .ok t ∧ I t) {s : σ}
    (hs : I s) (as : List α) : ∃ t, run step s as = .ok t ∧ I t := by
  induction as generalizing s with
  | nil => exact ⟨s, rfl, hs⟩
  | cons a as ih =>
    obtain ⟨u, hu, hIu⟩ := hstep hs a
    obtain ⟨t, ht, hIt⟩ := ih hIu
    exact ⟨t, run_cons_ok.mpr ⟨u, hu, ht⟩, hIt⟩

/-- Steps that keep an invariant and have but one fault make up a run that has no other. -/
theorem run_fault {I : σ → Prop} {f : ε}
    (hstep : ∀ s a, I s → (∃ t, step s a = .ok t ∧ I t) ∨ step s a = .error f) {s : σ}
    {as : List α} (hs : I s) {e : ε} (h : run step s as = .error e) : e = f := by
  induction as generalizing s with
  | nil => cases h
  | cons a as ih =>
    rw [run_cons] at h
    obtain ⟨t, ht, hI⟩ | hf := hstep s a hs
    · rw [ht] at h
      exact ih hI h
    · rw [hf] at h
      exact (Except.error.inj h).symm

/-- An invariant that a step keeps, without a fault, whenever it meets `P`, holds after every run
whose steps meet `P`, and the run has no fault. -/
theorem Along.run_total {P : σ → α → Prop} {I : σ → Prop}
    (hstep : ∀ s a, I s → P s a → ∃ t, step s a = .ok t ∧ I t) {s : σ} {as : List α}
    (h : Along step P s as) (hs : I s) : ∃ t, run step s as = .ok t ∧ I t := by
  induction as generalizing s with
  | nil => exact ⟨s, rfl, hs⟩
  | cons a as ih =>
    obtain ⟨u, hu, hIu⟩ := hstep s a hs h.1
    obtain ⟨t, ht, hIt⟩ := ih (h.2 u hu) hIu
    exact ⟨t, run_cons_ok.mpr ⟨u, hu, ht⟩, hIt⟩

/-- A step that moves along with an abstract one, whenever it meets `P`, makes runs that do. -/
theorem Along.run_simulates {τ : Type} {P : σ → α → Prop} {R : σ → τ → Prop} {move : τ → α → τ}
    (hstep : ∀ s q a, R s q → P s a → ∃ t, step s a = .ok t ∧ R t (move q a)) {s : σ} {q : τ}
    {as : List α} (h : Along step P s as) (hs : R s q) :
    ∃ t, run step s as = .ok t ∧ R t (as.foldl move q) := by
  induction as generalizing s q with
  | nil => exact ⟨s, rfl, hs⟩
  | cons a as ih =>
    obtain ⟨u, hu, hRu⟩ := hstep s q a hs h.1
    obtain ⟨t, ht, hRt⟩ := ih (h.2 u hu) hRu
    exact ⟨t, run_cons_ok.mpr ⟨u, hu, ht⟩, hRt⟩

/-- An invariant that a step keeps whenever it meets `P` holds after every run whose steps
meet `P`. -/
theorem Along.run_invariant {P : σ → α → Prop} {I : σ → Prop}
    (hstep : ∀ s a t, I s → P s a → step s a = .ok t → I t) {s t : σ} {as : List α}
    (h : Along step P s as) (hs : I s) (hrun : run step s as = .ok t) : I t := by
  induction as generalizing s with
  | nil => cases hrun; exact hs
  | cons a as ih =>
    obtain ⟨u, hu, hrun⟩ := run_cons_ok.mp hrun
    exact ih (h.2 u hu) (hstep s a u hs h.1 hu) hrun

/-- Where the steps that meet `P` keep an invariant that gives `Q` and `S`, and any other step fails
`S` or leads to a state without `Q`, the runs whose states all have `Q` and whose steps all meet `S`
are those whose steps all meet `P`. -/
theorem along_iff_prefixes {P S : σ → α → Prop} {I Q : σ → Prop}
    (hstep : ∀ s a t, I s → P s a → step s a = .ok t → I t) (hQ : ∀ s, I s → Q s)
    (hS : ∀ s a, I s → P s a → S s a)
    (hback : ∀ s a, I s → S s a → (∀ t, step s a = .ok t → Q t) → P s a) {s : σ} (hs : I s)
    {l : List α} :
    (∀ before after, l = before ++ after → ∀ t, run step s before = .ok t →
      Q t ∧ ∀ a rest, after = a :: rest → S t a) ↔ Along step P s l := by
  induction l generalizing s with
  | nil =>
    refine ⟨fun _ => trivial, ?_⟩
    intro _ before after h t ht
    obtain ⟨rfl, rfl⟩ := List.append_eq_nil_iff.mp h.symm
    cases ht
    exact ⟨hQ s hs, by simp⟩
  | cons a as ih =>
    constructor
    · intro h
      have hPa : P s a := by
        apply hback s a hs ((h [] (a :: as) rfl s rfl).2 a as rfl)
        intro u hu
        exact (h [a] as rfl u (by rw [run_singleton, hu])).1
      refine ⟨hPa, fun u hu => (ih (hstep s a u hs hPa hu)).mp ?_⟩
      intro before after has t ht
      exact h (a :: before) after (by rw [has]; rfl) t (run_cons_ok.mpr ⟨u, hu, ht⟩)
    · rintro ⟨hPa, hrest⟩ before after has t ht
      cases before with
      | nil =>
        cases ht
        refine ⟨hQ s hs, ?_⟩
        intro b rest hafter
        obtain ⟨rfl, -⟩ := List.cons.inj (has.trans hafter)
        exact hS s a hs hPa
      | cons b before =>
        obtain ⟨rfl, hsplit⟩ := List.cons.inj has
        obtain ⟨u, hu, ht⟩ := run_cons_ok.mp ht
        exact (ih (hstep s a u hs hPa hu)).mpr (hrest u hu) before after hsplit t ht

/-- Where the steps that meet `P` keep an invariant that gives `Q`, and any other step leads to a
state without `Q`, the runs whose states all have `Q` are those whose steps all meet `P`. -/
theorem along_iff_reached {P : σ → α → Prop} {I Q : σ → Prop}
    (hstep : ∀ s a t, I s → P s a → step s a = .ok t → I t) (hQ : ∀ s, I s → Q s)
    (hback : ∀ s a, I s → (∀ t, step s a = .ok t → Q t) → P s a) {s : σ} (hs : I s) {l : List α} :
    (∀ before after, l = before ++ after → ∀ t, run step s before = .ok t → Q t) ↔
      Along step P s l := by
  have hstates := along_iff_prefixes (S := fun _ _ => True) hstep hQ (fun _ _ _ _ => trivial)
    (fun s a hs _ => hback s a hs) hs (l := l)
  rw [← hstates]
  constructor
  · intro h before after has t ht
    exact ⟨h before after has t ht, fun _ _ _ => trivial⟩
  · intro h before after has t ht
    exact (h before after has t ht).1

/-- The same where every step returns, and the condition on the other steps is on the state that
they lead to. -/
theorem along_iff_states {P : σ → α → Prop} {I Q : σ → Prop}
    (hreturn : ∀ s a, I s → ∃ t, step s a = .ok t)
    (hstep : ∀ s a t, I s → P s a → step s a = .ok t → I t) (hQ : ∀ s, I s → Q s)
    (hback : ∀ s a t, I s → step s a = .ok t → Q t → P s a) {s : σ} {as : List α} (hs : I s) :
    (∀ before after, as = before ++ after → ∀ t, run step s before = .ok t → Q t) ↔
      Along step P s as := by
  refine along_iff_reached hstep hQ ?_ hs
  intro s a hs hQ
  obtain ⟨t, ht⟩ := hreturn s a hs
  exact hback s a t hs ht (hQ t ht)

/-! ### What is observed along a run -/

section

variable {β : Type} (step) (observe : σ → α → List β)

/-- What the steps `as` from `s` let an observer see, one after another. -/
def trace : σ → List α → List β
  | _, [] => []
  | s, a :: as =>
    observe s a ++
      match step s a with
      | .ok t => trace t as
      | .error _ => []

variable {step observe}

theorem trace_cons_ok {s t : σ} {a : α} {as : List α} (h : step s a = .ok t) :
    trace step observe s (a :: as) = observe s a ++ trace step observe t as := by
  rw [trace, h]

/-- An invariant of the state and of what has been observed so far, kept by the steps that
meet `P`. -/
theorem Along.trace_invariant {P : σ → α → Prop} {I : σ → List β → Prop}
    (hstep : ∀ s l a t, I s l → P s a → step s a = .ok t → I t (l ++ observe s a)) {s t : σ}
    {l : List β} {as : List α} (h : Along step P s as) (hs : I s l) (hrun : run step s as = .ok t) :
    I t (l ++ trace step observe s as) := by
  induction as generalizing s l with
  | nil =>
    cases hrun
    rw [trace, List.append_nil]
    exact hs
  | cons a as ih =>
    obtain ⟨u, hu, hrun⟩ := run_cons_ok.mp hrun
    rw [trace_cons_ok hu, ← List.append_assoc]
    exact ih (h.2 u hu) (hstep s l a u hs h.1 hu) hrun

theorem trace_invariant {I : σ → List β → Prop}
    (hstep : ∀ s l a t, I s l → step s a = .ok t → I t (l ++ observe s a)) {s t : σ} {l : List β}
    {as : List α} (hs : I s l) (hrun : run step s as = .ok t) :
    I t (l ++ trace step observe s as) :=
  Along.trace_invariant (P := fun _ _ => True) (fun s l a t hs _ => hstep s l a t hs)
    (along_of_mem fun _ _ _ => trivial) hs hrun

end

end

end Lib

import Mymuduo.Lib.Run

/-! Two computations side by side.  They are coupled when they fail in the same way or return results
that a relation holds of.  The rules take a coupling through the binds of two programs and along two
runs whose steps are coupled. -/

namespace Lib

variable {ε α β γ δ : Type}

/-- Both computations fail in the same way, or both return, with results that `R` relates. -/
inductive Coupled (R : α → β → Prop) : Except ε α → Except ε β → Prop
  | error (e : ε) : Coupled R (.error e) (.error e)
  | ok {a : α} {b : β} (h : R a b) : Coupled R (.ok a) (.ok b)

namespace Coupled

variable {R : α → β → Prop} {S : γ → δ → Prop} {x : Except ε α} {y : Except ε β}

theorem mono {R' : α → β → Prop} (h : Coupled R x y) (hR : ∀ a b, R a b → R' a b) :
    Coupled R' x y := by
  cases h with
  | error e => exact .error e
  | ok h => exact .ok (hR _ _ h)

theorem bind {f : α → Except ε γ} {g : β → Except ε δ} (h : Coupled R x y)
    (hfg : ∀ a b, R a b → Coupled S (f a) (g b)) : Coupled S (x >>= f) (y >>= g) := by
  cases h with
  | error e => exact .error e
  | ok h => exact hfg _ _ h

/-- A computation is coupled with what a function makes of its results. -/
theorem of_map {f : α → β} (hf : ∀ a, x = .ok a → R a (f a)) : Coupled R x (x.map f) := by
  cases x with
  | error e => exact .error e
  | ok a => exact .ok (hf a rfl)

theorem of_error {e : ε} (h : Coupled R (.error e) y) : y = .error e := by
  cases h
  rfl

theorem of_ok {a : α} (h : Coupled R (.ok a) y) : ∃ b, y = .ok b ∧ R a b := by
  cases h with
  | ok h => exact ⟨_, rfl, h⟩

/-- An observer who sees the same of related results cannot tell the computations apart. -/
theorem map_eq {f : α → γ} {g : β → γ} (h : Coupled R x y) (hfg : ∀ a b, R a b → f a = g b) :
    x.map f = y.map g := by
  cases h with
  | error e => rfl
  | ok h => exact congrArg Except.ok (hfg _ _ h)

end Coupled

/-! ### Runs -/

section

variable {σ τ : Type}

/-- Steps that keep a relation make up runs that do, if they all meet `P`. -/
theorem Coupled.run {step : σ → α → Except ε σ} {step' : τ → α → Except ε τ} {P : α → Prop}
    {I : σ → τ → Prop}
    (hstep : ∀ s t a, I s t → P a → Coupled I (step s a) (step' t a)) {s : σ} {t : τ} (h : I s t)
    {as : List α} (has : ∀ a ∈ as, P a) : Coupled I (Lib.run step s as) (Lib.run step' t as) := by
  induction as generalizing s t with
  | nil => exact .ok h
  | cons a as ih =>
    apply (hstep s t a h (has a List.mem_cons_self)).bind
    intro s' t' h'
    exact ih h' fun b hb => has b (List.mem_cons_of_mem _ hb)

/-- The steps `as` from `s`, up to the first state with `stop`, with the steps that are left. -/
def runUntil (step : σ → α → Except ε σ) (stop : σ → Bool) : σ → List α → Except ε (σ × List α)
  | s, [] => .ok (s, [])
  | s, a :: as => step s a >>= fun t => if stop t then .ok (t, as) else runUntil step stop t as

/-- Runs whose steps are coupled stop together.  `I` relates the states before a step, with the steps
to come, and `S` those in which the runs end. -/
theorem Coupled.runUntil {step : σ → α → Except ε σ} {step' : τ → β → Except ε τ}
    {stop : σ → Bool} {stop' : τ → Bool} {I S : σ × List α → τ × List β → Prop}
    (hstep : ∀ s a as t b bs, I (s, a :: as) (t, b :: bs) →
      Coupled (fun s' t' => stop s' = true ∧ stop' t' = true ∧ S (s', as) (t', bs) ∨
        stop s' = false ∧ stop' t' = false ∧ I (s', as) (t', bs)) (step s a) (step' t b))
    (hend : ∀ s t, I (s, []) (t, []) → S (s, []) (t, [])) {s : σ} {t : τ} {as : List α}
    {bs : List β} (hlen : as.length = bs.length) (h : I (s, as) (t, bs)) :
    Coupled S (Lib.runUntil step stop s as) (Lib.runUntil step' stop' t bs) := by
  induction as generalizing s t bs with
  | nil =>
    obtain rfl := List.eq_nil_of_length_eq_zero hlen.symm
    exact .ok (hend s t h)
  | cons a as ih =>
    cases bs with
    | nil => simp at hlen
    | cons b bs =>
      apply (hstep s a as t b bs h).bind
      rintro s' t' (⟨hstop, hstop', hS⟩ | ⟨hstop, hstop', hI⟩)
      · rw [if_pos hstop, if_pos hstop']
        exact .ok hS
      · rw [if_neg (by simp [hstop]), if_neg (by simp [hstop'])]
        exact ih (by simpa using hlen) hI

end

end Lib

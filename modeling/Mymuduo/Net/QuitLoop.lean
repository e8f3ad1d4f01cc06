import Mymuduo.Net.EventLoopThread

/-! How the loop of an `EventLoopThread` is ended: when a `quit` lasts, and when the destructor is
through with the loop before the new thread destroys it. -/

namespace Mymuduo

open Lib

namespace EventLoopThread

variable {φ : Type}

/-! ### `quit_` -/

/-- From the first call of `quit` on, in whatever way the threads go on, `quit_` is set while the
loop exists, and no further iteration begins. -/
def QuitKept (s : EventLoopThread φ) : Prop :=
  ∀ n, s.quitAt = some n → ∀ more t, run step s more = .ok t →
    t.eventLoop.all (·.quit) = true ∧ t.iterations = n

/-- The new thread gets to its end when the destructor waits for it. -/
def JoinReturns (s : EventLoopThread φ) : Prop :=
  s.owner = .join → ∃ k t, run step s (List.replicate k .thread) = .ok t ∧ t.place = .finished

/-- The owner does not store `quit_` between the publication of `loop_` and `quit_.store(false)`. -/
def StoresAfterClear (s : EventLoopThread φ) : ThreadStep → Prop
  | .owner => s.owner = .storeQuit ∨ s.owner = .storeQuitOfDestructor → inWindow s.place = false
  | _ => True

/-- `loop()` has been entered, and `quit_` is past its clearing. -/
def entered (p : ThreadPlace) : Bool := published p && !inWindow p

/-- `quit` was called after `n` iterations, and it lasts. -/
structure Kept (n : Nat) (s : EventLoopThread φ) : Prop where
  quitAt : s.quitAt = some n
  quit : s.eventLoop.all (·.quit) = true
  place : entered s.place = true
  iterations : s.iterations = n

theorem entered_next {p : ThreadPlace} (quit : Bool) (h : entered p = true) :
    entered (next quit p) = true := by
  cases p <;> cases quit <;> first | rfl | cases h

theorem eventLoopAfter_all {l : Option (EventLoop φ)} {p : ThreadPlace} (hp : entered p = true)
    (h : l.all (·.quit) = true) : (eventLoopAfter l p).all (·.quit) = true := by
  cases p <;> cases l <;> first | rfl | exact h | cases hp

/-- The new thread reads what `quit` has stored. -/
theorem Kept.quits {n : Nat} {s : EventLoopThread φ} (hk : s.Kept n) (hs : s.Placed)
    (hp : s.place ≠ .finished) : s.quits = true := by
  have hobject := hs.object
  have hquit := hk.quit
  have hplace := hk.place
  unfold EventLoopThread.quits
  cases hl : s.eventLoop with
  | none =>
    rw [hl] at hobject
    cases hplace' : s.place <;> simp_all [hasEventLoop, entered, published]
  | some l => simpa [hl] using hquit

theorem Kept.thread {n : Nat} {s t : EventLoopThread φ} (hk : s.Kept n) (hs : s.Placed)
    (h : s.thread = .ok t) : t.Kept n := by
  cases thread_eq h
  refine ⟨hk.quitAt, eventLoopAfter_all hk.place hk.quit, entered_next _ hk.place, ?_⟩
  have hiterations := hk.iterations
  unfold threadNext iterationsAfter
  split
  case h_1 hp =>
    rw [hk.quits hs (by rw [hp]; simp)]
    exact hiterations
  case h_2 => exact hiterations

theorem Kept.storeQuit {n : Nat} {s : EventLoopThread φ} (hk : s.Kept n) : s.storeQuit.Kept n where
  quitAt := by simp [EventLoopThread.storeQuit, hk.quitAt]
  quit := by simp [EventLoopThread.storeQuit, Option.all_map]
  place := hk.place
  iterations := hk.iterations

theorem Kept.owner {n : Nat} {s t : EventLoopThread φ} (hk : s.Kept n) (hs : s.Placed)
    (h : s.ownerStep = .ok t) : t.Kept n := by
  obtain ⟨-, ⟨ho, -⟩ | ⟨-, ht⟩ | ⟨-, ht⟩ | ht⟩ := owner_cases h
  · have hquit := hs.early (by rw [ho]; rfl)
    cases hquit.symm.trans hk.quitAt
  · rw [ht]
    exact { hk.storeQuit with }
  · rw [ht]
    exact { hk with quit := (Option.all_map ..).trans hk.quit }
  · rw [ht]
    exact { hk with }

theorem Kept.keeps {n : Nat} {s t : EventLoopThread φ} {a : ThreadStep} (hk : s.Kept n)
    (hs : s.Placed) (h : step s a = .ok t) : t.Kept n := by
  cases a with
  | thread => exact hk.thread hs h
  | owner => exact hk.owner hs h
  | callQuit | callDestructor =>
    cases h
    split
    · exact { hk with }
    · exact hk
  | quitInLoop =>
    cases h
    split
    · exact hk.storeQuit
    · exact hk

/-- Once it lasts, it does so in every continuation. -/
theorem Kept.run {n : Nat} {s t : EventLoopThread φ} {more : List ThreadStep} (hk : s.Kept n)
    (hs : s.Placed) (h : run step s more = .ok t) : t.Kept n := by
  have hstep : ∀ (s : EventLoopThread φ) a t, s.Placed ∧ s.Kept n → step s a = .ok t →
      t.Placed ∧ t.Kept n := by
    intro s a t hs h
    exact ⟨hs.1.step h, hs.2.keeps hs.1 h⟩
  exact (run_invariant hstep ⟨hs, hk⟩ h).2

/-- How many statements are left to the new thread, once `quit_` is set. -/
def statementsLeft : ThreadPlace → Nat
  | .notStarted => 18
  | .construct => 17
  | .callback => 16
  | .lockToSet => 15
  | .setLoop => 14
  | .notify => 13
  | .unlockSet => 12
  | .setLooping => 11
  | .clearQuit => 10
  | .poll => 9
  | .handleEvents => 8
  | .doPendingFunctors => 7
  | .testQuit => 6
  | .clearLooping => 5
  | .lockToClear => 4
  | .clearLoop => 3
  | .unlockCleared => 2
  | .destroyLoop => 1
  | .finished => 0

theorem statementsLeft_next {p : ThreadPlace} (hp : p ≠ .notStarted) (hfinished : p ≠ .finished) :
    statementsLeft (next true p) < statementsLeft p := by
  cases p <;> simp_all [statementsLeft, next]

theorem thread_finishes {n : Nat} {s : EventLoopThread φ} (hs : s.Placed) (hk : s.Kept n)
    (howner : s.owner ≠ .destroyed) :
    ∃ k t, Lib.run step s (List.replicate k .thread) = .ok t ∧ t.place = .finished := by
  by_cases hp : s.place = .finished
  · exact ⟨0, s, rfl, hp⟩
  have hthread := thread_returns hs howner
  obtain ⟨k, t, hrun, ht⟩ :=
    thread_finishes (hs.thread hthread) (hk.thread hs hthread) howner
  exact ⟨k + 1, t, run_cons_ok.mpr ⟨_, hthread, hrun⟩, ht⟩
termination_by statementsLeft s.place
decreasing_by
  have hstarted : s.place ≠ .notStarted := by
    intro hplace
    have hentered := hk.place
    rw [hplace] at hentered
    cases hentered
  unfold threadNext
  rw [hk.quits hs hp]
  exact statementsLeft_next hstarted hp

theorem window_next {p : ThreadPlace} (quit : Bool) (h : inWindow p = true) :
    p = .clearQuit ∨
      inWindow (next quit p) = true ∧ statementsLeft (next quit p) < statementsLeft p := by
  cases p <;> simp_all [inWindow, next, statementsLeft]

/-- What is stored before `quit_.store(false)` is overwritten. -/
theorem window_clears {s : EventLoopThread φ} (hs : s.Placed) (hp : inWindow s.place = true)
    (howner : s.owner ≠ .destroyed) :
    ∃ k t, Lib.run step s (List.replicate k .thread) = .ok t ∧
      t.eventLoop.all (·.quit) = false := by
  have hthread := thread_returns hs howner
  by_cases hclear : s.place = .clearQuit
  · refine ⟨1, s.threadNext, (run_singleton ..).trans hthread, ?_⟩
    have hobject := hs.object
    rw [hclear] at hobject
    obtain ⟨l, hl⟩ := Option.isSome_iff_exists.mp hobject
    simp [threadNext, eventLoopAfter, hclear, hl]
  · have hnext := (window_next s.quits hp).resolve_left hclear
    obtain ⟨k, t, hrun, ht⟩ := window_clears (hs.thread hthread) hnext.1 howner
    exact ⟨k + 1, t, run_cons_ok.mpr ⟨_, hthread, hrun⟩, ht⟩
termination_by statementsLeft s.place
decreasing_by exact ((window_next s.quits hp).resolve_left hclear).2

/-- The first `quit` is called by the owner or on the loop's own thread. -/
theorem step_quitAt {s t : EventLoopThread φ} {a : ThreadStep} (h : step s a = .ok t) :
    t.quitAt = s.quitAt ∨
      t = { s.storeQuit with owner := t.owner } ∧
        (a = .owner ∧ (s.owner = .storeQuit ∨ s.owner = .storeQuitOfDestructor) ∨
          s.place = .handleEvents ∨ s.place = .doPendingFunctors) := by
  cases a with
  | thread =>
    cases thread_eq h
    exact .inl rfl
  | owner =>
    obtain ⟨-, ⟨-, ht⟩ | ⟨ho, ht⟩ | ⟨-, ht⟩ | ht⟩ := owner_cases h
    · exact .inl (by rw [ht])
    · exact .inr ⟨ht, .inl ⟨rfl, ho⟩⟩
    · exact .inl (by rw [ht]; rfl)
    · exact .inl (by rw [ht])
  | callQuit | callDestructor =>
    cases h
    split <;> exact .inl rfl
  | quitInLoop =>
    cases h
    split
    case isTrue hp => exact .inr ⟨rfl, .inr hp.1⟩
    case isFalse => exact .inl rfl

/-- The destructor has called `quit` and waits for the new thread. -/
def waits (o : OwnerPlace) : Bool := o == .wakeupOfDestructor || o == .join

theorem waits_follows {o o' : OwnerPlace} (h : follows o o' = true) (hwaits : waits o' = true) :
    waits o = true ∨ o = .storeQuitOfDestructor := by
  cases o <;> cases o' <;> simp_all [follows, waits]

theorem step_waits {s t : EventLoopThread φ} {a : ThreadStep} (h : step s a = .ok t)
    (hwaits : waits t.owner = true) :
    waits s.owner = true ∨ t = { s.storeQuit with owner := t.owner } := by
  cases a with
  | thread =>
    cases thread_eq h
    exact .inl hwaits
  | owner =>
    obtain hbefore | ho := waits_follows (owner_cases h).1 hwaits
    · exact .inl hbefore
    · dsimp only [step] at h
      unfold ownerStep at h
      simp only [ho] at h
      exact .inr (by rw [onEventLoop_eq h])
  | callQuit | callDestructor =>
    cases h
    split at hwaits
    · cases hwaits
    · exact .inl hwaits
  | quitInLoop =>
    cases h
    split at hwaits <;> exact .inl hwaits

theorem Placed.published_of_stores {s : EventLoopThread φ} (hs : s.Placed)
    (ho : s.owner = .storeQuit ∨ s.owner = .storeQuitOfDestructor) : published s.place = true := by
  have hplaces := hs.places
  obtain ho | ho := ho
  · rwa [ho] at hplaces
  · rwa [ho] at hplaces

/-- What holds while the owner stores `quit_` after `quit_.store(false)` only. -/
structure QuitLasts (s : EventLoopThread φ) : Prop where
  placed : s.Placed
  kept : ∀ n, s.quitAt = some n → s.Kept n
  called : waits s.owner = true → s.quitAt ≠ none

theorem quitLasts_new : (new : EventLoopThread φ).QuitLasts where
  placed := placed_new
  kept _ h := by cases h
  called h := by cases h

theorem QuitLasts.step {s t : EventLoopThread φ} {a : ThreadStep} (hs : s.QuitLasts)
    (ha : s.StoresAfterClear a) (h : step s a = .ok t) : t.QuitLasts := by
  refine ⟨hs.placed.step h, ?_, ?_⟩
  · intro n hn
    obtain hsame | ⟨ht, hstores⟩ := step_quitAt h
    · exact (hs.kept n (hsame.symm.trans hn)).keeps hs.placed h
    · cases hquit : s.quitAt with
      | some m =>
        have hk := (hs.kept m hquit).keeps hs.placed h
        cases hk.quitAt.symm.trans hn
        exact hk
      | none =>
        have hentered : entered s.place = true := by
          obtain ⟨rfl, ho⟩ | hp | hp := hstores
          · have hpublished := hs.placed.published_of_stores ho
            simp [entered, hpublished, show inWindow s.place = false from ha ho]
          · rw [hp]
            rfl
          · rw [hp]
            rfl
        have hn' : s.iterations = n := by
          rw [ht] at hn
          simpa [storeQuit, hquit] using hn
        rw [ht]
        exact ⟨by simp [storeQuit, hquit, hn'], by simp [storeQuit, Option.all_map], hentered, hn'⟩
  · intro hwaits
    obtain hbefore | ht := step_waits h hwaits
    · obtain ⟨n, hn⟩ := Option.ne_none_iff_exists'.mp (hs.called hbefore)
      rw [((hs.kept n hn).keeps hs.placed h).quitAt]
      simp
    · rw [ht]
      simp [storeQuit]

theorem QuitLasts.quitKept {s : EventLoopThread φ} (hs : s.QuitLasts) : s.QuitKept := by
  intro n hn more t hrun
  have hk := (hs.kept n hn).run hs.placed hrun
  exact ⟨hk.quit, hk.iterations⟩

theorem QuitLasts.joinReturns {s : EventLoopThread φ} (hs : s.QuitLasts) : s.JoinReturns := by
  intro hjoin
  obtain ⟨n, hn⟩ := Option.ne_none_iff_exists'.mp (hs.called (by rw [hjoin]; rfl))
  exact thread_finishes hs.placed (hs.kept n hn) (by rw [hjoin]; simp)

theorem stores_in_window {s : EventLoopThread φ} (hs : s.Placed) (hp : inWindow s.place = true)
    (ho : s.owner = .storeQuit ∨ s.owner = .storeQuitOfDestructor) :
    ∃ o, s.ownerStep = .ok { s.storeQuit with owner := o } ∧ o ≠ .destroyed := by
  have hobject : s.eventLoop.isSome = true := by
    rw [hs.object]
    cases hplace : s.place <;> simp_all [inWindow, hasEventLoop]
  have hreturned := hs.returned
  unfold ownerStep
  obtain ho | ho := ho
  · exact ⟨.wakeup, by simp [ho, hreturned, onEventLoop, hobject], by simp⟩
  · exact ⟨.wakeupOfDestructor, by simp [ho, onEventLoop, hobject], by simp⟩

/-- A store before `quit_.store(false)` is lost. -/
theorem quit_lost {s : EventLoopThread φ} {a : ThreadStep} (hs : s.Placed)
    (h : ∀ t, EventLoopThread.step s a = .ok t → t.QuitKept) : s.StoresAfterClear a := by
  cases a with
  | owner =>
    intro ho
    by_contra hwindow
    have hwindow : inWindow s.place = true := by simpa using hwindow
    obtain ⟨o, hstep, hnot⟩ := stores_in_window hs hwindow ho
    have hplaced := Placed.step (a := .owner) hs hstep
    obtain ⟨k, t, hrun, ht⟩ := window_clears hplaced hwindow hnot
    have hkept := (h _ hstep _ rfl _ t hrun).1
    cases hkept.symm.trans ht
  | _ => trivial

/-- In the runs in which the owner stores `quit_` only after `quit_.store(false)`, and in no others,
no `quit` is lost and the destructor does not wait for ever. -/
theorem quit_kept_iff {steps : List ThreadStep} :
    (∀ before after, steps = before ++ after → ∀ t : EventLoopThread φ,
      run step new before = .ok t → t.QuitKept ∧ t.JoinReturns) ↔
    Along step StoresAfterClear (new : EventLoopThread φ) steps :=
  along_iff_reached (fun _ _ _ hs ha h => QuitLasts.step hs ha h)
    (fun _ hs => ⟨hs.quitKept, hs.joinReturns⟩)
    (fun _ _ hs h => quit_lost hs.placed fun t ht => (h t ht).1) quitLasts_new

/-- The new thread is in the loop of `loop()`. -/
def iterating : ThreadPlace → Bool
  | .testQuit | .poll | .handleEvents | .doPendingFunctors => true
  | _ => false

theorem iterating_next {p : ThreadPlace} (h : iterating p = true) :
    iterating (next false p) = true := by
  cases p <;> first | rfl | cases h

/-- Without another call of `quit` the new thread stays in the loop. -/
theorem iterates {s t : EventLoopThread φ} {k : Nat} (hp : iterating s.place = true)
    (hquit : s.quits = false) (h : run step s (List.replicate k .thread) = .ok t) :
    iterating t.place = true := by
  induction k generalizing s with
  | zero =>
    cases h
    exact hp
  | succ k ih =>
    obtain ⟨u, hu, h⟩ := run_cons_ok.mp h
    cases thread_eq hu
    have hnext : s.threadNext.quits = false := eventLoopAfter_quit hquit
    refine ih ?_ hnext h
    dsimp only [threadNext]
    rw [hquit]
    exact iterating_next hp

/-- The owner calls `startLoop` and the destructor, which stores `quit_` before the new thread has
entered `loop()`. -/
def quitEarly : List ThreadStep :=
  [.owner] ++ List.replicate 7 .thread ++ [.owner, .owner, .callDestructor] ++
    List.replicate 5 .owner ++ [.thread, .thread]

theorem quit_overwritten :
    ∃ t u : EventLoopThread Unit, run step new quitEarly = .ok t ∧ t.quitAt = some 0 ∧
      t.eventLoop.all (·.quit) = false ∧ run step t [.thread] = .ok u ∧ u.iterations = 1 ∧
      t.owner = .join ∧
      ∀ k v, run step t (List.replicate k .thread) = .ok v → v.place ≠ .finished := by
  refine ⟨_, _, rfl, rfl, rfl, rfl, rfl, rfl, ?_⟩
  intro k v h hfinished
  have hiterating := iterates rfl rfl h
  rw [hfinished] at hiterating
  cases hiterating

/-! ### `loop_` and the loop -/

/-- `~EventLoopThread` has been called and is not through. -/
def inDestructor : OwnerPlace → Bool
  | .setExiting | .testLoop | .readLoop | .storeQuitOfDestructor | .wakeupOfDestructor | .join
  | .destroyMembers => true
  | _ => false

/-- The destructor's next statement does not go through a null pointer or to a destroyed loop, and
once it is through, the new thread has finished (or was never started). -/
def TearsDown (s : EventLoopThread φ) : Prop :=
  (inDestructor s.owner = true → ∃ t, s.ownerStep = .ok t) ∧
    (s.owner = .destroyed → s.place = .finished ∨ s.place = .notStarted)

/-- The new thread does not clear `loop_` between the destructor's two reads of it, and does not
destroy the loop between the second one and the end of `quit`; the members are not destroyed between
`loop_ = nullptr` and the end of `threadFunc`. -/
def OutOfTheWay (s : EventLoopThread φ) : ThreadStep → Prop
  | .thread =>
    (s.place = .clearLoop → s.owner ≠ .readLoop) ∧
      (s.place = .destroyLoop →
        s.owner ≠ .storeQuitOfDestructor ∧ s.owner ≠ .wakeupOfDestructor)
  | .owner => s.owner = .destroyMembers → s.place ≠ .unlockCleared ∧ s.place ≠ .destroyLoop
  | _ => True

structure TornDown (s : EventLoopThread φ) : Prop where
  placed : s.Placed
  reads : s.owner = .readLoop → cleared s.place = false
  uses : s.owner = .storeQuitOfDestructor ∨ s.owner = .wakeupOfDestructor → s.place ≠ .finished
  done : s.owner = .destroyed → s.place = .finished ∨ s.place = .notStarted

theorem tornDown_new : (new : EventLoopThread φ).TornDown where
  placed := placed_new
  reads h := by cases h
  uses h := by simp [new] at h
  done h := by cases h

theorem of_cleared_next {p : ThreadPlace} {quit : Bool} (h : cleared (next quit p) = true) :
    p = .clearLoop ∨ cleared p = true := by
  cases p <;> cases quit <;> simp_all [next, cleared]

theorem of_next_finished {p : ThreadPlace} {quit : Bool} (h : next quit p = .finished) :
    p = .destroyLoop ∨ p = .finished := by
  cases p <;> cases quit <;> simp_all [next]

theorem TornDown.thread {s : EventLoopThread φ} (hs : s.TornDown) (ha : s.OutOfTheWay .thread)
    (hplaced : s.threadNext.Placed) : s.threadNext.TornDown := by
  obtain ⟨hclear, hdestroy⟩ := ha
  refine ⟨hplaced, ?_, ?_, ?_⟩
  · intro ho
    apply Bool.eq_false_iff.mpr
    intro hcleared
    obtain hp | hp := of_cleared_next hcleared
    · exact hclear hp ho
    · simp [hs.reads ho] at hp
  · intro ho hfinished
    obtain hp | hp := of_next_finished hfinished
    · exact ho.elim (hdestroy hp).1 (hdestroy hp).2
    · exact hs.uses ho hp
  · intro ho
    dsimp only [threadNext]
    obtain hp | hp := hs.done ho
    · exact .inl (by rw [hp]; rfl)
    · exact .inr (by rw [hp]; rfl)

theorem owner_place {s t : EventLoopThread φ} (h : s.ownerStep = .ok t) (ho : s.owner ≠ .start) :
    t.place = s.place := by
  obtain ⟨-, ⟨hstart, -⟩ | ⟨-, ht⟩ | ⟨-, ht⟩ | ht⟩ := owner_cases h
  · exact absurd hstart ho
  · rw [ht]
    rfl
  · rw [ht]
    rfl
  · rw [ht]

theorem of_follows_readLoop {o : OwnerPlace} (h : follows o .readLoop = true) : o = .testLoop := by
  cases o <;> first | rfl | cases h

theorem of_follows_storeQuit {o : OwnerPlace} (h : follows o .storeQuitOfDestructor = true) :
    o = .readLoop := by
  cases o <;> first | rfl | cases h

theorem of_follows_wakeup {o : OwnerPlace} (h : follows o .wakeupOfDestructor = true) :
    o = .storeQuitOfDestructor := by
  cases o <;> first | rfl | cases h

theorem of_follows_destroyed {o : OwnerPlace} (h : follows o .destroyed = true) :
    o = .destroyMembers ∨ o = .destroyed := by
  cases o <;> first | exact .inl rfl | exact .inr rfl | cases h

theorem TornDown.owner {s t : EventLoopThread φ} (hs : s.TornDown) (ha : s.OutOfTheWay .owner)
    (h : s.ownerStep = .ok t) (hplaced : t.Placed) : t.TornDown := by
  have hfollows := (owner_cases h).1
  refine ⟨hplaced, ?_, ?_, ?_⟩
  · intro ht
    rw [ht] at hfollows
    have ho := of_follows_readLoop hfollows
    rw [owner_place h (by rw [ho]; simp)]
    unfold ownerStep at h
    simp only [ho] at h
    cases h
    have hloop : s.loop_ = true := by
      by_contra hloop
      rw [if_neg hloop] at ht
      cases ht
    have hpointer := hs.placed.pointer
    rw [hloop] at hpointer
    simpa using (Bool.and_eq_true_iff.mp hpointer.symm).2
  · rintro (ht | ht)
    · rw [ht] at hfollows
      have ho := of_follows_storeQuit hfollows
      rw [owner_place h (by rw [ho]; simp)]
      intro hp
      have hreads := hs.reads ho
      rw [hp] at hreads
      cases hreads
    · rw [ht] at hfollows
      have ho := of_follows_wakeup hfollows
      rw [owner_place h (by rw [ho]; simp)]
      exact hs.uses (.inl ho)
  · intro ht
    rw [ht] at hfollows
    obtain ho | ho := of_follows_destroyed hfollows
    · rw [owner_place h (by rw [ho]; simp)]
      have hplaces := hs.placed.places
      have hp := ha ho
      rw [ho] at hplaces
      cases hplace : s.place <;> simp_all [meets, cleared]
    · rw [owner_place h (by rw [ho]; simp)]
      exact hs.done ho

theorem TornDown.step {s t : EventLoopThread φ} {a : ThreadStep} (hs : s.TornDown)
    (ha : s.OutOfTheWay a) (h : step s a = .ok t) : t.TornDown := by
  have hplaced := hs.placed.step h
  cases a with
  | thread =>
    cases thread_eq h
    exact hs.thread ha hplaced
  | owner => exact hs.owner ha h hplaced
  | callQuit | callDestructor =>
    cases h
    split
    case isTrue hcalls =>
      rw [if_pos hcalls] at hplaced
      exact { placed := hplaced, reads := by simp, uses := by simp, done := by simp }
    case isFalse => exact hs
  | quitInLoop =>
    cases h
    split
    case isTrue hquits =>
      rw [if_pos hquits] at hplaced
      exact { hs with placed := hplaced }
    case isFalse => exact hs

/-- The loop exists while `loop_` points to it, and until the new thread has finished. -/
theorem Placed.hasLoop {s : EventLoopThread φ} (hs : s.Placed) (h : published s.place = true)
    (hp : s.place ≠ .finished) : s.eventLoop.isSome = true := by
  rw [hs.object]
  cases hplace : s.place <;> simp_all [published, hasEventLoop]

theorem TornDown.tearsDown {s : EventLoopThread φ} (hs : s.TornDown) : s.TearsDown := by
  refine ⟨?_, hs.done⟩
  intro hin
  have hplaces := hs.placed.places
  unfold ownerStep
  cases ho : s.owner with
  | readLoop =>
    rw [ho] at hplaces
    have hpointer : s.loop_ = true := by
      rw [hs.placed.pointer, hs.reads ho, show published s.place = true from hplaces]
      rfl
    exact ⟨_, if_pos hpointer⟩
  | storeQuitOfDestructor =>
    rw [ho] at hplaces
    exact ⟨_, if_pos (hs.placed.hasLoop hplaces (hs.uses (.inl ho)))⟩
  | wakeupOfDestructor =>
    rw [ho] at hplaces
    exact ⟨_, if_pos (hs.placed.hasLoop hplaces (hs.uses (.inr ho)))⟩
  | start | waitLoop | returnLoop | idle | storeQuit | wakeup | destroyed =>
    rw [ho] at hin
    cases hin
  | _ => exact ⟨_, rfl⟩

/-- A step that gets in the way leads to a fault of the destructor, or past its end. -/
theorem in_the_way {s : EventLoopThread φ} {a : ThreadStep} (hs : s.Placed)
    (h : ∀ t, EventLoopThread.step s a = .ok t → t.TearsDown) : s.OutOfTheWay a := by
  cases a with
  | thread =>
    refine ⟨?_, ?_⟩
    · intro hp ho
      have hnext := h _ (thread_returns hs (by rw [ho]; simp))
      obtain ⟨t, ht⟩ := hnext.1 (by simp [threadNext, ho, inDestructor])
      simp [threadNext, ownerStep, ho, hp, pointerAfter] at ht
    · intro hp
      constructor <;> intro ho
      all_goals
        have hnext := h _ (thread_returns hs (by rw [ho]; simp))
        obtain ⟨t, ht⟩ := hnext.1 (by simp [threadNext, ho, inDestructor])
        simp [threadNext, ownerStep, ho, hp, eventLoopAfter, onEventLoop] at ht
  | owner =>
    intro ho
    have hnext := h { s with owner := .destroyed } (by simp [EventLoopThread.step, ownerStep, ho])
    obtain hp | hp := hnext.2 rfl
    · simp [show s.place = .finished from hp]
    · simp [show s.place = .notStarted from hp]
  | _ => trivial

/-- In the runs in which the new thread keeps out of the destructor's way, and in no others, the
destructor does not use a null pointer or a destroyed loop, and leaves no thread behind. -/
theorem teardown_iff {steps : List ThreadStep} :
    (∀ before after, steps = before ++ after → ∀ t : EventLoopThread φ,
      run step new before = .ok t → t.TearsDown) ↔
    Along step OutOfTheWay (new : EventLoopThread φ) steps :=
  along_iff_reached (fun _ _ _ hs ha h => TornDown.step hs ha h) (fun _ hs => hs.tearsDown)
    (fun _ _ hs h => in_the_way hs.placed h) tornDown_new

/-- The owner calls `startLoop`, `quit` and the destructor, which has just found `loop_` set when the
new thread, on its way out, clears it. -/
def clearBetweenReads : List ThreadStep :=
  [.owner] ++ List.replicate 10 .thread ++ [.owner, .owner, .callQuit, .owner, .owner] ++
    List.replicate 5 .thread ++ [.callDestructor, .owner, .owner, .thread]

theorem destructor_reads_null :
    ∃ t : EventLoopThread Unit, run step new clearBetweenReads = .ok t ∧ t.owner = .readLoop ∧
      step t .owner = .error .nullPointer :=
  ⟨_, rfl, rfl, rfl⟩

end EventLoopThread

end Mymuduo

import Mymuduo.Net.TimerQueue

/-! The invariant of the timer queue.  Every timer in memory is in one place: its `addTimerInLoop`
is queued, or it is in `timers_` under its expiration, or it is in the batch of expired timers that
is being run.  `activeTimers_` is never filled.  A step keeps the invariant and uses no deleted
timer. -/

namespace Mymuduo.TimerQueue

open Lib

/-! ### Entries -/

@[simp] theorem Entry.mk_timer (w : Timestamp) (p : Nat) : (Entry.mk w p).timer = p := rfl

@[simp] theorem Entry.mk_when (w : Timestamp) (p : Nat) : (Entry.mk w p).when = w := rfl

theorem Entry.ext {e e' : Entry} (hw : e.when = e'.when) (hp : e.timer = e'.timer) : e = e' :=
  ofLex.injective (Prod.ext hw hp)

theorem Entry.when_le {e e' : Entry} (h : e ≤ e') : e.when ≤ e'.when := by
  rcases Prod.Lex.le_iff.mp h with hlt | ⟨heq, -⟩
  · exact le_of_lt hlt
  · exact le_of_eq heq

/-- An entry is due at `now` when its time is not after it. -/
theorem Entry.lt_sentry {e : Entry} {now : Timestamp} (h : e.timer < UINTPTR_MAX) :
    e < Entry.mk now UINTPTR_MAX ↔ e.when ≤ now := by
  rw [Prod.Lex.lt_iff]
  constructor
  · rintro (hlt | ⟨heq, -⟩)
    · exact le_of_lt hlt
    · exact le_of_eq heq
  · intro hle
    rcases lt_or_eq_of_le hle with hlt | heq
    · exact .inl hlt
    · exact .inr ⟨heq, h⟩

/-! ### The invariant -/

/-- The places of the timers, for a batch of expired ones that are in no set. -/
structure Placed (q : TimerQueue) (expired : List Entry) : Prop where
  address : ∀ p t, q.heap p = some t → p < UINTPTR_MAX
  sequence : ∀ p t, q.heap p = some t → t.sequence ≤ q.numCreated
  place : ∀ p t, q.heap p = some t →
    p ∈ q.queued ∨ Entry.mk t.expiration p ∈ q.timers ∨ ∃ e ∈ expired, e.timer = p
  queued : ∀ p ∈ q.queued, ∃ t, q.heap p = some t
  queued_nodup : q.queued.Nodup
  timers : ∀ e ∈ q.timers, e.timer ∉ q.queued ∧
    ∃ t, q.heap e.timer = some t ∧ t.expiration = e.when
  batch : ∀ e ∈ expired, e.timer ∉ q.queued ∧ (∀ e' ∈ q.timers, e'.timer ≠ e.timer) ∧
    ∃ t, q.heap e.timer = some t
  batch_nodup : (expired.map Entry.timer).Nodup
  active : ∀ a, a ∉ q.activeTimers
  inserted : ∀ id ∈ q.inserted, id.sequence ≤ q.numCreated ∧
    ∀ t, q.heap id.timer = some t → t.sequence = id.sequence → id.timer ∉ q.queued

/-- The batch of the `handleRead` in progress. -/
def expired (q : TimerQueue) : List Entry :=
  match q.batch with
  | some b => b.expired
  | none => []

/-- The invariant between the steps. -/
structure Sound (q : TimerQueue) : Prop where
  placed : Placed q q.expired
  todo : ∀ b, q.batch = some b → b.todo <:+ b.expired
  calling : q.callingExpiredTimers = q.batch.isSome

theorem sound_new : Sound new where
  placed := by constructor <;> simp [new, expired]
  todo := by simp [new]
  calling := rfl

/-! ### What the functions do -/

section

variable {q : TimerQueue} {expired : List Entry} {p : Nat} {t : Timer}

theorem deref_eq_ok (h : q.heap p = some t) : q.deref p = .ok t := by
  rw [deref, h]

theorem delete_spec (h : q.heap p = some t) :
    q.delete p = .ok { q with heap := Function.update q.heap p none } := by
  rw [delete, deref_eq_ok h]
  rfl

theorem insert_spec (h : q.heap p = some t) :
    ∃ earliestChanged, q.insert p =
      .ok ({ q with timers := q.timers.insert (.mk t.expiration p) }, earliestChanged) := by
  rw [insert, deref_eq_ok h]
  exact ⟨_, rfl⟩

theorem addTimerInLoop_spec (clock : Timestamp) (h : q.heap p = some t) :
    ∃ timerfd, q.addTimerInLoop p clock = .ok { q with
      timers := q.timers.insert (.mk t.expiration p)
      timerfd := timerfd
      inserted := ⟨p, t.sequence⟩ :: q.inserted } := by
  obtain ⟨earliestChanged, hinsert⟩ := insert_spec h
  have hderef : deref { q with timers := q.timers.insert (.mk t.expiration p) } p = .ok t :=
    deref_eq_ok h
  rw [addTimerInLoop, hinsert, ok_bind]
  dsimp only
  rw [hderef, ok_bind]
  cases earliestChanged with
  | true => exact ⟨_, rfl⟩
  | false => exact ⟨_, rfl⟩

/-- No cancellation finds its timer; while callbacks are run it is noted. -/
theorem cancelInLoop_spec (hactive : ∀ a, a ∉ q.activeTimers) (id : TimerId) :
    q.cancelInLoop id = .ok (if q.callingExpiredTimers then
      { q with cancelingTimers := q.cancelingTimers.insert (toLex (id.timer, id.sequence)) }
      else q) := by
  rw [cancelInLoop, if_neg (hactive _)]
  split <;> rfl

/-- The loop of `getExpired` finds nothing to erase. -/
theorem eraseActive_loop (hactive : ∀ a, a ∉ q.activeTimers) {l : List Entry}
    (hlive : ∀ e ∈ l, ∃ t, q.heap e.timer = some t) : run eraseActive q l = .ok q := by
  induction l with
  | nil => rfl
  | cons e l ih =>
    obtain ⟨t, ht⟩ := hlive e List.mem_cons_self
    have herase : q.eraseActive e = .ok q := by
      rw [eraseActive, deref_eq_ok ht, ok_bind, OrderedSet.erase_of_not_mem (hactive _)]
      rfl
    rw [run_cons, herase, ok_bind]
    exact ih fun e' he' => hlive e' (List.mem_cons_of_mem e he')

theorem getExpired_spec (hactive : ∀ a, a ∉ q.activeTimers)
    (hlive : ∀ e ∈ q.timers, ∃ t, q.heap e.timer = some t) (now : Timestamp) :
    q.getExpired now =
      .ok ({ q with timers := q.timers.eraseBelow (.mk now UINTPTR_MAX) },
        q.timers.below (.mk now UINTPTR_MAX)) := by
  have hloop := eraseActive_loop
    (q := { q with timers := q.timers.eraseBelow (.mk now UINTPTR_MAX) })
    (l := q.timers.below (.mk now UINTPTR_MAX)) hactive
    fun e he => hlive e (OrderedSet.mem_below.mp he).1
  rw [getExpired, hloop]
  rfl

/-- A timer of the batch is put back if it repeats and nobody has cancelled it, and is deleted
otherwise. -/
theorem resetOne_spec (now : Timestamp) {it : Entry} (h : q.heap it.timer = some t) :
    ((t.isRepeat = true ∧ toLex (it.timer, t.sequence) ∉ q.cancelingTimers) ∧
      resetOne now q it = .ok { q with
        heap := Function.update q.heap it.timer (some (t.restart now))
        timers := q.timers.insert (.mk (t.restart now).expiration it.timer) }) ∨
    (¬(t.isRepeat = true ∧ toLex (it.timer, t.sequence) ∉ q.cancelingTimers) ∧
      resetOne now q it = .ok { q with heap := Function.update q.heap it.timer none }) := by
  rw [resetOne, deref_eq_ok h, ok_bind]
  by_cases hback : t.isRepeat = true ∧ toLex (it.timer, t.sequence) ∉ q.cancelingTimers
  · refine .inl ⟨hback, ?_⟩
    have hself : Function.update q.heap it.timer (some (t.restart now)) it.timer =
        some (t.restart now) := Function.update_self ..
    obtain ⟨earliestChanged, hinsert⟩ := insert_spec
      (q := { q with heap := Function.update q.heap it.timer (some (t.restart now)) }) hself
    rw [if_pos (by simpa using hback)]
    dsimp only
    rw [hinsert]
    rfl
  · refine .inr ⟨hback, ?_⟩
    rw [if_neg (by simpa using hback), delete_spec h]

/-! ### What the functions keep -/

theorem update_eq_some {α β : Type} [DecidableEq α] {f : α → Option β} {a a' : α} {v : Option β}
    {b : β} :
    Function.update f a v a' = some b ↔ (a' = a ∧ v = some b) ∨ (a' ≠ a ∧ f a' = some b) := by
  rw [Function.update_apply]
  split
  · rename_i h
    simp [h]
  · rename_i h
    simp [h]

theorem Placed.frame {q' : TimerQueue} (h : Placed q expired) (hheap : q'.heap = q.heap)
    (hcreated : q'.numCreated = q.numCreated) (hqueued : q'.queued = q.queued)
    (htimers : q'.timers = q.timers) (hactive : q'.activeTimers = q.activeTimers)
    (hinserted : q'.inserted = q.inserted) : Placed q' expired := by
  constructor
  · exact hheap ▸ h.address
  · exact hheap ▸ hcreated ▸ h.sequence
  · exact hheap ▸ hqueued ▸ htimers ▸ h.place
  · exact hheap ▸ hqueued ▸ h.queued
  · exact hqueued ▸ h.queued_nodup
  · exact hheap ▸ hqueued ▸ htimers ▸ h.timers
  · exact hheap ▸ hqueued ▸ htimers ▸ h.batch
  · exact h.batch_nodup
  · exact hactive ▸ h.active
  · exact hheap ▸ hcreated ▸ hqueued ▸ hinserted ▸ h.inserted

theorem Placed.addTimer (h : Placed q expired) (hfree : q.heap p = none) (hp : p < UINTPTR_MAX)
    (when : Timestamp) (interval : Option Nat) : Placed (q.addTimer p when interval) expired where
  address p' t' ht := by
    rcases update_eq_some.mp ht with ⟨rfl, -⟩ | ⟨-, ht⟩
    · exact hp
    · exact h.address p' t' ht
  sequence p' t' ht := by
    rcases update_eq_some.mp ht with ⟨-, ht⟩ | ⟨-, ht⟩
    · cases ht
      exact le_refl _
    · exact Nat.le_succ_of_le (h.sequence p' t' ht)
  place p' t' ht := by
    rcases update_eq_some.mp ht with ⟨rfl, -⟩ | ⟨-, ht⟩
    · exact .inl List.mem_cons_self
    · rcases h.place p' t' ht with hq | hrest
      · exact .inl (List.mem_cons_of_mem p hq)
      · exact .inr hrest
  queued p' hp' := by
    rcases List.mem_cons.mp hp' with rfl | hq
    · exact ⟨_, Function.update_self ..⟩
    · obtain ⟨t', ht⟩ := h.queued p' hq
      exact ⟨t', update_eq_some.mpr (.inr ⟨fun heq => by simp [heq, hfree] at ht, ht⟩)⟩
  queued_nodup := by
    refine List.nodup_cons.mpr ⟨?_, h.queued_nodup⟩
    intro hq
    obtain ⟨t', ht⟩ := h.queued p hq
    simp [hfree] at ht
  timers e he := by
    obtain ⟨hq, t', ht, hexp⟩ := h.timers e he
    have hne : e.timer ≠ p := fun heq => by simp [heq, hfree] at ht
    exact ⟨List.not_mem_cons_of_ne_of_not_mem hne hq, t', update_eq_some.mpr (.inr ⟨hne, ht⟩), hexp⟩
  batch e he := by
    obtain ⟨hq, htimers, t', ht⟩ := h.batch e he
    have hne : e.timer ≠ p := fun heq => by simp [heq, hfree] at ht
    exact ⟨List.not_mem_cons_of_ne_of_not_mem hne hq, htimers, t',
      update_eq_some.mpr (.inr ⟨hne, ht⟩)⟩
  batch_nodup := h.batch_nodup
  active := h.active
  inserted id hid := by
    obtain ⟨hle, hnot⟩ := h.inserted id hid
    refine ⟨Nat.le_succ_of_le hle, ?_⟩
    intro t' ht hseq
    rcases update_eq_some.mp ht with ⟨-, ht⟩ | ⟨hne, ht⟩
    · cases ht
      change q.numCreated + 1 = id.sequence at hseq
      omega
    · exact List.not_mem_cons_of_ne_of_not_mem hne (hnot t' ht hseq)

theorem Placed.addTimerInLoop (h : Placed q expired) (hp : p ∈ q.queued) (ht : q.heap p = some t)
    (timerfd : Option Timestamp) :
    Placed { q with
      queued := q.queued.erase p
      timers := q.timers.insert (.mk t.expiration p)
      timerfd := timerfd
      inserted := ⟨p, t.sequence⟩ :: q.inserted } expired where
  address := h.address
  sequence := h.sequence
  place p' t' ht' := by
    by_cases hpp : p' = p
    · subst hpp
      cases ht.symm.trans ht'
      exact .inr (.inl (OrderedSet.mem_insert.mpr (.inl rfl)))
    · rcases h.place p' t' ht' with hq | htimers | hbatch
      · exact .inl ((List.mem_erase_of_ne hpp).mpr hq)
      · exact .inr (.inl (OrderedSet.mem_insert.mpr (.inr htimers)))
      · exact .inr (.inr hbatch)
  queued p' hp' := h.queued p' (List.mem_of_mem_erase hp')
  queued_nodup := h.queued_nodup.erase p
  timers e he := by
    rcases OrderedSet.mem_insert.mp he with rfl | he
    · exact ⟨h.queued_nodup.not_mem_erase, t, ht, rfl⟩
    · obtain ⟨hq, hlive⟩ := h.timers e he
      exact ⟨fun hmem => hq (List.mem_of_mem_erase hmem), hlive⟩
  batch e he := by
    obtain ⟨hq, htimers, hlive⟩ := h.batch e he
    refine ⟨fun hmem => hq (List.mem_of_mem_erase hmem), ?_, hlive⟩
    intro e' he'
    rcases OrderedSet.mem_insert.mp he' with rfl | he'
    · exact fun heq => hq (heq ▸ hp)
    · exact htimers e' he'
  batch_nodup := h.batch_nodup
  active := h.active
  inserted id hid := by
    rcases List.mem_cons.mp hid with rfl | hid
    · exact ⟨h.sequence p t ht, fun _ _ _ => h.queued_nodup.not_mem_erase⟩
    · obtain ⟨hle, hnot⟩ := h.inserted id hid
      exact ⟨hle, fun t' ht' hseq hmem => hnot t' ht' hseq (List.mem_of_mem_erase hmem)⟩

/-- The entries below the sentry are those that are due. -/
theorem Placed.due_iff (h : Placed q expired) {e : Entry} (he : e ∈ q.timers) (now : Timestamp) :
    e < .mk now UINTPTR_MAX ↔ e.when ≤ now := by
  obtain ⟨-, t, ht, -⟩ := h.timers e he
  exact Entry.lt_sentry (h.address _ t ht)

theorem Placed.timers_inj (h : Placed q expired) {e e' : Entry} (he : e ∈ q.timers)
    (he' : e' ∈ q.timers) (heq : e.timer = e'.timer) : e = e' := by
  obtain ⟨-, t, ht, hexp⟩ := h.timers e he
  obtain ⟨-, t', ht', hexp'⟩ := h.timers e' he'
  rw [heq, ht'] at ht
  cases ht
  exact Entry.ext (hexp.symm.trans hexp') heq

theorem Placed.getExpired (h : Placed q []) (now : Timestamp) :
    Placed { q with timers := q.timers.eraseBelow (.mk now UINTPTR_MAX) }
      (q.timers.below (.mk now UINTPTR_MAX)) where
  address := h.address
  sequence := h.sequence
  place p t ht := by
    rcases h.place p t ht with hq | htimers | ⟨e, he, -⟩
    · exact .inl hq
    · by_cases hdue : Entry.mk t.expiration p < .mk now UINTPTR_MAX
      · exact .inr (.inr ⟨_, OrderedSet.mem_below.mpr ⟨htimers, hdue⟩, rfl⟩)
      · exact .inr (.inl (OrderedSet.mem_eraseBelow.mpr ⟨htimers, le_of_not_gt hdue⟩))
    · exact absurd he List.not_mem_nil
  queued := h.queued
  queued_nodup := h.queued_nodup
  timers e he := h.timers e (OrderedSet.mem_eraseBelow.mp he).1
  batch e he := by
    obtain ⟨hmem, hdue⟩ := OrderedSet.mem_below.mp he
    obtain ⟨hq, t, ht, -⟩ := h.timers e hmem
    refine ⟨hq, ?_, t, ht⟩
    intro e' he' heq
    obtain ⟨hmem', hlater⟩ := OrderedSet.mem_eraseBelow.mp he'
    rw [h.timers_inj hmem' hmem heq] at hlater
    exact absurd hdue (not_lt_of_ge hlater)
  batch_nodup := by
    refine (OrderedSet.below_nodup _ _).map_on ?_
    intro e he e' he' heq
    exact h.timers_inj (OrderedSet.mem_below.mp he).1 (OrderedSet.mem_below.mp he').1 heq
  active := h.active
  inserted := h.inserted

theorem Placed.batch_other {it : Entry} (h : Placed q (it :: expired)) {e : Entry}
    (he : e ∈ expired) : e.timer ≠ it.timer := by
  intro heq
  have hnot := (List.nodup_cons.mp (List.map_cons ▸ h.batch_nodup)).1
  exact hnot (heq ▸ List.mem_map_of_mem he)

theorem Placed.place_of_ne {it : Entry} (h : Placed q (it :: expired)) (hne : p ≠ it.timer)
    (ht : q.heap p = some t) :
    p ∈ q.queued ∨ Entry.mk t.expiration p ∈ q.timers ∨ ∃ e ∈ expired, e.timer = p := by
  rcases h.place p t ht with hmem | hmem | ⟨e, he, rfl⟩
  · exact .inl hmem
  · exact .inr (.inl hmem)
  · rcases List.mem_cons.mp he with rfl | he
    · exact absurd rfl hne
    · exact .inr (.inr ⟨e, he, rfl⟩)

/-- Whatever becomes of the first timer of a batch, the queued ones stay in memory. -/
theorem Placed.queued_update {it : Entry} (h : Placed q (it :: expired)) (v : Option Timer) :
    ∀ p ∈ q.queued, ∃ t, Function.update q.heap it.timer v p = some t := by
  intro p hp
  obtain ⟨t, ht⟩ := h.queued p hp
  have hne : p ≠ it.timer := fun heq => (h.batch it List.mem_cons_self).1 (heq ▸ hp)
  exact ⟨t, update_eq_some.mpr (.inr ⟨hne, ht⟩)⟩

theorem Placed.putBack {it : Entry} (h : Placed q (it :: expired)) (ht : q.heap it.timer = some t)
    {t' : Timer} (hsequence : t'.sequence = t.sequence) :
    Placed { q with
      heap := Function.update q.heap it.timer (some t')
      timers := q.timers.insert (.mk t'.expiration it.timer) } expired where
  address p u hu := by
    rcases update_eq_some.mp hu with ⟨rfl, -⟩ | ⟨-, hu⟩
    · exact h.address _ t ht
    · exact h.address p u hu
  sequence p u hu := by
    rcases update_eq_some.mp hu with ⟨-, hu⟩ | ⟨-, hu⟩
    · cases hu
      rw [hsequence]
      exact h.sequence _ t ht
    · exact h.sequence p u hu
  place p u hu := by
    rcases update_eq_some.mp hu with ⟨rfl, hsome⟩ | ⟨hne, hu⟩
    · cases hsome
      exact .inr (.inl (OrderedSet.mem_insert.mpr (.inl rfl)))
    · rcases h.place_of_ne hne hu with hmem | hmem | hmem
      · exact .inl hmem
      · exact .inr (.inl (OrderedSet.mem_insert.mpr (.inr hmem)))
      · exact .inr (.inr hmem)
  queued := h.queued_update (some t')
  queued_nodup := h.queued_nodup
  timers e he := by
    obtain ⟨hq, htimers, -⟩ := h.batch it List.mem_cons_self
    rcases OrderedSet.mem_insert.mp he with rfl | he
    · exact ⟨hq, t', Function.update_self .., rfl⟩
    · obtain ⟨hq', u, hu, hexp⟩ := h.timers e he
      exact ⟨hq', u, update_eq_some.mpr (.inr ⟨htimers e he, hu⟩), hexp⟩
  batch e he := by
    obtain ⟨hq, htimers, u, hu⟩ := h.batch e (List.mem_cons_of_mem it he)
    have hne := h.batch_other he
    refine ⟨hq, ?_, u, update_eq_some.mpr (.inr ⟨hne, hu⟩)⟩
    intro e' he'
    rcases OrderedSet.mem_insert.mp he' with rfl | he'
    · exact hne.symm
    · exact htimers e' he'
  batch_nodup := (List.nodup_cons.mp (List.map_cons ▸ h.batch_nodup)).2
  active := h.active
  inserted id hid := by
    refine ⟨(h.inserted id hid).1, ?_⟩
    intro u hu hseq
    rcases update_eq_some.mp hu with ⟨heq, -⟩ | ⟨-, hu⟩
    · exact heq ▸ (h.batch it List.mem_cons_self).1
    · exact (h.inserted id hid).2 u hu hseq

theorem Placed.deleted {it : Entry} (h : Placed q (it :: expired)) :
    Placed { q with heap := Function.update q.heap it.timer none } expired := by
  have hlive : ∀ {p t}, Function.update q.heap it.timer none p = some t →
      p ≠ it.timer ∧ q.heap p = some t := by
    intro p t ht
    rcases update_eq_some.mp ht with ⟨-, ht⟩ | ht
    · cases ht
    · exact ht
  constructor
  · exact fun p t ht => h.address p t (hlive ht).2
  · exact fun p t ht => h.sequence p t (hlive ht).2
  · exact fun p t ht => h.place_of_ne (hlive ht).1 (hlive ht).2
  · exact h.queued_update none
  · exact h.queued_nodup
  · intro e he
    obtain ⟨hq, t, ht, hexp⟩ := h.timers e he
    have hne := (h.batch it List.mem_cons_self).2.1 e he
    exact ⟨hq, t, update_eq_some.mpr (.inr ⟨hne, ht⟩), hexp⟩
  · intro e he
    obtain ⟨hq, htimers, t, ht⟩ := h.batch e (List.mem_cons_of_mem it he)
    exact ⟨hq, htimers, t, update_eq_some.mpr (.inr ⟨h.batch_other he, ht⟩)⟩
  · exact (List.nodup_cons.mp (List.map_cons ▸ h.batch_nodup)).2
  · exact h.active
  · intro id hid
    refine ⟨(h.inserted id hid).1, ?_⟩
    intro t ht hseq
    exact (h.inserted id hid).2 t (hlive ht).2 hseq

/-- What is done with one timer of a batch keeps the places of the others. -/
theorem Placed.resetOne {it : Entry} (h : Placed q (it :: expired)) (now : Timestamp) :
    ∃ q', resetOne now q it = .ok q' ∧ Placed q' expired := by
  obtain ⟨-, -, t, ht⟩ := h.batch it List.mem_cons_self
  rcases resetOne_spec now ht with ⟨-, hback⟩ | ⟨-, hdelete⟩
  · exact ⟨_, hback, h.putBack ht (Timer.restart_sequence t now)⟩
  · exact ⟨_, hdelete, h.deleted⟩

/-- The loop of `reset` leaves every timer of the batch in `timers_` or deleted. -/
theorem Placed.resetLoop (h : Placed q expired) (now : Timestamp) :
    ∃ q', run (TimerQueue.resetOne now) q expired = .ok q' ∧ Placed q' [] := by
  induction expired generalizing q with
  | nil => exact ⟨q, rfl, h⟩
  | cons it expired ih =>
    obtain ⟨q₁, hone, h₁⟩ := h.resetOne now
    obtain ⟨q', hloop, h'⟩ := ih h₁
    exact ⟨q', run_cons_ok.mpr ⟨q₁, hone, hloop⟩, h'⟩

theorem resetOne_cases {now : Timestamp} {it : Entry} {q' : TimerQueue}
    (h : resetOne now q it = .ok q') : ∃ t, q.heap it.timer = some t ∧
      (((t.isRepeat = true ∧ toLex (it.timer, t.sequence) ∉ q.cancelingTimers) ∧
        q' = { q with
          heap := Function.update q.heap it.timer (some (t.restart now))
          timers := q.timers.insert (.mk (t.restart now).expiration it.timer) }) ∨
      (¬(t.isRepeat = true ∧ toLex (it.timer, t.sequence) ∉ q.cancelingTimers) ∧
        q' = { q with heap := Function.update q.heap it.timer none })) := by
  cases ht : q.heap it.timer with
  | none =>
    rw [resetOne, deref, ht] at h
    cases h
  | some t =>
    refine ⟨t, rfl, ?_⟩
    rcases resetOne_spec now ht with ⟨hback, hspec⟩ | ⟨hback, hspec⟩
    · exact .inl ⟨hback, Except.ok.inj (h.symm.trans hspec)⟩
    · exact .inr ⟨hback, Except.ok.inj (h.symm.trans hspec)⟩

theorem resetLoop_frame {now : Timestamp} {q' : TimerQueue}
    (h : run (resetOne now) q expired = .ok q') :
    q' = { q with heap := q'.heap, timers := q'.timers } := by
  refine run_invariant (I := fun q' => q' = { q with heap := q'.heap, timers := q'.timers })
    ?_ rfl h
  intro q₁ it q₂ h₁ h₂
  obtain ⟨t, -, ⟨-, rfl⟩ | ⟨-, rfl⟩⟩ := resetOne_cases h₂ <;> rw [h₁]

theorem reset_spec (h : Placed q expired) (now clock : Timestamp) :
    ∃ q' timerfd, run (resetOne now) q expired = .ok q' ∧ Placed q' [] ∧
      q.reset expired now clock = .ok { q' with timerfd := timerfd } := by
  obtain ⟨q', hloop, hplaced⟩ := h.resetLoop now
  rw [reset, hloop, ok_bind]
  cases hfirst : q'.timers.first with
  | none => exact ⟨q', q'.timerfd, rfl, hplaced, rfl⟩
  | some it =>
    obtain ⟨-, t, ht, -⟩ := hplaced.timers it (OrderedSet.first_spec hfirst).1
    dsimp only
    rw [deref_eq_ok ht, ok_bind]
    by_cases hvalid : 0 < t.expiration
    · exact ⟨q', _, rfl, hplaced, by rw [if_pos hvalid]; rfl⟩
    · exact ⟨q', q'.timerfd, rfl, hplaced, by rw [if_neg hvalid]; rfl⟩

end

/-! ### The steps -/

section

variable {q : TimerQueue}

theorem expired_eq {b : Batch} (h : q.batch = some b) : q.expired = b.expired := by
  rw [expired, h]

theorem expired_eq_nil (h : q.batch = none) : q.expired = [] := by
  rw [expired, h]

theorem Sound.handleRead (h : Sound q) (now : Timestamp) :
    ∃ timerfd, q.handleRead now = .ok { q with
      timers := q.timers.eraseBelow (.mk now UINTPTR_MAX)
      callingExpiredTimers := true
      cancelingTimers := .empty
      timerfd := timerfd
      batch := some ⟨now, q.timers.below (.mk now UINTPTR_MAX), q.timers.below (.mk now UINTPTR_MAX)⟩
      reads := q.reads + 1 } := by
  have hlive : ∀ e ∈ q.timers, ∃ t, q.heap e.timer = some t := fun e he =>
    let ⟨_, t, ht, _⟩ := h.placed.timers e he
    ⟨t, ht⟩
  rw [TimerQueue.handleRead, getExpired_spec (q := q.readTimerfd now) h.placed.active hlive]
  exact ⟨_, rfl⟩

/-- The timer that is called next is in the batch, and in memory. -/
theorem Sound.next (h : Sound q) {now : Timestamp} {it : Entry} {expired todo : List Entry}
    (hbatch : q.batch = some ⟨now, expired, it :: todo⟩) :
    it ∈ q.expired ∧ ∃ t, q.heap it.timer = some t := by
  have hmem : it ∈ q.expired := by
    rw [expired_eq hbatch]
    exact (h.todo _ hbatch).subset List.mem_cons_self
  exact ⟨hmem, (h.placed.batch it hmem).2.2⟩

theorem Sound.runNext (h : Sound q) {now : Timestamp} {it : Entry} {expired todo : List Entry}
    (hbatch : q.batch = some ⟨now, expired, it :: todo⟩) :
    q.runNext = .ok { q with batch := some ⟨now, expired, todo⟩ } := by
  obtain ⟨-, t, ht⟩ := h.next hbatch
  rw [TimerQueue.runNext, hbatch]
  dsimp only
  rw [deref_eq_ok ht]
  rfl

theorem Sound.finishRead (h : Sound q) {now : Timestamp} {expired : List Entry}
    (hbatch : q.batch = some ⟨now, expired, []⟩) (clock : Timestamp) :
    ∃ q' timerfd, run (resetOne now) { q with callingExpiredTimers := false, batch := none }
        expired = .ok q' ∧ Placed q' [] ∧ q.finishRead clock = .ok { q' with timerfd := timerfd } := by
  have hplaced := h.placed
  rw [expired_eq hbatch] at hplaced
  have hplaced' : Placed { q with callingExpiredTimers := false, batch := none } expired :=
    hplaced.frame rfl rfl rfl rfl rfl rfl
  rw [TimerQueue.finishRead, hbatch]
  exact reset_spec hplaced' now clock

/-- What a step does. -/
inductive StepCase (q : TimerQueue) : Step → TimerQueue → Prop
  | unchanged (a : Step) (hread : ∀ now, a = .handleRead now → q.batch ≠ none)
      (hrun : a = .runNext → ∀ b, q.batch = some b → b.todo = []) : StepCase q a q
  | addTimer (p : Nat) (when : Timestamp) (interval : Option Nat) (hfree : q.heap p = none)
      (hp : p < UINTPTR_MAX) : StepCase q (.addTimer p when interval) (q.addTimer p when interval)
  | addTimerInLoop (p : Nat) (clock : Timestamp) (t : Timer) (timerfd : Option Timestamp)
      (hp : p ∈ q.queued) (ht : q.heap p = some t) : StepCase q (.addTimerInLoop p clock) { q with
        queued := q.queued.erase p
        timers := q.timers.insert (.mk t.expiration p)
        timerfd := timerfd
        inserted := ⟨p, t.sequence⟩ :: q.inserted }
  | cancelInLoop (id : TimerId) (hcalling : q.callingExpiredTimers = true) :
      StepCase q (.cancelInLoop id) { q with
        cancelingTimers := q.cancelingTimers.insert (toLex (id.timer, id.sequence)) }
  | handleRead (now : Timestamp) (timerfd : Option Timestamp) (hidle : q.batch = none) :
      StepCase q (.handleRead now) { q with
        timers := q.timers.eraseBelow (.mk now UINTPTR_MAX)
        callingExpiredTimers := true
        cancelingTimers := .empty
        timerfd := timerfd
        batch := some
          ⟨now, q.timers.below (.mk now UINTPTR_MAX), q.timers.below (.mk now UINTPTR_MAX)⟩
        reads := q.reads + 1 }
  | runNext (now : Timestamp) (expired : List Entry) (it : Entry) (todo : List Entry)
      (hbatch : q.batch = some ⟨now, expired, it :: todo⟩) :
      StepCase q .runNext { q with batch := some ⟨now, expired, todo⟩ }
  | finishRead (clock now : Timestamp) (expired : List Entry) (q' : TimerQueue)
      (timerfd : Option Timestamp) (hbatch : q.batch = some ⟨now, expired, []⟩)
      (hloop : run (resetOne now) { q with callingExpiredTimers := false, batch := none } expired =
        .ok q')
      (hplaced : Placed q' []) : StepCase q (.finishRead clock) { q' with timerfd := timerfd }

theorem Sound.step_spec (h : Sound q) (a : Step) : ∃ q', step q a = .ok q' ∧ StepCase q a q' := by
  cases a with
  | addTimer p when interval =>
    by_cases hnew : q.heap p = none ∧ p < UINTPTR_MAX
    · exact ⟨_, by rw [step, if_pos hnew], .addTimer p when interval hnew.1 hnew.2⟩
    · exact ⟨q, by rw [step, if_neg hnew], .unchanged _ (by simp) (by simp)⟩
  | addTimerInLoop p clock =>
    by_cases hp : p ∈ q.queued
    · obtain ⟨t, ht⟩ := h.placed.queued p hp
      obtain ⟨timerfd, hspec⟩ := addTimerInLoop_spec (q := { q with queued := q.queued.erase p })
        clock ht
      exact ⟨_, by rw [step, if_pos hp, hspec], .addTimerInLoop p clock t timerfd hp ht⟩
    · exact ⟨q, by rw [step, if_neg hp], .unchanged _ (by simp) (by simp)⟩
  | cancelInLoop id =>
    refine ⟨_, cancelInLoop_spec h.placed.active id, ?_⟩
    split
    · rename_i hcalling
      exact .cancelInLoop id hcalling
    · exact .unchanged _ (by simp) (by simp)
  | handleRead now =>
    by_cases hidle : q.batch = none
    · obtain ⟨timerfd, hspec⟩ := h.handleRead now
      exact ⟨_, by rw [step, if_pos hidle, hspec], .handleRead now timerfd hidle⟩
    · exact ⟨q, by rw [step, if_neg hidle], .unchanged _ (fun _ _ => hidle) (by simp)⟩
  | runNext =>
    rcases hbatch : q.batch with _ | ⟨now, expired, _ | ⟨it, todo⟩⟩
    · exact ⟨q, by rw [step, TimerQueue.runNext, hbatch], .unchanged _ (by simp) (by simp [hbatch])⟩
    · exact ⟨q, by rw [step, TimerQueue.runNext, hbatch], .unchanged _ (by simp) (by simp [hbatch])⟩
    · exact ⟨_, h.runNext hbatch, .runNext now expired it todo hbatch⟩
  | finishRead clock =>
    rcases hbatch : q.batch with _ | ⟨now, expired, _ | ⟨it, todo⟩⟩
    · exact ⟨q, by rw [step, TimerQueue.finishRead, hbatch], .unchanged _ (by simp) (by simp)⟩
    · obtain ⟨q', timerfd, hloop, hplaced, hspec⟩ := h.finishRead hbatch clock
      exact ⟨_, hspec, .finishRead clock now expired q' timerfd hbatch hloop hplaced⟩
    · exact ⟨q, by rw [step, TimerQueue.finishRead, hbatch], .unchanged _ (by simp) (by simp)⟩

theorem StepCase.sound {a : Step} {q' : TimerQueue} (hcase : StepCase q a q') (h : Sound q) :
    Sound q' := by
  have hplaced := h.placed
  cases hcase with
  | unchanged => exact h
  | addTimer p when interval hfree hp =>
    exact ⟨hplaced.addTimer hfree hp when interval, h.todo, h.calling⟩
  | addTimerInLoop p clock t timerfd hp ht =>
    exact ⟨hplaced.addTimerInLoop hp ht timerfd, h.todo, h.calling⟩
  | cancelInLoop id hcalling => exact ⟨hplaced.frame rfl rfl rfl rfl rfl rfl, h.todo, h.calling⟩
  | handleRead now timerfd hidle =>
    rw [expired_eq_nil hidle] at hplaced
    refine ⟨(hplaced.getExpired now).frame rfl rfl rfl rfl rfl rfl, ?_, rfl⟩
    intro b hb
    cases hb
    exact List.suffix_refl _
  | runNext now expired it todo hbatch =>
    rw [expired_eq hbatch] at hplaced
    refine ⟨hplaced.frame rfl rfl rfl rfl rfl rfl, ?_, ?_⟩
    · intro b hb
      cases hb
      exact (List.suffix_cons it todo).trans (h.todo _ hbatch)
    · rw [h.calling, hbatch]
      rfl
  | finishRead clock now expired q' timerfd hbatch hloop hplaced' =>
    have hframe := resetLoop_frame hloop
    have hidle : q'.batch = none := by rw [hframe]
    have hcalling : q'.callingExpiredTimers = false := by rw [hframe]
    refine ⟨?_, ?_, ?_⟩
    · rw [expired_eq_nil (q := { q' with timerfd := timerfd }) hidle]
      exact hplaced'.frame rfl rfl rfl rfl rfl rfl
    · intro b hb
      change q'.batch = some b at hb
      rw [hidle] at hb
      cases hb
    · show q'.callingExpiredTimers = q'.batch.isSome
      rw [hidle, hcalling]
      rfl

theorem Sound.step_cases (h : Sound q) {a : Step} {q' : TimerQueue} (hq' : step q a = .ok q') :
    StepCase q a q' := by
  obtain ⟨r, hr, hcase⟩ := h.step_spec a
  rw [hr] at hq'
  cases hq'
  exact hcase

theorem step_returns (h : Sound q) (a : Step) : ∃ q', step q a = .ok q' ∧ Sound q' := by
  obtain ⟨q', hq', hcase⟩ := h.step_spec a
  exact ⟨q', hq', hcase.sound h⟩

theorem step_sound (q : TimerQueue) (a : Step) (q' : TimerQueue) (h : Sound q)
    (hq' : step q a = .ok q') : Sound q' := (h.step_cases hq').sound h

theorem Reachable.sound (h : Reachable step new q) : Sound q := h.invariant step_sound sound_new

end

end Mymuduo.TimerQueue

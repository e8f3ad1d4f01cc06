import Mymuduo.Net.ConnectorRun

/-! The attempts of a connector.  A retry timer is not withdrawn by `stop`, and the channel of an
attempt outlives its removal, so that a `start` can begin a second attempt beside the first; and
`restart` says `kConnecting` before it knows whether a socket will be opened. -/

namespace Mymuduo.Connector

open Lib

variable {c d : Connector} {r : ConnectResult}

/-! ### At most one attempt -/

/-- Not both a socket is being connected through `channel_` and a retry is scheduled that will call
`connect`. -/
def AtMostOne (c : Connector) : Prop :=
  ¬ (c.attempt.isSome = true ∧ 0 < c.retryTimers ∧ c.connect_ = true)

/-- A call of `connect` that leaves `timers` retry timers: a socket that is opened meets no channel
and no retry timer, one that will be retried meets no attempt, and one that is given up does not
meet both. -/
def MeetsNone (c : Connector) (r : ConnectResult) (timers : Nat) : Prop :=
  if r.opens = true then c.channel = none ∧ timers = 0
  else if r.retried = true then c.attempt = none
  else c.attempt = none ∨ timers = 0

/-- The step begins no attempt beside another one, and wakes no retry beside an attempt. -/
structure BeginsAlone (c : Connector) (a : Step) : Prop where
  connects : ∀ r timers, c.connects a = some (r, timers) → c.MeetsNone r timers
  store : a = .store true → c.attempt = none ∨ c.retryTimers = 0

theorem atMostOne_of_attempt (h : c.attempt = none) : AtMostOne c := by
  intro hboth
  rw [h] at hboth
  exact absurd hboth.1 (by simp)

theorem atMostOne_iff (hconnect : c.connect_ = true) :
    AtMostOne c ↔ c.attempt = none ∨ c.retryTimers = 0 := by
  unfold AtMostOne
  cases c.attempt <;> simp [hconnect]

/-- The calls of `connect` after which there is at most one attempt are those that meet none. -/
theorem Connects.atMostOne_iff {e : Connector} {timers : Nat} (h : Connects e r d)
    (hconnect : e.connect_ = true) (hconnect' : d.connect_ = e.connect_)
    (hchannel : e.channel = c.channel) (hattempt : e.attempt = c.attempt)
    (htimers : e.retryTimers = timers) : AtMostOne d ↔ c.MeetsNone r timers := by
  rw [Connector.atMostOne_iff (hconnect'.trans hconnect), MeetsNone]
  cases h with
  | opened hopens hnone hstate hattempt' htimers' =>
    rw [if_pos hopens, hattempt', htimers', htimers, ← hchannel, hnone]
    simp
  | retried hopens hretried hstate hattempt' htimers' =>
    rw [if_neg (by simp [hopens]), if_pos hretried, hattempt', hattempt, htimers', if_pos hconnect]
    simp
  | closed hopens hretried hstate hattempt' htimers' =>
    rw [if_neg (by simp [hopens]), if_neg (by simp [hretried]), hattempt', hattempt, htimers',
      htimers]

/-- A step that opens a socket. -/
theorem connects_beginsAlone {a : Step} {timers : Nat} (h : Sound c) (hidle : Idle c)
    (ha : c.connects a = some (r, timers)) :
    (c.MeetsNone r timers → ∃ d, c.step a = .ok d ∧ (Sound d ∧ Idle d) ∧ AtMostOne d) ∧
    (c.step a ≠ .error (.assertion .connecting) → (∀ d, c.step a = .ok d → AtMostOne d) →
      c.MeetsNone r timers) := by
  obtain ⟨e, hstep, hsound, hidle', hfresh, hchannel, hattempt, htimers, hconnect, -⟩ :=
    step_connects h hidle ha
  rw [hstep]
  obtain ⟨hopens, hset, herror⟩ | ⟨d, hd, hkept, hidled, hconnect', -, hconnects⟩ :=
    connect_spec hsound.toKept hidle' hfresh
  · refine ⟨?_, fun hno => absurd herror hno⟩
    intro hmeets
    rw [MeetsNone, if_pos hopens, ← hchannel] at hmeets
    exact absurd hmeets.1 hset
  · have hiff := hconnects.atMostOne_iff hconnect hconnect' hchannel hattempt htimers
    refine ⟨?_, fun _ hall => hiff.mp (hall d hd)⟩
    intro hmeets
    exact ⟨d, hd, ⟨hconnects.sound hkept hsound, hidled⟩, hiff.mpr hmeets⟩

/-- Another thread stores that the connector is to connect, and the retry timers will do so. -/
theorem store_atMostOne_iff (hd : c.step (.store true) = .ok d) :
    AtMostOne d ↔ c.attempt = none ∨ c.retryTimers = 0 := by
  cases hd
  exact atMostOne_iff rfl

/-- Any other step keeps what there is. -/
theorem Quiet.atMostOne {a : Step} (h : Quiet c a d) (hstore : a ≠ .store true)
    (hone : AtMostOne c) : AtMostOne d := by
  rintro ⟨hattempt, htimers, hconnect⟩
  rcases h.quiet with hnone | ⟨hsame, hle⟩
  · rw [hnone] at hattempt
    cases hattempt
  · exact hone ⟨hsame ▸ hattempt, Nat.lt_of_lt_of_le htimers hle, h.connect_ hstore hconnect⟩

theorem step_beginsAlone {a : Step} (h : Sound c) (hidle : Idle c) (hone : AtMostOne c) :
    (BeginsAlone c a → ∃ d, c.step a = .ok d ∧ (Sound d ∧ Idle d) ∧ AtMostOne d) ∧
    (c.step a ≠ .error (.assertion .connecting) → (∀ d, c.step a = .ok d → AtMostOne d) →
      BeginsAlone c a) := by
  cases ha : c.connects a with
  | some call =>
    obtain ⟨r, timers⟩ := call
    obtain ⟨hmeets, hback⟩ := connects_beginsAlone h hidle ha
    refine ⟨fun hguard => hmeets (hguard.connects r timers ha), fun hno hall => ⟨?_, ?_⟩⟩
    · intro r' timers' hcall
      cases ha.symm.trans hcall
      exact hback hno hall
    · rintro rfl
      simp [connects] at ha
  | none =>
    obtain ⟨d, hd, hquiet⟩ := step_quiet h hidle ha
    refine ⟨fun hguard => ⟨d, hd, ⟨hquiet.sound, hquiet.idle⟩, ?_⟩, fun _ hall => ⟨?_, ?_⟩⟩
    · by_cases hstore : a = .store true
      · subst hstore
        exact (store_atMostOne_iff hd).mpr (hguard.store rfl)
      · exact hquiet.atMostOne hstore hone
    · intro r timers hcall
      cases ha.symm.trans hcall
    · rintro rfl
      exact (store_atMostOne_iff hd).mp (hall d hd)

/-- In every run of the calls of `start` and `stop`, the retry timers, the events and the functors:
there is at most one attempt in every state, and `connecting` never finds a channel, exactly when no
step begins an attempt beside another one. -/
theorem one_attempt_iff (newConnectionCallback : Bool) (steps : List Step) :
    (∀ before after, steps = before ++ after →
      ∀ t, run step (new .new newConnectionCallback) before = .ok t →
        AtMostOne t ∧ ∀ a rest, after = a :: rest →
          t.step a ≠ .error (.assertion .connecting)) ↔
    Along step BeginsAlone (new .new newConnectionCallback) steps := by
  apply along_iff_prefixes (I := fun c => (Sound c ∧ Idle c) ∧ AtMostOne c)
    (S := fun c a => c.step a ≠ .error (.assertion .connecting))
  · rintro c a d ⟨⟨h, hidle⟩, hone⟩ hguard hd
    obtain ⟨d', hd', hall⟩ := (step_beginsAlone h hidle hone).1 hguard
    cases hd.symm.trans hd'
    exact hall
  · exact fun c hc => hc.2
  · rintro c a ⟨⟨h, hidle⟩, hone⟩ hguard
    obtain ⟨d, hd, -⟩ := (step_beginsAlone h hidle hone).1 hguard
    simp [hd]
  · rintro c a ⟨⟨h, hidle⟩, hone⟩ hno hall
    exact (step_beginsAlone h hidle hone).2 hno hall
  · exact ⟨⟨sound_new _, idle_new _⟩, atMostOne_of_attempt rfl⟩

/-- With `start` and `stop` called alternately: after a refused connection a retry timer is still
there beside the attempt of the second `start`, and without a refusal the second `start` finds the
channel of the first one. -/
theorem attempts_overlap :
    (∃ t, run step (new .new true) [.start ⟨5, 0, some .ECONNREFUSED⟩, .stop,
        .start ⟨6, 0, some .EINPROGRESS⟩] = .ok t ∧ ¬ AtMostOne t) ∧
    run step (new .new true) [.start ⟨5, 0, some .EINPROGRESS⟩, .stop,
        .start ⟨6, 0, some .EINPROGRESS⟩] = .error (.assertion .connecting) := by
  refine ⟨⟨_, rfl, ?_⟩, rfl⟩
  intro hone
  exact hone (by decide)

/-! ### A channel while connecting -/

/-- A connector that is connecting has its channel, which is registered for writing. -/
def HasChannel (c : Connector) : Prop := c.state = .kConnecting → c.attempt.isSome = true

/-- A step of a connector that the loop's thread can call `restart` on as well. -/
inductive RestartStep
  | restart (r : ConnectResult)
  | step (a : Step)
  deriving DecidableEq, Repr

def restartStep (c : Connector) : RestartStep → Except Fault Connector
  | .restart r => if c.Fresh r then c.restart r else .ok c
  | .step a => c.step a

/-- `restart` finds a socket that is being connected, or opens one, or is to try again. -/
def RestartConnects (c : Connector) : RestartStep → Prop
  | .restart r => c.Fresh r →
    c.attempt.isSome = true ∨ c.connect_ = true ∧ (r.opens = true ∨ r.retried = true)
  | .step _ => True

/-- `restart` while it may be called, and what it leaves otherwise. -/
theorem restart_spec (h : Sound c) (hidle : Idle c) (hfresh : c.Fresh r) :
    c.restart r = .error (.assertion .connecting) ∧ c.connect_ = true ∧ r.opens = true ∨
    ∃ d, c.restart r = .ok d ∧ Kept d ∧ Idle d ∧
      ((c.attempt.isSome = true ∨ c.connect_ = true ∧ (r.opens = true ∨ r.retried = true)) ↔
        HasChannel d) ∧ d.state ≠ .kConnected := by
  have hkept : Kept { c with state := .kConnecting, retryDelayMs := kInitRetryDelayMs } :=
    h.toKept.congr rfl rfl
  cases hconnect : c.connect_ with
  | false =>
    right
    refine ⟨_, by rw [restart, startInLoop, if_neg (by simp [hconnect])], hkept, hidle, ?_, by simp⟩
    have hiff : HasChannel { c with state := .kConnecting, retryDelayMs := kInitRetryDelayMs } ↔
        c.attempt.isSome = true := ⟨fun hall => hall rfl, fun hsome _ => hsome⟩
    rw [hiff]
    simp
  | true =>
    rw [restart, startInLoop, if_pos hconnect]
    obtain ⟨hopens, -, herror⟩ | ⟨d, hd, hkept', hidled, -, -, hconnects⟩ :=
      connect_spec (r := r) hkept hidle hfresh
    · exact .inl ⟨herror, rfl, hopens⟩
    · refine .inr ⟨d, hd, hkept', hidled, ?_⟩
      cases hconnects with
      | opened hopens hchannel hstate hattempt htimers =>
        refine ⟨iff_of_true (.inr ⟨rfl, .inl hopens⟩) ?_, by simp [hstate]⟩
        intro _
        simp [hattempt]
      | retried hopens hretried hstate hattempt htimers =>
        refine ⟨iff_of_true (.inr ⟨rfl, .inr hretried⟩) ?_, by simp [hstate]⟩
        intro hconnecting
        rw [hstate] at hconnecting
        cases hconnecting
      | closed hopens hretried hstate hattempt htimers =>
        refine ⟨?_, by simp [hstate]⟩
        have hiff : HasChannel d ↔ c.attempt.isSome = true := by
          unfold HasChannel
          rw [hstate, hattempt]
          exact ⟨fun hall => hall rfl, fun hsome _ => hsome⟩
        rw [hiff]
        simp [hopens, hretried]

theorem restartStep_spec (h : Sound c) (hidle : Idle c) (a : RestartStep) :
    c.restartStep a = .error (.assertion .connecting) ∧ RestartConnects c a ∨
    ∃ d, c.restartStep a = .ok d ∧ (RestartConnects c a ↔ HasChannel d) ∧
      (HasChannel d → Sound d ∧ Idle d) := by
  cases a with
  | restart r =>
    by_cases hfresh : c.Fresh r
    · rw [restartStep, if_pos hfresh]
      have hguard : RestartConnects c (.restart r) ↔
          (c.attempt.isSome = true ∨ c.connect_ = true ∧ (r.opens = true ∨ r.retried = true)) :=
        ⟨fun hall => hall hfresh, fun hsome _ => hsome⟩
      rw [hguard]
      obtain ⟨herror, hconnect, hopens⟩ | ⟨d, hd, hkept, hidled, hiff, hstate⟩ :=
        restart_spec h hidle hfresh
      · exact .inl ⟨herror, .inr ⟨hconnect, .inl hopens⟩⟩
      · refine .inr ⟨d, hd, hiff, fun hall => ⟨⟨hkept, hall, ?_⟩, hidled⟩⟩
        intro hconnected
        exact absurd hconnected hstate
    · rw [restartStep, if_neg hfresh]
      refine .inr ⟨c, rfl, iff_of_true ?_ h.connecting, fun _ => ⟨h, hidle⟩⟩
      intro hfresh'
      exact absurd hfresh' hfresh
  | step a =>
    obtain ⟨d, hd, hsound, hidled, -⟩ | herror := step_returns h hidle a
    · exact .inr ⟨d, hd, iff_of_true trivial hsound.connecting, fun _ => ⟨hsound, hidled⟩⟩
    · exact .inl ⟨herror, trivial⟩

/-- In every run of the calls of `start`, `stop` and `restart`, the retry timers, the events and the
functors: a connector that is connecting has its channel in every state, and no step faults but by
finding a channel in `connecting`, exactly when every `restart` finds a socket that is being
connected, or opens one, or is to try again. -/
theorem has_channel_iff (newConnectionCallback : Bool) (steps : List RestartStep) :
    (∀ before after, steps = before ++ after →
      ∀ t, run restartStep (new .new newConnectionCallback) before = .ok t →
        HasChannel t ∧ ∀ a rest, after = a :: rest → ∀ f, t.restartStep a = .error f →
          f = .assertion .connecting) ↔
    Along restartStep RestartConnects (new .new newConnectionCallback) steps := by
  apply along_iff_prefixes (I := fun c => Sound c ∧ Idle c)
    (S := fun c a => ∀ f, c.restartStep a = .error f → f = .assertion .connecting)
  · rintro c a d ⟨h, hidle⟩ hguard hd
    obtain ⟨herror, -⟩ | ⟨d', hd', hiff, hall⟩ := restartStep_spec h hidle a
    · rw [herror] at hd
      cases hd
    · cases hd.symm.trans hd'
      exact hall (hiff.mp hguard)
  · exact fun c hc => hc.1.connecting
  · rintro c a ⟨h, hidle⟩ hguard f hf
    obtain ⟨herror, -⟩ | ⟨d', hd', -⟩ := restartStep_spec h hidle a
    · rw [herror] at hf
      exact (Except.error.inj hf).symm
    · rw [hd'] at hf
      cases hf
  · rintro c a ⟨h, hidle⟩ - hall
    obtain ⟨-, hguard⟩ | ⟨d', hd', hiff, -⟩ := restartStep_spec h hidle a
    · exact hguard
    · exact hiff.mpr (hall d' hd')
  · exact ⟨sound_new _, idle_new _⟩

/-- A connection is made and lost, and the socket of the `restart` is given up: the connector says
that it is connecting, and the next `stop` reads through the empty `channel_`. -/
theorem restart_loses_channel :
    (∃ t, run restartStep (new .new true) [.step (.start ⟨5, 0, some .EINPROGRESS⟩),
        .step (.event POLLOUT ⟨false, false⟩), .step (.functor ⟨6, 0, none⟩),
        .restart ⟨7, 0, some .EACCES⟩] = .ok t ∧ ¬ HasChannel t) ∧
    run restartStep (new .new true) [.step (.start ⟨5, 0, some .EINPROGRESS⟩),
        .step (.event POLLOUT ⟨false, false⟩), .step (.functor ⟨6, 0, none⟩),
        .restart ⟨7, 0, some .EACCES⟩, .step (.stop), .step (.functor ⟨8, 0, none⟩)] =
      .error .nullPointer := by
  refine ⟨⟨_, rfl, ?_⟩, rfl⟩
  intro hall
  exact absurd (hall rfl) (by decide)

end Mymuduo.Connector

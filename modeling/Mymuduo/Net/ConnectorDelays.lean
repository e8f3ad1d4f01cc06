import Mathlib.Algebra.Group.Nat.Defs
import Mathlib.Logic.Function.Iterate
import Mymuduo.Net.ConnectorAttempts

/-! The delays after which a connector tries again: each is twice the one before, up to the largest
one, whatever the failures are and whatever comes between them; only `restart` begins anew. -/

namespace Mymuduo

open Lib

/-- The delay of a retry timer. -/
def Outcome.delay : Outcome → Option Nat
  | .runAfter delayMs => some delayMs
  | .newConnection _ | .close _ => none

namespace Connector

variable {c d e : Connector} {r : ConnectResult}

/-- The delays of the retry timers so far. -/
def delays (c : Connector) : List Nat := c.outcomes.filterMap Outcome.delay

/-- The delay that `retry` keeps for the next time. -/
def nextDelay (delayMs : Nat) : Nat := min (delayMs * 2) kMaxRetryDelayMs

/-- The first `n` delays from `delayMs` on. -/
def doubling (delayMs n : Nat) : List Nat := (List.range n).map fun k => nextDelay^[k] delayMs

theorem doubling_add (delayMs n m : Nat) :
    doubling delayMs (n + m) = doubling delayMs n ++ doubling (nextDelay^[n] delayMs) m := by
  rw [doubling, List.range_add, List.map_append, List.map_map]
  congr 1
  apply List.map_congr_left
  intro k _
  show nextDelay^[n + k] delayMs = nextDelay^[k] (nextDelay^[n] delayMs)
  rw [Nat.add_comm, Function.iterate_add_apply]

/-- The delays from the first one on, in milliseconds. -/
theorem iterate_nextDelay (k : Nat) :
    nextDelay^[k] kInitRetryDelayMs = min (kInitRetryDelayMs * 2 ^ k) kMaxRetryDelayMs := by
  induction k with
  | zero => rfl
  | succ k ih =>
    rw [Function.iterate_succ_apply', ih, nextDelay, Nat.pow_succ, ← Nat.mul_assoc]
    omega

/-- From `c` to `d` some retry timers have been armed, each with the delay after the last one. -/
def BacksOff (c d : Connector) : Prop :=
  ∃ n, d.delays = c.delays ++ doubling c.retryDelayMs n ∧ d.retryDelayMs = nextDelay^[n] c.retryDelayMs

theorem BacksOff.of_eq (houtcomes : d.outcomes = c.outcomes)
    (hdelay : d.retryDelayMs = c.retryDelayMs) : BacksOff c d :=
  ⟨0, by simp [delays, houtcomes, doubling], hdelay⟩

theorem BacksOff.refl (c : Connector) : BacksOff c c := .of_eq rfl rfl

theorem BacksOff.trans (h : BacksOff c d) (h' : BacksOff d e) : BacksOff c e := by
  obtain ⟨n, hdelays, hdelay⟩ := h
  obtain ⟨m, hdelays', hdelay'⟩ := h'
  refine ⟨n + m, ?_, ?_⟩
  · rw [hdelays', hdelays, hdelay, List.append_assoc, ← doubling_add]
  · rw [hdelay', hdelay, Nat.add_comm, Function.iterate_add_apply]

/-- A socket is closed or handed over. -/
theorem BacksOff.record (c : Connector) {outcome : Outcome} (houtcome : outcome.delay = none) :
    BacksOff c (c.record outcome) :=
  ⟨0, by simp [delays, Connector.record, houtcome, doubling], rfl⟩

theorem BacksOff.retry (c : Connector) (sockfd : Nat) : BacksOff c (c.retry sockfd) := by
  unfold Connector.retry
  dsimp only
  split
  · refine ⟨1, ?_, rfl⟩
    show (c.outcomes ++ [Outcome.close sockfd] ++ [Outcome.runAfter c.retryDelayMs]).filterMap
      Outcome.delay = _
    rw [List.filterMap_append, List.filterMap_append]
    exact congrArg (· ++ [c.retryDelayMs]) (List.append_nil c.delays)
  · exact .record c rfl

theorem BacksOff.connecting {sockfd ptr : Nat} (h : c.connecting sockfd ptr = .ok d) :
    BacksOff c d := by
  obtain ⟨u, -, h⟩ := bind_eq_ok.mp h
  obtain ⟨p, -, h⟩ := bind_eq_ok.mp h
  cases h
  exact .of_eq rfl rfl

theorem BacksOff.startInLoop (h : c.startInLoop r = .ok d) : BacksOff c d := by
  unfold Connector.startInLoop at h
  split at h
  · rcases connect_cases c r with hconnect | hconnect | hconnect <;> rw [hconnect] at h
    · exact .connecting h
    · cases h
      exact .retry c r.sockfd
    · cases h
      exact .record c rfl
  · cases h
    exact .refl c

theorem BacksOff.removeAndResetChannel {sockfd : Nat}
    (h : c.removeAndResetChannel = .ok (d, sockfd)) : BacksOff c d := by
  unfold Connector.removeAndResetChannel at h
  split at h
  · cases h
  · obtain ⟨p, -, h⟩ := bind_eq_ok.mp h
    obtain ⟨q, -, h⟩ := bind_eq_ok.mp h
    cases h
    exact .of_eq rfl rfl

theorem BacksOff.stopInLoop (h : c.stopInLoop = .ok d) : BacksOff c d := by
  unfold Connector.stopInLoop at h
  split at h
  · obtain ⟨⟨e, sockfd⟩, he, h⟩ := bind_eq_ok.mp h
    cases h
    have hremoved := BacksOff.removeAndResetChannel he
    exact hremoved.trans (.retry e sockfd)
  · cases h
    exact .refl c

theorem BacksOff.resetChannel (h : c.resetChannel = .ok d) : BacksOff c d := by
  unfold Connector.resetChannel at h
  split at h
  · cases h
    exact .refl c
  · obtain ⟨u, -, h⟩ := bind_eq_ok.mp h
    cases h
    exact .of_eq rfl rfl

theorem BacksOff.handleWrite {s : SocketStatus} (h : c.handleWrite s = .ok d) : BacksOff c d := by
  unfold Connector.handleWrite at h
  split at h
  · obtain ⟨⟨e, sockfd⟩, he, h⟩ := bind_eq_ok.mp h
    refine (BacksOff.removeAndResetChannel he).trans ?_
    have hstate : BacksOff e { e with state := .kConnected } := .of_eq rfl rfl
    dsimp only at h
    split at h
    · cases h
      exact .retry e sockfd
    · split at h
      · cases h
        exact .retry e sockfd
      · split at h
        · split at h <;> cases h <;> exact hstate.trans (.record _ rfl)
        · cases h
          exact hstate.trans (.record _ rfl)
  · obtain ⟨u, -, h⟩ := bind_eq_ok.mp h
    cases h
    exact .refl c

theorem BacksOff.handleError (h : c.handleError = .ok d) : BacksOff c d := by
  unfold Connector.handleError at h
  split at h
  · obtain ⟨⟨e, sockfd⟩, he, h⟩ := bind_eq_ok.mp h
    cases h
    exact (BacksOff.removeAndResetChannel he).trans (.retry e sockfd)
  · cases h
    exact .refl c

theorem BacksOff.handleEvent {revents : Events} {s : SocketStatus}
    (h : c.handleEvent revents s = .ok d) : BacksOff c d := by
  obtain ⟨e, he, h⟩ := bind_eq_ok.mp h
  cases h
  have hbegin : BacksOff c (c.setEventHandling true) := .of_eq rfl rfl
  have hcalled : BacksOff c e := by
    refine Channel.dispatch_keeps (I := fun e => BacksOff c e) ?_ ?_ ?_ ?_ hbegin he
    · rintro f ⟨⟩
    · rintro f ⟨⟩ s t hs ht
      exact hs.trans (.handleError ht)
    · rintro f ⟨⟩
    · rintro f ⟨⟩ s t hs ht
      exact hs.trans (.handleWrite ht)
  exact hcalled.trans (.of_eq rfl rfl)

theorem BacksOff.runPending (h : c.runPending r = .ok d) : BacksOff c d := by
  unfold Connector.runPending at h
  split at h
  · cases h
    exact .refl c
  · rename_i functor rest hpending
    have htaken : BacksOff c { c with loop := { c.loop with pendingFunctors := rest } } :=
      .of_eq rfl rfl
    refine htaken.trans ?_
    cases functor with
    | startInLoop => exact .startInLoop h
    | stopInLoop => exact .stopInLoop h
    | resetChannel => exact .resetChannel h

theorem BacksOff.step {a : Step} (h : c.step a = .ok d) : BacksOff c d := by
  unfold Connector.step at h
  split at h
  · cases a with
    | start r =>
      have hstored : BacksOff c { c with connect_ := true } := .of_eq rfl rfl
      exact hstored.trans (.startInLoop h)
    | retryTimer r =>
      have hexpired : BacksOff c { c with retryTimers := c.retryTimers - 1 } := .of_eq rfl rfl
      exact hexpired.trans (.startInLoop h)
    | event revents s => exact .handleEvent h
    | functor r => exact .runPending h
    | stop | store connect_ | queue connect_ =>
      cases h
      exact .of_eq rfl rfl
  · cases h
    exact .refl c

/-! ### Runs -/

/-- What the delays of a run depend on: `restart` is called, or a retry timer is armed. -/
inductive RetryEvent
  | restart
  | runAfter (delayMs : Nat)
  deriving DecidableEq, Repr

def RetryEvent.delay : RetryEvent → Option Nat
  | .restart => none
  | .runAfter delayMs => some delayMs

/-- The call of `restart` in a step, if there is one, and the retry timers that the step arms. -/
def retryEvents (c : Connector) (a : RestartStep) : List RetryEvent :=
  (match a with
    | .restart r => if c.Fresh r then [.restart] else []
    | .step _ => []) ++
  match c.restartStep a with
  | .ok d => (d.delays.drop c.delays.length).map .runAfter
  | .error _ => []

/-- The number of retry timers since the last `restart`. -/
def sinceRestart (log : List RetryEvent) : Nat :=
  log.foldl (fun n e => match e with
    | .restart => 0
    | .runAfter _ => n + 1) 0

/-- Each delay is the one after as many retry timers since the last `restart`. -/
def Paced (log : List RetryEvent) : Prop :=
  ∀ before delayMs after, log = before ++ .runAfter delayMs :: after →
    delayMs = nextDelay^[sinceRestart before] kInitRetryDelayMs

@[simp] theorem sinceRestart_restart (log : List RetryEvent) :
    sinceRestart (log ++ [.restart]) = 0 := by
  simp [sinceRestart]

@[simp] theorem sinceRestart_runAfter (log : List RetryEvent) (delayMs : Nat) :
    sinceRestart (log ++ [.runAfter delayMs]) = sinceRestart log + 1 := by
  simp [sinceRestart]

theorem Paced.snoc {log : List RetryEvent} {event : RetryEvent} (h : Paced log)
    (hevent : ∀ delayMs, event = .runAfter delayMs →
      delayMs = nextDelay^[sinceRestart log] kInitRetryDelayMs) : Paced (log ++ [event]) := by
  intro before delayMs after hsplit
  rcases List.eq_nil_or_concat after with rfl | ⟨init, last, rfl⟩
  · obtain ⟨rfl, hlast⟩ := List.append_inj' hsplit rfl
    exact hevent delayMs (List.cons.inj hlast).1
  · rw [List.concat_eq_append, ← List.cons_append, ← List.append_assoc] at hsplit
    obtain ⟨hlog, -⟩ := List.append_inj' hsplit rfl
    exact h before delayMs init hlog

/-- Retry timers, each with the delay after the last one, keep pace. -/
theorem Paced.append_doubling {log : List RetryEvent} (h : Paced log) (n : Nat) :
    let more := (doubling (nextDelay^[sinceRestart log] kInitRetryDelayMs) n).map RetryEvent.runAfter
    Paced (log ++ more) ∧ sinceRestart (log ++ more) = sinceRestart log + n := by
  induction n with
  | zero => simpa [doubling] using h
  | succ n ih =>
    obtain ⟨hpaced, hsince⟩ := ih
    have hlast : doubling (nextDelay^[n] (nextDelay^[sinceRestart log] kInitRetryDelayMs)) 1 =
        [nextDelay^[sinceRestart log + n] kInitRetryDelayMs] := by
      rw [Nat.add_comm, Function.iterate_add_apply]
      rfl
    rw [doubling_add, hlast, List.map_append]
    dsimp only
    rw [← List.append_assoc]
    refine ⟨hpaced.snoc ?_, ?_⟩
    · rintro delayMs ⟨⟩
      rw [hsince]
    · rw [List.map_singleton, sinceRestart_runAfter, hsince, Nat.add_assoc]

/-- The connector and what has happened so far. -/
structure Follows (c : Connector) (log : List RetryEvent) : Prop where
  delays : log.filterMap RetryEvent.delay = c.delays
  next : c.retryDelayMs = nextDelay^[sinceRestart log] kInitRetryDelayMs
  paced : Paced log

theorem Follows.backsOff {log : List RetryEvent} (h : Follows c log) (hd : BacksOff c d) :
    Follows d (log ++ (d.delays.drop c.delays.length).map .runAfter) := by
  obtain ⟨n, hmore, hdelay⟩ := hd
  obtain ⟨hpaced, hsince⟩ := h.paced.append_doubling n
  have hid : RetryEvent.delay ∘ RetryEvent.runAfter = some := rfl
  rw [hmore, List.drop_left, h.next]
  refine ⟨?_, ?_, hpaced⟩
  · rw [List.filterMap_append, h.delays, List.filterMap_map, hid, List.filterMap_some, hmore, h.next]
  · rw [hdelay, h.next, hsince, Nat.add_comm, Function.iterate_add_apply]

/-- `restart` begins with the first delay. -/
theorem Follows.restart {log : List RetryEvent} (h : Follows c log) (hd : c.restart r = .ok d) :
    Follows d (log ++ [.restart] ++ (d.delays.drop c.delays.length).map .runAfter) := by
  have hbegins : Follows { c with state := .kConnecting, retryDelayMs := kInitRetryDelayMs }
      (log ++ [.restart]) := by
    refine ⟨?_, by rw [sinceRestart_restart]; rfl, h.paced.snoc nofun⟩
    rw [List.filterMap_append, h.delays]
    exact List.append_nil c.delays
  exact hbegins.backsOff (.startInLoop hd)

theorem Follows.step {log : List RetryEvent} {a : RestartStep} (h : Follows c log)
    (hd : c.restartStep a = .ok d) : Follows d (log ++ c.retryEvents a) := by
  unfold retryEvents
  rw [hd, ← List.append_assoc]
  cases a with
  | step a =>
    rw [List.append_nil]
    exact h.backsOff (.step hd)
  | restart r =>
    dsimp only [restartStep] at hd ⊢
    split at hd
    · rename_i hfresh
      rw [if_pos hfresh]
      exact h.restart hd
    · rename_i hfresh
      rw [if_neg hfresh, List.append_nil]
      cases hd
      exact h.backsOff (.refl c)

/-- In every run of `start`, `stop` and `restart` calls, expiring timers, events and functors, the
delay of each retry timer is 500 ms, doubled as many times as retry timers have been armed since the
last call of `restart`, up to 30 s. -/
theorem delays_double (newConnectionCallback : Bool) (steps : List RestartStep) {t : Connector}
    (hrun : run restartStep (new .new newConnectionCallback) steps = .ok t) :
    let log := trace restartStep retryEvents (new .new newConnectionCallback) steps
    log.filterMap RetryEvent.delay = t.delays ∧
      ∀ before delayMs after, log = before ++ .runAfter delayMs :: after →
        delayMs = min (500 * 2 ^ sinceRestart before) 30000 := by
  have hstart : Follows (new .new newConnectionCallback) [] := ⟨rfl, rfl, by simp [Paced]⟩
  have hfollows := trace_invariant (fun _ _ _ _ h ht => Follows.step h ht) hstart hrun
  rw [List.nil_append] at hfollows
  refine ⟨hfollows.delays, ?_⟩
  intro before delayMs after hlog
  rw [hfollows.paced before delayMs after hlog]
  exact iterate_nextDelay _

/-- A stopped connector goes on with the delays when it is started again, and `restart` begins with
the first one. -/
def refusals : List RestartStep :=
  let refused : ConnectResult := ⟨5, 0, some .ECONNREFUSED⟩
  [.step (.start refused), .step (.retryTimer refused), .step .stop, .step (.functor refused),
    .step (.start refused), .restart refused, .step (.retryTimer refused)]

theorem delays_double_refusals :
    ∃ t, run restartStep (new .new true) refusals = .ok t ∧
      t.delays = [500, 1000, 2000, 500, 1000] ∧
      trace restartStep retryEvents (new .new true) refusals =
        [.runAfter 500, .runAfter 1000, .runAfter 2000, .restart, .runAfter 500, .runAfter 1000] ∧
      500 = min (500 * 2 ^ sinceRestart [.runAfter 500, .runAfter 1000, .runAfter 2000, .restart])
        30000 := by
  have heval : (run restartStep (new .new true) refusals).map delays =
      .ok [500, 1000, 2000, 500, 1000] := by decide +kernel
  have hlog : trace restartStep retryEvents (new .new true) refusals =
      [.runAfter 500, .runAfter 1000, .runAfter 2000, .restart, .runAfter 500, .runAfter 1000] := by
    decide +kernel
  cases hrun : run restartStep (new .new true) refusals with
  | error f =>
    rw [hrun] at heval
    cases heval
  | ok t =>
    rw [hrun] at heval
    obtain ⟨-, hpace⟩ := delays_double true refusals hrun
    exact ⟨t, rfl, Except.ok.inj heval, hlog, hpace _ 500 [.runAfter 1000] hlog⟩

end Connector

end Mymuduo

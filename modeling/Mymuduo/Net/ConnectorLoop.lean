import Mymuduo.Net.Connector

/-! A connector in its loop: the poller reports channels, the loop handles their events one after
another, and then runs the queued functors.  While events are handled no reported channel can be
removed, and both callbacks of the connector begin by removing its channel. -/

namespace Mymuduo

open Lib

/-- A call that user code, the handler of another channel or a timer makes. -/
inductive ConnectorCall
  | start (isInLoopThread : Bool) (r : ConnectResult)
  | restart (r : ConnectResult)
  | stop (isInLoopThread : Bool)
  | retryTimer (r : ConnectResult)
  | updateChannel (other : Channel)
  | removeChannel (other : Channel)
  deriving DecidableEq, Repr

/-- An entry of `activeChannels_`: the connector's channel, with its events and with what the socket
says when it is asked, or another channel. -/
inductive Active
  | connector (revents : Events) (s : SocketStatus)
  | other (ptr : Nat)
  deriving DecidableEq, Repr

/-- A connector in its loop; `todo` holds the active channels that have not been handled yet. -/
structure ConnectorLoop where
  connector : Connector
  todo : List Active

/-- A step of `EventLoop::loop`, or a call in between.  What the handler of another channel calls
are steps of their own, and so is each functor of a round of `doPendingFunctors`. -/
inductive ConnectorStep
  | call (a : ConnectorCall)
  | poll (active : List Active)
  | handle
  | functor (r : ConnectResult)
  deriving DecidableEq, Repr

namespace ConnectorLoop

def new (newConnectionCallback : Bool) : ConnectorLoop where
  connector := .new .new newConnectionCallback
  todo := []

def call (c : Connector) : ConnectorCall → Except Fault Connector
  | .start isInLoopThread r => c.start isInLoopThread r
  | .restart r => c.restart r
  | .stop isInLoopThread => .ok (c.stop isInLoopThread)
  | .retryTimer r =>
    if 0 < c.retryTimers then Connector.startInLoop { c with retryTimers := c.retryTimers - 1 } r
    else .ok c
  | .updateChannel other => do
    let (_, loop) ← c.loop.updateChannel other
    return { c with loop := loop }
  | .removeChannel other => do
    let (_, loop) ← c.loop.removeChannel other
    return { c with loop := loop }

/-- The address under which the poller reports an active channel.  The connector's channel is
reported if the kernel watches it. -/
def reported (c : Connector) : Active → Option Nat
  | .connector _ _ =>
    c.channel.bind fun channel =>
      if (c.loop.poller.interest channel.fd).map Prod.fst = some channel.ptr then some channel.ptr
      else none
  | .other ptr => some ptr

/-- `poll` fills `activeChannels_`. -/
def poll (s : ConnectorLoop) (active : List Active) : ConnectorLoop where
  connector := { s.connector with
    loop := { s.connector.loop with
      eventHandling := true
      activeChannels := active.filterMap (reported s.connector) } }
  todo := active.filter fun a => (reported s.connector a).isSome

/-- The functor at the head of the queue is run. -/
def runPending (c : Connector) (r : ConnectResult) : Except Fault Connector :=
  match c.loop.pendingFunctors with
  | [] => .ok c
  | functor :: rest => do
    let loop := { c.loop with pendingFunctors := rest, callingPendingFunctors := true }
    let c ← Connector.runFunctor r { c with loop := loop } functor
    return { c with loop := { c.loop with callingPendingFunctors := false } }

/-- The next active channel is handled; after the last one `eventHandling_` is reset. -/
def handle (s : ConnectorLoop) : Except Fault ConnectorLoop :=
  match s.todo with
  | [] =>
    .ok { s with connector := { s.connector with
      loop := { s.connector.loop with eventHandling := false } } }
  | .other _ :: rest => .ok { s with todo := rest }
  | .connector revents status :: rest => do
    let c ← s.connector.handleEvent revents status
    return { connector := c, todo := rest }

/-- A step of the loop.  It polls and runs functors only when no events are being handled. -/
def step (s : ConnectorLoop) : ConnectorStep → Except Fault ConnectorLoop
  | .call a => do
    let c ← call s.connector a
    return { s with connector := c }
  | .poll active => .ok (if s.connector.loop.eventHandling then s else s.poll active)
  | .handle => s.handle
  | .functor r =>
    if s.connector.loop.eventHandling then .ok s
    else do
      let c ← runPending s.connector r
      return { s with connector := c }

/-- A step that handles an event of the connector's channel returns, and a callback that it makes
ends with a socket handed over, closed or to be tried again. -/
def Handled (s : ConnectorLoop) (a : ConnectorStep) : Prop :=
  a = .handle → ∀ revents status rest, s.todo = .connector revents status :: rest →
    ∃ t, s.handle = .ok t ∧
      (revents.has (POLLERR ||| POLLNVAL) ∨ revents.has POLLOUT →
        ∃ outcome outcomes, t.connector.outcomes = s.connector.outcomes ++ outcome :: outcomes)

/-- A step that handles an event of the connector's channel has no callback to make. -/
def NoCallback (s : ConnectorLoop) (a : ConnectorStep) : Prop :=
  a = .handle → ∀ revents status rest, s.todo = .connector revents status :: rest →
    revents.has (POLLERR ||| POLLNVAL) = false ∧ revents.has POLLOUT = false

/-! ### A connector whose channel is being handled -/

/-- The events of the loop are being handled, and the connector's channel is among the active
ones. -/
structure InDispatch (c : Connector) : Prop where
  eventHandling : c.loop.eventHandling = true
  active : ∃ channel, c.channel = some channel ∧ channel.ptr ∈ c.loop.activeChannels

section

variable {c d : Connector}

theorem InDispatch.setEventHandling (h : InDispatch c) (eventHandling : Bool) :
    InDispatch (c.setEventHandling eventHandling) := by
  obtain ⟨hhandling, channel, hchannel, hactive⟩ := h
  exact ⟨hhandling, { channel with eventHandling := eventHandling },
    by simp [Connector.setEventHandling, hchannel], hactive⟩

/-- The removal of the channel never succeeds. -/
theorem InDispatch.removeAndResetChannel (h : InDispatch c) (p : Connector × Nat) :
    c.removeAndResetChannel ≠ .ok p := by
  obtain ⟨hhandling, channel, hchannel, hactive⟩ := h
  intro hp
  rw [Connector.removeAndResetChannel, hchannel] at hp
  obtain ⟨⟨disabled, loop⟩, hdisable, hp⟩ := bind_eq_ok.mp hp
  obtain ⟨⟨removed, loop'⟩, hremove, -⟩ := bind_eq_ok.mp hp
  obtain ⟨hloop, hdisabled⟩ := EventLoop.updateChannel_frame hdisable
  obtain ⟨u, -, hremove⟩ := bind_eq_ok.mp hremove
  rw [EventLoop.removeChannel_active] at hremove
  · cases hremove
  · rw [hloop]
    exact hhandling
  · rw [hloop, hdisabled]
    exact hactive

theorem InDispatch.handleWrite (h : InDispatch c) {s : SocketStatus}
    (hd : c.handleWrite s = .ok d) : d = c := by
  unfold Connector.handleWrite at hd
  split at hd
  · obtain ⟨p, hp, -⟩ := bind_eq_ok.mp hd
    exact absurd hp (h.removeAndResetChannel p)
  · obtain ⟨u, -, hd⟩ := bind_eq_ok.mp hd
    cases hd
    rfl

theorem InDispatch.handleError (h : InDispatch c) (hd : c.handleError = .ok d) : d = c := by
  unfold Connector.handleError at hd
  split at hd
  · obtain ⟨p, hp, -⟩ := bind_eq_ok.mp hd
    exact absurd hp (h.removeAndResetChannel p)
  · cases hd
    rfl

/-- A callback that returns has done nothing. -/
theorem InDispatch.handleEvent (h : InDispatch c) {revents : Events} {s : SocketStatus}
    (hd : c.handleEvent revents s = .ok d) :
    d = (c.setEventHandling true).setEventHandling false := by
  obtain ⟨e, he, hd⟩ := bind_eq_ok.mp hd
  cases hd
  have hstart := h.setEventHandling true
  have hsame : e = c.setEventHandling true := by
    refine Channel.dispatch_keeps (I := fun e => e = c.setEventHandling true) ?_ ?_ ?_ ?_ rfl he
    · rintro f ⟨⟩
    · rintro f hf s t rfl ht
      cases hf
      exact hstart.handleError ht
    · rintro f ⟨⟩
    · rintro f hf s t rfl ht
      cases hf
      exact hstart.handleWrite ht
  rw [hsame]

theorem InDispatch.same (h : InDispatch c) (hsame : c.SameDispatch d) : InDispatch d := by
  obtain ⟨hhandling, channel, hchannel, hactive⟩ := h
  exact ⟨hsame.eventHandling.trans hhandling, channel, hsame.channel channel hchannel,
    hsame.activeChannels ▸ hactive⟩

/-- A call leaves a channel that is there: a new one cannot be made. -/
theorem call_sameDispatch {a : ConnectorCall} (hd : call c a = .ok d) : c.SameDispatch d := by
  cases a with
  | start isInLoopThread r =>
    change c.start isInLoopThread r = .ok d at hd
    unfold Connector.start at hd
    dsimp only at hd
    split at hd
    · have hsame := Connector.startInLoop_sameDispatch hd
      exact ⟨hsame.channel, hsame.eventHandling, hsame.activeChannels⟩
    · cases hd
      exact ⟨fun _ h => h, by simp, by simp⟩
  | restart r =>
    have hsame := Connector.startInLoop_sameDispatch hd
    exact ⟨hsame.channel, hsame.eventHandling, hsame.activeChannels⟩
  | stop isInLoopThread =>
    cases hd
    exact ⟨fun _ h => h, by simp [Connector.stop], by simp [Connector.stop]⟩
  | retryTimer r =>
    unfold call at hd
    dsimp only at hd
    split at hd
    · have hsame := Connector.startInLoop_sameDispatch hd
      exact ⟨hsame.channel, hsame.eventHandling, hsame.activeChannels⟩
    · cases hd
      exact .refl c
  | updateChannel other =>
    obtain ⟨⟨other', loop⟩, hupdate, hd⟩ := bind_eq_ok.mp hd
    obtain ⟨hloop, -⟩ := EventLoop.updateChannel_frame hupdate
    cases hd
    exact ⟨fun _ h => h, by rw [hloop], by rw [hloop]⟩
  | removeChannel other =>
    obtain ⟨⟨other', loop⟩, hremove, hd⟩ := bind_eq_ok.mp hd
    have hloop := EventLoop.removeChannel_frame hremove
    cases hd
    exact ⟨fun _ h => h, by rw [hloop], by rw [hloop]⟩

end

/-! ### The loop -/

/-- While active channels are still to be handled the loop says so, and if the connector's channel
is one of them it is still there. -/
structure Sound (s : ConnectorLoop) : Prop where
  handling : s.todo ≠ [] → s.connector.loop.eventHandling = true
  inDispatch : ∀ revents status, .connector revents status ∈ s.todo → InDispatch s.connector

theorem Sound.poll (s : ConnectorLoop) (active : List Active) : Sound (s.poll active) := by
  refine ⟨fun _ => rfl, fun revents status hmem => ⟨rfl, ?_⟩⟩
  obtain ⟨hactive, hreported⟩ := List.mem_filter.mp hmem
  obtain ⟨ptr, hptr⟩ := Option.isSome_iff_exists.mp hreported
  obtain ⟨channel, hchannel, hif⟩ := Option.bind_eq_some_iff.mp hptr
  refine ⟨channel, hchannel, List.mem_filterMap.mpr ⟨_, hactive, ?_⟩⟩
  rw [hptr]
  split at hif
  · exact hif.symm
  · cases hif

theorem Sound.handle {s t : ConnectorLoop} (h : Sound s) (ht : s.handle = .ok t) : Sound t := by
  obtain ⟨c, todo⟩ := s
  cases todo with
  | nil =>
    cases ht
    exact ⟨fun hne => absurd rfl hne, fun _ _ hmem => absurd hmem List.not_mem_nil⟩
  | cons a rest =>
    have hrest : ∀ revents status, .connector revents status ∈ rest → InDispatch c :=
      fun revents status hmem => h.inDispatch revents status (List.mem_cons_of_mem a hmem)
    cases a with
    | other ptr =>
      cases ht
      exact ⟨fun _ => h.handling (List.cons_ne_nil _ _), hrest⟩
    | connector revents status =>
      have hdispatch := h.inDispatch revents status List.mem_cons_self
      obtain ⟨d, hd, ht⟩ := bind_eq_ok.mp ht
      have hsame := hdispatch.handleEvent hd
      have hafter := (hdispatch.setEventHandling true).setEventHandling false
      rw [← hsame] at hafter
      cases ht
      exact ⟨fun _ => hafter.eventHandling, fun _ _ _ => hafter⟩

theorem step_sound (s : ConnectorLoop) (a : ConnectorStep) (t : ConnectorLoop) (h : Sound s)
    (ht : step s a = .ok t) : Sound t := by
  cases a with
  | call a =>
    obtain ⟨c, hc, ht⟩ := bind_eq_ok.mp ht
    have hsame := call_sameDispatch hc
    cases ht
    exact ⟨fun hne => hsame.eventHandling.trans (h.handling hne),
      fun revents status hmem => (h.inDispatch revents status hmem).same hsame⟩
  | poll active =>
    cases ht
    split
    · exact h
    · exact Sound.poll s active
  | handle => exact h.handle ht
  | functor r =>
    unfold step at ht
    dsimp only at ht
    split at ht
    · cases ht
      exact h
    · rename_i hidle
      -- Functors run only when nothing is left to be handled.
      have hdone : s.todo = [] := by
        by_contra hne
        exact hidle (h.handling hne)
      obtain ⟨c, -, ht⟩ := bind_eq_ok.mp ht
      cases ht
      exact ⟨fun hne => absurd hdone hne, fun revents status hmem => by simp [hdone] at hmem⟩

/-- An event of the connector's channel is handled as it should be exactly when it makes no
callback. -/
theorem Sound.handled_iff {s : ConnectorLoop} (h : Sound s) (a : ConnectorStep) :
    Handled s a ↔ NoCallback s a := by
  constructor
  · intro hhandled ha revents status rest htodo
    obtain ⟨t, ht, hends⟩ := hhandled ha revents status rest htodo
    have hdispatch := h.inDispatch revents status (by simp [htodo])
    unfold ConnectorLoop.handle at ht
    rw [htodo] at ht
    obtain ⟨d, hd, ht⟩ := bind_eq_ok.mp ht
    have hsame := hdispatch.handleEvent hd
    cases ht
    by_contra hdue
    obtain ⟨outcome, outcomes, hgrown⟩ := hends (by
      simp only [not_and_or, Bool.not_eq_false] at hdue
      exact hdue)
    have hsame : d.outcomes = s.connector.outcomes := by rw [hsame]; rfl
    simp [hsame] at hgrown
  · intro hquiet ha revents status rest htodo
    obtain ⟨herror, hwrite⟩ := hquiet ha revents status rest htodo
    refine ⟨{ connector := (s.connector.setEventHandling true).setEventHandling false, todo := rest },
      ?_, ?_⟩
    · simp [ConnectorLoop.handle, htodo, Connector.handleEvent, Channel.dispatch, herror, hwrite]
    · intro hdue
      simp [herror, hwrite] at hdue

/-- In every run of the loop, the events of the connector's channel are handled as they should be
exactly when none of them makes a callback of the connector. -/
theorem connector_events_handled_iff (newConnectionCallback : Bool) (steps : List ConnectorStep) :
    Along step Handled (new newConnectionCallback) steps ↔
      Along step NoCallback (new newConnectionCallback) steps :=
  along_congr step_sound (fun _ a h => h.handled_iff a)
    ⟨fun hne => absurd rfl hne, fun _ _ hmem => absurd hmem List.not_mem_nil⟩

/-- A connection that is there when the poller first reports the socket: the handler fails the
assertion of `EventLoop::removeChannel`. -/
theorem connected_socket_fails_assertion : ∃ s : ConnectorLoop,
    run step (new true) [.call (.start true ⟨5, 1, some .EINPROGRESS⟩),
      .poll [.connector POLLOUT ⟨false, false⟩]] = .ok s ∧
    s.todo = [.connector POLLOUT ⟨false, false⟩] ∧ ¬Handled s .handle ∧
    step s .handle = .error (.assertion .loopRemoveChannel) := by
  have heval : (run step (new true) [.call (.start true ⟨5, 1, some .EINPROGRESS⟩),
      .poll [.connector POLLOUT ⟨false, false⟩]] >>= fun s =>
        .ok (s.todo, match step s .handle with
          | .ok _ => none
          | .error fault => some fault)) =
      .ok ([.connector POLLOUT ⟨false, false⟩], some (.assertion .loopRemoveChannel)) := by
    decide +kernel
  obtain ⟨s, hs, heval⟩ := bind_eq_ok.mp heval
  simp only [Except.ok.injEq, Prod.mk.injEq] at heval
  obtain ⟨htodo, hfault⟩ := heval
  have hstep : step s .handle = .error (.assertion .loopRemoveChannel) := by
    split at hfault
    · cases hfault
    · rename_i fault h
      rw [h, Option.some.inj hfault]
  refine ⟨s, hs, htodo, ?_, hstep⟩
  intro hhandled
  obtain ⟨t, ht, -⟩ := hhandled rfl _ _ _ htodo
  change s.handle = _ at hstep
  rw [hstep] at ht
  cases ht

end ConnectorLoop

end Mymuduo

import Mathlib.Data.List.Nodup
import Mymuduo.Net.Connector

/-! The runs of a connector whose channel can be removed: the calls of `start` and `stop`, the
expiring retry timers, the events of the channel and the functors of the loop, in any order.  The
channel is unset, or waits in the poller for its socket, or has been removed and waits for the one
`resetChannel` that is queued. -/

namespace Mymuduo

open Lib

/-- The socket is connected or will be. -/
def ConnectResult.opens (r : ConnectResult) : Bool :=
  match r.savedErrno with
  | none | some .EINPROGRESS | some .EINTR | some .EISCONN => true
  | _ => false

/-- The connector will try again with another socket. -/
def ConnectResult.retried (r : ConnectResult) : Bool :=
  match r.savedErrno with
  | some .EAGAIN | some .EADDRINUSE | some .EADDRNOTAVAIL | some .ECONNREFUSED
  | some .ENETUNREACH => true
  | _ => false

namespace Connector

/-- What a connector is asked to do, and what happens to it: a retry timer expires, its channel has
events, or the functor at the head of the queue is run.  A call of `start` or `stop` on the loop's
thread is one step; on another thread it first stores `connect_` and then queues its functor, and
other steps can come in between. -/
inductive Step
  | start (r : ConnectResult)
  | stop
  | store (connect_ : Bool)
  | queue (connect_ : Bool)
  | retryTimer (r : ConnectResult)
  | event (revents : Events) (s : SocketStatus)
  | functor (r : ConnectResult)
  deriving DecidableEq, Repr

/-- The socket that is being connected through `channel_`, which is registered for writing. -/
def attempt (c : Connector) : Option Nat :=
  c.channel.bind fun channel =>
    if channel.isWriting && c.loop.poller.hasChannel channel then some channel.fd else none

/-- The descriptor of a new socket is not one that the poller has. -/
def Fresh (c : Connector) (r : ConnectResult) : Prop :=
  c.loop.poller.channels r.sockfd = none ∧ c.loop.poller.interest r.sockfd = none

instance (c : Connector) (r : ConnectResult) : Decidable (c.Fresh r) :=
  inferInstanceAs (Decidable (_ ∧ _))

/-- The step can be taken.  The kernel reports no events of a channel that is not registered. -/
def Possible (c : Connector) : Step → Prop
  | .start r | .functor r => c.Fresh r
  | .stop | .store _ | .queue _ => True
  | .retryTimer r => 0 < c.retryTimers ∧ c.Fresh r
  | .event _ _ => c.attempt.isSome = true

instance (c : Connector) (a : Step) : Decidable (c.Possible a) :=
  match a with
  | .start r | .functor r => inferInstanceAs (Decidable (c.Fresh r))
  | .stop | .store _ | .queue _ => .isTrue trivial
  | .retryTimer r => inferInstanceAs (Decidable (_ ∧ c.Fresh r))
  | .event _ _ => inferInstanceAs (Decidable (_ = true))

/-- The functor at the head of the queue is run. -/
def runPending (c : Connector) (r : ConnectResult) : Except Fault Connector :=
  match c.loop.pendingFunctors with
  | [] => .ok c
  | functor :: rest =>
    runFunctor r { c with loop := { c.loop with pendingFunctors := rest } } functor

def act (c : Connector) : Step → Except Fault Connector
  | .start r => c.start true r
  | .stop => .ok (c.stop true)
  | .store connect_ => .ok { c with connect_ := connect_ }
  | .queue connect_ =>
    let functor := if connect_ then .startInLoop else .stopInLoop
    .ok { c with loop := c.loop.queueInLoop false functor }
  | .retryTimer r => startInLoop { c with retryTimers := c.retryTimers - 1 } r
  | .event revents s => c.handleEvent revents s
  | .functor r => c.runPending r

def step (c : Connector) (a : Step) : Except Fault Connector :=
  if c.Possible a then c.act a else .ok c

/-- The call of `connect` in a step, if there is one: what it meets, and the number of retry timers
that are left. -/
def connects (c : Connector) (a : Step) : Option (ConnectResult × Nat) :=
  if c.Possible a then
    match a with
    | .start r => some (r, c.retryTimers)
    | .retryTimer r => if c.connect_ then some (r, c.retryTimers - 1) else none
    | .functor r =>
      if c.connect_ ∧ c.loop.pendingFunctors.head? = some .startInLoop then some (r, c.retryTimers)
      else none
    | _ => none
  else
    none

/-! ### The channel -/

/-- The channel waits in the poller for its socket. -/
structure Watched (channel : Channel) (l : EventLoop ConnectorFunctor) : Prop where
  tracks : l.poller.Tracks channel
  added : channel.index = .kAdded
  writing : channel.isWriting = true
  resets : l.pendingFunctors.count .resetChannel = 0

/-- The channel has been removed, and one functor is queued that will delete it. -/
structure Removed (channel : Channel) (l : EventLoop ConnectorFunctor) : Prop where
  unknown : l.poller.channels channel.fd = none
  notAdded : channel.addedToLoop = false
  resets : l.pendingFunctors.count .resetChannel = 1

inductive Phase : Option Channel → EventLoop ConnectorFunctor → Prop
  | unset {l : EventLoop ConnectorFunctor}
      (hresets : l.pendingFunctors.count .resetChannel = 0) : Phase none l
  | watched {channel : Channel} {l : EventLoop ConnectorFunctor} (h : Watched channel l) :
      Phase (some channel) l
  | removed {channel : Channel} {l : EventLoop ConnectorFunctor} (h : Removed channel l) :
      Phase (some channel) l

/-- The loop is not handling events, as far as the removal of channels goes, and the channel is in
one of its phases. -/
structure Kept (c : Connector) : Prop where
  loop : c.loop.eventHandling = false
  phase : Phase c.channel c.loop

/-- The state says whether a socket is being connected. -/
structure Sound (c : Connector) : Prop extends Kept c where
  connecting : c.state = .kConnecting → c.attempt.isSome = true
  connected : c.state = .kConnected → c.attempt = none

/-- The channel's events are not being handled. -/
def Idle (c : Connector) : Prop := ∀ channel ∈ c.channel, channel.eventHandling = false

/-- How often a descriptor has been closed or handed over, and whether it is held. -/
def account (c : Connector) (fd : Nat) : Nat :=
  c.outcomes.count (.close fd) + c.outcomes.count (.newConnection fd) +
    if c.attempt = some fd then 1 else 0

section

variable {c d : Connector} {channel : Channel} {r : ConnectResult}

theorem Watched.attempt (h : Watched channel c.loop) (hchannel : c.channel = some channel) :
    c.attempt = some channel.fd := by
  have htracks := h.tracks
  simp only [EPollPoller.Tracks, h.added] at htracks
  simp [Connector.attempt, hchannel, h.writing, EPollPoller.hasChannel, htracks.1]

theorem Removed.attempt (h : Removed channel c.loop) (hchannel : c.channel = some channel) :
    c.attempt = none := by
  simp [Connector.attempt, hchannel, EPollPoller.hasChannel, h.unknown]

theorem attempt_of_unset (hchannel : c.channel = none) : c.attempt = none := by
  rw [Connector.attempt, hchannel]
  rfl

/-- The channel of a socket that is being connected waits in the poller. -/
theorem Kept.watched {fd : Nat} (h : Kept c) (hattempt : c.attempt = some fd) :
    ∃ channel, c.channel = some channel ∧ Watched channel c.loop ∧ channel.fd = fd := by
  have hphase := h.phase
  cases hchannel : c.channel with
  | none =>
    rw [attempt_of_unset hchannel] at hattempt
    cases hattempt
  | some channel =>
    rw [hchannel] at hphase
    cases hphase with
    | watched hw =>
      rw [hw.attempt hchannel] at hattempt
      exact ⟨channel, rfl, hw, Option.some.inj hattempt⟩
    | removed hr =>
      rw [hr.attempt hchannel] at hattempt
      cases hattempt

theorem attempt_congr (hchannel : d.channel = c.channel) (hpoller : d.loop.poller = c.loop.poller) :
    d.attempt = c.attempt := by
  rw [attempt, attempt, hchannel, hpoller]

theorem Kept.congr (h : Kept c) (hchannel : d.channel = c.channel) (hloop : d.loop = c.loop) :
    Kept d := by
  refine ⟨by rw [hloop]; exact h.loop, ?_⟩
  rw [hchannel, hloop]
  exact h.phase

theorem Phase.congr {l l' : EventLoop ConnectorFunctor} {ch : Option Channel} (h : Phase ch l)
    (hpoller : l'.poller = l.poller)
    (hresets : l'.pendingFunctors.count .resetChannel = l.pendingFunctors.count .resetChannel) :
    Phase ch l' := by
  cases h with
  | unset h => exact .unset (hresets.trans h)
  | watched h => exact .watched ⟨hpoller ▸ h.tracks, h.added, h.writing, hresets.trans h.resets⟩
  | removed h => exact .removed ⟨hpoller ▸ h.unknown, h.notAdded, hresets.trans h.resets⟩

/-! ### What becomes of a socket -/

@[simp] theorem retry_channel (c : Connector) (fd : Nat) : (c.retry fd).channel = c.channel := by
  dsimp only [retry]
  split <;> rfl

@[simp] theorem retry_loop (c : Connector) (fd : Nat) : (c.retry fd).loop = c.loop := by
  dsimp only [retry]
  split <;> rfl

@[simp] theorem retry_connect_ (c : Connector) (fd : Nat) :
    (c.retry fd).connect_ = c.connect_ := by
  dsimp only [retry]
  split <;> rfl

@[simp] theorem retry_state (c : Connector) (fd : Nat) :
    (c.retry fd).state = .kDisconnected := by
  dsimp only [retry]
  split <;> rfl

@[simp] theorem retry_retryTimers (c : Connector) (fd : Nat) :
    (c.retry fd).retryTimers = c.retryTimers + if c.connect_ then 1 else 0 := by
  cases h : c.connect_ <;> simp [retry, record, h]

@[simp] theorem retry_attempt (c : Connector) (fd : Nat) : (c.retry fd).attempt = c.attempt :=
  attempt_congr (c.retry_channel fd) (by rw [retry_loop])

@[simp] theorem record_attempt (c : Connector) (outcome : Outcome) :
    (c.record outcome).attempt = c.attempt := rfl

theorem account_append {m : List Outcome} (hattempt : d.attempt = c.attempt)
    (houtcomes : d.outcomes = c.outcomes ++ m) (fd : Nat) :
    d.account fd = c.account fd + (m.count (.close fd) + m.count (.newConnection fd)) := by
  rw [account, account, hattempt, houtcomes, List.count_append, List.count_append]
  omega

/-- The descriptor is disposed of once by being closed. -/
theorem account_retry (c : Connector) (fd n : Nat) :
    (c.retry fd).account n = c.account n + if fd = n then 1 else 0 := by
  have houtcomes : (c.retry fd).outcomes = c.outcomes ++ .close fd ::
      if c.connect_ then [.runAfter c.retryDelayMs] else [] := by
    cases h : c.connect_ <;> simp [retry, record, h]
  rw [account_append (c.retry_attempt fd) houtcomes]
  cases c.connect_ <;> simp [List.count_cons]

theorem account_close (c : Connector) (fd n : Nat) :
    (c.record (.close fd)).account n = c.account n + if fd = n then 1 else 0 := by
  rw [account_append (c.record_attempt _) rfl]
  simp [List.count_cons]

theorem account_newConnection (c : Connector) (fd n : Nat) :
    (c.record (.newConnection fd)).account n = c.account n + if fd = n then 1 else 0 := by
  rw [account_append (c.record_attempt _) rfl]
  simp [List.count_cons]

/-! ### The calls -/

/-- A socket that is being connected is taken from its channel. -/
theorem removeAndResetChannel_spec {fd : Nat} (h : Kept c) (hattempt : c.attempt = some fd) :
    ∃ channel loop, c.removeAndResetChannel =
        .ok ({ c with channel := some channel, loop := loop }, fd) ∧
      Kept { c with channel := some channel, loop := loop } ∧
      attempt { c with channel := some channel, loop := loop } = none ∧
      (Idle c → channel.eventHandling = false) := by
  obtain ⟨channel, hchannel, hw, rfl⟩ := h.watched hattempt
  obtain ⟨c₁, l₁, h₁, hupd⟩ := Channel.update_spec hw.tracks (channel.events &&& Channel.kNoneEvent)
  obtain ⟨hframe, hknown⟩ := Channel.update_frame h₁
  have hnone : c₁.events = Channel.kNoneEvent := by
    rw [hupd.events_eq]
    exact BitVec.and_zero
  have hl₁ : l₁.eventHandling = false := by
    rw [hupd.loop_eq]
    exact h.loop
  have hpending : l₁.pendingFunctors = c.loop.pendingFunctors := by rw [hupd.loop_eq]
  obtain ⟨q, h₂, htracks⟩ := Channel.remove_spec hupd.tracks hnone hknown
    (by simp [hl₁])
  have hremoved : Removed { c₁ with index := .kNew, addedToLoop := false }
      (EventLoop.queueInLoop { l₁ with poller := q } true .resetChannel) := by
    refine ⟨?_, rfl, ?_⟩
    · rw [EventLoop.queueInLoop_poller]
      exact htracks.1
    · rw [EventLoop.queueInLoop_pendingFunctors, hpending, List.count_append, hw.resets]
      rfl
  refine ⟨{ c₁ with index := .kNew, addedToLoop := false },
    EventLoop.queueInLoop { l₁ with poller := q } true .resetChannel, ?_, ⟨?_, .removed hremoved⟩,
    hremoved.attempt rfl, ?_⟩
  · have hdisable : channel.disableAll c.loop = .ok (c₁, l₁) := h₁
    rw [removeAndResetChannel, hchannel]
    dsimp only
    rw [hdisable, ok_bind, h₂]
    dsimp only [ok_bind]
    rw [← hupd.fd_eq]
    rfl
  · rw [EventLoop.queueInLoop_eventHandling]
    exact hl₁
  · intro hidle
    rw [hframe]
    exact hidle channel hchannel

/-- What is left of a connector whose socket has been taken from its channel. -/
structure Taken (c : Connector) (fd : Nat) (d : Connector) : Prop where
  kept : Kept d
  attempt : d.attempt = none
  idle : Idle c → Idle d
  state : d.state = c.state
  connect_ : d.connect_ = c.connect_
  account : ∀ n, d.account n + (if fd = n then 1 else 0) = c.account n

theorem taken {fd : Nat} (h : Kept c) (hattempt : c.attempt = some fd) :
    ∃ d, c.removeAndResetChannel = .ok (d, fd) ∧ Taken c fd d := by
  obtain ⟨channel, loop, hremove, hkept, hnone, hidle⟩ := removeAndResetChannel_spec h hattempt
  refine ⟨_, hremove, hkept, hnone, ?_, rfl, rfl, ?_⟩
  · intro hc ch hch
    cases hch
    exact hidle hc
  · intro n
    rw [Connector.account, Connector.account, hnone, hattempt]
    simp

/-- What a step does in which no socket is opened: it accounts for every descriptor as before, and
it ends the attempt or leaves it alone. -/
structure Tidies (c d : Connector) : Prop where
  account : ∀ fd, d.account fd = c.account fd
  quiet : d.attempt = none ∨ d.attempt = c.attempt ∧ d.retryTimers ≤ c.retryTimers
  connect_ : d.connect_ = true → c.connect_ = true

theorem Tidies.refl (c : Connector) : Tidies c c := ⟨fun _ => rfl, .inr ⟨rfl, Nat.le_refl _⟩, id⟩

theorem Tidies.trans {e : Connector} (h : Tidies c d) (h' : Tidies d e) : Tidies c e := by
  refine ⟨fun fd => (h'.account fd).trans (h.account fd), ?_, fun he => h.connect_ (h'.connect_ he)⟩
  rcases h'.quiet with hnone | ⟨hattempt, htimers⟩
  · exact .inl hnone
  · rcases h.quiet with hnone' | ⟨hattempt', htimers'⟩
    · exact .inl (hattempt.trans hnone')
    · exact .inr ⟨hattempt.trans hattempt', Nat.le_trans htimers htimers'⟩

theorem Sound.congr (h : Sound c) (hchannel : d.channel = c.channel) (hloop : d.loop = c.loop)
    (hstate : d.state = c.state) : Sound d := by
  have hattempt : d.attempt = c.attempt := attempt_congr hchannel (by rw [hloop])
  refine ⟨h.toKept.congr hchannel hloop, ?_, ?_⟩
  · rw [hstate, hattempt]
    exact h.connecting
  · rw [hstate, hattempt]
    exact h.connected

/-- A connector that is neither connecting nor connected is sound. -/
theorem Kept.sound (h : Kept c) (hstate : c.state = .kDisconnected) : Sound c := by
  refine ⟨h, ?_, ?_⟩ <;> simp [hstate]

theorem Kept.retry (h : Kept c) (fd : Nat) : Sound (c.retry fd) :=
  (h.congr (c.retry_channel fd) (c.retry_loop fd)).sound (c.retry_state fd)

theorem Idle.retry (h : Idle c) (fd : Nat) : Idle (c.retry fd) := by
  rw [Idle, retry_channel]
  exact h

/-- The socket is closed, and another one is tried later if the connector is to connect. -/
theorem Taken.retry {fd : Nat} (h : Taken c fd d) :
    Sound (d.retry fd) ∧ Tidies c (d.retry fd) ∧ (Idle c → Idle (d.retry fd)) := by
  refine ⟨h.kept.retry fd, ⟨?_, .inl ?_, ?_⟩, fun hidle => (h.idle hidle).retry fd⟩
  · intro n
    rw [account_retry, h.account]
  · rw [retry_attempt]
    exact h.attempt
  · rw [retry_connect_, h.connect_]
    exact id

theorem handleError_spec (h : Sound c) (hconnected : c.state ≠ .kConnected) :
    ∃ d, c.handleError = .ok d ∧ Sound d ∧ Tidies c d ∧ d.state ≠ .kConnected := by
  unfold handleError
  split
  · rename_i hstate
    obtain ⟨fd, hattempt⟩ := Option.isSome_iff_exists.mp (h.connecting hstate)
    obtain ⟨d, hremove, htaken⟩ := taken h.toKept hattempt
    rw [hremove]
    exact ⟨_, rfl, htaken.retry.1, htaken.retry.2.1, by simp⟩
  · exact ⟨c, rfl, h, .refl c, hconnected⟩

/-- A socket that is connected is handed over or closed. -/
theorem Taken.connected {fd : Nat} (h : Taken c fd d) {outcome : Outcome}
    (houtcome : outcome = .newConnection fd ∨ outcome = .close fd) :
    Sound (record { d with state := .kConnected } outcome) ∧
      Tidies c (record { d with state := .kConnected } outcome) := by
  have hattempt : (record { d with state := .kConnected } outcome).attempt = none := h.attempt
  refine ⟨⟨h.kept.congr rfl rfl, ?_, fun _ => hattempt⟩, ?_, .inl hattempt, ?_⟩
  · intro hstate
    cases hstate
  · intro n
    have haccount : ({ d with state := .kConnected } : Connector).account n = d.account n := rfl
    rcases houtcome with rfl | rfl
    · rw [account_newConnection, haccount, h.account]
    · rw [account_close, haccount, h.account]
  · intro hconnect
    rw [← h.connect_]
    exact hconnect

theorem handleWrite_spec (h : Sound c) (hconnected : c.state ≠ .kConnected)
    (s : SocketStatus) : ∃ d, c.handleWrite s = .ok d ∧ Sound d ∧ Tidies c d := by
  unfold handleWrite
  split
  · rename_i hstate
    obtain ⟨fd, hattempt⟩ := Option.isSome_iff_exists.mp (h.connecting hstate)
    obtain ⟨d, hremove, htaken⟩ := taken h.toKept hattempt
    rw [hremove, ok_bind]
    dsimp only
    by_cases hfail : s.error = true ∨ s.selfConnect = true
    · have hretry : (if s.error = true then (pure (d.retry fd) : Except Fault Connector)
          else if s.selfConnect = true then pure (d.retry fd) else
            if d.connect_ = true then
              if d.newConnectionCallback = true then
                pure (record { d with state := .kConnected } (.newConnection fd))
              else pure (record { d with state := .kConnected } (.close fd))
            else pure (record { d with state := .kConnected } (.close fd))) =
          .ok (d.retry fd) := by
        rcases hfail with hfail | hfail
        · rw [if_pos hfail]
          rfl
        · rw [if_pos hfail, ite_self]
          rfl
      exact ⟨_, hretry, htaken.retry.1, htaken.retry.2.1⟩
    · obtain ⟨herror, hself⟩ := not_or.mp hfail
      rw [if_neg herror, if_neg hself]
      split
      · split
        · exact ⟨_, rfl, htaken.connected (.inl rfl)⟩
        · exact ⟨_, rfl, htaken.connected (.inr rfl)⟩
      · exact ⟨_, rfl, htaken.connected (.inr rfl)⟩
  · rename_i hstate
    have hdisconnected : c.state = .kDisconnected := by
      cases hs : c.state with
      | kDisconnected => rfl
      | kConnecting => exact absurd hs hstate
      | kConnected => exact absurd hs hconnected
    rw [hdisconnected]
    exact ⟨c, rfl, h, .refl c⟩

theorem attempt_setEventHandling (c : Connector) (eventHandling : Bool) :
    (c.setEventHandling eventHandling).attempt = c.attempt := by
  unfold attempt setEventHandling
  cases c.channel <;> rfl

theorem Sound.setEventHandling (h : Sound c) (eventHandling : Bool) :
    Sound (c.setEventHandling eventHandling) ∧ Tidies c (c.setEventHandling eventHandling) := by
  have hattempt := c.attempt_setEventHandling eventHandling
  refine ⟨⟨⟨h.loop, ?_⟩, ?_, ?_⟩, ?_, .inr ⟨hattempt, Nat.le_refl _⟩, id⟩
  · have hphase := h.phase
    unfold Connector.setEventHandling
    cases hchannel : c.channel with
    | none =>
      rw [hchannel] at hphase
      exact hphase
    | some channel =>
      rw [hchannel] at hphase
      cases hphase with
      | watched hw => exact .watched ⟨hw.tracks, hw.added, hw.writing, hw.resets⟩
      | removed hr => exact .removed ⟨hr.unknown, hr.notAdded, hr.resets⟩
  · rw [hattempt]
    exact h.connecting
  · rw [hattempt]
    exact h.connected
  · intro fd
    rw [account, account, hattempt]
    rfl

theorem idle_setEventHandling (c : Connector) : Idle (c.setEventHandling false) := by
  intro channel hchannel
  obtain ⟨old, -, rfl⟩ := Option.map_eq_some_iff.mp hchannel
  rfl

theorem handleEvent_spec (h : Sound c) (hattempt : c.attempt.isSome = true) (revents : Events)
    (s : SocketStatus) :
    ∃ d, c.handleEvent revents s = .ok d ∧ Sound d ∧ Idle d ∧ Tidies c d := by
  have hconnected : c.state ≠ .kConnected := by
    intro hstate
    rw [h.connected hstate] at hattempt
    cases hattempt
  obtain ⟨hstart, htidies⟩ := h.setEventHandling true
  have herror : ∃ d, Channel.callIf (revents.has (POLLERR ||| POLLNVAL)) (some handleError)
      (c.setEventHandling true) = .ok d ∧ Sound d ∧ Tidies c d ∧ d.state ≠ .kConnected := by
    cases revents.has (POLLERR ||| POLLNVAL) with
    | false => exact ⟨_, rfl, hstart, htidies, hconnected⟩
    | true =>
      obtain ⟨d, hd, hsound, hmore, hstate⟩ := handleError_spec hstart hconnected
      exact ⟨d, hd, hsound, htidies.trans hmore, hstate⟩
  obtain ⟨d, hd, hsound, htidies, hstate⟩ := herror
  have hwrite : ∃ e, Channel.callIf (revents.has POLLOUT) (some (handleWrite s)) d = .ok e ∧
      Sound e ∧ Tidies c e := by
    cases revents.has POLLOUT with
    | false => exact ⟨d, rfl, hsound, htidies⟩
    | true =>
      obtain ⟨e, he, hsound, hmore⟩ := handleWrite_spec hsound hstate s
      exact ⟨e, he, hsound, htidies.trans hmore⟩
  obtain ⟨e, he, hsound, htidies⟩ := hwrite
  obtain ⟨hend, hmore⟩ := hsound.setEventHandling false
  refine ⟨e.setEventHandling false, ?_, hend, idle_setEventHandling e, htidies.trans hmore⟩
  rw [handleEvent, Channel.dispatch, Channel.callIf_none, ok_bind, hd, ok_bind,
    Channel.callIf_none, ok_bind, he]
  rfl

theorem stopInLoop_spec (h : Sound c) (hidle : Idle c) :
    ∃ d, c.stopInLoop = .ok d ∧ Sound d ∧ Idle d ∧ Tidies c d := by
  unfold stopInLoop
  split
  · rename_i hstate
    obtain ⟨fd, hattempt⟩ := Option.isSome_iff_exists.mp (h.connecting hstate)
    obtain ⟨d, hremove, htaken⟩ := taken (c := { c with state := .kDisconnected })
      (h.toKept.congr rfl rfl) hattempt
    rw [hremove]
    obtain ⟨hsound, htidies, hidle'⟩ := htaken.retry
    exact ⟨_, rfl, hsound, hidle' hidle, htidies.account, htidies.quiet, htidies.connect_⟩
  · exact ⟨c, rfl, h, hidle, .refl c⟩

/-- Functors are queued or taken from the queue, and the number of those that will delete the
channel is the same. -/
theorem Sound.setFunctors (h : Sound c) {functors : List ConnectorFunctor}
    (hresets : functors.count .resetChannel = c.loop.pendingFunctors.count .resetChannel) :
    Sound { c with loop := { c.loop with pendingFunctors := functors } } :=
  ⟨⟨h.loop, h.phase.congr rfl hresets⟩, h.connecting, h.connected⟩

theorem Sound.queueInLoop (h : Sound c) (isInLoopThread : Bool) {f : ConnectorFunctor}
    (hf : f ≠ .resetChannel) (connect_ : Bool) :
    Sound { c with connect_ := connect_, loop := c.loop.queueInLoop isInLoopThread f } := by
  have hattempt : ({ c with
      connect_ := connect_, loop := c.loop.queueInLoop isInLoopThread f } : Connector).attempt =
        c.attempt := attempt_congr rfl (EventLoop.queueInLoop_poller _ _ _)
  refine ⟨⟨?_, ?_⟩, ?_, ?_⟩
  · exact (EventLoop.queueInLoop_eventHandling _ _ _).trans h.loop
  · apply h.phase.congr (EventLoop.queueInLoop_poller _ _ _)
    rw [EventLoop.queueInLoop_pendingFunctors, List.count_append]
    simp [hf]
  · rw [hattempt]
    exact h.connecting
  · rw [hattempt]
    exact h.connected

/-- The functor that deletes the channel finds it removed. -/
theorem resetChannel_spec (h : Sound c) (hidle : Idle c) {rest : List ConnectorFunctor}
    (hfunctors : c.loop.pendingFunctors = .resetChannel :: rest) :
    ∃ d, resetChannel { c with loop := { c.loop with pendingFunctors := rest } } = .ok d ∧
      Sound d ∧ Idle d ∧ Tidies c d := by
  have hphase := h.phase
  cases hchannel : c.channel with
  | none =>
    rw [hchannel] at hphase
    cases hphase with
    | unset hresets => simp [hfunctors] at hresets
  | some channel =>
    rw [hchannel] at hphase
    cases hphase with
    | watched hw =>
      have hresets := hw.resets
      simp [hfunctors] at hresets
    | removed hr =>
      have hnone := hr.attempt hchannel
      have hresets : rest.count .resetChannel = 0 := by
        have hone := hr.resets
        rw [hfunctors, List.count_cons_self] at hone
        omega
      have hdestroy : channel.destroy { c.loop with pendingFunctors := rest } = .ok () := by
        simp [Channel.destroy, hr.notAdded, hidle channel hchannel, EPollPoller.hasChannel,
          hr.unknown]
      refine ⟨{ c with loop := { c.loop with pendingFunctors := rest }, channel := none }, ?_,
        ⟨⟨h.loop, .unset hresets⟩, ?_, fun _ => rfl⟩, ?_, ?_, .inl rfl, id⟩
      · rw [resetChannel]
        dsimp only
        rw [hdestroy]
        rfl
      · intro hstate
        have hsome := h.connecting hstate
        rw [hnone] at hsome
        exact hsome
      · intro ch hch
        cases hch
      · intro fd
        rw [account, account, hnone]
        rfl

theorem connect_eq (c : Connector) (r : ConnectResult) :
    c.connect r =
      if r.opens then c.connecting r.sockfd r.ptr
      else if r.retried then .ok (c.retry r.sockfd)
      else .ok (c.record (.close r.sockfd)) := by
  obtain ⟨sockfd, ptr, savedErrno⟩ := r
  cases savedErrno with
  | none => rfl
  | some e => cases e <;> rfl

/-- A new channel is entered in the poller. -/
theorem connecting_spec (h : Kept c) (hfresh : c.Fresh r) (hchannel : c.channel = none) :
    ∃ channel loop, c.connecting r.sockfd r.ptr =
        .ok { c with state := .kConnecting, channel := some channel, loop := loop } ∧
      Kept { c with state := .kConnecting, channel := some channel, loop := loop } ∧
      attempt { c with state := .kConnecting, channel := some channel, loop := loop } =
        some r.sockfd ∧
      channel.eventHandling = false := by
  obtain ⟨hunknown, habsent⟩ := hfresh
  have hresets : c.loop.pendingFunctors.count .resetChannel = 0 := by
    have hphase := h.phase
    rw [hchannel] at hphase
    cases hphase with
    | unset hresets => exact hresets
  have hnew : c.loop.poller.Tracks (.new r.ptr r.sockfd) := ⟨hunknown, habsent⟩
  obtain ⟨channel, loop, hupdate, hupd⟩ := Channel.update_spec hnew
    (Channel.kNoneEvent ||| Channel.kWriteEvent)
  obtain ⟨hframe, -⟩ := Channel.update_frame hupdate
  have hadded : channel.index = .kAdded := by
    obtain ⟨⟨p, d⟩, hp, hd⟩ := bind_eq_ok.mp hupdate
    cases hd
    obtain ⟨u, -, hp⟩ := bind_eq_ok.mp hp
    obtain ⟨q, -, hp⟩ := bind_eq_ok.mp hp
    cases hp
    rfl
  have hwatched : Watched channel loop := by
    refine ⟨hupd.tracks, hadded, ?_, ?_⟩
    · rw [Channel.isWriting, hupd.events_eq]
      rfl
    · rw [hupd.loop_eq]
      exact hresets
  have hfd : channel.fd = r.sockfd := hupd.fd_eq
  refine ⟨channel, loop, ?_, ⟨?_, .watched hwatched⟩, ?_, by rw [hframe]; rfl⟩
  · have henable : Channel.enableWriting (.new r.ptr r.sockfd) c.loop = .ok (channel, loop) :=
      hupdate
    rw [connecting]
    dsimp only
    rw [hchannel, Option.isNone_none, check_true, ok_bind, henable]
    rfl
  · show loop.eventHandling = false
    rw [hupd.loop_eq]
    exact h.loop
  · rw [hwatched.attempt rfl, hfd]

/-- What `connect` does with a new socket. -/
inductive Connects (c : Connector) (r : ConnectResult) (d : Connector) : Prop
  | opened (hopens : r.opens = true) (hchannel : c.channel = none)
      (hstate : d.state = .kConnecting) (hattempt : d.attempt = some r.sockfd)
      (htimers : d.retryTimers = c.retryTimers)
  | retried (hopens : r.opens = false) (hretried : r.retried = true)
      (hstate : d.state = .kDisconnected) (hattempt : d.attempt = c.attempt)
      (htimers : d.retryTimers = c.retryTimers + if c.connect_ then 1 else 0)
  | closed (hopens : r.opens = false) (hretried : r.retried = false) (hstate : d.state = c.state)
      (hattempt : d.attempt = c.attempt) (htimers : d.retryTimers = c.retryTimers)

theorem connect_spec (h : Kept c) (hidle : Idle c) (hfresh : c.Fresh r) :
    (r.opens = true ∧ c.channel ≠ none ∧ c.connect r = .error (.assertion .connecting)) ∨
    ∃ d, c.connect r = .ok d ∧ Kept d ∧ Idle d ∧ d.connect_ = c.connect_ ∧
      (∀ fd, d.account fd = c.account fd + if r.sockfd = fd then 1 else 0) ∧ Connects c r d := by
  rw [connect_eq]
  cases hopens : r.opens with
  | true =>
    rw [if_pos rfl]
    cases hchannel : c.channel with
    | some channel =>
      left
      refine ⟨rfl, by simp, ?_⟩
      simp [connecting, hchannel]
    | none =>
      right
      obtain ⟨channel, loop, hconnecting, hkept, hattempt, hflag⟩ := connecting_spec h hfresh hchannel
      refine ⟨_, hconnecting, hkept, ?_, rfl, ?_, .opened hopens hchannel rfl hattempt rfl⟩
      · intro ch hch
        cases hch
        exact hflag
      · intro fd
        rw [account, account, hattempt, attempt_of_unset hchannel]
        simp
  | false =>
    right
    rw [if_neg (by simp)]
    cases hretried : r.retried with
    | true =>
      rw [if_pos rfl]
      exact ⟨_, rfl, h.congr (c.retry_channel _) (c.retry_loop _), hidle.retry _,
        c.retry_connect_ _, c.account_retry _, .retried hopens hretried (c.retry_state _)
        (c.retry_attempt _) (c.retry_retryTimers _)⟩
    | false =>
      rw [if_neg (by simp)]
      exact ⟨_, rfl, h.congr rfl rfl, hidle, rfl, c.account_close _,
        .closed hopens hretried rfl rfl rfl⟩

/-- A sound connector stays one, if the call returns. -/
theorem Connects.sound (h : Connects c r d) (hkept : Kept d) (hsound : Sound c) : Sound d := by
  cases h with
  | opened hopens hchannel hstate hattempt htimers =>
    refine ⟨hkept, ?_, ?_⟩ <;> simp [hstate, hattempt]
  | retried hopens hretried hstate hattempt htimers => exact hkept.sound hstate
  | closed hopens hretried hstate hattempt htimers =>
    refine ⟨hkept, ?_, ?_⟩
    · rw [hstate, hattempt]
      exact hsound.connecting
    · rw [hstate, hattempt]
      exact hsound.connected

/-! ### The steps -/

/-- A step that opens a socket does nothing else to the channel and the sockets. -/
theorem step_connects {a : Step} {n : Nat} (h : Sound c) (hidle : Idle c)
    (ha : c.connects a = some (r, n)) :
    ∃ e, c.step a = e.connect r ∧ Sound e ∧ Idle e ∧ e.Fresh r ∧ e.channel = c.channel ∧
      e.attempt = c.attempt ∧ e.retryTimers = n ∧ e.connect_ = true ∧
      ∀ fd, e.account fd = c.account fd := by
  unfold connects at ha
  split at ha
  · rename_i hpossible
    rw [step, if_pos hpossible]
    cases a with
    | start r' =>
      cases ha
      refine ⟨{ c with connect_ := true }, ?_, h.congr rfl rfl rfl, hidle, hpossible, rfl, rfl, rfl,
        rfl, fun _ => rfl⟩
      simp [act, start, startInLoop]
    | stop => cases ha
    | store connect_ => cases ha
    | queue connect_ => cases ha
    | retryTimer r' =>
      dsimp only at ha
      split at ha
      · rename_i hconnect
        cases ha
        refine ⟨{ c with retryTimers := c.retryTimers - 1 }, ?_, h.congr rfl rfl rfl, hidle,
          hpossible.2, rfl, rfl, rfl, hconnect, fun _ => rfl⟩
        simp [act, startInLoop, hconnect]
      · cases ha
    | event revents s => cases ha
    | functor r' =>
      dsimp only at ha
      split at ha
      · rename_i hhead
        obtain ⟨hconnect, hhead⟩ := hhead
        cases ha
        obtain ⟨rest, hfunctors⟩ := List.head?_eq_some_iff.mp hhead
        have hresets : rest.count .resetChannel =
            c.loop.pendingFunctors.count .resetChannel := by simp [hfunctors]
        refine ⟨{ c with loop := { c.loop with pendingFunctors := rest } }, ?_,
          h.setFunctors hresets, hidle, hpossible, rfl, rfl, rfl, hconnect, fun _ => rfl⟩
        simp [act, runPending, hfunctors, runFunctor, startInLoop, hconnect]
      · cases ha
  · cases ha

/-- What a step leaves that opens no socket. -/
structure Quiet (c : Connector) (a : Step) (d : Connector) : Prop where
  sound : Sound d
  idle : Idle d
  account : ∀ fd, d.account fd = c.account fd
  quiet : d.attempt = none ∨ d.attempt = c.attempt ∧ d.retryTimers ≤ c.retryTimers
  connect_ : a ≠ .store true → d.connect_ = true → c.connect_ = true

theorem Tidies.toQuiet {a : Step} (h : Tidies c d) (hsound : Sound d) (hidle : Idle d) :
    Quiet c a d :=
  ⟨hsound, hidle, h.account, h.quiet, fun _ => h.connect_⟩

theorem runPending_quiet (h : Sound c) (hidle : Idle c)
    (hhead : c.connect_ = true → c.loop.pendingFunctors.head? ≠ some .startInLoop) :
    ∃ d, c.runPending r = .ok d ∧ Quiet c (.functor r) d := by
  unfold runPending
  split
  · exact ⟨c, rfl, (Tidies.refl c).toQuiet h hidle⟩
  · rename_i f rest hfunctors
    have hresets : f ≠ .resetChannel →
        rest.count .resetChannel = c.loop.pendingFunctors.count .resetChannel := by
      intro hf
      simp [hfunctors, hf]
    cases f with
    | startInLoop =>
      have hconnect : c.connect_ = false := by
        cases hc : c.connect_ with
        | false => rfl
        | true => exact absurd (by simp [hfunctors]) (hhead hc)
      refine ⟨{ c with loop := { c.loop with pendingFunctors := rest } }, ?_,
        h.setFunctors (hresets (by simp)), hidle, fun _ => rfl, .inr ⟨rfl, Nat.le_refl _⟩,
        fun _ => id⟩
      simp [runFunctor, startInLoop, hconnect]
    | stopInLoop =>
      obtain ⟨d, hd, hsound, hidle', htidies⟩ := stopInLoop_spec
        (h.setFunctors (hresets (by simp))) hidle
      exact ⟨d, hd, hsound, hidle', htidies.account, htidies.quiet, fun _ => htidies.connect_⟩
    | resetChannel =>
      obtain ⟨d, hd, hsound, hidle', htidies⟩ := resetChannel_spec h hidle hfunctors
      exact ⟨d, hd, htidies.toQuiet hsound hidle'⟩

/-- Any other step returns. -/
theorem step_quiet {a : Step} (h : Sound c) (hidle : Idle c) (ha : c.connects a = none) :
    ∃ d, c.step a = .ok d ∧ Quiet c a d := by
  unfold connects at ha
  by_cases hpossible : c.Possible a
  · rw [if_pos hpossible] at ha
    rw [step, if_pos hpossible]
    cases a with
    | start r' => cases ha
    | stop =>
      have hsound := h.queueInLoop true (f := .stopInLoop) (by simp) false
      have hattempt : (c.stop true).attempt = c.attempt :=
        attempt_congr rfl (EventLoop.queueInLoop_poller _ _ _)
      refine ⟨_, rfl, hsound, hidle, ?_, .inr ⟨hattempt, Nat.le_refl _⟩, ?_⟩
      · intro fd
        simp [account_append hattempt (m := []) (List.append_nil _).symm]
      · intro _ hconnect
        cases hconnect
    | store connect_ =>
      refine ⟨_, rfl, h.congr rfl rfl rfl, hidle, fun _ => rfl, .inr ⟨rfl, Nat.le_refl _⟩, ?_⟩
      intro hne hconnect
      exact absurd (congrArg Step.store hconnect) hne
    | queue connect_ =>
      obtain ⟨f, hf, hqueued⟩ : ∃ f : ConnectorFunctor, f ≠ .resetChannel ∧
          c.act (.queue connect_) = .ok { c with loop := c.loop.queueInLoop false f } := by
        cases connect_
        · exact ⟨.stopInLoop, by simp, rfl⟩
        · exact ⟨.startInLoop, by simp, rfl⟩
      have hattempt : ({ c with loop := c.loop.queueInLoop false f } : Connector).attempt =
          c.attempt := attempt_congr rfl (EventLoop.queueInLoop_poller _ _ _)
      refine ⟨_, hqueued, h.queueInLoop false hf c.connect_, hidle, ?_, .inr ⟨hattempt, Nat.le_refl _⟩,
        fun _ => id⟩
      intro fd
      simp [account_append hattempt (m := []) (List.append_nil _).symm]
    | retryTimer r' =>
      have hconnect : c.connect_ = false := by
        cases hc : c.connect_ with
        | false => rfl
        | true => simp [hc] at ha
      refine ⟨{ c with retryTimers := c.retryTimers - 1 }, ?_, h.congr rfl rfl rfl, hidle,
        fun _ => rfl, .inr ⟨rfl, Nat.sub_le _ _⟩, fun _ => id⟩
      simp [act, startInLoop, hconnect]
    | event revents s =>
      obtain ⟨d, hd, hsound, hidle', htidies⟩ := handleEvent_spec h hpossible revents s
      exact ⟨d, hd, htidies.toQuiet hsound hidle'⟩
    | functor r' =>
      apply runPending_quiet h hidle
      intro hconnect hhead
      simp [hconnect, hhead] at ha
  · rw [step, if_neg hpossible]
    exact ⟨c, rfl, (Tidies.refl c).toQuiet h hidle⟩

/-- The sockets that a step creates. -/
def created (c : Connector) (a : Step) : List Nat :=
  (c.connects a).toList.map fun call => call.1.sockfd

/-- A step returns, and accounts for the socket that it creates, or it finds a channel where it
wants to put one. -/
theorem step_returns (h : Sound c) (hidle : Idle c) (a : Step) :
    (∃ d, c.step a = .ok d ∧ Sound d ∧ Idle d ∧
      ∀ fd, d.account fd = c.account fd + (c.created a).count fd) ∨
    c.step a = .error (.assertion .connecting) := by
  cases ha : c.connects a with
  | some call =>
    obtain ⟨r, timers⟩ := call
    obtain ⟨e, hstep, hsound, hidle', hfresh, -, -, -, -, haccount⟩ := step_connects h hidle ha
    rw [hstep]
    obtain ⟨-, -, herror⟩ | ⟨d, hd, hkept, hidled, -, haccount', hconnects⟩ :=
      connect_spec hsound.toKept hidle' hfresh
    · exact .inr herror
    · refine .inl ⟨d, hd, hconnects.sound hkept hsound, hidled, ?_⟩
      intro fd
      rw [haccount', haccount]
      simp [created, ha, List.count_cons]
  | none =>
    obtain ⟨d, hd, hquiet⟩ := step_quiet h hidle ha
    refine .inl ⟨d, hd, hquiet.sound, hquiet.idle, ?_⟩
    intro fd
    rw [hquiet.account]
    simp [created, ha]

theorem sound_new (newConnectionCallback : Bool) : Sound (new .new newConnectionCallback) := by
  refine ⟨⟨rfl, .unset rfl⟩, ?_, ?_⟩
  · intro hstate
    cases hstate
  · intro _
    rfl

theorem idle_new (newConnectionCallback : Bool) : Idle (new .new newConnectionCallback) := by
  intro channel hchannel
  cases hchannel

/-! ### The sockets of a run -/

theorem account_run (newConnectionCallback : Bool) {steps : List Step} {t : Connector}
    (ht : run step (new .new newConnectionCallback) steps = .ok t) (fd : Nat) :
    t.account fd = (trace step created (new .new newConnectionCallback) steps).count fd := by
  have hstep : ∀ c l a d, ((Sound c ∧ Idle c) ∧ ∀ fd, c.account fd = l.count fd) →
      c.step a = .ok d →
      (Sound d ∧ Idle d) ∧ ∀ fd, d.account fd = (l ++ c.created a).count fd := by
    rintro c l a d ⟨⟨h, hidle⟩, haccount⟩ hd
    obtain ⟨d', hd', hsound, hidle', hnew⟩ | herror := step_returns h hidle a
    · cases hd.symm.trans hd'
      refine ⟨⟨hsound, hidle'⟩, ?_⟩
      intro n
      rw [hnew, haccount, List.count_append]
    · rw [herror] at hd
      cases hd
  exact (trace_invariant hstep (l := []) ⟨⟨sound_new _, idle_new _⟩, fun _ => rfl⟩ ht).2 fd

/-- In every run of the calls of `start` and `stop` from any thread, the retry timers, the events and
the functors, in which the sockets that are created have distinct descriptors: each of them is
either held by the registered channel, or has been closed once, or has been handed over once.  The
run stops only where `connecting` finds a channel. -/
theorem sockets_accounted (newConnectionCallback : Bool) (steps : List Step)
    (hdistinct : (trace step created (new .new newConnectionCallback) steps).Nodup) :
    (∀ t, run step (new .new newConnectionCallback) steps = .ok t →
      ∀ fd ∈ trace step created (new .new newConnectionCallback) steps,
        t.outcomes.count (.close fd) + t.outcomes.count (.newConnection fd) +
          (if t.attempt = some fd then 1 else 0) = 1) ∧
    ∀ f, run step (new .new newConnectionCallback) steps = .error f →
      f = .assertion .connecting := by
  constructor
  · intro t ht fd hfd
    exact (account_run newConnectionCallback ht fd).trans
      (List.count_eq_one_of_mem hdistinct hfd)
  · intro f hf
    apply run_fault (I := fun c => Sound c ∧ Idle c) _ ⟨sound_new _, idle_new _⟩ hf
    rintro c a ⟨h, hidle⟩
    obtain ⟨d, hd, hsound, hidle', -⟩ | herror := step_returns h hidle a
    · exact .inl ⟨d, hd, hsound, hidle'⟩
    · exact .inr herror

/-- A refused socket is closed, the one of the retry is handed over, and the third one is held. -/
theorem sockets_accounted_three :
    let steps : List Step := [.start ⟨5, 0, some .ECONNREFUSED⟩,
      .retryTimer ⟨6, 0, some .EINPROGRESS⟩, .event POLLOUT ⟨false, false⟩, .functor ⟨0, 0, none⟩,
      .start ⟨7, 0, some .EINPROGRESS⟩]
    ∃ t, run step (new .new true) steps = .ok t ∧ t.attempt = some 7 ∧
      ∀ fd ∈ [5, 6, 7], t.outcomes.count (.close fd) + t.outcomes.count (.newConnection fd) +
        (if t.attempt = some fd then 1 else 0) = 1 := by
  refine ⟨_, rfl, rfl, ?_⟩
  exact (sockets_accounted true [.start ⟨5, 0, some .ECONNREFUSED⟩,
    .retryTimer ⟨6, 0, some .EINPROGRESS⟩, .event POLLOUT ⟨false, false⟩, .functor ⟨0, 0, none⟩,
    .start ⟨7, 0, some .EINPROGRESS⟩] (by decide)).1 _ rfl

end

end Connector

end Mymuduo

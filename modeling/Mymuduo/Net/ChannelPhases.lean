import Mymuduo.Net.ServerFrame

/-! How far the channel of a connection has come, whatever `forceClose` has made of its state, and
what the functions of the connection that return do to it.  A connection that `forceClose` has
disconnected still listens. -/

namespace Mymuduo

open Lib

/-- How far the channel of a connection has come: it has not been registered, it has interest, it has
been registered and has none, it has been removed. -/
inductive ChannelPhase
  | unopened
  | listening
  | silenced
  | removed
  deriving DecidableEq, Repr

/-- What the connection is then, and what its user has been told. -/
def ChannelPhase.Holds : ChannelPhase → TcpConnection → Prop
  | .unopened, c =>
    c.state = .kConnecting ∧ c.channel.index = .kNew ∧ c.channel.events = Channel.kNoneEvent ∧
      c.connectionCalls = []
  | .listening, c =>
    c.state ≠ .kConnecting ∧ c.channel.index = .kAdded ∧ TcpConnection.Interested c.channel.events ∧
      c.connectionCalls = [true]
  | .silenced, c =>
    c.state = .kDisconnected ∧ c.channel.index = .kDeleted ∧
      c.channel.events = Channel.kNoneEvent ∧ c.connectionCalls = [true, false]
  | .removed, c =>
    c.state = .kDisconnected ∧ c.channel.index = .kNew ∧ c.channel.events = Channel.kNoneEvent ∧
      c.connectionCalls = [true, false]

namespace TcpConnection

variable {c d e : TcpConnection} {p q : ChannelPhase}

/-- A call that does nothing to the channel, the loop and the state. -/
structure Idles (c d : TcpConnection) : Prop where
  state : d.state = c.state
  channel : d.channel = c.channel
  loop : d.loop = c.loop
  connectionCalls : d.connectionCalls = c.connectionCalls

/-- A call that takes the channel to a phase, and queues nothing but the user's callback. -/
structure Passes (q : ChannelPhase) (c d : TcpConnection) : Prop where
  holds : q.Holds d
  ptr : d.channel.ptr = c.channel.ptr
  fd : d.channel.fd = c.channel.fd
  poller : EPollPoller.SameBut c.channel.fd c.loop.poller d.loop.poller
  tracks : d.loop.poller.Tracks d.channel
  queues : QueuesCallbacks c d

/-- A call on a channel that is at phase `p` before and at phase `q` after it. -/
inductive Moves (c d : TcpConnection) : ChannelPhase → ChannelPhase → Prop
  | idles {p : ChannelPhase} (idles : Idles c d) : Moves c d p p
  | passes {p q : ChannelPhase} (before : p ≠ .removed) (after : q ≠ .unopened)
      (passes : Passes q c d) : Moves c d p q

/-- The connection at a phase, with what its poller knows of it. -/
structure At (p : ChannelPhase) (c : TcpConnection) : Prop where
  holds : p.Holds c
  tracks : p ≠ .removed → c.loop.poller.Tracks c.channel

/-- At this phase, a call of the function that returns does not remove the channel. -/
def Mild (p : ChannelPhase) (f : TcpConnection → Except Fault TcpConnection) : Prop :=
  ∀ c d, At p c → f c = .ok d → ∃ q, Moves c d p q ∧ (q = .removed → p = .removed)

theorem Idles.refl (c : TcpConnection) : Idles c c := ⟨rfl, rfl, rfl, rfl⟩

theorem Idles.mild (h : Idles c d) (p : ChannelPhase) :
    ∃ q, Moves c d p q ∧ (q = .removed → p = .removed) :=
  ⟨p, .idles h, id⟩

/-- A connection that listens and is not forced closed is up. -/
theorem At.up (h : At .listening c) (hstate : c.state = .kConnected ∨ c.state = .kDisconnecting) :
    Up c :=
  ⟨hstate, h.holds.2.1, h.holds.2.2.1, h.tracks (by simp)⟩

theorem At.down (h : At .silenced c) : Down c :=
  ⟨h.holds.1, h.holds.2.1, h.holds.2.2.1, h.tracks (by simp)⟩

/-- What is connected or being shut down listens. -/
theorem At.listening (h : At p c) (hstate : c.state = .kConnected ∨ c.state = .kDisconnecting) :
    p = .listening := by
  have hholds := h.holds
  cases p with
  | listening => rfl
  | unopened | silenced | removed =>
    rcases hstate with hstate | hstate
    · exact absurd (hholds.1.symm.trans hstate) (by simp)
    · exact absurd (hholds.1.symm.trans hstate) (by simp)

/-- A channel without interest does not write. -/
theorem At.not_writing (h : At p c) (hp : p ≠ .listening) : c.channel.isWriting = false := by
  have hevents : c.channel.events = Channel.kNoneEvent := by
    have hholds := h.holds
    cases p with
    | listening => exact absurd rfl hp
    | unopened | silenced | removed => exact hholds.2.2.1
  rw [Channel.isWriting, hevents]
  decide

/-! ### Output -/

/-- What the output functions keep of a connection that listens. -/
theorem Passes.outputInvariant (c : TcpConnection) :
    OutputInvariant fun d => d.state = c.state ∧ Passes .listening c d := by
  have hchange : ∀ {d e : TcpConnection} {f : Channel → EventLoop TcpFunctor →
      Except Fault (Channel × EventLoop TcpFunctor)} {events : Events},
      f d.channel d.loop = Channel.update { d.channel with events := events } d.loop →
      Interested events → d.state = c.state ∧ Passes .listening c d → d.onChannel f = .ok e →
        e.state = c.state ∧ Passes .listening c e := by
    rintro d e f events hf hevents ⟨hstate, hd⟩ he
    obtain ⟨channel, loop, hexact, hreg, hev, hindex, htracks⟩ := onChannel_exact hf hd.tracks
    cases he.symm.trans hexact
    rw [if_neg fun hnone => hevents.ne_none hnone.2] at hindex
    have hqueues : loop.pendingFunctors = d.loop.pendingFunctors := by
      have hloop := hreg.loop
      dsimp only at hloop
      rw [hloop]
    exact ⟨hstate, ⟨hd.holds.1, hindex, by rw [hev]; exact hevents, hd.holds.2.2.2⟩,
      hreg.ptr.trans hd.ptr, hreg.fd.trans hd.fd, hd.poller.trans (hd.fd ▸ hreg.poller), htracks,
      hd.queues.trans (.of_eq hqueues)⟩
  refine ⟨?_, ?_, ?_, ?_⟩
  · rintro d socket outputBuffer ⟨hstate, hd⟩
    exact ⟨hstate, hd.holds, hd.ptr, hd.fd, hd.poller, hd.tracks, hd.queues⟩
  · rintro d ⟨hstate, hd⟩
    have hkeeps := queueWriteComplete_keeps d
    obtain ⟨loop, hframe, hpoller⟩ := queueWriteComplete_frame d
    have hqueues := hd.queues.trans hkeeps.queues
    rw [hframe] at hqueues ⊢
    exact ⟨hstate, hd.holds, hd.ptr, hd.fd, by rw [hpoller]; exact hd.poller,
      by rw [hpoller]; exact hd.tracks, hqueues⟩
  · intro d e hd he
    exact hchange (f := Channel.enableWriting) rfl hd.2.holds.2.2.1.enable hd he
  · intro d e hd he
    exact hchange (f := Channel.disableWriting) rfl hd.2.holds.2.2.1.disable hd he

theorem At.passes (h : At .listening c) : c.state = c.state ∧ Passes .listening c c :=
  ⟨rfl, h.holds, rfl, rfl, .refl _ _, h.tracks (by simp), .of_eq rfl⟩

theorem Passes.mild (h : Passes q c d) (hp : p ≠ .removed) (hunopened : q ≠ .unopened)
    (hremoved : q ≠ .removed) : ∃ q, Moves c d p q ∧ (q = .removed → p = .removed) :=
  ⟨q, .passes hp hunopened h, fun hq => absurd hq hremoved⟩

theorem mild_handleWrite (p : ChannelPhase) (w : WriteResult) : Mild p (handleWrite w) := by
  intro c d hc hd
  by_cases hp : p = .listening
  · subst hp
    exact ((Passes.outputInvariant c).handleWrite hc.passes hd).2.mild (by simp) (by simp) (by simp)
  · rw [handleWrite, if_neg (by simp [hc.not_writing hp])] at hd
    cases hd
    exact (Idles.refl c).mild p

theorem mild_shutdownInLoop (p : ChannelPhase) : Mild p fun c => .ok c.shutdownInLoop := by
  intro c d _ hd
  cases hd
  refine Idles.mild ?_ p
  unfold shutdownInLoop
  split <;> exact ⟨rfl, rfl, rfl, rfl⟩

theorem mild_sendInLoop (hp : p ≠ .unopened) (message : Bytes) (preceding : UInt8)
    (w : WriteResult) : Mild p fun c => c.sendInLoop message preceding w := by
  intro c d hc hd
  have hholds := hc.holds
  cases p with
  | unopened => exact absurd rfl hp
  | listening =>
    exact ((Passes.outputInvariant c).sendInLoop hc.passes hd).2.mild (by simp) (by simp) (by simp)
  | silenced | removed =>
    dsimp only at hd
    rw [sendInLoop, if_pos hholds.1] at hd
    cases hd
    exact (Idles.refl c).mild _

theorem mild_send (p : ChannelPhase) (message : Bytes) (preceding : UInt8) (w : WriteResult) :
    Mild p fun c => c.send true message preceding w := by
  intro c d hc hd
  dsimp only at hd
  unfold send at hd
  split at hd
  · rename_i hstate
    obtain rfl := hc.listening (.inl hstate)
    exact mild_sendInLoop (by simp) message preceding w c d hc hd
  · cases hd
    exact (Idles.refl c).mild p

theorem mild_shutdown (p : ChannelPhase) : Mild p fun c => .ok (c.shutdown true) := by
  intro c d hc hd
  cases hd
  unfold shutdown
  split
  · rename_i hstate
    obtain rfl := hc.listening (.inl hstate)
    have hdown : At .listening { c with state := .kDisconnecting } :=
      ⟨⟨by simp, hc.holds.2⟩, hc.tracks⟩
    have hpasses := ((Passes.outputInvariant _).shutdownInLoop hdown.passes).2
    exact Passes.mild (q := .listening) ⟨hpasses.holds, hpasses.ptr, hpasses.fd, hpasses.poller,
      hpasses.tracks, hpasses.queues⟩ (by simp) (by simp) (by simp)
  · exact (Idles.refl c).mild p

/-! ### The beginning and the end -/

theorem Registers.passes (h : Registers c d) (hholds : q.Holds d)
    (htracks : d.loop.poller.Tracks d.channel) : Passes q c d := by
  refine ⟨hholds, h.ptr, h.fd, h.poller, htracks, .of_eq ?_⟩
  have hloop := h.loop
  rw [hloop]

theorem mild_handleClose (p : ChannelPhase) : Mild p handleClose := by
  intro c d hc hd
  obtain ⟨u, hcheck, -⟩ := bind_eq_ok.mp hd
  have hstate : c.state = .kConnected ∨ c.state = .kDisconnecting := by
    simpa using check_eq_ok.mp hcheck
  obtain rfl := hc.listening hstate
  obtain ⟨e, he, hdown, hreg, htold, -⟩ := (hc.up hstate).handleClose
  cases hd.symm.trans he
  refine (hreg.passes (q := .silenced) ⟨hdown.state, hdown.index, hdown.events, ?_⟩
    hdown.tracks).mild (by simp) (by simp) (by simp)
  rw [htold, hc.holds.2.2.2]
  rfl

theorem mild_handleRead (p : ChannelPhase) (r : Buffer.ReadResult) :
    Mild p (ServerLoops.handleRead r) := by
  intro c d hc hd
  obtain ⟨⟨u, e⟩, he, hd⟩ := bind_eq_ok.mp hd
  cases hd
  obtain ⟨⟨n, buffer⟩, -, he⟩ := bind_eq_ok.mp he
  have hidles : Idles c { c with inputBuffer := buffer } := ⟨rfl, rfl, rfl, rfl⟩
  dsimp only at he
  split at he
  · cases he
    exact hidles.mild p
  · split at he
    · obtain ⟨e', he', he⟩ := bind_eq_ok.mp he
      cases he
      have hread : At p { c with inputBuffer := buffer } := by
        refine ⟨?_, hc.tracks⟩
        have hholds := hc.holds
        cases p <;> exact hholds
      obtain ⟨q, hmoves, hq⟩ := mild_handleClose p _ _ hread he'
      refine ⟨q, ?_, hq⟩
      cases hmoves with
      | idles h => exact .idles ⟨h.state, h.channel, h.loop, h.connectionCalls⟩
      | passes hp hq h => exact .passes hp hq ⟨h.holds, h.ptr, h.fd, h.poller, h.tracks, h.queues⟩
    · cases he
      exact hidles.mild p

theorem mild_forceCloseInLoop (p : ChannelPhase) : Mild p forceCloseInLoop := by
  intro c d hc hd
  unfold forceCloseInLoop at hd
  split at hd
  · exact mild_handleClose p c d hc hd
  · cases hd
    exact (Idles.refl c).mild p

theorem mild_connectEstablished (p : ChannelPhase) : Mild p connectEstablished := by
  intro c d hc hd
  obtain ⟨u, hcheck, -⟩ := bind_eq_ok.mp hd
  have hstate : c.state = .kConnecting := by simpa using check_eq_ok.mp hcheck
  have hholds := hc.holds
  cases p with
  | listening => exact absurd hstate hholds.1
  | silenced | removed => exact absurd (hholds.1.symm.trans hstate) (by simp)
  | unopened =>
    obtain ⟨e, he, hup, hreg, htold, -⟩ :=
      connectEstablished_exact hstate hholds.2.1 hholds.2.2.1 (hc.tracks (by simp))
    cases hd.symm.trans he
    refine (hreg.passes (q := .listening) ⟨?_, hup.index, hup.events, ?_⟩ hup.tracks).mild
      (by simp) (by simp) (by simp)
    · rcases hup.state with h | h <;> simp [h]
    · rw [htold, hholds.2.2.2]
      rfl

theorem mild_runFunctor (hp : p ≠ .unopened) (preceding : UInt8) (w : WriteResult)
    {functor : TcpFunctor} (hfunctor : functor ≠ .connectDestroyed) :
    Mild p (runFunctor preceding w · functor) := by
  cases functor with
  | sendInLoop message => exact mild_sendInLoop hp message preceding w
  | shutdownInLoop => exact mild_shutdownInLoop p
  | forceCloseInLoop => exact mild_forceCloseInLoop p
  | connectDestroyed => exact absurd rfl hfunctor
  | writeCompleteCallback =>
    intro c d _ hd
    cases hd
    exact (Idles.refl c).mild p

/-! ### `connectDestroyed` -/

/-- The connection is connected, or `handleClose` has closed it. -/
def Destroyable (c : TcpConnection) : Prop := c.state = .kConnected ∨ c.channel.index = .kDeleted

/-- The connection is among those whose events its loop handles. -/
def Handled (c : TcpConnection) : Prop :=
  c.loop.eventHandling = true ∧ c.channel.ptr ∈ c.loop.activeChannels

/-- A channel that is not registered, or that has interest, is not removed. -/
theorem At.remove_error (hc : At p c) (hp : p ≠ .silenced) :
    ∃ e, c.onChannel Channel.remove = .error e := by
  cases hremove : c.onChannel Channel.remove with
  | error e => exact ⟨e, rfl⟩
  | ok d =>
    exfalso
    have hholds := hc.holds
    obtain ⟨⟨channel, loop⟩, hremove, -⟩ := bind_eq_ok.mp hremove
    obtain ⟨u, hnone, hremove⟩ := bind_eq_ok.mp hremove
    obtain ⟨⟨channel', loop'⟩, hremove, -⟩ := bind_eq_ok.mp hremove
    have hpoller := EventLoop.removeChannel_poller hremove
    obtain ⟨u, -, hpoller⟩ := bind_eq_ok.mp hpoller
    obtain ⟨u, -, hpoller⟩ := bind_eq_ok.mp hpoller
    obtain ⟨u, hindex, -⟩ := bind_eq_ok.mp hpoller
    have hindex := check_eq_ok.mp hindex
    cases p with
    | silenced => exact hp rfl
    | unopened | removed => simp [hholds.2.1] at hindex
    | listening =>
      have hnone := check_eq_ok.mp hnone
      exact hholds.2.2.1.ne_none (by simpa [Channel.isNoneEvent] using hnone)

/-- `connectDestroyed` removes the channel of a connection that is connected or has been closed, and
whose events are not being handled, and of no other. -/
theorem At.connectDestroyed_iff (hc : At p c) :
    (∃ d, c.connectDestroyed = .ok d) ↔ Destroyable c ∧ ¬Handled c := by
  have hcases : (Up c ∧ c.state = .kConnected ∨ Down c) ∨
      ¬Destroyable c ∧ ∃ e, c.connectDestroyed = .error e := by
    by_cases hstate : c.state = .kConnected
    · obtain rfl := hc.listening (.inl hstate)
      exact .inl (.inl ⟨hc.up (.inl hstate), hstate⟩)
    · by_cases hp : p = .silenced
      · subst hp
        exact .inl (.inr hc.down)
      · refine .inr ⟨?_, ?_⟩
        · rintro (hconnected | hindex)
          · exact hstate hconnected
          · have hholds := hc.holds
            cases p with
            | silenced => exact hp rfl
            | unopened | listening | removed => exact absurd (hholds.2.1.symm.trans hindex) (by simp)
        · rw [connectDestroyed_of_ne hstate]
          exact hc.remove_error hp
  rcases hcases with hfit | ⟨hunfit, e, he⟩
  · have hdestroyable : Destroyable c :=
      hfit.elim (fun h => .inl h.2) (fun h => .inr h.index)
    constructor
    · rintro ⟨d, hd⟩
      refine ⟨hdestroyable, ?_⟩
      rintro ⟨hhandling, hactive⟩
      rw [connectDestroyed_active hfit hhandling hactive] at hd
      cases hd
    · rintro ⟨-, hidle⟩
      obtain ⟨d, hd, -⟩ := connectDestroyed_exact hfit fun h h' => hidle ⟨h, h'⟩
      exact ⟨d, hd⟩
  · constructor
    · rintro ⟨d, hd⟩
      rw [he] at hd
      cases hd
    · rintro ⟨hdestroyable, -⟩
      exact absurd hdestroyable hunfit

/-- What a call of `connectDestroyed` that returns leaves. -/
theorem At.connectDestroyed (hc : At p c) (hd : c.connectDestroyed = .ok d) :
    p ≠ .removed ∧ Passes .removed c d ∧ d.closeCalls = c.closeCalls := by
  obtain ⟨hdestroyable, hidle⟩ := hc.connectDestroyed_iff.mp ⟨d, hd⟩
  have hholds := hc.holds
  have hfit : (Up c ∧ c.state = .kConnected ∨ Down c) ∧ p ≠ .removed ∧
      (c.connectionCalls ++ if c.state = .kConnected then [false] else []) = [true, false] := by
    rcases hdestroyable with hstate | hindex
    · obtain rfl := hc.listening (.inl hstate)
      refine ⟨.inl ⟨hc.up (.inl hstate), hstate⟩, by simp, ?_⟩
      rw [hholds.2.2.2, if_pos hstate]
      rfl
    · cases p with
      | silenced =>
        refine ⟨.inr hc.down, by simp, ?_⟩
        rw [hholds.2.2.2, if_neg (by rw [hholds.1]; simp), List.append_nil]
      | unopened | listening | removed => exact absurd (hholds.2.1.symm.trans hindex) (by simp)
  obtain ⟨e, he, hgone, hreg, htold, hclosed⟩ :=
    connectDestroyed_exact hfit.1 fun h h' => hidle ⟨h, h'⟩
  cases hd.symm.trans he
  exact ⟨hfit.2.1, hreg.passes ⟨hgone.state, hgone.index, hgone.events, htold.trans hfit.2.2⟩
    hgone.tracks, hclosed⟩

end TcpConnection

end Mymuduo

import Mymuduo.Net.ShutdownOrder

/-! What the functions of a connection do to its channel, its poller and its queue, from the first
call of `connectEstablished` to the last of `connectDestroyed`. -/

namespace Mymuduo.TcpConnection

open Lib

/-- The interest of an established connection. -/
def Interested (events : Events) : Prop :=
  events = Channel.kReadEvent ∨ events = Channel.kReadEvent ||| Channel.kWriteEvent

/-- The connection is established and not closed. -/
structure Up (c : TcpConnection) : Prop where
  state : c.state = .kConnected ∨ c.state = .kDisconnecting
  index : c.channel.index = .kAdded
  events : Interested c.channel.events
  tracks : c.loop.poller.Tracks c.channel

/-- What a function leaves alone that neither opens nor closes the connection. -/
structure Keeps (c d : TcpConnection) : Prop where
  connectionCalls : d.connectionCalls = c.connectionCalls
  closeCalls : d.closeCalls = c.closeCalls
  ptr : d.channel.ptr = c.channel.ptr
  fd : d.channel.fd = c.channel.fd
  poller : EPollPoller.SameBut c.channel.fd c.loop.poller d.loop.poller
  queues : QueuesCallbacks c d

/-- What a function leaves alone that does nothing to the loop but change the interest. -/
structure Registers (c d : TcpConnection) : Prop where
  ptr : d.channel.ptr = c.channel.ptr
  fd : d.channel.fd = c.channel.fd
  poller : EPollPoller.SameBut c.channel.fd c.loop.poller d.loop.poller
  loop : d.loop = { c.loop with poller := d.loop.poller }

variable {c d e : TcpConnection}

theorem Registers.trans (h : Registers c d) (h' : Registers d e) : Registers c e where
  ptr := h'.ptr.trans h.ptr
  fd := h'.fd.trans h.fd
  poller := h.poller.trans (h.fd ▸ h'.poller)
  loop := by rw [h'.loop, h.loop]

theorem Keeps.refl (c : TcpConnection) : Keeps c c :=
  ⟨rfl, rfl, rfl, rfl, .refl _ _, .of_eq rfl⟩

theorem Keeps.trans (h : Keeps c d) (h' : Keeps d e) : Keeps c e where
  connectionCalls := h'.connectionCalls.trans h.connectionCalls
  closeCalls := h'.closeCalls.trans h.closeCalls
  ptr := h'.ptr.trans h.ptr
  fd := h'.fd.trans h.fd
  poller := h.poller.trans (h.fd ▸ h'.poller)
  queues := h.queues.trans h'.queues

theorem Up.open (h : Up c) : Open c := ⟨h.state, h.tracks⟩

/-! ### Output -/

/-- A property that the steps of the output functions keep. -/
structure OutputInvariant (I : TcpConnection → Prop) : Prop where
  output : ∀ c socket outputBuffer, I c → I { c with socket := socket, outputBuffer := outputBuffer }
  queued : ∀ c, I c → I c.queueWriteComplete
  enabled : ∀ c d, I c → c.onChannel Channel.enableWriting = .ok d → I d
  disabled : ∀ c d, I c → c.onChannel Channel.disableWriting = .ok d → I d

variable {I : TcpConnection → Prop}

theorem OutputInvariant.shutdownInLoop (hI : OutputInvariant I) (hc : I c) :
    I c.shutdownInLoop := by
  unfold TcpConnection.shutdownInLoop
  split
  · exact hI.output c _ c.outputBuffer hc
  · exact hc

theorem OutputInvariant.write (hI : OutputInvariant I) (data : Bytes) (r : WriteResult) (hc : I c) :
    I (c.write data r) :=
  hI.output c _ c.outputBuffer hc

theorem OutputInvariant.writeDirectly (hI : OutputInvariant I) (message : Bytes) (r : WriteResult)
    (hc : I c) : I (c.writeDirectly message r).1 := by
  have hwrite := hI.write message r hc
  unfold TcpConnection.writeDirectly
  split
  · dsimp only
    split
    · split
      · exact hI.queued _ hwrite
      · exact hwrite
    · exact hwrite
  · exact hc

theorem OutputInvariant.sendInLoop (hI : OutputInvariant I) {message : Bytes} {preceding : UInt8}
    {r : WriteResult} (hc : I c) (h : c.sendInLoop message preceding r = .ok d) : I d := by
  unfold TcpConnection.sendInLoop at h
  split at h
  · cases h
    exact hc
  · have hdirect := hI.writeDirectly message r hc
    generalize c.writeDirectly message r = direct at *
    obtain ⟨e, n, remain⟩ := direct
    dsimp only at h hdirect
    split at h
    · obtain ⟨out, -, h⟩ := bind_eq_ok.mp h
      have hout := hI.output e e.socket out hdirect
      split at h
      · cases h
        exact hout
      · exact hI.enabled _ _ hout h
    · cases h
      exact hdirect

theorem OutputInvariant.outputDrained (hI : OutputInvariant I) (hc : I c)
    (h : c.outputDrained = .ok d) : I d := by
  obtain ⟨e, he, h⟩ := bind_eq_ok.mp h
  have hqueued := hI.queued e (hI.disabled c e hc he)
  cases h
  split
  · exact hI.shutdownInLoop hqueued
  · exact hqueued

theorem OutputInvariant.handleWrite (hI : OutputInvariant I) {r : WriteResult} (hc : I c)
    (h : c.handleWrite r = .ok d) : I d := by
  unfold TcpConnection.handleWrite at h
  split at h
  · have hwrite := hI.write c.outputBuffer.readable r hc
    dsimp only at h
    split at h
    · obtain ⟨out, -, h⟩ := bind_eq_ok.mp h
      have hout := hI.output _ (c.write c.outputBuffer.readable r).socket out hwrite
      split at h
      · exact hI.outputDrained hout h
      · cases h
        exact hout
    · cases h
      exact hwrite
  · cases h
    exact hc

/-! ### Established connections -/

theorem Interested.enable {events : Events} (h : Interested events) :
    Interested (events ||| Channel.kWriteEvent) := by
  rcases h with rfl | rfl
  · exact .inr rfl
  · exact .inr (by decide)

theorem Interested.disable {events : Events} (h : Interested events) :
    Interested (events &&& ~~~Channel.kWriteEvent) := by
  rcases h with rfl | rfl
  · exact .inl (by decide)
  · exact .inl (by decide)

theorem Interested.ne_none {events : Events} (h : Interested events) :
    events ≠ Channel.kNoneEvent := by
  rcases h with rfl | rfl <;> decide

theorem onChannel_exact {f : Channel → EventLoop TcpFunctor →
      Except Fault (Channel × EventLoop TcpFunctor)} {events : Events}
    (hf : f c.channel c.loop = Channel.update { c.channel with events := events } c.loop)
    (h : c.loop.poller.Tracks c.channel) :
    ∃ channel loop, c.onChannel f = .ok { c with channel := channel, loop := loop } ∧
      Registers c { c with channel := channel, loop := loop } ∧ channel.events = events ∧
      channel.index =
        (if c.channel.index = .kAdded ∧ events = Channel.kNoneEvent then .kDeleted else .kAdded) ∧
      loop.poller.Tracks channel := by
  obtain ⟨q, index, hu, hindex, htracks, hsame⟩ := Channel.update_exact h events
  exact ⟨{ c.channel with events := events, addedToLoop := true, index := index },
    { c.loop with poller := q }, by rw [onChannel, hf, hu]; rfl, ⟨rfl, rfl, hsame, rfl⟩, rfl,
    hindex, htracks⟩

/-- A change of interest that leaves some. -/
theorem Up.onChannel (hup : Up c) {f : Channel → EventLoop TcpFunctor →
      Except Fault (Channel × EventLoop TcpFunctor)} {events : Events}
    (hf : f c.channel c.loop = Channel.update { c.channel with events := events } c.loop)
    (hevents : Interested events) (h : c.onChannel f = .ok d) :
    Up d ∧ d.state = c.state ∧ Keeps c d := by
  obtain ⟨channel, loop, hd, hreg, hev, hindex, htracks⟩ := onChannel_exact hf hup.tracks
  cases h.symm.trans hd
  rw [if_neg fun hnone => hevents.ne_none hnone.2] at hindex
  have hqueues : loop.pendingFunctors = c.loop.pendingFunctors := by
    have hloop := hreg.loop
    dsimp only at hloop
    rw [hloop]
  exact ⟨⟨hup.state, hindex, by rw [hev]; exact hevents, htracks⟩, rfl,
    rfl, rfl, hreg.ptr, hreg.fd, hreg.poller, .of_eq hqueues⟩

theorem queueWriteComplete_keeps (c : TcpConnection) : Keeps c c.queueWriteComplete := by
  have hqueues := queueWriteComplete_queues c
  obtain ⟨loop, hframe, hpoller⟩ := queueWriteComplete_frame c
  rw [hframe] at hqueues ⊢
  exact ⟨rfl, rfl, rfl, rfl, by rw [hpoller]; exact .refl _ _, hqueues⟩

/-- What the output functions do to an established connection. -/
theorem Up.outputInvariant (c : TcpConnection) :
    OutputInvariant fun d => Up d ∧ d.state = c.state ∧ Keeps c d where
  output d socket outputBuffer h := by
    obtain ⟨hup, hstate, hkeeps⟩ := h
    refine ⟨⟨hup.state, hup.index, hup.events, hup.tracks⟩, hstate, hkeeps.trans ?_⟩
    exact ⟨rfl, rfl, rfl, rfl, .refl _ _, .of_eq rfl⟩
  queued d h := by
    obtain ⟨hup, hstate, hkeeps⟩ := h
    refine ⟨?_, ?_, hkeeps.trans (queueWriteComplete_keeps d)⟩
    · obtain ⟨loop, hframe, hpoller⟩ := queueWriteComplete_frame d
      rw [hframe]
      exact ⟨hup.state, hup.index, hup.events, by rw [hpoller]; exact hup.tracks⟩
    · obtain ⟨loop, hframe, -⟩ := queueWriteComplete_frame d
      rw [hframe]
      exact hstate
  enabled d e h he := by
    obtain ⟨hup, hstate, hkeeps⟩ := h
    obtain ⟨hup', hstate', hkeeps'⟩ :=
      hup.onChannel (f := Channel.enableWriting) rfl hup.events.enable he
    exact ⟨hup', hstate'.trans hstate, hkeeps.trans hkeeps'⟩
  disabled d e h he := by
    obtain ⟨hup, hstate, hkeeps⟩ := h
    obtain ⟨hup', hstate', hkeeps'⟩ :=
      hup.onChannel (f := Channel.disableWriting) rfl hup.events.disable he
    exact ⟨hup', hstate'.trans hstate, hkeeps.trans hkeeps'⟩

theorem Up.sendInLoop (hup : Up c) (message : Bytes) (preceding : UInt8) (r : WriteResult) :
    ∃ d, c.sendInLoop message preceding r = .ok d ∧ Up d ∧ Keeps c d := by
  obtain ⟨d, hd, -⟩ := hup.open.sendInLoop message preceding r
  obtain ⟨hup', -, hkeeps⟩ := (outputInvariant c).sendInLoop ⟨hup, rfl, .refl c⟩ hd
  exact ⟨d, hd, hup', hkeeps⟩

theorem Up.handleWrite (hup : Up c) (r : WriteResult) :
    ∃ d, c.handleWrite r = .ok d ∧ Up d ∧ Keeps c d := by
  obtain ⟨d, hd, -⟩ := hup.open.handleWrite r
  obtain ⟨hup', -, hkeeps⟩ := (outputInvariant c).handleWrite ⟨hup, rfl, .refl c⟩ hd
  exact ⟨d, hd, hup', hkeeps⟩

theorem Up.shutdownInLoop (hup : Up c) : Up c.shutdownInLoop ∧ Keeps c c.shutdownInLoop := by
  obtain ⟨hup', -, hkeeps⟩ := (outputInvariant c).shutdownInLoop ⟨hup, rfl, .refl c⟩
  exact ⟨hup', hkeeps⟩

theorem Up.shutdown (hup : Up c) : Up (c.shutdown true) ∧ Keeps c (c.shutdown true) := by
  unfold TcpConnection.shutdown
  split
  · have hdown : Up { c with state := .kDisconnecting } :=
      ⟨.inr rfl, hup.index, hup.events, hup.tracks⟩
    obtain ⟨hup', hkeeps⟩ := hdown.shutdownInLoop
    refine ⟨hup', Keeps.trans ?_ hkeeps⟩
    exact ⟨rfl, rfl, rfl, rfl, .refl _ _, .of_eq rfl⟩
  · exact ⟨hup, .refl c⟩

/-! ### The beginning and the end -/

/-- The connection is closed, and its channel is still registered. -/
structure Down (c : TcpConnection) : Prop where
  state : c.state = .kDisconnected
  index : c.channel.index = .kDeleted
  events : c.channel.events = Channel.kNoneEvent
  tracks : c.loop.poller.Tracks c.channel

/-- The connection is closed, and its channel is removed. -/
structure Gone (c : TcpConnection) : Prop where
  state : c.state = .kDisconnected
  index : c.channel.index = .kNew
  events : c.channel.events = Channel.kNoneEvent
  tracks : c.loop.poller.Tracks c.channel

theorem connectEstablished_exact (hstate : c.state = .kConnecting)
    (hindex : c.channel.index = .kNew) (hevents : c.channel.events = Channel.kNoneEvent)
    (htracks : c.loop.poller.Tracks c.channel) :
    ∃ d, c.connectEstablished = .ok d ∧ Up d ∧ Registers c d ∧
      d.connectionCalls = c.connectionCalls ++ [true] ∧ d.closeCalls = c.closeCalls := by
  obtain ⟨channel, loop, he, hreg, hev, hadded, htracks'⟩ := onChannel_exact
    (c := { c with state := .kConnected, channel := { c.channel with tied := true } })
    (f := Channel.enableReading) rfl htracks
  have hcheck : (c.state == .kConnecting) = true := by rw [hstate]; rfl
  have hread : channel.events = Channel.kReadEvent := by
    rw [hev, hevents]
    rfl
  rw [if_neg fun hnone => absurd (hindex.symm.trans hnone.1) (by simp)] at hadded
  refine ⟨callConnectionCallback { c with state := .kConnected, channel := channel, loop := loop },
    ?_, ?_, ⟨hreg.ptr, hreg.fd, hreg.poller, hreg.loop⟩, rfl, rfl⟩
  · exact bind_eq_ok.mpr ⟨(), check_eq_ok.mpr hcheck, bind_eq_ok.mpr ⟨_, he, rfl⟩⟩
  · exact ⟨.inl rfl, hadded, .inl hread, htracks'⟩

/-- `disableAll` on an established connection, with the state that its caller has set. -/
theorem Up.disableAll (hup : Up c) :
    ∃ channel loop, TcpConnection.onChannel { c with state := .kDisconnected } Channel.disableAll =
        .ok { c with state := .kDisconnected, channel := channel, loop := loop } ∧
      Down { c with state := .kDisconnected, channel := channel, loop := loop } ∧
      Registers c { c with state := .kDisconnected, channel := channel, loop := loop } := by
  obtain ⟨channel, loop, he, hreg, hev, hdeleted, htracks⟩ := onChannel_exact
    (c := { c with state := .kDisconnected }) (f := Channel.disableAll) rfl hup.tracks
  have hnone : c.channel.events &&& Channel.kNoneEvent = Channel.kNoneEvent := BitVec.and_zero
  rw [if_pos ⟨hup.index, hnone⟩] at hdeleted
  exact ⟨channel, loop, he, ⟨rfl, hdeleted, hev.trans hnone, htracks⟩,
    ⟨hreg.ptr, hreg.fd, hreg.poller, hreg.loop⟩⟩

theorem Up.handleClose (hup : Up c) :
    ∃ d, c.handleClose = .ok d ∧ Down d ∧ Registers c d ∧
      d.connectionCalls = c.connectionCalls ++ [false] ∧ d.closeCalls = c.closeCalls + 1 := by
  obtain ⟨channel, loop, he, hdown, hreg⟩ := hup.disableAll
  have hcheck : (c.state == .kConnected || c.state == .kDisconnecting) = true := by
    rcases hup.state with hstate | hstate <;> rw [hstate] <;> rfl
  refine ⟨{ callConnectionCallback { c with
      state := .kDisconnected, channel := channel, loop := loop } with
      closeCalls := c.closeCalls + 1 }, ?_, ⟨hdown.state, hdown.index, hdown.events, hdown.tracks⟩,
    ⟨hreg.ptr, hreg.fd, hreg.poller, hreg.loop⟩, rfl, rfl⟩
  exact bind_eq_ok.mpr ⟨(), check_eq_ok.mpr hcheck, bind_eq_ok.mpr ⟨_, he, rfl⟩⟩

/-- A channel is removed while its loop does not handle its events. -/
theorem Down.remove (hdown : Down c)
    (hinactive : c.loop.eventHandling = true → c.channel.ptr ∉ c.loop.activeChannels) :
    ∃ channel loop, c.onChannel Channel.remove = .ok { c with channel := channel, loop := loop } ∧
      Gone { c with channel := channel, loop := loop } ∧
      Registers c { c with channel := channel, loop := loop } := by
  obtain ⟨q, hq, htracks⟩ := Channel.remove_spec hdown.tracks hdown.events
    (by rw [hdown.index]; simp) hinactive
  exact ⟨{ c.channel with index := .kNew, addedToLoop := false }, { c.loop with poller := q },
    by rw [onChannel, hq]; rfl, ⟨hdown.state, rfl, hdown.events, htracks⟩,
    ⟨rfl, rfl, Channel.remove_sameBut hq, rfl⟩⟩

/-! ### `connectDestroyed` at any stage after the first -/

theorem connectDestroyed_of_ne (hstate : c.state ≠ .kConnected) :
    c.connectDestroyed = c.onChannel Channel.remove := by
  rw [TcpConnection.connectDestroyed, if_neg hstate]
  rfl

/-- An established connection is closed first. -/
theorem Up.connectDestroyed_eq (hup : Up c) (hstate : c.state = .kConnected) :
    ∃ d, c.connectDestroyed = d.onChannel Channel.remove ∧ Down d ∧ Registers c d ∧
      d.connectionCalls = c.connectionCalls ++ [false] ∧ d.closeCalls = c.closeCalls := by
  obtain ⟨channel, loop, he, hdown, hreg⟩ := hup.disableAll
  refine ⟨callConnectionCallback { c with
    state := .kDisconnected, channel := channel, loop := loop }, ?_,
    ⟨hdown.state, hdown.index, hdown.events, hdown.tracks⟩,
    ⟨hreg.ptr, hreg.fd, hreg.poller, hreg.loop⟩, rfl, rfl⟩
  rw [TcpConnection.connectDestroyed, if_pos hstate, he]
  rfl

/-- A channel that its loop handles is not removed. -/
theorem Down.remove_active (hdown : Down c) (hhandling : c.loop.eventHandling = true)
    (hactive : c.channel.ptr ∈ c.loop.activeChannels) :
    c.onChannel Channel.remove = .error (.assertion .loopRemoveChannel) := by
  have hnone : c.channel.isNoneEvent = true := by simp [Channel.isNoneEvent, hdown.events]
  rw [TcpConnection.onChannel, Channel.remove, hnone, check_true, ok_bind,
    EventLoop.removeChannel_active hhandling hactive]
  rfl

/-- A channel with interest is not removed. -/
theorem Up.remove (hup : Up c) :
    c.onChannel Channel.remove = .error (.assertion .channelRemove) := by
  have hsome : c.channel.isNoneEvent = false := by
    simpa [Channel.isNoneEvent] using hup.events.ne_none
  rw [TcpConnection.onChannel, Channel.remove, hsome]
  rfl

/-- `connectDestroyed` forgets the connections that are being shut down. -/
theorem Up.connectDestroyed_error (hup : Up c) (hstate : c.state = .kDisconnecting) :
    c.connectDestroyed = .error (.assertion .channelRemove) := by
  rw [connectDestroyed_of_ne (by rw [hstate]; simp)]
  exact hup.remove

/-- The connection that `connectDestroyed` removes the channel of. -/
theorem connectDestroyed_eq (hc : Up c ∧ c.state = .kConnected ∨ Down c) :
    ∃ d, c.connectDestroyed = d.onChannel Channel.remove ∧ Down d ∧ Registers c d ∧
      d.connectionCalls = (c.connectionCalls ++ if c.state = .kConnected then [false] else []) ∧
      d.closeCalls = c.closeCalls := by
  rcases hc with ⟨hup, hstate⟩ | hdown
  · rw [if_pos hstate]
    exact hup.connectDestroyed_eq hstate
  · have hstate : c.state ≠ .kConnected := by
      rw [hdown.state]
      simp
    rw [if_neg hstate, List.append_nil]
    exact ⟨c, connectDestroyed_of_ne hstate, hdown, ⟨rfl, rfl, .refl _ _, rfl⟩, rfl, rfl⟩

theorem connectDestroyed_exact (hc : Up c ∧ c.state = .kConnected ∨ Down c)
    (hinactive : c.loop.eventHandling = true → c.channel.ptr ∉ c.loop.activeChannels) :
    ∃ d, c.connectDestroyed = .ok d ∧ Gone d ∧ Registers c d ∧
      d.connectionCalls = (c.connectionCalls ++ if c.state = .kConnected then [false] else []) ∧
      d.closeCalls = c.closeCalls := by
  obtain ⟨d, hd, hdown, hreg, htold, hclosed⟩ := connectDestroyed_eq hc
  have hinactive' : d.loop.eventHandling = true → d.channel.ptr ∉ d.loop.activeChannels := by
    rw [hreg.loop, hreg.ptr]
    exact hinactive
  obtain ⟨channel, loop, hremove, hgone, hreg'⟩ := hdown.remove hinactive'
  exact ⟨_, hd.trans hremove, hgone, hreg.trans hreg', htold, hclosed⟩

theorem connectDestroyed_active (hc : Up c ∧ c.state = .kConnected ∨ Down c)
    (hhandling : c.loop.eventHandling = true) (hactive : c.channel.ptr ∈ c.loop.activeChannels) :
    c.connectDestroyed = .error (.assertion .loopRemoveChannel) := by
  obtain ⟨d, hd, hdown, hreg, -⟩ := connectDestroyed_eq hc
  rw [hd]
  apply hdown.remove_active
  · rw [hreg.loop]
    exact hhandling
  · rw [hreg.loop, hreg.ptr]
    exact hactive

/-! ### Calls at any stage after the first -/

/-- The connection stays as it is: established, or closed. -/
structure Stays (c d : TcpConnection) : Prop where
  keeps : Keeps c d
  cases : Up c ∧ Up d ∨
    d.state = c.state ∧ d.channel = c.channel ∧ d.loop.poller = c.loop.poller

theorem Stays.refl (c : TcpConnection) : Stays c c := ⟨.refl c, .inr ⟨rfl, rfl, rfl⟩⟩

/-- The connection is established, or closed. -/
def UpOrClosed (c : TcpConnection) : Prop :=
  Up c ∨ c.state = .kDisconnected ∧ c.channel.events = Channel.kNoneEvent

theorem UpOrClosed.sendInLoop (hc : UpOrClosed c) (message : Bytes) (preceding : UInt8)
    (r : WriteResult) : ∃ d, c.sendInLoop message preceding r = .ok d ∧ Stays c d := by
  rcases hc with hup | ⟨hstate, -⟩
  · obtain ⟨d, hd, hup', hkeeps⟩ := hup.sendInLoop message preceding r
    exact ⟨d, hd, hkeeps, .inl ⟨hup, hup'⟩⟩
  · exact ⟨c, by rw [TcpConnection.sendInLoop, if_pos hstate], .refl c⟩

theorem UpOrClosed.handleWrite (hc : UpOrClosed c) (r : WriteResult) :
    ∃ d, c.handleWrite r = .ok d ∧ Stays c d := by
  rcases hc with hup | ⟨-, hevents⟩
  · obtain ⟨d, hd, hup', hkeeps⟩ := hup.handleWrite r
    exact ⟨d, hd, hkeeps, .inl ⟨hup, hup'⟩⟩
  · have hidle : c.channel.isWriting = false := by
      rw [Channel.isWriting, hevents]
      decide
    exact ⟨c, by rw [TcpConnection.handleWrite, if_neg (by simp [hidle])], .refl c⟩

theorem shutdownInLoop_stays (c : TcpConnection) : Stays c c.shutdownInLoop := by
  unfold TcpConnection.shutdownInLoop
  split
  · exact ⟨⟨rfl, rfl, rfl, rfl, .refl _ _, .of_eq rfl⟩, .inr ⟨rfl, rfl, rfl⟩⟩
  · exact .refl c

theorem UpOrClosed.send (hc : UpOrClosed c) (msg : Bytes) (preceding : UInt8) (r : WriteResult) :
    ∃ d, c.send true msg preceding r = .ok d ∧ Stays c d := by
  unfold TcpConnection.send
  split
  · exact hc.sendInLoop msg preceding r
  · exact ⟨c, rfl, .refl c⟩

theorem UpOrClosed.shutdown (hc : UpOrClosed c) : Stays c (c.shutdown true) := by
  rcases hc with hup | ⟨hstate, -⟩
  · obtain ⟨hup', hkeeps⟩ := hup.shutdown
    exact ⟨hkeeps, .inl ⟨hup, hup'⟩⟩
  · rw [TcpConnection.shutdown, if_neg (by simp [hstate])]
    exact .refl c

/-- The functors that `send`, `shutdown` and the writing functions queue. -/
def Serves : TcpFunctor → Bool
  | .sendInLoop _ | .shutdownInLoop | .writeCompleteCallback => true
  | .forceCloseInLoop | .connectDestroyed => false

theorem UpOrClosed.runFunctor (hc : UpOrClosed c) {functor : TcpFunctor}
    (hserves : Serves functor = true) (preceding : UInt8) (w : WriteResult) :
    ∃ d, c.runFunctor preceding w functor = .ok d ∧ Stays c d := by
  cases functor with
  | sendInLoop message => exact hc.sendInLoop message preceding w
  | shutdownInLoop => exact ⟨_, rfl, shutdownInLoop_stays c⟩
  | writeCompleteCallback => exact ⟨_, rfl, .refl c⟩
  | forceCloseInLoop => cases hserves
  | connectDestroyed => cases hserves

end Mymuduo.TcpConnection

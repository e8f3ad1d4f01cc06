import Mymuduo.Http.Wire

/-! The end of an HTTP connection.  The response that closes it makes the server shut the socket
down, which happens once, and behind the last byte of the last response. -/

namespace Mymuduo

open Lib

namespace TcpConnection

/-- The socket is not shut down until a `shutdown` finds, or waits for, an empty output buffer. -/
structure ShutsDownOnce (c : TcpConnection) : Prop where
  alive : Up c ∧ Mirrors c ∨ c.state = .kDisconnected ∧ c.channel.events = Channel.kNoneEvent
  closes : c.socket.shutdowns = 0 ∨
    c.socket.shutdowns = 1 ∧ c.outputBuffer.readableBytes = 0 ∧ c.state ≠ .kConnected
  waits : c.state = .kDisconnecting → c.outputBuffer.readableBytes = 0 → c.socket.shutdowns = 1

variable {c d : TcpConnection} {w sent : WriteResult} {preceding : UInt8}

theorem ShutsDownOnce.open (h : ShutsDownOnce c) (hstate : c.state ≠ .kDisconnected) :
    Up c ∧ Mirrors c :=
  h.alive.resolve_right fun hdown => hstate hdown.1

/-- The invariant looks at no buffer but the output, and not at the queue. -/
theorem ShutsDownOnce.frame (h : ShutsDownOnce c) (hstate : d.state = c.state)
    (hindex : d.channel.index = c.channel.index) (hevents : d.channel.events = c.channel.events)
    (htracks : c.loop.poller.Tracks c.channel → d.loop.poller.Tracks d.channel)
    (houtput : d.outputBuffer = c.outputBuffer) (hsocket : d.socket = c.socket) :
    ShutsDownOnce d where
  alive := by
    rw [hstate, hevents]
    refine h.alive.imp_left ?_
    rintro ⟨hup, hmirrors⟩
    refine ⟨⟨by rw [hstate]; exact hup.state, hindex.trans hup.index,
      by rw [hevents]; exact hup.events, htracks hup.tracks⟩,
      ⟨by rw [hstate]; exact hup.state, htracks hup.tracks⟩, ?_⟩
    rw [Channel.isWriting, hevents, houtput]
    exact hmirrors.writing
  closes := by
    rw [hsocket, houtput, hstate]
    exact h.closes
  waits := by
    rw [hsocket, houtput, hstate]
    exact h.waits

theorem ShutsDownOnce.closed (h : ShutsDownOnce c) (hstate : d.state = .kDisconnected)
    (hevents : d.channel.events = Channel.kNoneEvent) (houtput : d.outputBuffer = c.outputBuffer)
    (hsocket : d.socket = c.socket) : ShutsDownOnce d where
  alive := .inr ⟨hstate, hevents⟩
  closes := by
    rw [hsocket, houtput, hstate]
    exact h.closes.imp_right fun ⟨hone, hempty, _⟩ => ⟨hone, hempty, by simp⟩
  waits hdisconnecting := absurd (hstate.symm.trans hdisconnecting) (by simp)

theorem ShutsDownOnce.handleClose (h : ShutsDownOnce c) (hd : c.handleClose = .ok d) :
    ShutsDownOnce d := by
  obtain ⟨u, hcheck, hd⟩ := bind_eq_ok.mp hd
  obtain ⟨hup, -⟩ := h.open fun hdown => by
    have hstate := check_eq_ok.mp hcheck
    rw [hdown] at hstate
    cases hstate
  obtain ⟨channel, loop, he, hdown, -⟩ := hup.disableAll
  rw [he, ok_bind] at hd
  cases hd
  exact h.closed rfl hdown.events rfl rfl

theorem ShutsDownOnce.handleWrite (h : ShutsDownOnce c) (hd : c.handleWrite w = .ok d) :
    ShutsDownOnce d := by
  rcases h.alive with ⟨hup, hmirrors⟩ | ⟨-, hnone⟩
  · obtain ⟨e, he, hspec⟩ := handleWrite_spec hmirrors w
    cases hd.symm.trans he
    obtain ⟨f, hf, hup', -⟩ := hup.handleWrite w
    cases hd.symm.trans hf
    have hstate := (handleWrite_sameLife hd).state
    by_cases hempty : c.outputBuffer.readableBytes = 0
    · have hidle : ¬c.channel.isWriting = true := fun hwriting => hmirrors.writing.mp hwriting hempty
      rw [TcpConnection.handleWrite, if_neg hidle] at hd
      cases hd
      exact h
    · -- Nothing has been shut down yet, and nothing is unless this writes the rest.
      have hzero : c.socket.shutdowns = 0 := h.closes.resolve_right fun hone => hempty hone.2.1
      have hshutdowns := hspec.shutdowns hempty
      rw [hzero, Nat.zero_add, ← hstate] at hshutdowns
      refine ⟨.inl ⟨hup', hspec.mirrors⟩, ?_, ?_⟩
      · split at hshutdowns
        · rename_i hwaited
          exact .inr ⟨hshutdowns, hwaited.2, by rw [hwaited.1]; simp⟩
        · exact .inl hshutdowns
      · intro hdisconnecting hdrained
        rw [hshutdowns, if_pos ⟨hdisconnecting, hdrained⟩]
  · have hidle : ¬c.channel.isWriting = true := by
      rw [Channel.isWriting, hnone]
      decide
    rw [TcpConnection.handleWrite, if_neg hidle] at hd
    cases hd
    exact h

theorem ShutsDownOnce.connectDestroyed (h : ShutsDownOnce c) (hd : c.connectDestroyed = .ok d) :
    ShutsDownOnce d := by
  have hremove : ∀ {e f : TcpConnection}, e.onChannel Channel.remove = .ok f →
      f = { e with channel := f.channel, loop := f.loop } ∧
        f.channel.events = e.channel.events ∧ e.channel.events = Channel.kNoneEvent := by
    intro e f hf
    have hframe := onChannel_frame hf
    obtain ⟨⟨channel, loop⟩, hremove, hf⟩ := bind_eq_ok.mp hf
    obtain ⟨u, hnone, hremove⟩ := bind_eq_ok.mp hremove
    obtain ⟨⟨channel', loop'⟩, hm, hremove⟩ := bind_eq_ok.mp hremove
    have hindex := (EPollPoller.removeChannel_calls (EventLoop.removeChannel_poller hm)).1
    have hevents := check_eq_ok.mp hnone
    cases hf
    cases hremove
    exact ⟨hframe, by rw [hindex], by simpa [Channel.isNoneEvent] using hevents⟩
  unfold TcpConnection.connectDestroyed at hd
  split at hd
  · rename_i hstate
    obtain ⟨hup, -⟩ := h.open (by rw [hstate]; simp)
    obtain ⟨channel, loop, he, hdown, -⟩ := hup.disableAll
    rw [he, ok_bind] at hd
    obtain ⟨hframe, hevents, hnone⟩ := hremove hd
    refine h.closed ?_ (hevents.trans hnone) ?_ ?_ <;> rw [hframe] <;> rfl
  · obtain ⟨hframe, hevents, hnone⟩ := hremove hd
    rcases h.alive with ⟨hup, -⟩ | ⟨hstate, -⟩
    · exact absurd hnone hup.events.ne_none
    · refine h.closed ?_ (hevents.trans hnone) ?_ ?_ <;> rw [hframe]
      exact hstate

theorem ShutsDownOnce.shutdown (h : ShutsDownOnce c) : ShutsDownOnce (c.shutdown true) := by
  by_cases hstate : c.state = .kConnected
  · obtain ⟨hup, hmirrors⟩ := h.open (by rw [hstate]; simp)
    obtain ⟨hup', -⟩ := hup.shutdown
    have hmirrors' := (shutdown_spec hmirrors true).mirrors
    have hzero : c.socket.shutdowns = 0 := h.closes.resolve_right fun hone => hone.2.2 hstate
    refine ⟨.inl ⟨hup', hmirrors'⟩, ?_, ?_⟩
    all_goals
      rw [TcpConnection.shutdown, if_pos hstate]
      dsimp only
      rw [if_pos rfl, shutdownInLoop]
      split
    · rename_i hidle
      refine .inr ⟨by simp [hzero], ?_, by simp⟩
      by_contra hpending
      simp [hmirrors.writing.mpr hpending] at hidle
    · exact .inl hzero
    · intro _ _
      simp [hzero]
    · rename_i hbusy
      intro _ hempty
      have hwriting : c.channel.isWriting = true := by simpa using hbusy
      exact absurd hempty (hmirrors.writing.mp hwriting)
  · rw [TcpConnection.shutdown, if_neg hstate]
    exact h

/-- A response that goes to the output buffer before the socket is shut down. -/
theorem ShutsDownOnce.sendOutputBuffer (h : ShutsDownOnce c) (hopen : c.socket.shutdowns = 0)
    {bytes : Bytes} {outputBuffer : Buffer} (hout : c.outputBuffer.append bytes = .ok outputBuffer)
    (htakes : TakesAnswer c sent)
    (hd : TcpConnection.sendOutputBuffer { c with outputBuffer := outputBuffer } preceding sent =
      .ok d) : ShutsDownOnce d := by
  by_cases hstate : c.state = .kConnected
  · obtain ⟨hup, hmirrors⟩ := h.open (by rw [hstate]; simp)
    obtain ⟨e, he, hmirrors', hshutdowns⟩ :=
      sendOutputBuffer_spec hmirrors hstate hout preceding htakes
    cases hd.symm.trans he
    obtain ⟨hup', -, -⟩ := (Up.outputInvariant c).sendOutputBuffer
      ((Up.outputInvariant c).output c c.socket outputBuffer ⟨hup, rfl, .refl c⟩) hd
    have hup'' : d.state = .kConnected := (sendOutputBuffer_state hd).trans hstate
    exact ⟨.inl ⟨hup', hmirrors'⟩, .inl (hshutdowns.trans hopen),
      fun hdown => absurd (hup''.symm.trans hdown) (by simp)⟩
  · rw [TcpConnection.sendOutputBuffer, if_neg hstate] at hd
    cases hd
    obtain ⟨out, happend, hreadable⟩ := c.outputBuffer.append_spec bytes
    cases hout.symm.trans happend
    -- A connection that is being shut down still has output to write, and the response joins it.
    have hpending : c.state = .kDisconnecting → outputBuffer.readableBytes ≠ 0 := by
      intro hdown hempty
      have hone := h.waits hdown
      rw [hopen] at hone
      rw [← Buffer.length_readable, hreadable, List.length_append, Buffer.length_readable] at hempty
      have hzero : c.outputBuffer.readableBytes = 0 := by omega
      exact absurd (hone hzero) (by simp)
    refine ⟨h.alive.imp_left ?_, .inl hopen, fun hdown hempty => absurd hempty (hpending hdown)⟩
    rintro ⟨hup, hmirrors⟩
    have hdown : c.state = .kDisconnecting := hup.state.resolve_left hstate
    have hwriting : c.channel.isWriting = true := by
      refine hmirrors.writing.mpr ?_
      intro hzero
      have hone := h.waits hdown hzero
      rw [hopen] at hone
      cases hone
    exact ⟨⟨hup.state, hup.index, hup.events, hup.tracks⟩, ⟨hup.state, hup.tracks⟩,
      iff_of_true hwriting (hpending hdown)⟩

end TcpConnection

namespace Session

open TcpConnection

variable {fs : FileSystem} {sourceDir : Bytes} {s t : Session} {preceding : UInt8}
  {sent w : WriteResult}

/-- No bytes are read once the socket is shut down, and no direct write of a response fails. -/
def ReadBeforeShutdown (s : Session) (a : Step) : Prop :=
  ResponseTaken s a ∧ (received s a ≠ [] → s.2.socket.shutdowns = 0)

instance (s : Session) (a : Step) : Decidable (ReadBeforeShutdown s a) :=
  inferInstanceAs (Decidable (_ ∧ _))

theorem processMessage_shutsDownOnce (h : ShutsDownOnce s.2) (hopen : s.2.socket.shutdowns = 0)
    (htakes : s.2.TakesAnswer sent) (ht : processMessage fs preceding sent s = .ok t) :
    ShutsDownOnce t.2 := by
  obtain ⟨inputBuffer, ⟨-, hconn⟩ | ⟨a, outputBuffer, d, -, hout, hd, hconn⟩⟩ :=
    processMessage_conn ht
  · rw [hconn]
    exact h.frame rfl rfl rfl id rfl rfl
  · have hinput : ShutsDownOnce { s.2 with inputBuffer := inputBuffer } :=
      h.frame rfl rfl rfl id rfl rfl
    have hsent := hinput.sendOutputBuffer hopen hout htakes hd
    rw [hconn]
    split
    · exact hsent
    · exact hsent.shutdown

theorem runPending_shutsDownOnce {c d : TcpConnection} (h : ShutsDownOnce c) (hquiet : QuietQueue c)
    (hd : c.runPending preceding w = .ok d) : ShutsDownOnce d := by
  rcases hquiet.runPending hd with rfl | ⟨rest, -, hrest⟩
  · exact h
  · have htaken : ShutsDownOnce { c with loop := { c.loop with pendingFunctors := rest } } :=
      h.frame rfl rfl rfl id rfl rfl
    rcases hrest with rfl | hdestroyed
    · exact htaken
    · exact htaken.connectDestroyed hdestroyed

/-- What closes the connection, or has closed it, does not shut it down. -/
theorem handleClose_shutdowns {c d : TcpConnection} (hd : c.handleClose = .ok d) :
    d.socket = c.socket := by
  obtain ⟨u, -, hd⟩ := bind_eq_ok.mp hd
  obtain ⟨e, he, hd⟩ := bind_eq_ok.mp hd
  have hframe := onChannel_frame he
  cases hd
  rw [hframe]
  rfl

theorem step_shutsDownOnce {a : Step} (h : ShutsDownOnce s.2) (hquiet : s.2.QuietQueue)
    (hread : ReadBeforeShutdown s a) (ht : step fs s a = .ok t) : ShutsDownOnce t.2 := by
  cases a with
  | event revents r w preceding sent =>
    obtain ⟨htaken, hopen⟩ := hread
    obtain ⟨u, hu, rfl⟩ := handleEvent_stages
      (I := fun u => ShutsDownOnce u.2 ∧ (s.2.arriving revents r ≠ [] →
        u.2.TakesAnswer sent ∧ u.2.socket.shutdowns = 0) ∧ u.2.inputBuffer = s.2.inputBuffer)
      (K := fun u => ShutsDownOnce u.2) ht
      ⟨h.frame rfl rfl rfl id rfl rfl, fun hne => ⟨htaken hne, hopen hne⟩, rfl⟩
      (fun u d hu hd => ⟨hu.1.handleClose hd, fun hne => ⟨.handleClose hd, by
        rw [handleClose_shutdowns hd]
        exact (hu.2.1 hne).2⟩, (handleClose_input hd).trans hu.2.2⟩)
      (fun hreads u v hu hv => by
        have harriving : u.2.arriving revents r = s.2.arriving revents r := by
          unfold arriving
          rw [hu.2.2]
        obtain ⟨inputBuffer, -, hcases⟩ := handleRead_stages hreads hv
        have hinput : ShutsDownOnce { u.2 with inputBuffer := inputBuffer } :=
          hu.1.frame rfl rfl rfl id rfl rfl
        rcases hcases with ⟨hmessage, hne⟩ | ⟨-, rfl | ⟨d, hd, rfl⟩⟩
        · rw [harriving] at hne
          obtain ⟨htakes, hzero⟩ := hu.2.1 hne
          exact processMessage_shutsDownOnce (s := (u.1, { u.2 with inputBuffer := inputBuffer }))
            hinput hzero htakes hmessage
        · exact hinput
        · exact hinput.handleClose hd)
      (fun _ u hu => hu.1)
      (fun u d hu hd => hu.handleWrite hd)
    exact hu.frame rfl rfl rfl id rfl rfl
  | functor preceding w =>
    obtain ⟨d, hd, ht⟩ := bind_eq_ok.mp ht
    cases ht
    exact runPending_shutsDownOnce h hquiet hd
  | timeout =>
    cases ht
    exact h.shutdown
  | ownerRemoves =>
    cases ht
    refine h.frame rfl rfl rfl ?_ rfl rfl
    intro htracks
    simpa [TcpConnection.queueInLoop] using htracks

theorem shutsDownOnce_connectEstablished {c : TcpConnection} {ptr fd : Nat} {writeComplete : Bool}
    (hc : (TcpConnection.new .new ptr fd writeComplete).connectEstablished = .ok c) :
    ShutsDownOnce c := by
  obtain ⟨-, hstate, -, -, hsocket, -⟩ := connectEstablished_spec rfl hc
  obtain ⟨d, hd, hup, -⟩ :=
    connectEstablished_exact (c := .new .new ptr fd writeComplete) rfl rfl rfl ⟨rfl, rfl⟩
  cases hc.symm.trans hd
  exact ⟨.inl ⟨hup, mirrors_connectEstablished hc⟩, .inl (by rw [hsocket]; rfl),
    fun hdown => absurd (hstate.symm.trans hdown) (by simp)⟩

/-- In every run of an HTTP connection in which no bytes are read once the socket is shut down, and
no direct write of a response fails: the socket is shut down at most once; when it is, all responses
have been written; and while the connection is being shut down, the socket has been if and only if no
output is left. -/
theorem shuts_down_once {conn : TcpConnection} {ptr fd : Nat} {writeComplete : Bool}
    {steps : List Step}
    (hc : (TcpConnection.new .new ptr fd writeComplete).connectEstablished = .ok conn)
    (hread : Along (step fs) ReadBeforeShutdown (onConnection sourceDir conn) steps)
    (hrun : run (step fs) (onConnection sourceDir conn) steps = .ok s) :
    s.2.socket.shutdowns ≤ 1 ∧
      (s.2.socket.shutdowns = 1 →
        s.2.socket.written = s.1.answers.flatMap (fun a => a.bytes)) ∧
      (s.2.state = .kDisconnecting →
        (s.2.socket.shutdowns = 1 ↔ s.2.outputBuffer.readable = [])) := by
  obtain ⟨hwired, hcloses⟩ := hread.run_invariant (I := fun s => Wired s ∧ ShutsDownOnce s.2)
    (fun s a t h hread ht =>
      ⟨step_wired h.1 hread.1 ht, step_shutsDownOnce h.2 h.1.quiet hread ht⟩)
    ⟨wired_connectEstablished hc, shutsDownOnce_connectEstablished hc⟩ hrun
  have hempty : s.2.outputBuffer.readable = [] ↔ s.2.outputBuffer.readableBytes = 0 := by
    rw [← Buffer.length_readable, List.length_eq_zero_iff]
  have hdrained : s.2.socket.shutdowns = 1 → s.2.outputBuffer.readable = [] := by
    intro hone
    rcases hcloses.closes with hzero | ⟨-, hnone, -⟩
    · rw [hzero] at hone
      cases hone
    · exact hempty.mpr hnone
  refine ⟨?_, ?_, fun hdown => ⟨hdrained, fun hnil => hcloses.waits hdown (hempty.mp hnil)⟩⟩
  · rcases hcloses.closes with hzero | ⟨hone, -⟩ <;> omega
  · intro hone
    have hstream := hwired.stream
    rw [stream, hdrained hone, List.append_nil] at hstream
    exact hstream

/-- A request that closes the connection: the end of the response, and with it the shutdown, wait for
the socket. -/
def oneRequest : List Step :=
  [receive (ofString "GET / HTTP/1.1\r\n\r\n") (.accepted 50),
    .event POLLOUT .error (.accepted 1000) 0 .failed]

theorem shuts_down_once_one : ∃ (conn : TcpConnection) (s : Session),
    (TcpConnection.new .new 1 5 false).connectEstablished = .ok conn ∧
    run (step rootSite) (onConnection [] conn) oneRequest = .ok s ∧
    s.1.answers.length = 1 ∧ s.2.socket.shutdowns = 1 ∧
    s.2.socket.written = s.1.answers.flatMap (fun a => a.bytes) := by
  have heval : ((TcpConnection.new .new 1 5 false).connectEstablished >>= fun conn =>
      run (step rootSite) (onConnection [] conn) oneRequest >>= fun s =>
        .ok (s.1.answers.length, s.2.socket.shutdowns,
          decide (Along (step rootSite) ReadBeforeShutdown (onConnection [] conn) oneRequest))) =
      .ok (1, 1, true) := by decide +kernel
  obtain ⟨conn, hconn, heval⟩ := bind_eq_ok.mp heval
  obtain ⟨s, hs, heval⟩ := bind_eq_ok.mp heval
  simp only [Except.ok.injEq, Prod.mk.injEq, decide_eq_true_eq] at heval
  obtain ⟨hanswers, hone, hread⟩ := heval
  exact ⟨conn, s, hconn, hs, hanswers, hone, (shuts_down_once hconn hread hs).2.1 hone⟩

end Session

end Mymuduo

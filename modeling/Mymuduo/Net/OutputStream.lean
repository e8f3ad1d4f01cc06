import Mymuduo.Net.TcpConnection

/-! The output stream of a connection: what the kernel has accepted, followed by what is pending in
`outputBuffer_`.  `sendInLoop` appends its message to the stream and `handleWrite` leaves the stream
as it is, unless a direct write fails: then `sendInLoop` keeps bytes from one position before the
message. -/

namespace Mymuduo.TcpConnection

open Lib

/-- A step of the loop that touches the output stream. -/
inductive StreamStep
  | sendInLoop (message : Bytes) (preceding : UInt8) (r : WriteResult)
  | handleWrite (r : WriteResult)
  deriving DecidableEq, Repr

def streamStep (c : TcpConnection) : StreamStep → Except Fault TcpConnection
  | .sendInLoop message preceding r => c.sendInLoop message preceding r
  | .handleWrite r => c.handleWrite r

/-- The bytes that a step hands to `sendInLoop`. -/
def StreamStep.message : StreamStep → Bytes
  | .sendInLoop message _ _ => message
  | .handleWrite _ => []

/-- No direct write fails: when nothing is pending and there is something to write, `::write` does
not return -1. -/
def DirectWriteAccepted (c : TcpConnection) : StreamStep → Prop
  | .sendInLoop message _ r =>
    c.channel.isWriting = false → c.outputBuffer.readableBytes = 0 → message ≠ [] → r ≠ .failed
  | .handleWrite _ => True

/-- The connection is open, and the poller tracks its channel. -/
structure Open (c : TcpConnection) : Prop where
  state : c.state = .kConnected ∨ c.state = .kDisconnecting
  tracks : c.loop.poller.Tracks c.channel

theorem ret_le (r : WriteResult) (len : Nat) : r.ret len ≤ len := by
  cases r with
  | accepted n =>
    simp only [WriteResult.ret]
    omega
  | failed =>
    simp only [WriteResult.ret]
    omega

/-- From an offset inside the message on, the bytes kept are the rest of the message. -/
theorem bytesAt_of_nonneg (preceding : UInt8) (message : Bytes) {n : Int} (h : 0 ≤ n) :
    bytesAt preceding message n (message.length - n).toNat = message.drop n.toNat := by
  have hdrop : (n + 1).toNat = n.toNat + 1 := by omega
  rw [bytesAt, hdrop, List.drop_succ_cons, List.take_of_length_le]
  rw [List.length_drop]
  omega

/-- The bytes of the output stream: those the kernel has accepted, then those still pending. -/
def stream (c : TcpConnection) : Bytes := c.socket.written ++ c.outputBuffer.readable

theorem onChannel_stream {c d : TcpConnection}
    {f : Channel → EventLoop TcpFunctor → Except Fault (Channel × EventLoop TcpFunctor)}
    (h : c.onChannel f = .ok d) : d.stream = c.stream := by
  rw [onChannel_frame h]
  rfl

theorem shutdownInLoop_stream (c : TcpConnection) : c.shutdownInLoop.stream = c.stream := by
  unfold shutdownInLoop
  split <;> rfl

/-- When no direct write fails, what the kernel takes and what `sendInLoop` keeps make up the
message. -/
theorem writeDirectly_split {c : TcpConnection} {message : Bytes} {preceding : UInt8}
    {r : WriteResult} (h : DirectWriteAccepted c (.sendInLoop message preceding r)) :
    ∃ n remain, c.writeDirectly message r = ((c.writeDirectly message r).1, n, remain) ∧
      0 ≤ remain ∧ ∃ taken, (c.writeDirectly message r).1.socket.written =
          c.socket.written ++ taken ∧
        taken ++ bytesAt preceding message n remain.toNat = message ∧
        (taken ≠ [] → c.outputBuffer.readable = []) := by
  unfold writeDirectly
  split
  · rename_i hidle
    simp only [Bool.and_eq_true, Bool.not_eq_true', beq_iff_eq] at hidle
    have hempty : c.outputBuffer.readable = [] :=
      List.eq_nil_of_length_eq_zero (by rw [Buffer.length_readable, hidle.2])
    have hle := ret_le r message.length
    by_cases hn : 0 ≤ r.ret message.length
    · refine ⟨r.ret message.length, message.length - r.ret message.length, ?_, by omega,
        message.take (r.ret message.length).toNat, ?_, ?_, fun _ => hempty⟩
      · simp only [if_pos hn]
      · obtain ⟨loop, hqueued, -⟩ := queueWriteComplete_frame (c.write message r)
        simp only [if_pos hn, hqueued]
        split <;> rfl
      · rw [bytesAt_of_nonneg preceding message hn, List.take_append_drop]
    · -- Only an empty message can have been refused here, and nothing of it is kept.
      have hr : r = .failed := by
        cases r with
        | accepted n =>
          refine absurd ?_ hn
          simp only [WriteResult.ret]
          omega
        | failed => rfl
      have hmsg : message = [] := by
        by_contra hne
        exact h hidle.1 hidle.2 hne hr
      subst hmsg hr
      exact ⟨-1, 0, rfl, by omega, [], rfl, rfl, fun hne => absurd rfl hne⟩
  · refine ⟨0, message.length, rfl, by omega, [], by simp, ?_, fun hne => absurd rfl hne⟩
    simpa using bytesAt_of_nonneg preceding message (n := 0) (by omega)

theorem sendInLoop_stream {c d : TcpConnection} {message : Bytes} {preceding : UInt8}
    {r : WriteResult} (hopen : c.state ≠ .kDisconnected)
    (h : DirectWriteAccepted c (.sendInLoop message preceding r))
    (hd : c.sendInLoop message preceding r = .ok d) : d.stream = c.stream ++ message := by
  obtain ⟨n, remain, hdirect, hremain, taken, hwritten, hmessage, hempty⟩ :=
    writeDirectly_split h
  obtain ⟨loop, socket, hframe, -⟩ := c.writeDirectly_frame message r
  rw [sendInLoop, if_neg hopen, hdirect] at hd
  -- The bytes taken go behind those pending only when nothing is pending.
  have horder : c.socket.written ++ taken ++ c.outputBuffer.readable =
      c.stream ++ taken := by
    by_cases htaken : taken = []
    · simp [htaken, stream]
    · simp [hempty htaken, stream]
  rw [hframe] at hd hwritten
  dsimp only at hd hwritten
  by_cases hkeep : 0 < remain
  · rw [if_pos hkeep] at hd
    obtain ⟨out, hout, hread⟩ := c.outputBuffer.append_spec
      (bytesAt preceding message n remain.toNat)
    rw [hout, ok_bind] at hd
    have hkept : d.stream = socket.written ++ out.readable := by
      split at hd
      · cases hd
        rfl
      · exact onChannel_stream hd
    rw [hkept, hread, hwritten, ← List.append_assoc, horder, List.append_assoc, hmessage]
  · rw [if_neg hkeep] at hd
    cases hd
    have hnil : bytesAt preceding message n remain.toNat = [] := by
      rw [show remain.toNat = 0 by omega]
      simp [bytesAt]
    rw [hnil, List.append_nil] at hmessage
    rw [stream, hwritten, horder, hmessage]

theorem outputDrained_stream {c d : TcpConnection} (hd : c.outputDrained = .ok d) :
    d.stream = c.stream := by
  obtain ⟨e, he, hd⟩ := bind_eq_ok.mp hd
  obtain ⟨loop, hqueued, -⟩ := queueWriteComplete_frame e
  dsimp only at hd
  rw [hqueued] at hd
  cases hd
  refine Eq.trans ?_ (onChannel_stream he)
  split
  · exact shutdownInLoop_stream _
  · rfl

/-- `handleWrite` moves bytes from the pending part of the stream to the accepted part. -/
theorem handleWrite_stream {c d : TcpConnection} {r : WriteResult} (hd : c.handleWrite r = .ok d) :
    d.stream = c.stream := by
  unfold handleWrite at hd
  split at hd
  · dsimp only at hd
    have hle := ret_le r c.outputBuffer.readable.length
    split at hd
    · rename_i hn
      rw [Buffer.length_readable] at hle hn
      have hlen : (r.ret c.outputBuffer.readableBytes).toNat ≤ c.outputBuffer.readableBytes := by
        omega
      obtain ⟨out, hout, hread⟩ := c.outputBuffer.retrieve_spec hlen
      have hmoved : (c.write c.outputBuffer.readable r).socket.written ++ out.readable =
          c.stream := by
        rw [hread, write, Buffer.length_readable, List.append_assoc, List.take_append_drop, stream]
      rw [show (c.write c.outputBuffer.readable r).outputBuffer = c.outputBuffer from rfl,
        Buffer.length_readable, hout, ok_bind] at hd
      split at hd
      · exact (outputDrained_stream hd).trans hmoved
      · cases hd
        exact hmoved
    · rename_i hn
      cases hd
      have hzero : (r.ret c.outputBuffer.readable.length).toNat = 0 := by omega
      rw [stream, write, hzero, List.take_zero, List.append_nil, stream]
  · cases hd
    rfl

/-! ### Open connections -/

theorem Open.onChannel {c : TcpConnection} (hopen : Open c) (f : Channel → EventLoop TcpFunctor →
      Except Fault (Channel × EventLoop TcpFunctor)) {events : Events}
    (hf : f c.channel c.loop = Channel.update { c.channel with events := events } c.loop) :
    ∃ d, c.onChannel f = .ok d ∧ Open d := by
  obtain ⟨channel, loop, hd, hupd⟩ := onChannel_update hf hopen.tracks
  exact ⟨_, hd, hopen.state, hupd.tracks⟩

theorem Open.shutdownInLoop {c : TcpConnection} (hopen : Open c) : Open c.shutdownInLoop := by
  unfold TcpConnection.shutdownInLoop
  split
  · exact ⟨hopen.state, hopen.tracks⟩
  · exact hopen

theorem Open.sendInLoop {c : TcpConnection} (hopen : Open c) (message : Bytes)
    (preceding : UInt8) (r : WriteResult) :
    ∃ d, c.sendInLoop message preceding r = .ok d ∧ Open d := by
  obtain ⟨loop, socket, hframe, hpoller⟩ := c.writeDirectly_frame message r
  have hup : c.state ≠ .kDisconnected := by rcases hopen.state with h | h <;> simp [h]
  rw [TcpConnection.sendInLoop, if_neg hup]
  generalize c.writeDirectly message r = direct at *
  obtain ⟨e, n, remain⟩ := direct
  dsimp only at hframe ⊢
  have hopene : Open e := by
    rw [hframe]
    exact ⟨hopen.state, by rw [hpoller]; exact hopen.tracks⟩
  split
  · obtain ⟨out, hout, -⟩ := e.outputBuffer.append_spec (bytesAt preceding message n remain.toNat)
    have hopenOut : Open { e with outputBuffer := out } := ⟨hopene.state, hopene.tracks⟩
    rw [hout, ok_bind]
    split
    · exact ⟨_, rfl, hopenOut⟩
    · exact hopenOut.onChannel Channel.enableWriting rfl
  · exact ⟨e, rfl, hopene⟩

theorem Open.outputDrained {c : TcpConnection} (hopen : Open c) :
    ∃ d, c.outputDrained = .ok d ∧ Open d := by
  obtain ⟨e, he, hopene⟩ := hopen.onChannel Channel.disableWriting rfl
  obtain ⟨loop, hqueued, hpoller⟩ := queueWriteComplete_frame e
  have hopenq : Open { e with loop := loop } := ⟨hopene.state, by rw [hpoller]; exact hopene.tracks⟩
  rw [TcpConnection.outputDrained, he, ok_bind]
  dsimp only
  rw [hqueued]
  refine ⟨_, rfl, ?_⟩
  split
  · exact hopenq.shutdownInLoop
  · exact hopenq

theorem Open.handleWrite {c : TcpConnection} (hopen : Open c) (r : WriteResult) :
    ∃ d, c.handleWrite r = .ok d ∧ Open d := by
  have hopenw : Open (c.write c.outputBuffer.readable r) := ⟨hopen.state, hopen.tracks⟩
  have hle := ret_le r c.outputBuffer.readable.length
  rw [Buffer.length_readable] at hle
  unfold TcpConnection.handleWrite
  split
  · dsimp only
    split
    · have hlen : (r.ret c.outputBuffer.readableBytes).toNat ≤ c.outputBuffer.readableBytes := by
        omega
      obtain ⟨out, hout, -⟩ := c.outputBuffer.retrieve_spec hlen
      rw [show (c.write c.outputBuffer.readable r).outputBuffer = c.outputBuffer from rfl,
        Buffer.length_readable, hout, ok_bind]
      have hopenOut : Open { c.write c.outputBuffer.readable r with outputBuffer := out } :=
        ⟨hopenw.state, hopenw.tracks⟩
      split
      · exact hopenOut.outputDrained
      · exact ⟨_, rfl, hopenOut⟩
    · exact ⟨_, rfl, hopenw⟩
  · exact ⟨c, rfl, hopen⟩

/-! ### Runs -/

theorem streamStep_stream {c d : TcpConnection} {a : StreamStep} (hopen : c.state ≠ .kDisconnected)
    (h : DirectWriteAccepted c a) (hd : streamStep c a = .ok d) :
    d.stream = c.stream ++ a.message ∧ SameLife c d := by
  cases a with
  | sendInLoop message preceding r => exact ⟨sendInLoop_stream hopen h hd, sendInLoop_sameLife hd⟩
  | handleWrite r =>
    exact ⟨by simpa [StreamStep.message] using handleWrite_stream hd, handleWrite_sameLife hd⟩

theorem streamStep_returns {c : TcpConnection} (hopen : Open c) (a : StreamStep) :
    ∃ d, streamStep c a = .ok d ∧ Open d := by
  cases a with
  | sendInLoop message preceding r => exact hopen.sendInLoop message preceding r
  | handleWrite r => exact hopen.handleWrite r

theorem stream_run_returns {c : TcpConnection} (hopen : Open c) (steps : List StreamStep) :
    ∃ d, run streamStep c steps = .ok d ∧ Open d := by
  have halways : Along streamStep (fun _ _ => True) c steps :=
    along_iff.mpr fun _ _ _ _ _ _ => trivial
  exact halways.run_total (fun _ a hI _ => streamStep_returns hI a) hopen

/-- In a run in which no direct write fails, the stream grows by the messages in call order. -/
theorem stream_run {c d : TcpConnection} {steps : List StreamStep}
    (hopen : c.state ≠ .kDisconnected) (h : Along streamStep DirectWriteAccepted c steps)
    (hd : run streamStep c steps = .ok d) :
    d.stream = c.stream ++ steps.flatMap StreamStep.message := by
  induction steps generalizing c with
  | nil =>
    cases hd
    simp
  | cons a steps ih =>
    obtain ⟨e, he, hrun⟩ := run_cons_ok.mp hd
    obtain ⟨hstream, hlife⟩ := streamStep_stream hopen h.1 he
    have hrest := ih (by rw [hlife.state]; exact hopen) (h.2 e he) hrun
    rw [hrest, hstream, List.flatMap_cons, List.append_assoc]

/-- When no direct write fails, the bytes the kernel has accepted, followed by those pending, are
the messages handed to `sendInLoop`, in call order, after the stream as it was; on a channel that
the poller tracks the run has no fault. -/
theorem stream_intact {c : TcpConnection} (hstate : c.state = .kConnected ∨ c.state = .kDisconnecting)
    {steps : List StreamStep} (h : Along streamStep DirectWriteAccepted c steps) :
    (∀ d, run streamStep c steps = .ok d →
      d.socket.written ++ d.outputBuffer.readable =
        c.socket.written ++ c.outputBuffer.readable ++ steps.flatMap StreamStep.message) ∧
    (c.loop.poller.Tracks c.channel → ∃ d, run streamStep c steps = .ok d) := by
  have hup : c.state ≠ .kDisconnected := by rcases hstate with h | h <;> simp [h]
  refine ⟨fun d hd => stream_run hup h hd, ?_⟩
  intro htracks
  obtain ⟨d, hd, -⟩ := stream_run_returns ⟨hstate, htracks⟩ steps
  exact ⟨d, hd⟩

theorem stream_intact_partial_write : ∃ c d : TcpConnection,
    (new .new 1 5 false).connectEstablished = .ok c ∧
    run streamStep c [.sendInLoop (ofString "abc") 0 (.accepted 1), .handleWrite (.accepted 2)] =
      .ok d ∧
    d.socket.written ++ d.outputBuffer.readable = ofString "abc" := by
  obtain ⟨c, hc⟩ : ∃ c, (new .new 1 5 false).connectEstablished = .ok c := ⟨_, rfl⟩
  have hstate : c.state = .kConnected := by cases hc; rfl
  have htracks : c.loop.poller.Tracks c.channel := by cases hc; exact ⟨rfl, rfl⟩
  have hfresh : c.socket.written ++ c.outputBuffer.readable = [] := by cases hc; decide
  have haccepted : Along streamStep DirectWriteAccepted c
      [.sendInLoop (ofString "abc") 0 (.accepted 1), .handleWrite (.accepted 2)] :=
    ⟨fun _ _ _ h => WriteResult.noConfusion h, fun _ _ => ⟨trivial, fun _ _ => trivial⟩⟩
  obtain ⟨hstream, hreturns⟩ := stream_intact (Or.inl hstate) haccepted
  obtain ⟨d, hd⟩ := hreturns htracks
  exact ⟨c, d, hc, hd, by rw [hstream d hd, hfresh]; decide⟩

/-- The direct write of `ab` fails on an established connection: the byte before the message is
kept and its last byte is lost. -/
theorem failed_write_corrupts_stream : ∃ c d : TcpConnection,
    (new .new 1 5 false).connectEstablished = .ok c ∧
    run streamStep c [.sendInLoop (ofString "ab") 0 .failed] = .ok d ∧
    d.socket.written ++ d.outputBuffer.readable ≠
      c.socket.written ++ c.outputBuffer.readable ++
        [StreamStep.sendInLoop (ofString "ab") 0 .failed].flatMap StreamStep.message := by
  have heval : ((new .new 1 5 false).connectEstablished >>= fun c =>
      run streamStep c [.sendInLoop (ofString "ab") 0 .failed] >>= fun d =>
        .ok (c.stream, d.stream)) = .ok ([], [0, 97]) := by decide +kernel
  obtain ⟨c, hc, heval⟩ := bind_eq_ok.mp heval
  obtain ⟨d, hd, heval⟩ := bind_eq_ok.mp heval
  obtain ⟨hfresh, hstream⟩ := Prod.mk.inj (Except.ok.inj heval)
  refine ⟨c, d, hc, hd, ?_⟩
  change d.stream ≠ c.stream ++ _
  rw [hfresh, hstream]
  decide

end Mymuduo.TcpConnection

import Mymuduo.Net.ShutdownOrder

/-! Write interest: on an established connection the channel waits for the socket exactly while
output is pending, so that nothing pending is forgotten and a `shutdown` that has to wait is carried
out by the `handleWrite` that writes the last byte. -/

namespace Mymuduo.TcpConnection

open Lib

/-- A step of the loop that looks at the pending output, or the call of `shutdown`. -/
inductive OutputStep
  | sendInLoop (message : Bytes) (preceding : UInt8) (r : WriteResult)
  | handleWrite (r : WriteResult)
  | shutdown (isInLoopThread : Bool)
  | shutdownInLoop
  deriving DecidableEq, Repr

def outputStep (c : TcpConnection) : OutputStep → Except Fault TcpConnection
  | .sendInLoop message preceding r => c.sendInLoop message preceding r
  | .handleWrite r => c.handleWrite r
  | .shutdown isInLoopThread => .ok (c.shutdown isInLoopThread)
  | .shutdownInLoop => .ok c.shutdownInLoop

/-- The bytes that a step asks `::write` to write, if it calls it, and what comes of it. -/
def asked (c : TcpConnection) : OutputStep → Option (Bytes × WriteResult)
  | .sendInLoop message _ r =>
    if c.state ≠ .kDisconnected ∧ c.channel.isWriting = false ∧
      c.outputBuffer.readableBytes = 0 then some (message, r) else none
  | .handleWrite r =>
    if c.channel.isWriting = true then some (c.outputBuffer.readable, r) else none
  | .shutdown _ | .shutdownInLoop => none

/-- A `::write` of the step accepts everything that it is asked to write. -/
def acceptsAll (c : TcpConnection) (a : OutputStep) : Bool :=
  (c.asked a).any fun w => w.2.ret w.1.length == w.1.length

/-- What a step queues: a `shutdown` from another thread, and the user's callback if everything was
accepted. -/
def queuedBy (c : TcpConnection) (a : OutputStep) : List TcpFunctor :=
  (if a = .shutdown false ∧ c.state = .kConnected then [.shutdownInLoop] else []) ++
    if c.writeCompleteCallback && c.acceptsAll a then [.writeCompleteCallback] else []

/-- The channel waits for the socket exactly while output is pending. -/
structure Mirrors (c : TcpConnection) : Prop where
  opened : Open c
  writing : c.channel.isWriting = true ↔ c.outputBuffer.readableBytes ≠ 0

/-- What a step does to the queue of the loop, and to the socket while output is pending. -/
structure OutputSpec (c : TcpConnection) (a : OutputStep) (d : TcpConnection) : Prop where
  mirrors : Mirrors d
  queued : d.loop.pendingFunctors = c.loop.pendingFunctors ++ c.queuedBy a
  shutdowns : c.outputBuffer.readableBytes ≠ 0 → d.socket.shutdowns = c.socket.shutdowns +
    if c.state = .kDisconnecting ∧ d.outputBuffer.readableBytes = 0 then 1 else 0

variable {c d : TcpConnection} {r : WriteResult}

theorem queueWriteComplete_pendingFunctors (c : TcpConnection) :
    c.queueWriteComplete.loop.pendingFunctors = c.loop.pendingFunctors ++
      if c.writeCompleteCallback then [.writeCompleteCallback] else [] := by
  unfold queueWriteComplete
  split
  · exact EventLoop.queueInLoop_pendingFunctors ..
  · exact (List.append_nil _).symm

theorem Open.not_disconnected (h : Open c) : c.state ≠ .kDisconnected := by
  rcases h.state with h | h <;> simp [h]

theorem length_bytesAt (preceding : UInt8) (message : Bytes) {n : Int} {len : Nat} (hn : -1 ≤ n)
    (hlen : n + len ≤ message.length) : (bytesAt preceding message n len).length = len := by
  simp only [bytesAt, List.length_take, List.length_drop, List.length_cons]
  omega

/-- What is kept makes the channel wait for the socket. -/
theorem keep_spec (hopen : Open c) (bytes : Bytes) (hbytes : bytes.length ≠ 0) :
    ∃ d, (c.outputBuffer.append bytes >>= fun out =>
        if c.channel.isWriting then Except.ok { c with outputBuffer := out }
        else onChannel { c with outputBuffer := out } Channel.enableWriting) = .ok d ∧
      Mirrors d ∧ d.loop.pendingFunctors = c.loop.pendingFunctors ∧ d.socket = c.socket ∧
      d.outputBuffer.readableBytes ≠ 0 := by
  obtain ⟨out, hout, hread⟩ := c.outputBuffer.append_spec bytes
  have hpending : out.readableBytes ≠ 0 := by
    rw [← Buffer.length_readable, hread, List.length_append]
    omega
  rw [hout, ok_bind]
  split
  · rename_i hwriting
    exact ⟨_, rfl, ⟨⟨hopen.state, hopen.tracks⟩, iff_of_true hwriting hpending⟩, rfl, rfl, hpending⟩
  · obtain ⟨channel, loop, hd, hupd⟩ := onChannel_update (f := Channel.enableWriting)
      (c := { c with outputBuffer := out }) rfl hopen.tracks
    have hwriting : channel.isWriting = true := by
      rw [Channel.isWriting, hupd.events_eq, Channel.has_enableWriting]
    refine ⟨_, hd, ⟨⟨hopen.state, hupd.tracks⟩, iff_of_true hwriting hpending⟩, ?_, rfl, hpending⟩
    show loop.pendingFunctors = c.loop.pendingFunctors
    rw [hupd.loop_eq]

theorem writeDirectly_of_idle (hidle : c.channel.isWriting = false)
    (hempty : c.outputBuffer.readableBytes = 0) (message : Bytes) (r : WriteResult) :
    c.writeDirectly message r =
      if r.ret message.length = message.length then
        ((c.write message r).queueWriteComplete, r.ret message.length, 0)
      else
        (c.write message r, r.ret message.length,
          message.length - if 0 ≤ r.ret message.length then r.ret message.length else 0) := by
  have hcondition : (!c.channel.isWriting && c.outputBuffer.readableBytes == 0) = true := by
    simp [hidle, hempty]
  rw [writeDirectly, if_pos hcondition]
  by_cases hall : r.ret message.length = message.length
  · have hn : (0 : Int) ≤ message.length := by omega
    simp [hall]
  · by_cases hn : 0 ≤ r.ret message.length
    · have hrest : (message.length : Int) - r.ret message.length ≠ 0 := by omega
      simp [hall, hn, hrest]
    · simp [hall, hn]

theorem sendInLoop_spec (h : Mirrors c) (message : Bytes) (preceding : UInt8) (r : WriteResult) :
    ∃ d, c.sendInLoop message preceding r = .ok d ∧
      OutputSpec c (.sendInLoop message preceding r) d := by
  have hup := h.opened.not_disconnected
  have hle := ret_le r message.length
  by_cases hidle : c.channel.isWriting = false
  · have hempty : c.outputBuffer.readableBytes = 0 := by
      by_contra hpending
      rw [h.writing.mpr hpending] at hidle
      cases hidle
    have hasked : c.asked (.sendInLoop message preceding r) = some (message, r) :=
      if_pos ⟨hup, hidle, hempty⟩
    have hqueued : c.queuedBy (.sendInLoop message preceding r) =
        if c.writeCompleteCallback && r.ret message.length == message.length
          then [.writeCompleteCallback] else [] := by
      simp [queuedBy, acceptsAll, hasked]
    have hmin : -1 ≤ r.ret message.length := by cases r <;> simp only [WriteResult.ret] <;> omega
    have hwrite : Open (c.write message r) := ⟨h.opened.state, h.opened.tracks⟩
    rw [sendInLoop, if_neg hup, writeDirectly_of_idle hidle hempty]
    by_cases hall : r.ret message.length = message.length
    · rw [if_pos hall]
      obtain ⟨loop, hframe, hpoller⟩ := (c.write message r).queueWriteComplete_frame
      have hfunctors := (c.write message r).queueWriteComplete_pendingFunctors
      rw [hframe] at hfunctors ⊢
      refine ⟨_, rfl, ⟨⟨h.opened.state, ?_⟩, h.writing⟩, ?_, fun hpending => absurd hempty hpending⟩
      · show loop.poller.Tracks c.channel
        rw [hpoller]
        exact h.opened.tracks
      · have hset : (c.writeCompleteCallback && r.ret message.length == message.length) =
            c.writeCompleteCallback := by simp [hall]
        rw [hqueued, hset]
        exact hfunctors
    · -- Not everything is accepted, so nothing is queued, and the rest is kept if there is any.
      have hnone : c.queuedBy (.sendInLoop message preceding r) = [] := by
        simp [hqueued, hall]
      rw [if_neg hall]
      generalize hremain : (message.length : Int) -
        (if 0 ≤ r.ret message.length then r.ret message.length else 0) = remain
      dsimp only
      by_cases hpos : 0 < remain
      · have hfits : r.ret message.length + remain.toNat ≤ message.length := by
          split at hremain <;> omega
        rw [if_pos hpos]
        obtain ⟨d, hd, hmirrors, hfunctors, -, -⟩ := keep_spec hwrite
          (bytesAt preceding message (r.ret message.length) remain.toNat)
          (by rw [length_bytesAt preceding message hmin hfits]; omega)
        exact ⟨d, hd, hmirrors, by rw [hfunctors, hnone, List.append_nil]; rfl,
          fun hpending => absurd hempty hpending⟩
      · rw [if_neg hpos]
        exact ⟨_, rfl, ⟨hwrite, h.writing⟩, by rw [hnone, List.append_nil]; rfl,
          fun hpending => absurd hempty hpending⟩
  · have hwriting : c.channel.isWriting = true := by simpa using hidle
    have hpending := h.writing.mp hwriting
    have hqueued : c.queuedBy (.sendInLoop message preceding r) = [] := by
      simp [queuedBy, acceptsAll, asked, hwriting]
    rw [sendInLoop, if_neg hup, writeDirectly, if_neg (by simp [hwriting])]
    dsimp only
    by_cases hmessage : message.length = 0
    · rw [if_neg (by omega)]
      exact ⟨c, rfl, h, by rw [hqueued, List.append_nil], by simp [hpending]⟩
    · rw [if_pos (by omega)]
      obtain ⟨d, hd, hmirrors, hfunctors, hsocket, hkept⟩ := keep_spec h.opened
        (bytesAt preceding message 0 (message.length : Int).toNat)
        (by rw [length_bytesAt preceding message (by omega) (by omega)]; omega)
      exact ⟨d, hd, hmirrors, by rw [hfunctors, hqueued, List.append_nil], by simp [hsocket, hkept]⟩

theorem outputDrained_exact (hopen : Open c) :
    ∃ d, c.outputDrained = .ok d ∧ Open d ∧ d.channel.isWriting = false ∧
      d.outputBuffer = c.outputBuffer ∧
      d.loop.pendingFunctors = c.loop.pendingFunctors ++
        (if c.writeCompleteCallback then [.writeCompleteCallback] else []) ∧
      d.socket.shutdowns = c.socket.shutdowns + if c.state = .kDisconnecting then 1 else 0 := by
  obtain ⟨d, hd, hopend⟩ := hopen.outputDrained
  obtain ⟨-, hidle, hbuffer, -⟩ := outputDrained_spec hopen hd
  refine ⟨d, hd, hopend, hidle, hbuffer, ?_⟩
  obtain ⟨e, he, hd⟩ := bind_eq_ok.mp hd
  obtain ⟨channel, loop, hspec, hupd⟩ := onChannel_update (f := Channel.disableWriting) rfl
    hopen.tracks
  cases he.symm.trans hspec
  have hfunctors := queueWriteComplete_pendingFunctors { c with channel := channel, loop := loop }
  obtain ⟨loop', hframe, -⟩ := queueWriteComplete_frame { c with channel := channel, loop := loop }
  have hloop : loop.pendingFunctors = c.loop.pendingFunctors := by rw [hupd.loop_eq]
  have hwriting : channel.isWriting = false := by
    rw [Channel.isWriting, hupd.events_eq, Channel.has_disableWriting]
  dsimp only at hd hfunctors hframe
  rw [hframe] at hd hfunctors
  dsimp only at hd hfunctors
  rw [hloop] at hfunctors
  cases hd
  by_cases hstate : c.state = .kDisconnecting
  · simp [hstate, shutdownInLoop, hwriting, hfunctors]
  · simp [hstate, hfunctors]

theorem handleWrite_spec (h : Mirrors c) (r : WriteResult) :
    ∃ d, c.handleWrite r = .ok d ∧ OutputSpec c (.handleWrite r) d := by
  have hle := ret_le r c.outputBuffer.readableBytes
  by_cases hwriting : c.channel.isWriting = true
  · have hpending := h.writing.mp hwriting
    have hqueued : c.queuedBy (.handleWrite r) =
        if c.writeCompleteCallback &&
            r.ret c.outputBuffer.readableBytes == c.outputBuffer.readableBytes
          then [.writeCompleteCallback] else [] := by
      simp [queuedBy, acceptsAll, asked, hwriting]
    rw [handleWrite, if_pos hwriting]
    dsimp only
    rw [Buffer.length_readable]
    by_cases hn : 0 < r.ret c.outputBuffer.readableBytes
    · rw [if_pos hn]
      have hlen : (r.ret c.outputBuffer.readableBytes).toNat ≤ c.outputBuffer.readableBytes := by
        omega
      obtain ⟨out, hout, hread⟩ := c.outputBuffer.retrieve_spec hlen
      have hleft : out.readableBytes =
          c.outputBuffer.readableBytes - (r.ret c.outputBuffer.readableBytes).toNat := by
        rw [← Buffer.length_readable, hread, List.length_drop, Buffer.length_readable]
      rw [show (c.write c.outputBuffer.readable r).outputBuffer = c.outputBuffer from rfl, hout,
        ok_bind]
      by_cases hempty : out.readableBytes = 0
      · have hall : r.ret c.outputBuffer.readableBytes = c.outputBuffer.readableBytes := by omega
        rw [if_pos hempty]
        obtain ⟨d, hd, hopend, hidle, hbuffer, hfunctors, hshutdowns⟩ := outputDrained_exact
          (c := { c.write c.outputBuffer.readable r with outputBuffer := out })
          ⟨h.opened.state, h.opened.tracks⟩
        refine ⟨d, hd, ⟨hopend, by rw [hidle, hbuffer]; simp [hempty]⟩, ?_, ?_⟩
        · rw [hfunctors, hqueued]
          simp [hall, write]
        · intro _
          rw [hshutdowns, hbuffer]
          simp [hempty, write]
      · have hall : r.ret c.outputBuffer.readableBytes ≠ c.outputBuffer.readableBytes := by omega
        rw [if_neg hempty]
        refine ⟨_, rfl, ⟨⟨h.opened.state, h.opened.tracks⟩, iff_of_true hwriting hempty⟩, ?_, ?_⟩
        · simp [hqueued, hall, write]
        · simp [hempty, write]
    · have hall : r.ret c.outputBuffer.readableBytes ≠ c.outputBuffer.readableBytes := by omega
      rw [if_neg hn]
      refine ⟨_, rfl, ⟨⟨h.opened.state, h.opened.tracks⟩, h.writing⟩, ?_, ?_⟩
      · simp [hqueued, hall, write]
      · simp [hpending, write]
  · have hempty : c.outputBuffer.readableBytes = 0 := by
      by_contra hpending
      exact hwriting (h.writing.mpr hpending)
    rw [handleWrite, if_neg hwriting]
    exact ⟨c, rfl, h, by simp [queuedBy, acceptsAll, asked, hwriting],
      fun hpending => absurd hempty hpending⟩

theorem shutdownInLoop_spec (h : Mirrors c) {a : OutputStep} (ha : c.queuedBy a = []) :
    OutputSpec c a c.shutdownInLoop := by
  unfold shutdownInLoop
  split
  · rename_i hidle
    refine ⟨⟨⟨h.opened.state, h.opened.tracks⟩, h.writing⟩, by rw [ha, List.append_nil], ?_⟩
    intro hpending
    simp [h.writing.mpr hpending] at hidle
  · refine ⟨h, by rw [ha, List.append_nil], ?_⟩
    intro hpending
    simp [hpending]

theorem shutdown_spec (h : Mirrors c) (isInLoopThread : Bool) :
    OutputSpec c (.shutdown isInLoopThread) (c.shutdown isInLoopThread) := by
  have hasked : c.acceptsAll (.shutdown isInLoopThread) = false := rfl
  unfold shutdown
  split
  · rename_i hstate
    have h' : Mirrors { c with state := .kDisconnecting } :=
      ⟨⟨.inr rfl, h.opened.tracks⟩, h.writing⟩
    dsimp only
    split
    · rename_i hthread
      have hspec := shutdownInLoop_spec h' (a := .shutdownInLoop) (by simp [queuedBy, acceptsAll, asked])
      refine ⟨hspec.mirrors, ?_, ?_⟩
      · rw [hspec.queued]
        simp [queuedBy, hthread, acceptsAll, asked]
      · intro hpending
        have hbusy := h.writing.mpr hpending
        simp [shutdownInLoop, hbusy, hstate]
    · rename_i hthread
      refine ⟨⟨⟨.inr rfl, ?_⟩, h.writing⟩, ?_, ?_⟩
      · simpa [queueInLoop] using h.opened.tracks
      · simp [queueInLoop, queuedBy, hthread, hstate, acceptsAll, asked]
      · intro _
        simp [queueInLoop, hstate]
  · rename_i hstate
    refine ⟨h, by simp [queuedBy, hasked, hstate], ?_⟩
    intro hpending
    simp [hpending]

theorem outputStep_spec (h : Mirrors c) (a : OutputStep) :
    ∃ d, outputStep c a = .ok d ∧ OutputSpec c a d := by
  cases a with
  | sendInLoop message preceding r => exact sendInLoop_spec h message preceding r
  | handleWrite r => exact handleWrite_spec h r
  | shutdown isInLoopThread => exact ⟨_, rfl, shutdown_spec h isInLoopThread⟩
  | shutdownInLoop =>
    exact ⟨_, rfl, shutdownInLoop_spec h (by simp [queuedBy, acceptsAll, asked])⟩

theorem mirrors_connectEstablished {loop : EventLoop TcpFunctor} {ptr fd : Nat}
    {writeComplete : Bool} (hc : (new loop ptr fd writeComplete).connectEstablished = .ok c) :
    Mirrors c := by
  obtain ⟨hopen, -, hevents, hbuffer, -, -⟩ := connectEstablished_spec rfl hc
  refine ⟨hopen, iff_of_false ?_ ?_⟩
  · rw [Channel.isWriting, hevents]
    show ¬ Events.has (Channel.kNoneEvent ||| Channel.kReadEvent) Channel.kWriteEvent = true
    decide
  · rw [hbuffer]
    simp [new, Buffer.new, Buffer.readableBytes]

/-- On an established connection, whatever is sent and however the socket takes it: the channel
waits for the socket exactly while output is pending; the user's callback, if it is set, is queued in
the steps in which a `::write` accepts everything it is asked to write, and in no others; and a
`shutdown` that has had to wait is carried out in the step that writes the last of the output. -/
theorem writing_iff_pending {loop : EventLoop TcpFunctor} {ptr fd : Nat} {writeComplete : Bool}
    (hc : (new loop ptr fd writeComplete).connectEstablished = .ok c) (steps : List OutputStep) :
    (∃ d, run outputStep c steps = .ok d) ∧
    ∀ before after, steps = before ++ after → ∀ d, run outputStep c before = .ok d →
      (d.state = .kConnected ∨ d.state = .kDisconnecting) ∧
      (d.channel.isWriting = true ↔ d.outputBuffer.readable ≠ []) ∧
      ∀ a rest e, after = a :: rest → outputStep d a = .ok e →
        e.loop.pendingFunctors = d.loop.pendingFunctors ++ d.queuedBy a ∧
        (d.outputBuffer.readable ≠ [] → e.socket.shutdowns = d.socket.shutdowns +
          if d.state = .kDisconnecting ∧ e.outputBuffer.readable = [] then 1 else 0) := by
  have hreadable : ∀ e : TcpConnection, e.outputBuffer.readable = [] ↔
      e.outputBuffer.readableBytes = 0 := by
    intro e
    rw [← Buffer.length_readable, List.length_eq_zero_iff]
  have hstep : ∀ {d : TcpConnection}, Mirrors d → ∀ a, ∃ e, outputStep d a = .ok e ∧ Mirrors e := by
    intro d hd a
    obtain ⟨e, he, hspec⟩ := outputStep_spec hd a
    exact ⟨e, he, hspec.mirrors⟩
  have hstart := mirrors_connectEstablished hc
  constructor
  · obtain ⟨d, hd, -⟩ := run_total hstep hstart steps
    exact ⟨d, hd⟩
  · intro before after _ d hd
    obtain ⟨d', hd', h⟩ := run_total hstep hstart before
    cases hd.symm.trans hd'
    refine ⟨h.opened.state, by rw [Ne, hreadable]; exact h.writing, ?_⟩
    intro a rest e _ he
    obtain ⟨e', he', hspec⟩ := outputStep_spec h a
    cases he.symm.trans he'
    exact ⟨hspec.queued, by simpa only [Ne, hreadable] using hspec.shutdowns⟩

/-- A message of two bytes is taken in two steps, and the `shutdown` in between waits for the
second. -/
theorem writing_iff_pending_two : ∃ c d : TcpConnection,
    (new .new 1 5 true).connectEstablished = .ok c ∧
    run outputStep c [.sendInLoop (ofString "ab") 0 (.accepted 1), .shutdown true,
      .handleWrite (.accepted 1)] = .ok d ∧
    (d.channel.isWriting = true ↔ d.outputBuffer.readable ≠ []) := by
  obtain ⟨c, hc⟩ : ∃ c, (new .new 1 5 true).connectEstablished = .ok c := ⟨_, rfl⟩
  obtain ⟨⟨d, hd⟩, hstates⟩ := writing_iff_pending hc
    [.sendInLoop (ofString "ab") 0 (.accepted 1), .shutdown true, .handleWrite (.accepted 1)]
  exact ⟨c, d, hc, hd, (hstates _ [] (by simp) d hd).2.1⟩

end Mymuduo.TcpConnection

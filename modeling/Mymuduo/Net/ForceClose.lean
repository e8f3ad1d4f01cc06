import Mymuduo.Net.TcpConnection

/-! The life of an established connection under every step of its loop and every call on it, and
what `forceClose` does to it.  `forceClose` stores `kDisconnected` before the functor that it queues
has run, and `forceCloseInLoop` then finds nothing to close, so that `closeCallback_` is never
called again. -/

namespace Mymuduo.TcpConnection

open Lib

/-- A step of the loop, or a call on the connection.  What the user's `messageCallback_` does on the
connection is a step of its own, and so is each functor of a round of `doPendingFunctors`.
`ownerRemoves` is the owner that queues `connectDestroyed`: `TcpServer` does so when
`closeCallback_` has told it, and at any time in its destructor. -/
inductive LifeStep
  | event (revents : Events) (r : Buffer.ReadResult) (w : WriteResult)
  | functor (preceding : UInt8) (w : WriteResult)
  | send (isInLoopThread : Bool) (msg : Bytes) (preceding : UInt8) (w : WriteResult)
  | shutdown (isInLoopThread : Bool)
  | forceClose (isInLoopThread : Bool)
  | ownerRemoves
  deriving DecidableEq, Repr

def lifeStep (c : TcpConnection) : LifeStep → Except Fault TcpConnection
  | .event revents r w => do
    let (_, c) ← handleEvent .ok revents r w ((), c)
    return c
  | .functor preceding w => c.runPending preceding w
  | .send isInLoopThread msg preceding w => c.send isInLoopThread msg preceding w
  | .shutdown isInLoopThread => .ok (c.shutdown isInLoopThread)
  | .forceClose isInLoopThread => .ok (c.forceClose isInLoopThread)
  | .ownerRemoves => .ok (c.queueInLoop false .connectDestroyed)

/-- A connection right after `connectEstablished`. -/
def Established (c : TcpConnection) : Prop :=
  ∃ loop ptr fd writeComplete, (new loop ptr fd writeComplete).connectEstablished = .ok c

/-- The connection is closed: its state says so, its channel has no interest, its user has been told
once that it is down, and its owner has been told once. -/
structure Closed (c : TcpConnection) : Prop where
  state : c.state = .kDisconnected
  events : c.channel.events = Channel.kNoneEvent
  connectionCallback : c.connectionCalls.count false = 1
  closeCallback : c.closeCalls = 1

/-- While `closeCallback_` has not been called nothing is said, and once it has been the state is
`kDisconnected`. -/
def CloseTold (c : TcpConnection) : Prop := c.closeCalls = 0 ∨ c.state = .kDisconnected

/-- The state is `kDisconnected`, and `closeCallback_` has not been called. -/
structure Abandoned (c : TcpConnection) : Prop where
  state : c.state = .kDisconnected
  closeCalls : c.closeCalls = 0

/-! ### What a step can do to the life of the connection -/

/-- What can become of the state and of the owner's knowledge in one step. -/
inductive LifeChange (c d : TcpConnection) : Prop
  | same (state : d.state = c.state) (closeCalls : d.closeCalls = c.closeCalls)
  | shutdown (before : c.state = .kConnected) (after : d.state = .kDisconnecting)
      (closeCalls : d.closeCalls = c.closeCalls)
  | abandoned (before : c.state = .kConnected ∨ c.state = .kDisconnecting)
      (after : d.state = .kDisconnected) (closeCalls : d.closeCalls = c.closeCalls)
  | closed (before : c.state = .kConnected ∨ c.state = .kDisconnecting)
      (after : d.state = .kDisconnected)

theorem SameLife.change {c d : TcpConnection} (h : SameLife c d) : LifeChange c d :=
  .same h.state h.closeCalls

theorem handleClose_change {c d : TcpConnection} (h : c.handleClose = .ok d) :
    (c.state = .kConnected ∨ c.state = .kDisconnecting) ∧ d.state = .kDisconnected := by
  obtain ⟨u, hcheck, h⟩ := bind_eq_ok.mp h
  obtain ⟨e, he, h⟩ := bind_eq_ok.mp h
  have hstate := check_eq_ok.mp hcheck
  have hlife := onChannel_sameLife he
  cases h
  exact ⟨by simpa using hstate, hlife.state⟩

theorem connectDestroyed_change {c d : TcpConnection} (h : c.connectDestroyed = .ok d) :
    LifeChange c d := by
  unfold connectDestroyed at h
  split at h
  · rename_i hstate
    obtain ⟨e, he, h⟩ := bind_eq_ok.mp h
    have hdisable := onChannel_sameLife he
    have hremove := onChannel_sameLife h
    exact .abandoned (.inl hstate) (hremove.state.trans hdisable.state)
      (hremove.closeCalls.trans hdisable.closeCalls)
  · exact (onChannel_sameLife h).change

theorem runFunctor_change {c d : TcpConnection} {functor : TcpFunctor} {preceding : UInt8}
    {w : WriteResult} (h : c.runFunctor preceding w functor = .ok d) : LifeChange c d := by
  cases functor with
  | sendInLoop message => exact (sendInLoop_sameLife h).change
  | shutdownInLoop =>
    cases h
    exact shutdownInLoop_sameLife.change
  | forceCloseInLoop =>
    change c.forceCloseInLoop = .ok d at h
    unfold forceCloseInLoop at h
    split at h
    · obtain ⟨hbefore, hafter⟩ := handleClose_change h
      exact .closed hbefore hafter
    · cases h
      exact (SameLife.refl c).change
  | connectDestroyed => exact connectDestroyed_change h
  | writeCompleteCallback =>
    cases h
    exact (SameLife.refl c).change

theorem handleEvent_keeps {κ : Type} {I : StateE → Nat → Prop} {s t : κ × TcpConnection}
    {messageCallback : κ × TcpConnection → Except Fault (κ × TcpConnection)} {revents : Events}
    {r : Buffer.ReadResult} {w : WriteResult}
    (hclose : ∀ c d : TcpConnection, I c.state c.closeCalls → c.handleClose = .ok d →
      I d.state d.closeCalls)
    (hmessage : ∀ s t : κ × TcpConnection, I s.2.state s.2.closeCalls →
      messageCallback s = .ok t → I t.2.state t.2.closeCalls)
    (hI : I s.2.state s.2.closeCalls) (h : handleEvent messageCallback revents r w s = .ok t) :
    I t.2.state t.2.closeCalls := by
  have hcontext : ∀ f : TcpConnection → Except Fault TcpConnection,
      (∀ c d : TcpConnection, I c.state c.closeCalls → f c = .ok d → I d.state d.closeCalls) →
      ∀ s t : κ × TcpConnection, I s.2.state s.2.closeCalls → withContext f s = .ok t →
        I t.2.state t.2.closeCalls := by
    intro f hf s t hs ht
    obtain ⟨d, hd, ht⟩ := bind_eq_ok.mp ht
    cases ht
    exact hf s.2 d hs hd
  obtain ⟨e, he, h⟩ := bind_eq_ok.mp h
  cases h
  have hkeep : I e.2.state e.2.closeCalls := by
    refine Channel.dispatch_keeps (I := fun s : κ × TcpConnection => I s.2.state s.2.closeCalls)
      ?_ ?_ ?_ ?_ (s := (s.1, { s.2 with
        channel := { s.2.channel with revents := revents, eventHandling := true } })) hI he
    · rintro f hf s t hs ht
      cases hf
      exact hcontext handleClose hclose s t hs ht
    · rintro f hf s t hs ht
      cases hf
      cases ht
      exact hs
    · rintro f hf s t hs ht
      cases hf
      obtain ⟨⟨n, buffer⟩, -, ht⟩ := bind_eq_ok.mp ht
      dsimp only at ht
      split at ht
      · exact hmessage (s.1, { s.2 with inputBuffer := buffer }) t hs ht
      · split at ht
        · exact hcontext handleClose hclose (s.1, { s.2 with inputBuffer := buffer }) t hs ht
        · cases ht
          exact hs
    · rintro f hf s t hs ht
      cases hf
      refine hcontext (handleWrite w) ?_ s t hs ht
      intro c d hc hd
      have hlife := handleWrite_sameLife hd
      rw [hlife.state, hlife.closeCalls]
      exact hc
  exact hkeep

theorem lifeStep_change {c d : TcpConnection} {a : LifeStep} (h : lifeStep c a = .ok d)
    (hevent : ∀ revents r w, a ≠ .event revents r w) : LifeChange c d := by
  cases a with
  | event revents r w => exact absurd rfl (hevent revents r w)
  | functor preceding w =>
    change c.runPending preceding w = .ok d at h
    unfold runPending at h
    split at h
    · cases h
      exact (SameLife.refl _).change
    · have hchange := runFunctor_change h
      cases hchange with
      | same state closeCalls => exact .same state closeCalls
      | shutdown before after closeCalls => exact .shutdown before after closeCalls
      | abandoned before after closeCalls => exact .abandoned before after closeCalls
      | closed before after => exact .closed before after
  | send isInLoopThread msg preceding w =>
    change c.send isInLoopThread msg preceding w = .ok d at h
    unfold send at h
    split at h
    · split at h
      · exact (sendInLoop_sameLife h).change
      · cases h
        exact .same rfl rfl
    · cases h
      exact (SameLife.refl c).change
  | shutdown isInLoopThread =>
    cases h
    unfold TcpConnection.shutdown
    split
    · rename_i hstate
      dsimp only
      split
      · have hlife := shutdownInLoop_sameLife (c := { c with state := .kDisconnecting })
        exact .shutdown hstate hlife.state hlife.closeCalls
      · exact .shutdown hstate rfl rfl
    · exact (SameLife.refl c).change
  | forceClose isInLoopThread =>
    cases h
    unfold TcpConnection.forceClose
    split
    · rename_i hstate
      exact .abandoned hstate rfl rfl
    · exact (SameLife.refl c).change
  | ownerRemoves =>
    cases h
    exact .same rfl rfl

/-! ### Invariants of the life of a connection -/

theorem CloseTold.change {c d : TcpConnection} (h : CloseTold c) (hchange : LifeChange c d) :
    CloseTold d := by
  unfold CloseTold at h ⊢
  cases hchange with
  | same state closeCalls => rwa [state, closeCalls]
  | shutdown before after closeCalls =>
    rw [before] at h
    exact .inl (closeCalls.trans (h.resolve_right (by decide)))
  | abandoned before after closeCalls => exact .inr after
  | closed before after => exact .inr after

theorem Abandoned.change {c d : TcpConnection} (h : Abandoned c) (hchange : LifeChange c d) :
    Abandoned d := by
  have hdown := h.state
  cases hchange with
  | same state closeCalls => exact ⟨state.trans h.state, closeCalls.trans h.closeCalls⟩
  | shutdown before after closeCalls => rw [hdown] at before; cases before
  | abandoned before after closeCalls => exact ⟨after, closeCalls.trans h.closeCalls⟩
  | closed before after => rw [hdown] at before; simp at before

theorem lifeStep_closeTold (c : TcpConnection) (a : LifeStep) (d : TcpConnection)
    (h : CloseTold c) (hd : lifeStep c a = .ok d) : CloseTold d := by
  cases a with
  | event revents r w =>
    obtain ⟨t, ht, hd⟩ := bind_eq_ok.mp hd
    cases hd
    refine handleEvent_keeps (s := ((), c))
      (I := fun state closeCalls => closeCalls = 0 ∨ state = .kDisconnected)
      (fun _ _ _ hd => .inr (handleClose_change hd).2) ?_ h ht
    intro s t hs ht
    cases ht
    exact hs
  | _ => exact h.change (lifeStep_change hd (by simp))

/-- An abandoned connection stays abandoned: the one way to `closeCallback_` leads through the
assertion in `handleClose`. -/
theorem lifeStep_abandoned (c : TcpConnection) (a : LifeStep) (d : TcpConnection)
    (h : Abandoned c) (hd : lifeStep c a = .ok d) : Abandoned d := by
  cases a with
  | event revents r w =>
    obtain ⟨t, ht, hd⟩ := bind_eq_ok.mp hd
    cases hd
    have hkeep := handleEvent_keeps (s := ((), c))
      (I := fun state closeCalls => state = .kDisconnected ∧ closeCalls = 0)
      (fun s t hs ht => ?_) (fun s t hs ht => ?_) ⟨h.state, h.closeCalls⟩ ht
    · exact ⟨hkeep.1, hkeep.2⟩
    · have hbefore := (handleClose_change ht).1
      rw [hs.1] at hbefore
      simp at hbefore
    · cases ht
      exact hs
  | _ => exact h.change (lifeStep_change hd (by simp))

theorem Established.closeTold {c : TcpConnection} (h : Established c) : CloseTold c := by
  obtain ⟨loop, ptr, fd, writeComplete, h⟩ := h
  obtain ⟨u, -, h⟩ := bind_eq_ok.mp h
  obtain ⟨e, he, h⟩ := bind_eq_ok.mp h
  have hlife := onChannel_sameLife he
  cases h
  exact .inl hlife.closeCalls

/-- Whatever steps follow `forceClose` on an open connection, with the functor that it queued among
them or not, they do not leave the connection closed: either one of them fails an assertion, or
`closeCallback_` has not been called. -/
theorem forceClose_never_closes {c₀ c : TcpConnection} (hnew : Established c₀)
    (hreach : Reachable lifeStep c₀ c) (hstate : c.state = .kConnected ∨ c.state = .kDisconnecting)
    (isInLoopThread : Bool) (steps : List LifeStep) :
    ¬∃ d, run lifeStep (c.forceClose isInLoopThread) steps = .ok d ∧ Closed d := by
  rintro ⟨d, hd, hclosed⟩
  have htold := hreach.invariant lifeStep_closeTold hnew.closeTold
  have hcalls : c.closeCalls = 0 := htold.resolve_right fun hdown => by
    rw [hdown] at hstate
    simp at hstate
  have hforced : Abandoned (c.forceClose isInLoopThread) := by
    rw [forceClose, if_pos hstate]
    exact ⟨rfl, hcalls⟩
  have hend : Abandoned d := run_invariant lifeStep_abandoned hforced hd
  have hone := hclosed.closeCallback
  rw [hend.closeCalls] at hone
  exact absurd hone (by decide)

theorem forceClose_never_closes_established : ∃ c : TcpConnection, Established c ∧
    ¬∃ d, run lifeStep (c.forceClose true) [.functor 0 .failed] = .ok d ∧ Closed d := by
  obtain ⟨c, hc⟩ : ∃ c, (new .new 1 5 false).connectEstablished = .ok c := ⟨_, rfl⟩
  have hstate : c.state = .kConnected := by cases hc; rfl
  exact ⟨c, ⟨_, _, _, _, hc⟩, forceClose_never_closes ⟨_, _, _, _, hc⟩ (.refl c) (.inl hstate) true
    [.functor 0 .failed]⟩

/-- After `forceClose` and its functor an established connection is still read from, nobody has been
told that it is down, and the end of the stream fails the assertion in `handleClose`. -/
theorem forceClose_leaves_channel_open : ∃ c d : TcpConnection,
    Established c ∧ run lifeStep c [.forceClose true, .functor 0 .failed] = .ok d ∧
    d.loop.pendingFunctors = [] ∧ d.channel.isReading = true ∧ d.connectionCalls = [true] ∧
    d.closeCalls = 0 ∧
    lifeStep d (.event POLLIN (.data []) .failed) = .error (.assertion .handleClose) := by
  have heval : ((new .new 1 5 false).connectEstablished >>= fun c =>
      run lifeStep c [.forceClose true, .functor 0 .failed] >>= fun d =>
        .ok (d.loop.pendingFunctors, d.channel.isReading, d.connectionCalls, d.closeCalls,
          match lifeStep d (.event POLLIN (.data []) .failed) with
          | .ok _ => none
          | .error fault => some fault)) =
      .ok ([], true, [true], 0, some (.assertion .handleClose)) := by decide +kernel
  obtain ⟨c, hc, heval⟩ := bind_eq_ok.mp heval
  obtain ⟨d, hd, heval⟩ := bind_eq_ok.mp heval
  simp only [Except.ok.injEq, Prod.mk.injEq] at heval
  obtain ⟨hqueue, hreading, htold, hcalls, hread⟩ := heval
  refine ⟨c, d, ⟨_, _, _, _, hc⟩, hd, hqueue, hreading, htold, hcalls, ?_⟩
  split at hread
  · cases hread
  · rename_i fault hfault
    rw [hfault, Option.some.inj hread]

end Mymuduo.TcpConnection

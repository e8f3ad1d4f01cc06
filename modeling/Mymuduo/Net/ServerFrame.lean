import Mymuduo.Net.MessageStream
import Mymuduo.Net.ServerAccept

/-! What the calls on a server's threads leave alone: the loops keep their places and the functors
that wait, and a connection stays in its loop.  A connection that is taken out of `connections_`
leaves a functor behind that holds it. -/

namespace Mymuduo

open Lib

/-- The functor holds a `TcpConnectionPtr`.  Those of `send` and `shutdown` are bound to `this`. -/
def ServerFunctor.owns : ServerFunctor → Bool
  | .ofConnection _ (.sendInLoop _) | .ofConnection _ .shutdownInLoop => false
  | .ofConnection _ _ | .connectEstablished _ | .removeConnectionInLoop _ => true

namespace TcpConnection

variable {c d : TcpConnection}

theorem QuietQueue.connectEstablished (h : QuietQueue c) (hd : c.connectEstablished = .ok d) :
    QuietQueue d := by
  obtain ⟨u, -, hd⟩ := bind_eq_ok.mp hd
  obtain ⟨e, he, hd⟩ := bind_eq_ok.mp hd
  have hqueue := onChannel_pendingFunctors (f := Channel.enableReading) (update_pendingFunctors ·) he
  cases hd
  exact h.of_eq hqueue

theorem QuietQueue.runFunctor {preceding : UInt8} {w : WriteResult} {functor : TcpFunctor}
    (h : QuietQueue c) (hd : c.runFunctor preceding w functor = .ok d) : QuietQueue d := by
  cases functor with
  | sendInLoop message => exact quietQueue_output.sendInLoop h hd
  | shutdownInLoop =>
    cases hd
    exact quietQueue_output.shutdownInLoop h
  | forceCloseInLoop =>
    change c.forceCloseInLoop = .ok d at hd
    unfold forceCloseInLoop at hd
    split at hd
    · exact h.handleClose hd
    · cases hd
      exact h
  | connectDestroyed => exact h.connectDestroyed hd
  | writeCompleteCallback =>
    cases hd
    exact h

theorem QuietQueue.send {preceding : UInt8} {w : WriteResult} {msg : Bytes} (h : QuietQueue c)
    (hd : c.send true msg preceding w = .ok d) : QuietQueue d := by
  unfold TcpConnection.send at hd
  split at hd
  · exact quietQueue_output.sendInLoop h hd
  · cases hd
    exact h

end TcpConnection

namespace ServerLoops

variable {s t u : ServerLoops} {who : List Nat} {i l : Nat} {c : ServerConnection}

/-- What calls of the functions of the connections `who` leave alone. -/
structure Frame (who : List Nat) (s t : ServerLoops) : Prop where
  places : t.places = s.places
  calls : t.calls = s.calls
  threadPool : t.threadPool = s.threadPool
  accepted : t.accepted = s.accepted
  pending : ∀ l, ∃ more, (t.loops l).pendingFunctors = (s.loops l).pendingFunctors ++ more ∧
    ∀ f ∈ more, f.owns = true ∧ f.conn ∈ who
  conns : ∀ i d, t.conns i = some d → ∃ c, s.conns i = some c ∧ d.ioLoop = c.ioLoop ∧
    d.destroyed = c.destroyed ∧ (d.removed = c.removed ∨
      .ofConnection i .connectDestroyed ∈ (t.loops c.ioLoop).pendingFunctors)

theorem Frame.mem_pending (h : Frame who s t) {f : ServerFunctor}
    (hf : f ∈ (s.loops l).pendingFunctors) : f ∈ (t.loops l).pendingFunctors := by
  obtain ⟨more, hmore, -⟩ := h.pending l
  rw [hmore]
  exact List.mem_append_left _ hf

theorem Frame.trans (h : Frame who s t) (h' : Frame who t u) : Frame who s u where
  places := h'.places.trans h.places
  calls := h'.calls.trans h.calls
  threadPool := h'.threadPool.trans h.threadPool
  accepted := h'.accepted.trans h.accepted
  pending l := by
    obtain ⟨more, hmore, howns⟩ := h.pending l
    obtain ⟨more', hmore', howns'⟩ := h'.pending l
    refine ⟨more ++ more', by rw [hmore', hmore, List.append_assoc], ?_⟩
    intro f hf
    exact (List.mem_append.mp hf).elim (howns f) (howns' f)
  conns i e he := by
    obtain ⟨d, hd, hioLoop', hdestroyed', hremoved'⟩ := h'.conns i e he
    obtain ⟨c, hc, hioLoop, hdestroyed, hremoved⟩ := h.conns i d hd
    refine ⟨c, hc, hioLoop'.trans hioLoop, hdestroyed'.trans hdestroyed, ?_⟩
    rw [← hioLoop]
    rcases hremoved' with hsame' | hqueued
    · refine hremoved.imp hsame'.trans ?_
      rw [hioLoop]
      exact h'.mem_pending
    · exact .inr hqueued

/-- The same loops and connections, as far as a frame looks at them. -/
theorem Frame.of_eq (hplaces : t.places = s.places) (hcalls : t.calls = s.calls)
    (hthreadPool : t.threadPool = s.threadPool) (haccepted : t.accepted = s.accepted)
    (hloops : ∀ l, (t.loops l).pendingFunctors = (s.loops l).pendingFunctors)
    (hconns : ∀ i d, t.conns i = some d → ∃ c, s.conns i = some c ∧ d.ioLoop = c.ioLoop ∧
      d.destroyed = c.destroyed ∧ d.removed = c.removed) : Frame who s t where
  places := hplaces
  calls := hcalls
  threadPool := hthreadPool
  accepted := haccepted
  pending l := ⟨[], by rw [hloops, List.append_nil], nofun⟩
  conns i d hd := by
    obtain ⟨c, hc, hioLoop, hdestroyed, hremoved⟩ := hconns i d hd
    exact ⟨c, hc, hioLoop, hdestroyed, .inl hremoved⟩

theorem Frame.refl (who : List Nat) (s : ServerLoops) : Frame who s s :=
  .of_eq rfl rfl rfl rfl (fun _ => rfl) fun _ d hd => ⟨d, hd, rfl, rfl, rfl⟩

theorem queueInLoop_loops (s : ServerLoops) (l l' : Nat) (isInLoopThread : Bool)
    (f : ServerFunctor) : ((s.queueInLoop l isInLoopThread f).loops l').pendingFunctors =
      (s.loops l').pendingFunctors ++ if l' = l then [f] else [] := by
  by_cases hl : l' = l
  · subst hl
    simp [queueInLoop, setLoop]
  · simp [queueInLoop, setLoop, hl]

theorem frame_queueInLoop (s : ServerLoops) (l : Nat) (isInLoopThread : Bool) {f : ServerFunctor}
    (hf : f.owns = true) : Frame [f.conn] s (s.queueInLoop l isInLoopThread f) where
  places := rfl
  calls := rfl
  threadPool := rfl
  accepted := rfl
  pending l' := by
    refine ⟨_, queueInLoop_loops s l l' isInLoopThread f, ?_⟩
    intro g hg
    split at hg
    · rw [List.mem_singleton.mp hg]
      exact ⟨hf, List.mem_cons_self⟩
    · cases hg
  conns _ d hd := ⟨d, hd, rfl, rfl, .inl rfl⟩

theorem removeConnectionInLoop_frame (h : s.removeConnectionInLoop i = .ok t) :
    Frame [i] s t := by
  unfold removeConnectionInLoop at h
  split at h
  · cases h
  · rename_i c hc
    obtain ⟨server, -, h⟩ := bind_eq_ok.mp h
    cases h
    have hqueue := frame_queueInLoop (setConn { s with server := server } i
      { c with removed := c.removed + 1 }) c.ioLoop (c.ioLoop == 0)
      (f := .ofConnection i .connectDestroyed) rfl
    refine ⟨rfl, rfl, rfl, rfl, hqueue.pending, ?_⟩
    intro j d hd
    by_cases hj : j = i
    · subst hj
      obtain rfl : { c with removed := c.removed + 1 } = d := by
        simpa [ServerLoops.queueInLoop, setLoop, setConn] using hd
      refine ⟨c, hc, rfl, rfl, .inr ?_⟩
      rw [queueInLoop_loops, if_pos rfl]
      exact List.mem_append_right _ List.mem_cons_self
    · have hd' : s.conns j = some d := by
        simpa [ServerLoops.queueInLoop, setLoop, setConn, hj] using hd
      exact ⟨d, hd', rfl, rfl, .inl rfl⟩

theorem removeConnection_frame (h : s.removeConnection l i = .ok t) : Frame [i] s t := by
  unfold removeConnection at h
  split at h
  · exact removeConnectionInLoop_frame h
  · cases h
    exact frame_queueInLoop (f := .removeConnectionInLoop i) s 0 false rfl

/-- Functions of a connection queue only what holds the connection. -/
theorem onConnection_frame {f : TcpConnection → Except Fault TcpConnection}
    (hf : ∀ c d, TcpConnection.QuietQueue c → f c = .ok d → TcpConnection.QuietQueue d)
    (h : s.onConnection l i f = .ok t) :
    Frame [i] s t ∧ ∃ c, s.conns i = some c ∧ c.ioLoop = l := by
  unfold onConnection at h
  split at h
  · cases h
  · rename_i c hc
    split at h
    · rename_i hioLoop
      obtain ⟨d, hd, h⟩ := bind_eq_ok.mp h
      refine ⟨?_, c, hc, hioLoop⟩
      have hquiet : TcpConnection.QuietQueue d := hf _ d (by simp [TcpConnection.QuietQueue, view]) hd
      have hput : Frame [i] s
          ((s.setConn i { c with conn := d }).setLoop l (merge (s.loops l) i d.loop)) := by
        refine ⟨rfl, rfl, rfl, rfl, ?_, ?_⟩
        · intro l'
          by_cases hl : l' = l
          · subst hl
            refine ⟨d.loop.pendingFunctors.map (.ofConnection i), by simp [setLoop, merge], ?_⟩
            intro g hg
            obtain ⟨functor, hfunctor, rfl⟩ := List.mem_map.mp hg
            refine ⟨?_, List.mem_cons_self⟩
            rcases hquiet functor hfunctor with rfl | rfl <;> rfl
          · refine ⟨[], by simp [setLoop, setConn, hl], ?_⟩
            intro g hg
            cases hg
        · intro j e he
          by_cases hj : j = i
          · subst hj
            obtain rfl : { c with conn := d } = e := by simpa [setLoop, setConn] using he
            exact ⟨c, hc, rfl, rfl, .inl rfl⟩
          · have he' : s.conns j = some e := by simpa [setLoop, setConn, hj] using he
            exact ⟨e, he', rfl, rfl, .inl rfl⟩
      dsimp only at h
      split at h
      · exact hput.trans (removeConnection_frame h)
      · cases h
        exact hput
    · cases h

theorem callback_frame {r : Buffer.ReadResult} {w : WriteResult} {k : ChannelCallback}
    (h : s.callback l i r w k = .ok t) : Frame [i] s t := by
  cases k with
  | closeCallback => exact (onConnection_frame (fun c d hc hd => hc.handleClose hd) h).1
  | errorCallback =>
    cases h
    exact .refl [i] s
  | readCallback =>
    refine (onConnection_frame (fun c d hc hd => ?_) h).1
    obtain ⟨⟨κ, e⟩, he, hd⟩ := bind_eq_ok.mp hd
    cases hd
    obtain ⟨⟨n, buffer⟩, -, he⟩ := bind_eq_ok.mp he
    have hread : TcpConnection.QuietQueue { c with inputBuffer := buffer } := hc
    dsimp only at he
    split at he
    · cases he
      exact hread
    · split at he
      · obtain ⟨e', he', he⟩ := bind_eq_ok.mp he
        cases he
        exact hread.handleClose he'
      · cases he
        exact hread
  | writeCallback =>
    exact (onConnection_frame
      (fun c d hc hd => TcpConnection.quietQueue_output.handleWrite hc hd) h).1

/-- What is recorded of a connection, as far as a frame looks at it. -/
theorem frame_record (s : ServerLoops) (i : Nat) {f : ServerConnection → ServerConnection}
    (hf : ∀ c, (f c).ioLoop = c.ioLoop ∧ (f c).destroyed = c.destroyed ∧ (f c).removed = c.removed) :
    Frame who s (s.record i f) := by
  refine .of_eq rfl rfl rfl rfl (fun _ => rfl) ?_
  intro j d hd
  by_cases hj : j = i
  · subst hj
    obtain ⟨c, hc, rfl⟩ : ∃ c, s.conns j = some c ∧ f c = d := by simpa [record] using hd
    exact ⟨c, hc, hf c⟩
  · have hd' : s.conns j = some d := by simpa [record, hj] using hd
    exact ⟨d, hd', rfl, rfl, rfl⟩

theorem connectEstablished_frame (h : s.connectEstablished l i = .ok t) : Frame [i] s t := by
  have hrecord : Frame [i] s (s.record i fun c => { c with established := c.established + 1 }) :=
    frame_record s i fun _ => ⟨rfl, rfl, rfl⟩
  exact hrecord.trans (onConnection_frame (fun _ _ hc hd => hc.connectEstablished hd) h).1

/-- The connection with a run of `connectDestroyed` recorded. -/
def destroyedIn (s : ServerLoops) (l i : Nat) : ServerLoops :=
  s.record i fun c => { c with destroyed := c.destroyed ++ [(s.loops l).eventHandling] }

theorem destroyedIn_conns (s : ServerLoops) (l i j : Nat) :
    (s.destroyedIn l i).conns j = if j = i then
      (s.conns i).map fun c => { c with destroyed := c.destroyed ++ [(s.loops l).eventHandling] }
    else s.conns j := by
  by_cases hj : j = i
  · simp [destroyedIn, record, hj]
  · simp [destroyedIn, record, hj]

/-- A functor leaves the loops and the connections alone, unless it is `connectDestroyed`. -/
theorem runFunctor_frame {preceding : UInt8} {w : WriteResult} {f : ServerFunctor}
    (h : s.runFunctor l preceding w f = .ok t) :
    Frame [f.conn] s t ∨ ∃ i c, f = .ofConnection i .connectDestroyed ∧ s.conns i = some c ∧
      c.ioLoop = l ∧ Frame [i] (s.destroyedIn l i) t := by
  cases f with
  | connectEstablished i => exact .inl (connectEstablished_frame h)
  | removeConnectionInLoop i =>
    change (if l = 0 then s.removeConnectionInLoop i else .error .fatal) = .ok t at h
    split at h
    · exact .inl (removeConnectionInLoop_frame h)
    · cases h
  | ofConnection i functor =>
    cases functor with
    | connectDestroyed =>
      obtain ⟨hframe, d, hd, hioLoop⟩ :=
        onConnection_frame (fun _ _ hc hd => hc.connectDestroyed hd) h
      change (s.destroyedIn l i).conns i = some d at hd
      rw [destroyedIn_conns, if_pos rfl] at hd
      obtain ⟨c, hc, rfl⟩ := Option.map_eq_some_iff.mp hd
      exact .inr ⟨i, c, rfl, hc, hioLoop, hframe⟩
    | sendInLoop _ | shutdownInLoop | forceCloseInLoop | writeCompleteCallback =>
      exact .inl (onConnection_frame (fun _ _ hc hd => hc.runFunctor hd) h).1

theorem newConnection_frame {sockfd : Nat} (h : s.newConnection sockfd = .ok t) :
    Frame [s.accepted] (s.entered s.threadPool.getNextLoop.1 sockfd s.threadPool.getNextLoop.2)
      t := by
  rw [newConnection_eq] at h
  dsimp only at h
  split at h
  · exact connectEstablished_frame h
  · cases h
    exact frame_queueInLoop (f := .connectEstablished s.accepted) _ _ false rfl

/-! ### Steps -/

/-- A round of functors does not begin or end with the step. -/
def KeepsRounds (s : ServerLoops) : ServerStep → Prop
  | .beginRound l => s.places l ≠ .handling []
  | .endRound l => s.places l ≠ .calling []
  | _ => True

/-- What a step does by itself, before it calls a function: `t` is the state in which it calls it. -/
inductive Begins (s : ServerLoops) : ServerStep → ServerLoops → Prop
  /-- There is nothing to do by itself. -/
  | same {a : ServerStep} (rounds : s.KeepsRounds a) : Begins s a s
  | accept {callbacks : List (Nat × ChannelCallback)} (sockfd : Nat)
      (place : s.places 0 = .handling callbacks) :
      Begins s (.accept sockfd)
        (s.entered s.threadPool.getNextLoop.1 sockfd s.threadPool.getNextLoop.2)
  | poll {l size : Nat} {ready : List (Nat × Events)} {t : ServerLoops}
      (place : s.places l = .polling) (polled : s.poll l size ready = .ok t) :
      Begins s (.poll l size ready) t
  | callback {l i : Nat} {k : ChannelCallback} {rest : List (Nat × ChannelCallback)}
      (r : Buffer.ReadResult) (w : WriteResult) (place : s.places l = .handling ((i, k) :: rest)) :
      Begins s (.callback l r w) (s.setPlace l (.handling rest))
  | beginRound {l : Nat} (place : s.places l = .handling []) :
      Begins s (.beginRound l) ((s.setLoop l
        { s.loops l with
          eventHandling := false
          callingPendingFunctors := true
          pendingFunctors := [] }).setPlace l (.calling (s.loops l).pendingFunctors))
  | functor {l : Nat} {f : ServerFunctor} {rest : List ServerFunctor} (preceding : UInt8)
      (w : WriteResult) (place : s.places l = .calling (f :: rest)) :
      Begins s (.functor l preceding w) (s.setPlace l (.calling rest))
  | connectDestroyed {l i : Nat} {c : ServerConnection} {rest : List ServerFunctor}
      (preceding : UInt8) (w : WriteResult)
      (place : s.places l = .calling (.ofConnection i .connectDestroyed :: rest))
      (conn : s.conns i = some c) (ioLoop : c.ioLoop = l) :
      Begins s (.functor l preceding w) ((s.setPlace l (.calling rest)).destroyedIn l i)
  | endRound {l : Nat} (place : s.places l = .calling []) :
      Begins s (.endRound l)
        ((s.setLoop l { s.loops l with callingPendingFunctors := false }).setPlace l .polling)
  | send {i : Nat} {c : ServerConnection} (msg : Bytes) (conn : s.conns i = some c)
      (state : c.conn.state = .kConnected) :
      Begins s (.send i msg) { s with calls := s.calls ++ [(i, .sendInLoop msg)] }
  | shutdown {i : Nat} {c : ServerConnection} (conn : s.conns i = some c)
      (state : c.conn.state = .kConnected) :
      Begins s (.shutdown i) { s with calls := s.calls ++ [(i, .shutdownInLoop)] }
  | queue {k i : Nat} {functor : TcpFunctor} {c : ServerConnection}
      (call : s.calls[k]? = some (i, functor)) (conn : s.conns i = some c) :
      Begins s (.queue k) (queueInLoop { s with calls := s.calls.eraseIdx k } c.ioLoop false
        (.ofConnection i functor))

/-- The connection whose functions the step calls. -/
def acting (s : ServerLoops) : ServerStep → List Nat
  | .accept _ => [s.accepted]
  | .callback l _ _ =>
    match s.places l with
    | .handling ((i, _) :: _) => [i]
    | _ => []
  | .functor l _ _ =>
    match s.places l with
    | .calling (f :: _) => [f.conn]
    | _ => []
  | .sendInLoop _ i _ _ _ | .shutdownInLoop _ i =>
    match s.conns i with
    | some c => if c.conn.state = .kConnected then [i] else []
    | none => []
  | .poll .. | .beginRound _ | .endRound _ | .send .. | .shutdown _ | .queue _ => []

/-- A call of the user that does nothing to a connection that is not connected. -/
theorem onConnection_idle {f : TcpConnection → Except Fault TcpConnection}
    (hc : s.conns i = some c) (hf : ∀ d : TcpConnection, d.state ≠ .kConnected → f d = .ok d)
    (hstate : c.conn.state ≠ .kConnected) (h : s.onConnection l i f = .ok t) : Frame [] s t := by
  unfold onConnection at h
  rw [hc] at h
  dsimp only at h
  split at h
  · have hsame := hf { c.conn with loop := view (s.loops l) } hstate
    rw [hsame, ok_bind] at h
    dsimp only at h
    rw [if_neg (lt_irrefl _)] at h
    cases h
    refine .of_eq rfl rfl rfl rfl ?_ ?_
    · intro l'
      by_cases hl : l' = l
      · subst hl
        simp [setLoop, merge, view]
      · simp [setLoop, setConn, hl]
    · intro j d hd
      by_cases hj : j = i
      · subst hj
        obtain rfl : { c with conn := { c.conn with loop := view (s.loops l) } } = d := by
          simpa [setLoop, setConn] using hd
        exact ⟨c, hc, rfl, rfl, rfl⟩
      · have hd' : s.conns j = some d := by simpa [setLoop, setConn, hj] using hd
        exact ⟨d, hd', rfl, rfl, rfl⟩
  · cases h

/-- A step that returns has begun, and has left alone what the functions that it calls leave
alone. -/
theorem step_begins {a : ServerStep} (h : s.step a = .ok t) :
    ∃ u, Begins s a u ∧ Frame (s.acting a) u t := by
  have hsame : t = s → s.KeepsRounds a → ∃ u, Begins s a u ∧ Frame (s.acting a) u t := by
    rintro rfl hrounds
    exact ⟨t, .same hrounds, .refl _ t⟩
  cases a with
  | accept sockfd =>
    dsimp only [ServerLoops.step] at h
    split at h
    · rename_i callbacks hplace
      exact ⟨_, .accept sockfd hplace, newConnection_frame h⟩
    · exact hsame (Except.ok.inj h).symm trivial
  | poll l size ready =>
    dsimp only [ServerLoops.step] at h
    split at h
    · rename_i hplace
      exact ⟨t, .poll hplace h, .refl _ t⟩
    · exact hsame (Except.ok.inj h).symm trivial
  | callback l r w =>
    dsimp only [ServerLoops.step] at h
    split at h
    · rename_i i k rest hplace
      refine ⟨_, .callback r w hplace, ?_⟩
      rw [acting, hplace]
      exact callback_frame h
    · exact hsame (Except.ok.inj h).symm trivial
  | beginRound l =>
    dsimp only [ServerLoops.step] at h
    split at h
    · rename_i hplace
      cases h
      exact ⟨_, .beginRound hplace, .refl _ _⟩
    · rename_i hplace
      exact hsame (Except.ok.inj h).symm hplace
  | functor l preceding w =>
    dsimp only [ServerLoops.step] at h
    split at h
    · rename_i f rest hplace
      obtain hframe | ⟨i, c, rfl, hc, hioLoop, hframe⟩ := runFunctor_frame h
      · refine ⟨_, .functor preceding w hplace, ?_⟩
        rw [acting, hplace]
        exact hframe
      · refine ⟨_, .connectDestroyed preceding w hplace hc hioLoop, ?_⟩
        rw [acting, hplace]
        exact hframe
    · exact hsame (Except.ok.inj h).symm trivial
  | endRound l =>
    dsimp only [ServerLoops.step] at h
    split at h
    · rename_i hplace
      cases h
      exact ⟨_, .endRound hplace, .refl _ _⟩
    · rename_i hplace
      exact hsame (Except.ok.inj h).symm hplace
  | send i msg =>
    dsimp only [ServerLoops.step] at h
    split at h
    · rename_i c hc
      cases h
      split
      · rename_i hknown
        exact ⟨_, .send msg hc hknown.2, .refl _ _⟩
      · exact ⟨s, .same trivial, .refl _ s⟩
    · exact hsame (Except.ok.inj h).symm trivial
  | shutdown i =>
    dsimp only [ServerLoops.step] at h
    split at h
    · rename_i c hc
      cases h
      split
      · rename_i hknown
        refine ⟨_, .shutdown hc hknown.2, .of_eq rfl rfl rfl rfl (fun _ => rfl) ?_⟩
        intro j d hd
        by_cases hj : j = i
        · subst hj
          obtain rfl : { c with conn := { c.conn with state := .kDisconnecting } } = d := by
            simpa [setConn] using hd
          exact ⟨c, hc, rfl, rfl, rfl⟩
        · have hd' : s.conns j = some d := by simpa [setConn, hj] using hd
          exact ⟨d, hd', rfl, rfl, rfl⟩
      · exact ⟨s, .same trivial, .refl _ s⟩
    · exact hsame (Except.ok.inj h).symm trivial
  | queue k =>
    dsimp only [ServerLoops.step] at h
    split at h
    · rename_i i functor hcall
      split at h
      · rename_i c hc
        cases h
        exact ⟨_, .queue hcall hc, .refl _ _⟩
      · cases h
    · exact hsame (Except.ok.inj h).symm trivial
  | sendInLoop l i msg preceding w =>
    dsimp only [ServerLoops.step] at h
    split at h
    · rename_i c hc
      split at h
      · refine ⟨s, .same trivial, ?_⟩
        rw [acting, hc]
        dsimp only
        split
        · exact (onConnection_frame (fun _ _ hc hd => hc.send hd) h).1
        · rename_i hstate
          exact onConnection_idle hc (fun d hd => if_neg hd) hstate h
      · exact hsame (Except.ok.inj h).symm trivial
    · exact hsame (Except.ok.inj h).symm trivial
  | shutdownInLoop l i =>
    dsimp only [ServerLoops.step] at h
    split at h
    · rename_i c hc
      split at h
      · refine ⟨s, .same trivial, ?_⟩
        rw [acting, hc]
        dsimp only
        split
        · refine (onConnection_frame (fun c d hc hd => ?_) h).1
          cases hd
          exact hc.shutdown
        · rename_i hstate
          exact onConnection_idle hc (fun d hd => congrArg Except.ok (if_neg hd)) hstate h
      · exact hsame (Except.ok.inj h).symm trivial
    · exact hsame (Except.ok.inj h).symm trivial

/-- The connections that a poll has written to. -/
theorem poll_conns {size : Nat} {ready : List (Nat × Events)} (h : s.poll l size ready = .ok t) :
    ∃ heap, t.conns = (s.setHeap heap).conns ∧ t.accepted = s.accepted ∧
      t.threadPool = s.threadPool := by
  obtain ⟨⟨size', heap, activeChannels⟩, -, h⟩ := bind_eq_ok.mp h
  cases h
  exact ⟨heap, rfl, rfl, rfl⟩

/-- What a step does by itself leaves the connections where they are. -/
theorem Begins.of_conns {a : ServerStep} (h : Begins s a t) {d : ServerConnection}
    (hd : t.conns i = some d) (hi : i ≠ s.accepted) :
    ∃ c, s.conns i = some c ∧ d.ioLoop = c.ioLoop ∧ d.removed = c.removed ∧
      (c.destroyed ≠ [] → d.destroyed ≠ []) := by
  cases h with
  | same | callback | beginRound | functor | endRound | send | shutdown | queue =>
    exact ⟨d, hd, rfl, rfl, id⟩
  | accept =>
    rw [entered_ne hi] at hd
    exact ⟨d, hd, rfl, rfl, id⟩
  | poll place polled =>
    obtain ⟨⟨size', heap, active⟩, -, hpoll⟩ := bind_eq_ok.mp polled
    cases hpoll
    obtain ⟨c, hc, rfl⟩ := Option.map_eq_some_iff.mp hd
    exact ⟨c, hc, rfl, rfl, id⟩
  | connectDestroyed =>
    rw [destroyedIn_conns] at hd
    split at hd
    · rename_i hj
      subst hj
      obtain ⟨e, he, rfl⟩ := Option.map_eq_some_iff.mp hd
      exact ⟨e, he, rfl, rfl, by simp⟩
    · exact ⟨d, hd, rfl, rfl, id⟩

theorem Begins.accepted_le {a : ServerStep} (h : Begins s a t) : s.accepted ≤ t.accepted := by
  cases h with
  | accept => exact Nat.le_succ _
  | poll place polled =>
    obtain ⟨⟨size', heap, active⟩, -, hpoll⟩ := bind_eq_ok.mp polled
    cases hpoll
    exact le_rfl
  | same | callback | beginRound | functor | connectDestroyed | endRound | send | shutdown | queue =>
    exact le_rfl

end ServerLoops

end Mymuduo

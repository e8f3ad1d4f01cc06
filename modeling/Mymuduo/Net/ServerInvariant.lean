import Mymuduo.Net.ConnectionStages
import Mymuduo.Net.ServerLoops

/-! The stages that a connection of a server goes through, and what every state of the server and
its loops keeps: each connection is at one of them, and the one functor that takes it to the next
stage is queued where it will be called. -/

namespace Mymuduo

open Lib

/-- Where a connection is in its life: accepted, established, closed, no longer in `connections_`,
without a channel. -/
inductive Stage
  | accepted
  | up
  | closed
  | removed
  | destroyed
  deriving DecidableEq, Repr

namespace Stage

/-- The functor that takes connection `i` to its next stage. -/
def hop (i : Nat) : Stage → Option ServerFunctor
  | .accepted => some (.connectEstablished i)
  | .closed => some (.removeConnectionInLoop i)
  | .removed => some (.ofConnection i .connectDestroyed)
  | .up | .destroyed => none

def establishCalls : Stage → Nat
  | .accepted => 0
  | _ => 1

def closeCalls : Stage → Nat
  | .accepted | .up => 0
  | _ => 1

def removeCalls : Stage → Nat
  | .removed | .destroyed => 1
  | _ => 0

def destroyCalls : Stage → List Bool
  | .destroyed => [false]
  | _ => []

/-- What the state and the channel of the connection are. -/
def Holds : Stage → TcpConnection → Prop
  | .accepted, c =>
    c.state = .kConnecting ∧ c.channel.index = .kNew ∧ c.channel.events = Channel.kNoneEvent
  | .up, c =>
    (c.state = .kConnected ∨ c.state = .kDisconnecting) ∧ c.channel.index = .kAdded ∧
      TcpConnection.Interested c.channel.events
  | .closed, c | .removed, c =>
    c.state = .kDisconnected ∧ c.channel.index = .kDeleted ∧ c.channel.events = Channel.kNoneEvent
  | .destroyed, c =>
    c.state = .kDisconnected ∧ c.channel.index = .kNew ∧ c.channel.events = Channel.kNoneEvent

end Stage

namespace ServerFunctor

/-- The connection that the functor is for. -/
def conn : ServerFunctor → Nat
  | .ofConnection i _ | .connectEstablished i | .removeConnectionInLoop i => i

/-- The functor takes its connection to the next stage. -/
def isHop : ServerFunctor → Bool
  | .ofConnection _ .connectDestroyed | .connectEstablished _ | .removeConnectionInLoop _ => true
  | .ofConnection _ _ => false

/-- The loop that calls the functor, for a connection in `ioLoop`. -/
def home (ioLoop : Nat) : ServerFunctor → Nat
  | .removeConnectionInLoop _ => 0
  | .ofConnection _ _ | .connectEstablished _ => ioLoop

end ServerFunctor

/-- The functor that takes connection `i`, in loop `ioLoop`, to its next stage, with the loop that
calls it. -/
def Stage.next (stage : Stage) (i ioLoop : Nat) : Option (Nat × ServerFunctor) :=
  (stage.hop i).map fun f => (f.home ioLoop, f)

namespace ServerLoops

/-- How often loop `l` has yet to call the functor.  `hand` is one that a thread is about to queue
or to call. -/
def due (hand : Option (Nat × ServerFunctor)) (s : ServerLoops) (l : Nat) (f : ServerFunctor) :
    Nat :=
  (if hand = some (l, f) then 1 else 0) + (s.queued l).count f

/-- Connection `i` is at this stage. -/
structure Lives (hand : Option (Nat × ServerFunctor)) (s : ServerLoops) (i : Nat)
    (c : ServerConnection) (stage : Stage) : Prop where
  ptr : c.conn.channel.ptr = i
  established : c.established = stage.establishCalls
  closeCalls : c.conn.closeCalls = stage.closeCalls
  removed : c.removed = stage.removeCalls
  destroyed : c.destroyed = stage.destroyCalls
  told : c.conn.connectionCalls =
    List.replicate stage.establishCalls true ++ List.replicate stage.closeCalls false
  holds : stage.Holds c.conn
  tracks : stage ≠ .destroyed → (s.loops c.ioLoop).poller.Tracks c.conn.channel
  hops : ∀ l f, f.conn = i → f.isHop = true →
    due hand s l f = if stage.hop i = some f ∧ f.home c.ioLoop = l then 1 else 0
  others : ∀ l f, f.conn = i → f.isHop = false → 0 < due hand s l f →
    l = c.ioLoop ∧ stage ≠ .accepted ∧ f ≠ .ofConnection i .forceCloseInLoop

/-- A callback that may close the connection. -/
def mayClose : ChannelCallback → Bool
  | .closeCallback | .readCallback => true
  | .errorCallback | .writeCallback => false

/-- What is known of the loops that call callbacks, and of those that do not. -/
structure Rounds (s : ServerLoops) : Prop where
  handling : ∀ l callbacks, s.places l = .handling callbacks →
    (∀ e ∈ callbacks, ∃ c, s.conns e.1 = some c ∧ c.ioLoop = l ∧ c.established = 1 ∧
      (mayClose e.2 = true → c.conn.closeCalls = 0)) ∧
    ((callbacks.filter fun e => mayClose e.2).map Prod.fst).Nodup
  idle : ∀ l, (∀ callbacks, s.places l ≠ .handling callbacks) → (s.loops l).eventHandling = false

/-- The poller or the kernel knows something of the descriptor. -/
def Enters (p : EPollPoller) (fd : Nat) : Prop := p.channels fd ≠ none ∨ p.interest fd ≠ none

/-- The descriptors of the connections that are not destroyed are distinct, and the pollers have no
others. -/
structure Wired (s : ServerLoops) : Prop where
  fds : ∀ i j c d, s.conns i = some c → s.conns j = some d → c.destroyed = [] → d.destroyed = [] →
    c.conn.channel.fd = d.conn.channel.fd → i = j
  owned : ∀ l fd, Enters (s.loops l).poller fd → ∃ i c, s.conns i = some c ∧ c.ioLoop = l ∧
    c.conn.channel.fd = fd ∧ c.destroyed = []

/-- The connections are numbered and named one after another, and `connections_` holds those that
have not been removed. -/
structure Named (s : ServerLoops) : Prop where
  accepted : ∀ i, (s.conns i).isSome = true ↔ i < s.accepted
  nextConnId : s.accepted + 1 < 2 ^ 31 → s.server.nextConnId = s.accepted + 1
  ipPort : s.server.ipPort.length ≤ 21
  name : ∀ i c, s.conns i = some c →
    c.name = { s.server with nextConnId := i + 1 }.connName ∧ i + 1 < 2 ^ 31
  connections : ∀ name i, s.server.connections name = some i ↔
    ∃ c, s.conns i = some c ∧ c.name = name ∧ c.removed = 0

/-- What every state keeps, with a functor in hand. -/
structure Sound (hand : Option (Nat × ServerFunctor)) (s : ServerLoops) : Prop where
  lives : ∀ i c, s.conns i = some c → ∃ stage, Lives hand s i c stage
  known : ∀ l f, 0 < due hand s l f → (s.conns f.conn).isSome = true
  calls : ∀ e ∈ s.calls, TcpConnection.Serves e.2 = true ∧
    ∃ c, s.conns e.1 = some c ∧ c.established = 1
  rounds : s.Rounds
  wired : s.Wired
  named : s.Named

/-! ### What is due -/

variable {hand hand' : Option (Nat × ServerFunctor)} {s s' : ServerLoops} {i l : Nat}
  {c c' : ServerConnection}

theorem due_hand (s : ServerLoops) (l l' : Nat) (f g : ServerFunctor) :
    due (some (l, f)) s l' g = due none s l' g + if l = l' ∧ f = g then 1 else 0 := by
  simp only [due, Option.some.injEq, Prod.mk.injEq, reduceCtorEq, if_false]
  omega

/-- What the loop has kept is as it was in every loop. -/
theorem setLoop_field {β : Type} (p : EventLoop ServerFunctor → β)
    {loop : EventLoop ServerFunctor} (hloop : p loop = p (s.loops l)) (l' : Nat) :
    p ((s.setLoop l loop).loops l') = p (s.loops l') := by
  by_cases hl : l' = l
  · subst hl
    simpa [setLoop] using hloop
  · simp [setLoop, hl]

theorem queued_setLoop (s : ServerLoops) (l l' : Nat) (loop : EventLoop ServerFunctor)
    (more : List ServerFunctor)
    (hloop : loop.pendingFunctors = (s.loops l).pendingFunctors ++ more) :
    (s.setLoop l loop).queued l' = s.queued l' ++ if l = l' then more else [] := by
  by_cases hl : l = l'
  · subst hl
    simp [queued, setLoop, hloop]
  · have hl' : l' ≠ l := fun h => hl h.symm
    simp [queued, setLoop, hl, hl']

theorem due_setLoop (hand : Option (Nat × ServerFunctor)) (s : ServerLoops) (l l' : Nat)
    (loop : EventLoop ServerFunctor) (more : List ServerFunctor) (f : ServerFunctor)
    (hloop : loop.pendingFunctors = (s.loops l).pendingFunctors ++ more) :
    due hand (s.setLoop l loop) l' f = due hand s l' f + if l = l' then more.count f else 0 := by
  rw [due, due, queued_setLoop s l l' loop more hloop, List.count_append]
  by_cases hl : l = l'
  · rw [if_pos hl, if_pos hl, Nat.add_assoc]
  · rw [if_neg hl, if_neg hl, List.count_nil, Nat.add_assoc]

theorem due_queueInLoop (hand : Option (Nat × ServerFunctor)) (s : ServerLoops) (l l' : Nat)
    (isInLoopThread : Bool) (f g : ServerFunctor) :
    due hand (s.queueInLoop l isInLoopThread f) l' g =
      due hand s l' g + if l = l' ∧ f = g then 1 else 0 := by
  rw [queueInLoop, due_setLoop hand s l l' _ [f] g (EventLoop.queueInLoop_pendingFunctors ..)]
  by_cases hl : l = l' <;> by_cases hf : f = g <;> simp [hl, hf]

/-- A connection, and what its function has made of its loop. -/
def put (s : ServerLoops) (i : Nat) (c : ServerConnection) (d : TcpConnection) : ServerLoops :=
  (s.setConn i { c with conn := d }).setLoop c.ioLoop (merge (s.loops c.ioLoop) i d.loop)

theorem due_put (hand : Option (Nat × ServerFunctor)) (s : ServerLoops) (i : Nat)
    (c : ServerConnection) (d : TcpConnection) (l : Nat) (f : ServerFunctor) :
    due hand (s.put i c d) l f = due hand s l f +
      if c.ioLoop = l then (d.loop.pendingFunctors.map (.ofConnection i)).count f else 0 :=
  due_setLoop hand (s.setConn i { c with conn := d }) c.ioLoop l _ _ f rfl

/-! ### Steps of one connection -/

/-- Nothing but connection `i` has changed, with what is due for it and its entries in the poller of
its loop. -/
structure Touches (i : Nat) (c c' : ServerConnection) (hand hand' : Option (Nat × ServerFunctor))
    (s s' : ServerLoops) : Prop where
  before : s.conns i = some c
  after : s'.conns = Function.update s.conns i (some c')
  ioLoop : c'.ioLoop = c.ioLoop
  fd : c'.conn.channel.fd = c.conn.channel.fd
  established : c.established = 1 → c'.established = 1
  destroyed : c'.destroyed = [] → c.destroyed = []
  poller : ∀ l, (s'.loops l).poller = (s.loops l).poller ∨
    l = c.ioLoop ∧ c.destroyed = [] ∧
      EPollPoller.SameBut c.conn.channel.fd (s.loops l).poller (s'.loops l).poller
  gone : c'.destroyed ≠ [] → c.destroyed = [] →
    ¬ Enters (s'.loops c.ioLoop).poller c.conn.channel.fd
  functors : ∀ l f, f.conn ≠ i → due hand' s' l f = due hand s l f

theorem Touches.conns_ne (h : Touches i c c' hand hand' s s') {j : Nat} (hj : j ≠ i) :
    s'.conns j = s.conns j := by
  rw [h.after, Function.update_of_ne hj]

theorem Touches.conns_self (h : Touches i c c' hand hand' s s') : s'.conns i = some c' := by
  rw [h.after, Function.update_self]

/-- The other connections stay at their stages. -/
theorem Touches.lives (h : Touches i c c' hand hand' s s') (hs : s.Wired) {j : Nat} (hj : j ≠ i)
    {d : ServerConnection} (hd : s.conns j = some d) {stage : Stage}
    (hlives : Lives hand s j d stage) : Lives hand' s' j d stage := by
  refine { hlives with tracks := ?_, hops := ?_, others := ?_ }
  · intro hstage
    have htracks := hlives.tracks hstage
    obtain hsame | ⟨-, hlive, hsame⟩ := h.poller d.ioLoop
    · rwa [hsame]
    · refine htracks.sameBut hsame ?_
      intro hfd
      have hdestroyed : d.destroyed = [] := by
        rw [hlives.destroyed]
        cases stage <;> first | rfl | exact absurd rfl hstage
      exact hj (hs.fds j i d c hd h.before hdestroyed hlive hfd)
  · intro l f hf hhop
    rw [h.functors l f (by rw [hf]; exact hj)]
    exact hlives.hops l f hf hhop
  · intro l f hf hhop
    rw [h.functors l f (by rw [hf]; exact hj)]
    exact hlives.others l f hf hhop

theorem Touches.wired (h : Touches i c c' hand hand' s s') (hs : s.Wired) : s'.Wired := by
  have hback : ∀ j d, s'.conns j = some d → ∃ d₀, s.conns j = some d₀ ∧
      d.conn.channel.fd = d₀.conn.channel.fd ∧ (d.destroyed = [] → d₀.destroyed = []) := by
    intro j d hd
    by_cases hj : j = i
    · subst hj
      rw [h.conns_self] at hd
      cases hd
      exact ⟨c, h.before, h.fd, h.destroyed⟩
    · rw [h.conns_ne hj] at hd
      exact ⟨d, hd, rfl, id⟩
  constructor
  · intro j k d e hd he hlived hlivee hfd
    obtain ⟨d₀, hd₀, hfd₀, hlive₀⟩ := hback j d hd
    obtain ⟨e₀, he₀, hfe₀, hlivee₀⟩ := hback k e he
    exact hs.fds j k d₀ e₀ hd₀ he₀ (hlive₀ hlived) (hlivee₀ hlivee) (by rw [← hfd₀, ← hfe₀, hfd])
  · intro l fd henters
    by_cases hown : l = c.ioLoop ∧ fd = c.conn.channel.fd ∧ c.destroyed = []
    · obtain ⟨rfl, rfl, hlive⟩ := hown
      refine ⟨i, c', h.conns_self, h.ioLoop, h.fd, ?_⟩
      by_contra hgone
      exact h.gone hgone hlive henters
    · -- The entry is another connection's.
      have hbefore : Enters (s.loops l).poller fd := by
        obtain hsame | ⟨hl, hlive, hsame⟩ := h.poller l
        · rwa [hsame] at henters
        · obtain ⟨hchannels, hinterest⟩ := hsame fd fun hfd => hown ⟨hl, hfd, hlive⟩
          rw [Enters, hchannels, hinterest] at henters
          exact henters
      obtain ⟨j, d, hd, hl, hfd, hlive⟩ := hs.owned l fd hbefore
      by_cases hj : j = i
      · subst hj
        cases h.before.symm.trans hd
        exact absurd ⟨hl.symm, hfd.symm, hlive⟩ hown
      · exact ⟨j, d, by rw [h.conns_ne hj]; exact hd, hl, hfd, hlive⟩

/-- The callbacks yet to be called are as well known as before, unless the connection is closed. -/
theorem Touches.rounds (h : Touches i c c' hand hand' s s') (hs : s.Rounds)
    (hplaces : s'.places = s.places)
    (hhandling : ∀ l, (s'.loops l).eventHandling = (s.loops l).eventHandling)
    (hcloses : c'.conn.closeCalls = c.conn.closeCalls ∨ ∀ l callbacks,
      s.places l = .handling callbacks → ∀ e ∈ callbacks, e.1 = i → mayClose e.2 = false) :
    s'.Rounds := by
  constructor
  · intro l callbacks hl
    rw [hplaces] at hl
    obtain ⟨hknown, hnodup⟩ := hs.handling l callbacks hl
    refine ⟨?_, hnodup⟩
    intro e he
    obtain ⟨d, hd, hioLoop, hestablished, hopen⟩ := hknown e he
    by_cases hei : e.1 = i
    · rw [hei] at hd ⊢
      cases h.before.symm.trans hd
      refine ⟨c', h.conns_self, h.ioLoop.trans hioLoop, h.established hestablished, ?_⟩
      intro hclose
      obtain hsame | hnone := hcloses
      · rw [hsame]
        exact hopen hclose
      · rw [hnone l callbacks hl e he hei] at hclose
        cases hclose
    · exact ⟨d, by rw [h.conns_ne hei]; exact hd, hioLoop, hestablished, hopen⟩
  · intro l hl
    rw [hhandling]
    exact hs.idle l fun callbacks hc => hl callbacks (by rw [hplaces]; exact hc)

theorem Touches.named (h : Touches i c c' hand hand' s s') (hs : s.Named)
    (hserver : s'.server = s.server) (haccepted : s'.accepted = s.accepted)
    (hname : c'.name = c.name) (hremoved : c'.removed = c.removed) : s'.Named := by
  have hsome : ∀ j, (s'.conns j).isSome = (s.conns j).isSome := by
    intro j
    by_cases hj : j = i
    · rw [hj, h.conns_self, h.before]
      rfl
    · rw [h.conns_ne hj]
  constructor
  · intro j
    rw [hsome, haccepted]
    exact hs.accepted j
  · rw [haccepted, hserver]
    exact hs.nextConnId
  · rw [hserver]
    exact hs.ipPort
  · intro j d hd
    rw [hserver]
    by_cases hj : j = i
    · rw [hj] at hd ⊢
      rw [h.conns_self] at hd
      cases hd
      rw [hname]
      exact hs.name i c h.before
    · rw [h.conns_ne hj] at hd
      exact hs.name j d hd
  · intro name j
    rw [hserver, hs.connections]
    by_cases hj : j = i
    · rw [hj, h.conns_self, h.before]
      simp [hname, hremoved]
    · rw [h.conns_ne hj]

theorem Sound.touch (hs : Sound hand s) (h : Touches i c c' hand hand' s s')
    (hlives : ∃ stage, Lives hand' s' i c' stage) (hcalls : s'.calls = s.calls)
    (hrounds : s'.Rounds) (hnamed : s'.Named) : Sound hand' s' where
  lives j d hd := by
    by_cases hj : j = i
    · subst hj
      rw [h.conns_self] at hd
      cases hd
      exact hlives
    · rw [h.conns_ne hj] at hd
      obtain ⟨stage, hstage⟩ := hs.lives j d hd
      exact ⟨stage, h.lives hs.wired hj hd hstage⟩
  known l f hdue := by
    by_cases hf : f.conn = i
    · rw [hf, h.conns_self]
      rfl
    · rw [h.functors l f hf] at hdue
      rw [h.conns_ne hf]
      exact hs.known l f hdue
  calls e he := by
    rw [hcalls] at he
    obtain ⟨hserves, d, hd, hestablished⟩ := hs.calls e he
    refine ⟨hserves, ?_⟩
    by_cases hei : e.1 = i
    · rw [hei] at hd ⊢
      cases h.before.symm.trans hd
      exact ⟨c', h.conns_self, h.established hestablished⟩
    · exact ⟨d, by rw [h.conns_ne hei]; exact hd, hestablished⟩
  rounds := hrounds
  wired := h.wired hs.wired
  named := hnamed

/-! ### Functions of a connection -/

/-- Connection `i` as its functions find it. -/
def viewed (s : ServerLoops) (c : ServerConnection) : TcpConnection :=
  { c.conn with loop := view (s.loops c.ioLoop) }

theorem onConnection_put {f : TcpConnection → Except Fault TcpConnection} {d : TcpConnection}
    (hc : s.conns i = some c) (hf : f (s.viewed c) = .ok d)
    (hsame : d.closeCalls = c.conn.closeCalls) :
    s.onConnection c.ioLoop i f = .ok (s.put i c d) := by
  rw [onConnection, hc]
  dsimp only
  rw [if_pos rfl]
  refine bind_eq_ok.mpr ⟨d, hf, ?_⟩
  rw [if_neg (by omega)]
  rfl

theorem onConnection_close {f : TcpConnection → Except Fault TcpConnection} {d : TcpConnection}
    (hc : s.conns i = some c) (hf : f (s.viewed c) = .ok d)
    (hclose : d.closeCalls = c.conn.closeCalls + 1) :
    s.onConnection c.ioLoop i f = (s.put i c d).removeConnection c.ioLoop i := by
  rw [onConnection, hc]
  dsimp only
  rw [if_pos rfl, show f { c.conn with loop := view (s.loops c.ioLoop) } = .ok d from hf, ok_bind,
    if_pos (by omega)]
  rfl

/-- The functor in hand, if any, is for connection `i`. -/
def ForConn (i : Nat) (hand : Option (Nat × ServerFunctor)) : Prop := ∀ p ∈ hand, p.2.conn = i

theorem due_of_ne (hhand : ForConn i hand) {f : ServerFunctor} (hf : f.conn ≠ i)
    (s : ServerLoops) (l : Nat) : due hand s l f = (s.queued l).count f := by
  rw [due, if_neg, Nat.zero_add]
  intro h
  exact hf (hhand _ h)

theorem count_ofConnection (functors : List TcpFunctor) {f : ServerFunctor}
    (hf : f.conn ≠ i ∨ ∀ g ∈ functors, f ≠ .ofConnection i g) :
    (functors.map (.ofConnection i)).count f = 0 := by
  apply List.count_eq_zero_of_not_mem
  intro hmem
  obtain ⟨g, hg, rfl⟩ := List.mem_map.mp hmem
  rcases hf with hf | hf
  · exact hf rfl
  · exact hf g hg rfl

theorem put_loops (s : ServerLoops) (i : Nat) (c : ServerConnection) (d : TcpConnection) (l : Nat) :
    (s.put i c d).loops l = if l = c.ioLoop then merge (s.loops l) i d.loop else s.loops l := by
  by_cases hl : l = c.ioLoop
  · subst hl
    simp [put, setLoop]
  · simp [put, setLoop, setConn, hl]

theorem put_poller (s : ServerLoops) (i : Nat) (c : ServerConnection) (d : TcpConnection) :
    ((s.put i c d).loops c.ioLoop).poller = d.loop.poller := by
  rw [put_loops, if_pos rfl]
  rfl

theorem put_eventHandling (s : ServerLoops) (i : Nat) (c : ServerConnection) (d : TcpConnection)
    (l : Nat) : ((s.put i c d).loops l).eventHandling = (s.loops l).eventHandling := by
  rw [put_loops]
  split <;> rfl

theorem touches_put (c₁ : ServerConnection) {d : TcpConnection} (hc : s.conns i = some c)
    (hhand : ForConn i hand) (hhand' : ForConn i hand') (hioLoop : c₁.ioLoop = c.ioLoop)
    (hestablished : c.established = 1 → c₁.established = 1)
    (hdestroyed : c₁.destroyed = [] → c.destroyed = [])
    (hfd : d.channel.fd = c.conn.channel.fd)
    (hpoller : d.loop.poller = (s.loops c.ioLoop).poller ∨ c.destroyed = [] ∧
      EPollPoller.SameBut c.conn.channel.fd (s.loops c.ioLoop).poller d.loop.poller)
    (hgone : c₁.destroyed ≠ [] → c.destroyed = [] → ¬ Enters d.loop.poller c.conn.channel.fd) :
    Touches i c { c₁ with conn := d } hand hand' s (s.put i c₁ d) where
  before := hc
  after := rfl
  ioLoop := hioLoop
  fd := hfd
  established := hestablished
  destroyed := hdestroyed
  poller l := by
    rw [put_loops, hioLoop]
    by_cases hl : l = c.ioLoop
    · subst hl
      rw [if_pos rfl]
      exact hpoller.imp_right fun h => ⟨rfl, h⟩
    · rw [if_neg hl]
      exact .inl rfl
  gone h h' := by
    rw [← hioLoop, put_poller]
    exact hgone h h'
  functors l f hf := by
    rw [due_put, due_of_ne hhand' hf, due_of_ne hhand hf, count_ofConnection _ (.inl hf)]
    simp

/-- Neither the poller nor the kernel knows a removed channel. -/
theorem not_enters {d : TcpConnection} (h : TcpConnection.Gone d) :
    ¬ Enters d.loop.poller d.channel.fd := by
  have htracks := h.tracks
  rw [EPollPoller.Tracks, h.index] at htracks
  exact fun henters => henters.elim (fun hknown => hknown htracks.1) (fun hknown => hknown htracks.2)

/-! ### Functions at any stage after the first -/

/-- The functor in hand, if any, leaves connection `i` at its stage. -/
def Serving (i ioLoop : Nat) (hand : Option (Nat × ServerFunctor)) : Prop :=
  ∀ p ∈ hand, p.1 = ioLoop ∧ ∃ g, p.2 = .ofConnection i g ∧ TcpConnection.Serves g = true

theorem Serving.forConn {ioLoop : Nat} (h : Serving i ioLoop hand) : ForConn i hand := by
  intro p hp
  obtain ⟨-, g, hg, -⟩ := h p hp
  rw [hg]
  rfl

theorem isHop_ofConnection {g : TcpFunctor} (hg : TcpConnection.Serves g = true) :
    (ServerFunctor.ofConnection i g).isHop = false := by
  cases g <;> first | rfl | cases hg

theorem Serving.due_hop {ioLoop : Nat} (h : Serving i ioLoop hand) {f : ServerFunctor}
    (hf : f.isHop = true) (s : ServerLoops) (l : Nat) : due hand s l f = due none s l f := by
  rw [due, due, if_neg, if_neg (by simp)]
  intro hhand
  obtain ⟨-, g, hg, hserves⟩ := h _ hhand
  dsimp only at hg
  rw [hg, isHop_ofConnection hserves] at hf
  cases hf

theorem due_none_le (hand : Option (Nat × ServerFunctor)) (s : ServerLoops) (l : Nat)
    (f : ServerFunctor) : due none s l f ≤ due hand s l f := by
  rw [due, due, if_neg (by simp)]
  omega

/-- A connection after its first stage is established or closed. -/
theorem Lives.upOrClosed {stage : Stage} (h : Lives hand s i c stage) (hstage : stage ≠ .accepted) :
    TcpConnection.UpOrClosed (s.viewed c) := by
  have hholds := h.holds
  cases stage with
  | accepted => exact absurd rfl hstage
  | up => exact .inl ⟨hholds.1, hholds.2.1, hholds.2.2, h.tracks (by simp)⟩
  | closed | removed | destroyed => exact .inr ⟨hholds.1, hholds.2.2⟩

theorem Lives.eq_up {stage : Stage} (h : Lives hand s i c stage)
    (hup : TcpConnection.Up (s.viewed c)) : stage = .up := by
  have hindex := hup.index
  have hholds := h.holds
  cases stage <;> simp_all [Stage.Holds, viewed]

theorem Lives.stays {stage : Stage} (h : Lives hand s i c stage) {d : TcpConnection}
    (hserving : Serving i c.ioLoop hand) (hd : TcpConnection.Stays (s.viewed c) d)
    (hstage : stage ≠ .accepted) : Lives none (s.put i c d) i { c with conn := d } stage := by
  obtain ⟨hkeeps, hcases⟩ := hd
  obtain ⟨more, hmore, hall⟩ := hkeeps.queues
  have hfunctors : ∀ g ∈ d.loop.pendingFunctors, g = .writeCompleteCallback := by
    intro g hg
    rw [hmore] at hg
    exact hall g (by simpa [viewed, view] using hg)
  constructor
  case ptr => exact hkeeps.ptr.trans h.ptr
  case established => exact h.established
  case closeCalls => exact hkeeps.closeCalls.trans h.closeCalls
  case removed => exact h.removed
  case destroyed => exact h.destroyed
  case told => exact hkeeps.connectionCalls.trans h.told
  case holds =>
    obtain ⟨hup, hup'⟩ | ⟨hstate, hchannel, -⟩ := hcases
    · rw [h.eq_up hup]
      exact ⟨hup'.state, hup'.index, hup'.events⟩
    · have hholds := h.holds
      cases stage <;> simpa [Stage.Holds, hstate, hchannel, viewed] using hholds
  case tracks =>
    intro hnot
    change ((s.put i c d).loops c.ioLoop).poller.Tracks d.channel
    rw [put_poller]
    obtain ⟨-, hup'⟩ | ⟨-, hchannel, hpoller⟩ := hcases
    · exact hup'.tracks
    · rw [hchannel, hpoller]
      exact h.tracks hnot
  case hops =>
    intro l f hf hhop
    have hnone : (d.loop.pendingFunctors.map (.ofConnection i)).count f = 0 := by
      apply count_ofConnection _ (.inr _)
      rintro g hg rfl
      rw [hfunctors g hg] at hhop
      cases hhop
    rw [due_put, hnone, ← hserving.due_hop hhop, h.hops l f hf hhop]
    simp
  case others =>
    intro l f hf hhop hdue
    rw [due_put] at hdue
    by_cases hbefore : 0 < due none s l f
    · exact h.others l f hf hhop (lt_of_lt_of_le hbefore (due_none_le hand s l f))
    · have hmem : c.ioLoop = l ∧ f ∈ d.loop.pendingFunctors.map (.ofConnection i) := by
        split at hdue
        · rename_i hl
          exact ⟨hl, List.count_pos_iff.mp (by omega)⟩
        · omega
      obtain ⟨hl, hmem⟩ := hmem
      obtain ⟨g, hg, rfl⟩ := List.mem_map.mp hmem
      rw [hfunctors g hg]
      exact ⟨hl.symm, hstage, by simp⟩

theorem Sound.stays (hs : Sound hand s) (hc : s.conns i = some c)
    (hestablished : c.established = 1) (hserving : Serving i c.ioLoop hand)
    {f : TcpConnection → Except Fault TcpConnection}
    (hf : TcpConnection.UpOrClosed (s.viewed c) →
      ∃ d, f (s.viewed c) = .ok d ∧ TcpConnection.Stays (s.viewed c) d) :
    ∃ s', s.onConnection c.ioLoop i f = .ok s' ∧ Sound none s' ∧ s'.places = s.places := by
  obtain ⟨stage, hlives⟩ := hs.lives i c hc
  have hstage : stage ≠ .accepted := by
    rintro rfl
    have hzero := hlives.established.symm.trans hestablished
    cases hzero
  obtain ⟨d, hd, hstays⟩ := hf (hlives.upOrClosed hstage)
  have hkeeps := hstays.keeps
  have ht : Touches i c { c with conn := d } hand none s (s.put i c d) := by
    refine touches_put c hc hserving.forConn (by simp [ForConn]) rfl id id hkeeps.fd ?_ ?_
    · obtain ⟨hup, -⟩ | ⟨-, -, hpoller⟩ := hstays.cases
      · refine .inr ⟨?_, hkeeps.poller⟩
        rw [hlives.destroyed, hlives.eq_up hup]
        rfl
      · exact .inl hpoller
    · exact fun h h' => absurd h' h
  refine ⟨s.put i c d, onConnection_put hc hd hkeeps.closeCalls, ?_, rfl⟩
  refine hs.touch ht ⟨stage, hlives.stays hserving hstays hstage⟩ rfl ?_ ?_
  · exact ht.rounds hs.rounds rfl (put_eventHandling s i c d) (.inl hkeeps.closeCalls)
  · exact ht.named hs.named rfl rfl rfl rfl

/-! ### From one stage to the next -/

theorem forConn_next (stage : Stage) (i ioLoop : Nat) : ForConn i (stage.next i ioLoop) := by
  cases stage <;> simp [ForConn, Stage.next, Stage.hop, ServerFunctor.conn]

theorem due_next (stage : Stage) (i ioLoop : Nat) (s : ServerLoops) (l : Nat)
    (f : ServerFunctor) : due (stage.next i ioLoop) s l f =
      due none s l f + if stage.hop i = some f ∧ f.home ioLoop = l then 1 else 0 := by
  cases hhop : stage.hop i with
  | none => simp [Stage.next, hhop]
  | some g =>
    rw [show stage.next i ioLoop = some (g.home ioLoop, g) by simp [Stage.next, hhop],
      due_hand]
    by_cases hg : g = f
    · subst hg
      simp
    · simp [hg]

/-- With the functor in hand, nothing that takes the connection to another stage is queued. -/
theorem Lives.done {stage : Stage} (h : Lives (stage.next i c.ioLoop) s i c stage)
    {f : ServerFunctor} (hf : f.conn = i) (hhop : f.isHop = true) (l : Nat) :
    due none s l f = 0 := by
  have hdue := h.hops l f hf hhop
  rw [due_next] at hdue
  omega

theorem isHop_of_hop {stage : Stage} {f : ServerFunctor} (h : stage.hop i = some f) :
    f.isHop = true := by
  cases stage <;> simp only [Stage.hop, Option.some.injEq, reduceCtorEq] at h <;> rw [← h] <;> rfl

/-- What is due when the functor to the next stage is in hand. -/
theorem Lives.hops_next {stage stage' : Stage} (h : Lives (stage.next i c.ioLoop) s i c stage)
    (hdue : ∀ l f, due none s' l f = due none s l f) {l : Nat} {f : ServerFunctor}
    (hf : f.conn = i) (hhop : f.isHop = true) :
    due (stage'.next i c.ioLoop) s' l f =
      if stage'.hop i = some f ∧ f.home c.ioLoop = l then 1 else 0 := by
  rw [due_next, hdue, h.done hf hhop, Nat.zero_add]

theorem Lives.others_next {stage stage' : Stage} (h : Lives (stage.next i c.ioLoop) s i c stage)
    (hdue : ∀ l f, due none s' l f = due none s l f) (hstage' : stage' ≠ .accepted) {l : Nat}
    {f : ServerFunctor} (hf : f.conn = i) (hhop : f.isHop = false)
    (hpos : 0 < due (stage'.next i c.ioLoop) s' l f) :
    l = c.ioLoop ∧ stage' ≠ .accepted ∧ f ≠ .ofConnection i .forceCloseInLoop := by
  rw [due_next, hdue, if_neg fun hnext => by simp [isHop_of_hop hnext.1] at hhop] at hpos
  obtain ⟨hl, -, hforce⟩ := h.others l f hf hhop
    (lt_of_lt_of_le hpos (due_none_le (stage.next i c.ioLoop) s l f))
  exact ⟨hl, hstage', hforce⟩

theorem Lives.moves {stage : Stage} (h : Lives (stage.next i c.ioLoop) s i c stage)
    (stage' : Stage) (c₁ : ServerConnection) {d : TcpConnection} (hstage' : stage' ≠ .accepted)
    (hreg : TcpConnection.Registers (s.viewed c) d) (hioLoop : c₁.ioLoop = c.ioLoop)
    (hestablished : c₁.established = stage'.establishCalls)
    (hclosed : d.closeCalls = stage'.closeCalls) (hremoved : c₁.removed = stage'.removeCalls)
    (hdestroyed : c₁.destroyed = stage'.destroyCalls)
    (htold : d.connectionCalls = List.replicate stage'.establishCalls true ++
      List.replicate stage'.closeCalls false)
    (hholds : stage'.Holds d) (htracks : d.loop.poller.Tracks d.channel) :
    Lives (stage'.next i c.ioLoop) (s.put i c₁ d) i { c₁ with conn := d } stage' := by
  have hnone : d.loop.pendingFunctors = [] := by
    rw [hreg.loop]
    rfl
  have hdue : ∀ l f, due none (s.put i c₁ d) l f = due none s l f := by
    intro l f
    rw [due_put, hnone]
    simp
  refine ⟨hreg.ptr.trans h.ptr, hestablished, hclosed, hremoved, hdestroyed, htold, hholds,
    ?_, ?_, ?_⟩
  · intro _
    change ((s.put i c₁ d).loops c₁.ioLoop).poller.Tracks d.channel
    rwa [put_poller]
  · intro l f hf hhop
    dsimp only
    rw [hioLoop]
    exact h.hops_next hdue hf hhop
  · intro l f hf hhop hpos
    dsimp only
    rw [hioLoop]
    exact h.others_next hdue hstage' hf hhop hpos

/-- A function of the connection with the functor in hand takes it to its next stage. -/
theorem Sound.moves (stage : Stage) {stage' : Stage} (hs : Sound (stage.next i c.ioLoop) s)
    (hc : s.conns i = some c) {c₁ : ServerConnection} {d : TcpConnection}
    (hmoved : Lives (stage'.next i c.ioLoop) (s.put i c₁ d) i { c₁ with conn := d } stage')
    (hlive : c.destroyed = []) (hreg : TcpConnection.Registers (s.viewed c) d)
    (hioLoop : c₁.ioLoop = c.ioLoop) (hname : c₁.name = c.name) (hremoved : c₁.removed = c.removed)
    (hestablished : c.established = 1 → c₁.established = 1)
    (hgone : c₁.destroyed ≠ [] → ¬ Enters d.loop.poller c.conn.channel.fd)
    (hcloses : d.closeCalls = c.conn.closeCalls ∨ ∀ l callbacks,
      s.places l = .handling callbacks → ∀ e ∈ callbacks, e.1 = i → mayClose e.2 = false) :
    Sound (stage'.next i c.ioLoop) (s.put i c₁ d) := by
  have ht : Touches i c { c₁ with conn := d } (stage.next i c.ioLoop) (stage'.next i c.ioLoop) s
      (s.put i c₁ d) :=
    touches_put c₁ hc (forConn_next stage i c.ioLoop) (forConn_next stage' i c.ioLoop) hioLoop
      hestablished (fun _ => hlive) hreg.fd (.inr ⟨hlive, hreg.poller⟩) (fun h _ => hgone h)
  have hhandling : ∀ l, ((s.put i c₁ d).loops l).eventHandling = (s.loops l).eventHandling :=
    put_eventHandling s i c₁ d
  refine hs.touch ht ⟨stage', hmoved⟩ rfl ?_ ?_
  · exact ht.rounds hs.rounds rfl hhandling hcloses
  · exact ht.named hs.named rfl rfl hname hremoved

theorem Sound.congr (hs : Sound hand s) (hdue : ∀ l f, due hand' s' l f = due hand s l f)
    (hconns : s'.conns = s.conns) (hpoller : ∀ l, (s'.loops l).poller = (s.loops l).poller)
    (hcalls : ∀ e ∈ s'.calls, e ∈ s.calls) (hserver : s'.server = s.server)
    (haccepted : s'.accepted = s.accepted) (hrounds : s'.Rounds) : Sound hand' s' where
  lives j d hd := by
    rw [hconns] at hd
    obtain ⟨stage, hlives⟩ := hs.lives j d hd
    refine ⟨stage, { hlives with tracks := ?_, hops := ?_, others := ?_ }⟩
    · rw [hpoller]
      exact hlives.tracks
    · intro l f
      rw [hdue]
      exact hlives.hops l f
    · intro l f
      rw [hdue]
      exact hlives.others l f
  known l f := by
    rw [hdue, hconns]
    exact hs.known l f
  calls e he := by
    rw [hconns]
    exact hs.calls e (hcalls e he)
  rounds := hrounds
  wired := by
    constructor
    · rw [hconns]
      exact hs.wired.fds
    · intro l fd
      rw [hpoller, hconns]
      exact hs.wired.owned l fd
  named := by
    constructor
    · rw [hconns, haccepted]
      exact hs.named.accepted
    · rw [hserver, haccepted]
      exact hs.named.nextConnId
    · rw [hserver]
      exact hs.named.ipPort
    · rw [hconns, hserver]
      exact hs.named.name
    · rw [hconns, hserver]
      exact hs.named.connections

theorem Rounds.congr (hs : s.Rounds) (hconns : s'.conns = s.conns) (hplaces : s'.places = s.places)
    (hhandling : ∀ l, (s'.loops l).eventHandling = (s.loops l).eventHandling) : s'.Rounds := by
  constructor
  · rw [hplaces, hconns]
    exact hs.handling
  · intro l
    rw [hplaces, hhandling]
    exact hs.idle l

/-- The functor in hand is queued. -/
theorem Sound.queueInLoop {f : ServerFunctor} (hs : Sound (some (l, f)) s) (isInLoopThread : Bool) :
    Sound none (s.queueInLoop l isInLoopThread f) := by
  refine hs.congr ?_ rfl (setLoop_field EventLoop.poller (EventLoop.queueInLoop_poller ..))
    (fun e he => he) rfl rfl ?_
  · intro l' g
    rw [due_queueInLoop, due_hand]
  · exact hs.rounds.congr rfl rfl
      (setLoop_field EventLoop.eventHandling (EventLoop.queueInLoop_eventHandling ..))

end ServerLoops

end Mymuduo

import Mymuduo.Net.ChannelPhases

/-! What the loops of a server keep even when connections are forced closed: the phase of each
channel, what its poller knows of it, and where the functors are queued.  Nothing is said of whether
the steps return. -/

namespace Mymuduo

open Lib

namespace ServerLoops

variable {s t : ServerLoops} {i l : Nat} {c c' : ServerConnection} {p q : ChannelPhase}

/-- Connection `i` is at this phase; `destroyed` says when `connectDestroyed` has been called. -/
structure Enrolled (s : ServerLoops) (i : Nat) (c : ServerConnection) (p : ChannelPhase) :
    Prop where
  ptr : c.conn.channel.ptr = i
  phase : TcpConnection.At p (s.viewed c)
  destroyed : c.destroyed = [] ↔ p ≠ .removed

/-- The functor may be queued in loop `l`: its connection is there, and it has been established,
unless the functor takes it to another stage; `connectDestroyed` is in the loop of the connection. -/
def Queueable (s : ServerLoops) (l : Nat) (f : ServerFunctor) : Prop :=
  ∃ c, s.conns f.conn = some c ∧ (f.isHop = false → Known c = true) ∧
    (f = .ofConnection f.conn .connectDestroyed → c.ioLoop = l)

/-- A thread may be about to queue the functor. -/
def Callable (s : ServerLoops) (e : Nat × TcpFunctor) : Prop :=
  e.2 ≠ .connectDestroyed ∧ ∃ c, s.conns e.1 = some c ∧ Known c = true

/-- What every state keeps that the steps lead to, forced closing included. -/
structure Orderly (s : ServerLoops) : Prop where
  enrolled : ∀ i c, s.conns i = some c → ∃ p, Enrolled s i c p
  wired : s.Wired
  queueable : ∀ l, ∀ f ∈ s.queued l, Queueable s l f
  callable : ∀ e ∈ s.calls, Callable s e
  idle : ∀ l, (∀ callbacks, s.places l ≠ .handling callbacks) → (s.loops l).eventHandling = false
  accepted : ∀ i, (s.conns i).isSome = true ↔ i < s.accepted

theorem Orderly.lt_accepted (h : Orderly s) (hc : s.conns i = some c) : i < s.accepted :=
  (h.accepted i).mp (by rw [hc]; rfl)

/-- The same, as far as `Orderly` looks at it; only what is open can have been shut down or forced
closed. -/
structure Alike (c c' : ServerConnection) : Prop where
  ioLoop : c'.ioLoop = c.ioLoop
  destroyed : c'.destroyed = c.destroyed
  ptr : c'.conn.channel.ptr = c.conn.channel.ptr
  fd : c'.conn.channel.fd = c.conn.channel.fd
  index : c'.conn.channel.index = c.conn.channel.index
  events : c'.conn.channel.events = c.conn.channel.events
  told : c'.conn.connectionCalls = c.conn.connectionCalls
  state : c'.conn.state = c.conn.state ∨
    (c.conn.state = .kConnected ∨ c.conn.state = .kDisconnecting) ∧ c'.conn.state ≠ .kConnecting

theorem Alike.refl (c : ServerConnection) : Alike c c :=
  ⟨rfl, rfl, rfl, rfl, rfl, rfl, rfl, .inl rfl⟩

theorem Alike.known (h : Alike c c') : Known c' = Known c := by rw [Known, Known, h.told]

theorem Alike.enrolled (h : Alike c c') (hp : Enrolled s i c p)
    (hpoller : (t.loops c.ioLoop).poller = (s.loops c.ioLoop).poller) : Enrolled t i c' p := by
  refine ⟨h.ptr.trans hp.ptr, ⟨?_, ?_⟩, h.destroyed ▸ hp.destroyed⟩
  · have hholds := hp.phase.holds
    have hstate : p = .listening ∧ c'.conn.state ≠ .kConnecting ∨ c'.conn.state = c.conn.state := by
      rcases h.state with hsame | ⟨hopen, hnot⟩
      · exact .inr hsame
      · exact .inl ⟨hp.phase.listening hopen, hnot⟩
    have hindex := h.index
    have hevents := h.events
    have htold := h.told
    cases p with
    | listening =>
      obtain ⟨hnot, hrest⟩ := hholds
      refine ⟨?_, hindex.trans hrest.1, ?_, htold.trans hrest.2.2⟩
      · rcases hstate with ⟨-, hstate⟩ | hsame
        · exact hstate
        · exact fun hconnecting => hnot (hsame.symm.trans hconnecting)
      · change TcpConnection.Interested c'.conn.channel.events
        rw [hevents]
        exact hrest.2.1
    | unopened | silenced | removed =>
      have hsame := hstate.resolve_left (by simp)
      exact ⟨hsame.trans hholds.1, hindex.trans hholds.2.1, hevents.trans hholds.2.2.1,
        htold.trans hholds.2.2.2⟩
  · intro hnot
    have htracks := hp.phase.tracks hnot
    change ((t.loops c'.ioLoop).poller).Tracks c'.conn.channel
    rw [h.ioLoop, hpoller]
    change ((s.loops c.ioLoop).poller).Tracks c.conn.channel at htracks
    unfold EPollPoller.Tracks at htracks ⊢
    rwa [h.index, h.fd, h.ptr, h.events]

theorem Queueable.mono {f : ServerFunctor} (h : Queueable s l f)
    (hconns : ∀ i c, s.conns i = some c →
      ∃ d, t.conns i = some d ∧ d.ioLoop = c.ioLoop ∧ (Known c = true → Known d = true)) :
    Queueable t l f := by
  obtain ⟨c, hc, hknown, hhome⟩ := h
  obtain ⟨d, hd, hioLoop, hmore⟩ := hconns _ c hc
  exact ⟨d, hd, fun hhop => hmore (hknown hhop), fun hf => hioLoop.trans (hhome hf)⟩

theorem Callable.mono {e : Nat × TcpFunctor} (h : Callable s e)
    (hconns : ∀ i c, s.conns i = some c →
      ∃ d, t.conns i = some d ∧ d.ioLoop = c.ioLoop ∧ (Known c = true → Known d = true)) :
    Callable t e := by
  obtain ⟨hnot, c, hc, hknown⟩ := h
  obtain ⟨d, hd, -, hmore⟩ := hconns _ c hc
  exact ⟨hnot, d, hd, hmore hknown⟩

/-- A step that registers nothing. -/
theorem Orderly.alike (h : Orderly s)
    (hback : ∀ j d, t.conns j = some d → ∃ c, s.conns j = some c ∧ Alike c d)
    (hforth : ∀ j c, s.conns j = some c → ∃ d, t.conns j = some d ∧ Alike c d)
    (hpoller : ∀ l, (t.loops l).poller = (s.loops l).poller)
    (hqueued : ∀ l, ∀ f ∈ t.queued l, f ∈ s.queued l ∨ Queueable t l f)
    (hcalls : ∀ e ∈ t.calls, e ∈ s.calls ∨ Callable t e)
    (hidle : ∀ l, (∀ callbacks, t.places l ≠ .handling callbacks) →
      (t.loops l).eventHandling = false)
    (haccepted : t.accepted = s.accepted) : Orderly t := by
  have hconns : ∀ i c, s.conns i = some c →
      ∃ d, t.conns i = some d ∧ d.ioLoop = c.ioLoop ∧ (Known c = true → Known d = true) := by
    intro i c hc
    obtain ⟨d, hd, halike⟩ := hforth i c hc
    exact ⟨d, hd, halike.ioLoop, fun hknown => halike.known.trans hknown⟩
  refine ⟨?_, ⟨?_, ?_⟩, ?_, ?_, hidle, ?_⟩
  · intro i d hd
    obtain ⟨c, hc, halike⟩ := hback i d hd
    obtain ⟨p, hp⟩ := h.enrolled i c hc
    exact ⟨p, halike.enrolled hp (hpoller _)⟩
  · intro i j d d' hd hd' hlive hlive' hfd
    obtain ⟨c, hc, halike⟩ := hback i d hd
    obtain ⟨c', hc', halike'⟩ := hback j d' hd'
    rw [halike.destroyed] at hlive
    rw [halike'.destroyed] at hlive'
    rw [halike.fd, halike'.fd] at hfd
    exact h.wired.fds i j c c' hc hc' hlive hlive' hfd
  · intro l fd henters
    rw [hpoller] at henters
    obtain ⟨i, c, hc, hioLoop, hfd, hdestroyed⟩ := h.wired.owned l fd henters
    obtain ⟨d, hd, halike⟩ := hforth i c hc
    exact ⟨i, d, hd, halike.ioLoop.trans hioLoop, halike.fd.trans hfd,
      halike.destroyed.trans hdestroyed⟩
  · intro l f hf
    rcases hqueued l f hf with hf | hf
    · exact (h.queueable l f hf).mono hconns
    · exact hf
  · intro e he
    rcases hcalls e he with he | he
    · exact (h.callable e he).mono hconns
    · exact he
  · intro i
    rw [haccepted, ← h.accepted]
    constructor
    · intro hd
      obtain ⟨d, hd⟩ := Option.isSome_iff_exists.mp hd
      obtain ⟨c, hc, -⟩ := hback i d hd
      rw [hc]
      rfl
    · intro hc
      obtain ⟨c, hc⟩ := Option.isSome_iff_exists.mp hc
      obtain ⟨d, hd, -⟩ := hforth i c hc
      rw [hd]
      rfl

/-- A step that changes at most the places of the loops and their functors. -/
theorem Orderly.congr (h : Orderly s) (hconns : t.conns = s.conns)
    (hpoller : ∀ l, (t.loops l).poller = (s.loops l).poller)
    (hqueued : ∀ l, ∀ f ∈ t.queued l, f ∈ s.queued l ∨ Queueable s l f)
    (hcalls : ∀ e ∈ t.calls, e ∈ s.calls ∨ Callable s e)
    (hidle : ∀ l, (∀ callbacks, t.places l ≠ .handling callbacks) →
      (t.loops l).eventHandling = false)
    (haccepted : t.accepted = s.accepted) : Orderly t := by
  refine h.alike ?_ ?_ hpoller ?_ ?_ hidle haccepted
  · intro j d hd
    rw [hconns] at hd
    exact ⟨d, hd, .refl d⟩
  · intro j c hc
    rw [hconns]
    exact ⟨c, hc, .refl c⟩
  · intro l f hf
    refine (hqueued l f hf).imp_right ?_
    intro hqueueable
    rwa [Queueable, hconns]
  · intro e he
    refine (hcalls e he).imp_right ?_
    intro hcallable
    rwa [Callable, hconns]

theorem queued_queueInLoop (s : ServerLoops) (l l' : Nat) (isInLoopThread : Bool)
    (f : ServerFunctor) :
    (s.queueInLoop l isInLoopThread f).queued l' = s.queued l' ++ if l = l' then [f] else [] :=
  queued_setLoop s l l' _ [f] (EventLoop.queueInLoop_pendingFunctors ..)

theorem Orderly.queueInLoop (h : Orderly s) (isInLoopThread : Bool) {f : ServerFunctor}
    (hf : Queueable s l f) : Orderly (s.queueInLoop l isInLoopThread f) := by
  refine h.congr rfl (setLoop_field EventLoop.poller (EventLoop.queueInLoop_poller ..)) ?_
    (fun e he => .inl he) ?_ rfl
  · intro l' g hg
    rw [queued_queueInLoop] at hg
    rcases List.mem_append.mp hg with hg | hg
    · exact .inl hg
    · split at hg
      · rename_i hl
        rw [List.mem_singleton.mp hg, ← hl]
        exact .inr hf
      · cases hg
  · intro l' hplaces
    rw [ServerLoops.queueInLoop,
      setLoop_field EventLoop.eventHandling (EventLoop.queueInLoop_eventHandling ..)]
    exact h.idle l' hplaces

/-! ### Functions of a connection -/

/-- A function of connection `i` takes its channel to another phase. -/
theorem Orderly.put (h : Orderly s) (hc : s.conns i = some c) (hp : Enrolled s i c p)
    {c₁ : ServerConnection} {d : TcpConnection} (hioLoop : c₁.ioLoop = c.ioLoop)
    (hestablished : c₁.established = c.established) (hdestroyed : c₁.destroyed = [] ↔ q ≠ .removed)
    (hnot : p ≠ .removed) (hq : q ≠ .unopened)
    (hpasses : TcpConnection.Passes q (s.viewed c) d) : Orderly (s.put i c₁ d) := by
  have hlive : c.destroyed = [] := hp.destroyed.mpr hnot
  have henrolled : Enrolled (s.put i c₁ d) i { c₁ with conn := d } q := by
    refine ⟨hpasses.ptr.trans hp.ptr, ⟨?_, ?_⟩, hdestroyed⟩
    · have hholds := hpasses.holds
      cases q <;> exact hholds
    · intro _
      change ((s.put i c₁ d).loops c₁.ioLoop).poller.Tracks d.channel
      rw [put_poller]
      exact hpasses.tracks
  have hknown : Known { c₁ with conn := d } = true := by
    have hholds := hpasses.holds
    cases q with
    | unopened => exact absurd rfl hq
    | listening | silenced | removed => simp [Known, hholds.2.2.2]
  have hgone : c₁.destroyed ≠ [] → c.destroyed = [] →
      ¬ Enters d.loop.poller c.conn.channel.fd := by
    intro hnow _
    obtain rfl : q = .removed := by
      by_contra hne
      exact hnow (hdestroyed.mpr hne)
    obtain ⟨hstate, hindex, hevents, -⟩ := hpasses.holds
    have hfd : d.channel.fd = c.conn.channel.fd := hpasses.fd
    rw [← hfd]
    exact not_enters ⟨hstate, hindex, hevents, hpasses.tracks⟩
  have ht : Touches i c { c₁ with conn := d } none none s (s.put i c₁ d) :=
    touches_put c₁ hc (by simp [ForConn]) (by simp [ForConn]) hioLoop
      (fun h => hestablished.trans h) (fun _ => hlive) hpasses.fd
      (.inr ⟨hlive, hpasses.poller⟩) hgone
  have hconns : ∀ j e, s.conns j = some e → ∃ e', (s.put i c₁ d).conns j = some e' ∧
      e'.ioLoop = e.ioLoop ∧ (Known e = true → Known e' = true) := by
    intro j e he
    by_cases hj : j = i
    · subst hj
      cases hc.symm.trans he
      exact ⟨_, ht.conns_self, hioLoop, fun _ => hknown⟩
    · exact ⟨e, by rw [ht.conns_ne hj]; exact he, rfl, id⟩
  refine ⟨?_, ht.wired h.wired, ?_, fun e he => (h.callable e he).mono hconns, ?_, ?_⟩
  · intro j e he
    by_cases hj : j = i
    · subst hj
      cases ht.conns_self.symm.trans he
      exact ⟨q, henrolled⟩
    · rw [ht.conns_ne hj] at he
      obtain ⟨r, hr⟩ := h.enrolled j e he
      refine ⟨r, hr.ptr, ⟨?_, ?_⟩, hr.destroyed⟩
      · have hholds := hr.phase.holds
        cases r <;> exact hholds
      · intro hr'
        have htracks := hr.phase.tracks hr'
        obtain hsame | ⟨-, -, hsame⟩ := ht.poller e.ioLoop
        · change ((s.put i c₁ d).loops e.ioLoop).poller.Tracks e.conn.channel
          rw [hsame]
          exact htracks
        · refine htracks.sameBut hsame ?_
          intro hfd
          exact hj (h.wired.fds j i e c he hc (hr.destroyed.mpr hr') hlive hfd)
  · intro l f hf
    rw [show (s.put i c₁ d).queued l = _ from
      queued_setLoop (s.setConn i { c₁ with conn := d }) c₁.ioLoop l _ _ rfl] at hf
    rcases List.mem_append.mp hf with hf | hf
    · exact (h.queueable l f hf).mono hconns
    · split at hf
      · rename_i hl
        obtain ⟨g, hg, rfl⟩ := List.mem_map.mp hf
        obtain ⟨more, hmore, hall⟩ := hpasses.queues
        rw [hmore, show (s.viewed c).loop.pendingFunctors = [] from rfl, List.nil_append] at hg
        rw [hall g hg]
        exact ⟨_, ht.conns_self, fun _ => hknown, fun hdestroy => by cases hdestroy⟩
      · cases hf
  · intro l hplaces
    rw [put_eventHandling]
    exact h.idle l hplaces
  · intro j
    rw [show (s.put i c₁ d).accepted = s.accepted from rfl, ← h.accepted]
    by_cases hj : j = i
    · rw [hj, ht.conns_self, hc]
      rfl
    · rw [ht.conns_ne hj]

theorem Orderly.put_idles (h : Orderly s) (hc : s.conns i = some c) {d : TcpConnection}
    (hidles : TcpConnection.Idles (s.viewed c) d) : Orderly (s.put i c d) := by
  have halike : Alike c { c with conn := d } := by
    have hchannel : d.channel = c.conn.channel := hidles.channel
    exact ⟨rfl, rfl, by rw [hchannel], by rw [hchannel], by rw [hchannel], by rw [hchannel],
      hidles.connectionCalls, .inl hidles.state⟩
  have hloop : d.loop = view (s.loops c.ioLoop) := hidles.loop
  refine h.alike ?_ ?_ ?_ ?_ (fun e he => .inl he) ?_ rfl
  · intro j e he
    by_cases hj : j = i
    · subst hj
      obtain rfl : { c with conn := d } = e := by simpa [ServerLoops.put, setLoop, setConn] using he
      exact ⟨c, hc, halike⟩
    · exact ⟨e, by simpa [ServerLoops.put, setLoop, setConn, hj] using he, .refl e⟩
  · intro j e he
    by_cases hj : j = i
    · subst hj
      cases hc.symm.trans he
      exact ⟨_, by simp [ServerLoops.put, setLoop, setConn], halike⟩
    · exact ⟨e, by simpa [ServerLoops.put, setLoop, setConn, hj] using he, .refl e⟩
  · intro l
    rw [put_loops]
    split
    · rename_i hl
      rw [merge, hloop, hl]
      rfl
    · rfl
  · intro l f hf
    rw [show (s.put i c d).queued l = _ from
      queued_setLoop (s.setConn i { c with conn := d }) c.ioLoop l _ _ rfl, hloop] at hf
    refine .inl (show f ∈ (s.setConn i { c with conn := d }).queued l from ?_)
    simpa [view] using hf
  · intro l hplaces
    rw [put_eventHandling]
    exact h.idle l hplaces

/-- Something about connection `i` changes that `Orderly` does not look at. -/
theorem Orderly.setConn (h : Orderly s) (hc : s.conns i = some c) (halike : Alike c c')
    (hconns : t.conns = Function.update s.conns i (some c')) (hloops : t.loops = s.loops)
    (hplaces : t.places = s.places) (hcalls : ∀ e ∈ t.calls, e ∈ s.calls ∨ Callable t e)
    (haccepted : t.accepted = s.accepted) : Orderly t := by
  refine h.alike ?_ ?_ (fun l => by rw [hloops]) ?_ hcalls ?_ haccepted
  · intro j d hd
    rw [hconns] at hd
    by_cases hj : j = i
    · subst hj
      obtain rfl : c' = d := by simpa using hd
      exact ⟨c, hc, halike⟩
    · exact ⟨d, by simpa [hj] using hd, .refl d⟩
  · intro j d hd
    rw [hconns]
    by_cases hj : j = i
    · subst hj
      cases hc.symm.trans hd
      exact ⟨c', by simp, halike⟩
    · exact ⟨d, by simpa [hj] using hd, .refl d⟩
  · intro l f hf
    rw [queued, hplaces, hloops] at hf
    exact .inl hf
  · intro l hnot
    rw [hplaces] at hnot
    rw [hloops]
    exact h.idle l hnot

theorem Orderly.removeConnectionInLoop (h : Orderly s) (ht : s.removeConnectionInLoop i = .ok t) :
    Orderly t := by
  unfold ServerLoops.removeConnectionInLoop at ht
  split at ht
  · cases ht
  · rename_i c hc
    obtain ⟨server, -, ht⟩ := bind_eq_ok.mp ht
    cases ht
    have halike : Alike c { c with removed := c.removed + 1 } :=
      ⟨rfl, rfl, rfl, rfl, rfl, rfl, rfl, .inl rfl⟩
    have hset : Orderly (ServerLoops.setConn { s with server := server } i
        { c with removed := c.removed + 1 }) :=
      h.setConn hc halike rfl rfl rfl (fun e he => .inl he) rfl
    refine hset.queueInLoop (c.ioLoop == 0) ⟨{ c with removed := c.removed + 1 }, ?_, ?_, ?_⟩
    · simp [ServerLoops.setConn, ServerFunctor.conn]
    · exact fun hhop => by cases hhop
    · exact fun _ => rfl

theorem Orderly.removeConnection (h : Orderly s) (hc : s.conns i = some c)
    (ht : s.removeConnection l i = .ok t) : Orderly t := by
  unfold ServerLoops.removeConnection at ht
  split at ht
  · exact h.removeConnectionInLoop ht
  · cases ht
    refine h.queueInLoop (f := .removeConnectionInLoop i) false ⟨c, hc, ?_, ?_⟩
    · exact fun hhop => by cases hhop
    · exact fun hf => by cases hf

/-- A function of a connection that does not remove its channel. -/
theorem Orderly.onConnection (h : Orderly s) {f : TcpConnection → Except Fault TcpConnection}
    (hf : ∀ c p, s.conns i = some c → Enrolled s i c p → TcpConnection.Mild p f)
    (ht : s.onConnection l i f = .ok t) : Orderly t := by
  unfold ServerLoops.onConnection at ht
  split at ht
  · cases ht
  · rename_i c hc
    split at ht
    · rename_i hl
      subst hl
      obtain ⟨d, hd, ht⟩ := bind_eq_ok.mp ht
      obtain ⟨p, hp⟩ := h.enrolled i c hc
      obtain ⟨q, hmoves, hremoved⟩ := hf c p hc hp (s.viewed c) d hp.phase hd
      have hput : Orderly (s.put i c d) := by
        cases hmoves with
        | idles hidles => exact h.put_idles hc hidles
        | passes hnot hq hpasses =>
          refine h.put hc hp rfl rfl ?_ hnot hq hpasses
          exact iff_of_true (hp.destroyed.mpr hnot) fun hq => hnot (hremoved hq)
      change (if c.conn.closeCalls < d.closeCalls then (s.put i c d).removeConnection c.ioLoop i
        else .ok (s.put i c d)) = .ok t at ht
      split at ht
      · exact hput.removeConnection (c := { c with conn := d })
          (by simp [ServerLoops.put, setLoop, ServerLoops.setConn]) ht
      · cases ht
        exact hput
    · cases ht

/-- The phase of a connection that the user knows. -/
theorem Enrolled.known (h : Enrolled s i c p) (hknown : Known c = true) : p ≠ .unopened := by
  rintro rfl
  have htold : c.conn.connectionCalls = [] := h.phase.holds.2.2.2
  rw [Known, htold] at hknown
  cases hknown

theorem Orderly.connectEstablished (h : Orderly s) (ht : s.connectEstablished l i = .ok t) :
    Orderly t := by
  have hrecord : Orderly (s.record i fun c => { c with established := c.established + 1 }) := by
    cases hc : s.conns i with
    | none =>
      exfalso
      rw [ServerLoops.connectEstablished, ServerLoops.onConnection] at ht
      simp [record, hc] at ht
    | some c =>
      have halike : Alike c { c with established := c.established + 1 } :=
        ⟨rfl, rfl, rfl, rfl, rfl, rfl, rfl, .inl rfl⟩
      refine h.setConn hc halike ?_ rfl rfl (fun e he => .inl he) rfl
      simp [record, hc]
  exact hrecord.onConnection (fun c p _ _ => TcpConnection.mild_connectEstablished p) ht

theorem onConnection_error {f : TcpConnection → Except Fault TcpConnection} {e : Fault}
    {g : ServerConnection → ServerConnection} (hc : s.conns i = some c)
    (hioLoop : (g c).ioLoop = c.ioLoop) (hconn : (g c).conn = c.conn)
    (hf : f (s.viewed c) = .error e) :
    (s.record i g).onConnection c.ioLoop i f = .error e := by
  have hrecorded : (s.record i g).conns i = some (g c) := by simp [record, hc]
  rw [ServerLoops.onConnection, hrecorded]
  dsimp only
  rw [if_pos hioLoop, hconn, show f { c.conn with loop := view ((s.record i g).loops c.ioLoop) } =
    .error e from hf]
  rfl

/-- `connectDestroyed` returns for a connection that is connected or closed, and whose events its
loop does not handle. -/
theorem Orderly.connectDestroyed_iff (h : Orderly s) (hc : s.conns i = some c)
    (hl : c.ioLoop = l) : (∃ t, s.connectDestroyed l i = .ok t) ↔
      TcpConnection.Destroyable (s.viewed c) ∧ ¬TcpConnection.Handled (s.viewed c) := by
  subst hl
  obtain ⟨p, hp⟩ := h.enrolled i c hc
  rw [← hp.phase.connectDestroyed_iff]
  constructor
  · rintro ⟨t, ht⟩
    cases hd : (s.viewed c).connectDestroyed with
    | ok d => exact ⟨d, rfl⟩
    | error e =>
      have herror := onConnection_error (s := s)
        (g := fun c' => { c' with destroyed := c'.destroyed ++ [(s.loops c.ioLoop).eventHandling] })
        hc rfl rfl hd
      cases ht.symm.trans herror
  · rintro ⟨d, hd⟩
    obtain ⟨-, -, hclosed⟩ := hp.phase.connectDestroyed hd
    exact ⟨_, onConnection_record hc rfl rfl hd hclosed⟩

theorem Orderly.connectDestroyed (h : Orderly s) (ht : s.connectDestroyed l i = .ok t) :
    Orderly t ∧ ∃ d, t.conns i = some d ∧ d.destroyed ≠ [] := by
  cases hc : s.conns i with
  | none =>
    exfalso
    rw [ServerLoops.connectDestroyed, ServerLoops.onConnection] at ht
    simp [record, hc] at ht
  | some c =>
    by_cases hl : c.ioLoop = l
    · subst hl
      obtain ⟨p, hp⟩ := h.enrolled i c hc
      obtain ⟨hdestroyable, hidle⟩ := (h.connectDestroyed_iff hc rfl).mp ⟨t, ht⟩
      obtain ⟨d, hd⟩ := hp.phase.connectDestroyed_iff.mpr ⟨hdestroyable, hidle⟩
      obtain ⟨hnot, hpasses, hclosed⟩ := hp.phase.connectDestroyed hd
      have hput := onConnection_record (s := s)
        (g := fun c' => { c' with destroyed := c'.destroyed ++ [(s.loops c.ioLoop).eventHandling] })
        hc rfl rfl hd hclosed
      cases ht.symm.trans hput
      refine ⟨h.put hc hp rfl rfl ?_ hnot (by simp) hpasses, _, Function.update_self .., by simp⟩
      simp
    · exfalso
      rw [ServerLoops.connectDestroyed, ServerLoops.onConnection] at ht
      simp [record, hc, hl] at ht

/-! ### Steps -/

theorem Orderly.not_enters (h : Orderly s) {sockfd : Nat} (hkernel : KernelKeeps s (.accept sockfd))
    (l : Nat) : ¬ Enters (s.loops l).poller sockfd := by
  intro henters
  obtain ⟨i, c, hc, -, hfd, hdestroyed⟩ := h.wired.owned l sockfd henters
  exact hkernel.2 i (h.lt_accepted hc) c hc hdestroyed hfd

/-- A connection is entered whose descriptor is not in use. -/
theorem Orderly.entered (h : Orderly s) {sockfd : Nat} (hkernel : KernelKeeps s (.accept sockfd))
    (ioLoop : Nat) (threadPool : EventLoopThreadPool) :
    Orderly (s.entered ioLoop sockfd threadPool) := by
  have hsome : ∀ {i c}, s.conns i = some c → (s.entered ioLoop sockfd threadPool).conns i = some c := by
    intro i c hc
    rwa [entered_ne (h.lt_accepted hc).ne]
  have hcases : ∀ {i d}, (s.entered ioLoop sockfd threadPool).conns i = some d →
      i = s.accepted ∧ d = s.made ioLoop sockfd ∨ s.conns i = some d := by
    intro i d hd
    by_cases hi : i = s.accepted
    · subst hi
      exact .inl ⟨rfl, Option.some.inj (hd.symm.trans entered_self)⟩
    · exact .inr (by rwa [entered_ne hi] at hd)
  have hconns : ∀ i c, s.conns i = some c →
      ∃ d, (s.entered ioLoop sockfd threadPool).conns i = some d ∧ d.ioLoop = c.ioLoop ∧
        (Known c = true → Known d = true) :=
    fun i c hc => ⟨c, hsome hc, rfl, id⟩
  refine ⟨?_, ⟨?_, ?_⟩, ?_, ?_, h.idle, ?_⟩
  · intro i d hd
    rcases hcases hd with ⟨rfl, rfl⟩ | hc
    · refine ⟨.unopened, rfl, ⟨⟨rfl, rfl, rfl, rfl⟩, ?_⟩, by simp [made]⟩
      intro _
      have hnot := h.not_enters hkernel ioLoop
      rw [Enters, not_or, not_ne_iff, not_ne_iff] at hnot
      exact hnot
    · obtain ⟨p, hp⟩ := h.enrolled i d hc
      exact ⟨p, (Alike.refl d).enrolled hp rfl⟩
  · intro i j c d hc hd hlivec hlived hfd
    rcases hcases hc with ⟨rfl, rfl⟩ | hc
    · rcases hcases hd with ⟨rfl, -⟩ | hd
      · rfl
      · exact absurd hfd.symm (hkernel.2 j (h.lt_accepted hd) d hd hlived)
    · rcases hcases hd with ⟨rfl, rfl⟩ | hd
      · exact absurd hfd (hkernel.2 i (h.lt_accepted hc) c hc hlivec)
      · exact h.wired.fds i j c d hc hd hlivec hlived hfd
  · intro l fd henters
    obtain ⟨i, c, hc, hrest⟩ := h.wired.owned l fd henters
    exact ⟨i, c, hsome hc, hrest⟩
  · exact fun l f hf => (h.queueable l f hf).mono hconns
  · exact fun e he => (h.callable e he).mono hconns
  · intro i
    change _ ↔ i < s.accepted + 1
    by_cases hi : i = s.accepted
    · subst hi
      rw [entered_self]
      simp
    · rw [entered_ne hi, h.accepted]
      omega

theorem Orderly.newConnection (h : Orderly s) {sockfd : Nat}
    (hkernel : KernelKeeps s (.accept sockfd)) (ht : s.newConnection sockfd = .ok t) :
    Orderly t := by
  rw [newConnection_eq] at ht
  dsimp only at ht
  have hentered := h.entered hkernel s.threadPool.getNextLoop.1 s.threadPool.getNextLoop.2
  split at ht
  · exact hentered.connectEstablished ht
  · cases ht
    refine hentered.queueInLoop (f := .connectEstablished s.accepted) false
      ⟨_, entered_self, ?_, ?_⟩
    · exact fun hhop => by cases hhop
    · exact fun hf => by cases hf

/-- What the kernel has registered in a loop is a channel that listens. -/
theorem Orderly.interest (h : Orderly s) {fd : Nat} {entry : Nat × Events}
    (hentry : (s.loops l).poller.interest fd = some entry) :
    ∃ c, s.conns entry.1 = some c ∧ c.conn.channel.fd = fd ∧
      (s.loops l).poller.channels fd = some entry.1 ∧ c.destroyed = [] := by
  obtain ⟨i, c, hc, rfl, rfl, hdestroyed⟩ := h.wired.owned l fd (.inr (by simp [hentry]))
  obtain ⟨p, hp⟩ := h.enrolled i c hc
  have hholds := hp.phase.holds
  have htracks := hp.phase.tracks (hp.destroyed.mp hdestroyed)
  unfold EPollPoller.Tracks at htracks
  cases p with
  | listening =>
    rw [hholds.2.1] at htracks
    obtain rfl : entry = (c.conn.channel.ptr, c.conn.channel.events) :=
      Option.some.inj (hentry.symm.trans htracks.2)
    have hchannels : (s.loops c.ioLoop).poller.channels c.conn.channel.fd =
      some c.conn.channel.ptr := htracks.1
    dsimp only
    rw [hchannels, hp.ptr]
    exact ⟨c, hc, rfl, rfl, hdestroyed⟩
  | unopened | silenced | removed =>
    rw [hholds.2.1] at htracks
    exact absurd (hentry.symm.trans htracks.2) (by simp)

/-- The loop goes to another place, with at most the functors that it had. -/
theorem Orderly.goTo (h : Orderly s) {loop : EventLoop ServerFunctor} {place : RoundPlace}
    (hpoller : loop.poller = (s.loops l).poller)
    (hqueued : ∀ f ∈ ((s.setLoop l loop).setPlace l place).queued l, f ∈ s.queued l)
    (hidle : (∀ callbacks, place ≠ .handling callbacks) → loop.eventHandling = false) :
    Orderly ((s.setLoop l loop).setPlace l place) := by
  refine h.congr rfl ?_ ?_ (fun e he => .inl he) ?_ rfl
  · exact setLoop_field EventLoop.poller hpoller
  · intro l' f hf
    by_cases hl : l' = l
    · subst hl
      exact .inl (hqueued f hf)
    · exact .inl (by simpa [queued, setPlace, setLoop, hl] using hf)
  · intro l' hplaces
    by_cases hl : l' = l
    · subst hl
      simp only [setPlace, setLoop, Function.update_self] at hplaces ⊢
      exact hidle hplaces
    · simp only [setPlace, setLoop, Function.update_of_ne hl] at hplaces ⊢
      exact h.idle l' hplaces

theorem Orderly.poll (h : Orderly s) (hp : s.places l = .polling) {size : Nat}
    {ready : List (Nat × Events)} (hready : (ready.map Prod.fst).Nodup)
    (ht : s.poll l size ready = .ok t) : Orderly t := by
  have hleads : (s.loops l).poller.Leads s.heap := by
    intro fd entry hentry
    obtain ⟨c, hc, hfd, hknown, -⟩ := h.interest hentry
    exact ⟨hknown, c.conn.channel, by simp [heap, hc], hfd⟩
  obtain ⟨size', hpoll⟩ := hleads.poll hready size
  generalize (s.loops l).poller.epollWait size ready = events at hpoll
  rw [ServerLoops.poll, hpoll, ok_bind] at ht
  cases ht
  have hheap : Orderly (s.setHeap (EPollPoller.revised events s.heap)) := by
    refine h.alike ?_ ?_ (fun _ => rfl) (fun l f hf => .inl hf) (fun e he => .inl he) h.idle rfl
    · intro j d hd
      obtain ⟨c, revents, hc, rfl⟩ := of_setHeap_some hd
      exact ⟨c, hc, rfl, rfl, rfl, rfl, rfl, rfl, rfl, .inl rfl⟩
    · intro j c hc
      exact ⟨_, setHeap_some s events hc, rfl, rfl, rfl, rfl, rfl, rfl, rfl, .inl rfl⟩
  refine hheap.goTo rfl ?_ fun hnot => absurd rfl (hnot _)
  intro f hf
  simpa [queued, setPlace, setLoop, setHeap, hp] using hf

theorem Orderly.setPlace (h : Orderly s) {place : RoundPlace}
    (hqueued : ∀ f ∈ (s.setPlace l place).queued l, f ∈ s.queued l)
    (hidle : (∀ callbacks, place ≠ .handling callbacks) → (s.loops l).eventHandling = false) :
    Orderly (s.setPlace l place) := by
  have hsame : s.setLoop l (s.loops l) = s := by
    simp [setLoop]
  have hgo : Orderly ((s.setLoop l (s.loops l)).setPlace l place) :=
    h.goTo rfl (by rw [hsame]; exact hqueued) hidle
  rwa [hsame] at hgo

theorem Orderly.callback (h : Orderly s) {r : Buffer.ReadResult} {w : WriteResult}
    {k : ChannelCallback} (ht : s.callback l i r w k = .ok t) : Orderly t := by
  cases k with
  | closeCallback => exact h.onConnection (fun c p _ _ => TcpConnection.mild_handleClose p) ht
  | errorCallback =>
    cases ht
    exact h
  | readCallback => exact h.onConnection (fun c p _ _ => TcpConnection.mild_handleRead p r) ht
  | writeCallback => exact h.onConnection (fun c p _ _ => TcpConnection.mild_handleWrite p w) ht

theorem Orderly.runFunctor (h : Orderly s) {preceding : UInt8} {w : WriteResult}
    {f : ServerFunctor} (hf : Queueable s l f) (ht : s.runFunctor l preceding w f = .ok t) :
    Orderly t := by
  cases f with
  | connectEstablished i => exact h.connectEstablished ht
  | removeConnectionInLoop i =>
    change (if l = 0 then s.removeConnectionInLoop i else .error .fatal) = .ok t at ht
    split at ht
    · exact h.removeConnectionInLoop ht
    · cases ht
  | ofConnection i functor =>
    have hmild : functor ≠ .connectDestroyed →
        s.onConnection l i (TcpConnection.runFunctor preceding w · functor) = .ok t → Orderly t := by
      intro hnot hok
      refine h.onConnection ?_ hok
      intro c p hc hp
      obtain ⟨c', hc', hknown, -⟩ := hf
      cases hc.symm.trans hc'
      refine TcpConnection.mild_runFunctor (hp.known (hknown ?_)) preceding w hnot
      cases functor with
      | connectDestroyed => exact absurd rfl hnot
      | _ => rfl
    cases functor with
    | connectDestroyed => exact (h.connectDestroyed ht).1
    | sendInLoop _ | shutdownInLoop | forceCloseInLoop | writeCompleteCallback =>
      exact hmild (by simp) ht

theorem queued_calling {f : ServerFunctor} {rest : List ServerFunctor}
    (hplace : s.places l = .calling (f :: rest)) :
    s.queued l = f :: (s.setPlace l (.calling rest)).queued l := by
  simp [queued, ServerLoops.setPlace, hplace]

theorem Orderly.takeFunctor (h : Orderly s) {f : ServerFunctor} {rest : List ServerFunctor}
    (hplace : s.places l = .calling (f :: rest)) : Orderly (s.setPlace l (.calling rest)) := by
  refine h.setPlace ?_ fun _ => h.idle l (by simp [hplace])
  intro g hg
  rw [queued_calling hplace]
  exact List.mem_cons_of_mem f hg

theorem Orderly.step (h : Orderly s) {a : ServerStep} (hkernel : KernelKeeps s a)
    (ht : s.step a = .ok t) : Orderly t := by
  cases a with
  | accept sockfd =>
    dsimp only [ServerLoops.step] at ht
    split at ht
    · exact h.newConnection hkernel ht
    · cases ht
      exact h
  | poll l size ready =>
    dsimp only [ServerLoops.step] at ht
    split at ht
    · rename_i hplace
      exact h.poll hplace hkernel.1 ht
    · cases ht
      exact h
  | callback l r w =>
    dsimp only [ServerLoops.step] at ht
    split at ht
    · rename_i i k rest hplace
      refine Orderly.callback (h.setPlace ?_ fun hnot => absurd rfl (hnot rest)) ht
      intro f hf
      simpa [queued, ServerLoops.setPlace, hplace] using hf
    · cases ht
      exact h
  | beginRound l =>
    dsimp only [ServerLoops.step] at ht
    split at ht
    · rename_i hplace
      cases ht
      refine h.goTo ?_ ?_ fun _ => rfl
      · rfl
      · intro f hf
        simpa [queued, ServerLoops.setPlace, setLoop, hplace] using hf
    · cases ht
      exact h
  | functor l preceding w =>
    dsimp only [ServerLoops.step] at ht
    split at ht
    · rename_i f rest hplace
      have hf : Queueable s l f := h.queueable l f (by rw [queued_calling hplace]; simp)
      exact (h.takeFunctor hplace).runFunctor hf ht
    · cases ht
      exact h
  | endRound l =>
    dsimp only [ServerLoops.step] at ht
    split at ht
    · rename_i hplace
      cases ht
      refine h.goTo ?_ ?_ fun _ => h.idle l (by simp [hplace])
      · rfl
      · intro f hf
        simpa [queued, ServerLoops.setPlace, setLoop, hplace] using hf
    · cases ht
      exact h
  | send i msg =>
    dsimp only [ServerLoops.step] at ht
    split at ht
    · rename_i c hc
      cases ht
      split
      · rename_i hknown
        refine h.congr rfl (fun _ => rfl) (fun l f hf => .inl hf) ?_ h.idle rfl
        intro e he
        refine (List.mem_append.mp he).imp_right ?_
        intro he
        rw [List.mem_singleton.mp he]
        exact ⟨by simp, c, hc, hknown.1⟩
      · exact h
    · cases ht
      exact h
  | shutdown i =>
    dsimp only [ServerLoops.step] at ht
    split at ht
    · rename_i c hc
      cases ht
      split
      · rename_i hknown
        have halike : Alike c { c with conn := { c.conn with state := .kDisconnecting } } :=
          ⟨rfl, rfl, rfl, rfl, rfl, rfl, rfl, .inr ⟨.inl hknown.2, by simp⟩⟩
        refine h.setConn hc halike rfl rfl rfl ?_ rfl
        intro e he
        refine (List.mem_append.mp he).imp_right ?_
        intro he
        rw [List.mem_singleton.mp he]
        exact ⟨by simp, _, Function.update_self .., hknown.1⟩
      · exact h
    · cases ht
      exact h
  | queue k =>
    dsimp only [ServerLoops.step] at ht
    split at ht
    · rename_i i functor hcall
      obtain ⟨hnot, c, hc, hknown⟩ := h.callable _ (List.mem_of_getElem? hcall)
      dsimp only at hnot hc
      rw [hc] at ht
      cases ht
      have herase : Orderly { s with calls := s.calls.eraseIdx k } :=
        h.congr rfl (fun _ => rfl) (fun l f hf => .inl hf)
          (fun e he => .inl (List.mem_of_mem_eraseIdx he)) h.idle rfl
      exact herase.queueInLoop (f := .ofConnection i functor) false
        ⟨c, hc, fun _ => hknown, fun _ => rfl⟩
    · cases ht
      exact h
  | sendInLoop l i msg preceding w =>
    dsimp only [ServerLoops.step] at ht
    split at ht
    · split at ht
      · exact h.onConnection (fun c p _ _ => TcpConnection.mild_send p msg preceding w) ht
      · cases ht
        exact h
    · cases ht
      exact h
  | shutdownInLoop l i =>
    dsimp only [ServerLoops.step] at ht
    split at ht
    · split at ht
      · exact h.onConnection (fun c p _ _ => TcpConnection.mild_shutdown p) ht
      · cases ht
        exact h
    · cases ht
      exact h

theorem orderly_new (threads : Nat) (listenAddr : InetAddress) (nameArg : Bytes)
    (writeCompleteCallback : Bool) :
    Orderly (new threads listenAddr nameArg writeCompleteCallback) where
  enrolled i c hc := by cases hc
  wired := by
    constructor
    · intro i j c d hc
      cases hc
    · rintro l fd (h | h) <;> exact absurd rfl h
  queueable l f hf := by simp [queued, new, EventLoop.new] at hf
  callable e he := by cases he
  idle _ _ := rfl
  accepted i := by simp [new]

/-! ### Channels that have been removed -/

/-- Connection `i` is disconnected, without interest and in no poller, and the user has been told
once that it is down. -/
def TornDown (s : ServerLoops) (i : Nat) : Prop :=
  ∃ c, s.conns i = some c ∧ c.conn.state = .kDisconnected ∧
    c.conn.channel.events = Channel.kNoneEvent ∧ c.conn.channel.index = .kNew ∧
    (∀ l fd, (s.loops l).poller.channels fd ≠ some i ∧
      ∀ events, (s.loops l).poller.interest fd ≠ some (i, events)) ∧
    c.conn.connectionCalls.count false = 1

theorem Orderly.tornDown (h : Orderly s) (hc : s.conns i = some c) (hdestroyed : c.destroyed ≠ []) :
    TornDown s i := by
  obtain ⟨p, hp⟩ := h.enrolled i c hc
  obtain rfl : p = .removed := by
    by_contra hnot
    exact hdestroyed (hp.destroyed.mpr hnot)
  obtain ⟨hstate, hindex, hevents, htold⟩ := hp.phase.holds
  refine ⟨c, hc, hstate, hevents, hindex, ?_, ?_⟩
  · intro l fd
    constructor
    · intro hchannels
      obtain ⟨j, d, hd, rfl, rfl, hlive⟩ := h.wired.owned l fd (.inl (by simp [hchannels]))
      obtain ⟨q, hq⟩ := h.enrolled j d hd
      have hholds := hq.phase.holds
      have htracks := hq.phase.tracks (hq.destroyed.mp hlive)
      unfold EPollPoller.Tracks at htracks
      have hptr : q ≠ .unopened ∧ q ≠ .removed →
          (s.loops d.ioLoop).poller.channels d.conn.channel.fd = some d.conn.channel.ptr := by
        rintro ⟨hnot, hnot'⟩
        cases q with
        | unopened => exact absurd rfl hnot
        | removed => exact absurd rfl hnot'
        | listening | silenced =>
          rw [hholds.2.1] at htracks
          exact htracks.1
      cases q with
      | unopened | removed =>
        rw [hholds.2.1] at htracks
        exact absurd (hchannels.symm.trans htracks.1) (by simp)
      | listening | silenced =>
        have hsame := hchannels.symm.trans (hptr (by simp))
        rw [hq.ptr] at hsame
        obtain rfl := Option.some.inj hsame
        cases hc.symm.trans hd
        exact hdestroyed hlive
    · intro events hinterest
      obtain ⟨d, hd, -, -, hlive⟩ := h.interest hinterest
      cases hc.symm.trans hd
      exact hdestroyed hlive
  · have htold : c.conn.connectionCalls = [true, false] := htold
    rw [htold]
    rfl

end ServerLoops

end Mymuduo

import Mymuduo.Net.ServerInvariant

/-! What the steps of a server and its loops keep: each of them is taken without a fault, and takes
a connection at most to its next stage. -/

namespace Mymuduo

open Lib

namespace ServerLoops

variable {hand : Option (Nat × ServerFunctor)} {s : ServerLoops} {i l : Nat} {c : ServerConnection}

/-- The connection of a functor in hand that takes it to its next stage is at the stage before. -/
theorem Sound.of_hand {f : ServerFunctor} (hs : Sound (some (l, f)) s) (hhop : f.isHop = true) :
    ∃ c stage, s.conns f.conn = some c ∧ Lives (stage.next f.conn c.ioLoop) s f.conn c stage ∧
      stage.next f.conn c.ioLoop = some (l, f) ∧ stage.hop f.conn = some f := by
  have hdue : 0 < due (some (l, f)) s l f := by
    rw [due_hand, if_pos ⟨rfl, rfl⟩]
    omega
  obtain ⟨c, hc⟩ := Option.isSome_iff_exists.mp (hs.known l f hdue)
  obtain ⟨stage, hlives⟩ := hs.lives f.conn c hc
  have hhops := hlives.hops l f rfl hhop
  obtain ⟨hstage, hhome⟩ : stage.hop f.conn = some f ∧ f.home c.ioLoop = l := by
    by_contra hnot
    rw [if_neg hnot] at hhops
    omega
  have hnext : stage.next f.conn c.ioLoop = some (l, f) := by
    rw [Stage.next, hstage, Option.map_some, hhome]
  exact ⟨c, stage, hc, by rw [hnext]; exact hlives, hnext, hstage⟩

theorem eq_accepted {stage : Stage} (h : stage.hop i = some (.connectEstablished i)) :
    stage = .accepted := by
  cases stage <;> simp_all [Stage.hop]

theorem eq_closed {stage : Stage} (h : stage.hop i = some (.removeConnectionInLoop i)) :
    stage = .closed := by
  cases stage <;> simp_all [Stage.hop]

theorem eq_removed {stage : Stage} (h : stage.hop i = some (.ofConnection i .connectDestroyed)) :
    stage = .removed := by
  cases stage <;> simp_all [Stage.hop]

/-- A function of a connection that something has been recorded of. -/
theorem onConnection_record {f : TcpConnection → Except Fault TcpConnection} {d : TcpConnection}
    {g : ServerConnection → ServerConnection} (hc : s.conns i = some c)
    (hioLoop : (g c).ioLoop = c.ioLoop) (hconn : (g c).conn = c.conn)
    (hf : f (s.viewed c) = .ok d) (hsame : d.closeCalls = c.conn.closeCalls) :
    (s.record i g).onConnection c.ioLoop i f = .ok (s.put i (g c) d) := by
  have hrecorded : (s.record i g).conns i = some (g c) := by simp [record, hc]
  have hviewed : (s.record i g).viewed (g c) = s.viewed c := by
    simp [viewed, hconn, hioLoop, record]
  have hput : (s.record i g).put i (g c) d = s.put i (g c) d := by
    simp [put, setConn, setLoop, record]
  rw [← hput, ← hioLoop]
  exact onConnection_put hrecorded (by rw [hviewed]; exact hf) (by rw [hconn]; exact hsame)

/-- `connectEstablished` is called once, on a connection that has just been accepted. -/
theorem Sound.connectEstablished (hs : Sound (some (l, .connectEstablished i)) s) :
    ∃ s', s.connectEstablished l i = .ok s' ∧ Sound none s' ∧ s'.places = s.places := by
  obtain ⟨c, stage, hc, hlives, hnext, hhop⟩ := hs.of_hand rfl
  cases eq_accepted hhop
  dsimp only [ServerFunctor.conn] at hc hlives hnext
  obtain ⟨rfl, -⟩ : c.ioLoop = l ∧ _ := Prod.mk.inj (Option.some.inj hnext)
  obtain ⟨hstate, hindex, hevents⟩ := hlives.holds
  obtain ⟨d, hd, hup, hreg, htold, hclosed⟩ := TcpConnection.connectEstablished_exact
    (c := s.viewed c) hstate hindex hevents (hlives.tracks (by simp))
  have hdestroyed : c.destroyed = [] := hlives.destroyed
  have hmoves := hlives.moves .up { c with established := c.established + 1 } (by simp)
    hreg rfl (by simp [hlives.established, Stage.establishCalls])
    (hclosed.trans hlives.closeCalls) hlives.removed hlives.destroyed
    (by rw [htold]; exact congrArg (· ++ [true]) hlives.told) ⟨hup.state, hup.index, hup.events⟩
    hup.tracks
  refine ⟨_, onConnection_record hc rfl rfl hd hclosed, ?_, rfl⟩
  exact hs.moves .accepted hc hmoves hdestroyed hreg rfl rfl rfl
    (by simp [hlives.established, Stage.establishCalls]) (fun h => absurd hdestroyed h)
    (.inl hclosed)

theorem Sound.named_remove (hs : Sound hand s) (hc : s.conns i = some c)
    (hremoved : c.removed = 0) :
    Named ({ s with server :=
      { s.server with connections := Function.update s.server.connections c.name none } }.setConn i
        { c with removed := c.removed + 1 }) := by
  obtain ⟨haccepted, hnextConnId, hipPort, hname, hconnections⟩ := hs.named
  have hheld := (hconnections c.name i).mpr ⟨c, hc, rfl, hremoved⟩
  constructor
  · intro j
    by_cases hj : j = i
    · subst hj
      simpa [setConn, hc] using haccepted j
    · simpa [setConn, hj] using haccepted j
  · exact hnextConnId
  · exact hipPort
  · intro j d hd
    by_cases hj : j = i
    · subst hj
      simp only [setConn, Function.update_self, Option.some.injEq] at hd
      rw [← hd]
      exact hname j c hc
    · simp only [setConn, Function.update_of_ne hj] at hd
      exact hname j d hd
  · intro name j
    by_cases hn : name = c.name
    · subst hn
      simp only [setConn, Function.update_self, reduceCtorEq, false_iff]
      rintro ⟨d, hd, hdname, hdremoved⟩
      by_cases hj : j = i
      · subst hj
        simp only [Function.update_self, Option.some.injEq] at hd
        rw [← hd] at hdremoved
        cases hdremoved
      · rw [Function.update_of_ne hj] at hd
        have hother := (hconnections c.name j).mpr ⟨d, hd, hdname, hdremoved⟩
        exact hj (Option.some.inj (hother.symm.trans hheld))
    · simp only [setConn, Function.update_of_ne hn]
      rw [hconnections]
      by_cases hj : j = i
      · subst hj
        have hn' : c.name ≠ name := fun h => hn h.symm
        simp [hc, hn']
      · rw [Function.update_of_ne hj]

/-- `removeConnectionInLoop` finds the connection in `connections_`, and queues
`connectDestroyed`. -/
theorem Sound.removeConnectionInLoop (hs : Sound (some (0, .removeConnectionInLoop i)) s) :
    ∃ s', s.removeConnectionInLoop i = .ok s' ∧ Sound none s' ∧ s'.places = s.places := by
  obtain ⟨c, stage, hc, hlives, hnext, hhop⟩ := hs.of_hand rfl
  cases eq_closed hhop
  dsimp only [ServerFunctor.conn] at hc hlives hnext
  have hremoved : c.removed = 0 := hlives.removed
  have hheld := (hs.named.connections c.name i).mpr ⟨c, hc, rfl, hremoved⟩
  have hserver : s.server.removeConnectionInLoop c.name = .ok
      { s.server with connections := Function.update s.server.connections c.name none } := by
    rw [TcpServer.removeConnectionInLoop, hheld]
    rfl
  generalize ht : { s with server :=
    { s.server with connections := Function.update s.server.connections c.name none } }.setConn i
      { c with removed := c.removed + 1 } = t
  have htouches : Touches i c { c with removed := c.removed + 1 }
      (some (0, .removeConnectionInLoop i)) (Stage.next .removed i c.ioLoop) s t := by
    subst ht
    refine ⟨hc, rfl, rfl, rfl, id, id, fun l => .inl rfl, fun h h' => absurd h' h, ?_⟩
    intro l f hf
    rw [due_of_ne (forConn_next .removed i c.ioLoop) hf,
      due_of_ne (by simp [ForConn, ServerFunctor.conn]) hf]
    rfl
  have hmoved : Lives (Stage.next .removed i c.ioLoop) t i { c with removed := c.removed + 1 }
      .removed := by
    subst ht
    refine { hlives with removed := ?_, tracks := ?_, hops := ?_, others := ?_ }
    · rw [hremoved]
      rfl
    · exact fun _ => hlives.tracks (by simp)
    · intro l f hf hhop
      exact hlives.hops_next (fun _ _ => rfl) hf hhop
    · intro l f hf hhop hpos
      exact hlives.others_next (fun _ _ => rfl) (by simp) hf hhop hpos
  have hsound : Sound (some (c.ioLoop, .ofConnection i .connectDestroyed)) t := by
    refine hs.touch htouches ⟨.removed, hmoved⟩ (by subst ht; rfl) ?_ ?_
    · exact htouches.rounds hs.rounds (by subst ht; rfl) (by subst ht; exact fun _ => rfl) (.inl rfl)
    · subst ht
      exact hs.named_remove hc hremoved
  refine ⟨t.queueInLoop c.ioLoop (c.ioLoop == 0) (.ofConnection i .connectDestroyed), ?_,
    hsound.queueInLoop _, ?_⟩
  · rw [ServerLoops.removeConnectionInLoop, hc]
    dsimp only
    rw [hserver, ok_bind, ht]
    rfl
  · subst ht
    rfl

/-- A connection that has been closed is taken out of `connections_`, at once or by a functor. -/
theorem Sound.removeConnection (hs : Sound (some (0, .removeConnectionInLoop i)) s) (l : Nat) :
    ∃ s', s.removeConnection l i = .ok s' ∧ Sound none s' ∧ s'.places = s.places := by
  unfold ServerLoops.removeConnection
  split
  · exact hs.removeConnectionInLoop
  · exact ⟨_, rfl, hs.queueInLoop false, rfl⟩

/-- A function that closes an established connection. -/
theorem Sound.closing (hs : Sound none s) (hc : s.conns i = some c)
    (hlives : Lives none s i c .up)
    (hlast : ∀ l callbacks, s.places l = .handling callbacks → ∀ e ∈ callbacks, e.1 = i →
      mayClose e.2 = false)
    {f : TcpConnection → Except Fault TcpConnection} {d : TcpConnection}
    (hf : f (s.viewed c) = .ok d) (hdown : TcpConnection.Down d)
    (hreg : TcpConnection.Registers (s.viewed c) d)
    (htold : d.connectionCalls = c.conn.connectionCalls ++ [false])
    (hclosed : d.closeCalls = c.conn.closeCalls + 1) :
    ∃ s', s.onConnection c.ioLoop i f = .ok s' ∧ Sound none s' ∧ s'.places = s.places := by
  have hdestroyed : c.destroyed = [] := hlives.destroyed
  have hup : Lives (Stage.next .up i c.ioLoop) s i c .up := hlives
  have hmoves :
      Lives (Stage.next .closed i c.ioLoop) (s.put i c d) i { c with conn := d } .closed :=
    hup.moves .closed c (by simp) hreg rfl hlives.established
      (by rw [hclosed, hlives.closeCalls]; rfl) hlives.removed hlives.destroyed
      (by rw [htold, hlives.told]; rfl) ⟨hdown.state, hdown.index, hdown.events⟩ hdown.tracks
  have hsound := hs.moves .up hc hmoves hdestroyed hreg rfl rfl rfl id
    (fun h => absurd hdestroyed h) (.inr hlast)
  rw [onConnection_close hc hf hclosed]
  exact hsound.removeConnection c.ioLoop

/-- `connectDestroyed` is called once, on a connection that is no longer in `connections_`, outside
the handling of events. -/
theorem Sound.connectDestroyed (hs : Sound (some (l, .ofConnection i .connectDestroyed)) s)
    (hidle : (s.loops l).eventHandling = false) :
    ∃ s', s.connectDestroyed l i = .ok s' ∧ Sound none s' ∧ s'.places = s.places := by
  obtain ⟨c, stage, hc, hlives, hnext, hhop⟩ := hs.of_hand rfl
  cases eq_removed hhop
  dsimp only [ServerFunctor.conn] at hc hlives hnext
  obtain ⟨rfl, -⟩ : c.ioLoop = l ∧ _ := Prod.mk.inj (Option.some.inj hnext)
  obtain ⟨hstate, hindex, hevents⟩ := hlives.holds
  have hdown : TcpConnection.Down (s.viewed c) :=
    ⟨hstate, hindex, hevents, hlives.tracks (by simp)⟩
  have hinactive : (view (s.loops c.ioLoop)).eventHandling = true →
      c.conn.channel.ptr ∉ (view (s.loops c.ioLoop)).activeChannels := by
    intro hhandling
    rw [show (view (s.loops c.ioLoop)).eventHandling = false from hidle] at hhandling
    cases hhandling
  obtain ⟨d, hd, hgone, hreg, htold, hclosed⟩ :=
    TcpConnection.connectDestroyed_exact (.inr hdown) hinactive
  rw [if_neg (by rw [hdown.state]; simp), List.append_nil] at htold
  have hdestroyed : c.destroyed = [] := hlives.destroyed
  generalize hc₁ : { c with destroyed := c.destroyed ++ [(s.loops c.ioLoop).eventHandling] } = c₁
  have hmoves : Lives (Stage.next .destroyed i c.ioLoop) (s.put i c₁ d) i { c₁ with conn := d }
      .destroyed := by
    subst hc₁
    refine hlives.moves .destroyed _ (by simp) hreg rfl
      hlives.established (hclosed.trans hlives.closeCalls) hlives.removed ?_
      (htold.trans hlives.told) ⟨hgone.state, hgone.index, hgone.events⟩ hgone.tracks
    rw [hdestroyed, hidle]
    rfl
  have hunknown : ¬ Enters d.loop.poller c.conn.channel.fd := by
    rw [show c.conn.channel.fd = d.channel.fd from hreg.fd.symm]
    exact not_enters hgone
  refine ⟨s.put i c₁ d, ?_, ?_, rfl⟩
  · subst hc₁
    exact onConnection_record
      (g := fun c' => { c' with destroyed := c'.destroyed ++ [(s.loops c.ioLoop).eventHandling] })
      hc rfl rfl hd hclosed
  · subst hc₁
    exact hs.moves .removed hc hmoves hdestroyed hreg rfl rfl rfl id (fun _ => hunknown)
      (.inl hclosed)

/-- A functor that is called outside the handling of events. -/
theorem Sound.runFunctor {f : ServerFunctor} (hs : Sound (some (l, f)) s)
    (hidle : (s.loops l).eventHandling = false) (preceding : UInt8) (w : WriteResult) :
    ∃ s', s.runFunctor l preceding w f = .ok s' ∧ Sound none s' ∧ s'.places = s.places := by
  cases f with
  | connectEstablished i => exact hs.connectEstablished
  | removeConnectionInLoop i =>
    obtain ⟨c, stage, -, -, hnext, hhop⟩ := hs.of_hand rfl
    cases eq_closed hhop
    obtain ⟨rfl, -⟩ : 0 = l ∧ _ := Prod.mk.inj (Option.some.inj hnext)
    exact hs.removeConnectionInLoop
  | ofConnection i g =>
    by_cases hhop : (ServerFunctor.ofConnection i g).isHop = true
    · cases g with
      | connectDestroyed => exact hs.connectDestroyed hidle
      | _ => cases hhop
    · have hdue : 0 < due (some (l, .ofConnection i g)) s l (.ofConnection i g) := by
        rw [due_hand, if_pos ⟨rfl, rfl⟩]
        omega
      obtain ⟨c, hc⟩ := Option.isSome_iff_exists.mp (hs.known l _ hdue)
      obtain ⟨stage, hlives⟩ := hs.lives i c hc
      obtain ⟨rfl, hstage, hforce⟩ := hlives.others l _ rfl (by simpa using hhop) hdue
      have hserves : TcpConnection.Serves g = true := by
        cases g with
        | forceCloseInLoop => exact absurd rfl hforce
        | connectDestroyed => exact absurd rfl hhop
        | _ => rfl
      have hestablished : c.established = 1 := by
        rw [hlives.established]
        cases stage <;> first | rfl | exact absurd rfl hstage
      have hrun : s.runFunctor c.ioLoop preceding w (.ofConnection i g) =
          s.onConnection c.ioLoop i (TcpConnection.runFunctor preceding w · g) := by
        cases g with
        | connectDestroyed => cases hserves
        | _ => rfl
      rw [hrun]
      refine hs.stays hc hestablished ?_ fun hup => hup.runFunctor hserves preceding w
      intro p hp
      cases hp
      exact ⟨rfl, g, rfl, hserves⟩

/-! ### Callbacks -/

theorem handleRead_cases {c : TcpConnection} (hup : TcpConnection.Up c) (r : Buffer.ReadResult) :
    ∃ d, handleRead r c = .ok d ∧ (TcpConnection.Stays c d ∨ TcpConnection.Down d ∧
      TcpConnection.Registers c d ∧ d.connectionCalls = c.connectionCalls ++ [false] ∧
      d.closeCalls = c.closeCalls + 1) := by
  have hread : ∃ n buffer, c.inputBuffer.readFd r = .ok (n, buffer) := by
    cases r with
    | error => exact ⟨_, _, rfl⟩
    | data bytes =>
      obtain ⟨buffer, hbuffer, -⟩ := c.inputBuffer.readFd_data_spec bytes
      exact ⟨_, _, hbuffer⟩
  obtain ⟨n, buffer, hread⟩ := hread
  have hup' : TcpConnection.Up { c with inputBuffer := buffer } :=
    ⟨hup.state, hup.index, hup.events, hup.tracks⟩
  have hstays : TcpConnection.Stays c { c with inputBuffer := buffer } :=
    ⟨⟨rfl, rfl, rfl, rfl, .refl _ _, .of_eq rfl⟩, .inl ⟨hup, hup'⟩⟩
  by_cases hzero : n = 0
  · obtain ⟨d, hd, hdown, hreg, htold, hclosed⟩ := hup'.handleClose
    refine ⟨d, ?_, .inr ⟨hdown, ⟨hreg.ptr, hreg.fd, hreg.poller, hreg.loop⟩, htold, hclosed⟩⟩
    simp [handleRead, TcpConnection.handleRead, hread, hzero, TcpConnection.withContext, hd]
  · refine ⟨{ c with inputBuffer := buffer }, ?_, .inl hstays⟩
    simp [handleRead, TcpConnection.handleRead, hread, hzero]

theorem Sound.callback (hs : Sound none s) (hc : s.conns i = some c)
    (hestablished : c.established = 1) {k : ChannelCallback}
    (hopen : mayClose k = true → c.conn.closeCalls = 0 ∧ ∀ l callbacks,
      s.places l = .handling callbacks → ∀ e ∈ callbacks, e.1 = i → mayClose e.2 = false)
    (r : Buffer.ReadResult) (w : WriteResult) :
    ∃ s', s.callback c.ioLoop i r w k = .ok s' ∧ Sound none s' := by
  obtain ⟨stage, hlives⟩ := hs.lives i c hc
  have hup : mayClose k = true → stage = .up := by
    intro hk
    have hzero := hlives.closeCalls.symm.trans (hopen hk).1
    have hone := hlives.established.symm.trans hestablished
    cases stage with
    | up => rfl
    | accepted => cases hone
    | closed | removed | destroyed => cases hzero
  cases k with
  | closeCallback =>
    cases hup rfl
    obtain ⟨hstate, hindex, hevents⟩ := hlives.holds
    obtain ⟨d, hd, hdown, hreg, htold, hclosed⟩ := TcpConnection.Up.handleClose
      (c := s.viewed c) ⟨hstate, hindex, hevents, hlives.tracks (by simp)⟩
    obtain ⟨s', hs', hsound, -⟩ := hs.closing hc hlives (hopen rfl).2 hd hdown hreg htold hclosed
    exact ⟨s', hs', hsound⟩
  | errorCallback => exact ⟨s, rfl, hs⟩
  | readCallback =>
    cases hup rfl
    obtain ⟨hstate, hindex, hevents⟩ := hlives.holds
    obtain ⟨d, hd, hstays | ⟨hdown, hreg, htold, hclosed⟩⟩ := handleRead_cases
      (c := s.viewed c) ⟨hstate, hindex, hevents, hlives.tracks (by simp)⟩ r
    · obtain ⟨s', hs', hsound, -⟩ := hs.stays hc hestablished (by simp [Serving])
        (fun _ => ⟨d, hd, hstays⟩)
      exact ⟨s', hs', hsound⟩
    · obtain ⟨s', hs', hsound, -⟩ := hs.closing hc hlives (hopen rfl).2 hd hdown hreg htold hclosed
      exact ⟨s', hs', hsound⟩
  | writeCallback =>
    obtain ⟨s', hs', hsound, -⟩ := hs.stays hc hestablished (by simp [Serving])
      (fun hup => hup.handleWrite w)
    exact ⟨s', hs', hsound⟩

/-! ### The rounds of a loop -/

/-- What a place of loop `l` says of the loop and of the connections. -/
def Fitting (s : ServerLoops) (l : Nat) (loop : EventLoop ServerFunctor) : RoundPlace → Prop
  | .handling callbacks =>
    (∀ e ∈ callbacks, ∃ c, s.conns e.1 = some c ∧ c.ioLoop = l ∧ c.established = 1 ∧
      (mayClose e.2 = true → c.conn.closeCalls = 0)) ∧
    ((callbacks.filter fun e => mayClose e.2).map Prod.fst).Nodup
  | _ => loop.eventHandling = false

/-- A step of loop `l` that changes no connection. -/
theorem Rounds.at_loop {s' : ServerLoops} (hs : s.Rounds) (hconns : s'.conns = s.conns)
    (hplaces : ∀ l' ≠ l, s'.places l' = s.places l')
    (hloops : ∀ l' ≠ l, (s'.loops l').eventHandling = (s.loops l').eventHandling)
    (hl : Fitting s l (s'.loops l) (s'.places l)) : s'.Rounds := by
  constructor
  · intro l' callbacks hcallbacks
    rw [hconns]
    by_cases hll : l' = l
    · subst hll
      rwa [hcallbacks] at hl
    · rw [hplaces l' hll] at hcallbacks
      exact hs.handling l' callbacks hcallbacks
  · intro l' hnot
    by_cases hll : l' = l
    · subst hll
      cases hp : s'.places l' with
      | handling callbacks => exact absurd hp (hnot callbacks)
      | polling | calling functors =>
        rw [hp] at hl
        exact hl
    · rw [hloops l' hll]
      exact hs.idle l' fun callbacks hcallbacks =>
        hnot callbacks (by rw [hplaces l' hll]; exact hcallbacks)

/-- The next functor of a round is taken in hand. -/
theorem Sound.takeFunctor (hs : Sound none s) {f : ServerFunctor} {rest : List ServerFunctor}
    (hp : s.places l = .calling (f :: rest)) :
    Sound (some (l, f)) (s.setPlace l (.calling rest)) := by
  refine hs.congr ?_ rfl (fun _ => rfl) (fun e he => he) rfl rfl ?_
  · intro l' g
    rw [due_hand]
    by_cases hl : l' = l
    · subst hl
      simp [due, queued, setPlace, hp, List.count_cons]
    · have hl' : l ≠ l' := fun h => hl h.symm
      simp [due, queued, setPlace, hl, hl']
  · refine hs.rounds.at_loop (l := l) rfl (fun l' hl => by simp [setPlace, hl])
      (fun _ _ => rfl) ?_
    rw [show (s.setPlace l (.calling rest)).places l = .calling rest by simp [setPlace]]
    exact hs.rounds.idle l (by simp [hp])

/-- The next callback of a round is taken. -/
theorem Sound.takeCallback (hs : Sound none s) {e : Nat × ChannelCallback}
    {rest : List (Nat × ChannelCallback)} (hp : s.places l = .handling (e :: rest)) :
    Sound none (s.setPlace l (.handling rest)) := by
  refine hs.congr ?_ rfl (fun _ => rfl) (fun e he => he) rfl rfl ?_
  · intro l' g
    by_cases hl : l' = l
    · subst hl
      simp [due, queued, setPlace, hp]
    · simp [due, queued, setPlace, hl]
  · obtain ⟨hknown, hnodup⟩ := hs.rounds.handling l _ hp
    refine hs.rounds.at_loop (l := l) rfl (fun l' hl => by simp [setPlace, hl])
      (fun _ _ => rfl) ?_
    rw [show (s.setPlace l (.handling rest)).places l = .handling rest by simp [setPlace]]
    exact ⟨fun e' he' => hknown e' (List.mem_cons_of_mem _ he'),
      hnodup.sublist (((List.sublist_cons_self e rest).filter _).map _)⟩

/-- The callback that has been taken is the last one that may close its connection. -/
theorem Sound.last_callback (hs : Sound none s) {k : ChannelCallback}
    {rest : List (Nat × ChannelCallback)} (hp : s.places l = .handling ((i, k) :: rest)) :
    ∃ c, s.conns i = some c ∧ c.ioLoop = l ∧ c.established = 1 ∧
      (mayClose k = true → c.conn.closeCalls = 0 ∧ ∀ l' callbacks,
        (s.setPlace l (.handling rest)).places l' = .handling callbacks → ∀ e ∈ callbacks,
          e.1 = i → mayClose e.2 = false) := by
  obtain ⟨hknown, hnodup⟩ := hs.rounds.handling l _ hp
  obtain ⟨c, hc, hioLoop, hestablished, hopen⟩ := hknown (i, k) List.mem_cons_self
  refine ⟨c, hc, hioLoop, hestablished, fun hk => ⟨hopen hk, ?_⟩⟩
  intro l' callbacks hl e he hei
  by_cases hll : l' = l
  · subst hll
    simp only [setPlace, Function.update_self, RoundPlace.handling.injEq] at hl
    subst hl
    by_contra hclose
    have hmem : e ∈ rest.filter fun e => mayClose e.2 :=
      List.mem_filter.mpr ⟨he, by simpa using hclose⟩
    have hfilter : ((i, k) :: rest).filter (fun e => mayClose e.2) =
        (i, k) :: rest.filter fun e => mayClose e.2 := by simp [hk]
    rw [hfilter, List.map_cons, List.nodup_cons] at hnodup
    exact hnodup.1 (List.mem_map.mpr ⟨e, hmem, hei⟩)
  · -- The connection has callbacks in its own loop only.
    have hl' : s.places l' = .handling callbacks := by simpa [setPlace, hll] using hl
    obtain ⟨d, hd, hioLoop', -, -⟩ := (hs.rounds.handling l' callbacks hl').1 e he
    rw [hei] at hd
    cases hc.symm.trans hd
    exact absurd (hioLoop'.symm.trans hioLoop) hll

/-- The loop goes to another place, and no functor is lost. -/
theorem Sound.goTo (hs : Sound none s) {loop : EventLoop ServerFunctor} {place : RoundPlace}
    (hpoller : loop.poller = (s.loops l).poller)
    (hqueued : ((s.setLoop l loop).setPlace l place).queued l = s.queued l)
    (hplace : Fitting s l loop place) : Sound none ((s.setLoop l loop).setPlace l place) := by
  refine hs.congr ?_ rfl ?_ (fun e he => he) rfl rfl ?_
  · intro l' g
    by_cases hl : l' = l
    · rw [hl, due, due, hqueued]
    · simp [due, queued, setPlace, setLoop, hl]
  · intro l'
    by_cases hl : l' = l
    · subst hl
      simpa [setPlace, setLoop] using hpoller
    · simp [setPlace, setLoop, hl]
  · refine hs.rounds.at_loop (l := l) rfl (fun l' hl => by simp [setPlace, setLoop, hl])
      (fun l' hl => by simp [setPlace, setLoop, hl]) ?_
    rw [show ((s.setLoop l loop).setPlace l place).places l = place by simp [setPlace],
      show ((s.setLoop l loop).setPlace l place).loops l = loop by simp [setPlace, setLoop]]
    exact hplace

theorem Sound.beginRound (hs : Sound none s) (hp : s.places l = .handling []) :
    Sound none ((s.setLoop l
      { s.loops l with
        eventHandling := false
        callingPendingFunctors := true
        pendingFunctors := [] }).setPlace l (.calling (s.loops l).pendingFunctors)) :=
  hs.goTo rfl (by simp [queued, setPlace, setLoop, hp]) rfl

theorem Sound.endRound (hs : Sound none s) (hp : s.places l = .calling []) :
    Sound none ((s.setLoop l { s.loops l with callingPendingFunctors := false }).setPlace l
      .polling) :=
  hs.goTo rfl (by simp [queued, setPlace, setLoop, hp]) (hs.rounds.idle l (by simp [hp]))

/-! ### Calls of the user -/

/-- The user knows a connection that has been established. -/
theorem Lives.known {stage : Stage} (h : Lives hand s i c stage) (hknown : Known c = true) :
    stage ≠ .accepted ∧ c.established = 1 := by
  have htold := h.told
  have hstage : stage ≠ .accepted := by
    rintro rfl
    rw [Known, htold] at hknown
    simp [Stage.establishCalls, Stage.closeCalls] at hknown
  refine ⟨hstage, ?_⟩
  rw [h.established]
  cases stage <;> first | rfl | exact absurd rfl hstage

/-- A call of `send` or `shutdown` has tested `state_`. -/
theorem Sound.addCall (hs : Sound none s) (hc : s.conns i = some c) (hknown : Known c = true)
    {functor : TcpFunctor} (hserves : TcpConnection.Serves functor = true) :
    Sound none { s with calls := s.calls ++ [(i, functor)] } := by
  obtain ⟨stage, hlives⟩ := hs.lives i c hc
  refine ⟨?_, hs.known, ?_, ⟨hs.rounds.handling, hs.rounds.idle⟩, ⟨hs.wired.fds, hs.wired.owned⟩,
    ⟨hs.named.accepted, hs.named.nextConnId, hs.named.ipPort, hs.named.name, hs.named.connections⟩⟩
  · intro j d hd
    obtain ⟨stage', hlives'⟩ := hs.lives j d hd
    exact ⟨stage', { hlives' with
      tracks := hlives'.tracks
      hops := hlives'.hops
      others := hlives'.others }⟩
  · intro e he
    rcases List.mem_append.mp he with he | he
    · exact hs.calls e he
    · rw [List.mem_singleton] at he
      subst he
      exact ⟨hserves, c, hc, (hlives.known hknown).2⟩

/-- `shutdown` sets `state_` on any thread. -/
theorem Sound.setDisconnecting (hs : Sound none s) (hc : s.conns i = some c)
    (hstate : c.conn.state = .kConnected) :
    Sound none (s.setConn i { c with conn := { c.conn with state := .kDisconnecting } }) := by
  obtain ⟨stage, hlives⟩ := hs.lives i c hc
  have hup : stage = .up := by
    have hholds := hlives.holds
    cases stage with
    | up => rfl
    | accepted | closed | removed | destroyed => exact absurd (hholds.1.symm.trans hstate) (by simp)
  subst hup
  have ht : Touches i c { c with conn := { c.conn with state := .kDisconnecting } } none none s
      (s.setConn i { c with conn := { c.conn with state := .kDisconnecting } }) :=
    ⟨hc, rfl, rfl, rfl, id, id, fun l => .inl rfl, fun h h' => absurd h' h, fun _ _ _ => rfl⟩
  refine hs.touch ht ⟨.up, ?_⟩ rfl ?_ ?_
  · exact { hlives with
      holds := ⟨.inr rfl, hlives.holds.2⟩
      tracks := hlives.tracks
      hops := hlives.hops
      others := hlives.others }
  · exact ht.rounds hs.rounds rfl (fun _ => rfl) (.inl rfl)
  · exact ht.named hs.named rfl rfl rfl rfl

/-- A functor that leaves the connection at its stage is about to be queued. -/
theorem Sound.hold (hs : Sound none s) (hc : s.conns i = some c) (hestablished : c.established = 1)
    {functor : TcpFunctor} (hserves : TcpConnection.Serves functor = true) :
    Sound (some (c.ioLoop, .ofConnection i functor)) s := by
  have hserving : Serving i c.ioLoop (some (c.ioLoop, .ofConnection i functor)) := by
    intro p hp
    cases hp
    exact ⟨rfl, functor, rfl, hserves⟩
  refine { hs with lives := ?_, known := ?_ }
  · intro j d hd
    obtain ⟨stage, hlives⟩ := hs.lives j d hd
    refine ⟨stage, { hlives with hops := ?_, others := ?_ }⟩
    · intro l f hf hhop
      rw [hserving.due_hop hhop]
      exact hlives.hops l f hf hhop
    · intro l f hf hhop hpos
      rw [due_hand] at hpos
      split at hpos
      case isFalse => exact hlives.others l f hf hhop (by omega)
      case isTrue hhand =>
        obtain ⟨rfl, rfl⟩ := hhand
        obtain rfl : i = j := hf
        cases hc.symm.trans hd
        refine ⟨rfl, ?_, ?_⟩
        · rintro rfl
          exact absurd (hlives.established.symm.trans hestablished) (by simp [Stage.establishCalls])
        · intro hforce
          cases hforce
          cases hserves
  · intro l f hpos
    rw [due_hand] at hpos
    split at hpos
    case isFalse => exact hs.known l f (by omega)
    case isTrue hhand =>
      rw [← hhand.2]
      exact Option.isSome_iff_exists.mpr ⟨c, hc⟩

/-- A call that has tested `state_` queues its functor. -/
theorem Sound.queueCall (hs : Sound none s) {k : Nat} {functor : TcpFunctor}
    (hcall : s.calls[k]? = some (i, functor)) :
    ∃ c, s.conns i = some c ∧ Sound none
      (ServerLoops.queueInLoop { s with calls := s.calls.eraseIdx k } c.ioLoop false
        (.ofConnection i functor)) := by
  obtain ⟨hserves, c, hc, hestablished⟩ := hs.calls _ (List.mem_of_getElem? hcall)
  refine ⟨c, hc, Sound.queueInLoop ?_ false⟩
  refine (hs.hold hc hestablished hserves).congr (fun _ _ => rfl) rfl (fun _ => rfl) ?_ rfl rfl ?_
  · exact fun e he => List.mem_of_mem_eraseIdx he
  · exact hs.rounds.congr rfl rfl fun _ => rfl

end ServerLoops

end Mymuduo

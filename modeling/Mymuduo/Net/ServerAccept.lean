import Mymuduo.Net.ServerPoll

/-! A server accepts a connection: it is numbered and named after the last one, held in
`connections_`, and established by a loop of its own. -/

namespace Mymuduo.ServerLoops

open Lib

variable {hand : Option (Nat × ServerFunctor)} {s : ServerLoops} {i l : Nat} {c : ServerConnection}

/-- The connection that `newConnection` makes. -/
def made (s : ServerLoops) (ioLoop sockfd : Nat) : ServerConnection where
  name := s.server.connName
  ioLoop := ioLoop
  conn := .new (view (s.loops ioLoop)) s.accepted sockfd s.writeCompleteCallback
  established := 0
  removed := 0
  destroyed := []

/-- The server when it has entered the connection. -/
def entered (s : ServerLoops) (ioLoop sockfd : Nat) (threadPool : EventLoopThreadPool) :
    ServerLoops :=
  setConn
    { s with
      threadPool := threadPool
      server := s.server.newConnection s.accepted
      accepted := s.accepted + 1 } s.accepted (s.made ioLoop sockfd)

variable {ioLoop sockfd : Nat} {threadPool : EventLoopThreadPool}

theorem entered_self :
    (s.entered ioLoop sockfd threadPool).conns s.accepted = some (s.made ioLoop sockfd) := by
  simp [entered, setConn]

theorem entered_ne (hi : i ≠ s.accepted) :
    (s.entered ioLoop sockfd threadPool).conns i = s.conns i := by
  simp [entered, setConn, hi]

/-- The number of a connection is below that of the next one. -/
theorem Sound.lt_accepted (hs : Sound hand s) (hc : s.conns i = some c) : i < s.accepted :=
  (hs.named.accepted i).mp (by rw [hc]; rfl)

theorem Sound.entered_some (hs : Sound hand s) (hc : s.conns i = some c) :
    (s.entered ioLoop sockfd threadPool).conns i = some c := by
  rw [entered_ne (hs.lt_accepted hc).ne]
  exact hc

theorem Sound.unused (hs : Sound hand s) (hkernel : KernelKeeps s (.accept sockfd)) (l : Nat) :
    ¬ Enters (s.loops l).poller sockfd := by
  intro henters
  obtain ⟨i, c, hc, -, hfd, hdestroyed⟩ := hs.wired.owned l sockfd henters
  exact hkernel.2 i (hs.lt_accepted hc) c hc hdestroyed hfd

/-- Nothing is queued yet for the next connection. -/
theorem Sound.due_accepted (hs : Sound none s) (l : Nat) {f : ServerFunctor}
    (hf : f.conn = s.accepted) : due none s l f = 0 := by
  by_contra hpos
  have hsome := hs.known l f (by omega)
  rw [hf, hs.named.accepted] at hsome
  exact lt_irrefl _ hsome

theorem Sound.lives_made (hs : Sound none s) (hkernel : KernelKeeps s (.accept sockfd)) :
    Lives (some (ioLoop, .connectEstablished s.accepted)) (s.entered ioLoop sockfd threadPool)
      s.accepted (s.made ioLoop sockfd) .accepted := by
  have hunused := hs.unused hkernel ioLoop
  rw [Enters, not_or, not_not, not_not] at hunused
  refine ⟨rfl, rfl, rfl, rfl, rfl, rfl, ⟨rfl, rfl, rfl⟩, fun _ => hunused, ?_, ?_⟩
  · intro l f hf hhop
    have hnone : due none (s.entered ioLoop sockfd threadPool) l f = 0 := hs.due_accepted l hf
    rw [due_hand, hnone, Nat.zero_add]
    by_cases hfe : ServerFunctor.connectEstablished s.accepted = f
    · subst hfe
      simp [Stage.hop, ServerFunctor.home, made]
    · simp [Stage.hop, hfe]
  · intro l f hf hhop hpos
    have hnone : due none (s.entered ioLoop sockfd threadPool) l f = 0 := hs.due_accepted l hf
    rw [due_hand, hnone, Nat.zero_add] at hpos
    split at hpos
    case isTrue hhand =>
      rw [← hhand.2] at hhop
      cases hhop
    case isFalse => exact absurd hpos (lt_irrefl 0)

theorem Sound.named_entered (hs : Sound none s) (hkernel : s.accepted + 1 < 2 ^ 31) :
    Named (s.entered ioLoop sockfd threadPool) := by
  have hnext := hs.named.nextConnId hkernel
  have hname : s.server.connName = { s.server with nextConnId := s.accepted + 1 }.connName := by
    rw [← hnext]
  constructor
  · intro i
    by_cases hi : i = s.accepted
    · subst hi
      simp [entered, setConn]
    · rw [entered_ne hi, hs.named.accepted]
      change i < s.accepted ↔ i < s.accepted + 1
      omega
  · intro hfew
    change TcpServer.increment s.server.nextConnId = ((s.accepted + 1 : Nat) : Int) + 1
    change s.accepted + 1 + 1 < 2 ^ 31 at hfew
    rw [hnext, TcpServer.increment, Int.bmod_eq_of_le (by omega) (by omega)]
    omega
  · exact hs.named.ipPort
  · intro i c hc
    by_cases hi : i = s.accepted
    · subst hi
      cases entered_self.symm.trans hc
      exact ⟨hname, hkernel⟩
    · rw [entered_ne hi] at hc
      exact hs.named.name i c hc
  · intro name i
    change Function.update s.server.connections s.server.connName (some s.accepted) name =
      some i ↔ _
    by_cases hn : name = s.server.connName
    · subst hn
      rw [Function.update_self]
      constructor
      · intro hi
        cases hi
        exact ⟨s.made ioLoop sockfd, entered_self, rfl, rfl⟩
      · rintro ⟨c, hc, hcname, -⟩
        by_cases hi : i = s.accepted
        · rw [hi]
        · rw [entered_ne hi] at hc
          obtain ⟨hown, hbound⟩ := hs.named.name i c hc
          rw [hown, hname] at hcname
          exact absurd (TcpServer.connName_injective hs.named.ipPort hbound hkernel hcname) hi
    · rw [Function.update_of_ne hn, hs.named.connections]
      by_cases hi : i = s.accepted
      · subst hi
        have hnone : s.conns s.accepted = none := by
          by_contra hsome
          have hlt := (hs.named.accepted s.accepted).mp (Option.isSome_iff_ne_none.mpr hsome)
          exact lt_irrefl _ hlt
        rw [hnone, entered_self]
        simp only [reduceCtorEq, false_and, exists_false, false_iff]
        rintro ⟨c, hc, hcname, -⟩
        cases hc
        exact hn hcname.symm
      · rw [entered_ne hi]

theorem Sound.entered (hs : Sound none s) (hkernel : KernelKeeps s (.accept sockfd)) :
    Sound (some (ioLoop, .connectEstablished s.accepted))
      (s.entered ioLoop sockfd threadPool) := by
  have hback : ∀ i c, i ≠ s.accepted → (s.entered ioLoop sockfd threadPool).conns i = some c →
      s.conns i = some c := by
    intro i c hi hc
    rwa [entered_ne hi] at hc
  have hdue : ∀ l f, f.conn ≠ s.accepted →
      due (some (ioLoop, .connectEstablished s.accepted)) (s.entered ioLoop sockfd threadPool) l f =
        due none s l f := by
    intro l f hf
    rw [due_hand, if_neg]
    · rfl
    · rintro ⟨-, rfl⟩
      exact hf rfl
  refine ⟨?_, ?_, ?_, ⟨?_, hs.rounds.idle⟩, ⟨?_, ?_⟩, hs.named_entered hkernel.1⟩
  · intro i c hc
    by_cases hi : i = s.accepted
    · subst hi
      cases entered_self.symm.trans hc
      exact ⟨.accepted, hs.lives_made hkernel⟩
    · obtain ⟨stage, hlives⟩ := hs.lives i c (hback i c hi hc)
      refine ⟨stage, { hlives with tracks := hlives.tracks, hops := ?_, others := ?_ }⟩
      · intro l f hf
        rw [hdue l f (by rw [hf]; exact hi)]
        exact hlives.hops l f hf
      · intro l f hf
        rw [hdue l f (by rw [hf]; exact hi)]
        exact hlives.others l f hf
  · intro l f hpos
    by_cases hf : f.conn = s.accepted
    · rw [hf, entered_self]
      rfl
    · rw [hdue l f hf] at hpos
      rw [entered_ne hf]
      exact hs.known l f hpos
  · intro e he
    obtain ⟨hserves, c, hc, hestablished⟩ := hs.calls e he
    exact ⟨hserves, c, hs.entered_some hc, hestablished⟩
  · intro l callbacks hl
    obtain ⟨hknown, hnodup⟩ := hs.rounds.handling l callbacks hl
    refine ⟨?_, hnodup⟩
    intro e he
    obtain ⟨c, hc, hrest⟩ := hknown e he
    exact ⟨c, hs.entered_some hc, hrest⟩
  · intro i j c d hc hd hlivec hlived hfd
    by_cases hi : i = s.accepted
    · by_cases hj : j = s.accepted
      · rw [hi, hj]
      · subst hi
        cases entered_self.symm.trans hc
        have hd := hback j d hj hd
        exact absurd hfd.symm (hkernel.2 j (hs.lt_accepted hd) d hd hlived)
    · have hc := hback i c hi hc
      by_cases hj : j = s.accepted
      · subst hj
        cases entered_self.symm.trans hd
        exact absurd hfd (hkernel.2 i (hs.lt_accepted hc) c hc hlivec)
      · exact hs.wired.fds i j c d hc (hback j d hj hd) hlivec hlived hfd
  · intro l fd henters
    obtain ⟨i, c, hc, hrest⟩ := hs.wired.owned l fd henters
    exact ⟨i, c, hs.entered_some hc, hrest⟩

theorem newConnection_eq (s : ServerLoops) (sockfd : Nat) :
    s.newConnection sockfd =
      let t := s.entered s.threadPool.getNextLoop.1 sockfd s.threadPool.getNextLoop.2
      if s.threadPool.getNextLoop.1 = 0 then t.connectEstablished 0 s.accepted
      else .ok (t.queueInLoop s.threadPool.getNextLoop.1 false (.connectEstablished s.accepted)) :=
  rfl

/-- A connection is accepted, and established at once or by a functor. -/
theorem Sound.newConnection (hs : Sound none s) (hkernel : KernelKeeps s (.accept sockfd)) :
    ∃ t, s.newConnection sockfd = .ok t ∧ Sound none t := by
  rw [newConnection_eq]
  dsimp only
  split
  · rename_i hbase
    have hentered : Sound (some (s.threadPool.getNextLoop.1, .connectEstablished s.accepted))
      (s.entered s.threadPool.getNextLoop.1 sockfd s.threadPool.getNextLoop.2) := hs.entered hkernel
    rw [hbase] at hentered ⊢
    obtain ⟨t, ht, hsound, -⟩ := hentered.connectEstablished
    exact ⟨t, ht, hsound⟩
  · exact ⟨_, rfl, (hs.entered hkernel).queueInLoop false⟩

end Mymuduo.ServerLoops

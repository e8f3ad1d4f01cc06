import Mymuduo.Net.ServerAccept

/-! The life of every connection of a server: established once, told once of either change, closed
at most once and destroyed once after that, under any order of the steps of its loops. -/

namespace Mymuduo.ServerLoops

open Lib

variable {s : ServerLoops} {i l : Nat} {c : ServerConnection}

theorem sound_new (threads : Nat) (listenAddr : InetAddress) (nameArg : Bytes)
    (writeCompleteCallback : Bool) :
    Sound none (new threads listenAddr nameArg writeCompleteCallback) where
  lives i c hc := by cases hc
  known l f hpos := absurd hpos (by simp [due, queued, new, EventLoop.new])
  calls e he := by cases he
  rounds := by
    constructor
    · intro l callbacks hl
      cases hl
    · exact fun _ _ => rfl
  wired := by
    constructor
    · intro i j c d hc
      cases hc
    · rintro l fd (h | h) <;> exact absurd rfl h
  named := by
    refine ⟨fun i => by simp [new], fun _ => rfl, listenAddr.length_toIpPort_le, ?_, ?_⟩
    · intro i c hc
      cases hc
    · intro name i
      simp [new, TcpServer.new]

/-- Every step that the kernel's promises allow is taken without a fault. -/
theorem Sound.step (hs : Sound none s) {a : ServerStep} (hkernel : KernelKeeps s a) :
    ∃ t, s.step a = .ok t ∧ Sound none t := by
  cases a with
  | accept sockfd =>
    dsimp only [ServerLoops.step]
    split
    · exact hs.newConnection hkernel
    · exact ⟨s, rfl, hs⟩
  | poll l size ready =>
    dsimp only [ServerLoops.step]
    split
    case h_1 hp => exact hs.poll hp hkernel
    case h_2 => exact ⟨s, rfl, hs⟩
  | callback l r w =>
    dsimp only [ServerLoops.step]
    split
    case h_1 i k rest hp =>
      obtain ⟨c, hc, rfl, hestablished, hopen⟩ := hs.last_callback hp
      exact (hs.takeCallback hp).callback hc hestablished hopen r w
    case h_2 => exact ⟨s, rfl, hs⟩
  | beginRound l =>
    dsimp only [ServerLoops.step]
    split
    case h_1 hp => exact ⟨_, rfl, hs.beginRound hp⟩
    case h_2 => exact ⟨s, rfl, hs⟩
  | functor l preceding w =>
    dsimp only [ServerLoops.step]
    split
    case h_1 f rest hp =>
      have hidle : ((s.setPlace l (.calling rest)).loops l).eventHandling = false :=
        hs.rounds.idle l (by simp [hp])
      obtain ⟨t, ht, hsound, -⟩ := (hs.takeFunctor hp).runFunctor hidle preceding w
      exact ⟨t, ht, hsound⟩
    case h_2 => exact ⟨s, rfl, hs⟩
  | endRound l =>
    dsimp only [ServerLoops.step]
    split
    case h_1 hp => exact ⟨_, rfl, hs.endRound hp⟩
    case h_2 => exact ⟨s, rfl, hs⟩
  | send i msg =>
    cases hc : s.conns i with
    | none => exact ⟨s, by rw [ServerLoops.step, hc], hs⟩
    | some c =>
      refine ⟨_, by rw [ServerLoops.step, hc], ?_⟩
      split
      case isTrue hknown => exact hs.addCall hc hknown.1 rfl
      case isFalse => exact hs
  | shutdown i =>
    cases hc : s.conns i with
    | none => exact ⟨s, by rw [ServerLoops.step, hc], hs⟩
    | some c =>
      refine ⟨_, by rw [ServerLoops.step, hc], ?_⟩
      split
      case isTrue hknown => exact (hs.addCall hc hknown.1 rfl).setDisconnecting hc hknown.2
      case isFalse => exact hs
  | queue k =>
    cases hcall : s.calls[k]? with
    | none => exact ⟨s, by rw [ServerLoops.step, hcall], hs⟩
    | some call =>
      obtain ⟨i, functor⟩ := call
      obtain ⟨c, hc, hsound⟩ := hs.queueCall hcall
      refine ⟨_, ?_, hsound⟩
      rw [ServerLoops.step, hcall]
      dsimp only
      rw [hc]
  | sendInLoop l i msg preceding w =>
    cases hc : s.conns i with
    | none => exact ⟨s, by rw [ServerLoops.step, hc], hs⟩
    | some c =>
      rw [ServerLoops.step, hc]
      dsimp only
      split
      case isTrue hknown =>
        obtain ⟨hknown, rfl, -⟩ := hknown
        obtain ⟨stage, hlives⟩ := hs.lives i c hc
        obtain ⟨t, ht, hsound, -⟩ := hs.stays (f := fun c => c.send true msg preceding w) hc
          (hlives.known hknown).2 (by simp [Serving]) (fun hup => hup.send msg preceding w)
        exact ⟨t, ht, hsound⟩
      case isFalse => exact ⟨s, rfl, hs⟩
  | shutdownInLoop l i =>
    cases hc : s.conns i with
    | none => exact ⟨s, by rw [ServerLoops.step, hc], hs⟩
    | some c =>
      rw [ServerLoops.step, hc]
      dsimp only
      split
      case isTrue hknown =>
        obtain ⟨hknown, rfl, -⟩ := hknown
        obtain ⟨stage, hlives⟩ := hs.lives i c hc
        obtain ⟨t, ht, hsound, -⟩ := hs.stays (f := fun c => .ok (c.shutdown true)) hc
          (hlives.known hknown).2 (by simp [Serving]) (fun hup => ⟨_, rfl, hup.shutdown⟩)
        exact ⟨t, ht, hsound⟩
      case isFalse => exact ⟨s, rfl, hs⟩

/-- The life of connection `i` so far: what has not been called yet is queued, once and in the loop
that is to call it. -/
structure Life (s : ServerLoops) (i : Nat) (c : ServerConnection) : Prop where
  established : c.established + (s.queued c.ioLoop).count (.connectEstablished i) = 1
  told : c.conn.connectionCalls =
    List.replicate c.established true ++ List.replicate c.conn.closeCalls false
  closed : c.conn.closeCalls = if c.conn.state = .kDisconnected then 1 else 0
  afterEstablished : c.conn.closeCalls ≤ c.established
  removed : c.removed + (s.queued 0).count (.removeConnectionInLoop i) = c.conn.closeCalls
  destroyed : c.destroyed.length +
    (s.queued c.ioLoop).count (.ofConnection i .connectDestroyed) = c.removed
  outside : ∀ eventHandling ∈ c.destroyed, eventHandling = false
  home : ∀ l, ∀ f ∈ s.queued l, f.conn = i → f.isHop = true → l = f.home c.ioLoop

/-- The lives of all connections, and what `connections_` holds. -/
structure Lifecycle (s : ServerLoops) : Prop where
  accepted : ∀ i, (s.conns i).isSome = true ↔ i < s.accepted
  life : ∀ i c, s.conns i = some c → Life s i c
  connections : ∀ name i, s.server.connections name = some i ↔
    ∃ c, s.conns i = some c ∧ c.name = name ∧ c.removed = 0
  names : ∀ i j c d, s.conns i = some c → s.conns j = some d → c.name = d.name → i = j

theorem due_none (s : ServerLoops) (l : Nat) (f : ServerFunctor) :
    due none s l f = (s.queued l).count f := by
  simp [due]

theorem Lives.life {stage : Stage} (h : Lives none s i c stage) : Life s i c := by
  have hhop : ∀ l f, f.conn = i → f.isHop = true → f.home c.ioLoop = l →
      (s.queued l).count f = if stage.hop i = some f then 1 else 0 := by
    intro l f hf hisHop hhome
    rw [← due_none, h.hops l f hf hisHop]
    simp [hhome]
  constructor
  case established =>
    rw [h.established, hhop c.ioLoop (.connectEstablished i) rfl rfl rfl]
    cases stage <;> simp [Stage.establishCalls, Stage.hop]
  case told => rw [h.told, h.established, h.closeCalls]
  case closed =>
    have hholds := h.holds
    rw [h.closeCalls]
    cases stage with
    | up => rcases hholds.1 with hstate | hstate <;> simp [hstate, Stage.closeCalls]
    | accepted | closed | removed | destroyed => simp [hholds.1, Stage.closeCalls]
  case afterEstablished =>
    rw [h.closeCalls, h.established]
    cases stage <;> decide
  case removed =>
    rw [h.removed, h.closeCalls, hhop 0 (.removeConnectionInLoop i) rfl rfl rfl]
    cases stage <;> simp [Stage.removeCalls, Stage.closeCalls, Stage.hop]
  case destroyed =>
    rw [h.destroyed, h.removed, hhop c.ioLoop (.ofConnection i .connectDestroyed) rfl rfl rfl]
    cases stage <;> simp [Stage.removeCalls, Stage.destroyCalls, Stage.hop]
  case outside =>
    rw [h.destroyed]
    cases stage <;> simp [Stage.destroyCalls]
  case home =>
    intro l f hqueued hf hisHop
    have hpos : 0 < due none s l f := by
      rw [due_none]
      exact List.count_pos_iff.mpr hqueued
    rw [h.hops l f hf hisHop] at hpos
    split at hpos
    case isTrue hhome => exact hhome.2.symm
    case isFalse => exact absurd hpos (lt_irrefl 0)

theorem Sound.lifecycle (hs : Sound none s) : Lifecycle s where
  accepted := hs.named.accepted
  life i c hc := by
    obtain ⟨stage, hlives⟩ := hs.lives i c hc
    exact hlives.life
  connections := hs.named.connections
  names i j c d hc hd hname := by
    obtain ⟨hnamec, hi⟩ := hs.named.name i c hc
    obtain ⟨hnamed, hj⟩ := hs.named.name j d hd
    exact TcpServer.connName_injective hs.named.ipPort hi hj
      (hnamec.symm.trans (hname.trans hnamed))

theorem sound_run (threads : Nat) (listenAddr : InetAddress) (nameArg : Bytes)
    (writeCompleteCallback : Bool) (steps : List ServerStep)
    (hkernel : Along step KernelKeeps (new threads listenAddr nameArg writeCompleteCallback) steps) :
    ∃ s, run step (new threads listenAddr nameArg writeCompleteCallback) steps = .ok s ∧
      Sound none s :=
  hkernel.run_total (fun _ _ hs hkernel => hs.step hkernel)
    (sound_new threads listenAddr nameArg writeCompleteCallback)

end Mymuduo.ServerLoops

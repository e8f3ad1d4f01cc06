import Mymuduo.Net.LoopBalance

/-! The connections of a server as objects in memory.  A connection is destroyed when nobody holds it
any more: neither `connections_`, nor a functor, nor a caller of `send` or `shutdown`, nor a copy of
its pointer that the user has made.  The callbacks of its channel, and the functors of `send` and
`shutdown`, have its bare address. -/

namespace Mymuduo

open Lib ServerLoops

/-- The vectors of `doPendingFunctors` after a step. -/
def ServerLoops.vectors (s : ServerLoops) (functors : Nat → List ServerFunctor) :
    ServerStep → Nat → List ServerFunctor
  | .beginRound l =>
    if s.places l = .handling [] then Function.update functors l (s.loops l).pendingFunctors
    else functors
  | .endRound l =>
    if s.places l = .calling [] then Function.update functors l [] else functors
  | _ => functors

/-- A server with what holds its connections.  `functors l` is the vector of `doPendingFunctors` in
loop `l`, whose functors are destroyed when it returns.  `kept` has a connection for each copy of a
`TcpConnectionPtr` that the user has, in objects of his own or bound in the callback of a timer, and
`freed` tells which connections have been destroyed. -/
structure ServerMemory where
  loops : ServerLoops
  functors : Nat → List ServerFunctor
  kept : List Nat
  freed : Nat → Bool

/-- A step of one of the server's threads, or the user copies a `TcpConnectionPtr`, or destroys a
copy. -/
inductive MemoryStep
  | server (a : ServerStep)
  | keep (conn : Nat)
  | drop (conn : Nat)
  deriving DecidableEq, Repr

namespace ServerMemory

def new (threads : Nat) (listenAddr : InetAddress) (nameArg : Bytes)
    (writeCompleteCallback : Bool) : ServerMemory where
  loops := .new threads listenAddr nameArg writeCompleteCallback
  functors := fun _ => []
  kept := []
  freed := fun _ => false

/-- A functor in loop `l` holds connection `i`. -/
def holds (m : ServerMemory) (l i : Nat) : Bool :=
  (m.functors l ++ (m.loops.loops l).pendingFunctors).any fun f => f.owns && f.conn == i

/-- Somebody holds connection `i`. -/
def held (m : ServerMemory) (i : Nat) : Bool :=
  ((m.loops.conns i).any fun c => m.loops.server.connections c.name == some i) ||
    (m.loops.calls.any fun e => e.1 == i) || m.kept.contains i ||
    (List.range (m.loops.threadPool.loops + 1)).any fun l => m.holds l i

/-- The connections whose memory the step uses by their addresses.  The user calls `send` and
`shutdown` by a pointer that holds the connection. -/
def uses (s : ServerLoops) : ServerStep → List Nat
  | .poll l size ready =>
    match s.places l with
    | .polling => ((s.loops l).poller.epollWait size ready).map Prod.fst
    | _ => []
  | .callback l _ _ =>
    match s.places l with
    | .handling ((i, _) :: _) => [i]
    | _ => []
  | .functor l _ _ =>
    match s.places l with
    | .calling (f :: _) => [f.conn]
    | _ => []
  | .queue k => (s.calls[k]?.map Prod.fst).toList
  | .accept _ | .beginRound _ | .endRound _ | .send .. | .shutdown _ | .sendInLoop ..
  | .shutdownInLoop .. => []

/-- The connections that nobody holds any more are destroyed. -/
def release (m : ServerMemory) : ServerMemory :=
  { m with freed := fun i => m.freed i || ((m.loops.conns i).isSome && !m.held i) }

/-- A step of the server faults when it uses a connection that has been destroyed.  The user can copy
the pointer to a connection that he has been told of, as long as somebody has one. -/
def step (m : ServerMemory) : MemoryStep → Except Fault ServerMemory
  | .server a =>
    if (uses m.loops a).any m.freed then .error .danglingPointer
    else do
      let loops ← m.loops.step a
      return release { m with loops := loops, functors := m.loops.vectors m.functors a }
  | .keep i =>
    .ok (if (m.loops.conns i).any Known && !m.freed i then { m with kept := i :: m.kept } else m)
  | .drop i => .ok (release { m with kept := m.kept.erase i })

end ServerMemory

namespace ServerLoops

/-- A call of `send` or `shutdown` queues its functor before a round takes `connectDestroyed` of the
connection. -/
def QueuedInTime (s : ServerLoops) : ServerStep → Prop
  | .queue k => ∀ e ∈ s.calls[k]?, ∀ c ∈ s.conns e.1,
      c.removed = 0 ∨ .ofConnection e.1 .connectDestroyed ∈ (s.loops c.ioLoop).pendingFunctors
  | _ => True

instance (s : ServerLoops) : (a : ServerStep) → Decidable (QueuedInTime s a)
  | .queue k => inferInstanceAs (Decidable (∀ e ∈ s.calls[k]?, ∀ c ∈ s.conns e.1,
      c.removed = 0 ∨ .ofConnection e.1 .connectDestroyed ∈ (s.loops c.ioLoop).pendingFunctors))
  | .accept _ | .poll .. | .callback .. | .beginRound _ | .functor .. | .endRound _ | .send ..
  | .shutdown _ | .sendInLoop .. | .shutdownInLoop .. => .isTrue trivial

variable {s t : ServerLoops} {functors : Nat → List ServerFunctor} {i l : Nat}
  {c : ServerConnection} {f : ServerFunctor}

/-- A functor is queued in a loop that its connection is in, or in the base loop. -/
theorem Sound.loop_of_queued (hs : Sound none s) (hf : f ∈ s.queued l) :
    ∃ c, s.conns f.conn = some c ∧ (l = 0 ∨ l = c.ioLoop) ∧ (f.owns = false → l = c.ioLoop) := by
  have hdue : 0 < due none s l f := by
    rw [due_none]
    exact List.count_pos_iff.mpr hf
  obtain ⟨c, hc⟩ := Option.isSome_iff_exists.mp (hs.known l f hdue)
  obtain ⟨stage, hlives⟩ := hs.lives _ c hc
  refine ⟨c, hc, ?_⟩
  by_cases hhop : f.isHop = true
  · have hone := hlives.hops l f rfl hhop
    have hhome : f.home c.ioLoop = l := by
      by_contra hne
      rw [if_neg (fun h => hne h.2)] at hone
      omega
    cases f with
    | removeConnectionInLoop j => exact ⟨.inl hhome.symm, nofun⟩
    | connectEstablished j => exact ⟨.inr hhome.symm, nofun⟩
    | ofConnection j functor => exact ⟨.inr hhome.symm, fun _ => hhome.symm⟩
  · obtain ⟨hl, -⟩ := hlives.others l f rfl (by simpa using hhop) hdue
    exact ⟨.inr hl, fun _ => hl⟩

/-- A connection that has not been removed is in `connections_`. -/
theorem Sound.in_connections (hs : Sound none s) (hc : s.conns i = some c) :
    s.server.connections c.name = some i ↔ c.removed = 0 := by
  rw [hs.named.connections]
  constructor
  · rintro ⟨d, hd, -, hremoved⟩
    cases hc.symm.trans hd
    exact hremoved
  · exact fun hremoved => ⟨c, hc, rfl, hremoved⟩

/-- Between its removal and its destruction a connection has `connectDestroyed` queued. -/
theorem Sound.destroy_queued (hs : Sound none s) (hc : s.conns i = some c)
    (hdestroyed : c.destroyed = []) :
    c.removed = 0 ∨ .ofConnection i .connectDestroyed ∈ s.queued c.ioLoop := by
  obtain ⟨stage, hlives⟩ := hs.lives i c hc
  have hremoved := hlives.removed
  cases stage with
  | accepted | up | closed => exact .inl hremoved
  | removed =>
    refine .inr (List.count_pos_iff.mp ?_)
    rw [← due_none, hlives.hops c.ioLoop (.ofConnection i .connectDestroyed) rfl rfl,
      if_pos ⟨rfl, rfl⟩]
    exact Nat.one_pos
  | destroyed =>
    rw [hlives.destroyed] at hdestroyed
    cases hdestroyed

theorem Sound.not_removed (hs : Sound none s) (hc : s.conns i = some c)
    (hstate : c.conn.state = .kConnected) : c.removed = 0 := by
  obtain ⟨stage, hlives⟩ := hs.lives i c hc
  have hholds := hlives.holds
  rw [hlives.removed]
  cases stage with
  | up => rfl
  | accepted | closed | removed | destroyed => exact absurd (hholds.1.symm.trans hstate) (by simp)

/-! ### The vectors, and what is left of them -/

/-- The functors that are left of a round. -/
def left : RoundPlace → List ServerFunctor
  | .calling rest => rest
  | .polling | .handling _ => []

theorem queued_eq (s : ServerLoops) (l : Nat) :
    s.queued l = left (s.places l) ++ (s.loops l).pendingFunctors := by
  unfold queued
  cases s.places l <;> rfl

/-- The vector holds what is left of the round, and is empty outside of rounds. -/
def Fills (vector : List ServerFunctor) : RoundPlace → Prop
  | .calling rest => ∀ f ∈ rest, f ∈ vector
  | .polling | .handling _ => vector = []

def Vectors (functors : Nat → List ServerFunctor) (s : ServerLoops) : Prop :=
  ∀ l, Fills (functors l) (s.places l)

theorem Vectors.left (h : Vectors functors s) (hf : f ∈ left (s.places l)) : f ∈ functors l := by
  have hfills := h l
  cases hp : s.places l with
  | calling rest =>
    rw [hp] at hfills hf
    exact hfills f hf
  | polling | handling callbacks =>
    rw [hp] at hf
    cases hf

/-- Loop `l` goes to another place, with another vector. -/
theorem Vectors.update {place : RoundPlace} {vector : List ServerFunctor} (h : Vectors functors s)
    (hplaces : t.places = Function.update s.places l place) (hfills : Fills vector place) :
    Vectors (Function.update functors l vector) t := by
  intro l'
  rw [hplaces]
  by_cases hl : l' = l
  · subst hl
    simpa using hfills
  · simpa [hl] using h l'

theorem Vectors.place {place : RoundPlace} (h : Vectors functors s)
    (hplaces : t.places = Function.update s.places l place) (hfills : Fills (functors l) place) :
    Vectors functors t := by
  have hupdate := h.update hplaces hfills
  rwa [Function.update_eq_self] at hupdate

theorem vectors_same {a : ServerStep} (h : s.KeepsRounds a) : s.vectors functors a = functors := by
  cases a with
  | beginRound l | endRound l => exact if_neg h
  | _ => rfl

theorem Vectors.begins {a : ServerStep} (h : Vectors functors s) (hbegins : Begins s a t) :
    Vectors (s.vectors functors a) t := by
  cases hbegins with
  | same rounds =>
    rw [vectors_same rounds]
    exact h
  | accept | send | shutdown | queue => exact h
  | @poll l size ready t place polled =>
    obtain ⟨⟨size', heap, active⟩, -, hpoll⟩ := bind_eq_ok.mp polled
    cases hpoll
    have hfills := h l
    rw [place] at hfills
    exact h.place rfl hfills
  | @callback l i k rest r w place =>
    have hfills := h l
    rw [place] at hfills
    exact h.place rfl hfills
  | beginRound place =>
    rw [vectors, if_pos place]
    exact h.update rfl fun f hf => hf
  | @functor l f rest preceding w place =>
    have hfills := h l
    rw [place] at hfills
    exact h.place rfl fun g hg => hfills g (List.mem_cons_of_mem f hg)
  | @connectDestroyed l i c rest preceding w place =>
    have hfills := h l
    rw [place] at hfills
    exact h.place rfl fun g hg => hfills g (List.mem_cons_of_mem _ hg)
  | endRound place =>
    rw [vectors, if_pos place]
    exact h.update rfl rfl

/-! ### What comes after `connectDestroyed` -/

/-- The functors of `send` and `shutdown` of a connection that has been removed are called before the
vector is destroyed that `connectDestroyed` is in. -/
structure Behind (functors : Nat → List ServerFunctor) (s : ServerLoops) : Prop where
  pending : ∀ l f c, s.conns f.conn = some c → c.removed ≠ 0 → f.owns = false →
    f ∈ (s.loops l).pendingFunctors →
      .ofConnection f.conn .connectDestroyed ∈ (s.loops l).pendingFunctors
  calling : ∀ l f c, s.conns f.conn = some c → c.removed ≠ 0 → f.owns = false →
    f ∈ left (s.places l) → .ofConnection f.conn .connectDestroyed ∈
      functors l ++ (s.loops l).pendingFunctors

theorem Behind.keep {functors' : Nat → List ServerFunctor} (h : Behind functors s)
    (hpending : ∀ l, (t.loops l).pendingFunctors = (s.loops l).pendingFunctors)
    (hleft : ∀ l, ∀ f ∈ left (t.places l), f ∈ left (s.places l) ∧ functors' l = functors l)
    (hconns : ∀ i d, t.conns i = some d → d.removed ≠ 0 → ∃ c, s.conns i = some c ∧ c.removed ≠ 0) :
    Behind functors' t := by
  constructor
  · intro l f d hd hremoved howns hf
    obtain ⟨c, hc, hremoved⟩ := hconns _ d hd hremoved
    rw [hpending] at hf ⊢
    exact h.pending l f c hc hremoved howns hf
  · intro l f d hd hremoved howns hf
    obtain ⟨c, hc, hremoved⟩ := hconns _ d hd hremoved
    obtain ⟨hf, hfunctors⟩ := hleft l f hf
    rw [hpending, hfunctors]
    exact h.calling l f c hc hremoved howns hf

theorem left_place {place : RoundPlace} (hplaces : t.places = Function.update s.places l place)
    (hleft : ∀ f ∈ left place, f ∈ left (s.places l)) :
    ∀ l', ∀ f ∈ left (t.places l'), f ∈ left (s.places l') := by
  intro l' f hf
  rw [hplaces] at hf
  by_cases hl : l' = l
  · subst hl
    exact hleft f (by simpa using hf)
  · simpa [hl] using hf

theorem Behind.begins {a : ServerStep} (h : Behind functors s) (hbegins : Begins s a t)
    (htime : QueuedInTime s a) : Behind (s.vectors functors a) t := by
  have hsame : ∀ i d, s.conns i = some d → d.removed ≠ 0 →
      ∃ c, s.conns i = some c ∧ c.removed ≠ 0 := fun i d hd hremoved => ⟨d, hd, hremoved⟩
  cases hbegins with
  | same rounds =>
    rw [vectors_same rounds]
    exact h
  | send | shutdown => exact ⟨h.pending, h.calling⟩
  | accept sockfd place =>
    refine h.keep (fun _ => rfl) (fun l f hf => ⟨hf, rfl⟩) ?_
    intro i d hd hremoved
    by_cases hi : i = s.accepted
    · subst hi
      cases entered_self.symm.trans hd
      exact absurd rfl hremoved
    · rw [entered_ne hi] at hd
      exact ⟨d, hd, hremoved⟩
  | @poll l size ready t place polled =>
    obtain ⟨⟨size', heap, active⟩, -, hpoll⟩ := bind_eq_ok.mp polled
    cases hpoll
    refine h.keep ?_ ?_ ?_
    · exact setLoop_field EventLoop.pendingFunctors rfl
    · exact fun l' f hf => ⟨left_place (s := s) (l := l) rfl (List.forall_mem_nil _) l' f hf, rfl⟩
    · intro i d hd hremoved
      obtain ⟨c, hc, rfl⟩ := Option.map_eq_some_iff.mp hd
      exact ⟨c, hc, hremoved⟩
  | @callback l i k rest r w place =>
    exact h.keep (fun _ => rfl)
      (fun l' f hf => ⟨left_place (s := s) (l := l) rfl (List.forall_mem_nil _) l' f hf, rfl⟩) hsame
  | @beginRound l place =>
    rw [vectors, if_pos place]
    constructor
    · intro l' f c hc hremoved howns hf
      by_cases hl : l' = l
      · subst hl
        simp [setPlace, setLoop] at hf
      · simp only [setPlace, setLoop, Function.update_of_ne hl] at hf ⊢
        exact h.pending l' f c hc hremoved howns hf
    · intro l' f c hc hremoved howns hf
      by_cases hl : l' = l
      · subst hl
        simp only [setPlace, Function.update_self, left] at hf
        rw [Function.update_self]
        exact List.mem_append_left _ (h.pending l' f c hc hremoved howns hf)
      · simp only [setPlace, setLoop, Function.update_of_ne hl] at hf ⊢
        exact h.calling l' f c hc hremoved howns hf
  | @functor l f rest preceding w place =>
    refine h.keep (fun _ => rfl) (fun l' g hg => ⟨left_place (s := s) (l := l) rfl ?_ l' g hg, rfl⟩)
      hsame
    intro g hg
    rw [place]
    exact List.mem_cons_of_mem f hg
  | @connectDestroyed l i c rest preceding w place conn =>
    refine h.keep (fun _ => rfl)
      (fun l' g hg => ⟨left_place (s := s) (l := l) rfl ?_ l' g hg, rfl⟩) ?_
    · intro g hg
      rw [place]
      exact List.mem_cons_of_mem _ hg
    · intro j d hd hremoved
      rw [destroyedIn_conns] at hd
      split at hd
      · rename_i hj
        subst hj
        obtain ⟨e, he, rfl⟩ := Option.map_eq_some_iff.mp hd
        exact ⟨e, he, hremoved⟩
      · exact ⟨d, hd, hremoved⟩
  | @endRound l place =>
    rw [vectors, if_pos place]
    refine h.keep ?_ ?_ hsame
    · exact setLoop_field EventLoop.pendingFunctors rfl
    · intro l' f hf
      by_cases hl : l' = l
      · subst hl
        simp [setPlace, left] at hf
      · simp only [setPlace, Function.update_of_ne hl] at hf ⊢
        exact ⟨hf, trivial⟩
  | @queue k i functor c call conn =>
    have htime := htime (i, functor) call c conn
    constructor
    · intro l f d hd hremoved howns hf
      rw [queueInLoop_loops] at hf ⊢
      rcases List.mem_append.mp hf with hf | hf
      · exact List.mem_append_left _ (h.pending l f d hd hremoved howns hf)
      · split at hf
        · rename_i hl
          rw [List.mem_singleton.mp hf] at hd ⊢
          cases conn.symm.trans hd
          rw [hl]
          exact List.mem_append_left _ (htime.resolve_left hremoved)
        · cases hf
    · intro l f d hd hremoved howns hf
      rw [queueInLoop_loops, ← List.append_assoc]
      exact List.mem_append_left _ (h.calling l f d hd hremoved howns hf)

theorem Behind.frame {who : List Nat} (h : Behind functors s) (hframe : Frame who s t)
    (ht : Sound none t) : Behind functors t := by
  have hdestroy : ∀ l f d, t.conns f.conn = some d → d.removed ≠ 0 → f.owns = false →
      f ∈ t.queued l → (∃ c, s.conns f.conn = some c ∧ c.removed ≠ 0) ∨
        .ofConnection f.conn .connectDestroyed ∈ (t.loops l).pendingFunctors := by
    intro l f d hd hremoved howns hf
    obtain ⟨c, hc, hioLoop, -, hsame⟩ := hframe.conns _ d hd
    obtain ⟨d', hd', -, hhome⟩ := ht.loop_of_queued hf
    cases hd.symm.trans hd'
    rw [hhome howns, hioLoop]
    exact hsame.imp_left fun heq => ⟨c, hc, by rwa [← heq]⟩
  constructor
  · intro l f d hd hremoved howns hf
    have hqueued : f ∈ t.queued l := by
      rw [queued_eq]
      exact List.mem_append_right _ hf
    rcases hdestroy l f d hd hremoved howns hqueued with ⟨c, hc, hremoved⟩ | hnew
    · obtain ⟨more, hmore, hall⟩ := hframe.pending l
      rw [hmore] at hf
      rcases List.mem_append.mp hf with hf | hf
      · exact hframe.mem_pending (h.pending l f c hc hremoved howns hf)
      · rw [(hall f hf).1] at howns
        cases howns
    · exact hnew
  · intro l f d hd hremoved howns hf
    have hqueued : f ∈ t.queued l := by
      rw [queued_eq]
      exact List.mem_append_left _ hf
    rcases hdestroy l f d hd hremoved howns hqueued with ⟨c, hc, hremoved⟩ | hnew
    · rw [hframe.places] at hf
      refine (List.mem_append.mp (h.calling l f c hc hremoved howns hf)).elim ?_ ?_
      · exact List.mem_append_left _
      · exact fun hpending => List.mem_append_right _ (hframe.mem_pending hpending)
    · exact List.mem_append_right _ hnew

/-! ### Callbacks -/

/-- A connection whose callbacks are to be called has not been destroyed. -/
def Handles (s : ServerLoops) : Prop :=
  ∀ l callbacks, s.places l = .handling callbacks → ∀ e ∈ callbacks, ∀ c, s.conns e.1 = some c →
    c.destroyed = []

/-- Loop `l` goes to another place. -/
theorem Handles.place {place : RoundPlace} (h : Handles s)
    (hplaces : t.places = Function.update s.places l place)
    (hhandling : ∀ callbacks, place = .handling callbacks → ∀ e ∈ callbacks, ∀ c,
      s.conns e.1 = some c → c.destroyed = [])
    (hconns : ∀ i d, t.conns i = some d → ∃ c, s.conns i = some c ∧ d.destroyed = c.destroyed) :
    Handles t := by
  intro l' callbacks hl e he d hd
  obtain ⟨c, hc, hdestroyed⟩ := hconns _ d hd
  rw [hdestroyed]
  rw [hplaces] at hl
  by_cases hll : l' = l
  · subst hll
    rw [Function.update_self] at hl
    exact hhandling callbacks hl e he c hc
  · rw [Function.update_of_ne hll] at hl
    exact h l' callbacks hl e he c hc

/-- What a poll finds is established. -/
theorem Sound.active_established (hs : Sound none s) {size : Nat} {ready : List (Nat × Events)}
    (hi : i ∈ ((s.loops l).poller.epollWait size ready).map Prod.fst) :
    ∃ c, s.conns i = some c ∧ c.destroyed = [] := by
  obtain ⟨event, hevent, rfl⟩ := List.mem_map.mp hi
  obtain ⟨fd, interest, -, hentry⟩ := EPollPoller.epollWait_mem hevent
  obtain ⟨c, hc, -, -, -, hlives⟩ := hs.interest hentry
  exact ⟨c, hc, hlives.destroyed⟩

theorem Handles.begins {a : ServerStep} (h : Handles s) (hbegins : Begins s a t)
    (hs : Sound none s) (hkernel : KernelKeeps s a) : Handles t := by
  have hsame : ∀ i d, s.conns i = some d → ∃ c, s.conns i = some c ∧ d.destroyed = c.destroyed :=
    fun i d hd => ⟨d, hd, rfl⟩
  cases hbegins with
  | same | send | shutdown | queue => exact h
  | accept sockfd place =>
    intro l callbacks hl e he d hd
    by_cases hi : e.1 = s.accepted
    · rw [hi] at hd
      cases entered_self.symm.trans hd
      rfl
    · rw [entered_ne hi] at hd
      exact h l callbacks hl e he d hd
  | @poll l size ready t place polled =>
    obtain ⟨size', hpoll⟩ := (hs.leads l).poll hkernel.1 size
    unfold ServerLoops.poll at polled
    rw [hpoll, ok_bind] at polled
    cases polled
    refine h.place rfl ?_ ?_
    · rintro callbacks ⟨⟩ e he c hc
      obtain ⟨i, hi, he⟩ := List.mem_flatMap.mp he
      obtain ⟨d, hd, hdestroyed⟩ := hs.active_established hi
      rw [eq_of_mem_found he] at hc
      cases hd.symm.trans hc
      exact hdestroyed
    · intro i d hd
      obtain ⟨c, hc, rfl⟩ := Option.map_eq_some_iff.mp hd
      exact ⟨c, hc, rfl⟩
  | @callback l i k rest r w place =>
    refine h.place rfl ?_ hsame
    rintro callbacks ⟨⟩ e he
    exact h l _ place e (List.mem_cons_of_mem _ he)
  | beginRound | functor | endRound => exact h.place rfl nofun hsame
  | @connectDestroyed l i c rest preceding w place conn ioLoop =>
    intro l' callbacks hl e he d hd
    by_cases hll : l' = l
    · subst hll
      simp [destroyedIn, record, setPlace] at hl
    · have hl' : s.places l' = .handling callbacks := by
        simpa [destroyedIn, record, setPlace, hll] using hl
      rw [destroyedIn_conns] at hd
      split at hd
      · -- The connection has callbacks in its own loop only.
        rename_i hei
        obtain ⟨c', hc', hhome, -⟩ := (hs.rounds.handling l' callbacks hl').1 e he
        rw [hei] at hc'
        cases conn.symm.trans hc'
        exact absurd (hhome.symm.trans ioLoop) hll
      · exact h l' callbacks hl' e he d hd

theorem Handles.frame {who : List Nat} (h : Handles s) (hframe : Frame who s t) : Handles t := by
  intro l callbacks hl e he d hd
  obtain ⟨c, hc, -, hdestroyed, -⟩ := hframe.conns _ d hd
  rw [hdestroyed]
  rw [hframe.places] at hl
  exact h l callbacks hl e he c hc

/-! ### What a step adds to what is queued -/

theorem Begins.mem_pending {a : ServerStep} (h : Begins s a t)
    (hf : f ∈ (t.loops l).pendingFunctors) :
    f ∈ (s.loops l).pendingFunctors ∨ f.conn ∈ ServerMemory.uses s a := by
  cases h with
  | same | accept | send | shutdown | callback | functor | connectDestroyed => exact .inl hf
  | @poll l' size ready t place polled =>
    obtain ⟨⟨size', heap, active⟩, -, hpoll⟩ := bind_eq_ok.mp polled
    cases hpoll
    by_cases hl : l = l'
    · subst hl
      exact .inl (by simpa [setPlace, setLoop, setHeap] using hf)
    · exact .inl (by simpa [setPlace, setLoop, setHeap, hl] using hf)
  | @beginRound l' place =>
    by_cases hl : l = l'
    · subst hl
      simp [setPlace, setLoop] at hf
    · exact .inl (by simpa [setPlace, setLoop, hl] using hf)
  | @endRound l' place =>
    by_cases hl : l = l'
    · subst hl
      exact .inl (by simpa [setPlace, setLoop] using hf)
    · exact .inl (by simpa [setPlace, setLoop, hl] using hf)
  | @queue k i functor c call conn =>
    rw [queueInLoop_loops] at hf
    refine (List.mem_append.mp hf).imp id ?_
    intro hf
    split at hf
    · rw [List.mem_singleton.mp hf, ServerMemory.uses, call]
      exact List.mem_cons_self
    · cases hf

theorem mem_vectors {a : ServerStep} (hf : f ∈ s.vectors functors a l) :
    f ∈ functors l ∨ f ∈ (s.loops l).pendingFunctors := by
  unfold vectors at hf
  split at hf
  · rename_i l'
    split at hf
    · by_cases hl : l = l'
      · subst hl
        exact .inr (by simpa using hf)
      · exact .inl (by simpa [hl] using hf)
    · exact .inl hf
  · rename_i l'
    split at hf
    · by_cases hl : l = l'
      · subst hl
        simp at hf
      · exact .inl (by simpa [hl] using hf)
    · exact .inl hf
  · exact .inl hf

theorem Begins.mem_calls {a : ServerStep} (h : Begins s a t) {e : Nat × TcpFunctor}
    (he : e ∈ t.calls) :
    e ∈ s.calls ∨ ∃ c, s.conns e.1 = some c ∧ c.conn.state = .kConnected := by
  cases h with
  | same | accept | callback | beginRound | functor | connectDestroyed | endRound => exact .inl he
  | poll place polled =>
    obtain ⟨⟨size', heap, active⟩, -, hpoll⟩ := bind_eq_ok.mp polled
    cases hpoll
    exact .inl he
  | send msg conn state =>
    refine (List.mem_append.mp he).imp id ?_
    intro he
    rw [List.mem_singleton.mp he]
    exact ⟨_, conn, state⟩
  | shutdown conn state =>
    refine (List.mem_append.mp he).imp id ?_
    intro he
    rw [List.mem_singleton.mp he]
    exact ⟨_, conn, state⟩
  | queue call conn => exact .inl (List.mem_of_mem_eraseIdx he)

end ServerLoops

namespace ServerMemory

/-- The kernel keeps its promises at the steps of the server. -/
def KernelKeeps (m : ServerMemory) : MemoryStep → Prop
  | .server a => m.loops.KernelKeeps a
  | .keep _ | .drop _ => True

instance (m : ServerMemory) : (a : MemoryStep) → Decidable (m.KernelKeeps a)
  | .server a => inferInstanceAs (Decidable (m.loops.KernelKeeps a))
  | .keep _ | .drop _ => .isTrue trivial

/-- Calls of `send` and `shutdown` queue their functors in time. -/
def QueuedInTime (m : ServerMemory) : MemoryStep → Prop
  | .server a => m.loops.QueuedInTime a
  | .keep _ | .drop _ => True

instance (m : ServerMemory) : (a : MemoryStep) → Decidable (m.QueuedInTime a)
  | .server a => inferInstanceAs (Decidable (m.loops.QueuedInTime a))
  | .keep _ | .drop _ => .isTrue trivial

variable {m n : ServerMemory} {t : ServerLoops} {threads i l : Nat} {c : ServerConnection}

theorem holds_iff : m.holds l i = true ↔
    ∃ f, (f ∈ m.functors l ∨ f ∈ (m.loops.loops l).pendingFunctors) ∧ f.owns = true ∧ f.conn = i := by
  simp only [holds, List.any_eq_true, List.mem_append, Bool.and_eq_true, beq_iff_eq]

theorem held_iff : m.held i = true ↔
    (∃ c, m.loops.conns i = some c ∧ m.loops.server.connections c.name = some i) ∨
      (∃ e ∈ m.loops.calls, e.1 = i) ∨ i ∈ m.kept ∨
        ∃ l ≤ m.loops.threadPool.loops, m.holds l i = true := by
  simp only [held, Bool.or_eq_true, Option.any_eq_true, List.any_eq_true, List.mem_range,
    Nat.lt_succ_iff, beq_iff_eq, List.contains_iff_mem, or_assoc]

theorem held_of_connections (hc : m.loops.conns i = some c)
    (hname : m.loops.server.connections c.name = some i) : m.held i = true :=
  held_iff.mpr (.inl ⟨c, hc, hname⟩)

theorem held_of_call {e : Nat × TcpFunctor} (he : e ∈ m.loops.calls) : m.held e.1 = true :=
  held_iff.mpr (.inr (.inl ⟨e, he, rfl⟩))

theorem held_of_kept (hi : i ∈ m.kept) : m.held i = true :=
  held_iff.mpr (.inr (.inr (.inl hi)))

/-- Of what holds a connection, `kept` is what the user decides. -/
theorem held_mono (hheld : m.held i = true) (hloops : n.loops = m.loops)
    (hfunctors : n.functors = m.functors) (hkept : i ∈ m.kept → i ∈ n.kept) : n.held i = true := by
  simp only [held_iff, holds, hloops, hfunctors]
  rcases held_iff.mp hheld with hconn | hcall | hmem | hfunctor
  · exact .inl hconn
  · exact .inr (.inl hcall)
  · exact .inr (.inr (.inl (hkept hmem)))
  · exact .inr (.inr (.inr hfunctor))

theorem held_of_functor {f : ServerFunctor} (hl : l ≤ m.loops.threadPool.loops)
    (hf : f ∈ m.functors l ∨ f ∈ (m.loops.loops l).pendingFunctors) (howns : f.owns = true) :
    m.held f.conn = true :=
  held_iff.mpr (.inr (.inr (.inr ⟨l, hl, holds_iff.mpr ⟨f, hf, howns, rfl⟩⟩)))

/-- What every state keeps. -/
structure Alive (threads : Nat) (m : ServerMemory) : Prop where
  sound : Sound none m.loops
  dealt : Dealt threads m.loops
  vectors : Vectors m.functors m.loops
  behind : Behind m.functors m.loops
  handles : Handles m.loops
  freed : ∀ i, m.freed i = ((m.loops.conns i).isSome && !m.held i)

theorem Alive.loop_le (h : Alive threads m) (hc : m.loops.conns i = some c) :
    c.ioLoop ≤ m.loops.threadPool.loops := by
  rw [h.dealt.loops, h.dealt.turns i c hc, turn]
  split
  · exact Nat.zero_le _
  · exact Nat.mod_lt _ (by omega)

/-- A functor in the loop of one that is to be called. -/
theorem Alive.held_of_queued (h : Alive threads m) {f g : ServerFunctor}
    (hf : f ∈ m.loops.queued l)
    (hg : g ∈ m.functors l ∨ g ∈ (m.loops.loops l).pendingFunctors) (howns : g.owns = true) :
    m.held g.conn = true := by
  obtain ⟨c, hc, hl, -⟩ := h.sound.loop_of_queued hf
  have hle := h.loop_le hc
  exact held_of_functor (by omega) hg howns

theorem Alive.queued_cases (h : Alive threads m) {f : ServerFunctor} (hf : f ∈ m.loops.queued l) :
    f ∈ m.functors l ∨ f ∈ (m.loops.loops l).pendingFunctors := by
  rw [queued_eq] at hf
  exact (List.mem_append.mp hf).imp_left h.vectors.left

/-- A connection that has not been destroyed is held. -/
theorem Alive.held_of_not_destroyed (h : Alive threads m) (hc : m.loops.conns i = some c)
    (hdestroyed : c.destroyed = []) : m.held i = true := by
  rcases h.sound.destroy_queued hc hdestroyed with hremoved | hqueued
  · exact held_of_connections hc ((h.sound.in_connections hc).mpr hremoved)
  · exact h.held_of_queued hqueued (h.queued_cases hqueued) rfl

/-- A functor that is to be called has its connection. -/
theorem Alive.held_of_due (h : Alive threads m) {f : ServerFunctor} (hf : f ∈ m.loops.queued l) :
    m.held f.conn = true := by
  cases howns : f.owns with
  | true => exact h.held_of_queued hf (h.queued_cases hf) howns
  | false =>
    obtain ⟨c, hc, -⟩ := h.sound.loop_of_queued hf
    by_cases hremoved : c.removed = 0
    · exact held_of_connections hc ((h.sound.in_connections hc).mpr hremoved)
    · have hdestroy : .ofConnection f.conn .connectDestroyed ∈ m.functors l ∨
          .ofConnection f.conn .connectDestroyed ∈ (m.loops.loops l).pendingFunctors := by
        rw [queued_eq] at hf
        rcases List.mem_append.mp hf with hleft | hpending
        · exact List.mem_append.mp (h.behind.calling l f c hc hremoved howns hleft)
        · exact .inr (h.behind.pending l f c hc hremoved howns hpending)
      exact h.held_of_queued (g := .ofConnection f.conn .connectDestroyed) hf hdestroy rfl

/-- A connection whose callback is to be called is held. -/
theorem Alive.held_of_callback (h : Alive threads m) {callbacks : List (Nat × ChannelCallback)}
    (hplace : m.loops.places l = .handling callbacks) {e : Nat × ChannelCallback}
    (he : e ∈ callbacks) : m.held e.1 = true := by
  obtain ⟨c, hc, -⟩ := (h.sound.rounds.handling l callbacks hplace).1 e he
  exact h.held_of_not_destroyed hc (h.handles l callbacks hplace e he c hc)

/-- Every connection that a step uses by its address is held. -/
theorem Alive.held_of_uses (h : Alive threads m) {a : ServerStep} (hi : i ∈ uses m.loops a) :
    m.held i = true := by
  unfold uses at hi
  split at hi
  · split at hi
    · obtain ⟨c, hc, hdestroyed⟩ := h.sound.active_established hi
      exact h.held_of_not_destroyed hc hdestroyed
    · cases hi
  · split at hi
    · rename_i j k rest hplace
      obtain rfl := List.mem_singleton.mp hi
      exact h.held_of_callback hplace List.mem_cons_self
    · cases hi
  · split at hi
    · rename_i f rest hplace
      obtain rfl := List.mem_singleton.mp hi
      exact h.held_of_due (by rw [queued_eq, hplace]; exact List.mem_cons_self)
    · cases hi
  · rename_i k
    cases hcall : m.loops.calls[k]? with
    | none =>
      rw [hcall] at hi
      cases hi
    | some e =>
      rw [hcall] at hi
      obtain rfl := List.mem_singleton.mp hi
      exact held_of_call (List.mem_of_getElem? hcall)
  all_goals cases hi

theorem Alive.not_freed (h : Alive threads m) (hheld : m.held i = true) : m.freed i = false := by
  rw [h.freed, hheld]
  simp

theorem Alive.not_held (h : Alive threads m) (hfreed : m.freed i = true) :
    (∃ c, m.loops.conns i = some c) ∧ m.held i = false := by
  rw [h.freed, Bool.and_eq_true, Bool.not_eq_true'] at hfreed
  exact ⟨Option.isSome_iff_exists.mp hfreed.1, hfreed.2⟩

/-- The functions that a step calls are those of a connection that it uses, or of a new one, or of one
that is connected. -/
theorem acting_cases {s : ServerLoops} {a : ServerStep} (hi : i ∈ s.acting a) :
    i ∈ uses s a ∨ i = s.accepted ∨ ∃ c, s.conns i = some c ∧ c.conn.state = .kConnected := by
  cases a with
  | accept sockfd => exact .inr (.inl (List.mem_singleton.mp hi))
  | callback | functor => exact .inl hi
  | sendInLoop l j msg preceding w | shutdownInLoop l j =>
    dsimp only [ServerLoops.acting] at hi
    split at hi
    · rename_i c hc
      split at hi
      · rename_i hstate
        obtain rfl := List.mem_singleton.mp hi
        exact .inr (.inr ⟨c, hc, hstate⟩)
      · cases hi
    · cases hi
  | poll | beginRound | endRound | send | shutdown | queue => cases hi

/-- A connection that nobody holds, and whose functions are not called, is held by nobody after the
step either. -/
theorem Alive.not_held_step (h : Alive threads m) {a : ServerStep} {u : ServerLoops}
    (hbegins : Begins m.loops a u) (hframe : Frame (m.loops.acting a) u t) (ht : Sound none t)
    (hdealt : t.threadPool.loops = m.loops.threadPool.loops)
    (hc : m.loops.conns i = some c) (hheld : m.held i = false) (huses : i ∉ uses m.loops a) :
    ServerMemory.held { m with loops := t, functors := m.loops.vectors m.functors a } i = false := by
  have hnot : ¬ m.held i = true := by rw [hheld]; exact Bool.false_ne_true
  have hremoved : c.removed ≠ 0 := fun hzero =>
    hnot (held_of_connections hc ((h.sound.in_connections hc).mpr hzero))
  have hne : i ≠ m.loops.accepted := (h.sound.lt_accepted hc).ne
  have hconnected : ∀ c', m.loops.conns i = some c' → c'.conn.state ≠ .kConnected := by
    intro c' hc' hstate
    cases hc.symm.trans hc'
    exact hremoved (h.sound.not_removed hc hstate)
  have hacting : i ∉ m.loops.acting a := by
    intro hmem
    rcases acting_cases hmem with hmem | hmem | ⟨c', hc', hstate⟩
    · exact huses hmem
    · exact hne hmem
    · exact hconnected c' hc' hstate
  -- What is queued for the connection has been queued before.
  have hpending : ∀ l f, f.conn = i → f ∈ (t.loops l).pendingFunctors →
      f ∈ (m.loops.loops l).pendingFunctors := by
    intro l f hf hmem
    obtain ⟨more, hmore, hall⟩ := hframe.pending l
    rw [hmore] at hmem
    rcases List.mem_append.mp hmem with hmem | hmem
    · rcases hbegins.mem_pending hmem with hmem | hmem
      · exact hmem
      · exact absurd (hf ▸ hmem) huses
    · exact absurd (hf ▸ (hall f hmem).2) hacting
  have hfunctors : ∀ l f, f.conn = i → f.owns = true →
      f ∈ m.loops.vectors m.functors a l ∨ f ∈ (t.loops l).pendingFunctors →
        l ≤ m.loops.threadPool.loops → False := by
    rintro l f rfl howns hmem hl
    refine hnot (held_of_functor hl ?_ howns)
    rcases hmem with hmem | hmem
    · exact mem_vectors hmem
    · exact .inr (hpending l f rfl hmem)
  rw [Bool.eq_false_iff]
  intro hnow
  rcases held_iff.mp hnow with ⟨d, hd, hname⟩ | ⟨e, he, hei⟩ | hkept | ⟨l, hl, hholds⟩
  · dsimp only at hd hname
    have hzero := (ht.in_connections hd).mp hname
    obtain ⟨c₁, hc₁, hioLoop₁, -, hsame⟩ := hframe.conns i d hd
    obtain ⟨c₀, hc₀, hioLoop₀, hremoved₀, -⟩ := hbegins.of_conns hc₁ hne
    cases hc.symm.trans hc₀
    rcases hsame with hsame | hqueued
    · exact hremoved (hremoved₀.symm.trans (hsame.symm.trans hzero))
    · refine hfunctors c₁.ioLoop _ rfl rfl (.inr hqueued) ?_
      rw [hioLoop₀]
      exact h.loop_le hc
  · dsimp only at he
    rw [hframe.calls] at he
    rcases hbegins.mem_calls he with he | ⟨c', hc', hstate⟩
    · exact hnot (hei ▸ held_of_call he)
    · rw [hei] at hc'
      exact hconnected c' hc' hstate
  · exact hnot (held_of_kept hkept)
  · obtain ⟨f, hf, howns, hfi⟩ := holds_iff.mp hholds
    exact hfunctors l f hfi howns hf (hl.trans hdealt.le)

/-- The connections that nobody holds after a step are destroyed, and those that have been destroyed
before are among them. -/
theorem release_freed (hconns : ∀ i, m.freed i = true →
      (n.loops.conns i).isSome = true ∧ n.held i = false) (hfreed : n.freed = m.freed) (i : Nat) :
    n.release.freed i = ((n.loops.conns i).isSome && !n.held i) := by
  change (n.freed i || _) = _
  rw [hfreed]
  cases hi : m.freed i with
  | false => rfl
  | true =>
    obtain ⟨hsome, hheld⟩ := hconns i hi
    rw [hsome, hheld]
    rfl

theorem Alive.server (h : Alive threads m) {a : ServerStep} (hkernel : m.loops.KernelKeeps a)
    (htime : m.loops.QueuedInTime a) :
    ∃ n, m.step (.server a) = .ok n ∧ Alive threads n := by
  obtain ⟨t, ht, hsound⟩ := h.sound.step hkernel
  obtain ⟨u, hbegins, hframe⟩ := step_begins ht
  have hdealt := h.dealt.step ht
  have hloops : t.threadPool.loops = m.loops.threadPool.loops := hdealt.loops.trans h.dealt.loops.symm
  have hfree : (uses m.loops a).any m.freed = false := by
    rw [List.any_eq_false]
    intro i hi
    rw [h.not_freed (h.held_of_uses hi)]
    exact Bool.false_ne_true
  refine ⟨release { m with loops := t, functors := m.loops.vectors m.functors a }, ?_, ?_⟩
  · rw [ServerMemory.step, hfree, ht]
    rfl
  · refine ⟨hsound, hdealt, fun l => ?_, ?_, ?_, ?_⟩
    · show Fills (m.loops.vectors m.functors a l) (t.places l)
      rw [hframe.places]
      exact h.vectors.begins hbegins l
    · exact (h.behind.begins hbegins htime).frame hframe hsound
    · exact (h.handles.begins hbegins h.sound hkernel).frame hframe
    · refine release_freed ?_ rfl
      intro i hfreed
      obtain ⟨⟨c, hc⟩, hheld⟩ := h.not_held hfreed
      have huses : i ∉ uses m.loops a := by
        intro hi
        rw [h.held_of_uses hi] at hheld
        cases hheld
      refine ⟨?_, h.not_held_step hbegins hframe hsound hloops hc hheld huses⟩
      rw [show (t.conns i).isSome = true ↔ _ from hsound.named.accepted i, hframe.accepted]
      exact (h.sound.lt_accepted hc).trans_le hbegins.accepted_le

theorem Alive.step (h : Alive threads m) {a : MemoryStep} (hkernel : m.KernelKeeps a)
    (htime : m.QueuedInTime a) : ∃ n, m.step a = .ok n ∧ Alive threads n := by
  cases a with
  | server a => exact h.server hkernel htime
  | keep i =>
    refine ⟨_, rfl, ?_⟩
    split
    · rename_i hi
      rw [Bool.and_eq_true, Bool.not_eq_true', Option.any_eq_true] at hi
      obtain ⟨⟨c, hc, -⟩, hlive⟩ := hi
      -- The connection is held already.
      have hheld : m.held i = true := by
        simpa [hc, hlive] using h.freed i
      have hsame : ∀ j, ServerMemory.held { m with kept := i :: m.kept } j = m.held j := by
        intro j
        rw [Bool.eq_iff_iff]
        constructor
        · intro hnow
          by_cases hj : j = i
          · subst hj
            exact hheld
          · exact held_mono hnow rfl rfl fun hkept => (List.mem_cons.mp hkept).resolve_left hj
        · exact fun hbefore => held_mono hbefore rfl rfl (List.mem_cons_of_mem i)
      refine ⟨h.sound, h.dealt, h.vectors, h.behind, h.handles, ?_⟩
      intro j
      rw [hsame]
      exact h.freed j
    · exact h
  | drop i =>
    refine ⟨_, rfl, h.sound, h.dealt, h.vectors, h.behind, h.handles, ?_⟩
    refine release_freed (m := m) ?_ rfl
    intro j hfreed
    obtain ⟨⟨c, hc⟩, hheld⟩ := h.not_held hfreed
    refine ⟨by rw [hc]; rfl, ?_⟩
    rw [Bool.eq_false_iff] at hheld ⊢
    exact fun hnow => hheld (held_mono hnow rfl rfl List.mem_of_mem_erase)

/-- `connectDestroyed` has run, outside the handling of events, for a connection that nobody holds. -/
theorem Alive.gone (h : Alive threads m) (hfreed : m.freed i = true) :
    ∃ c, m.loops.conns i = some c ∧ c.conn.state = .kDisconnected ∧ c.destroyed = [false] := by
  obtain ⟨⟨c, hc⟩, hheld⟩ := h.not_held hfreed
  obtain ⟨stage, hlives⟩ := h.sound.lives i c hc
  obtain rfl : stage = .destroyed := by
    have hcalls := hlives.destroyed
    cases stage with
    | destroyed => rfl
    | accepted | up | closed | removed =>
      rw [h.held_of_not_destroyed hc hcalls] at hheld
      cases hheld
  exact ⟨c, hc, hlives.holds.1, hlives.destroyed⟩

theorem alive_new (threads : Nat) (listenAddr : InetAddress) (nameArg : Bytes)
    (writeCompleteCallback : Bool) :
    Alive threads (new threads listenAddr nameArg writeCompleteCallback) where
  sound := sound_new threads listenAddr nameArg writeCompleteCallback
  dealt := by
    refine ⟨rfl, fun _ => (Nat.zero_mod threads).symm, ?_⟩
    intro i c hc
    cases hc
  vectors := fun _ => rfl
  behind := by
    constructor
    · intro l f c hc
      cases hc
    · intro l f c hc
      cases hc
  handles := by
    intro l callbacks hl
    cases hl
  freed := fun _ => rfl

/-- A run whose calls of `send` and `shutdown` queue their functors in time. -/
theorem run_alive (threads : Nat) (listenAddr : InetAddress) (nameArg : Bytes)
    (writeCompleteCallback : Bool) (steps : List MemoryStep)
    (hkeeps : Along step (fun m a => m.KernelKeeps a ∧ m.QueuedInTime a)
      (new threads listenAddr nameArg writeCompleteCallback) steps) :
    ∃ m, run step (new threads listenAddr nameArg writeCompleteCallback) steps = .ok m ∧
      Alive threads m :=
  hkeeps.run_total (fun _ _ h hkeeps => h.step hkeeps.1 hkeeps.2)
    (alive_new threads listenAddr nameArg writeCompleteCallback)

/-- Under every order of the steps in which `send` and `shutdown` queue their functors before a round
takes `connectDestroyed`, no call fails or uses a connection that has been destroyed; a connection is
established once, and once it is closed it is removed and destroyed once, and the user is told once of
either. -/
theorem connections_live_once (threads : Nat) (listenAddr : InetAddress) (nameArg : Bytes)
    (writeCompleteCallback : Bool) (steps : List MemoryStep)
    (hkeeps : Along step (fun m a => m.KernelKeeps a ∧ m.QueuedInTime a)
      (new threads listenAddr nameArg writeCompleteCallback) steps) :
    ∃ m, run step (new threads listenAddr nameArg writeCompleteCallback) steps = .ok m ∧
      Lifecycle m.loops := by
  obtain ⟨m, hrun, halive⟩ := run_alive threads listenAddr nameArg writeCompleteCallback steps hkeeps
  exact ⟨m, hrun, halive.sound.lifecycle⟩

/-- A client connects and sends a byte, and goes while the user shuts the connection down. -/
def comeAndGo : List MemoryStep :=
  List.map .server
    [.poll 0 16 [], .accept 7, .beginRound 0, .endRound 0,
      .poll 1 16 [], .beginRound 1, .functor 1 0 .failed, .endRound 1,
      .send 0 [65], .shutdown 0, .queue 0,
      .poll 1 16 [(7, POLLHUP)], .callback 1 .error .failed, .queue 0, .beginRound 1,
      .functor 1 0 .failed, .functor 1 0 .failed, .endRound 1,
      .poll 0 16 [], .beginRound 0, .functor 0 0 .failed, .endRound 0,
      .poll 1 16 [], .beginRound 1, .functor 1 0 .failed, .endRound 1]

theorem connections_live_once_comeAndGo :
    (∃ m, run step (new 1 ⟨(127, 0, 0, 1), 8000⟩ [] true) comeAndGo = .ok m ∧ Lifecycle m.loops) ∧
      (run step (new 1 ⟨(127, 0, 0, 1), 8000⟩ [] true) comeAndGo).map (fun m =>
        (m.loops.conns 0).map fun c =>
          (c.established, c.conn.connectionCalls, c.conn.closeCalls, c.destroyed)) =
            .ok (some (1, [true, false], 1, [false])) :=
  ⟨connections_live_once 1 ⟨(127, 0, 0, 1), 8000⟩ [] true comeAndGo (by decide +kernel),
    by decide +kernel⟩

/-- A thread finds the connection connected, and queues its functor when `connectDestroyed` is being
called. -/
def lateSend : List MemoryStep :=
  List.map .server
    [.poll 0 16 [], .accept 7, .beginRound 0, .endRound 0,
      .poll 1 16 [], .beginRound 1, .functor 1 0 .failed, .endRound 1,
      .send 0 [65],
      .poll 1 16 [(7, POLLHUP)], .callback 1 .error .failed, .beginRound 1, .endRound 1,
      .poll 0 16 [], .beginRound 0, .functor 0 0 .failed, .endRound 0,
      .poll 1 16 [], .beginRound 1, .queue 0, .functor 1 0 .failed, .endRound 1,
      .poll 1 16 [], .beginRound 1, .functor 1 0 .failed]

/-- `sendInLoop` is called on a connection that has been destroyed. -/
theorem lateSend_dangles :
    Along step KernelKeeps (new 1 ⟨(127, 0, 0, 1), 8000⟩ [] true) lateSend ∧
      run step (new 1 ⟨(127, 0, 0, 1), 8000⟩ [] true) lateSend = .error .danglingPointer := by
  have hrun : (run step (new 1 ⟨(127, 0, 0, 1), 8000⟩ [] true) lateSend).map (fun _ => ()) =
      .error .danglingPointer := by decide +kernel
  exact ⟨by decide +kernel, map_eq_error.mp hrun⟩

/-! ### The pointers to a connection -/

/-- Whoever has a pointer to a connection, or its bare address, has one to a connection that has not
been destroyed. -/
structure Sheltered (m : ServerMemory) : Prop where
  connections : ∀ name i, m.loops.server.connections name = some i → m.freed i = false
  channels : ∀ l fd i, (m.loops.loops l).poller.channels fd = some i → m.freed i = false
  interest : ∀ l fd i events, (m.loops.loops l).poller.interest fd = some (i, events) →
    m.freed i = false
  callbacks : ∀ l callbacks, m.loops.places l = .handling callbacks → ∀ e ∈ callbacks,
    m.freed e.1 = false
  functors : ∀ l, ∀ f ∈ m.loops.queued l, m.freed f.conn = false
  calls : ∀ e ∈ m.loops.calls, m.freed e.1 = false
  kept : ∀ i ∈ m.kept, m.freed i = false

/-- A channel that a poller has is that of a connection that has not been destroyed. -/
theorem Alive.held_of_channel (h : Alive threads m) {fd : Nat}
    (hchannels : (m.loops.loops l).poller.channels fd = some i) : m.held i = true := by
  obtain ⟨j, d, hd, rfl, rfl, hdestroyed⟩ := h.sound.wired.owned l fd (.inl (by simp [hchannels]))
  obtain ⟨stage, hlives⟩ := h.sound.lives j d hd
  have htracks := hlives.tracks (by
    rintro rfl
    exact absurd (hlives.destroyed.symm.trans hdestroyed) (by simp [Stage.destroyCalls]))
  have hptr : d.conn.channel.ptr = i := by
    unfold EPollPoller.Tracks at htracks
    split at htracks
    all_goals rw [hchannels] at htracks
    · cases htracks.1
    · exact (Option.some.inj htracks.1).symm
    · exact (Option.some.inj htracks.1).symm
  rw [← hptr, hlives.ptr]
  exact h.held_of_not_destroyed hd hdestroyed

theorem Alive.sheltered (h : Alive threads m) : Sheltered m where
  connections name i hname := by
    obtain ⟨c, hc, rfl, -⟩ := (h.sound.named.connections name i).mp hname
    exact h.not_freed (held_of_connections hc hname)
  channels l fd i hchannels := h.not_freed (h.held_of_channel hchannels)
  interest l fd i events hinterest := by
    obtain ⟨c, hc, -, -, -, hup⟩ := h.sound.interest hinterest
    exact h.not_freed (h.held_of_not_destroyed hc hup.destroyed)
  callbacks l callbacks hplace e he := h.not_freed (h.held_of_callback hplace he)
  functors l f hf := h.not_freed (h.held_of_due hf)
  calls e he := h.not_freed (held_of_call he)
  kept i hi := h.not_freed (held_of_kept hi)

/-- In every run in which `send` and `shutdown` queue their functors before a round takes
`connectDestroyed`, no callback, functor or poll uses a connection that has been destroyed, and nobody
has a pointer to one.  A connection is destroyed as soon as nobody holds it, and then it is
disconnected, and `connectDestroyed` has run once, outside the handling of events. -/
theorem connections_outlive_calls (threads : Nat) (listenAddr : InetAddress) (nameArg : Bytes)
    (writeCompleteCallback : Bool) (steps : List MemoryStep)
    (hkeeps : Along step (fun m a => m.KernelKeeps a ∧ m.QueuedInTime a)
      (new threads listenAddr nameArg writeCompleteCallback) steps) :
    ∃ m, run step (new threads listenAddr nameArg writeCompleteCallback) steps = .ok m ∧
      Sheltered m ∧ (∀ i < m.loops.accepted, m.freed i = true ↔ m.held i = false) ∧
      ∀ i, m.freed i = true →
        ∃ c, m.loops.conns i = some c ∧ c.conn.state = .kDisconnected ∧ c.destroyed = [false] := by
  obtain ⟨m, hrun, halive⟩ := run_alive threads listenAddr nameArg writeCompleteCallback steps hkeeps
  refine ⟨m, hrun, halive.sheltered, ?_, fun i => halive.gone⟩
  intro i hi
  rw [halive.freed, (halive.sound.named.accepted i).mpr hi]
  simp

/-- The user keeps a pointer to the connection until it has been closed. -/
def keepAndDrop : List MemoryStep :=
  comeAndGo.take 8 ++ .keep 0 :: comeAndGo.drop 8 ++ [.drop 0]

theorem connections_outlive_calls_keepAndDrop :
    (∃ m, run step (new 1 ⟨(127, 0, 0, 1), 8000⟩ [] true) keepAndDrop = .ok m ∧ Sheltered m) ∧
      (run step (new 1 ⟨(127, 0, 0, 1), 8000⟩ [] true) keepAndDrop.dropLast).map (fun m =>
        (m.kept, m.freed 0)) = .ok ([0], false) ∧
      (run step (new 1 ⟨(127, 0, 0, 1), 8000⟩ [] true) keepAndDrop).map (fun m =>
        (m.kept, m.freed 0)) = .ok ([], true) := by
  refine ⟨?_, by decide +kernel, by decide +kernel⟩
  obtain ⟨m, hrun, hsheltered, -⟩ := connections_outlive_calls 1
    ⟨(127, 0, 0, 1), 8000⟩ [] true keepAndDrop (by decide +kernel)
  exact ⟨m, hrun, hsheltered⟩

/-! ### What is left behind -/

/-- No loop is in a round of functors, nothing is queued, and no call is under way. -/
structure Settled (s : ServerLoops) : Prop where
  calls : s.calls = []
  places : ∀ l rest, s.places l ≠ .calling rest
  pending : ∀ l, (s.loops l).pendingFunctors = []

theorem Settled.queued {s : ServerLoops} (h : Settled s) (l : Nat) : s.queued l = [] := by
  rw [queued_eq, h.pending]
  cases hp : s.places l with
  | calling rest => exact absurd hp (h.places l rest)
  | polling | handling callbacks => rfl

/-- A connection of a settled server is established or destroyed. -/
theorem Settled.stage {s : ServerLoops} (h : Settled s) {stage : Stage}
    (hlives : Lives none s i c stage) : stage = .up ∨ stage = .destroyed := by
  have hnone : stage.hop i = none := by
    rw [Option.eq_none_iff_forall_ne_some]
    intro f hf
    have hconn : f.conn = i := by
      cases stage <;> cases hf <;> rfl
    have hone := hlives.hops (f.home c.ioLoop) f hconn (isHop_of_hop hf)
    rw [if_pos ⟨hf, rfl⟩, due_none, h.queued] at hone
    cases hone
  cases stage with
  | up => exact .inl rfl
  | destroyed => exact .inr rfl
  | accepted | closed | removed => cases hnone

end ServerMemory

end Mymuduo

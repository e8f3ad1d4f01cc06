import Mymuduo.Net.ServerLifecycle
import Mymuduo.Net.ServerPhases

/-! The destructor of a server, which calls `connectDestroyed` for every connection that is still in
`connections_`: at once for those of the base loop, and by a functor for the others.  The I/O loops
and the threads of the user go on while it runs, and the user can force connections closed at any
time. -/

namespace Mymuduo

open Lib

namespace ServerLoops

variable {s t : ServerLoops} {i l : Nat} {c : ServerConnection}

/-- `TcpConnection::forceClose`, up to its functor, by a user who has been told of the connection. -/
def forceClose (s : ServerLoops) (i : Nat) : ServerLoops :=
  match s.conns i with
  | some c =>
    if Known c ∧ (c.conn.state = .kConnected ∨ c.conn.state = .kDisconnecting) then
      setConn { s with calls := s.calls ++ [(i, .forceCloseInLoop)] } i
        { c with conn := { c.conn with state := .kDisconnected } }
    else s
  | none => s

/-- What the destructor does to one connection of `connections_`, on the thread of the base loop. -/
def destroyConnection (s : ServerLoops) (i : Nat) : Except Fault ServerLoops :=
  match s.conns i with
  | none => .error .danglingPointer
  | some c =>
    if c.ioLoop = 0 then s.connectDestroyed 0 i
    else .ok (s.queueInLoop c.ioLoop false (.ofConnection i .connectDestroyed))

/-- The connections of `connections_`, in some order. -/
def Lists (s : ServerLoops) (order : List Nat) : Prop :=
  order.Nodup ∧ (∀ i ∈ order, (s.conns i).isSome = true) ∧
    ∀ i < s.accepted, ∀ c ∈ s.conns i,
      i ∈ order ↔ s.server.connections c.name = some i

instance (s : ServerLoops) (order : List Nat) : Decidable (s.Lists order) :=
  inferInstanceAs (Decidable (_ ∧ _ ∧ _))

/-- Connection `i` is connected or has been closed, and its events are not being handled. -/
def Fit (s : ServerLoops) (i : Nat) : Prop :=
  ∀ c ∈ s.conns i, TcpConnection.Destroyable (s.viewed c) ∧ ¬TcpConnection.Handled (s.viewed c)

instance (s : ServerLoops) (i : Nat) : Decidable (s.Fit i) :=
  inferInstanceAs (Decidable (∀ c ∈ s.conns i,
    (c.conn.state = .kConnected ∨ c.conn.channel.index = .kDeleted) ∧
      ¬((s.loops c.ioLoop).eventHandling = true ∧
        c.conn.channel.ptr ∈ (s.loops c.ioLoop).activeChannels)))

/-- `connectDestroyed` has run for connection `i`, or is queued in its loop. -/
def Doomed (s : ServerLoops) (i : Nat) : Prop :=
  ∃ c, s.conns i = some c ∧
    (c.destroyed ≠ [] ∨ .ofConnection i .connectDestroyed ∈ s.queued c.ioLoop)

end ServerLoops

/-- The destructor on its way: the connections that `connections_` had, and those of them that it has
not come to. -/
structure ServerDestructor where
  order : List Nat
  rest : List Nat
  deriving DecidableEq, Repr

/-- A server, and its destructor if it has been called. -/
structure ServerTeardown where
  loops : ServerLoops
  destructor : Option ServerDestructor

/-- A step of a thread of the server, a call of `forceClose`, the call of the destructor, or the
destructor goes on to the next connection. -/
inductive TeardownStep
  | server (a : ServerStep)
  | forceClose (conn : Nat)
  | destroy (order : List Nat)
  | next
  deriving DecidableEq, Repr

namespace ServerTeardown

open ServerLoops

def new (threads : Nat) (listenAddr : InetAddress) (nameArg : Bytes)
    (writeCompleteCallback : Bool) : ServerTeardown where
  loops := .new threads listenAddr nameArg writeCompleteCallback
  destructor := none

/-- A step of the base loop.  Its thread does not come to it once it is in the destructor, which
waits for the threads of the other loops. -/
def ofBaseLoop : ServerStep → Bool
  | .accept _ => true
  | .poll l .. | .callback l .. | .beginRound l | .functor l .. | .endRound l => l == 0
  | .send .. | .shutdown _ | .queue _ | .sendInLoop .. | .shutdownInLoop .. => false

/-- The step is not taken. -/
def omits (d : ServerTeardown) (a : ServerStep) : Bool := d.destructor.isSome && ofBaseLoop a

def step (d : ServerTeardown) : TeardownStep → Except Fault ServerTeardown
  | .server a =>
    if d.omits a then .ok d
    else do
      let loops ← d.loops.step a
      return { d with loops := loops }
  | .forceClose i => .ok { d with loops := d.loops.forceClose i }
  | .destroy order =>
    .ok (if d.destructor = none ∧ d.loops.Lists order then
      { d with destructor := some { order := order, rest := order } } else d)
  | .next =>
    match d.destructor with
    | some { order := order, rest := i :: rest } => do
      let loops ← d.loops.destroyConnection i
      return { loops := loops, destructor := some { order := order, rest := rest } }
    | _ => .ok d

def KernelKeeps (d : ServerTeardown) : TeardownStep → Prop
  | .server a => d.loops.KernelKeeps a
  | .forceClose _ | .destroy _ | .next => True

instance (d : ServerTeardown) : (a : TeardownStep) → Decidable (d.KernelKeeps a)
  | .server a => inferInstanceAs (Decidable (d.loops.KernelKeeps a))
  | .forceClose _ | .destroy _ | .next => .isTrue trivial

/-- The connection whose `connectDestroyed` the step calls. -/
def destroys (d : ServerTeardown) : TeardownStep → Option Nat
  | .server (.functor l preceding w) =>
    if d.omits (.functor l preceding w) then none
    else match d.loops.places l with
      | .calling (.ofConnection i .connectDestroyed :: _) => some i
      | _ => none
  | .next =>
    match d.destructor with
    | some { order := _, rest := i :: _ } =>
      if ∃ c ∈ d.loops.conns i, c.ioLoop = 0 then some i else none
    | _ => none
  | .server _ | .forceClose _ | .destroy _ => none

/-- A step of the destructor, or one that calls `connectDestroyed`, returns, and it tears the
connection down whose `connectDestroyed` it calls. -/
def TearsDown (d : ServerTeardown) (a : TeardownStep) : Prop :=
  a = .next ∨ (d.destroys a).isSome = true →
    ∃ e, d.step a = .ok e ∧ ∀ i ∈ d.destroys a, e.loops.TornDown i

/-- The connection whose `connectDestroyed` the step calls is fit for it. -/
def FitNext (d : ServerTeardown) (a : TeardownStep) : Prop := ∀ i ∈ d.destroys a, d.loops.Fit i

instance (d : ServerTeardown) (a : TeardownStep) : Decidable (d.FitNext a) :=
  inferInstanceAs (Decidable (∀ i ∈ d.destroys a, d.loops.Fit i))

end ServerTeardown

namespace ServerLoops

variable {s t : ServerLoops} {i l : Nat} {c : ServerConnection}

theorem Orderly.forceClose (h : Orderly s) : Orderly (s.forceClose i) := by
  unfold ServerLoops.forceClose
  split
  · rename_i c hc
    split
    · rename_i hopen
      have halike : Alike c { c with conn := { c.conn with state := .kDisconnected } } :=
        ⟨rfl, rfl, rfl, rfl, rfl, rfl, rfl, .inr ⟨hopen.2, by simp⟩⟩
      refine h.setConn hc halike rfl rfl rfl ?_ rfl
      intro e he
      refine (List.mem_append.mp he).imp_right ?_
      intro he
      rw [List.mem_singleton.mp he]
      exact ⟨by simp, _, Function.update_self .., hopen.1⟩
    · exact h
  · exact h

theorem Orderly.destroyConnection (h : Orderly s) (ht : s.destroyConnection i = .ok t) :
    Orderly t := by
  unfold ServerLoops.destroyConnection at ht
  split at ht
  · cases ht
  · rename_i c hc
    split at ht
    · exact (h.connectDestroyed ht).1
    · cases ht
      refine h.queueInLoop (f := .ofConnection i .connectDestroyed) false ⟨c, hc, ?_, fun _ => rfl⟩
      exact fun hhop => by cases hhop

/-- `connectDestroyed` tears a connection down exactly if it is fit for it. -/
theorem Orderly.fit_iff (h : Orderly s) (hc : s.conns i = some c) (hl : c.ioLoop = l) :
    (∃ t, s.connectDestroyed l i = .ok t ∧ t.TornDown i) ↔ s.Fit i := by
  have hfit : s.Fit i ↔
      TcpConnection.Destroyable (s.viewed c) ∧ ¬TcpConnection.Handled (s.viewed c) := by
    constructor
    · exact fun hall => hall c hc
    · rintro hone d hd
      cases hc.symm.trans hd
      exact hone
  rw [hfit, ← h.connectDestroyed_iff hc hl]
  constructor
  · rintro ⟨t, ht, -⟩
    exact ⟨t, ht⟩
  · rintro ⟨t, ht⟩
    obtain ⟨horderly, d, hd, hdestroyed⟩ := h.connectDestroyed ht
    exact ⟨t, ht, horderly.tornDown hd hdestroyed⟩

/-! ### Connections whose `connectDestroyed` is queued -/

theorem Doomed.mono (h : Doomed s i)
    (hconns : ∀ c, s.conns i = some c → ∃ d, t.conns i = some d ∧ d.ioLoop = c.ioLoop ∧
      (c.destroyed ≠ [] → d.destroyed ≠ []))
    (hqueued : ∀ l, .ofConnection i .connectDestroyed ∈ s.queued l →
      .ofConnection i .connectDestroyed ∈ t.queued l) : Doomed t i := by
  obtain ⟨c, hc, hdoomed⟩ := h
  obtain ⟨d, hd, hioLoop, hdestroyed⟩ := hconns c hc
  refine ⟨d, hd, hdoomed.imp hdestroyed ?_⟩
  rw [hioLoop]
  exact hqueued c.ioLoop

theorem Doomed.forceClose {j : Nat} (h : Doomed s i) : Doomed (s.forceClose j) i := by
  unfold ServerLoops.forceClose
  split
  · rename_i c hc
    split
    · refine h.mono ?_ fun _ => id
      intro d hd
      by_cases hi : i = j
      · subst hi
        cases hc.symm.trans hd
        exact ⟨_, Function.update_self .., rfl, id⟩
      · exact ⟨d, by simpa [setConn, hi] using hd, rfl, id⟩
    · exact h
  · exact h

theorem Doomed.frame {who : List Nat} (h : Doomed s i) (hframe : Frame who s t)
    (hsome : (t.conns i).isSome = true) : Doomed t i := by
  obtain ⟨d, hd⟩ := Option.isSome_iff_exists.mp hsome
  obtain ⟨c, hc, hioLoop, hdestroyed, -⟩ := hframe.conns i d hd
  refine h.mono ?_ ?_
  · intro c' hc'
    cases hc.symm.trans hc'
    exact ⟨d, hd, hioLoop, fun hnot => by rwa [hdestroyed]⟩
  · intro l hf
    rw [queued, hframe.places]
    exact (List.mem_append.mp hf).elim (List.mem_append_left _)
      fun hpending => List.mem_append_right _ (hframe.mem_pending hpending)

/-- What a step takes out of the queues by itself is the functor that it calls. -/
theorem Begins.mem_queued {a : ServerStep} {f : ServerFunctor} (h : Begins s a t)
    (hf : f ∈ s.queued l)
    (hnot : ∀ preceding w rest, a = .functor l preceding w → s.places l ≠ .calling (f :: rest)) :
    f ∈ t.queued l := by
  cases h with
  | same | accept | send | shutdown => exact hf
  | @poll l' size ready t place polled =>
    obtain ⟨⟨size', heap, active⟩, -, hpoll⟩ := bind_eq_ok.mp polled
    cases hpoll
    by_cases hl : l = l'
    · subst hl
      simpa [queued, setPlace, setLoop, setHeap, place] using hf
    · simpa [queued, setPlace, setLoop, setHeap, hl] using hf
  | @callback l' i k rest r w place =>
    by_cases hl : l = l'
    · subst hl
      simpa [queued, setPlace, place] using hf
    · simpa [queued, setPlace, hl] using hf
  | @beginRound l' place =>
    by_cases hl : l = l'
    · subst hl
      simpa [queued, setPlace, setLoop, place] using hf
    · simpa [queued, setPlace, setLoop, hl] using hf
  | @functor l' g rest preceding w place =>
    by_cases hl : l = l'
    · subst hl
      rw [queued_calling place] at hf
      refine (List.mem_cons.mp hf).resolve_left ?_
      rintro rfl
      exact hnot preceding w rest rfl place
    · simpa [queued, setPlace, hl] using hf
  | @connectDestroyed l' i c rest preceding w place conn =>
    by_cases hl : l = l'
    · subst hl
      rw [queued_calling place] at hf
      refine (List.mem_cons.mp hf).resolve_left ?_
      rintro rfl
      exact hnot preceding w rest rfl place
    · simpa [queued, destroyedIn, record, setPlace, hl] using hf
  | @endRound l' place =>
    by_cases hl : l = l'
    · subst hl
      simpa [queued, setPlace, setLoop, place] using hf
    · simpa [queued, setPlace, setLoop, hl] using hf
  | queue =>
    rw [queued_queueInLoop]
    exact List.mem_append_left _ hf

theorem accepted_le_step {a : ServerStep} (ht : s.step a = .ok t) : s.accepted ≤ t.accepted := by
  obtain ⟨u, hbegins, hframe⟩ := step_begins ht
  rw [hframe.accepted]
  exact hbegins.accepted_le

/-- A functor that is queued is called some time, or stays in the queue. -/
theorem Doomed.step {a : ServerStep} (h : Doomed s i) (hs : Orderly s) (ht' : Orderly t)
    (ht : s.step a = .ok t) : Doomed t i := by
  obtain ⟨c, hc, -⟩ := id h
  have hi : i < s.accepted := hs.lt_accepted hc
  by_cases hhead : ∃ l preceding w rest, a = .functor l preceding w ∧
      s.places l = .calling (.ofConnection i .connectDestroyed :: rest)
  · obtain ⟨l, preceding, w, rest, rfl, hplace⟩ := hhead
    rw [ServerLoops.step, hplace] at ht
    obtain ⟨-, d, hd, hdestroyed⟩ := (hs.takeFunctor hplace).connectDestroyed ht
    exact ⟨d, hd, .inl hdestroyed⟩
  · obtain ⟨u, hbegins, hframe⟩ := step_begins ht
    have hsome : (t.conns i).isSome = true :=
      (ht'.accepted i).mpr (hi.trans_le (accepted_le_step ht))
    obtain ⟨d, hd⟩ := Option.isSome_iff_exists.mp hsome
    obtain ⟨e, he, -⟩ := hframe.conns i d hd
    refine Doomed.frame (h.mono ?_ ?_) hframe hsome
    · intro c hc
      obtain ⟨c', hc', hioLoop, -, hdestroyed⟩ := hbegins.of_conns he hi.ne
      cases hc.symm.trans hc'
      exact ⟨e, he, hioLoop, hdestroyed⟩
    · intro l hf
      refine hbegins.mem_queued hf ?_
      intro preceding w rest ha hplace
      exact hhead ⟨l, preceding, w, rest, ha, hplace⟩

theorem connectDestroyed_frame (ht : s.connectDestroyed l i = .ok t) :
    Frame [i] (s.destroyedIn l i) t :=
  (onConnection_frame (fun _ _ hc hd => hc.connectDestroyed hd) ht).1

theorem Doomed.connectDestroyed {j : Nat} (h : Doomed s i) (hs : Orderly s) (ht' : Orderly t)
    (ht : s.connectDestroyed l j = .ok t) : Doomed t i := by
  have hframe := connectDestroyed_frame ht
  obtain ⟨c, hc, -⟩ := id h
  have hsome : (t.conns i).isSome = true := by
    rw [ht'.accepted, hframe.accepted]
    exact hs.lt_accepted hc
  have hcalled : Doomed (s.destroyedIn l j) i := by
    refine h.mono ?_ fun _ => id
    intro c hc
    rw [destroyedIn_conns]
    by_cases hi : i = j
    · rw [if_pos hi, ← hi, hc]
      exact ⟨_, rfl, rfl, by simp⟩
    · rw [if_neg hi]
      exact ⟨c, hc, rfl, id⟩
  exact hcalled.frame hframe hsome

/-- The destructor takes care of the connection, and of no other one. -/
theorem Orderly.destroyConnection_doomed (hs : Orderly s) (ht : s.destroyConnection i = .ok t) :
    s.accepted = t.accepted ∧ Doomed t i ∧ ∀ j, Doomed s j → Doomed t j := by
  have ht' := hs.destroyConnection ht
  unfold ServerLoops.destroyConnection at ht
  split at ht
  · cases ht
  · rename_i c hc
    split at ht
    · obtain ⟨-, d, hd, hdestroyed⟩ := hs.connectDestroyed ht
      exact ⟨(connectDestroyed_frame ht).accepted.symm, ⟨d, hd, .inl hdestroyed⟩,
        fun j hj => hj.connectDestroyed hs ht' ht⟩
    · cases ht
      refine ⟨rfl, ⟨c, hc, .inr ?_⟩, ?_⟩
      · rw [queued_queueInLoop, if_pos rfl]
        exact List.mem_append_right _ List.mem_cons_self
      · intro j hj
        refine hj.mono (fun d hd => ⟨d, hd, rfl, id⟩) ?_
        intro l hf
        rw [queued_queueInLoop]
        exact List.mem_append_left _ hf

end ServerLoops

namespace ServerTeardown

open ServerLoops

variable {d e : ServerTeardown} {i : Nat}

/-- What every state keeps: the destructor has not lost a connection. -/
structure Proceeds (d : ServerTeardown) : Prop where
  orderly : Orderly d.loops
  rest : ∀ x ∈ d.destructor, ∀ i ∈ x.rest, i < d.loops.accepted
  order : ∀ x ∈ d.destructor, ∀ i ∈ x.order, i ∈ x.rest ∨ Doomed d.loops i

theorem Proceeds.step (h : Proceeds d) {a : TeardownStep} (hkernel : d.KernelKeeps a)
    (he : d.step a = .ok e) : Proceeds e := by
  cases a with
  | server a =>
    dsimp only [ServerTeardown.step] at he
    split at he
    · cases he
      exact h
    · obtain ⟨t, ht, he⟩ := bind_eq_ok.mp he
      cases he
      have ht' := h.orderly.step hkernel ht
      refine ⟨ht', ?_, ?_⟩
      · intro x hx i hi
        exact (h.rest x hx i hi).trans_le (accepted_le_step ht)
      · intro x hx i hi
        exact (h.order x hx i hi).imp_right fun hdoomed => hdoomed.step h.orderly ht' ht
  | forceClose j =>
    cases he
    refine ⟨h.orderly.forceClose, ?_, ?_⟩
    · intro x hx i hi
      have hlt := h.rest x hx i hi
      unfold ServerLoops.forceClose
      split
      · split <;> exact hlt
      · exact hlt
    · intro x hx i hi
      exact (h.order x hx i hi).imp_right Doomed.forceClose
  | destroy order =>
    cases he
    split
    · rename_i hlists
      refine ⟨h.orderly, ?_, ?_⟩
      · rintro x ⟨⟩ i hi
        exact (h.orderly.accepted i).mp (hlists.2.2.1 i hi)
      · rintro x ⟨⟩ i hi
        exact .inl hi
    · exact h
  | next =>
    dsimp only [ServerTeardown.step] at he
    split at he
    · rename_i order i rest hdestructor
      obtain ⟨t, ht, he⟩ := bind_eq_ok.mp he
      cases he
      obtain ⟨haccepted, hdoomed, hothers⟩ := h.orderly.destroyConnection_doomed ht
      refine ⟨h.orderly.destroyConnection ht, ?_, ?_⟩
      · rintro x ⟨⟩ j hj
        rw [← haccepted]
        exact h.rest _ hdestructor j (List.mem_cons_of_mem i hj)
      · rintro x ⟨⟩ j hj
        rcases h.order _ hdestructor j hj with hrest | hbefore
        · rcases List.mem_cons.mp hrest with rfl | hrest
          · exact .inr hdoomed
          · exact .inl hrest
        · exact .inr (hothers j hbefore)
    · cases he
      exact h

theorem tearsDown_iff_of_none {a : TeardownStep} (ha : a ≠ .next) (hnone : d.destroys a = none) :
    d.TearsDown a ↔ d.FitNext a := by
  refine iff_of_true ?_ ?_
  · rintro (hnext | hsome)
    · exact absurd hnext ha
    · rw [hnone] at hsome
      cases hsome
  · intro i hi
    rw [hnone] at hi
    cases hi

theorem tearsDown_iff_of_some {a : TeardownStep} (hi : d.destroys a = some i)
    (hfit : (∃ e, d.step a = .ok e ∧ e.loops.TornDown i) ↔ d.loops.Fit i) :
    d.TearsDown a ↔ d.FitNext a := by
  have htorn : d.TearsDown a ↔ ∃ e, d.step a = .ok e ∧ e.loops.TornDown i := by
    constructor
    · intro h
      obtain ⟨e, he, hall⟩ := h (.inr (by rw [hi]; rfl))
      exact ⟨e, he, hall i hi⟩
    · rintro ⟨e, he, hone⟩ -
      refine ⟨e, he, ?_⟩
      rintro j hj
      cases hi.symm.trans hj
      exact hone
  have hnext : d.FitNext a ↔ d.loops.Fit i := by
    constructor
    · exact fun h => h i hi
    · rintro h j hj
      cases hi.symm.trans hj
      exact h
  rw [htorn, hnext, hfit]

/-- The loops go on by `x`, and the server with them. -/
theorem exists_bind {x : Except Fault ServerLoops} {f : ServerLoops → ServerTeardown}
    (hf : ∀ t, (f t).loops = t) :
    (∃ e, (x >>= fun t => .ok (f t)) = .ok e ∧ e.loops.TornDown i) ↔
      ∃ t, x = .ok t ∧ t.TornDown i := by
  constructor
  · rintro ⟨e, he, htorn⟩
    obtain ⟨t, ht, he⟩ := bind_eq_ok.mp he
    cases he
    rw [hf] at htorn
    exact ⟨t, ht, htorn⟩
  · rintro ⟨t, ht, htorn⟩
    refine ⟨f t, by rw [ht]; rfl, ?_⟩
    rwa [hf]

/-- A functor that is `connectDestroyed`. -/
theorem Proceeds.functor_iff (h : Proceeds d) {l : Nat} {preceding : UInt8} {w : WriteResult}
    {rest : List ServerFunctor} (homits : d.omits (.functor l preceding w) = false)
    (hplace : d.loops.places l = .calling (.ofConnection i .connectDestroyed :: rest)) :
    (∃ e, d.step (.server (.functor l preceding w)) = .ok e ∧ e.loops.TornDown i) ↔
      d.loops.Fit i := by
  have hstep : d.step (.server (.functor l preceding w)) =
      (d.loops.setPlace l (.calling rest)).connectDestroyed l i >>=
        fun t => .ok { d with loops := t } := by
    simp only [ServerTeardown.step, homits, ServerLoops.step, hplace]
    rfl
  obtain ⟨c, hc, -, hhome⟩ := h.orderly.queueable l (.ofConnection i .connectDestroyed) (by
    rw [queued_calling hplace]
    exact List.mem_cons_self)
  rw [hstep, exists_bind fun _ => rfl]
  exact (h.orderly.takeFunctor hplace).fit_iff hc (hhome rfl)

/-- A connection of the base loop that the destructor comes to. -/
theorem Proceeds.next_iff (h : Proceeds d) {order rest : List Nat} {c : ServerConnection}
    (hdestructor : d.destructor = some ⟨order, i :: rest⟩) (hc : d.loops.conns i = some c)
    (hbase : c.ioLoop = 0) :
    (∃ e, d.step .next = .ok e ∧ e.loops.TornDown i) ↔ d.loops.Fit i := by
  have hstep : d.step .next = d.loops.connectDestroyed 0 i >>=
      fun t => .ok { loops := t, destructor := some ⟨order, rest⟩ } := by
    simp only [ServerTeardown.step, hdestructor, ServerLoops.destroyConnection, hc, if_pos hbase]
    rfl
  rw [hstep, exists_bind fun _ => rfl]
  exact h.orderly.fit_iff hc hbase

theorem Proceeds.tearsDown_iff (h : Proceeds d) (a : TeardownStep) :
    d.TearsDown a ↔ d.FitNext a := by
  cases a with
  | server a =>
    cases hdestroys : d.destroys (.server a) with
    | none => exact tearsDown_iff_of_none (by simp) hdestroys
    | some i =>
      refine tearsDown_iff_of_some hdestroys ?_
      cases a with
      | functor l preceding w =>
        dsimp only [destroys] at hdestroys
        split at hdestroys
        · cases hdestroys
        · rename_i homits
          split at hdestroys
          · rename_i j rest hplace
            cases hdestroys
            exact h.functor_iff (by simpa using homits) hplace
          · cases hdestroys
      | accept | poll | callback | beginRound | endRound | send | shutdown | queue | sendInLoop
      | shutdownInLoop => cases hdestroys
  | forceClose j => exact tearsDown_iff_of_none (by simp) rfl
  | destroy order => exact tearsDown_iff_of_none (by simp) rfl
  | next =>
    cases hdestroys : d.destroys .next with
    | some i =>
      refine tearsDown_iff_of_some hdestroys ?_
      dsimp only [destroys] at hdestroys
      split at hdestroys
      · rename_i order j rest hdestructor
        split at hdestroys
        · rename_i hbase
          obtain ⟨c, hc, hbase⟩ := hbase
          cases hdestroys
          exact h.next_iff hdestructor hc hbase
        · cases hdestroys
      · cases hdestroys
    | none =>
      -- The destructor only queues the functor.
      refine iff_of_true ?_ ?_
      · rintro -
        suffices hreturns : ∃ e, d.step .next = .ok e by
          obtain ⟨e, he⟩ := hreturns
          refine ⟨e, he, ?_⟩
          rw [hdestroys]
          rintro i ⟨⟩
        dsimp only [destroys, ServerTeardown.step] at hdestroys ⊢
        split
        · rename_i order i rest hdestructor
          rw [hdestructor] at hdestroys
          dsimp only at hdestroys
          have hi : i < d.loops.accepted := h.rest _ hdestructor i List.mem_cons_self
          obtain ⟨c, hc⟩ := Option.isSome_iff_exists.mp ((h.orderly.accepted i).mpr hi)
          have hbase : c.ioLoop ≠ 0 := by
            intro hbase
            rw [if_pos ⟨c, hc, hbase⟩] at hdestroys
            cases hdestroys
          rw [ServerLoops.destroyConnection, hc]
          dsimp only
          rw [if_neg hbase]
          exact ⟨_, rfl⟩
        · exact ⟨d, rfl⟩
      · rw [FitNext, hdestroys]
        rintro i ⟨⟩

theorem proceeds_new (threads : Nat) (listenAddr : InetAddress) (nameArg : Bytes)
    (writeCompleteCallback : Bool) :
    Proceeds (new threads listenAddr nameArg writeCompleteCallback) where
  orderly := orderly_new threads listenAddr nameArg writeCompleteCallback
  rest := by rintro x ⟨⟩
  order := by rintro x ⟨⟩

/-- In every run of the loops, of the user's threads and of the destructor, every call of
`connectDestroyed` tears its connection down if and only if the connection is connected or has been
closed at each of these calls, and its events are not being handled.  From the call of the destructor
on, a connection of `connections_` is one that it has not come to, or has `connectDestroyed` queued in
its loop, or has been torn down. -/
theorem connections_torn_down_iff (threads : Nat) (listenAddr : InetAddress) (nameArg : Bytes)
    (writeCompleteCallback : Bool) (steps : List TeardownStep)
    (hkernel : Along step KernelKeeps (new threads listenAddr nameArg writeCompleteCallback) steps) :
    (Along step TearsDown (new threads listenAddr nameArg writeCompleteCallback) steps ↔
      Along step FitNext (new threads listenAddr nameArg writeCompleteCallback) steps) ∧
    ∀ d, run step (new threads listenAddr nameArg writeCompleteCallback) steps = .ok d →
      ∀ x ∈ d.destructor, ∀ i ∈ x.order,
        i ∈ x.rest ∨
        (∃ c, d.loops.conns i = some c ∧
          .ofConnection i .connectDestroyed ∈ d.loops.queued c.ioLoop) ∨
        d.loops.TornDown i := by
  have hstart := proceeds_new threads listenAddr nameArg writeCompleteCallback
  have hstep : ∀ (d : ServerTeardown) a e, Proceeds d → d.KernelKeeps a → d.step a = .ok e →
      Proceeds e := fun _ _ _ h hkernel he => h.step hkernel he
  refine ⟨hkernel.congr hstep (fun _ a h _ => h.tearsDown_iff a) hstart, ?_⟩
  intro d hrun x hx i hi
  have hend : Proceeds d := hkernel.run_invariant hstep hstart hrun
  refine (hend.order x hx i hi).imp_right ?_
  rintro ⟨c, hc, hdestroyed | hqueued⟩
  · exact .inr (hend.orderly.tornDown hc hdestroyed)
  · exact .inl ⟨c, hc, hqueued⟩

/-- A client has connected. -/
def connect : List TeardownStep :=
  List.map .server
    [.poll 0 16 [], .accept 7, .beginRound 0, .endRound 0,
      .poll 1 16 [], .beginRound 1, .functor 1 0 .failed, .endRound 1]

/-- The server is destroyed, and its loop gets to the functor. -/
def destroy : List TeardownStep :=
  [.destroy [0], .next, .server (.poll 1 16 []), .server (.beginRound 1),
    .server (.functor 1 0 .failed)]

theorem connections_torn_down_iff_connect :
    Along step TearsDown (new 1 ⟨(127, 0, 0, 1), 8000⟩ [] true) (connect ++ destroy) ∧
      ∃ d, run step (new 1 ⟨(127, 0, 0, 1), 8000⟩ [] true) (connect ++ destroy) = .ok d ∧
        d.loops.TornDown 0 := by
  obtain ⟨hiff, hends⟩ := connections_torn_down_iff 1 ⟨(127, 0, 0, 1), 8000⟩ [] true
    (connect ++ destroy) (by decide +kernel)
  have heval : (run step (new 1 ⟨(127, 0, 0, 1), 8000⟩ [] true) (connect ++ destroy)).map
      (fun d => (d.destructor, (d.loops.conns 0).map ServerConnection.ioLoop, d.loops.queued 1)) =
        .ok (some ⟨[0], []⟩, some 1, []) := by
    decide +kernel
  refine ⟨hiff.mpr (by decide +kernel), ?_⟩
  cases hrun : run step (new 1 ⟨(127, 0, 0, 1), 8000⟩ [] true) (connect ++ destroy) with
  | error e =>
    rw [hrun] at heval
    cases heval
  | ok d =>
    rw [hrun] at heval
    obtain ⟨hdestructor, hfields⟩ := Prod.mk.inj (Except.ok.inj heval)
    obtain ⟨hioLoop, hqueued⟩ := Prod.mk.inj hfields
    refine ⟨d, rfl, ?_⟩
    rcases hends d hrun _ hdestructor 0 (by simp) with hrest | ⟨c, hc, hfunctor⟩ | htorn
    · cases hrest
    · rw [hc] at hioLoop
      have hioLoop : c.ioLoop = 1 := Option.some.inj hioLoop
      rw [hioLoop, hqueued] at hfunctor
      cases hfunctor
    · exact htorn

/-- The user sends three bytes, of which the socket takes one, and shuts the connection down. -/
def sendAndShutdown : List TeardownStep :=
  List.map .server
    [.send 0 [65, 66, 67], .queue 0, .shutdown 0, .queue 0,
      .poll 1 16 [], .beginRound 1, .functor 1 0 (.accepted 1), .functor 1 0 .failed, .endRound 1]

/-- The connection has output left, and the functor of the destructor aborts. -/
theorem shutdown_not_torn_down :
    Along step KernelKeeps (new 1 ⟨(127, 0, 0, 1), 8000⟩ [] true)
        (connect ++ sendAndShutdown ++ destroy) ∧
      run step (new 1 ⟨(127, 0, 0, 1), 8000⟩ [] true) (connect ++ sendAndShutdown ++ destroy) =
        .error (.assertion .channelRemove) ∧
      ¬ Along step TearsDown (new 1 ⟨(127, 0, 0, 1), 8000⟩ [] true)
        (connect ++ sendAndShutdown ++ destroy) := by
  have hsplit : connect ++ sendAndShutdown ++ destroy = connect ++ sendAndShutdown ++
      destroy.dropLast ++ [.server (.functor 1 0 .failed)] := by
    decide +kernel
  have heval : (run step (new 1 ⟨(127, 0, 0, 1), 8000⟩ [] true)
      (connect ++ sendAndShutdown ++ destroy.dropLast)).map (fun d =>
        (d.destroys (.server (.functor 1 0 .failed)),
          (d.step (.server (.functor 1 0 .failed))).map fun _ => ())) =
            .ok (some 0, .error (.assertion .channelRemove)) := by
    decide +kernel
  refine ⟨by decide +kernel, ?_⟩
  rw [hsplit]
  cases hrun : run step (new 1 ⟨(127, 0, 0, 1), 8000⟩ [] true)
      (connect ++ sendAndShutdown ++ destroy.dropLast) with
  | error e =>
    rw [hrun] at heval
    cases heval
  | ok d =>
    rw [hrun] at heval
    obtain ⟨hdestroys, hlast⟩ := Prod.mk.inj (Except.ok.inj heval)
    have herror := map_eq_error.mp hlast
    constructor
    · rw [run_append, hrun, ok_bind, run_singleton, herror]
    · rw [along_append_ok hrun]
      rintro ⟨-, hlast, -⟩
      obtain ⟨e, he, -⟩ := hlast (.inr (by rw [hdestroys]; rfl))
      rw [herror] at he
      cases he

end ServerTeardown

end Mymuduo

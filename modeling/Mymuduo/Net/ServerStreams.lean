import Mymuduo.Net.Lifetime

/-! The data of a server's connections.  What the loops write for one connection are the messages that
were sent to it, and what they read is what its socket gave: the connections share loops, queues and
threads, and nothing of one of them gets into another. -/

namespace Mymuduo

open Lib

/-- What happens to the data of a connection: another thread hands a message over to the loop, the
loop calls `sendInLoop` with it, which writes unless the connection is down, the user sends a message
on the loop's own thread, or bytes are read. -/
inductive DataEvent
  | handed (msg : Bytes)
  | called (msg : Bytes) (up : Bool)
  | sent (msg : Bytes)
  | read (bytes : Bytes)
  deriving DecidableEq, Repr

namespace DataEvent

def written : DataEvent → Bytes
  | .called msg true | .sent msg => msg
  | .called _ false | .handed _ | .read _ => []

def arrived : DataEvent → Bytes
  | .read bytes => bytes
  | .handed _ | .called .. | .sent _ => []

/-- The message that is handed over. -/
def given : DataEvent → Option Bytes
  | .handed msg => some msg
  | .called .. | .sent _ | .read _ => none

/-- The message that the functor was handed over with. -/
def taken : DataEvent → Option Bytes
  | .called msg _ => some msg
  | .handed _ | .sent _ | .read _ => none

end DataEvent

namespace TcpConnection

variable {c d e : TcpConnection} {written arrived : Bytes}

/-- The output stream and the input have grown by what is written and what has arrived, and the
connection has not come up again. -/
structure Grows (written arrived : Bytes) (c d : TcpConnection) : Prop where
  stream : d.stream = c.stream ++ written
  input : d.inputBuffer.readable = c.inputBuffer.readable ++ arrived
  up : d.state ≠ .kDisconnected → c.state ≠ .kDisconnected

theorem Grows.of_eq (hstream : d.stream = c.stream) (hinput : d.inputBuffer = c.inputBuffer)
    (hup : d.state ≠ .kDisconnected → c.state ≠ .kDisconnected) : Grows [] [] c d :=
  ⟨by rw [hstream, List.append_nil], by rw [hinput, List.append_nil], hup⟩

theorem Grows.of_sameLife (h : SameLife c d) (hstream : d.stream = c.stream ++ written) :
    Grows written [] c d :=
  ⟨hstream, by rw [h.inputBuffer, List.append_nil], by rw [h.state]; exact id⟩

theorem Grows.handleClose (h : c.handleClose = .ok d) : Grows [] [] c d := by
  refine .of_eq (handleClose_stream h) (handleClose_input h) ?_
  intro _
  obtain ⟨u, hstate, -⟩ := bind_eq_ok.mp h
  rintro hdown
  rw [hdown] at hstate
  cases hstate

theorem Grows.connectEstablished (h : c.connectEstablished = .ok d) : Grows [] [] c d := by
  obtain ⟨u, hstate, h⟩ := bind_eq_ok.mp h
  obtain ⟨e, he, h⟩ := bind_eq_ok.mp h
  have hstream := onChannel_stream he
  have hinput := (onChannel_sameLife he).inputBuffer
  cases h
  refine .of_eq hstream hinput ?_
  rintro - hdown
  rw [hdown] at hstate
  cases hstate

theorem Grows.connectDestroyed (h : c.connectDestroyed = .ok d) : Grows [] [] c d := by
  refine .of_eq (connectDestroyed_stream h)
    (runFunctor_input (show c.runFunctor 0 .failed .connectDestroyed = .ok d from h)) ?_
  unfold TcpConnection.connectDestroyed at h
  split at h
  · rename_i hstate
    intro _
    simp [hstate]
  · intro hup
    rwa [← (onChannel_sameLife h).state]

theorem Grows.sendInLoop {message : Bytes} {preceding : UInt8} {r : WriteResult}
    (htakes : DirectWriteAccepted c (.sendInLoop message preceding r))
    (h : c.sendInLoop message preceding r = .ok d) :
    Grows (if c.state = .kDisconnected then [] else message) [] c d := by
  split
  · rename_i hdown
    rw [TcpConnection.sendInLoop, if_pos hdown] at h
    cases h
    exact .of_eq rfl rfl id
  · rename_i hup
    exact .of_sameLife (sendInLoop_sameLife h) (sendInLoop_stream hup htakes h)

theorem Grows.send {message : Bytes} {preceding : UInt8} {r : WriteResult}
    (htakes : DirectWriteAccepted c (.sendInLoop message preceding r))
    (h : c.send true message preceding r = .ok d) :
    Grows (if c.state = .kConnected then message else []) [] c d := by
  unfold TcpConnection.send at h
  split
  · rename_i hstate
    rw [if_pos hstate, if_pos rfl] at h
    have hgrows := Grows.sendInLoop htakes h
    rwa [if_neg (by simp [hstate])] at hgrows
  · rename_i hstate
    rw [if_neg hstate] at h
    cases h
    exact .of_eq rfl rfl id

theorem Grows.shutdown (c : TcpConnection) : Grows [] [] c (c.shutdown true) := by
  refine .of_eq (shutdown_stream c true) ?_ ?_
  · unfold TcpConnection.shutdown
    split
    · exact shutdownInLoop_sameLife.inputBuffer
    · rfl
  · unfold TcpConnection.shutdown
    split
    · rename_i hstate
      intro _
      simp [hstate]
    · exact id

theorem Grows.handleWrite {r : WriteResult} (h : c.handleWrite r = .ok d) : Grows [] [] c d :=
  .of_sameLife (handleWrite_sameLife h) (by rw [handleWrite_stream h, List.append_nil])

theorem Grows.forceCloseInLoop (h : c.forceCloseInLoop = .ok d) : Grows [] [] c d := by
  unfold TcpConnection.forceCloseInLoop at h
  split at h
  · exact .handleClose h
  · cases h
    exact .of_eq rfl rfl id

theorem Grows.shutdownInLoop (c : TcpConnection) : Grows [] [] c c.shutdownInLoop :=
  .of_sameLife shutdownInLoop_sameLife (by rw [shutdownInLoop_stream, List.append_nil])

end TcpConnection

namespace ServerLoops

variable {s t u : ServerLoops} {i l l' : Nat} {c d : ServerConnection}

/-- `handleRead` puts what it reads behind what is in the input. -/
theorem handleRead_grows {r : Buffer.ReadResult} {c d : TcpConnection}
    (h : handleRead r c = .ok d) : c.Grows [] (c.arriving POLLIN r) d := by
  obtain ⟨⟨u, e⟩, he, h⟩ := bind_eq_ok.mp h
  cases h
  obtain ⟨inputBuffer, hreadable, ⟨hcallback, -⟩ | ⟨-, hsame | ⟨f, hf, hclose⟩⟩⟩ :=
    TcpConnection.handleRead_stages
      (show POLLIN.has (POLLIN ||| POLLPRI ||| POLLRDHUP) = true by decide) he
  · cases hcallback
    exact ⟨(List.append_nil _).symm, hreadable, id⟩
  · cases hsame
    exact ⟨(List.append_nil _).symm, hreadable, id⟩
  · cases hclose
    have hgrows := TcpConnection.Grows.handleClose hf
    refine ⟨hgrows.stream, ?_, hgrows.up⟩
    rw [hgrows.input, List.append_nil]
    exact hreadable

/-- Connection `i` is there and is not down. -/
def isUp (s : ServerLoops) (i : Nat) : Bool :=
  (s.conns i).any fun c => c.conn.state != .kDisconnected

/-- The message that a functor sends on connection `i`. -/
def messageFor (i : Nat) : ServerFunctor → Option Bytes
  | .ofConnection j (.sendInLoop msg) => if j = i then some msg else none
  | _ => none

/-- What a step does to the data of a connection. -/
def dataEvent (s : ServerLoops) : ServerStep → Option (Nat × DataEvent)
  | .queue k =>
    match s.calls[k]? with
    | some (i, .sendInLoop msg) => some (i, .handed msg)
    | _ => none
  | .functor l _ _ =>
    match s.places l with
    | .calling (.ofConnection i (.sendInLoop msg) :: _) => some (i, .called msg (s.isUp i))
    | _ => none
  | .sendInLoop l i msg _ _ =>
    match s.conns i with
    | some c =>
      if (Known c ∧ c.ioLoop = l ∧ s.places l ≠ .polling) ∧ c.conn.state = .kConnected then
        some (i, .sent msg)
      else none
    | none => none
  | .callback l r _ =>
    match s.places l with
    | .handling ((i, .readCallback) :: _) =>
      (s.conns i).map fun c => (i, .read (c.conn.arriving POLLIN r))
    | _ => none
  | _ => none

/-- What a step does to the data of connection `i`. -/
def dataEvents (i : Nat) (s : ServerLoops) (a : ServerStep) : List DataEvent :=
  match s.dataEvent a with
  | some (j, e) => if j = i then [e] else []
  | none => []

/-- The next functor, if it sends a message, writes it directly without a failure, or later. -/
def TakesNext (s : ServerLoops) (preceding : UInt8) (w : WriteResult) : RoundPlace → Prop
  | .calling (.ofConnection i (.sendInLoop msg) :: _) =>
    ∀ c ∈ s.conns i, c.conn.DirectWriteAccepted (.sendInLoop msg preceding w)
  | _ => True

/-- No direct write of a message fails. -/
def WritesTaken (s : ServerLoops) : ServerStep → Prop
  | .functor l preceding w => s.TakesNext preceding w (s.places l)
  | .sendInLoop _ i msg preceding w =>
    ∀ c ∈ s.conns i, c.conn.DirectWriteAccepted (.sendInLoop msg preceding w)
  | _ => True

instance (c : TcpConnection) : (a : TcpConnection.StreamStep) → Decidable (c.DirectWriteAccepted a)
  | .sendInLoop message _ r => inferInstanceAs (Decidable (c.channel.isWriting = false →
      c.outputBuffer.readableBytes = 0 → message ≠ [] → r ≠ .failed))
  | .handleWrite _ => .isTrue trivial

instance (s : ServerLoops) (preceding : UInt8) (w : WriteResult) :
    (place : RoundPlace) → Decidable (s.TakesNext preceding w place)
  | .calling (.ofConnection i (.sendInLoop msg) :: _) => inferInstanceAs (Decidable
      (∀ c ∈ s.conns i, c.conn.DirectWriteAccepted (.sendInLoop msg preceding w)))
  | .calling (.ofConnection _ .shutdownInLoop :: _)
  | .calling (.ofConnection _ .forceCloseInLoop :: _)
  | .calling (.ofConnection _ .connectDestroyed :: _)
  | .calling (.ofConnection _ .writeCompleteCallback :: _) | .calling (.connectEstablished _ :: _)
  | .calling (.removeConnectionInLoop _ :: _) | .calling [] | .polling | .handling _ =>
    .isTrue trivial

instance (s : ServerLoops) : (a : ServerStep) → Decidable (WritesTaken s a)
  | .functor l preceding w => inferInstanceAs (Decidable (s.TakesNext preceding w (s.places l)))
  | .sendInLoop _ i msg preceding w => inferInstanceAs (Decidable (∀ c ∈ s.conns i,
      c.conn.DirectWriteAccepted (.sendInLoop msg preceding w)))
  | .accept _ | .poll .. | .callback .. | .beginRound _ | .endRound _ | .send .. | .shutdown _
  | .queue _ | .shutdownInLoop .. => .isTrue trivial

/-! ### The streams -/

/-- The output stream of connection `i`, and what is in its input; a new connection has none. -/
def output (s : ServerLoops) (i : Nat) : Bytes := (s.conns i).elim [] fun c => c.conn.stream

def input (s : ServerLoops) (i : Nat) : Bytes :=
  (s.conns i).elim [] fun c => c.conn.inputBuffer.readable

/-- From `s` to `t` the events happen to the data of the connections, and nothing else does. -/
structure Flows (events : Nat → List DataEvent) (s t : ServerLoops) : Prop where
  keeps : ∀ i, t.conns i = none → s.conns i = none
  output : ∀ i, t.output i = s.output i ++ (events i).flatMap DataEvent.written
  input : ∀ i, t.input i = s.input i ++ (events i).flatMap DataEvent.arrived
  up : ∀ i, t.isUp i = true → s.conns i = none ∨ s.isUp i = true

theorem Flows.trans {events : Nat → List DataEvent} (h : Flows (fun _ => []) s u)
    (h' : Flows events u t) : Flows events s t where
  keeps i hi := h.keeps i (h'.keeps i hi)
  output i := by rw [h'.output, h.output, List.flatMap_nil, List.append_nil]
  input i := by rw [h'.input, h.input, List.flatMap_nil, List.append_nil]
  up i hi := by
    rcases h'.up i hi with hfresh | hup
    · exact .inl (h.keeps i hfresh)
    · exact h.up i hup

/-- Connection `i` is changed, and the others are not. -/
theorem Flows.of_update (events : List DataEvent) (hc : s.conns i = some c)
    (hgrows : c.conn.Grows (events.flatMap DataEvent.written)
      (events.flatMap DataEvent.arrived) d.conn)
    (ht : t.conns = Function.update s.conns i (some d)) :
    Flows (fun j => if i = j then events else []) s t := by
  have hsame : ∀ j, i ≠ j → t.conns j = s.conns j := by
    intro j hj
    rw [ht, Function.update_of_ne (Ne.symm hj)]
  have hself : t.conns i = some d := by rw [ht, Function.update_self]
  constructor
  · intro j hj
    by_cases hij : i = j
    · subst hij
      rw [hself] at hj
      cases hj
    · rwa [← hsame j hij]
  · intro j
    by_cases hij : i = j
    · subst hij
      simp [ServerLoops.output, hself, hc, hgrows.stream]
    · simp [ServerLoops.output, hsame j hij, hij]
  · intro j
    by_cases hij : i = j
    · subst hij
      simp [ServerLoops.input, hself, hc, hgrows.input]
    · simp [ServerLoops.input, hsame j hij, hij]
  · intro j hj
    by_cases hij : i = j
    · subst hij
      have hup : d.conn.state ≠ .kDisconnected := by simpa [isUp, hself] using hj
      exact .inr (by simpa [isUp, hc] using hgrows.up hup)
    · exact .inr (by simpa [isUp, hsame j hij] using hj)

/-- The connections have the same data. -/
theorem Flows.of_map {f : Nat → ServerConnection → ServerConnection}
    (hf : ∀ j c, (f j c).conn.stream = c.conn.stream ∧
      (f j c).conn.inputBuffer = c.conn.inputBuffer ∧ (f j c).conn.state = c.conn.state)
    (ht : ∀ j, t.conns j = s.conns j ∨ t.conns j = (s.conns j).map (f j)) :
    Flows (fun _ => []) s t := by
  have hdata : ∀ j, (t.conns j = none → s.conns j = none) ∧ t.output j = s.output j ∧
      t.input j = s.input j ∧ t.isUp j = s.isUp j := by
    intro j
    rcases ht j with hj | hj
    · simp [ServerLoops.output, ServerLoops.input, isUp, hj]
    · cases hc : s.conns j with
      | none => simp [ServerLoops.output, ServerLoops.input, isUp, hj, hc]
      | some c => simp [ServerLoops.output, ServerLoops.input, isUp, hj, hc, hf j c]
  constructor
  · exact fun j => (hdata j).1
  · intro j
    rw [(hdata j).2.1, List.flatMap_nil, List.append_nil]
  · intro j
    rw [(hdata j).2.2.1, List.flatMap_nil, List.append_nil]
  · intro j hj
    exact .inr (by rwa [← (hdata j).2.2.2])

theorem Flows.of_conns (ht : t.conns = s.conns) : Flows (fun _ => []) s t :=
  .of_map (f := fun _ => id) (fun _ _ => ⟨rfl, rfl, rfl⟩) fun j => .inl (congrFun ht j)

theorem removeConnectionInLoop_conns (h : s.removeConnectionInLoop i = .ok t) :
    ∃ c d, s.conns i = some c ∧ d.conn = c.conn ∧ t.conns = Function.update s.conns i (some d) := by
  unfold removeConnectionInLoop at h
  split at h
  · cases h
  · rename_i c hc
    obtain ⟨server, -, h⟩ := bind_eq_ok.mp h
    cases h
    exact ⟨c, { c with removed := c.removed + 1 }, hc, rfl, rfl⟩

/-- A function of a connection changes no other connection. -/
theorem onConnection_conns {f : TcpConnection → Except Fault TcpConnection}
    (h : s.onConnection l i f = .ok t) :
    ∃ c d, s.conns i = some c ∧ f { c.conn with loop := view (s.loops l) } = .ok d.conn ∧
      t.conns = Function.update s.conns i (some d) := by
  unfold onConnection at h
  split at h
  · cases h
  · rename_i c hc
    split at h
    · obtain ⟨d, hd, h⟩ := bind_eq_ok.mp h
      dsimp only at h
      split at h
      · unfold removeConnection at h
        split at h
        · obtain ⟨c', e, hc', he, ht⟩ := removeConnectionInLoop_conns h
          obtain rfl : { c with conn := d } = c' := by simpa [setConn, setLoop] using hc'
          refine ⟨c, e, hc, by rw [he]; exact hd, ?_⟩
          rw [ht]
          simp [setConn, setLoop]
        · cases h
          exact ⟨c, { c with conn := d }, hc, hd, rfl⟩
      · cases h
        exact ⟨c, { c with conn := d }, hc, hd, rfl⟩
    · cases h

/-- What a function of connection `i` does to the data of the connections. -/
theorem onConnection_flows {f : TcpConnection → Except Fault TcpConnection}
    (events : List DataEvent) (h : s.onConnection l i f = .ok t)
    (hf : ∀ c d, s.conns i = some c → f { c.conn with loop := view (s.loops l) } = .ok d →
      TcpConnection.Grows (events.flatMap DataEvent.written) (events.flatMap DataEvent.arrived)
        { c.conn with loop := view (s.loops l) } d) :
    Flows (fun j => if i = j then events else []) s t := by
  obtain ⟨c, d, hc, hd, ht⟩ := onConnection_conns h
  obtain ⟨hstream, hinput, hup⟩ := hf c d.conn hc hd
  exact .of_update events hc ⟨hstream, hinput, hup⟩ ht

/-- A function that reads and writes nothing. -/
theorem onConnection_silent {f : TcpConnection → Except Fault TcpConnection}
    (h : s.onConnection l i f = .ok t)
    (hf : ∀ c d : TcpConnection, f c = .ok d → c.Grows [] [] d) : Flows (fun _ => []) s t := by
  have hflows := onConnection_flows [] h fun _ _ _ hd => hf _ _ hd
  simpa using hflows

theorem removeConnectionInLoop_flows (h : s.removeConnectionInLoop i = .ok t) :
    Flows (fun _ => []) s t := by
  obtain ⟨c, d, hc, hd, ht⟩ := removeConnectionInLoop_conns h
  have hflows := Flows.of_update [] hc (by rw [hd]; exact .of_eq rfl rfl id) ht
  simpa using hflows

theorem record_flows (s : ServerLoops) (i : Nat) {f : ServerConnection → ServerConnection}
    (hf : ∀ c, (f c).conn = c.conn) : Flows (fun _ => []) s (s.record i f) := by
  refine .of_map (f := fun _ => f) (fun _ c => by rw [hf]; exact ⟨rfl, rfl, rfl⟩) ?_
  intro j
  by_cases hj : j = i
  · subst hj
    exact .inr (by simp [record])
  · exact .inl (by simp [record, hj])

theorem connectEstablished_flows (h : s.connectEstablished l i = .ok t) :
    Flows (fun _ => []) s t := by
  have hrecord : Flows (fun _ => []) s
      (s.record i fun c => { c with established := c.established + 1 }) :=
    record_flows s i fun _ => rfl
  exact hrecord.trans (onConnection_silent h fun _ _ hd => .connectEstablished hd)

theorem connectDestroyed_flows (h : s.connectDestroyed l i = .ok t) :
    Flows (fun _ => []) s t := by
  have hrecord : Flows (fun _ => []) s (s.destroyedIn l i) := record_flows s i fun _ => rfl
  exact hrecord.trans (onConnection_silent h fun _ _ hd => .connectDestroyed hd)

theorem newConnection_flows {sockfd : Nat} (hfresh : s.conns s.accepted = none)
    (h : s.newConnection sockfd = .ok t) : Flows (fun _ => []) s t := by
  have hentered : Flows (fun _ => []) s
      (s.entered s.threadPool.getNextLoop.1 sockfd s.threadPool.getNextLoop.2) := by
    constructor
    · intro j hj
      by_cases hij : j = s.accepted
      · rw [hij, hfresh]
      · rwa [entered_ne hij] at hj
    · intro j
      by_cases hij : j = s.accepted
      · subst hij
        simp [ServerLoops.output, entered_self, hfresh, made, TcpConnection.stream,
          TcpConnection.new]
      · simp [ServerLoops.output, entered_ne hij]
    · intro j
      by_cases hij : j = s.accepted
      · subst hij
        simp [ServerLoops.input, entered_self, hfresh, made, TcpConnection.new]
      · simp [ServerLoops.input, entered_ne hij]
    · intro j hj
      by_cases hij : j = s.accepted
      · subst hij
        exact .inl hfresh
      · exact .inr (by simpa [isUp, entered_ne hij] using hj)
  rw [newConnection_eq] at h
  dsimp only at h
  split at h
  · exact hentered.trans (connectEstablished_flows h)
  · cases h
    exact hentered.trans (.of_conns rfl)

/-- The message of a functor is written if its connection is not down. -/
theorem runFunctor_flows {preceding : UInt8} {w : WriteResult} {f : ServerFunctor}
    (htakes : ∀ i msg, f = .ofConnection i (.sendInLoop msg) → ∀ c ∈ s.conns i,
      c.conn.DirectWriteAccepted (.sendInLoop msg preceding w))
    (h : s.runFunctor l preceding w f = .ok t) :
    Flows (fun j => (messageFor j f).toList.map fun msg => .called msg (s.isUp j)) s t := by
  cases f with
  | connectEstablished i => exact connectEstablished_flows h
  | removeConnectionInLoop i =>
    change (if l = 0 then s.removeConnectionInLoop i else .error .fatal) = .ok t at h
    split at h
    · exact removeConnectionInLoop_flows h
    · cases h
  | ofConnection i functor =>
    cases functor with
    | connectDestroyed => exact connectDestroyed_flows h
    | sendInLoop msg =>
      change s.onConnection l i (TcpConnection.sendInLoop · msg preceding w) = .ok t at h
      have hevents : (fun j => (messageFor j (.ofConnection i (.sendInLoop msg))).toList.map
          fun msg => DataEvent.called msg (s.isUp j)) =
          fun j => if i = j then [.called msg (s.isUp i)] else [] := by
        funext j
        by_cases hj : i = j
        · simp [messageFor, hj]
        · simp [messageFor, hj]
      rw [hevents]
      refine onConnection_flows _ h ?_
      intro c d hc hd
      have htaken : TcpConnection.DirectWriteAccepted { c.conn with loop := view (s.loops l) }
        (.sendInLoop msg preceding w) := htakes i msg rfl c hc
      have hgrows := TcpConnection.Grows.sendInLoop htaken hd
      by_cases hdown : c.conn.state = .kDisconnected
      · have hup : s.isUp i = false := by simp [isUp, hc, hdown]
        simpa [hup, hdown, DataEvent.written, DataEvent.arrived] using hgrows
      · have hup : s.isUp i = true := by simp [isUp, hc, hdown]
        simpa [hup, hdown, DataEvent.written, DataEvent.arrived] using hgrows
    | shutdownInLoop =>
      change s.onConnection l i (fun c => .ok c.shutdownInLoop) = .ok t at h
      refine onConnection_silent h ?_
      rintro c _ ⟨⟩
      exact .shutdownInLoop c
    | forceCloseInLoop =>
      change s.onConnection l i TcpConnection.forceCloseInLoop = .ok t at h
      exact onConnection_silent h fun _ _ hd => .forceCloseInLoop hd
    | writeCompleteCallback =>
      change s.onConnection l i (fun c => .ok c) = .ok t at h
      refine onConnection_silent h ?_
      rintro c _ ⟨⟩
      exact .of_eq rfl rfl id

/-- The read callback reads, and the others do not. -/
theorem callback_flows {r : Buffer.ReadResult} {w : WriteResult} {k : ChannelCallback}
    (h : s.callback l i r w k = .ok t) :
    Flows (fun j => if k = .readCallback ∧ i = j then
      (s.conns i).elim [] fun c => [.read (c.conn.arriving POLLIN r)] else []) s t := by
  cases k with
  | closeCallback =>
    have hflows := onConnection_silent h fun _ _ hd => .handleClose hd
    simpa using hflows
  | errorCallback =>
    cases h
    simpa using Flows.of_conns (s := s) rfl
  | readCallback =>
    obtain ⟨c, -, hc, -⟩ := onConnection_conns h
    rw [hc]
    have hflows := onConnection_flows [.read (c.conn.arriving POLLIN r)] h (by
      intro e d he hd
      cases hc.symm.trans he
      rw [List.flatMap_singleton, List.flatMap_singleton]
      exact handleRead_grows hd)
    simpa using hflows
  | writeCallback =>
    have hflows := onConnection_silent h fun _ _ hd => .handleWrite hd
    simpa using hflows

theorem poll_flows {size : Nat} {ready : List (Nat × Events)} (h : s.poll l size ready = .ok t) :
    Flows (fun _ => []) s t := by
  obtain ⟨heap, hconns, -, -⟩ := poll_conns h
  refine .of_map (f := fun j c => { c with conn := { c.conn with
    channel := (heap j).getD c.conn.channel } }) (fun _ _ => ⟨rfl, rfl, rfl⟩) fun j => .inr ?_
  rw [hconns]
  rfl

theorem dataEvents_some {a : ServerStep} {e : DataEvent} (h : s.dataEvent a = some (i, e)) :
    (fun j => dataEvents j s a) = fun j => if i = j then [e] else [] := by
  funext j
  rw [dataEvents, h]

theorem dataEvents_none {a : ServerStep} (h : s.dataEvent a = none) :
    (fun j => dataEvents j s a) = fun _ => [] := by
  funext j
  rw [dataEvents, h]

/-- A message that is handed over is not written yet. -/
theorem Flows.handed (h : Flows (fun _ => []) s t) (messages : Nat → Option Bytes) :
    Flows (fun j => (messages j).toList.map .handed) s t where
  keeps := h.keeps
  output j := by
    rw [h.output]
    cases messages j <;> rfl
  input j := by
    rw [h.input]
    cases messages j <;> rfl
  up := h.up

theorem callback_step_flows {r : Buffer.ReadResult} {w : WriteResult} {k : ChannelCallback}
    {rest : List (Nat × ChannelCallback)} (hplace : s.places l = .handling ((i, k) :: rest))
    (h : (s.setPlace l (.handling rest)).callback l i r w k = .ok t) :
    Flows (fun j => dataEvents j s (.callback l r w)) s t := by
  have hflows := (Flows.of_conns (s := s) (t := s.setPlace l (.handling rest)) rfl).trans
    (callback_flows h)
  change Flows (fun j => if k = .readCallback ∧ i = j then
    (s.conns i).elim [] fun c => [.read (c.conn.arriving POLLIN r)] else []) s t at hflows
  cases k with
  | readCallback =>
    cases hc : s.conns i with
    | none =>
      rw [dataEvents_none (by simp [dataEvent, hplace, hc])]
      simpa [hc] using hflows
    | some c =>
      rw [dataEvents_some (i := i) (e := .read (c.conn.arriving POLLIN r))
        (by simp [dataEvent, hplace, hc])]
      simpa [hc] using hflows
  | closeCallback | errorCallback | writeCallback =>
    rw [dataEvents_none (by simp [dataEvent, hplace])]
    simpa using hflows

theorem dataEvents_functor {preceding : UInt8} {w : WriteResult} {f : ServerFunctor}
    {rest : List ServerFunctor} (hplace : s.places l = .calling (f :: rest)) (i : Nat) :
    dataEvents i s (.functor l preceding w) =
      (messageFor i f).toList.map fun msg => .called msg (s.isUp i) := by
  simp only [dataEvents, dataEvent, messageFor, hplace]
  cases f with
  | ofConnection j functor =>
    cases functor with
    | sendInLoop msg =>
      by_cases hj : j = i
      · simp [hj]
      · simp [hj]
    | _ => rfl
  | _ => rfl

theorem dataEvents_queue {k : Nat} {functor : TcpFunctor} {j : Nat}
    (hcall : s.calls[k]? = some (j, functor)) (i : Nat) : dataEvents i s (.queue k) =
      (messageFor i (.ofConnection j functor)).toList.map .handed := by
  simp only [dataEvents, dataEvent, messageFor, hcall]
  cases functor with
  | sendInLoop msg =>
    by_cases hj : j = i
    · simp [hj]
    · simp [hj]
  | _ => rfl

theorem send_step_flows {msg : Bytes} {preceding : UInt8} {w : WriteResult}
    (hc : s.conns i = some c) (hcalled : Known c ∧ c.ioLoop = l ∧ s.places l ≠ .polling)
    (htaken : c.conn.DirectWriteAccepted (.sendInLoop msg preceding w))
    (h : s.onConnection l i (fun c => c.send true msg preceding w) = .ok t) :
    Flows (fun j => dataEvents j s (.sendInLoop l i msg preceding w)) s t := by
  by_cases hstate : c.conn.state = .kConnected
  · rw [dataEvents_some (i := i) (e := .sent msg) (by
      simp only [dataEvent, hc]
      exact if_pos ⟨hcalled, hstate⟩)]
    refine onConnection_flows _ h ?_
    intro e d he hd
    cases hc.symm.trans he
    have hgrows := TcpConnection.Grows.send (c := { c.conn with loop := view (s.loops l) }) htaken hd
    rw [if_pos hstate] at hgrows
    simpa [DataEvent.written, DataEvent.arrived] using hgrows
  · rw [dataEvents_none (by
      simp only [dataEvent, hc]
      exact if_neg fun hsent => hstate hsent.2)]
    have hflows := onConnection_flows [] h (by
      intro e d he hd
      cases hc.symm.trans he
      have hgrows :=
        TcpConnection.Grows.send (c := { c.conn with loop := view (s.loops l) }) htaken hd
      rwa [if_neg hstate] at hgrows)
    simpa using hflows

/-- What a step does to the data of the connections. -/
theorem step_flows {a : ServerStep} (hs : Sound none s) (htaken : WritesTaken s a)
    (h : s.step a = .ok t) : Flows (fun i => dataEvents i s a) s t := by
  cases a with
  | accept sockfd =>
    rw [dataEvents_none rfl]
    dsimp only [ServerLoops.step] at h
    split at h
    · refine newConnection_flows ?_ h
      have hfresh := (hs.named.accepted s.accepted).not.mpr (lt_irrefl _)
      simpa using hfresh
    · cases h
      exact .of_conns rfl
  | poll l size ready =>
    rw [dataEvents_none rfl]
    dsimp only [ServerLoops.step] at h
    split at h
    · exact poll_flows h
    · cases h
      exact .of_conns rfl
  | callback l r w =>
    dsimp only [ServerLoops.step] at h
    split at h
    · rename_i i k rest hplace
      exact callback_step_flows hplace h
    · rename_i hplace
      cases h
      rw [dataEvents_none]
      · exact .of_conns rfl
      · rw [dataEvent]
        split
        · rename_i i rest hcalls
          exact absurd hcalls (hplace i .readCallback rest)
        · rfl
  | beginRound l | endRound l =>
    rw [dataEvents_none rfl]
    dsimp only [ServerLoops.step] at h
    split at h <;> cases h <;> exact .of_conns rfl
  | functor l preceding w =>
    dsimp only [ServerLoops.step] at h
    split at h
    · rename_i f rest hplace
      rw [WritesTaken, hplace] at htaken
      have hflows := (Flows.of_conns (s := s) (t := s.setPlace l (.calling rest)) rfl).trans
        (runFunctor_flows (by rintro i msg rfl; exact htaken) h)
      simp only [dataEvents_functor hplace]
      exact hflows
    · rename_i hplace
      cases h
      rw [dataEvents_none]
      · exact .of_conns rfl
      · rw [dataEvent]
        split
        · rename_i i msg rest hcalls
          exact absurd hcalls (hplace _ rest)
        · rfl
  | send i msg =>
    rw [dataEvents_none rfl]
    dsimp only [ServerLoops.step] at h
    split at h
    · cases h
      split <;> exact .of_conns rfl
    · cases h
      exact .of_conns rfl
  | shutdown i =>
    rw [dataEvents_none rfl]
    dsimp only [ServerLoops.step] at h
    split at h
    · rename_i c hc
      cases h
      split
      · rename_i hknown
        have hflows := Flows.of_update [] (d := { c with conn :=
            { c.conn with state := .kDisconnecting } })
          (t := setConn { s with calls := s.calls ++ [(i, .shutdownInLoop)] } i
            { c with conn := { c.conn with state := .kDisconnecting } }) hc
          (.of_eq rfl rfl fun _ => by simp [hknown.2]) rfl
        simpa using hflows
      · exact .of_conns rfl
    · cases h
      exact .of_conns rfl
  | queue k =>
    dsimp only [ServerLoops.step] at h
    split at h
    · rename_i i functor hcall
      split at h
      · cases h
        simp only [dataEvents_queue hcall]
        refine Flows.handed ?_ fun j => messageFor j (.ofConnection i functor)
        exact .of_conns rfl
      · cases h
    · rename_i hcall
      cases h
      rw [dataEvents_none (by rw [dataEvent, hcall])]
      exact .of_conns rfl
  | sendInLoop l i msg preceding w =>
    dsimp only [ServerLoops.step] at h
    split at h
    · rename_i c hc
      split at h
      · rename_i hcalled
        exact send_step_flows hc hcalled (htaken c hc) h
      · rename_i hcalled
        cases h
        rw [dataEvents_none]
        · exact .of_conns rfl
        · simp only [dataEvent, hc]
          exact if_neg fun hsent => hcalled hsent.1
    · rename_i hc
      cases h
      rw [dataEvents_none (by rw [dataEvent, hc])]
      exact .of_conns rfl
  | shutdownInLoop l i =>
    rw [dataEvents_none rfl]
    dsimp only [ServerLoops.step] at h
    split at h
    · split at h
      · refine onConnection_silent h ?_
        rintro c _ ⟨⟩
        exact .shutdown c
      · cases h
        exact .of_conns rfl
    · cases h
      exact .of_conns rfl

/-! ### The queues -/

/-- The messages for connection `i` that wait in loop `l`. -/
def waiting (s : ServerLoops) (l i : Nat) : List Bytes := (s.queued l).filterMap (messageFor i)

theorem waiting_eq (s : ServerLoops) (l i : Nat) :
    s.waiting l i = (left (s.places l)).filterMap (messageFor i) ++
      (s.loops l).pendingFunctors.filterMap (messageFor i) := by
  rw [waiting, queued_eq, List.filterMap_append]

theorem waiting_congr (hleft : left (t.places l) = left (s.places l))
    (hpending : (t.loops l).pendingFunctors = (s.loops l).pendingFunctors) :
    t.waiting l i = s.waiting l i := by
  rw [waiting_eq, waiting_eq, hleft, hpending]

/-- What functions of the connections queue holds the connection, and sends nothing. -/
theorem Frame.waiting {who : List Nat} (h : Frame who s t) (l i : Nat) :
    t.waiting l i = s.waiting l i := by
  obtain ⟨more, hmore, howns⟩ := h.pending l
  have hnone : more.filterMap (messageFor i) = [] := by
    rw [List.filterMap_eq_nil_iff]
    intro f hf
    have hf := (howns f hf).1
    unfold messageFor
    split
    · cases hf
    · rfl
  rw [waiting_eq, waiting_eq, h.places, hmore, List.filterMap_append, hnone, List.append_nil]

theorem waiting_setPlace {place : RoundPlace} (hleft : left place = left (s.places l)) (l' i : Nat) :
    (s.setPlace l place).waiting l' i = s.waiting l' i := by
  refine waiting_congr ?_ rfl
  by_cases hl : l' = l
  · subst hl
    simpa [setPlace] using hleft
  · simp [setPlace, hl]

/-- A round takes what is pending. -/
theorem waiting_beginRound (hplace : s.places l = .handling []) (l' i : Nat) :
    ((s.setLoop l
      { s.loops l with
        eventHandling := false
        callingPendingFunctors := true
        pendingFunctors := [] }).setPlace l (.calling (s.loops l).pendingFunctors)).waiting l' i =
      s.waiting l' i := by
  rw [waiting_eq, waiting_eq]
  by_cases hl : l' = l
  · subst hl
    simp [setPlace, setLoop, hplace, left]
  · simp [setPlace, setLoop, hl]

theorem waiting_endRound (hplace : s.places l = .calling []) (l' i : Nat) :
    ((s.setLoop l { s.loops l with callingPendingFunctors := false }).setPlace l .polling).waiting
      l' i = s.waiting l' i := by
  rw [waiting_eq, waiting_eq]
  by_cases hl : l' = l
  · subst hl
    simp [setPlace, setLoop, hplace, left]
  · simp [setPlace, setLoop, hl]

theorem waiting_poll {size : Nat} {ready : List (Nat × Events)} (hplace : s.places l = .polling)
    (h : s.poll l size ready = .ok t) (l' i : Nat) : t.waiting l' i = s.waiting l' i := by
  obtain ⟨⟨size', heap, active⟩, -, h⟩ := bind_eq_ok.mp h
  cases h
  rw [waiting_eq, waiting_eq]
  by_cases hl : l' = l
  · subst hl
    simp [setPlace, setLoop, setHeap, hplace, left]
  · simp [setPlace, setLoop, setHeap, hl]

/-- The functor at the head of a round is taken. -/
theorem waiting_functor {f : ServerFunctor} {rest : List ServerFunctor}
    (hplace : s.places l = .calling (f :: rest)) (i : Nat) :
    s.waiting l i = (messageFor i f).toList ++ (s.setPlace l (.calling rest)).waiting l i := by
  rw [waiting_eq, waiting_eq]
  cases hmessage : messageFor i f <;> simp [setPlace, hplace, left, hmessage]

theorem waiting_queueInLoop (s : ServerLoops) (l l' i : Nat) (f : ServerFunctor) :
    (s.queueInLoop l false f).waiting l' i =
      s.waiting l' i ++ if l' = l then (messageFor i f).toList else [] := by
  rw [waiting_eq, waiting_eq, queueInLoop_loops, List.filterMap_append, ← List.append_assoc]
  congr 1
  split
  · cases hmessage : messageFor i f <;> simp [hmessage]
  · rfl

/-- A step that hands nothing over and takes nothing. -/
theorem waiting_kept {a : ServerStep}
    (hevent : ∀ e, s.dataEvent a = some (i, e) → e.given = none ∧ e.taken = none)
    (hsame : t.waiting l i = s.waiting l i) :
    s.waiting l i ++ (dataEvents i s a).filterMap DataEvent.given =
      (dataEvents i s a).filterMap DataEvent.taken ++ t.waiting l i := by
  have hnone : (dataEvents i s a).filterMap DataEvent.given = [] ∧
      (dataEvents i s a).filterMap DataEvent.taken = [] := by
    unfold dataEvents
    split
    · rename_i j e he
      split
      · rename_i hj
        subst hj
        simp [hevent e he]
      · simp
    · simp
  rw [hnone.1, hnone.2, hsame, List.append_nil, List.nil_append]

theorem waiting_kept_of_none {a : ServerStep} (hnone : s.dataEvent a = none)
    (hsame : t.waiting l i = s.waiting l i) :
    s.waiting l i ++ (dataEvents i s a).filterMap DataEvent.given =
      (dataEvents i s a).filterMap DataEvent.taken ++ t.waiting l i := by
  refine waiting_kept ?_ hsame
  intro e he
  rw [hnone] at he
  cases he

/-- Connection `i`, if it is there, is in loop `l`. -/
def Home (s : ServerLoops) (i l : Nat) : Prop := ∀ c, s.conns i = some c → c.ioLoop = l

/-- The functor of a message is called in the loop of its connection. -/
theorem step_waiting_functor {preceding : UInt8} {w : WriteResult} {f : ServerFunctor}
    {rest : List ServerFunctor} (hs : Sound none s) (hhome : Home s i l')
    (hplace : s.places l = .calling (f :: rest)) :
    s.waiting l' i = (dataEvents i s (.functor l preceding w)).filterMap DataEvent.taken ++
      (s.setPlace l (.calling rest)).waiting l' i := by
  have htaken : (dataEvents i s (.functor l preceding w)).filterMap DataEvent.taken =
      (messageFor i f).toList := by
    rw [dataEvents_functor hplace]
    cases messageFor i f <;> rfl
  rw [htaken]
  by_cases hl : l' = l
  · rw [hl]
    exact waiting_functor hplace i
  · have hnone : messageFor i f = none := by
      unfold messageFor
      split
      · rename_i j msg
        split
        · rename_i hj
          have hqueued : ServerFunctor.ofConnection j (.sendInLoop msg) ∈ s.queued l := by
            rw [queued_eq, hplace]
            exact List.mem_append_left _ List.mem_cons_self
          obtain ⟨c, hc, -, hcalled⟩ := hs.loop_of_queued hqueued
          subst hj
          exact absurd ((hhome c hc).symm.trans (hcalled rfl).symm) hl
        · rfl
      · rfl
    rw [hnone, Option.toList_none, List.nil_append]
    exact (waiting_congr (s := s) (t := s.setPlace l (.calling rest))
      (by simp [setPlace, hl]) rfl).symm

/-- A message that is handed over is queued in the loop of its connection. -/
theorem step_waiting_queue {k j : Nat} {functor : TcpFunctor} {d : ServerConnection}
    (hhome : Home s i l) (hcall : s.calls[k]? = some (j, functor)) (hd : s.conns j = some d) :
    s.waiting l i ++ (dataEvents i s (.queue k)).filterMap DataEvent.given =
      (dataEvents i s (.queue k)).filterMap DataEvent.taken ++
        (queueInLoop { s with calls := s.calls.eraseIdx k } d.ioLoop false
          (.ofConnection j functor)).waiting l i := by
  rw [dataEvents_queue hcall, waiting_queueInLoop]
  change s.waiting l i ++ _ = _ ++ (s.waiting l i ++ _)
  cases hmessage : messageFor i (.ofConnection j functor) with
  | none => simp
  | some msg =>
    have hj : j = i := by
      unfold messageFor at hmessage
      split at hmessage
      · rename_i j' msg' heq
        cases heq
        split at hmessage
        · assumption
        · cases hmessage
      · cases hmessage
    subst hj
    rw [hhome d hd]
    simp [DataEvent.given, DataEvent.taken]

/-- What a step does by itself leaves the messages, unless it takes a functor or queues one. -/
theorem Begins.waiting {a : ServerStep} (h : Begins s a u)
    (hfunctor : ∀ l preceding w, a ≠ .functor l preceding w) (hqueue : ∀ k, a ≠ .queue k)
    (l i : Nat) : u.waiting l i = s.waiting l i := by
  cases h with
  | same | accept | send | shutdown => rfl
  | poll place polled => exact waiting_poll place polled l i
  | callback r w place => exact waiting_setPlace (by rw [place]; rfl) l i
  | beginRound place => exact waiting_beginRound place l i
  | endRound place => exact waiting_endRound place l i
  | functor | connectDestroyed => exact absurd rfl (hfunctor _ _ _)
  | queue => exact absurd rfl (hqueue _)

theorem step_waiting_same {a : ServerStep} (h : s.step a = .ok t)
    (hfunctor : ∀ l preceding w, a ≠ .functor l preceding w) (hqueue : ∀ k, a ≠ .queue k)
    (l i : Nat) : t.waiting l i = s.waiting l i := by
  obtain ⟨u, hbegins, hframe⟩ := step_begins h
  exact (hframe.waiting l i).trans (hbegins.waiting hfunctor hqueue l i)

/-- In the loop of connection `i` a message waits from when it is handed over until it is taken. -/
theorem step_waiting {a : ServerStep} (hs : Sound none s) (hhome : Home s i l)
    (h : s.step a = .ok t) :
    s.waiting l i ++ (dataEvents i s a).filterMap DataEvent.given =
      (dataEvents i s a).filterMap DataEvent.taken ++ t.waiting l i := by
  cases a with
  | callback l' r w =>
    refine waiting_kept ?_ (step_waiting_same h (by simp) (by simp) l i)
    intro e he
    rw [dataEvent] at he
    split at he
    · obtain ⟨d, -, he⟩ := Option.map_eq_some_iff.mp he
      cases he
      exact ⟨rfl, rfl⟩
    · cases he
  | sendInLoop l' j msg preceding w =>
    refine waiting_kept ?_ (step_waiting_same h (by simp) (by simp) l i)
    intro e he
    rw [dataEvent] at he
    split at he
    · split at he
      · cases he
        exact ⟨rfl, rfl⟩
      · cases he
    · cases he
  | functor l' preceding w =>
    dsimp only [ServerLoops.step] at h
    split at h
    · rename_i f rest hplace
      have hgiven : (dataEvents i s (.functor l' preceding w)).filterMap DataEvent.given = [] := by
        rw [dataEvents_functor hplace]
        cases messageFor i f <;> rfl
      rw [hgiven, List.append_nil, step_waiting_functor hs hhome hplace]
      congr 1
      obtain hframe | ⟨j, d, rfl, hd, -, hframe⟩ := runFunctor_frame h
      · exact (hframe.waiting _ i).symm
      · exact (hframe.waiting _ i).symm
    · rename_i hplace
      cases h
      refine waiting_kept ?_ rfl
      intro e he
      rw [dataEvent] at he
      split at he
      · rename_i j msg rest hcalls
        exact absurd hcalls (hplace _ rest)
      · cases he
  | queue k =>
    dsimp only [ServerLoops.step] at h
    split at h
    · rename_i j functor hcall
      split at h
      · rename_i d hd
        cases h
        exact step_waiting_queue hhome hcall hd
      · cases h
    · rename_i hcall
      cases h
      exact waiting_kept_of_none (by simp [dataEvent, hcall]) rfl
  | accept | poll | beginRound | endRound | send | shutdown | shutdownInLoop =>
    exact waiting_kept_of_none rfl (step_waiting_same h (by simp) (by simp) l i)

/-! ### Runs -/

/-- Only a connection that is there has data, and a functor that is called while it is up writes its
message. -/
theorem dataEvent_known {a : ServerStep} {e : DataEvent} (hs : Sound none s)
    (h : s.dataEvent a = some (i, e)) :
    (∃ c, s.conns i = some c) ∧ ∀ msg, e = .called msg false → s.isUp i = false := by
  cases a with
  | queue k =>
    rw [dataEvent] at h
    split at h
    · rename_i j msg hcall
      cases h
      obtain ⟨-, c, hc, -⟩ := hs.calls _ (List.mem_of_getElem? hcall)
      exact ⟨⟨c, hc⟩, nofun⟩
    · cases h
  | functor l preceding w =>
    rw [dataEvent] at h
    split at h
    · rename_i j msg rest hplace
      cases h
      have hqueued : .ofConnection i (.sendInLoop msg) ∈ s.queued l := by
        rw [queued_eq, hplace]
        exact List.mem_append_left _ List.mem_cons_self
      obtain ⟨c, hc, -⟩ := hs.loop_of_queued hqueued
      refine ⟨⟨c, hc⟩, ?_⟩
      intro msg' heq
      exact (DataEvent.called.inj heq).2
    · cases h
  | sendInLoop l j msg preceding w =>
    rw [dataEvent] at h
    split at h
    · rename_i c hc
      split at h
      · cases h
        exact ⟨⟨c, hc⟩, nofun⟩
      · cases h
    · cases h
  | callback l r w =>
    rw [dataEvent] at h
    split at h
    · obtain ⟨c, hc, h⟩ := Option.map_eq_some_iff.mp h
      cases h
      exact ⟨⟨c, hc⟩, nofun⟩
    · cases h
  | _ => cases h

theorem dataEvents_unknown (hs : Sound none s) (hnone : s.conns i = none) (a : ServerStep) :
    dataEvents i s a = [] := by
  unfold dataEvents
  split
  · rename_i j e he
    rw [if_neg]
    rintro rfl
    obtain ⟨⟨c, hc⟩, -⟩ := dataEvent_known hs he
    cases hnone.symm.trans hc
  · rfl

theorem up_of_called {a : ServerStep} {msg : Bytes} (hs : Sound none s) (hup : s.isUp i = true) :
    .called msg false ∉ dataEvents i s a := by
  intro hcalled
  unfold dataEvents at hcalled
  split at hcalled
  · rename_i j e he
    split at hcalled
    · rename_i hj
      subst hj
      have hdown := (dataEvent_known hs he).2 msg (List.mem_singleton.mp hcalled).symm
      cases hup.symm.trans hdown
    · cases hcalled
  · cases hcalled

/-- A connection stays in its loop. -/
theorem Home.of_step {a : ServerStep} (hs : Sound none s) (h : s.step a = .ok t)
    (hkeeps : t.conns i = none → s.conns i = none) (hhome : Home t i l) : Home s i l := by
  intro c hc
  obtain ⟨d, hd⟩ : ∃ d, t.conns i = some d := by
    cases hd : t.conns i with
    | none => cases (hkeeps hd).symm.trans hc
    | some d => exact ⟨d, rfl⟩
  obtain ⟨u, hbegins, hframe⟩ := step_begins h
  obtain ⟨e, he, hioLoop, -⟩ := hframe.conns i d hd
  have hi : i ≠ s.accepted := ((hs.named.accepted i).mp (by simp [hc])).ne
  obtain ⟨c', hc', hioLoop', -⟩ := hbegins.of_conns he hi
  cases hc.symm.trans hc'
  rw [← hioLoop', ← hioLoop]
  exact hhome d hd

/-- What has happened to the data of connection `i`, and what has become of it. -/
structure Carried (i : Nat) (s : ServerLoops) (log : List DataEvent) : Prop where
  sound : Sound none s
  fresh : s.conns i = none → log = []
  output : s.output i = log.flatMap DataEvent.written
  input : s.input i = log.flatMap DataEvent.arrived
  queue : ∀ l, Home s i l →
    log.filterMap DataEvent.given = log.filterMap DataEvent.taken ++ s.waiting l i
  up : s.isUp i = true → ∀ msg, .called msg false ∉ log

theorem Carried.step {a : ServerStep} {log : List DataEvent} (h : Carried i s log)
    (hkernel : KernelKeeps s a) (htaken : WritesTaken s a) (ht : s.step a = .ok t) :
    Carried i t (log ++ dataEvents i s a) := by
  have hflows := step_flows h.sound htaken ht
  obtain ⟨t', ht', hsound⟩ := h.sound.step hkernel
  cases ht.symm.trans ht'
  constructor
  · exact hsound
  · intro hnone
    have hbefore := hflows.keeps i hnone
    rw [h.fresh hbefore, dataEvents_unknown h.sound hbefore]
    rfl
  · rw [hflows.output, h.output, List.flatMap_append]
  · rw [hflows.input, h.input, List.flatMap_append]
  · intro l hhome
    have hbefore := hhome.of_step h.sound ht (hflows.keeps i)
    rw [List.filterMap_append, List.filterMap_append, h.queue l hbefore, List.append_assoc,
      step_waiting h.sound hbefore ht, List.append_assoc]
  · intro hup msg hmem
    rcases hflows.up i hup with hnone | hbefore
    · rw [h.fresh hnone, dataEvents_unknown h.sound hnone] at hmem
      cases hmem
    · rcases List.mem_append.mp hmem with hmem | hmem
      · exact h.up hbefore msg hmem
      · exact up_of_called h.sound hbefore hmem

theorem carried_new (i threads : Nat) (listenAddr : InetAddress) (nameArg : Bytes)
    (writeCompleteCallback : Bool) :
    Carried i (new threads listenAddr nameArg writeCompleteCallback) [] where
  sound := sound_new threads listenAddr nameArg writeCompleteCallback
  fresh _ := rfl
  output := rfl
  input := rfl
  queue _ _ := rfl
  up _ _ := List.not_mem_nil

end ServerLoops

namespace ServerMemory

open ServerLoops

/-- What the step does to the data of connection `i`. -/
def dataEvents (i : Nat) (m : ServerMemory) : MemoryStep → List DataEvent
  | .server a => m.loops.dataEvents i a
  | .keep _ | .drop _ => []

/-- A direct write of a message does not fail. -/
def WritesTaken (m : ServerMemory) : MemoryStep → Prop
  | .server a => m.loops.WritesTaken a
  | .keep _ | .drop _ => True

instance (m : ServerMemory) : (a : MemoryStep) → Decidable (m.WritesTaken a)
  | .server a => inferInstanceAs (Decidable (m.loops.WritesTaken a))
  | .keep _ | .drop _ => .isTrue trivial

theorem step_server {m n : ServerMemory} {a : ServerStep} (h : m.step (.server a) = .ok n) :
    m.loops.step a = .ok n.loops := by
  dsimp only [ServerMemory.step] at h
  split at h
  · cases h
  · obtain ⟨loops, hloops, h⟩ := bind_eq_ok.mp h
    cases h
    exact hloops

theorem carried_step {m n : ServerMemory} {i : Nat} {a : MemoryStep} {log : List DataEvent}
    (h : Carried i m.loops log) (hkernel : m.KernelKeeps a) (htaken : m.WritesTaken a)
    (hn : m.step a = .ok n) : Carried i n.loops (log ++ m.dataEvents i a) := by
  cases a with
  | server a => exact h.step hkernel htaken (step_server hn)
  | keep j =>
    cases hn
    rw [dataEvents, List.append_nil]
    split <;> exact h
  | drop j =>
    cases hn
    rw [dataEvents, List.append_nil]
    exact h

/-- Two connections in two loops.  Two messages for the first one are written as far as the socket
takes them, and one for the second waits. -/
def twoStreams : List MemoryStep :=
  List.map .server
    [.poll 0 16 [], .accept 7, .accept 8,
      .poll 1 16 [], .beginRound 1, .functor 1 0 .failed, .endRound 1,
      .poll 2 16 [], .beginRound 2, .functor 2 0 .failed, .endRound 2,
      .send 0 [65, 66], .send 1 [67], .send 0 [68], .queue 0, .queue 1, .queue 0,
      .poll 1 16 [(7, POLLIN)], .callback 1 (.data [1, 2]) .failed, .beginRound 1,
      .functor 1 0 (.accepted 1), .functor 1 0 .failed]

end ServerMemory

end Mymuduo

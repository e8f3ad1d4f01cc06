import Mymuduo.Lib.Run
import Mymuduo.Net.EPollPoller
import Mymuduo.Net.TcpServer

/-! The poller and the server in the two builds of the library.  A build with `NDEBUG` evaluates no
assertion, and two of the assertions erase the entry that they are about. -/

namespace Mymuduo

open Lib

inductive Build
  | debug
  | ndebug
  deriving DecidableEq, Repr

namespace Build

/-- `assert(condition)` -/
def assert (b : Build) (a : Assertion) (condition : Bool) : Except Fault Unit :=
  match b with
  | .debug => check a condition
  | .ndebug => .ok ()

/-- `assert(table.erase(key) == 1)` -/
def assertErase {κ ν : Type} [DecidableEq κ] (b : Build) (a : Assertion) (table : κ → Option ν)
    (key : κ) : Except Fault (κ → Option ν) :=
  match b with
  | .debug => do
    check a (table key).isSome
    return Function.update table key none
  | .ndebug => .ok table

/-- `EPollPoller::updateChannel` -/
def updateChannel (b : Build) (p : EPollPoller) (c : Channel) :
    Except Fault (EPollPoller × Channel) :=
  match c.index with
  | .kNew => do
    b.assert .updateChannelNew (p.channels c.fd == none)
    let p := { p with channels := Function.update p.channels c.fd (some c.ptr) }
    let p ← p.update .EPOLL_CTL_ADD c
    return (p, { c with index := .kAdded })
  | .kDeleted => do
    b.assert .updateChannelDeleted (p.channels c.fd == some c.ptr)
    let p ← p.update .EPOLL_CTL_ADD c
    return (p, { c with index := .kAdded })
  | .kAdded => do
    b.assert .updateChannelAdded (p.channels c.fd == some c.ptr)
    if c.isNoneEvent then
      let p ← p.update .EPOLL_CTL_DEL c
      return (p, { c with index := .kDeleted })
    else
      let p ← p.update .EPOLL_CTL_MOD c
      return (p, c)

/-- `EPollPoller::removeChannel` -/
def removeChannel (b : Build) (p : EPollPoller) (c : Channel) :
    Except Fault (EPollPoller × Channel) := do
  b.assert .removeChannelKnown (p.channels c.fd == some c.ptr)
  b.assert .removeChannelNoneEvent c.isNoneEvent
  b.assert .removeChannelIndex (c.index == .kAdded || c.index == .kDeleted)
  let channels ← b.assertErase .removeChannelKnown p.channels c.fd
  let p := { p with channels := channels }
  let p ← if c.index == .kAdded then p.update .EPOLL_CTL_DEL c else .ok p
  return (p, { c with index := .kNew })

/-- `TcpServer::removeConnectionInLoop` -/
def removeConnectionInLoop (b : Build) (s : TcpServer) (name : Bytes) :
    Except Fault TcpServer := do
  let connections ← b.assertErase .removeConnectionInLoop s.connections name
  return { s with connections := connections }

theorem assert_of_debug {b : Build} {a : Assertion} {condition : Bool} {u : Unit}
    (h : debug.assert a condition = .ok u) : b.assert a condition = .ok () := by
  cases b with
  | debug => exact h
  | ndebug => rfl

/-- An update whose assertions hold is the same in both builds. -/
theorem updateChannel_of_debug {b : Build} {p q : EPollPoller} {c d : Channel}
    (h : debug.updateChannel p c = .ok (q, d)) : b.updateChannel p c = .ok (q, d) := by
  unfold updateChannel at h ⊢
  split at h
  · obtain ⟨u, hassert, h⟩ := bind_eq_ok.mp h
    rw [assert_of_debug hassert]
    exact h
  · obtain ⟨u, hassert, h⟩ := bind_eq_ok.mp h
    rw [assert_of_debug hassert]
    exact h
  · obtain ⟨u, hassert, h⟩ := bind_eq_ok.mp h
    rw [assert_of_debug hassert]
    exact h

theorem removeChannel_channels {b : Build} {p q : EPollPoller} {c d : Channel}
    (h : b.removeChannel p c = .ok (q, d)) :
    b.assertErase .removeChannelKnown p.channels c.fd = .ok q.channels := by
  obtain ⟨u, -, h⟩ := bind_eq_ok.mp h
  obtain ⟨u, -, h⟩ := bind_eq_ok.mp h
  obtain ⟨u, -, h⟩ := bind_eq_ok.mp h
  obtain ⟨channels, hchannels, h⟩ := bind_eq_ok.mp h
  rw [hchannels]
  dsimp only at h
  split at h
  · obtain ⟨r, hr, h⟩ := bind_eq_ok.mp h
    cases h
    exact congrArg Except.ok (EPollPoller.update_channels hr).symm
  · cases h
    rfl

/-- What is erased by an assertion that holds is erased in a debug build only. -/
theorem assertErase_ne {κ ν : Type} [DecidableEq κ] {a : Assertion} {table : κ → Option ν}
    {key : κ} {t u : κ → Option ν} (hdebug : debug.assertErase a table key = .ok t)
    (hndebug : ndebug.assertErase a table key = .ok u) : t ≠ u := by
  obtain ⟨w, hpresent, ht⟩ := bind_eq_ok.mp hdebug
  cases ht
  cases hndebug
  intro heq
  have hkey := congrFun heq key
  rw [Function.update_self] at hkey
  rw [← hkey] at hpresent
  cases hpresent

/-! ### With the assertions evaluated, these are the functions of the model -/

theorem updateChannel_debug (p : EPollPoller) (c : Channel) :
    debug.updateChannel p c = p.updateChannel c := rfl

theorem removeChannel_debug (p : EPollPoller) (c : Channel) :
    debug.removeChannel p c = p.removeChannel c := by
  by_cases hknown : p.channels c.fd = some c.ptr
  · simp [removeChannel, EPollPoller.removeChannel, assert, assertErase, hknown]
  · simp [removeChannel, EPollPoller.removeChannel, assert, check, hknown]

theorem removeConnectionInLoop_debug (s : TcpServer) (name : Bytes) :
    debug.removeConnectionInLoop s name = s.removeConnectionInLoop name := by
  cases h : (s.connections name).isSome <;>
    simp [removeConnectionInLoop, TcpServer.removeConnectionInLoop, assertErase, h]

end Build

/-- A poller with the channels at their addresses, and a server with the names of the connections
that it has accepted.  `operations` are the calls of `epoll_ctl` so far. -/
structure Program where
  poller : EPollPoller
  heap : Nat → Option Channel
  operations : List (EpollOperation × Nat × Events)
  server : TcpServer
  names : List Bytes

namespace Program

/-- A channel is updated with the given interest or removed, a connection is accepted or removed. -/
inductive Step
  | updateChannel (a : Nat) (events : Events)
  | removeChannel (a : Nat)
  | newConnection
  | removeConnectionInLoop (conn : Nat)
  deriving DecidableEq, Repr

/-- A channel is back from the poller, which has called `epoll_ctl` with the operation, if any. -/
def setChannel (s : Program) (a : Nat) (p : EPollPoller) (c : Channel)
    (operation : Option EpollOperation) : Program :=
  { s with
    poller := p
    heap := Function.update s.heap a (some c)
    operations := s.operations ++ operation.toList.map fun o => (o, c.fd, c.events) }

def step (b : Build) (s : Program) : Step → Except Fault Program
  | .updateChannel a events =>
    match s.heap a with
    | none => .ok s
    | some old => do
      let c := { old with events := events }
      let (p, d) ← b.updateChannel s.poller c
      return s.setChannel a p d (some (EPollPoller.updateOperation c))
  | .removeChannel a =>
    match s.heap a with
    | none => .ok s
    | some c => do
      let (p, d) ← b.removeChannel s.poller c
      return s.setChannel a p d (EPollPoller.removeOperation c)
  | .newConnection =>
    .ok { s with
      server := s.server.newConnection s.names.length
      names := s.names ++ [s.server.connName] }
  | .removeConnectionInLoop conn =>
    match s.names[conn]? with
    | none => .ok s
    | some name => do
      let server ← b.removeConnectionInLoop s.server name
      return { s with server := server }

/-- The step removes a channel or a connection. -/
def Removes (s : Program) : Step → Prop
  | .removeChannel a => (s.heap a).isSome
  | .removeConnectionInLoop conn => conn < s.names.length
  | .updateChannel _ _ | .newConnection => False

instance (s : Program) (a : Step) : Decidable (Removes s a) :=
  match a with
  | .removeChannel _ => inferInstanceAs (Decidable (_ = true))
  | .removeConnectionInLoop _ => inferInstanceAs (Decidable (_ < _))
  | .updateChannel _ _ | .newConnection => .isFalse id

theorem step_ndebug {s t : Program} {a : Step} (ha : ¬ Removes s a)
    (h : step .debug s a = .ok t) : step .ndebug s a = .ok t := by
  cases a with
  | updateChannel a events =>
    dsimp only [step] at h ⊢
    cases hc : s.heap a with
    | none =>
      rw [hc] at h
      exact h
    | some old =>
      rw [hc] at h
      obtain ⟨⟨p, d⟩, hupdate, h⟩ := bind_eq_ok.mp h
      dsimp only
      rw [Build.updateChannel_of_debug hupdate]
      exact h
  | removeChannel a =>
    have hnone : s.heap a = none := by simpa [Removes] using ha
    dsimp only [step] at h ⊢
    rw [hnone] at h ⊢
    exact h
  | newConnection => exact h
  | removeConnectionInLoop conn =>
    have hnone : s.names[conn]? = none := by simpa [Removes] using ha
    dsimp only [step] at h ⊢
    rw [hnone] at h ⊢
    exact h

theorem step_ndebug_ne {s t : Program} {a : Step} (ha : Removes s a)
    (h : step .debug s a = .ok t) : step .ndebug s a ≠ .ok t := by
  intro hn
  cases a with
  | updateChannel a events => exact ha
  | removeChannel a =>
    obtain ⟨c, hc⟩ := Option.isSome_iff_exists.mp ha
    dsimp only [step] at h hn
    rw [hc] at h hn
    obtain ⟨⟨p, d⟩, hp, h⟩ := bind_eq_ok.mp h
    obtain ⟨⟨q, e⟩, hq, hn⟩ := bind_eq_ok.mp hn
    have heq := (Except.ok.inj h).trans (Except.ok.inj hn).symm
    exact Build.assertErase_ne (Build.removeChannel_channels hp) (Build.removeChannel_channels hq)
      (congrArg (fun r : Program => r.poller.channels) heq)
  | newConnection => exact ha
  | removeConnectionInLoop conn =>
    have hc : s.names[conn]? = some s.names[conn] := List.getElem?_eq_getElem ha
    dsimp only [step] at h hn
    rw [hc] at h hn
    obtain ⟨server, hserver, h⟩ := bind_eq_ok.mp h
    obtain ⟨server', hserver', hn⟩ := bind_eq_ok.mp hn
    obtain ⟨connections, hconnections, hserver⟩ := bind_eq_ok.mp hserver
    obtain ⟨connections', hconnections', hserver'⟩ := bind_eq_ok.mp hserver'
    cases hserver
    cases hserver'
    have heq := (Except.ok.inj h).trans (Except.ok.inj hn).symm
    exact Build.assertErase_ne hconnections hconnections'
      (congrArg (fun r : Program => r.server.connections) heq)

/-- A run in which all assertions hold goes through the same states without them exactly when no
step of it removes a channel or a connection. -/
theorem builds_agree_iff {s t : Program} {steps : List Step}
    (h : run (step .debug) s steps = .ok t) :
    (∀ before after, steps = before ++ after → ∀ u, run (step .debug) s before = .ok u →
      run (step .ndebug) s before = .ok u) ↔
    Along (step .debug) (fun u a => ¬ Removes u a) s steps := by
  induction steps generalizing s with
  | nil =>
    refine ⟨fun _ => trivial, ?_⟩
    intro _ before after hsplit u hu
    obtain ⟨rfl, -⟩ := List.append_eq_nil_iff.mp hsplit.symm
    exact hu
  | cons a steps ih =>
    obtain ⟨v, hv, hrun⟩ := run_cons_ok.mp h
    rw [along_cons_ok hv]
    constructor
    · intro hsame
      have hstep : step .ndebug s a = .ok v := by
        have hone := hsame [a] steps rfl v (by rw [run_singleton, hv])
        rwa [run_singleton] at hone
      refine ⟨fun hremoves => step_ndebug_ne hremoves hv hstep, (ih hrun).mp ?_⟩
      intro before after hsplit u hu
      have hlong := hsame (a :: before) after (by rw [hsplit]; rfl) u
        (run_cons_ok.mpr ⟨v, hv, hu⟩)
      obtain ⟨w, hw, hlong⟩ := run_cons_ok.mp hlong
      rw [hstep] at hw
      cases hw
      exact hlong
    · rintro ⟨hkeeps, hrest⟩ before after hsplit u hu
      cases before with
      | nil => exact hu
      | cons b before =>
        obtain ⟨rfl, hsplit'⟩ := List.cons.inj hsplit
        obtain ⟨w, hw, hu⟩ := run_cons_ok.mp hu
        cases hv.symm.trans hw
        exact run_cons_ok.mpr
          ⟨v, step_ndebug hkeeps hv, (ih hrun).mpr hrest before after hsplit' u hu⟩

/-- A channel for descriptor 5 and a server that has accepted nothing. -/
def start : Program where
  poller := .new
  heap a := if a = 0 then some (.new 0 5) else none
  operations := []
  server := .new { ip := (127, 0, 0, 1), port := 80 } []
  names := []

theorem builds_agree_until_removal :
    let steps : List Step := [.updateChannel 0 POLLIN, .newConnection, .updateChannel 0 POLLOUT]
    ∀ before after, steps = before ++ after → ∀ u, run (step .debug) start before = .ok u →
      run (step .ndebug) start before = .ok u :=
  (builds_agree_iff (t := _) (by rfl)).mpr (by decide)

/-- After the removal of the channel and of the connection, both are still entered in a build with
`NDEBUG`. -/
theorem builds_differ :
    let steps : List Step := [.updateChannel 0 POLLIN, .updateChannel 0 0, .removeChannel 0,
      .newConnection, .removeConnectionInLoop 0]
    ∃ t u, run (step .debug) start steps = .ok t ∧ run (step .ndebug) start steps = .ok u ∧
      t.poller.channels 5 = none ∧ u.poller.channels 5 = some 0 ∧
      t.server.connections start.server.connName = none ∧
      u.server.connections start.server.connName = some 0 :=
  ⟨_, _, rfl, rfl, rfl, rfl, rfl, rfl⟩

end Program

end Mymuduo

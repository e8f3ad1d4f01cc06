import Mymuduo.Base.Fault
import Mymuduo.Lib.Descriptors
import Mymuduo.Lib.Run

/-! The acceptor, statement by statement, among threads that open and close descriptors of their own.
When no descriptor is free it gives up the one that it keeps in reserve, takes a connection with it,
closes the connection and opens the reserve again. -/

namespace Mymuduo

open Lib

/-- What a descriptor belongs to.  A connection that has been handed over belongs to the callback. -/
inductive FdOwner
  | acceptSocket
  | idle
  | accepted (peer : Nat)
  | handed (peer : Nat)
  | other
  deriving DecidableEq, Repr

/-- What `errno` is when a call has failed. -/
inductive AcceptErrno
  | EAGAIN
  | EMFILE
  | other
  deriving DecidableEq, Repr

/-- Where the loop's thread is.  In `accepted`, `connfd` and `peer` are what `accept` has returned; in
`reclosing`, `peer` is the connection that `idleFd_` is, if it is one. -/
inductive AcceptPlace
  | looping
  | accepting
  | accepted (connfd peer : Nat)
  | failed (errno : AcceptErrno)
  | closingIdle
  | reaccepting
  | reclosing (peer : Option Nat)
  | reopening
  deriving DecidableEq, Repr

/-- An `Acceptor` and the descriptors of the process.  `idleFd` is `none` for -1, `backlog` holds the
connections that wait to be accepted, and the history tells which connections have arrived, and which
have been taken, with whether the callback was called for them. -/
structure Acceptor where
  descriptors : Descriptors FdOwner
  acceptFd : Nat
  newConnectionCallback : Bool
  listening : Bool
  idleFd : Option Nat
  place : AcceptPlace
  backlog : List Nat
  arrived : List Nat
  taken : List (Nat × Bool)

/-- A step.  `err` is what makes a call of the statement fail that would not have to, and what the log
statements leave in `errno`. -/
inductive AcceptStep
  | listen
  | event
  | advance (err : Option AcceptErrno)
  /-- A client connects. -/
  | arrives (peer : Nat)
  /-- Another thread opens a descriptor. -/
  | opens
  /-- The owner of a descriptor that is not the acceptor's closes it. -/
  | closes (fd : Nat)
  deriving DecidableEq, Repr

/-- The descriptor is the acceptor's own, the listening socket apart. -/
def FdOwner.acceptors : FdOwner → Bool
  | .idle | .accepted _ => true
  | .acceptSocket | .handed _ | .other => false

namespace Acceptor

/-- `Acceptor::Acceptor`, in a process that has the descriptors `t`, if it returns. -/
def new (t : Descriptors FdOwner) (newConnectionCallback : Bool) : Option Acceptor := do
  let (acceptFd, t) ← t.alloc .acceptSocket
  let (idleFd, t) ← t.alloc .idle
  return {
    descriptors := t
    acceptFd := acceptFd
    newConnectionCallback := newConnectionCallback
    listening := false
    idleFd := some idleFd
    place := .looping
    backlog := []
    arrived := []
    taken := [] }

/-- `::accept` on the listening socket. -/
def accept (s : Acceptor) : Option AcceptErrno → Acceptor × Except AcceptErrno (Nat × Nat)
  | some errno => (s, .error errno)
  | none =>
    match s.descriptors.lowestFree, s.backlog with
    | none, _ => (s, .error .EMFILE)
    | some _, [] => (s, .error .EAGAIN)
    | some fd, peer :: backlog =>
      ({ s with descriptors := s.descriptors.assign fd (some (.accepted peer)), backlog := backlog },
        .ok (fd, peer))

/-- `::open("/dev/null", O_RDONLY | O_CLOEXEC)` -/
def openIdle (s : Acceptor) : Option AcceptErrno → Acceptor × Option Nat
  | some _ => (s, none)
  | none =>
    match s.descriptors.alloc .idle with
    | none => (s, none)
    | some (fd, t) => ({ s with descriptors := t }, some fd)

/-- `::close`, which does nothing to -1. -/
def close (s : Acceptor) : Option Nat → Acceptor
  | none => s
  | some fd => { s with descriptors := s.descriptors.close fd }

/-- The next statement of `handleRead`. -/
def advance (s : Acceptor) (err : Option AcceptErrno) : Acceptor :=
  match s.place with
  | .looping => s
  | .accepting =>
    match s.accept err with
    | (s, .ok (connfd, peer)) => { s with place := .accepted connfd peer }
    | (s, .error errno) => { s with place := .failed errno }
  | .accepted connfd peer =>
    if s.newConnectionCallback then
      { s with
        descriptors := s.descriptors.assign connfd (some (.handed peer))
        taken := s.taken ++ [(peer, true)]
        place := .looping }
    else
      { s.close (some connfd) with taken := s.taken ++ [(peer, false)], place := .looping }
  | .failed errno =>
    if err.getD errno = .EMFILE then { s with place := .closingIdle } else { s with place := .looping }
  | .closingIdle => { s.close s.idleFd with place := .reaccepting }
  | .reaccepting =>
    match s.accept err with
    | (s, .ok (connfd, peer)) => { s with idleFd := some connfd, place := .reclosing (some peer) }
    | (s, .error _) => { s with idleFd := none, place := .reclosing none }
  | .reclosing peer =>
    { s.close s.idleFd with
      taken := s.taken ++ peer.toList.map fun p => (p, false)
      place := .reopening }
  | .reopening =>
    let (s, idleFd) := s.openIdle err
    { s with idleFd := idleFd, place := .looping }

def step (s : Acceptor) : AcceptStep → Except Fault Acceptor
  | .listen => .ok { s with listening := true }
  | .event => .ok (if s.listening ∧ s.place = .looping then { s with place := .accepting } else s)
  | .advance err => .ok (s.advance err)
  | .arrives peer =>
    .ok (if s.listening then
      { s with backlog := s.backlog ++ [peer], arrived := s.arrived ++ [peer] } else s)
  | .opens =>
    .ok (match s.descriptors.alloc .other with
      | some (_, t) => { s with descriptors := t }
      | none => s)
  | .closes fd =>
    .ok (match s.descriptors.owner fd with
      | some (.handed _) | some .other => s.close (some fd)
      | _ => s)

/-- A step of the loop's thread. -/
def IsOwn : AcceptStep → Prop
  | .listen | .event | .advance _ => True
  | .arrives _ | .opens | .closes _ => False

/-- The descriptors that the acceptor has to close, the listening socket apart. -/
def held (s : Acceptor) : List Nat :=
  match s.place with
  | .accepted connfd _ => connfd :: s.idleFd.toList
  | .reaccepting | .reopening => []
  | _ => s.idleFd.toList

/-- The connection that has been accepted, and neither handed over nor closed. -/
def inHand (s : Acceptor) : List Nat :=
  match s.place with
  | .accepted _ peer => [peer]
  | .reclosing peer => peer.toList
  | _ => []

/-! ### Whose descriptors are closed -/

/-- The acceptor's own descriptors are those in the list. -/
def Owns (t : Descriptors FdOwner) (l : List Nat) : Prop :=
  ∀ fd, (∃ o, t.owner fd = some o ∧ o.acceptors = true) ↔ fd ∈ l

/-- The descriptors that are not the acceptor's own stay with their owners. -/
def Spares (t u : Descriptors FdOwner) : Prop :=
  ∀ fd o, t.owner fd = some o → o.acceptors = false → u.owner fd = some o

structure Sound (s : Acceptor) : Prop where
  owns : Owns s.descriptors s.held
  nodup : s.held.Nodup
  socket : s.descriptors.owner s.acceptFd = some .acceptSocket
  arrived : s.arrived = s.taken.map Prod.fst ++ s.inHand ++ s.backlog

variable {s s' : Acceptor} {t u : Descriptors FdOwner} {l : List Nat} {fd : Nat} {o : FdOwner}

theorem Owns.opened (h : Owns t l) (hfree : t.lowestFree = some fd) (ho : o.acceptors = true) :
    Owns (t.assign fd (some o)) (fd :: l) ∧ fd ∉ l := by
  have hnone := (Descriptors.lowestFree_spec hfree).2.1
  refine ⟨?_, ?_⟩
  · intro n
    rw [Descriptors.assign_free_owner hfree, List.mem_cons]
    by_cases heq : n = fd
    · rw [if_pos heq]
      exact iff_of_true ⟨o, rfl, ho⟩ (.inl heq)
    · rw [if_neg heq, h n]
      exact ⟨.inr, fun hn => hn.resolve_left heq⟩
  · intro hmem
    obtain ⟨o', ho', -⟩ := (h fd).mpr hmem
    rw [hnone] at ho'
    cases ho'

/-- A descriptor that the acceptor gives away or closes. -/
theorem Owns.gaveUp {r : Option FdOwner} (h : Owns t (fd :: l)) (hfd : fd ∉ l)
    (hr : ∀ o, r = some o → o.acceptors = false)
    (hu : ∀ n, u.owner n = if n = fd then r else t.owner n) : Owns u l := by
  intro n
  rw [hu]
  by_cases heq : n = fd
  · rw [if_pos heq]
    refine iff_of_false ?_ (heq ▸ hfd)
    rintro ⟨o, ho, hown⟩
    rw [hr o ho] at hown
    cases hown
  · rw [if_neg heq, h n, List.mem_cons]
    exact ⟨fun hn => hn.resolve_left heq, .inr⟩

/-- A descriptor that is nobody's or someone else's gets an owner that is not the acceptor. -/
theorem Owns.foreign {r : Option FdOwner} (h : Owns t l)
    (hfd : ∀ o, t.owner fd = some o → o.acceptors = false)
    (hr : ∀ o, r = some o → o.acceptors = false)
    (hu : ∀ n, u.owner n = if n = fd then r else t.owner n) : Owns u l := by
  intro n
  rw [hu]
  by_cases heq : n = fd
  · rw [if_pos heq, ← h n, heq]
    refine iff_of_false ?_ ?_
    · rintro ⟨o, ho, hown⟩
      rw [hr o ho] at hown
      cases hown
    · rintro ⟨o, ho, hown⟩
      rw [hfd o ho] at hown
      cases hown
  · rw [if_neg heq]
    exact h n

theorem Spares.refl (t : Descriptors FdOwner) : Spares t t := fun _ _ h _ => h

theorem Spares.opened (hfree : t.lowestFree = some fd) (o : FdOwner) :
    Spares t (t.assign fd (some o)) :=
  fun _ _ h _ => Descriptors.assign_free_keeps hfree o h

theorem Spares.own {r : Option FdOwner} (h : Owns t (fd :: l))
    (hu : ∀ n, u.owner n = if n = fd then r else t.owner n) : Spares t u := by
  intro n o ho hown
  rw [hu, if_neg, ho]
  rintro rfl
  obtain ⟨o', ho', hown'⟩ := (h n).mpr List.mem_cons_self
  cases ho.symm.trans ho'
  rw [hown] at hown'
  cases hown'

/-- The acceptor closes a descriptor of its own. -/
theorem Owns.closed (h : Owns t (fd :: l)) (hfd : fd ∉ l) :
    Owns (t.close fd) l ∧ Spares t (t.close fd) :=
  ⟨h.gaveUp (r := none) hfd nofun (t.close_owner fd), .own h (t.close_owner fd)⟩

/-- The acceptor closes the one descriptor of its own, if it has one. -/
theorem Owns.closeOnly {r : Option Nat} (h : Owns s.descriptors r.toList) :
    ∃ u, s.close r = { s with descriptors := u } ∧ Owns u [] ∧ Spares s.descriptors u := by
  cases r with
  | none => exact ⟨s.descriptors, rfl, h, .refl _⟩
  | some fd =>
    obtain ⟨hclosed, hspares⟩ := Owns.closed h List.not_mem_nil
    exact ⟨_, rfl, hclosed, hspares⟩

/-- A call of `::accept`: it fails, or there is a free descriptor for the oldest connection. -/
theorem accept_cases (s : Acceptor) (err : Option AcceptErrno) :
    (∃ errno, s.accept err = (s, .error errno)) ∨
    ∃ fd peer backlog, err = none ∧ s.descriptors.lowestFree = some fd ∧
      s.backlog = peer :: backlog ∧ s.accept err =
        ({ s with
          descriptors := s.descriptors.assign fd (some (.accepted peer))
          backlog := backlog }, .ok (fd, peer)) := by
  unfold accept
  cases err with
  | some errno => exact .inl ⟨errno, rfl⟩
  | none =>
    dsimp only
    split
    · exact .inl ⟨_, rfl⟩
    · exact .inl ⟨_, rfl⟩
    · rename_i fd peer backlog hfree hbacklog
      exact .inr ⟨fd, peer, backlog, rfl, hfree, hbacklog, rfl⟩

theorem openIdle_cases (s : Acceptor) (err : Option AcceptErrno) :
    s.openIdle err = (s, none) ∨
    ∃ fd, s.descriptors.lowestFree = some fd ∧ s.openIdle err =
      ({ s with descriptors := s.descriptors.assign fd (some .idle) }, some fd) := by
  unfold openIdle
  cases err with
  | some errno => exact .inl rfl
  | none =>
    dsimp only
    split
    · exact .inl rfl
    · rename_i fd t halloc
      obtain ⟨hfree, rfl⟩ := Descriptors.alloc_spec halloc
      exact .inr ⟨fd, hfree, rfl⟩

/-- A step of `handleRead` keeps the account of the descriptors, and spares those of others. -/
theorem Sound.advance (h : Sound s) (err : Option AcceptErrno) :
    Sound (s.advance err) ∧ Spares s.descriptors (s.advance err).descriptors := by
  have howns := h.owns
  have hnodup := h.nodup
  have harrived := h.arrived
  unfold held at howns hnodup
  unfold inHand at harrived
  unfold Acceptor.advance
  cases hplace : s.place with
  | looping => exact ⟨h, .refl _⟩
  | accepting =>
    rw [hplace] at howns hnodup harrived
    dsimp only
    rcases s.accept_cases err with
      ⟨errno, haccept⟩ | ⟨fd, peer, backlog, -, hfree, hbacklog, haccept⟩
    · rw [haccept]
      exact ⟨⟨howns, hnodup, h.socket, harrived⟩, .refl _⟩
    · rw [haccept]
      obtain ⟨hopened, hnot⟩ := howns.opened hfree (o := .accepted peer) rfl
      refine ⟨⟨hopened, List.nodup_cons.mpr ⟨hnot, hnodup⟩,
        Descriptors.assign_free_keeps hfree _ h.socket, ?_⟩, .opened hfree _⟩
      rw [harrived, hbacklog]
      simp [inHand]
  | accepted connfd peer =>
    rw [hplace] at howns hnodup harrived
    dsimp only at howns hnodup
    obtain ⟨hnot, hnodup⟩ := List.nodup_cons.mp hnodup
    obtain ⟨o, ho, -⟩ := (howns connfd).mpr List.mem_cons_self
    have hassign := Descriptors.assign_owner (Descriptors.lt_limit ho) (some (FdOwner.handed peer))
    dsimp only
    split
    · refine ⟨⟨howns.gaveUp hnot ?_ hassign, hnodup, Spares.own howns hassign _ _ h.socket rfl, ?_⟩,
        .own howns hassign⟩
      · rintro o ⟨⟩
        rfl
      · rw [harrived]
        simp [inHand]
    · obtain ⟨hclosed, hspares⟩ := howns.closed hnot
      refine ⟨⟨hclosed, hnodup, hspares _ _ h.socket rfl, ?_⟩, hspares⟩
      show s.arrived = _
      rw [harrived]
      simp [inHand, close]
  | failed errno =>
    rw [hplace] at howns hnodup harrived
    dsimp only
    split
    · exact ⟨⟨howns, hnodup, h.socket, harrived⟩, .refl _⟩
    · exact ⟨⟨howns, hnodup, h.socket, harrived⟩, .refl _⟩
  | closingIdle =>
    rw [hplace] at howns hnodup harrived
    dsimp only
    obtain ⟨u, hu, hclosed, hspares⟩ := howns.closeOnly
    rw [hu]
    exact ⟨⟨hclosed, List.nodup_nil, hspares _ _ h.socket rfl, harrived⟩, hspares⟩
  | reaccepting =>
    rw [hplace] at howns hnodup harrived
    dsimp only
    rcases s.accept_cases err with
      ⟨errno, haccept⟩ | ⟨fd, peer, backlog, -, hfree, hbacklog, haccept⟩
    · rw [haccept]
      exact ⟨⟨howns, List.nodup_nil, h.socket, harrived⟩, .refl _⟩
    · rw [haccept]
      obtain ⟨hopened, -⟩ := howns.opened hfree (o := .accepted peer) rfl
      refine ⟨⟨hopened, List.nodup_cons.mpr ⟨List.not_mem_nil, List.nodup_nil⟩,
        Descriptors.assign_free_keeps hfree _ h.socket, ?_⟩, .opened hfree _⟩
      rw [harrived, hbacklog]
      simp [inHand]
  | reclosing peer =>
    rw [hplace] at howns hnodup harrived
    have harrived' : s.arrived =
        (s.taken ++ peer.toList.map fun p => (p, false)).map Prod.fst ++ [] ++ s.backlog := by
      rw [harrived]
      simp [Function.comp_def]
    dsimp only
    obtain ⟨u, hu, hclosed, hspares⟩ := howns.closeOnly
    rw [hu]
    exact ⟨⟨hclosed, List.nodup_nil, hspares _ _ h.socket rfl, harrived'⟩, hspares⟩
  | reopening =>
    rw [hplace] at howns hnodup harrived
    dsimp only
    rcases s.openIdle_cases err with hopen | ⟨fd, hfree, hopen⟩
    · rw [hopen]
      exact ⟨⟨howns, List.nodup_nil, h.socket, harrived⟩, .refl _⟩
    · rw [hopen]
      obtain ⟨hopened, -⟩ := howns.opened hfree (o := .idle) rfl
      exact ⟨⟨hopened, List.nodup_cons.mpr ⟨List.not_mem_nil, List.nodup_nil⟩,
        Descriptors.assign_free_keeps hfree _ h.socket, harrived⟩, .opened hfree _⟩

theorem Sound.step (h : Sound s) (a : AcceptStep) :
    ∃ s', step s a = .ok s' ∧ Sound s' ∧ (IsOwn a → Spares s.descriptors s'.descriptors) := by
  cases a with
  | listen => exact ⟨_, rfl, ⟨h.owns, h.nodup, h.socket, h.arrived⟩, fun _ => .refl _⟩
  | event =>
    refine ⟨_, rfl, ?_, fun _ => ?_⟩
    · split
      · rename_i hlooping
        have howns := h.owns
        have hnodup := h.nodup
        have harrived := h.arrived
        rw [held, hlooping.2] at howns hnodup
        rw [inHand, hlooping.2] at harrived
        exact ⟨howns, hnodup, h.socket, harrived⟩
      · exact h
    · split <;> exact .refl _
  | advance err =>
    obtain ⟨hsound, hspares⟩ := h.advance err
    exact ⟨_, rfl, hsound, fun _ => hspares⟩
  | arrives peer =>
    refine ⟨_, rfl, ?_, False.elim⟩
    split
    · refine ⟨h.owns, h.nodup, h.socket, ?_⟩
      show s.arrived ++ [peer] = s.taken.map Prod.fst ++ s.inHand ++ (s.backlog ++ [peer])
      rw [h.arrived, ← List.append_assoc]
    · exact h
  | opens =>
    refine ⟨_, rfl, ?_, False.elim⟩
    split
    · rename_i fd t halloc
      obtain ⟨hfree, rfl⟩ := Descriptors.alloc_spec halloc
      have hnone := (Descriptors.lowestFree_spec hfree).2.1
      refine ⟨h.owns.foreign ?_ ?_ (Descriptors.assign_free_owner hfree .other), h.nodup,
        Descriptors.assign_free_keeps hfree _ h.socket, h.arrived⟩
      · intro o ho
        rw [hnone] at ho
        cases ho
      · rintro o ⟨⟩
        rfl
    · exact h
  | closes fd =>
    refine ⟨_, rfl, ?_, False.elim⟩
    have hclosed : ∀ o, s.descriptors.owner fd = some o → o.acceptors = false → o ≠ .acceptSocket →
        Sound (s.close (some fd)) := by
      intro o ho hown hsocket
      have hne : s.acceptFd ≠ fd := by
        rintro rfl
        rw [h.socket] at ho
        exact hsocket (Option.some.inj ho).symm
      refine ⟨h.owns.foreign (r := none) ?_ nofun (s.descriptors.close_owner fd), h.nodup, ?_,
        h.arrived⟩
      · intro o' ho'
        rw [ho] at ho'
        rw [← Option.some.inj ho', hown]
      · exact (s.descriptors.close_owner_of_ne hne).trans h.socket
    split
    · rename_i peer ho
      exact hclosed _ ho rfl (by simp)
    · rename_i ho
      exact hclosed _ ho rfl (by simp)
    · exact h

theorem sound_new {callback : Bool} (hother : ∀ fd o, t.owner fd = some o → o = .other)
    (hnew : new t callback = some s) : Sound s := by
  obtain ⟨⟨acceptFd, u⟩, hsocket, hnew⟩ := Option.bind_eq_some_iff.mp hnew
  obtain ⟨⟨idleFd, v⟩, hidle, hnew⟩ := Option.bind_eq_some_iff.mp hnew
  cases hnew
  obtain ⟨hfree, rfl⟩ := Descriptors.alloc_spec hsocket
  obtain ⟨hfree', rfl⟩ := Descriptors.alloc_spec hidle
  have hnone : Owns t [] := by
    intro fd
    refine iff_of_false ?_ List.not_mem_nil
    rintro ⟨o, ho, hown⟩
    rw [hother fd o ho] at hown
    cases hown
  have hsocketOwner := Descriptors.assign_free_owner hfree FdOwner.acceptSocket acceptFd
  rw [if_pos rfl] at hsocketOwner
  have hopened : Owns (t.assign acceptFd (some .acceptSocket)) [] := by
    refine hnone.foreign ?_ ?_ (Descriptors.assign_free_owner hfree .acceptSocket)
    · intro o ho
      rw [hother acceptFd o ho]
      rfl
    · rintro o ⟨⟩
      rfl
  exact ⟨(hopened.opened hfree' rfl).1, List.nodup_cons.mpr ⟨List.not_mem_nil, List.nodup_nil⟩,
    Descriptors.assign_free_keeps hfree' _ hsocketOwner, rfl⟩

theorem length_held (s : Acceptor) : s.held.length ≤ 2 ∧ (s.place = .looping → s.held.length ≤ 1) := by
  have hidle : s.idleFd.toList.length ≤ 1 := by cases s.idleFd <;> simp
  unfold held
  split
  · rename_i connfd peer hplace
    rw [List.length_cons]
    exact ⟨by omega, fun hlooping => absurd (hplace.symm.trans hlooping) (by simp)⟩
  · exact ⟨by simp, by simp⟩
  · exact ⟨by simp, by simp⟩
  · exact ⟨by omega, fun _ => hidle⟩

/-- In every run in which other threads open and close descriptors at any time, also between the
statements of `handleRead`, and calls fail as they like: the acceptor has open the descriptors that
it has to close, two at most and one at most between two calls; the next statement of its thread
takes no descriptor from anybody else; its listening socket stays open; and the connections that have
arrived are those that have been taken, in the order of their arrival, the one that is in hand, and
those that wait. -/
theorem closes_only_its_own {callback : Bool} {start : Acceptor}
    (hother : ∀ fd o, t.owner fd = some o → o = .other) (hnew : new t callback = some start)
    (steps : List AcceptStep) :
    ∃ s, run step start steps = .ok s ∧
      (∀ fd, (∃ o, s.descriptors.owner fd = some o ∧ o.acceptors = true) ↔ fd ∈ s.held) ∧
      s.held.length ≤ 2 ∧ (s.place = .looping → s.held.length ≤ 1) ∧
      (∀ a s', IsOwn a → step s a = .ok s' → ∀ fd o, s.descriptors.owner fd = some o →
        o.acceptors = false → s'.descriptors.owner fd = some o) ∧
      s.descriptors.owner s.acceptFd = some .acceptSocket ∧
      s.arrived = s.taken.map Prod.fst ++ s.inHand ++ s.backlog := by
  obtain ⟨s, hs, hsound⟩ := run_total (I := Sound) (fun {s} h a => by
    obtain ⟨s', hs', hsound, -⟩ := h.step a
    exact ⟨s', hs', hsound⟩) (sound_new hother hnew) steps
  obtain ⟨htwo, hone⟩ := s.length_held
  refine ⟨s, hs, hsound.owns, htwo, hone, ?_, hsound.socket, hsound.arrived⟩
  intro a s' hown hstep
  obtain ⟨u, hu, -, hspares⟩ := hsound.step a
  cases hstep.symm.trans hu
  exact hspares hown

/-- A process whose first descriptor is open, with room for two more. -/
def threeDescriptors : Descriptors FdOwner where
  limit := 3
  owner fd := if fd = 0 then some .other else none
  bounded fd h := if_neg (by omega)

theorem threeDescriptors_other (fd : Nat) (o : FdOwner) (h : threeDescriptors.owner fd = some o) :
    o = .other := by
  change (if fd = 0 then some FdOwner.other else none) = some o at h
  split at h <;> cases h
  rfl

/-- A connection arrives when all descriptors are open, and another thread takes the one that the
acceptor has given up for it. -/
def overtaken : List AcceptStep :=
  [.listen, .arrives 7, .event, .advance none, .advance none, .advance none, .opens, .advance none,
    .advance none, .advance none]

theorem closes_only_its_own_overtaken : ∃ start s, new threeDescriptors true = some start ∧
    run step start overtaken = .ok s ∧ s.idleFd = none ∧ s.descriptors.owner 2 = some .other ∧
    s.held.length ≤ 2 ∧ s.arrived = s.taken.map Prod.fst ++ s.inHand ++ s.backlog := by
  obtain ⟨start, hstart⟩ : ∃ start, new threeDescriptors true = some start := ⟨_, rfl⟩
  obtain ⟨s, hs, -, htwo, -, -, -, harrived⟩ :=
    closes_only_its_own threeDescriptors_other hstart overtaken
  have heval : (new threeDescriptors true).map (fun start =>
      (run step start overtaken).toOption.map fun s => (s.idleFd, s.descriptors.owner 2)) =
      some (some (none, some .other)) := by decide +kernel
  rw [hstart, Option.map_some, hs] at heval
  obtain ⟨hidle, howner⟩ := Prod.mk.inj (Option.some.inj (Option.some.inj heval))
  exact ⟨start, s, hstart, hs, hidle, howner, htwo, harrived⟩

/-! ### Calls that nothing comes between -/

/-- A client, another thread, or a whole call of `handleRead`. -/
inductive AcceptCall
  | arrives (peer : Nat)
  | opens
  | closes (fd : Nat)
  | handleRead
  deriving DecidableEq, Repr

def AcceptCall.steps : AcceptCall → List AcceptStep
  | .arrives peer => [.arrives peer]
  | .opens => [.opens]
  | .closes fd => [.closes fd]
  | .handleRead => .event :: List.replicate 6 (.advance none)

/-- The connections that wait, if each call of `handleRead` takes the oldest of them. -/
def drain (waiting : List Nat) : AcceptCall → List Nat
  | .arrives peer => waiting ++ [peer]
  | .handleRead => waiting.tail
  | .opens | .closes _ => waiting

/-- The acceptor is at rest and listens. -/
structure Ready (s : Acceptor) : Prop where
  looping : s.place = .looping
  listening : s.listening = true

/-- What a call of `handleRead` does that nothing comes between: it takes the oldest connection, if
there is a descriptor for it, free or in reserve.  The reserve is there after the call as before. -/
def TakesOldest (s t : Acceptor) : Prop :=
  (t.idleFd.isSome ↔ s.idleFd.isSome) ∧
    if s.descriptors.lowestFree = none ∧ s.idleFd = none then
      t.backlog = s.backlog ∧ t.taken = s.taken
    else
      t.backlog = s.backlog.tail ∧ t.taken = s.taken ++ (s.backlog.take 1).map fun peer =>
        (peer, s.newConnectionCallback && s.descriptors.lowestFree.isSome)

theorem Sound.handleRead (h : Sound s) (hlooping : s.place = .looping)
    (hlistening : s.listening = true) :
    ∃ s', run Acceptor.step s AcceptCall.handleRead.steps = .ok s' ∧ s'.place = .looping ∧
      s'.listening = true ∧ TakesOldest s s' := by
  unfold TakesOldest
  cases hfree : s.descriptors.lowestFree with
  | some fd =>
    cases hbacklog : s.backlog with
    | nil =>
      simp [AcceptCall.steps, run_cons, Acceptor.step, hlooping, hlistening, Acceptor.advance,
        accept, hfree, hbacklog]
    | cons peer backlog =>
      cases hcallback : s.newConnectionCallback with
      | true =>
        simp [AcceptCall.steps, run_cons, Acceptor.step, hlooping, hlistening, Acceptor.advance,
          accept, hfree, hbacklog, hcallback]
      | false =>
        simp [AcceptCall.steps, run_cons, Acceptor.step, hlooping, hlistening, Acceptor.advance,
          accept, hfree, hbacklog, hcallback, close]
  | none =>
    cases hidle : s.idleFd with
    | none =>
      simp [AcceptCall.steps, run_cons, Acceptor.step, hlooping, hlistening, Acceptor.advance,
        accept, hfree, hidle, close, openIdle, Descriptors.alloc]
    | some idle =>
      -- The reserve is open, and there is room when it has been closed.
      have howns := h.owns
      rw [held, hlooping, hidle] at howns
      obtain ⟨o, ho, -⟩ := (howns idle).mpr (by simp)
      obtain ⟨n, hn⟩ := Descriptors.lowestFree_close ho
      cases hbacklog : s.backlog with
      | nil =>
        simp [AcceptCall.steps, run_cons, Acceptor.step, hlooping, hlistening, Acceptor.advance,
          accept, hfree, hidle, hbacklog, close, hn, openIdle, Descriptors.alloc]
      | cons peer backlog =>
        have hopened := Descriptors.assign_free_owner hn (.accepted peer) n
        rw [if_pos rfl] at hopened
        obtain ⟨m, hm⟩ := Descriptors.lowestFree_close hopened
        simp [AcceptCall.steps, run_cons, Acceptor.step, hlooping, hlistening, Acceptor.advance,
          accept, hfree, hidle, hbacklog, close, hn, hm, openIdle, Descriptors.alloc]

/-- A client, another thread, or a call of `handleRead`, with the reserve in place. -/
theorem Sound.call (h : Sound s) (hready : Ready s) (hidle : s.idleFd.isSome) (c : AcceptCall) :
    ∃ s', run Acceptor.step s c.steps = .ok s' ∧ Sound s' ∧ Ready s' ∧ s'.idleFd.isSome ∧
      s'.backlog = drain s.backlog c := by
  have hsound : ∀ {steps s'}, run Acceptor.step s steps = .ok s' → Sound s' := fun hrun =>
    run_invariant (fun u a v hu huv => by
      obtain ⟨w, hw, hsound, -⟩ := hu.step a
      cases huv.symm.trans hw
      exact hsound) h hrun
  obtain ⟨hlooping, hlistening⟩ := hready
  cases c with
  | arrives peer =>
    have hstep : Acceptor.step s (.arrives peer) =
        .ok { s with backlog := s.backlog ++ [peer], arrived := s.arrived ++ [peer] } :=
      congrArg Except.ok (if_pos hlistening)
    have hrun := (run_singleton Acceptor.step s _).trans hstep
    exact ⟨_, hrun, hsound hrun, ⟨hlooping, hlistening⟩, hidle, rfl⟩
  | opens =>
    obtain ⟨s', hs', -⟩ := h.step .opens
    have hrun := (run_singleton Acceptor.step s _).trans hs'
    refine ⟨s', hrun, hsound hrun, ?_⟩
    cases hs'
    split <;> exact ⟨⟨hlooping, hlistening⟩, hidle, rfl⟩
  | closes fd =>
    obtain ⟨s', hs', -⟩ := h.step (.closes fd)
    have hrun := (run_singleton Acceptor.step s _).trans hs'
    refine ⟨s', hrun, hsound hrun, ?_⟩
    cases hs'
    split <;> exact ⟨⟨hlooping, hlistening⟩, hidle, rfl⟩
  | handleRead =>
    obtain ⟨s', hrun, hlooping', hlistening', hkeeps, htakes⟩ := h.handleRead hlooping hlistening
    refine ⟨s', hrun, hsound hrun, ⟨hlooping', hlistening'⟩, hkeeps.mpr hidle, ?_⟩
    have hreserve : ¬(s.descriptors.lowestFree = none ∧ s.idleFd = none) := by
      rintro ⟨-, hnone⟩
      rw [hnone] at hidle
      cases hidle
    rw [if_neg hreserve] at htakes
    exact htakes.1

theorem run_calls (calls : List AcceptCall) (h : Sound s) (hready : Ready s)
    (hidle : s.idleFd.isSome) :
    ∃ s', run Acceptor.step s (calls.flatMap AcceptCall.steps) = .ok s' ∧ Sound s' ∧
      s'.idleFd.isSome ∧ s'.backlog = calls.foldl drain s.backlog := by
  induction calls generalizing s with
  | nil => exact ⟨s, rfl, h, hidle, rfl⟩
  | cons c calls ih =>
    obtain ⟨u, hu, hsound, hready', hidle', hbacklog⟩ := h.call hready hidle c
    obtain ⟨s', hs', hend, hidle'', hrest⟩ := ih hsound hready' hidle'
    refine ⟨s', ?_, hend, hidle'', by rw [hrest, hbacklog]; rfl⟩
    rw [List.flatMap_cons]
    exact run_append_ok.mpr ⟨u, hu, hs'⟩

/-- From whatever state other threads have brought the acceptor to, a call of `handleRead` that they
do not interrupt takes the oldest connection if and only if a descriptor is free or the reserve is
there; and in a run in which they never interrupt such a call, the reserve is always there, and each
call takes a connection if one waits. -/
theorem drains_backlog {callback : Bool} {start : Acceptor}
    (hother : ∀ fd o, t.owner fd = some o → o = .other) (hnew : new t callback = some start) :
    (∀ steps s, run step start steps = .ok s → s.place = .looping → s.listening = true →
      ∃ s', run step s AcceptCall.handleRead.steps = .ok s' ∧ TakesOldest s s') ∧
    ∀ calls : List AcceptCall, ∃ s,
      run step start (.listen :: calls.flatMap AcceptCall.steps) = .ok s ∧ s.idleFd.isSome ∧
        s.backlog = calls.foldl drain [] := by
  have hstart := sound_new hother hnew
  constructor
  · intro steps s hs hlooping hlistening
    obtain ⟨u, hu, hsound⟩ := run_total (I := Sound) (fun {s} h a => by
      obtain ⟨s', hs', hsound, -⟩ := h.step a
      exact ⟨s', hs', hsound⟩) hstart steps
    cases hs.symm.trans hu
    obtain ⟨s', hs', -, -, htakes⟩ := hsound.handleRead hlooping hlistening
    exact ⟨s', hs', htakes⟩
  · intro calls
    obtain ⟨⟨acceptFd, u⟩, -, hnew⟩ := Option.bind_eq_some_iff.mp hnew
    obtain ⟨⟨idleFd, v⟩, -, hnew⟩ := Option.bind_eq_some_iff.mp hnew
    cases hnew
    obtain ⟨u, hu, hsound, -⟩ := hstart.step .listen
    cases hu
    obtain ⟨s, hs, -, hidle, hbacklog⟩ := run_calls calls hsound ⟨rfl, rfl⟩ rfl
    exact ⟨s, hs, hidle, hbacklog⟩

/-- Three connections arrive while all descriptors are open, and two calls take two of them. -/
def crowded : List AcceptCall :=
  [.arrives 7, .arrives 8, .handleRead, .opens, .arrives 9, .handleRead]

theorem drains_backlog_crowded : ∃ start s, new threeDescriptors true = some start ∧
    run step start (.listen :: crowded.flatMap AcceptCall.steps) = .ok s ∧ s.idleFd.isSome ∧
    s.backlog = [9] := by
  obtain ⟨start, hstart⟩ : ∃ start, new threeDescriptors true = some start := ⟨_, rfl⟩
  obtain ⟨s, hs, hidle, hbacklog⟩ := (drains_backlog threeDescriptors_other hstart).2 crowded
  exact ⟨start, s, hstart, hs, hidle, hbacklog⟩

end Acceptor

end Mymuduo

import Mymuduo.Http.ParseRequest

/-! A parse with all that it leaves, also where an exception ends it, and how parses of the parts of
an input make up a parse of the whole. -/

namespace Mymuduo

open Lib

/-- How a call of `parseRequest` ends, with a code or a fault, and the parser and the input that it
leaves. -/
structure Parsed (Q : Type) where
  ending : Except Fault HttpCode
  http : HttpConnection
  input : Q

/-- The same, with the bytes of the input. -/
def Parsed.read {Q : Type} [ByteQueue Q] (p : Parsed Q) : Parsed Bytes :=
  ⟨p.ending, p.http, ByteQueue.bytes p.input⟩

namespace HttpConnection

section

variable {Q : Type} [ByteQueue Q]

/-- The input after an iteration that throws.  A header line is taken before it is parsed; the length
of a body is read before any of the body is taken, and what could be read once can be read again. -/
def thrown (c : HttpConnection) (q : Q) : Q :=
  match c.parseState, ByteQueue.findCRLF q with
  | .kHeader, some crlf =>
    match ByteQueue.retrieveLine q crlf with
    | .ok (_, q) => q
    | .error _ => q
  | _, _ => q

/-- The loop of `parseRequest`, for at most `fuel` iterations. -/
def attemptLoop (fs : FileSystem) : Nat → HttpConnection → Q → Parsed Q
  | 0, c, q => ⟨.ok .kNoRequest, c, q⟩
  | fuel + 1, c, q =>
    if c.parseState = .kFinish then ⟨.ok .kGetRequest, c, q⟩
    else
      match c.iterate fs q with
      | .error e => ⟨.error e, c, c.thrown q⟩
      | .ok (.returns ret c q) => ⟨.ok ret, c, q⟩
      | .ok (.continues c q) => attemptLoop fs fuel c q

/-- A call of `parseRequest`. -/
def attempt (fs : FileSystem) (c : HttpConnection) (q : Q) : Parsed Q :=
  attemptLoop fs (ByteQueue.readableBytes q + 1) c q

/-- The `while` of `parseRequest` ends, after finitely many iterations. -/
inductive Ends (fs : FileSystem) : HttpConnection → Q → Parsed Q → Prop
  | finish {c : HttpConnection} {q : Q} (hfinish : c.parseState = .kFinish) :
      Ends fs c q ⟨.ok .kGetRequest, c, q⟩
  | throws {c : HttpConnection} {q : Q} {e : Fault} (hfinish : c.parseState ≠ .kFinish)
      (hiterate : c.iterate fs q = .error e) : Ends fs c q ⟨.error e, c, c.thrown q⟩
  | returns {c c' : HttpConnection} {q q' : Q} {ret : HttpCode}
      (hfinish : c.parseState ≠ .kFinish) (hiterate : c.iterate fs q = .ok (.returns ret c' q')) :
      Ends fs c q ⟨.ok ret, c', q'⟩
  | continues {c c' : HttpConnection} {q q' : Q} {p : Parsed Q}
      (hfinish : c.parseState ≠ .kFinish) (hiterate : c.iterate fs q = .ok (.continues c' q'))
      (hrest : Ends fs c' q' p) : Ends fs c q p

variable {fs : FileSystem} {c c' : HttpConnection} {q : Q} {p p' : Parsed Q}

theorem Ends.unique (h : Ends fs c q p) (h' : Ends fs c q p') : p = p' := by
  induction h with
  | finish hfinish =>
    cases h' with
    | finish => rfl
    | throws hne | returns hne | continues hne => exact absurd hfinish hne
  | throws hfinish hiterate =>
    cases h' with
    | finish hfinish' => exact absurd hfinish' hfinish
    | throws _ hiterate' =>
      cases hiterate.symm.trans hiterate'
      rfl
    | returns _ hiterate' | continues _ hiterate' => cases hiterate.symm.trans hiterate'
  | returns hfinish hiterate =>
    cases h' with
    | finish hfinish' => exact absurd hfinish' hfinish
    | returns _ hiterate' =>
      cases hiterate.symm.trans hiterate'
      rfl
    | throws _ hiterate' | continues _ hiterate' => cases hiterate.symm.trans hiterate'
  | continues hfinish hiterate hrest ih =>
    cases h' with
    | finish hfinish' => exact absurd hfinish' hfinish
    | continues _ hiterate' hrest' =>
      cases hiterate.symm.trans hiterate'
      exact ih hrest'
    | throws _ hiterate' | returns _ hiterate' => cases hiterate.symm.trans hiterate'

/-- An iteration that goes on leaves fewer bytes. -/
theorem iterate_continues {q' : Q} (hfinish : c.parseState ≠ .kFinish)
    (h : c.iterate fs q = .ok (.continues c' q')) :
    ∃ n, consume fs c (ByteQueue.bytes q) = .ok (some (n, .kNoRequest, c')) ∧
      ByteQueue.bytes q' = (ByteQueue.bytes q).drop n ∧
      (ByteQueue.bytes q').length < (ByteQueue.bytes q).length := by
  have hspec := iterate_spec fs q hfinish
  cases hconsume : consume fs c (ByteQueue.bytes q) with
  | error e =>
    rw [hconsume] at hspec
    cases hspec.symm.trans h
  | ok taken =>
    rw [hconsume] at hspec
    rcases taken with _ | ⟨n, ret, d⟩
    · cases hspec.symm.trans h
    · obtain ⟨r, hiterate, hrest⟩ := hspec
      rw [hiterate, Iteration.of] at h
      split at h
      · cases h
      · rename_i hret
        cases h
        obtain rfl : ret = .kNoRequest := not_not.mp hret
        obtain ⟨hn, hlen⟩ := consume_continues hconsume hfinish
        refine ⟨n, rfl, hrest, ?_⟩
        rw [hrest, List.length_drop]
        omega

theorem attemptLoop_ends (fs : FileSystem) {fuel : Nat} (c : HttpConnection) (q : Q)
    (h : (ByteQueue.bytes q).length < fuel) : Ends fs c q (attemptLoop fs fuel c q) := by
  induction fuel generalizing c q with
  | zero => exact absurd h (Nat.not_lt_zero _)
  | succ fuel ih =>
    rw [attemptLoop]
    by_cases hfinish : c.parseState = .kFinish
    · rw [if_pos hfinish]
      exact .finish hfinish
    · rw [if_neg hfinish]
      cases hiterate : c.iterate fs q with
      | error e => exact .throws hfinish hiterate
      | ok next =>
        cases next with
        | returns ret c' q' => exact .returns hfinish hiterate
        | continues c' q' =>
          obtain ⟨-, -, -, hshort⟩ := iterate_continues hfinish hiterate
          exact .continues hfinish hiterate (ih c' q' (by omega))

theorem attempt_ends (fs : FileSystem) (c : HttpConnection) (q : Q) :
    Ends fs c q (attempt fs c q) :=
  attemptLoop_ends fs c q (by rw [ByteQueue.readableBytes_eq]; exact Nat.lt_succ_self _)

/-- `attempt` is `parseRequest`, with what is left where that has a fault. -/
theorem parseRequest_eq_attempt (fs : FileSystem) (c : HttpConnection) (q : Q) :
    c.parseRequest fs q = (attempt fs c q).ending.map fun ret =>
      (ret, (attempt fs c q).http, (attempt fs c q).input) := by
  have hloop : ∀ fuel (c : HttpConnection) (q : Q), parseLoop fs fuel c q =
      (attemptLoop fs fuel c q).ending.map fun ret =>
        (ret, (attemptLoop fs fuel c q).http, (attemptLoop fs fuel c q).input) := by
    intro fuel
    induction fuel with
    | zero => exact fun c q => rfl
    | succ fuel ih =>
      intro c q
      rw [parseLoop, attemptLoop]
      by_cases hfinish : c.parseState = .kFinish
      · rw [if_pos hfinish, if_pos hfinish]
        rfl
      · rw [if_neg hfinish, if_neg hfinish]
        cases hiterate : c.iterate fs q with
        | error e => rfl
        | ok next =>
          cases next with
          | returns ret c' q' => rfl
          | continues c' q' => exact ih c' q'
  exact hloop _ c q

theorem bytes_thrown (c : HttpConnection) (q : Q) :
    ByteQueue.bytes (c.thrown q) =
      match c.parseState, search kCRLF (ByteQueue.bytes q) with
      | .kHeader, some crlf => (ByteQueue.bytes q).drop (crlf + 2)
      | _, _ => ByteQueue.bytes q := by
  unfold thrown
  cases hs : c.parseState with
  | kHeader =>
    cases hcrlf : search kCRLF (ByteQueue.bytes q) with
    | none => rw [ByteQueue.findCRLF_none q hcrlf]
    | some i =>
      obtain ⟨crlf, t, hfind, hline, hrest⟩ := ByteQueue.retrieveLine_spec q i hcrlf
      rw [hfind]
      dsimp only
      rw [hline]
      exact hrest
  | _ => rfl

/-- The end of an iteration, with the bytes of the queue. -/
def Iteration.read : Iteration Q → Iteration Bytes
  | .returns ret c q => .returns ret c (ByteQueue.bytes q)
  | .continues c q => .continues c (ByteQueue.bytes q)

/-- On any queue an iteration ends as it does on the bytes of the queue. -/
theorem iterate_read (hfinish : c.parseState ≠ .kFinish) (q : Q) :
    c.iterate fs (ByteQueue.bytes q) = (c.iterate fs q).map Iteration.read := by
  have hspec := iterate_spec fs q hfinish
  have hlist := iterate_spec fs (ByteQueue.bytes q) hfinish
  rw [bytes_list] at hlist
  cases hconsume : consume fs c (ByteQueue.bytes q) with
  | error e =>
    rw [hconsume] at hspec hlist
    rw [hspec]
    exact hlist
  | ok taken =>
    rw [hconsume] at hspec hlist
    rcases taken with _ | ⟨n, r⟩
    · rw [hspec]
      exact hlist
    · obtain ⟨t, ht, hrest⟩ := hspec
      obtain ⟨l, hl, hrest'⟩ := hlist
      obtain rfl : l = ByteQueue.bytes t := hrest'.trans hrest.symm
      rw [ht, hl, Iteration.of, Iteration.of]
      split <;> rfl

/-- On any queue a parse does what it does on the bytes of the queue. -/
theorem Ends.read (h : Ends fs c q p) : Ends fs c (ByteQueue.bytes q) p.read := by
  induction h with
  | finish hfinish => exact .finish hfinish
  | @throws c q e hfinish hiterate =>
    have hthrown : ByteQueue.bytes (c.thrown q) = c.thrown (ByteQueue.bytes q) :=
      (bytes_thrown c q).trans (bytes_thrown c (ByteQueue.bytes q)).symm
    rw [Parsed.read, hthrown]
    exact .throws hfinish (by rw [iterate_read hfinish, hiterate]; rfl)
  | returns hfinish hiterate =>
    exact .returns hfinish (by rw [iterate_read hfinish, hiterate]; rfl)
  | continues hfinish hiterate hrest ih =>
    exact .continues hfinish (by rw [iterate_read hfinish, hiterate]; rfl) ih

theorem read_attempt (fs : FileSystem) (c : HttpConnection) (q : Q) :
    (attempt fs c q).read = attempt fs c (ByteQueue.bytes q) :=
  (attempt_ends fs c q).read.unique (attempt_ends fs c _)

end

/-! ### Parts of an input -/

section

variable {fs : FileSystem} {c : HttpConnection} {q : Bytes}

theorem attempt_throws {e : Fault} (hfinish : c.parseState ≠ .kFinish)
    (h : consume fs c q = .error e) : attempt fs c q = ⟨.error e, c, c.thrown q⟩ := by
  have hspec := iterate_spec fs q hfinish
  rw [bytes_list, h] at hspec
  exact (attempt_ends fs c q).unique (.throws hfinish hspec)

theorem attempt_waits (hfinish : c.parseState ≠ .kFinish) (h : consume fs c q = .ok none) :
    attempt fs c q = ⟨.ok .kNoRequest, c, q⟩ := by
  have hspec := iterate_spec fs q hfinish
  rw [bytes_list, h] at hspec
  exact (attempt_ends fs c q).unique (.returns hfinish hspec)

theorem attempt_returns {n : Nat} {ret : HttpCode} {c' : HttpConnection}
    (hfinish : c.parseState ≠ .kFinish) (h : consume fs c q = .ok (some (n, ret, c')))
    (hret : ret ≠ .kNoRequest) : attempt fs c q = ⟨.ok ret, c', q.drop n⟩ := by
  have hspec := iterate_spec fs q hfinish
  rw [bytes_list, h] at hspec
  obtain ⟨q', hiterate, rfl⟩ := hspec
  rw [Iteration.of, if_pos hret] at hiterate
  exact (attempt_ends fs c q).unique (.returns hfinish hiterate)

theorem attempt_continues {n : Nat} {c' : HttpConnection} (hfinish : c.parseState ≠ .kFinish)
    (h : consume fs c q = .ok (some (n, .kNoRequest, c'))) :
    attempt fs c q = attempt fs c' (q.drop n) := by
  have hspec := iterate_spec fs q hfinish
  rw [bytes_list, h] at hspec
  obtain ⟨q', hiterate, rfl⟩ := hspec
  rw [Iteration.of, if_neg (by simp)] at hiterate
  exact (attempt_ends fs c q).unique (.continues hfinish hiterate (attempt_ends fs c' _))

/-- A fault of an iteration does not depend on the bytes behind those that it looks at. -/
theorem thrown_append {e : Fault} (h : consume fs c q = .error e) (t : Bytes) :
    c.thrown (q ++ t) = c.thrown q ++ t := by
  have hbytes := bytes_thrown c q
  have hbytes' := bytes_thrown c (q ++ t)
  simp only [bytes_list] at hbytes hbytes'
  rw [hbytes, hbytes']
  cases hs : c.parseState with
  | kHeader =>
    cases hcrlf : search kCRLF q with
    | none =>
      unfold consume at h
      simp only [hs, hcrlf] at h
      cases h
    | some crlf =>
      have hlen : crlf + 2 ≤ q.length := (search_spec hcrlf).1
      rw [search_append hcrlf t]
      exact List.drop_append_of_le_length hlen
  | _ => rfl

end

end HttpConnection

namespace Parsed

open HttpConnection

/-- More bytes come: they are parsed if no call has returned a request or thrown yet. -/
def more (fs : FileSystem) (p : Parsed Bytes) (t : Bytes) : Parsed Bytes :=
  match p.ending with
  | .ok .kNoRequest => attempt fs p.http (p.input ++ t)
  | _ => { p with input := p.input ++ t }

/-- The same on a buffer. -/
def deliver (fs : FileSystem) (p : Parsed Buffer) (chunk : Bytes) :
    Except Fault (Parsed Buffer) := do
  let input ← p.input.append chunk
  match p.ending with
  | .ok .kNoRequest => return attempt fs p.http input
  | _ => return { p with input := input }

variable {fs : FileSystem} {c : HttpConnection} {q : Bytes}

theorem more_of_ne {p : Parsed Bytes} (h : p.ending ≠ .ok .kNoRequest) (t : Bytes) :
    p.more fs t = { p with input := p.input ++ t } := by
  unfold more
  split
  · rename_i hending
    exact absurd hending h
  · rfl

/-- A parse goes on as if all bytes had been there at once. -/
theorem more_attempt (fs : FileSystem) (c : HttpConnection) (q t : Bytes) :
    (attempt fs c q).more fs t = attempt fs c (q ++ t) := by
  induction c, q using parse_induction fs with
  | finish c q hfinish =>
    have hends : ∀ q : Bytes, attempt fs c q = ⟨.ok .kGetRequest, c, q⟩ := fun q =>
      (attempt_ends fs c q).unique (.finish hfinish)
    rw [hends, hends]
    rfl
  | fails c q e hfinish hconsume =>
    rw [attempt_throws hfinish hconsume, attempt_throws hfinish (consume_append_error hconsume t),
      thrown_append hconsume]
    rfl
  | waits c q hfinish hconsume =>
    rw [attempt_waits hfinish hconsume]
    rfl
  | returns c q n ret c' hfinish hret hconsume =>
    obtain ⟨hlen, happend⟩ := consume_append hconsume
    rw [attempt_returns hfinish hconsume hret, attempt_returns hfinish (happend t) hret,
      List.drop_append_of_le_length hlen, more_of_ne (by simpa using hret)]
  | continues c q n c' hfinish hconsume ih =>
    obtain ⟨hlen, happend⟩ := consume_append hconsume
    rw [attempt_continues hfinish hconsume, attempt_continues hfinish (happend t),
      List.drop_append_of_le_length hlen]
    exact ih

theorem foldl_more_attempt (fs : FileSystem) (c : HttpConnection) (q : Bytes) (chunks : List Bytes) :
    chunks.foldl (more fs) (attempt fs c q) = attempt fs c (q ++ chunks.flatten) := by
  induction chunks generalizing q with
  | nil => simp
  | cons chunk chunks ih =>
    rw [List.foldl_cons, more_attempt, ih, List.flatten_cons, List.append_assoc]

theorem deliver_spec (fs : FileSystem) (p : Parsed Buffer) (chunk : Bytes) :
    ∃ p', p.deliver fs chunk = .ok p' ∧ p'.read = p.read.more fs chunk := by
  obtain ⟨input, hinput, hread⟩ := p.input.append_spec chunk
  rw [deliver, hinput, ok_bind]
  unfold more
  cases hending : p.ending with
  | error e => exact ⟨_, rfl, by simp [read, hending, hread]⟩
  | ok ret =>
    cases ret with
    | kNoRequest =>
      refine ⟨attempt fs p.http input, rfl, ?_⟩
      rw [read_attempt, bytes_buffer, hread]
      simp [read, hending]
    | _ => exact ⟨_, rfl, by simp [read, hending, hread]⟩

theorem run_deliver (fs : FileSystem) (p : Parsed Buffer) (chunks : List Bytes) :
    ∃ p', run (deliver fs) p chunks = .ok p' ∧ p'.read = chunks.foldl (more fs) p.read := by
  induction chunks generalizing p with
  | nil => exact ⟨p, rfl, rfl⟩
  | cons chunk chunks ih =>
    obtain ⟨u, hu, hread⟩ := deliver_spec fs p chunk
    obtain ⟨p', hrun, hread'⟩ := ih u
    exact ⟨p', run_cons_ok.mpr ⟨u, hu, hrun⟩, by rw [List.foldl_cons, hread', hread]⟩

end Parsed

namespace HttpConnection

/-- From any state of the parser and of the buffer, the parts of an input, appended one after another
and parsed until a call returns a request or throws, end as the whole of it appended at once: in the
same way, with the same state of the parser, and with the same bytes left. -/
theorem parse_resumes (fs : FileSystem) (c : HttpConnection) (b : Buffer) (chunk : Bytes)
    (chunks : List Bytes) :
    ∃ parts whole : Parsed Buffer,
      run (Parsed.deliver fs) ⟨.ok .kNoRequest, c, b⟩ (chunk :: chunks) = .ok parts ∧
      Parsed.deliver fs ⟨.ok .kNoRequest, c, b⟩ (chunk :: chunks).flatten = .ok whole ∧
      parts.ending = whole.ending ∧ parts.http = whole.http ∧
      parts.input.readable = whole.input.readable := by
  obtain ⟨parts, hparts, hread⟩ := Parsed.run_deliver fs ⟨.ok .kNoRequest, c, b⟩ (chunk :: chunks)
  obtain ⟨whole, hwhole, hread'⟩ :=
    Parsed.deliver_spec fs ⟨.ok .kNoRequest, c, b⟩ (chunk :: chunks).flatten
  refine ⟨parts, whole, hparts, hwhole, ?_⟩
  have hmore : ∀ t, (Parsed.read ⟨.ok .kNoRequest, c, b⟩).more fs t =
      attempt fs c (b.readable ++ t) := fun t => rfl
  rw [List.foldl_cons, hmore, Parsed.foldl_more_attempt] at hread
  rw [hmore, List.flatten_cons, ← List.append_assoc, ← hread] at hread'
  have hsame : parts.read = whole.read := hread'.symm
  exact ⟨congrArg (fun p : Parsed Bytes => p.ending) hsame,
    congrArg (fun p : Parsed Bytes => p.http) hsame,
    congrArg (fun p : Parsed Bytes => p.input) hsame⟩

end HttpConnection

end Mymuduo

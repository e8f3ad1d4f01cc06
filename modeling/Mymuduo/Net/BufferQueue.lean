import Mymuduo.Lib.Fifo
import Mymuduo.Net.Buffer

/-! A buffer is a first-in first-out queue of bytes.  `Buffer.step` performs any operation of the
class and keeps what the operations return; the same operations on a queue are `queueStep`.  Every
run of the first moves along with a run of the second, whatever the vector holds outside the
readable region. -/

namespace Mymuduo

open Lib

/-- A call of a member function.  `retrieveUntil len` is the call with `end = peek() + len`, and
`readFd` has what `::readv` does. -/
inductive BufferOp
  | append (data : Bytes)
  | ensureWriteableBytes (len : Nat)
  | retrieve (len : Nat)
  | retrieveUntil (len : Nat)
  | retrieveAll
  | retrieveAsString (len : Nat)
  | retrieveAllAsString
  | readFd (result : Buffer.ReadResult)
  deriving DecidableEq, Repr

/-- What a member function returns. -/
inductive Returned
  | void
  | string (result : Bytes)
  | ssize (n : Int)
  deriving DecidableEq, Repr

namespace Buffer

def perform (b : Buffer) : BufferOp → Except Fault (Returned × Buffer)
  | .append data => do
    let b ← b.append data
    return (.void, b)
  | .ensureWriteableBytes len => do
    let b ← b.ensureWriteableBytes len
    return (.void, b)
  | .retrieve len => do
    let b ← b.retrieve len
    return (.void, b)
  | .retrieveUntil len => do
    let b ← b.retrieveUntil (b.peek + len)
    return (.void, b)
  | .retrieveAll => return (.void, b.retrieveAll)
  | .retrieveAsString len => do
    let (result, b) ← b.retrieveAsString len
    return (.string result, b)
  | .retrieveAllAsString => do
    let (result, b) ← b.retrieveAllAsString
    return (.string result, b)
  | .readFd result => do
    let (n, b) ← b.readFd result
    return (.ssize n, b)

/-- One call on a buffer, with the results of all calls so far. -/
def step (s : Buffer × List Returned) (op : BufferOp) :
    Except Fault (Buffer × List Returned) := do
  let (result, b) ← s.1.perform op
  return (b, s.2 ++ [result])

/-- The calls that the class allows: no more is retrieved than can be read, and `::readv` delivers
no more than its `iovec`s hold. -/
def Allowed (s : Buffer × List Returned) : BufferOp → Prop
  | .retrieve len | .retrieveUntil len | .retrieveAsString len => len ≤ s.1.readableBytes
  | .readFd (.data bytes) => bytes.length ≤ s.1.readCapacity
  | _ => True

instance (s : Buffer × List Returned) (op : BufferOp) : Decidable (Allowed s op) := by
  unfold Allowed
  split <;> infer_instance

end Buffer

/-- The bytes that a call adds at the back. -/
def BufferOp.arriving : BufferOp → Bytes
  | .append data => data
  | .readFd (.data bytes) => bytes
  | _ => []

/-- The number of bytes that a call takes from the front of a queue that holds `available`. -/
def BufferOp.leaving (available : Nat) : BufferOp → Nat
  | .retrieve len | .retrieveUntil len | .retrieveAsString len => len
  | .retrieveAll | .retrieveAllAsString => available
  | _ => 0

/-- What a call on a queue returns. -/
def BufferOp.result (q : Bytes) : BufferOp → Returned
  | .retrieveAsString len => .string (q.take len)
  | .retrieveAllAsString => .string q
  | .readFd (.data bytes) => .ssize bytes.length
  | .readFd .error => .ssize (-1)
  | _ => .void

/-- The calls on a queue of bytes: what a buffer is for. -/
def queueStep (s : Fifo UInt8 × List Returned) (op : BufferOp) : Fifo UInt8 × List Returned :=
  ((s.1.leave (op.leaving s.1.contents.length)).enter op.arriving,
    s.2 ++ [op.result s.1.contents])

theorem entered_foldl_queueStep (s : Fifo UInt8 × List Returned) (ops : List BufferOp) :
    (ops.foldl queueStep s).1.entered = s.1.entered ++ ops.flatMap BufferOp.arriving := by
  induction ops generalizing s with
  | nil => simp
  | cons op ops ih =>
    rw [List.foldl_cons, ih, queueStep, List.flatMap_cons, ← List.append_assoc]
    rfl

namespace Buffer

/-- What one call does: it returns what the call on the queue returns, and the queue changes as it
does there. -/
theorem perform_spec {b : Buffer} {outputs : List Returned} {op : BufferOp}
    (h : Allowed (b, outputs) op) :
    ∃ t, b.perform op = .ok (op.result b.readable, t) ∧
      t.readable = b.readable.drop (op.leaving b.readable.length) ++ op.arriving := by
  cases op with
  | append data =>
    obtain ⟨t, ht, hread⟩ := b.append_spec data
    exact ⟨t, by simp only [perform, ht, ok_bind]; rfl,
      by simpa [BufferOp.leaving, BufferOp.arriving] using hread⟩
  | ensureWriteableBytes len =>
    obtain ⟨t, ht, hread, -⟩ := b.ensureWriteableBytes_spec len
    exact ⟨t, by simp only [perform, ht, ok_bind]; rfl,
      by simpa [BufferOp.leaving, BufferOp.arriving] using hread⟩
  | retrieve len =>
    obtain ⟨t, ht, hread⟩ := b.retrieve_spec h
    exact ⟨t, by simp only [perform, ht, ok_bind]; rfl,
      by simpa [BufferOp.leaving, BufferOp.arriving] using hread⟩
  | retrieveUntil len =>
    obtain ⟨t, ht, hread⟩ := b.retrieveUntil_spec h
    exact ⟨t, by simp only [perform, ht, ok_bind]; rfl,
      by simpa [BufferOp.leaving, BufferOp.arriving] using hread⟩
  | retrieveAll =>
    exact ⟨b.retrieveAll, rfl, by simp [BufferOp.leaving, BufferOp.arriving, -length_readable]⟩
  | retrieveAsString len =>
    obtain ⟨t, ht, hread⟩ := b.retrieveAsString_spec h
    exact ⟨t, by simp only [perform, ht, ok_bind]; rfl,
      by simpa [BufferOp.leaving, BufferOp.arriving] using hread⟩
  | retrieveAllAsString =>
    obtain ⟨t, ht, hread⟩ := b.retrieveAllAsString_spec
    exact ⟨t, by simp only [perform, ht, ok_bind]; rfl,
      by simpa [BufferOp.leaving, BufferOp.arriving, -length_readable] using hread⟩
  | readFd result =>
    cases result with
    | error => exact ⟨b, rfl, by simp [BufferOp.leaving, BufferOp.arriving]⟩
    | data bytes =>
      obtain ⟨t, ht, hread⟩ := b.readFd_data_spec bytes
      rw [List.take_of_length_le h] at ht hread
      exact ⟨t, by simp only [perform, ht, ok_bind]; rfl,
      by simpa [BufferOp.leaving, BufferOp.arriving] using hread⟩

/-- The searches of a buffer find the first match in `q`, from its front or from any place in it. -/
structure FindsFirst (b : Buffer) (q : Bytes) : Prop where
  findCRLF : FirstMatch kCRLF q b.peek b.findCRLF
  findEOL : FirstMatch [10] q b.peek b.findEOL
  findCRLFFrom : ∀ len ≤ q.length, ∃ r, b.findCRLFFrom (b.peek + len) = .ok r ∧
    FirstMatch kCRLF (q.drop len) (b.peek + len) r
  findEOLFrom : ∀ len ≤ q.length, ∃ r, b.findEOLFrom (b.peek + len) = .ok r ∧
    FirstMatch [10] (q.drop len) (b.peek + len) r

theorem readableFrom_peek_add (b : Buffer) (len : Nat) :
    b.readableFrom (b.peek + len) = b.readable.drop len := by
  rw [readableFrom, peek, ← List.drop_drop]
  rfl

/-- The region that `memchr` looks at is the one that `std::search` looks at. -/
theorem take_drop_eq_readableFrom (b : Buffer) (start : Nat) :
    (b.buffer.drop start).take (b.beginWrite - start) = b.readableFrom start := by
  rw [readableFrom, List.drop_take, beginWrite]

theorem findsFirst (b : Buffer) : b.FindsFirst b.readable where
  findCRLF := firstMatch_search kCRLF b.readable b.peek
  findEOL := by
    have hregion : (b.buffer.drop b.peek).take b.readableBytes = b.readable :=
      b.take_drop_eq_readableFrom b.peek
    rw [findEOL, hregion, memchr_eq_search]
    exact firstMatch_search [10] b.readable b.peek
  findCRLFFrom := by
    intro len hlen
    rw [length_readable] at hlen
    have hend : b.peek + len ≤ b.beginWrite := b.peek_add_le_beginWrite hlen
    refine ⟨_, ?_, firstMatch_search kCRLF (b.readable.drop len) (b.peek + len)⟩
    simp only [findCRLFFrom, Nat.le_add_right, hend, decide_true, check_true, ok_bind,
      readableFrom_peek_add]
    rfl
  findEOLFrom := by
    intro len hlen
    rw [length_readable] at hlen
    have hend : b.peek + len ≤ b.beginWrite := b.peek_add_le_beginWrite hlen
    refine ⟨_, ?_, firstMatch_search [10] (b.readable.drop len) (b.peek + len)⟩
    simp only [findEOLFrom, Nat.le_add_right, hend, decide_true, check_true, ok_bind,
      take_drop_eq_readableFrom, readableFrom_peek_add, memchr_eq_search]
    rfl

/-- The results are the same, and the buffer holds the bytes of the queue. -/
def Stands (s : Buffer × List Returned) (q : Fifo UInt8 × List Returned) : Prop :=
  s.1.readable = q.1.contents ∧ s.2 = q.2

theorem step_stands (s : Buffer × List Returned) (q : Fifo UInt8 × List Returned) (op : BufferOp)
    (hs : Stands s q) (h : Allowed s op) :
    ∃ t, step s op = .ok t ∧ Stands t (queueStep q op) := by
  obtain ⟨hread, hout⟩ := hs
  obtain ⟨t, ht, hreadt⟩ := perform_spec h
  refine ⟨(t, s.2 ++ [op.result s.1.readable]), by simp only [step, ht, ok_bind]; rfl, ?_, ?_⟩
  · show t.readable = q.1.contents.drop (op.leaving q.1.contents.length) ++ op.arriving
    rw [hreadt, hread]
  · show s.2 ++ [op.result s.1.readable] = q.2 ++ [op.result q.1.contents]
    rw [hread, hout]

/-- Any sequence of allowed calls runs without a fault and does what the same calls do on a queue
that starts with the readable bytes: the same results, and the bytes of the queue readable, which
are those that entered it without those that left. -/
theorem run_refines_queue (b : Buffer) (ops : List BufferOp) (h : Along step Allowed (b, []) ops) :
    ∃ t q outputs, run step (b, []) ops = .ok (t, outputs) ∧
      ops.foldl queueStep (.holding b.readable, []) = (q, outputs) ∧
      t.readable = q.contents ∧ q.entered = b.readable ++ ops.flatMap BufferOp.arriving ∧
      (kCheapPrepend ≤ t.readerIndex ∧ t.readerIndex ≤ t.writerIndex ∧
        t.writerIndex ≤ t.buffer.length) ∧
      t.FindsFirst q.contents ∧ t.perform (.readFd .error) = .ok (.ssize (-1), t) := by
  have hstart : Stands (b, []) (.holding b.readable, []) := ⟨rfl, rfl⟩
  obtain ⟨⟨t, outputs⟩, hrun, hread, hout⟩ :=
    h.run_simulates step_stands hstart
  have hentered := entered_foldl_queueStep (.holding b.readable, []) ops
  refine ⟨t, _, outputs, hrun, Prod.ext rfl hout.symm, hread, hentered,
    ⟨t.prepend_le, t.reader_le, t.writer_le⟩, ?_, rfl⟩
  rw [← hread]
  exact t.findsFirst

/-- A run that grows the vector, spills into `extrabuf`, slides and drains it. -/
theorem run_refines_queue_example :
    ∃ t q outputs, run step (new 4, []) [.append [97, 98, 13, 10], .retrieveAsString 1,
        .append [99], .readFd (.data [100, 101, 10]), .readFd .error, .retrieveUntil 2,
        .ensureWriteableBytes 2, .retrieveAllAsString] = .ok (t, outputs) ∧
      [BufferOp.append [97, 98, 13, 10], .retrieveAsString 1, .append [99],
        .readFd (.data [100, 101, 10]), .readFd .error, .retrieveUntil 2,
        .ensureWriteableBytes 2, .retrieveAllAsString].foldl queueStep
          (.holding (new 4).readable, []) = (q, outputs) ∧
      t.readable = q.contents ∧ q.entered = (new 4).readable ++
        [BufferOp.append [97, 98, 13, 10], .retrieveAsString 1, .append [99],
          .readFd (.data [100, 101, 10]), .readFd .error, .retrieveUntil 2,
          .ensureWriteableBytes 2, .retrieveAllAsString].flatMap BufferOp.arriving ∧
      (kCheapPrepend ≤ t.readerIndex ∧ t.readerIndex ≤ t.writerIndex ∧
        t.writerIndex ≤ t.buffer.length) ∧
      t.FindsFirst q.contents ∧ t.perform (.readFd .error) = .ok (.ssize (-1), t) :=
  run_refines_queue (new 4) _ (by decide)

end Buffer

end Mymuduo

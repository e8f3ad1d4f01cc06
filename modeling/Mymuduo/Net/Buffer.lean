import Mathlib.Tactic.Common
import Mymuduo.Base.Fault
import Mymuduo.Lib.Run
import Mymuduo.Lib.Search

/-! The byte buffer of a connection: a vector with a readable region between two indices.  The
indices are in order by construction.  `readable` is the queue of bytes that the buffer stands for;
each operation is characterised by what it does to that queue. -/

namespace Mymuduo

open Lib

/-- `Buffer::kCheapPrepend` -/
def kCheapPrepend : Nat := 8

/-- `Buffer::kInitialSize` -/
def kInitialSize : Nat := 1024

/-- `Buffer::kCRLF` -/
def kCRLF : Bytes := [13, 10]

/-- A `Buffer`.  The bytes from `readerIndex` to `writerIndex` are readable, and those from
`writerIndex` on are writable. -/
structure Buffer where
  buffer : Bytes
  readerIndex : Nat
  writerIndex : Nat
  prepend_le : kCheapPrepend ≤ readerIndex
  reader_le : readerIndex ≤ writerIndex
  writer_le : writerIndex ≤ buffer.length

namespace Buffer

/-- `Buffer::Buffer(initialSize)` -/
def new (initialSize : Nat) : Buffer where
  buffer := List.replicate (kCheapPrepend + initialSize) 0
  readerIndex := kCheapPrepend
  writerIndex := kCheapPrepend
  prepend_le := Nat.le_refl _
  reader_le := Nat.le_refl _
  writer_le := by simp

def readableBytes (b : Buffer) : Nat := b.writerIndex - b.readerIndex

def writableBytes (b : Buffer) : Nat := b.buffer.length - b.writerIndex

def prependableBytes (b : Buffer) : Nat := b.readerIndex

/-- `peek()`, as a position in the vector. -/
def peek (b : Buffer) : Nat := b.readerIndex

/-- `beginWrite()`, as a position in the vector. -/
def beginWrite (b : Buffer) : Nat := b.writerIndex

/-- The bytes from `peek()` to `beginWrite()`. -/
def readable (b : Buffer) : Bytes := (b.buffer.take b.writerIndex).drop b.readerIndex

def retrieveAll (b : Buffer) : Buffer where
  buffer := b.buffer
  readerIndex := kCheapPrepend
  writerIndex := kCheapPrepend
  prepend_le := Nat.le_refl _
  reader_le := Nat.le_refl _
  writer_le := b.prepend_le.trans (b.reader_le.trans b.writer_le)

def retrieve (b : Buffer) (len : Nat) : Except Fault Buffer := do
  check .retrieve (len ≤ b.readableBytes)
  if h : len < b.readableBytes then
    return { b with
      readerIndex := b.readerIndex + len
      prepend_le := Nat.le_add_right_of_le b.prepend_le
      reader_le := by unfold readableBytes at h; omega }
  else
    return b.retrieveAll

/-- `retrieveUntil(end)`, where `finish` is the position `end`. -/
def retrieveUntil (b : Buffer) (finish : Nat) : Except Fault Buffer := do
  check .retrieveUntilPeek (b.peek ≤ finish)
  check .retrieveUntilEnd (finish ≤ b.beginWrite)
  b.retrieve (finish - b.peek)

def retrieveAsString (b : Buffer) (len : Nat) : Except Fault (Bytes × Buffer) := do
  check .retrieveAsString (len ≤ b.readableBytes)
  let result := (b.buffer.drop b.peek).take len
  let b ← b.retrieve len
  return (result, b)

def retrieveAllAsString (b : Buffer) : Except Fault (Bytes × Buffer) :=
  b.retrieveAsString b.readableBytes

/-- `buffer_.resize(n)`, for an `n` that cuts off no readable byte. -/
def resize (b : Buffer) (n : Nat) (h : b.writerIndex ≤ n) : Buffer :=
  { b with
    buffer := b.buffer.take n ++ List.replicate (n - b.buffer.length) 0
    writer_le := by
      have := b.writer_le
      simp only [List.length_append, List.length_take, List.length_replicate]
      omega }

/-- The readable bytes moved to the front of the vector. -/
def slide (b : Buffer) : Buffer where
  buffer := b.buffer.take kCheapPrepend ++ b.readable ++
    b.buffer.drop (kCheapPrepend + b.readableBytes)
  readerIndex := kCheapPrepend
  writerIndex := kCheapPrepend + b.readableBytes
  prepend_le := Nat.le_refl _
  reader_le := Nat.le_add_right _ _
  writer_le := by
    have := b.prepend_le
    have := b.reader_le
    have := b.writer_le
    simp only [readable, readableBytes, List.length_append, List.length_take, List.length_drop]
    omega

def makeSpace (b : Buffer) (len : Nat) : Except Fault Buffer :=
  if b.writableBytes + b.prependableBytes < len + kCheapPrepend then
    return b.resize (b.writerIndex + len) (Nat.le_add_right _ _)
  else do
    let readable := b.readableBytes
    let b := b.slide
    check .makeSpace (b.readableBytes = readable)
    return b

def ensureWriteableBytes (b : Buffer) (len : Nat) : Except Fault Buffer := do
  let b ← if b.writableBytes < len then b.makeSpace len else .ok b
  check .ensureWriteableBytes (len ≤ b.writableBytes)
  return b

/-- `data` copied to `beginWrite()`, which does not move. -/
def store (b : Buffer) (data : Bytes) : Buffer :=
  { b with
    buffer := b.buffer.take b.writerIndex ++ data ++ b.buffer.drop (b.writerIndex + data.length)
    writer_le := by
      have := b.writer_le
      simp only [List.length_append, List.length_take, List.length_drop]
      omega }

def hasWritten (b : Buffer) (len : Nat) : Except Fault Buffer :=
  if h : len ≤ b.writableBytes then
    .ok { b with
      writerIndex := b.writerIndex + len
      reader_le := Nat.le_add_right_of_le b.reader_le
      writer_le := by
        have := b.writer_le
        unfold writableBytes at h
        omega }
  else
    .error (.assertion .hasWritten)

def append (b : Buffer) (data : Bytes) : Except Fault Buffer := do
  let b ← b.ensureWriteableBytes data.length
  (b.store data).hasWritten data.length

/-- `findCRLF()`, as a position in the vector. -/
def findCRLF (b : Buffer) : Option Nat := (search kCRLF b.readable).map (b.peek + ·)

/-- The bytes from the position `start` to `beginWrite()`. -/
def readableFrom (b : Buffer) (start : Nat) : Bytes := (b.buffer.take b.writerIndex).drop start

/-- `findCRLF(start)` -/
def findCRLFFrom (b : Buffer) (start : Nat) : Except Fault (Option Nat) := do
  check .findCRLFPeek (b.peek ≤ start)
  check .findCRLFStart (start ≤ b.beginWrite)
  return (search kCRLF (b.readableFrom start)).map (start + ·)

/-- `findEOL()`, as a position in the vector. -/
def findEOL (b : Buffer) : Option Nat :=
  (memchr 10 ((b.buffer.drop b.peek).take b.readableBytes)).map (b.peek + ·)

/-- `findEOL(start)` -/
def findEOLFrom (b : Buffer) (start : Nat) : Except Fault (Option Nat) := do
  check .findEOLPeek (b.peek ≤ start)
  check .findEOLStart (start ≤ b.beginWrite)
  return (memchr 10 ((b.buffer.drop start).take (b.beginWrite - start))).map (start + ·)

/-- What `::readv` does: it delivers bytes, or it fails and sets `errno`. -/
inductive ReadResult
  | data (bytes : Bytes)
  | error
  deriving DecidableEq, Repr

/-- `sizeof extrabuf` -/
def extrabufSize : Nat := 65536

/-- The length of the `iovec`s that `readFd` hands to `::readv`. -/
def readCapacity (b : Buffer) : Nat :=
  if b.writableBytes < extrabufSize then b.writableBytes + extrabufSize else b.writableBytes

/-- What `readFd` does with the bytes that `::readv` has spread over the writable space and
`extrabuf`. -/
def received (b : Buffer) (bytes : Bytes) : Except Fault Buffer :=
  let writable := b.writableBytes
  if bytes.length ≤ writable then
    (b.store bytes).hasWritten bytes.length
  else do
    let b ← (b.store (bytes.take writable)).hasWritten writable
    b.append (bytes.drop writable)

/-- `readFd`, with the number of bytes it returns.  The kernel delivers no more of `bytes` than the
`iovec`s hold. -/
def readFd (b : Buffer) : ReadResult → Except Fault (Int × Buffer)
  | .error => return (-1, b)
  | .data bytes => do
    let bytes := bytes.take b.readCapacity
    let b ← b.received bytes
    return (bytes.length, b)

/-! ### The queue of readable bytes -/

variable (b : Buffer)

@[simp] theorem length_readable : b.readable.length = b.readableBytes := by
  have := b.writer_le
  simp only [readable, readableBytes, List.length_drop, List.length_take]
  omega

@[simp] theorem readable_new (initialSize : Nat) : (new initialSize).readable = [] := by
  apply List.eq_nil_of_length_eq_zero
  rw [length_readable]
  simp [new, readableBytes]

@[simp] theorem readable_retrieveAll : b.retrieveAll.readable = [] := by
  apply List.eq_nil_of_length_eq_zero
  rw [length_readable]
  simp [retrieveAll, readableBytes]

theorem retrieve_spec {len : Nat} (h : len ≤ b.readableBytes) :
    ∃ t, b.retrieve len = .ok t ∧ t.readable = b.readable.drop len := by
  unfold retrieve
  rw [decide_eq_true h, check_true, ok_bind]
  split
  · rename_i hlt
    exact ⟨_, rfl, by simp only [readable, List.drop_drop]⟩
  · rename_i hge
    refine ⟨_, rfl, ?_⟩
    rw [readable_retrieveAll, List.drop_eq_nil_of_le (by rw [length_readable]; omega)]

theorem retrieveAsString_spec {len : Nat} (h : len ≤ b.readableBytes) :
    ∃ t, b.retrieveAsString len = .ok (b.readable.take len, t) ∧
      t.readable = b.readable.drop len := by
  obtain ⟨t, ht, hread⟩ := b.retrieve_spec h
  refine ⟨t, ?_, hread⟩
  have hfront : (b.buffer.drop b.peek).take len = b.readable.take len := by
    unfold readableBytes at h
    rw [readable, List.drop_take, List.take_take, peek, Nat.min_eq_left h]
  unfold retrieveAsString
  rw [decide_eq_true h, check_true, ok_bind, ht, ok_bind, hfront]
  rfl

/-- As long as bytes are left, `retrieveAsString` only moves `peek()`. -/
theorem retrieveAsString_peek {len : Nat} (h : len < b.readableBytes) :
    ∃ t, b.retrieveAsString len = .ok (b.readable.take len, t) ∧
      t.readable = b.readable.drop len ∧ t.peek = b.peek + len := by
  obtain ⟨t, ht, hread⟩ := b.retrieveAsString_spec h.le
  refine ⟨t, ht, hread, ?_⟩
  rw [retrieveAsString, decide_eq_true h.le, check_true, ok_bind] at ht
  obtain ⟨u, hu, ht⟩ := bind_eq_ok.mp ht
  rw [retrieve, decide_eq_true h.le, check_true, ok_bind, dif_pos h] at hu
  cases hu
  rw [← (Prod.mk.inj (Except.ok.inj ht)).2]
  rfl

theorem retrieveAllAsString_spec :
    ∃ t, b.retrieveAllAsString = .ok (b.readable, t) ∧ t.readable = [] := by
  obtain ⟨t, ht, hread⟩ := b.retrieveAsString_spec (Nat.le_refl b.readableBytes)
  rw [← length_readable, List.take_length] at ht
  refine ⟨t, by rw [retrieveAllAsString, ← length_readable, ht], ?_⟩
  rw [hread, ← length_readable, List.drop_length]

theorem peek_add_le_beginWrite {len : Nat} (h : len ≤ b.readableBytes) :
    b.peek + len ≤ b.beginWrite := by
  have := b.reader_le
  unfold readableBytes at h
  unfold peek beginWrite
  omega

theorem retrieveUntil_spec {len : Nat} (h : len ≤ b.readableBytes) :
    ∃ t, b.retrieveUntil (b.peek + len) = .ok t ∧ t.readable = b.readable.drop len := by
  have hend : b.peek + len ≤ b.beginWrite := b.peek_add_le_beginWrite h
  obtain ⟨t, ht, hread⟩ := b.retrieve_spec h
  refine ⟨t, ?_, hread⟩
  unfold retrieveUntil
  rw [decide_eq_true (Nat.le_add_right _ _), check_true, ok_bind, decide_eq_true hend, check_true,
    ok_bind, Nat.add_sub_cancel_left, ht]

@[simp] theorem readable_resize {n : Nat} (h : b.writerIndex ≤ n) :
    (b.resize n h).readable = b.readable := by
  have hw := b.writer_le
  simp only [readable, resize]
  congr 1
  rw [List.take_append_of_le_length (by simp only [List.length_take]; omega), List.take_take,
    Nat.min_eq_left h]

@[simp] theorem readable_slide : b.slide.readable = b.readable := by
  have hp := b.prepend_le
  have hr := b.reader_le
  have hw := b.writer_le
  have hfront : (b.buffer.take kCheapPrepend).length = kCheapPrepend := by
    simp only [List.length_take]
    omega
  show ((b.buffer.take kCheapPrepend ++ b.readable ++
    b.buffer.drop (kCheapPrepend + b.readableBytes)).take (kCheapPrepend + b.readableBytes)).drop
      kCheapPrepend = b.readable
  rw [List.take_left' (by rw [List.length_append, hfront, length_readable]),
    List.drop_left' hfront]

theorem makeSpace_spec {len : Nat} (h : b.writableBytes < len) :
    ∃ t, b.makeSpace len = .ok t ∧ t.readable = b.readable ∧ len ≤ t.writableBytes := by
  have hp := b.prepend_le
  have hr := b.reader_le
  have hw := b.writer_le
  unfold writableBytes at h
  by_cases hfew : b.writableBytes + b.prependableBytes < len + kCheapPrepend
  · refine ⟨_, if_pos hfew, b.readable_resize _, ?_⟩
    simp only [resize, writableBytes, List.length_append, List.length_take, List.length_replicate]
    omega
  · have hkept : b.slide.readableBytes = b.readableBytes := by
      rw [← length_readable, readable_slide, length_readable]
    refine ⟨b.slide, ?_, b.readable_slide, ?_⟩
    · rw [makeSpace, if_neg hfew]
      simp only [hkept, decide_true, check_true, ok_bind]
      rfl
    · unfold writableBytes prependableBytes at hfew
      simp only [slide, writableBytes, List.length_append, List.length_take, List.length_drop,
        length_readable, readableBytes]
      omega

theorem ensureWriteableBytes_spec (len : Nat) :
    ∃ t, b.ensureWriteableBytes len = .ok t ∧ t.readable = b.readable ∧
      len ≤ t.writableBytes := by
  unfold ensureWriteableBytes
  by_cases h : b.writableBytes < len
  · obtain ⟨t, ht, hread, hlen⟩ := b.makeSpace_spec h
    refine ⟨t, ?_, hread, hlen⟩
    simp only [if_pos h, ht, ok_bind, decide_eq_true hlen, check_true]
    rfl
  · refine ⟨b, ?_, rfl, Nat.le_of_not_lt h⟩
    simp only [if_neg h, ok_bind, decide_eq_true (Nat.le_of_not_lt h), check_true]
    rfl

/-- Bytes stored at `beginWrite()` become readable once they are counted as written. -/
theorem store_hasWritten_spec {data : Bytes} (h : data.length ≤ b.writableBytes) :
    ∃ t, (b.store data).hasWritten data.length = .ok t ∧ t.readable = b.readable ++ data := by
  have hr := b.reader_le
  have hw := b.writer_le
  have hfit : data.length ≤ b.buffer.length - b.writerIndex := h
  have hroom : data.length ≤ (b.store data).writableBytes := by
    simp only [store, writableBytes, List.length_append, List.length_take, List.length_drop]
    omega
  have htake : (b.buffer.take b.writerIndex).length = b.writerIndex := by
    simp only [List.length_take]
    omega
  refine ⟨_, dif_pos hroom, ?_⟩
  show ((b.buffer.take b.writerIndex ++ data ++ b.buffer.drop (b.writerIndex + data.length)).take
    (b.writerIndex + data.length)).drop b.readerIndex = b.readable ++ data
  rw [List.take_left' (by rw [List.length_append, htake]),
    List.drop_append_of_le_length (by rw [htake]; exact hr), readable]

theorem append_spec (data : Bytes) :
    ∃ t, b.append data = .ok t ∧ t.readable = b.readable ++ data := by
  obtain ⟨u, hu, hread, hroom⟩ := b.ensureWriteableBytes_spec data.length
  obtain ⟨t, ht, happ⟩ := u.store_hasWritten_spec hroom
  exact ⟨t, by rw [append, hu, ok_bind, ht], by rw [happ, hread]⟩

theorem received_spec (bytes : Bytes) :
    ∃ t, b.received bytes = .ok t ∧ t.readable = b.readable ++ bytes := by
  unfold received
  by_cases hfit : bytes.length ≤ b.writableBytes
  · obtain ⟨t, ht, hread⟩ := b.store_hasWritten_spec hfit
    exact ⟨t, by simp only [if_pos hfit, ht], hread⟩
  · have hlen : (bytes.take b.writableBytes).length = b.writableBytes := by
      simp only [List.length_take]
      omega
    obtain ⟨u, hu, hreadu⟩ := b.store_hasWritten_spec hlen.le
    rw [hlen] at hu
    obtain ⟨t, ht, hread⟩ := u.append_spec (bytes.drop b.writableBytes)
    refine ⟨t, by simp only [if_neg hfit, hu, ok_bind, ht], ?_⟩
    rw [hread, hreadu, List.append_assoc, List.take_append_drop]

/-- `readFd` adds what the kernel delivers to the back of the queue. -/
theorem readFd_data_spec (bytes : Bytes) :
    ∃ t, b.readFd (.data bytes) = .ok (((bytes.take b.readCapacity).length : Int), t) ∧
      t.readable = b.readable ++ bytes.take b.readCapacity := by
  obtain ⟨t, ht, hread⟩ := b.received_spec (bytes.take b.readCapacity)
  exact ⟨t, by simp only [readFd, ht, ok_bind]; rfl, hread⟩

theorem findCRLF_eq_some {crlf : Nat} :
    b.findCRLF = some crlf ↔ ∃ i, search kCRLF b.readable = some i ∧ b.peek + i = crlf :=
  Option.map_eq_some_iff

theorem findCRLF_eq_none : b.findCRLF = none ↔ search kCRLF b.readable = none :=
  Option.map_eq_none_iff

end Buffer

end Mymuduo

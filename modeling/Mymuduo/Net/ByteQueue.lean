import Mymuduo.Net.Buffer

/-! What the parser needs of its input: a queue of bytes in which it looks for a line and from which
it takes lines and strings.  A `Buffer` is such a queue, and so is a plain list. -/

namespace Mymuduo

open Lib

/-- The operations on the input, with what they do to the queue of bytes.  `retrieveLine` takes the
line that ends at a position found by `findCRLF`, and the CRLF after it. -/
class ByteQueue (Q : Type) where
  bytes : Q → Bytes
  readableBytes : Q → Nat
  findCRLF : Q → Option Nat
  retrieveLine : Q → Nat → Except Fault (Bytes × Q)
  retrieveAsString : Q → Nat → Except Fault (Bytes × Q)
  readableBytes_eq : ∀ q, readableBytes q = (bytes q).length
  findCRLF_none : ∀ q, search kCRLF (bytes q) = none → findCRLF q = none
  retrieveLine_spec : ∀ q i, search kCRLF (bytes q) = some i →
    ∃ crlf t, findCRLF q = some crlf ∧ retrieveLine q crlf = .ok ((bytes q).take i, t) ∧
      bytes t = (bytes q).drop (i + 2)
  retrieveAsString_spec : ∀ q n, n ≤ (bytes q).length →
    ∃ t, retrieveAsString q n = .ok ((bytes q).take n, t) ∧ bytes t = (bytes q).drop n

instance : ByteQueue Bytes where
  bytes q := q
  readableBytes := List.length
  findCRLF := search kCRLF
  retrieveLine q crlf := .ok (q.take crlf, q.drop (crlf + 2))
  retrieveAsString q n := .ok (q.take n, q.drop n)
  readableBytes_eq _ := rfl
  findCRLF_none _ h := h
  retrieveLine_spec _ i h := ⟨i, _, h, rfl, rfl⟩
  retrieveAsString_spec _ _ _ := ⟨_, rfl, rfl⟩

namespace Buffer

/-- `retrieveAsString(crlf - peek())` and `retrieveUntil(crlf + 2)`. -/
def retrieveLine (b : Buffer) (crlf : Nat) : Except Fault (Bytes × Buffer) := do
  let (line, b) ← b.retrieveAsString (crlf - b.peek)
  let b ← b.retrieveUntil (crlf + 2)
  return (line, b)

/-- The line is retrieved while its CRLF is still in the buffer, so that `crlf` keeps its place. -/
theorem retrieveLine_spec (b : Buffer) {i : Nat} (h : search kCRLF b.readable = some i) :
    ∃ t, b.retrieveLine (b.peek + i) = .ok (b.readable.take i, t) ∧
      t.readable = b.readable.drop (i + 2) := by
  have hlen : i + 2 ≤ b.readableBytes := by
    rw [← length_readable]
    exact (search_spec h).1
  have hline : i < b.readableBytes := by omega
  obtain ⟨u, hu, hread, hpeek⟩ := b.retrieveAsString_peek hline
  have hleft : 2 ≤ u.readableBytes := by
    rw [← length_readable, hread, List.length_drop, length_readable]
    omega
  obtain ⟨t, ht, hrest⟩ := u.retrieveUntil_spec hleft
  refine ⟨t, ?_, by rw [hrest, hread, List.drop_drop]⟩
  rw [hpeek] at ht
  rw [retrieveLine, Nat.add_sub_cancel_left, hu, ok_bind]
  dsimp only
  rw [ht]
  rfl

end Buffer

instance : ByteQueue Buffer where
  bytes := Buffer.readable
  readableBytes := Buffer.readableBytes
  findCRLF := Buffer.findCRLF
  retrieveLine := Buffer.retrieveLine
  retrieveAsString := Buffer.retrieveAsString
  readableBytes_eq b := (Buffer.length_readable b).symm
  findCRLF_none b h := (Buffer.findCRLF_eq_none b).mpr h
  retrieveLine_spec b i h := by
    obtain ⟨t, ht, hrest⟩ := b.retrieveLine_spec h
    exact ⟨b.peek + i, t, (Buffer.findCRLF_eq_some b).mpr ⟨i, h, rfl⟩, ht, hrest⟩
  retrieveAsString_spec b n h := b.retrieveAsString_spec (by rwa [← Buffer.length_readable])

@[simp] theorem bytes_list (q : Bytes) : ByteQueue.bytes q = q := rfl

@[simp] theorem bytes_buffer (b : Buffer) : ByteQueue.bytes b = b.readable := rfl

end Mymuduo

import Mymuduo.Base.Fault

/-! The buffer of fixed size that the loggers write to.  `content` stands for the bytes from `data_`
to `cur_`; what lies behind `cur_` is never read. -/

namespace Mymuduo

def kSmallBuffer : Nat := 4000

def kLargeBuffer : Nat := 4000 * 1000

structure FixedBuffer (SIZE : Nat) where
  content : Bytes
  length_le : content.length ≤ SIZE
  deriving DecidableEq, Repr

namespace FixedBuffer

variable {SIZE : Nat}

/-- `FixedBuffer::FixedBuffer()` -/
def new : FixedBuffer SIZE where
  content := []
  length_le := Nat.zero_le SIZE

def length (b : FixedBuffer SIZE) : Nat := b.content.length

def avail (b : FixedBuffer SIZE) : Nat := SIZE - b.content.length

/-- `append(buf, len)`: what does not fit is dropped. -/
def append (b : FixedBuffer SIZE) (buf : Bytes) : FixedBuffer SIZE :=
  if h : buf.length < b.avail then
    { content := b.content ++ buf
      length_le := by
        unfold avail at h
        rw [List.length_append]
        omega }
  else
    b

def reset (_ : FixedBuffer SIZE) : FixedBuffer SIZE := new

@[simp] theorem content_new : (new : FixedBuffer SIZE).content = [] := rfl

@[simp] theorem content_reset (b : FixedBuffer SIZE) : b.reset.content = [] := rfl

theorem content_append {b : FixedBuffer SIZE} {buf : Bytes} (h : buf.length < b.avail) :
    (b.append buf).content = b.content ++ buf := by
  rw [append, dif_pos h]

/-- An empty buffer has room for every message that is shorter than it. -/
theorem content_append_of_empty {b : FixedBuffer SIZE} {buf : Bytes} (hb : b.content = [])
    (h : buf.length < SIZE) : (b.append buf).content = buf := by
  have hroom : buf.length < b.avail := by
    rw [avail, hb]
    exact h
  rw [content_append hroom, hb, List.nil_append]

end FixedBuffer

end Mymuduo

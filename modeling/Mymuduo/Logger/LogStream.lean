import Mymuduo.Base.Decimal
import Mymuduo.Lib.Cells
import Mymuduo.Lib.Run
import Mymuduo.Logger.FixedBuffer

/-! The stream of a log record: the overloads of `operator<<` write into the memory of a
`FixedBuffer`.  What `%.12g` prints of a `double` is a parameter. -/

namespace Mymuduo

open Lib

/-- What is undefined in the source: a pointer leaves the memory that it points into, or control
runs off the end of a function that has to return a value. -/
inductive StreamFault
  | outOfBounds
  | noReturn
  deriving DecidableEq, Repr

/-- A `FixedBuffer` with its memory: `data` holds `data_`, and `cur` is the offset of `cur_` in it. -/
structure BufferMemory (SIZE : Nat) where
  data : Nat → UInt8
  cur : Nat
  cur_le : cur ≤ SIZE

namespace BufferMemory

variable {SIZE : Nat}

/-- `FixedBuffer::FixedBuffer()`, which leaves `data_` as it is. -/
def new (data : Nat → UInt8) : BufferMemory SIZE where
  data := data
  cur := 0
  cur_le := Nat.zero_le SIZE

def avail (b : BufferMemory SIZE) : Nat := SIZE - b.cur

/-- The bytes from `data()` on, `length()` of them. -/
def content (b : BufferMemory SIZE) : Bytes := readCells b.data 0 b.cur

/-- The buffer as its users see it. -/
def toFixedBuffer (b : BufferMemory SIZE) : FixedBuffer SIZE where
  content := b.content
  length_le := by
    rw [content, length_readCells]
    exact b.cur_le

/-- Bytes are stored from offset `i` on. -/
def store (b : BufferMemory SIZE) (i : Nat) (bytes : Bytes) :
    Except StreamFault (BufferMemory SIZE) :=
  if i + bytes.length ≤ SIZE then .ok { b with data := writeCells b.data i bytes }
  else .error .outOfBounds

/-- `std::reverse(data_ + start, data_ + stop)` -/
def reverse (b : BufferMemory SIZE) (start stop : Nat) : Except StreamFault (BufferMemory SIZE) :=
  if stop ≤ SIZE then .ok { b with data := reverseCells b.data start stop }
  else .error .outOfBounds

def add (b : BufferMemory SIZE) (len : Nat) : Except StreamFault (BufferMemory SIZE) :=
  if h : b.cur + len ≤ SIZE then .ok { b with cur := b.cur + len, cur_le := h }
  else .error .outOfBounds

/-- `append(buf, len)`, where `buf` points to the bytes `buf`. -/
def append (b : BufferMemory SIZE) (buf : Bytes) (len : Nat) :
    Except StreamFault (BufferMemory SIZE) :=
  if len < b.avail then
    if buf.length < len then .error .outOfBounds
    else do
      let b ← b.store b.cur (buf.take len)
      b.add len
  else
    .ok b

end BufferMemory

/-- The types of integers that `operator<<` takes. -/
inductive IntegerType
  | short
  | unsignedShort
  | int
  | unsignedInt
  | long
  | unsignedLong
  | longLong
  | unsignedLongLong
  deriving DecidableEq, Repr

namespace IntegerType

def bits : IntegerType → Nat
  | .short | .unsignedShort => 16
  | .int | .unsignedInt => 32
  | .long | .unsignedLong | .longLong | .unsignedLongLong => 64

def isSigned : IntegerType → Bool
  | .short | .int | .long | .longLong => true
  | .unsignedShort | .unsignedInt | .unsignedLong | .unsignedLongLong => false

/-- The value is one of the type. -/
def Holds (t : IntegerType) (v : Int) : Prop :=
  if t.isSigned then -2 ^ (t.bits - 1) ≤ v ∧ v < 2 ^ (t.bits - 1) else 0 ≤ v ∧ v < 2 ^ t.bits

instance (t : IntegerType) (v : Int) : Decidable (t.Holds v) := by
  unfold Holds
  infer_instance

end IntegerType

/-- An integer of one of the types. -/
structure Integer where
  type : IntegerType
  val : Int
  holds : type.Holds val

/-- A string that ends with a zero byte, without that byte. -/
abbrev CString := { s : Bytes // (0 : UInt8) ∉ s }

def emptyCString : CString := ⟨[], List.not_mem_nil⟩

/-- A `const void *`.  From its address bytes up to a zero byte can be read, or reading them leaves the
memory that it points into. -/
inductive Pointer
  | null
  | string (str : CString)
  | other (address : UInt64)

/-- What is printed for a pointer to a string. -/
def textOf : Option CString → Bytes
  | some str => str.val
  | none => ofString "(null)"

/-- A `GeneralTemplate`: `data_` points to at least `len_` bytes, and `len_` is an `int`. -/
structure GeneralTemplate where
  data : Bytes
  len : Int
  len_le : len ≤ data.length
  isInt : -2 ^ 31 ≤ len ∧ len < 2 ^ 31

/-- An `int` as a `size_t`. -/
def sizeOfInt (len : Int) : Nat := (len % 2 ^ 64).toNat

/-- What is streamed, by the overloads of `operator<<`.  A `float` is the `double` that it is
converted to; a pointer to a string may be null. -/
inductive Value (δ : Type)
  | integer (v : Integer)
  | float (v : δ)
  | double (v : δ)
  | char (c : UInt8)
  | pointer (data : Pointer)
  | str (str : Option CString)
  | unsignedStr (str : Option CString)
  | string (str : Bytes)
  | buffer (buf : FixedBuffer kSmallBuffer)
  | general (g : GeneralTemplate)

structure LogStream where
  buffer : BufferMemory kSmallBuffer

namespace LogStream

def kMaxNumericSize : Nat := 48

/-- `LogStream::LogStream()` -/
def new (data : Nat → UInt8) : LogStream := ⟨.new data⟩

def avail (s : LogStream) : Nat := s.buffer.avail

/-- What has been streamed so far. -/
def content (s : LogStream) : Bytes := s.buffer.content

/-- `append(data, len)`, with the conversion of `len` to `size_t`. -/
def append (s : LogStream) (g : GeneralTemplate) : Except StreamFault LogStream := do
  let buffer ← s.buffer.append g.data (sizeOfInt g.len)
  return { s with buffer := buffer }

def digits : Bytes := ofString "9876543210123456789"

/-- `zero[remainder]`, where `zero` points to the middle of `digits`. -/
def zeroAt (remainder : Int) : UInt8 := digits.getD (9 + remainder).toNat 0

section

variable {SIZE : Nat}

/-- The loop of `formatInteger`, which stores the digits from offset `cur` on, the last one first.
Returns `cur` as well. -/
def writeDigits (b : BufferMemory SIZE) (cur : Nat) (num : Int) :
    Except StreamFault (BufferMemory SIZE × Nat) := do
  let b ← b.store cur [zeroAt (num.tmod 10)]
  if h : num.tdiv 10 ≠ 0 then writeDigits b (cur + 1) (num.tdiv 10)
  else return (b, cur + 1)
termination_by num.natAbs
decreasing_by
  rw [Int.natAbs_tdiv]
  have hpos : num.natAbs ≠ 0 := by
    intro hzero
    apply h
    rw [Int.natAbs_eq_zero.mp hzero]
    rfl
  exact Nat.div_lt_self (Nat.pos_of_ne_zero hpos) (by decide)

/-- The sign of a negative number. -/
def writeSign (b : BufferMemory SIZE) (cur : Nat) (negative : Bool) :
    Except StreamFault (BufferMemory SIZE × Nat) :=
  if negative then do
    let b ← b.store cur (ofString "-")
    return (b, cur + 1)
  else
    return (b, cur)

/-- What `formatInteger` does if there is room. -/
def formatDigits (b : BufferMemory SIZE) (num : Int) : Except StreamFault (BufferMemory SIZE) := do
  let start := b.cur
  let negative := decide (num < 0)
  let (b, cur) ← writeDigits b start num
  let (b, cur) ← writeSign b cur negative
  let b ← b.store cur [0]
  let b ← b.reverse start cur
  b.add (cur - start)

end

def formatInteger (s : LogStream) (num : Int) : Except StreamFault LogStream :=
  if kMaxNumericSize ≤ s.avail then do
    let buffer ← formatDigits s.buffer num
    return { s with buffer := buffer }
  else
    .ok s

/-- `operator<<(const char *)` -/
def insertString (s : LogStream) (str : Option CString) : Except StreamFault LogStream := do
  let buffer ← s.buffer.append (textOf str) (textOf str).length
  return { s with buffer := buffer }

/-- `operator<<(const void *)`, which makes a `const char *` of the address. -/
def insertPointer (s : LogStream) : Pointer → Except StreamFault LogStream
  | .null => s.insertString none
  | .string str => s.insertString (some str)
  | .other _ => .error .outOfBounds

section

variable {δ : Type} (printf : δ → Bytes)

/-- `operator<<(double)`: `snprintf` writes what fits into 48 bytes with a zero byte. -/
def insertDouble (s : LogStream) (v : δ) : Except StreamFault LogStream :=
  if kMaxNumericSize ≤ s.avail then do
    let text := printf v
    let buffer ← s.buffer.store s.buffer.cur (text.take (kMaxNumericSize - 1) ++ [0])
    let buffer ← buffer.add text.length
    return { s with buffer := buffer }
  else
    .error .noReturn

/-- `operator<<`.  A `short` is converted to `int`, and an `unsigned short` to `unsigned int`, which
keeps the value. -/
def insert (s : LogStream) : Value δ → Except StreamFault LogStream
  | .integer v => s.formatInteger v.val
  | .float v => s.insertDouble printf v
  | .double v => s.insertDouble printf v
  | .char c => do
    let buffer ← s.buffer.append [c] 1
    return { s with buffer := buffer }
  | .pointer data => s.insertPointer data
  | .str str => s.insertString str
  | .unsignedStr str => s.insertString str
  | .string str => do
    let buffer ← s.buffer.append str str.length
    return { s with buffer := buffer }
  | .buffer buf => do
    let buffer ← s.buffer.append buf.content buf.content.length
    return { s with buffer := buffer }
  | .general g => s.append g

end

end LogStream

end Mymuduo

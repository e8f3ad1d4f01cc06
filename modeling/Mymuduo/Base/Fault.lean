import Mymuduo.Lib.Numeral

/-! Bytes, and the ways in which a function of the library can fail to return: an `assert` that does
not hold, an exception that nothing catches, a fatal log record, after which the process aborts, or
a pointer to no object. -/

namespace Mymuduo

abbrev Bytes := List UInt8

/-- The bytes of a string literal of the source. -/
def ofString (s : String) : Bytes := s.toList.map fun c => c.toNat.toUInt8

/-- `std::to_string`, and the conversion `%d` -/
def toDecimal (n : Int) : Bytes := ofString (toString n)

/-- The functions that hold an `assert`, one constructor for each assertion. -/
inductive Assertion
  -- Buffer
  | retrieve
  | retrieveUntilPeek
  | retrieveUntilEnd
  | retrieveAsString
  | ensureWriteableBytes
  | makeSpace
  | hasWritten
  | findCRLFPeek
  | findCRLFStart
  | findEOLPeek
  | findEOLStart
  -- Channel, EPollPoller and EventLoop
  | channelRemove
  | destroyedAddedToLoop
  | destroyedEventHandling
  | destroyedKnown
  | updateChannelNew
  | updateChannelDeleted
  | updateChannelAdded
  | removeChannelKnown
  | removeChannelNoneEvent
  | removeChannelIndex
  | fillActiveChannelsSize
  | fillActiveChannelsKnown
  | loopRemoveChannel
  | loop
  -- TcpConnection
  | connectEstablished
  | handleClose
  -- TcpServer
  | removeConnectionInLoop
  -- Connector
  | connecting
  | connectorHandleWrite
  -- HttpConnection
  | parseRequestContentLength
  | makeResponse
  | makeResponseLine
  deriving DecidableEq, Repr

/-- How a call ends when it does not return. -/
inductive Fault
  | assertion (a : Assertion)
  | exception (e : Lib.ConversionError)
  /-- `LOG_FATAL` and `LOG_SYSFATAL` -/
  | fatal
  /-- A member is read through a null pointer. -/
  | nullPointer
  /-- An object is used after it was deleted. -/
  | danglingPointer
  /-- `back()` of a vector without elements. -/
  | emptyVector
  deriving DecidableEq, Repr

/-- `assert(condition)` -/
def check (a : Assertion) (condition : Bool) : Except Fault Unit :=
  if condition then .ok () else .error (.assertion a)

@[simp] theorem check_true (a : Assertion) : check a true = .ok () := rfl

@[simp] theorem check_false (a : Assertion) : check a false = .error (.assertion a) := rfl

theorem check_eq_ok {a : Assertion} {condition : Bool} {u : Unit} :
    check a condition = .ok u ↔ condition = true := by
  cases condition <;> simp [check]

end Mymuduo

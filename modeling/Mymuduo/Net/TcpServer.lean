import Mathlib.Logic.Function.Basic
import Mymuduo.Net.InetAddress

/-! The members of a server that name its connections and hold them.  A connection is known by its
number in the order in which the server accepts them, where the source has a `TcpConnectionPtr`. -/

namespace Mymuduo

structure TcpServer where
  ipPort : Bytes
  name : Bytes
  nextConnId : Int
  connections : Bytes → Option Nat

namespace TcpServer

/-- `TcpServer::TcpServer` -/
def new (listenAddr : InetAddress) (nameArg : Bytes) : TcpServer where
  ipPort := listenAddr.toIpPort
  name := nameArg
  nextConnId := 1
  connections := fun _ => none

/-- `++` on an `int`, in 32 bits. -/
def increment (n : Int) : Int := (n + 1).bmod (2 ^ 32)

/-- The name of the next connection.  `snprintf` has a buffer of 64 bytes for it, the last of them
for the zero byte. -/
def connName (s : TcpServer) : Bytes :=
  s.name ++ (ofString "-" ++ s.ipPort ++ ofString "#" ++ toDecimal s.nextConnId).take 63

/-- What `newConnection` does to the server: the new connection is entered under its name. -/
def newConnection (s : TcpServer) (conn : Nat) : TcpServer :=
  { s with
    nextConnId := increment s.nextConnId
    connections := Function.update s.connections s.connName (some conn) }

/-- What `removeConnectionInLoop` does to the server. -/
def removeConnectionInLoop (s : TcpServer) (name : Bytes) : Except Fault TcpServer := do
  check .removeConnectionInLoop (s.connections name).isSome
  return { s with connections := Function.update s.connections name none }

/-- The names of fewer than 2^31 connections fit into the buffer, and are distinct. -/
theorem connName_injective {s : TcpServer} (hipPort : s.ipPort.length ≤ 21) {i j : Nat}
    (hi : i + 1 < 2 ^ 31) (hj : j + 1 < 2 ^ 31)
    (h : { s with nextConnId := i + 1 }.connName = { s with nextConnId := j + 1 }.connName) :
    i = j := by
  have hfits : ∀ k : Nat, k + 1 < 2 ^ 31 →
      (ofString "-" ++ s.ipPort ++ ofString "#" ++ toDecimal (k + 1)).take 63 =
        ofString "-" ++ s.ipPort ++ ofString "#" ++ toDecimal (k + 1) := by
    intro k hk
    apply List.take_of_length_le
    have hid : (toDecimal ((k + 1 : Nat) : Int)).length ≤ 10 :=
      length_toDecimal_natCast_le (by decide) (by omega)
    rw [Int.natCast_succ] at hid
    have hdash : (ofString "-").length = 1 := rfl
    have hhash : (ofString "#").length = 1 := rfl
    simp only [List.length_append]
    omega
  simp only [connName] at h
  rw [hfits i hi, hfits j hj] at h
  have hids := List.append_cancel_left (List.append_cancel_left h)
  rw [← Int.natCast_succ, ← Int.natCast_succ] at hids
  exact Nat.succ.inj (toDecimal_natCast_injective hids)

end TcpServer

end Mymuduo

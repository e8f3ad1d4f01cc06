import Mymuduo.Base.Decimal

/-! Socket addresses of IPv4, and the text that names them. -/

namespace Mymuduo

/-- An `InetAddress`: the four bytes of the IP and the port, in the order of the network. -/
structure InetAddress where
  ip : UInt8 × UInt8 × UInt8 × UInt8
  port : UInt16
  deriving DecidableEq, Repr

namespace InetAddress

/-- `toIp`, as `inet_ntop` writes the address. -/
def toIp (a : InetAddress) : Bytes :=
  toDecimal a.ip.1.toNat ++ ofString "." ++ toDecimal a.ip.2.1.toNat ++ ofString "." ++
    toDecimal a.ip.2.2.1.toNat ++ ofString "." ++ toDecimal a.ip.2.2.2.toNat

def toIpPort (a : InetAddress) : Bytes := a.toIp ++ ofString ":" ++ toDecimal a.port.toNat

theorem length_toIpPort_le (a : InetAddress) : a.toIpPort.length ≤ 21 := by
  have hbyte : ∀ b : UInt8, (toDecimal b.toNat).length ≤ 3 := by
    intro b
    have hb := b.toNat_lt
    exact length_toDecimal_natCast_le (by decide) (by omega)
  have hport : (toDecimal a.port.toNat).length ≤ 5 := by
    have hp := a.port.toNat_lt
    exact length_toDecimal_natCast_le (by decide) (by omega)
  have h₁ := hbyte a.ip.1
  have h₂ := hbyte a.ip.2.1
  have h₃ := hbyte a.ip.2.2.1
  have h₄ := hbyte a.ip.2.2.2
  have hdot : (ofString ".").length = 1 := rfl
  have hcolon : (ofString ":").length = 1 := rfl
  simp only [toIpPort, toIp, List.length_append]
  omega

end InetAddress

end Mymuduo

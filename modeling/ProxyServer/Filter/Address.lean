import ProxyServer.CString
import Mathlib.Data.Fintype.Pi

namespace ProxyServer

/-- A socket address; an IPv4 address is the number that its four bytes make. -/
inductive SockAddr where
  | inet (addr : UInt32) (port : UInt16)
  | inet6 (addr : Fin 16 → UInt8) (port : UInt16)
  | other (family : UInt16)
  deriving DecidableEq

structure CidrBlock where
  addr : UInt32
  mask : UInt32
  isIpv6 : Bool
  addr6 : Fin 16 → UInt8
  mask6 : Fin 16 → UInt8

structure AddressFilter where
  enabled : Bool
  allowIps : List CidrBlock
  denyIps : List CidrBlock

def CidrBlock.covers (block : CidrBlock) : SockAddr → Bool
  | .inet addr _ => !block.isIpv6 && addr &&& block.mask == block.addr
  | .inet6 addr _ =>
      block.isIpv6 &&
        (List.finRange 16).all fun j => addr j &&& block.mask6 j == block.addr6 j
  | .other _ => false

def filterIsIpBlocked (f : AddressFilter) (sa : SockAddr) : Bool :=
  if f.enabled = false then false
  else match sa with
    | .other _ => false
    | sa =>
        if f.allowIps.any (·.covers sa) then false
        else f.denyIps.any (·.covers sa)

end ProxyServer

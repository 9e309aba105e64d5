import Mathlib.Data.List.Basic

/-! The types a UDP socket exchanges with the QUIC stack: the transmit it is
asked to send and the metadata it reports for each receive buffer. -/

namespace ConstructTransport.Datagram

/-- `IpAddr`, by the octets of the address. -/
inductive IpAddr
  | v4 (octets : BitVec 32)
  | v6 (octets : BitVec 128)
  deriving DecidableEq, Repr

structure SocketAddr where
  ip : IpAddr
  port : UInt16
  deriving DecidableEq, Repr

/-- The codepoints of `EcnCodepoint`; its absence is `none` where it is used. -/
inductive EcnCodepoint
  | ect0
  | ect1
  | ce
  deriving DecidableEq, Repr

structure Transmit where
  destination : SocketAddr
  ecn : Option EcnCodepoint
  contents : List UInt8
  segmentSize : Option ℕ
  srcIp : Option IpAddr
  deriving DecidableEq, Repr

structure RecvMeta where
  addr : SocketAddr
  len : ℕ
  stride : ℕ
  ecn : Option EcnCodepoint
  dstIp : Option IpAddr
  deriving DecidableEq, Repr

end ConstructTransport.Datagram

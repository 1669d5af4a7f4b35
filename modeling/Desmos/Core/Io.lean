import Desmos.Library.Bytes

/-! # What the runtime crate hands to the core

Addresses, sockets, datagrams and I/O errors. The kernel is an environment: a
system call is an outcome that a modelled function receives, never a function
of the model.
-/
namespace Desmos.Core
open Library

inductive IpAddr where
  | v4 (octets : ByteArr 4)
  | v6 (octets : ByteArr 16)
  deriving DecidableEq

structure SocketAddr where
  ip : IpAddr
  port : UInt16
  deriving DecidableEq

/-- A bound socket; packets it sends carry its local address as their source. -/
structure UdpSocket where
  localAddr : SocketAddr
  boundDevice : Option String
  deriving DecidableEq

structure Datagram where
  src : SocketAddr
  dst : SocketAddr
  payload : Bytes
  deriving DecidableEq

inductive ErrorKind where
  | invalidInput
  | invalidData
  | wouldBlock
  | timedOut
  | other
  deriving DecidableEq, Repr

structure IoError where
  kind : ErrorKind
  message : String
  deriving DecidableEq, Repr

end Desmos.Core

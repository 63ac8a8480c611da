import NewsServer.Lib.Memory

/-!
# What the modules share

The buffer size, the ways a program stops, the packets the server keeps, and the events a run
shows: the system calls it makes and what its handlers did.
-/

namespace NewsServer

def buflen : ℕ := 2048

/-- The calls a `DIE` describes. -/
inductive Die
  | accept
  | sendBuffered
  | sendToSub
  | tcpPacketTooBig
  | recv
  deriving DecidableEq, Repr

/-- Why a program runs no further: a `DIE`, the end of `main`, or a write after which nothing is
known, over the end of a buffer on the stack or past the end of an `fd_set`. -/
inductive Stop
  | die (d : Die)
  | exit
  | overrun
  | pastFdSet
  deriving DecidableEq, Repr

/-- A `shared_packet`. No code writes to the bytes after they are built. -/
structure SharedPacket where
  size : ℕ
  data : Bytes
  fits : data.length = size
  deriving DecidableEq

/-- What a run shows. -/
inductive Event
  /-- `accept` has returned `fd`. -/
  | accepted (fd : ℤ)
  /-- `close(fd)` -/
  | closed (fd : ℤ)
  /-- `send` on `fd`. -/
  | sent (fd : ℤ) (wire : Bytes)
  /-- `process_tcp_client_packet` has returned `type` for the frame `buf` of `fd`. -/
  | frame (fd : ℤ) (buf : Bytes) (type : UInt8)
  /-- It has written its NUL one byte past the `cli_packet`. -/
  | pastPacket
  /-- A datagram's packet goes out to the subscribers of `topic`. -/
  | news (topic : Bytes) (packet : SharedPacket)
  /-- It was put in the queue of `id`. -/
  | stored (id : Bytes) (packet : SharedPacket)
  /-- It was sent to `id`, on `fd`. -/
  | forwarded (id : Bytes) (fd : ℤ) (packet : SharedPacket)
  /-- A packet of the queue of `id` was sent to it, on `fd`. -/
  | replayed (id : Bytes) (fd : ℤ) (packet : SharedPacket)
  /-- A `SOCK_CLOSE` of `fd` was handled. -/
  | disconnected (fd : ℤ)
  deriving DecidableEq

def maxInt (a b : ℤ) : ℤ :=
  if a > b then a else b

end NewsServer

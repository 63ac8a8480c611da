import NewsServer.BufferedTcpSocket

/-!
# `MultiSocket`

The descriptors a program watches and the queue of events one pass over the ready ones fills. The
kernel answers through `Pass`: the descriptors `::select` reports, what each `::recv` gives, and
the value the local `fd_type` happens to start with.
-/

namespace NewsServer

/-! ## The types of an event -/

def sockNull : ℤ := 0
def sockClose : ℤ := 16
def sockTcp : ℤ := 32
def sockUdp : ℤ := 64
def sockConnect : ℤ := 256
def fdUnbuffered : ℤ := 512

/-- `recv_holder`. An uninitialised `fd_type` can put any number in `type`. -/
structure RecvHolder where
  fd : ℤ
  type : ℤ
  deriving DecidableEq, Repr

/-- `FD_SETSIZE` -/
def fdSetsize : ℤ := 1024

/-- An `fd_set` has a bit for the descriptor. With another one `FD_SET`, `FD_CLR` and `FD_ISSET` go
past the set, and nothing is known after that. -/
def HasBit (fd : ℤ) : Prop :=
  0 ≤ fd ∧ fd < fdSetsize

instance (fd : ℤ) : Decidable (HasBit fd) :=
  inferInstanceAs (Decidable (0 ≤ fd ∧ fd < fdSetsize))

/-- The kernel's side of a pass, and the value `fd_type` starts with. `::select` succeeds. -/
structure Pass where
  ready : Finset ℤ
  got : ℤ → Option Bytes
  fdType : ℤ

structure MultiSocket where
  sockfdUdp : ℤ
  sockfdTcp : ℤ
  currSockfd : ℤ
  /-- The descriptors whose bit is set, each of which `HasBit`. -/
  readFds : Finset ℤ
  fdmax : ℤ
  currentFdType : ℤ
  sockQueue : List RecvHolder
  tcpSockets : Std.TreeMap ℤ BufferedTcpSocket

namespace MultiSocket

def new : MultiSocket where
  sockfdUdp := -1
  sockfdTcp := -1
  currSockfd := -2
  readFds := ∅
  fdmax := -1
  currentFdType := sockNull
  sockQueue := []
  tcpSockets := ∅

/-- `enable_udp`, `sockfd` being the new socket. Here, and in `enable_tcp_connections`, `add_fd`,
`close(int)` and `connect`, the descriptor is one that `HasBit`. -/
def enableUdp (m : MultiSocket) (sockfd : ℤ) : MultiSocket :=
  { m with
    sockfdUdp := sockfd
    readFds := insert sockfd m.readFds
    fdmax := maxInt m.fdmax sockfd }

/-- `enable_tcp_connections`, `sockfd` being the new socket. -/
def enableTcpConnections (m : MultiSocket) (sockfd : ℤ) : MultiSocket :=
  { m with
    sockfdTcp := sockfd
    readFds := insert sockfd m.readFds
    fdmax := maxInt m.fdmax sockfd }

def addFd (m : MultiSocket) (fd : ℤ) : MultiSocket :=
  { m with readFds := insert fd m.readFds }

/-- `close(int)` -/
def close (m : MultiSocket) (sockfd : ℤ) : MultiSocket :=
  { m with
    readFds := m.readFds.erase sockfd
    tcpSockets := m.tcpSockets.erase sockfd }

/-- `close()`. The map of the sockets has no order; here they are closed in that of their
descriptors. -/
def closeAll (m : MultiSocket) : MultiSocket × List Event :=
  ({ m with tcpSockets := ∅, readFds := ∅, fdmax := -1 },
    m.tcpSockets.keys.map .closed
      ++ (if m.sockfdTcp ≥ 0 then [.closed m.sockfdTcp] else [])
      ++ if m.sockfdUdp ≥ 0 then [.closed m.sockfdUdp] else [])

/-! ## `select` -/

/-- What a pass does with one ready descriptor: `fd_type` after it, and the object. -/
def visit (p : Pass) (fd : ℤ) (fdType : ℤ) (m : MultiSocket) : ℤ × MultiSocket × List Event :=
  match m.tcpSockets[fd]? with
  | some sock =>
    let (ret, out, sock) := sock.recv (p.got fd)
    let m := { m with tcpSockets := m.tcpSockets.insert fd sock }
    -- If the connection closes or the packet is too big
    if ret ≤ 0 ∨ out = .packetTooBig then
      (sockClose, m.close fd, [.closed fd])
    else if sock.packetReady then
      (sockTcp, m, [])
    else
      -- no branch assigns `fd_type`
      (fdType, m, [])
  | none =>
    if fd = m.sockfdTcp then
      (sockConnect, m, [])
    else if fd = m.sockfdUdp then
      (sockUdp, m, [])
    else
      (fdUnbuffered, m, [])

/-- The loop of a pass over the descriptors `fds`. -/
def passLoop (p : Pass) (selected : Finset ℤ) : List ℤ → ℤ → MultiSocket → MultiSocket × List Event
  | [], _, m => (m, [])
  | fd :: fds, fdType, m =>
    if fd ∈ selected then
      let (fdType, m, evs) := m.visit p fd fdType
      let (m, evs') := passLoop p selected fds fdType
        { m with sockQueue := m.sockQueue ++ [⟨fd, fdType⟩] }
      (m, evs ++ evs')
    else
      passLoop p selected fds fdType m

/-- The descriptors from 0 to `fdmax`. -/
def descriptors (fdmax : ℤ) : List ℤ :=
  (List.range (fdmax + 1).toNat).map Int.ofNat

/-- `this_method_does_something_important_with_the_file_descriptors` -/
def thisMethodDoesSomethingImportantWithTheFileDescriptors (m : MultiSocket) (p : Pass)
    (selectedFds : Finset ℤ) : MultiSocket × List Event :=
  passLoop p selectedFds (descriptors m.fdmax) p.fdType m

/-- One round of the loop of `select`: only watched descriptors are reported. -/
def selectRound (m : MultiSocket) (p : Pass) : MultiSocket × List Event :=
  m.thisMethodDoesSomethingImportantWithTheFileDescriptors p (m.readFds ∩ p.ready)

/-- `select`, where the kernel answers its rounds with `ps`. Nothing while it still waits. -/
def select : MultiSocket → List Pass → Option MultiSocket
  | m, [] => if m.sockQueue = [] then none else some m
  | m, p :: ps => if m.sockQueue = [] then (m.selectRound p).1.select ps else some m

/-! ## `get_next_fd` -/

def hasPacket (m : MultiSocket) (sockfd : ℤ) : Bool :=
  match m.tcpSockets[sockfd]? with
  | none => false
  | some sock => sock.packetReady

/-- The condition of the loop that skips entries: the socket is gone, or has no packet ready. -/
def stale (m : MultiSocket) (hold : RecvHolder) : Bool :=
  match m.tcpSockets[hold.fd]? with
  | none => true
  | some sock => !sock.packetReady

def getNextFd (m : MultiSocket) : ℤ × MultiSocket :=
  match m.sockQueue with
  | [] => (-1, { m with currentFdType := sockNull, currSockfd := -1 })
  | hold :: rest =>
    -- If it is an unhandled fd, just return it
    if hold.type ≠ sockTcp then
      (hold.fd, { m with
        sockQueue := rest
        currentFdType := hold.type
        currSockfd := hold.fd })
    else
      match (hold :: rest).dropWhile m.stale with
      | [] => (-1, { m with sockQueue := [], currentFdType := sockNull, currSockfd := -1 })
      | hold' :: rest' =>
        (hold'.fd, { m with
          sockQueue := hold' :: rest'
          currentFdType := hold'.type
          currSockfd := hold'.fd })

def isTcpConnection (m : MultiSocket) : Bool :=
  m.currentFdType = sockConnect

def isUdp (m : MultiSocket) : Bool :=
  m.currentFdType = sockUdp

def hasClosed (m : MultiSocket) : Bool :=
  m.currentFdType = sockClose

/-! ## Connections -/

/-- `accept`, `newsockfd` being what `::accept` returns. -/
def accept (m : MultiSocket) (newsockfd : ℤ) (u : Uninit) :
    Except Stop (MultiSocket × List Event) :=
  if newsockfd < 0 then
    .error (.die .accept)
  else if newsockfd ≥ fdSetsize then
    -- `FD_SET` writes over `fdmax`
    .error .pastFdSet
  else
    .ok ({ m with
      readFds := insert newsockfd m.readFds
      fdmax := maxInt m.fdmax newsockfd
      tcpSockets := m.tcpSockets.insert newsockfd (.new newsockfd u) }, [.accepted newsockfd])

/-- `connect`, `sockfd` being the new socket. -/
def connect (m : MultiSocket) (sockfd : ℤ) (u : Uninit) : MultiSocket :=
  { m with
    readFds := insert sockfd m.readFds
    fdmax := maxInt m.fdmax sockfd
    tcpSockets := m.tcpSockets.insert sockfd (.new sockfd u) }

/-- `send`: its result, and the `::send` it makes, which succeeds. -/
def send (m : MultiSocket) (sockfd : ℤ) (buf : Bytes) : Except Stop (ℤ × List Event) :=
  match m.tcpSockets[sockfd]? with
  | none => .ok (-1, [])
  | some _ => do
    let wire ← BufferedTcpSocket.send buf
    .ok (wire.length, [.sent sockfd wire])

/-- `recv`: its result, a `size_t`, `*out`, the bytes copied to `buf`, and the object. -/
def recv (m : MultiSocket) : ℕ × Code × Bytes × MultiSocket :=
  match m.tcpSockets[m.currSockfd]? with
  | none => (2 ^ 64 - 1, .unbufferedSocket, [], m)
  | some sock =>
    if !sock.packetReady then
      (0, .packetNotReady, [], m)
    else
      let (size, copied, sock) := sock.writePacket
      (size, .bufferWritten, copied, { m with tcpSockets := m.tcpSockets.insert m.currSockfd sock })

end MultiSocket

end NewsServer

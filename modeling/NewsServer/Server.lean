import NewsServer.MultiSocket
import NewsServer.TcpApp
import NewsServer.Lib.Runs

/-!
# The server

The handlers, and `main`'s loop as a machine that takes one step at a time: the call of
`get_next_fd` at the top of the loop, a round of `select`, the call after it, and the handling of
the descriptor they give. `Kernel` is what the system answers during a step. A `World` is the
server and the events so far.
-/

namespace NewsServer

open Memory

abbrev TopicMap := Std.TreeMap Bytes (Std.TreeMap Bytes UInt8)
abbrev ClientMap := Std.TreeMap Bytes Subscriber
abbrev IdMap := Std.TreeMap ℤ Bytes

structure Tables where
  topicMap : TopicMap
  clients : ClientMap
  idsMap : IdMap

/-- The branches of the body of `main`'s loop. -/
inductive Branch
  | stdin
  | udp
  | accept
  | closed
  | recv
  deriving DecidableEq, Repr

/-- Where `main` is in its loop. -/
inductive Pc
  | top
  | selecting
  | body (fd : ℤ)
  deriving DecidableEq, Repr

structure Server where
  multi : MultiSocket
  tables : Tables
  /-- The buffer of `main`. -/
  buffer : Bytes
  pc : Pc

/-- What the system answers during a step: a pass of `select`, the descriptor of a new connection
and what its object finds in memory, the line `fgets` reads, if it is not at the end of the input,
and a datagram, its sender, and what memory holds after the packet built of it. `::select`,
`setsockopt`, `recvfrom`, and `::send` on an open socket, succeed. -/
structure Kernel where
  pass : Pass
  newsockfd : ℤ
  uninit : Uninit
  line : Option Bytes
  datagram : Bytes
  saddr : SockaddrIn
  beyond : Bytes

/-! ## News -/

def sendPacketToSub (multi : MultiSocket) (sockfd : ℤ) (packet : SharedPacket) :
    Except Stop (List Event) :=
  match multi.send sockfd packet.data with
  | .error e => .error e
  | .ok (cnt, evs) => if cnt < 0 then .error (.die .sendToSub) else .ok evs

/-- The loop of `send_news_to_subscribers` over the entries of a topic. -/
def fanOut (multi : MultiSocket) (packet : SharedPacket) :
    List (Bytes × UInt8) → ClientMap → Except Stop (ClientMap × List Event)
  | [], clients => .ok (clients, [])
  | (id, sf) :: entries, clients =>
    let clients := clients.insertIfNew id default
    let sub := clients.getD id default
    if sub.state = .disconnected then
      if sf = 0 then
        fanOut multi packet entries clients
      else
        let sub := { sub with subsQueue := sub.subsQueue ++ [packet] }
        match fanOut multi packet entries (clients.insert id sub) with
        | .error e => .error e
        | .ok (clients, evs) => .ok (clients, .stored id packet :: evs)
    else
      match sendPacketToSub multi sub.sockfd packet with
      | .error e => .error e
      | .ok evs =>
        match fanOut multi packet entries clients with
        | .error e => .error e
        | .ok (clients, evs') => .ok (clients, evs ++ .forwarded id sub.sockfd packet :: evs')

def sendNewsToSubscribers (multi : MultiSocket) (tables : Tables) (packet : SharedPacket)
    (beyond : Bytes) : Except Stop (Tables × List Event) :=
  let topic := getNewsTopic packet.data beyond
  let topicMap := tables.topicMap.insertIfNew topic ∅
  match fanOut multi packet (topicMap.getD topic ∅).toList tables.clients with
  | .error e => .error e
  | .ok (clients, evs) => .ok ({ tables with topicMap, clients }, .news topic packet :: evs)

/-- `unload_news_queue`. The subscriber is the function's own copy; `id` is for the trace only. -/
def unloadNewsQueue (multi : MultiSocket) (id : Bytes) (sub : Subscriber) :
    Except Stop (List Event) :=
  unload sub.subsQueue
where
  unload : List SharedPacket → Except Stop (List Event)
    | [] => .ok []
    | packet :: queue =>
      match sendPacketToSub multi sub.sockfd packet with
      | .error e => .error e
      | .ok evs =>
        match unload queue with
        | .error e => .error e
        | .ok evs' => .ok (evs ++ .replayed id sub.sockfd packet :: evs')

/-! ## Commands -/

/-- `process_tcp_client_packet`: its result, and the maps. -/
def processTcpClientPacket (tables : Tables) (sockfd : ℤ) (buf : Bytes) (size : ℕ) :
    Except Stop (UInt8 × Tables) :=
  if size > cliPacketSize then
    .error (.die .tcpPacketTooBig)
  else
    let packet := buf.take size ++ [0]
    let type := packet.headD 0
    -- `auth->id` and `sub->topic` both start behind the type
    let field := cstr (packet.drop 1)
    if type = typeAuth then
      let clients :=
        if field ∈ tables.clients then tables.clients
        else tables.clients.insert field newSubscriber
      let sub := clients.getD field default
      if sub.state = .connected then
        .ok (typeAuthDuplicate, { tables with clients })
      else
        .ok (type, { tables with
          clients := clients.insert field { sub with state := .connected, sockfd }
          idsMap := tables.idsMap.insert sockfd field })
    else if type = typeSub ∨ type = typeSubSf then
      match tables.idsMap[sockfd]? with
      | none => .ok (typeNotAuth, tables)
      | some id =>
        let flag := if type = typeSub then 0 else 1
        let ids := (tables.topicMap.getD field ∅).insert id flag
        .ok (type, { tables with topicMap := tables.topicMap.insert field ids })
    else if type = typeUnsub then
      match tables.idsMap[sockfd]? with
      | none => .ok (typeNotAuth, tables)
      | some id =>
        let ids := (tables.topicMap.getD field ∅).erase id
        .ok (type, { tables with topicMap := tables.topicMap.insert field ids })
    else
      .ok (type, tables)

/-- What `handle_tcp_app_recv` does once a frame has been processed, `buffer` holding its `size`
bytes: the answer to an `AUTH`. -/
def answer (multi : MultiSocket) (tables : Tables) (sockfd : ℤ) (buffer : Bytes) (size : ℕ)
    (type : UInt8) : Except Stop (MultiSocket × List Event) :=
  if type = typeAuth then
    match multi.send sockfd (buffer.take size) with
    | .error e => .error e
    | .ok (_, evs) =>
      let id := tables.idsMap.getD sockfd []
      match unloadNewsQueue multi id (tables.clients.getD id default) with
      | .error e => .error e
      | .ok evs' => .ok (multi, evs ++ evs')
  else if type = typeAuthDuplicate then
    let (buffer, len) := changeTcpTypePacket typeAuthDuplicate buffer
    match multi.send sockfd (buffer.take len) with
    | .error e => .error e
    | .ok (_, evs) => .ok (multi.close sockfd, evs ++ [.closed sockfd])
  else
    .ok (multi, [])

/-! ## Standard output -/

/-- A line of the server's standard output. -/
inductive Line
  | newClient (id : Bytes) (addr : SockaddrIn)
  | alreadyConnected (id : Bytes)
  | disconnected (id : Bytes)
  deriving DecidableEq

def Line.bytes : Line → Bytes
  | .newClient id addr =>
    text "New client " ++ id ++ text " connected from " ++ inetNtoa (wordBytes addr.sinAddr)
      ++ text ":" ++ decimal (htons addr.sinPort).toNat ++ text ".\n"
  | .alreadyConnected id => text "Client " ++ id ++ text " already connected.\n"
  | .disconnected id => text "Client " ++ id ++ text " disconnected.\n"

/-- `print_auth_confirmation`, `addr` being what `getpeername` gives. -/
def printAuthConfirmation (addr : SockaddrIn) (buf : Bytes) : Line :=
  .newClient (cstr (buf.drop 1)) addr

def printAuthDecline (buf : Bytes) : Line :=
  .alreadyConnected (cstr (buf.drop 1))

/-- What is printed with the answer to a frame. -/
def answerPrints (addr : SockaddrIn) (buffer : Bytes) (type : UInt8) : Option Line :=
  if type = typeAuth then some (printAuthConfirmation addr buffer)
  else if type = typeAuthDuplicate then some (printAuthDecline buffer)
  else none

namespace Server

/-- What `handle_tcp_app_recv` has before it answers: the buffer, the size of the frame in it, the
result of `process_tcp_client_packet`, and the maps. Nothing, where no packet is ready. -/
def received (s : Server) (sockfd : ℤ) :
    Except Stop (MultiSocket × Option (Bytes × ℕ × UInt8 × Tables)) :=
  let (size, out, copied, multi) := s.multi.recv
  if copied.length > buflen then
    .error .overrun
  else if out = .bufferTooSmall then
    .error (.die .recv)
  else if out = .packetNotReady then
    .ok (multi, none)
  else
    let buffer := overwrite (List.replicate buflen 0) 0 copied
    match processTcpClientPacket s.tables sockfd buffer size with
    | .error e => .error e
    | .ok (type, tables) => .ok (multi, some (buffer, size, type, tables))

/-- `handle_tcp_app_recv` -/
def handleTcpAppRecv (s : Server) (sockfd : ℤ) : Except Stop (Server × List Event) :=
  match s.received sockfd with
  | .error e => .error e
  | .ok (multi, none) => .ok ({ s with multi }, [])
  | .ok (multi, some (buffer, size, type, tables)) =>
    match answer multi tables sockfd buffer size type with
    | .error e => .error e
    | .ok (multi, evs) =>
      let past := if size = cliPacketSize then [.pastPacket] else []
      .ok ({ s with multi, tables }, .frame sockfd (buffer.take size) type :: past ++ evs)

/-! ## The loop of `main` -/

/-- `STDIN_FILENO` -/
def stdinFileno : ℤ := 0

/-- `"exit"` -/
def exitText : Bytes := [101, 120, 105, 116]

/-- `fgets(buffer, sizeof(buffer) - 1, stdin)`, which reads `line` or is at the end of the input. -/
def fgets (buffer : Bytes) : Option Bytes → Bytes
  | none => buffer
  | some line => overwrite buffer 0 (line.take (buflen - 2) ++ [0])

/-- The handling of a datagram. `recvfrom` cuts it at the size of the buffer. -/
def handleUdp (s : Server) (k : Kernel) : Except Stop (Server × List Event) :=
  let got := k.datagram.take buflen
  let buffer := overwrite (List.replicate buflen 0) 0 got
  let packet := getSendableNews (buffer.take got.length) k.saddr
  match sendNewsToSubscribers s.multi s.tables packet k.beyond with
  | .error e => .error e
  | .ok (tables, evs) => .ok ({ s with tables, buffer }, evs)

/-- The handling of a closed connection. `ids_map[fd]` is the empty string where `fd` has no
entry. -/
def handleClosed (s : Server) (fd : ℤ) : Server × List Event :=
  let id := s.tables.idsMap.getD fd []
  let sub := { s.tables.clients.getD id default with state := .disconnected }
  ({ s with tables := { s.tables with
      clients := s.tables.clients.insert id sub
      idsMap := s.tables.idsMap.erase fd } }, [.disconnected fd])

/-- The branch the body of the loop takes, `fd` being what `get_next_fd` gave. -/
def branch (s : Server) (fd : ℤ) : Branch :=
  if fd = stdinFileno then .stdin
  else if s.multi.isUdp then .udp
  else if s.multi.isTcpConnection then .accept
  else if s.multi.hasClosed then .closed
  else .recv

/-- The body of the loop. -/
def loopBody (s : Server) (k : Kernel) (fd : ℤ) : Except Stop (Server × List Event) :=
  match s.branch fd with
  | .stdin =>
    let buffer := fgets s.buffer k.line
    if strncmpEq buffer exitText 4 then .error .exit else .ok ({ s with buffer }, [])
  | .udp => s.handleUdp k
  | .accept =>
    match s.multi.accept k.newsockfd k.uninit with
    | .error e => .error e
    | .ok (multi, evs) => .ok ({ s with multi }, evs)
  | .closed => .ok (s.handleClosed fd)
  | .recv => s.handleTcpAppRecv fd

/-- A step of `main`'s loop. -/
def step (s : Server) (k : Kernel) : Except Stop (Server × List Event) :=
  match s.pc with
  | .top =>
    let (fd, multi) := s.multi.getNextFd
    .ok ({ s with multi, pc := if fd < 0 then .selecting else .body fd }, [])
  | .selecting =>
    if s.multi.sockQueue = [] then
      let (multi, evs) := s.multi.selectRound k.pass
      .ok ({ s with multi }, evs)
    else
      let (fd, multi) := s.multi.getNextFd
      .ok ({ s with multi, pc := .body fd }, [])
  | .body fd =>
    match s.loopBody k fd with
    | .error e => .error e
    | .ok (s, evs) => .ok ({ s with pc := .top }, evs)

/-- The line a step prints, `addr` being what `getpeername` gives. -/
def prints (s : Server) (addr : SockaddrIn) : Option Line :=
  match s.pc with
  | .body fd =>
    match s.branch fd with
    | .closed => some (.disconnected (s.tables.idsMap.getD fd []))
    | .recv =>
      match s.received fd with
      | .ok (_, some (buffer, _, type, _)) => answerPrints addr buffer type
      | _ => none
    | _ => none
  | _ => none

/-- What `main` does behind its loop. -/
def finish (s : Server) : Server × List Event :=
  let (multi, evs) := s.multi.closeAll
  ({ s with multi }, evs)

/-- The server when its loop starts: the two sockets it has opened, and what its buffer happens to
hold. -/
def start (udp tcp : ℤ) (buffer : Bytes) : Server where
  multi := ((MultiSocket.new.enableUdp udp).enableTcpConnections tcp).addFd stdinFileno
  tables := ⟨∅, ∅, ∅⟩
  buffer := buffer
  pc := .top

/-- The descriptors the server has open. -/
def IsOpen (s : Server) (fd : ℤ) : Prop :=
  fd = stdinFileno ∨ fd = s.multi.sockfdUdp ∨ fd = s.multi.sockfdTcp ∨ fd ∈ s.multi.tcpSockets

instance (s : Server) (fd : ℤ) : Decidable (s.IsOpen fd) :=
  inferInstanceAs (Decidable (_ ∨ _ ∨ _ ∨ _))

end Server

/-- The server, and what it has shown so far. -/
structure World where
  server : Server
  trace : List Event

namespace World

def start (udp tcp : ℤ) (buffer : Bytes) : World where
  server := .start udp tcp buffer
  trace := []

def step (w : World) (k : Kernel) : Except Stop World :=
  match w.server.step k with
  | .error e => .error e
  | .ok (server, evs) => .ok ⟨server, w.trace ++ evs⟩

/-- The next world, where the server goes on. `accept` only gives descriptors that are not open. -/
def next (w : World) (k : Kernel) : Option World :=
  if 0 ≤ k.newsockfd ∧ ¬ w.server.IsOpen k.newsockfd then (w.step k).toOption else none

/-- The runs of a server. -/
abbrev Run (udp tcp : ℤ) (buffer : Bytes) (tr : List (World × Kernel)) (w : World) : Prop :=
  Runs.Run next (start udp tcp buffer) tr w

end World

end NewsServer

import NewsServer.Client
import NewsServer.Server

/-!
# The subscriber

`main` as a machine that takes one step at a time, like the server's: the wait for the reply to its
`AUTH`, a round of `select`, the calls of `get_next_fd`, and the body of the inner loop. A
`continue` leaves `sockfd` as it is, so the body runs again and waits for another line. A `Terminal`
is a subscriber and what it has shown so far.
-/

namespace NewsServer

open Memory
open Server (stdinFileno exitText)

/-- The calls a `DIE` of the subscriber describes. -/
inductive ClientDie
  | idLength
  | send
  | multiRecv
  deriving DecidableEq, Repr

/-- How `main` ends: with a `DIE`, its own or one below it, with the returns that follow the reply,
or behind its loop, at the command `exit` or at the end of the connection. A `std::length_error`
ends it too, and after a write outside `buffer`, a read through a null pointer or an `FD_SET` past
the `fd_set` nothing is known. -/
inductive Ending
  | stop (e : Stop)
  | die (d : ClientDie)
  | duplicate
  | authFailed
  | exit
  | closed
  | lengthError
  | undefined
  deriving DecidableEq, Repr

/-- What a subscriber shows: its system calls, the lines of news and the other texts on `std::cout`,
and the texts on `std::cerr`. -/
inductive Shown
  | call (e : Event)
  | news (line : Bytes)
  | out (text : Bytes)
  | err (text : Bytes)
  deriving DecidableEq

/-- Where `main` is: at the first `select`, at the `select` of its loop, at the `get_next_fd` that
ends the body of the inner loop, or in that body. -/
inductive ClientPc
  | reply
  | selecting
  | next
  | body (sockfd : ℤ)
  deriving DecidableEq, Repr

/-- The variables of `main` that hold anything until it sets them. -/
structure Locals where
  buffer : Bytes
  type : UInt8
  topic : Bytes
  news : SubscriberNews

structure Client extends Locals where
  multi : MultiSocket
  sockfdTcp : ℤ
  pc : ClientPc

/-- What the system answers during a step: a pass of `select`, the line `fgets` reads, if it is not
at the end of the input, and what memory holds behind `buffer`. `::select`, and `::send` on the open
connection, succeed. -/
structure ClientKernel where
  pass : Pass
  line : Option Bytes
  beyond : Bytes

/-- A `size_t` in an `int`. -/
def toInt (n : ℕ) : ℤ :=
  (BitVec.ofNat 32 n).toInt

/-- The line `main` prints of a packet. -/
def newsLine (news : SubscriberNews) : Bytes :=
  news.addr ++ text ":" ++ news.port ++ text " - " ++ cstr news.topic ++ text " - "
    ++ news.dataType ++ text " - " ++ news.value ++ text "\n"

namespace Client

/-- The subscriber when it waits for the reply: `sockfd` is the socket of its connection. -/
def start (id : Bytes) (sockfd : ℤ) (u : Uninit) (vars : Locals) :
    Except Ending (Client × List Shown) :=
  if id.length ≥ clientIdLen then
    .error (.die .idLength)
  else if sockfd ≥ fdSetsize then
    -- `FD_SET` in `connect`
    .error .undefined
  else
    let multi := MultiSocket.new.connect sockfd u
    let (buffer, bufLen) := generateTcpAuthPacket id vars.buffer
    match multi.send sockfd (buffer.take bufLen) with
    | .error e => .error (.stop e)
    | .ok (n, evs) =>
      if n < 0 then
        .error (.die .send)
      else
        .ok ({ vars with buffer, multi, sockfdTcp := sockfd, pc := .reply }, evs.map .call)

/-- What `main` does once its first `select` has returned. -/
def authenticate (c : Client) : Except Ending Client :=
  let (size, _, copied, multi) := c.multi.getNextFd.2.recv
  if copied.length > buflen then
    .error .undefined
  else if toInt size < 0 then
    .error (.die .multiRecv)
  else
    let buffer := overwrite c.buffer 0 copied
    let type := getTcpPacketType buffer (toInt size).toNat
    if type = typeAuthDuplicate then
      .error .duplicate
    else if type ≠ typeAuth then
      .error .authFailed
    else
      .ok { c with buffer, multi := multi.addFd stdinFileno, pc := .selecting }

/-- `memset(buffer, 0, MAX_COMMAND_SIZE)` and `fgets(buffer, MAX_COMMAND_SIZE - 1, stdin)`. -/
def readLine (buffer : Bytes) (line : Option Bytes) : Bytes :=
  let buffer := overwrite buffer 0 (List.replicate maxCommandSize 0)
  match line with
  | none => buffer
  | some line => overwrite buffer 0 (line.take (maxCommandSize - 2) ++ [0])

/-- What `main` prints once a command is sent. -/
def commandAnswer (type : UInt8) : List Shown :=
  if type = typeSub ∨ type = typeSubSf then
    [.out (text "Subscribed to topic.\n")]
  else if type = typeUnsub then
    [.out (text "Unsubscribed from topic.\n")]
  else
    []

/-- The handling of a line of input. -/
def handleStdin (c : Client) (line : Option Bytes) : Except Ending (Client × List Shown) :=
  let buffer := readLine c.buffer line
  let len := (cstr buffer).length
  if len = 0 then
    -- the NUL goes in front of `buffer`
    .error .undefined
  else
    let buffer := overwrite buffer (len - 1) [0]
    if (cstr buffer).length = 0 then
      .ok ({ c with buffer }, [])
    else if strncmpEq buffer exitText 4 then
      .error .exit
    else
      match parseSubscriptionCmd c.type c.topic buffer maxCommandSize with
      | none => .error .undefined
      | some (cmdStatus, type, topic) =>
        if cmdStatus ≠ 0 then
          .ok ({ c with buffer, type, topic }, [.err (text "Invalid command.\n")])
        else
          let (buffer, bufLen) := generateTcpSubPacket type topic buffer
          match c.multi.send c.sockfdTcp (buffer.take bufLen) with
          | .error e => .error (.stop e)
          | .ok (n, evs) =>
            if n < 0 then
              .error (.die .send)
            else
              .ok ({ c with buffer, type, topic, pc := .next }, evs.map .call ++ commandAnswer type)

/-- The handling of a packet. Neither `*out` nor the result of `recv` is looked at. -/
def handleNews (R : RealText) (c : Client) (beyond : Bytes) :
    Except Ending (Client × List Shown) :=
  let (size, _, copied, multi) := c.multi.recv
  if copied.length > buflen then
    .error .undefined
  else
    let buffer := overwrite c.buffer 0 copied
    match (parseSubscriberNews R (buffer ++ beyond) (UInt64.ofInt (toInt size)) c.news).1 with
    | none => .error .lengthError
    | some news => .ok ({ c with multi, buffer, news, pc := .next }, [.news (newsLine news)])

/-- The body of the inner loop. -/
def loopBody (R : RealText) (c : Client) (k : ClientKernel) (sockfd : ℤ) :
    Except Ending (Client × List Shown) :=
  if sockfd = stdinFileno then
    c.handleStdin k.line
  else if c.multi.hasClosed then
    .error .closed
  else
    c.handleNews R k.beyond

/-- `sockfd = multi.get_next_fd()` and the test of the inner loop. -/
def nextFd (c : Client) : Client :=
  let (sockfd, multi) := c.multi.getNextFd
  { c with multi, pc := if sockfd ≥ 0 then .body sockfd else .selecting }

/-- A round of `select`. -/
def round (c : Client) (p : Pass) : Client × List Shown :=
  let (multi, evs) := c.multi.selectRound p
  ({ c with multi }, evs.map .call)

/-- A step of `main`. -/
def step (R : RealText) (c : Client) (k : ClientKernel) : Except Ending (Client × List Shown) :=
  match c.pc with
  | .reply =>
    if c.multi.sockQueue = [] then
      .ok (c.round k.pass)
    else
      match c.authenticate with
      | .error e => .error e
      | .ok c => .ok (c, [])
  | .selecting =>
    if c.multi.sockQueue = [] then .ok (c.round k.pass) else .ok (c.nextFd, [])
  | .next => .ok (c.nextFd, [])
  | .body sockfd => c.loopBody R k sockfd

/-- What `main` does behind its loop. -/
def finish (c : Client) : Client × List Shown :=
  let (multi, evs) := c.multi.closeAll
  ({ c with multi }, evs.map .call)

end Client

/-- A subscriber, and what it has shown so far. -/
structure Terminal where
  client : Client
  shown : List Shown

namespace Terminal

def step (R : RealText) (t : Terminal) (k : ClientKernel) : Except Ending Terminal :=
  match t.client.step R k with
  | .error e => .error e
  | .ok (client, evs) => .ok ⟨client, t.shown ++ evs⟩

/-- The next terminal, where the subscriber goes on. -/
def next (R : RealText) (t : Terminal) (k : ClientKernel) : Option Terminal :=
  (t.step R k).toOption

/-- A subscriber that has sent its `AUTH`. Standard input is open, so the socket of its connection
has another descriptor. -/
def Started (t : Terminal) : Prop :=
  ∃ (id : Bytes) (sockfd : ℤ) (u : Uninit) (vars : Locals), 0 < sockfd ∧
    Client.start id sockfd u vars = .ok (t.client, t.shown)

/-- The runs of a subscriber. -/
abbrev Run (R : RealText) (t₀ : Terminal) (tr : List (Terminal × ClientKernel)) (t : Terminal) :
    Prop :=
  Runs.Run (next R) t₀ tr t

end Terminal

end NewsServer

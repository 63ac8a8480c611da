import NewsServer.Proofs.Answers
import NewsServer.Proofs.Stranded

/-!
# The server and its subscribers

Any number of subscribers and the server, in any order of their steps. A stream carries what was
sent in order, in chunks of any size, and its end comes when the other side has closed it and all
of it has come. Connections that are no subscriber's are not restricted.
-/

namespace NewsServer

open Memory

/-- What `::recv` can give, where `rx` has come of a stream `tx`: the next bytes, or, if the stream
is closed, its end. -/
def Arrives (rx tx : Bytes) (closed : Bool) (chunk : Bytes) : Prop :=
  if chunk = [] then closed = true ∧ rx = tx else rx ++ chunk <+: tx

instance (rx tx : Bytes) (closed : Bool) (chunk : Bytes) : Decidable (Arrives rx tx closed chunk) :=
  inferInstanceAs (Decidable (if chunk = [] then closed = true ∧ rx = tx else rx ++ chunk <+: tx))

theorem Arrives.isPrefix {rx tx chunk : Bytes} {closed : Bool} (h : Arrives rx tx closed chunk)
    (hrx : rx <+: tx) : rx ++ chunk <+: tx := by
  unfold Arrives at h
  split_ifs at h with hnil
  · rwa [hnil, List.append_nil]
  · exact h

/-- A subscriber that was started, and its connection. -/
structure Peer where
  id : Bytes
  terminal : Terminal
  /-- How it has ended. -/
  ending : Option Ending
  /-- The server's number of its connection, once that is accepted. -/
  conn : Option ℕ
  /-- What it has received. -/
  got : Bytes
  /-- What the server has received of it. -/
  heard : Bytes

namespace Peer

/-- What it has sent. -/
def said (p : Peer) : Bytes :=
  p.terminal.shown.flatMap fun
    | .call (.sent _ bytes) => bytes
    | _ => []

/-- What was sent to it. -/
def told (p : Peer) (w : World) : Bytes :=
  (p.conn.map fun c => (w.sends c).flatten).getD []

/-- The server has closed its connection. -/
def Closed (p : Peer) (w : World) : Prop :=
  ∃ c ∈ p.conn, w.fdOf c = none

instance (p : Peer) (w : World) : Decidable (p.Closed w) :=
  inferInstanceAs (Decidable (∃ c ∈ p.conn, w.fdOf c = none))

/-- What a step of the server reads of it. -/
def up (p : Peer) (w : World) (k : Kernel) : Option (Option Bytes) :=
  p.conn.bind fun c => (w.fdOf c).bind fun fd => w.reads k fd

/-- What its own step reads. -/
def down (p : Peer) (k : ClientKernel) : Option (Option Bytes) :=
  let c := p.terminal.client
  if c.Blocks ∧ c.multi.Visits k.pass c.sockfdTcp then
    some ((k.pass.got c.sockfdTcp).map (·.take tcpBufferSize))
  else
    none

/-- The server can read this of it. An error is possible only when it has ended. -/
def Uploads (p : Peer) (w : World) (k : Kernel) : Prop :=
  ∀ got ∈ p.up w k, (got = none → p.ending.isSome) ∧
    ∀ chunk ∈ got, Arrives p.heard p.said p.ending.isSome chunk

instance (p : Peer) (w : World) (k : Kernel) : Decidable (p.Uploads w k) :=
  inferInstanceAs (Decidable (∀ got ∈ p.up w k, _ ∧ _))

/-- It can read this. -/
def Downloads (p : Peer) (w : World) (k : ClientKernel) : Prop :=
  ∀ got ∈ p.down k, ∃ chunk ∈ got, Arrives p.got (p.told w) (p.Closed w) chunk

instance (p : Peer) (w : World) (k : ClientKernel) : Decidable (p.Downloads w k) :=
  inferInstanceAs (Decidable (∀ got ∈ p.down k, ∃ chunk ∈ got, _))

/-- After a step of the server. -/
def hear (p : Peer) (w : World) (k : Kernel) : Peer :=
  { p with heard := p.heard ++ readBytes (p.up w k) }

/-- After its own step. -/
def step (R : RealText) (p : Peer) (k : ClientKernel) : Peer :=
  let p' := { p with got := p.got ++ readBytes (p.down k) }
  match p.terminal.step R k with
  | .error e => { p' with ending := some e }
  | .ok terminal => { p' with terminal }

end Peer

/-- The server, and the subscribers that were started so far. -/
structure Net where
  world : World
  peers : List Peer

/-- A subscriber starts, the server takes a step, in which it may accept the connection of the
subscriber `i`, or a subscriber does. -/
inductive Move
  | start (id : Bytes) (sockfd : ℤ) (u : Uninit) (vars : Locals)
  | server (k : Kernel) (i : Option ℕ)
  | peer (i : ℕ) (k : ClientKernel)

namespace Net

def start (udp tcp : ℤ) (buffer : Bytes) : Net where
  world := .start udp tcp buffer
  peers := []

/-- The step can accept the connection of the subscriber `i`. -/
def Accepts (n : Net) (i : ℕ) : Prop :=
  (∃ fd, n.world.server.At fd .accept) ∧ ∃ p ∈ n.peers[i]?, p.conn = none

instance (n : Net) (i : ℕ) : Decidable (n.Accepts i) :=
  inferInstanceAs (Decidable ((∃ fd, n.world.server.At fd .accept) ∧ ∃ p ∈ n.peers[i]?, _))

/-- The subscribers after a step of the server that accepts the connection of `i`. -/
def accept (n : Net) (k : Kernel) (i : Option ℕ) : List Peer :=
  let peers := n.peers.map (·.hear n.world k)
  match i with
  | none => peers
  | some i => peers.modify i fun p => { p with conn := some n.world.registry.count }

def next (R : RealText) (n : Net) : Move → Option Net
  | .start id sockfd u vars =>
    if 0 < sockfd then
      match Client.start id sockfd u vars with
      | .error _ => none
      | .ok (client, shown) =>
        some { n with peers := n.peers ++ [⟨id, ⟨client, shown⟩, none, none, [], []⟩] }
    else
      none
  | .server k i =>
    if (∀ p ∈ n.peers, p.Uploads n.world k) ∧ ∀ j ∈ i, n.Accepts j then
      (World.next n.world k).map fun w => ⟨w, n.accept k i⟩
    else
      none
  | .peer i k =>
    match n.peers[i]? with
    | none => none
    | some p =>
      if p.ending = none ∧ p.Downloads n.world k then
        some { n with peers := n.peers.set i (p.step R k) }
      else
        none

/-- The runs of the system. -/
abbrev Run (R : RealText) (udp tcp : ℤ) (buffer : Bytes) (tr : List (Net × Move)) (n : Net) :
    Prop :=
  Runs.Run (next R) (start udp tcp buffer) tr n

end Net

end NewsServer

import NewsServer.Basic

/-!
# `BufferedTcpSocket`

The decoder of the framing protocol. `expected_size` holds the bytes of a header while
`size_read` is false and the bytes still missing of a packet after that. The `shared_ptr`s of
`current_buffer` and of the queued packets are indices into the arrays the socket has allocated,
so a packet in the queue shares its array with `current_buffer`.
-/

namespace NewsServer

open Memory

def maxPacketSize : ℕ := 65536

def tcpBufferSize : ℕ := 4096

/-- The results of the framing layer. Zero is `BUFFER_WRITTEN`. -/
inductive Code
  | bufferWritten
  | packetNotReady
  | bufferTooSmall
  | unbufferedSocket
  | packetTooBig
  | bufferRead
  | connectionClosed
  deriving DecidableEq, Repr

structure PackT where
  size : UInt32
  data : ℕ
  deriving DecidableEq, Repr

/-- What memory holds where nothing has been written: the two words of a new object, and each byte
of a new array. -/
structure Uninit where
  expectedSize : UInt32
  bufferSize : UInt32
  byte : UInt8
  deriving DecidableEq, Repr, Inhabited

structure BufferedTcpSocket where
  sockfd : ℤ
  currentBuffer : Option ℕ
  expectedSize : UInt32
  bufferSize : UInt32
  sizeRead : Bool
  readSizeIndex : UInt8
  packetQueue : List PackT
  /-- Every `new char[]` of this socket. -/
  arrays : List Bytes
  /-- What a new array is filled with. -/
  fill : UInt8
  deriving DecidableEq, Repr

namespace BufferedTcpSocket

def new (sockfd : ℤ) (u : Uninit) : BufferedTcpSocket where
  sockfd := sockfd
  currentBuffer := none
  expectedSize := u.expectedSize
  bufferSize := u.bufferSize
  sizeRead := false
  readSizeIndex := 0
  packetQueue := []
  arrays := []
  fill := u.byte

/-- The array a `shared_ptr` points to. -/
def array (s : BufferedTcpSocket) (a : ℕ) : Bytes :=
  s.arrays.getD a []

/-- `memcpy(current_buffer.get() + off, src, n)`. Through a null pointer nothing is written. -/
def copyToCurrent (s : BufferedTcpSocket) (off : ℕ) (src : Bytes) : BufferedTcpSocket :=
  match s.currentBuffer with
  | none => s
  | some a => { s with arrays := s.arrays.set a (overwrite (s.array a) off src) }

/-- How many bytes `read_size` takes of `size` bytes: `sizeof(expected_size) - read_size_index` is
a `size_t`. -/
def headerCopy (s : BufferedTcpSocket) (size : ℕ) : ℕ :=
  let room : UInt64 := 4 - s.readSizeIndex.toUInt64
  if room.toNat > size then size else room.toNat

/-- `read_size`: the result, the object, and the bytes left of `buf`. -/
def readSize (s : BufferedTcpSocket) (buf : Bytes) : Code × BufferedTcpSocket × Bytes :=
  let toCopy := s.headerCopy buf.length
  let s := { s with
    expectedSize := word (overwrite (wordBytes s.expectedSize) s.readSizeIndex.toNat
      (buf.take toCopy))
    readSizeIndex := s.readSizeIndex + UInt8.ofNat toCopy }
  let buf := buf.drop toCopy
  if s.readSizeIndex = 4 then
    let s := { s with
      bufferSize := ntohl s.expectedSize
      expectedSize := ntohl s.expectedSize
      sizeRead := true }
    if s.bufferSize.toNat > maxPacketSize then
      (.packetTooBig, s, buf)
    else
      (.packetNotReady, { s with
        currentBuffer := some s.arrays.length
        arrays := s.arrays ++ [List.replicate s.bufferSize.toNat s.fill] }, buf)
  else
    (.packetNotReady, s, buf)

/-- The part of `read_current_packet` that copies the bytes of a packet. -/
def readPayload (s : BufferedTcpSocket) (buf : Bytes) : Code × BufferedTcpSocket × Bytes :=
  let toCopy := if buf.length > s.expectedSize.toNat then s.expectedSize.toNat else buf.length
  let s := s.copyToCurrent (s.bufferSize - s.expectedSize).toNat (buf.take toCopy)
  let s := { s with expectedSize := s.expectedSize - UInt32.ofNat toCopy }
  let buf := buf.drop toCopy
  if s.expectedSize = 0 then
    (.bufferWritten, { s with
      packetQueue := s.packetQueue ++ [⟨s.bufferSize, s.currentBuffer.getD 0⟩]
      sizeRead := false
      readSizeIndex := 0 }, buf)
  else
    (.packetNotReady, s, buf)

/-- `read_current_packet` -/
def readCurrentPacket (s : BufferedTcpSocket) (buf : Bytes) : Code × BufferedTcpSocket × Bytes :=
  if s.sizeRead then
    s.readPayload buf
  else
    let (ret, s, buf) := s.readSize buf
    if ret = .packetTooBig then
      (.packetTooBig, s, buf)
    else if buf.length = 0 then
      (.packetNotReady, s, buf)
    else
      s.readPayload buf

def reset (s : BufferedTcpSocket) : BufferedTcpSocket :=
  { s with
    currentBuffer := if s.sizeRead then none else s.currentBuffer
    readSizeIndex := 0
    sizeRead := false
    packetQueue := [] }

/-- The loop of `read`, cut off after `fuel` rounds. -/
def readLoop : ℕ → BufferedTcpSocket → Bytes → Option (Code × BufferedTcpSocket)
  | 0, _, _ => none
  | fuel + 1, s, buf =>
    if buf.length = 0 then
      some (.bufferRead, s)
    else
      let (ret, s, buf) := s.readCurrentPacket buf
      if ret = .packetTooBig then
        some (.packetTooBig, s.reset)
      else
        readLoop fuel s buf

/-- What each round of `read` makes smaller: a byte is taken, or a header that was already complete
is put behind. -/
def rounds (s : BufferedTcpSocket) (buf : Bytes) : ℕ :=
  2 * buf.length + if s.sizeRead ∨ s.readSizeIndex = 4 then 1 else 0

/-! ## `read` ends -/

section Termination

variable (s : BufferedTcpSocket) (buf : Bytes)

@[simp] theorem copyToCurrent_sizeRead (off : ℕ) (src : Bytes) :
    (s.copyToCurrent off src).sizeRead = s.sizeRead := by
  unfold copyToCurrent
  split <;> rfl

@[simp] theorem copyToCurrent_expectedSize (off : ℕ) (src : Bytes) :
    (s.copyToCurrent off src).expectedSize = s.expectedSize := by
  unfold copyToCurrent
  split <;> rfl

theorem headerCopy_pos {s : BufferedTcpSocket} (hs : s.readSizeIndex ≠ 4) {size : ℕ}
    (h : 0 < size) : 0 < s.headerCopy size := by
  have hroom : (4 - s.readSizeIndex.toUInt64 : UInt64) ≠ 0 := by
    intro h0
    apply hs
    have h4 : s.readSizeIndex.toUInt64 = 4 := by grind
    apply UInt8.toNat_inj.mp
    simpa using congrArg UInt64.toNat h4
  have hpos : (4 - s.readSizeIndex.toUInt64 : UInt64).toNat ≠ 0 := fun h0 =>
    hroom (UInt64.toNat_inj.mp (by simpa using h0))
  unfold headerCopy
  dsimp only
  split_ifs <;> omega

theorem rounds_readPayload {buf : Bytes} (h : 0 < buf.length) :
    (s.readPayload buf).2.1.rounds (s.readPayload buf).2.2 < 2 * buf.length + 1 := by
  unfold readPayload
  dsimp only
  split_ifs with h1 h2 h2
  · simp only [rounds, List.length_drop]
    split_ifs <;> simp at *
  · simp at h2
  · simp only [rounds, List.length_drop]
    split_ifs <;> simp at *
  · simp only [rounds, List.length_drop]
    split_ifs <;> omega

theorem readSize_rest : (s.readSize buf).2.2 = buf.drop (s.headerCopy buf.length) := by
  unfold readSize
  dsimp only
  split_ifs <;> rfl

theorem length_readSize : (s.readSize buf).2.2.length = buf.length - s.headerCopy buf.length := by
  rw [readSize_rest, List.length_drop]

theorem rounds_readCurrentPacket {s : BufferedTcpSocket} {buf : Bytes} (h : buf.length ≠ 0)
    (hret : (s.readCurrentPacket buf).1 ≠ .packetTooBig) :
    (s.readCurrentPacket buf).2.1.rounds (s.readCurrentPacket buf).2.2 < s.rounds buf := by
  have hlen := length_readSize s buf
  rcases hx : s.readSize buf with ⟨ret, s₁, buf₁⟩
  rw [hx] at hlen
  simp only [readCurrentPacket, hx] at hlen hret ⊢
  split_ifs at hret ⊢ with hr ht h0
  · have := rounds_readPayload s (Nat.pos_of_ne_zero h)
    simpa [rounds, hr] using this
  · exact absurd rfl hret
  · simp only [rounds, h0]
    split_ifs <;> omega
  · have hp := rounds_readPayload s₁ (Nat.pos_of_ne_zero h0)
    by_cases h4 : s.readSizeIndex = 4
    · have : s.rounds buf = 2 * buf.length + 1 := by simp [rounds, h4]
      omega
    · have hc := headerCopy_pos h4 (Nat.pos_of_ne_zero h)
      have : 2 * buf.length ≤ s.rounds buf := by simp [rounds]
      omega

theorem readLoop_isSome : ∀ (fuel : ℕ) (s : BufferedTcpSocket) (buf : Bytes),
    s.rounds buf < fuel → (readLoop fuel s buf).isSome
  | 0, s, buf, h => absurd h (Nat.not_lt_zero _)
  | fuel + 1, s, buf, h => by
    simp only [readLoop]
    split_ifs with h0 ht
    · rfl
    · rfl
    · exact readLoop_isSome fuel _ _
        ((rounds_readCurrentPacket h0 ht).trans_le (Nat.le_of_lt_succ h))

end Termination

def read (s : BufferedTcpSocket) (buf : Bytes) : Code × BufferedTcpSocket :=
  (readLoop (s.rounds buf + 1) s buf).get (readLoop_isSome _ s buf (Nat.lt_succ_self _))

def packetReady (s : BufferedTcpSocket) : Bool :=
  !s.packetQueue.isEmpty

/-- `write_packet`: the result, the bytes copied to `buf`, and the object. -/
def writePacket (s : BufferedTcpSocket) : ℕ × Bytes × BufferedTcpSocket :=
  match s.packetQueue with
  | [] => (0, [], s)
  | p :: q =>
    (p.size.toNat, (s.array p.data).take p.size.toNat, { s with packetQueue := q })

/-- `send`: what goes to `::send`, which takes all of it. -/
def send (buf : Bytes) : Except Stop Bytes :=
  if buf.length + 4 > tcpBufferSize then
    .error (.die .sendBuffered)
  else
    .ok (wordBytes (ntohl (UInt32.ofNat buf.length)) ++ buf)

/-- `recv`, with what `::recv` gave: nothing for an error, no bytes for a closed connection. The
result, `*out`, and the object. -/
def recv (s : BufferedTcpSocket) (got : Option Bytes) : ℤ × Code × BufferedTcpSocket :=
  match got.map (·.take tcpBufferSize) with
  | none => (-1, .bufferWritten, s)
  | some [] => (0, .connectionClosed, s.reset)
  | some buffer =>
    let (ret, s) := s.read buffer
    if ret = .packetTooBig then
      (0, .packetTooBig, s)
    else
      (buffer.length, .bufferWritten, s)

end BufferedTcpSocket

end NewsServer

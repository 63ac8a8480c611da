import NewsServer.BufferedTcpSocket

/-!
# The copies of `read`

`read_size`, `read_current_packet` and a round of the loop of `read` once more, on a machine that
stops at a `memcpy` that leaves the array it writes to or the bytes it reads. A copy into
`current_buffer` also stops where that is null or its array does not exist.
-/

namespace NewsServer

open Memory

namespace BufferedTcpSocket

/-- `memcpy(current_buffer.get() + off, src, n)` -/
def copyToCurrent? (s : BufferedTcpSocket) (off : ℕ) (src : Bytes) (n : ℕ) :
    Option BufferedTcpSocket := do
  let a ← s.currentBuffer
  let dst ← s.arrays[a]?
  let dst ← memcpy? dst off src n
  return { s with arrays := s.arrays.set a dst }

/-- `read_size`. The header is the four bytes of `expected_size`. -/
def readSize? (s : BufferedTcpSocket) (buf : Bytes) :
    Option (Code × BufferedTcpSocket × Bytes) := do
  let toCopy := s.headerCopy buf.length
  let header ← memcpy? (wordBytes s.expectedSize) s.readSizeIndex.toNat buf toCopy
  let s := { s with
    expectedSize := word header
    readSizeIndex := s.readSizeIndex + UInt8.ofNat toCopy }
  let buf := buf.drop toCopy
  if s.readSizeIndex = 4 then
    let s := { s with
      bufferSize := ntohl s.expectedSize
      expectedSize := ntohl s.expectedSize
      sizeRead := true }
    if s.bufferSize.toNat > maxPacketSize then
      return (.packetTooBig, s, buf)
    else
      return (.packetNotReady, { s with
        currentBuffer := some s.arrays.length
        arrays := s.arrays ++ [List.replicate s.bufferSize.toNat s.fill] }, buf)
  else
    return (.packetNotReady, s, buf)

/-- The part of `read_current_packet` that copies the bytes of a packet. -/
def readPayload? (s : BufferedTcpSocket) (buf : Bytes) :
    Option (Code × BufferedTcpSocket × Bytes) := do
  let toCopy := if buf.length > s.expectedSize.toNat then s.expectedSize.toNat else buf.length
  let s ← s.copyToCurrent? (s.bufferSize - s.expectedSize).toNat buf toCopy
  let s := { s with expectedSize := s.expectedSize - UInt32.ofNat toCopy }
  let buf := buf.drop toCopy
  if s.expectedSize = 0 then
    return (.bufferWritten, { s with
      packetQueue := s.packetQueue ++ [⟨s.bufferSize, s.currentBuffer.getD 0⟩]
      sizeRead := false
      readSizeIndex := 0 }, buf)
  else
    return (.packetNotReady, s, buf)

/-- `read_current_packet` -/
def readCurrentPacket? (s : BufferedTcpSocket) (buf : Bytes) :
    Option (Code × BufferedTcpSocket × Bytes) :=
  if s.sizeRead then
    s.readPayload? buf
  else do
    let (ret, s, buf) ← s.readSize? buf
    if ret = .packetTooBig then
      return (.packetTooBig, s, buf)
    else if buf.length = 0 then
      return (.packetNotReady, s, buf)
    else
      s.readPayload? buf

/-- A round of the loop of `read`: the socket and what is left of the chunk, for the next round or,
with the result, for the caller. -/
def readRound? (x : BufferedTcpSocket × Bytes) :
    Option ((BufferedTcpSocket × Bytes) ⊕ (Code × BufferedTcpSocket × Bytes)) :=
  let (s, buf) := x
  if buf.length = 0 then
    return .inr (.bufferRead, s, buf)
  else do
    let (ret, s, buf) ← s.readCurrentPacket? buf
    if ret = .packetTooBig then
      return .inr (.packetTooBig, s.reset, buf)
    else
      return .inl (s, buf)

end BufferedTcpSocket

end NewsServer

import NewsServer.Basic

/-!
# Subscribers and news packets

A news packet is the datagram behind the address it came from. Both hosts are little-endian.
-/

namespace NewsServer

open Memory

def topicLen : ℕ := 50

/-- `CLI_DISCONNECTED` is zero, what a new entry of a map starts as. -/
inductive CliState
  | disconnected
  | connected
  deriving DecidableEq, Repr

structure Subscriber where
  sockfd : ℤ
  state : CliState
  subsQueue : List SharedPacket
  deriving DecidableEq

/-- The subscriber `operator[]` puts where there was none. -/
instance : Inhabited Subscriber where
  default := ⟨0, .disconnected, []⟩

def newSubscriber : Subscriber where
  sockfd := -1
  state := .disconnected
  subsQueue := []

/-- The fields of a `sockaddr_in` that are read, each as the host's integer. -/
structure SockaddrIn where
  sinAddr : UInt32
  sinPort : UInt16
  deriving DecidableEq, Repr, Inhabited

/-- `get_sendable_news` of the bytes read into its buffer. -/
def getSendableNews (buf : Bytes) (saddr : SockaddrIn) : SharedPacket where
  size := 4 + 2 + buf.length
  data := wordBytes saddr.sinAddr ++ halfBytes (htons saddr.sinPort) ++ buf
  fits := by simp only [List.length_append, length_wordBytes, length_halfBytes]

/-- `get_news_topic`. The string ends at a NUL, wherever one is: `beyond` is what memory holds
after the packet. -/
def getNewsTopic (buf beyond : Bytes) : Bytes :=
  cstr (buf.drop (4 + 2) ++ beyond)

/-! ## The subscriber's side -/

def dataTypeInt : UInt8 := 0
def dataTypeShortReal : UInt8 := 1
def dataTypeFloat : UInt8 := 2
def dataTypeString : UInt8 := 3

/-- A string literal. -/
def text (s : String) : Bytes :=
  s.toList.map fun c => UInt8.ofNat c.toNat

/-- `std::to_string` -/
def decimal (v : ℤ) : Bytes :=
  text (toString v)

/-- `inet_ntoa` of the `in_addr` whose memory is `addr`. -/
def inetNtoa (addr : Bytes) : Bytes :=
  (text ".").intercalate (addr.map fun b => decimal b.toNat)

/-- What a `std::ostringstream` makes of real numbers: of a number of hundredths, with two digits
behind the point, and of a number with a sign and an exponent of ten, with a precision of ten. -/
structure RealText where
  shortReal : UInt16 → Bytes
  float : UInt8 → UInt32 → UInt8 → Bytes

structure SubscriberNews where
  addr : Bytes
  port : Bytes
  topic : Bytes
  dataType : Bytes
  value : Bytes
  deriving DecidableEq, Repr, Inhabited

/-- What `parse_subscriber_news` does with its arguments: it reads `len` bytes from the byte `off`
on, or takes `n` off `size`. -/
inductive Access
  | read (off len : ℕ)
  | shrink (size n : UInt64)
  deriving DecidableEq, Repr

/-- The part of `parse_subscriber_news` before its `switch`: `*news`, the data type, and `size`. -/
def parseHeader (mem : Bytes) (size : UInt64) (news : SubscriberNews) :
    SubscriberNews × UInt8 × UInt64 × List Access :=
  let topicSize := UInt64.ofNat topicLen
  ({ news with
      addr := inetNtoa (mem.take 4)
      port := decimal (half ((mem.drop 4).take 2)).toNat
      topic := (mem.drop (4 + 2)).take topicLen ++ [0] },
    (mem.drop (4 + 2 + topicLen)).headD 0,
    size - 4 - 2 - topicSize - 1,
    [.read 0 4, .shrink size 4, .read 4 2, .shrink (size - 4) 2, .read (4 + 2) topicLen,
      .shrink (size - 4 - 2) topicSize, .read (4 + 2 + topicLen) 1,
      .shrink (size - 4 - 2 - topicSize) 1])

/-- `parse_subscriber_news`, `mem` being the memory at `buf`: `*news`, unless the constructor of
`std::string` throws, and what it does with `buf` and `size`. -/
def parseSubscriberNews (R : RealText) (mem : Bytes) (size : UInt64) (news : SubscriberNews) :
    Option SubscriberNews × List Access :=
  let (news, dataType, size, accesses) := parseHeader mem size news
  let off := 4 + 2 + topicLen + 1
  let buf := mem.drop off
  if dataType = dataTypeInt then
    let sign : ℤ := if buf.headD 0 ≠ 0 then -1 else 1
    let val : ℤ := (ntohl (word ((buf.drop 1).take 4))).toNat
    (some { news with dataType := text "INT", value := decimal (val * sign) },
      accesses ++ [.read off 1, .read (off + 1) 4])
  else if dataType = dataTypeShortReal then
    (some { news with
      dataType := text "SHORT_REAL"
      value := R.shortReal (htons (half (buf.take 2))) }, accesses ++ [.read off 2])
  else if dataType = dataTypeFloat then
    (some { news with
      dataType := text "FLOAT"
      value := R.float (buf.headD 0) (ntohl (word ((buf.drop 1).take 4))) ((buf.drop 5).headD 0) },
      accesses ++ [.read off 1, .read (off + 1) 4, .read (off + 5) 1])
  else if dataType = dataTypeString then
    -- more than `max_size()` is a `std::length_error`
    if size ≥ 2 ^ 63 then
      (none, accesses)
    else
      (some { news with dataType := text "STRING", value := buf.take size.toNat },
        accesses ++ [.read off size.toNat])
  else
    (some news, accesses)

/-- The bytes `get_news_topic` reads: the string and its NUL. -/
def newsTopicReads (buf beyond : Bytes) : ℕ × ℕ :=
  (4 + 2, (getNewsTopic buf beyond).length + 1)

end NewsServer

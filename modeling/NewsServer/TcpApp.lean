import NewsServer.Subscriber

/-!
# Command packets

A type byte and 64 bytes of data, which start with an id or a topic.
-/

namespace NewsServer

open Memory

def cliPacketDataSize : ℕ := 64
def clientIdLen : ℕ := 11

def typeAuth : UInt8 := 1
def typeSub : UInt8 := 2
def typeSubSf : UInt8 := 3
def typeUnsub : UInt8 := 4
def typeAuthDuplicate : UInt8 := 5
def typeNotAuth : UInt8 := 6
def typeInvalid : UInt8 := 7

/-- `sizeof(cli_packet)` -/
def cliPacketSize : ℕ := 1 + cliPacketDataSize

/-- `generate_tcp_auth_packet`: the buffer, and `*len`. -/
def generateTcpAuthPacket (id buf : Bytes) : Bytes × ℕ :=
  (overwrite buf 0 (typeAuth :: strncpy clientIdLen id), 1 + clientIdLen)

/-- `change_tcp_type_packet`: the buffer, and `*len`. Its parameter `type` is not read. -/
def changeTcpTypePacket (_type : UInt8) (buf : Bytes) : Bytes × ℕ :=
  (overwrite buf 0 [typeAuthDuplicate], 1)

/-- `generate_tcp_sub_packet`: the buffer, and `*len`. -/
def generateTcpSubPacket (type : UInt8) (topic buf : Bytes) : Bytes × ℕ :=
  let field := strncpy topicLen topic
  (overwrite buf 0 (type :: field), 1 + strnlen topicLen field)

/-- `get_tcp_packet_type` -/
def getTcpPacketType (buf : Bytes) (len : ℕ) : UInt8 :=
  if len < 1 then typeInvalid else buf.headD 0

end NewsServer

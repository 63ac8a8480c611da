import NewsServer.TcpApp

/-!
# The subscriber's commands
-/

namespace NewsServer

open Memory

def unknownCommand : ℤ := 1
def maxCommandSize : ℕ := 256

/-- `"subscribe"` -/
def subscribeText : Bytes := [115, 117, 98, 115, 99, 114, 105, 98, 101]
/-- `"unsubscribe"` -/
def unsubscribeText : Bytes := [117, 110] ++ subscribeText
/-- `" \n"` -/
def blanks : Bytes := [32, 10]

/-- The first word of a command, which decides its type. -/
def commandType (p : Bytes) : Option UInt8 :=
  if strncmpEq p subscribeText 9 then some typeSub
  else if strncmpEq p unsubscribeText 11 then some typeUnsub
  else none

/-- `parse_subscription_cmd`: its result, `*type` and `topic`. Nothing where a line has no token, so
that `strncmp` is handed a null pointer. -/
def parseSubscriptionCmd (type : UInt8) (topic buf : Bytes) (size : ℕ) :
    Option (ℤ × UInt8 × Bytes) :=
  let str := strncpy size buf
  match strtok blanks (cstr str) with
  | none => none
  | some (p, rest) =>
    match commandType p with
    | none => some (unknownCommand, type, topic)
    | some type =>
      match strtok blanks rest with
      | none => some (unknownCommand, type, topic)
      | some (p, rest) =>
        let topic := strncpy topicLen p
        if type = typeUnsub then
          some (0, type, topic)
        else
          match strtok blanks rest with
          | none => some (unknownCommand, type, topic)
          | some (p, _) => some (0, if p.headD 0 = 49 then typeSubSf else type, topic)

/-- The frame the stdin branch of `main` sends for the command in `buffer`, where it sends one. -/
def commandFrame (type : UInt8) (topic buffer : Bytes) : Option Bytes :=
  match parseSubscriptionCmd type topic buffer maxCommandSize with
  | none => none
  | some (status, type, topic) =>
    if status ≠ 0 then
      none
    else
      let (buffer, len) := generateTcpSubPacket type topic buffer
      some (buffer.take len)

end NewsServer

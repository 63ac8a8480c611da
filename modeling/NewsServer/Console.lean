import NewsServer.Lib.Lines
import NewsServer.SubscriberLoop

/-!
# The subscriber's standard input

A `Console` is a subscriber at the end of a pipe. A stream comes into the pipe in pieces, until its
other end is closed. `::select` knows what is in the pipe; `fgets` moves all of that to stdio's
buffer, takes a line, and leaves the rest there.
-/

namespace NewsServer

open Memory
open Server (stdinFileno)

/-- What happens to a console: bytes come in, the stream ends, or the subscriber takes a step. -/
inductive ConsoleInput
  | piece (n : ℕ)
  | hangUp
  | step (k : ClientKernel)

structure Console where
  terminal : Terminal
  /-- What has still to come of the stream. -/
  coming : Bytes
  pipe : Bytes
  eof : Bool
  /-- stdio's buffer. -/
  stdio : Bytes
  /-- What `fgets` has returned so far. -/
  read : Bytes
  /-- The strings the stdin branch has got, where there is a last byte to strip. -/
  commands : List (Option Bytes)
  /-- `fgets` has returned `NULL`. -/
  sawEof : Bool
  ending : Option Ending

namespace Console

def start (terminal : Terminal) (stream : Bytes) : Console where
  terminal := terminal
  coming := stream
  pipe := []
  eof := false
  stdio := []
  read := []
  commands := []
  sawEof := false
  ending := none

/-- The string that is in `buffer` when the stdin branch has read `line` and stripped its last byte;
nothing if `strlen(buffer) - 1` is negative. -/
def command (buffer : Bytes) (line : Option Bytes) : Option Bytes :=
  let buffer := Client.readLine buffer line
  let len := (cstr buffer).length
  if len = 0 then none else some (cstr (overwrite buffer (len - 1) [0]))

/-- `fgets(buffer, MAX_COMMAND_SIZE - 1, stdin)`: the line, and what it leaves in stdio's buffer. -/
def fgets (v : Console) : Option (Option Bytes × Bytes) :=
  Lines.fgets (maxCommandSize - 2) v.eof (v.stdio ++ v.pipe)

/-- A step of `main`. -/
def run (R : RealText) (v : Console) (k : ClientKernel) : Console :=
  match v.terminal.step R k with
  | .error e => { v with ending := some e }
  | .ok terminal => { v with terminal }

/-- The subscriber's loop blocks in `::select`, unless a descriptor is ready. -/
def Selects (v : Console) : Prop :=
  (v.terminal.client.pc = .reply ∨ v.terminal.client.pc = .selecting) ∧
    v.terminal.client.multi.sockQueue = []

instance (v : Console) : Decidable v.Selects :=
  inferInstanceAs (Decidable (_ ∧ _))

/-- There is something to read on standard input, be it the end of the stream. -/
def Readable (v : Console) : Prop :=
  v.pipe ≠ [] ∨ v.eof = true

instance (v : Console) : Decidable v.Readable :=
  inferInstanceAs (Decidable (_ ∨ _))

/-- The console after an input. `fgets` waits while there is neither a line nor the end. -/
def next (R : RealText) (v : Console) : ConsoleInput → Option Console
  | .piece n =>
    some { v with pipe := v.pipe ++ v.coming.take n, coming := v.coming.drop n }
  | .hangUp => if v.coming = [] then some { v with eof := true } else none
  | .step k =>
    if v.ending ≠ none then
      none
    else if v.terminal.client.pc = .body stdinFileno then
      match v.fgets with
      | none => some { v with stdio := v.stdio ++ v.pipe, pipe := [] }
      | some (line, rest) =>
        let v := { v with
          pipe := []
          stdio := rest
          read := v.read ++ line.getD []
          commands := v.commands ++ [command v.terminal.client.buffer line]
          sawEof := v.sawEof || line.isNone }
        some (v.run R { k with line })
    else if v.Selects ∧ ¬ (stdinFileno ∈ k.pass.ready ↔ v.Readable) then
      none
    else
      some (v.run R k)

/-- The runs of a subscriber whose standard input is `stream`. -/
abbrev Run (R : RealText) (terminal : Terminal) (stream : Bytes)
    (tr : List (Console × ConsoleInput)) (v : Console) : Prop :=
  Runs.Run (next R) (start terminal stream) tr v

end Console

end NewsServer

import SceneReplay.Command

/-!
# Recorded streams

A stream is a recording: commands under a name, in the order in which they came.
While it is *open* it grows at its end; once it is *closed* it is only ever
replayed (`SceneReplay.Stream.append` refuses).

A registry keeps streams in the order of their definition. Names may come again:
looking a name up gives the *first* stream that has it
(`SceneReplay.Registry.find?`), so a later definition is shadowed for good.
-/

namespace SceneReplay

/-- A named recording. -/
structure Stream where
  /-- The name under which it is found. -/
  name : Value
  /-- What was recorded, in order. -/
  commands : List Command
  /-- Whether the recording has ended. -/
  closed : Bool

namespace Stream

/-- A new recording. -/
def opened (name : Value) : Stream := ⟨name, [], false⟩

/-- Records one more command, unless the recording has ended. -/
def append (s : Stream) (c : Command) : Except Fault Stream :=
  if s.closed then .error (.streamClosed s.name)
  else .ok { s with commands := s.commands ++ [c] }

/-- Ends the recording. -/
def close (s : Stream) : Stream := { s with closed := true }

/-- How many commands were recorded. -/
def length (s : Stream) : Nat := s.commands.length

/-- A stream as it is shown to developers. -/
def describe (s : Stream) : String :=
  "CachedStream(" ++ s.name.literal ++ ", " ++ toString s.length ++ " commands, "
    ++ (if s.closed then "closed" else "open") ++ ")"

end Stream

/-- Streams in the order of their definition. -/
structure Registry where
  /-- The streams. -/
  streams : List Stream

namespace Registry

/-- A registry without streams. -/
def empty : Registry := ⟨[]⟩

/-- Starts a new stream behind all others. -/
def create (r : Registry) (name : Value) : Registry := ⟨r.streams ++ [Stream.opened name]⟩

/-- The first stream of the given name. -/
def find? (r : Registry) (name : Value) : Option Stream :=
  r.streams.find? fun s => s.name.same name

/-- The position of the first stream of the given name. -/
def position? (r : Registry) (name : Value) : Option Nat :=
  r.streams.findIdx? fun s => s.name.same name

/-- The stream at a position. -/
def get? (r : Registry) (i : Nat) : Option Stream := r.streams[i]?

/-- Puts a stream in the place of the one at a position. -/
def set (r : Registry) (i : Nat) (s : Stream) : Registry := ⟨r.streams.set i s⟩

/-- Records one more command in the stream at a position. -/
def append (r : Registry) (i : Nat) (c : Command) : Except Fault Registry :=
  match r.get? i with
  | none => .ok r
  | some s => (s.append c).map (r.set i)

/-- Ends the stream at a position. -/
def close (r : Registry) (i : Nat) : Registry :=
  match r.get? i with
  | none => r
  | some s => r.set i s.close

/-- The names, in the order of definition. -/
def names (r : Registry) : List Value := r.streams.map Stream.name

end Registry

end SceneReplay

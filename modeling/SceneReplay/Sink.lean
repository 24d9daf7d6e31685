import SceneReplay.Chain
import SceneReplay.Rib.Writer

/-!
# Sinks

Where the commands of a chain end: a collector keeps them, a writer writes them
into a scene file, and a bare renderer refuses each one.
-/

namespace SceneReplay

/-- Keeps every command that it receives. -/
structure Collector where
  /-- The commands, in the order of their arrival. -/
  commands : Array Command

namespace Collector

/-- A collector that received nothing. -/
def empty : Collector := ⟨#[]⟩

/-- The commands as a list. -/
def toList (s : Collector) : List Command := s.commands.toList

/-- Receives a command. -/
def add (s : Collector) (c : Command) : Collector := ⟨s.commands.push c⟩

@[simp] theorem toList_empty : empty.toList = [] := rfl

@[simp] theorem toList_add (s : Collector) (c : Command) :
    (s.add c).toList = s.toList ++ [c] := by
  simp [toList, add]

end Collector

instance : Sink Collector where
  accept s c := (s.add c, none)

instance : Sink Rib.Writer where
  accept w c := w.write c

/-- Any of the sinks. -/
inductive Endpoint where
  /-- A collector. -/
  | collector (s : Collector)
  /-- A writer. -/
  | writer (w : Rib.Writer)
  /-- A renderer that implements no procedure. -/
  | bare

instance : Sink Endpoint where
  accept
    | .collector s, c => (.collector (s.add c), none)
    | .writer w, c =>
      let (w, fault?) := w.write c
      (.writer w, fault?)
    | .bare, _ => (.bare, some .notImplemented)

end SceneReplay

import SceneReplay.Rib.Session
import SceneReplay.Sink

/-!
# Expanding a scene

Expanding a scene file replaces every reference to an archive or object that the
file defines by what was defined, and leaves out the definitions. The file is read
into a chain of one archive filter and a writer (`SceneReplay.expand`). References
to archives that the file does not define stay as they are: they live elsewhere.
-/

namespace SceneReplay

/-- The name and length of a stream. -/
structure StreamSummary where
  /-- The name. -/
  name : Value
  /-- How many commands it holds. -/
  length : Nat

/-- What can be seen of an archive filter. -/
structure Snapshot where
  /-- What the filter is doing. -/
  scope : Scope
  /-- The name of the stream being recorded. -/
  recording : Option Value
  /-- The archives, in the order of definition. -/
  archives : List StreamSummary
  /-- The objects, in the order of definition. -/
  objects : List StreamSummary
  /-- A remark. -/
  note : Option String

/-- The summaries of all streams of a registry. -/
def Registry.summaries (r : Registry) : List StreamSummary :=
  r.streams.map fun s => ⟨s.name, s.length⟩

/-- What can be seen of a filter now. -/
def ArchiveFilter.snapshot (f : ArchiveFilter) (note : Option String) : Snapshot where
  scope := f.scope
  recording := f.active?.map Stream.name
  archives := f.archives.summaries
  objects := f.objects.summaries
  note := note

/-- An expanded scene. -/
structure Expanded where
  /-- The expanded scene file. -/
  rib : Text
  /-- How many requests were read. -/
  requests : Nat
  /-- The problems that were met, in order. -/
  reports : List Report
  /-- The archive filter at the end. -/
  snapshot : Snapshot

/-- How a scene is to be expanded; what is not said comes from the settings. -/
structure ExpandOptions where
  /-- Whether to keep the comments inside definitions. -/
  capture : Option Bool
  /-- The limit on nested replays. -/
  limit : Option Int

/-- Reads a text into a filter with a writer behind it. -/
def expandWith (f : ArchiveFilter) (text : Text) : Except Fault Expanded :=
  let chain := (Chain.ofSink (Rib.Writer.empty Rib.Writer.defaultIndent)).addStage (.archive f)
  let played := Rib.read chain 0 Rib.Declarations.standard text
  match played.fault with
  | some fault => .error fault
  | none =>
    let filter := (played.chain.archiveFilters.head?).getD f
    .ok {
      rib := played.chain.sink.text
      requests := played.issued
      reports := played.chain.log.toList
      snapshot := filter.snapshot (some "end of input") }

/-- Expands a scene under the given settings. -/
def expandIn (settings : Settings) (options : ExpandOptions) (text : Text) :
    Except Fault Expanded := do
  let filter ← ArchiveFilter.make settings options.capture options.limit
  expandWith filter text

/-- Expands a scene under the settings of the environment. -/
def expand (env : Environment) (options : ExpandOptions) (text : Text) :
    Except Fault Expanded := do
  let settings ← (Settings.load env).mapError Fault.invalid
  expandIn settings options text

end SceneReplay

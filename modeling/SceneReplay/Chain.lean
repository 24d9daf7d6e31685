import SceneReplay.ArchiveFilter

/-!
# Chains of stages

A chain is a row of stages with a sink at its end. A command enters at a stage,
mostly the first one, and each stage either passes it on or ends it there
(`SceneReplay.Chain.walk`). Three kinds of stages exist: relays, which pass
everything; taps, which also remember what they saw; and archive filters.

An archive filter may answer a command with a replay. Then all commands of the
stream are issued, one after the other, at the *head* of the chain, and only then
does the work go on; they may lead to replays of their own.
`SceneReplay.Chain.run` is this recursion. It is bounded by a budget for nested
replays, one unit for each level. No filter has more replays in progress than its
limit, so the sum of all limits (`SceneReplay.Chain.budget`) is always enough.

Whatever stops a run, what was done before it stays done: a run gives the chain as
it was left, and the fault, if there was one.

Nothing but the budget bounds the recursion here. A machine that carries it out has
a call stack besides, and each nested replay takes a few frames of it, and some more
for every stage in front of its filter. Where such a stack ends is a matter of the
machine, so it is abstracted from, and what is said of chains with any number of
stages is meant for a stack that has room for them. The greatest limit that a filter
may have (`SceneReplay.greatestLimit`) is chosen so that a filter reports before a
usual stack ends; with a few taps in front of it that limit can be too great.
-/

namespace SceneReplay

/-! ### Stages and sinks -/

/-- A stage of a chain. -/
inductive Stage where
  /-- Passes everything on. -/
  | relay
  /-- Passes everything on and remembers it. -/
  | tap (seen : Array Command)
  /-- Records and replays definitions. -/
  | archive (filter : ArchiveFilter)

namespace Stage

/-- How a stage answers a command. -/
def receive : Stage → Command → Stage × Reaction
  | .relay, _ => (.relay, .pass)
  | .tap seen, c => (.tap (seen.push c), .pass)
  | .archive f, c =>
    let (f, reaction) := f.receive c
    (.archive f, reaction)

/-- The stage when one more of its replays is in progress. -/
def enterReplay : Stage → Stage
  | .archive f => .archive { f with depth := f.depth + 1 }
  | s => s

/-- The stage when one of its replays has ended. -/
def leaveReplay : Stage → Stage
  | .archive f => .archive { f with depth := f.depth - 1 }
  | s => s

/-- How many replays of the stage may be in progress at once. -/
def limit : Stage → Nat
  | .archive f => f.limit
  | _ => 0

/-- Makes the stage that is registered under a name. -/
def ofName (settings : Settings) (name : String) (params : Option ParamList) :
    Except Fault Stage :=
  if name = "inlinearchive" then (ArchiveFilter.ofParams settings params).map Stage.archive
  else if name = "tap" then .ok (.tap #[])
  else .error (.unknownFilter name)

/-- The archive filter of a stage that is one. -/
def archiveFilter? : Stage → Option ArchiveFilter
  | .archive f => some f
  | _ => none

end Stage

/-- The end of a chain: it takes a command and may refuse it. -/
class Sink (σ : Type) where
  /-- Takes a command. -/
  accept : σ → Command → σ × Option Fault

/-- A row of stages, head first, with a sink at its end, and the reports that
they made. -/
structure Chain (σ : Type) where
  /-- The stages. -/
  stages : List Stage
  /-- What comes after the last stage. -/
  sink : σ
  /-- The reports of all stages. -/
  log : Log

namespace Chain

variable {σ : Type}

/-- A chain without stages. -/
def ofSink (sink : σ) : Chain σ := ⟨[], sink, .empty⟩

/-- Puts a stage in front of all others. -/
def addStage (ch : Chain σ) (s : Stage) : Chain σ := { ch with stages := s :: ch.stages }

/-- Adds a report. -/
def addReport (ch : Chain σ) (r : Report) : Chain σ := { ch with log := ch.log.add r }

/-! ### One command through the stages -/

/-- Takes a command through stages until one ends it: the stages afterwards, the
last reaction, and how many stages the command passed. -/
def walk : List Stage → Command → List Stage × Reaction × Nat
  | [], _ => ([], .pass, 0)
  | s :: ss, c =>
    match s.receive c with
    | (s, .pass) =>
      let (ss, reaction, passed) := walk ss c
      (s :: ss, reaction, passed + 1)
    | (s, reaction) => (s :: ss, reaction, 0)

/-- What is left to do after a command went through the stages. -/
inductive Outcome where
  /-- Nothing. -/
  | done
  /-- The stage at a position asks for a replay. -/
  | replay (stage : Nat) (content : List Command)
  /-- Nothing more can be done. -/
  | fault (f : Fault)

/-- Takes a command from the stage at `entry` on, and to the sink if all stages
pass it. -/
def step [Sink σ] (entry : Nat) (ch : Chain σ) (c : Command) : Chain σ × Outcome :=
  let (stages, reaction, passed) := walk (ch.stages.drop entry) c
  let ch := { ch with stages := ch.stages.take entry ++ stages }
  match reaction with
  | .pass =>
    let (sink, fault?) := Sink.accept ch.sink c
    ({ ch with sink := sink }, match fault? with
      | none => .done
      | some f => .fault f)
  | .hold => (ch, .done)
  | .report r => (ch.addReport r, .done)
  | .replay content => (ch, .replay (entry + passed) content)
  | .fault f => (ch, .fault f)

/-! ### Commands one after the other -/

/-- Why a run stopped before its end. -/
inductive Stop where
  /-- A fault. -/
  | fault (f : Fault)
  /-- Replays were nested more deeply than the budget allows. -/
  | exhausted

/-- The chain when a replay of the stage at a position begins. -/
def enterReplay (ch : Chain σ) (stage : Nat) : Chain σ :=
  { ch with stages := ch.stages.modify stage Stage.enterReplay }

/-- The chain when a replay of the stage at a position has ended. -/
def leaveReplay (ch : Chain σ) (stage : Nat) : Chain σ :=
  { ch with stages := ch.stages.modify stage Stage.leaveReplay }

/-- Issues commands one after the other at the stage at `entry`, and carries out
the replays that they lead to by means of `replay`. -/
def runWith [Sink σ] (replay : List Command → Chain σ → Chain σ × Option Stop) (entry : Nat) :
    List Command → Chain σ → Chain σ × Option Stop
  | [], ch => (ch, none)
  | c :: cs, ch =>
    match c.reissue with
    | .error f => (ch, some (.fault f))
    | .ok c =>
      match ch.step entry c with
      | (ch, .done) => runWith replay entry cs ch
      | (ch, .fault f) => (ch, some (.fault f))
      | (ch, .replay stage content) =>
        let (ch, stop?) := replay content (ch.enterReplay stage)
        match stop? with
        | none => runWith replay entry cs (ch.leaveReplay stage)
        | some stop => (ch.leaveReplay stage, some stop)

/-- Issues commands one after the other at the head of the chain, with at most
that many nested replays. -/
def run [Sink σ] : Nat → List Command → Chain σ → Chain σ × Option Stop
  | 0 => runWith (fun _ ch => (ch, some .exhausted)) 0
  | budget + 1 => runWith (run budget) 0

/-- How many replays can be in progress at once in a chain. -/
def budget (ch : Chain σ) : Nat := (ch.stages.map Stage.limit).foldr (· + ·) 0

/-- A stop as a fault. -/
def Stop.fault? : Stop → Option Fault
  | .fault f => some f
  | .exhausted => none

/-- Issues commands one after the other at the stage at `entry`. -/
def issueAll [Sink σ] (ch : Chain σ) (entry : Nat) (cs : List Command) :
    Chain σ × Option Fault :=
  let (after, stop?) := runWith (run ch.budget) entry cs ch
  (after, stop?.bind Stop.fault?)

/-- Issues a command at the stage at `entry`. -/
def issue [Sink σ] (ch : Chain σ) (entry : Nat) (c : Command) : Chain σ × Option Fault :=
  ch.issueAll entry [c]

/-- Calls a procedure by its name at the stage at `entry`. -/
def call [Sink σ] (ch : Chain σ) (entry : Nat) (name : String) (args : List Value)
    (params : Option ParamList) : Chain σ × Option Fault :=
  match Command.ofCall name args params with
  | .error f => (ch, some f)
  | .ok c => ch.issue entry c

/-! ### Looking into a chain -/

/-- The archive filters of a chain, head first. -/
def archiveFilters (ch : Chain σ) : List ArchiveFilter :=
  ch.stages.filterMap Stage.archiveFilter?

/-- Changes the archive filter that has `n` others before it. -/
def updateFilter (n : Nat) (update : ArchiveFilter → ArchiveFilter) :
    List Stage → List Stage
  | [] => []
  | .archive f :: ss =>
    match n with
    | 0 => .archive (update f) :: ss
    | n + 1 => .archive f :: updateFilter n update ss
  | s :: ss => s :: updateFilter n update ss

end Chain

end SceneReplay

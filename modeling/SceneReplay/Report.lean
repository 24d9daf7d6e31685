import SceneReplay.Text.Basic

/-!
# Reports

A problem inside a scene does not stop the work. It is reported: a code for the
kind of problem, how serious it is, and a message. Reports are collected in a
log, oldest first (`SceneReplay.Log`).
-/

namespace SceneReplay

/-- The levels of the program's own log. -/
inductive LogLevel where
  /-- Details for the developer. -/
  | debug
  /-- The normal course of events. -/
  | info
  /-- Something unusual. -/
  | warning
  /-- Something that went wrong. -/
  | error
  /-- Something that went badly wrong. -/
  | critical
deriving DecidableEq, Repr

namespace LogLevel

/-- All levels, from the least serious on. -/
def all : List LogLevel := [.debug, .info, .warning, .error, .critical]

/-- The name of a level. -/
def name : LogLevel → String
  | .debug => "DEBUG"
  | .info => "INFO"
  | .warning => "WARNING"
  | .error => "ERROR"
  | .critical => "CRITICAL"

/-- The rank of a level: messages below a logger's rank are not logged. -/
def rank : LogLevel → Nat
  | .debug => 10
  | .info => 20
  | .warning => 30
  | .error => 40
  | .critical => 50

end LogLevel

/-- How serious a problem is. -/
inductive Severity where
  /-- Worth knowing. -/
  | info
  /-- Probably not meant. -/
  | warning
  /-- Wrong; something was left out. -/
  | error
  /-- Wrong beyond repair. -/
  | severe
deriving DecidableEq, Repr

namespace Severity

/-- All severities, the least serious first. -/
def all : List Severity := [.info, .warning, .error, .severe]

/-- The name of a severity. -/
def name : Severity → String
  | .info => "info"
  | .warning => "warning"
  | .error => "error"
  | .severe => "severe"

/-- The level at which a problem of this severity is logged. -/
def level : Severity → LogLevel
  | .info => .info
  | .warning => .warning
  | .error => .error
  | .severe => .critical

/-- The severity of the given name. -/
def ofName? (s : String) : Option Severity :=
  all.find? fun v => v.name == s

end Severity

/-- The kinds of problems. -/
inductive Report.Code where
  /-- A reference to an object that is not defined. -/
  | badHandle
  /-- A replay nested too deeply. -/
  | nesting
  /-- A request that does not exist. -/
  | badToken
  /-- A text that cannot be read. -/
  | malformed
deriving DecidableEq, Repr

namespace Report.Code

/-- All kinds of problems. -/
def all : List Report.Code := [.badHandle, .nesting, .badToken, .malformed]

/-- The name of a kind of problem. -/
def name : Report.Code → String
  | .badHandle => "bad handle"
  | .nesting => "nesting"
  | .badToken => "bad token"
  | .malformed => "syntax"

/-- The kind of problem of the given name. -/
def ofName? (s : String) : Option Report.Code :=
  all.find? fun c => c.name == s

end Report.Code

/-- One reported problem. -/
structure Report where
  /-- What kind of problem it is. -/
  code : Report.Code
  /-- How serious it is. -/
  severity : Severity
  /-- What exactly happened. -/
  message : Text
deriving DecidableEq, Repr

/-- A report of ordinary severity. -/
def Report.ofError (code : Report.Code) (message : Text) : Report :=
  ⟨code, .error, message⟩

/-- A report as it is logged. -/
def Report.logText (r : Report) : Text :=
  ("[" ++ r.code.name ++ "] " : String) ++ r.message

/-- The reports made so far, oldest first. -/
structure Log where
  /-- The reports. -/
  reports : Array Report

namespace Log

/-- A log without reports. -/
def empty : Log := ⟨#[]⟩

/-- Adds a report at the end. -/
def add (log : Log) (r : Report) : Log := ⟨log.reports.push r⟩

/-- All reports as a list, oldest first. -/
def toList (log : Log) : List Report := log.reports.toList

@[simp] theorem toList_empty : empty.toList = [] := rfl

@[simp] theorem toList_add (log : Log) (r : Report) :
    (log.add r).toList = log.toList ++ [r] := by
  simp [toList, add]

/-- How many reports there are, of one kind or of all. -/
def count (log : Log) (code : Option Report.Code) : Nat :=
  match code with
  | none => log.reports.size
  | some c => log.reports.countP fun r => r.code == c

end Log

end SceneReplay

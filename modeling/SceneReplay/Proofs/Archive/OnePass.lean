import SceneReplay.Proofs.Chain.Trace

/-!
# Replays in one pass

A tap in front of an archive filter sees every command that enters the chain: those
that were called, and those that replays issue again, in the order in which they
come. This file states what the filter makes of them without any recursion, as one
pass from left to right over what the tap saw (`SceneReplay.OnePass`). The pass never
replays anything: a reference to a definition that is there is simply dropped, for
the commands that it stands for come next.

`SceneReplay.Chain.issueAll_eq_onePass` says that the recursive filter does the same
as the pass: it delivers the same commands, makes the same recordings, ends in the
same scope and reports the same undefined objects. What carries the proof is the
agreement between the filter and the pass (`SceneReplay.OnePass.Agrees`), which one
command keeps (`SceneReplay.OnePass.Agrees.receive`); the begin and the end of a
replay do not touch it.
-/

namespace SceneReplay

/-! ### The pass -/

/-- A definition that is being recorded. -/
structure Recording where
  /-- Whether an archive or an object is defined. -/
  kind : StreamKind
  /-- Its name. -/
  name : Value
  /-- What was recorded so far. -/
  content : List Command
  /-- How many archives were opened inside and not yet closed. -/
  nesting : Nat

/-- The recording as a stream that is still open. -/
def Recording.toStream (r : Recording) : Stream := ⟨r.name, r.content, false⟩

/-- What one pass over the commands knows after some of them. -/
structure OnePass where
  /-- The archives whose definition has ended. -/
  archives : List Stream
  /-- The objects whose definition has ended. -/
  objects : List Stream
  /-- The definition that has not ended. -/
  recording : Option Recording
  /-- What was delivered. -/
  output : List Command
  /-- The reports of undefined objects. -/
  reports : List Report

namespace OnePass

/-- The pass before its first command. -/
def start : OnePass := ⟨[], [], none, [], []⟩

/-- The definitions of one kind that have ended. -/
def finished (p : OnePass) : StreamKind → List Stream
  | .archive => p.archives
  | .object => p.objects

/-- Whether there is a definition of that kind and name. -/
def defines (p : OnePass) (kind : StreamKind) (name : Value) : Bool :=
  (p.finished kind).any fun s => s.name.same name

/-- A definition begins. -/
def begin (p : OnePass) (kind : StreamKind) (name : Value) : OnePass :=
  { p with recording := some ⟨kind, name, [], 0⟩ }

/-- A command is delivered, unchanged. -/
def emit (p : OnePass) (c : Command) : OnePass := { p with output := p.output ++ [c] }

/-- A reference to an object that is not defined. -/
def complain (p : OnePass) (name : Value) : OnePass :=
  { p with reports := p.reports ++ [ArchiveFilter.badHandle name] }

/-- A command is recorded. -/
def keep (p : OnePass) (r : Recording) (c : Command) (nesting : Nat) : OnePass :=
  { p with recording := some { r with content := r.content ++ [c], nesting := nesting } }

/-- The definition ends. -/
def finish (p : OnePass) (r : Recording) : OnePass :=
  match r.kind with
  | .archive =>
    { p with archives := p.archives ++ [r.toStream.close], recording := none }
  | .object => { p with objects := p.objects ++ [r.toStream.close], recording := none }

/-- A command that comes while nothing is recorded. -/
def stepIdle (p : OnePass) (c : Command) : OnePass :=
  match c.role with
  | .archiveBegin => p.begin .archive c.subject
  | .objectBegin => p.begin .object c.subject
  | .archiveEnd => p
  | .objectEnd => p
  | .archiveReference => if p.defines .archive c.subject then p else p.emit c
  | .objectReference => if p.defines .object c.subject then p else p.complain c.subject
  | .comment => p.emit c
  | .uniform => p.emit c

/-- A command that comes while a definition is recorded. -/
def stepRecording (p : OnePass) (capture : Bool) (r : Recording) (c : Command) : OnePass :=
  match r.kind, c.role with
  | _, .comment => if capture then p.keep r c r.nesting else p
  | .archive, .archiveBegin => p.keep r c (r.nesting + 1)
  | .archive, .archiveEnd =>
    match r.nesting with
    | 0 => p.finish r
    | n + 1 => p.keep r c n
  | .object, .objectEnd => p.finish r
  | _, _ => p.keep r c r.nesting

/-- One command of the pass. -/
def step (p : OnePass) (capture : Bool) (c : Command) : OnePass :=
  match p.recording with
  | none => p.stepIdle c
  | some r => p.stepRecording capture r c

/-- **The pass**: over all commands that were seen, from left to right. -/
def ofSeen (capture : Bool) (seen : List Command) : OnePass :=
  seen.foldl (fun p c => p.step capture c) start

/-! ### What can be seen of the pass -/

/-- All definitions of one kind, the one being recorded last. -/
def streams (p : OnePass) (kind : StreamKind) : List Stream :=
  p.finished kind ++
    match p.recording with
    | some r => if r.kind = kind then [r.toStream] else []
    | none => []

/-- The stream that is being recorded. -/
def active? (p : OnePass) : Option Stream := p.recording.map Recording.toStream

/-- How many archives were opened inside the one being recorded. -/
def nesting (p : OnePass) : Nat := (p.recording.map Recording.nesting).getD 0

/-- Whether an object is being recorded. -/
def isInObject (p : OnePass) : Bool := p.recording.any fun r => r.kind = .object

/-! ### The agreement with a filter -/

/-- Where the pass records, in the terms of the filter. -/
def scope (p : OnePass) : Scope :=
  match p.recording with
  | none => .idle
  | some r =>
    match r.kind with
    | .archive => .archive p.archives.length r.nesting
    | .object => .object p.objects.length

/-- **The pass and a filter agree**: they have the same definitions, in the same
order, and record in the same one. -/
structure Agrees (p : OnePass) (f : ArchiveFilter) : Prop where
  /-- The definitions agree. -/
  streams : ∀ kind, (f.registry kind).streams = p.streams kind
  /-- The scopes agree. -/
  scope : f.scope = p.scope
  /-- Archives inside an object are not counted. -/
  object : ∀ r, p.recording = some r → r.kind = .object → r.nesting = 0

theorem agrees_fresh (limit : Nat) (capture : Bool) : start.Agrees (.fresh limit capture) :=
  ⟨fun kind => by cases kind <;> rfl, rfl, fun _ h => by cases h⟩

/-- The agreement is not about the replays in progress. -/
theorem Agrees.withDepth {p : OnePass} {f : ArchiveFilter} (h : p.Agrees f) (depth : Nat) :
    p.Agrees { f with depth := depth } :=
  ⟨fun kind => by cases kind <;> [exact h.streams .archive; exact h.streams .object],
    h.scope, h.object⟩

section Streams

variable {p : OnePass}

theorem streams_of_none (h : p.recording = none) (kind : StreamKind) :
    p.streams kind = p.finished kind := by
  simp [streams, h]

theorem streams_self {r : Recording} (h : p.recording = some r) :
    p.streams r.kind = p.finished r.kind ++ [r.toStream] := by
  simp [streams, h]

theorem streams_of_ne {r : Recording} (h : p.recording = some r) {kind : StreamKind}
    (hne : kind ≠ r.kind) : p.streams kind = p.finished kind := by
  simp [streams, h, hne.symm]

theorem recording_of_idle (h : p.scope = .idle) : p.recording = none := by
  cases hr : p.recording with
  | none => rfl
  | some r => cases hk : r.kind <;> simp [scope, hr, hk] at h

theorem step_of_recording {r : Recording} (h : p.recording = some r) (capture : Bool)
    (c : Command) : p.step capture c = p.stepRecording capture r c := by
  simp only [step, h]

/-- Where the scope records there is a recording, behind all definitions that have
ended. -/
theorem recording_of_target? {kind : StreamKind} {i : Nat}
    (h : p.scope.target? = some (kind, i)) :
    ∃ r, p.recording = some r ∧ r.kind = kind ∧ (p.finished kind).length = i := by
  cases hr : p.recording with
  | none => simp [scope, hr, Scope.target?] at h
  | some r =>
    cases hk : r.kind <;>
    · simp only [scope, hr, hk, Scope.target?, Option.some.injEq, Prod.mk.injEq] at h
      obtain ⟨rfl, rfl⟩ := h
      exact ⟨r, rfl, hk, rfl⟩

/-- A command inside a definition that does not end it is kept; the nesting changes
as the scope does. -/
theorem stepRecording_of_not_closes {r : Recording} (hr : p.recording = some r) {capture : Bool}
    {c : Command} (hopen : p.scope.closes c.role = false)
    (hkept : c.role = .comment → capture = true) :
    ∃ n, p.stepRecording capture r c = p.keep r c n ∧
      (p.keep r c n).scope = p.scope.advance c.role ∧ (r.kind = .object → n = r.nesting) := by
  obtain ⟨kind, name, content, nesting⟩ := r
  cases kind with
  | archive =>
    cases hrole : c.role with
    | archiveBegin =>
      refine ⟨nesting + 1, by simp [stepRecording, hrole], by simp [scope, keep, hr, Scope.advance],
        ?_⟩
      rintro ⟨⟩
    | archiveEnd =>
      cases nesting with
      | zero => simp [scope, hr, hrole, Scope.closes] at hopen
      | succ n =>
        refine ⟨n, by simp [stepRecording, hrole], by simp [scope, keep, hr, Scope.advance], ?_⟩
        rintro ⟨⟩
    | _ =>
      refine ⟨nesting, ?_, by simp [scope, keep, hr, Scope.advance], ?_⟩
      · simp [stepRecording, hrole, hkept]
      · rintro ⟨⟩
  | object =>
    cases hrole : c.role with
    | objectEnd => simp [scope, hr, hrole, Scope.closes] at hopen
    | _ =>
      refine ⟨nesting, ?_, by simp [scope, keep, hr, Scope.advance], fun _ => rfl⟩
      simp [stepRecording, hrole, hkept]

theorem stepRecording_of_closes {r : Recording} (hr : p.recording = some r) {capture : Bool}
    {c : Command} (hclose : p.scope.closes c.role = true) :
    p.stepRecording capture r c = p.finish r := by
  obtain ⟨kind, name, content, nesting⟩ := r
  cases kind with
  | archive =>
    have hrole : c.role = .archiveEnd ∧ nesting = 0 := by
      simpa [scope, hr, Scope.closes] using hclose
    simp [stepRecording, hrole.1, hrole.2]
  | object =>
    have hrole : c.role = .objectEnd := by simpa [scope, hr, Scope.closes] using hclose
    simp [stepRecording, hrole]

end Streams

/-- What can be seen of the scope agrees as well. -/
theorem Agrees.visible {p : OnePass} {f : ArchiveFilter} (h : p.Agrees f) :
    f.active? = p.active? ∧ f.scope.nesting = p.nesting ∧ f.isInObject = p.isInObject := by
  cases hr : p.recording with
  | none =>
    have hscope : f.scope = .idle := by rw [h.scope, OnePass.scope, hr]
    simp [ArchiveFilter.active?, ArchiveFilter.isInObject, hscope, active?, nesting, isInObject,
      hr, Scope.nesting]
  | some r =>
    have hstreams : (f.registry r.kind).streams = p.finished r.kind ++ [r.toStream] := by
      rw [h.streams, streams_self hr]
    have htarget : f.scope.target? = some (r.kind, (p.finished r.kind).length) := by
      rw [h.scope]
      cases hk : r.kind <;> simp [OnePass.scope, hr, hk, Scope.target?, finished]
    have hactive : f.active? = some r.toStream :=
      (ArchiveFilter.active?_of_target? htarget).1.trans (Registry.get?_of_streams hstreams rfl)
    refine ⟨by rw [hactive, active?, hr]; rfl, ?_, ?_⟩
    · rw [h.scope, nesting, hr]
      cases hk : r.kind with
      | archive => simp [OnePass.scope, hr, hk, Scope.nesting]
      | object => simp [OnePass.scope, hr, hk, Scope.nesting, h.object r hr hk]
    · rw [ArchiveFilter.isInObject, h.scope, isInObject, hr]
      cases hk : r.kind <;> simp [OnePass.scope, hr, hk]

/-! ### One command -/

section Moves

variable {p : OnePass} {f : ArchiveFilter}

/-- What the filter finds, the pass has. -/
theorem Agrees.defines (h : p.Agrees f) (hidle : f.scope = .idle) (kind : StreamKind)
    (name : Value) : p.defines kind name = ((f.registry kind).find? name).isSome := by
  have hnone : p.recording = none := recording_of_idle (h.scope ▸ hidle)
  rw [OnePass.defines, ← streams_of_none hnone, ← h.streams kind, Registry.find?,
    Bool.eq_iff_iff, List.any_eq_true, List.find?_isSome]

/-- The registries and the scope after a filter replaced one registry. -/
theorem Agrees.replace (h : p.Agrees f) {q : OnePass} {kind : StreamKind} {r : Registry}
    {next : Scope} (hsame : r.streams = q.streams kind)
    (hothers : ∀ other, other ≠ kind → p.streams other = q.streams other)
    (hscope : next = q.scope)
    (hobject : ∀ r, q.recording = some r → r.kind = .object → r.nesting = 0) :
    q.Agrees (f.replace kind r next) := by
  refine ⟨fun other => ?_, (f.scope_replace kind r next).trans hscope, hobject⟩
  rcases eq_or_ne other kind with rfl | hne
  · rw [ArchiveFilter.registry_replace, hsame]
  · rw [f.registry_replace_of_ne kind r next hne, h.streams other, hothers other hne]

/-- Both begin the same definition. -/
theorem Agrees.begin (h : p.Agrees f) (hidle : f.scope = .idle) (kind : StreamKind)
    (name : Value) : (p.begin kind name).Agrees (f.openStream kind name) := by
  have hnone : p.recording = none := recording_of_idle (h.scope ▸ hidle)
  have hfinished : (f.registry kind).streams = p.finished kind := by
    rw [h.streams kind, streams_of_none hnone]
  refine h.replace ?_ (fun other hne => ?_) ?_ ?_
  · rw [streams_self (p := p.begin kind name) rfl, Registry.create, hfinished]
    cases kind <;> rfl
  · rw [streams_of_none hnone, streams_of_ne (p := p.begin kind name) rfl hne]
    cases other <;> rfl
  · cases kind <;> simp [OnePass.scope, OnePass.begin, hfinished, finished]
  · rintro r hr -
    cases hr
    rfl

/-- Both record the same command. -/
theorem Agrees.keep (h : p.Agrees f) {r : Recording} (hr : p.recording = some r) {i : Nat}
    (htarget : f.scope.target? = some (r.kind, i)) {c : Command} {n : Nat} {next : Scope}
    {registry : Registry} (happend : (f.registry r.kind).append i c = .ok registry)
    (hscope : next = (p.keep r c n).scope) (hobject : r.kind = .object → n = r.nesting) :
    (p.keep r c n).Agrees { f.withRegistry r.kind registry with scope := next } := by
  have hi : (p.finished r.kind).length = i := by
    obtain ⟨r', hr', hkind, hi⟩ := recording_of_target? (h.scope ▸ htarget)
    exact hi
  have hstreams : (f.registry r.kind).streams = p.finished r.kind ++ [r.toStream] := by
    rw [h.streams, streams_self hr]
  rw [Registry.append_of_streams hstreams hi rfl] at happend
  cases happend
  refine h.replace ?_ (fun other hne => ?_) hscope ?_
  · have := streams_self (p := p.keep r c n) rfl
    rw [show (p.keep r c n).streams r.kind = _ from this]
    cases hk : r.kind <;> rfl
  · rw [streams_of_ne hr hne, streams_of_ne (p := p.keep r c n) rfl hne]
    cases other <;> rfl
  · rintro r' hr' hk
    cases hr'
    exact (hobject hk).trans (h.object r hr hk)

/-- Both end the same definition. -/
theorem Agrees.finish (h : p.Agrees f) {r : Recording} (hr : p.recording = some r) {i : Nat}
    (htarget : f.scope.target? = some (r.kind, i)) :
    (p.finish r).Agrees (f.closeStream r.kind i) := by
  have hi : (p.finished r.kind).length = i := by
    obtain ⟨r', hr', hkind, hi⟩ := recording_of_target? (h.scope ▸ htarget)
    exact hi
  have hstreams : (f.registry r.kind).streams = p.finished r.kind ++ [r.toStream] := by
    rw [h.streams, streams_self hr]
  have hnone : (p.finish r).recording = none := by
    cases hk : r.kind <;> simp [OnePass.finish, hk]
  refine h.replace ?_ (fun other hne => ?_) ?_ ?_
  · subst hi
    rw [streams_of_none hnone, Registry.close, Registry.get?_of_streams hstreams rfl]
    simp only [Registry.set, hstreams]
    cases hk : r.kind <;> simp [OnePass.finish, hk, finished]
  · rw [streams_of_ne hr hne, streams_of_none hnone]
    cases hk : r.kind <;> cases other <;> simp_all [OnePass.finish, finished]
  · simp [OnePass.scope, hnone]
  · rintro r' hr'
    rw [hnone] at hr'
    cases hr'

end Moves

/-- What of an answer is delivered. -/
def delivered (c : Command) : Reaction → List Command
  | .pass => [c]
  | _ => []

/-- What of an answer is a report of an undefined object. -/
def complaints : Reaction → List Report
  | .report r => [r].filter fun r => r.code = .badHandle
  | _ => []

/-- A reference to a definition delivers nothing, whether it is replayed or nested too
deeply. -/
theorem of_replay (f : ArchiveFilter) (kind : StreamKind) (s : Stream) (c : Command) :
    delivered c (f.replay kind s) = [] ∧ complaints (f.replay kind s) = [] := by
  unfold ArchiveFilter.replay
  split
  · exact ⟨rfl, rfl⟩
  · exact ⟨rfl, rfl⟩

/-- **One command keeps the agreement**, and the pass delivers and reports what the
filter does. -/
theorem Agrees.receive {p : OnePass} {f g : ArchiveFilter} {c : Command} {reaction : Reaction}
    (h : p.Agrees f) (hmove : f.Received c g reaction) :
    (p.step f.capture c).Agrees g ∧
      (p.step f.capture c).output = p.output ++ delivered c reaction ∧
      (p.step f.capture c).reports = p.reports ++ complaints reaction := by
  have idle_step : f.scope = .idle → p.step f.capture c = p.stepIdle c := by
    intro hidle
    rw [step, recording_of_idle (h.scope ▸ hidle)]
  cases hmove with
  | passed hidle hrole =>
    have hstep : p.step f.capture c = p.emit c := by
      rw [idle_step hidle]
      rcases hrole with hrole | hrole | ⟨hrole, hfind⟩
      · simp [stepIdle, hrole]
      · simp [stepIdle, hrole]
      · have hno : p.defines .archive c.subject = false := by
          rw [h.defines hidle]
          exact Option.isSome_eq_false_iff.2 (Option.isNone_iff_eq_none.2 hfind)
        simp [stepIdle, hrole, hno]
    rw [hstep]
    exact ⟨⟨h.streams, h.scope, h.object⟩, rfl, (List.append_nil _).symm⟩
  | dropped hdrop =>
    have hstep : p.step f.capture c = p := by
      rcases hdrop with ⟨hidle, hrole⟩ | ⟨hbusy, hrole, hcapture⟩
      · rw [idle_step hidle]
        rcases hrole with hrole | hrole <;> simp [stepIdle, hrole]
      · cases hr : p.recording with
        | none =>
          refine absurd ?_ hbusy
          rw [h.scope, OnePass.scope, hr]
        | some r =>
          rw [step_of_recording hr]
          cases hk : r.kind <;> simp [stepRecording, hk, hrole, hcapture]
    rw [hstep]
    exact ⟨h, (List.append_nil _).symm, (List.append_nil _).symm⟩
  | opened kind hidle hrole =>
    have hstep : p.step f.capture c = p.begin kind c.subject := by
      rw [idle_step hidle]
      cases kind <;> simp [stepIdle, hrole, StreamKind.opening]
    rw [hstep]
    exact ⟨h.begin hidle kind c.subject, (List.append_nil _).symm, (List.append_nil _).symm⟩
  | undefined hidle hrole hfind =>
    have hno : p.defines .object c.subject = false := by
      rw [h.defines hidle]
      exact Option.isSome_eq_false_iff.2 (Option.isNone_iff_eq_none.2 hfind)
    have hstep : p.step f.capture c = p.complain c.subject := by
      rw [idle_step hidle]
      simp [stepIdle, hrole, hno]
    rw [hstep]
    exact ⟨⟨h.streams, h.scope, h.object⟩, (List.append_nil _).symm, rfl⟩
  | referred kind s hidle hrole hfind =>
    have hyes : p.defines kind c.subject = true := by
      rw [h.defines hidle, hfind]
      rfl
    have hstep : p.step f.capture c = p := by
      rw [idle_step hidle]
      cases kind <;> simp [stepIdle, hrole, StreamKind.reference, hyes]
    obtain ⟨hdelivered, hcomplaints⟩ := of_replay f kind s c
    rw [hstep, hdelivered, hcomplaints]
    exact ⟨h, (List.append_nil _).symm, (List.append_nil _).symm⟩
  | recorded kind index registry htarget hopen hkept happend =>
    obtain ⟨r, hr, rfl, -⟩ := recording_of_target? (h.scope ▸ htarget)
    obtain ⟨n, hstep, hscope, hobject⟩ :=
      stepRecording_of_not_closes hr (h.scope ▸ hopen) hkept
    rw [step_of_recording hr, hstep]
    refine ⟨h.keep hr htarget happend ?_ hobject, (List.append_nil _).symm,
      (List.append_nil _).symm⟩
    rw [h.scope, hscope]
  | refused kind index fault htarget happend =>
    -- The stream recorded in is open, so it refuses nothing.
    obtain ⟨r, hr, rfl, hi⟩ := recording_of_target? (h.scope ▸ htarget)
    have hstreams : (f.registry r.kind).streams = p.finished r.kind ++ [r.toStream] := by
      rw [h.streams, streams_self hr]
    rw [Registry.append_of_streams hstreams hi rfl] at happend
    cases happend
  | closed kind index htarget hclose =>
    obtain ⟨r, hr, rfl, -⟩ := recording_of_target? (h.scope ▸ htarget)
    rw [step_of_recording hr, stepRecording_of_closes hr (h.scope ▸ hclose)]
    refine ⟨h.finish hr htarget, ?_, ?_⟩
    · cases hk : r.kind <;> simp [OnePass.finish, hk, delivered]
    · cases hk : r.kind <;> simp [OnePass.finish, hk, complaints]

end OnePass

/-! ### The chain with a tap in front -/

namespace Chain

/-- A tap, an archive filter and a collector, before the first call. -/
def tapped (limit : Nat) (capture : Bool) : Chain Collector :=
  ((ofSink .empty).addStage (.archive (.fresh limit capture))).addStage (.tap #[])

/-- **A chain follows the pass**: its filter, its collector and its log are what one
pass over the commands seen by the tap makes of them. -/
structure Follows (capture : Bool) (ch : Chain Collector) (seen : Array Command)
    (f : ArchiveFilter) : Prop where
  /-- The stages are the tap and the filter. -/
  stages : ch.stages = [.tap seen, .archive f]
  /-- The filter keeps comments, or not, as the pass does. -/
  keeps : f.capture = capture
  /-- The filter agrees with the pass. -/
  agrees : (OnePass.ofSeen capture seen.toList).Agrees f
  /-- The collector has what the pass delivers. -/
  output : ch.sink.toList = (OnePass.ofSeen capture seen.toList).output
  /-- Undefined objects are reported as the pass reports them. -/
  reports : ch.log.toList.filter (fun r => r.code = .badHandle)
    = (OnePass.ofSeen capture seen.toList).reports

theorem follows_tapped (limit : Nat) (capture : Bool) :
    Follows capture (tapped limit capture) #[] (.fresh limit capture) :=
  ⟨rfl, rfl, OnePass.agrees_fresh limit capture, rfl, rfl⟩

/-- What one command from the head does to the tap, the filter, the collector and the
log. -/
theorem step_tapped {ch : Chain Collector} {seen : Array Command} {f : ArchiveFilter}
    (hstages : ch.stages = [.tap seen, .archive f]) (c : Command) :
    (ch.step 0 c).1.stages = [.tap (seen.push c), .archive (f.receive c).1] ∧
      (ch.step 0 c).1.sink.toList = ch.sink.toList ++ OnePass.delivered c (f.receive c).2 ∧
      (ch.step 0 c).1.log.toList.filter (fun r => r.code = .badHandle)
        = ch.log.toList.filter (fun r => r.code = .badHandle)
          ++ OnePass.complaints (f.receive c).2 := by
  have htap : (Stage.tap seen).receive c = (.tap (seen.push c), .pass) := rfl
  rcases hreceive : f.receive c with ⟨g, reaction⟩
  have hfilter : (Stage.archive f).receive c = (.archive g, reaction) := by
    simp [Stage.receive, hreceive]
  obtain ⟨n, hwalk⟩ : ∃ n, walk ch.stages c
      = ([.tap (seen.push c), .archive g], reaction, n) := by
    rw [hstages, walk_cons_of_pass htap]
    by_cases hpass : reaction = .pass
    · subst hpass
      rw [walk_cons_of_pass hfilter]
      exact ⟨2, rfl⟩
    · rw [walk_cons_of_ne_pass hfilter hpass]
      exact ⟨1, rfl⟩
  cases reaction <;>
    simp [step, hwalk, Sink.accept, addReport, OnePass.delivered, OnePass.complaints]

/-- **One command keeps the chain following the pass.** -/
theorem Follows.step {capture : Bool} {ch : Chain Collector} {seen : Array Command}
    {f : ArchiveFilter} (h : Follows capture ch seen f) (c : Command) :
    Follows capture (ch.step 0 c).1 (seen.push c) (f.receive c).1 := by
  obtain ⟨hstages, hsink, hlog⟩ := step_tapped h.stages c
  obtain ⟨hagrees, houtput, hreports⟩ := h.agrees.receive (f.received c)
  have hpass : OnePass.ofSeen capture (seen.push c).toList
      = (OnePass.ofSeen capture seen.toList).step f.capture c := by
    rw [h.keeps, OnePass.ofSeen, Array.toList_push, List.foldl_append]
    rfl
  refine ⟨hstages, ?_, ?_, ?_, ?_⟩
  · exact (f.received c).sameSetting.capture.trans h.keeps
  · rw [hpass]
    exact hagrees
  · rw [hsink, h.output, hpass, houtput]
  · rw [hlog, h.reports, hpass, hreports]

/-- The begin and the end of a replay do not touch what the pass is about. -/
theorem Follows.modify {capture : Bool} {ch : Chain Collector} {seen : Array Command}
    {f : ArchiveFilter} (h : Follows capture ch seen f) {m : Stage → Stage}
    (htap : m (.tap seen) = .tap seen)
    (hfilter : ∃ depth, m (.archive f) = .archive { f with depth := depth }) (k : Nat) :
    ∃ g, Follows capture { ch with stages := ch.stages.modify k m } seen g := by
  obtain ⟨depth, hdepth⟩ := hfilter
  match k with
  | 0 => exact ⟨f, by simp [h.stages, htap], h.keeps, h.agrees, h.output, h.reports⟩
  | 1 =>
    exact ⟨{ f with depth := depth }, by simp [h.stages, hdepth], h.keeps,
      h.agrees.withDepth depth, h.output, h.reports⟩
  | k + 2 => exact ⟨f, by simp [h.stages], h.keeps, h.agrees, h.output, h.reports⟩

/-- **The recursive filter is one pass.** Calls with the right number of arguments,
issued at the head of a chain of a tap, an archive filter and a collector, never fail,
together or one by one. What they leave – the commands in the collector, all archives
and objects, the scope, the reports of undefined objects – is what one pass over the
commands seen by the tap makes of them. The calls are among these, in their order. -/
theorem issueAll_eq_onePass (limit : Nat) (capture : Bool) (cs : List Command)
    (hcs : ∀ c ∈ cs, ∃ p, Procedure.find? c.proc = some p ∧ c.args.length = p.arity) :
    ∃ seen f sink log,
      (tapped limit capture).issueAll 0 cs = (⟨[.tap seen, .archive f], sink, log⟩, none) ∧
      (tapped limit capture).calls cs = ⟨[.tap seen, .archive f], sink, log⟩ ∧
      let p := OnePass.ofSeen capture seen.toList
      sink.toList = p.output ∧
      f.archives.streams = p.streams .archive ∧ f.objects.streams = p.streams .object ∧
      f.active? = p.active? ∧ f.scope.nesting = p.nesting ∧ f.isInObject = p.isInObject ∧
      log.toList.filter (fun r => r.code = .badHandle) = p.reports ∧
      ∃ ds, List.Forall₂ (fun c d => c.reissue = .ok d) cs ds ∧ ds.Sublist seen.toList := by
  rcases hall : (tapped limit capture).issueAll 0 cs with ⟨ch, r⟩
  have hcourse : Issues cs (tapped limit capture) ch r := issues_iff.2 hall
  have hfits : ∀ s ∈ (tapped limit capture).stages, s.Fits := by
    simp only [tapped, addStage, ofSink, List.forall_mem_cons]
    exact ⟨trivial, ArchiveFilter.fits_fresh limit capture, nofun⟩
  have hrecorded : ∀ s ∈ (tapped limit capture).stages, s.Recorded Command.InOrder := by
    simp only [tapped, addStage, ofSink, List.forall_mem_cons]
    refine ⟨trivial, fun kind s hs => ?_, nofun⟩
    cases kind <;> cases hs
  obtain rfl : r = none := by
    refine hcourse.not_fault (fun _ _ => rfl) (fun c hc => ?_) hfits hrecorded
    obtain ⟨p, hp, hlen⟩ := hcs c hc
    exact Command.reissue_of_arity hp hlen
  obtain ⟨seen, f, hfollows⟩ : ∃ seen f, Follows capture ch seen f := by
    refine hcourse.preserves (P := fun ch => ∃ seen f, Follows capture ch seen f) ?_ ?_ ?_
      ⟨_, _, follows_tapped limit capture⟩
    · rintro ch d - ⟨seen, f, h⟩
      exact ⟨_, _, h.step d⟩
    · rintro ch k ⟨seen, f, h⟩
      exact ⟨seen, h.modify (m := Stage.enterReplay) rfl ⟨_, rfl⟩ k⟩
    · rintro ch k ⟨seen, f, h⟩
      exact ⟨seen, h.modify (m := Stage.leaveReplay) rfl ⟨_, rfl⟩ k⟩
  obtain ⟨hactive, hnesting, hobject⟩ := hfollows.agrees.visible
  have hch : ch = ⟨[.tap seen, .archive f], ch.sink, ch.log⟩ := by
    rw [← hfollows.stages]
  refine ⟨seen, f, ch.sink, ch.log, by rw [← hch], ?_, hfollows.output,
    hfollows.agrees.streams .archive, hfollows.agrees.streams .object, hactive, hnesting,
    hobject, hfollows.reports, ?_⟩
  · rw [calls_of_issues hcourse, ← hch]
  · -- The tap has seen all that came to the head.
    obtain ⟨tr, htr⟩ := issues_iff_exists_traced.1 hcourse
    have htap := htr.tap (k := 0) rfl
    rw [hfollows.stages] at htap
    obtain rfl : seen = _ := Stage.tap.inj (Option.some.inj htap)
    obtain ⟨ds, hds, hsublist⟩ := htr.sublist rfl
    refine ⟨ds, hds, ?_⟩
    simpa [reaching_zero] using hsublist

/-- An archive that refers to itself, below a limit of two: the tap sees six commands,
of which the last reference is not replayed. -/
theorem issueAll_eq_onePass_selfReading :
    ∃ seen f sink log,
      (tapped 2 true).issueAll 0 (selfReading ++ [selfReference])
        = (⟨[.tap seen, .archive f], sink, log⟩, none) ∧
      seen.size = 6 ∧ log.count (some .nesting) = 1 ∧
      sink.toList = (OnePass.ofSeen true seen.toList).output ∧
      f.archives.streams = (OnePass.ofSeen true seen.toList).streams .archive := by
  obtain ⟨seen, f, sink, log, hall, -, hsink, harchives, -⟩ :=
    issueAll_eq_onePass 2 true (selfReading ++ [selfReference])
      (by
        intro c hc
        simp only [selfReading, List.cons_append, List.nil_append, List.mem_cons,
          List.not_mem_nil, or_false] at hc
        rcases hc with rfl | rfl | rfl | rfl <;> exact ⟨_, rfl, rfl⟩)
  have hstages := congrArg (fun out => out.1.stages[0]?) hall
  have hlog := congrArg (fun out => out.1.log.count (some .nesting)) hall
  refine ⟨seen, f, sink, log, hall, ?_, hlog.symm, hsink, harchives⟩
  cases hstages
  rfl

end Chain

end SceneReplay

import SceneReplay.Proofs.Archive.Contents

/-!
# Comments do not interfere

Comments are recorded with what they stand beside, if the filter was told to keep them. So
they change recordings, and with these every replay, and a replay may put them into further
recordings. Still nothing depends on them. If they are deleted everywhere – from the calls,
from the recordings, from what the sink took – then what is left is what the calls without
their comments come to.

## Deleting comments

`uncommented` deletes the comments of a row of commands, of a stream, of a registry, of a
filter, of a chain. A filter without comments also forgets whether it was told to keep them,
as there are none to be kept. Positions stay, because a recording stays where it is when it
loses commands; so a scope means the same before and after.

Deleting comments goes together with everything that a chain does, and this is said in two
parts.

* A command that is no comment does the same before and after the deletion
  (`SceneReplay.Chain.step_uncommented`).
* A comment does nothing that is left after the deletion
  (`SceneReplay.Chain.step_comment`). Here the scope has to fit the recordings: recording a
  comment must not fail.

A course then loses its comments one by one (`SceneReplay.Chain.Issues.uncommented`). Two
chains that differ in comments, and in whether they keep them, are compared by deleting all
comments from both.
-/

namespace SceneReplay

/-! ### Rows of commands -/

namespace Command

theorem role_eq_comment_iff {c : Command} : c.role = .comment ↔ c.proc = "ArchiveRecord" := by
  unfold role Role.ofName
  split_ifs with h₁ h₂ h₃ h₄ h₅ h₆ h₇ <;> simp_all

/-- Commands without the comments among them. -/
def uncommented (cs : List Command) : List Command := cs.filter fun c => c.proc != "ArchiveRecord"

@[simp] theorem uncommented_nil : uncommented [] = [] := rfl

@[simp] theorem uncommented_append (cs ds : List Command) :
    uncommented (cs ++ ds) = uncommented cs ++ uncommented ds :=
  List.filter_append cs ds

variable {c : Command}

theorem uncommented_cons_of_comment (h : c.role = .comment) (cs : List Command) :
    uncommented (c :: cs) = uncommented cs :=
  List.filter_cons_of_neg (by simp [role_eq_comment_iff.1 h])

theorem uncommented_cons_of_ne (h : c.role ≠ .comment) (cs : List Command) :
    uncommented (c :: cs) = c :: uncommented cs :=
  List.filter_cons_of_pos (by simpa using fun hproc => h (role_eq_comment_iff.2 hproc))

end Command

/-! ### Recordings -/

/-- The recording without its comments. -/
def Stream.uncommented (s : Stream) : Stream :=
  { s with commands := Command.uncommented s.commands }

namespace Registry

/-- All recordings without their comments. -/
def uncommented (r : Registry) : Registry := ⟨r.streams.map Stream.uncommented⟩

variable (r : Registry)

theorem find?_uncommented (name : Value) :
    r.uncommented.find? name = (r.find? name).map Stream.uncommented := by
  rw [find?, uncommented, List.find?_map]
  rfl

@[simp] theorem length_uncommented : r.uncommented.streams.length = r.streams.length := by
  simp [uncommented]

theorem create_uncommented (name : Value) :
    (r.create name).uncommented = r.uncommented.create name := by
  simp [create, uncommented, Stream.uncommented, Stream.opened]

theorem get?_uncommented (i : Nat) : r.uncommented.get? i = (r.get? i).map Stream.uncommented := by
  simp [get?, uncommented]

theorem set_uncommented (i : Nat) (s : Stream) :
    (r.set i s).uncommented = r.uncommented.set i s.uncommented := by
  simp [set, uncommented, List.map_set]

theorem close_uncommented (i : Nat) : (r.close i).uncommented = r.uncommented.close i := by
  unfold close
  rw [get?_uncommented]
  cases r.get? i with
  | none => rfl
  | some s => exact r.set_uncommented i s.close

variable {r} {c : Command}

/-- What is recorded beside comments is recorded without them. -/
theorem append_uncommented (i : Nat) (hc : c.role ≠ .comment) :
    r.uncommented.append i c = (r.append i c).map uncommented := by
  unfold append
  rw [get?_uncommented]
  cases r.get? i with
  | none => rfl
  | some s =>
    simp only [Option.map_some, Stream.append]
    by_cases hs : s.closed = true
    · simp [Stream.uncommented, hs, Except.map]
    · have hcommands : Command.uncommented s.commands ++ [c]
          = Command.uncommented (s.commands ++ [c]) := by
        rw [Command.uncommented_append, Command.uncommented_cons_of_ne hc]
        rfl
      simp [Stream.uncommented, hs, Except.map, set_uncommented, hcommands]

/-- A comment that is recorded is deleted again. -/
theorem uncommented_of_append {r' : Registry} {i : Nat} (hc : c.role = .comment)
    (happend : r.append i c = .ok r') : r'.uncommented = r.uncommented := by
  unfold append at happend
  cases hi : r.get? i with
  | none =>
    rw [hi] at happend
    cases happend
    rfl
  | some s =>
    rw [hi] at happend
    simp only [Stream.append] at happend
    split at happend
    · cases happend
    · cases happend
      have hs : Stream.uncommented { s with commands := s.commands ++ [c] } = s.uncommented := by
        simp [Stream.uncommented, Command.uncommented_cons_of_comment hc]
      have hi' : r.uncommented.get? i = some s.uncommented := by
        rw [get?_uncommented, hi]
        rfl
      obtain ⟨hlt, hget⟩ := List.getElem?_eq_some_iff.1 hi'
      rw [set_uncommented, hs, set, ← hget, List.set_getElem_self]

end Registry

/-! ### Filters -/

namespace ArchiveFilter

/-- The filter without comments in its recordings, and without a choice about them. -/
def uncommented (f : ArchiveFilter) : ArchiveFilter :=
  { f with capture := false, archives := f.archives.uncommented, objects := f.objects.uncommented }

@[simp] theorem registry_uncommented (f : ArchiveFilter) (kind : StreamKind) :
    f.uncommented.registry kind = (f.registry kind).uncommented := by
  cases kind <;> rfl

end ArchiveFilter

/-- A replay without the comments in it; any other reaction as it is. -/
def Reaction.uncommented : Reaction → Reaction
  | .replay content => .replay (Command.uncommented content)
  | reaction => reaction

namespace ArchiveFilter

variable (f : ArchiveFilter) {c : Command}

theorem replace_uncommented (kind : StreamKind) (r : Registry) (next : Scope) :
    (f.replace kind r next).uncommented = f.uncommented.replace kind r.uncommented next := by
  cases kind <;> rfl

theorem openStream_uncommented (kind : StreamKind) (name : Value) :
    (f.openStream kind name).uncommented = f.uncommented.openStream kind name := by
  refine (f.replace_uncommented kind ((f.registry kind).create name) _).trans ?_
  rw [Registry.create_uncommented, ← registry_uncommented]
  cases kind <;> simp [openStream, replace, uncommented, registry]

theorem closeStream_uncommented (kind : StreamKind) (index : Nat) :
    (f.closeStream kind index).uncommented = f.uncommented.closeStream kind index := by
  refine (f.replace_uncommented kind ((f.registry kind).close index) .idle).trans ?_
  rw [Registry.close_uncommented, ← registry_uncommented]
  rfl

theorem replay_uncommented (kind : StreamKind) (s : Stream) :
    f.uncommented.replay kind s.uncommented = (f.replay kind s).uncommented := by
  change (if f.limit ≤ f.depth then _ else _) = _
  unfold replay
  split <;> rfl

theorem record_uncommented (kind : StreamKind) (index : Nat) (next : Scope)
    (hc : c.role ≠ .comment) :
    f.uncommented.record kind index next c
      = ((f.record kind index next c).1.uncommented,
        (f.record kind index next c).2.uncommented) := by
  unfold record
  rw [registry_uncommented, Registry.append_uncommented index hc]
  cases (f.registry kind).append index c with
  | ok r => exact Prod.ext (f.replace_uncommented kind r next).symm rfl
  | error fault => rfl

/-- **What is no comment is answered alike** with and without the comments. -/
theorem receive_uncommented (hc : c.role ≠ .comment) :
    f.uncommented.receive c
      = ((f.receive c).1.uncommented, (f.receive c).2.uncommented) := by
  unfold receive
  rw [show f.uncommented.scope = f.scope from rfl]
  cases f.scope with
  | idle =>
    unfold receiveIdle
    cases hrole : c.role with
    | archiveBegin => exact Prod.ext (f.openStream_uncommented .archive c.subject).symm rfl
    | objectBegin => exact Prod.ext (f.openStream_uncommented .object c.subject).symm rfl
    | archiveReference =>
      simp only [uncommented, Registry.find?_uncommented]
      cases f.archives.find? c.subject with
      | none => rfl
      | some s => exact Prod.ext rfl (f.replay_uncommented .archive s)
    | objectReference =>
      simp only [uncommented, Registry.find?_uncommented]
      cases f.objects.find? c.subject with
      | none => rfl
      | some s => exact Prod.ext rfl (f.replay_uncommented .object s)
    | comment => exact absurd hrole hc
    | _ => rfl
  | archive index nesting =>
    unfold receiveInArchive
    cases hrole : c.role with
    | archiveEnd =>
      cases nesting with
      | zero => exact Prod.ext (f.closeStream_uncommented .archive index).symm rfl
      | succ n => exact f.record_uncommented _ _ _ hc
    | comment => exact absurd hrole hc
    | _ => exact f.record_uncommented _ _ _ hc
  | object index =>
    unfold receiveInObject
    cases hrole : c.role with
    | objectEnd => exact Prod.ext (f.closeStream_uncommented .object index).symm rfl
    | comment => exact absurd hrole hc
    | _ => exact f.record_uncommented _ _ _ hc

variable {f}

/-- **A comment leaves nothing behind** but itself. -/
theorem Received.comment {g : ArchiveFilter} {reaction : Reaction} (hmove : Received f c g reaction)
    (hc : c.role = .comment) (hfits : f.Fits) :
    g.uncommented = f.uncommented ∧ (reaction = .pass ∨ reaction = .hold) := by
  cases hmove with
  | passed => exact ⟨rfl, Or.inl rfl⟩
  | dropped => exact ⟨rfl, Or.inr rfl⟩
  | recorded kind index r _ _ _ happend =>
    refine ⟨?_, Or.inr rfl⟩
    have hscope : f.scope.advance c.role = f.scope := by
      rw [hc]
      cases f.scope <;> rfl
    rw [hscope]
    refine (f.replace_uncommented kind r f.scope).trans ?_
    rw [Registry.uncommented_of_append hc happend, ← registry_uncommented]
    exact f.uncommented.replace_self kind
  | refused kind index fault htarget happend =>
    exact absurd happend ((hfits.recorded kind index htarget).append_ne_error c fault)
  | opened kind _ hrole => cases kind <;> exact absurd (hrole.symm.trans hc) nofun
  | undefined _ hrole => exact absurd (hrole.symm.trans hc) nofun
  | referred kind _ _ hrole => cases kind <;> exact absurd (hrole.symm.trans hc) nofun
  | closed kind index _ hclose =>
    rw [hc] at hclose
    cases hscope : f.scope <;> simp [hscope, Scope.closes] at hclose

end ArchiveFilter

/-! ### Stages and chains -/

/-- The stage without comments in what it keeps. -/
def Stage.uncommented : Stage → Stage
  | .relay => .relay
  | .tap seen => .tap (Command.uncommented seen.toList).toArray
  | .archive f => .archive f.uncommented

namespace Stage

variable {s : Stage} {c : Command}

theorem receive_uncommented (s : Stage) (hc : c.role ≠ .comment) :
    s.uncommented.receive c = ((s.receive c).1.uncommented, (s.receive c).2.uncommented) := by
  cases s with
  | relay => rfl
  | tap seen =>
    simp [uncommented, receive, Reaction.uncommented, Command.uncommented_cons_of_ne hc]
  | archive f =>
    simp only [uncommented, receive]
    rw [f.receive_uncommented hc]

theorem receive_comment (hc : c.role = .comment) (hfits : s.Fits) :
    (s.receive c).1.uncommented = s.uncommented ∧
      ((s.receive c).2 = .pass ∨ (s.receive c).2 = .hold) := by
  cases s with
  | relay => exact ⟨rfl, Or.inl rfl⟩
  | tap seen =>
    exact ⟨by simp [uncommented, receive, Command.uncommented_cons_of_comment hc], Or.inl rfl⟩
  | archive f =>
    obtain ⟨hstate, hreaction⟩ := (f.received c).comment hc hfits
    exact ⟨congrArg Stage.archive hstate, hreaction⟩

theorem enterReplay_uncommented (s : Stage) :
    s.enterReplay.uncommented = s.uncommented.enterReplay := by
  cases s <;> rfl

theorem leaveReplay_uncommented (s : Stage) :
    s.leaveReplay.uncommented = s.uncommented.leaveReplay := by
  cases s <;> rfl

end Stage

/-- The collector without the comments that it took. -/
def Collector.uncommented (s : Collector) : Collector :=
  ⟨(Command.uncommented s.toList).toArray⟩

namespace Chain

variable {c : Command}

theorem walk_uncommented (ss : List Stage) (hc : c.role ≠ .comment) :
    walk (ss.map Stage.uncommented) c = ((walk ss c).1.map Stage.uncommented,
      (walk ss c).2.1.uncommented, (walk ss c).2.2) := by
  induction ss with
  | nil => rfl
  | cons s ss ih =>
    have hs := s.receive_uncommented hc
    rcases h : s.receive c with ⟨s', reaction⟩
    rw [h] at hs
    by_cases hpass : reaction = .pass
    · subst hpass
      rw [List.map_cons, walk_cons_of_pass hs, walk_cons_of_pass h, ih]
      rfl
    · have hpass' : reaction.uncommented ≠ .pass := by
        cases reaction <;> first | exact absurd rfl hpass | nofun
      rw [List.map_cons, walk_cons_of_ne_pass hs hpass', walk_cons_of_ne_pass h hpass]
      rfl

/-- A comment goes through the whole row or is held somewhere on its way. -/
theorem walk_comment {ss : List Stage} (hc : c.role = .comment) (hfits : ∀ s ∈ ss, s.Fits) :
    (walk ss c).1.map Stage.uncommented = ss.map Stage.uncommented ∧
      ((walk ss c).2.1 = .pass ∨ (walk ss c).2.1 = .hold) := by
  induction ss with
  | nil => exact ⟨rfl, Or.inl rfl⟩
  | cons s ss ih =>
    obtain ⟨hs, hss⟩ := List.forall_mem_cons.1 hfits
    obtain ⟨hstate, hreaction⟩ := Stage.receive_comment hc hs
    rcases h : s.receive c with ⟨s', reaction⟩
    rw [h] at hstate hreaction
    rcases hreaction with rfl | rfl
    · obtain ⟨hrow, hrest⟩ := ih hss
      rw [walk_cons_of_pass h]
      exact ⟨by simp only [List.map_cons, hstate, hrow], hrest⟩
    · rw [walk_cons_of_ne_pass h nofun]
      exact ⟨by simp only [List.map_cons, hstate], Or.inr rfl⟩

/-- The chain without comments in what its stages and its sink keep. -/
def uncommented (ch : Chain Collector) : Chain Collector :=
  ⟨ch.stages.map Stage.uncommented, ch.sink.uncommented, ch.log⟩

/-- What is left to do, without the comments in it. -/
def Outcome.uncommented : Outcome → Outcome
  | .replay k content => .replay k (Command.uncommented content)
  | outcome => outcome

/-- **A command that is no comment** does the same with and without the comments. -/
theorem step_uncommented (ch : Chain Collector) (hc : c.role ≠ .comment) :
    ch.uncommented.step 0 c = ((ch.step 0 c).1.uncommented, (ch.step 0 c).2.uncommented) := by
  have hwalk := walk_uncommented ch.stages hc
  simp only [step, List.drop_zero, List.take_zero, List.nil_append, uncommented, hwalk]
  rcases walk ch.stages c with ⟨ss, reaction, passed⟩
  cases reaction with
  | pass =>
    have htaken : (ch.sink.add c).uncommented = ch.sink.uncommented.add c := by
      simp [Collector.uncommented, Collector.add, Collector.toList,
        Command.uncommented_cons_of_ne hc]
    exact congrArg (fun sink => (Chain.mk (ss.map Stage.uncommented) sink ch.log, Outcome.done))
      htaken.symm
  | _ => rfl

/-- **A comment does nothing** that is left without the comments. -/
theorem step_comment {ch : Chain Collector} (hc : c.role = .comment)
    (hfits : ∀ s ∈ ch.stages, s.Fits) :
    (ch.step 0 c).1.uncommented = ch.uncommented ∧ (ch.step 0 c).2 = .done := by
  obtain ⟨hrow, hreaction⟩ := walk_comment hc hfits
  simp only [step, List.drop_zero, List.take_zero, List.nil_append]
  rcases hw : walk ch.stages c with ⟨ss, reaction, passed⟩
  rw [hw] at hrow hreaction
  rcases hreaction with rfl | rfl
  · have htaken : (ch.sink.add c).uncommented = ch.sink.uncommented := by
      simp [Collector.uncommented, Collector.add, Collector.toList,
        Command.uncommented_cons_of_comment hc]
    refine ⟨?_, rfl⟩
    change Chain.mk (ss.map Stage.uncommented) (ch.sink.add c).uncommented ch.log = _
    rw [hrow, htaken]
    rfl
  · exact ⟨congrArg (Chain.mk · ch.sink.uncommented ch.log) hrow, rfl⟩

theorem enterReplay_uncommented (ch : Chain Collector) (k : Nat) :
    (ch.enterReplay k).uncommented = ch.uncommented.enterReplay k :=
  congrArg (Chain.mk · ch.sink.uncommented ch.log)
    (map_modify Stage.enterReplay_uncommented ch.stages k)

theorem leaveReplay_uncommented (ch : Chain Collector) (k : Nat) :
    (ch.leaveReplay k).uncommented = ch.uncommented.leaveReplay k :=
  congrArg (Chain.mk · ch.sink.uncommented ch.log)
    (map_modify Stage.leaveReplay_uncommented ch.stages k)

/-! ### Courses -/

/-- **A course without its comments** is the course of the calls without theirs. -/
theorem Issues.uncommented {cs : List Command} {ch ch' : Chain Collector}
    (h : Issues cs ch ch' none) (hfits : ∀ s ∈ ch.stages, s.Fits) :
    Issues (Command.uncommented cs) ch.uncommented ch'.uncommented none := by
  generalize hnone : (none : Option Fault) = r at h
  induction h with
  | nil ch => exact .nil ch.uncommented
  | @answered c d cs ch ch₁ ch₂ r hc hstep hrest ih =>
    have hmoment : Passes (c :: cs) ch ch₁ := by
      have hstepped : Passes (c :: cs) ch (ch.step 0 d).1 := .stepped hc
      rwa [hstep] at hstepped
    have hlater := ih (hmoment.fits hfits) hnone
    by_cases hrole : c.role = .comment
    · -- The comment is not called, and would have changed nothing.
      have hquiet := (step_comment ((Command.role_of_reissue hc).trans hrole) hfits).1
      rw [hstep] at hquiet
      rw [Command.uncommented_cons_of_comment hrole, ← hquiet]
      exact hlater
    · have hsame := ch.step_uncommented (c := d) (by rwa [Command.role_of_reissue hc])
      rw [hstep] at hsame
      rw [Command.uncommented_cons_of_ne hrole]
      exact .answered hc hsame hlater
  | @replayed c d cs content ch ch₁ ch₂ ch₃ k r hc hstep hreplay hrest ihreplay ihrest =>
    have hinside : Passes (c :: cs) ch (ch₁.enterReplay k) := .inside hc hstep (.here _ _)
    have hafter : Passes (c :: cs) ch (ch₂.leaveReplay k) := .left hc hstep hreplay
    have hcontent := ihreplay (hinside.fits hfits) rfl
    have hlater := ihrest (hafter.fits hfits) hnone
    have hrole : c.role ≠ .comment := by
      intro hrole
      have hdone := (step_comment ((Command.role_of_reissue hc).trans hrole) hfits).2
      rw [hstep] at hdone
      cases hdone
    have hsame := ch.step_uncommented (c := d) (by rwa [Command.role_of_reissue hc])
    rw [hstep] at hsame
    rw [Command.uncommented_cons_of_ne hrole]
    rw [enterReplay_uncommented] at hcontent
    rw [leaveReplay_uncommented] at hlater
    exact .replayed hc hsame hcontent hlater
  | misused | stopped | interrupted => cases hnone

/-- A call that misuses its procedure changes nothing. -/
theorem issue_of_misused {σ : Type} [Sink σ] (ch : Chain σ) {f : Fault}
    (h : c.reissue = .error f) : (ch.issue 0 c).1 = ch := by
  have hcourse : Issues [c] ch ch (some f) := .misused h
  exact congrArg Prod.fst (issues_iff.1 hcourse)

/-- **Calls without their comments** leave the chain without its comments as the calls
leave it. -/
theorem calls_uncommented (cs : List Command) {ch : Chain Collector}
    (hfits : ∀ s ∈ ch.stages, s.Fits) (hrecorded : ∀ s ∈ ch.stages, s.Recorded Command.InOrder) :
    (ch.calls cs).uncommented = ch.uncommented.calls (Command.uncommented cs) := by
  induction cs generalizing ch with
  | nil => rfl
  | cons c cs ih =>
    have hcourse := issues_issueAll ch [c]
    have hmoment : Passes [c] ch (ch.issue 0 c).1 := .of_issues hcourse
    have hlater := ih (hmoment.fits hfits) (hmoment.recordedInOrder hrecorded)
    have hfirst : (ch.issue 0 c).1.uncommented
        = ch.uncommented.calls (Command.uncommented [c]) := by
      cases hc : c.reissue with
      | error f =>
        rw [issue_of_misused ch hc]
        by_cases hrole : c.role = .comment
        · rw [Command.uncommented_cons_of_comment hrole]
          rfl
        · rw [Command.uncommented_cons_of_ne hrole]
          exact (issue_of_misused ch.uncommented hc).symm
      | ok d =>
        have hnone := hcourse.not_fault (fun _ _ => rfl)
          (fun c' hc' => ⟨d, by rwa [List.mem_singleton.1 hc']⟩) hfits hrecorded
        rw [hnone] at hcourse
        exact (calls_of_issues (hcourse.uncommented hfits)).symm
    have hsplit : Command.uncommented (c :: cs)
        = Command.uncommented [c] ++ Command.uncommented cs :=
      Command.uncommented_append [c] cs
    calc (ch.calls (c :: cs)).uncommented
        = (ch.issue 0 c).1.uncommented.calls (Command.uncommented cs) := hlater
      _ = (ch.uncommented.calls (Command.uncommented [c])).calls (Command.uncommented cs) := by
        rw [hfirst]
      _ = ch.uncommented.calls (Command.uncommented (c :: cs)) := by
        rw [hsplit, calls, calls, calls, List.foldl_append]

/-- A chain whose stages have one gauge is a single filter. -/
theorem exists_archive_of_gauges {σ : Type} {ch : Chain σ} {limit depth : Nat}
    (h : ch.gauges = [some (limit, depth)]) :
    ∃ f, ch.stages = [.archive f] ∧ f.limit = limit ∧ f.depth = depth := by
  obtain ⟨s, hs, hgauge⟩ := List.map_eq_singleton_iff.1 h
  obtain ⟨f, hf, hlimits⟩ := Option.map_eq_some_iff.1 hgauge
  obtain ⟨hlimit, hdepth⟩ := Prod.mk.inj hlimits
  rcases s with _ | seen | g
  · cases hf
  · cases hf
  · obtain rfl : g = f := Option.some.inj hf
    exact ⟨g, hs, hlimit, hdepth⟩

/-- The chain of one new filter and a collector. -/
def filtering (limit : Nat) (capture : Bool) : Chain Collector :=
  (ofSink .empty).addStage (.archive (.fresh limit capture))

/-- **Comments do not interfere.** Let two rows of calls be the same but for comments, and let
each be made at the head of a new filter in front of a collector, with the same limit, whether
the filters keep comments or not. Then the collectors take the same but for comments, the same
reports are made in the same order, both filters have the same scope and as many replays in
progress, and they have streams of the same names, open or closed alike, with the same
commands in them but for comments. -/
theorem calls_eq_but_comments (limit : Nat) (capture capture' : Bool) {cs cs' : List Command}
    (h : Command.uncommented cs = Command.uncommented cs') :
    let ch := (filtering limit capture).calls cs
    let ch' := (filtering limit capture').calls cs'
    Command.uncommented ch.sink.toList = Command.uncommented ch'.sink.toList ∧
      ch.log = ch'.log ∧
      ∃ f g, ch.stages = [.archive f] ∧ ch'.stages = [.archive g] ∧ f.scope = g.scope ∧
        f.depth = g.depth ∧
        ∀ kind, (f.registry kind).names = (g.registry kind).names ∧
          (f.registry kind).streams.map Stream.closed
            = (g.registry kind).streams.map Stream.closed ∧
          (f.registry kind).streams.map (fun s => Command.uncommented s.commands)
            = (g.registry kind).streams.map (fun s => Command.uncommented s.commands) := by
  intro ch ch'
  have hfits : ∀ capture, ∀ s ∈ (filtering limit capture).stages, s.Fits := by
    intro capture s hs
    obtain rfl := List.mem_singleton.1 hs
    exact ArchiveFilter.fits_fresh limit capture
  have hrecorded : ∀ capture, ∀ s ∈ (filtering limit capture).stages,
      s.Recorded Command.InOrder := by
    intro capture s hs
    obtain rfl := List.mem_singleton.1 hs
    intro kind t ht
    cases kind <;> cases ht
  have hsame : ch.uncommented = ch'.uncommented := by
    rw [calls_uncommented cs (hfits capture) (hrecorded capture),
      calls_uncommented cs' (hfits capture') (hrecorded capture'), h]
    rfl
  have hgauges : ch.gauges = [some (limit, 0)] := gauges_calls _ cs
  have hgauges' : ch'.gauges = [some (limit, 0)] := gauges_calls _ cs'
  obtain ⟨f, hf, -, hdepth⟩ := exists_archive_of_gauges hgauges
  obtain ⟨g, hg, -, hdepth'⟩ := exists_archive_of_gauges hgauges'
  obtain ⟨hstages, hsink, hlog⟩ := Chain.mk.inj hsame
  have hfilters : f.uncommented = g.uncommented := by
    simpa [hf, hg, Stage.uncommented] using hstages
  refine ⟨by simpa [Collector.uncommented] using hsink, hlog, f, g, hf, hg,
    congrArg (·.scope) hfilters, hdepth.trans hdepth'.symm, fun kind => ?_⟩
  have hstreams : (f.registry kind).streams.map Stream.uncommented
      = (g.registry kind).streams.map Stream.uncommented := by
    have hregistry := congrArg (·.registry kind) hfilters
    simpa [Registry.uncommented] using hregistry
  -- Names, ends and contents are read off the streams without their comments.
  have hread : ∀ {α : Type} (read : Stream → α),
      (f.registry kind).streams.map (read ∘ Stream.uncommented)
        = (g.registry kind).streams.map (read ∘ Stream.uncommented) := by
    intro α read
    rw [← List.map_map, hstreams, List.map_map]
  exact ⟨hread Stream.name, hread Stream.closed, hread Stream.commands⟩

/-- A comment. -/
def remark : Command := ⟨"ArchiveRecord", [.text "comment", .text "remark"], none⟩

/-- An archive that defines an object, with a comment inside and outside of it. -/
def remarked : List Command :=
  [⟨"ArchiveBegin", [.text [.char 'a']], some .empty⟩, remark,
    ⟨"ObjectBegin", [.text [.char 'o']], none⟩, remark, ⟨"WorldBegin", [], none⟩,
    ⟨"ObjectEnd", [], none⟩, ⟨"ArchiveEnd", [], none⟩, selfReference,
    ⟨"ObjectInstance", [.text [.char 'o']], none⟩]

/-- With its comments and kept, and with another comment and none kept: two comments are
delivered, or one, and the replay of the archive records a comment in the object, or does not. -/
theorem calls_eq_but_comments_remarked :
    let ch := (filtering 2 true).calls remarked
    let ch' := (filtering 2 false).calls (Command.uncommented remarked ++ [remark])
    Command.uncommented remarked
        = Command.uncommented (Command.uncommented remarked ++ [remark]) ∧
      Command.uncommented ch.sink.toList = Command.uncommented ch'.sink.toList ∧
      ch.sink.toList.length = 3 ∧ ch'.sink.toList.length = 2 ∧
      ch.archiveFilters.map (fun f => f.objects.streams.map Stream.length) = [[2]] ∧
      ch'.archiveFilters.map (fun f => f.objects.streams.map Stream.length) = [[1]] := by
  intro ch ch'
  have hsame : Command.uncommented remarked
      = Command.uncommented (Command.uncommented remarked ++ [remark]) := rfl
  refine ⟨hsame, (calls_eq_but_comments 2 true false hsame).1, ?_, ?_, ?_, ?_⟩
  all_goals decide +kernel

end Chain

end SceneReplay

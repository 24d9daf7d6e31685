import SceneReplay.Proofs.Chain.Trace

/-!
# Names and reports

An archive filter records under names, and its reports show names. All of them are subjects of
commands that came to it: a stream has the name of the command that opened it
(`SceneReplay.ArchiveFilter.NamedBy`), and a report is about the command that led to it or about a
stream (`SceneReplay.ArchiveFilter.ReportedBy`). So whatever holds of all commands that are called
holds of the commands that such names are the subjects of, also inside replays
(`SceneReplay.Chain.Speaks.issues`).
-/

namespace SceneReplay

/-! ### Names of streams -/

namespace Registry

variable {r : Registry}

theorem names_create (r : Registry) (name : Value) : (r.create name).names = r.names ++ [name] := by
  simp [names, create, Stream.opened]

/-- A stream in the place of one of the same name. -/
theorem names_set {i : Nat} {s t : Stream} (hs : r.get? i = some s) (hname : t.name = s.name) :
    (r.set i t).names = r.names := by
  have hi : (r.streams.map Stream.name)[i]? = some t.name := by
    rw [get?] at hs
    rw [List.getElem?_map, hs, hname]
    rfl
  obtain ⟨hlt, hget⟩ := List.getElem?_eq_some_iff.1 hi
  rw [names, set, List.map_set, ← hget, List.set_getElem_self]
  rfl

theorem names_append {r' : Registry} {i : Nat} {c : Command} (h : r.append i c = .ok r') :
    r'.names = r.names := by
  unfold append at h
  cases hi : r.get? i with
  | none =>
    rw [hi] at h
    cases h
    rfl
  | some s =>
    simp only [hi, Stream.append] at h
    split at h
    · cases h
    · cases h
      exact names_set hi rfl

theorem names_close (r : Registry) (i : Nat) : (r.close i).names = r.names := by
  unfold close
  cases hi : r.get? i with
  | none => rfl
  | some s => exact names_set hi rfl

end Registry

namespace ArchiveFilter

variable {P : Command → Prop} {f g : ArchiveFilter} {c : Command} {reaction : Reaction}

/-- The name that a command as `P` says opens a stream of the given kind with. -/
def IsNameOf (P : Command → Prop) (kind : StreamKind) (name : Value) : Prop :=
  ∃ c, P c ∧ c.role = kind.opening ∧ name = c.subject

/-- All streams of the filter have the names that commands as `P` says opened them with. -/
def NamedBy (P : Command → Prop) (f : ArchiveFilter) : Prop :=
  ∀ kind, ∀ name ∈ (f.registry kind).names, IsNameOf P kind name

theorem NamedBy.replace (h : f.NamedBy P) (kind : StreamKind) {r : Registry}
    (hr : ∀ name ∈ r.names, IsNameOf P kind name) (next : Scope) :
    (f.replace kind r next).NamedBy P := by
  intro other
  rcases eq_or_ne other kind with rfl | hne
  · rw [registry_replace]
    exact hr
  · rw [f.registry_replace_of_ne kind r next hne]
    exact h other

/-- **A name is that of the command that opened the stream.** -/
theorem NamedBy.receive (h : f.NamedBy P) (hc : P c) (hmove : Received f c g reaction) :
    g.NamedBy P := by
  cases hmove with
  | passed | dropped | undefined | referred | refused => exact h
  | opened kind _ hrole =>
    refine h.replace kind ?_ _
    rw [Registry.names_create, List.forall_mem_append]
    exact ⟨h kind, List.forall_mem_singleton.2 ⟨c, hc, hrole, rfl⟩⟩
  | recorded kind index r _ _ _ happend =>
    exact h.replace kind (Registry.names_append happend ▸ h kind) _
  | closed kind index =>
    exact h.replace kind (((f.registry kind).names_close index).symm ▸ h kind) _

/-! ### Reports -/

/-- **The reports of a filter about commands** as `P` says. -/
inductive ReportedBy (P : Command → Prop) : Report → Prop
  /-- The command refers to an object that is not defined. -/
  | badHandle {c : Command} (hc : P c) (hrole : c.role = .objectReference) :
      ReportedBy P (badHandle c.subject)
  /-- A stream that the command opened is not replayed once more: too many replays are in
  progress. -/
  | tooDeep {kind : StreamKind} {name : Value} (hname : IsNameOf P kind name) (limit : Nat) :
      ReportedBy P (tooDeep limit kind name)

/-- **A report is about a command** that came to the filter. -/
theorem NamedBy.reportedBy {r : Report} (h : f.NamedBy P) (hc : P c)
    (hmove : Received f c g (.report r)) : ReportedBy P r := by
  generalize hreaction : Reaction.report r = reaction at hmove
  cases hmove with
  | passed | dropped | opened | recorded | refused | closed => cases hreaction
  | undefined _ hrole =>
    cases hreaction
    exact .badHandle hc hrole
  | referred kind s _ _ hfind =>
    unfold replay at hreaction
    split at hreaction
    · cases hreaction
      have hs : s.name ∈ (f.registry kind).names :=
        List.mem_map_of_mem (Registry.mem_of_find? hfind)
      exact .tooDeep (h kind _ hs) f.limit
    · cases hreaction

end ArchiveFilter

/-! ### All stages of a chain -/

namespace Stage

variable {P : Command → Prop} {s : Stage}

/-- All streams of the stage have the names of commands as `P` says. -/
def NamedBy (P : Command → Prop) : Stage → Prop
  | .archive f => f.NamedBy P
  | _ => True

theorem NamedBy.receive (h : s.NamedBy P) {c : Command} (hc : P c) :
    (s.receive c).1.NamedBy P := by
  cases s with
  | archive f => exact ArchiveFilter.NamedBy.receive h hc (f.received c)
  | _ => trivial

theorem NamedBy.enterReplay (h : s.NamedBy P) : s.enterReplay.NamedBy P := by
  cases s with
  | archive f => exact fun kind => by cases kind <;> [exact h .archive; exact h .object]
  | _ => trivial

theorem NamedBy.leaveReplay (h : s.NamedBy P) : s.leaveReplay.NamedBy P := by
  cases s with
  | archive f => exact fun kind => by cases kind <;> [exact h .archive; exact h .object]
  | _ => trivial

theorem NamedBy.reportedBy (h : s.NamedBy P) {c : Command} (hc : P c) {r : Report}
    (hreport : (s.receive c).2 = .report r) : ArchiveFilter.ReportedBy P r := by
  cases s with
  | archive f =>
    have hmove := f.received c
    have hreaction : (f.receive c).2 = .report r := hreport
    rw [hreaction] at hmove
    exact ArchiveFilter.NamedBy.reportedBy h hc hmove
  | _ => cases hreport

end Stage

namespace Chain

variable {σ : Type} {P : Command → Prop} {R : Report → Prop}

/-- **What a chain says**: it has recorded commands as `P` says, under names of such commands,
and its log holds reports as `R` says and reports of its filters about such commands. -/
structure Speaks (P : Command → Prop) (R : Report → Prop) (ch : Chain σ) : Prop where
  /-- What is recorded is as `P` says. -/
  holds : ch.Holds P
  /-- So are the commands that the streams are named by. -/
  named : ∀ s ∈ ch.stages, s.NamedBy P
  /-- So are the commands that the reports are about, but for those from elsewhere. -/
  log : ∀ r ∈ ch.log.toList, R r ∨ ArchiveFilter.ReportedBy P r

theorem Speaks.addReport {ch : Chain σ} (h : ch.Speaks P R) {r : Report} (hr : R r) :
    (ch.addReport r).Speaks P R where
  holds := h.holds
  named := h.named
  log := by
    rw [Chain.addReport, Log.toList_add, List.forall_mem_append]
    exact ⟨h.log, List.forall_mem_singleton.2 (.inl hr)⟩

theorem Speaks.enterReplay {ch : Chain σ} (h : ch.Speaks P R) (k : Nat) :
    (ch.enterReplay k).Speaks P R :=
  ⟨h.holds.enterReplay k,
    forall_modify (P := Stage.NamedBy P) (fun _ hs => hs.enterReplay) h.named k, h.log⟩

theorem Speaks.leaveReplay {ch : Chain σ} (h : ch.Speaks P R) (k : Nat) :
    (ch.leaveReplay k).Speaks P R :=
  ⟨h.holds.leaveReplay k,
    forall_modify (P := Stage.NamedBy P) (fun _ hs => hs.leaveReplay) h.named k, h.log⟩

variable [Sink σ] {ch : Chain σ}

/-- A step logs nothing but the report of a stage about the command. -/
theorem log_step (ch : Chain σ) (c : Command) : ∀ r ∈ (ch.step 0 c).1.log.toList,
    r ∈ ch.log.toList ∨ ∃ s ∈ ch.stages, (s.receive c).2 = .report r := by
  have hwalk : (walk ch.stages c).2.1 ≠ .pass →
      ∃ s ∈ ch.stages, (s.receive c).2 = (walk ch.stages c).2.1 := exists_of_walk
  simp only [Chain.step, List.drop_zero]
  rcases hw : walk ch.stages c with ⟨ss, reaction, passed⟩
  rw [hw] at hwalk
  cases reaction with
  | report r =>
    obtain ⟨s, hs, hreport⟩ := hwalk Reaction.noConfusion
    simp only [Chain.addReport, Log.toList_add, List.forall_mem_append, List.forall_mem_singleton]
    exact ⟨fun r' hr' => .inl hr', .inr ⟨s, hs, hreport⟩⟩
  | _ => exact fun r hr => .inl hr

theorem Speaks.step (h : ch.Speaks P R) {d : Command} (hd : d.InOrder ∧ P d) {ch₁ : Chain σ}
    {outcome : Outcome} (hstep : ch.step 0 d = (ch₁, outcome)) : ch₁.Speaks P R := by
  obtain rfl : (ch.step 0 d).1 = ch₁ := by rw [hstep]
  refine ⟨h.holds.of_step hd hstep, ?_, fun r hr => ?_⟩
  · rw [stages_step]
    exact forall_walk (fun s hs => Stage.NamedBy.receive hs hd.2) h.named
  · rcases log_step ch d r hr with hr | ⟨s, hs, hreport⟩
    · exact h.log r hr
    · exact .inr ((h.named s hs).reportedBy hd.2 hreport)

/-- **What a chain says stays what commands of this kind say**, as long as such commands are
called. -/
theorem Speaks.issues {cs : List Command} {ch ch' : Chain σ} {r : Option Fault}
    (h : Issues cs ch ch' r) (hcs : ∀ c ∈ cs, ∀ d, c.reissue = .ok d → P d)
    (hch : ch.Speaks P R) : ch'.Speaks P R := by
  -- A command is in order when it has been taken down.
  have htaken : ∀ {c : Command} {cs : List Command} {d : Command}, c.reissue = .ok d →
      (∀ c' ∈ c :: cs, ∀ d, c'.reissue = .ok d → P d) → d.InOrder ∧ P d :=
    fun hc hcs => ⟨Command.inOrder_of_reissue hc, hcs _ List.mem_cons_self _ hc⟩
  induction h with
  | nil | misused => exact hch
  | answered hc hstep _ ih =>
    exact ih (fun c hc => hcs c (List.mem_cons_of_mem _ hc)) (hch.step (htaken hc hcs) hstep)
  | stopped hc hstep => exact hch.step (htaken hc hcs) hstep
  | replayed hc hstep _ _ ihreplay ihrest =>
    have hstepped := hch.step (htaken hc hcs) hstep
    have hreplayed := ihreplay (hch.holds.of_replay hstep) (hstepped.enterReplay _)
    exact ihrest (fun c hc => hcs c (List.mem_cons_of_mem _ hc)) (hreplayed.leaveReplay _)
  | interrupted hc hstep _ ih =>
    have hstepped := hch.step (htaken hc hcs) hstep
    exact (ih (hch.holds.of_replay hstep) (hstepped.enterReplay _)).leaveReplay _

theorem Speaks.issue (h : ch.Speaks P R) {c : Command} (hc : ∀ d, c.reissue = .ok d → P d) :
    (ch.issue 0 c).1.Speaks P R :=
  Speaks.issues (issues_issueAll ch [c]) (List.forall_mem_singleton.2 hc) h

end Chain

end SceneReplay

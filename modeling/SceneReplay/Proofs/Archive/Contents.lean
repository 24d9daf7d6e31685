import SceneReplay.Proofs.Archive.Scope

/-!
# What is recorded

Whatever holds of every command that reaches a filter holds of every command in its
recordings (`SceneReplay.ArchiveFilter.AllRecorded.receive`). Commands reach a filter
only after they were taken down, so everything that is recorded is in order
(`SceneReplay.Chain.Reachable.recordedInOrder`), and what a replay issues again is
never a misuse.

Together with the fit between the scope and the recordings this means that a course of
calls with the right number of arguments breaks off only where the sink refuses a command,
and then all filters are idle (`SceneReplay.Chain.Issues.refused`). Where the sink takes all
commands that are in order, no call fails (`SceneReplay.Chain.Issues.not_fault_of_takes`).
-/

namespace SceneReplay

/-! ### What a call is taken down as -/

namespace Command

variable {c d : Command}

/-- A call with the right number of arguments is taken down: parameters that the
procedure does not accept are left behind. -/
theorem reissue_of_arity {p : Procedure} (hp : Procedure.find? c.proc = some p)
    (hlen : c.args.length = p.arity) : ∃ d, c.reissue = .ok d := by
  cases hps : p.takesParams <;> simp [reissue, hp, create, hlen, handedOn, hps]

/-- A call is taken down as a call of the same procedure with the arguments frozen. -/
theorem parts_of_reissue (h : c.reissue = .ok d) :
    d.proc = c.proc ∧ d.args = Value.freezeAll c.args := by
  unfold reissue at h
  split at h
  · cases h
  · rename_i p hp
    rw [← Procedure.name_of_find? hp]
    unfold create at h
    split_ifs at h <;> cases h <;> exact ⟨rfl, rfl⟩

/-- Taking a call down changes nothing about its role. -/
theorem role_of_reissue (h : c.reissue = .ok d) : d.role = c.role := by
  rw [role, (parts_of_reissue h).1, role]

/-- What a call is about is frozen when it is taken down. -/
theorem subject_of_reissue (h : c.reissue = .ok d) : d.subject = c.subject.freeze := by
  rw [subject, (parts_of_reissue h).2, subject]
  cases c.args <;> simp [Value.freeze]

end Command

/-! ### Recorded commands -/

namespace Registry

variable {P : Command → Prop}

/-- All commands in the streams of the registry are as `P` says. -/
def AllRecorded (P : Command → Prop) (r : Registry) : Prop :=
  ∀ s ∈ r.streams, ∀ c ∈ s.commands, P c

theorem AllRecorded.create {r : Registry} (h : r.AllRecorded P) (name : Value) :
    (r.create name).AllRecorded P := by
  intro s hs c hc
  rw [Registry.create, List.mem_append, List.mem_singleton] at hs
  rcases hs with hs | rfl
  · exact h s hs c hc
  · cases hc

theorem AllRecorded.set {r : Registry} (h : r.AllRecorded P) {s : Stream}
    (hs : ∀ c ∈ s.commands, P c) (i : Nat) : (r.set i s).AllRecorded P := by
  intro t ht c hc
  rcases List.mem_or_eq_of_mem_set ht with ht | rfl
  · exact h t ht c hc
  · exact hs c hc

theorem AllRecorded.append {r r' : Registry} (h : r.AllRecorded P) {c : Command} (hc : P c)
    {i : Nat} (happend : r.append i c = .ok r') : r'.AllRecorded P := by
  unfold Registry.append at happend
  cases hi : r.get? i with
  | none =>
    rw [hi] at happend
    cases happend
    exact h
  | some s =>
    rw [hi] at happend
    simp only [Stream.append] at happend
    split at happend
    · cases happend
    · cases happend
      refine h.set (fun d hd => ?_) i
      rw [List.mem_append, List.mem_singleton] at hd
      rcases hd with hd | rfl
      · exact h s (List.mem_of_getElem? hi) d hd
      · exact hc

theorem AllRecorded.close {r : Registry} (h : r.AllRecorded P) (i : Nat) :
    (r.close i).AllRecorded P := by
  unfold Registry.close
  cases hi : r.get? i with
  | none => exact h
  | some s => exact h.set (s := s.close) (h s (List.mem_of_getElem? hi)) i

end Registry

namespace ArchiveFilter

variable {P : Command → Prop}

/-- All commands in the recordings of the filter are as `P` says. -/
def AllRecorded (P : Command → Prop) (f : ArchiveFilter) : Prop :=
  ∀ kind, (f.registry kind).AllRecorded P

theorem AllRecorded.replace {f : ArchiveFilter} (h : f.AllRecorded P) (kind : StreamKind)
    {r : Registry} (hr : r.AllRecorded P) (next : Scope) :
    (f.replace kind r next).AllRecorded P := by
  intro other
  rcases eq_or_ne other kind with rfl | hne
  · rw [registry_replace]
    exact hr
  · rw [f.registry_replace_of_ne kind r next hne]
    exact h other

/-- **What holds of the commands that come holds of the commands recorded.** -/
theorem AllRecorded.receive {f g : ArchiveFilter} {c : Command} {reaction : Reaction}
    (h : f.AllRecorded P) (hc : P c) (hmove : Received f c g reaction) : g.AllRecorded P := by
  cases hmove with
  | passed | dropped | undefined | referred | refused => exact h
  | opened kind => exact h.replace kind ((h kind).create _) _
  | recorded kind index r _ _ _ happend => exact h.replace kind ((h kind).append hc happend) _
  | closed kind index => exact h.replace kind ((h kind).close index) _

/-- What a filter replays was recorded. -/
theorem AllRecorded.of_replay {f g : ArchiveFilter} {c : Command} {content : List Command}
    (h : f.AllRecorded P) (hmove : Received f c g (.replay content)) : ∀ d ∈ content, P d := by
  obtain ⟨-, -, -, kind, s, -, hfind, rfl⟩ := hmove.of_replay
  exact h kind s (Registry.mem_of_find? hfind)

end ArchiveFilter

namespace Stage

/-- All commands in the recordings of the stage are as `P` says. -/
def Recorded (P : Command → Prop) : Stage → Prop
  | .archive f => f.AllRecorded P
  | _ => True

variable {P : Command → Prop}

theorem Recorded.receive {s : Stage} (h : s.Recorded P) {c : Command} (hc : P c) :
    (s.receive c).1.Recorded P := by
  cases s with
  | relay => trivial
  | tap seen => trivial
  | archive f => exact ArchiveFilter.AllRecorded.receive h hc (f.received c)

theorem Recorded.enterReplay {s : Stage} (h : s.Recorded P) : s.enterReplay.Recorded P := by
  cases s with
  | archive f => exact fun kind => by cases kind <;> [exact h .archive; exact h .object]
  | _ => trivial

theorem Recorded.leaveReplay {s : Stage} (h : s.Recorded P) : s.leaveReplay.Recorded P := by
  cases s with
  | archive f => exact fun kind => by cases kind <;> [exact h .archive; exact h .object]
  | _ => trivial

/-- A stage whose scope fits its recordings refuses nothing. -/
theorem Fits.not_fault {s : Stage} (h : s.Fits) (c : Command) (f : Fault) :
    (s.receive c).2 ≠ .fault f := by
  cases s with
  | relay => nofun
  | tap seen => nofun
  | archive g => exact ArchiveFilter.Fits.not_fault h (g.received c) f

/-- Nothing is recorded in a new stage. -/
theorem IsNew.recorded {s : Stage} (h : s.IsNew) : s.Recorded P := by
  cases s with
  | archive f =>
    obtain ⟨limit, capture, -, -, rfl⟩ := h
    intro kind s hs
    cases kind <;> cases hs
  | _ => trivial

end Stage

namespace Chain

variable {σ : Type} [Sink σ]

/-- **All that is recorded in a reachable chain is in order.** -/
theorem Reachable.recordedInOrder {ch : Chain σ} (h : ch.Reachable) :
    ∀ s ∈ ch.stages, s.Recorded Command.InOrder :=
  h.forall_stages (P := Stage.Recorded Command.InOrder) (fun _ _ hd hs => hs.receive hd)
    (fun _ => Stage.Recorded.enterReplay) (fun _ => Stage.Recorded.leaveReplay)
    fun _ => Stage.IsNew.recorded

theorem Passes.recordedInOrder {cs : List Command} {ch st : Chain σ} (h : Passes cs ch st)
    (hch : ∀ s ∈ ch.stages, s.Recorded Command.InOrder) :
    ∀ s ∈ st.stages, s.Recorded Command.InOrder :=
  h.forall_stages (P := Stage.Recorded Command.InOrder) (fun _ _ hd hs => hs.receive hd)
    (fun _ => Stage.Recorded.enterReplay) (fun _ => Stage.Recorded.leaveReplay) hch

/-! ### Courses that break off -/

/-- The sink takes every command. -/
def Receptive (σ : Type) [Sink σ] : Prop :=
  ∀ (s : σ) (c : Command), (Sink.accept s c).2 = none

/-- If the row does not pass a command, one of its stages answers as the row does. -/
theorem exists_of_walk {ss : List Stage} {c : Command} (h : (walk ss c).2.1 ≠ .pass) :
    ∃ s ∈ ss, (s.receive c).2 = (walk ss c).2.1 := by
  induction ss with
  | nil => exact absurd rfl h
  | cons s ss ih =>
    rcases hs : s.receive c with ⟨s', reaction⟩
    by_cases hpass : reaction = .pass
    · subst hpass
      rw [walk_cons_of_pass hs] at h ⊢
      obtain ⟨t, ht, hreaction⟩ := ih h
      exact ⟨t, List.mem_cons_of_mem s ht, hreaction⟩
    · rw [walk_cons_of_ne_pass hs hpass]
      exact ⟨s, List.mem_cons_self, by rw [hs]⟩

/-- **A step that faults** took its command to the sink, which refused it: no stage whose scope
fits its recordings does. -/
theorem step_fault {ch ch₁ : Chain σ} {c : Command} {f : Fault} (hfits : ∀ s ∈ ch.stages, s.Fits)
    (h : ch.step 0 c = (ch₁, .fault f)) :
    (walk ch.stages c).2.1 = .pass ∧ (Sink.accept ch.sink c).2 = some f := by
  simp only [step, List.drop_zero] at h
  rcases hw : walk ch.stages c with ⟨ss, reaction, passed⟩
  rw [hw] at h
  cases reaction with
  | pass =>
    rcases haccept : (Sink.accept ch.sink c).2 with _ | f'
    · simp [haccept] at h
    · simp only [haccept, Prod.mk.injEq, Outcome.fault.injEq] at h
      exact ⟨rfl, congrArg some h.2⟩
  | fault f' =>
    have hne : (walk ch.stages c).2.1 ≠ .pass := by
      rw [hw]
      exact Reaction.noConfusion
    obtain ⟨s, hs, hfault⟩ := exists_of_walk hne
    rw [hw] at hfault
    exact absurd hfault ((hfits s hs).not_fault c f')
  | _ => simp at h

/-- What is replayed was recorded, and is taken down as it is. -/
theorem reissue_of_replay {ch ch₁ : Chain σ} {c : Command} {k : Nat}
    {content : List Command} (h : ch.step 0 c = (ch₁, .replay k content))
    (hrecorded : ∀ s ∈ ch.stages, s.Recorded Command.InOrder) :
    ∀ e ∈ content, e.reissue = .ok e := by
  intro e he
  obtain ⟨hw, -, -⟩ := step_replay h
  obtain ⟨f, hf, -, hreceive, -⟩ := walk_replay hw
  have hall : f.AllRecorded Command.InOrder := hrecorded _ (List.mem_of_getElem? hf)
  exact Command.reissue_of_inOrder (hall.of_replay (hreceive ▸ f.received c) e he)

/-- **Where calls break off**, the sink has refused a command that is in order, and all filters
are idle. -/
theorem Issues.refused {cs : List Command} {ch ch' : Chain σ} {fault : Fault}
    (h : Issues cs ch ch' (some fault)) (hcs : ∀ c ∈ cs, ∃ d, c.reissue = .ok d)
    (hfits : ∀ s ∈ ch.stages, s.Fits) (hrecorded : ∀ s ∈ ch.stages, s.Recorded Command.InOrder) :
    (∃ (s : σ) (e : Command), e.InOrder ∧ (Sink.accept s e).2 = some fault) ∧
      ∀ s ∈ ch'.stages, ∀ f ∈ s.archiveFilter?, f.scope = .idle := by
  generalize hr : some fault = r at h
  induction h with
  | nil => cases hr
  | misused hc =>
    obtain ⟨d, hd⟩ := hcs _ List.mem_cons_self
    rw [hd] at hc
    cases hc
  | @answered c d cs ch ch₁ ch₂ r hc hs _ ih =>
    have hmoment : Passes (c :: cs) ch (ch.step 0 d).1 := .stepped hc
    rw [hs] at hmoment
    exact ih (fun e he => hcs e (List.mem_cons_of_mem c he)) (hmoment.fits hfits)
      (hmoment.recordedInOrder hrecorded) hr
  | @stopped c d cs ch ch₁ f hc hs =>
    cases hr
    obtain ⟨hpass, hrefused⟩ := step_fault hfits hs
    have hstages : ch₁.stages = (walk ch.stages d).1 := by rw [← stages_step, hs]
    exact ⟨⟨ch.sink, d, Command.inOrder_of_reissue hc, hrefused⟩, hstages ▸ (walk_pass hpass).2⟩
  | @replayed c d cs content ch ch₁ ch₂ ch₃ k r hc hs hreplay _ _ ihrest =>
    have hmoment : Passes (c :: cs) ch (ch₂.leaveReplay k) := .left hc hs hreplay
    exact ihrest (fun e he => hcs e (List.mem_cons_of_mem c he)) (hmoment.fits hfits)
      (hmoment.recordedInOrder hrecorded) hr
  | @interrupted c d cs content ch ch₁ ch₂ k f hc hs _ ihreplay =>
    have hmoment : Passes (c :: cs) ch (ch₁.enterReplay k) := .inside hc hs (.here _ _)
    obtain ⟨hrefused, hidle⟩ := ihreplay (fun e he => ⟨e, reissue_of_replay hs hrecorded e he⟩)
      (hmoment.fits hfits) (hmoment.recordedInOrder hrecorded) hr
    -- The end of a replay changes no scope.
    refine ⟨hrefused, forall_modify (P := fun s => ∀ f ∈ s.archiveFilter?, f.scope = .idle)
      (fun s hs => ?_) hidle k⟩
    cases s with
    | archive f =>
      intro g hg
      obtain rfl := Option.some.inj hg
      exact hs f rfl
    | _ => exact hs

/-- Where calls break off, the sink has refused a command, and all filters are idle. -/
theorem Issues.of_fault {cs : List Command} {ch ch' : Chain σ} {fault : Fault}
    (h : Issues cs ch ch' (some fault)) (hcs : ∀ c ∈ cs, ∃ d, c.reissue = .ok d)
    (hfits : ∀ s ∈ ch.stages, s.Fits) (hrecorded : ∀ s ∈ ch.stages, s.Recorded Command.InOrder) :
    (∃ (s : σ) (e : Command), (Sink.accept s e).2 = some fault) ∧
      ∀ s ∈ ch'.stages, ∀ f ∈ s.archiveFilter?, f.scope = .idle := by
  obtain ⟨⟨s, e, -, hrefused⟩, hidle⟩ := h.refused hcs hfits hrecorded
  exact ⟨⟨s, e, hrefused⟩, hidle⟩

/-- The sink takes every command that is in order. -/
def TakesInOrder (σ : Type) [Sink σ] : Prop :=
  ∀ (s : σ) (c : Command), c.InOrder → (Sink.accept s c).2 = none

/-- **Without misuse no fault**: if the sink takes every command that is in order and the calls
use their procedures rightly, nothing ends their course early. -/
theorem Issues.not_fault_of_takes (hsink : TakesInOrder σ) {cs : List Command}
    {ch ch' : Chain σ} {r : Option Fault} (h : Issues cs ch ch' r)
    (hcs : ∀ c ∈ cs, ∃ d, c.reissue = .ok d) (hfits : ∀ s ∈ ch.stages, s.Fits)
    (hrecorded : ∀ s ∈ ch.stages, s.Recorded Command.InOrder) : r = none := by
  cases r with
  | none => rfl
  | some fault =>
    obtain ⟨⟨s, e, hinOrder, hrefused⟩, -⟩ := h.refused hcs hfits hrecorded
    rw [hsink s e hinOrder] at hrefused
    cases hrefused

/-- Without misuse no fault, if the sink takes every command at all. -/
theorem Issues.not_fault (hsink : Receptive σ) {cs : List Command} {ch ch' : Chain σ}
    {r : Option Fault} (h : Issues cs ch ch' r) (hcs : ∀ c ∈ cs, ∃ d, c.reissue = .ok d)
    (hfits : ∀ s ∈ ch.stages, s.Fits) (hrecorded : ∀ s ∈ ch.stages, s.Recorded Command.InOrder) :
    r = none :=
  h.not_fault_of_takes (fun s c _ => hsink s c) hcs hfits hrecorded

end Chain

end SceneReplay

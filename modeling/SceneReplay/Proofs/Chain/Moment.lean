import SceneReplay.Proofs.Chain.Issues

/-!
# Reachable chains and the moments of a call

A chain is *reachable* if it was put together from new stages and then only ever
called at its head (`SceneReplay.Chain.Reachable`); what a call did before it failed
stays done, so a chain is reachable after failed calls as well.

A call that leads to replays passes through many states before it returns. They are
the *moments* of the call (`SceneReplay.Chain.Passes`): before and after every step,
inside every replay and right after it, however deeply the replays are nested.

An invariant of steps that the begin and the end of replays keep holds at every
moment of every call (`SceneReplay.Chain.Passes.preserves`). Most invariants are
about single stages; these hold of all stages of a reachable chain
(`SceneReplay.Chain.Reachable.forall_stages`), at every moment of every call
(`SceneReplay.Chain.Passes.forall_stages`).
-/

namespace SceneReplay

/-- A stage that has not received a command. The limit of an archive filter is in
the allowed range. -/
def Stage.IsNew : Stage → Prop
  | .relay => True
  | .tap seen => seen = #[]
  | .archive f => ∃ (limit : Nat) (capture : Bool),
      1 ≤ limit ∧ (limit : Int) ≤ greatestLimit ∧ f = ArchiveFilter.fresh limit capture

/-- Filters are made with a limit in the allowed range. -/
theorem ArchiveFilter.isNew_of_make {settings : Settings} {capture : Option Bool}
    {limit : Option Int} {f : ArchiveFilter} (h : make settings capture limit = .ok f) :
    (Stage.archive f).IsNew := by
  unfold make at h
  simp only [Bool.or_eq_true, decide_eq_true_eq] at h
  split at h
  · cases h
  · rename_i hrange
    cases h
    exact ⟨_, _, by omega, by omega, rfl⟩

/-- What parameters ask for is handed to the making of a filter. -/
theorem ArchiveFilter.make_of_ofParams {settings : Settings} {params : Option ParamList}
    {f : ArchiveFilter} (h : ofParams settings params = .ok f) :
    ∃ capture limit, make settings capture limit = .ok f := by
  unfold ofParams at h
  simp only [bind, Except.bind] at h
  split at h
  · exact ⟨_, _, h⟩
  · split at h
    · cases h
    · exact ⟨_, _, h⟩

/-- Whatever stage is made by name is new. -/
theorem Stage.isNew_of_ofName {settings : Settings} {name : String} {params : Option ParamList}
    {s : Stage} (h : ofName settings name params = .ok s) : s.IsNew := by
  unfold ofName at h
  split at h
  · cases hf : ArchiveFilter.ofParams settings params with
    | error e => simp [hf, Except.map] at h
    | ok f =>
      obtain rfl : .archive f = s := by simpa [hf, Except.map] using h
      obtain ⟨capture, limit, hmake⟩ := ArchiveFilter.make_of_ofParams hf
      exact ArchiveFilter.isNew_of_make hmake
  · split at h
    · cases h
      rfl
    · cases h

namespace Chain

variable {σ : Type} [Sink σ]

/-- **The chains that calls at the head can lead to.** Stages may be added between
calls, and others may add to the log. -/
inductive Reachable : Chain σ → Prop
  /-- A chain without stages. -/
  | ofSink (sink : σ) : Reachable (Chain.ofSink sink)
  /-- A new stage is put in front. -/
  | addStage {ch : Chain σ} {s : Stage} (hs : s.IsNew) (h : Reachable ch) :
      Reachable (ch.addStage s)
  /-- Somebody else reports a problem. -/
  | addReport {ch : Chain σ} (r : Report) (h : Reachable ch) : Reachable (ch.addReport r)
  /-- A call is issued at the head, whatever comes of it. -/
  | issue {ch : Chain σ} (c : Command) (h : Reachable ch) : Reachable (ch.issue 0 c).1

/-- **The moments of calls at the head**: the states that a chain passes through
while the calls are carried out. -/
inductive Passes : List Command → Chain σ → Chain σ → Prop
  /-- The state before the first call. -/
  | here (cs : List Command) (ch : Chain σ) : Passes cs ch ch
  /-- The state after the first command went through the stages. -/
  | stepped {c d : Command} {cs : List Command} {ch : Chain σ} (hc : c.reissue = .ok d) :
      Passes (c :: cs) ch (ch.step 0 d).1
  /-- A state inside a replay. -/
  | inside {c d : Command} {cs content : List Command} {ch ch₁ st : Chain σ} {k : Nat}
      (hc : c.reissue = .ok d) (hstep : ch.step 0 d = (ch₁, .replay k content))
      (h : Passes content (ch₁.enterReplay k) st) : Passes (c :: cs) ch st
  /-- The state right after a replay, also after one that failed. -/
  | left {c d : Command} {cs content : List Command} {ch ch₁ ch₂ : Chain σ} {k : Nat}
      {r : Option Fault} (hc : c.reissue = .ok d)
      (hstep : ch.step 0 d = (ch₁, .replay k content))
      (h : Issues content (ch₁.enterReplay k) ch₂ r) : Passes (c :: cs) ch (ch₂.leaveReplay k)
  /-- A state during the calls after the first one. -/
  | later {c : Command} {cs : List Command} {ch ch₁ st : Chain σ}
      (hc : Issues [c] ch ch₁ none) (h : Passes cs ch₁ st) : Passes (c :: cs) ch st

/-- **What every step keeps holds at every moment**, if the begin and the end of a
replay keep it too. -/
theorem Passes.preserves {P : Chain σ → Prop}
    (hstep : ∀ ch d, d.InOrder → P ch → P (ch.step 0 d).1)
    (henter : ∀ ch k, P ch → P (ch.enterReplay k))
    (hleave : ∀ ch k, P ch → P (ch.leaveReplay k))
    {cs : List Command} {ch st : Chain σ} (h : Passes cs ch st) (hch : P ch) : P st := by
  have next : ∀ {c d : Command} {ch ch₁ : Chain σ} {o : Outcome}, c.reissue = .ok d →
      ch.step 0 d = (ch₁, o) → P ch → P ch₁ := by
    intro c d ch ch₁ o hc hs hch
    have := hstep ch d (Command.inOrder_of_reissue hc) hch
    rwa [hs] at this
  induction h with
  | here => exact hch
  | stepped hc => exact hstep _ _ (Command.inOrder_of_reissue hc) hch
  | inside hc hs _ ih => exact ih (henter _ _ (next hc hs hch))
  | left hc hs hreplay =>
    exact hleave _ _ (hreplay.preserves hstep henter hleave (henter _ _ (next hc hs hch)))
  | later hc _ ih => exact ih (hc.preserves hstep henter hleave hch)

/-- The state that calls lead to is their last moment. -/
theorem Passes.of_issues {cs : List Command} {ch ch' : Chain σ} {r : Option Fault}
    (h : Issues cs ch ch' r) : Passes cs ch ch' := by
  induction h with
  | nil ch => exact .here [] ch
  | misused => exact .here _ _
  | answered hc hs _ ih => exact .later (.answered hc hs (.nil _)) ih
  | @stopped c d cs ch ch₁ f hc hs =>
    have : Passes (c :: cs) ch (ch.step 0 d).1 := .stepped hc
    rwa [hs] at this
  | replayed hc hs hreplay _ _ ih => exact .later (.replayed hc hs hreplay (.nil _)) ih
  | interrupted hc hs hreplay => exact .left hc hs hreplay

/-- Calls at the head of a reachable chain lead to reachable chains. -/
theorem Reachable.calls {ch : Chain σ} (h : ch.Reachable) (cs : List Command) :
    (ch.calls cs).Reachable := by
  induction cs generalizing ch with
  | nil => exact h
  | cons c cs ih => exact ih (h.issue c)

/-! ### Invariants of single stages -/

theorem forall_modify {P : Stage → Prop} {m : Stage → Stage} (hm : ∀ s, P s → P (m s))
    {ss : List Stage} (h : ∀ s ∈ ss, P s) (k : Nat) : ∀ s ∈ ss.modify k m, P s := by
  induction ss generalizing k with
  | nil => simp
  | cons s ss ih =>
    obtain ⟨hs, hss⟩ := List.forall_mem_cons.1 h
    cases k with
    | zero => exact List.forall_mem_cons.2 ⟨hm s hs, hss⟩
    | succ k => exact List.forall_mem_cons.2 ⟨hs, ih hss k⟩

section Stages

variable {P : Stage → Prop} (hreceive : ∀ s d, d.InOrder → P s → P (s.receive d).1)
  (henter : ∀ s, P s → P s.enterReplay) (hleave : ∀ s, P s → P s.leaveReplay)

include hreceive henter hleave

/-- **What every answer of a stage keeps, all stages have at every moment**, if they
had it when the calls began. -/
theorem Passes.forall_stages {cs : List Command} {ch st : Chain σ} (h : Passes cs ch st)
    (hch : ∀ s ∈ ch.stages, P s) : ∀ s ∈ st.stages, P s := by
  refine h.preserves (P := fun ch => ∀ s ∈ ch.stages, P s) (fun ch d hd hch => ?_)
    (fun _ k => fun h => forall_modify henter h k) (fun _ k => fun h => forall_modify hleave h k)
    hch
  rw [stages_step]
  exact forall_walk (fun s => hreceive s d hd) hch

/-- **What new stages have and every answer keeps, all stages of a reachable chain
have.** -/
theorem Reachable.forall_stages (hnew : ∀ s, s.IsNew → P s) {ch : Chain σ} (h : ch.Reachable) :
    ∀ s ∈ ch.stages, P s := by
  induction h with
  | ofSink => exact fun s hs => by cases hs
  | addStage hs _ ih => exact List.forall_mem_cons.2 ⟨hnew _ hs, ih⟩
  | addReport _ _ ih => exact ih
  | @issue ch c _ ih =>
    have hlast : Passes [c] ch (ch.issue 0 c).1 := .of_issues (issues_issueAll ch [c])
    exact hlast.forall_stages hreceive henter hleave ih

end Stages

end Chain

end SceneReplay

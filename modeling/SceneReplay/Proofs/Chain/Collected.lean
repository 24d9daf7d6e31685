import SceneReplay.Proofs.Chain.Trace
import SceneReplay.Sink

/-!
# A collector in place of a sink

What comes after the stages of a chain has no say in what they do, unless it refuses a
command. So a chain can be watched: with a collector at its end it goes the same way and makes
the same reports, and the collector keeps what the sink is sent
(`SceneReplay.Chain.Issues.collected`).
-/

namespace SceneReplay

/-- A collector keeps what it takes. -/
theorem toList_deliver (s : Collector) (cs : List Command) :
    (deliver s cs).toList = s.toList ++ cs := by
  induction cs generalizing s with
  | nil => exact (List.append_nil _).symm
  | cons c cs ih =>
    have hadd : deliver s (c :: cs) = deliver (s.add c) cs := rfl
    rw [hadd, ih, Collector.toList_add, List.append_assoc, List.singleton_append]

namespace Chain

variable {σ : Type} [Sink σ] {s : σ} {ch ch₁ : Chain σ} {other : Chain Collector}

/-- **The same chain with a collector at its end**, which keeps what the sink, `s` at first,
was sent. -/
structure Collected (s : σ) (ch : Chain σ) (other : Chain Collector) : Prop where
  /-- The stages agree. -/
  stages : other.stages = ch.stages
  /-- The sink took what the collector keeps. -/
  sink : ch.sink = deliver s other.sink.toList
  /-- The reports agree. -/
  log : other.log = ch.log

/-- **One command from the head**, unless it is refused. -/
theorem Collected.step (h : Collected s ch other) {c : Command} {outcome : Outcome}
    (hstep : ch.step 0 c = (ch₁, outcome)) (hfault : ∀ f, outcome ≠ .fault f) :
    ∃ other₁, other.step 0 c = (other₁, outcome) ∧ Collected s ch₁ other₁ := by
  simp only [Chain.step, List.drop_zero, List.take_zero, List.nil_append] at hstep ⊢
  rw [h.stages]
  rcases hw : walk ch.stages c with ⟨ss, reaction, passed⟩
  rw [hw] at hstep
  cases reaction with
  | pass =>
    rcases haccept : (Sink.accept ch.sink c).2 with _ | f
    · simp only [haccept, Prod.mk.injEq] at hstep
      obtain ⟨rfl, rfl⟩ := hstep
      refine ⟨_, rfl, rfl, ?_, h.log⟩
      have htoList : (Sink.accept other.sink c).1.toList = other.sink.toList ++ [c] :=
        Collector.toList_add other.sink c
      rw [htoList, deliver_append, ← h.sink]
      rfl
    · simp only [haccept, Prod.mk.injEq] at hstep
      exact absurd hstep.2.symm (hfault f)
  | report r =>
    simp only [Prod.mk.injEq] at hstep
    obtain ⟨rfl, rfl⟩ := hstep
    exact ⟨_, rfl, rfl, h.sink, congrArg (Log.add · r) h.log⟩
  | _ =>
    simp only [Prod.mk.injEq] at hstep
    obtain ⟨rfl, rfl⟩ := hstep
    exact ⟨_, rfl, rfl, h.sink, h.log⟩

theorem Collected.enterReplay (h : Collected s ch other) (k : Nat) :
    Collected s (ch.enterReplay k) (other.enterReplay k) :=
  ⟨congrArg (List.modify · k Stage.enterReplay) h.stages, h.sink, h.log⟩

theorem Collected.leaveReplay (h : Collected s ch other) (k : Nat) :
    Collected s (ch.leaveReplay k) (other.leaveReplay k) :=
  ⟨congrArg (List.modify · k Stage.leaveReplay) h.stages, h.sink, h.log⟩

/-- **A course that nothing stops is the same with a collector.** -/
theorem Issues.collected {cs : List Command} {ch ch' : Chain σ} (h : Issues cs ch ch' none)
    {other : Chain Collector} (hch : Collected s ch other) :
    ∃ other', Issues cs other other' none ∧ Collected s ch' other' := by
  generalize hnone : (none : Option Fault) = r at h
  induction h generalizing other with
  | nil => exact ⟨other, .nil other, hch⟩
  | answered hc hstep _ ih =>
    obtain ⟨other₁, hstep', hch₁⟩ := hch.step hstep nofun
    obtain ⟨other', hrest', hch'⟩ := ih hch₁ hnone
    exact ⟨other', .answered hc hstep' (hnone ▸ hrest'), hch'⟩
  | replayed hc hstep _ _ ihreplay ihrest =>
    obtain ⟨other₁, hstep', hch₁⟩ := hch.step hstep nofun
    obtain ⟨other₂, hreplay', hch₂⟩ := ihreplay (hch₁.enterReplay _) rfl
    obtain ⟨other', hrest', hch'⟩ := ihrest (hch₂.leaveReplay _) hnone
    exact ⟨other', .replayed hc hstep' hreplay' (hnone ▸ hrest'), hch'⟩
  | misused | stopped | interrupted => cases hnone

/-- **A call that nothing stops is the same with a collector.** -/
theorem Collected.issue {c : Command} (h : Collected s ch other)
    (hfault : (ch.issue 0 c).2 = none) :
    (other.issue 0 c).2 = none ∧ Collected s (ch.issue 0 c).1 (other.issue 0 c).1 := by
  have hissues : Issues [c] ch (ch.issue 0 c).1 none := hfault ▸ issues_issueAll ch [c]
  obtain ⟨other', hissues', hother'⟩ := hissues.collected h
  have heq : other.issue 0 c = (other', none) := issues_iff.1 hissues'
  rw [heq]
  exact ⟨rfl, hother'⟩

end Chain

end SceneReplay

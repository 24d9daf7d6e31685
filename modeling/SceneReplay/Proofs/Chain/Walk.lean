import Mathlib.Data.List.Forall2
import SceneReplay.Chain
import SceneReplay.Proofs.Archive.Receive

/-!
# One command through the stages

`SceneReplay.Chain.walk` takes a command through a row of stages. Whatever each
stage keeps when it answers, the whole row keeps
(`SceneReplay.Chain.forall₂_walk`), and a replay is asked for by an archive filter
that is below its limit (`SceneReplay.Chain.walk_replay`).

The *gauge* of a stage is its limit and the number of its replays in progress, and
the *headroom* of a chain is how many more replays could begin
(`SceneReplay.Chain.headroom`). Commands leave the gauges alone; a replay that
begins takes one unit of headroom, and its end gives it back.
-/

namespace SceneReplay

namespace Stage

/-- The limit of a stage and the number of its replays in progress; nothing for a
stage that never replays. -/
def gauge? (s : Stage) : Option (Nat × Nat) :=
  s.archiveFilter?.map fun f => (f.limit, f.depth)

@[simp] theorem gauge?_receive (s : Stage) (c : Command) : (s.receive c).1.gauge? = s.gauge? := by
  cases s with
  | relay => rfl
  | tap seen => rfl
  | archive f =>
    have h := (ArchiveFilter.received f c).sameSetting
    simp [receive, gauge?, archiveFilter?, h.limit, h.depth]

theorem gauge?_enterReplay (s : Stage) :
    s.enterReplay.gauge? = s.gauge?.map fun g => (g.1, g.2 + 1) := by
  cases s <;> rfl

theorem gauge?_leaveReplay (s : Stage) :
    s.leaveReplay.gauge? = s.gauge?.map fun g => (g.1, g.2 - 1) := by
  cases s <;> rfl

/-- Only an archive filter below its limit asks for a replay. -/
theorem receive_replay {s : Stage} {c : Command} {content : List Command}
    (h : (s.receive c).2 = .replay content) :
    ∃ f, s = .archive f ∧ (s.receive c).1 = .archive f ∧
      (f.receive c).2 = .replay content ∧ f.depth < f.limit := by
  cases s with
  | relay => cases h
  | tap seen => cases h
  | archive f =>
    have hf : (f.receive c).2 = .replay content := h
    obtain ⟨hsame, -, hdepth, -⟩ := (hf ▸ ArchiveFilter.received f c).of_replay
    exact ⟨f, rfl, congrArg Stage.archive hsame, hf, hdepth⟩

/-- A stage that passes a command has no recording open, and if it is an archive filter it stays
as it is. -/
theorem receive_pass {s : Stage} {c : Command} (h : (s.receive c).2 = .pass) :
    (s.receive c).1.archiveFilter? = s.archiveFilter? ∧
      ∀ f ∈ s.archiveFilter?, f.scope = .idle := by
  cases s with
  | relay => exact ⟨rfl, nofun⟩
  | tap seen => exact ⟨rfl, nofun⟩
  | archive f =>
    have hpass : (f.receive c).2 = .pass := h
    obtain ⟨hsame, hidle, -⟩ := (hpass ▸ f.received c).of_pass
    refine ⟨congrArg some hsame, fun g hg => ?_⟩
    obtain rfl : f = g := Option.some.inj hg
    exact hidle

end Stage

namespace Chain

/-! ### Rows of stages -/

theorem walk_cons_of_pass {s s' : Stage} {c : Command} (h : s.receive c = (s', .pass))
    (ss : List Stage) :
    walk (s :: ss) c = (s' :: (walk ss c).1, (walk ss c).2.1, (walk ss c).2.2 + 1) := by
  simp [walk, h]

theorem walk_cons_of_ne_pass {s s' : Stage} {c : Command} {reaction : Reaction}
    (h : s.receive c = (s', reaction)) (hne : reaction ≠ .pass) (ss : List Stage) :
    walk (s :: ss) c = (s' :: ss, reaction, 0) := by
  cases reaction <;> simp_all [walk]

/-- **What every stage keeps, the row keeps**: a command changes each stage as its
own answer does, or not at all. -/
theorem forall₂_walk {R : Stage → Stage → Prop} (hrefl : ∀ s, R s s)
    (hreceive : ∀ s c, R s (s.receive c).1) (ss : List Stage) (c : Command) :
    List.Forall₂ R ss (walk ss c).1 := by
  induction ss with
  | nil => exact List.Forall₂.nil
  | cons s ss ih =>
    rcases h : s.receive c with ⟨s', reaction⟩
    have hs : R s s' := by simpa [h] using hreceive s c
    by_cases hpass : reaction = .pass
    · subst hpass
      rw [walk_cons_of_pass h]
      exact List.Forall₂.cons hs ih
    · rw [walk_cons_of_ne_pass h hpass]
      exact List.Forall₂.cons hs (List.forall₂_same.2 fun s _ => hrefl s)

/-- The stage at a position is the one that was there, as its own answer left it, or
untouched. -/
theorem getElem?_walk {R : Stage → Stage → Prop} (hrefl : ∀ s, R s s)
    (hreceive : ∀ s c, R s (s.receive c).1) {ss : List Stage} {k : Nat} {s : Stage}
    (hk : ss[k]? = some s) (c : Command) : ∃ t, (walk ss c).1[k]? = some t ∧ R s t := by
  have h := forall₂_walk hrefl hreceive ss c
  generalize (walk ss c).1 = ss' at h
  induction h generalizing k with
  | nil => simp at hk
  | @cons a b as bs hab _ ih =>
    cases k with
    | zero =>
      obtain rfl : a = s := by simpa using hk
      exact ⟨b, rfl, hab⟩
    | succ k => exact ih (by simpa using hk)

/-- What every stage has and keeps when it answers, all stages still have after a
command went through them. -/
theorem forall_walk {P : Stage → Prop} {c : Command}
    (hreceive : ∀ s, P s → P (s.receive c).1) {ss : List Stage} (h : ∀ s ∈ ss, P s) :
    ∀ s ∈ (walk ss c).1, P s := by
  induction ss with
  | nil => exact h
  | cons s ss ih =>
    obtain ⟨hs, hss⟩ := List.forall_mem_cons.1 h
    rcases hr : s.receive c with ⟨s', reaction⟩
    have hs' : P s' := by simpa [hr] using hreceive s hs
    by_cases hpass : reaction = .pass
    · subst hpass
      rw [walk_cons_of_pass hr]
      exact List.forall_mem_cons.2 ⟨hs', ih hss⟩
    · rw [walk_cons_of_ne_pass hr hpass]
      exact List.forall_mem_cons.2 ⟨hs', hss⟩

/-- **A replay is asked for by the filter at the place where the command ended**,
and that filter is below its limit. -/
theorem walk_replay {ss ss' : List Stage} {c : Command} {content : List Command} {k : Nat}
    (h : walk ss c = (ss', .replay content, k)) :
    ∃ f, ss[k]? = some (.archive f) ∧ ss'[k]? = some (.archive f) ∧
      (f.receive c).2 = .replay content ∧ f.depth < f.limit := by
  induction ss generalizing ss' k with
  | nil => simp [walk] at h
  | cons s ss ih =>
    rcases hs : s.receive c with ⟨s', reaction⟩
    by_cases hpass : reaction = .pass
    · subst hpass
      rw [walk_cons_of_pass hs] at h
      simp only [Prod.mk.injEq] at h
      obtain ⟨rfl, hreaction, rfl⟩ := h
      obtain ⟨f, hf, hf', hrest⟩ := ih (Prod.ext rfl (Prod.ext hreaction rfl))
      exact ⟨f, by simpa using hf, by simpa using hf', hrest⟩
    · rw [walk_cons_of_ne_pass hs hpass] at h
      simp only [Prod.mk.injEq] at h
      obtain ⟨rfl, rfl, rfl⟩ := h
      obtain ⟨f, rfl, hs', hf, hdepth⟩ := Stage.receive_replay (s := s) (c := c) (by rw [hs])
      rw [hs] at hs'
      exact ⟨f, rfl, by simpa using hs', hf, hdepth⟩

/-- **A command that passes all stages** changes no filter of the row, and all of them are
idle. -/
theorem walk_pass {ss : List Stage} {c : Command} (h : (walk ss c).2.1 = .pass) :
    (walk ss c).1.filterMap Stage.archiveFilter? = ss.filterMap Stage.archiveFilter? ∧
      ∀ s ∈ (walk ss c).1, ∀ f ∈ s.archiveFilter?, f.scope = .idle := by
  induction ss with
  | nil => exact ⟨rfl, nofun⟩
  | cons s ss ih =>
    rcases hs : s.receive c with ⟨s', reaction⟩
    by_cases hpass : reaction = .pass
    · subst hpass
      rw [walk_cons_of_pass hs] at h ⊢
      obtain ⟨hrow, hidle⟩ := ih h
      obtain ⟨hsame, hidle'⟩ := Stage.receive_pass (s := s) (c := c) (by rw [hs])
      rw [hs] at hsame
      exact ⟨by simp [List.filterMap_cons, hsame, hrow],
        List.forall_mem_cons.2 ⟨hsame ▸ hidle', hidle⟩⟩
    · rw [walk_cons_of_ne_pass hs hpass] at h
      exact absurd h hpass

/-! ### Gauges and headroom -/

/-- How many more replays a stage with the given gauge could begin. -/
def roomOf (gauge? : Option (Nat × Nat)) : Nat :=
  (gauge?.map fun g => g.1 - g.2).getD 0

variable {σ : Type}

/-- The gauges of all stages. -/
def gauges (ch : Chain σ) : List (Option (Nat × Nat)) := ch.stages.map Stage.gauge?

/-- What the gauges tell of the filters. -/
theorem filterMap_gauges (ch : Chain σ) :
    ch.gauges.filterMap id = ch.archiveFilters.map fun f => (f.limit, f.depth) := by
  rw [gauges, archiveFilters, List.filterMap_map, List.map_filterMap]
  rfl

theorem mem_archiveFilters_of_getElem? {ch : Chain σ} {k : Nat} {f : ArchiveFilter}
    (hk : ch.stages[k]? = some (.archive f)) : f ∈ ch.archiveFilters :=
  List.mem_filterMap.2 ⟨.archive f, List.mem_of_getElem? hk, rfl⟩

/-- How many more replays could begin in a chain. -/
def headroom (ch : Chain σ) : Nat := (ch.gauges.map roomOf).foldr (· + ·) 0

/-- What no answer changes about a stage, a command that goes through the row does not change. -/
theorem map_walk {α : Type} {m : Stage → α} (hm : ∀ s c, m (s.receive c).1 = m s) (ss : List Stage)
    (c : Command) : (walk ss c).1.map m = ss.map m := by
  have h := forall₂_walk (R := fun s t => m t = m s) (fun _ => rfl) hm ss c
  generalize (walk ss c).1 = ss' at h
  induction h with
  | nil => rfl
  | cons hs _ ih => simp only [List.map_cons, hs, ih]

theorem map_gauge?_walk (ss : List Stage) (c : Command) :
    (walk ss c).1.map Stage.gauge? = ss.map Stage.gauge? :=
  map_walk Stage.gauge?_receive ss c

theorem map_modify {α β : Type} {f : α → α} {g : β → β} {m : α → β}
    (h : ∀ a, m (f a) = g (m a)) (l : List α) (k : Nat) :
    (l.modify k f).map m = (l.map m).modify k g := by
  induction l generalizing k with
  | nil => simp
  | cons a l ih =>
    cases k with
    | zero => simp [h]
    | succ k => simp [ih]

theorem gauges_enterReplay (ch : Chain σ) (k : Nat) :
    (ch.enterReplay k).gauges = ch.gauges.modify k (Option.map fun g => (g.1, g.2 + 1)) :=
  map_modify Stage.gauge?_enterReplay ch.stages k

theorem gauges_leaveReplay (ch : Chain σ) (k : Nat) :
    (ch.leaveReplay k).gauges = ch.gauges.modify k (Option.map fun g => (g.1, g.2 - 1)) :=
  map_modify Stage.gauge?_leaveReplay ch.stages k

/-- **The end of a replay undoes its beginning**, as far as the gauges go. -/
theorem gauges_leaveReplay_of_enterReplay {before after : Chain σ} {k : Nat}
    (h : after.gauges = (before.enterReplay k).gauges) :
    (after.leaveReplay k).gauges = before.gauges := by
  rw [gauges_leaveReplay, h, gauges_enterReplay, List.modify_modify_eq]
  conv_rhs => rw [← List.modify_id k before.gauges]
  congr 1
  funext g
  cases g <;> simp

/-- A replay that begins takes one unit of headroom. -/
theorem headroom_enterReplay {ch : Chain σ} {k : Nat} {f : ArchiveFilter}
    (hk : ch.stages[k]? = some (.archive f)) (hdepth : f.depth < f.limit) :
    (ch.enterReplay k).headroom + 1 = ch.headroom := by
  have hgauge : ch.gauges[k]? = some (some (f.limit, f.depth)) := by
    simp [gauges, hk, Stage.gauge?, Stage.archiveFilter?]
  have key : ∀ (gs : List (Option (Nat × Nat))) (k : Nat), gs[k]? = some (some (f.limit, f.depth)) →
      ((gs.modify k (Option.map fun g => (g.1, g.2 + 1))).map roomOf).foldr (· + ·) 0 + 1
        = (gs.map roomOf).foldr (· + ·) 0 := by
    intro gs
    induction gs with
    | nil => intro k h; simp at h
    | cons g gs ih =>
      intro k h
      cases k with
      | zero =>
        have hg : g = some (f.limit, f.depth) := by simpa using h
        simp only [hg, List.modify_zero_cons, List.map_cons, List.foldr_cons, roomOf,
          Option.map_some, Option.getD_some]
        omega
      | succ k =>
        have := ih k (by simpa using h)
        simp only [List.modify_succ_cons, List.map_cons, List.foldr_cons]
        omega
  rw [headroom, gauges_enterReplay, headroom]
  exact key ch.gauges k hgauge

/-- The budget of a chain covers its headroom. -/
theorem headroom_le_budget (ch : Chain σ) : ch.headroom ≤ ch.budget := by
  have key : ∀ ss : List Stage,
      ((ss.map Stage.gauge?).map roomOf).foldr (· + ·) 0
        ≤ (ss.map Stage.limit).foldr (· + ·) 0 := by
    intro ss
    induction ss with
    | nil => simp
    | cons s ss ih =>
      have hs : roomOf s.gauge? ≤ s.limit := by
        cases s <;> simp [roomOf, Stage.gauge?, Stage.archiveFilter?, Stage.limit]
      simp only [List.map_cons, List.foldr_cons]
      omega
  exact key ch.stages

/-! ### One step from the head -/

variable [Sink σ]

/-- A step from the head takes the command through all stages. -/
theorem stages_step (ch : Chain σ) (c : Command) :
    (ch.step 0 c).1.stages = (walk ch.stages c).1 := by
  simp only [step, List.drop_zero, List.take_zero, List.nil_append]
  cases (walk ch.stages c).2.1 <;> rfl

/-- A step leaves every gauge as it was. -/
theorem gauges_of_step {ch ch₁ : Chain σ} {c : Command} {outcome : Outcome}
    (h : ch.step 0 c = (ch₁, outcome)) : ch₁.gauges = ch.gauges := by
  have hstages := stages_step ch c
  rw [h] at hstages
  rw [gauges, hstages, map_gauge?_walk, gauges]

/-- **A step that asks for a replay** changes nothing but what the taps before the
asking filter saw. -/
theorem step_replay {ch ch₁ : Chain σ} {c : Command} {k : Nat} {content : List Command}
    (h : ch.step 0 c = (ch₁, .replay k content)) :
    walk ch.stages c = (ch₁.stages, .replay content, k) ∧ ch₁.sink = ch.sink ∧
      ch₁.log = ch.log := by
  simp only [step, List.drop_zero, List.take_zero, List.nil_append, Nat.zero_add] at h
  rcases hw : walk ch.stages c with ⟨ss, reaction, passed⟩
  rw [hw] at h
  cases reaction with
  | pass =>
    simp only [Prod.mk.injEq] at h
    obtain ⟨-, h⟩ := h
    split at h <;> cases h
  | replay content' =>
    simp only [Prod.mk.injEq, Outcome.replay.injEq] at h
    obtain ⟨rfl, rfl, rfl⟩ := h
    exact ⟨rfl, rfl, rfl⟩
  | _ => simp at h

end Chain

end SceneReplay

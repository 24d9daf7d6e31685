import SceneReplay.Proofs.Chain.Collected
import SceneReplay.Proofs.Rib.Script
import SceneReplay.Rib.Session

/-!
# Playing a script into a sink

Stages that pass a command without a trace of it hand it to the sink. A chain without stages
does so with every command. Events that are played to their end hold no fault
(`SceneReplay.Rib.not_fault_of_play`), and if the stages pass all their commands, then these
were delivered, their reports are in the log and their requests are counted
(`SceneReplay.Rib.play_through`). A collector keeps what is delivered, one command after the
other; a writer puts each on a line of its own, indented as it may be
(`SceneReplay.Rib.lines_deliver`).
-/

namespace SceneReplay.Rib

variable {σ : Type} [Sink σ]

/-- The stages pass the command, and stay as they are. -/
def Transparent (ss : List Stage) (c : Command) : Prop :=
  Chain.walk ss c = (ss, .pass, ss.length)

theorem transparent_nil (c : Command) : Transparent [] c := rfl

/-- What the stages pass goes to the sink. -/
theorem issue_of_transparent {ss : List Stage} {c : Command} (h : c.reissue = .ok c.frozen)
    (hpass : Transparent ss c.frozen) (s : σ) (log : Log) :
    (⟨ss, s, log⟩ : Chain σ).issue 0 c
      = (⟨ss, (Sink.accept s c.frozen).1, log⟩, (Sink.accept s c.frozen).2) := by
  rw [Transparent] at hpass
  simp only [Chain.issue, Chain.issueAll, Chain.runWith, h, Chain.step, List.drop_zero, hpass,
    List.take_zero, List.nil_append]
  rcases hfault : (Sink.accept s c.frozen).2 with _ | f <;> rfl

/-- **What is played to the end holds no fault.** -/
theorem not_fault_of_play {evs : List Event} {ch : Chain σ} {d : Declarations} {n : Nat}
    (h : (play 0 evs ch d n).fault = none) : ∀ f, .fault f ∉ evs := by
  fun_induction play 0 evs ch d n
  case case1 => nofun
  case case2 ih | case3 ih =>
    rintro f (_ | ⟨_, hf⟩)
    exact ih h f hf
  case case4 ih | case6 ih =>
    rintro f (_ | ⟨_, hf⟩)
    exact ih h f hf
  case case5 | case7 | case8 => cases h

/-- The command that an event issues, if it issues one. -/
def Event.command? : Event → Option Command
  | .request c => some c
  | .comment c => some c
  | _ => none

/-- The report that an event makes, if it makes one. -/
def Event.report? : Event → Option Report
  | .report r => some r
  | _ => none

/-- Whether an event issues a request. -/
def Event.isRequest : Event → Bool
  | .request _ => true
  | _ => false

/-- **What playing to the end leaves**, if the stages pass all commands: the commands are in
the sink, the reports in the log, and the requests are counted. -/
theorem play_through {ss : List Stage} {evs : List Event} {s : σ} {log : Log} {d : Declarations}
    {n : Nat} (hreissue : ∀ c ∈ evs.filterMap Event.command?, c.reissue = .ok c.frozen)
    (hpass : ∀ c ∈ evs.filterMap Event.command?, Transparent ss c.frozen)
    (h : (play 0 evs ⟨ss, s, log⟩ d n).fault = none) :
    play 0 evs ⟨ss, s, log⟩ d n
      = ⟨⟨ss, deliver s ((evs.filterMap Event.command?).map Command.frozen),
          (evs.filterMap Event.report?).foldl Log.add log⟩,
        declaredBy d evs, n + evs.countP Event.isRequest, none⟩ := by
  induction evs generalizing s log d n with
  | nil => rfl
  | cons e evs ih =>
    cases e with
    | report r => exact ih hreissue hpass h
    | declare token type => exact ih hreissue hpass h
    | fault f => cases h
    | request c =>
      have hissue := issue_of_transparent (hreissue c List.mem_cons_self)
        (hpass c List.mem_cons_self) s log
      rw [play, hissue] at h ⊢
      -- A refusal would have stopped the events here.
      rcases haccept : (Sink.accept s c.frozen).2 with _ | f
      · rw [haccept] at h
        simp only at h ⊢
        rw [ih (fun c' hc' => hreissue c' (List.mem_cons_of_mem _ hc'))
          (fun c' hc' => hpass c' (List.mem_cons_of_mem _ hc')) h]
        simp [List.filterMap_cons, List.countP_cons, Event.command?, Event.report?,
          Event.isRequest, deliver, declaredBy]
        omega
      · rw [haccept] at h
        cases h
    | comment c =>
      have hissue := issue_of_transparent (hreissue c List.mem_cons_self)
        (hpass c List.mem_cons_self) s log
      rw [play, hissue] at h ⊢
      rcases haccept : (Sink.accept s c.frozen).2 with _ | f
      · rw [haccept] at h
        simp only at h ⊢
        rw [ih (fun c' hc' => hreissue c' (List.mem_cons_of_mem _ hc'))
          (fun c' hc' => hpass c' (List.mem_cons_of_mem _ hc')) h]
        simp [List.filterMap_cons, Event.command?, Event.report?, Event.isRequest, deliver,
          declaredBy]
      · rw [haccept] at h
        cases h

/-- Without stages all commands go to the sink. -/
theorem play_toEnd {evs : List Event} {s : σ} {log : Log} {d : Declarations} {n : Nat}
    (hreissue : ∀ c ∈ evs.filterMap Event.command?, c.reissue = .ok c.frozen)
    (h : (play 0 evs ⟨[], s, log⟩ d n).fault = none) :
    play 0 evs ⟨[], s, log⟩ d n
      = ⟨⟨[], deliver s ((evs.filterMap Event.command?).map Command.frozen),
          (evs.filterMap Event.report?).foldl Log.add log⟩,
        declaredBy d evs, n + evs.countP Event.isRequest, none⟩ :=
  play_through hreissue (fun c _ => transparent_nil c.frozen) h

/-- The sink takes the commands, one after the other. -/
def Takes (s : σ) : List Command → Prop
  | [] => True
  | c :: cs => (Sink.accept s c).2 = none ∧ Takes (Sink.accept s c).1 cs

theorem takes_append {s : σ} {cs ds : List Command} :
    Takes s (cs ++ ds) ↔ Takes s cs ∧ Takes (deliver s cs) ds := by
  induction cs generalizing s with
  | nil => exact ⟨fun h => ⟨trivial, h⟩, And.right⟩
  | cons c cs ih => rw [List.cons_append, Takes, Takes, ih, and_assoc]; rfl

theorem takes_of_forall {cs : List Command}
    (h : ∀ c ∈ cs, ∀ s : σ, (Sink.accept s c).2 = none) (s : σ) : Takes s cs := by
  induction cs generalizing s with
  | nil => trivial
  | cons c cs ih =>
    rw [List.forall_mem_cons] at h
    exact ⟨h.1 s, ih h.2 _⟩

/-- **What stops the events**, if the stages pass all commands: a fault among them, or a command
that the sink does not take. -/
theorem fault_play_eq_none_iff {ss : List Stage} {evs : List Event} {s : σ} {log : Log}
    {d : Declarations} {n : Nat}
    (hreissue : ∀ c ∈ evs.filterMap Event.command?, c.reissue = .ok c.frozen)
    (hpass : ∀ c ∈ evs.filterMap Event.command?, Transparent ss c.frozen) :
    (play 0 evs ⟨ss, s, log⟩ d n).fault = none ↔
      (∀ f, .fault f ∉ evs) ∧ Takes s ((evs.filterMap Event.command?).map Command.frozen) := by
  generalize hch : (⟨ss, s, log⟩ : Chain σ) = ch
  fun_induction play 0 evs ch d n generalizing s log
  case case1 => exact iff_of_true rfl ⟨fun f hf => absurd hf List.not_mem_nil, trivial⟩
  case case2 ih | case3 ih =>
    subst hch
    rw [ih hreissue hpass rfl]
    simp [List.filterMap_cons, Event.command?]
  case case4 hissue ih | case6 hissue ih =>
    subst hch
    rw [issue_of_transparent (hreissue _ List.mem_cons_self) (hpass _ List.mem_cons_self)]
      at hissue
    obtain ⟨hnext, haccept⟩ := Prod.mk.inj hissue
    rw [ih (fun c hc => hreissue c (List.mem_cons_of_mem _ hc))
      (fun c hc => hpass c (List.mem_cons_of_mem _ hc)) hnext]
    simp [Event.command?, Takes, haccept]
  case case5 hissue | case7 hissue =>
    subst hch
    rw [issue_of_transparent (hreissue _ List.mem_cons_self) (hpass _ List.mem_cons_self)]
      at hissue
    simp [Event.command?, Takes, (Prod.mk.inj hissue).2]
  case case8 =>
    exact iff_of_false (Option.some_ne_none _) fun h => h.1 _ List.mem_cons_self

/-- **Nothing stops the events** if they hold no fault, the stages pass all commands, and the
sink takes them. -/
theorem fault_play {ss : List Stage} {evs : List Event} {s : σ} {log : Log} {d : Declarations}
    {n : Nat} (hreissue : ∀ c ∈ evs.filterMap Event.command?, c.reissue = .ok c.frozen)
    (hpass : ∀ c ∈ evs.filterMap Event.command?, Transparent ss c.frozen)
    (haccept : ∀ c ∈ evs.filterMap Event.command?, ∀ s : σ, (Sink.accept s c.frozen).2 = none)
    (hfault : ∀ f, .fault f ∉ evs) : (play 0 evs ⟨ss, s, log⟩ d n).fault = none :=
  (fault_play_eq_none_iff hreissue hpass).2
    ⟨hfault, takes_of_forall (List.forall_mem_map.2 haccept) s⟩

/-- **Events one after the other**, if nothing stops the first of them. -/
theorem play_append {evs evs' : List Event} {ch : Chain σ} {d : Declarations} {n : Nat}
    (h : (play 0 evs ch d n).fault = none) :
    play 0 (evs ++ evs') ch d n
      = play 0 evs' (play 0 evs ch d n).chain (play 0 evs ch d n).declarations
          (play 0 evs ch d n).issued := by
  fun_induction play 0 evs ch d n
  case case1 => rfl
  case case2 ih | case3 ih => exact ih h
  case case4 hissue ih | case6 hissue ih =>
    rw [List.cons_append, play, hissue]
    exact ih h
  case case5 | case7 | case8 => cases h

/-- **What every report and every call keeps, playing keeps**, also if a fault stops it. -/
theorem play_keeps {I : Chain σ → Prop} {evs : List Event}
    (hreport : ∀ r ∈ evs.filterMap Event.report?, ∀ ch, I ch → I (ch.addReport r))
    (hissue : ∀ c ∈ evs.filterMap Event.command?, ∀ ch, I ch → I (ch.issue 0 c).1)
    {ch : Chain σ} (h : I ch) (d : Declarations) (n : Nat) : I (play 0 evs ch d n).chain := by
  fun_induction play 0 evs ch d n
  case case1 | case8 => exact h
  case case2 ih =>
    rw [List.filterMap_cons_some (by rfl), List.forall_mem_cons] at hreport
    exact ih hreport.2 hissue (hreport.1 _ h)
  case case3 ih => exact ih hreport hissue h
  case case4 hstep ih | case6 hstep ih =>
    rw [List.filterMap_cons_some (by rfl), List.forall_mem_cons] at hissue
    have hnext := hissue.1 _ h
    rw [hstep] at hnext
    exact ih hreport hissue.2 hnext
  case case5 hstep | case7 hstep =>
    have hnext := hissue _ (List.mem_filterMap.2 ⟨_, List.mem_cons_self, rfl⟩) _ h
    rwa [hstep] at hnext

/-! ### Collectors -/

/-- A collector refuses nothing. -/
theorem fault_play_collector {evs : List Event} {s : Collector} {log : Log} {d : Declarations}
    {n : Nat} (hreissue : ∀ c ∈ evs.filterMap Event.command?, c.reissue = .ok c.frozen)
    (hfault : ∀ f, .fault f ∉ evs) : (play 0 evs ⟨[], s, log⟩ d n).fault = none :=
  fault_play hreissue (fun c _ => transparent_nil c.frozen) (fun _ _ _ => rfl) hfault

/-! ### Writers -/

/-- **A writer puts each command on a line of its own**, with some indentation. -/
theorem lines_deliver {es : List Entry} (w : Writer) (hindent : w.indent = Writer.defaultIndent)
    (h : ∀ e ∈ es, ∃ t, commandText e.command.frozen = .ok t ∧ ReadsAs t e.lexemes) :
    ∃ lines, (deliver w (es.map fun e => e.command.frozen)).lines.toList
        = w.lines.toList ++ lines ∧
      List.Forall₂ (fun t e => ReadsAs t e.lexemes) lines es := by
  induction es generalizing w with
  | nil => exact ⟨[], (List.append_nil _).symm, .nil⟩
  | cons e es ih =>
    rw [List.forall_mem_cons] at h
    obtain ⟨⟨t, htext, hreads⟩, hes⟩ := h
    obtain ⟨level, after, hwrite⟩ : ∃ level after, (w.write e.command.frozen).1
        = ⟨w.indent, after, w.lines.push (Writer.repeated w.indent level ++ t)⟩ := by
      simp only [Writer.write, htext]
      exact ⟨_, _, rfl⟩
    obtain ⟨lines, hlines, hforall⟩ := ih (w.write e.command.frozen).1
      (by rw [hwrite]; exact hindent) hes
    refine ⟨(Writer.repeated w.indent level ++ t) :: lines, ?_, .cons ?_ hforall⟩
    · have hdeliver : deliver w ((e :: es).map fun e => e.command.frozen)
          = deliver (w.write e.command.frozen).1 (es.map fun e => e.command.frozen) := rfl
      rw [hdeliver, hlines, hwrite]
      simp
    · -- How deep the scopes are does not matter: indentation is passed over.
      rw [hindent]
      exact hreads.indented level

end SceneReplay.Rib

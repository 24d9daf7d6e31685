import SceneReplay.Proofs.Archive.Names
import SceneReplay.Proofs.Rib.Characters
import SceneReplay.Proofs.Rib.Expanding
import SceneReplay.Proofs.Rib.Incremental
import SceneReplay.Proofs.Rib.Stopping

/-!
# How an expansion ends

Neither a stage nor a writer ever stops the reading of a text: a writer takes every command that
is in order (`SceneReplay.Rib.takesInOrder_writer`), and no other command comes to it. So the
first fault that the text leads to by itself is the only one, whatever chain the text is read
into (`SceneReplay.Rib.fault_read`), and an expansion ends as the reading into a collector does:
with a result, or with an integer literal that has too many digits or is too large for a double
(`SceneReplay.Rib.expand_ends`).

Whatever holds of all commands that the text calls for holds of what is recorded and of what the
reports are about (`SceneReplay.Rib.speaks_read`). So if the text is of characters alone, so are all
texts of the result (`SceneReplay.Rib.ofCharacters_of_expand`); and the names of definitions, also
those in reports, are texts in any case (`SceneReplay.Rib.named_of_expand`).
-/

namespace SceneReplay

namespace Rib

/-! ### What a writer takes -/

/-- A command in order has a line. -/
theorem commandText_of_inOrder {c : Command} (h : c.InOrder) :
    ∃ line, commandText c = .ok line := by
  obtain ⟨⟨p, hp, hlength, -⟩, -⟩ := h
  unfold commandText
  split
  · rename_i hproc
    rw [hproc, find?_record] at hp
    cases hp
    obtain ⟨type, text, hargs⟩ := List.length_eq_two.1 hlength
    rw [hargs]
    exact ⟨_, rfl⟩
  · split
    · rename_i hproc
      rw [(isRequestName_of_find? hp).2.2 hproc] at hlength
      rcases hargs : c.args with _ | ⟨data, _ | ⟨bound, _ | ⟨refine', _ | ⟨free, _ | ⟨v, vs⟩⟩⟩⟩⟩
      case cons.cons.cons.cons.nil => exact ⟨_, rfl⟩
      all_goals
        rw [hargs] at hlength
        cases hlength
    · exact ⟨_, rfl⟩

/-- **A writer takes every command that is in order.** -/
theorem takesInOrder_writer : Chain.TakesInOrder Writer := by
  intro w c hc
  obtain ⟨line, hline⟩ := commandText_of_inOrder hc
  exact accept_of_commandText hline w

/-! ### The first fault -/

/-- The fault that an event stops the reading with, if it does. -/
def Event.fault? : Event → Option Fault
  | .fault f => some f
  | _ => none

section Reading

variable {σ : Type} [Sink σ]

/-- **Events are stopped by their first fault** and by nothing else, if the sink takes what is
in order. -/
theorem fault_play_of_takes (hsink : Chain.TakesInOrder σ) {evs : List Event}
    (hreissue : ∀ c ∈ evs.filterMap Event.command?, ∃ d, c.reissue = .ok d) {ch : Chain σ}
    (hch : ch.Reachable) (d : Declarations) (n : Nat) :
    (play 0 evs ch d n).fault = evs.findSome? Event.fault? := by
  -- No call stops them.
  have hcall : ∀ {c : Command} {ch ch₁ : Chain σ} {r : Option Fault}, ch.Reachable →
      (∃ d, c.reissue = .ok d) → ch.issue 0 c = (ch₁, r) → r = none ∧ ch₁.Reachable := by
    intro c ch ch₁ r hch hc hissue
    have hnone := (Chain.issues_issueAll ch [c]).not_fault_of_takes hsink
      (List.forall_mem_singleton.2 hc) hch.fits hch.recordedInOrder
    have hnext := hch.issue c
    rw [hissue] at hnext
    exact ⟨(congrArg Prod.snd hissue).symm.trans hnone, hnext⟩
  fun_induction play 0 evs ch d n
  case case1 => rfl
  case case2 ih => exact ih hreissue (.addReport _ hch)
  case case3 ih => exact ih hreissue hch
  case case4 hissue ih | case6 hissue ih =>
    rw [List.filterMap_cons_some (by rfl), List.forall_mem_cons] at hreissue
    exact ih hreissue.2 (hcall hch hreissue.1 hissue).2
  case case5 hissue | case7 hissue =>
    rw [List.filterMap_cons_some (by rfl), List.forall_mem_cons] at hreissue
    cases (hcall hch hreissue.1 hissue).1
  case case8 => rfl

/-- **What stops the reading of a text** does not depend on the chain that it is read into. -/
theorem fault_read (hsink : Chain.TakesInOrder σ) {ch : Chain σ} (hch : ch.Reachable)
    (d : Declarations) (t : Text) :
    (read ch 0 d t).fault = (events d t).findSome? Event.fault? :=
  fault_play_of_takes hsink
    (fun c hc => ⟨c.frozen, (isCalled_of_events c hc).isWellFormed.reissue_eq⟩) hch d 0

end Reading

/-! ### How an expansion ends -/

/-- **How the expansion of a text ends.** -/
inductive ExpansionEnds (t : Text) : Except Fault Expanded → Prop
  /-- With a result. -/
  | complete (x : Expanded) : ExpansionEnds t (.ok x)
  /-- At a literal of too many digits. -/
  | oversized {literal : Text} {digits : Nat} (hliteral : IsOversized t literal digits) :
      ExpansionEnds t (.error (.tooManyDigits digits))
  /-- At a literal that is too large for a double. -/
  | tooLarge {before after : List Request} {r : Request} {z : Int}
      (hrequest : (split (tokensOf (lex 1 t))).2 = before ++ r :: after)
      (hliteral : StopsAt r z) : ExpansionEnds t (.error .integerTooLarge)

/-- The chain that a text is expanded in. -/
def expandingChain (f : ArchiveFilter) : Chain Writer :=
  (Chain.ofSink (Writer.empty Writer.defaultIndent)).addStage (.archive f)

theorem isNew_of_filterFor {env : Environment} {options : ExpandOptions} {f : ArchiveFilter}
    (h : filterFor env options = .ok f) : (Stage.archive f).IsNew := by
  obtain ⟨settings, -, hmake⟩ := bind_eq_ok.1 h
  exact ArchiveFilter.isNew_of_make hmake

/-- An expansion is over when its text has been read. -/
theorem expandWith_eq (f : ArchiveFilter) (t : Text) :
    expandWith f t = match (read (expandingChain f) 0 .standard t).fault with
      | some fault => .error fault
      | none => .ok
          { rib := (read (expandingChain f) 0 .standard t).chain.sink.text
            requests := (read (expandingChain f) 0 .standard t).issued
            reports := (read (expandingChain f) 0 .standard t).chain.log.toList
            snapshot := (((read (expandingChain f) 0 .standard t).chain.archiveFilters.head?).getD
              f).snapshot (some "end of input") } := rfl

/-- **An expansion ends with a result** unless an integer literal has too many digits, or one
that is wanted as a double is too large for it. In particular it does so if no literal has too
many digits and none is too large. -/
theorem expand_ends {env : Environment} {options : ExpandOptions} {f : ArchiveFilter}
    (hf : filterFor env options = .ok f) (t : Text) :
    ExpansionEnds t (expand env options t) ∧
      ((∀ literal digits, ¬ IsOversized t literal digits) →
        (∀ z ∈ integerLiterals t, ¬ TooLarge z) → ∃ x, expand env options t = .ok x) := by
  rw [expand_of_filterFor hf, expandWith_eq]
  obtain ⟨hends, hnone⟩ := read_ends .standard .empty .empty t
  -- The filter and the writer stop nothing, no more than a collector alone does.
  have hsame : (read (expandingChain f) 0 .standard t).fault
      = (read ⟨[], Collector.empty, .empty⟩ 0 .standard t).fault :=
    (fault_read takesInOrder_writer (.addStage (isNew_of_filterFor hf) (.ofSink _)) _ _).trans
      (fault_read (fun _ _ _ => rfl) (.ofSink Collector.empty) _ _).symm
  rw [hsame]
  refine ⟨?_, fun hoversized hlarge => ?_⟩
  · rcases hends with hfault | ⟨hfault, hliteral, -⟩ | ⟨hfault, hrequest, hliteral, -, -⟩
    · rw [hfault]
      exact .complete _
    · rw [hfault]
      exact .oversized hliteral
    · rw [hfault]
      exact .tooLarge hrequest hliteral
  · rw [hnone hoversized hlarge]
    exact ⟨_, rfl⟩

/-! ### The texts of an expansion -/

/-- The subject of a command is one of its arguments, or nothing. -/
theorem ofCharacters_subject {c : Command} (h : c.OfCharacters) : c.subject.OfCharacters := by
  intro s hs
  rcases hargs : c.args with _ | ⟨v, vs⟩
  · rw [Command.subject, hargs] at hs
    cases hs
  · rw [Command.subject, hargs] at hs
    refine h s (List.mem_append_left _ (Value.mem_scalarsIn.2 ⟨v, ?_, hs⟩))
    rw [hargs]
    exact List.mem_cons_self

/-- A problem is shown in characters, whatever it is about. -/
theorem ofCharacters_report (p : Problem) (line : Int) : (p.report line).message.OfCharacters :=
  Text.ofCharacters_ofString _

theorem ofCharacters_of_reportedBy {r : Report}
    (h : ArchiveFilter.ReportedBy Command.OfCharacters r) : r.message.OfCharacters := by
  have hstring := Text.ofCharacters_ofString
  cases h with
  | badHandle hc =>
    exact ((hstring _).append (ofCharacters_plain (ofCharacters_subject hc))).append (hstring _)
  | tooDeep hname =>
    obtain ⟨c, hc, -, rfl⟩ := hname
    exact ((((((hstring _).append (hstring _)).append (hstring _)).append (hstring _)).append
      (hstring _)).append (ofCharacters_plain (ofCharacters_subject hc))).append (hstring _)

/-- **A chain that a text is read into** records what the text calls for, and reports problems of
the text or what is about such commands. -/
theorem speaks_read {P : Command → Prop} {t : Text} (ht : ∀ c ∈ calls t, P c.frozen) (limit : Nat)
    (capture : Bool) :
    (read (expandingChain (.fresh limit capture)) 0 .standard t).chain.Speaks P
      fun r => ∃ (p : Problem) (line : Int), r = p.report line := by
  have hstart : (expandingChain (.fresh limit capture)).Speaks P
      fun r => ∃ (p : Problem) (line : Int), r = p.report line := by
    refine ⟨List.forall_mem_singleton.2 ?_, List.forall_mem_singleton.2 ?_, nofun⟩
    · intro kind s hs
      cases kind <;> cases hs
    · intro kind name hname
      cases kind <;> cases hname
  refine play_keeps (fun r hr ch hch => hch.addReport (exists_problem_of_events r hr))
    (fun c hc ch hch => hch.issue fun d hd => ?_) hstart _ _
  rw [(isCalled_of_events c hc).isWellFormed.reissue_eq] at hd
  obtain rfl := Except.ok.inj hd
  exact ht c hc

theorem ofCharacters_frozen_of_calls {t : Text} (ht : t.OfCharacters) :
    ∀ c ∈ calls t, c.frozen.OfCharacters := by
  intro c hc
  rw [Command.OfCharacters, Command.scalars_frozen]
  exact ofCharacters_of_calls ht c hc

/-- The filter that is looked at when the text has been read: if there were none, a new one. -/
theorem named_head {ch : Chain Writer} {P : Command → Prop} (h : ∀ s ∈ ch.stages, s.NamedBy P)
    (limit : Nat) (capture : Bool) :
    (ch.archiveFilters.head?.getD (.fresh limit capture)).NamedBy P := by
  rcases hhead : ch.archiveFilters.head? with _ | g
  · intro kind name hname
    cases kind <;> cases hname
  · obtain ⟨s, hs, hg⟩ := List.mem_filterMap.1 (List.mem_of_mem_head? hhead)
    cases s with
    | archive f =>
      obtain rfl : f = g := Option.some.inj hg
      exact h _ hs
    | _ => cases hg

/-- What can be seen of a filter shows the names of its streams. -/
theorem exists_isNameOf_of_snapshot {P : Command → Prop} {f : ArchiveFilter} (h : f.NamedBy P)
    (note : Option String) : ∀ s ∈ (f.snapshot note).archives ++ (f.snapshot note).objects,
      ∃ kind, ArchiveFilter.IsNameOf P kind s.name := by
  rw [List.forall_mem_append]
  exact ⟨List.forall_mem_map.2 fun s hs => ⟨.archive, h .archive _ (List.mem_map_of_mem hs)⟩,
    List.forall_mem_map.2 fun s hs => ⟨.object, h .object _ (List.mem_map_of_mem hs)⟩⟩

/-- **What an expansion tells**: its reports are about problems of the text or commands that it
calls for, and its definitions have the names that such commands opened them with. -/
theorem told_of_expand {P : Command → Prop} {env : Environment} {options : ExpandOptions}
    {t : Text} {x : Expanded} (ht : ∀ c ∈ calls t, P c.frozen) {f : ArchiveFilter}
    (hf : filterFor env options = .ok f) (hx : expand env options t = .ok x) :
    (∀ r ∈ x.reports,
      (∃ (p : Problem) (line : Int), r = p.report line) ∨ ArchiveFilter.ReportedBy P r) ∧
      ∀ s ∈ x.snapshot.archives ++ x.snapshot.objects,
        ∃ kind, ArchiveFilter.IsNameOf P kind s.name := by
  rw [expand_of_filterFor hf] at hx
  obtain ⟨limit, capture, rfl⟩ := exists_fresh_of_filterFor hf
  obtain ⟨-, hnamed, hlog⟩ := speaks_read ht limit capture
  rw [expandWith_eq] at hx
  split at hx
  · cases hx
  · cases hx
    exact ⟨hlog, exists_isNameOf_of_snapshot (named_head hnamed limit capture) _⟩

/-- **A text of characters is expanded to texts of characters**: the scene file that comes out,
the messages of all reports, and the names of all definitions. -/
theorem ofCharacters_of_expand {env : Environment} {options : ExpandOptions} {t : Text}
    {x : Expanded} (ht : t.OfCharacters) {f : ArchiveFilter} (hf : filterFor env options = .ok f)
    (hx : expand env options t = .ok x) :
    x.rib.OfCharacters ∧ (∀ r ∈ x.reports, r.message.OfCharacters) ∧
      ∀ s ∈ x.snapshot.archives ++ x.snapshot.objects, s.name.plain.OfCharacters := by
  obtain ⟨hreports, hnames⟩ := told_of_expand (ofCharacters_frozen_of_calls ht) hf hx
  refine ⟨?_, fun r hr => ?_, fun s hs => ?_⟩
  · rw [expand_of_filterFor hf] at hx
    obtain ⟨limit, capture, rfl⟩ := exists_fresh_of_filterFor hf
    rw [rib_of_expandWith hx]
    refine ofCharacters_deliver (fun c hc => ?_) (Text.ofCharacters_ofString _) nofun
    obtain ⟨⟨d, hd, -, rfl⟩, -⟩ := called_of_mem_sent c hc
    exact ofCharacters_frozen_of_calls ht d hd
  · rcases hreports r hr with ⟨p, line, rfl⟩ | hr
    · exact ofCharacters_report p line
    · exact ofCharacters_of_reportedBy hr
  · obtain ⟨kind, c, hc, -, hname⟩ := hnames s hs
    rw [hname]
    exact ofCharacters_plain (ofCharacters_subject hc)

/-- **The names of definitions are texts**, and so are the names in the reports about them. -/
theorem named_of_expand {env : Environment} {options : ExpandOptions} {t : Text} {x : Expanded}
    {f : ArchiveFilter} (hf : filterFor env options = .ok f) (hx : expand env options t = .ok x) :
    (∀ s ∈ x.snapshot.archives ++ x.snapshot.objects, ∃ name, s.name = .text name) ∧
      ∀ r ∈ x.reports, (∃ (p : Problem) (line : Int), r = p.report line) ∨
        ∃ name, r = ArchiveFilter.badHandle (.text name) ∨
          ∃ limit kind, r = ArchiveFilter.tooDeep limit kind (.text name) := by
  have hcalls : ∀ c ∈ calls t, c.frozen.IsNamedByText :=
    fun c hc => (isCalled_of_events c hc).isNamedByText.frozen
  have hname : ∀ {kind : StreamKind} {name : Value},
      ArchiveFilter.IsNameOf Command.IsNamedByText kind name → ∃ t, name = .text t := by
    rintro kind name ⟨c, hc, hrole, rfl⟩
    exact hc (by rw [hrole]; cases kind <;> rfl)
  obtain ⟨hreports, hnames⟩ := told_of_expand hcalls hf hx
  refine ⟨fun s hs => (hnames s hs).elim fun _ => hname, fun r hr => ?_⟩
  rcases hreports r hr with hproblem | hr
  · exact .inl hproblem
  · cases hr with
    | badHandle hc hrole =>
      obtain ⟨name, hsubject⟩ := hc (by rw [hrole]; rfl)
      exact .inr ⟨name, .inl (by rw [hsubject])⟩
    | tooDeep h limit =>
      obtain ⟨name, rfl⟩ := hname h
      exact .inr ⟨name, .inr ⟨limit, _, rfl⟩⟩

end Rib

end SceneReplay

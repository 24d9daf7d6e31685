import SceneReplay.Proofs.Rib.Playing

/-!
# Writing a scene file and reading it again

A text that is read into a writer comes back: what the writer wrote is read without any
report, makes as many requests, and leads to the same commands in the same order
(`SceneReplay.Rib.reads_written`). *Same* is `SceneReplay.Command.same`: the same
procedure, arguments and parameters, token by token and type by type, numbers compared by
value.

Three things are asked of the text. A writer takes it to its end; it calls for no comment
by a request, since a writer turns such a call into a comment; and no infinite double is
in what it calls for.

The proof goes over the script of the text (`SceneReplay.Rib.Script`): its commands are
what a collector keeps, its lines are what a writer writes, and the events of these lines
are those of the script, read back.
-/

namespace SceneReplay.Rib

/-! ### Reading into a fresh sink -/

/-- A text read into a writer. -/
def written (t : Text) : Played Writer :=
  read (Chain.ofSink (Writer.empty Writer.defaultIndent)) 0 Declarations.standard t

/-- A text read into a collector. -/
def collected (t : Text) : Played Collector :=
  read (Chain.ofSink Collector.empty) 0 Declarations.standard t

/-- The names of the requests in a text. -/
def requestNames (t : Text) : List String :=
  (split (tokensOf (lex 1 t))).2.map Request.name

/-! ### The commands of a script -/

/-- Whether an entry is a request. -/
def Entry.isRequest : Entry → Bool
  | .request _ => true
  | .comment _ _ => false

/-- The command that an entry issues when it is read back. -/
def Entry.rereadCommand : Entry → Command
  | .request c => c.reread
  | .comment _ r => r.command

theorem command_callEvents (c : Command) :
    (callEvents c).filterMap Event.command? = [c] ∧
      (callEvents c).filterMap Event.report? = [] ∧
      (callEvents c).countP Event.isRequest = 1 := by
  unfold callEvents
  split <;> exact ⟨rfl, rfl, rfl⟩

/-- **The commands of a script** are those that its events issue. -/
theorem Script.commands {d : Declarations} {evs : List Event} {es : List Entry}
    (h : Script d evs es) : evs.filterMap Event.command? = es.map Entry.command ∧
      evs.countP Event.isRequest = es.countP Entry.isRequest := by
  induction h with
  | nil d => exact ⟨rfl, rfl⟩
  | report r _ ih => exact ih
  | comment _ _ _ ih =>
    constructor
    · rw [List.filterMap_cons_some (by rfl), ih.1]
      rfl
    · rw [List.countP_cons_of_neg (by nofun), ih.2, List.countP_cons_of_neg (by nofun)]
  | @request d evs es c _ _ _ ih =>
    obtain ⟨hcommand, -, hcount⟩ := command_callEvents c
    constructor
    · rw [List.filterMap_append, hcommand, ih.1]
      rfl
    · rw [List.countP_append, hcount, ih.2, List.countP_cons_of_pos (by rfl), Nat.add_comm]

/-- The commands of entries that are read back. -/
theorem commands_rereadEvents (es : List Entry) :
    (es.flatMap Entry.rereadEvents).filterMap Event.command? = es.map Entry.rereadCommand ∧
      (es.flatMap Entry.rereadEvents).filterMap Event.report? = [] ∧
      (es.flatMap Entry.rereadEvents).countP Event.isRequest = es.countP Entry.isRequest := by
  induction es with
  | nil => exact ⟨rfl, rfl, rfl⟩
  | cons e es ih =>
    obtain ⟨hcommands, hreports, hcount⟩ := ih
    have hentry : e.rereadEvents.filterMap Event.command? = [e.rereadCommand] ∧
        e.rereadEvents.filterMap Event.report? = [] ∧
        e.rereadEvents.countP Event.isRequest = if e.isRequest then 1 else 0 := by
      rcases e with c | ⟨l, r⟩
      · exact command_callEvents c.reread
      · exact ⟨rfl, rfl, rfl⟩
    rw [List.flatMap_cons, List.filterMap_append, List.filterMap_append, List.countP_append,
      hentry.1, hentry.2.1, hentry.2.2, hcommands, hreports, hcount, List.countP_cons]
    exact ⟨rfl, rfl, Nat.add_comm _ _⟩

theorem fault_not_mem_rereadEvents (es : List Entry) (f : Fault) :
    .fault f ∉ es.flatMap Entry.rereadEvents := by
  intro hf
  obtain ⟨e, -, he⟩ := List.mem_flatMap.1 hf
  rcases e with c | ⟨l, r⟩
  · replace he : .fault f ∈ callEvents c.reread := he
    unfold callEvents at he
    split at he
    · rcases he with _ | ⟨_, _ | ⟨_, ⟨⟩⟩⟩
    · rcases he with _ | ⟨_, ⟨⟩⟩
  · rcases he with _ | ⟨_, ⟨⟩⟩

theorem find?_record : Procedure.find? "ArchiveRecord"
    = some ⟨"ArchiveRecord", [("type", .token), ("string", .string)], false⟩ := by decide

theorem isWellFormed_record (r : Record) : r.command.IsWellFormed :=
  ⟨_, find?_record, rfl, rfl⟩

/-- The commands of a script are well-formed, also when they are read back. -/
theorem Script.isWellFormed {d : Declarations} {evs : List Event} {es : List Entry}
    (h : Script d evs es) :
    ∀ e ∈ es, e.command.IsWellFormed ∧ e.rereadCommand.IsWellFormed := by
  induction h with
  | nil d => nofun
  | report r _ ih => exact ih
  | @comment d evs es l r _ _ _ ih =>
    exact List.forall_mem_cons.2 ⟨⟨isWellFormed_record r, isWellFormed_record r⟩, ih⟩
  | request hc _ _ ih =>
    exact List.forall_mem_cons.2 ⟨⟨hc.isWellFormed, hc.isWellFormed.reread⟩, ih⟩

/-- **The entries of a script are written on lines** that are read as their tokens. -/
theorem Script.readsAs {d : Declarations} {evs : List Event} {es : List Entry}
    (h : Script d evs es) (hfinite : ∀ e ∈ es, e.command.carriesInfinity = false) :
    ∀ e ∈ es, ∃ t, commandText e.command.frozen = .ok t ∧ ReadsAs t e.lexemes := by
  induction h with
  | nil d => nofun
  | report r _ ih => exact ih hfinite
  | comment hl hr _ ih =>
    rw [List.forall_mem_cons] at hfinite ⊢
    exact ⟨readsAs_comment hl hr, ih hfinite.2⟩
  | request hc hrecord _ ih =>
    rw [List.forall_mem_cons] at hfinite ⊢
    obtain ⟨hwritable, hprocedural, p, hp, -⟩ := hc.reread hfinite.1
    exact ⟨readsAs_request (isRequestName_of_find? hp).1 hrecord hwritable hprocedural,
      ih hfinite.2⟩

/-- **What is read back is the same.** -/
theorem Script.same {d : Declarations} {evs : List Event} {es : List Entry}
    (h : Script d evs es) (hfinite : ∀ e ∈ es, e.command.carriesInfinity = false) :
    ∀ e ∈ es, e.command.frozen.same e.rereadCommand.frozen = true := by
  induction h with
  | nil d => nofun
  | report r _ ih => exact ih hfinite
  | @comment d evs es l r _ _ _ ih =>
    rw [List.forall_mem_cons] at hfinite ⊢
    refine ⟨?_, ih hfinite.2⟩
    simp [Entry.command, Entry.rereadCommand, Record.command, Command.frozen, Command.same,
      Value.freeze, Value.sameAll, Value.same]
  | request hc _ _ ih =>
    rw [List.forall_mem_cons] at hfinite ⊢
    exact ⟨Command.same_reread (hc.reread hfinite.1).1, ih hfinite.2⟩

/-! ### The round trip -/

/-- **Reading into a collector**: its commands, its reports and the number of requests. -/
theorem collected_eq {t : Text}
    (hwellFormed : ∀ c ∈ (events Declarations.standard t).filterMap Event.command?,
      c.IsWellFormed)
    (hfault : ∀ f, .fault f ∉ events Declarations.standard t) :
    (collected t).fault = none ∧
      (collected t).chain.sink.toList
        = ((events Declarations.standard t).filterMap Event.command?).map Command.frozen ∧
      (collected t).chain.log
        = ((events Declarations.standard t).filterMap Event.report?).foldl Log.add .empty ∧
      (collected t).issued = (events Declarations.standard t).countP Event.isRequest := by
  have hreissue : ∀ c ∈ (events Declarations.standard t).filterMap Event.command?,
      c.reissue = .ok c.frozen := fun c hc => (hwellFormed c hc).reissue_eq
  have hnone : (collected t).fault = none := fault_play_collector hreissue hfault
  have hend : collected t = _ := play_toEnd hreissue hnone
  refine ⟨hnone, ?_, ?_, ?_⟩
  · rw [hend, toList_deliver]
    rfl
  · rw [hend]
  · rw [hend, Nat.zero_add]

/-- **A scene file is read back from what a writer made of it.** If a writer takes a text
to its end, the text calls for no comment by a request, and no infinite double is in what
it calls for, then what was written is read to its end, with as many requests, without a
report, and with the same commands in the same order. -/
theorem reads_written {t : Text} (hwritten : (written t).fault = none)
    (hrecord : "ArchiveRecord" ∉ requestNames t)
    (hfinite : ∀ c ∈ (collected t).chain.sink.toList, c.carriesInfinity = false) :
    (collected (written t).chain.sink.text).fault = none ∧
      (collected (written t).chain.sink.text).issued = (written t).issued ∧
      (collected (written t).chain.sink.text).chain.log.toList = [] ∧
      List.Forall₂ (fun c d => c.same d = true) (collected t).chain.sink.toList
        (collected (written t).chain.sink.text).chain.sink.toList := by
  -- The script of the text, and what it says of both readings.
  have hfault : ∀ f, .fault f ∉ events Declarations.standard t := not_fault_of_play hwritten
  have hnames : ∀ r ∈ (split (tokensOf (lex 1 t))).2, r.name ≠ "ArchiveRecord" :=
    fun r hr h => hrecord (List.mem_map.2 ⟨r, hr, h⟩)
  obtain ⟨es, hscript⟩ := exists_script_of_events hnames hfault
  obtain ⟨hcommands, hcount⟩ := hscript.commands
  have hwellFormed : ∀ c ∈ (events Declarations.standard t).filterMap Event.command?,
      c.IsWellFormed := by
    rw [hcommands, List.forall_mem_map]
    exact fun e he => (hscript.isWellFormed e he).1
  obtain ⟨-, hfirst, -, -⟩ := collected_eq hwellFormed hfault
  rw [hcommands, List.map_map] at hfirst
  have hfinite' : ∀ e ∈ es, e.command.carriesInfinity = false := by
    intro e he
    rw [← Command.carriesInfinity_frozen]
    exact hfinite _ (hfirst ▸ List.mem_map_of_mem he)
  -- The lines, and the events that they are read as.
  have hend : written t = _ :=
    play_toEnd (fun c hc => (hwellFormed c hc).reissue_eq) hwritten
  rw [hcommands, List.map_map] at hend
  obtain ⟨lines, hlines, hreads⟩ :=
    lines_deliver (Writer.empty Writer.defaultIndent) rfl (hscript.readsAs hfinite')
  have htext : (written t).chain.sink.text = lines.flatMap fun line => line ++ [.char '\n'] := by
    have htoList : (written t).chain.sink.lines.toList = lines := by
      rw [hend]
      exact hlines
    rw [Writer.text, htoList]
  have hevents : events Declarations.standard (written t).chain.sink.text
      = es.flatMap Entry.rereadEvents := by
    rw [htext, events_of_lex (lex_document hreads 1)]
    exact (events_document hscript hfinite' 1).2
  obtain ⟨hagain, hreports, hcountAgain⟩ := commands_rereadEvents es
  rw [← hevents] at hagain hreports hcountAgain
  obtain ⟨hfaultAgain, hsecond, hlog, hissued⟩ := collected_eq
    (by rw [hagain, List.forall_mem_map]; exact fun e he => (hscript.isWellFormed e he).2)
    (by rw [hevents]; exact fault_not_mem_rereadEvents es)
  refine ⟨hfaultAgain, ?_, ?_, ?_⟩
  · rw [hissued, hcountAgain, hend, Nat.zero_add, hcount]
  · rw [hlog, hreports]
    rfl
  · rw [hfirst, hsecond, hagain, List.map_map, List.forall₂_map_left_iff,
      List.forall₂_map_right_iff, List.forall₂_same]
    exact hscript.same hfinite'

/-- A declaration, a call that relies on it, comments, and a request that does not
exist. -/
def declaredSurface : Text :=
  "# a\nDeclare \"k\" \"float\"\nSurface \"x\" \"k\" 1.5 # b\nFrob 3\n"

/-- What is written of `SceneReplay.Rib.declaredSurface`. -/
def writtenSurface : Text :=
  "# a\nDeclare \"k\" \"float\"\nSurface \"x\" \"k\" [1.5]\n# b\n"

/-- Two requests and two comments are read back. -/
theorem reads_written_declaredSurface :
    (written declaredSurface).chain.sink.text = writtenSurface ∧
      (collected writtenSurface).fault = none ∧ (collected writtenSurface).issued = 2 ∧
      (collected writtenSurface).chain.log.toList = [] ∧
      (collected writtenSurface).chain.sink.toList.map (fun c => (c.proc, Value.literals c.args))
        = [("ArchiveRecord", ["'comment'", "' a'"]), ("Declare", ["'k'", "'float'"]),
          ("Surface", ["'x'"]), ("ArchiveRecord", ["'comment'", "' b'"])] ∧
      (collected writtenSurface).chain.sink.toList.filterMap
          (fun c => c.params.map fun ps =>
            ps.items.map fun p => (p.token.display, p.values.map Scalar.literal))
        = [[("k", ["1.5"])]] ∧
      List.Forall₂ (fun c d => c.same d = true) (collected declaredSurface).chain.sink.toList
        (collected writtenSurface).chain.sink.toList := by
  have htext : (written declaredSurface).chain.sink.text = writtenSurface := by decide +kernel
  obtain ⟨hfault, hissued, hreports, hsame⟩ :=
    reads_written (t := declaredSurface) (Option.isNone_iff_eq_none.1 (by decide +kernel))
      (by decide +kernel) (by decide +kernel)
  rw [htext] at hfault hissued hreports hsame
  exact ⟨htext, hfault, hissued.trans (by decide +kernel), hreports, by decide +kernel,
    by decide +kernel, hsame⟩

end SceneReplay.Rib

import SceneReplay.Proofs.Rib.Reprint
import SceneReplay.Proofs.Rib.RoundTrip

/-!
# Lines in another order

What a call of a scene file owes to the declarations before it are the types of its
parameters, and nothing else (`SceneReplay.Rib.readCall_retyped`). Types are not written, so
the same operands make the same line under all declarations.

Hence lines can be moved. Take calls and comments that were read anywhere, in any order and
any number, and write them down: what is read back are calls and comments again that are
written on the same lines (`SceneReplay.Rib.events_of_lines`).
-/

namespace SceneReplay

/-! ### Types of parameters -/

/-- The parameters of a command. -/
def Command.paramItems (c : Command) : List Param := (c.params.map ParamList.items).getD []

/-- The same parameter, but for its type. -/
def Param.SameButType (p q : Param) : Prop := p.token = q.token ∧ p.values = q.values

theorem Param.SameButType.name_eq {p q : Param} (h : p.SameButType q) : p.name = q.name := by
  obtain ⟨token, type, values, named⟩ := p
  obtain ⟨token', type', values', named'⟩ := q
  obtain ⟨rfl, -⟩ := h
  rfl

/-- The same command, but for the types of its parameters. -/
structure Command.SameButTypes (c d : Command) : Prop where
  /-- The procedures agree. -/
  proc : c.proc = d.proc
  /-- The arguments agree. -/
  args : c.args = d.args
  /-- The parameters have the same tokens and values. -/
  params : List.Forall₂ Param.SameButType c.paramItems d.paramItems

/-- Where all pairs agree in what a function makes of them, so do the lists. -/
theorem map_eq_of_forall₂ {α β γ : Type} {R : α → β → Prop} {f : α → γ} {g : β → γ}
    (hR : ∀ a b, R a b → f a = g b) {as : List α} {bs : List β} (h : List.Forall₂ R as bs) :
    as.map f = bs.map g := by
  induction h with
  | nil => rfl
  | cons hab _ ih => rw [List.map_cons, List.map_cons, hR _ _ hab, ih]

namespace Rib

theorem paramListTexts_eq (c : Command) :
    paramListTexts c.params = (c.paramItems.map paramTexts).flatten := by
  rw [← List.flatMap_def]
  rcases hps : c.params with _ | ps
  · simp [paramListTexts, Command.paramItems, hps]
  · simp [paramListTexts, Command.paramItems, hps]

/-- **Types are not written.** -/
theorem commandText_of_sameButTypes {c d : Command} (h : c.SameButTypes d) :
    commandText c.frozen = commandText d.frozen := by
  have htexts : ∀ p q : Param, p.SameButType q → paramTexts p = paramTexts q := by
    rintro p q ⟨htoken, hvalues⟩
    rw [paramTexts, paramTexts, htoken, hvalues]
  refine commandText_congr h.proc (congrArg Value.freezeAll h.args) ?_
  change paramListTexts c.params = paramListTexts d.params
  rw [paramListTexts_eq, paramListTexts_eq, map_eq_of_forall₂ htexts h.params]

theorem carriesInfinity_eq (c : Command) : c.carriesInfinity
    = (Value.anyInfinity c.args || c.paramItems.any fun p => p.values.any Scalar.isInfinite) := by
  rcases hps : c.params with _ | ps <;> simp [Command.carriesInfinity, Command.paramItems, hps]

theorem carriesInfinity_of_sameButTypes {c d : Command} (h : c.SameButTypes d) :
    c.carriesInfinity = d.carriesInfinity := by
  have hvalues := map_eq_of_forall₂ (f := Param.values) (g := Param.values)
    (fun _ _ hpq => hpq.2) h.params
  have hany : ∀ items : List Param, (items.any fun p => p.values.any Scalar.isInfinite)
      = (items.map Param.values).any fun values => values.any Scalar.isInfinite := by
    intro items
    rw [List.any_map]
    rfl
  rw [carriesInfinity_eq, carriesInfinity_eq, hany, hany, h.args, hvalues]

/-! ### Other declarations -/

section Retype

variable {declared : Text → Text} {ops : List Operand}

/-- **Parameters under other declarations** have other types at most. -/
theorem readParamItems_retyped {items : List Param}
    (h : readParamItems declared ops = .ok items) (hops : ∀ op ∈ ops, op ≠ .broken)
    (declared' : Text → Text) : ∃ items', readParamItems declared' ops = .ok items' ∧
      List.Forall₂ Param.SameButType items items' := by
  fun_induction readParamItems declared ops generalizing items with
  | case1 token value rest reasons hparse => cases h
  | case2 token value rest p hparse ih =>
    simp only [List.forall_mem_cons] at hops
    rcases hrest : readParamItems declared rest with e | ps
    · rw [hrest] at h
      cases h
    · rw [hrest] at h
      obtain rfl : p :: ps = items := Except.ok.inj h
      obtain ⟨ps', hps', hsame⟩ := ih hrest hops.2.2
      obtain ⟨htoken, rfl, -, hvalues⟩ := (parse_toValue hops.2.1).1 hparse
      -- The token and the values are in order, whatever the type is.
      let p' : Param := { p with type := (Param.inlineType? p.token).getD (declared' p.token) }
      have hparse' : Param.parse p.token value.toValue (.text (declared' p.token)) = .ok p' :=
        (parse_toValue hops.2.1).2 ⟨htoken, rfl, rfl, hvalues⟩
      refine ⟨p' :: ps', ?_, .cons ⟨rfl, rfl⟩ hsame⟩
      simp only [readParamItems, hparse']
      rw [hps']
      rfl
  | case3 found value rest hfound => cases h
  | case4 ops hnone hfew =>
    cases h
    refine ⟨[], ?_, .nil⟩
    unfold readParamItems
    split
    · exact absurd rfl (hnone _ _ _)
    · exact absurd rfl (hfew _ _ _)
    · rfl

theorem readParams_retyped {ps : ParamList} (h : readParams declared ops = .ok ps)
    (hops : ∀ op ∈ ops, op ≠ .broken) (declared' : Text → Text) :
    ∃ ps', readParams declared' ops = .ok ps' ∧
      List.Forall₂ Param.SameButType ps.items ps'.items := by
  obtain ⟨heven, hitems⟩ := readParams_eq_ok.1 h
  obtain ⟨items', hitems', hsame⟩ := readParamItems_retyped hitems hops declared'
  -- The names are those of before, so none of them occurs twice.
  have hnames : ps.items.map Param.name = items'.map Param.name :=
    map_eq_of_forall₂ (fun _ _ hpq => hpq.name_eq) hsame
  let ps' : ParamList := ⟨items', hnames ▸ ps.distinct⟩
  exact ⟨ps', readParams_eq_ok.2 ⟨heven, hitems'⟩, hsame⟩

/-- **A call under other declarations** has parameters of other types at most. -/
theorem readCall_retyped {p : Procedure} {c : Command} (h : readCall declared p ops = .ok c)
    (hops : ∀ op ∈ ops, op.IsLexed) (declared' : Text → Text) :
    ∃ d, readCall declared' p ops = .ok d ∧ c.SameButTypes d := by
  unfold readCall at h ⊢
  obtain ⟨⟨args, rest⟩, hargs, h⟩ := bind_eq_ok.1 h
  simp only at h
  split at h
  · rename_i htakes
    obtain ⟨ps, hps, h⟩ := bind_eq_ok.1 h
    cases h
    have hrest := subset_of_readPositional hargs
    obtain ⟨ps', hps', hsame⟩ :=
      readParams_retyped hps (fun op hop => (hops op (hrest hop)).whole) declared'
    refine ⟨⟨p.name, args, some ps'⟩, bind_eq_ok.2 ⟨_, hargs, ?_⟩, rfl, rfl, hsame⟩
    simp only [htakes, if_true]
    exact bind_eq_ok.2 ⟨_, hps', rfl⟩
  · rename_i htakes
    refine ⟨c, bind_eq_ok.2 ⟨_, hargs, ?_⟩, rfl, rfl, List.forall₂_same.2 fun _ _ => ⟨rfl, rfl⟩⟩
    simp only [if_neg htakes]
    exact h

end Retype

theorem IsCall.retyped {d : Declarations} {c : Command} (h : IsCall d c) (d' : Declarations) :
    ∃ c', IsCall d' c' ∧ c.SameButTypes c' := by
  obtain ⟨p, ops, hp, hops, hread⟩ := h
  obtain ⟨c', hread', hsame⟩ := readCall_retyped hread hops d'.typeOf
  exact ⟨c', ⟨p, ops, hsame.proc ▸ hp, hops, hread'⟩, hsame⟩

/-! ### Lines that stay -/

/-- Two commands that a writer cannot tell apart: they have the same line, and are of the
same procedure, which decides about the indentation. -/
structure SameLine (c d : Command) : Prop where
  /-- The procedures agree. -/
  proc : c.proc = d.proc
  /-- The lines agree. -/
  text : commandText c = commandText d

theorem SameLine.trans {c d e : Command} (h : SameLine c d) (h' : SameLine d e) : SameLine c e :=
  ⟨h.proc.trans h'.proc, h.text.trans h'.text⟩

theorem deliver_of_sameLine {cs ds : List Command} (h : List.Forall₂ SameLine cs ds)
    (w : Writer) : deliver w cs = deliver w ds := by
  induction h generalizing w with
  | nil => rfl
  | @cons c d cs ds hcd _ ih =>
    have hwrite : Sink.accept w c = Sink.accept w d := by
      change w.write c = w.write d
      rw [Writer.write, Writer.write, hcd.proc, hcd.text]
    change deliver (Sink.accept w c).1 cs = deliver (Sink.accept w d).1 ds
    rw [hwrite, ih]

/-- A call that was read under some declarations, or a comment. -/
def Entry.IsSound : Entry → Prop
  | .request c => (∃ d, IsCall d c) ∧ c.proc ≠ "ArchiveRecord" ∧ c.carriesInfinity = false
  | .comment l r => l.IsLexed ∧ recordOf? l = some r

theorem Entry.IsSound.finite {e : Entry} (h : e.IsSound) : e.command.carriesInfinity = false := by
  rcases e with c | ⟨l, r⟩
  · exact h.2.2
  · rfl

/-- What is read back of an entry is written on the same line. -/
theorem Entry.IsSound.sameLine_reread {e : Entry} (h : e.IsSound) :
    SameLine e.command.frozen e.rereadCommand.frozen := by
  rcases e with c | ⟨l, r⟩
  · obtain ⟨⟨d, hc⟩, hrecord, hfinite⟩ := h
    exact ⟨rfl, (commandText_reread hrecord (hc.reread hfinite).1).symm⟩
  · exact ⟨rfl, rfl⟩

/-- **Calls and comments make a script** in any order: each call is read as one that has the
same line, also when it is read back. -/
theorem exists_script_sameLine {es : List Entry} (h : ∀ e ∈ es, e.IsSound) (d : Declarations) :
    ∃ evs es', Script d evs es' ∧ (∀ e ∈ es', e.IsSound) ∧
      List.Forall₂ (fun e e' => SameLine e.command.frozen e'.command.frozen ∧
        SameLine e.command.frozen e'.rereadCommand.frozen) es es' := by
  induction es generalizing d with
  | nil => exact ⟨[], [], .nil d, nofun, .nil⟩
  | cons e es ih =>
    rw [List.forall_mem_cons] at h
    rcases e with c | ⟨l, r⟩
    · obtain ⟨⟨δ, hc⟩, hrecord, hfinite⟩ := h.1
      obtain ⟨c', hc', hsame⟩ := hc.retyped d
      obtain ⟨evs, es', hscript, hsound, hlines⟩ := ih h.2 (d.after c')
      have hline : SameLine c.frozen c'.frozen :=
        ⟨hsame.proc, commandText_of_sameButTypes hsame⟩
      have hsound' : (Entry.request c').IsSound :=
        ⟨⟨d, hc'⟩, hsame.proc ▸ hrecord, carriesInfinity_of_sameButTypes hsame ▸ hfinite⟩
      exact ⟨_, _, .request hc' hsound'.2.1 hscript, List.forall_mem_cons.2 ⟨hsound', hsound⟩,
        .cons ⟨hline, hline.trans hsound'.sameLine_reread⟩ hlines⟩
    · obtain ⟨evs, es', hscript, hsound, hlines⟩ := ih h.2 d
      exact ⟨_, _, .comment h.1.1 h.1.2 hscript, List.forall_mem_cons.2 ⟨h.1, hsound⟩,
        .cons ⟨⟨rfl, rfl⟩, rfl, rfl⟩ hlines⟩

/-- The commands of entries, as a writer receives them. -/
def writtenCommands (es : List Entry) : List Command := es.map fun e => e.command.frozen

/-- **Lines that are read back are written as before.** Let calls and comments be written, in
any order. What is read back of the file are the events of entries that are well-formed, one
for each line, and have this line themselves. -/
theorem events_of_lines {es : List Entry} (h : ∀ e ∈ es, e.IsSound) (d : Declarations) :
    ∃ es' : List Entry,
      events d (deliver (Writer.empty Writer.defaultIndent) (writtenCommands es)).text
          = es'.flatMap Entry.rereadEvents ∧
        List.Forall₂ SameLine (writtenCommands es) (es'.map fun e => e.rereadCommand.frozen) ∧
        ∀ e ∈ es', e.rereadCommand.IsWellFormed ∧
          ∃ t, commandText e.rereadCommand.frozen = .ok t := by
  obtain ⟨evs, es', hscript, hsound, hlines⟩ := exists_script_sameLine h d
  have hfinite : ∀ e ∈ es', e.command.carriesInfinity = false := fun e he => (hsound e he).finite
  refine ⟨es', ?_, ?_, fun e he => ⟨(hscript.isWellFormed e he).2, ?_⟩⟩
  · have hsame : List.Forall₂ SameLine (writtenCommands es) (writtenCommands es') := by
      rw [writtenCommands, writtenCommands, List.forall₂_map_left_iff, List.forall₂_map_right_iff]
      exact hlines.imp fun _ _ h => h.1
    obtain ⟨lines, hdelivered, hreads⟩ :=
      lines_deliver (Writer.empty Writer.defaultIndent) rfl (hscript.readsAs hfinite)
    have hlines : (deliver (Writer.empty Writer.defaultIndent) (writtenCommands es')).lines.toList
        = lines := hdelivered
    rw [deliver_of_sameLine hsame, Writer.text, hlines, events_of_lex (lex_document hreads 1)]
    exact (events_document hscript hfinite 1).2
  · rw [writtenCommands, List.forall₂_map_left_iff, List.forall₂_map_right_iff]
    exact hlines.imp fun _ _ h => h.2
  · obtain ⟨t, ht, -⟩ := hscript.readsAs hfinite e he
    exact ⟨t, (hsound e he).sameLine_reread.text ▸ ht⟩

end Rib

end SceneReplay

import SceneReplay.Proofs.Rib.Retype

/-!
# What a text calls for

A text calls for calls that were read from its operands, and for the records of its comments
(`SceneReplay.Rib.isCalled_of_events`). Nearly all of this is written on a line that can be
written down anywhere else: the line of a call or of a comment
(`SceneReplay.Rib.IsCalled.exists_entry`). The exceptions are records that a request makes. If
they are neither comments nor hints, they are written as they are; and if there is a line end
in them, their comments go over more than one line. An infinite double is the other exception:
it is written as a word.

Where a call begins with the name of a definition, the name is a text, even if it is spelt as a
number (`SceneReplay.Rib.IsCalled.isNamedByText`).
-/

namespace SceneReplay

namespace Rib

/-! ### What a text calls for -/

/-- A command that a text can lead to: a call, or the record of a comment. -/
def IsCalled (c : Command) : Prop :=
  (∃ d, IsCall d c) ∨ ∃ l r, l.IsLexed ∧ recordOf? l = some r ∧ c = r.command

/-- **Where a command of a text comes from**, given the tokens of the text: from one of their
requests, which is read as a call, or from a comment. -/
inductive Origin (ts : List Token) (c : Command) : Prop
  | request {d : Declarations} {r : Request} {p : Procedure} (hr : r ∈ (split ts).2)
      (hp : Procedure.find? r.name = some p) (hwhole : firstBroken? (operands r.body) = none)
      (hread : readCall d.typeOf p ((operands r.body).map Prod.fst) = .ok c)
  | comment {u : Token} {r : Record} (hu : u ∈ ts) (hr : recordOf? u.lexeme = some r)
      (hc : c = r.command)

section Origin

variable {ts : List Token}

theorem origin_of_requestEvents {d : Declarations} {r : Request} (hr : r ∈ (split ts).2) :
    ∀ e ∈ requestEvents d r, ∀ c ∈ e.command?, Origin ts c := by
  intro e he c hc
  have hmem : c ∈ (requestEvents d r).filterMap Event.command? := List.mem_filterMap.2 ⟨e, he, hc⟩
  rcases requestEvents_cases d r with hevents | ⟨report, hevents⟩ | ⟨-, -, -, hevents⟩ |
    ⟨p, c', hp, hwhole, hread, hevents⟩
  · rw [hevents] at hmem
    cases hmem
  · rw [hevents] at hmem
    cases hmem
  · rw [hevents] at hmem
    cases hmem
  · rw [hevents, (command_callEvents c').1, List.mem_singleton] at hmem
    subst hmem
    exact .request hr hp hwhole hread

theorem origin_of_commentEvents {us : List Token} (hus : us ⊆ ts) :
    ∀ e ∈ commentEvents us, ∀ c ∈ e.command?, Origin ts c := by
  intro e he c hc
  obtain ⟨r, hr, rfl⟩ := List.mem_map.1 he
  obtain ⟨u, hu, hrecord⟩ := List.mem_filterMap.1 hr
  exact .comment (hus hu) hrecord (Option.some.inj hc).symm

theorem origin_of_requestsEvents {d : Declarations} {requests : List Request}
    (h : ∀ r ∈ requests, r ∈ (split ts).2) :
    ∀ e ∈ requestsEvents d requests, ∀ c ∈ e.command?, Origin ts c := by
  induction requests generalizing d with
  | nil => nofun
  | cons r requests ih =>
    rw [List.forall_mem_cons] at h
    rw [requestsEvents, List.forall_mem_append, List.forall_mem_append]
    exact ⟨origin_of_requestEvents h.1, origin_of_commentEvents ((split_subset ts).2 r h.1),
      ih h.2⟩

theorem origin_of_tokenEvents {d : Declarations} :
    ∀ e ∈ tokenEvents d ts, ∀ c ∈ e.command?, Origin ts c := by
  rw [tokenEvents, List.forall_mem_append]
  constructor
  · intro e he c hc
    obtain ⟨u, hu, rfl⟩ := List.mem_map.1 he
    unfold leadEvent at hc
    split at hc
    · rename_i r hr
      exact .comment ((split_subset ts).1 hu) hr (Option.some.inj hc).symm
    · cases hc
  · exact origin_of_requestsEvents fun _ hr => hr

/-- What comes from tokens of a text is a call, or the record of a comment. -/
theorem Origin.isCalled {c : Command} (h : Origin ts c) (hts : ∀ t ∈ ts, t.lexeme.IsLexed) :
    IsCalled c := by
  rcases h with @⟨d, r, p, hr, hp, hwhole, hread⟩ | @⟨u, r, hu, hr, rfl⟩
  · have hbody := (split_subset ts).2 r hr
    have hproc : c.proc = r.name :=
      (parts_of_readCall hread).1.trans (Procedure.name_of_find? hp)
    have hoperands := isLexed_of_firstBroken? (fun t ht => hts t (hbody ht)) hwhole
    exact Or.inl ⟨d, p, _, hproc ▸ hp, hoperands, hread⟩
  · exact Or.inr ⟨u.lexeme, r, hts u hu, hr, rfl⟩

end Origin

/-- A trouble is reported or stops the reading, but calls for nothing. -/
theorem command_troubleEvents (steps : List Lexed) :
    (troubleEvents steps).filterMap Event.command? = [] := by
  rw [List.filterMap_eq_nil_iff]
  intro e he
  obtain ⟨step, -, hstep⟩ := List.mem_filterMap.1 he
  rcases step with token | ⟨_ | _ | _, line, remaining⟩ <;> cases hstep <;> rfl

/-- The commands of a text are those of its tokens. -/
theorem command_events (d : Declarations) (t : Text) :
    (events d t).filterMap Event.command?
      = (tokenEvents d (tokensOf (lex 1 t))).filterMap Event.command? := by
  rw [events, List.filterMap_append, command_troubleEvents, List.nil_append]

/-- **Whatever a text calls for**, while any declarations hold, comes from its tokens. -/
theorem origin_of_events {d : Declarations} {t : Text} :
    ∀ c ∈ (events d t).filterMap Event.command?, Origin (tokensOf (lex 1 t)) c := by
  intro c hc
  rw [command_events] at hc
  obtain ⟨e, he, hce⟩ := List.mem_filterMap.1 hc
  exact origin_of_tokenEvents e he c hce

/-- **Whatever a text calls for** is a call, or the record of a comment. -/
theorem isCalled_of_events {d : Declarations} {t : Text} :
    ∀ c ∈ (events d t).filterMap Event.command?, IsCalled c :=
  fun c hc => (origin_of_events c hc).isCalled isLexed_of_mem_tokensOf

/-- The commands that a text calls for, comments included. -/
def calls (t : Text) : List Command :=
  (events Declarations.standard t).filterMap Event.command?

theorem IsCalled.isWellFormed {c : Command} (h : IsCalled c) : c.IsWellFormed := by
  rcases h with ⟨d, hc⟩ | ⟨l, r, -, -, rfl⟩
  · exact hc.isWellFormed
  · exact isWellFormed_record r

/-! ### The names in what is called -/

end Rib

/-- Whether the commands of a role begin with the name of a definition. -/
def Role.hasName : Role → Bool
  | .archiveBegin | .archiveReference | .objectBegin | .objectReference => true
  | _ => false

/-- If a command begins with the name of a definition, then this is a text. -/
def Command.IsNamedByText (c : Command) : Prop :=
  c.role.hasName = true → ∃ name, c.subject = .text name

/-- What is recorded of a command has its name. -/
theorem Command.IsNamedByText.frozen {c : Command} (h : c.IsNamedByText) :
    c.frozen.IsNamedByText := by
  intro hrole
  obtain ⟨name, hname⟩ := h hrole
  refine ⟨name, ?_⟩
  rcases hargs : c.args with _ | ⟨v, vs⟩
  · rw [subject, hargs] at hname
    cases hname
  · rw [subject, hargs] at hname
    obtain rfl : v = .text name := hname
    rw [subject, Command.frozen, hargs]
    rfl

/-- A procedure whose commands begin with a name takes it as its first argument. -/
theorem Procedure.name_of_hasName {p : Procedure} (hp : find? p.name = some p)
    (hrole : (Role.ofName p.name).hasName = true) :
    ∃ kind args, p.args = ("name", .one kind) :: args ∧ (kind = .token ∨ kind = .string) ∧
      p.name ≠ "Procedural" := by
  have hname : p.name = "ArchiveBegin" ∨ p.name = "ReadArchive" ∨ p.name = "ObjectBegin" ∨
      p.name = "ObjectInstance" := by
    unfold Role.ofName at hrole
    grind [Role.hasName]
  rcases hname with h | h | h | h <;> rw [h] at hp ⊢ <;> cases hp
  · exact ⟨_, _, rfl, .inl rfl, by decide⟩
  · exact ⟨_, _, rfl, .inl rfl, by decide⟩
  · exact ⟨_, _, rfl, .inl rfl, by decide⟩
  · exact ⟨_, _, rfl, .inr rfl, by decide⟩

namespace Rib

/-- What is read in the place of a name is a text, even if it is spelt as a number. -/
theorem exists_text_of_readOne {proc arg : String} {kind : ScalarKind} {s : Scalar} {v : Value}
    (hkind : kind = .token ∨ kind = .string) (h : readOne proc arg kind s = .ok v) :
    ∃ t, v = .text t := by
  rcases s with n | t
  · unfold readOne at h
    split at h
    · split at h <;> cases h
      exact ⟨_, rfl⟩
    · split at h <;> cases h
      exact ⟨_, rfl⟩
    · rcases hkind with rfl | rfl <;> cases h
  · rcases hkind with rfl | rfl <;> cases h <;> exact ⟨t, rfl⟩

/-- The first of the arguments that are read, if it is a name or another text. -/
theorem exists_text_of_readArguments {proc : String} {kind : ScalarKind}
    {args : List (String × ArgKind)} {ops rest : List Operand} {vs : List Value}
    (hkind : kind = .token ∨ kind = .string)
    (h : readArguments proc (("name", .one kind) :: args) ops = .ok (vs, rest)) :
    ∃ name, vs.headD .null = .text name := by
  have hwritten : isUnwritten proc "name" = false := by
    rw [isUnwritten, Bool.and_eq_false_iff]
    exact .inr (by decide)
  rw [readArguments_cons, bind_eq_ok] at h
  obtain ⟨⟨v, ops'⟩, hv, h⟩ := h
  obtain ⟨⟨vs', rest'⟩, -, h⟩ := bind_eq_ok.1 h
  cases h
  rw [hwritten, if_neg Bool.false_ne_true] at hv
  rcases ops with _ | ⟨op, ops⟩
  · cases hv
  · obtain ⟨s, -, hv⟩ := bind_eq_ok.1 hv
    obtain ⟨w, hw, hv⟩ := bind_eq_ok.1 hv
    cases hv
    exact exists_text_of_readOne hkind hw

/-- **The names of definitions are texts** in all that a text calls for. -/
theorem IsCalled.isNamedByText {c : Command} (h : IsCalled c) : c.IsNamedByText := by
  intro hrole
  rcases h with ⟨d, p, ops, hp, -, hread⟩ | ⟨l, r, -, -, rfl⟩
  · have hname := Procedure.name_of_find? hp
    rw [Command.role, ← hname] at hrole
    obtain ⟨kind, args, hargs, hkind, hproc⟩ := Procedure.name_of_hasName (hname.symm ▸ hp) hrole
    obtain ⟨-, -, rest, hread⟩ := parts_of_readCall hread
    rw [readPositional, if_neg hproc, hargs] at hread
    exact exists_text_of_readArguments hkind hread
  · cases hrole

/-! ### The lines of what is called -/

/-- The type and the text of a recorded comment. -/
def recorded? (c : Command) : Option (Text × Text) :=
  match c.args with
  | [.text type, .text text] => if c.proc = "ArchiveRecord" then some (type, text) else none
  | _ => none

theorem recorded?_of_args {c : Command} {type text : Text} (hproc : c.proc = "ArchiveRecord")
    (hargs : c.args = [.text type, .text text]) : recorded? c = some (type, text) := by
  rw [recorded?, hargs]
  exact if_pos hproc

theorem proc_of_recorded? {c : Command} {r : Text × Text} (h : recorded? c = some r) :
    c.proc = "ArchiveRecord" := by
  unfold recorded? at h
  split at h
  · split at h
    · assumption
    · cases h
  · cases h

/-- **Where no request is one for a record**, only comments and hints are recorded, each of
them from its line. -/
theorem Origin.of_recorded {ts : List Token} {c : Command} (h : Origin ts c)
    (hts : ∀ t ∈ ts, t.lexeme.IsLexed) (hrecord : ∀ r ∈ (split ts).2, r.name ≠ "ArchiveRecord")
    {r : Text × Text} (hr : recorded? c = some r ∨ recorded? c.frozen = some r) :
    (r.1 = "comment" ∨ r.1 = "structure") ∧ .char '\n' ∉ r.2 := by
  have hproc : c.proc = "ArchiveRecord" := hr.elim proc_of_recorded? proc_of_recorded?
  rcases h with @⟨d, q, p, hq, hp, -, hread⟩ | @⟨u, s, hu, hs, rfl⟩
  · have hname : c.proc = q.name :=
      (parts_of_readCall hread).1.trans (Procedure.name_of_find? hp)
    exact absurd (hname.symm.trans hproc) (hrecord q hq)
  · obtain rfl : ((s.type : Text), s.text) = r := hr.elim Option.some.inj Option.some.inj
    have hinLine : ∀ t : Text, (∀ c ∈ t, inLine c = true) → .char '\n' ∉ t :=
      fun t ht hmem => absurd (ht _ hmem) (by decide)
    have hlexed := hts u hu
    cases hl : u.lexeme with
    | comment t =>
      rw [hl] at hs hlexed
      cases hs
      exact ⟨Or.inl (by dsimp only), hinLine t hlexed.1⟩
    | hint t =>
      rw [hl] at hs hlexed
      cases hs
      exact ⟨Or.inr (by dsimp only), hinLine t hlexed⟩
    | _ =>
      rw [hl] at hs
      cases hs

/-- A name or text that was read is a text. -/
theorem exists_text_of_fits {kind : ArgKind} {v : Value} (h : kind.Fits v)
    (hkind : kind = .token ∨ kind = .string) : ∃ t, v = .text t := by
  rcases h with h | _ | ⟨hsize, -⟩ | t | t | t
  · rcases h with h | _ | b | t | t
    · simp at hkind
    · simp at hkind
    · simp at hkind
    · exact ⟨t, rfl⟩
    · exact ⟨t, rfl⟩
  · simp at hkind
  · rcases hkind with rfl | rfl <;> cases hsize
  · exact ⟨t, rfl⟩
  · exact ⟨t, rfl⟩
  · exact ⟨t, rfl⟩

/-- A request for a comment has two texts as its arguments. -/
theorem IsCall.texts_of_record {d : Declarations} {c : Command} (h : IsCall d c)
    (hproc : c.proc = "ArchiveRecord") (hfinite : c.carriesInfinity = false) :
    ∃ type text, c.args = [.text type, .text text] := by
  obtain ⟨p, ops, hp, hops, hread⟩ := h
  obtain ⟨hargs, -⟩ := readCall_operands hread hops hfinite
  rw [hproc, find?_record] at hp
  cases hp
  rw [AreArguments, if_neg (by decide), List.forall₂_cons_left_iff] at hargs
  obtain ⟨v, vs, hv, hvs, hc⟩ := hargs
  obtain ⟨w, ws, hw, hws, rfl⟩ := List.forall₂_cons_left_iff.1 hvs
  cases hws
  obtain ⟨type, rfl⟩ := exists_text_of_fits hv (.inl rfl)
  obtain ⟨text, rfl⟩ := exists_text_of_fits hw (.inr rfl)
  exact ⟨type, text, hc⟩

/-- The comment that a record is written as: a text that begins with the mark of a comment
makes a hint. -/
theorem exists_comment {type text : Text} (htype : type = "comment" ∨ type = "structure")
    (hline : .char '\n' ∉ text) :
    ∃ l r, l.IsLexed ∧ recordOf? l = some r ∧
      recordMark (.text r.type) ++ r.text = recordMark (.text type) ++ text := by
  have hcomment : recordMark (.text "comment") = [.char '#'] := by decide
  have hhint : recordMark (.text "structure") = [.char '#', .char '#'] := by decide
  have htext : ∀ c ∈ text, inLine c = true := by
    intro c hc
    rw [inLine, bne_iff_ne]
    rintro rfl
    exact hline hc
  rcases htype with rfl | rfl
  · by_cases hhead : text.head? = some (.char '#')
    · rcases text with _ | ⟨c, text⟩
      · cases hhead
      · obtain rfl : c = .char '#' := Option.some.inj hhead
        refine ⟨.hint text, ⟨"structure", text⟩, fun c hc => htext c (List.mem_cons_of_mem _ hc),
          rfl, ?_⟩
        rw [hcomment, hhint]
        rfl
    · exact ⟨.comment text, ⟨"comment", text⟩, ⟨htext, hhead⟩, rfl, rfl⟩
  · exact ⟨.hint text, ⟨"structure", text⟩, htext, rfl, rfl⟩

/-- **What is called has the line of an entry**, unless it records something else than a
comment or a hint, or a line end, or carries an infinite double. -/
theorem IsCalled.exists_entry {c : Command} (h : IsCalled c)
    (hkind : ∀ r ∈ recorded? c, r.1 = "comment" ∨ r.1 = "structure")
    (hline : ∀ r ∈ recorded? c.frozen, .char '\n' ∉ r.2)
    (hfinite : c.frozen.carriesInfinity = false) :
    ∃ e : Entry, e.IsSound ∧ SameLine e.command.frozen c.frozen := by
  rw [Command.carriesInfinity_frozen] at hfinite
  rcases h with ⟨d, hc⟩ | ⟨l, r, hl, hr, rfl⟩
  · by_cases hproc : c.proc = "ArchiveRecord"
    · obtain ⟨type, text, hargs⟩ := hc.texts_of_record hproc hfinite
      have hfrozen : c.frozen.args = [.text type, .text text] := by
        rw [Command.frozen, hargs]
        rfl
      obtain ⟨l, r, hl, hr, htext⟩ :=
        exists_comment (hkind _ (recorded?_of_args hproc hargs))
          (hline _ (recorded?_of_args hproc hfrozen))
      refine ⟨.comment l r, ⟨hl, hr⟩, hproc.symm, ?_⟩
      have hproc' : c.frozen.proc = "ArchiveRecord" := hproc
      change commandText r.command.frozen = commandText c.frozen
      rw [commandText_record, htext, commandText, if_pos hproc', hfrozen]
      rfl
    · exact ⟨.request c, ⟨⟨d, hc⟩, hproc, hfinite⟩, rfl, rfl⟩
  · exact ⟨.comment l r, ⟨hl, hr⟩, rfl, rfl⟩

/-- **Commands with the lines of entries** are written as these entries are. -/
theorem exists_entries {cs : List Command}
    (h : ∀ c ∈ cs, ∃ e : Entry, e.IsSound ∧ SameLine e.command.frozen c) :
    ∃ es : List Entry, (∀ e ∈ es, e.IsSound) ∧ List.Forall₂ SameLine (writtenCommands es) cs := by
  induction cs with
  | nil => exact ⟨[], nofun, .nil⟩
  | cons c cs ih =>
    rw [List.forall_mem_cons] at h
    obtain ⟨⟨e, he, hline⟩, hcs⟩ := h
    obtain ⟨es, hes, hlines⟩ := ih hcs
    exact ⟨e :: es, List.forall_mem_cons.2 ⟨he, hes⟩, .cons hline hlines⟩

end Rib

end SceneReplay

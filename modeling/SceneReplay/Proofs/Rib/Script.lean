import SceneReplay.Proofs.Rib.Lines

/-!
# What a scene file says, written and read again

Of the events that a text leads to, the calls and comments matter: they reach the chain,
and a writer at its end puts each on a line. `SceneReplay.Rib.Script` singles them out: it
relates events to the entries that are in them, with every call one that was read from
operands while the declarations before it held. The reports are in no entry.

* Whatever a text without faults says has a script
  (`SceneReplay.Rib.exists_script_of_events`).
* The document of these entries, one below the other, says the same calls, each as it is
  read back, the same declarations and the same comments, and makes no report
  (`SceneReplay.Rib.events_document`).

Two things keep the order. Comments inside a request come after it when it is read, and a
document has them on the lines below it, where they are inside it again. A declaration
comes before the call that makes it and holds for the calls after it, in both readings.
-/

namespace SceneReplay.Rib

/-! ### Calls and their declarations -/

/-- The declarations after a call. -/
def Declarations.after (d : Declarations) (c : Command) : Declarations :=
  match declarationOf? c with
  | some (token, type) => d.declare token type
  | none => d

/-- The events of a call: its declaration, if it makes one, and the call. -/
def callEvents (c : Command) : List Event :=
  match declarationOf? c with
  | some (token, type) => [.declare token type, .request c]
  | none => [.request c]

theorem declaredBy_callEvents (d : Declarations) (c : Command) :
    declaredBy d (callEvents c) = d.after c := by
  unfold callEvents Declarations.after
  split <;> rfl

theorem declarationOf?_eq_some {c : Command} {token type : Text} :
    declarationOf? c = some (token, type) ↔
      c.proc = "Declare" ∧ c.args = [.text token, .text type] := by
  unfold declarationOf?
  split
  · rename_i hproc hargs
    simp [hproc, hargs]
  · rename_i hother
    refine ⟨nofun, ?_⟩
    rintro ⟨hproc, hargs⟩
    exact absurd hargs (hother token type hproc)

theorem reread_eq_text {v : Value} {t : Text} : v.reread = .text t ↔ v = .text t := by
  rcases v with _ | _ | ((_ | _) | _) | _ | _ | _ | _ | _ <;>
    simp [Value.reread, Value.rereadItem]

/-- What is read back of a call makes the same declaration. -/
theorem declarationOf?_reread (c : Command) : declarationOf? c.reread = declarationOf? c := by
  refine Option.ext fun ⟨token, type⟩ => ?_
  rw [declarationOf?_eq_some, declarationOf?_eq_some]
  refine and_congr_right fun _ => ?_
  rcases c with ⟨proc, _ | ⟨v, _ | ⟨w, _ | ⟨x, args⟩⟩⟩, params⟩
  · simp [Command.reread]
  · simp [Command.reread]
  · simp [Command.reread, reread_eq_text]
  · simp [Command.reread]

/-- **A call of a scene file**: read from operands that come from tokens, while the given
declarations hold. -/
def IsCall (d : Declarations) (c : Command) : Prop :=
  ∃ p ops, Procedure.find? c.proc = some p ∧ (∀ op ∈ ops, op.IsLexed) ∧
    readCall d.typeOf p ops = .ok c

/-! ### Requests one after the other -/

theorem declaredBy_append (d : Declarations) (es es' : List Event) :
    declaredBy d (es ++ es') = declaredBy (declaredBy d es) es' :=
  List.foldl_append

theorem declaredBy_commentEvents (d : Declarations) (ts : List Token) :
    declaredBy d (commentEvents ts) = d := by
  unfold commentEvents
  induction recordsOf ts with
  | nil => rfl
  | cons r rs ih => exact ih

theorem declaredBy_lead (d : Declarations) (ts : List Token) :
    declaredBy d (ts.map leadEvent) = d := by
  induction ts with
  | nil => rfl
  | cons t ts ih =>
    rw [List.map_cons, leadEvent]
    split <;> exact ih

/-- Requests one after the other. -/
theorem requestsEvents_append (d : Declarations) (rs rs' : List Request) :
    requestsEvents d (rs ++ rs')
      = requestsEvents d rs ++ requestsEvents (declaredBy d (requestsEvents d rs)) rs' := by
  induction rs generalizing d with
  | nil => rfl
  | cons r rs ih =>
    simp only [List.cons_append, requestsEvents, ih, declaredBy_append, declaredBy_commentEvents,
      List.append_assoc]

/-! ### Scripts -/

/-- **The entries in some events**, which begin while the given declarations hold. -/
inductive Script : Declarations → List Event → List Entry → Prop
  | nil (d : Declarations) : Script d [] []
  | report {d : Declarations} {evs : List Event} {es : List Entry} (r : Report)
      (h : Script d evs es) : Script d (.report r :: evs) es
  | comment {d : Declarations} {evs : List Event} {es : List Entry} {l : Lexeme} {r : Record}
      (hl : l.IsLexed) (hr : recordOf? l = some r) (h : Script d evs es) :
      Script d (.comment r.command :: evs) (.comment l r :: es)
  | request {d : Declarations} {evs : List Event} {es : List Entry} {c : Command}
      (hc : IsCall d c) (hrecord : c.proc ≠ "ArchiveRecord") (h : Script (d.after c) evs es) :
      Script d (callEvents c ++ evs) (.request c :: es)

variable {d : Declarations} {evs : List Event} {ts : List Token}

theorem exists_script_lead (hts : ∀ t ∈ ts, t.lexeme.IsLexed) (h : ∃ es, Script d evs es) :
    ∃ es, Script d (ts.map leadEvent ++ evs) es := by
  induction ts with
  | nil => exact h
  | cons t ts ih =>
    rw [List.forall_mem_cons] at hts
    obtain ⟨es, hes⟩ := ih hts.2
    rw [List.map_cons, List.cons_append, leadEvent]
    split
    · rename_i r hr
      exact ⟨_, .comment hts.1 hr hes⟩
    · exact ⟨_, .report _ hes⟩

theorem exists_script_comments (hts : ∀ t ∈ ts, t.lexeme.IsLexed)
    (h : ∃ es, Script d evs es) : ∃ es, Script d (commentEvents ts ++ evs) es := by
  induction ts with
  | nil => exact h
  | cons t ts ih =>
    rw [List.forall_mem_cons] at hts
    obtain ⟨es, hes⟩ := ih hts.2
    rw [commentEvents, recordsOf, List.filterMap_cons]
    split
    · exact ⟨es, hes⟩
    · rename_i r hr
      exact ⟨_, .comment hts.1 hr hes⟩

/-- What a request that can be read leads to. -/
theorem requestEvents_of_readCall {r : Request} {p : Procedure} {c : Command}
    (hversion : r.name ≠ "version") (hp : Procedure.find? r.name = some p)
    (hwhole : firstBroken? (operands r.body) = none)
    (hread : readCall d.typeOf p ((operands r.body).map Prod.fst) = .ok c) :
    requestEvents d r = callEvents c := by
  simp only [requestEvents, if_neg hversion, hp, hwhole, hread]
  rfl

/-- **What a request leads to**, while the given declarations hold: nothing, if it is for the
version of the file; one report; a fault; or its call. -/
inductive Request.LeadsTo (d : Declarations) (r : Request) : List Event → Prop
  | version (h : r.name = "version") : r.LeadsTo d []
  | refused {report : Report} (hversion : r.name ≠ "version")
      (hcode : report.code = if (Procedure.find? r.name).isSome then .malformed else .badToken) :
      r.LeadsTo d [.report report]
  | stopped {p : Procedure} (hp : Procedure.find? r.name = some p)
      (hread : readCall d.typeOf p ((operands r.body).map Prod.fst) = .error .tooLarge) :
      r.LeadsTo d [.fault .integerTooLarge]
  | called {p : Procedure} {c : Command} (hversion : r.name ≠ "version")
      (hp : Procedure.find? r.name = some p) (hwhole : firstBroken? (operands r.body) = none)
      (hread : readCall d.typeOf p ((operands r.body).map Prod.fst) = .ok c) :
      r.LeadsTo d (callEvents c)

theorem leadsTo_requestEvents (d : Declarations) (r : Request) :
    r.LeadsTo d (requestEvents d r) := by
  by_cases hversion : r.name = "version"
  · rw [requestEvents, if_pos hversion]
    exact .version hversion
  · rcases hp : Procedure.find? r.name with _ | p
    · simp only [requestEvents, if_neg hversion, hp]
      exact .refused hversion (by rw [hp]; rfl)
    · rcases hwhole : firstBroken? (operands r.body) with _ | line
      · rcases hread : readCall d.typeOf p ((operands r.body).map Prod.fst) with (m | _) | c
        · simp only [requestEvents, if_neg hversion, hp, hwhole, hread]
          exact .refused hversion (by rw [hp]; rfl)
        · simp only [requestEvents, if_neg hversion, hp, hwhole, hread]
          exact .stopped hp hread
        · rw [requestEvents_of_readCall hversion hp hwhole hread]
          exact .called hversion hp hwhole hread
      · simp only [requestEvents, if_neg hversion, hp, hwhole]
        exact .refused hversion (by rw [hp]; rfl)

/-- **What a request leads to**: nothing, a report, a fault, or a call. -/
theorem requestEvents_cases (d : Declarations) (r : Request) :
    requestEvents d r = [] ∨ (∃ report, requestEvents d r = [.report report]) ∨
      (∃ p, Procedure.find? r.name = some p ∧
        readCall d.typeOf p ((operands r.body).map Prod.fst) = .error .tooLarge ∧
        requestEvents d r = [.fault .integerTooLarge]) ∨
        ∃ p c, Procedure.find? r.name = some p ∧ firstBroken? (operands r.body) = none ∧
          readCall d.typeOf p ((operands r.body).map Prod.fst) = .ok c ∧
          requestEvents d r = callEvents c := by
  have h := leadsTo_requestEvents d r
  generalize requestEvents d r = evs at h ⊢
  cases h with
  | version => exact Or.inl rfl
  | refused => exact Or.inr (Or.inl ⟨_, rfl⟩)
  | stopped hp hread => exact Or.inr (Or.inr (Or.inl ⟨_, hp, hread, rfl⟩))
  | called _ hp hwhole hread => exact Or.inr (Or.inr (Or.inr ⟨_, _, hp, hwhole, hread, rfl⟩))

theorem exists_script_request {r : Request} (hbody : ∀ t ∈ r.body, t.lexeme.IsLexed)
    (hrecord : r.name ≠ "ArchiveRecord") (hfault : ∀ f, .fault f ∉ requestEvents d r)
    (h : ∃ es, Script (declaredBy d (requestEvents d r)) evs es) :
    ∃ es, Script d (requestEvents d r ++ evs) es := by
  obtain ⟨es, hes⟩ := h
  rcases requestEvents_cases d r with hevents | ⟨report, hevents⟩ | ⟨-, -, -, hevents⟩ |
    ⟨p, c, hp, hwhole, hread, hevents⟩
  · rw [hevents] at hes ⊢
    exact ⟨es, hes⟩
  · rw [hevents] at hes ⊢
    exact ⟨es, .report report hes⟩
  · rw [hevents] at hfault
    exact absurd List.mem_cons_self (hfault .integerTooLarge)
  · rw [hevents, declaredBy_callEvents] at hes
    rw [hevents]
    -- The call has the name that the request has in the file.
    have hproc : c.proc = r.name :=
      (parts_of_readCall hread).1.trans (Procedure.name_of_find? hp)
    refine ⟨_, .request ⟨p, _, ?_, isLexed_of_firstBroken? hbody hwhole, hread⟩ ?_ hes⟩
    · rw [hproc]
      exact hp
    · rw [hproc]
      exact hrecord

theorem exists_script_requests {requests : List Request}
    (hbody : ∀ r ∈ requests, ∀ t ∈ r.body, t.lexeme.IsLexed)
    (hrecord : ∀ r ∈ requests, r.name ≠ "ArchiveRecord")
    (hfault : ∀ f, .fault f ∉ requestsEvents d requests) :
    ∃ es, Script d (requestsEvents d requests) es := by
  induction requests generalizing d with
  | nil => exact ⟨[], .nil d⟩
  | cons r requests ih =>
    rw [List.forall_mem_cons] at hbody hrecord
    simp only [requestsEvents, List.mem_append, not_or] at hfault ⊢
    have hrest := ih hbody.2 hrecord.2 fun f => (hfault f).2.2
    exact exists_script_request hbody.1 hrecord.1 (fun f => (hfault f).1)
      (exists_script_comments hbody.1 hrest)

/-- The tokens of a split are tokens of what was split. -/
theorem split_subset (ts : List Token) :
    (split ts).1 ⊆ ts ∧ ∀ r ∈ (split ts).2, r.body ⊆ ts := by
  induction ts with
  | nil => exact ⟨List.Subset.refl _, nofun⟩
  | cons t ts ih =>
    have hlater : ∀ r ∈ (split ts).2, r.body ⊆ t :: ts :=
      fun r hr => List.subset_cons_of_subset t (ih.2 r hr)
    obtain ⟨l, line⟩ := t
    cases l with
    | name s =>
      refine ⟨List.nil_subset _, ?_⟩
      rintro r (_ | ⟨_, hr⟩)
      · exact List.subset_cons_of_subset _ ih.1
      · exact hlater r hr
    | _ => exact ⟨List.cons_subset_cons _ ih.1, hlater⟩

/-- **A text without faults has a script**, unless it calls for comments by a request. -/
theorem exists_script_of_events {t : Text}
    (hrecord : ∀ r ∈ (split (tokensOf (lex 1 t))).2, r.name ≠ "ArchiveRecord")
    (hfault : ∀ f, .fault f ∉ events d t) : ∃ es, Script d (events d t) es := by
  have hlexed : ∀ u ∈ tokensOf (lex 1 t), u.lexeme.IsLexed := isLexed_of_mem_tokensOf
  obtain ⟨hlead, hbody⟩ := split_subset (tokensOf (lex 1 t))
  simp only [events, tokenEvents, List.mem_append, not_or] at hfault ⊢
  have hrequests := exists_script_requests (fun r hr u hu => hlexed u (hbody r hr hu)) hrecord
    fun f => (hfault f).2.2
  have htokens := exists_script_lead (fun u hu => hlexed u (hlead hu)) hrequests
  -- Troubles are reported, but for the one that is a fault.
  have htroubles : ∀ steps : List Lexed, (∀ f, .fault f ∉ troubleEvents steps) →
      ∀ {evs : List Event}, (∃ es, Script d evs es) →
        ∃ es, Script d (troubleEvents steps ++ evs) es := by
    intro steps hsteps evs h
    induction steps with
    | nil => exact h
    | cons step steps ih =>
      rcases step with token | ⟨_ | c | digits, line, remaining⟩
      · exact ih hsteps
      · obtain ⟨es, hes⟩ := ih fun f hf => hsteps f (List.mem_cons_of_mem _ hf)
        exact ⟨es, .report _ hes⟩
      · obtain ⟨es, hes⟩ := ih fun f hf => hsteps f (List.mem_cons_of_mem _ hf)
        exact ⟨es, .report _ hes⟩
      · exact absurd List.mem_cons_self (hsteps (.tooManyDigits digits))
  exact htroubles _ (fun f => (hfault f).1) htokens

/-! ### The document of the entries -/

/-- The events of an entry when it is read back. -/
def Entry.rereadEvents : Entry → List Event
  | .request c => callEvents c.reread
  | .comment _ r => [.comment r.command]

theorem ne_broken_of_operand? {v : Value} {op : Operand} (h : v.operand? = some op) :
    op ≠ .broken := by
  rintro rfl
  unfold Value.operand? at h
  split at h
  · cases h
  · obtain ⟨s, -, ⟨⟩⟩ := Option.map_eq_some_iff.1 h

theorem ne_broken_of_mem_operands {c : Command} : ∀ op ∈ c.operands, op ≠ .broken := by
  intro op hop
  rcases List.mem_append.1 hop with hop | hop
  · obtain ⟨v, -, hv⟩ := List.mem_filterMap.1 hop
    exact ne_broken_of_operand? hv
  · unfold Command.paramOperands at hop
    rcases c with ⟨proc, args, _ | ps⟩
    · cases hop
    · obtain ⟨p, -, hp⟩ := List.mem_flatMap.1 hop
      rcases hp with _ | ⟨_, _ | ⟨_, ⟨⟩⟩⟩ <;> exact Operand.noConfusion

/-- The requests of scene files are spelt like names, and none of them is `version`. -/
theorem isRequestName_of_find? {name : String} {p : Procedure}
    (h : Procedure.find? name = some p) :
    IsRequestName name = true ∧ name ≠ "version" ∧ (name = "Procedural" → p.arity = 4) := by
  have hall : ∀ p ∈ Procedure.all, IsRequestName p.name = true ∧ p.name ≠ "version" ∧
      (p.name = "Procedural" → p.arity = 4) := by decide +kernel
  rw [← Procedure.name_of_find? h]
  exact hall p (List.mem_of_find?_eq_some h)

/-- Comments are no operands. -/
theorem operands_of_records {ts : List Token} (h : ∀ t ∈ ts, ∃ r, recordOf? t.lexeme = some r) :
    operands ts = [] := by
  induction ts with
  | nil => rfl
  | cons t ts ih =>
    rw [List.forall_mem_cons] at h
    obtain ⟨⟨r, hr⟩, hts⟩ := h
    obtain ⟨l, line⟩ := t
    cases l with
    | comment s => exact ih hts
    | hint s => exact ih hts
    | _ => cases hr

/-- Before the first request comments are recorded in the same way as inside one. -/
theorem map_leadEvent {ts : List Token} (h : ∀ t ∈ ts, ∃ r, recordOf? t.lexeme = some r) :
    ts.map leadEvent = commentEvents ts := by
  induction ts with
  | nil => rfl
  | cons t ts ih =>
    rw [List.forall_mem_cons] at h
    obtain ⟨⟨r, hr⟩, hts⟩ := h
    have hrecords : recordsOf (t :: ts) = r :: recordsOf ts := List.filterMap_cons_some hr
    rw [List.map_cons, ih hts, commentEvents, commentEvents, hrecords, List.map_cons, leadEvent,
      hr]

theorem IsCall.isWellFormed {c : Command} (h : IsCall d c) : c.IsWellFormed := by
  obtain ⟨p, ops, hp, -, hread⟩ := h
  obtain ⟨hproc, hparams, rest, hargs⟩ := parts_of_readCall hread
  refine ⟨p, hp, ?_, hparams⟩
  rw [length_of_readPositional hargs]
  split
  · exact ((isRequestName_of_find? hp).2.2 (hproc.trans ‹_›)).symm
  · rfl

/-- **A call of a scene file is written and read back.** -/
theorem IsCall.reread {c : Command} (h : IsCall d c) (hfinite : c.carriesInfinity = false) :
    c.IsWritable ∧ (c.proc = "Procedural" → AreProcedural c.args) ∧
      ∃ p, Procedure.find? c.proc = some p ∧ readCall d.typeOf p c.operands = .ok c.reread := by
  obtain ⟨p, ops, hp, hops, hread⟩ := h
  obtain ⟨hargs, hwritable, hagain⟩ := readCall_operands hread hops hfinite
  refine ⟨hwritable, ?_, p, hp, hagain⟩
  intro hproc
  rwa [AreArguments, if_pos ((Procedure.name_of_find? hp).trans hproc)] at hargs

theorem after_reread (d : Declarations) (c : Command) : d.after c.reread = d.after c := by
  rw [Declarations.after, declarationOf?_reread]
  rfl

/-- **The request that a call is written as is read as that call**, with comments in its
body or without. -/
theorem IsCall.requestEvents_eq {c : Command} (h : IsCall d c)
    (hfinite : c.carriesInfinity = false) (line : Int) {lead : List Token}
    (hlead : ∀ t ∈ lead, ∃ r, recordOf? t.lexeme = some r) :
    requestEvents d ⟨c.proc, line, operandTokens line c.operands ++ lead⟩
      = callEvents c.reread := by
  obtain ⟨-, -, p, hp, hread⟩ := h.reread hfinite
  obtain ⟨-, hversion, -⟩ := isRequestName_of_find? hp
  have hoperands : operands (operandTokens line c.operands ++ lead)
      = c.operands.map fun op => (op, line) := by
    rw [operands_operandTokens ne_broken_of_mem_operands, operands_of_records hlead,
      List.append_nil]
  refine requestEvents_of_readCall hversion hp ?_ ?_
  · rw [hoperands, firstBroken?, Option.map_eq_none_iff, List.find?_eq_none]
    intro op hop
    obtain ⟨op', hop', rfl⟩ := List.mem_map.1 hop
    simpa using ne_broken_of_mem_operands op' hop'
  · simp only [hoperands, List.map_map, Function.comp_def, List.map_id']
    exact hread

/-- **The document of a script says the same, read back**: its lead are the comments
before the first request, and its events are those of the entries. -/
theorem events_document {es : List Entry} (h : Script d evs es)
    (hfinite : ∀ e ∈ es, e.command.carriesInfinity = false) (line : Int) :
    (∀ t ∈ (split (documentTokens line es)).1, ∃ r, recordOf? t.lexeme = some r) ∧
      tokenEvents d (documentTokens line es) = es.flatMap Entry.rereadEvents := by
  induction h generalizing line with
  | nil d =>
    refine ⟨?_, rfl⟩
    rintro t ⟨⟩
  | report r _ ih => exact ih hfinite line
  | @comment d evs es l r _ hr _ ih =>
    rw [List.forall_mem_cons] at hfinite
    obtain ⟨hlead, hevents⟩ := ih hfinite.2 (line + 1)
    have hleadEvent : leadEvent ⟨l, line⟩ = .comment r.command := by rw [leadEvent, hr]
    simp only [tokenEvents, split_comment hr]
    refine ⟨List.forall_mem_cons.2 ⟨⟨r, hr⟩, hlead⟩, ?_⟩
    rw [List.map_cons, hleadEvent, List.flatMap_cons, ← hevents]
    rfl
  | @request d evs es c hc _ _ ih =>
    rw [List.forall_mem_cons] at hfinite
    obtain ⟨hlead, hevents⟩ := ih hfinite.2 (line + 1)
    simp only [tokenEvents, split_request]
    refine ⟨by rintro t ⟨⟩, ?_⟩
    -- The comments that led the rest of the document are now in the body of the request.
    rw [List.map_nil, List.nil_append, requestsEvents, hc.requestEvents_eq hfinite.1 line hlead,
      declaredBy_callEvents, after_reread, commentEvents_operandTokens, ← map_leadEvent hlead,
      List.flatMap_cons, ← hevents]
    rfl

end SceneReplay.Rib

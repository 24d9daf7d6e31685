import SceneReplay.Proofs.Rib.Called
import SceneReplay.Proofs.Rib.LineLocal

/-!
# Reading a text in parts

A text can be read in two parts, cut at a line end, if the second part does not go on with the
operands of a request: what it begins with, comments aside, is a request. Then the commands are
the same, in the same order, and so are the declarations, the number of requests, and the
reports but for their order and their lines (`SceneReplay.Rib.read_append_lineEnd`).

Read as a whole, the comments that the second part begins with stand in the body of the first
part's last request. It makes no difference: they come after the request either way, and are no
operands (`SceneReplay.Rib.operands_append_comments`). An array that the first part leaves open
is broken off by the end of the text, by a comment and by a name alike.

The reports come in another order because the troubles of a whole text come before its
requests. Those of the second part have other lines: of what is read further below, nothing
but the lines of the reports is different (`SceneReplay.Rib.moved_tokenEvents`).
-/

namespace SceneReplay.Rib

/-! ### Tokens one after the other -/

/-- All tokens are comments or hints. -/
def AreComments (ts : List Token) : Prop := ∀ t ∈ ts, ∃ r, recordOf? t.lexeme = some r

/-- **The first token that is no comment**, if there is one, is the name of a request. -/
def StartsAtRequest (ts : List Token) : Prop :=
  ∀ t ∈ ts.find? fun t => (recordOf? t.lexeme).isNone, ∃ s, t.lexeme = .name s

theorem StartsAtRequest.areComments {ts : List Token} (h : StartsAtRequest ts) :
    AreComments (split ts).1 := by
  induction ts with
  | nil => nofun
  | cons t ts ih =>
    obtain ⟨l, line⟩ := t
    unfold StartsAtRequest at h ih
    cases l with
    | name s => nofun
    | comment s => exact List.forall_mem_cons.2 ⟨⟨_, rfl⟩, ih h⟩
    | hint s => exact List.forall_mem_cons.2 ⟨⟨_, rfl⟩, ih h⟩
    | _ =>
      obtain ⟨s, hs⟩ := h _ (List.find?_cons_of_pos rfl)
      cases hs

section Comments

variable {cs : List Token} (h : AreComments cs)

include h

mutual

/-- **Comments behind operands** change nothing, not even an array that is left open. -/
theorem operands_append_comments : (ts : List Token) → operands (ts ++ cs) = operands ts
  | [] => operands_of_records h
  | ⟨l, line⟩ :: ts => by
    cases l with
    | opening => exact arrayOperands_append_comments line [] ts
    | number n => exact congrArg (_ :: ·) (operands_append_comments ts)
    | text t => exact congrArg (_ :: ·) (operands_append_comments ts)
    | closing => exact congrArg (_ :: ·) (operands_append_comments ts)
    | name s => exact operands_append_comments ts
    | comment t => exact operands_append_comments ts
    | hint t => exact operands_append_comments ts

theorem arrayOperands_append_comments (line : Int) (items : List Scalar) :
    (ts : List Token) → arrayOperands line items (ts ++ cs) = arrayOperands line items ts
  | [] => by
    -- The first comment breaks the array off, as the end does.
    rcases cs with _ | ⟨⟨l, line'⟩, cs⟩
    · rfl
    · rw [AreComments, List.forall_mem_cons] at h
      obtain ⟨⟨r, hr⟩, hcs⟩ := h
      cases l with
      | comment t => exact congrArg (_ :: ·) (operands_of_records hcs)
      | hint t => exact congrArg (_ :: ·) (operands_of_records hcs)
      | _ => cases hr
  | ⟨l, line'⟩ :: ts => by
    cases l with
    | number n => exact arrayOperands_append_comments line _ ts
    | text t => exact arrayOperands_append_comments line _ ts
    | closing => exact congrArg (_ :: ·) (operands_append_comments ts)
    | opening => exact congrArg (_ :: ·) (arrayOperands_append_comments line' [] ts)
    | name s => exact congrArg (_ :: ·) (operands_append_comments ts)
    | comment t => exact congrArg (_ :: ·) (operands_append_comments ts)
    | hint t => exact congrArg (_ :: ·) (operands_append_comments ts)

end

end Comments

/-! ### Requests one after the other -/

theorem commentEvents_append (ts us : List Token) :
    commentEvents (ts ++ us) = commentEvents ts ++ commentEvents us := by
  rw [commentEvents, recordsOf, List.filterMap_append, List.map_append]
  rfl

theorem split_name (s : String) (line : Int) (ts : List Token) :
    split (⟨.name s, line⟩ :: ts) = ([], ⟨s, line, (split ts).1⟩ :: (split ts).2) := rfl

/-- Tokens without a name among them go with what leads the tokens behind them. -/
theorem split_append_of_nil {ts : List Token} (h : (split ts).2 = []) (us : List Token) :
    split (ts ++ us) = ((split ts).1 ++ (split us).1, (split us).2) := by
  induction ts with
  | nil => rfl
  | cons t ts ih =>
    obtain ⟨l, line⟩ := t
    rw [List.cons_append]
    cases l with
    | name s => cases h
    | _ => rw [split, split, ih h]; rfl

/-- **What leads the tokens behind a request** goes to its body. -/
theorem split_append_of_concat {ts : List Token} {rs : List Request} {r : Request}
    (h : (split ts).2 = rs ++ [r]) (us : List Token) :
    split (ts ++ us)
      = ((split ts).1, rs ++ { r with body := r.body ++ (split us).1 } :: (split us).2) := by
  induction ts generalizing rs with
  | nil => exact absurd h.symm (by simp)
  | cons t ts ih =>
    obtain ⟨l, line⟩ := t
    rw [List.cons_append]
    cases l with
    | name s =>
      rw [split_name] at h ⊢
      -- The name is that of the last request, or the last one is further on.
      rcases rs with _ | ⟨r', rs⟩
      · obtain ⟨rfl, hts⟩ := List.cons.inj h
        rw [split_append_of_nil hts]
        rfl
      · obtain ⟨rfl, hts⟩ := List.cons.inj h
        rw [ih hts]
        rfl
    | _ => rw [split, split, ih h]

/-- Comments in the body of a request come after it, as do those behind it. -/
theorem requestsEvents_comments {us : List Token} (hus : AreComments us) (d : Declarations)
    (r : Request) (rs : List Request) :
    requestsEvents d ({ r with body := r.body ++ us } :: rs)
      = requestsEvents d [r] ++ (commentEvents us
          ++ requestsEvents (declaredBy d (requestsEvents d [r])) rs) := by
  have hsame : requestEvents d { r with body := r.body ++ us } = requestEvents d r := by
    simp only [requestEvents, operands_append_comments hus]
  simp only [requestsEvents, hsame, commentEvents_append, declaredBy_append,
    declaredBy_commentEvents, List.append_assoc, List.append_nil]

/-- **Tokens that start at a request** lead to what they lead to by themselves, whatever tokens
come before them, while the declarations of those hold. -/
theorem tokenEvents_append {ts us : List Token} (hus : StartsAtRequest us) (d : Declarations) :
    tokenEvents d (ts ++ us)
      = tokenEvents d ts ++ tokenEvents (declaredBy d (tokenEvents d ts)) us := by
  rcases List.eq_nil_or_concat' (split ts).2 with h | ⟨rs, r, h⟩
  · simp only [tokenEvents, split_append_of_nil h, h, requestsEvents, List.append_nil,
      declaredBy_lead, List.map_append, List.append_assoc]
  · simp only [tokenEvents, split_append_of_concat h, h, declaredBy_append, declaredBy_lead,
      requestsEvents_append, requestsEvents_comments hus.areComments,
      map_leadEvent hus.areComments, List.append_assoc]

/-! ### Further below -/

/-- **A report that is moved down** by so many lines. -/
def Moved (k : Int) (r r' : Report) : Prop :=
  ∃ (p : Problem) (line : Int), r = p.report line ∧ r' = p.report (line + k)

/-- **An event that is moved down** by so many lines: only a report has one. -/
inductive Event.Moved (k : Int) : Event → Event → Prop
  | report {r r' : Report} (h : Rib.Moved k r r') : Event.Moved k (.report r) (.report r')
  | other {e : Event} (h : e.report? = none) : Event.Moved k e e

section Moved

variable {k : Int} {es es' : List Event}

theorem command_of_moved (h : List.Forall₂ (Event.Moved k) es es') :
    es.filterMap Event.command? = es'.filterMap Event.command? := by
  induction h with
  | nil => rfl
  | cons he _ ih =>
    cases he with
    | report h => exact ih
    | other h => rw [List.filterMap_cons, List.filterMap_cons, ih]

theorem report_of_moved (h : List.Forall₂ (Event.Moved k) es es') :
    List.Forall₂ (Rib.Moved k) (es.filterMap Event.report?) (es'.filterMap Event.report?) := by
  induction h with
  | nil => exact .nil
  | cons he _ ih =>
    cases he with
    | report h => exact .cons h ih
    | other h =>
      rw [List.filterMap_cons_none h, List.filterMap_cons_none h]
      exact ih

theorem countP_of_moved (h : List.Forall₂ (Event.Moved k) es es') :
    es.countP Event.isRequest = es'.countP Event.isRequest := by
  induction h with
  | nil => rfl
  | cons he _ ih =>
    cases he with
    | report h => exact ih
    | other h => rw [List.countP_cons, List.countP_cons, ih]

theorem declaredBy_of_moved (h : List.Forall₂ (Event.Moved k) es es') (d : Declarations) :
    declaredBy d es = declaredBy d es' := by
  induction h generalizing d with
  | nil => rfl
  | cons he _ ih =>
    cases he with
    | report h => exact ih d
    | other h => exact ih _

theorem fault_mem_of_moved (h : List.Forall₂ (Event.Moved k) es es') {f : Fault}
    (hf : .fault f ∈ es') : .fault f ∈ es := by
  induction h with
  | nil => exact hf
  | cons he _ ih =>
    rcases List.mem_cons.1 hf with rfl | hf
    · cases he
      exact List.mem_cons_self
    · exact List.mem_cons_of_mem _ (ih hf)

end Moved

/-- A request so many lines below. -/
def Request.below (k : Int) (r : Request) : Request :=
  ⟨r.name, r.line + k, r.body.map (Token.below k)⟩

section Below

variable (k : Int)

theorem split_below (ts : List Token) :
    split (ts.map (Token.below k))
      = ((split ts).1.map (Token.below k), (split ts).2.map (Request.below k)) := by
  induction ts with
  | nil => rfl
  | cons t ts ih =>
    obtain ⟨l, line⟩ := t
    rw [List.map_cons, Token.below, split, split, ih]
    cases l <;> rfl

theorem recordsOf_below (ts : List Token) :
    recordsOf (ts.map (Token.below k)) = recordsOf ts :=
  List.filterMap_map ..

mutual

theorem operands_below : (ts : List Token) →
    operands (ts.map (Token.below k)) = (operands ts).map fun op => (op.1, op.2 + k)
  | [] => rfl
  | ⟨l, line⟩ :: ts => by
    cases l with
    | opening => exact arrayOperands_below line [] ts
    | number n => exact congrArg (_ :: ·) (operands_below ts)
    | text t => exact congrArg (_ :: ·) (operands_below ts)
    | closing => exact congrArg (_ :: ·) (operands_below ts)
    | name s => exact operands_below ts
    | comment t => exact operands_below ts
    | hint t => exact operands_below ts

theorem arrayOperands_below (line : Int) (items : List Scalar) : (ts : List Token) →
    arrayOperands (line + k) items (ts.map (Token.below k))
      = (arrayOperands line items ts).map fun op => (op.1, op.2 + k)
  | [] => rfl
  | ⟨l, line'⟩ :: ts => by
    cases l with
    | number n => exact arrayOperands_below line _ ts
    | text t => exact arrayOperands_below line _ ts
    | closing => exact congrArg (_ :: ·) (operands_below ts)
    | opening => exact congrArg (_ :: ·) (arrayOperands_below line' [] ts)
    | name s => exact congrArg (_ :: ·) (operands_below ts)
    | comment t => exact congrArg (_ :: ·) (operands_below ts)
    | hint t => exact congrArg (_ :: ·) (operands_below ts)

end

theorem firstBroken?_below (ops : List (Operand × Int)) :
    firstBroken? (ops.map fun op => (op.1, op.2 + k)) = (firstBroken? ops).map (· + k) := by
  rw [firstBroken?, firstBroken?, List.find?_map, Option.map_map, Option.map_map]
  rfl

/-- A request further below reports on its own lines, and does nothing else differently. -/
theorem moved_requestEvents (d : Declarations) (r : Request) :
    List.Forall₂ (Event.Moved k) (requestEvents d r) (requestEvents d (r.below k)) := by
  have hreport : ∀ (p : Problem) (line : Int),
      List.Forall₂ (Event.Moved k) [.report (p.report line)] [.report (p.report (line + k))] :=
    fun p line => .cons (.report ⟨p, line, rfl, rfl⟩) .nil
  have hops : ((operands r.body).map fun op => (op.1, op.2 + k)).map Prod.fst
      = (operands r.body).map Prod.fst := List.map_map ..
  unfold requestEvents
  simp only [Request.below, operands_below, firstBroken?_below, hops]
  split
  · exact .nil
  · split
    · exact hreport _ _
    · rcases firstBroken? (operands r.body) with _ | line
      · simp only [Option.map_none]
        split
        · split
          · exact .cons (.other rfl) (.cons (.other rfl) .nil)
          · exact .cons (.other rfl) .nil
        · exact hreport _ _
        · exact .cons (.other rfl) .nil
      · exact hreport _ _

theorem moved_commentEvents (ts : List Token) :
    List.Forall₂ (Event.Moved k) (commentEvents ts) (commentEvents (ts.map (Token.below k))) := by
  rw [commentEvents, commentEvents, recordsOf_below, List.forall₂_same]
  intro e he
  obtain ⟨r, -, rfl⟩ := List.mem_map.1 he
  exact .other rfl

theorem moved_requestsEvents (d : Declarations) (rs : List Request) :
    List.Forall₂ (Event.Moved k) (requestsEvents d rs)
      (requestsEvents d (rs.map (Request.below k))) := by
  induction rs generalizing d with
  | nil => exact .nil
  | cons r rs ih =>
    rw [List.map_cons, requestsEvents, requestsEvents,
      ← declaredBy_of_moved (moved_requestEvents k d r)]
    exact List.rel_append (moved_requestEvents k d r)
      (List.rel_append (moved_commentEvents k r.body) (ih _))

/-- **Of what tokens lead to further below**, only the reports have other lines. -/
theorem moved_tokenEvents (d : Declarations) (ts : List Token) :
    List.Forall₂ (Event.Moved k) (tokenEvents d ts)
      (tokenEvents d (ts.map (Token.below k))) := by
  have hlead : ∀ t : Token, Event.Moved k (leadEvent t) (leadEvent (t.below k)) := by
    intro t
    rcases hrecord : recordOf? t.lexeme with _ | r
    · simp only [leadEvent, Token.below, hrecord]
      exact .report ⟨_, _, rfl, rfl⟩
    · simp only [leadEvent, Token.below, hrecord]
      exact .other rfl
  simp only [tokenEvents, split_below, List.map_map]
  refine List.rel_append ?_ (moved_requestsEvents k d _)
  rw [List.forall₂_map_left_iff, List.forall₂_map_right_iff, List.forall₂_same]
  exact fun t _ => hlead t

/-- So it is with the troubles. -/
theorem moved_troubleEvents (steps : List Lexed) :
    List.Forall₂ (Event.Moved k) (troubleEvents steps)
      (troubleEvents (steps.map (Lexed.below k))) := by
  induction steps with
  | nil => exact .nil
  | cons step steps ih =>
    rcases step with t | ⟨t, line, remaining⟩
    · exact ih
    · cases t with
      | tooManyDigits n => exact .cons (.other rfl) ih
      | unterminated => exact .cons (.report ⟨_, _, rfl, rfl⟩) ih
      | unexpected c => exact .cons (.report ⟨_, _, rfl, rfl⟩) ih

end Below

/-- **Whatever is reported of a text** is a problem on one of its lines. -/
theorem exists_problem_of_events {d : Declarations} {t : Text} :
    ∀ r ∈ (events d t).filterMap Event.report?,
      ∃ (p : Problem) (line : Int), r = p.report line := by
  have hmoved : ∀ {es es' : List Event}, List.Forall₂ (Event.Moved 0) es es' →
      ∀ r ∈ es.filterMap Event.report?, ∃ (p : Problem) (line : Int), r = p.report line := by
    intro es es' h
    induction h with
    | nil => nofun
    | cons he _ ih =>
      cases he with
      | report hr =>
        obtain ⟨p, line, rfl, -⟩ := hr
        exact List.forall_mem_cons.2 ⟨⟨p, line, rfl⟩, ih⟩
      | other hnone =>
        rw [List.filterMap_cons_none hnone]
        exact ih
  rw [events, List.filterMap_append, List.forall_mem_append]
  exact ⟨hmoved (moved_troubleEvents 0 _), hmoved (moved_tokenEvents 0 d _)⟩

/-! ### A text below another -/

theorem tokensOf_followedBy (more : Nat) (steps : List Lexed) :
    tokensOf (steps.map (Lexed.followedBy more)) = tokensOf steps := by
  rw [tokensOf, List.filterMap_map, tokensOf]
  refine List.filterMap_congr fun step _ => ?_
  rcases step with t | ⟨t, line, remaining⟩ <;> rfl

theorem troubleEvents_followedBy (more : Nat) (steps : List Lexed) :
    troubleEvents (steps.map (Lexed.followedBy more)) = troubleEvents steps := by
  rw [troubleEvents, List.filterMap_map, troubleEvents]
  refine List.filterMap_congr fun step _ => ?_
  rcases step with t | ⟨_ | _ | _, line, remaining⟩ <;> rfl

theorem tokensOf_below (k : Int) (steps : List Lexed) :
    tokensOf (steps.map (Lexed.below k)) = (tokensOf steps).map (Token.below k) := by
  rw [tokensOf, List.filterMap_map, tokensOf, List.map_filterMap]
  refine List.filterMap_congr fun step _ => ?_
  rcases step with t | ⟨t, line, remaining⟩ <;> rfl

theorem declaredBy_troubleEvents (d : Declarations) (steps : List Lexed) :
    declaredBy d (troubleEvents steps) = d := by
  induction steps with
  | nil => rfl
  | cons step steps ih => rcases step with t | ⟨_ | _ | _, line, remaining⟩ <;> exact ih

/-- Without a fault all troubles are local. -/
theorem allLocal_of_events {d : Declarations} {t : Text} (h : ∀ f, .fault f ∉ events d t) :
    AllLocal (lex 1 t) := by
  rintro (_ | c | digits) line remaining hstep
  · rfl
  · rfl
  · have hfault : .fault (.tooManyDigits digits) ∈ troubleEvents (lex 1 t) :=
      List.mem_filterMap.2 ⟨_, hstep, rfl⟩
    exact absurd (List.mem_append_left _ hfault) (h _)

theorem StartsAtRequest.below {ts : List Token} (h : StartsAtRequest ts) (k : Int) :
    StartsAtRequest (ts.map (Token.below k)) := by
  intro t ht
  rw [List.find?_map] at ht
  obtain ⟨u, hu, rfl⟩ := Option.map_eq_some_iff.1 ht
  exact h u hu

/-- **What a text says with another below it** is what both say, up to the order of the reports
and the lines of the lower one's: the troubles of both come first. -/
theorem events_append_lineEnd {d : Declarations} {a b : Text} (hlocal : AllLocal (lex 1 a))
    (hstart : StartsAtRequest (tokensOf (lex 1 b))) :
    ∃ es, List.Forall₂ (Event.Moved (a.count (.char '\n') + 1))
        (events (declaredBy d (events d a)) b) es ∧
      (events d (a ++ .char '\n' :: b)).Perm (events d a ++ es) ∧
      (events d (a ++ .char '\n' :: b)).filterMap Event.command?
        = (events d a).filterMap Event.command? ++ es.filterMap Event.command? ∧
      declaredBy d (events d (a ++ .char '\n' :: b))
        = declaredBy (declaredBy d (events d a)) es := by
  set k : Int := a.count (.char '\n') + 1
  have hlex : lex 1 (a ++ .char '\n' :: b)
      = (lex 1 a).map (Lexed.followedBy (b.length + 1)) ++ (lex 1 b).map (Lexed.below k) := by
    rw [lex_append_lineEnd b hlocal, Int.add_assoc, lex_add]
  have htroubles : troubleEvents (lex 1 (a ++ .char '\n' :: b))
      = troubleEvents (lex 1 a) ++ troubleEvents ((lex 1 b).map (Lexed.below k)) := by
    rw [hlex, ← troubleEvents_followedBy (b.length + 1) (lex 1 a)]
    exact List.filterMap_append
  have htokens : tokensOf (lex 1 (a ++ .char '\n' :: b))
      = tokensOf (lex 1 a) ++ (tokensOf (lex 1 b)).map (Token.below k) := by
    rw [hlex, ← tokensOf_followedBy (b.length + 1) (lex 1 a), ← tokensOf_below]
    exact List.filterMap_append
  have hdeclared : declaredBy d (events d a)
      = declaredBy d (tokenEvents d (tokensOf (lex 1 a))) := by
    rw [events, declaredBy_append, declaredBy_troubleEvents]
  have hwhole : events d (a ++ .char '\n' :: b)
      = troubleEvents (lex 1 a) ++ troubleEvents ((lex 1 b).map (Lexed.below k))
        ++ (tokenEvents d (tokensOf (lex 1 a)) ++ tokenEvents (declaredBy d (events d a))
          ((tokensOf (lex 1 b)).map (Token.below k))) := by
    rw [events, htroubles, htokens, tokenEvents_append (hstart.below k), ← hdeclared]
  rw [hwhole]
  refine ⟨_, List.rel_append (moved_troubleEvents k _) (moved_tokenEvents k _ _), ?_, ?_, ?_⟩
  · -- The troubles of the lower text come before the requests of the upper one.
    rw [events, List.append_assoc, List.append_assoc]
    refine List.Perm.append_left _ ?_
    rw [← List.append_assoc, ← List.append_assoc]
    exact List.Perm.append_right _ List.perm_append_comm
  · simp only [events, List.filterMap_append, command_troubleEvents, List.nil_append]
  · simp only [declaredBy_append, declaredBy_troubleEvents, ← hdeclared]

/-! ### One reading and two -/

/-- **A text is read as its two parts are**, one after the other: what is read as a whole ends
like the second part. The reports of the second part are moved down by so many lines, and may
come before some of the first part. -/
structure ReadInParts {σ : Type} (log : Log) (k : Int) (first second whole : Played σ) :
    Prop where
  /-- Nothing stops the reading. -/
  fault : whole.fault = none
  /-- The sink has received the same. -/
  sink : whole.chain.sink = second.chain.sink
  /-- The same is declared. -/
  declarations : whole.declarations = second.declarations
  /-- The requests of both parts were issued. -/
  issued : whole.issued = first.issued + second.issued
  /-- The reports are those of both parts. -/
  reports : ∃ rs rs' moved, first.chain.log.toList = log.toList ++ rs ∧
    second.chain.log.toList = log.toList ++ rs ++ rs' ∧ List.Forall₂ (Moved k) rs' moved ∧
    whole.chain.log.toList.Perm (log.toList ++ (rs ++ moved))

theorem toList_foldl_add (log : Log) (rs : List Report) :
    (rs.foldl Log.add log).toList = log.toList ++ rs := by
  induction rs generalizing log with
  | nil => exact (List.append_nil _).symm
  | cons r rs ih =>
    rw [List.foldl_cons, ih, Log.toList_add, List.append_assoc, List.singleton_append]

/-- **Two parts of a text are read as the whole is**, if the second part starts at a request and
nothing stops the reading of the parts. -/
theorem read_append_lineEnd {σ : Type} [Sink σ] {s : σ} {log : Log} {d : Declarations}
    {a b : Text} {first second : Played σ} (hstart : StartsAtRequest (tokensOf (lex 1 b)))
    (hfirst : read ⟨[], s, log⟩ 0 d a = first) (ha : first.fault = none)
    (hsecond : read first.chain 0 first.declarations b = second) (hb : second.fault = none) :
    ReadInParts log (a.count (.char '\n') + 1) first second
      (read ⟨[], s, log⟩ 0 d (a ++ .char '\n' :: b)) := by
  have hreissue : ∀ {d : Declarations} {t : Text},
      ∀ c ∈ (events d t).filterMap Event.command?, c.reissue = .ok c.frozen :=
    fun c hc => (isCalled_of_events c hc).isWellFormed.reissue_eq
  have hpass : ∀ {d : Declarations} {t : Text},
      ∀ c ∈ (events d t).filterMap Event.command?, Transparent [] c.frozen :=
    fun c _ => transparent_nil c.frozen
  -- What the two parts leave.
  subst hfirst
  obtain ⟨hfaults, htakes⟩ := (fault_play_eq_none_iff hreissue hpass).1 ha
  have hfirst : read ⟨[], s, log⟩ 0 d a = _ := play_toEnd hreissue ha
  rw [hfirst] at hsecond ⊢
  subst hsecond
  obtain ⟨hfaults', htakes'⟩ := (fault_play_eq_none_iff hreissue hpass).1 hb
  have hsecond : read ⟨[], _, _⟩ 0 (declaredBy d (events d a)) b = _ := play_toEnd hreissue hb
  rw [hsecond]
  -- What the whole says.
  obtain ⟨es, hmoved, hperm, hcommands, hdeclared⟩ :=
    events_append_lineEnd (d := d) (allLocal_of_events hfaults) hstart
  have hnone : (read ⟨[], s, log⟩ 0 d (a ++ .char '\n' :: b)).fault = none := by
    refine (fault_play_eq_none_iff hreissue hpass).2 ⟨fun f hf => ?_, ?_⟩
    · rcases List.mem_append.1 (hperm.mem_iff.1 hf) with hf | hf
      · exact hfaults f hf
      · exact hfaults' f (fault_mem_of_moved hmoved hf)
    · rw [hcommands, ← command_of_moved hmoved, List.map_append, takes_append]
      exact ⟨htakes, htakes'⟩
  have hwhole : read ⟨[], s, log⟩ 0 d (a ++ .char '\n' :: b) = _ := play_toEnd hreissue hnone
  rw [hwhole]
  constructor
  · rfl
  · rw [hcommands, ← command_of_moved hmoved, List.map_append, deliver_append]
  · rw [hdeclared, declaredBy_of_moved hmoved]
  · simp only [Nat.zero_add, hperm.countP_eq, List.countP_append, countP_of_moved hmoved]
  · refine ⟨_, _, _, toList_foldl_add _ _, ?_, report_of_moved hmoved, ?_⟩
    · rw [toList_foldl_add, toList_foldl_add]
    · rw [toList_foldl_add, ← List.filterMap_append]
      exact (hperm.filterMap Event.report?).append_left _

/-- A declaration, a line that makes no token, and a request that ends in an open array. -/
def upperPart : Text := "Declare \"k\" \"float\"\n%\nSphere [1 2"

/-- A comment, another such line, and a request that relies on the declaration. -/
def lowerPart : Text := "# c\n%\nSurface \"x\" \"k\" 1.5\n"

theorem read_append_lineEnd_openArray :
    StartsAtRequest (tokensOf (lex 1 lowerPart)) ∧ (collected upperPart).fault = none ∧
      ∃ second : Played Collector,
        read (collected upperPart).chain 0 (collected upperPart).declarations lowerPart = second ∧
        second.fault = none ∧ second.chain.sink.toList.length = 3 ∧
        second.chain.log.toList.length = 3 ∧
        ReadInParts .empty 3 (collected upperPart) second
          (collected (upperPart ++ .char '\n' :: lowerPart)) := by
  have hfind : (tokensOf (lex 1 lowerPart)).find? (fun t => (recordOf? t.lexeme).isNone)
      = some ⟨.name "Surface", 3⟩ := by decide +kernel
  have hstart : StartsAtRequest (tokensOf (lex 1 lowerPart)) := by
    intro t ht
    rw [hfind] at ht
    obtain rfl := Option.some.inj ht
    exact ⟨_, rfl⟩
  have hfirst : (collected upperPart).fault = none :=
    Option.isNone_iff_eq_none.1 (by decide +kernel)
  have hsecond : (read (collected upperPart).chain 0 (collected upperPart).declarations
      lowerPart).fault = none := Option.isNone_iff_eq_none.1 (by decide +kernel)
  exact ⟨hstart, hfirst, _, rfl, hsecond, by decide +kernel, by decide +kernel,
    read_append_lineEnd hstart rfl hfirst rfl hsecond⟩

end SceneReplay.Rib

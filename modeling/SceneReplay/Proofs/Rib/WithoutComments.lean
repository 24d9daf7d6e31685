import SceneReplay.Proofs.Rib.Completion
import SceneReplay.Proofs.Rib.Fates

/-!
# A text without its comments

Comments are recorded, and have no part in the requests around them, wherever they stand: the
tokens without the comments lead to the same calls, declarations, reports and faults
(`SceneReplay.Rib.tokenEvents_withoutComments`). So reading a text with its comments and reading
it without them differ in the records alone (`SceneReplay.Rib.read_but_comments`).

There is one place where this fails. Inside an array a comment breaks the array off, and the
request is malformed, which it would not be without the comment
(`SceneReplay.Rib.read_but_comments_insideArray`). This matters only for the call of a procedure,
and only if the array is closed behind the comment; one that is not closed is malformed in any
case.
-/

namespace SceneReplay.Rib

/-! ### Tokens without comments -/

/-- Whether a token is a comment or a hint. -/
def Token.isComment (t : Token) : Bool := (recordOf? t.lexeme).isSome

/-- Whether a token is an item of arrays: a number or a text. -/
def Token.isItem (t : Token) : Bool := (scalarOf? t.lexeme).isSome

/-- The tokens that are no comments. -/
def withoutComments (ts : List Token) : List Token := ts.filter fun t => !t.isComment

/-- The same request without its comments. -/
def Request.withoutComments (r : Request) : Request := { r with body := Rib.withoutComments r.body }

/-! ### Comments inside arrays -/

/-- **An open array is closed**: the closing bracket comes before anything but items and
comments. -/
inductive ClosesArray : List Token → Prop
  | closing {line : Int} {ts : List Token} : ClosesArray (⟨.closing, line⟩ :: ts)
  | item {t : Token} {ts : List Token} (ht : t.isItem = true) (h : ClosesArray ts) :
      ClosesArray (t :: ts)
  | comment {t : Token} {ts : List Token} (ht : t.isComment = true) (h : ClosesArray ts) :
      ClosesArray (t :: ts)

/-- **An open array is interrupted**: behind some items there is a comment, and behind that the
array is closed. -/
inductive InterruptsArray : List Token → Prop
  | comment {t : Token} {ts : List Token} (ht : t.isComment = true) (h : ClosesArray ts) :
      InterruptsArray (t :: ts)
  | item {t : Token} {ts : List Token} (ht : t.isItem = true) (h : InterruptsArray ts) :
      InterruptsArray (t :: ts)

/-- **Some tokens have a comment inside an array.** -/
inductive HasCommentInArray : List Token → Prop
  | opening {line : Int} {ts : List Token} (h : InterruptsArray ts) :
      HasCommentInArray (⟨.opening, line⟩ :: ts)
  | later {t : Token} {ts : List Token} (h : HasCommentInArray ts) : HasCommentInArray (t :: ts)

theorem closesArray_cons {t : Token} {ts : List Token} :
    ClosesArray (t :: ts) ↔
      t.lexeme = .closing ∨ (t.isItem = true ∨ t.isComment = true) ∧ ClosesArray ts := by
  constructor
  · rintro (_ | ⟨ht, h⟩ | ⟨ht, h⟩)
    · exact Or.inl rfl
    · exact Or.inr ⟨Or.inl ht, h⟩
    · exact Or.inr ⟨Or.inr ht, h⟩
  · obtain ⟨l, line⟩ := t
    rintro (rfl | ⟨ht | ht, h⟩)
    · exact .closing
    · exact .item ht h
    · exact .comment ht h

theorem interruptsArray_cons {t : Token} {ts : List Token} :
    InterruptsArray (t :: ts) ↔
      (t.isComment = true ∧ ClosesArray ts) ∨ (t.isItem = true ∧ InterruptsArray ts) := by
  constructor
  · rintro (⟨ht, h⟩ | ⟨ht, h⟩)
    · exact Or.inl ⟨ht, h⟩
    · exact Or.inr ⟨ht, h⟩
  · rintro (⟨ht, h⟩ | ⟨ht, h⟩)
    · exact .comment ht h
    · exact .item ht h

theorem hasCommentInArray_cons {t : Token} {ts : List Token} :
    HasCommentInArray (t :: ts) ↔
      (t.lexeme = .opening ∧ InterruptsArray ts) ∨ HasCommentInArray ts := by
  constructor
  · rintro (h | h)
    · exact Or.inl ⟨rfl, h⟩
    · exact Or.inr h
  · obtain ⟨l, line⟩ := t
    rintro (⟨rfl, h⟩ | h)
    · exact .opening h
    · exact .later h

instance decidableClosesArray : DecidablePred ClosesArray
  | [] => isFalse (by rintro ⟨⟩)
  | _ :: ts =>
    have := decidableClosesArray ts
    decidable_of_iff _ closesArray_cons.symm

instance decidableInterruptsArray : DecidablePred InterruptsArray
  | [] => isFalse (by rintro ⟨⟩)
  | _ :: ts =>
    have := decidableInterruptsArray ts
    decidable_of_iff _ interruptsArray_cons.symm

instance decidableHasCommentInArray : DecidablePred HasCommentInArray
  | [] => isFalse (by rintro ⟨⟩)
  | _ :: ts =>
    have := decidableHasCommentInArray ts
    decidable_of_iff _ hasCommentInArray_cons.symm

/-- **A request is interrupted**: it is the call of a procedure, and a comment is inside one of
its arrays. -/
structure Request.IsInterrupted (r : Request) : Prop where
  /-- It is known. -/
  known : (Procedure.find? r.name).isSome = true
  /-- It has a comment inside an array. -/
  comment : HasCommentInArray r.body

instance (r : Request) : Decidable r.IsInterrupted :=
  decidable_of_iff ((Procedure.find? r.name).isSome = true ∧ HasCommentInArray r.body)
    ⟨fun h => ⟨h.1, h.2⟩, fun h => ⟨h.known, h.comment⟩⟩

/-! ### Operands without comments -/

/-- **Operands agree up to the first broken one.** -/
inductive AgreeUpToBroken : List (Operand × Int) → List (Operand × Int) → Prop
  | nil : AgreeUpToBroken [] []
  | cons (op : Operand × Int) {ops ops' : List (Operand × Int)} (h : AgreeUpToBroken ops ops') :
      AgreeUpToBroken (op :: ops) (op :: ops')
  | broken (line : Int) (ops ops' : List (Operand × Int)) :
      AgreeUpToBroken ((.broken, line) :: ops) ((.broken, line) :: ops')

theorem AgreeUpToBroken.firstBroken? {ops ops' : List (Operand × Int)}
    (h : AgreeUpToBroken ops ops') : firstBroken? ops = firstBroken? ops' := by
  induction h with
  | nil => rfl
  | cons op _ ih =>
    unfold Rib.firstBroken? at ih ⊢
    rw [List.find?_cons, List.find?_cons]
    split
    · rfl
    · exact ih
  | broken line ops ops' => rfl

theorem AgreeUpToBroken.eq {ops ops' : List (Operand × Int)} (h : AgreeUpToBroken ops ops')
    (hwhole : Rib.firstBroken? ops' = none) : ops = ops' := by
  induction h with
  | nil => rfl
  | cons op _ ih =>
    unfold Rib.firstBroken? at hwhole ih
    rw [List.find?_cons] at hwhole
    split at hwhole
    · cases hwhole
    · exact congrArg (op :: ·) (ih hwhole)
  | broken line ops ops' => cases hwhole

/-- An array that is not closed is broken, also without the comments. -/
theorem arrayOperands_of_not_closesArray {ts : List Token} (h : ¬ ClosesArray ts) (line : Int)
    (items : List Scalar) :
    ∃ ops, arrayOperands line items (withoutComments ts) = (.broken, line) :: ops := by
  induction ts generalizing items with
  | nil => exact ⟨[], rfl⟩
  | cons t ts ih =>
    obtain ⟨l, line'⟩ := t
    cases l with
    | closing => exact absurd .closing h
    | opening | name s => exact ⟨_, rfl⟩
    | number n | text t => exact ih (fun hts => h (.item rfl hts)) _
    | comment t | hint t => exact ih (fun hts => h (.comment rfl hts)) items

mutual

/-- **Without the comments there are the same operands** up to the first broken one, if no
comment is inside an array. -/
theorem agree_operands : (ts : List Token) → ¬ HasCommentInArray ts →
    AgreeUpToBroken (operands (withoutComments ts)) (operands ts)
  | [], _ => .nil
  | ⟨l, line⟩ :: ts, h => by
    have hts : ¬ HasCommentInArray ts := fun hts => h (.later hts)
    cases l with
    | opening => exact agree_arrayOperands line [] ts (fun hts => h (.opening hts)) hts
    | number n | text t | closing => exact .cons _ (agree_operands ts hts)
    | name s | comment t | hint t => exact agree_operands ts hts

/-- So it is inside an array that is not interrupted. -/
theorem agree_arrayOperands (line : Int) (items : List Scalar) : (ts : List Token) →
    ¬ InterruptsArray ts → ¬ HasCommentInArray ts →
    AgreeUpToBroken (arrayOperands line items (withoutComments ts)) (arrayOperands line items ts)
  | [], _, _ => .broken line [] []
  | ⟨l, line'⟩ :: ts, h, h' => by
    have hts : ¬ HasCommentInArray ts := fun hts => h' (.later hts)
    cases l with
    | number n | text t =>
      exact agree_arrayOperands line _ ts (fun hts => h (.item rfl hts)) hts
    | closing => exact .cons _ (agree_operands ts hts)
    | opening | name s => exact .broken line _ _
    | comment t | hint t =>
      -- The comment breaks the array off. It is not closed further on, and broken there.
      obtain ⟨ops, hops⟩ :=
        arrayOperands_of_not_closesArray (fun hts => h (.comment rfl hts)) line items
      change AgreeUpToBroken (arrayOperands line items (withoutComments ts)) _
      rw [hops]
      exact .broken line _ _

end

/-! ### Events without comments -/

/-- Whether an event records a comment. -/
def Event.isComment : Event → Bool
  | .comment _ => true
  | _ => false

/-- The events that record no comment. -/
def uncommented (evs : List Event) : List Event := evs.filter fun e => !e.isComment

theorem uncommented_append (evs evs' : List Event) :
    uncommented (evs ++ evs') = uncommented evs ++ uncommented evs' :=
  List.filter_append evs evs'

theorem uncommented_commentEvents (ts : List Token) : uncommented (commentEvents ts) = [] := by
  refine List.filter_eq_nil_iff.2 fun e he => ?_
  obtain ⟨r, -, rfl⟩ := List.mem_map.1 he
  exact Bool.false_ne_true

theorem uncommented_troubleEvents (steps : List Lexed) :
    uncommented (troubleEvents steps) = troubleEvents steps := by
  refine List.filter_eq_self.2 fun e he => ?_
  obtain ⟨step, -, hstep⟩ := List.mem_filterMap.1 he
  rcases step with token | ⟨_ | _ | _, line, remaining⟩ <;> cases hstep <;> rfl

/-- A request by itself records no comment. -/
theorem uncommented_requestEvents (d : Declarations) (r : Request) :
    uncommented (requestEvents d r) = requestEvents d r := by
  have h := leadsTo_requestEvents d r
  generalize requestEvents d r = evs at h ⊢
  cases h with
  | version | refused | stopped => rfl
  | @called p c =>
    unfold callEvents
    split <;> rfl

theorem commentEvents_withoutComments (ts : List Token) :
    commentEvents (withoutComments ts) = [] := by
  rw [commentEvents, recordsOf, withoutComments, List.filterMap_filter, List.map_eq_nil_iff,
    List.filterMap_eq_nil_iff]
  intro t ht
  rcases h : recordOf? t.lexeme with _ | r <;> simp [Token.isComment, h]

theorem split_withoutComments (ts : List Token) :
    split (withoutComments ts)
      = (withoutComments (split ts).1, (split ts).2.map Request.withoutComments) := by
  induction ts with
  | nil => rfl
  | cons t ts ih =>
    obtain ⟨l, line⟩ := t
    cases l with
    | name s =>
      change split (⟨.name s, line⟩ :: withoutComments ts) = _
      rw [split_name, split_name, ih]
      rfl
    | comment t | hint t => exact ih
    | _ =>
      change split (_ :: withoutComments ts) = _
      rw [split, split, ih]
      rfl

/-- **A request leads to the same without its comments**, if none of them interrupts it. -/
theorem requestEvents_withoutComments {d : Declarations} {r : Request} (h : ¬ r.IsInterrupted) :
    requestEvents d r.withoutComments = requestEvents d r := by
  rcases hp : Procedure.find? r.name with _ | p
  · simp only [requestEvents, Request.withoutComments, hp]
  · have hclear : ¬ HasCommentInArray r.body := fun hcomment => h ⟨by rw [hp]; rfl, hcomment⟩
    have hagree := agree_operands r.body hclear
    simp only [requestEvents, Request.withoutComments, hagree.firstBroken?]
    rcases hwhole : firstBroken? (operands r.body) with _ | line
    · rw [hagree.eq hwhole]
    · rfl

theorem requestsEvents_withoutComments {d : Declarations} {rs : List Request}
    (h : ∀ r ∈ rs, ¬ r.IsInterrupted) :
    requestsEvents d (rs.map Request.withoutComments) = uncommented (requestsEvents d rs) := by
  induction rs generalizing d with
  | nil => rfl
  | cons r rs ih =>
    rw [List.forall_mem_cons] at h
    have hbody : commentEvents r.withoutComments.body = [] := commentEvents_withoutComments r.body
    rw [List.map_cons, requestsEvents, requestEvents_withoutComments h.1, hbody, ih h.2,
      requestsEvents, uncommented_append, uncommented_append, uncommented_requestEvents,
      uncommented_commentEvents]

/-- **The tokens without the comments lead to the same**, but for the records, if no request is
interrupted. -/
theorem tokenEvents_withoutComments {ts : List Token} (h : ∀ r ∈ (split ts).2, ¬ r.IsInterrupted)
    (d : Declarations) :
    tokenEvents d (withoutComments ts) = uncommented (tokenEvents d ts) := by
  have hlead : ∀ ts : List Token,
      (withoutComments ts).map leadEvent = uncommented (ts.map leadEvent) := by
    intro ts
    rw [uncommented, List.filter_map, withoutComments]
    refine congrArg (List.map leadEvent) (List.filter_congr fun t _ => ?_)
    rcases hr : recordOf? t.lexeme with _ | r <;>
      simp [Token.isComment, leadEvent, Event.isComment, hr]
  simp only [tokenEvents, split_withoutComments, uncommented_append, hlead]
  rw [requestsEvents_withoutComments h]

/-! ### The records -/

/-- The command that an event records a comment by. -/
def Event.recorded? : Event → Option Command
  | .comment c => some c
  | _ => none

/-- The command that an event calls a request by. -/
def Event.called? : Event → Option Command
  | .request c => some c
  | _ => none

theorem recorded_uncommented (evs : List Event) :
    (uncommented evs).filterMap Event.recorded? = [] := by
  rw [uncommented, List.filterMap_filter, List.filterMap_eq_nil_iff]
  rintro (_ | _ | _ | _ | _) _ <;> rfl

theorem recorded_requestEvents (d : Declarations) (r : Request) :
    (requestEvents d r).filterMap Event.recorded? = [] := by
  rw [← uncommented_requestEvents, recorded_uncommented]

theorem recorded_commentEvents (ts : List Token) :
    (commentEvents ts).filterMap Event.recorded? = (recordsOf ts).map Record.command := by
  rw [commentEvents, List.filterMap_map]
  exact congrFun (List.filterMap_eq_map (f := Record.command)) _

theorem recorded_requestsEvents (d : Declarations) (rs : List Request) :
    (requestsEvents d rs).filterMap Event.recorded?
      = (recordsOf (rs.flatMap Request.tokens)).map Record.command := by
  induction rs generalizing d with
  | nil => rfl
  | cons r rs ih =>
    have htokens : recordsOf ((r :: rs).flatMap Request.tokens)
        = recordsOf r.body ++ recordsOf (rs.flatMap Request.tokens) := by
      rw [List.flatMap_cons, recordsOf, List.filterMap_append]
      rfl
    rw [requestsEvents, List.filterMap_append, List.filterMap_append, recorded_requestEvents,
      recorded_commentEvents, ih, htokens, List.map_append, List.nil_append]

/-- **What is recorded of a text** are its comments, each once and in their order. -/
theorem recorded_events (d : Declarations) (t : Text) :
    (events d t).filterMap Event.recorded?
      = (recordsOf (tokensOf (lex 1 t))).map Record.command := by
  have hlead : ∀ ts : List Token, (ts.map leadEvent).filterMap Event.recorded?
      = (recordsOf ts).map Record.command := by
    intro ts
    rw [List.filterMap_map, recordsOf, List.map_filterMap]
    refine List.filterMap_congr fun t _ => ?_
    rcases hr : recordOf? t.lexeme with _ | r <;> simp [leadEvent, Event.recorded?, hr]
  rw [events, List.filterMap_append, ← uncommented_troubleEvents, recorded_uncommented,
    tokenEvents, List.filterMap_append, hlead, recorded_requestsEvents, List.nil_append,
    ← List.map_append]
  conv_rhs => rw [← split_tokens (tokensOf (lex 1 t))]
  rw [recordsOf, recordsOf, recordsOf, List.filterMap_append]

/-! ### Reading with and without comments -/

/-- The events up to the first fault. -/
def upToFault (evs : List Event) : List Event := evs.takeWhile fun e => e.fault?.isNone

theorem fault?_of_mem_upToFault {evs : List Event} {e : Event} (he : e ∈ upToFault evs) :
    e.fault? = none := by
  have h := List.mem_takeWhile_imp (p := fun e : Event => e.fault?.isNone) he
  exact Option.isNone_iff_eq_none.1 h

/-- Events up to the first fault, and that fault, if there is one. -/
theorem upToFault_cases (evs : List Event) :
    (upToFault evs = evs ∧ evs.findSome? Event.fault? = none) ∨
      ∃ f rest, evs = upToFault evs ++ .fault f :: rest ∧ evs.findSome? Event.fault? = some f := by
  have hsplit : upToFault evs ++ evs.dropWhile (fun e => e.fault?.isNone) = evs :=
    List.takeWhile_append_dropWhile
  have hnone : (upToFault evs).findSome? Event.fault? = none :=
    List.findSome?_eq_none_iff.2 fun e he => fault?_of_mem_upToFault he
  have hhead := List.head?_dropWhile_not (fun e : Event => e.fault?.isNone) evs
  rcases hrest : evs.dropWhile (fun e => e.fault?.isNone) with _ | ⟨e, rest⟩
  · rw [hrest, List.append_nil] at hsplit
    rw [hsplit] at hnone
    exact Or.inl ⟨hsplit, hnone⟩
  · rw [hrest] at hhead hsplit
    cases e with
    | fault f =>
      refine Or.inr ⟨f, rest, hsplit.symm, ?_⟩
      rw [← hsplit, List.findSome?_append, hnone]
      rfl
    | _ => exact absurd hhead.symm Bool.false_ne_true

/-- **What playing events into a collector leaves**, whether a fault stops them or not. -/
theorem play_collector {evs : List Event}
    (hreissue : ∀ c ∈ evs.filterMap Event.command?, c.reissue = .ok c.frozen) (s : Collector)
    (log : Log) (d : Declarations) (n : Nat) :
    play 0 evs ⟨[], s, log⟩ d n
      = ⟨⟨[], deliver s (((upToFault evs).filterMap Event.command?).map Command.frozen),
          ((upToFault evs).filterMap Event.report?).foldl Log.add log⟩,
        declaredBy d (upToFault evs), n + (upToFault evs).countP Event.isRequest,
        evs.findSome? Event.fault?⟩ := by
  have hbefore : ∀ c ∈ (upToFault evs).filterMap Event.command?, c.reissue = .ok c.frozen :=
    fun c hc => hreissue c
      (((List.takeWhile_sublist _).filterMap Event.command?).subset hc)
  have hnone : (play 0 (upToFault evs) ⟨[], s, log⟩ d n).fault = none := by
    refine fault_play_collector hbefore fun f hf => ?_
    exact Option.some_ne_none f (fault?_of_mem_upToFault hf)
  have hplayed := play_toEnd hbefore hnone
  rcases upToFault_cases evs with ⟨hall, hfault⟩ | ⟨f, rest, hall, hfault⟩
  · rw [hfault, ← hplayed, hall]
  · rw [hfault]
    conv_lhs => rw [hall, play_append hnone, hplayed]
    rfl

theorem upToFault_uncommented (evs : List Event) :
    upToFault (uncommented evs) = uncommented (upToFault evs) := by
  induction evs with
  | nil => rfl
  | cons e evs ih =>
    cases e with
    | fault f => rfl
    | comment c => exact ih
    | _ => exact congrArg (_ :: ·) ih

/-- **What makes nothing of comments** makes the same of events without them. -/
theorem filterMap_uncommented {α : Type} {f : Event → Option α} (h : ∀ c, f (.comment c) = none)
    (evs : List Event) : (uncommented evs).filterMap f = evs.filterMap f := by
  rw [uncommented, List.filterMap_filter]
  refine List.filterMap_congr fun e _ => ?_
  cases e with
  | comment c => exact (h c).symm
  | _ => rfl

theorem command_uncommented (evs : List Event) :
    (uncommented evs).filterMap Event.command? = evs.filterMap Event.called? := by
  rw [uncommented, List.filterMap_filter]
  refine List.filterMap_congr fun e _ => ?_
  cases e <;> rfl

theorem countP_uncommented (evs : List Event) :
    (uncommented evs).countP Event.isRequest = evs.countP Event.isRequest := by
  rw [uncommented, List.countP_filter]
  refine List.countP_congr fun e _ => ?_
  cases e <;> simp [Event.isRequest, Event.isComment]

theorem declaredBy_uncommented (d : Declarations) (evs : List Event) :
    declaredBy d (uncommented evs) = declaredBy d evs := by
  induction evs generalizing d with
  | nil => rfl
  | cons e evs ih => cases e <;> exact ih _

theorem findSome?_uncommented (evs : List Event) :
    (uncommented evs).findSome? Event.fault? = evs.findSome? Event.fault? := by
  induction evs with
  | nil => rfl
  | cons e evs ih =>
    cases e with
    | fault f => rfl
    | _ => exact ih

/-- What the tokens of a text without the comments lead to, the reports of its troubles
included. -/
def eventsWithoutComments (d : Declarations) (t : Text) : List Event :=
  troubleEvents (lex 1 t) ++ tokenEvents d (withoutComments (tokensOf (lex 1 t)))

/-- **Two readings differ in the records of comments alone**, of which these are all in order:
the reading `p` with the comments, and the reading `q` without. -/
structure SameButRecords (s : Collector) (records : List Record) (p q : Played Collector) :
    Prop where
  /-- Both end in the same way. -/
  fault : p.fault = q.fault
  /-- The same number of requests was called. -/
  issued : p.issued = q.issued
  /-- The same was reported. -/
  log : p.chain.log = q.chain.log
  /-- The same is declared. -/
  declarations : p.declarations = q.declarations
  /-- The same requests were called in the same order, and between them there are the records:
  all of them, or all up to where a fault stopped the reading. -/
  sink : ∃ made : List Event,
    p.chain.sink.toList = s.toList ++ (made.filterMap Event.command?).map Command.frozen ∧
    q.chain.sink.toList = s.toList ++ (made.filterMap Event.called?).map Command.frozen ∧
    made.filterMap Event.recorded? <+: records.map Record.command ∧
    (p.fault = none → made.filterMap Event.recorded? = records.map Record.command)

/-- **Comments are transparent**: a text in which none is inside an array of a request is read in
the same way without its comments, but for their records. -/
theorem read_but_comments {t : Text}
    (h : ∀ r ∈ (split (tokensOf (lex 1 t))).2, ¬ r.IsInterrupted)
    (d : Declarations) (s : Collector) (log : Log) :
    SameButRecords s (recordsOf (tokensOf (lex 1 t))) (read ⟨[], s, log⟩ 0 d t)
      (play 0 (eventsWithoutComments d t) ⟨[], s, log⟩ d 0) := by
  have hevents : eventsWithoutComments d t = uncommented (events d t) := by
    rw [eventsWithoutComments, tokenEvents_withoutComments h, events, uncommented_append,
      uncommented_troubleEvents]
  have hreissue : ∀ c ∈ (events d t).filterMap Event.command?, c.reissue = .ok c.frozen :=
    fun c hc => (isCalled_of_events c hc).isWellFormed.reissue_eq
  have hreissue' : ∀ c ∈ (uncommented (events d t)).filterMap Event.command?,
      c.reissue = .ok c.frozen :=
    fun c hc => hreissue c ((List.filter_sublist.filterMap Event.command?).subset hc)
  rw [read, hevents, play_collector hreissue, play_collector hreissue', upToFault_uncommented,
    filterMap_uncommented (f := Event.report?) (fun _ => rfl), countP_uncommented,
    declaredBy_uncommented, findSome?_uncommented]
  refine ⟨rfl, rfl, rfl, rfl, upToFault (events d t), toList_deliver s _, ?_, ?_, ?_⟩
  · rw [toList_deliver, command_uncommented]
  · rw [← recorded_events d]
    exact (List.takeWhile_prefix _).filterMap Event.recorded?
  · intro hnone
    rw [← recorded_events d]
    rcases upToFault_cases (events d t) with ⟨hall, -⟩ | ⟨f, -, -, hfault⟩
    · rw [hall]
    · exact absurd (hfault.symm.trans hnone) (Option.some_ne_none f)

/-- Comments before the first name, behind a name, among the numbers of a color, between the
token of a parameter and its value, behind an array, in an array that is not closed, and in one
of a request that is unknown. -/
def commentedScene : Text :=
  "# lead\nColor # a\n1 # b\n0 # c\n0\nPolygon # d\n\"P\" # e\n[0 0 0] # f\nMatte [1 # g\nFoo [1 # h\n2] WorldEnd\n"

theorem read_but_comments_commentedScene :
    (∀ r ∈ (split (tokensOf (lex 1 commentedScene))).2, ¬ r.IsInterrupted) ∧
      SameButRecords .empty (recordsOf (tokensOf (lex 1 commentedScene)))
        (collected commentedScene)
        (play 0 (eventsWithoutComments .standard commentedScene) (Chain.ofSink .empty)
          .standard 0) ∧
      (collected commentedScene).fault = none ∧ (collected commentedScene).issued = 3 ∧
      (recordsOf (tokensOf (lex 1 commentedScene))).length = 9 := by
  have hclear : ∀ r ∈ (split (tokensOf (lex 1 commentedScene))).2, ¬ r.IsInterrupted := by
    decide +kernel
  exact ⟨hclear, read_but_comments hclear _ _ _,
    Option.isNone_iff_eq_none.1 (by decide +kernel), by decide +kernel, by decide +kernel⟩

/-- A request that is malformed with its comment, and not without. -/
def commentInArray : Text := "Color [1 # c\n0 0]\n"

theorem read_but_comments_insideArray :
    ((collected commentInArray).issued = 0 ∧
        (collected commentInArray).chain.log.toList.length = 1) ∧
      ((play 0 (eventsWithoutComments .standard commentInArray) (Chain.ofSink Collector.empty)
          .standard 0).issued = 1 ∧
        (play 0 (eventsWithoutComments .standard commentInArray) (Chain.ofSink Collector.empty)
          .standard 0).chain.log.toList.length = 0) ∧
      ¬ SameButRecords .empty (recordsOf (tokensOf (lex 1 commentInArray)))
        (collected commentInArray)
        (play 0 (eventsWithoutComments .standard commentInArray) (Chain.ofSink .empty)
          .standard 0) := by
  refine ⟨⟨by decide +kernel, by decide +kernel⟩, ⟨by decide +kernel, by decide +kernel⟩, ?_⟩
  intro h
  exact absurd h.issued (by decide +kernel)

end SceneReplay.Rib

import SceneReplay.Proofs.Rib.LineByLine

/-!
# What becomes of the tokens of a text

Every token of a text that is read to its end has a *fate* (`SceneReplay.Rib.Fate`): a comment
is recorded, the name of a request is called or reported, and whatever comes before the first
name is reported. All other tokens are operands and pass without a trace of their own, and so
does the name `version`. What the sink receives, what is reported and what is counted are the
fates of the tokens, in the order of the text (`SceneReplay.Rib.exists_fates_of_read`), after
one report for each line that cannot be read.

So nothing is lost and nothing is counted twice. In particular a comment inside a request is
recorded after the call of the request, for it comes after its name, and before the next one.
-/

namespace SceneReplay.Rib

/-! ### Fates -/

/-- **What becomes of a token.** -/
inductive Fate where
  /-- It is a comment that is recorded. -/
  | recorded (r : Record)
  /-- It is the name of a request that is called. -/
  | called (c : Command)
  /-- It is a problem that is reported. -/
  | reported (r : Report)
  /-- Nothing by itself. -/
  | passed

namespace Fate

/-- The command that comes of a token. -/
def command? : Fate → Option Command
  | .recorded r => some r.command
  | .called c => some c
  | _ => none

/-- The report that comes of a token. -/
def report? : Fate → Option Report
  | .reported r => some r
  | _ => none

/-- The record that comes of a token. -/
def record? : Fate → Option Record
  | .recorded r => some r
  | _ => none

/-- Whether a token names a request that is called. -/
def isCalled : Fate → Bool
  | .called _ => true
  | _ => false

end Fate

/-- Whether a token is the name of a request. -/
def Token.isName (t : Token) : Bool := t.lexeme matches .name _

/-- Whether a token is the name of a request other than `version`. -/
def Token.isRequest (t : Token) : Bool := t.isName && t.lexeme != .name "version"

/-- The tokens before the first name among them. -/
def upToName (ts : List Token) : List Token := ts.takeWhile fun t => !t.isName

/-- **The fate that a token meets**, given whether the name of a request stands before it, and
the tokens that stand behind it. -/
inductive Meets : Bool → Token → List Token → Fate → Prop
  /-- A comment is recorded. -/
  | comment {named : Bool} {t : Token} {behind : List Token} {r : Record}
      (h : recordOf? t.lexeme = some r) : Meets named t behind (.recorded r)
  /-- Anything else before the first name is reported. -/
  | stray {t : Token} {behind : List Token} (hcomment : recordOf? t.lexeme = none)
      (hname : t.isName = false) :
      Meets false t behind (.reported ((Problem.stray t.lexeme).report t.line))
  /-- Behind a name it is an operand. -/
  | operand {t : Token} {behind : List Token} (hcomment : recordOf? t.lexeme = none)
      (hname : t.isName = false) : Meets true t behind .passed
  /-- The version of a file is of no concern. -/
  | version {named : Bool} {line : Int} {behind : List Token} :
      Meets named ⟨.name "version", line⟩ behind .passed
  /-- Any other request is called, with the operands up to the next name. -/
  | called {named : Bool} {name : String} {line : Int} {behind : List Token} {d : Declarations}
      {p : Procedure} {c : Command} (hversion : name ≠ "version")
      (hp : Procedure.find? name = some p)
      (hread : readCall d.typeOf p ((operands (upToName behind)).map Prod.fst) = .ok c) :
      Meets named ⟨.name name, line⟩ behind (.called c)
  /-- Or it is reported, as unknown or as malformed. -/
  | refused {named : Bool} {name : String} {line : Int} {behind : List Token} {r : Report}
      (hversion : name ≠ "version")
      (hcode : r.code = if (Procedure.find? name).isSome then .malformed else .badToken) :
      Meets named ⟨.name name, line⟩ behind (.reported r)

/-- **The fates of tokens**, one for each and in their order. -/
inductive Accounts : Bool → List Token → List Fate → Prop
  | nil (named : Bool) : Accounts named [] []
  | cons {named : Bool} {t : Token} {f : Fate} {ts : List Token} {fs : List Fate}
      (h : Meets named t ts f) (hs : Accounts (named || t.isName) ts fs) :
      Accounts named (t :: ts) (f :: fs)

namespace Accounts

variable {named : Bool} {ts us : List Token} {fs gs : List Fate}

/-- Tokens without a name among them meet their fates one by one, before those of others. -/
theorem map_append {fate : Token → Fate} (hname : ∀ t ∈ ts, t.isName = false)
    (h : ∀ t ∈ ts, ∀ behind, Meets named t behind (fate t)) (hs : Accounts named us gs) :
    Accounts named (ts ++ us) (ts.map fate ++ gs) := by
  induction ts with
  | nil => exact hs
  | cons t ts ih =>
    rw [List.forall_mem_cons] at hname h
    refine .cons (h.1 _) ?_
    rw [hname.1, Bool.or_false]
    exact ih hname.2 h.2

/-- **The comments are recorded**, each once and in their order. -/
theorem records (h : Accounts named ts fs) : fs.filterMap Fate.record? = recordsOf ts := by
  induction h with
  | nil => rfl
  | cons h _ ih =>
    rw [recordsOf, List.filterMap_cons, List.filterMap_cons, ih]
    cases h with
    | comment h => rw [h]; rfl
    | stray hcomment => rw [hcomment]; rfl
    | operand hcomment => rw [hcomment]; rfl
    | version => rfl
    | called => rfl
    | refused => rfl

end Accounts

/-! ### The fates told by events -/

/-- **Fates tell what events do**: they issue the same commands, make the same reports, and as
many of them are calls of requests. -/
structure Tells (fs : List Fate) (evs : List Event) : Prop where
  /-- The commands. -/
  commands : fs.filterMap Fate.command? = evs.filterMap Event.command?
  /-- The reports. -/
  reports : fs.filterMap Fate.report? = evs.filterMap Event.report?
  /-- The requests. -/
  requests : fs.countP Fate.isCalled = evs.countP Event.isRequest

theorem Tells.append {fs gs : List Fate} {evs evs' : List Event} (h : Tells fs evs)
    (h' : Tells gs evs') : Tells (fs ++ gs) (evs ++ evs') where
  commands := by rw [List.filterMap_append, List.filterMap_append, h.commands, h'.commands]
  reports := by rw [List.filterMap_append, List.filterMap_append, h.reports, h'.reports]
  requests := by rw [List.countP_append, List.countP_append, h.requests, h'.requests]

/-- The fate of a token that is no name, before the first name. -/
def leadFate (t : Token) : Fate :=
  match recordOf? t.lexeme with
  | some r => .recorded r
  | none => .reported ((Problem.stray t.lexeme).report t.line)

/-- The fate of a token that is no name, behind a name. -/
def bodyFate (t : Token) : Fate :=
  match recordOf? t.lexeme with
  | some r => .recorded r
  | none => .passed

theorem meets_leadFate {t : Token} (h : t.isName = false) (behind : List Token) :
    Meets false t behind (leadFate t) := by
  unfold leadFate
  split
  · rename_i r hr
    exact .comment hr
  · rename_i hr
    exact .stray hr h

theorem meets_bodyFate {t : Token} (h : t.isName = false) (behind : List Token) :
    Meets true t behind (bodyFate t) := by
  unfold bodyFate
  split
  · rename_i r hr
    exact .comment hr
  · rename_i hr
    exact .operand hr h

theorem tells_lead (ts : List Token) : Tells (ts.map leadFate) (ts.map leadEvent) := by
  induction ts with
  | nil => exact ⟨rfl, rfl, rfl⟩
  | cons t ts ih =>
    have hhead : Tells [leadFate t] [leadEvent t] := by
      unfold leadFate leadEvent
      rcases recordOf? t.lexeme with _ | r
      · exact ⟨rfl, rfl, rfl⟩
      · exact ⟨rfl, rfl, rfl⟩
    exact hhead.append ih

theorem tells_body (ts : List Token) : Tells (ts.map bodyFate) (commentEvents ts) := by
  induction ts with
  | nil => exact ⟨rfl, rfl, rfl⟩
  | cons t ts ih =>
    have hcomments : commentEvents (t :: ts) = commentEvents [t] ++ commentEvents ts :=
      commentEvents_append [t] ts
    have hhead : Tells [bodyFate t] (commentEvents [t]) := by
      unfold bodyFate commentEvents recordsOf
      rcases hr : recordOf? t.lexeme with _ | r
      · simp only [List.filterMap_cons, hr]
        exact ⟨rfl, rfl, rfl⟩
      · simp only [List.filterMap_cons, hr]
        exact ⟨rfl, rfl, rfl⟩
    rw [hcomments]
    exact hhead.append ih

/-- **The name of a request** meets its fate, unless the request stops the reading. -/
theorem exists_fate_request {d : Declarations} {r : Request} {behind : List Token}
    (hbehind : upToName behind = r.body) (hfault : ∀ f, .fault f ∉ requestEvents d r)
    (named : Bool) :
    ∃ f, Meets named ⟨.name r.name, r.line⟩ behind f ∧ Tells [f] (requestEvents d r) := by
  have h := leadsTo_requestEvents d r
  generalize requestEvents d r = evs at h hfault ⊢
  cases h with
  | version h =>
    refine ⟨.passed, ?_, rfl, rfl, rfl⟩
    rw [h]
    exact .version
  | refused hversion hcode => exact ⟨.reported _, .refused hversion hcode, rfl, rfl, rfl⟩
  | stopped => exact absurd List.mem_cons_self (hfault _)
  | @called p c hversion hp _ hread =>
    obtain ⟨hcommands, hreports, hrequests⟩ := command_callEvents c
    rw [← hbehind] at hread
    exact ⟨.called c, .called hversion hp hread, hcommands.symm, hreports.symm, hrequests.symm⟩

/-! ### Tokens and requests -/

/-- The tokens of a request. -/
def Request.tokens (r : Request) : List Token := ⟨.name r.name, r.line⟩ :: r.body

/-- **Splitting loses no token.** -/
theorem split_tokens (ts : List Token) :
    (split ts).1 ++ (split ts).2.flatMap Request.tokens = ts := by
  induction ts with
  | nil => rfl
  | cons t ts ih =>
    obtain ⟨l, line⟩ := t
    cases l with
    | name s =>
      rw [split_name, List.nil_append, List.flatMap_cons]
      exact congrArg (_ :: ·) ih
    | _ => exact congrArg (_ :: ·) ih

/-- Names stand at the beginnings of requests alone. -/
theorem isName_eq_false_of_split (ts : List Token) :
    (∀ t ∈ (split ts).1, t.isName = false) ∧
      ∀ r ∈ (split ts).2, ∀ t ∈ r.body, t.isName = false := by
  induction ts with
  | nil => exact ⟨List.forall_mem_nil _, List.forall_mem_nil _⟩
  | cons t ts ih =>
    obtain ⟨l, line⟩ := t
    cases l with
    | name s => exact ⟨List.forall_mem_nil _, List.forall_mem_cons.2 ih⟩
    | _ => exact ⟨List.forall_mem_cons.2 ⟨rfl, ih.1⟩, ih.2⟩

/-- The body of a request ends at the name of the next. -/
theorem upToName_requests {body : List Token} (hbody : ∀ t ∈ body, t.isName = false)
    (rs : List Request) : upToName (body ++ rs.flatMap Request.tokens) = body := by
  rw [upToName, List.takeWhile_append_of_pos fun t ht => by rw [hbody t ht]; rfl]
  rcases rs with _ | ⟨r, rs⟩
  · exact List.append_nil body
  · rw [List.flatMap_cons, Request.tokens, List.cons_append,
      List.takeWhile_cons_of_neg (by rw [Token.isName]; nofun),
      List.append_nil]

/-- **The tokens of requests meet their fates**, unless one of the requests stops the reading. -/
theorem exists_fates_requests {rs : List Request}
    (hbody : ∀ r ∈ rs, ∀ t ∈ r.body, t.isName = false) {d : Declarations}
    (hfault : ∀ f, .fault f ∉ requestsEvents d rs) (named : Bool) :
    ∃ fs, Accounts named (rs.flatMap Request.tokens) fs ∧ Tells fs (requestsEvents d rs) := by
  induction rs generalizing d named with
  | nil => exact ⟨[], .nil named, rfl, rfl, rfl⟩
  | cons r rs ih =>
    rw [List.forall_mem_cons] at hbody
    simp only [requestsEvents, List.mem_append, not_or] at hfault
    obtain ⟨f, hmeets, htells⟩ :=
      exists_fate_request (upToName_requests hbody.1 rs) (fun g => (hfault g).1) named
    obtain ⟨fs, haccounts, htells'⟩ := ih hbody.2 (fun g => (hfault g).2.2) true
    refine ⟨f :: (r.body.map bodyFate ++ fs), .cons hmeets ?_,
      htells.append ((tells_body r.body).append htells')⟩
    have hnamed : (named || Token.isName ⟨.name r.name, r.line⟩) = true := Bool.or_true named
    rw [hnamed]
    exact .map_append hbody.1 (fun t ht => meets_bodyFate (hbody.1 t ht)) haccounts

/-- **Tokens meet their fates**, unless one of their requests stops the reading. -/
theorem exists_fates {d : Declarations} {ts : List Token}
    (hfault : ∀ f, .fault f ∉ tokenEvents d ts) :
    ∃ fs, Accounts false ts fs ∧ Tells fs (tokenEvents d ts) := by
  obtain ⟨hlead, hbody⟩ := isName_eq_false_of_split ts
  simp only [tokenEvents, List.mem_append, not_or] at hfault
  obtain ⟨fs, haccounts, htells⟩ := exists_fates_requests hbody (fun f => (hfault f).2) false
  refine ⟨(split ts).1.map leadFate ++ fs, ?_, (tells_lead _).append htells⟩
  have h := haccounts.map_append hlead fun t ht => meets_leadFate (hlead t ht)
  rwa [split_tokens] at h

/-! ### How many are reported -/

/-- Whether a token that names a request was not called. -/
def isUncalled (x : Token × Fate) : Bool := x.1.isRequest && !x.2.isCalled

/-- The tokens before the first name that are no comments. -/
def strays (ts : List Token) : Nat :=
  (upToName ts).countP fun t => (recordOf? t.lexeme).isNone

theorem isName_of_record {t : Token} {r : Record} (h : recordOf? t.lexeme = some r) :
    t.isName = false := by
  obtain ⟨l, line⟩ := t
  cases l with
  | name s => cases h
  | _ => rfl

theorem strays_cons_of_isName {t : Token} (h : t.isName = true) (ts : List Token) :
    strays (t :: ts) = 0 := by
  rw [strays, upToName, List.takeWhile_cons_of_neg (by rw [h]; nofun), List.countP_nil]

theorem strays_cons_of_record {t : Token} {r : Record} (h : recordOf? t.lexeme = some r)
    (ts : List Token) : strays (t :: ts) = strays ts := by
  rw [strays, upToName, List.takeWhile_cons_of_pos (by rw [isName_of_record h]; rfl),
    List.countP_cons_of_neg (by rw [h]; nofun), strays, upToName]

theorem strays_cons_of_stray {t : Token} (hcomment : recordOf? t.lexeme = none)
    (hname : t.isName = false) (ts : List Token) : strays (t :: ts) = strays ts + 1 := by
  rw [strays, upToName, List.takeWhile_cons_of_pos (by rw [hname]; rfl),
    List.countP_cons_of_pos (by rw [hcomment]; rfl), strays, upToName]

/-- **One report for each stray token, and one for each request that is not called.** -/
theorem Accounts.length_reports {named : Bool} {ts : List Token} {fs : List Fate}
    (h : Accounts named ts fs) :
    (fs.filterMap Fate.report?).length
      = (if named then 0 else strays ts) + (ts.zip fs).countP isUncalled := by
  have huncalled : ∀ {t : Token} (f : Fate), t.isName = false → isUncalled (t, f) = false := by
    intro t f ht
    rw [isUncalled, Token.isRequest, ht]
    rfl
  have hstrays : ∀ (named : Bool) (name : String) (line : Int) (ts : List Token),
      (if named then 0 else strays (⟨.name name, line⟩ :: ts)) = 0 := by
    intro named name line ts
    rw [strays_cons_of_isName rfl, ite_self]
  induction h with
  | nil named => cases named <;> rfl
  | @cons named t f ts fs h _ ih =>
    rw [List.zip_cons_cons, List.countP_cons, List.filterMap_cons]
    cases h with
    | comment h =>
      have hname := isName_of_record h
      rw [hname, Bool.or_false] at ih
      rw [strays_cons_of_record h, huncalled _ hname]
      exact ih
    | stray hcomment hname =>
      rw [hname, Bool.or_false, if_neg Bool.false_ne_true] at ih
      rw [strays_cons_of_stray hcomment hname, huncalled _ hname, if_neg Bool.false_ne_true,
        if_neg Bool.false_ne_true, Fate.report?, List.length_cons, ih]
      omega
    | operand hcomment hname =>
      rw [huncalled _ hname]
      exact ih
    | version =>
      rw [Token.isName, Bool.or_true, if_pos rfl] at ih
      rw [hstrays]
      exact ih
    | called hversion =>
      rw [Token.isName, Bool.or_true, if_pos rfl] at ih
      rw [hstrays, isUncalled, Fate.isCalled, Bool.not_true, Bool.and_false]
      exact ih
    | @refused _ name line _ r hversion hcode =>
      have hrequest : isUncalled (⟨.name name, line⟩, .reported r) = true := by
        simp [isUncalled, Token.isRequest, Token.isName, Fate.isCalled, hversion]
      rw [Token.isName, Bool.or_true, if_pos rfl] at ih
      rw [hstrays, hrequest, if_pos rfl, Fate.report?, List.length_cons, ih]
      omega

/-- A line that cannot be read to its end. -/
def isUnreadable (l : Text) : Bool := !(troublesOf (lex 1 l)).isEmpty

/-- A single line has one trouble at most. -/
theorem length_troublesOf_of_inLine {l : Text} (hl : ∀ c ∈ l, inLine c = true) :
    (troublesOf (lex 1 l)).length = if isUnreadable l then 1 else 0 := by
  have hline : ∀ u ∈ troublesOf (lex 1 l), u.2 = 1 := by
    intro u hu
    obtain ⟨_ | ⟨t, line, remaining⟩, hstep, ⟨⟩⟩ := List.mem_filterMap.1 hu
    obtain ⟨before, c, after, rfl, -, hline⟩ := isPlaced_of_mem_lex hstep
    rw [count_lineEnd_eq_zero fun c hc => hl c (List.mem_append_left _ hc)] at hline
    exact hline
  have honce := pairwise_troublesOf 1 l
  rw [isUnreadable]
  rcases htroubles : troublesOf (lex 1 l) with _ | ⟨u, _ | ⟨v, us⟩⟩
  · rfl
  · rfl
  · -- The second would have to stand further down.
    rw [htroubles] at honce hline
    have hlt : u.2 < v.2 := List.rel_of_pairwise_cons honce List.mem_cons_self
    rw [hline u (by simp), hline v (by simp)] at hlt
    exact absurd hlt (Int.lt_irrefl 1)

/-- **One trouble for each line that cannot be read.** -/
theorem length_troublesOf {t : Text} (h : IsUnstopped t) :
    (troublesOf (lex 1 t)).length = (lines t).countP isUnreadable := by
  induction t using line_induction with
  | single l hl =>
    rw [lines_of_inLine hl, length_troublesOf_of_inLine hl, List.countP_singleton]
  | above l t hl ih =>
    obtain ⟨hline, ht⟩ := isUnstopped_append.1 h
    rw [lex_append_eq hline, troublesOf_append, troublesOf_followedBy, troublesOf_below,
      List.length_append, List.length_map, ih ht, length_troublesOf_of_inLine hl, lines_append hl,
      List.countP_cons, Nat.add_comm]

/-! ### Reading a text -/

/-- A trouble requests nothing. -/
theorem countP_troubleEvents (steps : List Lexed) :
    (troubleEvents steps).countP Event.isRequest = 0 := by
  rw [List.countP_eq_zero]
  intro e he
  obtain ⟨step, -, hstep⟩ := List.mem_filterMap.1 he
  rcases step with token | ⟨_ | _ | _, line, remaining⟩ <;> cases hstep <;> exact Bool.false_ne_true

/-- **What reading a text into a collector leaves is accounted for** by the fates of the tokens
of the text. -/
structure AccountedFor (s : Collector) (log : Log) (t : Text) (p : Played Collector)
    (fs : List Fate) : Prop where
  /-- Every token has one fate, in the order of the text. -/
  accounts : Accounts false (tokensOf (lex 1 t)) fs
  /-- What is recorded are the comments and hints of the text, each once. -/
  records : fs.filterMap Fate.record? = recordsOf (tokensOf (lex 1 t))
  /-- The sink has received what was recorded and called, in this order, and nothing else. -/
  sink : p.chain.sink.toList = s.toList ++ (fs.filterMap Fate.command?).map Command.frozen
  /-- The requests that were called are counted. -/
  issued : p.issued = fs.countP Fate.isCalled
  /-- The reports are those of the lines that cannot be read, and those of the tokens. -/
  reports : p.chain.log.toList = log.toList ++ (lexicalReports t ++ fs.filterMap Fate.report?)
  /-- There is one for each line that cannot be read, one for each token before the first name
  that is no comment, and one for each request other than `version` that is not called. -/
  count : p.chain.log.toList.length = log.toList.length + ((lines t).countP isUnreadable
    + strays (tokensOf (lex 1 t)) + ((tokensOf (lex 1 t)).zip fs).countP isUncalled)

/-- **Nothing is lost or counted twice.** Whenever the reading of a text into a collector gets to
the end, every token of the text has one fate, and what was received, counted and reported is
just that. -/
theorem exists_fates_of_read {d : Declarations} {s : Collector} {log : Log} {t : Text}
    (h : (read ⟨[], s, log⟩ 0 d t).fault = none) :
    ∃ fs, AccountedFor s log t (read ⟨[], s, log⟩ 0 d t) fs := by
  have hreissue : ∀ c ∈ (events d t).filterMap Event.command?, c.reissue = .ok c.frozen :=
    fun c hc => (isCalled_of_events c hc).isWellFormed.reissue_eq
  have hfaults : ∀ f, .fault f ∉ events d t := not_fault_of_play h
  have hend : read ⟨[], s, log⟩ 0 d t = _ := play_toEnd hreissue h
  have hunstopped : IsUnstopped t := isUnstopped_iff.2 (allLocal_of_events hfaults)
  have hfault : ∀ f, .fault f ∉ tokenEvents d (tokensOf (lex 1 t)) :=
    fun f hf => hfaults f (List.mem_append_right _ hf)
  obtain ⟨fs, haccounts, hcommands, hreports, hrequests⟩ := exists_fates hfault
  have hlog : (events d t).filterMap Event.report?
      = lexicalReports t ++ fs.filterMap Fate.report? := by
    rw [events, List.filterMap_append, hreports]
    rfl
  refine ⟨fs, haccounts, haccounts.records, ?_, ?_, ?_, ?_⟩
  · rw [hend, toList_deliver, hcommands, command_events]
  · rw [hend, hrequests]
    change 0 + (events d t).countP Event.isRequest = _
    rw [events, List.countP_append, countP_troubleEvents, Nat.zero_add, Nat.zero_add]
  · rw [hend, toList_foldl_add, hlog]
  · rw [hend, toList_foldl_add, hlog, List.length_append, List.length_append,
      haccounts.length_reports, lexicalReports_eq hunstopped, List.length_map,
      length_troublesOf hunstopped, if_neg Bool.false_ne_true, Nat.add_assoc (List.countP _ _)]

/-- A number before the first name, a version, a comment inside a request, a line that cannot be
read, an unknown request with an open array, and one request twice. -/
def mixedScene : Text :=
  "42 # lead\nversion 3 # v\nSphere 1 -1 # mid\n1 @ lost\n360\nFoo [\nWorldEnd WorldEnd\n"

theorem exists_fates_of_read_mixedScene :
    (collected mixedScene).fault = none ∧
      (∃ fs, AccountedFor .empty .empty mixedScene (collected mixedScene) fs) ∧
      (collected mixedScene).issued = 3 ∧ (collected mixedScene).chain.log.toList.length = 3 ∧
      (collected mixedScene).chain.sink.toList.map Command.proc
        = ["ArchiveRecord", "ArchiveRecord", "Sphere", "ArchiveRecord", "WorldEnd", "WorldEnd"] := by
  have hread : (collected mixedScene).fault = none :=
    Option.isNone_iff_eq_none.1 (by decide +kernel)
  exact ⟨hread, exists_fates_of_read hread, by decide +kernel, by decide +kernel,
    by decide +kernel⟩

end SceneReplay.Rib

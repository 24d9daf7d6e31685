import SceneReplay.Proofs.Rib.Tokens
import SceneReplay.Rib.Event

/-!
# Reading a written scene file line by line

A scene file as it is written holds one *entry* on each line: a request or a comment
(`SceneReplay.Rib.Entry`). A line that is read as certain tokens whatever follows it
(`SceneReplay.Rib.ReadsAs`) can be indented, and lines one below the other are read one
after the other (`SceneReplay.Rib.lex_document`). The line that a command is written as
reads as the command's name and the tokens of its operands
(`SceneReplay.Rib.readsAs_request`), that of a comment as the comment
(`SceneReplay.Rib.readsAs_comment`).

A comment needs a line of its own for this, and a text that does not start with the mark
itself: a comment that started with `#` would come back as a structural hint.
-/

namespace SceneReplay.Rib

/-! ### Lines -/

/-- **A line is read as certain tokens**, whatever comes on the next line. -/
def ReadsAs (t : Text) (ls : List Lexeme) : Prop :=
  ∀ (line : Int) (rest : Text),
    lex line (t ++ .char '\n' :: rest)
      = (ls.map fun l => .token ⟨l, line⟩) ++ lex (line + 1) rest

theorem Spells.readsAs {t : Text} {ls : List Lexeme} (h : Spells t ls) : ReadsAs t ls := by
  intro line rest
  rw [h line _ (delimits_lineEnd rest), lex_lineEnd]

/-- Indentation is passed over. -/
theorem ReadsAs.indented {t : Text} {ls : List Lexeme} (h : ReadsAs t ls) (level : Nat) :
    ReadsAs (Writer.repeated Writer.defaultIndent level ++ t) ls := by
  induction level with
  | zero => exact h
  | succ level ih =>
    intro line rest
    have hspace : isSpace (.char ' ') = true := by decide
    have hline : Writer.repeated Writer.defaultIndent (level + 1) ++ t
        = .char ' ' :: .char ' ' :: (Writer.repeated Writer.defaultIndent level ++ t) := rfl
    rw [hline, List.cons_append, List.cons_append, lex_space line hspace, lex_space line hspace,
      ih line rest]

/-! ### The line of a request -/

theorem spells_args {vs : List Value} (h : ∀ v ∈ vs, v = .null ∨ v.IsWritable) :
    List.Forall₂ Spells (valueTexts ((Value.freezeAll vs).filter isPresent))
      ((vs.filterMap Value.operand?).map Operand.lexemes) := by
  induction vs with
  | nil => exact .nil
  | cons v vs ih =>
    rw [List.forall_mem_cons] at h
    rcases h.1 with rfl | hv
    · exact ih h.2
    · obtain ⟨op, hop, hspells⟩ := spells_value hv
      have hpresent : isPresent v.freeze = true := by
        rcases hv with (_ | _) | _ <;> rfl
      rw [Value.freezeAll_cons, List.filter_cons_of_pos hpresent, List.filterMap_cons_some hop]
      exact .cons hspells (ih h.2)

theorem spells_params {c : Command} (h : c.IsWritable) :
    List.Forall₂ Spells (paramListTexts c.params) (c.paramOperands.map Operand.lexemes) := by
  have hitems : ∀ items : List Param, (∀ p ∈ items, p.IsWritable) →
      List.Forall₂ Spells (items.flatMap paramTexts)
        ((items.flatMap Param.operands).map Operand.lexemes) := by
    intro items hall
    induction items with
    | nil => exact .nil
    | cons p items ih =>
      rw [List.forall_mem_cons] at hall
      rw [List.flatMap_cons, List.flatMap_cons, List.map_append]
      exact List.rel_append (spells_param hall.1) (ih hall.2)
  have hparams := h.params
  rcases c with ⟨proc, args, _ | ps⟩
  · exact .nil
  · exact hitems ps.items (hparams ps rfl)

/-- The tokens of the line that a command is written as. -/
def requestLexemes (c : Command) : List Lexeme :=
  .name c.proc :: c.operands.flatMap Operand.lexemes

/-- **The line of a request** is read as its name and its operands. -/
theorem readsAs_request {c : Command} (hname : IsRequestName c.proc = true)
    (hrecord : c.proc ≠ "ArchiveRecord") (hwritable : c.IsWritable)
    (hprocedural : c.proc = "Procedural" → AreProcedural c.args) :
    ∃ t, commandText c.frozen = .ok t ∧ ReadsAs t (requestLexemes c) := by
  have hproc : c.frozen.proc = c.proc := rfl
  -- The words of the line, in the order in which they stand.
  have hwords : commandText c.frozen = .ok (List.intercalate " " (c.proc ::
      (valueTexts ((Value.freezeAll (writtenOrder c.proc c.args)).filter isPresent)
        ++ paramListTexts c.params))) := by
    unfold commandText
    rw [hproc, if_neg hrecord]
    split
    · rename_i hproc'
      -- All three arguments are there, so nothing is left out.
      obtain ⟨texts, box, name, hargs, -, vs, rfl, -, -⟩ := hprocedural hproc'
      simp only [Command.frozen, writtenOrder, hproc', hargs, if_true]
      rfl
    · rename_i hproc'
      have horder : writtenOrder c.proc c.args = c.args := if_neg hproc'
      rw [horder]
      rfl
  have hargs : ∀ v ∈ writtenOrder c.proc c.args, v = .null ∨ v.IsWritable := by
    intro v hv
    refine hwritable.args v ?_
    unfold writtenOrder at hv
    split at hv
    · split at hv
      · rename_i hargs
        rw [hargs]
        simp only [List.mem_cons, List.not_mem_nil, or_false] at hv ⊢
        tauto
      · exact hv
    · exact hv
  have hoperands : List.Forall₂ Spells
      (valueTexts ((Value.freezeAll (writtenOrder c.proc c.args)).filter isPresent)
        ++ paramListTexts c.params) (c.operands.map Operand.lexemes) := by
    rw [Command.operands, List.map_append]
    exact List.rel_append (spells_args hargs) (spells_params hwritable)
  have hspells := spells_intercalate (.cons (spells_name hname) hoperands)
  rw [List.flatten_cons, ← List.flatMap_def] at hspells
  exact ⟨_, hwords, hspells.readsAs⟩

/-! ### The line of a comment -/

theorem scanComment_of_head? {cs : Text} (h : cs.head? ≠ some (.char '#')) :
    scanComment cs = (.lexeme (.comment (cs.takeWhile inLine)), cs.dropWhile inLine) := by
  unfold scanComment
  split
  · exact absurd rfl h
  · rfl

theorem commandText_record (r : Record) :
    commandText r.command.frozen = .ok (recordMark (.text r.type) ++ r.text) := by
  simp [commandText, Record.command, Command.frozen, Value.freeze, Value.plain, Scalar.plain]

/-- **The line of a comment** is read as the comment. -/
theorem readsAs_comment {l : Lexeme} {r : Record} (hl : l.IsLexed) (h : recordOf? l = some r) :
    ∃ t, commandText r.command.frozen = .ok t ∧ ReadsAs t [l] := by
  have hmark : ∀ cs : Text, scan (.char '#') cs = scanComment cs := by
    intro cs
    have hspace : isSpace (.char '#') = false := by decide
    simp [scan, hspace]
  have hrun : ∀ {t : Text} (rest : Text), (∀ c ∈ t, inLine c = true) →
      (t ++ .char '\n' :: rest).takeWhile inLine = t ∧
        (t ++ .char '\n' :: rest).dropWhile inLine = .char '\n' :: rest := by
    intro t rest ht
    rw [List.takeWhile_append_of_pos ht, List.dropWhile_append_of_pos ht]
    simp [inLine]
  cases l with
  | comment t =>
    obtain rfl : (⟨"comment", t⟩ : Record) = r := Option.some.inj h
    have hmarkText : recordMark (.text "comment") = [.char '#'] := by decide
    refine ⟨_, commandText_record _, ?_⟩
    intro line rest
    rw [hmarkText, List.singleton_append]
    obtain ⟨htake, hdrop⟩ := hrun rest hl.1
    -- An empty comment is followed by the line end, which is no mark either.
    have hhead : (t ++ .char '\n' :: rest).head? ≠ some (.char '#') := by
      rcases t with _ | ⟨c, t⟩
      · simp
      · exact hl.2
    have hscan : scan (.char '#') (t ++ .char '\n' :: rest)
        = (.lexeme (.comment t), .char '\n' :: rest) := by
      rw [hmark, scanComment_of_head? hhead, htake, hdrop]
    rw [List.cons_append, lex_of_lexeme hscan, lex_lineEnd]
    rfl
  | hint t =>
    obtain rfl : (⟨"structure", t⟩ : Record) = r := Option.some.inj h
    have hmarkText : recordMark (.text "structure") = [.char '#', .char '#'] := by decide
    refine ⟨_, commandText_record _, ?_⟩
    intro line rest
    rw [hmarkText, List.cons_append, List.singleton_append]
    obtain ⟨htake, hdrop⟩ := hrun rest hl
    have hscan : scan (.char '#') (.char '#' :: (t ++ .char '\n' :: rest))
        = (.lexeme (.hint t), .char '\n' :: rest) := by
      rw [hmark, scanComment, htake, hdrop]
    rw [List.cons_append, List.cons_append, lex_of_lexeme hscan, lex_lineEnd]
    rfl
  | name s => cases h
  | number n => cases h
  | text t => cases h
  | opening => cases h
  | closing => cases h

/-! ### A document -/

/-- What a line holds: a request or a comment. -/
inductive Entry where
  /-- The call of a request. -/
  | request (c : Command)
  /-- A comment, as a token and as it is recorded. -/
  | comment (l : Lexeme) (r : Record)

namespace Entry

/-- The command that an entry issues. -/
def command : Entry → Command
  | .request c => c
  | .comment _ r => r.command

/-- The tokens of an entry. -/
def lexemes : Entry → List Lexeme
  | .request c => requestLexemes c
  | .comment l _ => [l]

/-- The tokens of an entry, all on one line. -/
def tokens (line : Int) (e : Entry) : List Token := e.lexemes.map fun l => ⟨l, line⟩

end Entry

/-- The tokens of entries, each on a line of its own. -/
def documentTokens (line : Int) : List Entry → List Token
  | [] => []
  | e :: es => e.tokens line ++ documentTokens (line + 1) es

/-- **Lines are read one after the other.** -/
theorem lex_document {lines : List Text} {es : List Entry}
    (h : List.Forall₂ (fun t e => ReadsAs t e.lexemes) lines es) (line : Int) :
    lex line (lines.flatMap fun t => t ++ [.char '\n'])
      = (documentTokens line es).map Lexed.token := by
  induction h generalizing line with
  | nil =>
    rw [List.flatMap_nil, lex]
    rfl
  | @cons t e lines es ht _ ih =>
    rw [List.flatMap_cons, List.append_assoc, List.singleton_append, ht line, ih]
    simp [documentTokens, Entry.tokens]

/-- What is read without trouble says what its tokens say. -/
theorem events_of_lex {d : Declarations} {t : Text} {ts : List Token}
    (h : lex 1 t = ts.map Lexed.token) : events d t = tokenEvents d ts := by
  have htokens : tokensOf (ts.map Lexed.token) = ts := by
    rw [tokensOf, List.filterMap_map]
    exact List.filterMap_some
  have htroubles : troubleEvents (ts.map Lexed.token) = [] := by
    rw [troubleEvents, List.filterMap_map, List.filterMap_eq_nil_iff]
    exact fun _ _ => rfl
  rw [events, h, htokens, htroubles, List.nil_append]

/-! ### The requests of a document -/

/-- Tokens that are no names go to the request before them. -/
theorem split_append {us : List Token} (h : ∀ u ∈ us, ∀ s, u.lexeme ≠ .name s)
    (ts : List Token) : split (us ++ ts) = (us ++ (split ts).1, (split ts).2) := by
  induction us with
  | nil => rfl
  | cons u us ih =>
    rw [List.forall_mem_cons] at h
    obtain ⟨l, line⟩ := u
    rw [List.cons_append, split, ih h.2]
    cases l with
    | name s => exact absurd rfl (h.1 s)
    | _ => rfl

/-- The tokens of operands, all on one line. -/
def operandTokens (line : Int) (ops : List Operand) : List Token :=
  (ops.flatMap Operand.lexemes).map fun l => ⟨l, line⟩

/-- The tokens of operands are neither comments nor names. -/
theorem of_mem_operandTokens {line : Int} {ops : List Operand} {t : Token}
    (h : t ∈ operandTokens line ops) :
    recordOf? t.lexeme = none ∧ ∀ s, t.lexeme ≠ .name s := by
  have hscalar : ∀ s : Scalar, recordOf? s.lexeme = none ∧ ∀ name, s.lexeme ≠ .name name := by
    rintro (n | t)
    · exact ⟨rfl, nofun⟩
    · exact ⟨rfl, nofun⟩
  obtain ⟨l, hl, rfl⟩ := List.mem_map.1 h
  obtain ⟨op, -, hop⟩ := List.mem_flatMap.1 hl
  rcases op with s | items | _
  · obtain rfl := List.mem_singleton.1 hop
    exact hscalar s
  · rcases List.mem_cons.1 hop with rfl | hop
    · exact ⟨rfl, nofun⟩
    · rcases List.mem_append.1 hop with hop | hop
      · obtain ⟨s, -, rfl⟩ := List.mem_map.1 hop
        exact hscalar s
      · obtain rfl := List.mem_singleton.1 hop
        exact ⟨rfl, nofun⟩
  · cases hop

theorem arrayOperands_scalars (line : Int) (items ss : List Scalar) (ts : List Token) :
    arrayOperands line items
        ((ss.map Scalar.lexeme ++ [Lexeme.closing]).map (fun l => ⟨l, line⟩) ++ ts)
      = (.array (items ++ ss), line) :: operands ts := by
  induction ss generalizing items with
  | nil => simp [arrayOperands]
  | cons s ss ih =>
    have hnext : arrayOperands line items
        (((s :: ss).map Scalar.lexeme ++ [Lexeme.closing]).map (fun l => ⟨l, line⟩) ++ ts)
          = arrayOperands line (items ++ [s])
            ((ss.map Scalar.lexeme ++ [Lexeme.closing]).map (fun l => ⟨l, line⟩) ++ ts) := by
      rcases s with n | t <;> rfl
    rw [hnext, ih, List.append_assoc, List.singleton_append]

/-- **The tokens of operands are these operands again.** -/
theorem operands_operandTokens {ops : List Operand} (h : ∀ op ∈ ops, op ≠ .broken) (line : Int)
    (ts : List Token) :
    operands (operandTokens line ops ++ ts) = (ops.map fun op => (op, line)) ++ operands ts := by
  induction ops with
  | nil => rfl
  | cons op ops ih =>
    rw [List.forall_mem_cons] at h
    rw [operandTokens, List.flatMap_cons, List.map_append, List.append_assoc, List.map_cons,
      List.cons_append, ← ih h.2]
    rcases op with (n | t) | items | _
    · rfl
    · rfl
    · exact arrayOperands_scalars line [] items _
    · exact absurd rfl h.1

/-- The comments behind operands. -/
theorem commentEvents_operandTokens (line : Int) (ops : List Operand) (ts : List Token) :
    commentEvents (operandTokens line ops ++ ts) = commentEvents ts := by
  have hnone : recordsOf (operandTokens line ops) = [] :=
    List.filterMap_eq_nil_iff.2 fun u hu => (of_mem_operandTokens hu).1
  rw [recordsOf] at hnone
  rw [commentEvents, recordsOf, List.filterMap_append, hnone, List.nil_append]
  rfl

/-- A document that begins with a comment. -/
theorem split_comment {l : Lexeme} {r : Record} (hr : recordOf? l = some r) (line : Int)
    (es : List Entry) : split (documentTokens line (.comment l r :: es))
      = (⟨l, line⟩ :: (split (documentTokens (line + 1) es)).1,
        (split (documentTokens (line + 1) es)).2) := by
  have hname : ∀ u ∈ [(⟨l, line⟩ : Token)], ∀ s, u.lexeme ≠ .name s := by
    rintro u hu s hs
    obtain rfl := List.mem_singleton.1 hu
    cases hs
    cases hr
  exact split_append hname (documentTokens (line + 1) es)

/-- **A document that begins with a request**: the operands and the comments on the lines
below make its body. -/
theorem split_request (c : Command) (line : Int) (es : List Entry) :
    split (documentTokens line (.request c :: es))
      = ([], ⟨c.proc, line,
            operandTokens line c.operands ++ (split (documentTokens (line + 1) es)).1⟩
          :: (split (documentTokens (line + 1) es)).2) := by
  have hdocument : documentTokens line (.request c :: es) = ⟨.name c.proc, line⟩
      :: (operandTokens line c.operands ++ documentTokens (line + 1) es) := rfl
  rw [hdocument, split, split_append fun u hu => (of_mem_operandTokens hu).2]

end SceneReplay.Rib

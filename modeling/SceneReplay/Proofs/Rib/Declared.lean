import Mathlib.Data.List.Nodup
import SceneReplay.Proofs.Rib.Called

/-!
# Types of parameters over many texts

A reader is given one text after the other, and what one text declares holds in the texts after it.
So the type of a parameter is a matter of history: it depends on all the commands that were issued
before the one that it belongs to (`SceneReplay.Rib.TypedBy`). A token of several words has its type
with it. Any other has the type of its latest declaration, or a standard one, or none
(`SceneReplay.Rib.DeclaredBy`).

At any moment, what is declared is what the commands issued so far declare, one after the other
(`SceneReplay.Rib.declaredIn_eq`). A declaration is entered before its command is issued. Hence this
is so also if a sink refuses the command, and the rest of the text is not read. A request that is
refused enters nothing (`SceneReplay.Rib.requestsEvents_of_refused`).

What is issued when a text is read (`SceneReplay.Rib.issuedBy`) is what takes the chain, with
whatever stages, to what is left of it (`SceneReplay.Rib.issued_read`).

The proof goes over the events of one text (`SceneReplay.Rib.Follows`): every call in them was read
under the declarations of those before it. From there it goes over the texts, and the main result is
`SceneReplay.Rib.typedBy_history`.
-/

namespace SceneReplay

/-- **The call declares the type of a token.** -/
def Command.Declares (c : Command) (token type : Text) : Prop :=
  c.proc = "Declare" ∧ c.args = [.text token, .text type]

/-- **Every parameter of the call has the type that comes with its token**, or else the one that is
declared for it. -/
def Command.TypedUnder (d : Rib.Declarations) (c : Command) : Prop :=
  ∀ q ∈ c.paramItems, q.type = (Param.inlineType? q.token).getD (d.typeOf q.token)

namespace Rib

/-! ### Types by history -/

/-- **The type that is declared for a token** when the given commands have been issued. -/
inductive DeclaredBy (issued : List Command) (token : Text) : Text → Prop
  /-- There is a declaration of the token as it is written. The latest one holds. -/
  | latest {earlier later : List Command} {c : Command} {type : Text}
      (hissued : issued = earlier ++ c :: later) (hdeclares : c.Declares token type)
      (hlater : ∀ c' ∈ later, ∀ other, ¬ c'.Declares token other) : DeclaredBy issued token type
  /-- There is none. The type is the standard one. -/
  | standard {type : Text} (hnone : ∀ c ∈ issued, ∀ other, ¬ c.Declares token other)
      (hstandard : (token, type) ∈ Declarations.standard.entries) : DeclaredBy issued token type
  /-- There is not even a standard one. The type is empty. -/
  | unknown (hnone : ∀ c ∈ issued, ∀ other, ¬ c.Declares token other)
      (hstandard : ∀ type, (token, type) ∉ Declarations.standard.entries) :
      DeclaredBy issued token []

/-- **The type of a parameter** with the given token, in a command that is issued after the given
ones. -/
inductive TypedBy (issued : List Command) (token : Text) : Text → Prop
  /-- A token of several words has its type with it: all words but the last, one space apart. -/
  | inline (hwords : 2 ≤ (Text.words token).length) :
      TypedBy issued token (List.intercalate " " (Text.words token).dropLast)
  /-- Any other has the type that is declared for it. -/
  | declared {type : Text} (hwords : (Text.words token).length < 2)
      (hdeclared : DeclaredBy issued token type) : TypedBy issued token type

/-- Two members of a list that are each the last to have a property are the same. -/
theorem eq_of_last {α : Type} {P : α → Prop} {as bs as' bs' : List α} {a a' : α}
    (h : as ++ a :: bs = as' ++ a' :: bs') (ha : P a) (ha' : P a') (hbs : ∀ b ∈ bs, ¬ P b)
    (hbs' : ∀ b ∈ bs', ¬ P b) : a = a' := by
  rcases List.append_eq_append_iff.1 h with ⟨_ | ⟨c, cs⟩, -, hcs⟩ | ⟨_ | ⟨c, cs⟩, -, hcs⟩
  · exact (List.cons.inj hcs).1
  · exact absurd ha' (hbs a' ((List.cons.inj hcs).2 ▸ List.mem_append_right cs List.mem_cons_self))
  · exact (List.cons.inj hcs).1.symm
  · exact absurd ha (hbs' a ((List.cons.inj hcs).2 ▸ List.mem_append_right cs List.mem_cons_self))

section Types

variable {issued : List Command} {token type type' : Text}

theorem type_unique_of_declares {c : Command} (h : c.Declares token type)
    (h' : c.Declares token type') : type = type' := by
  have hargs := h.2.symm.trans h'.2
  simpa using hargs

/-- The standard type of a token is only one. -/
theorem type_unique_of_standard (h : (token, type) ∈ Declarations.standard.entries)
    (h' : (token, type') ∈ Declarations.standard.entries) : type = type' := by
  have hnodup : (Declarations.standard.entries.map Prod.fst).Nodup := by decide +kernel
  exact congrArg Prod.snd (List.inj_on_of_nodup_map hnodup h h' rfl)

/-- **A token has one declared type.** -/
theorem DeclaredBy.unique (h : DeclaredBy issued token type) (h' : DeclaredBy issued token type') :
    type = type' := by
  rcases h with @⟨earlier, later, c, _, hissued, hdeclares, hlater⟩ | ⟨hnone, hstandard⟩ |
    ⟨hnone, hstandard⟩
  · have hmem : c ∈ issued := hissued ▸ List.mem_append_right _ List.mem_cons_self
    rcases h' with ⟨hissued', hdeclares', hlater'⟩ | ⟨hnone, -⟩ | ⟨hnone, -⟩
    · obtain rfl := eq_of_last (P := fun c : Command => ∃ type, c.Declares token type)
        (hissued.symm.trans hissued') ⟨_, hdeclares⟩ ⟨_, hdeclares'⟩
        (fun b hb => not_exists.2 (hlater b hb)) (fun b hb => not_exists.2 (hlater' b hb))
      exact type_unique_of_declares hdeclares hdeclares'
    · exact absurd hdeclares (hnone c hmem _)
    · exact absurd hdeclares (hnone c hmem _)
  · rcases h' with ⟨rfl, hdeclares', -⟩ | ⟨-, hstandard'⟩ | ⟨-, hstandard'⟩
    · exact absurd hdeclares' (hnone _ (List.mem_append_right _ List.mem_cons_self) _)
    · exact type_unique_of_standard hstandard hstandard'
    · exact absurd hstandard (hstandard' _)
  · rcases h' with ⟨rfl, hdeclares', -⟩ | ⟨-, hstandard'⟩ | ⟨-, hstandard'⟩
    · exact absurd hdeclares' (hnone _ (List.mem_append_right _ List.mem_cons_self) _)
    · exact absurd hstandard' (hstandard _)
    · rfl

/-- **A parameter has one type.** -/
theorem TypedBy.unique (h : TypedBy issued token type) (h' : TypedBy issued token type') :
    type = type' := by
  rcases h with hwords | ⟨hwords, hdeclared⟩
  · rcases h' with - | ⟨hwords', -⟩
    · rfl
    · omega
  · rcases h' with hwords' | ⟨-, hdeclared'⟩
    · omega
    · exact hdeclared.unique hdeclared'

end Types

/-! ### Declarations after commands -/

/-- The standard declarations, and what commands declare, one after the other. -/
def declarationsAfter (issued : List Command) : Declarations :=
  issued.foldl Declarations.after .standard

theorem declarationsAfter_concat (issued : List Command) (c : Command) :
    declarationsAfter (issued ++ [c]) = (declarationsAfter issued).after c := by
  rw [declarationsAfter, List.foldl_concat, declarationsAfter]

theorem Declarations.after_of_declares {c : Command} {token type : Text}
    (h : c.Declares token type) (d : Declarations) : d.after c = d.declare token type := by
  rw [Declarations.after, declarationOf?_eq_some.2 h]

/-- A command declares nothing of a token that it does not name. -/
theorem Declarations.typeOf_after {c : Command} {token : Text}
    (h : ∀ type, ¬ c.Declares token type) (d : Declarations) :
    (d.after c).typeOf token = d.typeOf token := by
  unfold Declarations.after
  split
  · rename_i other type hc
    refine typeOf_declare_of_ne d type ?_
    rintro rfl
    exact h type (declarationOf?_eq_some.1 hc)
  · rfl

/-- One more command does not change the type of a token that it does not declare. -/
theorem DeclaredBy.concat {issued : List Command} {token type : Text}
    (h : DeclaredBy issued token type) {c : Command} (hc : ∀ other, ¬ c.Declares token other) :
    DeclaredBy (issued ++ [c]) token type := by
  have hconcat : ∀ cs : List Command, (∀ c ∈ cs, ∀ other, ¬ c.Declares token other) →
      ∀ c' ∈ cs ++ [c], ∀ other, ¬ c'.Declares token other := fun cs hcs =>
    List.forall_mem_append.2 ⟨hcs, List.forall_mem_singleton.2 hc⟩
  cases h with
  | @latest earlier later c' _ hissued hdeclares hlater =>
    have hissued' : issued ++ [c] = earlier ++ c' :: (later ++ [c]) := by
      rw [hissued, List.append_assoc, List.cons_append]
    exact .latest hissued' hdeclares (hconcat later hlater)
  | standard hnone hstandard => exact .standard (hconcat issued hnone) hstandard
  | unknown hnone hstandard => exact .unknown (hconcat issued hnone) hstandard

theorem declaredBy_standard (token : Text) :
    DeclaredBy [] token (Declarations.standard.typeOf token) := by
  rw [Declarations.typeOf]
  rcases hlookup : Declarations.standard.entries.lookup token with _ | type
  · refine .unknown (List.forall_mem_nil _) fun type hmem => ?_
    exact absurd rfl (bne_iff_ne.1 (List.lookup_eq_none_iff.1 hlookup _ hmem))
  · obtain ⟨before, after, hentries, -⟩ := List.lookup_eq_some_iff.1 hlookup
    refine .standard (List.forall_mem_nil _) ?_
    rw [hentries]
    exact List.mem_append_right before List.mem_cons_self

/-- **What is declared after commands** is told by their history, token by token. -/
theorem declaredBy_declarationsAfter (issued : List Command) (token : Text) :
    DeclaredBy issued token ((declarationsAfter issued).typeOf token) := by
  induction issued using List.reverseRecOn with
  | nil => exact declaredBy_standard token
  | append_singleton issued c ih =>
    rw [declarationsAfter_concat]
    by_cases hc : ∃ type, c.Declares token type
    · obtain ⟨type, hdeclares⟩ := hc
      rw [Declarations.after_of_declares hdeclares, Declarations.typeOf_declare_self]
      exact .latest rfl hdeclares (List.forall_mem_nil _)
    · rw [not_exists] at hc
      rw [Declarations.typeOf_after hc]
      exact ih.concat hc

/-! ### Types of calls -/

/-- **Parameters that are read** have their types. -/
theorem type_of_readParamItems {declared : Text → Text} {ops : List Operand} {items : List Param}
    (hwhole : ∀ op ∈ ops, op ≠ .broken) (h : readParamItems declared ops = .ok items) :
    ∀ q ∈ items, q.type = (Param.inlineType? q.token).getD (declared q.token) := by
  fun_induction readParamItems declared ops generalizing items with
  | case1 token value rest reasons hparse => cases h
  | case2 token value rest q hparse ih =>
    simp only [List.forall_mem_cons] at hwhole
    rcases hrest : readParamItems declared rest with e | qs
    · rw [hrest] at h
      cases h
    · rw [hrest] at h
      obtain rfl : q :: qs = items := Except.ok.inj h
      obtain ⟨-, rfl, htype, -⟩ := (parse_toValue hwhole.2.1).1 hparse
      exact List.forall_mem_cons.2 ⟨htype, ih hwhole.2.2 hrest⟩
  | case3 found value rest hfound => cases h
  | case4 ops hnone hfew =>
    cases h
    exact List.forall_mem_nil _

/-- **A call that is read** while some declarations hold has its types from them. -/
theorem typedUnder_of_readCall {d : Declarations} {p : Procedure} {ops : List Operand} {c : Command}
    (hwhole : ∀ op ∈ ops, op ≠ .broken) (h : readCall d.typeOf p ops = .ok c) :
    c.TypedUnder d := by
  unfold readCall at h
  obtain ⟨⟨args, rest⟩, hargs, h⟩ := bind_eq_ok.1 h
  have hrest := subset_of_readPositional hargs
  simp only at h
  split at h
  · obtain ⟨ps, hps, ⟨⟩⟩ := bind_eq_ok.1 h
    exact type_of_readParamItems (fun op hop => hwhole op (hrest hop)) (readParams_eq_ok.1 hps).2
  · split at h
    · cases h
      exact List.forall_mem_nil _
    · cases h

/-- **Each of some commands has its types** from what is declared when the ones before it have been
issued. -/
def AllTyped : Declarations → List Command → Prop
  | _, [] => True
  | d, c :: cs => c.TypedUnder d ∧ AllTyped (d.after c) cs

theorem allTyped_append {d : Declarations} {cs cs' : List Command} :
    AllTyped d (cs ++ cs') ↔ AllTyped d cs ∧ AllTyped (cs.foldl Declarations.after d) cs' := by
  induction cs generalizing d with
  | nil => exact (and_iff_right trivial).symm
  | cons c cs ih => rw [List.cons_append, AllTyped, AllTyped, ih, and_assoc, List.foldl_cons]

theorem AllTyped.typedUnder {d : Declarations} {cs : List Command} (h : AllTyped d cs) {i : Nat}
    {c : Command} (hc : cs[i]? = some c) :
    c.TypedUnder ((cs.take i).foldl Declarations.after d) := by
  induction cs generalizing d i with
  | nil => cases hc
  | cons c' cs ih =>
    rcases i with _ | i
    · cases hc
      exact h.1
    · exact ih h.2 hc

/-- A call whose types come from declarations has them from the history of these. -/
theorem typedBy_of_typedUnder {issued : List Command} {c : Command}
    (h : c.TypedUnder (declarationsAfter issued)) :
    ∀ q ∈ c.paramItems, TypedBy issued q.token q.type := by
  intro q hq
  rw [h q hq, Param.inlineType?]
  split
  · rename_i hwords
    exact .inline hwords
  · rename_i hwords
    exact .declared (Nat.lt_of_not_ge hwords) (declaredBy_declarationsAfter issued q.token)

/-! ### Commands that are issued -/

section Issued

variable {σ : Type} [Sink σ]

/-- **The commands that are issued when events are played**, in their order. If a fault stops one
of them, it is the last. -/
def issuedBy (entry : Nat) : List Event → Chain σ → List Command
  | [], _ => []
  | .report r :: evs, ch => issuedBy entry evs (ch.addReport r)
  | .declare _ _ :: evs, ch => issuedBy entry evs ch
  | .request c :: evs, ch =>
    match ch.issue entry c with
    | (ch, none) => c :: issuedBy entry evs ch
    | (_, some _) => [c]
  | .comment c :: evs, ch =>
    match ch.issue entry c with
    | (ch, none) => c :: issuedBy entry evs ch
    | (_, some _) => [c]
  | .fault _ :: _, _ => []

/-- **Commands issued at a place of a chain, one after the other**, with reports between them: the
chain before, the commands, the chain afterwards, and what stopped them, if anything did. -/
inductive Issued (entry : Nat) : Chain σ → List Command → Chain σ → Option Fault → Prop
  /-- There is no command left. -/
  | ended (ch : Chain σ) : Issued entry ch [] ch none
  /-- A fault of the text ends it. -/
  | stopped (ch : Chain σ) (f : Fault) : Issued entry ch [] ch (some f)
  /-- A report goes into the log. -/
  | reported {ch ch' : Chain σ} {cs : List Command} {fault : Option Fault} (r : Report)
      (hrest : Issued entry (ch.addReport r) cs ch' fault) : Issued entry ch cs ch' fault
  /-- A command is issued, and nothing stops it. -/
  | issued {ch ch₁ ch₂ : Chain σ} {c : Command} {cs : List Command} {fault : Option Fault}
      (hissue : ch.issue entry c = (ch₁, none)) (hrest : Issued entry ch₁ cs ch₂ fault) :
      Issued entry ch (c :: cs) ch₂ fault
  /-- A command is issued, and a fault stops it. It is the last. -/
  | refused {ch ch₁ : Chain σ} {c : Command} {f : Fault}
      (hissue : ch.issue entry c = (ch₁, some f)) : Issued entry ch [c] ch₁ (some f)

/-- **What is issued when events are played**, into any chain and at any place of it, is what takes
the chain to what is left of it. -/
theorem issued_play (entry : Nat) (evs : List Event) (ch : Chain σ) (d : Declarations) (n : Nat) :
    Issued entry ch (issuedBy entry evs ch) (play entry evs ch d n).chain
      (play entry evs ch d n).fault := by
  fun_induction play entry evs ch d n with
  | case1 ch => exact .ended ch
  | case2 r evs ch d n ih => exact .reported r ih
  | case3 token type evs ch d n ih => exact ih
  | case4 c evs ch d n ch₁ hissue ih | case6 c evs ch d n ch₁ hissue ih =>
    rw [issuedBy, hissue]
    exact .issued hissue ih
  | case5 c evs ch d n ch₁ f hissue | case7 c evs ch d n ch₁ f hissue =>
    rw [issuedBy, hissue]
    exact .refused hissue
  | case8 f evs ch d n => exact .stopped ch f

/-- **What is issued for a text** takes the chain that the text is read into to what is left of
it. -/
theorem issued_read (ch : Chain σ) (entry : Nat) (d : Declarations) (t : Text) :
    Issued entry ch (issuedBy entry (events d t) ch) (read ch entry d t).chain
      (read ch entry d t).fault :=
  issued_play entry (events d t) ch d 0

/-- What is issued is among the events. -/
theorem issuedBy_subset (entry : Nat) (evs : List Event) (ch : Chain σ) :
    issuedBy entry evs ch ⊆ evs.filterMap Event.command? := by
  fun_induction issuedBy entry evs ch with
  | case1 | case8 => nofun
  | case2 _ _ _ ih | case3 _ _ _ _ ih => exact ih
  | case4 c _ _ _ _ ih | case6 c _ _ _ _ ih => exact List.cons_subset_cons c ih
  | case5 | case7 => exact List.cons_subset_cons _ (List.nil_subset _)

/-- A sink without stages before it takes what is issued, the last command included, which it may
refuse. -/
theorem Issued.sink {s : σ} {log : Log} {cs : List Command} {ch : Chain σ} {fault : Option Fault}
    (h : Issued 0 ⟨[], s, log⟩ cs ch fault) (hcs : ∀ c ∈ cs, c.reissue = .ok c.frozen) :
    ch.sink = deliver s (cs.map Command.frozen) := by
  generalize hstart : (⟨[], s, log⟩ : Chain σ) = start at h
  induction h generalizing s log with
  | ended | stopped =>
    subst hstart
    rfl
  | reported r _ ih =>
    subst hstart
    exact ih hcs rfl
  | issued hissue _ ih =>
    subst hstart
    rw [List.forall_mem_cons] at hcs
    rw [issue_of_transparent hcs.1 (transparent_nil _)] at hissue
    obtain ⟨rfl, -⟩ := Prod.mk.inj hissue
    exact ih hcs.2 rfl
  | refused hissue =>
    subst hstart
    rw [issue_of_transparent (hcs _ List.mem_cons_self) (transparent_nil _)] at hissue
    obtain ⟨rfl, -⟩ := Prod.mk.inj hissue
    rfl

/-- What is issued for a text is what a sink without stages before it takes. -/
theorem sink_read (s : σ) (log : Log) (d : Declarations) (t : Text) :
    (read ⟨[], s, log⟩ 0 d t).chain.sink
      = deliver s ((issuedBy 0 (events d t) ⟨[], s, log⟩).map Command.frozen) :=
  (issued_read ⟨[], s, log⟩ 0 d t).sink fun c hc =>
    (isCalled_of_events c (issuedBy_subset 0 _ _ hc)).isWellFormed.reissue_eq

theorem issuedBy_callEvents (entry : Nat) (c : Command) (evs : List Event) (ch : Chain σ) :
    issuedBy entry (callEvents c ++ evs) ch = issuedBy entry (.request c :: evs) ch := by
  unfold callEvents
  split <;> rfl

/-- A declaration is entered before its command is issued. -/
theorem play_callEvents (entry : Nat) (c : Command) (evs : List Event) (ch : Chain σ)
    (d : Declarations) (n : Nat) :
    play entry (callEvents c ++ evs) ch d n = play entry (.request c :: evs) ch (d.after c) n := by
  unfold callEvents Declarations.after
  split <;> rfl

/-! ### Events in their order -/

/-- **Events in which every call was read under the declarations of those before it.** -/
inductive Follows : Declarations → List Event → Prop
  | nil (d : Declarations) : Follows d []
  | report {d : Declarations} {evs : List Event} (r : Report) (h : Follows d evs) :
      Follows d (.report r :: evs)
  | fault {d : Declarations} {evs : List Event} (f : Fault) (h : Follows d evs) :
      Follows d (.fault f :: evs)
  | comment {d : Declarations} {evs : List Event} (r : Record) (h : Follows d evs) :
      Follows d (.comment r.command :: evs)
  | call {d : Declarations} {evs : List Event} {c : Command} (hc : c.TypedUnder d)
      (h : Follows (d.after c) evs) : Follows d (callEvents c ++ evs)

section Follows

variable {d : Declarations} {evs : List Event}

theorem Follows.lead (h : Follows d evs) (ts : List Token) :
    Follows d (ts.map leadEvent ++ evs) := by
  induction ts with
  | nil => exact h
  | cons t ts ih =>
    rw [List.map_cons, List.cons_append, leadEvent]
    split
    · exact .comment _ ih
    · exact .report _ ih

theorem Follows.comments (h : Follows d evs) (ts : List Token) :
    Follows d (commentEvents ts ++ evs) := by
  rw [commentEvents]
  induction recordsOf ts with
  | nil => exact h
  | cons r rs ih => exact .comment r ih

/-- **One request**: its events follow, and what it declares holds from then on. -/
theorem Follows.request {r : Request} (h : Follows (declaredBy d (requestEvents d r)) evs) :
    Follows d (requestEvents d r ++ evs) := by
  have hleads := leadsTo_requestEvents d r
  generalize requestEvents d r = es at hleads h ⊢
  cases hleads with
  | version => exact h
  | refused => exact .report _ h
  | stopped => exact .fault _ h
  | called _ _ hwhole hread =>
    rw [declaredBy_callEvents] at h
    exact .call (typedUnder_of_readCall (ne_broken_of_firstBroken? hwhole) hread) h

theorem Follows.troubles (h : Follows d evs) (steps : List Lexed) :
    Follows d (troubleEvents steps ++ evs) := by
  induction steps with
  | nil => exact h
  | cons step steps ih =>
    rcases step with t | ⟨_ | _ | _, line, remaining⟩
    · exact ih
    · exact .report _ ih
    · exact .report _ ih
    · exact .fault _ ih

theorem follows_requests (d : Declarations) (rs : List Request) :
    Follows d (requestsEvents d rs) := by
  induction rs generalizing d with
  | nil => exact .nil d
  | cons r rs ih => exact ((ih _).comments r.body).request

/-- **The events of a text follow.** -/
theorem follows_events (d : Declarations) (t : Text) : Follows d (events d t) := by
  have hrequests := follows_requests d (split (tokensOf (lex 1 t))).2
  exact (hrequests.lead (split (tokensOf (lex 1 t))).1).troubles (lex 1 t)

/-- **What is issued has its types** from the declarations before, those of the text included. -/
theorem Follows.allTyped (h : Follows d evs) (entry : Nat) (ch : Chain σ) :
    AllTyped d (issuedBy entry evs ch) := by
  induction h generalizing ch with
  | nil | fault => trivial
  | report r _ ih => exact ih _
  | @comment d evs r _ ih =>
    have hrecord : r.command.TypedUnder d := List.forall_mem_nil _
    rw [issuedBy]
    split
    · exact ⟨hrecord, ih _⟩
    · exact ⟨hrecord, trivial⟩
  | call hc _ ih =>
    rw [issuedBy_callEvents, issuedBy]
    split
    · exact ⟨hc, ih _⟩
    · exact ⟨hc, trivial⟩

/-- **What is declared when a text has been read**, to its end or not, is what was issued. -/
theorem Follows.declarations (h : Follows d evs) (entry : Nat) (ch : Chain σ) (n : Nat) :
    (play entry evs ch d n).declarations
      = (issuedBy entry evs ch).foldl Declarations.after d := by
  induction h generalizing ch n with
  | nil | fault => rfl
  | report r _ ih => exact ih _ n
  | @comment d evs r _ ih =>
    rcases hissue : ch.issue entry r.command with ⟨ch', _ | f⟩
    · simp only [play, issuedBy, hissue]
      exact ih ch' n
    · simp only [play, issuedBy, hissue]
      rfl
  | @call d evs c _ _ ih =>
    rw [play_callEvents, issuedBy_callEvents]
    rcases hissue : ch.issue entry c with ⟨ch', _ | f⟩
    · simp only [play, issuedBy, hissue]
      exact ih ch' (n + 1)
    · simp only [play, issuedBy, hissue]
      rfl

/-- **A request that is refused** leaves its report and the comments inside it. All else is as if
it were not there. -/
theorem requestsEvents_of_refused {before after : List Request} {r : Request} {report : Report}
    (h : requestEvents (declaredBy d (requestsEvents d before)) r = [.report report]) :
    ∃ evs evs', requestsEvents d (before ++ r :: after)
        = evs ++ .report report :: (commentEvents r.body ++ evs') ∧
      requestsEvents d (before ++ after) = evs ++ evs' := by
  refine ⟨_, _, ?_, requestsEvents_append d before after⟩
  rw [requestsEvents_append, requestsEvents, h]
  rfl

end Follows

/-! ### One text after the other -/

/-- **A text that a reader is given**, and where its commands go: into a chain, which may be what
the text before has left, at one of its stages. -/
structure Input (σ : Type) where
  /-- The text. -/
  text : Text
  /-- The chain as it is when the text is read. -/
  chain : Chain σ
  /-- The place of the stage that the commands enter at. -/
  entry : Nat

/-- **What is declared when a reader has been given texts**, one after the other, whether faults
stopped some of them or not. -/
def declaredIn (d : Declarations) (inputs : List (Input σ)) : Declarations :=
  inputs.foldl (fun d i => (read i.chain i.entry d i.text).declarations) d

/-- **The commands that a reader issues** when it is given texts one after the other. -/
def issuedIn (d : Declarations) : List (Input σ) → List Command
  | [] => []
  | i :: inputs => issuedBy i.entry (events d i.text) i.chain
      ++ issuedIn (read i.chain i.entry d i.text).declarations inputs

section Inputs

variable {d : Declarations} {inputs : List (Input σ)}

theorem declarations_read (d : Declarations) (i : Input σ) :
    (read i.chain i.entry d i.text).declarations
      = (issuedBy i.entry (events d i.text) i.chain).foldl Declarations.after d :=
  (follows_events d i.text).declarations i.entry i.chain 0

/-- **What is declared** is what was issued, over all texts. -/
theorem declaredIn_eq : declaredIn d inputs = (issuedIn d inputs).foldl Declarations.after d := by
  induction inputs generalizing d with
  | nil => rfl
  | cons i inputs ih =>
    rw [issuedIn, List.foldl_append, ← declarations_read, ← ih]
    rfl

/-- **All that is issued has its types** from what was issued before, over all texts. -/
theorem allTyped_issuedIn : AllTyped d (issuedIn d inputs) := by
  induction inputs generalizing d with
  | nil => trivial
  | cons i inputs ih =>
    rw [issuedIn, allTyped_append, ← declarations_read]
    exact ⟨(follows_events d i.text).allTyped i.entry i.chain, ih⟩

end Inputs

/-- **Types are told by history.** Let a reader be given any texts. A parameter of a command that it
issues has the type that its token and the commands before give it, and no other. What is declared
for a token in the end is what all the commands declare for it. A request that is refused has no
part in this: without it nothing but its report and its comments would be missing. -/
theorem typedBy_history (inputs : List (Input σ)) :
    (∀ k c, (issuedIn .standard inputs)[k]? = some c → ∀ q ∈ c.paramItems, ∀ type,
        q.type = type ↔ TypedBy ((issuedIn .standard inputs).take k) q.token type) ∧
      (∀ token type, (declaredIn .standard inputs).typeOf token = type ↔
        DeclaredBy (issuedIn .standard inputs) token type) ∧
      ∀ d before r after report,
        requestEvents (declaredBy d (requestsEvents d before)) r = [.report report] →
          ∃ evs evs', requestsEvents d (before ++ r :: after)
              = evs ++ .report report :: (commentEvents r.body ++ evs') ∧
            requestsEvents d (before ++ after) = evs ++ evs' := by
  refine ⟨fun k c hc q hq type => ?_, fun token type => ?_,
    fun d before r after report hrefused => requestsEvents_of_refused hrefused⟩
  · have htyped := typedBy_of_typedUnder (allTyped_issuedIn.typedUnder hc) q hq
    exact ⟨fun heq => heq ▸ htyped, htyped.unique⟩
  · have hdeclared := declaredBy_declarationsAfter (issuedIn .standard inputs) token
    rw [declarationsAfter, ← declaredIn_eq] at hdeclared
    exact ⟨fun heq => heq ▸ hdeclared, hdeclared.unique⟩

end Issued

/-- Three texts: a declaration inside the definition of an archive and two that are refused; two
declarations, read into a renderer that refuses every call, the first of a token with a space in it;
and a call with parameters of all sorts. -/
def threeTexts : List (Input Endpoint) :=
  let recorder : Chain Endpoint :=
    (Chain.ofSink (.collector .empty)).addStage (.archive (.fresh 4 true))
  [⟨"ArchiveBegin \"a\" Declare \"Kd\" \"int\" ArchiveEnd Declare \"Ka\" Declare \"Ka\" \"int\" 7",
      recorder, 0⟩,
    ⟨"Declare \" y\" \"float\" Declare \"Ks\" \"color\"", .ofSink .bare, 0⟩,
    ⟨"Surface \"matte\" \"Kd\" 1 \"Ka\" 1 \"Ks\" 1 \" y\" 1 \"uniform\\tpoint  x\" 1 \"z\" 1",
      recorder, 0⟩]

theorem typedBy_history_threeTexts :
    (issuedIn .standard threeTexts).map Command.proc
        = ["ArchiveBegin", "Declare", "ArchiveEnd", "Declare", "Surface"] ∧
      (∃ c, (issuedIn .standard threeTexts)[4]? = some c ∧
        c.paramItems.map Param.type
          = (["int", "uniform float", "uniform float", "float", "uniform point", ""] : List Text) ∧
        ∀ q ∈ c.paramItems, TypedBy ((issuedIn .standard threeTexts).take 4) q.token q.type) ∧
      DeclaredBy (issuedIn .standard threeTexts) " y" "float" := by
  obtain ⟨htyped, hdeclared, -⟩ := typedBy_history threeTexts
  have htypes : (issuedIn .standard threeTexts)[4]?.map (fun c => c.paramItems.map Param.type)
      = some (["int", "uniform float", "uniform float", "float", "uniform point", ""] :
        List Text) := by
    decide +kernel
  obtain ⟨c, hc, hparams⟩ := Option.map_eq_some_iff.1 htypes
  exact ⟨by decide +kernel, ⟨c, hc, hparams, fun q hq => (htyped 4 c hc q hq _).1 rfl⟩,
    (hdeclared _ _).1 (by decide +kernel)⟩

end Rib

end SceneReplay

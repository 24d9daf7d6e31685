import SceneReplay.CommandLine.Run
import SceneReplay.Proofs.Rib.Completion

/-!
# Saved expansions

An expanded scene that was written into a file can be expanded again from there, and comes out
as it is (`SceneReplay.CommandLine.expand_saved`). When a file is read, every carriage return
becomes a line feed (`SceneReplay.Text.unified`), so there must be none in what was written. But
a quoted text may spell one, and it is written as it is: then the text ends in the middle of its
line when it is read again (`SceneReplay.CommandLine.expand_saved_return`).
-/

namespace SceneReplay

/-! ### Line ends of a file -/

namespace Text

/-- A text as it is read from a file: every carriage return, with the line feed after it if there
is one, becomes a line feed. -/
def unified : Text → Text
  | [] => []
  | .char '\r' :: .char '\n' :: cs => .char '\n' :: unified cs
  | c :: cs => (if c = .char '\r' then .char '\n' else c) :: unified cs

/-- The text of a file is read like this. -/
theorem unified_ofChars (cs : List Char) : unified (ofChars cs) = ofChars (unifyNewlines cs) := by
  fun_induction unifyNewlines cs with
  | case1 => rfl
  | case2 cs ih =>
    rw [ofChars, List.map_cons, List.map_cons, unified]
    exact congrArg (CodePoint.char '\n' :: ·) ih
  | case3 c cs hpair ih =>
    have hne : ∀ ds : Text, CodePoint.char c = .char '\r' →
        ofChars cs = CodePoint.char '\n' :: ds → False := by
      intro ds hc hds
      rcases cs with _ | ⟨d, cs⟩
      · cases hds
      · obtain ⟨hd, -⟩ := List.cons.inj hds
        cases hd
        cases hc
        exact hpair cs rfl rfl
    have hhead : (if CodePoint.char c = .char '\r' then CodePoint.char '\n' else .char c)
        = .char (if c = '\r' then '\n' else c) := by
      by_cases hc : c = '\r' <;> simp [hc]
    have hcons : ofChars (c :: cs) = .char c :: ofChars cs := rfl
    rw [hcons, unified, hhead, ih]
    · rfl
    · exact hne

/-- Without a carriage return nothing changes. -/
theorem unified_of_not_mem {t : Text} (h : .char '\r' ∉ t) : unified t = t := by
  fun_induction unified t with
  | case1 => rfl
  | case2 cs ih => exact absurd List.mem_cons_self h
  | case3 c cs _ ih =>
    rw [List.mem_cons, not_or] at h
    rw [if_neg fun hc => h.1 hc.symm, ih h.2]

end Text

namespace CommandLine

open Rib

/-- What is read of a file is what its bytes spell, with the line ends made one. -/
theorem exists_of_decodeUtf8 {bytes : List UInt8} {written : String}
    (h : Text.decodeUtf8 bytes = .ok written) (path : String) :
    ∃ text, readFile path bytes = .ok text ∧
      Text.ofString text = Text.unified (Text.ofString written) := by
  refine ⟨String.ofList (Text.unifyNewlines written.toList), by rw [readFile, h], ?_⟩
  rw [Text.ofString, String.toList_ofList, Text.ofString, Text.unified_ofChars]

/-! ### Expanding what was saved -/

theorem exists_filterFor_of_expand {env : Environment} {options : ExpandOptions} {t : Text}
    {x : Expanded} (h : expand env options t = .ok x) : ∃ f, filterFor env options = .ok f := by
  obtain ⟨settings, hsettings, h⟩ := bind_eq_ok.1 h
  obtain ⟨f, hf, -⟩ := bind_eq_ok.1 h
  exact ⟨f, bind_eq_ok.2 ⟨settings, hsettings, hf⟩⟩

/-- What is left of an expanded scene when it is expanded again: nothing but its file. -/
def settled (rib : Text) (requests : Nat) : Expanded :=
  ⟨rib, requests, [], ⟨.idle, none, [], [], some "end of input"⟩⟩

/-- **A saved expansion is expanded to itself.** Let a scene without requests for records and
without infinite doubles be expanded, and let there be no carriage return in the file that comes
out. With its line ends made one, this file is expanded to itself, under all settings, without a
report and without a definition. If the scene was of characters, as it is when it comes from a
file, then the same goes for a run of the program on any bytes that spell the expanded scene. -/
theorem expand_saved {env env' : Environment} {options options' : ExpandOptions} {t : Text}
    {x : Expanded} {g : ArchiveFilter} (hx : expand env options t = .ok x)
    (hg : filterFor env' options' = .ok g)
    (hrecord : ∀ r ∈ (split (tokensOf (lex 1 t))).2, r.name ≠ "ArchiveRecord")
    (hfinite : ∀ u ∈ tokensOf (lex 1 t), ∀ s ∈ scalarOf? u.lexeme, s.isInfinite = false)
    (hreturn : .char '\r' ∉ x.rib) :
    ∃ n, expand env' options' (Text.unified x.rib) = .ok (settled x.rib n) ∧
      (t.OfCharacters → ∀ (files : Files) (path : String) (bytes : List UInt8)
        (output : Option String) (stats : Bool), Text.decodeUtf8 bytes = .ok x.rib.display →
          runExpand env' files path bytes output options' stats
            = deliver files output (settled x.rib n) stats) := by
  obtain ⟨f, hf⟩ := exists_filterFor_of_expand hx
  have hunified : Text.unified x.rib = x.rib := Text.unified_of_not_mem hreturn
  have hrecorded : ∀ c ∈ calls t, ∀ r, recorded? c = some r ∨ recorded? c.frozen = some r →
      (r.1 = "comment" ∨ r.1 = "structure") ∧ .char '\n' ∉ r.2 :=
    fun c hc _ hr => (origin_of_events c hc).of_recorded isLexed_of_mem_tokensOf hrecord hr
  -- Whatever is written was called for.
  have hsent : ∀ c ∈ sent f t, ∃ d ∈ calls t, c = d.frozen := by
    obtain ⟨limit, capture, rfl⟩ := exists_fresh_of_filterFor hf
    intro c hc
    obtain ⟨⟨d, hd, -, heq⟩, -⟩ := called_of_mem_sent c hc
    exact ⟨d, hd, heq⟩
  obtain ⟨n, hagain⟩ : ∃ n, expand env' options' x.rib = .ok (settled x.rib n) := by
    refine expand_expanded hf hg hx (fun c hc r hr => (hrecorded c hc r (.inl hr)).1)
      (fun c hc r hr => ?_) fun c hc => ?_
    · obtain ⟨d, hd, rfl⟩ := hsent c hc
      exact (hrecorded d hd r (.inr hr)).2
    · obtain ⟨d, hd, rfl⟩ := hsent c hc
      rw [Command.carriesInfinity_frozen]
      exact finite_of_calls hfinite d hd
  refine ⟨n, hunified.symm ▸ hagain, fun ht files path bytes output stats hbytes => ?_⟩
  obtain ⟨text, hread, htext⟩ := exists_of_decodeUtf8 hbytes path
  rw [(ofCharacters_of_expand ht hf hx).1.ofString_display, hunified] at htext
  rw [runExpand, hread]
  simp only [htext, hagain]

/-- An archive whose shader has a line feed in its name, and a comment. -/
def savedScene : Text :=
  "ArchiveBegin \"a\"\nSurface \"x\\ny\" \"Ks\" 5e-1\nArchiveEnd\nWorldBegin # c\n" ++
    "ReadArchive \"a\"\nWorldEnd\n"

/-- The file that `SceneReplay.CommandLine.savedScene` is expanded to. -/
def savedFile : String :=
  "WorldBegin\n  # c\n  Surface \"x\\ny\" \"Ks\" [0.5]\nWorldEnd\n"

theorem expand_saved_savedScene :
    ∃ x n, expand [] ⟨none, none⟩ savedScene = .ok x ∧ x.rib = savedFile ∧
      expand [] ⟨none, some 1⟩ (Text.unified x.rib) = .ok (settled x.rib n) ∧
      runExpand [] ⟨[], [], []⟩ "out.rib" (savedFile.toList.map fun c => UInt8.ofNat c.toNat) none
          ⟨none, some 1⟩ false
        = .done savedFile [] none := by
  have hrib : (expand [] ⟨none, none⟩ savedScene).toOption.map Expanded.rib
      = some (savedFile : Text) := by decide +kernel
  have hg : filterFor [] ⟨none, some 1⟩ = .ok (.fresh 1 false) := rfl
  rcases hx : expand [] ⟨none, none⟩ savedScene with fault | x
  · rw [hx] at hrib
    cases hrib
  · rw [hx] at hrib
    have hfile : x.rib = savedFile := Option.some.inj hrib
    obtain ⟨n, hagain, hrun⟩ := expand_saved hx hg (by decide +kernel) (by decide +kernel)
      (by rw [hfile]; decide +kernel)
    have hscene : savedScene.OfCharacters :=
      (Text.ofCharacters_ofString _).append (Text.ofCharacters_ofString _)
    have hbytes : Text.decodeUtf8 (savedFile.toList.map fun c => UInt8.ofNat c.toNat)
        = .ok x.rib.display := by
      rw [hfile, Text.display_ofString]
      decide +kernel
    refine ⟨x, n, rfl, hfile, hagain, ?_⟩
    have hprinted : printedText x.rib = savedFile := by
      rw [hfile]
      decide +kernel
    rw [hrun hscene _ _ _ none false hbytes]
    change Outcome.done (printedText x.rib) [] none = _
    rw [hprinted]

/-- A declaration of a name with a carriage return in it, spelt as an escape. -/
def returnScene : Text := "Declare \"a\\rb\" \"float\"\n"

/-- **A name with a carriage return is not read again**: its quoted text ends with the line that
the carriage return has become the end of, and nothing comes out but reports. -/
theorem expand_saved_return :
    Text.unified returnScene = returnScene ∧
      (∀ r ∈ (split (tokensOf (lex 1 returnScene))).2, r.name ≠ "ArchiveRecord") ∧
      (∀ u ∈ tokensOf (lex 1 returnScene), ∀ s ∈ scalarOf? u.lexeme, s.isInfinite = false) ∧
      (expand [] ⟨none, none⟩ returnScene).toOption.map Expanded.rib
        = some ("Declare \"a\rb\" \"float\"\n" : Text) ∧
      (expand [] ⟨none, none⟩ (Text.unified "Declare \"a\rb\" \"float\"\n")).toOption.map
        (fun y => (y.rib, y.reports.length)) = some ([], 5) := by decide +kernel

end CommandLine

end SceneReplay

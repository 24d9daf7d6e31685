import SceneReplay.Proofs.Rib.Completion
import SceneReplay.Proofs.Web.Documented

/-!
# What the service answers

A request to expand a scene is answered with the expanded scene, whatever is wrong with the scene
itself, but for three things (`SceneReplay.Service.respond_expand`): an integer literal with too
many digits, an integer literal that is wanted as a double and is too large for it, and a lone
surrogate in a text that would have to be written (`SceneReplay.Service.Answers`). A scene of
characters without such literals never fails a request.

This holds for every web framework that does what is documented, with the settings of every
environment in which they are valid. The limit on nested replays is never in the way: the settings
and the request have been checked when a filter is made of them
(`SceneReplay.Service.exists_filterFor`). Neither are the names of the definitions, which are texts
(`SceneReplay.Service.exists_shows`).
-/

namespace SceneReplay

open Rib

/-! ### Limits that were checked -/

/-- The limit of settings is in the allowed range. -/
theorem Settings.limit_of_load {env : Environment} {settings : Settings}
    (h : Settings.load env = .ok settings) :
    1 ≤ (settings.limit : Int) ∧ (settings.limit : Int) ≤ greatestLimit := by
  unfold load at h
  simp only at h
  split at h
  · rename_i limit _ _ _ hlimit _
    cases h
    unfold readVariable at hlimit
    split at hlimit
    · cases hlimit
      exact (by decide : 1 ≤ (default.limit : Int) ∧ (default.limit : Int) ≤ greatestLimit)
    · split at hlimit
      · rename_i hread
        cases hlimit
        obtain ⟨n, -, hcheck⟩ := bind_eq_ok.1 hread
        obtain ⟨hleast, hgreatest, heq⟩ := of_checkLimit hcheck
        rw [heq]
        exact ⟨hleast, hgreatest⟩
      · cases hlimit
  · cases h

namespace Service

/-- **A filter is made for every request that was checked**, if the settings are valid. -/
theorem exists_filterFor {env : Environment} {settings : Settings} {options : ExpandOptions}
    (hsettings : Settings.load env = .ok settings)
    (hlimit : ∀ n ∈ options.limit, 1 ≤ n ∧ n ≤ greatestLimit) :
    ∃ f, filterFor env options = .ok f := by
  have hrange : 1 ≤ options.limit.getD settings.limit ∧
      options.limit.getD settings.limit ≤ greatestLimit := by
    rcases hoption : options.limit with _ | n
    · exact Settings.limit_of_load hsettings
    · exact hlimit n hoption
  refine ⟨.fresh (options.limit.getD settings.limit).toNat
    (options.capture.getD settings.capture), bind_eq_ok.2 ⟨settings, by rw [hsettings]; rfl, ?_⟩⟩
  unfold ArchiveFilter.make
  refine if_neg ?_
  simp only [Bool.or_eq_true, decide_eq_true_eq]
  omega

/-! ### Results -/

/-- What a definition that is sent says of a stream. -/
def StreamInfo.summary (s : StreamInfo) : StreamSummary := ⟨.text s.name, s.commands⟩

/-- **A result shows an expanded scene**: the file, the number of requests, all reports in order,
and all definitions in order. -/
structure ExpandResponse.Shows (r : ExpandResponse) (x : Expanded) : Prop where
  /-- The file. -/
  rib : r.rib = x.rib
  /-- The number of requests. -/
  requests : r.requests = x.requests
  /-- The reports. -/
  errors : r.errors = x.reports.map ErrorPayload.ofReport
  /-- The archives. -/
  archives : r.archives.map StreamInfo.summary = x.snapshot.archives
  /-- The objects. -/
  objects : r.objects.map StreamInfo.summary = x.snapshot.objects

/-- Definitions can be sent if their names are texts. -/
theorem exists_infos {ss : List StreamSummary} (h : ∀ s ∈ ss, ∃ name, s.name = .text name) :
    ∃ infos, ss.mapM StreamInfo.ofSummary = .ok infos ∧ infos.map StreamInfo.summary = ss := by
  induction ss with
  | nil => exact ⟨[], rfl, rfl⟩
  | cons s ss ih =>
    rw [List.forall_mem_cons] at h
    obtain ⟨⟨name, hname⟩, hss⟩ := h
    obtain ⟨infos, hinfos, hsummaries⟩ := ih hss
    refine ⟨⟨name, s.length⟩ :: infos, ?_, ?_⟩
    · rw [List.mapM_cons, StreamInfo.ofSummary, hname, hinfos]
      rfl
    · rw [List.map_cons, hsummaries, StreamInfo.summary, ← hname]

/-- The application expands the scene and sends what comes of it. -/
theorem expand_app (env : Environment) (request : ExpandRequest) :
    (app (Settings.load env)).expand request
      = (expand env request.options request.rib >>= ExpandResponse.ofExpanded).mapError
          Failure.ofFault := by
  have hscene : expandScene (Settings.load env) request
      = expand env request.options request.rib >>= ExpandResponse.ofExpanded := by
    rw [expandScene, expand]
    rcases (Settings.load env).mapError Fault.invalid with e | settings <;> rfl
  rw [← hscene]
  rfl

/-- **An expanded scene makes a result**: the names of its definitions are texts. -/
theorem exists_shows {env : Environment} {request : ExpandRequest} {f : ArchiveFilter}
    {x : Expanded} (hf : filterFor env request.options = .ok f)
    (hx : expand env request.options request.rib = .ok x) :
    ∃ result, (app (Settings.load env)).expand request = .ok result ∧ result.Shows x := by
  have hnames := (named_of_expand hf hx).1
  rw [List.forall_mem_append] at hnames
  obtain ⟨archives, harchives, hshown⟩ := exists_infos hnames.1
  obtain ⟨objects, hobjects, hshown'⟩ := exists_infos hnames.2
  have hresult : ExpandResponse.ofExpanded x
      = .ok ⟨x.rib, x.requests, x.reports.map ErrorPayload.ofReport, archives, objects⟩ :=
    bind_eq_ok.2 ⟨archives, harchives, bind_eq_ok.2 ⟨objects, hobjects, rfl⟩⟩
  refine ⟨⟨x.rib, x.requests, x.reports.map ErrorPayload.ofReport, archives, objects⟩, ?_,
    ⟨rfl, rfl, rfl, hshown, hshown'⟩⟩
  rw [expand_app, hx]
  exact congrArg (Except.mapError Failure.ofFault) hresult

/-- A fault of the expansion is one of the application. -/
theorem expand_of_fault {env : Environment} {request : ExpandRequest} {fault : Fault}
    (hx : expand env request.options request.rib = .error fault) :
    (app (Settings.load env)).expand request = .error (.ofFault fault) := by
  rw [expand_app, hx]
  rfl

/-- All texts of a result are of characters if the scene is. -/
theorem ofCharacters_texts {env : Environment} {options : ExpandOptions} {t : Text} {x : Expanded}
    {result : ExpandResponse} (ht : t.OfCharacters) {f : ArchiveFilter}
    (hf : filterFor env options = .ok f) (hx : expand env options t = .ok x)
    (hresult : result.Shows x) : ∀ text ∈ result.texts, text.OfCharacters := by
  obtain ⟨hrib, hreports, hnames⟩ := ofCharacters_of_expand ht hf hx
  rw [List.forall_mem_append, ← hresult.archives, ← hresult.objects, List.forall_mem_map,
    List.forall_mem_map] at hnames
  simp only [ExpandResponse.texts, hresult.rib, hresult.errors, List.map_map,
    List.forall_mem_cons, List.forall_mem_append, List.forall_mem_map]
  exact ⟨hrib, ⟨hreports, hnames.1⟩, hnames.2⟩

/-! ### The answer to a scene -/

section Answers

variable {Call : Type}

/-- **How a request to expand a scene is answered**, and why. -/
inductive Answers (fw : Framework Call) (env : Environment) (call : Call)
    (request : ExpandRequest) : Response → Prop
  /-- With the expanded scene. -/
  | expanded {x : Expanded} {result : ExpandResponse}
      (hx : expand env request.options request.rib = .ok x) (hresult : result.Shows x) :
      Answers fw env call request ⟨200, some result.document⟩
  /-- With a fault of the caller: the scene has a literal of too many digits. -/
  | oversized {literal : Text} {digits : Nat}
      (hx : expand env request.options request.rib = .error (.tooManyDigits digits))
      (hliteral : IsOversized request.rib literal digits) :
      Answers fw env call request (badRequest (.ofFault (.tooManyDigits digits)))
  /-- With a fault of the service: the scene has a literal that is too large for a double. -/
  | tooLarge {before after : List Rib.Request} {r : Rib.Request} {z : Int}
      (hx : expand env request.options request.rib = .error .integerTooLarge)
      (hrequest : (split (tokensOf (lex 1 request.rib))).2 = before ++ r :: after)
      (hliteral : StopsAt r z) :
      Answers fw env call request (internalError (fw.path call) (.ofFault .integerTooLarge))
  /-- With what keeps the result from being written: the scene has lone surrogates, and a text of
  the result cannot be written. -/
  | unwritable {x : Expanded} {result : ExpandResponse} {f : Failure}
      (hx : expand env request.options request.rib = .ok x) (hresult : result.Shows x)
      (hf : fw.unwritable? result = some f) (hscene : ¬ request.rib.OfCharacters) :
      Answers fw env call request
        (if f.isBadValue then badRequest f else internalError (fw.path call) f)

/-- **A request to expand a scene is answered with the expanded scene**, but for three things that
may be wrong with the scene. If it is of characters, and has no integer literal of too many digits
and none that is too large for a double, then the answer is the expanded scene with all its
reports. -/
theorem respond_expand {fw : Framework Call} (hfw : fw.Documented) {env : Environment}
    {settings : Settings} (hsettings : Settings.load env = .ok settings) {call : Call}
    {request : ExpandRequest} (hrequest : fw.request? call = some request) :
    Answers fw env call request (fw.respond (app (Settings.load env)) call) ∧
      ((∀ literal digits, ¬ IsOversized request.rib literal digits) →
        (∀ z ∈ integerLiterals request.rib, ¬ TooLarge z) → request.rib.OfCharacters →
          ∃ (x : Expanded) (result : ExpandResponse),
            expand env request.options request.rib = .ok x ∧ result.Shows x ∧
              fw.respond (app (Settings.load env)) call = ⟨200, some result.document⟩) := by
  obtain ⟨f, hf⟩ := exists_filterFor hsettings (hfw.limit hrequest)
  obtain ⟨hends, hcomplete⟩ := expand_ends hf request.rib
  -- A fault is answered by the handler for its kind.
  have hfault : ∀ {fault : Fault}, expand env request.options request.rib = .error fault →
      fw.respond (app (Settings.load env)) call
        = fw.failed (app (Settings.load env)) call (.ofFault fault) :=
    fun hx => hfw.raised hrequest (expand_of_fault hx)
  refine ⟨?_, fun hoversized hlarge hscene => ?_⟩
  · generalize hx : expand env request.options request.rib = outcome at hends
    rcases hends with x | hliteral | ⟨hliteral, hstops⟩
    · obtain ⟨result, hresult, hshows⟩ := exists_shows hf hx
      rcases hwritten : fw.unwritable? result with _ | failure
      · rw [hfw.returned hrequest hresult hwritten]
        exact .expanded hx hshows
      · rw [hfw.unwritten hrequest hresult hwritten]
        refine .unwritable hx hshows hwritten fun hscene => ?_
        rw [hfw.writable (ofCharacters_texts hscene hf hx hshows)] at hwritten
        cases hwritten
    · rw [hfault hx]
      exact .oversized hx hliteral
    · rw [hfault hx]
      exact .tooLarge hx hliteral hstops
  · obtain ⟨x, hx⟩ := hcomplete hoversized hlarge
    obtain ⟨result, hresult, hshows⟩ := exists_shows hf hx
    exact ⟨x, result, hx, hshows, hfw.returned hrequest hresult
      (hfw.writable (ofCharacters_texts hscene hf hx hshows))⟩

end Answers

/-- A call that posts a document with the given scene, as it is spelt there in ASCII. -/
def posting (scene : List Char) : Web.Call :=
  ⟨"POST", "/expand",
    ("\x7b\"rib\":\"".toList ++ scene ++ "\"\x7d".toList).map fun c => UInt8.ofNat c.toNat⟩

/-- A sphere, and a character that begins nothing. -/
def strayScene : Text := "Sphere 1 -1 1 360\n%"

/-- The call that posts `SceneReplay.Service.strayScene`. -/
def strayCall : Web.Call := posting "Sphere 1 -1 1 360\\n%".toList

theorem respond_expand_strayScene :
    ∃ (request : ExpandRequest) (x : Expanded) (result : ExpandResponse),
      Web.request? strayCall = some request ∧ request.rib = strayScene ∧
      expand [] request.options request.rib = .ok x ∧ x.reports.length = 1 ∧ result.Shows x ∧
      Web.respond (app (Settings.load [])) strayCall = ⟨200, some result.document⟩ := by
  have hcall : (Web.request? strayCall).map
      (fun request => (request.rib, (expand [] request.options request.rib).toOption.map
        fun x => x.reports.length)) = some (strayScene, some 1) := by decide +kernel
  rcases hrequest : Web.request? strayCall with _ | request
  · rw [hrequest] at hcall
    cases hcall
  · rw [hrequest] at hcall
    obtain ⟨hrib, hreports⟩ := Prod.mk.inj (Option.some.inj hcall)
    have hoversized : ∀ literal digits, ¬ IsOversized strayScene literal digits := by
      rintro literal digits ⟨-, ⟨line, hline⟩, -, -⟩
      have hnone : ∀ e ∈ troubleEvents (lex 1 strayScene), e.fault?.isNone = true := by
        decide +kernel
      cases hnone _ (List.mem_filterMap.2 ⟨_, hline, rfl⟩)
    have hlarge : ∀ z ∈ integerLiterals strayScene, ¬ TooLarge z := by decide +kernel
    obtain ⟨settings, hsettings⟩ : ∃ settings, Settings.load [] = .ok settings := ⟨_, rfl⟩
    obtain ⟨x, result, hx, hresult, hrespond⟩ :=
      (respond_expand Web.documented_standIn hsettings hrequest).2 (hrib ▸ hoversized)
        (hrib ▸ hlarge) (hrib ▸ Text.ofCharacters_ofString _)
    rw [hx] at hreports
    exact ⟨request, x, result, rfl, hrib, hx, Option.some.inj hreports, hresult, hrespond⟩

/-- A call with a lone surrogate in a comment. -/
def surrogateCall : Web.Call := posting "# \\ud83d".toList

/-- A call with an integer of 310 digits where a double is wanted. -/
def hugeCall : Web.Call := posting ("Shutter 0 1".toList ++ List.replicate 309 '0')

/-- **Two scenes that fail a request**: one with a lone surrogate in a comment, which is a fault
of the caller, and one with an integer that is too large for a double, which is a fault of the
service. -/
theorem respond_expand_failing :
    (Settings.load []).toOption.isSome = true ∧
      ((Web.request? surrogateCall).isSome = true ∧
        (Web.respond (app (Settings.load [])) surrogateCall).status = 400) ∧
      ((Web.request? hugeCall).isSome = true ∧
        (Web.respond (app (Settings.load [])) hugeCall).status = 500) := by
  decide +kernel

end Service

end SceneReplay

import SceneReplay.Proofs.Rib.Characters
import SceneReplay.Web.StandIn

/-!
# The stand-in does what is documented

The stand-in for a web framework does what a web framework is documented to do
(`SceneReplay.Web.documented_standIn`): a request that was read has a limit in the declared range,
and what the application has for it is sent.
-/

namespace SceneReplay

theorem of_checkLimit {n : Int} {k : Nat} (h : checkLimit n = .ok k) :
    1 ≤ n ∧ n ≤ greatestLimit ∧ (k : Int) = n := by
  unfold checkLimit at h
  split at h
  · cases h
  · split at h
    · cases h
    · cases h
      omega

namespace Web

open Service

/-! ### Fields -/

/-- What is read of a member that is there, and not absent. -/
theorem of_optional {α : Type} {members : List (Text × Json)} {name : String}
    {read : Json → Except Issue.Kind α} {a : α}
    (h : optional members name read = .ok (some a)) : ∃ v, read v = .ok a := by
  unfold optional at h
  split at h
  · cases h
  · cases h
  · rename_i v _ _
    rcases hread : read v with kind | b
    · rw [hread] at h
      cases h
    · rw [hread] at h
      cases h
      exact ⟨v, hread⟩

/-- The limit of a request is in the allowed range. -/
theorem limit_of_readRequest {document : Json} {request : ExpandRequest}
    (h : readRequest document = .ok request) :
    ∀ n ∈ request.options.limit, 1 ≤ n ∧ n ≤ greatestLimit := by
  unfold readRequest at h
  split at h
  · simp only at h
    split at h
    · rename_i hlimit
      cases h
      intro n hn
      obtain rfl := Option.mem_def.1 hn
      obtain ⟨v, hread⟩ := of_optional hlimit
      obtain ⟨m, -, hread⟩ := Rib.bind_eq_ok.1 hread
      obtain ⟨k, hcheck, hread⟩ := Rib.bind_eq_ok.1 hread
      cases hread
      obtain ⟨hleast, hgreatest, -⟩ := of_checkLimit hcheck
      exact ⟨hleast, hgreatest⟩
    · cases h
  · cases h

/-! ### Calls that make a request -/

theorem eq_ok_of_toOption {ε α : Type} {x : Except ε α} {a : α} (h : x.toOption = some a) :
    x = .ok a := by
  rcases x with e | b
  · cases h
  · rw [Option.some.inj h]

/-- A route that answers a method by posting does not answer the one for no contents. -/
theorem not_head_of_accepts {method : String} (h : accepts .expand method = true) :
    sameMethod method headMethod = false := by
  have hpost : method.toList.flatMap capitals = "POST".toList := eq_of_beq h
  rw [sameMethod, hpost]
  decide

/-- **A call that makes a request** goes to the route, with a body that holds a document which is
read as the request. -/
theorem request?_eq_some {call : Call} {request : ExpandRequest}
    (h : request? call = some request) :
    route? call.address = some .expand ∧ accepts .expand call.method = true ∧
      ∃ text document, Text.ofBytes? call.body = some text ∧ Json.parse text = .ok document ∧
        readRequest document = .ok request := by
  unfold request? at h
  split at h
  · rename_i hcall
    rw [Bool.and_eq_true, decide_eq_true_eq] at hcall
    obtain ⟨text, htext, h⟩ := Option.bind_eq_some_iff.1 h
    obtain ⟨document, hdocument, h⟩ := Option.bind_eq_some_iff.1 h
    exact ⟨hcall.1, hcall.2, text, document, htext, eq_ok_of_toOption hdocument,
      eq_ok_of_toOption h⟩
  · cases h

/-- **A call that makes a request is answered by what the application has for it.** -/
theorem respond_of_request? {app : App} {call : Call} {request : ExpandRequest}
    (h : request? call = some request) :
    respond app call = resultResponse app (app.expand request) := by
  obtain ⟨hroute, hmethod, text, document, htext, hdocument, hrequest⟩ := request?_eq_some h
  have hbody : call.body.isEmpty = false := by
    rw [List.isEmpty_eq_false_iff]
    intro hnil
    rw [hnil] at htext
    cases htext
    cases hdocument
  have hfull : fullResponse app call = resultResponse app (app.expand request) := by
    simp only [fullResponse, hroute, hmethod, Bool.not_true, Bool.false_eq_true, if_false,
      expandResponse, hbody, htext, hdocument, hrequest]
  simp only [respond, hfull, not_head_of_accepts hmethod, Bool.false_eq_true, if_false]

/-- A result whose texts are of characters can be written. -/
theorem unwritable?_eq_none {result : ExpandResponse}
    (h : ∀ text ∈ result.texts, text.OfCharacters) : unwritable? result = none := by
  rw [unwritable?, Option.map_eq_none_iff, List.findSome?_eq_none_iff]
  exact fun text htext => Text.unencodable?_eq_none_iff.2 (h text htext)

/-- **The stand-in does what is documented of a web framework.** -/
theorem documented_standIn : standIn.Documented where
  limit hrequest := by
    obtain ⟨-, -, text, document, -, -, hread⟩ := request?_eq_some hrequest
    exact limit_of_readRequest hread
  returned hrequest hresult hwritable := by
    have hnone : unwritable? _ = none := hwritable
    exact (respond_of_request? hrequest).trans (by simp only [hresult, resultResponse, hnone])
  unwritten hrequest hresult hunwritable := by
    have hsome : unwritable? _ = some _ := hunwritable
    refine (respond_of_request? hrequest).trans ?_
    simp only [hresult, resultResponse, hsome]
    rfl
  raised hrequest hfailure := by
    refine (respond_of_request? hrequest).trans ?_
    simp only [hfailure, resultResponse]
    rfl
  writable := unwritable?_eq_none

end Web

end SceneReplay

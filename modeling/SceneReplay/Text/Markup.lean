/-!
# Text inside markup

What is shown on the console is markup: a word in square brackets that starts with
a small letter or one of `#`, `/`, `@` is a tag. A text that shall show as it is
must have such brackets escaped, with a backslash in front; backslashes that
already stand there are doubled (`SceneReplay.Text.escapeMarkup`).
-/

namespace SceneReplay.Text

/-- Characters that a tag starts with. -/
def isTagStart (c : Char) : Bool :=
  ('a' ≤ c && c ≤ 'z') || c = '#' || c = '/' || c = '@'

/-- Takes a tag off the front of what follows an opening bracket: up to the first
closing bracket, if no opening bracket comes before it. -/
def takeTag : List Char → Option (List Char × List Char)
  | c :: cs =>
    if isTagStart c then
      let inner := cs.takeWhile fun d => d != '[' && d != ']'
      match cs.dropWhile fun d => d != '[' && d != ']' with
      | ']' :: rest => some (c :: inner ++ [']'], rest)
      | _ => none
    else none
  | [] => none

theorem length_of_takeTag {cs tag rest : List Char} (h : takeTag cs = some (tag, rest)) :
    rest.length < cs.length := by
  cases cs with
  | nil => simp [takeTag] at h
  | cons c cs =>
    simp only [takeTag] at h
    split at h
    · split at h
      · rename_i r hr
        simp only [Option.some.injEq, Prod.mk.injEq] at h
        obtain ⟨-, rfl⟩ := h
        have hsplit := congrArg List.length
          (List.takeWhile_append_dropWhile (p := fun d => d != '[' && d != ']') (l := cs))
        rw [hr, List.length_append] at hsplit
        simp only [List.length_cons] at hsplit ⊢
        omega
      · simp at h
    · simp at h

/-- Escapes the tags of a text that follows `pending` backslashes. -/
def escapeTags (pending : Nat) : List Char → List Char
  | [] => List.replicate pending '\\'
  | '\\' :: cs => escapeTags (pending + 1) cs
  | '[' :: cs =>
    match h : takeTag cs with
    | some (tag, rest) =>
      have := length_of_takeTag h
      List.replicate (2 * pending + 1) '\\' ++ '[' :: tag ++ escapeTags 0 rest
    | none => List.replicate pending '\\' ++ '[' :: escapeTags 0 cs
  | c :: cs => List.replicate pending '\\' ++ c :: escapeTags 0 cs
termination_by cs => cs.length

/-- A text with one backslash at its very end gets another one, so that it does
not escape what follows. -/
def guardEnd (cs : List Char) : List Char :=
  match cs.reverse with
  | '\\' :: '\\' :: _ => cs
  | '\\' :: _ => cs ++ ['\\']
  | _ => cs

/-- A text as markup that shows it as it is. -/
def escapeMarkup (s : String) : String :=
  String.ofList (guardEnd (escapeTags 0 s.toList))

end SceneReplay.Text

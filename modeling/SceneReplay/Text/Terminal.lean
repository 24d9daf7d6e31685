/-!
# Control sequences of a terminal

A text may hold sequences that a terminal takes as commands, for instance to change
the colour of what follows: the escape character, an opening bracket, parameters and a
letter. What is printed to something that is no terminal goes without them
(`SceneReplay.Text.stripControls`).
-/

namespace SceneReplay.Text

/-- The characters of the parameters of a control sequence. -/
def isControlParameter (c : Char) : Bool :=
  c.isDigit || c = ';' || c = '?'

/-- What follows a control sequence, given what follows its opening bracket; nothing if
no letter ends it. -/
def afterControl? (cs : List Char) : Option (List Char) :=
  match cs.dropWhile isControlParameter with
  | c :: rest => if c.isAlpha then some rest else none
  | [] => none

theorem length_of_afterControl? {cs rest : List Char} (h : afterControl? cs = some rest) :
    rest.length < cs.length := by
  have hsplit := congrArg List.length
    (List.takeWhile_append_dropWhile (p := isControlParameter) (l := cs))
  rw [List.length_append] at hsplit
  unfold afterControl? at h
  split at h
  · rename_i hr
    split at h
    · cases h
      rw [hr, List.length_cons] at hsplit
      omega
    · simp at h
  · simp at h

/-- A text without its control sequences. -/
def stripControls : List Char → List Char
  | [] => []
  | '\x1B' :: '[' :: cs =>
    match h : afterControl? cs with
    | some rest =>
      have := length_of_afterControl? h
      stripControls rest
    | none => '\x1B' :: stripControls ('[' :: cs)
  | c :: cs => c :: stripControls cs
termination_by cs => cs.length

end SceneReplay.Text

/-!
# Pieces between separators

Paths of files and of requests are rows of names with slashes between them; other
addresses are rows of numbers with dots or colons between them. `SceneReplay.Text.pieces`
cuts such a row; putting the separators back gives what there was
(`SceneReplay.Text.intercalate_pieces`).
-/

namespace SceneReplay.Text

/-- The pieces of a text between the separators `sep`, in order; there is always at least
one, and any of them may be empty. -/
def pieces (sep : Char) : List Char → List (List Char)
  | [] => [[]]
  | c :: cs =>
    if c = sep then [] :: pieces sep cs
    else
      match pieces sep cs with
      | [] => [[c]]
      | p :: ps => (c :: p) :: ps

theorem pieces_ne_nil (sep : Char) (cs : List Char) : pieces sep cs ≠ [] := by
  fun_cases pieces sep cs <;> simp_all

/-- The pieces with the separators between them make up the text. -/
theorem intercalate_pieces (sep : Char) (cs : List Char) :
    List.intercalate [sep] (pieces sep cs) = cs := by
  fun_induction pieces sep cs with
  | case1 => rfl
  | case2 cs ih =>
    obtain ⟨p, ps, h⟩ := List.exists_cons_of_ne_nil (pieces_ne_nil sep cs)
    simpa [h, List.intercalate] using ih
  | case3 c cs _ h ih => exact absurd h (pieces_ne_nil sep cs)
  | case4 c cs _ p ps h ih =>
    rw [h] at ih
    cases ps <;> simp_all [List.intercalate]

end SceneReplay.Text

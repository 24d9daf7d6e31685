import SceneReplay.Text.Basic

/-!
# White space and words

Two classes of blank characters are told apart. *White space* is the Unicode
property of that name. *Blank* characters are white space and the four
information separators `U+001C` to `U+001F`; they separate the words of a
parameter token.

* `SceneReplay.Text.words` cuts a text at its blank characters; a text has no
  words exactly when all its characters are blank
  (`SceneReplay.Text.words_eq_nil_iff`).
* `SceneReplay.Text.trim` removes white space from both ends.
-/

namespace SceneReplay.Text

/-- The Unicode property *white space*. -/
def isWhiteSpace (c : CodePoint) : Bool :=
  let n := c.code
  (0x09 ≤ n && n ≤ 0x0D) || n == 0x20 || n == 0x85 || n == 0xA0 || n == 0x1680 ||
    (0x2000 ≤ n && n ≤ 0x200A) || n == 0x2028 || n == 0x2029 || n == 0x202F || n == 0x205F ||
    n == 0x3000

/-- White space and the information separators: what stands between words. -/
def isBlank (c : CodePoint) : Bool :=
  isWhiteSpace c || (0x1C ≤ c.code && c.code ≤ 0x1F)

/-- A character put in front of a text's words: a blank adds nothing, another
character starts a word or extends the first one, as `joined` says. -/
def consWord (joined : Bool) (c : CodePoint) (ws : List Text) : List Text :=
  match joined, ws with
  | true, w :: ws => (c :: w) :: ws
  | _, ws => [c] :: ws

/-- The maximal runs of characters that are not blank, in order. -/
def words : Text → List Text
  | [] => []
  | c :: cs =>
    if isBlank c then words cs
    else consWord (match cs with | [] => false | d :: _ => !isBlank d) c (words cs)

@[simp] theorem words_nil : words [] = [] := rfl

/-- A blank character adds no word. -/
theorem words_cons_of_isBlank {c : CodePoint} (h : isBlank c = true) (cs : Text) :
    words (c :: cs) = words cs := by
  simp [words, h]

theorem consWord_ne_nil (joined : Bool) (c : CodePoint) (ws : List Text) :
    consWord joined c ws ≠ [] := by
  cases joined <;> cases ws <;> simp [consWord]

/-- A text has no words exactly when it is blank throughout. -/
theorem words_eq_nil_iff {cs : Text} : words cs = [] ↔ ∀ c ∈ cs, isBlank c = true := by
  induction cs with
  | nil => simp
  | cons c cs ih =>
    by_cases h : isBlank c = true
    · simp [words_cons_of_isBlank h, ih, h]
    · simp [words, h, consWord_ne_nil]

/-- A text without the white space at its two ends. -/
def trim (cs : Text) : Text :=
  ((cs.dropWhile isWhiteSpace).reverse.dropWhile isWhiteSpace).reverse

end SceneReplay.Text

/-!
# Pairs of keys and values

In a row of pairs a key may come again. Merging such a row
(`SceneReplay.Keyed.merge`) leaves every key once, at the place where it came first and
with the value that it got last.
-/

namespace SceneReplay.Keyed

variable {α β : Type} [BEq α]

/-- Puts a pair into a row: in place of the one with the same key, or else at the
end. -/
def put (pairs : List (α × β)) (pair : α × β) : List (α × β) :=
  if pairs.any (·.1 == pair.1) then
    pairs.map fun old => if old.1 == pair.1 then pair else old
  else pairs ++ [pair]

/-- A row of pairs with every key once. -/
def merge (pairs : List (α × β)) : List (α × β) := pairs.foldl put []

@[simp] theorem merge_nil : merge ([] : List (α × β)) = [] := rfl

/-- One more pair is put into what the others make. -/
theorem merge_append_singleton (pairs : List (α × β)) (pair : α × β) :
    merge (pairs ++ [pair]) = put (merge pairs) pair := by
  simp [merge]

end SceneReplay.Keyed

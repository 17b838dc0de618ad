/-!
# Visiting

A visitor is shown one item after the other until it has seen enough.
-/

namespace CudaProfile

/-- Show a visitor the items in turn. The visitor answers with its new state
and whether it wants to go on; so does the visit as a whole. -/
def visit {α σ : Type} (visitor : σ → α → σ × Bool) : σ → List α → σ × Bool
  | state, [] => (state, true)
  | state, item :: rest =>
      let (next, more) := visitor state item
      if more then visit visitor next rest else (next, false)

def keepUpTo {α : Type} (limit : Option Nat) (kept : List α) (item : α) :
    List α × Bool :=
  let kept := kept ++ [item]
  (kept, match limit with
    | none => true
    | some limit => kept.length < limit)

def visited {α : Type} (limit : Option Nat) (items : List α) : List α :=
  (visit (keepUpTo limit) [] items).1

end CudaProfile

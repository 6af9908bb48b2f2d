import Mathlib.Tactic

/-!
# Listening for pieces

A listener to a stream of symbols cuts it at a separator. It tells what every piece says when the piece ends,
and starts again behind a fault: one that leaves it in step drops the piece, one that does not makes it deaf
until the next separator.

`Monitor.listen_append` is the rule for two parts of a stream.
-/

variable {α β : Type}

/-- What a listener gets. -/
inductive Heard (α : Type)
  | symbol (a : α)
  /-- The listener lost the piece. -/
  | lost
  /-- The listener lost the stream. -/
  | broken
  deriving DecidableEq, Repr

/-- A listener with the piece that it has heard so far. -/
inductive Monitor (α : Type)
  | deaf
  | hears (piece : List α)
  deriving DecidableEq, Repr

namespace Monitor

variable [DecidableEq α] (sep : α) (told : List α → List β)

def hear : Monitor α → Heard α → Monitor α × List β
  | _, .broken => (.deaf, [])
  | _, .lost => (.hears [], [])
  | .deaf, .symbol a => (if a = sep then .hears [] else .deaf, [])
  | .hears piece, .symbol a => if a = sep then (.hears [], told piece) else (.hears (piece ++ [a]), [])

/-- The listener after a stream, and what it told. -/
def listen : Monitor α → List (Heard α) → Monitor α × List β
  | m, [] => (m, [])
  | m, h :: l => ((listen (m.hear sep told h).1 l).1, (m.hear sep told h).2 ++ (listen (m.hear sep told h).1 l).2)

@[simp] theorem listen_nil (m : Monitor α) : m.listen sep told [] = (m, []) := rfl

@[simp] theorem listen_singleton (m : Monitor α) (h : Heard α) : m.listen sep told [h] = m.hear sep told h := by
  simp [listen]

theorem listen_append (m : Monitor α) (l l' : List (Heard α)) :
    m.listen sep told (l ++ l') =
      (((m.listen sep told l).1.listen sep told l').1,
        (m.listen sep told l).2 ++ ((m.listen sep told l).1.listen sep told l').2) := by
  induction l generalizing m with
  | nil => rfl
  | cons h l ih => simp [listen, ih]

end Monitor

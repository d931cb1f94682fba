/-! # Cancellation

Long work asks again and again whether it should stop. What answers is a token: a flag that its
clones share, and perhaps a deadline. -/
namespace Tidymark

/-- Computations that can ask whether to stop. -/
class MonadCancel (m : Type → Type) where
  isCancelled : m Bool

/-- Pure computations are never cancelled. -/
instance : MonadCancel Id := ⟨false⟩

/-- Computations that are cancelled from some question on: the state is the number of questions
that are still answered with no. -/
abbrev Countdown : Type → Type := StateM Nat

instance : MonadCancel Countdown := ⟨fun n => (n == 0, n - 1)⟩

/-- Times are milliseconds of a clock that only goes forward. -/
abbrev Time := Nat

/-- The last time that the clock can show. -/
def Time.last : Time := Nat.pow 2 63 * 1000 - 1

structure Token where
  /-- Which flag the token looks at. -/
  flag : Nat
  deadline : Option Time
  deriving DecidableEq, Repr

/-- The flags of all tokens. -/
abbrev Flags := List Bool

namespace Token

def withDeadline (deadline : Option Time) : StateM Flags Token := fun flags =>
  (⟨flags.length, deadline⟩, flags ++ [false])

/-- A token that is cancelled only explicitly. -/
def new : StateM Flags Token := withDeadline none

/-- A token that is cancelled once `seconds` have passed; there is no deadline behind the last
time of the clock. -/
def withTimeout (now : Time) (seconds : Nat) : StateM Flags Token :=
  let deadline := now + 1000 * seconds
  withDeadline (if deadline ≤ Time.last then some deadline else none)

def cancel (t : Token) : StateM Flags Unit := modify (·.set t.flag true)

/-- Whether the token was cancelled, its deadline aside. -/
def isFlagged (t : Token) (flags : Flags) : Bool := flags.getD t.flag false

/-- Whether the token is cancelled. A deadline that has passed cancels it, and with it its
clones. -/
def isCancelled (now : Time) (t : Token) : StateM Flags Bool := do
  if t.isFlagged (← get) then return true
  if t.deadline.any (· ≤ now) then
    t.cancel
    return true
  return false

end Token
end Tidymark

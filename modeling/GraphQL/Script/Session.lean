import GraphQL.Execution.Request
import GraphQL.Script.Hook

/-! Sessions: requests that a script answers one after the other. -/

namespace GraphQL.Script

/-- A request, and whether the hooks see the counter while it is answered. -/
structure Turn where
  request : Request State ScriptObject ScriptItem
  counterVisible : Bool := true

/-- The state before a turn: the counter goes on from the turn before, the log starts anew. -/
def State.next (state : State) (turn : Turn) : State :=
  { state with log := [], counterVisible := turn.counterVisible }

/-- The answers to the turns of a session, each with the state that it leaves behind. The session
ends early if a request nests too deeply. -/
def answers (executable : Executable) :
    State → List Turn → List (Except RequestError Response × State)
  | _, [] => []
  | state, turn :: rest =>
    match turn.request.execute executable service (state.next turn) with
    | some (answer, state) => (answer, state) :: answers executable state rest
    | none => []

end GraphQL.Script

import TreeScript.Call
import TreeScript.Config.Read

/-!
# The program

The calls of `TreeScript.Call` with the reader of settings that the program
comes with. What is known about calls holds for every reader, so nothing but the
outer layer rests on this choice.
-/

namespace TreeScript

/-- More rounds than any loop gets through before its machine is worn out. -/
def ampleRounds : Nat := Nat.pow 2 62

/-- **Answers a request.** -/
def Request.answer (rounds : Nat) (w : Surroundings) (request : Request) : Exit :=
  request.answerBy Config.read rounds w

end TreeScript

import Pvllm.Engine.CoreProc

/-!
The frontend's end of the two sockets.

Both clients send alike, and both turn a frame into outputs or route it. A reply waits
under its call id until the call that asked for it takes it.
-/

namespace Pvllm

variable {V : Type}

/-- A client that was not shut down when `closed` is false. -/
structure MPClient (V : Type) where
  closed : Bool
  deadError : Option String
  pending : Dict ℤ (UtilityReply V)
  nextCallId : ℤ

namespace MPClient

def init : MPClient V where
  closed := false
  deadError := none
  pending := .empty
  nextCallId := 0

variable (client : MPClient V)

/-- `EngineDeadError`: nothing is sent, or waited for, once the engine is gone. -/
def checkAlive (exitcode : Option ℤ) : Except PyError Unit :=
  if client.closed then
    .error (.runtimeError
      "this engine core client was shut down; build a new one to run more requests")
  else
    match client.deadError, exitcode with
    | some message, _ => .error (.runtimeError message)
    | none, some code =>
      .error (.runtimeError s!"the engine core process exited with code {code}")
    | none, none => .ok ()

/-- Turn one frame into outputs, or route it. -/
def consume : Frame V → Except PyError (Option (ℕ × List EngineCoreOutput)) × MPClient V
  | .outputs engineIndex outputs => (.ok (some (engineIndex, outputs)), client)
  | .utility reply =>
    (.ok none, { client with pending := client.pending.store reply.callId reply })
  | .dead error =>
    let message := s!"the engine core process died: {error}"
    (.error (.runtimeError message), { client with deadError := some message })

def takeCallId : ℤ × MPClient V :=
  (client.nextCallId + 1, { client with nextCallId := client.nextCallId + 1 })

variable {client} {exitcode : Option ℤ}

theorem checkAlive_eq_ok {u : Unit} : client.checkAlive exitcode = .ok u ↔
    client.closed = false ∧ client.deadError = none ∧ exitcode = none := by
  unfold checkAlive
  cases client.closed <;> cases client.deadError <;> cases exitcode <;> simp

end MPClient

end Pvllm

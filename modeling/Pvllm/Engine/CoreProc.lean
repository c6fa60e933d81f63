import Pvllm.Engine.Stepping

/-!
The engine core in its own process.

Requests, aborts and utility calls come in over one socket, outputs and utility replies
go out over another. A turn of the busy loop handles one message or takes one step.
An exception that escapes a turn ends the process, and a last frame says so.
-/

namespace Pvllm

variable {H V : Type}

/-! ### Frames -/

/-- A method of the core that the frontend calls. -/
structure UtilityCall where
  callId : ℤ
  method : String
deriving DecidableEq

/-- What a method returns. The clock and the statistics are read, and not interpreted. -/
inductive UtilityResult (V : Type) where
  | bool (value : Bool)
  | int (value : ℕ)
  | reading (value : V)

/-- The answer to a call, or the error it raised. -/
structure UtilityReply (V : Type) where
  callId : ℤ
  result : Except String (UtilityResult V)

/-- What a frame on the input socket carries. -/
inductive Input where
  | add (args : RequestArgs)
  | abort (requestIds : List RequestId)
  | utility (call : UtilityCall)

/-- What a frame on the output socket carries, once the process is ready. -/
inductive Frame (V : Type) where
  | outputs (engineIndex : ℕ) (outputs : List EngineCoreOutput)
  | utility (reply : UtilityReply V)
  | dead (error : String)

/-- `type(exc).__name__: exc`. -/
def PyError.describe : PyError → String
  | .valueError message => s!"ValueError: {message}"
  | .assertionError message => s!"AssertionError: {message}"
  | .runtimeError message => s!"RuntimeError: {message}"
  | .indexError message => s!"IndexError: {message}"
  | .keyError message => s!"KeyError: {message}"
  | .notImplementedError message => s!"NotImplementedError: {message}"
  | .fileNotFoundError message => s!"FileNotFoundError: {message}"
  | .zeroDivisionError message => s!"ZeroDivisionError: {message}"
  | .overflowError message => s!"OverflowError: {message}"
  | .outOfFuel => ""

/-! ### The process -/

/-- The core, and whether its loop goes on. -/
structure EngineCoreProc (H : Type) where
  core : ServingCore H
  running : Bool

namespace EngineCoreProc

variable [DecidableEq H] (proc : EngineCoreProc H)

/-- The methods a frontend may call. The clock and the statistics give `reading`. -/
def callUtility (reading : V) (call : UtilityCall) : UtilityReply V × EngineCoreProc H :=
  let answer (result : UtilityResult V) : UtilityReply V := ⟨call.callId, .ok result⟩
  match call.method with
  | "clock_time" => (answer (.reading reading), proc)
  | "make_stats" => (answer (.reading reading), proc)
  | "reset_prefix_cache" =>
    let (done, s) := proc.core.scheduler.resetPrefixCache
    (answer (.bool done), { proc with core := { proc.core with scheduler := s } })
  | "has_requests" => (answer (.bool proc.core.scheduler.hasRequests), proc)
  | "get_num_unfinished_requests" => (answer (.int proc.core.getNumUnfinishedRequests), proc)
  | "shutdown" => (answer (.bool true), { proc with running := false })
  | method =>
    (⟨call.callId, .error
      (s!"unknown utility method '{method}'; the engine core accepts "
        ++ "['clock_time', 'get_num_unfinished_requests', 'has_requests', 'make_stats', "
        ++ "'reset_prefix_cache', 'shutdown']")⟩, proc)

/-- Handle one message: what goes out for it, and the process then. -/
def handle (reading : V) : Input → Except PyError (List (Frame V) × EngineCoreProc H)
  | .add args => (proc.core.addRequest args).map fun core => ([], { proc with core := core })
  | .abort requestIds =>
    (proc.core.abortRequests requestIds).map fun core => ([], { proc with core := core })
  | .utility call =>
    let (reply, proc) := proc.callUtility reading call
    .ok ([.utility reply], proc)

def stepOnce (draws : RequestId → List Bool) :
    Except PyError (List (Frame V) × EngineCoreProc H) :=
  (proc.core.step draws).map fun (outputs, core) =>
    (outputs.items.map fun (client, outputs) => .outputs client outputs, { proc with core := core })

/-- A turn of the busy loop, with the message it handles and the frames that go out. Grammars are
compiled in the background. -/
inductive Turn : EngineCoreProc H → Option Input → List (Frame V) → EngineCoreProc H → Prop
  | handle {proc proc' : EngineCoreProc H} {reading : V} {input : Input} {frames : List (Frame V)}
      (hok : proc.handle reading input = .ok (frames, proc')) : Turn proc (some input) frames proc'
  | step {proc proc' : EngineCoreProc H} {draws : RequestId → List Bool} {frames : List (Frame V)}
      (hrunning : proc.running = true) (hwork : proc.core.scheduler.hasRequests = true)
      (hok : proc.stepOnce draws = .ok (frames, proc')) : Turn proc none frames proc'
  | compile {proc : EngineCoreProc H} (r : RequestId) (result : Grammar) :
      Turn proc none [] { proc with core := proc.core.compileGrammar r result }

/-- A turn in which an exception escapes. -/
inductive Raises (V : Type) : EngineCoreProc H → Option Input → PyError → Prop
  | handle {proc : EngineCoreProc H} {reading : V} {input : Input} {e : PyError}
      (herror : proc.handle reading input = .error e) : Raises V proc (some input) e
  | step {proc : EngineCoreProc H} {draws : RequestId → List Bool} {e : PyError}
      (hrunning : proc.running = true) (hwork : proc.core.scheduler.hasRequests = true)
      (herror : (proc.stepOnce draws : Except PyError (List (Frame V) × EngineCoreProc H)) =
        .error e) : Raises V proc none e

/-! ### What a turn does to the requests -/

variable {proc} {proc' : EngineCoreProc H} {frames : List (Frame V)} {reading : V}

/-- A reply answers its own call. -/
theorem callUtility_callId (call : UtilityCall) :
    (proc.callUtility reading call).1.callId = call.callId := by
  unfold callUtility
  dsimp only
  split <;> rfl

theorem handle_add {args : RequestArgs}
    (h : proc.handle reading (.add args) = .ok (frames, proc')) :
    frames = [] ∧ proc.core.addRequest args = .ok proc'.core := by
  obtain ⟨core, hadd, heq⟩ := except_map_iff.mp h
  obtain ⟨rfl, rfl⟩ := Prod.mk.inj heq
  exact ⟨rfl, hadd⟩

theorem handle_abort {requestIds : List RequestId}
    (h : proc.handle reading (.abort requestIds) = .ok (frames, proc')) :
    frames = [] ∧ proc.core.abortRequests requestIds = .ok proc'.core := by
  obtain ⟨core, habort, heq⟩ := except_map_iff.mp h
  obtain ⟨rfl, rfl⟩ := Prod.mk.inj heq
  exact ⟨rfl, habort⟩

theorem handle_utility {call : UtilityCall}
    (h : proc.handle reading (.utility call) = .ok (frames, proc')) :
    frames = [.utility (proc.callUtility reading call).1] ∧
      proc' = (proc.callUtility reading call).2 := by
  obtain ⟨rfl, rfl⟩ := Prod.mk.inj (Except.ok.inj h)
  exact ⟨rfl, rfl⟩

theorem stepOnce_ok {draws : RequestId → List Bool}
    (h : proc.stepOnce draws = .ok (frames, proc')) :
    ∃ outputs : Dict ℕ (List EngineCoreOutput),
      proc.core.step draws = .ok (outputs, proc'.core) ∧
      frames = outputs.items.map fun (client, outputs) => .outputs client outputs := by
  obtain ⟨⟨outputs, core⟩, hstep, heq⟩ := except_map_iff.mp h
  obtain ⟨rfl, rfl⟩ := Prod.mk.inj heq
  exact ⟨outputs, hstep, rfl⟩

end EngineCoreProc

end Pvllm

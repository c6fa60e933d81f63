import Pvllm.Engine.AsyncMPClient

/-!
The client that blocks: one caller reads the socket, for outputs and for replies.

A utility call sets aside the outputs it reads on the way to its reply, and the next call for
outputs takes what was set aside before it reads again. A poll may end with nothing while
frames are on their way, and a call for outputs then asks the engine whether there is work.
-/

namespace Pvllm

variable {H V : Type} [DecidableEq H]

/-! ### The client -/

structure SyncMPClient (V : Type) extends MPClient V where
  buffered : List (ℕ × List EngineCoreOutput)

namespace SyncMPClient

def init : SyncMPClient V where
  toMPClient := .init
  buffered := []

variable (client : SyncMPClient V)

def takeCallId : SyncMPClient V := { client with toMPClient := client.toMPClient.takeCallId.2 }

/-- A frame that is read while a reply is awaited. -/
def holdFrame (frame : Frame V) : Except PyError Unit × SyncMPClient V :=
  match client.toMPClient.consume frame with
  | (.ok (some outputs), base) =>
    (.ok (), { toMPClient := base, buffered := client.buffered ++ [outputs] })
  | (.ok none, base) => (.ok (), { client with toMPClient := base })
  | (.error e, base) => (.error e, { client with toMPClient := base })

end SyncMPClient

/-- `bool(...)`. -/
def UtilityResult.truth : UtilityResult V → Bool
  | .bool value => value
  | .int value => value ≠ 0
  | .reading _ => true

/-! ### The client and the engine process -/

/-- Where the caller stands. A utility call may be one of a call for outputs. -/
inductive Doing where
  | idle
  | polling
  | waiting (callId : ℤ) (inside : Bool)
  | checked (work : Bool)

/-- The two processes and the messages between them, in order. -/
structure SyncSystem (H V : Type) where
  client : SyncMPClient V
  doing : Doing
  toEngine : List Input
  proc : EngineCoreProc H
  exitcode : Option ℤ
  toClient : List (Frame V)

inductive SyncEvent (V : Type) where
  | called (call : UtilityCall)
  | turned (input : Option Input) (frames : List (Frame V))
  | returned (outputs : ℕ × List EngineCoreOutput)
  | empty
  | replied (callId : ℤ) (reply : UtilityReply V)
  | raised
  | other

namespace SyncSystem

def start (proc : EngineCoreProc H) : SyncSystem H V where
  client := .init
  doing := .idle
  toEngine := []
  proc := proc
  exitcode := none
  toClient := []

variable (sys : SyncSystem H V)

def send (input : Input) : SyncSystem H V :=
  { sys with toEngine := sys.toEngine ++ [input] }

def call (call : UtilityCall) (inside : Bool) : SyncSystem H V :=
  { sys.send (.utility call) with
    client := sys.client.takeCallId, doing := .waiting call.callId inside }

def callId : ℤ := sys.client.toMPClient.takeCallId.1

inductive Step : SyncSystem H V → SyncEvent V → SyncSystem H V → Prop
  | addRequest {sys : SyncSystem H V} (args : RequestArgs) (hidle : sys.doing = .idle)
      (halive : sys.client.checkAlive sys.exitcode = .ok ()) :
      Step sys .other (sys.send (.add args))
  | abortRequests {sys : SyncSystem H V} {requestIds : List RequestId} (hids : requestIds ≠ [])
      (hidle : sys.doing = .idle) (halive : sys.client.checkAlive sys.exitcode = .ok ()) :
      Step sys .other (sys.send (.abort requestIds))
  | shutdown {sys : SyncSystem H V} (hidle : sys.doing = .idle)
      (hopen : sys.client.closed = false) :
      Step sys (.called ⟨-1, "shutdown"⟩) { sys.send (.utility ⟨-1, "shutdown"⟩) with
        client := { sys.client with closed := true } }
  -- `_blocking_call`.
  | callUtility {sys : SyncSystem H V} (method : String) (hidle : sys.doing = .idle)
      (halive : sys.client.checkAlive sys.exitcode = .ok ()) :
      Step sys (.called ⟨sys.callId, method⟩) (sys.call ⟨sys.callId, method⟩ false)
  | callRefused {sys : SyncSystem H V} {e : PyError}
      (hdoing : sys.doing = .idle ∨ sys.doing = .polling)
      (hdead : sys.client.checkAlive sys.exitcode = .error e) :
      Step sys .raised { sys with client := sys.client.takeCallId, doing := .idle }
  | takeReply {sys : SyncSystem H V} {callId : ℤ} {inside : Bool} {reply : UtilityReply V}
      (hwaiting : sys.doing = .waiting callId inside)
      (hreply : sys.client.pending.find callId = some reply) :
      Step sys (.replied callId reply) { sys with
        client := { sys.client with pending := sys.client.pending.delete callId }
        doing := match reply.result, inside with
          | .ok result, true => .checked result.truth
          | _, _ => .idle }
  | waitFrame {sys : SyncSystem H V} {callId : ℤ} {inside : Bool} {frame : Frame V}
      {rest : List (Frame V)} {client : SyncMPClient V}
      (hwaiting : sys.doing = .waiting callId inside)
      (hnone : sys.client.pending.find callId = none)
      (halive : sys.client.checkAlive sys.exitcode = .ok ())
      (harrived : sys.toClient = frame :: rest)
      (hheld : sys.client.holdFrame frame = (.ok (), client)) :
      Step sys .other { sys with client := client, toClient := rest }
  | waitRaises {sys : SyncSystem H V} {callId : ℤ} {inside : Bool} {frame : Frame V}
      {rest : List (Frame V)} {client : SyncMPClient V} {e : PyError}
      (hwaiting : sys.doing = .waiting callId inside)
      (halive : sys.client.checkAlive sys.exitcode = .ok ())
      (harrived : sys.toClient = frame :: rest)
      (hheld : sys.client.holdFrame frame = (.error e, client)) :
      Step sys .raised { sys with client := client, toClient := rest, doing := .idle }
  -- The engine is gone, or did not answer in time.
  | giveUp {sys : SyncSystem H V} {callId : ℤ} {inside : Bool}
      (hwaiting : sys.doing = .waiting callId inside)
      (hnone : sys.client.pending.find callId = none) :
      Step sys .raised { sys with doing := .idle }
  -- `get_output`.
  | popBuffered {sys : SyncSystem H V} {outputs : ℕ × List EngineCoreOutput}
      {rest : List (ℕ × List EngineCoreOutput)}
      (hdoing : sys.doing = .idle ∨ sys.doing = .checked true)
      (hbuffered : sys.client.buffered = outputs :: rest) :
      Step sys (.returned outputs)
        { sys with client := { sys.client with buffered := rest }, doing := .idle }
  | poll {sys : SyncSystem H V} (hdoing : sys.doing = .idle ∨ sys.doing = .checked true)
      (hbuffered : sys.client.buffered = []) : Step sys .other { sys with doing := .polling }
  | pollDead {sys : SyncSystem H V} {e : PyError} (hpolling : sys.doing = .polling)
      (hdead : sys.client.checkAlive sys.exitcode = .error e) :
      Step sys .raised { sys with doing := .idle }
  | pollNothing {sys : SyncSystem H V} (hpolling : sys.doing = .polling)
      (halive : sys.client.checkAlive sys.exitcode = .ok ()) :
      Step sys (.called ⟨sys.callId, "has_requests"⟩) (sys.call ⟨sys.callId, "has_requests"⟩ true)
  | pollOutputs {sys : SyncSystem H V} {frame : Frame V} {rest : List (Frame V)}
      {outputs : ℕ × List EngineCoreOutput} {base : MPClient V} (hpolling : sys.doing = .polling)
      (halive : sys.client.checkAlive sys.exitcode = .ok ())
      (harrived : sys.toClient = frame :: rest)
      (hconsumed : sys.client.toMPClient.consume frame = (.ok (some outputs), base)) :
      Step sys (.returned outputs) { sys with
        client := { sys.client with toMPClient := base }, toClient := rest, doing := .idle }
  | pollReply {sys : SyncSystem H V} {frame : Frame V} {rest : List (Frame V)}
      {base : MPClient V} (hpolling : sys.doing = .polling)
      (halive : sys.client.checkAlive sys.exitcode = .ok ())
      (harrived : sys.toClient = frame :: rest)
      (hconsumed : sys.client.toMPClient.consume frame = (.ok none, base)) :
      Step sys .other { sys with
        client := { sys.client with toMPClient := base }, toClient := rest }
  | pollRaises {sys : SyncSystem H V} {frame : Frame V} {rest : List (Frame V)}
      {base : MPClient V} {e : PyError} (hpolling : sys.doing = .polling)
      (halive : sys.client.checkAlive sys.exitcode = .ok ())
      (harrived : sys.toClient = frame :: rest)
      (hconsumed : sys.client.toMPClient.consume frame = (.error e, base)) :
      Step sys .raised { sys with
        client := { sys.client with toMPClient := base }, toClient := rest, doing := .idle }
  | noWork {sys : SyncSystem H V} (hchecked : sys.doing = .checked false) :
      Step sys .empty { sys with doing := .idle }
  -- The engine process.
  | handle {sys : SyncSystem H V} {input : Input} {rest : List Input} {frames : List (Frame V)}
      {proc : EngineCoreProc H} (hlives : sys.exitcode = none)
      (hnext : sys.toEngine = input :: rest) (hturn : sys.proc.Turn (some input) frames proc) :
      Step sys (.turned (some input) frames) { sys with
        proc := proc, toEngine := rest, toClient := sys.toClient ++ frames }
  | work {sys : SyncSystem H V} {frames : List (Frame V)} {proc : EngineCoreProc H}
      (hlives : sys.exitcode = none) (hturn : sys.proc.Turn none frames proc) :
      Step sys (.turned none frames)
        { sys with proc := proc, toClient := sys.toClient ++ frames }
  -- The last frame has a socket of its own. What it overtakes is never read.
  | die {sys : SyncSystem H V} {input : Option Input} {e : PyError} (code : ℤ)
      {ahead overtaken : List (Frame V)} (hlives : sys.exitcode = none)
      (hinput : ∀ next ∈ input, next ∈ sys.toEngine.head?)
      (hraises : EngineCoreProc.Raises V sys.proc input e)
      (hframes : sys.toClient = ahead ++ overtaken) :
      Step sys .other
        { sys with exitcode := some code, toClient := ahead ++ [.dead e.describe] }
  | exit {sys : SyncSystem H V} (code : ℤ) {sent unsent : List (Frame V)}
      (hlives : sys.exitcode = none) (hframes : sys.toClient = sent ++ unsent) :
      Step sys .other { sys with exitcode := some code, toClient := sent }

end SyncSystem

/-! ### What a run tells -/

def Frame.outputs? : Frame V → Option (ℕ × List EngineCoreOutput)
  | .outputs engineIndex told => some (engineIndex, told)
  | _ => none

namespace SyncEvent

def emitted : SyncEvent V → List (ℕ × List EngineCoreOutput)
  | .turned _ frames => frames.filterMap Frame.outputs?
  | _ => []

def delivered : SyncEvent V → List (ℕ × List EngineCoreOutput)
  | .returned outputs => [outputs]
  | _ => []

def calls : SyncEvent V → List UtilityCall
  | .called call => [call]
  | _ => []

end SyncEvent

namespace SyncSystem

variable {sys sys' : SyncSystem H V} {event : SyncEvent V} {events : List (SyncEvent V)}
  {proc : EngineCoreProc H}

def emitted (events : List (SyncEvent V)) : List (ℕ × List EngineCoreOutput) :=
  events.flatMap SyncEvent.emitted

def delivered (events : List (SyncEvent V)) : List (ℕ × List EngineCoreOutput) :=
  events.flatMap SyncEvent.delivered

def calls (events : List (SyncEvent V)) : List UtilityCall := events.flatMap SyncEvent.calls

/-- The outputs that were not returned yet: those set aside, and then those not read. -/
def held (sys : SyncSystem H V) : List (ℕ × List EngineCoreOutput) :=
  sys.client.buffered ++ sys.toClient.filterMap Frame.outputs?

/-! ### Outputs -/

theorem holdFrame_buffered {client client' : SyncMPClient V} {frame : Frame V}
    (h : client.holdFrame frame = (.ok (), client')) :
    client'.buffered = client.buffered ++ frame.outputs?.toList := by
  cases frame with
  | outputs engineIndex told =>
      obtain ⟨-, rfl⟩ := Prod.mk.inj h
      rfl
  | utility reply =>
      obtain ⟨-, rfl⟩ := Prod.mk.inj h
      exact (List.append_nil _).symm
  | dead error => cases h

theorem consume_outputs {client base : MPClient V} {frame : Frame V}
    {outputs : Option (ℕ × List EngineCoreOutput)}
    (h : client.consume frame = (.ok outputs, base)) : frame.outputs? = outputs := by
  cases frame with
  | outputs engineIndex told =>
      obtain ⟨h, -⟩ := Prod.mk.inj h
      exact Except.ok.inj h
  | utility reply =>
      obtain ⟨h, -⟩ := Prod.mk.inj h
      exact Except.ok.inj h
  | dead error => cases h

theorem consume_error {client base : MPClient V} {frame : Frame V} {e : PyError}
    (h : client.consume frame = (.error e, base)) : frame.outputs? = none := by
  cases frame with
  | outputs engineIndex told => cases h
  | utility reply => cases h
  | dead error => rfl

theorem holdFrame_error {client client' : SyncMPClient V} {frame : Frame V} {e : PyError}
    (h : client.holdFrame frame = (.error e, client')) :
    frame.outputs? = none ∧ client'.buffered = client.buffered := by
  cases frame with
  | outputs engineIndex told => cases h
  | utility reply => cases h
  | dead error =>
      obtain ⟨-, rfl⟩ := Prod.mk.inj h
      exact ⟨rfl, rfl⟩

omit [DecidableEq H] in
theorem held_of_arrived {frame : Frame V} {rest : List (Frame V)}
    (h : sys.toClient = frame :: rest) :
    sys.held = sys.client.buffered ++ (frame.outputs?.toList ++ rest.filterMap Frame.outputs?) := by
  unfold held
  rw [h, List.filterMap_cons]
  cases frame.outputs? <;> rfl

/-- What a step does to the outputs that are held: those emitted come last, and those returned are
the first. Only the end of the engine takes any away. -/
def Passes (sys : SyncSystem H V) (event : SyncEvent V) (sys' : SyncSystem H V) : Prop :=
  ∃ lost, sys.held ++ event.emitted = event.delivered ++ sys'.held ++ lost ∧
    (sys'.exitcode = none → lost = [])

omit [DecidableEq H] in
theorem passes_of_kept (hheld : sys.held ++ event.emitted = event.delivered ++ sys'.held) :
    Passes sys event sys' :=
  ⟨[], by rw [hheld, List.append_nil], fun _ => rfl⟩

omit [DecidableEq H] in
theorem passes_of_quiet (hemitted : event.emitted = []) (hdelivered : event.delivered = [])
    (hheld : sys'.held = sys.held) : Passes sys event sys' := by
  apply passes_of_kept
  rw [hemitted, hdelivered, hheld, List.append_nil, List.nil_append]

theorem Step.passes (hstep : Step sys event sys')
    (hpolling : sys.doing = .polling → sys.client.buffered = []) : Passes sys event sys' := by
  cases hstep with
  | waitFrame hwaiting hnone halive harrived hheld =>
      apply passes_of_kept
      rw [held_of_arrived harrived, ← List.append_assoc, ← holdFrame_buffered hheld]
      exact List.append_nil _
  | waitRaises hwaiting halive harrived hheld =>
      obtain ⟨hframe, hbuffered⟩ := holdFrame_error hheld
      apply passes_of_kept
      rw [held_of_arrived harrived, hframe, ← hbuffered]
      exact List.append_nil _
  | popBuffered hdoing hbuffered =>
      apply passes_of_kept
      unfold held
      rw [hbuffered]
      exact List.append_nil _
  | pollOutputs hdoing halive harrived hconsumed =>
      apply passes_of_kept
      rw [held_of_arrived harrived, hpolling hdoing, consume_outputs hconsumed]
      unfold held
      rw [hpolling hdoing]
      exact List.append_nil _
  | pollReply hdoing halive harrived hconsumed =>
      apply passes_of_kept
      rw [held_of_arrived harrived, consume_outputs hconsumed]
      exact List.append_nil _
  | pollRaises hdoing halive harrived hconsumed =>
      apply passes_of_kept
      rw [held_of_arrived harrived, consume_error hconsumed]
      exact List.append_nil _
  | handle hlives hnext hturn =>
      apply passes_of_kept
      unfold held
      rw [List.filterMap_append, List.append_assoc]
      rfl
  | work hlives hturn =>
      apply passes_of_kept
      unfold held
      rw [List.filterMap_append, List.append_assoc]
      rfl
  | @die _ e code ahead overtaken hlives hinput hraises hframes =>
      refine ⟨overtaken.filterMap Frame.outputs?, ?_, nofun⟩
      unfold held
      rw [hframes, List.filterMap_append, List.filterMap_append]
      simp [SyncEvent.emitted, SyncEvent.delivered, Frame.outputs?]
  | @exit code sent unsent hlives hframes =>
      refine ⟨unsent.filterMap Frame.outputs?, ?_, nofun⟩
      unfold held
      rw [hframes, List.filterMap_append]
      simp [SyncEvent.emitted, SyncEvent.delivered]
  | _ => exact passes_of_quiet rfl rfl rfl

theorem Step.polling (hstep : Step sys event sys')
    (hpolling : sys.doing = .polling → sys.client.buffered = []) :
    sys'.doing = .polling → sys'.client.buffered = [] := by
  cases hstep with
  | poll hdoing hbuffered => exact fun _ => hbuffered
  | pollReply hdoing halive harrived hconsumed => exact hpolling
  | takeReply hwaiting hreply =>
      intro h
      dsimp only at h
      split at h <;> cases h
  | waitFrame hwaiting hnone halive harrived hheld =>
      intro h
      rw [show sys.doing = _ from h] at hwaiting
      cases hwaiting
  | addRequest args hidle halive => exact hpolling
  | abortRequests hids hidle halive => exact hpolling
  | shutdown hidle hopen => exact hpolling
  | handle hlives hnext hturn => exact hpolling
  | work hlives hturn => exact hpolling
  | die code hlives hinput hraises hframes => exact hpolling
  | exit code hlives hframes => exact hpolling
  | _ => nofun

/-- An engine that is gone puts nothing on its socket, and stays gone. -/
theorem Step.gone (hstep : Step sys event sys') (hgone : sys.exitcode ≠ none) :
    event.emitted = [] ∧ sys'.exitcode ≠ none := by
  cases hstep with
  | handle hlives hnext hturn => exact absurd hlives hgone
  | work hlives hturn => exact absurd hlives hgone
  | die code hlives hinput hraises hframes => exact absurd hlives hgone
  | exit code hlives hframes => exact absurd hlives hgone
  | _ => exact ⟨rfl, hgone⟩

omit [DecidableEq H] in
theorem emitted_snoc (events : List (SyncEvent V)) (event : SyncEvent V) :
    emitted (events ++ [event]) = emitted events ++ event.emitted := by
  simp [emitted]

omit [DecidableEq H] in
theorem delivered_snoc (events : List (SyncEvent V)) (event : SyncEvent V) :
    delivered (events ++ [event]) = delivered events ++ event.delivered := by
  simp [delivered]

/-- The outputs returned, and then those held, are those emitted, in their order, but for those
that the end of the engine took away. -/
theorem run_delivered (hrun : Run Step (start proc) events sys) :
    (∃ lost, emitted events = delivered events ++ sys.held ++ lost ∧
      (sys.exitcode = none → lost = [])) ∧
      (sys.doing = .polling → sys.client.buffered = []) := by
  induction hrun with
  | nil => exact ⟨⟨[], rfl, fun _ => rfl⟩, nofun⟩
  | @snoc events sys sys' event hrun hstep ih =>
      obtain ⟨⟨lost, hlost, hlives⟩, hpolling⟩ := ih
      obtain ⟨lost', hlost', hlives'⟩ := hstep.passes hpolling
      refine ⟨⟨lost' ++ lost, ?_, ?_⟩, hstep.polling hpolling⟩
      · rw [emitted_snoc, delivered_snoc, hlost]
        by_cases hgone : sys.exitcode = none
        · rw [hlives hgone, List.append_nil, List.append_assoc, hlost']
          simp only [List.append_assoc, List.append_nil]
        · have hnone := (hstep.gone hgone).1
          rw [hnone, List.append_nil] at hlost'
          rw [hnone, List.append_nil, hlost']
          simp only [List.append_assoc]
      · intro hlive
        have hlived : sys.exitcode = none := by
          by_contra hgone
          exact (hstep.gone hgone).2 hlive
        rw [hlives' hlive, hlives hlived]
        rfl

/-! ### Replies -/

/-- The engine answered this call with this reply. -/
def Answered (events : List (SyncEvent V)) (call : UtilityCall) (reply : UtilityReply V) : Prop :=
  ∃ frames, SyncEvent.turned (some (.utility call)) frames ∈ events ∧
    Frame.utility reply ∈ frames ∧ reply.callId = call.callId

/-- Calls carry numbers of their own, and what is on its way answers a call. -/
structure Numbered (events : List (SyncEvent V)) (sys : SyncSystem H V) : Prop where
  nodup : ((calls events).map UtilityCall.callId).Nodup
  nonneg : 0 ≤ sys.client.nextCallId
  below : ∀ call ∈ calls events, call.callId ≤ sys.client.nextCallId
  positive : sys.client.closed = false → ∀ call ∈ calls events, 0 < call.callId
  sent : ∀ call, Input.utility call ∈ sys.toEngine → call ∈ calls events
  arriving : ∀ reply, Frame.utility reply ∈ sys.toClient →
    ∃ call ∈ calls events, Answered events call reply
  pending : ∀ callId reply, sys.client.pending.find callId = some reply →
    ∃ call ∈ calls events, call.callId = callId ∧ Answered events call reply

theorem turn_replies {input : Option Input} {frames : List (Frame V)} {proc' : EngineCoreProc H}
    (hturn : proc.Turn input frames proc') {reply : UtilityReply V}
    (hreply : Frame.utility reply ∈ frames) :
    ∃ call, input = some (.utility call) ∧ reply.callId = call.callId := by
  cases hturn with
  | @handle _ reading input _ hok =>
      cases input with
      | add args =>
          obtain ⟨rfl, -⟩ := EngineCoreProc.handle_add hok
          cases hreply
      | abort requestIds =>
          obtain ⟨rfl, -⟩ := EngineCoreProc.handle_abort hok
          cases hreply
      | utility call =>
          obtain ⟨rfl, -⟩ := EngineCoreProc.handle_utility hok
          obtain heq := List.mem_singleton.mp hreply
          cases heq
          exact ⟨call, rfl, EngineCoreProc.callUtility_callId call⟩
  | step hrunning hwork hok =>
      obtain ⟨outputs, -, rfl⟩ := EngineCoreProc.stepOnce_ok hok
      obtain ⟨_, -, heq⟩ := List.mem_map.mp hreply
      cases heq
  | compile r result => cases hreply

omit [DecidableEq H] in
theorem calls_snoc (events : List (SyncEvent V)) (event : SyncEvent V) :
    calls (events ++ [event]) = calls events ++ event.calls := by
  simp [calls]

omit [DecidableEq H] in
theorem Answered.later {call : UtilityCall} {reply : UtilityReply V}
    (h : Answered events call reply) (event : SyncEvent V) :
    Answered (events ++ [event]) call reply := by
  obtain ⟨frames, hmem, hreply, hid⟩ := h
  exact ⟨frames, List.mem_append_left _ hmem, hreply, hid⟩

omit [DecidableEq H] in
/-- No call is made, and a reply that is new answers one. -/
theorem Numbered.keep (h : Numbered events sys) (hcalls : event.calls = [])
    (hnext : sys.client.nextCallId ≤ sys'.client.nextCallId)
    (hclosed : sys'.client.closed = sys.client.closed)
    (hsent : ∀ call, Input.utility call ∈ sys'.toEngine → Input.utility call ∈ sys.toEngine)
    (harriving : ∀ reply, Frame.utility reply ∈ sys'.toClient →
      Frame.utility reply ∈ sys.toClient ∨
        ∃ call ∈ calls events, Answered (events ++ [event]) call reply)
    (hpending : ∀ callId reply, sys'.client.pending.find callId = some reply →
      sys.client.pending.find callId = some reply ∨
        reply.callId = callId ∧ Frame.utility reply ∈ sys.toClient) :
    Numbered (events ++ [event]) sys' := by
  have hsame : calls (events ++ [event]) = calls events := by
    rw [calls_snoc, hcalls, List.append_nil]
  constructor
  · rw [hsame]
    exact h.nodup
  · exact h.nonneg.trans hnext
  · rw [hsame]
    exact fun call hcall => (h.below call hcall).trans hnext
  · rw [hsame, hclosed]
    exact h.positive
  · rw [hsame]
    exact fun call hcall => h.sent call (hsent call hcall)
  · rw [hsame]
    intro reply hreply
    rcases harriving reply hreply with hold | hnew
    · obtain ⟨call, hcall, hanswered⟩ := h.arriving reply hold
      exact ⟨call, hcall, hanswered.later event⟩
    · exact hnew
  · rw [hsame]
    intro callId reply hreply
    rcases hpending callId reply hreply with hold | ⟨rfl, hread⟩
    · obtain ⟨call, hcall, hid, hanswered⟩ := h.pending callId reply hold
      exact ⟨call, hcall, hid, hanswered.later event⟩
    · obtain ⟨call, hcall, hanswered⟩ := h.arriving reply hread
      obtain ⟨_, _, _, hid⟩ := id hanswered
      exact ⟨call, hcall, hid.symm, hanswered.later event⟩

omit [DecidableEq H] in
/-- A call is made under a number that is new. -/
theorem Numbered.call (h : Numbered events sys) {call : UtilityCall}
    (hcalls : event.calls = [call]) (hnew : ∀ other ∈ calls events, other.callId ≠ call.callId)
    (hnext : sys.client.nextCallId ≤ sys'.client.nextCallId)
    (hbelow : call.callId ≤ sys'.client.nextCallId)
    (hpositive : sys'.client.closed = false → sys.client.closed = false ∧ 0 < call.callId)
    (hsent : sys'.toEngine = sys.toEngine ++ [.utility call])
    (harriving : sys'.toClient = sys.toClient)
    (hpending : sys'.client.pending = sys.client.pending) :
    Numbered (events ++ [event]) sys' := by
  have hmore : calls (events ++ [event]) = calls events ++ [call] := by
    rw [calls_snoc, hcalls]
  constructor
  · rw [hmore, List.map_append]
    apply h.nodup.append (List.nodup_singleton _)
    intro id hid hid'
    obtain ⟨other, hother, rfl⟩ := List.mem_map.mp hid
    exact hnew other hother (List.mem_singleton.mp hid')
  · exact h.nonneg.trans hnext
  · rw [hmore]
    intro other hother
    rcases List.mem_append.mp hother with hold | hother
    · exact (h.below other hold).trans hnext
    · obtain rfl := List.mem_singleton.mp hother
      exact hbelow
  · rw [hmore]
    intro hopen other hother
    obtain ⟨hopened, hpos⟩ := hpositive hopen
    rcases List.mem_append.mp hother with hold | hother
    · exact h.positive hopened other hold
    · obtain rfl := List.mem_singleton.mp hother
      exact hpos
  · rw [hmore, hsent]
    intro other hother
    rcases List.mem_append.mp hother with hold | hother
    · exact List.mem_append_left _ (h.sent other hold)
    · cases List.mem_singleton.mp hother
      exact List.mem_append_right _ List.mem_cons_self
  · rw [hmore, harriving]
    intro reply hreply
    obtain ⟨other, hother, hanswered⟩ := h.arriving reply hreply
    exact ⟨other, List.mem_append_left _ hother, hanswered.later event⟩
  · rw [hmore, hpending]
    intro callId reply hreply
    obtain ⟨other, hother, hid, hanswered⟩ := h.pending callId reply hreply
    exact ⟨other, List.mem_append_left _ hother, hid, hanswered.later event⟩

omit [DecidableEq H] in
theorem Numbered.callId_new (h : Numbered events sys) :
    ∀ other ∈ calls events, other.callId ≠ sys.callId := by
  intro other hother heq
  have hle := h.below other hother
  have hnext : sys.callId = sys.client.nextCallId + 1 := rfl
  omega

omit [DecidableEq H] in
theorem Numbered.callNext (h : Numbered events sys)
    (halive : sys.client.checkAlive sys.exitcode = .ok ()) (method : String) (inside : Bool) :
    Numbered (events ++ [.called ⟨sys.callId, method⟩])
      (sys.call ⟨sys.callId, method⟩ inside) := by
  have hopen := (MPClient.checkAlive_eq_ok.mp halive).1
  have hnonneg := h.nonneg
  refine h.call rfl h.callId_new ?_ ?_ ?_ rfl rfl rfl
  · show sys.client.nextCallId ≤ sys.client.nextCallId + 1
    omega
  · exact le_refl (sys.client.nextCallId + 1)
  · intro _
    refine ⟨hopen, ?_⟩
    show 0 < sys.client.nextCallId + 1
    omega

theorem consume_pending {client base : MPClient V} {frame : Frame V}
    {result : Except PyError (Option (ℕ × List EngineCoreOutput))}
    (h : client.consume frame = (result, base)) :
    base.nextCallId = client.nextCallId ∧ base.closed = client.closed ∧
      ∀ callId reply, base.pending.find callId = some reply →
        client.pending.find callId = some reply ∨
          reply.callId = callId ∧ frame = .utility reply := by
  cases frame with
  | outputs engineIndex told =>
      obtain ⟨-, rfl⟩ := Prod.mk.inj h
      exact ⟨rfl, rfl, fun _ _ hfind => .inl hfind⟩
  | dead error =>
      obtain ⟨-, rfl⟩ := Prod.mk.inj h
      exact ⟨rfl, rfl, fun _ _ hfind => .inl hfind⟩
  | utility reply =>
      obtain ⟨-, rfl⟩ := Prod.mk.inj h
      refine ⟨rfl, rfl, fun callId reply' hfind => ?_⟩
      rw [Dict.find_store] at hfind
      split at hfind
      · rename_i heq
        obtain rfl := Option.some.inj hfind
        exact .inr ⟨heq.symm, rfl⟩
      · exact .inl hfind

omit [DecidableEq H] in
/-- A frame is read, and kept if it is a reply. -/
theorem Numbered.read (h : Numbered events sys) (hcalls : event.calls = []) {frame : Frame V}
    {rest : List (Frame V)} (harrived : sys.toClient = frame :: rest) {base : MPClient V}
    {result : Except PyError (Option (ℕ × List EngineCoreOutput))}
    (hconsumed : sys.client.toMPClient.consume frame = (result, base))
    (hbase : sys'.client.toMPClient = base) (hsent : sys'.toEngine = sys.toEngine)
    (hrest : sys'.toClient = rest) : Numbered (events ++ [event]) sys' := by
  obtain ⟨hnext, hclosed, hpending⟩ := consume_pending hconsumed
  refine h.keep hcalls ?_ ?_ ?_ ?_ ?_
  · rw [hbase, hnext]
  · rw [hbase, hclosed]
  · rw [hsent]
    exact fun _ hcall => hcall
  · rw [hrest, harrived]
    exact fun reply hreply => .inl (List.mem_cons_of_mem _ hreply)
  · rw [hbase, harrived]
    intro callId reply hfind
    rcases hpending callId reply hfind with hold | ⟨hid, rfl⟩
    · exact .inl hold
    · exact .inr ⟨hid, List.mem_cons_self⟩

theorem holdFrame_consume {client client' : SyncMPClient V} {frame : Frame V}
    {result : Except PyError Unit} (h : client.holdFrame frame = (result, client')) :
    ∃ result, client.toMPClient.consume frame = (result, client'.toMPClient) := by
  cases frame with
  | outputs engineIndex told =>
      obtain ⟨-, rfl⟩ := Prod.mk.inj h
      exact ⟨_, rfl⟩
  | utility reply =>
      obtain ⟨-, rfl⟩ := Prod.mk.inj h
      exact ⟨_, rfl⟩
  | dead error =>
      obtain ⟨-, rfl⟩ := Prod.mk.inj h
      exact ⟨_, rfl⟩

theorem Numbered.turned (h : Numbered events sys) {input : Option Input} {frames : List (Frame V)}
    {proc' : EngineCoreProc H} (hturn : sys.proc.Turn input frames proc') {rest : List Input}
    (hinput : ∀ next ∈ input, next ∈ sys.toEngine) (hrest : rest ⊆ sys.toEngine) :
    Numbered (events ++ [.turned input frames]) { sys with
      proc := proc', toEngine := rest, toClient := sys.toClient ++ frames } := by
  refine h.keep rfl le_rfl rfl (fun _ hcall => hrest hcall) ?_ (fun _ _ hfind => .inl hfind)
  intro reply hreply
  rcases List.mem_append.mp hreply with hold | hnew
  · exact .inl hold
  · obtain ⟨call, rfl, hid⟩ := turn_replies hturn hnew
    exact .inr ⟨call, h.sent call (hinput _ rfl), frames,
      List.mem_append_right _ List.mem_cons_self, hnew, hid⟩

theorem Step.numbered (h : Numbered events sys) (hstep : Step sys event sys') :
    Numbered (events ++ [event]) sys' := by
  cases hstep with
  | addRequest args hidle halive =>
      refine h.keep rfl le_rfl rfl ?_ (fun _ hreply => .inl hreply) (fun _ _ hfind => .inl hfind)
      intro call hcall
      rcases List.mem_append.mp hcall with hold | hnew
      · exact hold
      · cases List.mem_singleton.mp hnew
  | abortRequests hids hidle halive =>
      refine h.keep rfl le_rfl rfl ?_ (fun _ hreply => .inl hreply) (fun _ _ hfind => .inl hfind)
      intro call hcall
      rcases List.mem_append.mp hcall with hold | hnew
      · exact hold
      · cases List.mem_singleton.mp hnew
  | shutdown hidle hopen =>
      refine h.call rfl ?_ le_rfl ?_ nofun rfl rfl rfl
      · -- the call for the end is numbered below zero, and every other above
        intro other hother heq
        have hpos := h.positive hopen other hother
        rw [heq] at hpos
        exact absurd hpos (by decide)
      · exact (show (-1 : ℤ) ≤ 0 by decide).trans h.nonneg
  | callUtility method hidle halive => exact h.callNext halive method false
  | pollNothing hpolling halive => exact h.callNext halive "has_requests" true
  | callRefused hdoing hdead =>
      refine h.keep rfl ?_ rfl (fun _ hcall => hcall) (fun _ hreply => .inl hreply)
        (fun _ _ hfind => .inl hfind)
      exact (lt_add_one sys.client.nextCallId).le
  | takeReply hwaiting hreply =>
      refine h.keep rfl le_rfl rfl (fun _ hcall => hcall) (fun _ hreply => .inl hreply) ?_
      intro callId' reply' hfind
      exact .inl (Dict.find_of_find_delete hfind)
  | waitFrame hwaiting hnone halive harrived hheld =>
      obtain ⟨result, hconsumed⟩ := holdFrame_consume hheld
      exact h.read rfl harrived hconsumed rfl rfl rfl
  | waitRaises hwaiting halive harrived hheld =>
      obtain ⟨result, hconsumed⟩ := holdFrame_consume hheld
      exact h.read rfl harrived hconsumed rfl rfl rfl
  | pollOutputs hpolling halive harrived hconsumed =>
      exact h.read rfl harrived hconsumed rfl rfl rfl
  | pollReply hpolling halive harrived hconsumed =>
      exact h.read rfl harrived hconsumed rfl rfl rfl
  | pollRaises hpolling halive harrived hconsumed =>
      exact h.read rfl harrived hconsumed rfl rfl rfl
  | handle hlives hnext hturn =>
      refine h.turned hturn ?_ ?_
      · intro next hmem
        rw [hnext, Option.mem_some_iff.mp hmem]
        exact List.mem_cons_self
      · rw [hnext]
        exact List.subset_cons_self _ _
  | work hlives hturn => exact h.turned hturn nofun (List.Subset.refl _)
  | @die _ e code ahead overtaken hlives hinput hraises hframes =>
      refine h.keep rfl le_rfl rfl (fun _ hcall => hcall) ?_ (fun _ _ hfind => .inl hfind)
      intro reply hreply
      rcases List.mem_append.mp hreply with hold | hlast
      · rw [hframes]
        exact .inl (List.mem_append_left _ hold)
      · cases List.mem_singleton.mp hlast
  | exit code hlives hframes =>
      refine h.keep rfl le_rfl rfl (fun _ hcall => hcall) ?_ (fun _ _ hfind => .inl hfind)
      intro reply hreply
      rw [hframes]
      exact .inl (List.mem_append_left _ hreply)
  | giveUp hwaiting hnone =>
      exact h.keep rfl le_rfl rfl (fun _ hcall => hcall) (fun _ hreply => .inl hreply)
        (fun _ _ hfind => .inl hfind)
  | popBuffered hdoing hbuffered =>
      exact h.keep rfl le_rfl rfl (fun _ hcall => hcall) (fun _ hreply => .inl hreply)
        (fun _ _ hfind => .inl hfind)
  | poll hdoing hbuffered =>
      exact h.keep rfl le_rfl rfl (fun _ hcall => hcall) (fun _ hreply => .inl hreply)
        (fun _ _ hfind => .inl hfind)
  | pollDead hpolling hdead =>
      exact h.keep rfl le_rfl rfl (fun _ hcall => hcall) (fun _ hreply => .inl hreply)
        (fun _ _ hfind => .inl hfind)
  | noWork hchecked =>
      exact h.keep rfl le_rfl rfl (fun _ hcall => hcall) (fun _ hreply => .inl hreply)
        (fun _ _ hfind => .inl hfind)

theorem run_numbered (hrun : Run Step (start proc) events sys) : Numbered events sys := by
  induction hrun with
  | nil =>
      exact ⟨List.nodup_nil, le_refl 0, nofun, nofun, nofun, nofun, nofun⟩
  | snoc _ hstep ih => exact hstep.numbered ih

/-- A reply is awaited for the last call. -/
def Awaiting (events : List (SyncEvent V)) (sys : SyncSystem H V) : Prop :=
  ∀ callId inside, sys.doing = .waiting callId inside →
    ∃ call, (calls events).getLast? = some call ∧ call.callId = callId

theorem Step.awaiting (h : Awaiting events sys) (hstep : Step sys event sys') :
    Awaiting (events ++ [event]) sys' := by
  have hkept : event.calls = [] → sys'.doing = sys.doing → Awaiting (events ++ [event]) sys' := by
    intro hcalls hdoing
    unfold Awaiting
    rw [calls_snoc, hcalls, List.append_nil, hdoing]
    exact h
  cases hstep with
  | callUtility method hidle halive =>
      intro callId inside hwaiting
      cases hwaiting
      exact ⟨⟨sys.callId, method⟩, by rw [calls_snoc]; exact List.getLast?_concat, rfl⟩
  | pollNothing hpolling halive =>
      intro callId inside hwaiting
      cases hwaiting
      exact ⟨⟨sys.callId, "has_requests"⟩, by rw [calls_snoc]; exact List.getLast?_concat, rfl⟩
  | shutdown hidle hopen =>
      intro callId inside hwaiting
      rw [show sys.doing = _ from hwaiting] at hidle
      cases hidle
  | takeReply hwaiting hreply =>
      intro callId inside h
      dsimp only at h
      split at h <;> cases h
  | addRequest args hidle halive => exact hkept rfl rfl
  | abortRequests hids hidle halive => exact hkept rfl rfl
  | waitFrame hwaiting hnone halive harrived hheld => exact hkept rfl rfl
  | pollReply hpolling halive harrived hconsumed => exact hkept rfl rfl
  | handle hlives hnext hturn => exact hkept rfl rfl
  | work hlives hturn => exact hkept rfl rfl
  | die code hlives hinput hraises hframes => exact hkept rfl rfl
  | exit code hlives hframes => exact hkept rfl rfl
  | _ => nofun

theorem run_awaiting (hrun : Run Step (start proc) events sys) : Awaiting events sys := by
  induction hrun with
  | nil => nofun
  | snoc _ hstep ih => exact hstep.awaiting ih

theorem run_replied (hrun : Run Step (start proc) events sys) {before after : List (SyncEvent V)}
    {callId : ℤ} {reply : UtilityReply V}
    (heq : events = before ++ .replied callId reply :: after) :
    ∃ call, (calls before).getLast? = some call ∧ call.callId = callId ∧
      Answered before call reply := by
  subst heq
  obtain ⟨mid, hbefore, hrest⟩ := hrun.split
  obtain ⟨mid', hone, -⟩ : ∃ mid', Run Step mid [.replied callId reply] mid' ∧
    Run Step mid' after sys := hrest.split
  have hnumbered := run_numbered hbefore
  cases hone.single with
  | takeReply hwaiting hreply =>
      obtain ⟨call, hlast, hid⟩ := run_awaiting hbefore callId _ hwaiting
      obtain ⟨other, hother, hid', hanswered⟩ := hnumbered.pending callId reply hreply
      have hcall := List.mem_of_getLast? hlast
      obtain rfl := List.inj_on_of_nodup_map hnumbered.nodup hcall hother (hid.trans hid'.symm)
      exact ⟨call, hlast, hid, hanswered⟩

/-! ### Calls for outputs -/

/-- Only an engine that died says so. -/
def Spared (sys : SyncSystem H V) : Prop :=
  sys.exitcode = none → ∀ error, Frame.dead error ∉ sys.toClient

theorem turn_spares {input : Option Input} {frames : List (Frame V)} {proc' : EngineCoreProc H}
    (hturn : proc.Turn input frames proc') (error : String) : Frame.dead error ∉ frames := by
  intro hmem
  cases hturn with
  | @handle _ reading input _ hok =>
      cases input with
      | add args =>
          obtain ⟨rfl, -⟩ := EngineCoreProc.handle_add hok
          cases hmem
      | abort requestIds =>
          obtain ⟨rfl, -⟩ := EngineCoreProc.handle_abort hok
          cases hmem
      | utility call =>
          obtain ⟨rfl, -⟩ := EngineCoreProc.handle_utility hok
          cases List.mem_singleton.mp hmem
  | step hrunning hwork hok =>
      obtain ⟨outputs, -, rfl⟩ := EngineCoreProc.stepOnce_ok hok
      obtain ⟨_, -, heq⟩ := List.mem_map.mp hmem
      cases heq
  | compile r result => cases hmem

theorem Step.spared (h : Spared sys) (hstep : Step sys event sys') : Spared sys' := by
  have hread : ∀ {frame : Frame V} {rest : List (Frame V)}, sys.toClient = frame :: rest →
      sys'.toClient = rest → sys'.exitcode = sys.exitcode → Spared sys' := by
    intro frame rest harrived hrest hexit hlives error hmem
    rw [hrest] at hmem
    exact h (hexit ▸ hlives) error (harrived ▸ List.mem_cons_of_mem _ hmem)
  cases hstep with
  | waitFrame hwaiting hnone halive harrived hheld => exact hread harrived rfl rfl
  | waitRaises hwaiting halive harrived hheld => exact hread harrived rfl rfl
  | pollOutputs hpolling halive harrived hconsumed => exact hread harrived rfl rfl
  | pollReply hpolling halive harrived hconsumed => exact hread harrived rfl rfl
  | pollRaises hpolling halive harrived hconsumed => exact hread harrived rfl rfl
  | handle hlives hnext hturn =>
      intro _ error hmem
      rcases List.mem_append.mp hmem with hold | hnew
      · exact h hlives error hold
      · exact turn_spares hturn error hnew
  | work hlives hturn =>
      intro _ error hmem
      rcases List.mem_append.mp hmem with hold | hnew
      · exact h hlives error hold
      · exact turn_spares hturn error hnew
  | die code hlives hinput hraises hframes => nofun
  | exit code hlives hframes => nofun
  | _ => exact h

theorem run_spared (hrun : Run Step (start proc) events sys) : Spared sys := by
  induction hrun with
  | nil => exact fun _ _ hmem => nomatch hmem
  | snoc _ hstep ih => exact hstep.spared ih

theorem exists_poll {frames : List (Frame V)} (hframes : sys.toClient = frames)
    (hpolling : sys.doing = .polling) (halive : sys.client.checkAlive sys.exitcode = .ok ())
    (hspared : ∀ error, Frame.dead error ∉ frames) {next : ℕ × List EngineCoreOutput}
    {rest : List (ℕ × List EngineCoreOutput)}
    (hnext : frames.filterMap Frame.outputs? = next :: rest) :
    ∃ events sys', Run Step sys events sys' ∧ delivered events = [next] ∧ emitted events = [] ∧
      sys'.doing = .idle := by
  induction frames generalizing sys with
  | nil => cases hnext
  | cons frame frames ih =>
      cases frame with
      | outputs engineIndex told =>
          obtain ⟨rfl, -⟩ := List.cons.inj hnext
          exact ⟨_, _, Run.nil.snoc (.pollOutputs hpolling halive hframes rfl), rfl, rfl, rfl⟩
      | dead error => exact absurd List.mem_cons_self (hspared error)
      | utility reply =>
          let base := (sys.client.toMPClient.consume (.utility reply)).2
          let mid : SyncSystem H V := { sys with
            client := { sys.client with toMPClient := base }, toClient := frames }
          have hstep : Step sys .other mid := .pollReply hpolling halive hframes rfl
          obtain ⟨events, sys', hrun, hdelivered, hemitted, hidle⟩ := @ih mid rfl hpolling halive
            (fun error hmem => hspared error (List.mem_cons_of_mem _ hmem)) hnext
          exact ⟨_, sys', (Run.nil.snoc hstep).append hrun, hdelivered, hemitted, hidle⟩

/-- In every run the outputs are returned in the order they were emitted, each once, but for those
that were not read when the engine ended; a utility call gets the answer to itself; and a call for
outputs can return the next, as long as the engine lives. -/
theorem frames_run (hrun : Run Step (start proc) events sys) :
    (∃ lost, emitted events = delivered events ++ sys.held ++ lost ∧
      (sys.exitcode = none → lost = [])) ∧
    (∀ before after callId reply, events = before ++ .replied callId reply :: after →
      ∃ call, (calls before).getLast? = some call ∧ call.callId = callId ∧
        Answered before call reply) ∧
    ∀ next rest, sys.doing = .idle → sys.client.checkAlive sys.exitcode = .ok () →
      emitted events = delivered events ++ next :: rest →
      ∃ later sys', Run Step sys later sys' ∧ delivered later = [next] ∧ emitted later = [] ∧
        sys'.doing = .idle := by
  obtain ⟨⟨lost, hlost, hlives⟩, hpolling⟩ := run_delivered hrun
  refine ⟨⟨lost, hlost, hlives⟩, fun _ _ _ _ heq => run_replied hrun heq, ?_⟩
  intro next rest hidle halive hnext
  have hlive := (MPClient.checkAlive_eq_ok.mp halive).2.2
  rw [hlost, hlives hlive, List.append_nil, List.append_cancel_left_eq] at hnext
  unfold held at hnext
  match hbuffered : sys.client.buffered with
  | outputs :: others =>
      rw [hbuffered] at hnext
      obtain ⟨rfl, -⟩ := List.cons.inj hnext
      exact ⟨_, _, Run.nil.snoc (.popBuffered (.inl hidle) hbuffered), rfl, rfl, rfl⟩
  | [] =>
      rw [hbuffered, List.nil_append] at hnext
      let mid : SyncSystem H V := { sys with doing := .polling }
      have hstep : Step sys .other mid := .poll (.inl hidle) hbuffered
      have hspared := run_spared hrun hlive
      obtain ⟨later, sys', hlater, hdelivered, hemitted, hdone⟩ :=
        @exists_poll H V _ mid _ rfl rfl halive hspared _ _ hnext
      exact ⟨_, sys', (Run.nil.snoc hstep).append hlater, hdelivered, hemitted, hdone⟩

/-! ### A request whose engine ends -/

/-- The engine is gone, and nothing was set aside. -/
structure Stranded (sys : SyncSystem H V) : Prop where
  gone : sys.exitcode ≠ none
  buffered : sys.client.buffered = []
  doing : sys.doing = .idle ∨ sys.doing = .polling

theorem Stranded.step (h : Stranded sys) (hstep : Step sys event sys') :
    event.delivered = [] ∧ Stranded sys' := by
  have hdead : sys.client.checkAlive sys.exitcode ≠ .ok () := fun halive =>
    h.gone (MPClient.checkAlive_eq_ok.mp halive).2.2
  have hwaits : ∀ callId inside, sys.doing ≠ .waiting callId inside := by
    intro callId inside hwaiting
    rcases h.doing with hidle | hpolling
    · cases hidle.symm.trans hwaiting
    · cases hpolling.symm.trans hwaiting
  cases hstep with
  | addRequest args hidle halive => exact absurd halive hdead
  | abortRequests hids hidle halive => exact absurd halive hdead
  | shutdown hidle hopen => exact ⟨rfl, h.gone, h.buffered, h.doing⟩
  | callUtility method hidle halive => exact absurd halive hdead
  | callRefused hdoing hrefused => exact ⟨rfl, h.gone, h.buffered, .inl rfl⟩
  | takeReply hwaiting hreply => exact absurd hwaiting (hwaits _ _)
  | waitFrame hwaiting hnone halive harrived hheld => exact absurd halive hdead
  | waitRaises hwaiting halive harrived hheld => exact absurd halive hdead
  | giveUp hwaiting hnone => exact absurd hwaiting (hwaits _ _)
  | popBuffered hdoing hbuffered =>
      rw [h.buffered] at hbuffered
      cases hbuffered
  | poll hdoing hbuffered => exact ⟨rfl, h.gone, h.buffered, .inr rfl⟩
  | pollDead hpolling hrefused => exact ⟨rfl, h.gone, h.buffered, .inl rfl⟩
  | pollNothing hpolling halive => exact absurd halive hdead
  | pollOutputs hpolling halive harrived hconsumed => exact absurd halive hdead
  | pollReply hpolling halive harrived hconsumed => exact absurd halive hdead
  | pollRaises hpolling halive harrived hconsumed => exact absurd halive hdead
  | noWork hchecked =>
      rcases h.doing with hidle | hpolling
      · cases hidle.symm.trans hchecked
      · cases hpolling.symm.trans hchecked
  | handle hlives hnext hturn => exact absurd hlives h.gone
  | work hlives hturn => exact absurd hlives h.gone
  | die code hlives hinput hraises hframes => exact absurd hlives h.gone
  | exit code hlives hframes => exact absurd hlives h.gone

theorem Stranded.run (h : Stranded sys) (hrun : Run Step sys events sys') :
    delivered events = [] ∧ Stranded sys' := by
  induction hrun with
  | nil => exact ⟨rfl, h⟩
  | snoc _ hstep ih =>
      obtain ⟨hnone, hstranded⟩ := ih.2.step hstep
      rw [delivered_snoc, ih.1, hnone]
      exact ⟨rfl, hstranded⟩

theorem exists_emitted : ∃ (proc : EngineCoreProc Digest) (events : List (SyncEvent Unit))
    (sys : SyncSystem Digest Unit) (outputs : ℕ × List EngineCoreOutput), proc.core.Started ∧
      Run Step (start proc) events sys ∧ emitted events = [outputs] ∧ delivered events = [] ∧
      sys.client = .init ∧ sys.doing = .idle ∧ sys.exitcode = none := by
  obtain ⟨proc, proc₁, proc₂, frame, hstarted, hhandle, hstep, hframe⟩ :=
    AsyncSystem.exists_oneRequest
  have hstart : Run Step (start proc : SyncSystem Digest Unit) [] (start proc) := .nil
  have hadd := hstart.snoc (.addRequest (.text 1 [1, 2, 3, 4, 5] 1) rfl rfl)
  have hhandled := hadd.snoc (.handle rfl rfl hhandle)
  have hworked := hhandled.snoc (.work rfl hstep)
  cases frame with
  | outputs engineIndex told =>
      exact ⟨proc, _, _, (engineIndex, told), hstarted, hworked, rfl, rfl, rfl, rfl, rfl⟩
  | utility reply => cases hframe
  | dead error => cases hframe

/-- The engine ends, and the outputs it sent are never returned. -/
theorem frames_unread : ∃ (proc : EngineCoreProc Digest) (events : List (SyncEvent Unit))
    (sys : SyncSystem Digest Unit) (outputs : ℕ × List EngineCoreOutput), proc.core.Started ∧
      Run Step (start proc) events sys ∧ outputs ∈ emitted events ∧
      ∀ later sys', Run Step sys later sys' → delivered (events ++ later) = [] := by
  obtain ⟨proc, events, sys, outputs, hstarted, hrun, hemitted, hdelivered,
    hclient, hidle, hlives⟩ := exists_emitted
  have hexit := hrun.snoc (.exit 0 hlives (List.append_nil _).symm)
  refine ⟨proc, _, _, outputs, hstarted, hexit, ?_, ?_⟩
  · rw [emitted_snoc, hemitted]
    exact List.mem_cons_self
  · intro later sys' hlater
    have hstranded : Stranded { sys with exitcode := some 0 } :=
      ⟨nofun, by rw [hclient]; rfl, .inl hidle⟩
    have hnone := (hstranded.run hlater).1
    unfold delivered at hnone hdelivered ⊢
    rw [List.flatMap_append, List.flatMap_append, hdelivered, hnone]
    rfl

/-- Before that, a call for outputs returns them. -/
theorem frames_run_returned : ∃ (proc : EngineCoreProc Digest) (events : List (SyncEvent Unit))
    (sys : SyncSystem Digest Unit) (outputs : ℕ × List EngineCoreOutput), proc.core.Started ∧
      Run Step (start proc) events sys ∧ emitted events = [outputs] ∧
      ∃ later sys', Run Step sys later sys' ∧ delivered later = [outputs] := by
  obtain ⟨proc, events, sys, outputs, hstarted, hrun, hemitted, hdelivered,
    hclient, hidle, hlives⟩ := exists_emitted
  have halive : sys.client.checkAlive sys.exitcode = .ok () := by
    rw [hclient, hlives]
    rfl
  obtain ⟨-, -, hreturns⟩ := frames_run hrun
  obtain ⟨later, sys', hlater, hreturned, -, -⟩ := hreturns outputs [] hidle halive (by
    rw [hemitted, hdelivered]
    rfl)
  exact ⟨proc, events, sys, outputs, hstarted, hrun, hemitted, later, sys', hlater, hreturned⟩

end SyncSystem

end Pvllm

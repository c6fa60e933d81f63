import Pvllm.Engine.EncoderAgreement
import Pvllm.Engine.MPClient
import Pvllm.Library.LabelledRun
import Mathlib.Data.List.Perm.Subperm

/-!
The client that is awaited: a thread reads the socket, and the client counts its requests.

A call sends its message and then counts, while the thread may read a frame between the
two. The count is compared with the requests that were submitted, and that neither an
abort nor a frame told of since. Submissions are numbered, so that an id used again names
another request; the numbers are not on the wire.
-/

namespace Pvllm

variable {H V : Type} [DecidableEq H]

/-! ### The client -/

/-- What a call has sent and not yet counted. -/
inductive Noting where
  | submitted (number : ℕ) (requestId : RequestId)
  | aborted (requestIds : List RequestId)

structure AsyncMPClient (V : Type) extends MPClient V where
  frames : List (ℕ × List EngineCoreOutput)
  outstanding : ℤ

namespace AsyncMPClient

def init : AsyncMPClient V where
  toMPClient := .init
  frames := []
  outstanding := 0

variable (client : AsyncMPClient V)

def noteSubmitted : AsyncMPClient V :=
  { client with outstanding := client.outstanding + 1 }

def noteAborted (count : ℕ) : AsyncMPClient V :=
  { client with outstanding := max 0 (client.outstanding - count) }

def note : Noting → AsyncMPClient V
  | .submitted _ _ => client.noteSubmitted
  | .aborted requestIds => client.noteAborted requestIds.length

/-- The thread's part: outputs are queued, and what they finish is counted off. -/
def readFrame (frame : Frame V) : AsyncMPClient V :=
  match client.toMPClient.consume frame with
  | (.ok (some (engineIndex, outputs)), base) => { client with
      toMPClient := base
      outstanding := client.outstanding - (outputs.filter (·.finishReason.isSome)).length
      frames := client.frames ++ [(engineIndex, outputs)] }
  | (_, base) => { client with toMPClient := base }

def hasRequests : Bool :=
  decide (0 < client.outstanding) || !client.frames.isEmpty

end AsyncMPClient

/-! ### The client and the engine process -/

/-- The two processes and the messages between them, in order. A message to the engine comes with
the number of its submission, a frame with the numbers the engine knew its requests by. -/
structure AsyncSystem (H V : Type) where
  client : AsyncMPClient V
  noting : Option Noting
  submissions : ℕ
  toEngine : List (ℕ × Input)
  proc : EngineCoreProc H
  numbers : RequestId → ℕ
  exitcode : Option ℤ
  toClient : List ((RequestId → ℕ) × Frame V)

/-- The events the count is about. -/
inductive AsyncEvent (V : Type) where
  | noted (noting : Noting)
  | read (numberOf : RequestId → ℕ) (frame : Frame V)
  | other

namespace AsyncSystem

def start (proc : EngineCoreProc H) : AsyncSystem H V where
  client := .init
  noting := none
  submissions := 0
  toEngine := []
  proc := proc
  numbers := fun _ => 0
  exitcode := none
  toClient := []

variable (sys : AsyncSystem H V)

def send (input : Input) : AsyncSystem H V :=
  { sys with toEngine := sys.toEngine ++ [(sys.submissions, input)] }

/-- The engine knows a request by the number of its last submission. -/
def numbersAfter (number : ℕ) : Input → RequestId → ℕ
  | .add args => Function.update sys.numbers args.requestId number
  | _ => sys.numbers

def turned (proc : EngineCoreProc H) (numbers : RequestId → ℕ) (frames : List (Frame V)) :
    AsyncSystem H V :=
  { sys with
    proc := proc
    numbers := numbers
    toClient := sys.toClient ++ frames.map fun frame => (numbers, frame) }

inductive Step : AsyncSystem H V → AsyncEvent V → AsyncSystem H V → Prop
  | addRequest {sys : AsyncSystem H V} (args : RequestArgs) (hidle : sys.noting = none)
      (halive : sys.client.checkAlive sys.exitcode = .ok ()) :
      Step sys .other { sys.send (.add args) with
        noting := some (.submitted sys.submissions args.requestId)
        submissions := sys.submissions + 1 }
  | abortRequests {sys : AsyncSystem H V} {requestIds : List RequestId} (hids : requestIds ≠ [])
      (hidle : sys.noting = none) (halive : sys.client.checkAlive sys.exitcode = .ok ()) :
      Step sys .other { sys.send (.abort requestIds) with noting := some (.aborted requestIds) }
  | note {sys : AsyncSystem H V} {noting : Noting} (hnoting : sys.noting = some noting) :
      Step sys (.noted noting) { sys with noting := none, client := sys.client.note noting }
  | callAsync {sys : AsyncSystem H V} (method : String) (hidle : sys.noting = none)
      (halive : sys.client.checkAlive sys.exitcode = .ok ()) :
      Step sys .other { sys.send (.utility ⟨sys.client.takeCallId.1, method⟩) with
        client := { sys.client with toMPClient := sys.client.takeCallId.2 } }
  | takeReply {sys : AsyncSystem H V} {callId : ℤ} {reply : UtilityReply V}
      (hidle : sys.noting = none) (hreply : sys.client.pending.find callId = some reply) :
      Step sys .other { sys with client := { sys.client with
        pending := sys.client.pending.delete callId } }
  | getOutput {sys : AsyncSystem H V} {outputs : ℕ × List EngineCoreOutput}
      {rest : List (ℕ × List EngineCoreOutput)} (hidle : sys.noting = none)
      (halive : sys.client.checkAlive sys.exitcode = .ok ())
      (hframes : sys.client.frames = outputs :: rest) :
      Step sys .other { sys with client := { sys.client with frames := rest } }
  | shutdown {sys : AsyncSystem H V} (hidle : sys.noting = none) :
      Step sys .other { sys.send (.utility ⟨-1, "shutdown"⟩) with
        client := { sys.client with closed := true } }
  | readFrame {sys : AsyncSystem H V} {numberOf : RequestId → ℕ} {frame : Frame V}
      {rest : List ((RequestId → ℕ) × Frame V)} (hopen : sys.client.closed = false)
      (hreading : sys.client.deadError = none)
      (harrived : sys.toClient = (numberOf, frame) :: rest) :
      Step sys (.read numberOf frame)
        { sys with client := sys.client.readFrame frame, toClient := rest }
  | handle {sys : AsyncSystem H V} {number : ℕ} {input : Input} {rest : List (ℕ × Input)}
      {frames : List (Frame V)} {proc : EngineCoreProc H} (hlives : sys.exitcode = none)
      (hnext : sys.toEngine = (number, input) :: rest)
      (hturn : sys.proc.Turn (some input) frames proc) :
      Step sys .other { sys.turned proc (sys.numbersAfter number input) frames with
        toEngine := rest }
  | work {sys : AsyncSystem H V} {frames : List (Frame V)} {proc : EngineCoreProc H}
      (hlives : sys.exitcode = none) (hturn : sys.proc.Turn none frames proc) :
      Step sys .other (sys.turned proc sys.numbers frames)
  -- The last frame has a socket of its own. What it overtakes is never read.
  | die {sys : AsyncSystem H V} {input : Option Input} {e : PyError} (code : ℤ)
      {ahead overtaken : List ((RequestId → ℕ) × Frame V)} (hlives : sys.exitcode = none)
      (hinput : ∀ next ∈ input, ∃ number, (number, next) ∈ sys.toEngine.head?)
      (hraises : EngineCoreProc.Raises V sys.proc input e)
      (hframes : sys.toClient = ahead ++ overtaken) :
      Step sys .other { sys with
        exitcode := some code, toClient := ahead ++ [(sys.numbers, .dead e.describe)] }
  | exit {sys : AsyncSystem H V} (code : ℤ) {sent unsent : List ((RequestId → ℕ) × Frame V)}
      (hlives : sys.exitcode = none) (hframes : sys.toClient = sent ++ unsent) :
      Step sys .other { sys with exitcode := some code, toClient := sent }

end AsyncSystem

/-! ### The requests a count should have -/

def Frame.finished : Frame V → List RequestId
  | .outputs _ told => finishedIn told
  | _ => []

/-- The submissions that a call returned for, and the numbers of those aborted or reported. -/
structure Submissions where
  submitted : List (ℕ × RequestId)
  gone : List ℕ

namespace Submissions

variable (seen : Submissions)

/-- Submitted, and neither aborted since nor reported finished. -/
def unreported : List (ℕ × RequestId) :=
  seen.submitted.filter fun entry => !seen.gone.contains entry.1

def named (requestIds : List RequestId) : List (ℕ × RequestId) :=
  seen.submitted.filter fun entry => requestIds.contains entry.2

def after : AsyncEvent V → Submissions
  | .noted (.submitted number requestId) =>
    { seen with submitted := seen.submitted ++ [(number, requestId)] }
  | .noted (.aborted requestIds) =>
    { seen with gone := seen.gone ++ (seen.named requestIds).map Prod.fst }
  | .read numberOf frame => { seen with gone := seen.gone ++ frame.finished.map numberOf }
  | .other => seen

def ofEvents (events : List (AsyncEvent V)) : Submissions :=
  events.foldl after ⟨[], []⟩

/-- An event that does not cross another. An abort names each unreported request it takes out, once,
and nothing else, or all of them at once; a frame finishes unreported requests, each once. -/
def Clear : AsyncEvent V → Prop
  | .noted (.aborted requestIds) =>
    ((seen.unreported.filter fun entry => requestIds.contains entry.2).length =
        requestIds.length) ∨
      seen.unreported.length ≤ requestIds.length ∧
        ∀ entry ∈ seen.unreported, entry.2 ∈ requestIds
  | .read numberOf frame =>
    (frame.finished.map numberOf).Nodup ∧
      ∀ number ∈ frame.finished.map numberOf, number ∈ seen.unreported.map Prod.fst
  | _ => True

end Submissions

/-- What an event does to the count. -/
def AsyncEvent.count (outstanding : ℤ) : AsyncEvent V → ℤ
  | .noted (.submitted _ _) => outstanding + 1
  | .noted (.aborted requestIds) => max 0 (outstanding - requestIds.length)
  | .read _ frame => outstanding - frame.finished.length
  | .other => outstanding

namespace AsyncSystem

variable {sys sys' : AsyncSystem H V} {event : AsyncEvent V} {events : List (AsyncEvent V)}
  {proc : EngineCoreProc H}

/-! ### What a step does -/

omit [DecidableEq H] in
theorem readFrame_outstanding (client : AsyncMPClient V) (frame : Frame V) :
    (client.readFrame frame).outstanding = client.outstanding - frame.finished.length := by
  cases frame with
  | outputs engineIndex outputs =>
      show client.outstanding - _ = client.outstanding - _
      rw [Frame.finished, finishedIn, List.length_map]
  | utility reply => exact (sub_zero _).symm
  | dead error => exact (sub_zero _).symm

theorem Step.outstanding (h : Step sys event sys') :
    sys'.client.outstanding = event.count sys.client.outstanding := by
  cases h with
  | @note noting hnoting => cases noting <;> rfl
  | readFrame _ _ _ => exact readFrame_outstanding _ _
  | _ => rfl

/-- The numbers tell the submissions apart: of those returned, and the one under way. -/
structure Numbered (seen : Submissions) (sys : AsyncSystem H V) : Prop where
  nodup : (seen.submitted.map Prod.fst).Nodup
  below : ∀ number ∈ seen.submitted.map Prod.fst, number < sys.submissions
  noting : ∀ number requestId, sys.noting = some (.submitted number requestId) →
    number < sys.submissions ∧ number ∉ seen.submitted.map Prod.fst

omit [DecidableEq H] in
/-- Nothing was submitted or noted. -/
theorem Numbered.unchanged {seen : Submissions} (h : Numbered seen sys)
    (hsubmissions : sys'.submissions = sys.submissions) (hnoting : sys'.noting = sys.noting) :
    Numbered seen sys' where
  nodup := h.nodup
  below := hsubmissions ▸ h.below
  noting := hsubmissions ▸ hnoting ▸ h.noting

theorem Numbered.step {seen : Submissions} (h : Numbered seen sys) (hstep : Step sys event sys') :
    Numbered (seen.after event) sys' := by
  cases hstep with
  | addRequest args hidle _ =>
      refine ⟨h.nodup, fun number hnumber => Nat.lt_succ_of_lt (h.below number hnumber), ?_⟩
      intro number requestId hnoting
      cases hnoting
      exact ⟨Nat.lt_succ_self _, fun hmem => lt_irrefl _ (h.below _ hmem)⟩
  | abortRequests _ _ _ =>
      refine ⟨h.nodup, h.below, ?_⟩
      intro number requestId hnoting
      cases hnoting
  | @note noting hnoting =>
      cases noting with
      | submitted number requestId =>
          obtain ⟨hlt, hnew⟩ := h.noting number requestId hnoting
          refine ⟨?_, ?_, nofun⟩
          · rw [Submissions.after, List.map_append]
            exact h.nodup.append (List.nodup_singleton _) (by simpa using hnew)
          · intro number' hnumber'
            rw [Submissions.after, List.map_append] at hnumber'
            rcases List.mem_append.mp hnumber' with hold | hnumber'
            · exact h.below number' hold
            · obtain rfl := List.mem_singleton.mp hnumber'
              exact hlt
      | aborted requestIds => exact ⟨h.nodup, h.below, nofun⟩
  | readFrame _ _ _ => exact ⟨h.nodup, h.below, h.noting⟩
  | _ => exact h.unchanged rfl rfl

theorem run_numbered (hrun : Run Step (start proc) events sys) :
    Numbered (Submissions.ofEvents events) sys := by
  induction hrun with
  | nil => exact ⟨List.nodup_nil, nofun, nofun⟩
  | snoc _ hstep ih =>
      rw [Submissions.ofEvents, List.foldl_append]
      exact ih.step hstep

end AsyncSystem

/-! ### When the count is right -/

/-- A list without repetition holds as many of some numbers as these are exactly when they are its
own, each once. -/
theorem length_filter_contains_iff {l numbers : List ℕ} (hl : l.Nodup) :
    (l.filter (numbers.contains ·)).length = numbers.length ↔
      numbers.Nodup ∧ ∀ number ∈ numbers, number ∈ l := by
  have hmem (n : ℕ) : n ∈ l.filter (numbers.contains ·) ↔ n ∈ l ∧ n ∈ numbers := by
    simp
  have hkept := hl.filter (numbers.contains ·)
  constructor
  · intro hlength
    have hsub : (l.filter (numbers.contains ·)).Subperm numbers :=
      List.subperm_of_subset hkept fun n hn => ((hmem n).mp hn).2
    have hperm := hsub.perm_of_length_le hlength.ge
    exact ⟨hperm.nodup_iff.mp hkept, fun n hn => ((hmem n).mp (hperm.mem_iff.mpr hn)).1⟩
  · rintro ⟨hnodup, hall⟩
    apply List.Perm.length_eq
    apply (List.perm_ext_iff_of_nodup hkept hnodup).mpr
    intro n
    rw [hmem]
    exact ⟨And.right, fun hn => ⟨hall n hn, hn⟩⟩

namespace Submissions

variable {seen : Submissions}

theorem length_unreported_split (seen : Submissions) (p : ℕ × RequestId → Bool) :
    seen.unreported.length =
      (seen.unreported.filter p).length + (seen.unreported.filter fun entry => !p entry).length :=
  List.length_eq_length_filter_add p

theorem unreported_submitted {number : ℕ} (hnew : number ∉ seen.gone) (requestId : RequestId) :
    (seen.after (.noted (.submitted number requestId) : AsyncEvent V)).unreported =
      seen.unreported ++ [(number, requestId)] := by
  simp [unreported, after, List.filter_append, hnew]

theorem unreported_aborted (hnodup : (seen.submitted.map Prod.fst).Nodup)
    (requestIds : List RequestId) :
    (seen.after (.noted (.aborted requestIds) : AsyncEvent V)).unreported =
      seen.unreported.filter fun entry => !requestIds.contains entry.2 := by
  show List.filter _ seen.submitted = List.filter _ (List.filter _ _)
  rw [List.filter_filter]
  apply List.filter_congr
  intro entry hentry
  -- A number names one submission, so it is gone with its id.
  have hnamed : entry.1 ∈ (seen.named requestIds).map Prod.fst ↔ entry.2 ∈ requestIds := by
    constructor
    · intro hmem
      obtain ⟨other, hother, heq⟩ := List.mem_map.mp hmem
      obtain ⟨hother, hid⟩ := List.mem_filter.mp hother
      obtain rfl := List.inj_on_of_nodup_map hnodup hother hentry heq
      simpa using hid
    · intro hid
      exact List.mem_map_of_mem (List.mem_filter.mpr ⟨hentry, by simpa using hid⟩)
  have hcontains : ((seen.named requestIds).map Prod.fst).contains entry.1 =
      requestIds.contains entry.2 := by
    rw [Bool.eq_iff_iff, List.contains_iff_mem, List.contains_iff_mem]
    exact hnamed
  simp only [after, List.contains_append, Bool.not_or]
  rw [hcontains, Bool.and_comm]

theorem unreported_read (numberOf : RequestId → ℕ) (frame : Frame V) :
    (seen.after (.read numberOf frame)).unreported =
      seen.unreported.filter fun entry => !(frame.finished.map numberOf).contains entry.1 := by
  show List.filter _ seen.submitted = List.filter _ (List.filter _ _)
  rw [List.filter_filter]
  apply List.filter_congr
  intro entry _
  simp only [after, List.contains_append, Bool.not_or]
  exact Bool.and_comm _ _

theorem count_aborted_iff (hnodup : (seen.submitted.map Prod.fst).Nodup)
    (requestIds : List RequestId) :
    (AsyncEvent.noted (.aborted requestIds) : AsyncEvent V).count seen.unreported.length =
        ((seen.after (.noted (.aborted requestIds) : AsyncEvent V)).unreported.length : ℤ) ↔
      seen.Clear (.noted (.aborted requestIds) : AsyncEvent V) := by
  rw [unreported_aborted hnodup]
  have hsplit := seen.length_unreported_split fun entry => requestIds.contains entry.2
  have hall : (∀ entry ∈ seen.unreported, entry.2 ∈ requestIds) ↔
      (seen.unreported.filter fun entry => requestIds.contains entry.2).length =
        seen.unreported.length := by
    rw [List.length_filter_eq_length_iff]
    simp
  show max 0 _ = _ ↔ _ ∨ _ ∧ _
  rw [hall]
  omega

theorem count_read_iff (hnodup : (seen.submitted.map Prod.fst).Nodup) (numberOf : RequestId → ℕ)
    (frame : Frame V) :
    (AsyncEvent.read numberOf frame).count seen.unreported.length =
        ((seen.after (.read numberOf frame)).unreported.length : ℤ) ↔
      seen.Clear (.read numberOf frame) := by
  rw [unreported_read]
  have hsplit := seen.length_unreported_split fun entry =>
    (frame.finished.map numberOf).contains entry.1
  have hnumbers : (seen.unreported.map Prod.fst).Nodup :=
    hnodup.sublist ((List.filter_sublist).map Prod.fst)
  have hfiltered : (List.filter ((frame.finished.map numberOf).contains ·)
      (seen.unreported.map Prod.fst)).length = (frame.finished.map numberOf).length ↔ _ :=
    length_filter_contains_iff hnumbers
  rw [List.filter_map, List.length_map, List.length_map] at hfiltered
  show _ - _ = _ ↔ _ ∧ _
  rw [← hfiltered]
  simp only [Function.comp_def]
  omega

end Submissions

namespace AsyncSystem

variable {sys mid : AsyncSystem H V} {event : AsyncEvent V}
  {events first rest : List (AsyncEvent V)} {proc : EngineCoreProc H}

/-! ### Runs -/

/-- What the count should be after some events, and what the client makes of it. -/
def Counts (events : List (AsyncEvent V)) (sys : AsyncSystem H V) : Prop :=
  0 ≤ sys.client.outstanding ∧
    sys.client.outstanding = (Submissions.ofEvents events).unreported.length ∧
    ((Submissions.ofEvents events).unreported ≠ [] → sys.client.hasRequests = true)

omit [DecidableEq H] in
/-- The number decides. -/
theorem counts_iff : Counts events sys ↔
    sys.client.outstanding = (Submissions.ofEvents events).unreported.length := by
  constructor
  · exact fun h => h.2.1
  · intro h
    refine ⟨by omega, h, fun hne => ?_⟩
    have hpos := List.length_pos_iff.mpr hne
    rw [AsyncMPClient.hasRequests, decide_eq_true (show 0 < sys.client.outstanding by omega),
      Bool.true_or]

omit [DecidableEq H] in
theorem ofEvents_snoc (events : List (AsyncEvent V)) (event : AsyncEvent V) :
    Submissions.ofEvents (events ++ [event]) = (Submissions.ofEvents events).after event := by
  rw [Submissions.ofEvents, List.foldl_append]
  rfl

/-- A clear step keeps the count right, and only submissions are gone. -/
theorem Counts.step {sys' : AsyncSystem H V} (h : Counts events sys)
    (hnumbered : Numbered (Submissions.ofEvents events) sys)
    (hgone : ∀ number ∈ (Submissions.ofEvents events).gone,
      number ∈ (Submissions.ofEvents events).submitted.map Prod.fst)
    (hstep : Step sys event sys') (hclear : (Submissions.ofEvents events).Clear event) :
    Counts (events ++ [event]) sys' ∧
      ∀ number ∈ (Submissions.ofEvents (events ++ [event])).gone,
        number ∈ (Submissions.ofEvents (events ++ [event])).submitted.map Prod.fst := by
  rw [counts_iff, ofEvents_snoc, hstep.outstanding, h.2.1]
  generalize Submissions.ofEvents events = seen at *
  match event with
  | .noted (.submitted number requestId) =>
      have hnoting : sys.noting = some (.submitted number requestId) := by
        cases hstep with
        | note hnoting => exact hnoting
      have hnew : number ∉ seen.gone := fun hmem =>
        (hnumbered.noting number requestId hnoting).2 (hgone number hmem)
      refine ⟨?_, fun number' hmem => ?_⟩
      · rw [Submissions.unreported_submitted hnew, List.length_append]
        exact (Int.natCast_succ _).symm
      · rw [Submissions.after, List.map_append]
        exact List.mem_append_left _ (hgone number' hmem)
  | .noted (.aborted requestIds) =>
      refine ⟨(Submissions.count_aborted_iff hnumbered.nodup requestIds).mpr hclear, ?_⟩
      intro number hmem
      rcases List.mem_append.mp hmem with hmem | hmem
      · exact hgone number hmem
      · exact List.map_subset _ (List.filter_subset_self _) hmem
  | .read numberOf frame =>
      refine ⟨(Submissions.count_read_iff hnumbered.nodup numberOf frame).mpr hclear, ?_⟩
      intro number hmem
      rcases List.mem_append.mp hmem with hmem | hmem
      · exact hgone number hmem
      · exact List.map_subset _ (List.filter_subset_self _) (hclear.2 number hmem)
  | .other => exact ⟨rfl, hgone⟩

theorem counts_of_clear (hrun : Run Step (start proc) events sys)
    (hclear : ∀ first event rest, events = first ++ event :: rest →
      (Submissions.ofEvents first).Clear event) : Counts events sys := by
  suffices h : Counts events sys ∧ ∀ number ∈ (Submissions.ofEvents events).gone,
      number ∈ (Submissions.ofEvents events).submitted.map Prod.fst from h.1
  induction hrun with
  | nil => exact ⟨⟨le_refl _, rfl, fun h => absurd rfl h⟩, nofun⟩
  | @snoc events sys sys' event hrun hstep ih =>
      obtain ⟨hcounts, hgone⟩ := ih fun first event' rest heq =>
        hclear first event' (rest ++ [event]) (by rw [heq]; simp)
      exact hcounts.step (run_numbered hrun) hgone hstep (hclear events event [] rfl)

/-- Where the count is right before and after a step, the step was clear. -/
theorem Counts.clear {sys' : AsyncSystem H V} (h : Counts events sys)
    (hnumbered : Numbered (Submissions.ofEvents events) sys) (hstep : Step sys event sys')
    (h' : Counts (events ++ [event]) sys') : (Submissions.ofEvents events).Clear event := by
  have hcount := h'.2.1
  rw [ofEvents_snoc, hstep.outstanding, h.2.1] at hcount
  match event with
  | .noted (.submitted _ _) => trivial
  | .noted (.aborted requestIds) =>
      exact (Submissions.count_aborted_iff hnumbered.nodup requestIds).mp hcount
  | .read numberOf frame =>
      exact (Submissions.count_read_iff hnumbered.nodup numberOf frame).mp hcount
  | .other => trivial

/-- In every run, the count is right in every state reached exactly when no event crosses another:
an abort names unreported requests, each once, and a frame finishes unreported ones. -/
theorem outstanding_run (hrun : Run Step (start proc) events sys) :
    (∀ first rest mid, events = first ++ rest → Run Step (start proc) first mid →
      Run Step mid rest sys → Counts first mid) ↔
      ∀ first event rest, events = first ++ event :: rest →
        (Submissions.ofEvents first).Clear event := by
  constructor
  · intro hcounts first event rest heq
    subst heq
    obtain ⟨mid, hfirst, hrest⟩ := hrun.split
    obtain ⟨mid', hone, hlast⟩ : ∃ mid', Run Step mid [event] mid' ∧ Run Step mid' rest sys :=
      hrest.split
    have hsplit : first ++ event :: rest = (first ++ [event]) ++ rest := by simp
    have hbefore := hcounts first (event :: rest) mid rfl hfirst hrest
    have hafter := hcounts (first ++ [event]) rest mid' hsplit (hfirst.append hone) hlast
    exact hbefore.clear (run_numbered hfirst) hone.single hafter
  · intro hclear first rest mid heq hfirst _
    apply counts_of_clear hfirst
    intro first' event rest' heq'
    exact hclear first' event (rest' ++ rest) (by rw [heq, heq']; simp)

def oneRequest : Except PyError (EngineCoreProc Digest × EngineCoreProc Digest ×
    List (Frame Unit) × EngineCoreProc Digest × List (Frame Unit)) := do
  let engine ← EngineCore.smallCore (Scheduler.shortConfig .fcfs) 8
  let proc : EngineCoreProc Digest := ⟨⟨engine, ⟨"auto", false⟩⟩, true⟩
  let (handled, proc₁) ← proc.handle () (.add (.text 1 [1, 2, 3, 4, 5] 1))
  let (frames, proc₂) ← proc₁.stepOnce fun _ => []
  return (proc, proc₁, handled, proc₂, frames)

theorem exists_oneRequest : ∃ (proc proc₁ proc₂ : EngineCoreProc Digest) (frame : Frame Unit),
    proc.core.Started ∧ proc.Turn (some (.add (.text 1 [1, 2, 3, 4, 5] 1))) ([] : List (Frame Unit))
      proc₁ ∧ proc₁.Turn none [frame] proc₂ ∧ frame.finished = [1] := by
  obtain ⟨⟨proc, proc₁, handled, proc₂, frames⟩, hrun, hcheck⟩ :=
    exists_of_okAnd (x := oneRequest) (p := fun (_, proc₁, _, _, frames) =>
      proc₁.running && proc₁.core.scheduler.hasRequests &&
        decide (frames.map Frame.finished = [[1]])) (by decide +kernel)
  obtain ⟨hgo, hfinished⟩ := Bool.and_eq_true_iff.mp hcheck
  obtain ⟨hrunning, hwork⟩ := Bool.and_eq_true_iff.mp hgo
  unfold oneRequest at hrun
  obtain ⟨engine, hengine, hrun⟩ := except_bind_iff.mp hrun
  dsimp only at hrun
  obtain ⟨⟨handled', _⟩, hhandle, hrun⟩ := except_bind_iff.mp hrun
  obtain ⟨⟨frames', _⟩, hstep, hrun⟩ := except_bind_iff.mp hrun
  cases hrun
  obtain ⟨frame, hframes, hframe⟩ := List.map_eq_singleton_iff.mp (of_decide_eq_true hfinished)
  subst hframes
  obtain ⟨rfl, -⟩ := EngineCoreProc.handle_add hhandle
  exact ⟨⟨⟨engine, ⟨"auto", false⟩⟩, true⟩, _, _, frame, ⟨_, _, _, _, _, _, _, _, _, hengine⟩,
    .handle hhandle, .step hrunning hwork hstep, hframe⟩

theorem oneRequest_run {proc proc₁ proc₂ : EngineCoreProc Digest} {frame : Frame Unit}
    (hhandle : proc.Turn (some (.add (.text 1 [1, 2, 3, 4, 5] 1))) ([] : List (Frame Unit)) proc₁)
    (hstep : proc₁.Turn none [frame] proc₂) :
    ∃ sys : AsyncSystem Digest Unit,
      Run Step (start proc) [.other, .noted (.submitted 0 1), .other, .other] sys ∧
      sys.noting = none ∧ sys.client = AsyncMPClient.init.noteSubmitted ∧ sys.exitcode = none ∧
      sys.toClient = [(Function.update (fun _ => 0) 1 0, frame)] := by
  have hstart : Run Step (start proc : AsyncSystem Digest Unit) [] (start proc) := .nil
  have hadd := hstart.snoc (.addRequest (.text 1 [1, 2, 3, 4, 5] 1) rfl rfl)
  have hnoted := hadd.snoc (.note rfl)
  have hhandled := hnoted.snoc (.handle rfl rfl hhandle)
  have hstepped := hhandled.snoc (.work rfl hstep)
  exact ⟨_, hstepped, rfl, rfl, rfl, rfl⟩

/-- The abort crosses the finish, and the request is counted off twice. -/
theorem outstanding_crossed : ∃ (proc : EngineCoreProc Digest) (events : List (AsyncEvent Unit))
    (sys : AsyncSystem Digest Unit), proc.core.Started ∧ Run Step (start proc) events sys ∧
      sys.client.outstanding = -1 ∧ ¬ Counts events sys := by
  obtain ⟨proc, proc₁, proc₂, frame, hstarted, hhandle, hstep, hframe⟩ := exists_oneRequest
  obtain ⟨sys, hrun, hidle, hclient, hexit, harrived⟩ := oneRequest_run hhandle hstep
  have halive : sys.client.checkAlive sys.exitcode = .ok () := by
    rw [hclient, hexit]
    rfl
  have habort := hrun.snoc (.abortRequests (List.cons_ne_nil 1 []) hidle halive)
  have hnoted := habort.snoc (.note rfl)
  have hopen : (sys.client.note (.aborted [1])).closed = false := by
    rw [hclient]
    rfl
  have hreading : (sys.client.note (.aborted [1])).deadError = none := by
    rw [hclient]
    rfl
  have hread := hnoted.snoc (.readFrame hopen hreading harrived)
  have hcount : ((sys.client.note (.aborted [1])).readFrame frame).outstanding = -1 := by
    rw [readFrame_outstanding, hframe, hclient]
    rfl
  refine ⟨proc, _, _, hstarted, hread, hcount, fun h => ?_⟩
  have hnonneg : 0 ≤ ((sys.client.note (.aborted [1])).readFrame frame).outstanding := h.1
  omega

/-- Without an abort the count of the same request is right throughout. -/
theorem outstanding_oneRequest : ∃ (proc : EngineCoreProc Digest)
    (sys : AsyncSystem Digest Unit) (numberOf : RequestId → ℕ) (frame : Frame Unit),
    frame.finished = [1] ∧
      Run Step (start proc) [.other, .noted (.submitted 0 1), .other, .other,
        .read numberOf frame] sys ∧
      Counts [.other, .noted (.submitted 0 1), .other, .other, .read numberOf frame] sys := by
  obtain ⟨proc, proc₁, proc₂, frame, -, hhandle, hstep, hframe⟩ := exists_oneRequest
  obtain ⟨sys, hrun, hidle, hclient, hexit, harrived⟩ := oneRequest_run hhandle hstep
  have hread := hrun.snoc (.readFrame (by rw [hclient]; rfl) (by rw [hclient]; rfl) harrived)
  refine ⟨proc, _, _, frame, hframe, hread, ?_⟩
  refine (outstanding_run hread).mpr ?_ _ [] _ (List.append_nil _).symm hread .nil
  intro first event rest heq
  match first, heq with
  | [], heq => cases heq; trivial
  | [_], heq => cases heq; trivial
  | [_, _], heq => cases heq; trivial
  | [_, _, _], heq => cases heq; trivial
  | [_, _, _, _], heq =>
      cases heq
      show (frame.finished.map _).Nodup ∧ ∀ number ∈ frame.finished.map _, _
      rw [hframe]
      exact ⟨by decide, by decide⟩
  | _ :: _ :: _ :: _ :: _ :: first, heq =>
      have hlength := congrArg List.length heq
      simp at hlength

end AsyncSystem

end Pvllm

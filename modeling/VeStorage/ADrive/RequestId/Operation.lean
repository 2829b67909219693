import VeStorage.ADrive.ShareAccess.Response
import VeStorage.ADrive.Token.Manager
import VeStorage.Lib.Scopes
import Mathlib.Logic.Relation

namespace VeStorage.ADrive.RequestId
open Lib
open ShareAccess (sanitizeRequestId)

def serviceRequestIdLimit : Nat := 100

def usizeMax : Nat := 2 ^ 64 - 1

def saturatingAdd (a b : Nat) : Nat := min (a + b) usizeMax

structure ServiceRequestState where
  requestIds : List Text := []
  requestIdsOmitted : Nat := 0
  lastSuccessfulRequestId : Option Text := none
  responseCount : Nat := 0
  requestAttempted : Bool := false
  terminalResponseReceived : Bool := false
  terminalResponseRequestId : Option Text := none

-- What one attempt of a request records.
inductive Event
  | response (rawRequestId : Option Text) (isSuccess : Bool)
  | noResponse

namespace ServiceRequestState

variable (limit : Nat) (state : ServiceRequestState)

def recordResponseLocally (rawRequestId : Option Text) (isSuccess : Bool) : ServiceRequestState :=
  let requestId := rawRequestId.bind sanitizeRequestId
  let state := { state with
    responseCount := saturatingAdd state.responseCount 1
    requestAttempted := true
    terminalResponseReceived := true
    terminalResponseRequestId := requestId }
  match requestId with
  | none => state
  | some requestId =>
      let state :=
        if state.requestIds.length < limit then
          { state with requestIds := state.requestIds ++ [requestId] }
        else { state with requestIdsOmitted := saturatingAdd state.requestIdsOmitted 1 }
      if isSuccess then { state with lastSuccessfulRequestId := some requestId } else state

def recordNoResponseLocally : ServiceRequestState :=
  { state with
    requestAttempted := true
    terminalResponseReceived := false
    terminalResponseRequestId := none }

def record : Event → ServiceRequestState
  | .response rawRequestId isSuccess => state.recordResponseLocally limit rawRequestId isSuccess
  | .noResponse => state.recordNoResponseLocally

end ServiceRequestState

namespace Event

-- The usable id of a response.
def id : Event → Option Text
  | .response rawRequestId _ => rawRequestId.bind sanitizeRequestId
  | .noResponse => none

def isResponse : Event → Bool
  | .response _ _ => true
  | .noResponse => false

end Event

-- The id of the last attempt.
def terminal (events : List Event) : Option Text := events.getLast?.bind Event.id

-- The last attempt, if there is one, has an answer.
def Settled (events : List Event) : Prop := ∀ e ∈ events.getLast?, e.isResponse = true

def lastResponseId (events : List Event) : Option Text := terminal (events.filter Event.isResponse)

variable {limit : Nat} {state : ServiceRequestState} {event : Event} {events before : List Event}

theorem record_terminal :
    (state.record limit event).terminalResponseRequestId = event.id := by
  cases event with
  | noResponse => rfl
  | response raw isSuccess =>
    simp only [ServiceRequestState.record, ServiceRequestState.recordResponseLocally, Event.id]
    cases raw.bind sanitizeRequestId with
    | none => rfl
    | some requestId => dsimp only; split <;> split <;> rfl

theorem record_responseCount : (state.record limit event).responseCount =
    if event.isResponse then saturatingAdd state.responseCount 1 else state.responseCount := by
  cases event with
  | noResponse => rfl
  | response raw isSuccess =>
    simp only [ServiceRequestState.record, ServiceRequestState.recordResponseLocally, Event.isResponse,
      if_true]
    cases raw.bind sanitizeRequestId with
    | none => rfl
    | some requestId => dsimp only; split <;> split <;> rfl

@[simp] theorem terminal_nil : terminal [] = none := rfl

@[simp] theorem terminal_concat : terminal (events ++ [event]) = event.id := by
  simp [terminal]

theorem terminal_append (h : events ≠ []) : terminal (before ++ events) = terminal events := by
  rw [terminal, terminal, List.getLast?_append_of_ne_nil before h]

theorem settled_nil : Settled [] := nofun

theorem settled_append (h : Settled events) (hbefore : Settled before) : Settled (before ++ events) := by
  rcases events.eq_nil_or_concat' with rfl | ⟨events, e, rfl⟩
  · rwa [List.append_nil]
  · rw [← List.append_assoc]
    simpa [Settled] using h

theorem terminal_of_settled (h : Settled events) : terminal events = lastResponseId events := by
  rcases events.eq_nil_or_concat' with rfl | ⟨events, e, rfl⟩
  · rfl
  · have he : e.isResponse = true := h e (by simp)
    rw [lastResponseId, List.filter_append, List.filter_singleton, he, cond_true,
      terminal_concat, terminal_concat]

theorem mem_of_terminal {requestId : Text} (h : terminal events = some requestId) :
    ∃ e ∈ events, e.id = some requestId := by
  obtain ⟨e, he, hid⟩ := Option.bind_eq_some_iff.mp h
  exact ⟨e, List.mem_of_getLast? he, hid⟩

theorem sanitize_usable {raw requestId : Text} (h : sanitizeRequestId raw = some requestId) :
    sanitizeRequestId requestId = some requestId := by
  unfold sanitizeRequestId at h
  dsimp only at h
  split at h
  case isFalse => cases h
  next hin =>
    obtain rfl := Option.some.inj h
    unfold sanitizeRequestId
    dsimp only
    rw [Token.trimWhitespace_idem, if_pos hin]

theorem event_usable {requestId : Text} (h : event.id = some requestId) :
    sanitizeRequestId requestId = some requestId := by
  cases event with
  | noResponse => cases h
  | response raw isSuccess =>
    obtain ⟨raw, -, h⟩ := Option.bind_eq_some_iff.mp h
    exact sanitize_usable h

-- A captured id stays as it is when it is preserved.
theorem terminal_usable (events : List Event) :
    (terminal events).bind sanitizeRequestId = terminal events := by
  cases h : terminal events with
  | none => rfl
  | some requestId =>
    obtain ⟨e, -, hid⟩ := mem_of_terminal h
    exact event_usable hid

end VeStorage.ADrive.RequestId

namespace VeStorage.ADrive.RequestId
open Lib
open ShareAccess (sanitizeRequestId)
open Relation (ReflTransGen)

-- The attempts of a request, with its retries, and whether it succeeds: a request succeeds on an answer.
structure Request where
  events : List Event
  isOk : Bool
  answered : isOk = true → Settled events

def Request.skipped : Request := ⟨[], true, fun _ => settled_nil⟩

-- A file operation: the requests before its parts, the parts, and what follows them.
structure Operation where
  enclosing : List Nat
  lead : Request
  parts : List Request
  concurrency : Nat
  complete : Option Request
  cleanup : List Event

def uploadAdriveFileMultipartForBatch (enclosing : List Nat) (initiate : Option Request)
    (pendingParts : List Request) (multipartConcurrency : Nat) (complete : Request)
    (checkpointEnabled : Bool) (abort : List Event) : Operation where
  enclosing := enclosing
  lead := initiate.getD .skipped
  parts := pendingParts
  concurrency := multipartConcurrency
  complete := some complete
  cleanup := if checkpointEnabled then [] else abort

def downloadAdriveFileRanges (enclosing : List Nat) (head : Option Request) (pending : List Request)
    (multipartConcurrency : Nat) : Operation where
  enclosing := enclosing
  lead := head.getD .skipped
  parts := pending
  concurrency := multipartConcurrency
  complete := none
  cleanup := []

def shareRangeDownload (enclosing : List Nat) (plan : List Request) (concurrency : Nat) : Operation where
  enclosing := enclosing
  lead := .skipped
  parts := plan
  concurrency := concurrency
  complete := none
  cleanup := []

inductive Outcome
  | succeeded
  | leadFailed
  | partFailed (part : Nat)
  | completeFailed
  | localFailed
  deriving DecidableEq

inductive Phase
  | waiting
  | leading (todo : List Event)
  | transferring (pending : List Nat) (inFlight : List (Nat × List Event))
  | completing (todo : List Event)
  | aborting (cause : Outcome) (todo : List Event)
  | finished (outcome : Outcome) (requestId : Option Text)

-- The capture scopes.
inductive Scope (F : Type)
  | enclosing (n : Nat)
  | file (f : F)
  | part (f : F) (part : Nat)
  deriving DecidableEq

-- Where a response comes from.
inductive Origin (F : Type)
  | lead (f : F)
  | part (f : F) (part : Nat)
  | complete (f : F)
  | cleanup (f : F)

variable {F : Type} [DecidableEq F]

structure State (F : Type) where
  command : ServiceRequestState
  traces : Scope F → ServiceRequestState
  phase : F → Phase
  emitted : List (Origin F × Event)

def State.start (F : Type) : State F := ⟨{}, fun _ => {}, fun _ => .waiting, []⟩

def Operation.fileStack (op : Operation) (f : F) : List (Scope F) :=
  op.enclosing.map Scope.enclosing ++ [.file f]

def Operation.partStack (op : Operation) (f : F) (part : Nat) : List (Scope F) :=
  op.fileStack f ++ [.part f part]

namespace State

variable (x : State F)

-- A response reaches the command-wide trace and every scope of the task's stack.
def emit (origin : Origin F) (stack : List (Scope F)) (event : Event) : State F :=
  { x with
    command := x.command.record serviceRequestIdLimit event
    traces := onStack (fun trace => trace.record 0 event) stack x.traces
    emitted := x.emitted ++ [(origin, event)] }

def captured (scope : Scope F) : Option Text := (x.traces scope).terminalResponseRequestId

def preserveOperationFailureRequestId (stack : List (Scope F)) (requestId : Option Text) : State F :=
  { x with
    traces := onStack (fun trace =>
      { trace with terminalResponseRequestId := requestId.bind sanitizeRequestId }) stack x.traces }

def enter (f : F) (phase : Phase) : State F := { x with phase := Function.update x.phase f phase }

def finish (f : F) (outcome : Outcome) : State F := x.enter f (.finished outcome (x.captured (.file f)))

end State

-- The files are polled futures of one task: a step is what one of them does between two awaits.
inductive Step (ops : F → Operation) : State F → State F → Prop
  | start (x : State F) (f : F) (h : x.phase f = .waiting) :
      Step ops x (x.enter f (.leading (ops f).lead.events))
  | lead (x : State F) (f : F) (event : Event) (todo : List Event)
      (h : x.phase f = .leading (event :: todo)) :
      Step ops x ((x.emit (.lead f) ((ops f).fileStack f) event).enter f (.leading todo))
  | leadFail (x : State F) (f : F) (h : x.phase f = .leading []) (hfail : (ops f).lead.isOk = false) :
      Step ops x (x.finish f .leadFailed)
  | leadOk (x : State F) (f : F) (h : x.phase f = .leading []) (hok : (ops f).lead.isOk = true) :
      Step ops x (x.enter f (.transferring (List.range (ops f).parts.length) []))
  | launch (x : State F) (f : F) (part : Nat) (pending : List Nat) (inFlight : List (Nat × List Event))
      (request : Request) (h : x.phase f = .transferring (part :: pending) inFlight)
      (hroom : inFlight.length < (ops f).concurrency) (hpart : (ops f).parts[part]? = some request) :
      Step ops x (x.enter f (.transferring pending (inFlight ++ [(part, request.events)])))
  | respond (x : State F) (f : F) (part : Nat) (event : Event) (todo : List Event) (pending : List Nat)
      (before after : List (Nat × List Event))
      (h : x.phase f = .transferring pending (before ++ (part, event :: todo) :: after)) :
      Step ops x ((x.emit (.part f part) ((ops f).partStack f part) event).enter f
        (.transferring pending (before ++ (part, todo) :: after)))
  | partOk (x : State F) (f : F) (part : Nat) (pending : List Nat) (before after : List (Nat × List Event))
      (request : Request) (h : x.phase f = .transferring pending (before ++ (part, []) :: after))
      (hpart : (ops f).parts[part]? = some request) (hok : request.isOk = true) :
      Step ops x (x.enter f (.transferring pending (before ++ after)))
  | partFail (x : State F) (f : F) (part : Nat) (pending : List Nat) (before after : List (Nat × List Event))
      (request : Request) (h : x.phase f = .transferring pending (before ++ (part, []) :: after))
      (hpart : (ops f).parts[part]? = some request) (hfail : request.isOk = false) :
      Step ops x ((x.preserveOperationFailureRequestId ((ops f).fileStack f)
        (x.captured (.part f part))).enter f (.aborting (.partFailed part) (ops f).cleanup))
  | complete (x : State F) (f : F) (pending : List Nat) (request : Request)
      (h : x.phase f = .transferring pending []) (hdone : pending = [] ∨ (ops f).concurrency = 0)
      (hcomplete : (ops f).complete = some request) :
      Step ops x (x.enter f (.completing request.events))
  | completing (x : State F) (f : F) (event : Event) (todo : List Event)
      (h : x.phase f = .completing (event :: todo)) :
      Step ops x ((x.emit (.complete f) ((ops f).fileStack f) event).enter f (.completing todo))
  | completeFail (x : State F) (f : F) (request : Request) (h : x.phase f = .completing [])
      (hcomplete : (ops f).complete = some request) (hfail : request.isOk = false) :
      Step ops x (x.enter f (.aborting .completeFailed (ops f).cleanup))
  | completeOk (x : State F) (f : F) (request : Request) (h : x.phase f = .completing [])
      (hcomplete : (ops f).complete = some request) (hok : request.isOk = true) :
      Step ops x (x.finish f .succeeded)
  | rangesOk (x : State F) (f : F) (h : x.phase f = .transferring [] [])
      (hcomplete : (ops f).complete = none) : Step ops x (x.finish f .succeeded)
  -- a checkpoint, a file or a check that fails without a request
  | localFail (x : State F) (f : F)
      (h : (∃ pending inFlight, x.phase f = .transferring pending inFlight) ∨ x.phase f = .completing []) :
      Step ops x (x.finish f .localFailed)
  -- the cleanup runs under an empty stack
  | cleanup (x : State F) (f : F) (cause : Outcome) (event : Event) (todo : List Event)
      (h : x.phase f = .aborting cause (event :: todo)) :
      Step ops x ((x.emit (.cleanup f) [] event).enter f (.aborting cause todo))
  | aborted (x : State F) (f : F) (cause : Outcome) (h : x.phase f = .aborting cause []) :
      Step ops x (x.finish f cause)

def Runs (ops : F → Operation) (x : State F) : Prop := ReflTransGen (Step ops) (State.start F) x

end VeStorage.ADrive.RequestId

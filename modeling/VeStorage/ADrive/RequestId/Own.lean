import VeStorage.ADrive.RequestId.Operation
import VeStorage.Lib.Pool

namespace VeStorage.ADrive.RequestId
open Lib
open ShareAccess (sanitizeRequestId)
open Relation (ReflTransGen)

variable {F : Type} {ops : F → Operation} {op : Operation} {x x' : State F} {f g : F}
  {event : Event} {origin : Origin F} {stack : List (Scope F)} {phase : Phase} {part : Nat}

section Views

def eventsOf (p : Origin F → Bool) (emitted : List (Origin F × Event)) : List Event :=
  (emitted.filter fun e => p e.1).map Prod.snd

theorem eventsOf_concat {p : Origin F → Bool} {emitted : List (Origin F × Event)} (h : p origin = true) :
    eventsOf p (emitted ++ [(origin, event)]) = eventsOf p emitted ++ [event] := by
  simp [eventsOf, h]

theorem eventsOf_concat_other {p : Origin F → Bool} {emitted : List (Origin F × Event)}
    (h : p origin = false) : eventsOf p (emitted ++ [(origin, event)]) = eventsOf p emitted := by
  simp [eventsOf, h]

theorem file_not_mem (h : g ≠ f) : Scope.file g ∉ op.fileStack f := by
  simp [Operation.fileStack, h]

theorem part_not_mem : Scope.part g part ∉ op.fileStack f := by
  simp [Operation.fileStack]

theorem file_not_mem_part (h : g ≠ f) : Scope.file g ∉ op.partStack f part := by
  simp [Operation.partStack, file_not_mem h]

theorem other_part_not_mem {p : Nat} (h : ¬ (g = f ∧ p = part)) : Scope.part g p ∉ op.partStack f part := by
  simpa [Operation.partStack, part_not_mem] using h

variable [DecidableEq F]

namespace Origin

-- The attempts inside the scope of a file; its cleanup is outside.
def isOwn (f : F) : Origin F → Bool
  | .lead g => g = f
  | .part g _ => g = f
  | .complete g => g = f
  | .cleanup _ => false

def isPart (f : F) (part : Nat) : Origin F → Bool
  | .part g p => g = f && p = part
  | _ => false

def isComplete (f : F) : Origin F → Bool
  | .complete g => g = f
  | _ => false

theorem isPart_eq_false (h : origin.isOwn f = false) : origin.isPart f part = false := by
  cases origin <;> simp_all [isOwn, isPart]

theorem isComplete_eq_false (h : origin.isOwn f = false) : origin.isComplete f = false := by
  cases origin <;> simp_all [isOwn, isComplete]

end Origin

-- What the invariant of a file reads of a state.
@[ext] structure View where
  own : List Event
  part : Nat → List Event
  complete : List Event
  captured : Option Text

def State.view (x : State F) (f : F) : View where
  own := eventsOf (Origin.isOwn f) x.emitted
  part p := eventsOf (Origin.isPart f p) x.emitted
  complete := eventsOf (Origin.isComplete f) x.emitted
  captured := x.captured (.file f)

@[simp] theorem phase_enter : (x.enter f phase).phase f = phase := Function.update_self _ _ _

theorem phase_enter_other (h : g ≠ f) : (x.enter f phase).phase g = x.phase g :=
  Function.update_of_ne h _ _

@[simp] theorem view_enter : (x.enter f phase).view g = x.view g := rfl

theorem count_fileStack : (op.fileStack f).count (.file f) = 1 := by
  simp [Operation.fileStack, List.count_eq_zero]

theorem count_partStack : (op.partStack f part).count (.file f) = 1 := by
  rw [Operation.partStack, List.count_append, count_fileStack]
  simp

theorem count_part : (op.partStack f part).count (.part f part) = 1 := by
  rw [Operation.partStack, List.count_append, List.count_eq_zero_of_not_mem part_not_mem]
  simp

theorem captured_emit {s : Scope F} (h : stack.count s = 1) :
    (x.emit origin stack event).captured s = event.id := by
  rw [State.captured, State.emit]
  dsimp only
  rw [onStack_of_count h, record_terminal]

theorem captured_emit_other {s : Scope F} (h : s ∉ stack) :
    (x.emit origin stack event).captured s = x.captured s := by
  rw [State.captured, State.emit]
  dsimp only
  rw [onStack_of_not_mem h]
  rfl

theorem view_emit_other (h : origin.isOwn g = false) (hstack : Scope.file g ∉ stack) :
    (x.emit origin stack event).view g = x.view g := by
  refine View.ext (eventsOf_concat_other h) ?_ (eventsOf_concat_other (Origin.isComplete_eq_false h))
    (captured_emit_other hstack)
  funext p
  exact eventsOf_concat_other (Origin.isPart_eq_false h)

theorem view_emit_lead : (x.emit (.lead f) (op.fileStack f) event).view f =
    { x.view f with own := (x.view f).own ++ [event], captured := event.id } := by
  refine View.ext (eventsOf_concat (by simp [Origin.isOwn])) ?_ (eventsOf_concat_other rfl)
    (captured_emit count_fileStack)
  funext p
  exact eventsOf_concat_other rfl

theorem view_emit_complete : (x.emit (.complete f) (op.fileStack f) event).view f =
    { x.view f with
      own := (x.view f).own ++ [event]
      complete := (x.view f).complete ++ [event]
      captured := event.id } := by
  refine View.ext (eventsOf_concat (by simp [Origin.isOwn])) ?_
    (eventsOf_concat (by simp [Origin.isComplete])) (captured_emit count_fileStack)
  funext p
  exact eventsOf_concat_other rfl

theorem view_emit_part : (x.emit (.part f part) (op.partStack f part) event).view f =
    { x.view f with
      own := (x.view f).own ++ [event]
      part := Function.update (x.view f).part part ((x.view f).part part ++ [event])
      captured := event.id } := by
  refine View.ext (eventsOf_concat (by simp [Origin.isOwn])) ?_ (eventsOf_concat_other rfl)
    (captured_emit count_partStack)
  funext p
  by_cases h : p = part
  · subst h
    dsimp only
    rw [Function.update_self]
    exact eventsOf_concat (by simp [Origin.isPart])
  · dsimp only
    rw [Function.update_of_ne h]
    exact eventsOf_concat_other (by simp [Origin.isPart, Ne.symm h])

theorem view_preserve {requestId : Option Text} :
    (x.preserveOperationFailureRequestId (op.fileStack f) requestId).view f =
      { x.view f with captured := requestId.bind sanitizeRequestId } := by
  refine View.ext rfl rfl rfl ?_
  change (onStack _ _ x.traces (.file f)).terminalResponseRequestId = _
  rw [onStack_of_count count_fileStack]

theorem view_preserve_other {requestId : Option Text} (h : g ≠ f) :
    (x.preserveOperationFailureRequestId (op.fileStack f) requestId).view g = x.view g := by
  refine View.ext rfl rfl rfl ?_
  change (onStack _ _ x.traces (.file g)).terminalResponseRequestId = _
  rw [onStack_of_not_mem (file_not_mem h)]
  rfl

theorem captured_preserve {requestId : Option Text} {p : Nat} :
    (x.preserveOperationFailureRequestId (op.fileStack f) requestId).captured (.part g p) =
      x.captured (.part g p) := by
  change (onStack _ _ x.traces (.part g p)).terminalResponseRequestId = _
  rw [onStack_of_not_mem part_not_mem]
  rfl

end Views

section Invariant

variable [DecidableEq F]

-- The id of a file, by what ended its operation.
def Caused (op : Operation) (v : View) (id : Option Text) : Outcome → Prop
  | .succeeded => id = terminal v.own ∧ Settled v.own
  | .partFailed p => ∃ request, op.parts[p]? = some request ∧ v.part p = request.events ∧
      id = terminal request.events
  | .completeFailed => id = terminal v.own ∧ ∃ request before, op.complete = some request ∧
      v.complete = request.events ∧ v.own = before ++ request.events
  | _ => id = terminal v.own

structure Leading (op : Operation) (v : View) (todo : List Event) : Prop where
  captured : v.captured = terminal v.own
  own : v.own ++ todo = op.lead.events
  complete : v.complete = []
  part : ∀ p, v.part p = []

structure Transferring (op : Operation) (v : View) (pending : List Nat)
    (inFlight : List (Nat × List Event)) : Prop where
  captured : v.captured = terminal v.own
  complete : v.complete = []
  nodup : (pending ++ inFlight.map Prod.fst).Nodup
  waiting : ∀ p ∈ pending, v.part p = []
  flight : ∀ job ∈ inFlight, ∃ request, op.parts[job.1]? = some request ∧
    v.part job.1 ++ job.2 = request.events
  last : ∀ e ∈ v.own.getLast?, e.isResponse = true ∨ ∃ job ∈ inFlight, e ∈ (v.part job.1).getLast?

structure Completing (op : Operation) (v : View) (request : Request) (todo : List Event)
    (before : List Event) : Prop where
  captured : v.captured = terminal v.own
  asked : op.complete = some request
  events : v.complete ++ todo = request.events
  own : v.own = before ++ v.complete
  settled : Settled before

def FileInv (op : Operation) (v : View) : Phase → Prop
  | .waiting => v.captured = none ∧ v.own = [] ∧ v.complete = [] ∧ ∀ p, v.part p = []
  | .leading todo => Leading op v todo
  | .transferring pending inFlight => Transferring op v pending inFlight
  | .completing todo => ∃ request before, Completing op v request todo before
  | .aborting cause _ => Caused op v v.captured cause
  | .finished outcome id => Caused op v id outcome

structure Inv (ops : F → Operation) (x : State F) : Prop where
  counted : x.command.responseCount = min (x.emitted.countP fun e => e.2.isResponse) usizeMax
  parts : ∀ f p, x.captured (.part f p) = terminal ((x.view f).part p)
  file : ∀ f, FileInv (ops f) (x.view f) (x.phase f)

theorem Inv.start : Inv ops (State.start F) where
  counted := rfl
  parts _ _ := rfl
  file _ := ⟨rfl, rfl, rfl, fun _ => rfl⟩

theorem Inv.of_file (hcounted : x'.command.responseCount =
      min (x'.emitted.countP fun e => e.2.isResponse) usizeMax)
    (hparts : ∀ g p, x'.captured (.part g p) = terminal ((x'.view g).part p)) (hi : Inv ops x)
    (hother : ∀ g, g ≠ f → x'.view g = x.view g) (hphase : ∀ g, g ≠ f → x'.phase g = x.phase g)
    (hfile : FileInv (ops f) (x'.view f) (x'.phase f)) : Inv ops x' := by
  refine ⟨hcounted, hparts, fun g => ?_⟩
  by_cases h : g = f
  · rw [h]
    exact hfile
  · rw [hother g h, hphase g h]
    exact hi.file g

theorem Inv.enter (hi : Inv ops x) (h : FileInv (ops f) (x.view f) phase) : Inv ops (x.enter f phase) := by
  refine Inv.of_file (f := f) hi.counted hi.parts hi (fun _ _ => rfl) (fun g hg => phase_enter_other hg) ?_
  rw [phase_enter]
  exact h

theorem counted_emit (h : x.command.responseCount = min (x.emitted.countP fun e => e.2.isResponse) usizeMax) :
    (x.emit origin stack event).command.responseCount =
      min ((x.emit origin stack event).emitted.countP fun e => e.2.isResponse) usizeMax := by
  rw [State.emit]
  dsimp only
  rw [record_responseCount, List.countP_append, List.countP_singleton, h]
  unfold saturatingAdd
  split <;> omega

theorem Inv.emit (hi : Inv ops x) (howner : ∀ g, g ≠ f → origin.isOwn g = false)
    (hstack : ∀ g, g ≠ f → Scope.file g ∉ stack)
    (hparts : ∀ g p, (x.emit origin stack event).captured (.part g p) =
      terminal (((x.emit origin stack event).view g).part p))
    (hfile : FileInv (ops f) ((x.emit origin stack event).view f) phase) :
    Inv ops ((x.emit origin stack event).enter f phase) := by
  have hcounted : (x.emit origin stack event).command.responseCount =
      min ((x.emit origin stack event).emitted.countP fun e => e.2.isResponse) usizeMax :=
    counted_emit hi.counted
  refine Inv.of_file (f := f) hcounted hparts hi (fun g hg => ?_) (fun g hg => phase_enter_other hg) ?_
  · exact view_emit_other (howner g hg) (hstack g hg)
  · rw [phase_enter]
    exact hfile

theorem Inv.emit_parts_other (hi : Inv ops x) (hstack : ∀ g p, Scope.part g p ∉ stack)
    (hpart : ∀ g p, origin.isPart g p = false) (g : F) (p : Nat) :
    (x.emit origin stack event).captured (.part g p) =
      terminal (((x.emit origin stack event).view g).part p) := by
  rw [captured_emit_other (hstack g p), hi.parts g p]
  exact congrArg terminal (eventsOf_concat_other (hpart g p)).symm

theorem Inv.emit_parts (hi : Inv ops x) (f : F) (part : Nat) (g : F) (p : Nat) :
    (x.emit (.part f part) (op.partStack f part) event).captured (.part g p) =
      terminal (((x.emit (.part f part) (op.partStack f part) event).view g).part p) := by
  by_cases h : g = f ∧ p = part
  · obtain ⟨rfl, rfl⟩ := h
    rw [captured_emit count_part, view_emit_part]
    dsimp only
    rw [Function.update_self, terminal_concat]
  · rw [captured_emit_other (other_part_not_mem h), hi.parts g p]
    refine congrArg terminal (eventsOf_concat_other ?_).symm
    simp only [Origin.isPart, Bool.and_eq_false_iff, decide_eq_false_iff_not]
    tauto

theorem Inv.preserve (hi : Inv ops x) {requestId : Option Text}
    (h : FileInv (ops f) { x.view f with captured := requestId.bind sanitizeRequestId } phase) :
    Inv ops ((x.preserveOperationFailureRequestId (op.fileStack f) requestId).enter f phase) := by
  refine Inv.of_file (f := f) hi.counted (fun g p => ?_) hi (fun g hg => ?_)
    (fun g hg => phase_enter_other hg) ?_
  · exact captured_preserve.trans (hi.parts g p)
  · rw [view_enter]
    exact view_preserve_other hg
  · rw [phase_enter, view_enter, view_preserve]
    exact h

theorem Transferring.launch {v : View} {request : Request} {pending : List Nat}
    {inFlight : List (Nat × List Event)} (h : Transferring op v (part :: pending) inFlight)
    (hpart : op.parts[part]? = some request) :
    Transferring op v pending (inFlight ++ [(part, request.events)]) where
  captured := h.captured
  complete := h.complete
  nodup := (launch_perm pending inFlight part request.events).nodup_iff.mpr h.nodup
  waiting p hp := h.waiting p (List.mem_cons_of_mem _ hp)
  flight := by
    refine List.forall_mem_append.mpr ⟨h.flight, List.forall_mem_singleton.mpr ⟨request, hpart, ?_⟩⟩
    rw [h.waiting part List.mem_cons_self]
    rfl
  last e he := by
    rcases h.last e he with hresponse | ⟨job, hjob, hlast⟩
    · exact .inl hresponse
    · exact .inr ⟨job, List.mem_append_left _ hjob, hlast⟩

theorem Transferring.respond {v : View} {pending : List Nat} {todo : List Event}
    {before after : List (Nat × List Event)}
    (h : Transferring op v pending (before ++ (part, event :: todo) :: after)) :
    Transferring op
      { v with
        own := v.own ++ [event]
        part := Function.update v.part part (v.part part ++ [event])
        captured := event.id } pending (before ++ (part, todo) :: after) := by
  have hperm := finish_perm pending before after part (event :: todo)
  have hone := (List.nodup_cons.mp (hperm.nodup_iff.mp h.nodup)).1
  rw [List.mem_append, not_or] at hone
  refine ⟨terminal_concat.symm, h.complete, ?_, fun p hp => ?_, ?_, fun e he => ?_⟩
  · rw [map_fst_progress before after part (event :: todo) todo]
    exact h.nodup
  · have hne : p ≠ part := fun heq => hone.1 (heq ▸ hp)
    dsimp only
    rw [Function.update_of_ne hne]
    exact h.waiting p hp
  · have hsame : ∀ job ∈ before ++ after, ∃ request, op.parts[job.1]? = some request ∧
        Function.update v.part part (v.part part ++ [event]) job.1 ++ job.2 = request.events := by
      intro job hjob
      have hne : job.1 ≠ part := fun heq => hone.2 (heq ▸ List.mem_map_of_mem hjob)
      rw [Function.update_of_ne hne]
      refine h.flight job ?_
      rcases List.mem_append.mp hjob with hjob | hjob <;> simp [hjob]
    obtain ⟨request, hpart, hevents⟩ := h.flight (part, event :: todo) (by simp)
    intro job hjob
    rcases List.mem_append.mp hjob with hjob | hjob
    · exact hsame job (List.mem_append_left _ hjob)
    · rcases List.mem_cons.mp hjob with rfl | hjob
      · refine ⟨request, hpart, ?_⟩
        dsimp only
        rw [Function.update_self, List.append_assoc]
        exact hevents
      · exact hsame job (List.mem_append_right _ hjob)
  -- the last attempt of the file is now the last one of the part
  · refine .inr ⟨(part, todo), by simp, ?_⟩
    dsimp only at he ⊢
    rw [Function.update_self]
    rw [List.getLast?_concat] at he ⊢
    exact he

theorem Transferring.partOk {v : View} {request : Request} {pending : List Nat}
    {before after : List (Nat × List Event)}
    (h : Transferring op v pending (before ++ (part, []) :: after))
    (hpart : op.parts[part]? = some request) (hok : request.isOk = true) :
    Transferring op v pending (before ++ after) := by
  have hperm := finish_perm pending before after part []
  refine ⟨h.captured, h.complete, (List.nodup_cons.mp (hperm.nodup_iff.mp h.nodup)).2, h.waiting,
    fun job hjob => h.flight job ?_, fun e he => ?_⟩
  · rcases List.mem_append.mp hjob with hjob | hjob <;> simp [hjob]
  · rcases h.last e he with hresponse | ⟨job, hjob, hlast⟩
    · exact .inl hresponse
    · rcases List.mem_append.mp hjob with hjob | hjob
      · exact .inr ⟨job, List.mem_append_left _ hjob, hlast⟩
      · rcases List.mem_cons.mp hjob with rfl | hjob
        · obtain ⟨request', hpart', hevents⟩ := h.flight (part, []) (by simp)
          obtain rfl := Option.some.inj (hpart'.symm.trans hpart)
          rw [List.append_nil] at hevents
          rw [hevents] at hlast
          exact .inl (request'.answered hok e hlast)
        · exact .inr ⟨job, List.mem_append_right _ hjob, hlast⟩

theorem Transferring.settled {v : View} {pending : List Nat} (h : Transferring op v pending []) :
    Settled v.own := by
  intro e he
  rcases h.last e he with hresponse | ⟨job, hjob, -⟩
  · exact hresponse
  · cases hjob

theorem Completing.succeeds {v : View} {request : Request} {before : List Event}
    (h : Completing op v request [] before) (hok : request.isOk = true) :
    Caused op v v.captured .succeeded := by
  refine ⟨h.captured, ?_⟩
  have hevents := h.events
  rw [List.append_nil] at hevents
  rw [h.own, hevents]
  exact settled_append (request.answered hok) h.settled

theorem Inv.step (hi : Inv ops x) (hstep : Step ops x x') : Inv ops x' := by
  cases hstep with
  | start f h =>
    have hf := hi.file f
    rw [h] at hf
    obtain ⟨hcaptured, hown, hcomplete, hpart⟩ := hf
    refine hi.enter (Leading.mk ?_ ?_ hcomplete hpart)
    · rw [hcaptured, hown, terminal_nil]
    · rw [hown, List.nil_append]
  | lead f event todo h =>
    have hf := hi.file f
    rw [h] at hf
    have hown := Leading.own hf
    refine hi.emit (f := f) (fun g hg => by simp [Origin.isOwn, Ne.symm hg]) (fun g hg => file_not_mem hg)
      (hi.emit_parts_other (fun _ _ => part_not_mem) fun _ _ => rfl) ?_
    rw [view_emit_lead]
    refine Leading.mk terminal_concat.symm ?_ hf.complete hf.part
    rw [List.append_assoc]
    exact hown
  | leadFail f h hfail =>
    have hf := hi.file f
    rw [h] at hf
    exact hi.enter (Leading.captured hf)
  | leadOk f h hok =>
    have hf := hi.file f
    rw [h] at hf
    have hown := Leading.own hf
    rw [List.append_nil] at hown
    refine hi.enter (Transferring.mk hf.captured hf.complete ?_ (fun p _ => hf.part p) (by simp) ?_)
    · rw [List.map_nil, List.append_nil]
      exact List.nodup_range
    · rw [hown]
      exact fun e he => .inl ((ops f).lead.answered hok e he)
  | launch f part pending inFlight request h hroom hpart =>
    have hf := hi.file f
    rw [h] at hf
    exact hi.enter (Transferring.launch hf hpart)
  | respond f part event todo pending before after h =>
    have hf := hi.file f
    rw [h] at hf
    refine hi.emit (f := f) (fun g hg => by simp [Origin.isOwn, Ne.symm hg])
      (fun g hg => file_not_mem_part hg) (hi.emit_parts f part) ?_
    rw [view_emit_part]
    exact Transferring.respond hf
  | partOk f part pending before after request h hpart hok =>
    have hf := hi.file f
    rw [h] at hf
    exact hi.enter (Transferring.partOk hf hpart hok)
  | partFail f part pending before after request h hpart hfail =>
    have hf := hi.file f
    rw [h] at hf
    obtain ⟨request', hpart', hevents⟩ := Transferring.flight hf (part, []) (by simp)
    rw [List.append_nil] at hevents
    have hid : (x.captured (.part f part)).bind sanitizeRequestId = terminal request'.events := by
      rw [hi.parts f part, terminal_usable, hevents]
    have hcaused : FileInv (ops f)
        { x.view f with captured := (x.captured (.part f part)).bind sanitizeRequestId }
        (.aborting (.partFailed part) (ops f).cleanup) := ⟨request', hpart', hevents, hid⟩
    exact hi.preserve hcaused
  | complete f pending request h hdone hcomplete =>
    have hf := hi.file f
    rw [h] at hf
    have hnone := Transferring.complete hf
    have hstarts : Completing (ops f) (x.view f) request request.events (x.view f).own := by
      refine ⟨hf.captured, hcomplete, ?_, ?_, Transferring.settled hf⟩
      · rw [hnone, List.nil_append]
      · rw [hnone, List.append_nil]
    exact hi.enter (Exists.intro request (Exists.intro _ hstarts))
  | completing f event todo h =>
    have hf := hi.file f
    rw [h] at hf
    obtain ⟨request, before, hf⟩ := hf
    refine hi.emit (f := f) (fun g hg => by simp [Origin.isOwn, Ne.symm hg]) (fun g hg => file_not_mem hg)
      (hi.emit_parts_other (fun _ _ => part_not_mem) fun _ _ => rfl) ?_
    rw [view_emit_complete]
    refine ⟨request, before, terminal_concat.symm, hf.asked, ?_, ?_, hf.settled⟩
    · dsimp only
      rw [List.append_assoc]
      exact hf.events
    · dsimp only
      rw [hf.own, List.append_assoc]
  | completeFail f request h hcomplete hfail =>
    have hf := hi.file f
    rw [h] at hf
    obtain ⟨request', before, hf⟩ := hf
    have hevents := hf.events
    rw [List.append_nil] at hevents
    have hcaused : FileInv (ops f) (x.view f) (.aborting .completeFailed (ops f).cleanup) :=
      ⟨hf.captured, request', before, hf.asked, hevents, by rw [hf.own, hevents]⟩
    exact hi.enter hcaused
  | completeOk f request h hcomplete hok =>
    have hf := hi.file f
    rw [h] at hf
    obtain ⟨request', before, hf⟩ := hf
    obtain rfl := Option.some.inj (hf.asked.symm.trans hcomplete)
    exact hi.enter (hf.succeeds hok)
  | rangesOk f h hcomplete =>
    have hf := hi.file f
    rw [h] at hf
    exact hi.enter ⟨Transferring.captured hf, Transferring.settled hf⟩
  | localFail f h =>
    have hf := hi.file f
    rcases h with ⟨pending, inFlight, h⟩ | h
    · rw [h] at hf
      exact hi.enter (Transferring.captured hf)
    · rw [h] at hf
      obtain ⟨request, before, hf⟩ := hf
      exact hi.enter hf.captured
  | cleanup f cause event todo h =>
    have hf := hi.file f
    rw [h] at hf
    refine hi.emit (f := f) (fun _ _ => rfl) (fun _ _ => by simp)
      (hi.emit_parts_other (fun _ _ => by simp) fun _ _ => rfl) ?_
    rw [view_emit_other rfl (by simp)]
    exact hf
  | aborted f cause h =>
    have hf := hi.file f
    rw [h] at hf
    exact hi.enter hf

theorem Inv.run (hx : Runs ops x) : Inv ops x := by
  induction hx with
  | refl => exact Inv.start
  | tail _ hstep ih => exact ih.step hstep

end Invariant

end VeStorage.ADrive.RequestId

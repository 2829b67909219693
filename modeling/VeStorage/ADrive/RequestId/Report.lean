import VeStorage.ADrive.RequestId.Own

namespace VeStorage.ADrive.RequestId
open Lib
open Relation (ReflTransGen)

variable {F : Type} [DecidableEq F] {ops : F → Operation} {op : Operation} {x : State F} {f : F}
  {outcome : Outcome} {id : Option Text} {part : Nat}

-- The id of the request that ended the operation.
def OwnId (op : Operation) (own : List Event) (id : Option Text) : Outcome → Prop
  | .succeeded => id = lastResponseId own
  | .partFailed p => ∀ request, op.parts[p]? = some request → id = terminal request.events
  | .completeFailed => ∀ request, op.complete = some request → id = terminal request.events
  | _ => True

def State.own (x : State F) (f : F) : List Event := eventsOf (Origin.isOwn f) x.emitted

-- The attempts of the file before its completing request.
def State.earlier (x : State F) (f : F) : List Event :=
  eventsOf (fun origin => origin.isOwn f && !origin.isComplete f) x.emitted

def CompletionAttempted (op : Operation) (earlier : List Event) : Outcome → Prop
  | .completeFailed => ∀ request, op.complete = some request →
      request.events ≠ [] ∨ terminal earlier = none
  | _ => True

theorem part_subset (f : F) (part : Nat) : (x.view f).part part ⊆ x.own f := by
  intro e he
  obtain ⟨entry, hentry, rfl⟩ := List.mem_map.mp he
  obtain ⟨hmem, hpart⟩ := List.mem_filter.mp hentry
  refine List.mem_map_of_mem (List.mem_filter.mpr ⟨hmem, ?_⟩)
  by_contra hown
  rw [Origin.isPart_eq_false (Bool.of_not_eq_true hown)] at hpart
  cases hpart

theorem earlier_of_complete (h : (x.view f).complete = []) : x.earlier f = x.own f := by
  have hnone : ∀ entry ∈ x.emitted, entry.1.isComplete f = false := by
    intro entry hentry
    have hfilter := List.map_eq_nil_iff.mp h
    simpa using List.filter_eq_nil_iff.mp hfilter entry hentry
  refine congrArg (List.map Prod.snd) (List.filter_congr fun entry hentry => ?_)
  dsimp only
  rw [hnone entry hentry, Bool.not_false, Bool.and_true]

theorem Inv.caused (hi : Inv ops x) (h : x.phase f = .finished outcome id) :
    Caused (ops f) (x.view f) id outcome := by
  have hf := hi.file f
  rw [h] at hf
  exact hf

theorem Caused.inside (h : Caused op (x.view f) id outcome) {requestId : Text}
    (hid : id = some requestId) : ∃ e ∈ x.own f, e.id = some requestId := by
  have hown : id = terminal (x.own f) → ∃ e ∈ x.own f, e.id = some requestId := fun heq =>
    mem_of_terminal (heq.symm.trans hid)
  cases outcome with
  | succeeded => exact hown h.1
  | leadFailed => exact hown h
  | completeFailed => exact hown h.1
  | localFailed => exact hown h
  | partFailed p =>
    obtain ⟨request, -, hevents, heq⟩ := h
    obtain ⟨e, he, hrequest⟩ := mem_of_terminal (heq.symm.trans hid)
    exact ⟨e, part_subset f p (hevents ▸ he), hrequest⟩

theorem Caused.ownId_iff (h : Caused op (x.view f) id outcome) :
    OwnId op (x.own f) id outcome ↔ CompletionAttempted op (x.earlier f) outcome := by
  cases outcome with
  | succeeded => exact iff_of_true (h.1.trans (terminal_of_settled h.2)) trivial
  | leadFailed => exact Iff.rfl
  | localFailed => exact Iff.rfl
  | partFailed p =>
    obtain ⟨request, hpart, -, heq⟩ := h
    refine iff_of_true (fun request' hpart' => ?_) trivial
    obtain rfl := Option.some.inj (hpart.symm.trans hpart')
    exact heq
  | completeFailed =>
    obtain ⟨heq, request, before, hcomplete, hevents, hown⟩ := h
    have hrequest : ∀ request', op.complete = some request' → request' = request := fun request' h =>
      Option.some.inj (h.symm.trans hcomplete)
    have hsame : terminal (x.own f) = terminal request.events ↔
        request.events ≠ [] ∨ terminal (x.earlier f) = none := by
      by_cases hempty : request.events = []
      · rw [earlier_of_complete (hevents.trans hempty), hempty, terminal_nil]
        simp
      · refine iff_of_true ?_ (.inl hempty)
        exact (congrArg terminal hown).trans (terminal_append hempty)
    refine Iff.trans ⟨fun hid => ?_, fun hid request' h => ?_⟩ (hsame.trans ⟨fun h request' h' => ?_, fun h => ?_⟩)
    · exact heq.symm.trans (hid request hcomplete)
    · rw [hrequest request' h]
      exact heq.trans hid
    · rw [hrequest request' h']
      exact h
    · exact h request hcomplete

theorem row_id_own (ops : F → Operation) (x : State F) (hx : Runs ops x) :
    x.command.responseCount = min (x.emitted.countP fun e => e.2.isResponse) usizeMax ∧
      ∀ f outcome id, x.phase f = .finished outcome id →
        (∀ requestId, id = some requestId → ∃ e ∈ x.own f, e.id = some requestId) ∧
        (OwnId (ops f) (x.own f) id outcome ↔ CompletionAttempted (ops f) (x.earlier f) outcome) := by
  have hi := Inv.run hx
  refine ⟨hi.counted, fun f outcome id h => ⟨fun requestId hid => ?_, ?_⟩⟩
  · exact (hi.caused h).inside hid
  · exact (hi.caused h).ownId_iff

section Downloads

-- A download has no completing request.
theorem completionAttempted_of_none {earlier : List Event} (h : op.complete = none) :
    CompletionAttempted op earlier outcome := by
  cases outcome with
  | completeFailed =>
    intro request hcomplete
    rw [h] at hcomplete
    cases hcomplete
  | _ => trivial

theorem range_id_own {enclosing : List Nat} {head : Option Request} {pending : List Request}
    {multipartConcurrency : Nat} (hx : Runs ops x) (h : x.phase f = .finished outcome id)
    (hop : ops f = downloadAdriveFileRanges enclosing head pending multipartConcurrency) :
    OwnId (ops f) (x.own f) id outcome :=
  ((Inv.run hx).caused h).ownId_iff.mpr (completionAttempted_of_none (by rw [hop]; rfl))

theorem share_range_id_own {enclosing : List Nat} {plan : List Request} {concurrency : Nat}
    (hx : Runs ops x) (h : x.phase f = .finished outcome id)
    (hop : ops f = shareRangeDownload enclosing plan concurrency) :
    OwnId (ops f) (x.own f) id outcome :=
  ((Inv.run hx).caused h).ownId_iff.mpr (completionAttempted_of_none (by rw [hop]; rfl))

end Downloads

section Sample

def answer (requestId : String) (isSuccess : Bool) : Event := .response (some requestId.toList) isSuccess

theorem settled_answer (requestId : String) (isSuccess : Bool) : Settled [answer requestId isSuccess] := by
  simp [Settled, answer, Event.isResponse]

-- Two ranges of one file, the first of which fails, and one range of another file.
def sampleRanges : Bool → Operation
  | false => shareRangeDownload [] [⟨[answer "range-1" false], false, nofun⟩,
      ⟨[answer "range-2" true], true, fun _ => settled_answer _ _⟩] 4
  | true => shareRangeDownload [] [⟨[answer "other-1" true], true, fun _ => settled_answer _ _⟩] 4

theorem row_id_own_ranges :
    ∃ x : State Bool, x.phase false = .finished (.partFailed 0) (some "range-1".toList) ∧
      x.phase true = .finished .succeeded (some "other-1".toList) ∧
      lastResponseId (x.own false) = some "range-2".toList ∧
      x.command.terminalResponseRequestId = some "other-1".toList ∧
      x.command.responseCount = min (x.emitted.countP fun e => e.2.isResponse) usizeMax ∧
      ∀ f outcome id, x.phase f = .finished outcome id →
        (∀ requestId, id = some requestId → ∃ e ∈ x.own f, e.id = some requestId) ∧
        (OwnId (sampleRanges f) (x.own f) id outcome ↔
          CompletionAttempted (sampleRanges f) (x.earlier f) outcome) := by
  have hfirst : Step sampleRanges (.start Bool) _ := Step.start (.start Bool) false rfl
  have hstart := (ReflTransGen.single hfirst).tail (Step.leadOk _ false rfl rfl)
  have hother := (hstart.tail (Step.start _ true rfl)).tail (Step.leadOk _ true rfl rfl)
  have hlaunch := (hother.tail (Step.launch _ false 0 [1] [] _ rfl (by decide) rfl)).tail
    (Step.launch _ false 1 [] _ _ rfl (by decide) rfl)
  have hlaunched := hlaunch.tail (Step.launch _ true 0 [] [] _ rfl (by decide) rfl)
  have hrefused := hlaunched.tail (Step.respond _ false 0 (answer "range-1" false) [] [] [] _ rfl)
  have hsibling := hrefused.tail (Step.respond _ false 1 (answer "range-2" true) [] [] [_] [] rfl)
  have hanswered := hsibling.tail (Step.respond _ true 0 (answer "other-1" true) [] [] [] [] rfl)
  have hfailed := (hanswered.tail (Step.partFail _ false 0 [] [] [_] _ rfl rfl rfl)).tail
    (Step.aborted _ false _ rfl)
  have hfinished := (hfailed.tail (Step.partOk _ true 0 [] [] [] _ rfl rfl rfl)).tail
    (Step.rangesOk _ true rfl rfl)
  refine ⟨_, ?_, ?_, by decide, by decide, row_id_own _ _ hfinished⟩
  · exact congrArg (Phase.finished _) (by decide)
  · exact congrArg (Phase.finished _) (by decide)

def sampleUpload : Operation :=
  uploadAdriveFileMultipartForBatch [] none [⟨[answer "part-1" true], true, fun _ => settled_answer _ _⟩] 4
    ⟨[], false, nofun⟩ true []

-- The completing request fails before it reaches the service.
theorem row_id_own_fails : ¬ ∀ (ops : Unit → Operation) (x : State Unit), Runs ops x →
    ∀ f outcome id, x.phase f = .finished outcome id → OwnId (ops f) (x.own f) id outcome := by
  intro hall
  have hfirst : Step (fun _ => sampleUpload) (.start Unit) _ := Step.start (.start Unit) () rfl
  have hstart := ReflTransGen.single hfirst
  have hlead := hstart.tail (Step.leadOk _ () phase_enter rfl)
  have hlaunch := hlead.tail (Step.launch _ () 0 [] [] _ phase_enter (by decide) rfl)
  have hrespond := hlaunch.tail (Step.respond _ () 0 (answer "part-1" true) [] [] [] [] phase_enter)
  have hok := hrespond.tail (Step.partOk _ () 0 [] [] [] _ phase_enter rfl rfl)
  have hcomplete := hok.tail (Step.complete _ () [] _ phase_enter (.inl rfl) rfl)
  have hfail := hcomplete.tail (Step.completeFail _ () _ phase_enter rfl rfl)
  have hfinish := hfail.tail (Step.aborted _ () _ phase_enter)
  have hown := hall _ _ hfinish () .completeFailed (some "part-1".toList) ?_ _ rfl
  · cases hown
  · refine phase_enter.trans (congrArg (Phase.finished _) ?_)
    decide

end Sample

end VeStorage.ADrive.RequestId

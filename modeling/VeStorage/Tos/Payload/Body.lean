import VeStorage.ADrive.Token.Manager
import VeStorage.Tos.Payload.Names

namespace VeStorage.Tos.Payload
open Lib
open ADrive.Token (isWhitespace)

-- The two parsers outside the program, on texts.
structure Parsers where
  fromStr : Text → Option Value
  readEvents : Text → List XmlEvent

def wrapperKeys : List Text :=
  ["result", "data", "body", "payload", "response", "list_bucket_result",
    "list_objects_result"].map String.toList

def listResponseFields : List Text :=
  ["contents", "objects", "common_prefixes", "common_prefix", "uploads", "parts", "versions",
    "delete_markers", "is_truncated", "key_count", "next_continuation_token",
    "next_marker"].map String.toList

def hasListResponseFields (value : Value) : Bool :=
  listResponseFields.any fun name => (value.get name).isSome

def parseEmbeddedPayload (parse : Text → Option Value) : Value → Value
  | .string text => (parse text).getD (.string text)
  | other => other

-- The rounds left come first; `embedded` is `parse_embedded_payload`.
def unwrapRounds (embedded : Value → Value) : Nat → Value → Value
  | 0, value => value
  | rounds + 1, value =>
    if hasListResponseFields value then value
    else match value with
      | .object fields =>
        match wrapperKeys.findSome? fun wrapper => fields.lookup wrapper with
        | some nested => unwrapRounds embedded rounds (embedded nested)
        | none => .object fields
      | other => other

def unwrapResponsePayload (embedded : Value → Value) (value : Value) : Value :=
  unwrapRounds embedded 8 value

def startsWithTag (body : Text) : Bool := (body.dropWhile isWhitespace).head? = some '<'

def wrapperNames : List Name :=
  [.result, .data, .body, .payload, .response, .listBucketResult, .listObjectsResult]

variable (cases : CharCase) (parsers : Parsers)

-- The fuel bounds how deep texts may be embedded in one another.
def parseJsonBody : Nat → Text → Option Value
  | 0, _ => none
  | fuel + 1, body =>
    let parsed := if startsWithTag body then parseXmlToJson (parsers.readEvents body)
      else parsers.fromStr body
    parsed.map fun value =>
      unwrapResponsePayload (parseEmbeddedPayload (parseJsonBody fuel)) (normalizeKeys cases value)

-- How often a page is wrapped, from the outside in: in an object or an element, or as a text.
inductive Layer
  | nested (style : NameCase) (wrapper : Name)
  | embedded (style : NameCase) (wrapper : Name) (text : Text)

def Layer.wrapper : Layer → Name
  | .nested _ name => name
  | .embedded _ name _ => name

def ReadsJson (text : Text) (value : Value) : Prop :=
  startsWithTag text = false ∧ parsers.fromStr text = some value

def ReadsXml (text : Text) (x : Xml) : Prop :=
  startsWithTag text = true ∧ ∃ before after, parsers.readEvents text =
    List.replicate before .other ++ x.events ++ List.replicate after .other

variable (isJson : Value → Prop) (isXml : Xml → Prop) (xml : Bool)

def WrappedXml : List Layer → Xml → Prop
  | [], x => xml = true ∧ isXml x
  | .nested style wrapper :: layers, x => ∃ root name children,
      x = .node root [.node (style.spell wrapper) children] ∧ WrappedXml layers (.node name children)
  | .embedded _ _ _ :: _, _ => False

def WrappedJson : List Layer → Value → Prop
  | [], value => xml = false ∧ isJson value
  | .nested style wrapper :: layers, value => ∃ inner,
      value = .object [(style.spell wrapper, inner)] ∧ WrappedJson layers inner
  | .embedded style wrapper text :: layers, value =>
      value = .object [(style.spell wrapper, .string text)] ∧
        ((∃ inner, ReadsJson parsers text inner ∧ WrappedJson layers inner) ∨
          ∃ x, ReadsXml parsers text x ∧ WrappedXml isXml xml layers x)

-- A response body that holds the page below these wrappers.
def Holds (layers : List Layer) (body : Text) : Prop :=
  (∀ layer ∈ layers, layer.wrapper ∈ wrapperNames) ∧
    ((∃ value, ReadsJson parsers body value ∧ WrappedJson parsers isJson isXml xml layers value) ∨
      ∃ x, ReadsXml parsers body x ∧ WrappedXml isXml xml layers x)

section Unwrapped

variable {cases parsers isJson isXml xml} {layers : List Layer} {text : Text} {x : Xml}
  {value nested : Value} {style : NameCase} {wrapper : Name} {rounds fuel : Nat}
  {embedded : Value → Value}

theorem parse_prologue (before : Nat) (state : XmlState) (events : List XmlEvent) :
    parseXmlEvents state (List.replicate before .other ++ events) = parseXmlEvents state events := by
  induction before with
  | zero => rfl
  | succ before ih => rw [List.replicate_succ, List.cons_append, parseXmlEvents, ih]

theorem ReadsXml.parsed (h : ReadsXml parsers text x) :
    parseXmlToJson (parsers.readEvents text) = some x.value := by
  obtain ⟨-, before, after, hevents⟩ := h
  have hrest := parse_prologue after ⟨[], some x.value⟩ []
  rw [List.append_nil] at hrest
  rw [hevents, parseXmlToJson, List.append_assoc, parse_prologue, parse_events]
  exact hrest

theorem wrapper_known : ∀ name ∈ wrapperNames, NameCase.snake.spell name ∈ wrapperKeys := by
  decide +kernel

theorem wrapper_not_listed :
    ∀ name ∈ wrapperNames, NameCase.snake.spell name ∉ listResponseFields := by
  decide +kernel

theorem findSome_lookup {keys : List Text} {name : Text} (h : name ∈ keys) :
    (keys.findSome? fun key => List.lookup key [(name, value)]) = some value := by
  induction keys with
  | nil => cases h
  | cons key rest ih =>
    rw [List.findSome?_cons, lookup_entry, List.lookup_nil]
    by_cases he : key = name
    · rw [if_pos he]
    · rw [if_neg he]
      exact ih ((List.mem_cons.mp h).resolve_left (Ne.symm he))

theorem unwrap_wrapper (h : wrapper ∈ wrapperNames) :
    unwrapRounds embedded (rounds + 1) (.object [(NameCase.snake.spell wrapper, nested)]) =
      unwrapRounds embedded rounds (embedded nested) := by
  have hlisted : hasListResponseFields (.object [(NameCase.snake.spell wrapper, nested)]) = false := by
    rw [hasListResponseFields, List.any_eq_false]
    intro name hname hsome
    rw [Value.get, lookup_entry, List.lookup_nil] at hsome
    split at hsome
    · rename_i he
      exact wrapper_not_listed wrapper h (he ▸ hname)
    · cases hsome
  rw [unwrapRounds, if_neg (by simp [hlisted])]
  simp only [findSome_lookup (wrapper_known wrapper h)]

theorem normalizeKeys_single : normalizeKeys cases (.object [(style.spell wrapper, value)]) =
    .object [(NameCase.snake.spell wrapper, normalizeKeys cases value)] := by
  rw [normalizeKeys_object, normalizeFields, normalizeFields, toSnakeCase_spell, Map.insert]

theorem unwrap_listed (h : hasListResponseFields value = true) :
    unwrapRounds embedded rounds value = value := by
  cases rounds with
  | zero => rfl
  | succ rounds => simp [unwrapRounds, h]

def Value.IsObject : Value → Prop
  | .object _ => True
  | _ => False

theorem listed_object (h : hasListResponseFields value = true) : value.IsObject := by
  obtain ⟨name, -, hname⟩ := List.any_eq_true.mp h
  cases value with
  | object fields => trivial
  | _ => simp [Value.get] at hname

theorem embedded_object {parse : Text → Option Value} (h : value.IsObject) :
    parseEmbeddedPayload parse value = value := by
  cases value with
  | object fields => rfl
  | _ => exact h.elim

-- The page itself, as the body parser leaves it.
def Bare (cases : CharCase) (isJson : Value → Prop) (isXml : Xml → Prop) (xml : Bool)
    (value : Value) : Prop :=
  (xml = false ∧ ∃ v, isJson v ∧ value = normalizeKeys cases v) ∨
    xml = true ∧ ∃ x, isXml x ∧ value = normalizeKeys cases x.value

theorem node_single {root name : Text} {children : List Xml} :
    (Xml.node root [.node name children]).value = .object [(name, (Xml.node name children).value)] := by
  simp [Xml.value, collect, mergeChild, Map.insert, XmlNode.value, Xml.name]

theorem WrappedXml.unwrapped (h : WrappedXml isXml xml layers x)
    (hlisted : ∀ v, Bare cases isJson isXml xml v → hasListResponseFields v = true)
    (hw : ∀ layer ∈ layers, layer.wrapper ∈ wrapperNames) (hr : layers.length ≤ rounds)
    (parse : Text → Option Value) :
    (normalizeKeys cases x.value).IsObject ∧ ∃ value, Bare cases isJson isXml xml value ∧
      unwrapRounds (parseEmbeddedPayload parse) rounds (normalizeKeys cases x.value) = value := by
  induction layers generalizing x rounds with
  | nil =>
    have hbare : Bare cases isJson isXml xml (normalizeKeys cases x.value) :=
      .inr ⟨h.1, x, h.2, rfl⟩
    exact ⟨listed_object (hlisted _ hbare), _, hbare, unwrap_listed (hlisted _ hbare)⟩
  | cons layer layers ih =>
    cases layer with
    | embedded style name text => exact h.elim
    | nested style name =>
      obtain ⟨root, inner, children, rfl, hrest⟩ := h
      obtain ⟨r, rfl⟩ : ∃ r, rounds = r + 1 := ⟨rounds - 1, by simp at hr; omega⟩
      have hwrapper : name ∈ wrapperNames := hw _ List.mem_cons_self
      obtain ⟨hobject, value, hbare, hvalue⟩ := ih hrest
        (fun l hl => hw l (List.mem_cons_of_mem _ hl)) (Nat.le_of_succ_le_succ hr)
      have hname : (Xml.node (style.spell name) children).value = (Xml.node inner children).value := rfl
      rw [node_single, normalizeKeys_single, hname]
      refine ⟨trivial, value, hbare, ?_⟩
      rw [unwrap_wrapper hwrapper, embedded_object hobject, hvalue]

theorem WrappedJson.unwrapped (h : WrappedJson parsers isJson isXml xml layers value)
    (hlisted : ∀ v, Bare cases isJson isXml xml v → hasListResponseFields v = true)
    (hw : ∀ layer ∈ layers, layer.wrapper ∈ wrapperNames) (hr : layers.length ≤ rounds)
    (hmax : layers.length ≤ 8) (hf : layers.length ≤ fuel) :
    (normalizeKeys cases value).IsObject ∧ ∃ bare, Bare cases isJson isXml xml bare ∧
      unwrapRounds (parseEmbeddedPayload (parseJsonBody cases parsers fuel)) rounds
        (normalizeKeys cases value) = bare := by
  induction layers generalizing value rounds fuel with
  | nil =>
    have hbare : Bare cases isJson isXml xml (normalizeKeys cases value) :=
      .inl ⟨h.1, value, h.2, rfl⟩
    exact ⟨listed_object (hlisted _ hbare), _, hbare, unwrap_listed (hlisted _ hbare)⟩
  | cons layer layers ih =>
    have hrest : ∀ l ∈ layers, l.wrapper ∈ wrapperNames := fun l hl => hw l (List.mem_cons_of_mem _ hl)
    obtain ⟨r, rfl⟩ : ∃ r, rounds = r + 1 := ⟨rounds - 1, by simp at hr; omega⟩
    obtain ⟨f, rfl⟩ : ∃ f, fuel = f + 1 := ⟨fuel - 1, by simp at hf; omega⟩
    have hround := Nat.le_of_succ_le_succ hr
    have hfuel := Nat.le_of_succ_le_succ hf
    have height : layers.length ≤ 8 := by simp at hmax; omega
    cases layer with
    | nested style name =>
      have hwrapper : name ∈ wrapperNames := hw _ List.mem_cons_self
      obtain ⟨inner, rfl, hinner⟩ := h
      obtain ⟨hobject, bare, hbare, hvalue⟩ := ih hinner hrest hround height (Nat.le_succ_of_le hfuel)
      rw [normalizeKeys_single]
      refine ⟨trivial, bare, hbare, ?_⟩
      rw [unwrap_wrapper hwrapper, embedded_object hobject, hvalue]
    | embedded style name text =>
      have hwrapper : name ∈ wrapperNames := hw _ List.mem_cons_self
      obtain ⟨rfl, hinner⟩ := h
      rw [normalizeKeys_single, normalizeKeys_string]
      refine ⟨trivial, ?_⟩
      rw [unwrap_wrapper hwrapper]
      have hparsed : ∃ bare, Bare cases isJson isXml xml bare ∧
          parseJsonBody cases parsers (f + 1) text = some bare := by
        rcases hinner with ⟨inner, ⟨htag, hread⟩, hinner⟩ | ⟨x, hx, hinner⟩
        · obtain ⟨-, bare, hbare, hvalue⟩ := ih hinner hrest height height hfuel
          exact ⟨bare, hbare, by simp [parseJsonBody, htag, hread, unwrapResponsePayload, hvalue]⟩
        · obtain ⟨-, bare, hbare, hvalue⟩ := hinner.unwrapped hlisted hrest height
            (parseJsonBody cases parsers f)
          exact ⟨bare, hbare, by
            simp [parseJsonBody, hx.1, hx.parsed, unwrapResponsePayload, hvalue]⟩
      obtain ⟨bare, hbare, hparse⟩ := hparsed
      refine ⟨bare, hbare, ?_⟩
      rw [parseEmbeddedPayload, hparse, Option.getD_some, unwrap_listed (hlisted bare hbare)]

theorem Holds.parsed (h : Holds parsers isJson isXml xml layers text)
    (hlisted : ∀ v, Bare cases isJson isXml xml v → hasListResponseFields v = true)
    (hmax : layers.length ≤ 8) (hf : layers.length < fuel) :
    ∃ bare, Bare cases isJson isXml xml bare ∧ parseJsonBody cases parsers fuel text = some bare := by
  obtain ⟨f, rfl⟩ : ∃ f, fuel = f + 1 := ⟨fuel - 1, by omega⟩
  obtain ⟨hw, ⟨value, ⟨htag, hread⟩, hvalue⟩ | ⟨x, hx, hvalue⟩⟩ := h
  · obtain ⟨-, bare, hbare, hunwrap⟩ := hvalue.unwrapped hlisted hw hmax hmax (Nat.lt_succ_iff.mp hf)
    exact ⟨bare, hbare, by simp [parseJsonBody, htag, hread, unwrapResponsePayload, hunwrap]⟩
  · obtain ⟨-, bare, hbare, hunwrap⟩ := hvalue.unwrapped hlisted hw hmax
      (parseJsonBody cases parsers f)
    exact ⟨bare, hbare, by simp [parseJsonBody, hx.1, hx.parsed, unwrapResponsePayload, hunwrap]⟩

end Unwrapped

end VeStorage.Tos.Payload

import VeStorage.Tos.Payload.Value

namespace VeStorage.Tos.Payload
open Lib

-- `text` holds what `unescape` gives, `other` stands for declarations, comments and the like.
inductive XmlEvent
  | start (name : Text)
  | empty (name : Text)
  | text (chunk : Option Text)
  | cdata (chunk : Text)
  | stop
  | other
  | malformed

structure XmlNode where
  name : Text
  children : Map
  text : Text

structure XmlState where
  stack : List XmlNode
  root : Option Value

def mergeChild (children : Map) (name : Text) (value : Value) : Map :=
  match children.lookup name with
  | some (.array items) => Map.insert name (.array (items ++ [value])) children
  | some existing => Map.insert name (.array [existing, value]) children
  | none => Map.insert name value children

def mergeXmlChild (state : XmlState) (name : Text) (value : Value) : XmlState :=
  match state.stack with
  | parent :: stack =>
    { state with stack := { parent with children := mergeChild parent.children name value } :: stack }
  | [] => { state with root := some value }

def pushText (state : XmlState) (chunk : Text) : XmlState :=
  match state.stack with
  | top :: stack => { state with stack := { top with text := top.text ++ chunk } :: stack }
  | [] => state

def XmlNode.value (node : XmlNode) : Value :=
  if node.children.isEmpty then .string node.text else .object node.children

def parseXmlEvents : XmlState → List XmlEvent → Option Value
  | state, [] => some (state.root.getD .null)
  | state, .start name :: rest =>
    parseXmlEvents { state with stack := ⟨name, [], []⟩ :: state.stack } rest
  | state, .empty name :: rest => parseXmlEvents (mergeXmlChild state name (.string [])) rest
  | state, .text chunk :: rest =>
    if state.stack.isEmpty then parseXmlEvents state rest
    else chunk.bind fun chunk => parseXmlEvents (pushText state chunk) rest
  | state, .cdata chunk :: rest => parseXmlEvents (pushText state chunk) rest
  | state, .stop :: rest =>
    match state.stack with
    | [] => some (state.root.getD .null)
    | node :: stack =>
      parseXmlEvents (mergeXmlChild { state with stack := stack } node.name node.value) rest
  | state, .other :: rest => parseXmlEvents state rest
  | _, .malformed :: _ => none

def parseXmlToJson (events : List XmlEvent) : Option Value := parseXmlEvents ⟨[], none⟩ events

-- An element of a document: with text alone, or with elements alone.
inductive Xml
  | leaf (name text : Text)
  | node (name : Text) (children : List Xml)

def Xml.name : Xml → Text
  | .leaf name _ => name
  | .node name _ => name

def isXmlSpace (c : Char) : Bool := [' ', '\t', '\r', '\n'].contains c

-- What `trim_text` leaves of a text.
def trimText (text : Text) : Text := (text.dropWhile isXmlSpace).rdropWhile isXmlSpace

mutual

-- A text of white space alone gives no event.
def Xml.events : Xml → List XmlEvent
  | .leaf name text =>
    .start name :: (if trimText text = [] then [] else [.text (some (trimText text))]) ++ [.stop]
  | .node name children => .start name :: eventsOf children ++ [.stop]

def eventsOf : List Xml → List XmlEvent
  | [] => []
  | child :: rest => child.events ++ eventsOf rest

end

mutual

def Xml.value : Xml → Value
  | .leaf _ text => .string (trimText text)
  | .node _ children => (XmlNode.mk [] (collect [] children) []).value

def collect (children : Map) : List Xml → Map
  | [] => children
  | child :: rest => collect (mergeChild children child.name child.value) rest

end

mutual

theorem parse_events (x : Xml) (state : XmlState) (rest : List XmlEvent) :
    parseXmlEvents state (x.events ++ rest) =
      parseXmlEvents (mergeXmlChild state x.name x.value) rest := by
  cases x with
  | leaf name text =>
    rw [Xml.events]
    split
    · rename_i h
      simp [parseXmlEvents, XmlNode.value, Xml.name, Xml.value, h]
    · simp [parseXmlEvents, pushText, XmlNode.value, Xml.name, Xml.value]
  | node name children =>
    simp only [Xml.events, List.cons_append, List.append_assoc, parseXmlEvents]
    rw [parse_eventsOf children]
    simp [parseXmlEvents, XmlNode.value, Xml.name, Xml.value]

theorem parse_eventsOf (children : List Xml) (node : XmlNode) (stack : List XmlNode)
    (root : Option Value) (rest : List XmlEvent) :
    parseXmlEvents ⟨node :: stack, root⟩ (eventsOf children ++ rest) =
      parseXmlEvents ⟨{ node with children := collect node.children children } :: stack, root⟩
        rest := by
  cases children with
  | nil => rw [eventsOf, collect, List.nil_append]
  | cons child tail =>
    rw [eventsOf, List.append_assoc, parse_events child, mergeXmlChild, parse_eventsOf tail, collect]

end

section Collected

variable {name other : Text} {value : Value} {children : Map} {xs : List Xml} {seen : List Value}

-- How the values of one name stand in the map of its parent.
def collapse : List Value → Option Value
  | [] => none
  | [value] => some value
  | values => some (.array values)

def Value.IsArray : Value → Prop
  | .array _ => True
  | _ => False

theorem value_not_array (x : Xml) : ¬ x.value.IsArray := by
  cases x with
  | leaf name text => rw [Xml.value]; exact id
  | node name children =>
    rw [Xml.value, XmlNode.value]
    split <;> exact id

theorem lookup_mergeChild_ne (h : other ≠ name) :
    (mergeChild children name value).lookup other = children.lookup other := by
  unfold mergeChild
  split <;> rw [lookup_insert, if_neg h]

theorem lookup_mergeChild (hseen : ∀ v ∈ seen, ¬ v.IsArray)
    (h : children.lookup name = collapse seen) :
    (mergeChild children name value).lookup name = collapse (seen ++ [value]) := by
  unfold mergeChild
  rw [h]
  match seen with
  | [] => simp [collapse]
  | [first] =>
    cases first with
    | array items => exact absurd trivial (hseen _ List.mem_cons_self)
    | _ => simp [collapse]
  | first :: second :: rest => simp [collapse]

theorem lookup_collect (hseen : ∀ v ∈ seen, ¬ v.IsArray)
    (h : children.lookup name = collapse seen) :
    (collect children xs).lookup name =
      collapse (seen ++ (xs.filter (·.name = name)).map Xml.value) := by
  induction xs generalizing children seen with
  | nil => simpa [collect] using h
  | cons x xs ih =>
    rw [collect]
    by_cases hx : x.name = name
    · have hnext : ∀ v ∈ seen ++ [x.value], ¬ v.IsArray := by
        intro v hv
        rcases List.mem_append.mp hv with hv | hv
        · exact hseen v hv
        · exact List.mem_singleton.mp hv ▸ value_not_array x
      rw [List.filter_cons_of_pos (by simpa using hx), List.map_cons, List.append_cons]
      exact ih hnext (hx ▸ lookup_mergeChild hseen (hx ▸ h))
    · rw [List.filter_cons_of_neg (by simpa using hx)]
      exact ih hseen (by rw [lookup_mergeChild_ne (Ne.symm hx), h])

theorem keys_insert {key : Text} (h : key ∈ (Map.insert name value children).map Prod.fst) :
    key = name ∨ key ∈ children.map Prod.fst := by
  induction children with
  | nil => simpa [Map.insert] using h
  | cons entry rest ih =>
    unfold Map.insert at h
    split at h
    · grind
    · split at h
      · grind
      · grind

theorem sorted_insert (h : (children.map Prod.fst).Pairwise (· < ·)) :
    ((Map.insert name value children).map Prod.fst).Pairwise (· < ·) := by
  induction children with
  | nil => simp [Map.insert]
  | cons entry rest ih =>
    obtain ⟨key, old⟩ := entry
    rw [List.map_cons, List.pairwise_cons] at h
    unfold Map.insert
    split
    · rename_i he
      exact List.pairwise_cons.mpr ⟨he ▸ h.1, h.2⟩
    · split
      · rename_i hlt
        refine List.pairwise_cons.mpr ⟨fun k hk => ?_, List.pairwise_cons.mpr h⟩
        rcases List.mem_cons.mp hk with rfl | hk
        · exact hlt
        · exact lt_trans hlt (h.1 k hk)
      · rename_i hne hge
        refine List.pairwise_cons.mpr ⟨fun k hk => ?_, ih h.2⟩
        rcases keys_insert hk with rfl | hk
        · exact lt_of_le_of_ne (not_lt.mp hge) (Ne.symm hne)
        · exact h.1 k hk

theorem mergeChild_insert (children : Map) (name : Text) (value : Value) :
    ∃ value', mergeChild children name value = Map.insert name value' children := by
  unfold mergeChild
  split <;> exact ⟨_, rfl⟩

theorem sorted_collect (h : (children.map Prod.fst).Pairwise (· < ·)) :
    ((collect children xs).map Prod.fst).Pairwise (· < ·) := by
  induction xs generalizing children with
  | nil => rwa [collect]
  | cons x xs ih =>
    rw [collect]
    obtain ⟨value, hinsert⟩ := mergeChild_insert children x.name x.value
    exact ih (hinsert ▸ sorted_insert h)

theorem keys_collect {key : Text} (h : key ∈ (collect children xs).map Prod.fst) :
    key ∈ children.map Prod.fst ∨ ∃ x ∈ xs, x.name = key := by
  induction xs generalizing children with
  | nil => rw [collect] at h; exact .inl h
  | cons x xs ih =>
    rw [collect] at h
    rcases ih h with hkey | ⟨y, hy, hname⟩
    · obtain ⟨value, hinsert⟩ := mergeChild_insert children x.name x.value
      rw [hinsert] at hkey
      rcases keys_insert hkey with rfl | hkey
      · exact .inr ⟨x, List.mem_cons_self, rfl⟩
      · exact .inl hkey
    · exact .inr ⟨y, List.mem_cons_of_mem _ hy, hname⟩

end Collected

end VeStorage.Tos.Payload

import PinpointAgent.Agent.ThreadLocal
import PinpointAgent.Framework.TryFinally

/-!
# The tracer as Python code sees it

`pinpointPy.pinpoint` passes its arguments to the extension module, which parses them and calls the
agent. No exception of the agent reaches Python; what does is the refusal of an argument: the format
`s` of `PyArg_ParseTuple` takes no string with a NUL in it and none that has no UTF-8. Beside the
agent there is the trace context, with the node that the next call of the thread is traced under.
-/

namespace PinpointAgent.Python

open Framework NodePool Agent

/-- A Python string: its code points, NUL and lone surrogates included. -/
abbrev PyStr := List Nat

namespace PyStr

def ofString (s : String) : PyStr := s.toList.map Char.toNat

def Passes (text : PyStr) : Prop := ∀ c ∈ text, c ≠ 0 ∧ ¬(0xD800 ≤ c ∧ c ≤ 0xDFFF)

instance decidablePasses (text : PyStr) : Decidable text.Passes :=
  inferInstanceAs (Decidable (∀ c ∈ text, c ≠ 0 ∧ ¬(0xD800 ≤ c ∧ c ≤ 0xDFFF)))

def utf8 (text : PyStr) : String := String.ofList (text.map Char.ofNat)

end PyStr

/-- An exception object: one of the application's, or one that the tracing code raises itself. -/
inductive Raised (ε : Type) where
  | app (e : ε)
  | notImplemented (method : String)
  | badArgument
  | missingKey (key : String)
  | inLibrary

structure PyState where
  thread : PyThread
  parentId : Int

abbrev PyM (ε : Type) := EStateM (Raised ε) PyState

variable {ε : Type}

def parseString (text : PyStr) : PyM ε String :=
  if text.Passes then pure text.utf8 else throw .badArgument

/-- Where the extension takes `-1` for the node of the thread. -/
def PyState.resolve (s : PyState) (traceId : Int) : Int :=
  if traceId = -1 then s.thread.perThreadId else traceId

def callAgent (call : PyState → ApiCall) : PyM ε Unit :=
  modify fun s => { s with thread := { s.thread with agent := s.thread.agent.after (call s) } }

/-- `start_trace(id)`; `-1` stands for the node of the thread. -/
def pyStartTrace (t : PyThread) (id : Int) : Int × PyThread :=
  if id = -1 then t.startThreadLocalTrace
  else
    let r := t.agent.pinpointStartTraceV1 id []
    (r.1, { t with agent := r.2 })

/-- `end_trace(id)`; `sendRaises` says whether handing over a span throws in the agent. -/
def pyEndTrace (t : PyThread) (id : Int) (sendRaises : Bool) : Int × PyThread :=
  if id = -1 then t.endThreadLocalTrace sendRaises
  else
    let r := t.agent.pinpointEndTrace id sendRaises
    (r.1, { t with agent := r.2 })

def withTrace (traceId : Int) : PyM ε Int := fun s =>
  let r := pyStartTrace s.thread traceId
  .ok r.1 { s with thread := r.2 }

def endTrace (sendRaises : Bool) (traceId : Int) : PyM ε Int := fun s =>
  let r := pyEndTrace s.thread traceId sendRaises
  .ok r.1 { s with thread := r.2 }

def addException (message : PyStr) (traceId : Int) : PyM ε Unit := do
  let message ← parseString message
  callAgent fun s => .addException (s.resolve traceId) message

def setAsyncContext (traceId asyncId sequenceId : Int) : PyM ε Unit :=
  callAgent fun _ => .setAsyncCtx traceId asyncId sequenceId

/-- A call of `add_trace_header` or of `add_context`. -/
inductive Note where
  | header (key : String) (value : PyStr)
  | context (key : String) (value : PyStr)

def Note.value : Note → PyStr
  | .header _ value | .context _ value => value

def addNote (traceId : Int) (note : Note) : PyM ε Unit := do
  let value ← parseString note.value
  callAgent fun s =>
    match note with
    | .header key _ => .addClue (s.resolve traceId) key value 0
    | .context key _ => .setContextKey (s.resolve traceId) key value

def addNotes (traceId : Int) : List Note → PyM ε Unit
  | [] => pure ()
  | note :: notes => do
    addNote traceId note
    addNotes traceId notes

/-- The methods of the trace context raise until `set_trace_context` was called. -/
def setParentId (contextSet : Bool) (id : Int) : PyM ε Unit :=
  if contextSet then modify fun s => { s with parentId := id } else throw (.notImplemented "set_parent_id")

/-- Both kinds of context, that of a thread and that of a task, sample when the id is positive. -/
def getParentId (contextSet : Bool) : PyM ε (Bool × Int) := do
  if !contextSet then throw (.notImplemented "get_parent_id")
  let s ← get
  return if 0 < s.parentId then (true, s.parentId) else (false, -1)

section Returns

private theorem returns_callAgent (call : PyState → ApiCall) : Returns (callAgent call : PyM ε Unit) fun _ => True :=
  fun _ => ⟨(), _, rfl, trivial⟩

theorem parseString_of_passes {text : PyStr} (h : text.Passes) (s : PyState) :
    (parseString text : PyM ε String) s = .ok text.utf8 s := by
  rw [parseString, if_pos h]
  rfl

theorem parseString_of_not_passes {text : PyStr} (h : ¬text.Passes) (s : PyState) :
    (parseString text : PyM ε String) s = .error .badArgument s := by
  rw [parseString, if_neg h]
  rfl

private theorem returns_parseString {text : PyStr} (h : text.Passes) :
    Returns (parseString text : PyM ε String) fun _ => True :=
  fun s => ⟨_, s, parseString_of_passes h s, trivial⟩

theorem returns_withTrace (traceId : Int) : Returns (withTrace traceId : PyM ε Int) fun _ => True :=
  fun _ => ⟨_, _, rfl, trivial⟩

theorem returns_endTrace (sendRaises : Bool) (traceId : Int) :
    Returns (endTrace sendRaises traceId : PyM ε Int) fun _ => True :=
  fun _ => ⟨_, _, rfl, trivial⟩

theorem returns_setParentId (id : Int) : Returns (setParentId true id : PyM ε Unit) fun _ => True :=
  fun _ => ⟨(), _, rfl, trivial⟩

theorem returns_addException {message : PyStr} (h : message.Passes) (traceId : Int) :
    Returns (addException message traceId : PyM ε Unit) fun _ => True :=
  Returns.bind (returns_parseString h) fun _ _ => returns_callAgent _

theorem returns_addNotes (traceId : Int) {notes : List Note} (h : ∀ note ∈ notes, note.value.Passes) :
    Returns (addNotes traceId notes : PyM ε Unit) fun _ => True := by
  induction notes with
  | nil => exact Returns.pure trivial
  | cons note notes ih =>
    have hnote : Returns (addNote traceId note : PyM ε Unit) fun _ => True :=
      Returns.bind (returns_parseString (h note List.mem_cons_self)) fun _ _ => returns_callAgent _
    exact Returns.bind hnote fun _ _ => ih fun other hother => h other (List.mem_cons_of_mem _ hother)

end Returns

/-! ## The calls that the agent gets -/

def Note.toCall (node : Int) : Note → ApiCall
  | .header key value => .addClue node key value.utf8 0
  | .context key value => .setContextKey node key value.utf8

def PyState.made (s : PyState) (calls : List ApiCall) : PyState :=
  { s with thread := { s.thread with agent := calls.foldl Agent.after s.thread.agent } }

theorem made_made (s : PyState) (calls calls' : List ApiCall) :
    (s.made calls).made calls' = s.made (calls ++ calls') := by
  rw [PyState.made, PyState.made, PyState.made, List.foldl_append]

theorem addNote_eq {note : Note} (h : note.value.Passes) (traceId : Int) (s : PyState) :
    (addNote traceId note : PyM ε Unit) s = .ok () (s.made [note.toCall (s.resolve traceId)]) := by
  rw [addNote, bind_of_ok _ (parseString_of_passes h s)]
  cases note with
  | header key value => rfl
  | context key value => rfl

theorem addNotes_eq (traceId : Int) {notes : List Note} (h : ∀ note ∈ notes, note.value.Passes) (s : PyState) :
    (addNotes traceId notes : PyM ε Unit) s = .ok () (s.made (notes.map (·.toCall (s.resolve traceId)))) := by
  induction notes generalizing s with
  | nil => rfl
  | cons note notes ih =>
    rw [addNotes, bind_of_ok _ (addNote_eq (h note List.mem_cons_self) traceId s),
      ih fun other hother => h other (List.mem_cons_of_mem _ hother), made_made]
    rfl

theorem passes_of_addNotes {traceId : Int} {notes : List Note} {s s' : PyState} {u : Unit}
    (h : (addNotes traceId notes : PyM ε Unit) s = .ok u s') : ∀ note ∈ notes, note.value.Passes := by
  induction notes generalizing s with
  | nil => exact fun _ hnote => absurd hnote List.not_mem_nil
  | cons note notes ih =>
    obtain ⟨_, s₁, hnote, hrest⟩ := bind_eq_ok h
    obtain ⟨_, s₂, hparse, -⟩ := bind_eq_ok hnote
    have hpasses : note.value.Passes := by
      by_contra hnot
      rw [parseString_of_not_passes hnot] at hparse
      exact nomatch hparse
    intro other hother
    obtain rfl | hother := List.mem_cons.1 hother
    · exact hpasses
    · exact ih hrest other hother

end PinpointAgent.Python

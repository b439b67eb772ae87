import PinpointAgent.Framework.Dict
import PinpointAgent.Framework.Lists
import PinpointAgent.Framework.Overlay

/-!
# Interceptors of internal PHP functions

`_pinpoint_join_cut` replaces the handler of an internal function by
`pinpoint_interceptor_handler_entry` and keeps the old one in the table of interceptors, from where a
hooked call and the end of the request find it again. Functions are objects with a mutable handler,
reached by name through the function table and the method tables of the classes; the tables may
change from call to call, and several names may reach one function.

Names are compared in lower case. The table of interceptors is a list in the order of insertion,
which is the order in which `zend_hash_destroy` frees it.
-/

namespace PinpointAgent.Php

open Framework

/-- A slot of the array `joinable`; `undef` is one whose element was deleted. -/
inductive Zval where
  | undef
  | str (s : String)
  | other (typeName : String)
deriving DecidableEq, Repr

def Zval.typeName : Zval → String
  | .undef => "null"
  | .str _ => "string"
  | .other name => name

def zendStringTolower (s : String) : String := s.map Char.toLower

def mergePpStyleName (scope : Option String) (func : String) : String :=
  match scope with
  | some scope => zendStringTolower (scope ++ "::" ++ func)
  | none => zendStringTolower func

variable {F C H V : Type}

/-- What does not change about the function objects, and the handler of the agent. -/
structure Engine (F H V : Type) where
  isInternal : F → Bool
  functionName : F → String
  pinpointInterceptorHandlerEntry : H
  isCallable : V → Bool
  typeName : V → String

/-- The function table and the class table at some moment of a request. -/
structure Tables (F C : Type) where
  functionTable : String → Option F
  classTable : String → Option C
  methodTable : C → String → Option F

/-- The arguments of `_pinpoint_join_cut`. -/
structure JoinCut (V : Type) where
  joinable : List Zval
  onBefore : V
  onEnd : V
  onException : V

structure Interceptor (F H V : Type) where
  name : String
  origin : H
  originFunc : F
  onBefore : V
  onEnd : V
  onException : V

structure Request (F H V : Type) where
  handler : F → H
  interceptors : List (String × Interceptor F H V)
  warnings : List String

namespace Request

def warn (r : Request F H V) (msg : String) : Request F H V :=
  { r with warnings := r.warnings ++ [msg] }

/-- `zend_hash_add_ptr`, which fails for a name that is there already. -/
def zendHashAddPtr (r : Request F H V) (name : String) (i : Interceptor F H V) :
    Option (List (String × Interceptor F H V)) :=
  if (r.interceptors.lookup name).isSome then none else some (r.interceptors ++ [(name, i)])

def makeInterceptor (r : Request F H V) (name : String) (cut : JoinCut V) (originFunc : F) :
    Interceptor F H V :=
  ⟨name, r.handler originFunc, originFunc, cut.onBefore, cut.onEnd, cut.onException⟩

section Model

variable [DecidableEq F] [DecidableEq H] (eng : Engine F H V)

def freeInterceptor (r : Request F H V) (i : Interceptor F H V) : Request F H V :=
  { r with handler := Function.update r.handler i.originFunc i.origin }

/-- The common end of the two functions below: a new interceptor under a name that is free, or its
release again. -/
def intercept (r : Request F H V) (name : String) (cut : JoinCut V) (func : F) : Request F H V :=
  match r.zendHashAddPtr name (r.makeInterceptor name cut func) with
  | none => r.freeInterceptor (r.makeInterceptor name cut func)
  | some interceptors =>
    { r with
      interceptors := interceptors
      handler := Function.update r.handler func eng.pinpointInterceptorHandlerEntry }

def addFunctionInterceptor (tables : Tables F C) (r : Request F H V) (name : String)
    (cut : JoinCut V) : Request F H V :=
  match tables.functionTable name with
  | none => r
  | some func =>
    if eng.isInternal func = false then r.warn "only internal functions can be intercepted"
    else if r.handler func = eng.pinpointInterceptorHandlerEntry then r
    else r.intercept eng name cut func

def addClassMethodInterceptor (tables : Tables F C) (r : Request F H V) (clsName method : String)
    (cut : JoinCut V) : Request F H V :=
  match (tables.classTable clsName).bind fun module => tables.methodTable module method with
  | none => r
  | some original =>
    if eng.isInternal original = false then r.warn "only internal methods can be intercepted"
    else if r.handler original = eng.pinpointInterceptorHandlerEntry then r
    else
      r.intercept eng (mergePpStyleName (some clsName) (eng.functionName original)) cut original

/-- `zend_hash_num_elements`, which does not count deleted elements. -/
def zendHashNumElements (joinable : List Zval) : Nat := joinable.countP (· ≠ .undef)

/-- `zend_array_index`, which counts slots. -/
def zendArrayIndex (joinable : List Zval) (index : Nat) : Zval := joinable.getD (index - 1) (.undef)

/-- The texts of the warnings about an element of `joinable` that is not a string. -/
def notAString (index : String) (what : String) (v : Zval) : String :=
  "joinable[" ++ index ++ "] (" ++ what ++ ") must be a string, got " ++ v.typeName

def addInterceptor (tables : Tables F C) (r : Request F H V) (cut : JoinCut V) : Request F H V :=
  match zendHashNumElements cut.joinable with
  | 2 =>
    match zendArrayIndex cut.joinable 1, zendArrayIndex cut.joinable 2 with
    | .str module, .str method =>
      r.addClassMethodInterceptor eng tables (zendStringTolower module) (zendStringTolower method) cut
    | .str _, v => r.warn (notAString "2" "method name" v)
    | v, _ => r.warn (notAString "1" "module/class name" v)
  | 1 =>
    match zendArrayIndex cut.joinable 1 with
    | .str function => r.addFunctionInterceptor eng tables (zendStringTolower function) cut
    | v => r.warn (notAString "1" "function name" v)
  | _ => r

def pinpointJoinCut (tables : Tables F C) (r : Request F H V) (cut : JoinCut V) :
    Bool × Request F H V :=
  if zendHashNumElements cut.joinable = 0 ∨ eng.isCallable cut.onBefore = false ∨
      eng.isCallable cut.onEnd = false ∨ eng.isCallable cut.onException = false then
    (false, r.warn ("Parameters does not meet: joinable: array size:" ++
      toString (zendHashNumElements cut.joinable) ++ ", onBefore:" ++ eng.typeName cut.onBefore ++
      ",onEnd:" ++ eng.typeName cut.onEnd ++ ", onException:" ++ eng.typeName cut.onException))
  else (true, r.addInterceptor eng tables cut)

/-- The interceptor a hooked call uses: the one of its name if it belongs to the function, else any
one that does, else the one of its name after all. -/
def findInterceptor (r : Request F H V) (funcName : String) (func : F) :
    Option (Interceptor F H V) :=
  let named := r.interceptors.lookup funcName
  match named.filter (fun i => decide (i.originFunc = func)) with
  | some i => some i
  | none =>
    match r.interceptors.find? (fun p => decide (p.2.originFunc = func)) with
    | some p => some p.2
    | none => named

/-- `PHP_RINIT`: an empty table beside the handlers as they are. -/
def rinit (handler : F → H) : Request F H V := ⟨handler, [], []⟩

/-- `PHP_RSHUTDOWN`: the table is destroyed, and each interceptor freed with it. -/
def rshutdown (r : Request F H V) : F → H :=
  ((r.interceptors.map Prod.snd).foldl freeInterceptor r).handler

def joinCuts (r : Request F H V) (calls : List (Tables F C × JoinCut V)) : Request F H V :=
  calls.foldl (fun r call => (r.pinpointJoinCut eng call.1 call.2).2) r

/-- A whole request, by what it leaves in the handlers. -/
def serve (handler : F → H) (calls : List (Tables F C × JoinCut V)) : F → H :=
  ((rinit handler).joinCuts eng calls).rshutdown

end Model

/-! ## The log of replaced handlers -/

def log (r : Request F H V) : List (F × H) :=
  r.interceptors.map fun p => (p.2.originFunc, p.2.origin)

/-- The handlers are those of `start`, except for the ones that the table has. -/
def Hooked (eng : Engine F H V) (start : F → H) (r : Request F H V) : Prop :=
  Overlay eng.pinpointInterceptorHandlerEntry start r.handler r.log

private theorem hooked_rinit (eng : Engine F H V) (handler : F → H) :
    (rinit handler : Request F H V).Hooked eng handler := Overlay.start _ handler

variable {eng : Engine F H V} {start : F → H} {r : Request F H V} [DecidableEq F]

private theorem rshutdown_eq (r : Request F H V) : r.rshutdown = Overlay.undo r.handler r.log := by
  have hfold : ∀ (is : List (Interceptor F H V)) (r : Request F H V),
      (is.foldl freeInterceptor r).handler =
        Overlay.undo r.handler (is.map fun i => (i.originFunc, i.origin)) := by
    intro is
    induction is with
    | nil => exact fun _ => rfl
    | cons i is ih => exact fun r => ih (r.freeInterceptor i)
  rw [rshutdown, hfold, List.map_map]
  rfl

/-! ## The entries of a function -/

def entriesOf (r : Request F H V) (func : F) : List (Interceptor F H V) :=
  (r.interceptors.map Prod.snd).filter fun i => decide (i.originFunc = func)

private theorem Hooked.entriesOf_eq (h : r.Hooked eng start) {p : String × Interceptor F H V}
    (hp : p ∈ r.interceptors) : r.entriesOf p.2.originFunc = [p.2] := by
  have hnodup : ((r.interceptors.map Prod.snd).map Interceptor.originFunc).Nodup := by
    have hfuncs := h.nodup
    rw [log, List.map_map] at hfuncs
    rw [List.map_map]
    exact hfuncs
  exact filter_key_eq hnodup (List.mem_map_of_mem hp)

private theorem Hooked.eq_of_originFunc (h : r.Hooked eng start) {p q : String × Interceptor F H V}
    (hp : p ∈ r.interceptors) (hq : q ∈ r.interceptors)
    (hfunc : q.2.originFunc = p.2.originFunc) : q.2 = p.2 := by
  have hone := h.entriesOf_eq hq
  rw [hfunc, h.entriesOf_eq hp] at hone
  exact (List.singleton_inj.1 hone).symm

theorem Hooked.findInterceptor (h : r.Hooked eng start) {p : String × Interceptor F H V}
    (hp : p ∈ r.interceptors) (funcName : String) :
    r.findInterceptor funcName p.2.originFunc = some p.2 := by
  unfold Request.findInterceptor
  dsimp only
  split
  · rename_i i hnamed
    obtain ⟨hlookup, hfunc⟩ := Option.filter_eq_some_iff.1 hnamed
    rw [← h.eq_of_originFunc hp (Dict.mem_of_lookup hlookup) (of_decide_eq_true hfunc)]
  · split
    · rename_i q hfind
      have hfunc := List.find?_some hfind
      rw [← h.eq_of_originFunc hp (List.mem_of_find?_eq_some hfind) (of_decide_eq_true hfunc)]
    · rename_i hfind
      exact absurd (decide_eq_true rfl) (List.find?_eq_none.1 hfind p hp)

structure HooksSound (eng : Engine F H V) (start : F → H) (r : Request F H V) : Prop where
  hooked_iff : ∀ f, eng.isInternal f = true →
    (r.handler f = eng.pinpointInterceptorHandlerEntry ↔ (r.entriesOf f).length = 1)
  entry : ∀ f, eng.isInternal f = true → r.handler f = eng.pinpointInterceptorHandlerEntry →
    ∃ i, r.entriesOf f = [i] ∧ i.origin = start f ∧
      ∀ funcName, r.findInterceptor funcName f = some i
  undone : ∀ f, eng.isInternal f = true → r.rshutdown f = start f

private theorem Hooked.sound (h : r.Hooked eng start)
    (hstart : ∀ f, eng.isInternal f = true → start f ≠ eng.pinpointInterceptorHandlerEntry) :
    r.HooksSound eng start := by
  have hentry : ∀ f, eng.isInternal f = true →
      (r.handler f = eng.pinpointInterceptorHandlerEntry ↔ ∃ p ∈ r.interceptors, p.2.originFunc = f) := by
    intro f hf
    rw [Overlay.eq_mark_iff h (hstart f hf), log, List.map_map, List.mem_map]
    rfl
  refine ⟨?_, ?_, ?_⟩
  · intro f hf
    rw [hentry f hf]
    constructor
    · rintro ⟨p, hp, rfl⟩
      rw [h.entriesOf_eq hp]
      rfl
    · intro hone
      obtain ⟨i, hi⟩ := List.length_eq_one_iff.1 hone
      have hmem : i ∈ r.entriesOf f := hi ▸ List.mem_singleton_self i
      obtain ⟨himap, hfunc⟩ := List.mem_filter.1 hmem
      obtain ⟨p, hp, rfl⟩ := List.mem_map.1 himap
      exact ⟨p, hp, of_decide_eq_true hfunc⟩
  · intro f hf hhooked
    obtain ⟨p, hp, rfl⟩ := (hentry f hf).1 hhooked
    exact ⟨p.2, h.entriesOf_eq hp, (h.logged _ (List.mem_map_of_mem hp)).2, h.findInterceptor hp⟩
  · intro f _
    rw [rshutdown_eq, Overlay.undo_eq h]

/-! ## Calls and requests -/

/-- A failed insertion writes the handler back that is there anyway. -/
theorem freeInterceptor_makeInterceptor (name : String) (cut : JoinCut V) (func : F) :
    r.freeInterceptor (r.makeInterceptor name cut func) = r := by
  rw [freeInterceptor, makeInterceptor, Function.update_eq_self]

private theorem Hooked.intercept (h : r.Hooked eng start) {func : F}
    (hplain : r.handler func ≠ eng.pinpointInterceptorHandlerEntry) (name : String)
    (cut : JoinCut V) : (r.intercept eng name cut func).Hooked eng start := by
  unfold Request.intercept zendHashAddPtr
  by_cases htaken : (r.interceptors.lookup name).isSome
  · rw [if_pos htaken]
    dsimp only
    rw [freeInterceptor_makeInterceptor]
    exact h
  · rw [if_neg htaken]
    have hlog : log { r with
        interceptors := r.interceptors ++ [(name, r.makeInterceptor name cut func)]
        handler := Function.update r.handler func eng.pinpointInterceptorHandlerEntry } =
          r.log ++ [(func, r.handler func)] := by
      rw [log, List.map_append]
      rfl
    rw [Hooked, hlog]
    exact Overlay.push h hplain

variable [DecidableEq H]

private theorem Hooked.addFunctionInterceptor (h : r.Hooked eng start) (tables : Tables F C) (name : String)
    (cut : JoinCut V) : (r.addFunctionInterceptor eng tables name cut).Hooked eng start := by
  unfold Request.addFunctionInterceptor
  split
  · exact h
  · split
    · exact h
    · split
      · exact h
      · rename_i hplain
        exact h.intercept hplain name cut

private theorem Hooked.addClassMethodInterceptor (h : r.Hooked eng start) (tables : Tables F C)
    (clsName method : String) (cut : JoinCut V) :
    (r.addClassMethodInterceptor eng tables clsName method cut).Hooked eng start := by
  unfold Request.addClassMethodInterceptor
  split
  · exact h
  · split
    · exact h
    · split
      · exact h
      · rename_i hplain
        exact h.intercept hplain _ cut

private theorem Hooked.pinpointJoinCut (h : r.Hooked eng start) (tables : Tables F C) (cut : JoinCut V) :
    (r.pinpointJoinCut eng tables cut).2.Hooked eng start := by
  unfold Request.pinpointJoinCut
  split
  · exact h
  · unfold Request.addInterceptor
    split
    · split
      · exact h.addClassMethodInterceptor tables _ _ cut
      · exact h
      · exact h
    · split
      · exact h.addFunctionInterceptor tables _ cut
      · exact h
    · exact h

private theorem Hooked.joinCuts (h : r.Hooked eng start) (calls : List (Tables F C × JoinCut V)) :
    (r.joinCuts eng calls).Hooked eng start := by
  induction calls generalizing r with
  | nil => exact h
  | cons call calls ih => exact ih (h.pinpointJoinCut call.1 call.2)

private theorem serve_eq (handler : F → H) (calls : List (Tables F C × JoinCut V)) :
    serve eng handler calls = handler := by
  rw [serve, rshutdown_eq]
  exact Overlay.undo_eq ((hooked_rinit eng handler).joinCuts calls)

/-- In every request of a process that was loaded without hooks, after every sequence of calls. -/
theorem php_hooks_sound {loaded : F → H}
    (hloaded : ∀ f, eng.isInternal f = true → loaded f ≠ eng.pinpointInterceptorHandlerEntry)
    (earlier : List (List (Tables F C × JoinCut V))) (calls : List (Tables F C × JoinCut V)) :
    ((rinit (earlier.foldl (serve eng) loaded)).joinCuts eng calls).HooksSound eng
      (earlier.foldl (serve eng) loaded) := by
  have hstart : earlier.foldl (serve eng) loaded = loaded := by
    induction earlier with
    | nil => rfl
    | cons request earlier ih => rw [List.foldl_cons, serve_eq, ih]
  rw [hstart]
  exact ((hooked_rinit eng loaded).joinCuts calls).sound hloaded

/-- A function, a method under two class names, and a handler of the engine for each. -/
def smallEngine : Engine Bool Nat Unit where
  isInternal := fun _ => true
  functionName := fun f => if f then "query" else "strlen"
  pinpointInterceptorHandlerEntry := 0
  isCallable := fun _ => true
  typeName := fun _ => "object"

def smallTables : Tables Bool Unit where
  functionTable := fun name => if name = "strlen" then some false else none
  classTable := fun name => if name = "pdo" ∨ name = "db" then some () else none
  methodTable := fun _ name => if name = "query" then some true else none

def cutOf (joinable : List Zval) : Tables Bool Unit × JoinCut Unit :=
  (smallTables, ⟨joinable, (), (), ()⟩)

def smallRequest : List (Tables Bool Unit × JoinCut Unit) :=
  [cutOf [.str "PDO", .str "query"], cutOf [.str "db", .str "Query"], cutOf [.str "strlen"],
    cutOf [.str "strlen"], cutOf [.str "nosuch"]]

def smallHandlers : Bool → Nat := fun f => if f then 1 else 2

/-- The second name of the method and the second call for the function change nothing. -/
theorem php_hooks_sound_alias :
    ((rinit smallHandlers).joinCuts smallEngine smallRequest).HooksSound smallEngine smallHandlers ∧
      ((rinit smallHandlers).joinCuts smallEngine smallRequest).interceptors.length = 2 ∧
      ((rinit smallHandlers).joinCuts smallEngine smallRequest).handler true = 0 ∧
      ((rinit smallHandlers).joinCuts smallEngine smallRequest).handler false = 0 :=
  ⟨php_hooks_sound (C := Unit) (by decide) [] smallRequest, by decide +kernel, by decide +kernel,
    by decide +kernel⟩

end Request

end PinpointAgent.Php

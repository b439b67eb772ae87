import PinpointAgent.Agent.ForcedEnd
import PinpointAgent.Jsoncpp.RoundTrip

/-!
# The text of a span

`SendSpanTrace` turns the JSON object of a root into text and hands the text to `TrySendSpan`. If the
strings of the calls are well-formed UTF-8, as the model has them, and shorter than 512 MiB, the text is
read back as the object, member by member; of other bytes the writer makes replacement characters. The
object of a span is never nested deeply enough to trouble a reader, as only the members of the children
are put into the members of the root.
-/

namespace PinpointAgent.Agent

open Framework NodePool Jsoncpp

/-! ## Objects of the agent as values of jsoncpp -/

mutual

/-- A value of jsoncpp: an object is a map, in which an assignment replaces the one before. -/
def ofJson : Json → Value
  | .null => .null
  | .bool b => .bool b
  | .int n => .int n
  | .uint n => .uint n
  | .real text => .real (utf8 text)
  | .str s => .str (utf8 s)
  | .arr items => .arr (ofJsonItems items)
  | .obj members => .obj (SortedMap.ofList (ofJsonMembers members))

def ofJsonItems : List Json → List Value
  | [] => []
  | v :: items => ofJson v :: ofJsonItems items

def ofJsonMembers : List (String × Json) → List (Bytes × Value)
  | [] => []
  | (key, v) :: members => (utf8 key, ofJson v) :: ofJsonMembers members

end

def nodeTreeToString (span : Members) : Bytes := NodeTreeWriter.write (ofJson (.obj span))

private theorem utf8_injective {s t : String} (h : utf8 s = utf8 t) : s = t := by
  rw [utf8, utf8] at h
  have hbytes : s.toList.utf8Encode = t.toList.utf8Encode := by simp only [List.utf8Encode, h]
  rw [String.utf8Encode_toList, String.utf8Encode_toList] at hbytes
  exact String.toByteArray_inj.1 hbytes

private theorem ofJsonItems_eq_map (items : List Json) : ofJsonItems items = items.map ofJson := by
  induction items with
  | nil => rfl
  | cons v items ih => rw [ofJsonItems, ih, List.map_cons]

private theorem ofJsonMembers_eq_map (members : Members) :
    ofJsonMembers members = members.map fun e => (utf8 e.1, ofJson e.2) := by
  induction members with
  | nil => rfl
  | cons e members ih => rw [ofJsonMembers, ih, List.map_cons]

private theorem lookup_ofJsonMembers (members : Members) (key : String) :
    (ofJsonMembers members).lookup (utf8 key) = (members.lookup key).map ofJson := by
  induction members with
  | nil => rfl
  | cons e members ih =>
    obtain ⟨k, v⟩ := e
    rw [ofJsonMembers, List.lookup_cons, List.lookup_cons]
    by_cases heq : key = k
    · rw [heq, beq_self_eq_true, beq_self_eq_true]
      rfl
    · rw [beq_eq_false_iff_ne.2 heq, beq_eq_false_iff_ne.2 fun h => heq (utf8_injective h)]
      exact ih

/-! ## Values that are read back -/

/-- jsoncpp holds the numbers and strings of the value, and it is not nested deeper than `n`. -/
def Fits (n : Nat) (v : Json) : Prop := (ofJson v).Writable ∧ (ofJson v).height ≤ n

def FitsMember (n : Nat) (e : String × Json) : Prop := (utf8 e.1).length < keyLengthLimit ∧ Fits n e.2

private theorem fitsMember {n : Nat} {key : String} {v : Json} (hkey : (utf8 key).length < keyLengthLimit) (hv : Fits n v) :
    FitsMember n (key, v) := ⟨hkey, hv⟩

/-- Two such strings and a colon still make a string that jsoncpp holds. -/
def Short (s : String) : Prop := (utf8 s).length < 2 ^ 29

instance decidableShort (s : String) : Decidable (Short s) := inferInstanceAs (Decidable (_ < _))

private theorem Short.key {s : String} (h : Short s) : (utf8 s).length < keyLengthLimit :=
  Nat.lt_trans h (by decide)

private theorem Short.text {s : String} (h : Short s) : (utf8 s).length ≤ maxStringLength :=
  Nat.le_of_lt (Nat.lt_trans h (by decide))

private theorem Short.append_text {key value : String} (hkey : Short key) (hvalue : Short value) :
    (utf8 (key ++ ":" ++ value)).length ≤ maxStringLength := by
  have hlength : (utf8 (key ++ ":" ++ value)).length = (utf8 key).length + 1 + (utf8 value).length := by
    simp only [utf8, String.toList_append, List.flatMap_append, List.length_append]
    rfl
  have hbound : 2 ^ 29 + 1 + 2 ^ 29 ≤ maxStringLength := by decide
  rw [Short] at hkey hvalue
  omega

section Fits

variable {n : Nat} {v : Json} {items : List Json} {members : Members}

private theorem Fits.mono {m : Nat} (h : Fits n v) (hle : n ≤ m) : Fits m v := ⟨h.1, h.2.trans hle⟩

private theorem fits_null (h : 1 ≤ n) : Fits n .null := ⟨trivial, h⟩

private theorem fits_str {s : String} (hs : (utf8 s).length ≤ maxStringLength) (h : 1 ≤ n) : Fits n (.str s) :=
  ⟨⟨⟨s, rfl⟩, hs⟩, h⟩

private theorem fits_int {k : Int} (hlow : -2 ^ 63 ≤ k) (hhigh : k < 2 ^ 63) (h : 1 ≤ n) : Fits n (.int k) :=
  ⟨⟨hlow, hhigh⟩, h⟩

private theorem fits_uint {k : Nat} (hhigh : k < 2 ^ 64) (h : 1 ≤ n) : Fits n (.uint k) := ⟨hhigh, h⟩

private theorem fits_arr_iff : Fits (n + 1) (.arr items) ↔ ∀ v ∈ items, Fits n v := by
  rw [Fits, ofJson, ofJsonItems_eq_map, Value.Writable, Value.height, Value.writableItems_iff, Nat.add_le_add_iff_right,
    Value.heightItems_le_iff, List.forall_mem_map, List.forall_mem_map, ← forall₂_and]
  rfl

private theorem fits_obj (h : ∀ e ∈ members, FitsMember n e) : Fits (n + 1) (.obj members) := by
  have hmem : ∀ e ∈ SortedMap.ofList (ofJsonMembers members),
      ((∃ text : String, e.1 = utf8 text) ∧ e.1.length < keyLengthLimit) ∧
        Value.Writable e.2 ∧ Value.height e.2 ≤ n := by
    intro e he
    rw [ofJsonMembers_eq_map] at he
    obtain ⟨member, hmember, rfl⟩ := List.mem_map.1 (SortedMap.mem_of_mem_ofList he)
    exact ⟨⟨⟨member.1, rfl⟩, (h member hmember).1⟩, (h member hmember).2⟩
  rw [Fits, ofJson, Value.Writable, Value.height, Value.writableMembers_iff, Nat.add_le_add_iff_right,
    Value.heightMembers_le_iff]
  exact ⟨⟨SortedMap.sorted_ofList _, fun e he => ⟨(hmem e he).1, (hmem e he).2.1⟩⟩, fun e he => (hmem e he).2.2⟩

end Fits

/-! ## The nodes of a run -/

/-- How deep the members of a node are nested: those of a root hold the members of its children. -/
def level (n : TraceNode) : Nat := if n.isRootNode then 4 else 2

/-- The members of the node, with those that `EndTrace` will set, are read back. -/
structure NodeText (n : TraceNode) : Prop where
  depth : 0 ≤ n.depth ∧ n.depth ≤ poolMaxNodesLimit + cellSize
  sequence : 0 ≤ n.sequence ∧ n.sequence ≤ poolMaxNodesLimit + cellSize
  value : ∀ e ∈ n.value, FitsMember (level n) e

section Nodes

variable {n : TraceNode} {key : String} {v : Json}

private theorem two_le_level (n : TraceNode) : 2 ≤ level n := by
  unfold level
  split <;> decide

private theorem NodeText.set (h : NodeText n) (hkey : (utf8 key).length < keyLengthLimit) (hv : Fits (level n) v) :
    NodeText (n.addAnnotationMember key v) :=
  ⟨h.depth, h.sequence, List.forall_mem_cons.2 ⟨⟨hkey, hv⟩, h.value⟩⟩

private theorem NodeText.setScalar (h : NodeText n) (hkey : (utf8 key).length < keyLengthLimit) (hv : Fits 1 v) :
    NodeText (n.addAnnotationMember key v) :=
  h.set hkey (hv.mono (by have := two_le_level n; omega))

private theorem NodeText.setObject {members : Members} (h : NodeText n) (hkey : (utf8 key).length < keyLengthLimit)
    (hv : ∀ e ∈ members, FitsMember 1 e) : NodeText (n.addAnnotationMember key (.obj members)) :=
  h.set hkey ((fits_obj hv).mono (two_le_level n))

private theorem fits_get {m : Members} {k : Nat} (hm : ∀ e ∈ m, FitsMember k e) (hk : 1 ≤ k) (key : String) :
    Fits k (m.get key) := by
  unfold Members.get
  cases hlookup : m.lookup key with
  | none => exact fits_null hk
  | some v =>
    obtain ⟨l₁, l₂, rfl, -⟩ := List.lookup_eq_some_iff.1 hlookup
    exact (hm (key, v) (by simp)).2

private theorem NodeText.append {k : Nat} (h : NodeText n) (hkey : (utf8 key).length < keyLengthLimit) (hk : k + 1 ≤ level n)
    (hitems : ∀ v ∈ (n.value.get key).items, Fits k v) (hv : Fits k v) :
    NodeText { n with value := n.value.set key (.arr ((n.value.get key).items ++ [v])) } := by
  refine ⟨h.depth, h.sequence, List.forall_mem_cons.2 ⟨⟨hkey, ?_⟩, h.value⟩⟩
  refine (fits_arr_iff.2 ?_).mono hk
  intro item hitem
  obtain hold | hnew := List.mem_append.1 hitem
  · exact hitems item hold
  · rw [List.mem_singleton.1 hnew]
    exact hv

private theorem fits_items {k : Nat} (h : Fits (k + 1) v) : ∀ item ∈ v.items, Fits k item := by
  cases v with
  | arr items => exact fits_arr_iff.1 h
  | null | bool | int | uint | real | str | obj => exact fun _ hitem => absurd hitem List.not_mem_nil

private theorem fits_int_elapsed (n : TraceNode) (now : Nat) : Fits 1 (.int (n.elapsed now)) := by
  have hrange (a : Int) : -2 ^ 63 ≤ toSigned 64 a ∧ toSigned 64 a < 2 ^ 63 := by
    rw [toSigned]
    norm_num
    omega
  exact fits_int (hrange _).1 (hrange _).2 (Nat.le_refl 1)

private theorem fits_wordSub (a b : Nat) : Fits 1 (.uint (wordSub 64 a b)) := by
  refine fits_uint ?_ (Nat.le_refl 1)
  rw [wordSub]
  exact Nat.mod_lt _ (by norm_num)

private theorem forall_fits_set (key : String) {m : Members} {k : Nat} (hm : ∀ e ∈ m, FitsMember k e) (hk : 1 ≤ k)
    (hkey : (utf8 key).length < keyLengthLimit) (hv : Fits 1 v) : ∀ e ∈ m.set key v, FitsMember k e :=
  List.forall_mem_cons.2 ⟨⟨hkey, hv.mono hk⟩, hm⟩

private theorem fits_small {k : Int} (hk : 0 ≤ k ∧ k ≤ poolMaxNodesLimit + cellSize) : Fits 1 (.int k) := by
  simp only [poolMaxNodesLimit, cellSize] at hk
  exact fits_int (by omega) (by omega) (Nat.le_refl 1)

private theorem NodeText.stamp (h : NodeText n) (expired : Int) {members : Members}
    (hm : ∀ e ∈ members, FitsMember (level n) e) : NodeText { n with expiredTime := expired, value := members } :=
  ⟨h.depth, h.sequence, hm⟩

private theorem NodeText.endTrace (h : NodeText n) (now : Nat) : NodeText (n.endTrace now) := by
  have hlevel : 1 ≤ level n := (by decide : 1 ≤ 2).trans (two_le_level n)
  have hstart : Fits 1 (.uint n.startOffset) := by
    rw [TraceNode.startOffset]
    exact fits_wordSub _ _
  have hvalue : ∀ e ∈ n.endMembers now, FitsMember (level n) e := by
    have htimed := forall_fits_set ":S" (forall_fits_set ":E" h.value hlevel (by decide) (fits_int_elapsed n now))
      hlevel (by decide) hstart
    have hmarked := forall_fits_set "EA" htimed hlevel (by decide) (fits_small (k := 1) (by decide))
    have hplaced {m : Members} (hm : ∀ e ∈ m, FitsMember (level n) e) :
        ∀ e ∈ (m.set ":seq" (.int n.sequence)).set ":depth" (.int n.depth), FitsMember (level n) e :=
      forall_fits_set _ (forall_fits_set _ hm hlevel (by decide) (fits_small h.sequence)) hlevel (by decide)
        (fits_small h.depth)
    unfold TraceNode.endMembers
    split <;> split
    · exact hplaced hmarked
    · exact hmarked
    · exact hplaced htimed
    · exact htimed
  exact h.stamp (n.elapsed now) hvalue

end Nodes

/-- The texts of the spans handed over, and of those to come, are read back. -/
structure Texts (a : Agent) : Prop where
  agentType : -2 ^ 63 ≤ a.agentType ∧ a.agentType < 2 ^ 63
  maxId : a.pool.maxId ≤ poolMaxNodesLimit + cellSize
  nodes : ∀ id, a.pool.Live id → NodeText (a.pool.nodeAt id)
  spans : ∀ span ∈ a.spans, Fits 5 (.obj span)

section Keeps

variable {α : Type} {a : Agent} {id : Int} {g : TraceNode → TraceNode}

private theorem Texts.ticked (h : Texts a) (tick : Nat) : Texts { a with tick := tick } := ⟨h.agentType, h.maxId, h.nodes, h.spans⟩

private theorem Texts.modifyNode (h : Texts a) (hg : a.pool.Live id → NodeText (a.pool.nodeAt id) → NodeText (g (a.pool.nodeAt id))) :
    Texts { a with pool := a.pool.modifyNode id g } := by
  refine ⟨h.agentType, h.maxId, ?_, h.spans⟩
  intro other hlive
  by_cases heq : other = id
  · subst heq
    rw [PoolManager.nodeAt_modifyNode_self]
    exact hg hlive (h.nodes other hlive)
  · rw [PoolManager.nodeAt_modifyNode_of_ne _ heq]
    exact h.nodes other hlive

private theorem keepsTexts_modifyNode (id : Int) (hg : ∀ n, NodeText n → NodeText (g n)) :
    Preserves Texts (modifyNode id g) := by
  apply Moves.modify
  intro a h
  exact h.modifyNode fun _ => hg _

private theorem keepsTexts_notInternalKey (key : String) : Preserves Texts (notInternalKey key) := by
  unfold notInternalKey
  split
  · exact Preserves.throw _
  · exact Preserves.pure _

private theorem keepsTexts_getUnixTimeMs : Preserves Texts getUnixTimeMs := fun _ h => h.ticked _

private theorem keepsTexts_annotateTraceV1 (id : Int) {key value : String} (hkey : Short key) (hvalue : Short value)
    (flag : Int) : Preserves Texts (annotateTraceV1 id key value flag) := by
  refine Preserves.bind (keepsTexts_notInternalKey key) fun _ => ?_
  refine Preserves.bind (preserves_getWrapperTraceNode id flag) fun node => ?_
  exact keepsTexts_modifyNode node fun n hn => hn.setScalar hkey.key (fits_str hvalue.text (Nat.le_refl 1))

private theorem keepsTexts_appendText (id : Int) {text : String} (htext : (utf8 text).length ≤ maxStringLength) :
    Preserves Texts (appendAnnotationMember id "anno" (.str text)) := by
  intro a h
  by_cases happ : ((a.pool.nodeAt id).value.get "anno").Appendable
  · have hsome := Members.append_of_appendable _ "anno" (.str text) happ
    rw [finalState_of_ok (show appendAnnotationMember id "anno" (.str text) a = .ok () { a with
      pool := a.pool.modifyNode id fun n => { n with
        value := (a.pool.nodeAt id).value.set "anno"
          (.arr (((a.pool.nodeAt id).value.get "anno").items ++ [.str text])) } } by
        simp only [appendAnnotationMember, hsome])]
    refine h.modifyNode fun hlive hn => ?_
    have hlevel := two_le_level (a.pool.nodeAt id)
    obtain ⟨k, hk⟩ : ∃ k, level (a.pool.nodeAt id) = k + 1 := ⟨level (a.pool.nodeAt id) - 1, by omega⟩
    refine hn.append (by decide) (Nat.le_of_eq hk.symm) ?_ (fits_str htext (by omega))
    exact fits_items (hk ▸ fits_get hn.value (by omega) "anno")
  · have hnone := (Members.append_eq_none_iff _ "anno" (.str text)).2 happ
    rwa [finalState_of_error (show appendAnnotationMember id "anno" (.str text) a = .error .notAppendable a by
      simp only [appendAnnotationMember, hnone])]

private theorem keepsTexts_annotateTraceV2 (id : Int) {key value : String} (hkey : Short key) (hvalue : Short value)
    (flag : Int) : Preserves Texts (annotateTraceV2 id key value flag) := by
  refine Preserves.bind (keepsTexts_notInternalKey key) fun _ => ?_
  refine Preserves.bind (preserves_getWrapperTraceNode id flag) fun node => ?_
  exact keepsTexts_appendText node (hkey.append_text hvalue)

private theorem keepsTexts_annotateErrorTrace (id : Int) {msg file : String} (hmsg : Short msg) (hfile : Short file)
    {line : Nat} (hline : line < 2 ^ 64) : Preserves Texts (annotateErrorTrace id msg file line) := by
  refine Preserves.bind (preserves_getWrapperTraceNode id 1) fun root => ?_
  refine keepsTexts_modifyNode root fun n hn => hn.setObject (by decide) ?_
  simp only [List.forall_mem_cons, List.not_mem_nil, IsEmpty.forall_iff, implies_true, and_true]
  exact ⟨fitsMember (by decide) (fits_str hmsg.text (Nat.le_refl 1)),
    fitsMember (by decide) (fits_str hfile.text (Nat.le_refl 1)), fitsMember (by decide) (fits_uint hline (Nat.le_refl 1))⟩

private theorem keepsTexts_setAsyncContext (id : Int) {asyncNodeId nodeSequence : Int}
    (hid : -2 ^ 63 ≤ asyncNodeId ∧ asyncNodeId < 2 ^ 63) (hseq : -2 ^ 63 ≤ nodeSequence ∧ nodeSequence < 2 ^ 63) :
    Preserves Texts (setAsyncContext id asyncNodeId nodeSequence) := by
  refine Preserves.bind (preserves_getWrapperTraceNode id 1) fun root => ?_
  refine keepsTexts_modifyNode root fun n hn => hn.setObject (by decide) ?_
  simp only [List.forall_mem_cons, List.not_mem_nil, IsEmpty.forall_iff, implies_true, and_true]
  exact ⟨fitsMember (by decide) (fits_int hid.1 hid.2 (Nat.le_refl 1)),
    fitsMember (by decide) (fits_int hseq.1 hseq.2 (Nat.le_refl 1))⟩

private theorem keepsTexts_annotateExceptionTrace (id : Int) {exception : String} (hexception : Short exception) :
    Preserves Texts (annotateExceptionTrace id exception) := by
  have hmark (node : Int) : Preserves Texts (Agent.modifyNode node ({ · with setExp := true })) :=
    keepsTexts_modifyNode node fun n hn => ⟨hn.depth, hn.sequence, hn.value⟩
  refine Preserves.bind (preserves_getWrapperTraceNode id 0) fun node => ?_
  refine Preserves.bind (hmark node) fun _ => ?_
  refine Preserves.bind (preserves_getWrapperTraceNode id 1) fun root => ?_
  refine Preserves.bind (hmark root) fun _ => ?_
  refine Preserves.bind keepsTexts_getUnixTimeMs fun now => ?_
  refine Preserves.bind Preserves.get fun a => ?_
  refine keepsTexts_modifyNode node fun n hn => hn.setObject (by decide) ?_
  simp only [exceptionMembers, List.forall_mem_cons, List.not_mem_nil, IsEmpty.forall_iff, implies_true, and_true]
  exact ⟨fitsMember (by decide) (fits_str hexception.text (Nat.le_refl 1)),
    fitsMember (by decide) (fits_str (by decide) (Nat.le_refl 1)), fitsMember (by decide) (fits_wordSub _ _)⟩

private theorem keepsTexts_addTraceContext (id : Int) (key value : String) :
    Preserves Texts (addTraceContext id key value) := by
  refine Preserves.bind (preserves_getWrapperTraceNode id 1) fun root => ?_
  exact keepsTexts_modifyNode root fun n hn => ⟨hn.depth, hn.sequence, hn.value⟩

private theorem keepsTexts_changeTraceStatus (id status : Int) : Preserves Texts (changeTraceStatus id status) := by
  refine Preserves.bind (preserves_referNode id) fun node => ?_
  refine Preserves.bind (preserves_referNode node.rootId) fun _ => ?_
  refine Preserves.bind Preserves.get fun _ => ?_
  refine Preserves.bind (keepsTexts_modifyNode node.rootId fun n hn => ?_) fun _ => Preserves.pure _
  exact ⟨hn.depth, hn.sequence, hn.value⟩

end Keeps

section Ends

variable {a b : Agent} {f : Forest} {t : Trace} {id root : Int}

private theorem level_of_view (hview : b.view = a.view) (id : Int) : level (b.pool.nodeAt id) = level (a.pool.nodeAt id) := by
  have hshape : (b.pool.nodeAt id).shape = (a.pool.nodeAt id).shape :=
    congrFun (congrArg PoolView.shape hview) (id - 1)
  have hid : (b.pool.nodeAt id).id = (a.pool.nodeAt id).id := congrArg Shape.id hshape
  have hroot : (b.pool.nodeAt id).rootId = (a.pool.nodeAt id).rootId := congrArg Shape.rootId hshape
  rw [level, TraceNode.isRootNode, hid, hroot, level, TraceNode.isRootNode]

private theorem Texts.endedNode (h : Texts a) (id : Int) : Texts (a.endedNode id) := by
  have hended : Texts { a with pool := a.pool.modifyNode id (·.endTrace (a.clock a.tick)) } :=
    h.modifyNode fun _ hn => hn.endTrace _
  exact hended.ticked (a.tick + 1)

private theorem Texts.forcedEnd (h : Texts a) (id : Int) : Texts (a.forcedEnd id) := by
  unfold Agent.forcedEnd
  split
  · exact h.endedNode id
  · exact h

private theorem Texts.appendedEvent (h : Texts a) (hlive : a.pool.Live id) (hkid : level (a.pool.nodeAt id) = 2)
    (hroot : level (a.pool.nodeAt root) = 4) : Texts (a.appendedEvent root id) := by
  refine h.modifyNode fun _ hn => ?_
  refine hn.append (by decide) (Nat.le_of_eq hroot.symm) ?_ ?_
  · have hevent := fits_get hn.value (by omega) "event"
    rw [hroot] at hevent
    exact fits_items hevent
  · exact fits_obj (hkid ▸ (h.nodes id hlive).value)

private theorem Texts.encodedKids {ids : List Int} (h : Texts a) (hroot : level (a.pool.nodeAt root) = 4)
    (hkids : ∀ id ∈ ids, a.pool.Live id ∧ level (a.pool.nodeAt id) = 2) : Texts (a.encodedKids root ids) := by
  induction ids generalizing a with
  | nil => exact h
  | cons id ids ih =>
    have hview := view_forcedEnd a id
    have hview' := (view_appendedEvent (a.forcedEnd id) root id).trans hview
    obtain ⟨hlive, hkid⟩ := hkids id List.mem_cons_self
    have happended := (h.forcedEnd id).appendedEvent ((live_of_view hview).2 hlive)
      ((level_of_view hview id).trans hkid) ((level_of_view hview root).trans hroot)
    refine ih happended ((level_of_view hview' root).trans hroot) fun k hk => ?_
    obtain ⟨hk, hlevel⟩ := hkids k (List.mem_cons_of_mem _ hk)
    exact ⟨(live_of_view hview').2 hk, (level_of_view hview' k).trans hlevel⟩

private theorem level_root (h : Holds a.pool f []) (ht : t ∈ f) : level (a.pool.nodeAt t.root) = 4 := if_pos (h.ok t ht).isRootNode_root

private theorem level_kid (h : Holds a.pool f []) (ht : t ∈ f) (hid : id ∈ t.kids) : level (a.pool.nodeAt id) = 2 := by
  obtain ⟨_, _, _, hnodup, _⟩ := h.exists_split ht
  refine if_neg (not_isRootNode h ht (List.mem_cons_of_mem _ hid) ?_)
  rintro rfl
  exact (List.nodup_cons.1 hnodup).1 hid

private theorem Texts.handedOver (h : Texts a) (hholds : Holds a.pool f []) (ht : t ∈ f) : Texts (a.handedOver t) := by
  have hview := view_endedNode a t.root
  have hended : Holds (a.endedNode t.root).pool f [] := hholds.congr hview
  have hkids := (h.endedNode t.root).encodedKids (level_root hended ht) fun id hid =>
    ⟨hended.live_of_mem ht (List.mem_cons_of_mem _ hid), level_kid hended ht hid⟩
  have hencoded : Texts ((a.endedNode t.root).encodedRoot t) := by
    refine hkids.modifyNode fun _ hn => ?_
    obtain ⟨skipped, hskipped⟩ := runUserOptionFunc_eq (((a.endedNode t.root).encodedKids t.root t.kids).pool.nodeAt t.root)
    rw [hskipped]
    exact ⟨hn.depth, hn.sequence, hn.value⟩
  have hholds' : Holds ((a.endedNode t.root).encodedRoot t).pool f [] := hended.congr (view_encodedRoot _ t)
  refine ⟨hencoded.agentType, hencoded.maxId, hencoded.nodes, ?_⟩
  intro span hspan
  obtain hold | hnew := List.mem_append.1 hspan
  · exact hencoded.spans span hold
  · rw [List.mem_singleton.1 hnew]
    have hroot := hencoded.nodes t.root (hholds'.live_of_mem ht List.mem_cons_self)
    exact fits_obj (level_root hholds' ht ▸ hroot.value)

private theorem Texts.deliverRoot (h : Texts a) (hholds : Holds a.pool f []) (ht : t ∈ f) (raises : Bool) :
    Texts (finalState (Agent.deliverRoot t.root raises) a) := by
  have hdeliver := deliverRoot_eq hholds ht raises
  split at hdeliver
  · rw [finalState_of_ok hdeliver]
    exact h
  split at hdeliver
  · have hfinal : finalState (Agent.deliverRoot t.root raises) a = a.handedOver t := by
      cases raises with
      | false => exact finalState_of_ok hdeliver
      | true => exact finalState_of_error hdeliver
    rw [hfinal]
    exact h.handedOver hholds ht
  · rw [finalState_of_error hdeliver]
    exact (h.endedNode t.root).forcedEnd _

private theorem Texts.endTrace (h : Texts a) (hholds : Holds a.pool f []) (id : Int) (raises : Bool) :
    Texts (a.after (.endTrace id raises)) := by
  by_cases hlive : a.pool.Live id
  swap
  · obtain ⟨e, he, _⟩ := referNode_of_dead hlive
    rwa [after, finalState_of_error (show Agent.endTrace id raises a = .error e a from bind_of_error _ he)]
  obtain ⟨t, ht, hmem⟩ := hholds.exists_trace hlive
  by_cases hroot : id = t.root
  swap
  · rw [after, finalState_of_ok (endTrace_child hlive (not_isRootNode hholds ht hmem hroot) raises)]
    exact h.endedNode id
  subst hroot
  have hdeliver := h.deliverRoot hholds ht raises
  have hspec := endTrace_root hholds ht raises
  split at hspec
  · obtain ⟨b, q, hb, hview, hend, hholds', hmax, hnodes, -⟩ := hspec
    rw [finalState_of_ok hb] at hdeliver
    rw [after, finalState_of_ok hend]
    refine ⟨hdeliver.agentType, hmax.trans_le h.maxId, fun other hother => ?_, hdeliver.spans⟩
    have hnode : q.nodeAt other = b.pool.nodeAt other := congrFun hnodes (other - 1)
    rw [hnode]
    exact hdeliver.nodes other ((live_of_view hview).2 (hholds.live_of_finish hholds' hother))
  · obtain ⟨e, b, hb, -, hend, -⟩ := hspec
    rw [finalState_of_error hb] at hdeliver
    rwa [after, finalState_of_error hend]

end Ends

section Starts

variable {a a' : Agent} {f : Forest} {id parent : Int}

theorem small_numbers (h : Holds a.pool f []) (hmax : a.pool.maxId ≤ poolMaxNodesLimit + cellSize)
    (hlive : a.pool.Live id) :
    (0 ≤ (a.pool.nodeAt id).depth ∧ (a.pool.nodeAt id).depth ≤ poolMaxNodesLimit + cellSize) ∧
      0 ≤ (a.pool.nodeAt id).sequence ∧ (a.pool.nodeAt id).sequence ≤ poolMaxNodesLimit + cellSize := by
  obtain ⟨t, ht, hid⟩ := h.exists_trace hlive
  obtain ⟨path, hpath, hmem, hlength⟩ := exists_path h ht hid
  have hdepth := depth_eq_length h ht hpath hmem
  have hpos := h.alloc.nonneg
  refine ⟨⟨by omega, by omega⟩, ?_⟩
  obtain rfl | hkid := List.mem_cons.1 hid
  · have hsequence : (a.pool.nodeAt t.root).sequence = 0 := congrArg Shape.sequence (h.ok t ht).root
    omega
  · obtain ⟨i, hi⟩ := List.mem_iff_getElem?.1 hkid
    obtain ⟨_, _, hshape⟩ := (h.ok t ht).kid i id hi
    have hsequence : (a.pool.nodeAt id).sequence = i := congrArg Shape.sequence hshape
    have hlt := (List.getElem?_eq_some_iff.1 hi).1
    have hle := (h.detach ht).length_le
    simp only [List.length_append, Trace.nodes, List.length_cons] at hle
    omega

private theorem texts_started (h : Texts a) (hstarted : Started a f parent id a') : Texts a' := by
  have hmax : a'.pool.maxId ≤ poolMaxNodesLimit + cellSize :=
    hstarted.maxId.2.trans (max_le h.maxId (le_refl _))
  have htype : a'.agentType = a.agentType := by rw [hstarted.rest]
  have hspans : a'.spans = a.spans := by rw [hstarted.rest]
  refine ⟨htype ▸ h.agentType, hmax, ?_, hspans ▸ h.spans⟩
  intro other hlive
  obtain ⟨hdepth, hsequence⟩ := small_numbers hstarted.holds hmax hlive
  refine ⟨hdepth, hsequence, ?_⟩
  obtain rfl | hold := (hstarted.live_iff other).1 hlive
  · obtain ⟨n, ⟨-, hnode⟩ | ⟨t, -, -, sequence, hnode⟩⟩ := hstarted.node
    · rw [hnode]
      refine List.forall_mem_cons.2 ⟨fitsMember (by decide) ?_, fun e he => absurd he List.not_mem_nil⟩
      exact fits_int h.agentType.1 h.agentType.2 ((by decide : 1 ≤ 2).trans (two_le_level _))
    · rw [hnode]
      exact fun e he => absurd he List.not_mem_nil
  · obtain ⟨next, extra, hnode⟩ := hstarted.kept other hold
    rw [hnode]
    exact (h.nodes other hold).value

private theorem texts_startTrace (h : Texts a) (hholds : Holds a.pool f []) (parentId : Int) (opts : List String) :
    Texts (a.after (.startTrace parentId opts)) := by
  obtain ⟨id, a', hstart, hstarted⟩ | ⟨e, hstart, _⟩ := startNode_spec hholds parentId
  · rw [World.after_startTrace opts hstart, finalState_setNodeUserOption]
    refine (texts_started h hstarted).modifyNode fun _ hn => ?_
    obtain ⟨options, hoptions⟩ := setNodeUserOption_eq (a'.pool.nodeAt id) (if parentId = rootNode then [] else opts)
    rw [hoptions]
    exact ⟨hn.depth, hn.sequence, hn.value⟩
  · rw [World.after_startTrace_of_error opts hstart]
    exact h

end Starts

/-- The numbers of the call have the widths of the interface: `uint32_t` for a line, `NodeID` and `int` for an
asynchronous context. The strings that go into a span are short. -/
def ApiCall.InRange : ApiCall → Prop
  | .addClue _ key value _ | .addClues _ key value _ => Short key ∧ Short value
  | .addException _ exception => Short exception
  | .catchError _ msg file line => Short msg ∧ Short file ∧ line < 2 ^ 32
  | .setAsyncCtx _ asyncNodeId nodeSequence =>
    (-2 ^ 31 ≤ asyncNodeId ∧ asyncNodeId < 2 ^ 31) ∧ -2 ^ 31 ≤ nodeSequence ∧ nodeSequence < 2 ^ 31
  | _ => True

instance ApiCall.decidableInRange : (call : ApiCall) → Decidable call.InRange
  | .addClue .. | .addClues .. | .catchError .. | .setAsyncCtx .. => inferInstanceAs (Decidable (_ ∧ _))
  | .addException _ exception => inferInstanceAs (Decidable (Short exception))
  | .startTrace .. | .endTrace .. | .setContextKey .. | .changeTraceStatus .. => isTrue trivial

private theorem texts_after {a : Agent} {f : Forest} (h : Texts a) (hholds : Holds a.pool f []) {call : ApiCall}
    (hcall : call.InRange) : Texts (a.after call) := by
  cases call with
  | startTrace parentId opts => exact texts_startTrace h hholds parentId opts
  | endTrace id raises => exact h.endTrace hholds id raises
  | addClue id key value flag => exact keepsTexts_annotateTraceV1 id hcall.1 hcall.2 flag a h
  | addClues id key value flag => exact keepsTexts_annotateTraceV2 id hcall.1 hcall.2 flag a h
  | addException id exception => exact keepsTexts_annotateExceptionTrace id hcall a h
  | catchError id msg file line =>
    exact keepsTexts_annotateErrorTrace id hcall.1 hcall.2.1 (hcall.2.2.trans (by decide)) a h
  | setContextKey id key value => exact keepsTexts_addTraceContext id key value a h
  | setAsyncCtx id asyncNodeId nodeSequence =>
    obtain ⟨hid, hseq⟩ := hcall
    exact keepsTexts_setAsyncContext id (by omega) (by omega) a h
  | changeTraceStatus id status => exact keepsTexts_changeTraceStatus id status a h

private theorem texts_run {w : World} (h : Texts w.agent) (hok : w.Ok) {calls : List ApiCall}
    (hcalls : ∀ call ∈ calls, call.InRange) : Texts (w.run calls).agent := by
  induction calls generalizing w with
  | nil => exact h
  | cons call calls ih =>
    obtain ⟨hcall, hcalls⟩ := List.forall_mem_cons.1 hcalls
    exact ih (w := w.step call) (texts_after h hok.holds hcall) (hok.step call) hcalls

private theorem texts_new {agentType : Int} (htype : -2 ^ 31 ≤ agentType ∧ agentType < 2 ^ 31) (clock : Nat → Nat) :
    Texts (Agent.new agentType clock) := by
  have hholds : Holds (Agent.new agentType clock).pool [] [] := .new
  refine ⟨⟨show -2 ^ 63 ≤ agentType by omega, show agentType < 2 ^ 63 by omega⟩, show (PoolManager.new).maxId ≤ _ by decide +kernel, ?_, ?_⟩
  · intro id hlive
    exact absurd ((hholds.live_iff id).1 hlive) List.not_mem_nil
  · exact fun span hspan => absurd hspan List.not_mem_nil

/-- In every run with short strings, the text of a span is ASCII without control characters below the blank, and
the reader makes an object of it in which each key has the value that it had in the span. -/
theorem span_texts_read_back (toDouble : Bytes → Option Bytes) {agentType : Int}
    (htype : -2 ^ 31 ≤ agentType ∧ agentType < 2 ^ 31) (clock : Nat → Nat) {calls : List ApiCall}
    (hcalls : ∀ call ∈ calls, call.InRange) :
    ∀ span ∈ ((World.new agentType clock).run calls).agent.spans,
      (∀ c ∈ nodeTreeToString span, 0x20 ≤ c ∧ c ≤ 0x7F) ∧
      ∃ members, parse toDouble (nodeTreeToString span) = .ok (true, .obj members) ∧
        ∀ key, members.lookup (utf8 key) = (span.lookup key).map fun v => (ofJson v).asRead := by
  intro span hspan
  have htexts := texts_run (w := World.new agentType clock) (texts_new htype clock) (World.ok_new agentType clock) hcalls
  obtain ⟨hwritable, hheight⟩ := htexts.spans span hspan
  have hparse := parse_write toDouble hwritable
  rw [if_pos (hheight.trans (by decide))] at hparse
  refine ⟨?_, Value.asReadMembers (SortedMap.ofList (ofJsonMembers span)), hparse, ?_⟩
  · rw [nodeTreeToString, NodeTreeWriter.write_eq_render]
    exact printable_render hwritable
  · intro key
    rw [lookup_asReadMembers, SortedMap.lookup_ofList, lookup_ofJsonMembers, Option.map_map]
    rfl

theorem span_texts_read_back_child :
    let calls : List ApiCall := [.startTrace 0 [], .startTrace 128 [], .addClues 127 "40" "\u00e9\"" 0,
      .catchError 127 "m" "f" 3, .setAsyncCtx 127 1 2, .endTrace 128 false]
    ∃ span ∈ ((World.new 1700 id).run calls).agent.spans, ∃ members,
      parse some (nodeTreeToString span) = .ok (true, .obj members) := by
  intro calls
  obtain ⟨span, hspan⟩ : ∃ span, span ∈ ((World.new 1700 id).run calls).agent.spans := by
    refine List.exists_mem_of_length_pos ?_
    decide +kernel
  obtain ⟨-, members, hparse, -⟩ := span_texts_read_back some (by decide) id (by decide) span hspan
  exact ⟨span, hspan, members, hparse⟩

end PinpointAgent.Agent

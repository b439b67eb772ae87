import Mathlib.Data.List.TakeWhile
import PinpointAgent.NodePool.PoolManager

/-!
# User options and the skip flag

A node takes options as texts, each of which becomes a callback. `runUserOptionFunc` asks them in
turn until one is satisfied, and answers whether one was. The callbacks also write `skipped_`, which
is what `ShouldSkip` reads: the callback of `TraceOnlyException` writes it on both outcomes, the one of
`TraceMinTimeMs` only when it is not satisfied, and `Reset` not at all. So the flag agrees with the
answer only when nothing was written before a satisfied `TraceMinTimeMs`.
-/

namespace PinpointAgent.NodePool

/-! ## Texts of options -/

/-- The text of an integer: a sign or none, and digits. -/
structure Numeral where
  sign : List Char
  digits : List Char
  sign_mem : sign ∈ [[], ['+'], ['-']]
  digits_ne_nil : digits ≠ []
  isDigit : ∀ c ∈ digits, c.isDigit = true

def Numeral.value (m : Numeral) : Int :=
  if m.sign = ['-'] then -(Nat.ofDigitChars 10 m.digits 0 : Int)
  else Nat.ofDigitChars 10 m.digits 0

/-- The integers that `std::stoll` gives back; at the others it throws. -/
def Numeral.Fits (m : Numeral) : Prop :=
  -9223372036854775808 ≤ m.value ∧ m.value < 9223372036854775808

instance Numeral.decidableFits (m : Numeral) : Decidable m.Fits :=
  inferInstanceAs (Decidable (_ ∧ _))

inductive OptionText where
  | traceMinTimeMs (min : Numeral)
  | traceOnlyException

namespace OptionText

def text : OptionText → String
  | .traceMinTimeMs min => "TraceMinTimeMs:" ++ String.ofList (min.sign ++ min.digits)
  | .traceOnlyException => "TraceOnlyException"

def callback : OptionText → UserOption
  | .traceMinTimeMs min => .traceMinTimeMs min.value
  | .traceOnlyException => .traceOnlyException

/-- What the option asks of a node, whether or not its text can be read. -/
def Holds (expired : Int) (setExp : Bool) : OptionText → Prop
  | .traceMinTimeMs min => min.value ≤ expired
  | .traceOnlyException => setExp = true

def readable : OptionText → Bool
  | .traceMinTimeMs min => decide min.Fits
  | .traceOnlyException => true

end OptionText

private theorem foldl_digits (cs : List Char) (init : Nat) :
    cs.foldl (fun (n : Int) c => 10 * n + (c.toNat - 48 : Nat)) init =
      (Nat.ofDigitChars 10 cs init : Int) := by
  induction cs generalizing init with
  | nil => rw [List.foldl_nil, Nat.ofDigitChars_nil]
  | cons c cs ih =>
    rw [List.foldl_cons, Nat.ofDigitChars_cons, ← ih]
    push_cast
    rfl

theorem isDigit_bounds {c : Char} (hc : c.isDigit = true) : 48 ≤ c.toNat ∧ c.toNat ≤ 57 := by
  rw [Char.isDigit, Bool.and_eq_true, decide_eq_true_eq, decide_eq_true_eq] at hc
  exact hc

private theorem stoll_of_front {text digits : List Char} (hfront : text.dropWhile isSpace = text)
    (hrest : (if text.head? == some '-' || text.head? == some '+' then text.drop 1 else text) = digits)
    (hne : digits ≠ []) (hdigits : ∀ c ∈ digits, c.isDigit = true) {value : Int}
    (hvalue : (if text.head? == some '-' then -(Nat.ofDigitChars 10 digits 0 : Int)
      else Nat.ofDigitChars 10 digits 0) = value) :
    stoll text = if -9223372036854775808 ≤ value ∧ value < 9223372036854775808 then some value
      else none := by
  have hfold := foldl_digits digits 0
  rw [Nat.cast_zero] at hfold
  rw [stoll]
  simp only [hfront, hrest, List.takeWhile_eq_self_iff.2 hdigits, hfold, hvalue]
  rw [if_neg (by simpa using hne)]

theorem stoll_numeral (m : Numeral) :
    stoll (m.sign ++ m.digits) = if m.Fits then some m.value else none := by
  obtain ⟨sign, digits, hsign, hne, hdigits⟩ := m
  obtain ⟨d, ds, rfl⟩ := List.exists_cons_of_ne_nil hne
  have hd := isDigit_bounds (hdigits d List.mem_cons_self)
  have hspace : isSpace d = false := by
    have hblank : d ≠ ' ' := by rintro rfl; exact absurd hd.1 (by decide)
    simp only [isSpace, beq_false_of_ne hblank, Bool.false_or, Bool.and_eq_false_iff,
      decide_eq_false_iff_not]
    omega
  have hminus : d ≠ '-' := by rintro rfl; exact absurd hd.1 (by decide)
  have hplus : d ≠ '+' := by rintro rfl; exact absurd hd.1 (by decide)
  simp only [List.mem_cons, List.not_mem_nil, or_false] at hsign
  rcases hsign with rfl | rfl | rfl
  · refine stoll_of_front ?_ ?_ hne hdigits ?_
    · simp [hspace]
    · simp [hminus, hplus]
    · simp [hminus, Numeral.value]
  · refine stoll_of_front ?_ ?_ hne hdigits ?_
    · rfl
    · rfl
    · rfl
  · refine stoll_of_front ?_ ?_ hne hdigits ?_
    · rfl
    · rfl
    · rfl

namespace TraceNode

/-! ## Taking the options -/

private theorem addUserOption_text (n : TraceNode) (o : OptionText) :
    n.addUserOption o.text =
      if o.readable then
        some { n with userOptionalSetting := n.userOptionalSetting ++ [o.callback] }
      else none := by
  cases o with
  | traceMinTimeMs min =>
    have htext : (OptionText.traceMinTimeMs min).text.toList =
        "TraceMinTimeMs".toList ++ ':' :: (min.sign ++ min.digits) :=
      calc (OptionText.traceMinTimeMs min).text.toList
        _ = "TraceMinTimeMs:".toList ++ (String.ofList (min.sign ++ min.digits)).toList :=
          String.toList_append
        _ = ("TraceMinTimeMs".toList ++ [':']) ++ (min.sign ++ min.digits) :=
          congrArg₂ (· ++ ·) (by decide) String.toList_ofList
        _ = "TraceMinTimeMs".toList ++ ':' :: (min.sign ++ min.digits) := List.append_assoc _ _ _
    have hname : ∀ c ∈ "TraceMinTimeMs".toList, decide (c ≠ ':') = true :=
      List.all_eq_true.1 rfl
    rw [addUserOption, htext, List.takeWhile_append_of_pos hname,
      List.dropWhile_append_of_pos hname, List.takeWhile_cons_of_neg (by decide),
      List.dropWhile_cons_of_neg (by decide), List.append_nil, List.drop_one, List.tail_cons,
      parseUserOption, if_pos rfl, stoll_numeral]
    by_cases hfits : min.Fits
    · simp [OptionText.readable, OptionText.callback, hfits]
    · simp [OptionText.readable, hfits]
  | traceOnlyException => rfl

private theorem setNodeUserOption_texts (n : TraceNode) (opts : List OptionText) :
    (n.setNodeUserOption (opts.map OptionText.text)).1 =
      { n with userOptionalSetting := n.userOptionalSetting ++
          (opts.takeWhile OptionText.readable).map OptionText.callback } := by
  induction opts generalizing n with
  | nil => simp [setNodeUserOption]
  | cons o opts ih =>
    rw [List.map_cons, setNodeUserOption, addUserOption_text]
    by_cases hreadable : o.readable = true
    · rw [if_pos hreadable, List.takeWhile_cons_of_pos hreadable]
      simp [ih]
    · rw [if_neg hreadable, List.takeWhile_cons_of_neg hreadable]
      simp

/-! ## Running the callbacks -/

def shouldSkip (n : TraceNode) : Bool := n.skipped

def Satisfied (n : TraceNode) : UserOption → Bool
  | .traceMinTimeMs min => decide (min ≤ n.expiredTime)
  | .traceOnlyException => n.setExp

private theorem fst_runCallback (n : TraceNode) (cb : UserOption) :
    (n.runCallback cb).1 = n.Satisfied cb := by
  cases cb with
  | traceMinTimeMs min =>
    rw [runCallback, Satisfied]
    split <;> simp [*]
  | traceOnlyException => rfl

theorem runCallback_of_not_satisfied {n : TraceNode} {cb : UserOption} (h : n.Satisfied cb = false) :
    n.runCallback cb = (false, { n with skipped := true }) := by
  cases cb with
  | traceMinTimeMs min =>
    rw [Satisfied, decide_eq_false_iff_not] at h
    rw [runCallback, if_neg h]
  | traceOnlyException =>
    rw [Satisfied] at h
    rw [runCallback, h]
    rfl

private theorem satisfied_skipped (n : TraceNode) (skipped : Bool) :
    Satisfied { n with skipped := skipped } = n.Satisfied := by
  funext cb
  cases cb <;> rfl

/-- The answer is that of the first satisfied callback; none in an empty list is as good as one. -/
theorem fst_callbackLoop (n : TraceNode) (cbs : List UserOption) (ret : Bool) :
    (callbackLoop ret n cbs).1 = if cbs = [] then ret else cbs.any n.Satisfied := by
  induction cbs generalizing ret n with
  | nil => rfl
  | cons cb rest ih =>
    rw [callbackLoop, if_neg (List.cons_ne_nil cb rest), List.any_cons, fst_runCallback]
    cases hsat : n.Satisfied cb with
    | true => rw [if_pos rfl, fst_runCallback, hsat, Bool.true_or]
    | false =>
      rw [if_neg Bool.false_ne_true, runCallback_of_not_satisfied hsat, ih, satisfied_skipped,
        Bool.false_or]
      split
      · rename_i hrest
        rw [hrest, List.any_nil]
      · rfl

/-- The flag after the loop, by the first satisfied callback. -/
def flagAfter (n : TraceNode) (cbs : List UserOption) : Bool :=
  match cbs.find? n.Satisfied with
  | none => n.skipped || !cbs.isEmpty
  | some .traceOnlyException => false
  | some (.traceMinTimeMs min) => n.skipped || !decide (cbs.head? = some (.traceMinTimeMs min))

private theorem skipped_callbackLoop (n : TraceNode) (cbs : List UserOption) (ret : Bool) :
    (callbackLoop ret n cbs).2.skipped = n.flagAfter cbs := by
  induction cbs generalizing ret n with
  | nil => simp [callbackLoop, flagAfter]
  | cons cb rest ih =>
    rw [callbackLoop, fst_runCallback]
    cases hsat : n.Satisfied cb with
    | true =>
      rw [if_pos rfl, flagAfter, List.find?_cons_of_pos hsat]
      cases cb with
      | traceMinTimeMs min =>
        have hmin : min ≤ n.expiredTime := of_decide_eq_true hsat
        simp [runCallback, hmin]
      | traceOnlyException =>
        have hexp : n.setExp = true := hsat
        simp [runCallback, hexp]
    | false =>
      rw [if_neg Bool.false_ne_true, runCallback_of_not_satisfied hsat, ih, flagAfter, flagAfter,
        satisfied_skipped, List.find?_cons_of_neg (by simp [hsat])]
      cases hfind : rest.find? n.Satisfied with
      | none => simp
      | some found =>
        cases found with
        | traceOnlyException => rfl
        | traceMinTimeMs min =>
          -- the satisfied callback is not the one that was just asked
          have hne : cb ≠ .traceMinTimeMs min := by
            rintro rfl
            rw [List.find?_some hfind] at hsat
            cases hsat
          simp [hne]

/-- The flag agrees with the answer: nothing is satisfied and something has said so; the satisfied
callback that ends the loop writes the flag; or it does not, and finds it clear. -/
def FlagRight (n : TraceNode) (cbs : List UserOption) : Prop :=
  match cbs.find? n.Satisfied with
  | none => cbs ≠ [] ∨ n.skipped = false
  | some .traceOnlyException => True
  | some (.traceMinTimeMs min) => cbs.head? = some (.traceMinTimeMs min) ∧ n.skipped = false

private theorem flag_eq_not_answer_iff (n : TraceNode) (cbs : List UserOption) :
    (callbackLoop true n cbs).2.skipped = !(callbackLoop true n cbs).1 ↔ n.FlagRight cbs := by
  rw [skipped_callbackLoop, fst_callbackLoop, flagAfter, FlagRight]
  cases hfind : cbs.find? n.Satisfied with
  | none =>
    have hnone : cbs.any n.Satisfied = false := by
      rw [List.any_eq_false]
      intro cb hcb
      exact List.find?_eq_none.1 hfind cb hcb
    cases cbs <;> simp [hnone]
  | some found =>
    have hany : cbs.any n.Satisfied = true :=
      List.any_eq_true.2 ⟨found, List.mem_of_find?_eq_some hfind, List.find?_some hfind⟩
    have hne : cbs ≠ [] := List.ne_nil_of_mem (List.mem_of_find?_eq_some hfind)
    rw [if_neg hne, hany]
    cases found with
    | traceOnlyException => simp
    | traceMinTimeMs min => simp [and_comm]

/-! ## Nodes of the pool -/

def withOptions (n : TraceNode) (opts : List OptionText) (expired : Int) (setExp : Bool) : TraceNode :=
  { (n.setNodeUserOption (opts.map OptionText.text)).1 with
    expiredTime := expired, setExp := setExp }

/-- The answer is about all the options, and the flag is its negation. -/
def OptionsAgree (n : TraceNode) (opts : List OptionText) (expired : Int) (setExp : Bool) : Prop :=
  ((n.withOptions opts expired setExp).runUserOptionFuncAnswer.1 = true ↔
    opts = [] ∨ ∃ o ∈ opts, o.Holds expired setExp) ∧
  (n.withOptions opts expired setExp).runUserOptionFuncAnswer.2.shouldSkip =
    !(n.withOptions opts expired setExp).runUserOptionFuncAnswer.1

private theorem satisfied_callback {n : TraceNode} {expired : Int} {setExp : Bool}
    (hexpired : n.expiredTime = expired) (hexp : n.setExp = setExp) (o : OptionText) :
    n.Satisfied o.callback = true ↔ o.Holds expired setExp := by
  cases o with
  | traceMinTimeMs min => rw [← hexpired, OptionText.callback, Satisfied, decide_eq_true_eq]; rfl
  | traceOnlyException => rw [← hexp]; rfl

theorem withOptions_eq {n : TraceNode} (hreset : n.userOptionalSetting = []) (opts : List OptionText)
    (expired : Int) (setExp : Bool) :
    n.withOptions opts expired setExp =
      { n with
        userOptionalSetting := (opts.takeWhile OptionText.readable).map OptionText.callback
        expiredTime := expired, setExp := setExp } := by
  rw [withOptions, setNodeUserOption_texts, hreset]
  rfl

private theorem answer_withOptions {n : TraceNode} (hreset : n.userOptionalSetting = [])
    (opts : List OptionText) (expired : Int) (setExp : Bool) :
    (n.withOptions opts expired setExp).runUserOptionFuncAnswer.1 = true ↔
      opts.takeWhile OptionText.readable = [] ∨
        ∃ o ∈ opts.takeWhile OptionText.readable, o.Holds expired setExp := by
  rw [withOptions_eq hreset, runUserOptionFuncAnswer, fst_callbackLoop]
  by_cases hnone : opts.takeWhile OptionText.readable = []
  · simp [hnone]
  · rw [if_neg (List.map_eq_nil_iff.not.2 hnone)]
    simp only [List.any_map, List.any_eq_true, Function.comp_apply, satisfied_callback rfl rfl, hnone,
      false_or]

end TraceNode

private theorem PoolManager.userOptionalSetting_of_ready {p q : PoolManager} {id : Int}
    (hget : p.getReadyNode = .ok (id, q)) : (q.nodeAt id).userOptionalSetting = [] := by
  unfold PoolManager.getReadyNode at hget
  split at hget
  · obtain ⟨rfl, rfl⟩ := Prod.mk.inj (Except.ok.inj hget)
    simp [PoolManager.nodeAt, TraceNode.reset]
  · split at hget
    · cases hget
    · obtain ⟨rfl, rfl⟩ := Prod.mk.inj (Except.ok.inj hget)
      simp [PoolManager.nodeAt, TraceNode.reset]

namespace TraceNode

/-- Answer and flag are right exactly when the options up to the first unreadable one answer for all,
and the flag is right for them. With numbers of 64 bits only the flag matters. -/
theorem user_options_agree_iff {p q : PoolManager} {id : Int} (hget : p.getReadyNode = .ok (id, q))
    (opts : List OptionText) (expired : Int) (setExp : Bool) :
    (q.nodeAt id).OptionsAgree opts expired setExp ↔
      ((opts.takeWhile OptionText.readable = [] ∨
          ∃ o ∈ opts.takeWhile OptionText.readable, o.Holds expired setExp) ↔
        (opts = [] ∨ ∃ o ∈ opts, o.Holds expired setExp)) ∧
      FlagRight { q.nodeAt id with expiredTime := expired, setExp := setExp }
        ((opts.takeWhile OptionText.readable).map OptionText.callback) := by
  have hreset := PoolManager.userOptionalSetting_of_ready hget
  rw [OptionsAgree, answer_withOptions hreset]
  refine and_congr_right fun _ => ?_
  rw [withOptions_eq hreset]
  exact flag_eq_not_answer_iff _ _

private theorem getReadyNode_new : ∃ q, PoolManager.new.getReadyNode = .ok (128, q) ∧
    q.nodeAt 128 = ({} : TraceNode).reset 128 := ⟨_, rfl, rfl⟩

def numeral (n : Nat) : Numeral :=
  ⟨[], Nat.toDigits 10 n, by decide, Nat.toDigits_ne_nil,
    fun _ hc => Nat.isDigit_of_mem_toDigits (by decide) (by decide) hc⟩

/-- The options of the source's own test, of which the second one is satisfied. -/
theorem user_options_agree_iff_exception : ∃ q, PoolManager.new.getReadyNode = .ok (128, q) ∧
    (q.nodeAt 128).OptionsAgree [.traceMinTimeMs (numeral 23), .traceOnlyException] 22 true := by
  obtain ⟨q, hget, hnode⟩ := getReadyNode_new
  refine ⟨q, hget, (user_options_agree_iff hget _ 22 true).2 ?_⟩
  rw [hnode]
  exact ⟨Iff.rfl, trivial⟩

/-- A minimum that is met behind one that is not: the answer is true, and the node is skipped. -/
theorem met_minimum_is_skipped : ∃ q, PoolManager.new.getReadyNode = .ok (128, q) ∧
    ((q.nodeAt 128).withOptions [.traceMinTimeMs (numeral 100), .traceMinTimeMs (numeral 20)] 50
      false).runUserOptionFuncAnswer.1 = true ∧
    ((q.nodeAt 128).withOptions [.traceMinTimeMs (numeral 100), .traceMinTimeMs (numeral 20)] 50
      false).runUserOptionFuncAnswer.2.shouldSkip = true ∧
    ¬(q.nodeAt 128).OptionsAgree [.traceMinTimeMs (numeral 100), .traceMinTimeMs (numeral 20)] 50
      false := by
  obtain ⟨q, hget, hnode⟩ := getReadyNode_new
  have hanswer : ((q.nodeAt 128).withOptions [.traceMinTimeMs (numeral 100),
      .traceMinTimeMs (numeral 20)] 50 false).runUserOptionFuncAnswer.1 = true := by
    rw [hnode]
    decide
  have hskip : ((q.nodeAt 128).withOptions [.traceMinTimeMs (numeral 100),
      .traceMinTimeMs (numeral 20)] 50 false).runUserOptionFuncAnswer.2.shouldSkip = true := by
    rw [hnode]
    decide
  refine ⟨q, hget, hanswer, hskip, fun hagree => ?_⟩
  have hflag := hagree.2
  rw [hanswer, hskip] at hflag
  cases hflag

end TraceNode

end PinpointAgent.NodePool

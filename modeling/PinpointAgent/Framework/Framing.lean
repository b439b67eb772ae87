import PinpointAgent.Framework.ByteBuffer
import Mathlib.Data.List.Infix
import Mathlib.Tactic.Ring

/-!
# Length-prefixed frames

A frame on the wire is `[type:4][length:4][body]`, both words in network byte order. `scanFrame`
looks at the head of a byte stream; `deframe` hands the frames of a stream one by one to a
stateful handler, which may stop it. The central fact is `deframe_append`: feeding a stream in
two pieces is feeding it whole, so that what a receiver dispatches cannot depend on where its
input was cut.
-/

namespace PinpointAgent.Framework

def be32 (n : Nat) : List UInt8 :=
  [UInt8.ofNat (n / 16777216), UInt8.ofNat (n / 65536), UInt8.ofNat (n / 256), UInt8.ofNat n]

def readBe32 : List UInt8 → Nat
  | a :: b :: c :: d :: _ => a.toNat * 16777216 + b.toNat * 65536 + c.toNat * 256 + d.toNat
  | _ => 0

@[simp] theorem length_be32 (n : Nat) : (be32 n).length = 4 := rfl

theorem readBe32_lt (s : List UInt8) : readBe32 s < 2 ^ 32 := by
  match s with
  | a :: b :: c :: d :: rest =>
      have ha := a.toNat_lt
      have hb := b.toNat_lt
      have hc := c.toNat_lt
      have hd := d.toNat_lt
      simp only [readBe32]
      omega
  | [] | [_] | [_, _] | [_, _, _] => simp [readBe32]

theorem readBe32_be32 {n : Nat} (h : n < 2 ^ 32) (rest : List UInt8) :
    readBe32 (be32 n ++ rest) = n := by
  simp only [be32, List.cons_append, List.nil_append, readBe32, UInt8.toNat_ofNat']
  omega

private theorem ofNat_eq_of_mod {n : Nat} {b : UInt8} (h : n % 256 = b.toNat) :
    UInt8.ofNat n = b := by
  rw [← UInt8.toNat_inj, UInt8.toNat_ofNat']
  exact h

private theorem be32_readBe32 {s : List UInt8} (h : 4 ≤ s.length) : be32 (readBe32 s) = s.take 4 := by
  match s with
  | a :: b :: c :: d :: rest =>
      have hb := b.toNat_lt
      have hc := c.toNat_lt
      have hd := d.toNat_lt
      have ha := a.toNat_lt
      rw [be32, ofNat_eq_of_mod (b := a) (by simp only [readBe32]; omega),
        ofNat_eq_of_mod (b := b) (by simp only [readBe32]; omega),
        ofNat_eq_of_mod (b := c) (by simp only [readBe32]; omega),
        ofNat_eq_of_mod (b := d) (by simp only [readBe32]; omega)]
      rfl
  | [] | [_] | [_, _] | [_, _, _] => simp at h

theorem readBe32_append {s : List UInt8} (h : 4 ≤ s.length) (t : List UInt8) :
    readBe32 (s ++ t) = readBe32 s := by
  match s with
  | a :: b :: c :: d :: rest => rfl
  | [] | [_] | [_, _] | [_, _, _] => simp at h

/-- A frame whose type and length fit their header words. -/
structure Frame where
  type : Nat
  body : List UInt8
  type_lt : type < 2 ^ 32
  body_lt : body.length < 2 ^ 32
deriving DecidableEq, Repr

namespace Frame

def size (f : Frame) : Nat := 8 + f.body.length

def encode (f : Frame) : List UInt8 := be32 f.type ++ be32 f.body.length ++ f.body

@[simp] theorem length_encode (f : Frame) : f.encode.length = f.size := by
  simp only [encode, size, List.length_append, length_be32]

theorem size_pos (f : Frame) : 0 < f.size := by
  simp [size]

end Frame

def encodeAll (fs : List Frame) : List UInt8 := fs.flatMap Frame.encode

@[simp] theorem encodeAll_nil : encodeAll [] = [] := rfl

@[simp] theorem encodeAll_cons (f : Frame) (fs : List Frame) :
    encodeAll (f :: fs) = f.encode ++ encodeAll fs := rfl

@[simp] theorem encodeAll_append (fs gs : List Frame) :
    encodeAll (fs ++ gs) = encodeAll fs ++ encodeAll gs := by
  simp [encodeAll]

theorem length_le_encodeAll (fs : List Frame) : fs.length ≤ (encodeAll fs).length := by
  induction fs with
  | nil => rfl
  | cons f fs ih =>
      have hpos := f.size_pos
      rw [encodeAll_cons, List.length_append, List.length_cons, Frame.length_encode]
      omega

inductive Scan where
  | incomplete
  | oversized
  | frame (f : Frame) (rest : List UInt8)
deriving DecidableEq, Repr

def scanFrame (limit : Nat) (s : List UInt8) : Scan :=
  if s.length < 8 then .incomplete
  else if limit < readBe32 (s.drop 4) then .oversized
  else if h : s.length < 8 + readBe32 (s.drop 4) then .incomplete
  else .frame
    { type := readBe32 s
      body := (s.drop 8).take (readBe32 (s.drop 4))
      type_lt := readBe32_lt s
      body_lt := by
        have hlt := readBe32_lt (s.drop 4)
        simp only [List.length_take, List.length_drop]
        omega }
    (s.drop (8 + readBe32 (s.drop 4)))

theorem encode_drop_four (f : Frame) (t : List UInt8) :
    (f.encode ++ t).drop 4 = be32 f.body.length ++ (f.body ++ t) := by
  simp [Frame.encode, be32]

theorem scanFrame_encode {limit : Nat} {f : Frame} (h : f.body.length ≤ limit) (t : List UInt8) :
    scanFrame limit (f.encode ++ t) = .frame f t := by
  have hlen : (f.encode ++ t).length = 8 + f.body.length + t.length := by
    simp [Frame.size]
  have hword : readBe32 ((f.encode ++ t).drop 4) = f.body.length := by
    rw [encode_drop_four, readBe32_be32 f.body_lt]
  have htype : readBe32 (f.encode ++ t) = f.type := by
    simp only [Frame.encode, List.append_assoc]
    exact readBe32_be32 f.type_lt _
  have hbody : (f.encode ++ t).drop 8 = f.body ++ t := by
    simp [Frame.encode, be32]
  have hrest : (f.encode ++ t).drop (8 + f.body.length) = t := by
    rw [← List.drop_drop, hbody, List.drop_left]
  rw [scanFrame, if_neg (by omega), if_neg (by omega), dif_neg (by omega)]
  simp only [hword, htype, hbody, hrest, List.take_left]

theorem scanFrame_frame {limit : Nat} {s rest : List UInt8} {f : Frame}
    (h : scanFrame limit s = .frame f rest) :
    s = f.encode ++ rest ∧ f.body.length ≤ limit := by
  rw [scanFrame] at h
  split at h
  · cases h
  · split at h
    · cases h
    · split at h
      · cases h
      · rename_i hlen hlimit hroom
        cases h
        have hbody : ((s.drop 8).take (readBe32 (s.drop 4))).length = readBe32 (s.drop 4) := by
          simp only [List.length_take, List.length_drop]
          omega
        refine ⟨?_, by simp only [hbody]; omega⟩
        simp only [Frame.encode, hbody]
        rw [be32_readBe32 (by omega), be32_readBe32 (by simp only [List.length_drop]; omega)]
        rw [← List.drop_drop, List.append_assoc, List.take_append_drop]
        have h8 : s.drop 8 = (s.drop 4).drop 4 := by rw [List.drop_drop]
        rw [h8, List.append_assoc, List.take_append_drop, List.take_append_drop]

/-- No frame can be read in two ways: a prefix of an encoding encodes a prefix. -/
theorem prefix_of_encodeAll {fs gs : List Frame} (h : encodeAll fs <+: encodeAll gs) : fs <+: gs := by
  induction fs generalizing gs with
  | nil => exact List.nil_prefix
  | cons f fs ih =>
      obtain ⟨t, ht⟩ := h
      cases gs with
      | nil =>
          have hlen := congrArg List.length ht
          have hpos := f.size_pos
          simp only [encodeAll_cons, encodeAll_nil, List.length_append, Frame.length_encode,
            List.length_nil] at hlen
          omega
      | cons g gs =>
          rw [encodeAll_cons, encodeAll_cons, List.append_assoc] at ht
          have hf := scanFrame_encode f.body_lt.le (encodeAll fs ++ t)
          rw [ht, scanFrame_encode g.body_lt.le] at hf
          obtain ⟨rfl, hrest⟩ := Scan.frame.inj hf
          exact List.cons_prefix_cons.mpr ⟨rfl, ih ⟨t, hrest.symm⟩⟩

theorem scanFrame_oversized_append {limit : Nat} {s : List UInt8}
    (h : scanFrame limit s = .oversized) (t : List UInt8) :
    scanFrame limit (s ++ t) = .oversized := by
  rw [scanFrame] at h
  split at h
  · cases h
  · split at h
    · rename_i hlen hlimit
      have hword : readBe32 ((s ++ t).drop 4) = readBe32 (s.drop 4) := by
        rw [List.drop_append_of_le_length (by omega)]
        exact readBe32_append (by simp only [List.length_drop]; omega) t
      rw [scanFrame, if_neg (by simp only [List.length_append]; omega), if_pos (hword ▸ hlimit)]
    · split at h <;> cases h

theorem scanFrame_frame_append {limit : Nat} {s rest : List UInt8} {f : Frame}
    (h : scanFrame limit s = .frame f rest) (t : List UInt8) :
    scanFrame limit (s ++ t) = .frame f (rest ++ t) := by
  obtain ⟨rfl, hlen⟩ := scanFrame_frame h
  rw [List.append_assoc]
  exact scanFrame_encode hlen _

section ScanCases

variable {limit : Nat} {s : List UInt8}

theorem scanFrame_of_lt_header (h : s.length < 8) : scanFrame limit s = .incomplete := by
  rw [scanFrame, if_pos h]

theorem scanFrame_of_oversized (h8 : 8 ≤ s.length) (h : limit < readBe32 (s.drop 4)) :
    scanFrame limit s = .oversized := by
  rw [scanFrame, if_neg (by omega), if_pos h]

theorem scanFrame_of_lt_body (h8 : 8 ≤ s.length) (hlimit : readBe32 (s.drop 4) ≤ limit)
    (h : s.length < 8 + readBe32 (s.drop 4)) : scanFrame limit s = .incomplete := by
  rw [scanFrame, if_neg (by omega), if_neg (by omega), dif_pos h]

theorem scanFrame_of_full (h8 : 8 ≤ s.length) (hlimit : readBe32 (s.drop 4) ≤ limit)
    (h : 8 + readBe32 (s.drop 4) ≤ s.length) :
    ∃ f : Frame, scanFrame limit s = .frame f (s.drop (8 + readBe32 (s.drop 4))) ∧
      f.type = readBe32 s ∧ f.body = (s.drop 8).take (readBe32 (s.drop 4)) := by
  rw [scanFrame, if_neg (by omega), if_neg (by omega), dif_neg (by omega)]
  exact ⟨_, rfl, rfl, rfl⟩

theorem length_lt_of_incomplete (h : scanFrame limit s = .incomplete) : s.length < 8 + limit := by
  by_cases h8 : s.length < 8
  · omega
  · by_cases hlimit : limit < readBe32 (s.drop 4)
    · rw [scanFrame_of_oversized (by omega) hlimit] at h
      cases h
    · have hle : readBe32 (s.drop 4) ≤ limit := by omega
      by_cases hfull : 8 + readBe32 (s.drop 4) ≤ s.length
      · obtain ⟨f, hscan, -⟩ := scanFrame_of_full (by omega) hle hfull
        rw [hscan] at h
        cases h
      · omega

end ScanCases

private theorem scanFrame_frame_lt {limit : Nat} {s rest : List UInt8} {f : Frame}
    (h : scanFrame limit s = .frame f rest) : rest.length < s.length := by
  obtain ⟨rfl, -⟩ := scanFrame_frame h
  have := f.size_pos
  simp only [List.length_append, Frame.length_encode]
  omega

inductive Pass where
  | starved
  | oversized
  | stopped
deriving DecidableEq, Repr

structure Deframed (σ : Type*) where
  state : σ
  rest : List UInt8
  pass : Pass

section Deframe

variable {σ : Type*} (limit : Nat) (handle : σ → Frame → Bool × σ)

def deframeFuel : Nat → σ → List UInt8 → Deframed σ
  | 0, st, s => ⟨st, s, .starved⟩
  | n + 1, st, s =>
      match scanFrame limit s with
      | .incomplete => ⟨st, s, .starved⟩
      | .oversized => ⟨st, s, .oversized⟩
      | .frame f rest =>
          if (handle st f).1 then deframeFuel n (handle st f).2 rest
          else ⟨(handle st f).2, rest, .stopped⟩

/-- Hands the frames of `s` to `handle` until it refuses one, an oversized length is met or no
complete frame is left. -/
def deframe (st : σ) (s : List UInt8) : Deframed σ := deframeFuel limit handle (s.length + 1) st s

private theorem deframeFuel_eq (n m : Nat) (st : σ) (s : List UInt8) (hn : s.length < n)
    (hm : s.length < m) : deframeFuel limit handle n st s = deframeFuel limit handle m st s := by
  induction n generalizing m st s with
  | zero => omega
  | succ n ih =>
      cases m with
      | zero => omega
      | succ m =>
          simp only [deframeFuel]
          cases hscan : scanFrame limit s with
          | incomplete => rfl
          | oversized => rfl
          | frame f rest =>
              have hlt := scanFrame_frame_lt hscan
              simp only
              rw [ih m (handle st f).2 rest (by omega) (by omega)]

variable {limit handle}

theorem deframe_incomplete {st : σ} {s : List UInt8} (h : scanFrame limit s = .incomplete) :
    deframe limit handle st s = ⟨st, s, .starved⟩ := by
  simp [deframe, deframeFuel, h]

theorem deframe_oversized {st : σ} {s : List UInt8} (h : scanFrame limit s = .oversized) :
    deframe limit handle st s = ⟨st, s, .oversized⟩ := by
  simp [deframe, deframeFuel, h]

theorem deframe_stop {st : σ} {s rest : List UInt8} {f : Frame}
    (h : scanFrame limit s = .frame f rest) (hstop : (handle st f).1 = false) :
    deframe limit handle st s = ⟨(handle st f).2, rest, .stopped⟩ := by
  simp [deframe, deframeFuel, h, hstop]

theorem deframe_frame {st : σ} {s rest : List UInt8} {f : Frame}
    (h : scanFrame limit s = .frame f rest) (hgo : (handle st f).1 = true) :
    deframe limit handle st s = deframe limit handle (handle st f).2 rest := by
  have hlt := scanFrame_frame_lt h
  rw [deframe, deframeFuel]
  simp only [h, hgo, if_true]
  exact deframeFuel_eq limit handle _ _ _ _ hlt (by omega)

variable (limit handle) in
theorem deframe_induct {motive : σ → List UInt8 → Prop}
    (incomplete : ∀ st s, scanFrame limit s = .incomplete → motive st s)
    (oversized : ∀ st s, scanFrame limit s = .oversized → motive st s)
    (stop : ∀ st s f rest, scanFrame limit s = .frame f rest → (handle st f).1 = false →
      motive st s)
    (frame : ∀ st s f rest, scanFrame limit s = .frame f rest → (handle st f).1 = true →
      motive (handle st f).2 rest → motive st s)
    (st : σ) (s : List UInt8) : motive st s := by
  induction hn : s.length using Nat.strong_induction_on generalizing st s with
  | _ n ih =>
      cases hscan : scanFrame limit s with
      | incomplete => exact incomplete st s hscan
      | oversized => exact oversized st s hscan
      | frame f rest =>
          have hlt := scanFrame_frame_lt hscan
          cases hgo : (handle st f).1 with
          | false => exact stop st s f rest hscan hgo
          | true => exact frame st s f rest hscan hgo (ih rest.length (by omega) _ _ rfl)

/-- A pass that ran out of input goes on with the next piece where it stood. -/
theorem deframe_append {st : σ} {s : List UInt8}
    (h : (deframe limit handle st s).pass = .starved) (t : List UInt8) :
    deframe limit handle st (s ++ t) =
      deframe limit handle (deframe limit handle st s).state
        ((deframe limit handle st s).rest ++ t) := by
  induction st, s using deframe_induct limit handle with
  | incomplete st s hscan => rw [deframe_incomplete hscan]
  | oversized st s hscan => simp [deframe_oversized hscan] at h
  | stop st s f rest hscan hstop => simp [deframe_stop hscan hstop] at h
  | frame st s f rest hscan hgo ih =>
      rw [deframe_frame hscan hgo] at h ⊢
      rw [deframe_frame (scanFrame_frame_append hscan t) hgo, ih h]

theorem deframe_append_of_ended {st : σ} {s : List UInt8}
    (h : (deframe limit handle st s).pass ≠ .starved) (t : List UInt8) :
    deframe limit handle st (s ++ t) =
      ⟨(deframe limit handle st s).state, (deframe limit handle st s).rest ++ t,
        (deframe limit handle st s).pass⟩ := by
  induction st, s using deframe_induct limit handle with
  | incomplete st s hscan => simp [deframe_incomplete hscan] at h
  | oversized st s hscan =>
      rw [deframe_oversized hscan, deframe_oversized (scanFrame_oversized_append hscan t)]
  | stop st s f rest hscan hstop =>
      rw [deframe_stop hscan hstop, deframe_stop (scanFrame_frame_append hscan t) hstop]
  | frame st s f rest hscan hgo ih =>
      rw [deframe_frame hscan hgo] at h ⊢
      rw [deframe_frame (scanFrame_frame_append hscan t) hgo, ih h]

theorem scanFrame_deframe_rest {st : σ} {s : List UInt8}
    (h : (deframe limit handle st s).pass = .starved) :
    scanFrame limit (deframe limit handle st s).rest = .incomplete := by
  induction st, s using deframe_induct limit handle with
  | incomplete st s hscan => simpa [deframe_incomplete hscan] using hscan
  | oversized st s hscan => simp [deframe_oversized hscan] at h
  | stop st s f rest hscan hstop => simp [deframe_stop hscan hstop] at h
  | frame st s f rest hscan hgo ih =>
      rw [deframe_frame hscan hgo] at h ⊢
      exact ih h

theorem deframe_rest_suffix (st : σ) (s : List UInt8) : (deframe limit handle st s).rest <:+ s := by
  induction st, s using deframe_induct limit handle with
  | incomplete st s hscan => simp [deframe_incomplete hscan]
  | oversized st s hscan => simp [deframe_oversized hscan]
  | stop st s f rest hscan hstop =>
      rw [deframe_stop hscan hstop]
      exact ⟨f.encode, (scanFrame_frame hscan).1.symm⟩
  | frame st s f rest hscan hgo ih =>
      rw [deframe_frame hscan hgo]
      exact ih.trans ⟨f.encode, (scanFrame_frame hscan).1.symm⟩

end Deframe

def parseFrames (limit : Nat) (s : List UInt8) : Deframed (List Frame) :=
  deframe limit (fun fs f => (true, fs ++ [f])) [] s

section ParseFrames

variable {limit : Nat}

private theorem deframe_collect (fs : List Frame) (s : List UInt8) :
    deframe limit (fun fs f => (true, fs ++ [f])) fs s =
      ⟨fs ++ (parseFrames limit s).state, (parseFrames limit s).rest,
        (parseFrames limit s).pass⟩ := by
  -- The frames met do not depend on those collected before, so the induction forgets them.
  suffices h : ∀ (_ : Unit) (s : List UInt8), ∀ fs, deframe limit _ fs s =
      ⟨fs ++ (parseFrames limit s).state, (parseFrames limit s).rest,
        (parseFrames limit s).pass⟩ from h () s fs
  intro u s
  induction u, s using deframe_induct limit (fun _ _ => (true, ())) with
  | incomplete u s hscan => simp [parseFrames, deframe_incomplete hscan]
  | oversized u s hscan => simp [parseFrames, deframe_oversized hscan]
  | stop u s f rest hscan hstop => cases hstop
  | frame u s f rest hscan _ ih =>
      intro fs
      rw [parseFrames, deframe_frame hscan rfl, deframe_frame hscan rfl, ih, ih]
      simp

theorem parseFrames_incomplete {s : List UInt8} (h : scanFrame limit s = .incomplete) :
    parseFrames limit s = ⟨[], s, .starved⟩ := deframe_incomplete h

theorem parseFrames_oversized {s : List UInt8} (h : scanFrame limit s = .oversized) :
    parseFrames limit s = ⟨[], s, .oversized⟩ := deframe_oversized h

theorem parseFrames_frame {s rest : List UInt8} {f : Frame}
    (h : scanFrame limit s = .frame f rest) :
    parseFrames limit s =
      ⟨f :: (parseFrames limit rest).state, (parseFrames limit rest).rest,
        (parseFrames limit rest).pass⟩ := by
  rw [parseFrames, deframe_frame h rfl]
  exact deframe_collect [f] rest

theorem parseFrames_encodeAll {fs : List Frame} (hlimit : ∀ f ∈ fs, f.body.length ≤ limit)
    (s : List UInt8) : (parseFrames limit (encodeAll fs ++ s)).state = fs ++ (parseFrames limit s).state := by
  induction fs with
  | nil => simp
  | cons f fs ih =>
    have hscan := scanFrame_encode (hlimit f (by simp)) (encodeAll fs ++ s)
    rw [encodeAll_cons, List.append_assoc, parseFrames_frame hscan,
      ih (fun g hg => hlimit g (by simp [hg])), List.cons_append]

theorem prefix_parseFrames (s t : List UInt8) :
    (parseFrames limit s).state <+: (parseFrames limit (s ++ t)).state := by
  by_cases hpass : (parseFrames limit s).pass = .starved
  · have happ := deframe_append hpass t
    rw [← parseFrames, ← parseFrames, deframe_collect] at happ
    rw [happ]
    exact List.prefix_append _ _
  · have happ := deframe_append_of_ended hpass t
    rw [← parseFrames, ← parseFrames] at happ
    rw [happ]

theorem deframe_invariant {σ : Type*} {handle : σ → Frame → Bool × σ} {P : σ → Prop} {st : σ}
    {s : List UInt8} (hst : P st)
    (hframe : ∀ f ∈ (parseFrames limit s).state, ∀ st, P st → P (handle st f).2) :
    P (deframe limit handle st s).state := by
  induction st, s using deframe_induct limit handle with
  | incomplete st s hscan => rwa [deframe_incomplete hscan]
  | oversized st s hscan => rwa [deframe_oversized hscan]
  | stop st s f rest hscan hstop =>
      rw [deframe_stop hscan hstop]
      exact hframe f (by rw [parseFrames_frame hscan]; exact List.mem_cons_self) st hst
  | frame st s f rest hscan hgo ih =>
      rw [parseFrames_frame hscan] at hframe
      rw [deframe_frame hscan hgo]
      exact ih (hframe f List.mem_cons_self st hst)
        fun g hg => hframe g (List.mem_cons_of_mem _ hg)

end ParseFrames

end PinpointAgent.Framework

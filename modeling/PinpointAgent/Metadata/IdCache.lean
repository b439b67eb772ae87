import Mathlib.Algebra.Ring.Nat
import Mathlib.Data.List.Infix
import Mathlib.Logic.Function.Basic
import PinpointAgent.Metadata.SpanSender

/-!
# What the identifiers say

Between two cleans a key has one identifier, different keys have different numbers in the whole
process, and a lookup trusts the cache only after a registration with just that identifier succeeded.
All of it rests on the kind of the cached value being that of its key, which also keeps every type
assertion from panicking.
-/

namespace PinpointAgent.Metadata

open Framework

/-- The identifier is of the kind that lookups of the key take out of the map. -/
def CachedId.Fits : CachedId → MetaKey → Prop
  | .int32 _, key => key.metaType ≠ .sqlUidApi
  | .bytes _, key => key.metaType = .sqlUidApi

section Lookup

variable {s : SpanSender} {key : MetaKey} {id : CachedId}

private theorem requestFor_spec (hid : s.idMap key = some id) (hfits : id.Fits key) :
    ∃ request, s.requestFor key = .ok request ∧ (∀ r, request = some r → r.Carries key id) ∧
      (request = none → ∃ code, key.metaType = .noSuchType code) := by
  cases id with
  | int32 n =>
    cases htype : key.metaType with
    | sqlUidApi => exact absurd htype hfits
    | _ => simp [SpanSender.requestFor, htype, hid, asInt32, Except.map, Registration.Carries]
  | bytes uid =>
    have htype : key.metaType = .sqlUidApi := hfits
    simp [SpanSender.requestFor, htype, hid, asBytes, Except.map, Registration.Carries]

/-- What an attempt to register `key` leaves. -/
structure Registers (s : SpanSender) (key : MetaKey) (id : CachedId) (outcome : Outcome)
    (sent : Option Registration) (s' : SpanSender) : Prop where
  idMap : s'.idMap = s.idMap
  carries : ∀ r, sent = some r → r.Carries key id
  sends : outcome ≠ .connectFailed → (∀ code, key.metaType ≠ .noSuchType code) → sent ≠ none
  pending : ∀ k, s'.pendingMeta k = false →
    s.pendingMeta k = false ∨ k = key ∧ outcome = .succeeded ∧ sent ≠ none

private theorem senderGrpcMetaData_spec (hid : s.idMap key = some id) (hfits : id.Fits key) (outcome : Outcome) :
    ∃ sent s', s.senderGrpcMetaData key outcome = .ok (sent, s') ∧ Registers s key id outcome sent s' := by
  obtain ⟨request, hrequest, hcarries, hnone⟩ := requestFor_spec hid hfits
  have hsends : (∀ code, key.metaType ≠ .noSuchType code) → request ≠ none := by
    intro hknown hempty
    obtain ⟨code, hcode⟩ := hnone hempty
    exact hknown code hcode
  cases outcome with
  | connectFailed =>
    exact ⟨none, s, rfl, rfl, nofun, fun hne => absurd rfl hne, fun _ => .inl⟩
  | requestFailed =>
    refine ⟨request, s, ?_, rfl, hcarries, fun _ => hsends, fun _ => .inl⟩
    simp only [SpanSender.senderGrpcMetaData, hrequest, Except.map]
  | succeeded =>
    refine ⟨request, if request.isSome then s.markConfirmed key else s, ?_, ?_, hcarries, fun _ => hsends, ?_⟩
    · simp only [SpanSender.senderGrpcMetaData, hrequest, Except.map]
    · split <;> rfl
    · intro k hk
      cases request with
      | none => exact .inl hk
      | some r =>
        by_cases heq : k = key
        · exact .inr ⟨heq, rfl, nofun⟩
        · refine .inl ?_
          simpa [SpanSender.markConfirmed, Function.update_of_ne heq] using hk

/-- What a lookup of `key` does to the sender, with what it returns. -/
structure Looked {α : Type} (wrap : α → CachedId) (fresh : α) (s : SpanSender) (key : MetaKey) (r : Lookup α)
    (s' : SpanSender) : Prop where
  idMap : s'.idMap = Function.update s.idMap key (some (wrap r.id))
  origin : s.idMap key = some (wrap r.id) ∧ r.allocated = false ∨
    s.idMap key = none ∧ r.allocated = true ∧ r.id = fresh
  trusted : r.registering = none → s.idMap key = some (wrap r.id) ∧ s.pendingMeta key = false
  carries : ∀ m, r.sent = some m → m.Carries key (wrap r.id)
  sends : ∀ outcome, r.registering = some outcome → outcome ≠ .connectFailed →
    (∀ code, key.metaType ≠ .noSuchType code) → r.sent ≠ none
  pending : ∀ k, s'.pendingMeta k = false → s.pendingMeta k = false ∧ (k = key → s.idMap key ≠ none) ∨
    k = key ∧ r.registering = some .succeeded ∧ r.sent ≠ none

theorem lookup_spec {α : Type} {assert : Option CachedId → Except Panic α} {wrap : α → CachedId} (fresh : α)
    (hassert : ∀ id : CachedId, id.Fits key → ∃ n, assert (some id) = .ok n ∧ wrap n = id)
    (hfresh : (wrap fresh).Fits key) (hkept : ∀ id, s.idMap key = some id → id.Fits key) (outcome : Outcome) :
    ∃ r s', s.lookup assert wrap fresh key outcome = .ok (r, s') ∧ Looked wrap fresh s key r s' := by
  cases hid : s.idMap key with
  | none =>
    have hassigned : (s.assign key (wrap fresh)).idMap key = some (wrap fresh) := Function.update_self ..
    obtain ⟨sent, s', hsend, hregisters⟩ := senderGrpcMetaData_spec hassigned hfresh outcome
    refine ⟨⟨fresh, true, some outcome, sent⟩, s', ?_, hregisters.idMap, .inr ⟨hid, rfl, rfl⟩, nofun,
      hregisters.carries, ?_, ?_⟩
    · simp only [SpanSender.lookup, hid, hsend]
      rfl
    · rintro _ ⟨⟩
      exact hregisters.sends
    · intro k hk
      obtain hold | ⟨heq, hsucceeded, hsent⟩ := hregisters.pending k hk
      · -- the entry of `key` itself was set to pending
        have hne : k ≠ key := by
          rintro rfl
          simp [SpanSender.assign] at hold
        refine .inl ⟨?_, fun heq => absurd heq hne⟩
        simpa [SpanSender.assign, Function.update_of_ne hne] using hold
      · exact .inr ⟨heq, congrArg some hsucceeded, hsent⟩
  | some id =>
    obtain ⟨n, hn, rfl⟩ := hassert id (hkept id hid)
    have hsame : Function.update s.idMap key (some (wrap n)) = s.idMap := by
      rw [← hid, Function.update_eq_self]
    cases hpending : s.pendingMeta key with
    | false =>
      refine ⟨⟨n, false, none, none⟩, s, ?_, hsame.symm, .inl ⟨hid, rfl⟩, fun _ => ⟨hid, hpending⟩, nofun,
        nofun, fun k hk => .inl ⟨hk, fun _ => by simp [hid]⟩⟩
      simp [SpanSender.lookup, hid, hpending, hn, Except.map]
    | true =>
      obtain ⟨sent, s', hsend, hregisters⟩ := senderGrpcMetaData_spec hid (hkept _ hid) outcome
      refine ⟨⟨n, false, some outcome, sent⟩, s', ?_, hregisters.idMap.trans hsame.symm, .inl ⟨hid, rfl⟩, nofun,
        hregisters.carries, ?_, ?_⟩
      · simp only [SpanSender.lookup, hid, hpending, hsend, Bool.not_true, Bool.false_eq_true, if_false]
        simp only [bind, Except.bind, hn]
        rfl
      · rintro _ ⟨⟩
        exact hregisters.sends
      · intro k hk
        obtain hold | ⟨heq, hsucceeded, hsent⟩ := hregisters.pending k hk
        · exact .inl ⟨hold, fun _ => by simp [hid]⟩
        · exact .inr ⟨heq, congrArg some hsucceeded, hsent⟩

end Lookup

/-- The registration of `key` with `id` that the lookup tried succeeded. -/
def Entry.Confirms {ι : Type} (e : Entry ι) (key : MetaKey) (id : CachedId) : Prop :=
  e.key = key ∧ e.registering = some .succeeded ∧ ∃ r, e.sent = some r ∧ r.Carries key id

/-- What a lookup may do after the lookups `recent` of its sender since the last clean. -/
structure Entry.Follows {ι : Type} (e : Entry ι) (recent : List (Entry ι)) : Prop where
  same : ∀ e' ∈ recent, e'.key = e.key → e'.id = e.id
  trusted : e.registering = none → ∃ e' ∈ recent, e'.Confirms e.key e.id
  sends : ∀ outcome, e.registering = some outcome → outcome ≠ .connectFailed →
    (∀ code, e.key.metaType ≠ .noSuchType code) → ∃ r, e.sent = some r ∧ r.Carries e.key e.id

structure SenderOk {ι : Type} (s : SpanSender) (recent : List (Entry ι)) : Prop where
  fits : ∀ key id, s.idMap key = some id → id.Fits key
  yields : ∀ e ∈ recent, s.idMap e.key = some e.id
  confirmed : ∀ key id, s.idMap key = some id → s.pendingMeta key = false → ∃ e ∈ recent, e.Confirms key id

private theorem senderOk_new {ι : Type} : SenderOk SpanSender.new ([] : List (Entry ι)) :=
  ⟨nofun, fun _ he => absurd he List.not_mem_nil, nofun⟩

section Sender

variable {ι α : Type} {s s' : SpanSender} {recent : List (Entry ι)} {key : MetaKey} {wrap : α → CachedId}
  {fresh : α} {r : Lookup α}

private abbrev entryOf (i : ι) (key : MetaKey) (wrap : α → CachedId) (r : Lookup α) : Entry ι :=
  ⟨i, key, wrap r.id, r.registering, r.sent⟩

private theorem SenderOk.follows (h : SenderOk s recent) (hlooked : Looked wrap fresh s key r s') (i : ι) :
    (entryOf i key wrap r).Follows recent := by
  refine ⟨fun e' he' hkey => ?_, fun hnone => ?_, fun outcome houtcome hconnected hknown => ?_⟩
  · have hyields := h.yields e' he'
    rw [hkey] at hyields
    obtain ⟨hold, -⟩ | ⟨hold, -⟩ := hlooked.origin
    · exact Option.some.inj (hyields.symm.trans hold)
    · exact absurd (hyields.symm.trans hold) nofun
  · obtain ⟨hid, hpending⟩ := hlooked.trusted hnone
    exact h.confirmed key _ hid hpending
  · obtain ⟨m, hm⟩ := Option.ne_none_iff_exists'.1 (hlooked.sends outcome houtcome hconnected hknown)
    exact ⟨m, hm, hlooked.carries m hm⟩

private theorem SenderOk.looked (h : SenderOk s recent) (hlooked : Looked wrap fresh s key r s')
    (hfits : (wrap r.id).Fits key) (i : ι) : SenderOk s' (entryOf i key wrap r :: recent) := by
  have hself : s'.idMap key = some (wrap r.id) := by rw [hlooked.idMap, Function.update_self]
  have hother (k : MetaKey) (hne : k ≠ key) : s'.idMap k = s.idMap k := by
    rw [hlooked.idMap, Function.update_of_ne hne]
  -- whatever the map had before, it still has
  have hkept (k : MetaKey) (id : CachedId) (hid : s.idMap k = some id) : s'.idMap k = some id := by
    by_cases hne : k = key
    · subst hne
      obtain ⟨hold, -⟩ | ⟨hold, -⟩ := hlooked.origin
      · rw [hself, ← hold, hid]
      · exact absurd (hid.symm.trans hold) nofun
    · rw [hother k hne, hid]
  refine ⟨fun k id hid => ?_, fun e he => ?_, fun k id hid hpending => ?_⟩
  · by_cases hne : k = key
    · subst hne
      rw [hself] at hid
      exact Option.some.inj hid ▸ hfits
    · exact h.fits k id (hother k hne ▸ hid)
  · obtain rfl | hold := List.mem_cons.1 he
    · exact hself
    · exact hkept _ _ (h.yields e hold)
  · obtain ⟨hold, hknown⟩ | ⟨rfl, hsucceeded, hsent⟩ := hlooked.pending k hpending
    · have hid' : s.idMap k = some id := by
        by_cases hne : k = key
        · obtain ⟨id', hid'⟩ := Option.ne_none_iff_exists'.1 (hknown hne)
          have hsame : some id' = some id := (hkept key id' hid').symm.trans (hne ▸ hid)
          rw [hne, hid', hsame]
        · exact hother k hne ▸ hid
      obtain ⟨e, he, hconfirms⟩ := h.confirmed k id hid' hold
      exact ⟨e, List.mem_cons_of_mem _ he, hconfirms⟩
    · obtain ⟨m, hm⟩ := Option.ne_none_iff_exists'.1 hsent
      refine ⟨_, List.mem_cons_self, rfl, hsucceeded, m, hm, ?_⟩
      rw [hself] at hid
      exact Option.some.inj hid ▸ hlooked.carries m hm

end Sender

namespace Process

variable {ι : Type} {p : Process ι}

/-- `n` is the number that `key` took: the counter starts at 1 and is added to before each use. -/
def Numbers (p : Process ι) (key : MetaKey) (n : Int32) : Prop :=
  ∃ j, p.allocated[j]? = some key ∧ n = Int32.ofNat (j + 2)

theorem Numbers.key_eq (hcount : p.allocated.length < 2 ^ 31) {key key' : MetaKey} {n : Int32}
    (h : p.Numbers key n) (h' : p.Numbers key' n) : key = key' := by
  obtain ⟨j, hkey, rfl⟩ := h
  obtain ⟨j', hkey', hn⟩ := h'
  have hj := (List.getElem?_eq_some_iff.1 hkey).1
  have hj' := (List.getElem?_eq_some_iff.1 hkey').1
  have hsame : j = j' := by
    have hbits := congrArg (fun n : Int32 => n.toBitVec.toNat) hn
    simp only [Int32.toBitVec_ofNat', BitVec.toNat_ofNat] at hbits
    omega
  rw [hsame] at hkey
  exact Option.some.inj (hkey.symm.trans hkey')

private theorem Numbers.mono {q : Process ι} (h : p.allocated <+: q.allocated) {key : MetaKey} {n : Int32}
    (hn : p.Numbers key n) : q.Numbers key n := by
  obtain ⟨j, hkey, hn⟩ := hn
  obtain ⟨more, hmore⟩ := h
  refine ⟨j, ?_, hn⟩
  rw [← hmore, List.getElem?_append_left (List.getElem?_eq_some_iff.1 hkey).1, hkey]

variable [DecidableEq ι]

structure Consistent (p : Process ι) : Prop where
  senders : ∀ i, SenderOk (p.senders i) (sinceClean i p.history)
  count : p.uniqueIdCount = Int32.ofNat (p.allocated.length + 1)
  cached : ∀ i key n, (p.senders i).idMap key = some (.int32 n) → p.Numbers key n
  returned : ∀ e n, .looked e ∈ p.history → e.id = .int32 n → p.Numbers e.key n
  kinds : ∀ e, .looked e ∈ p.history → e.id.Fits e.key
  follows : ∀ newer e older, p.history = newer ++ .looked e :: older → e.Follows (sinceClean e.sender older)

private theorem consistent_new : (new : Process ι).Consistent :=
  ⟨fun _ => senderOk_new, rfl, nofun, fun _ _ he => absurd he List.not_mem_nil,
    fun _ he => absurd he List.not_mem_nil, fun newer e older h => absurd h (by simp [new])⟩

section Steps

variable {α : Type} {i : ι} {key : MetaKey} {wrap : α → CachedId} {fresh : α} {r : Lookup α} {s' : SpanSender}

theorem Consistent.looked {q : Process ι} (h : p.Consistent) (hlooked : Looked wrap fresh (p.senders i) key r s')
    (hfits : (wrap r.id).Fits key) (hsenders : q.senders = (p.note i key wrap r s').senders)
    (hhistory : q.history = (p.note i key wrap r s').history) (hgrows : p.allocated <+: q.allocated)
    (hcount : q.uniqueIdCount = Int32.ofNat (q.allocated.length + 1))
    (hnumber : ∀ n, wrap r.id = .int32 n → q.Numbers key n) : q.Consistent := by
  have hsender (j : ι) : q.senders j = if j = i then s' else p.senders j := by
    rw [hsenders, note]
    simp only [Function.update_apply]
  have hrecent (j : ι) : sinceClean j q.history =
      if j = i then entryOf i key wrap r :: sinceClean i p.history else sinceClean j p.history := by
    rw [hhistory, note, sinceClean]
    by_cases hji : j = i
    · rw [if_pos hji, hji, if_pos rfl]
    · rw [if_neg hji, if_neg (Ne.symm hji)]
  refine ⟨fun j => ?_, hcount, fun j k n hid => ?_, fun e n he hid => ?_, fun e he => ?_,
    fun newer e older hsplit => ?_⟩
  · rw [hsender, hrecent]
    split
    · exact (h.senders i).looked hlooked hfits i
    · exact h.senders j
  · rw [hsender] at hid
    split at hid
    · rw [hlooked.idMap] at hid
      by_cases hne : k = key
      · rw [hne, Function.update_self] at hid
        exact hne ▸ hnumber n (Option.some.inj hid)
      · rw [Function.update_of_ne hne] at hid
        exact (h.cached i k n hid).mono hgrows
    · exact (h.cached j k n hid).mono hgrows
  · rw [hhistory, note] at he
    obtain heq | hold := List.mem_cons.1 he
    · cases heq
      exact hnumber n hid
    · exact (h.returned e n hold hid).mono hgrows
  · rw [hhistory, note] at he
    obtain heq | hold := List.mem_cons.1 he
    · cases heq
      exact hfits
    · exact h.kinds e hold
  · rw [hhistory, note] at hsplit
    cases newer with
    | nil =>
      cases hsplit
      exact (h.senders i).follows hlooked i
    | cons first newer =>
      exact h.follows newer e older (List.cons.inj hsplit).2

private theorem Consistent.cleaned (h : p.Consistent) (i : ι) :
    Consistent { p with
      senders := Function.update p.senders i (p.senders i).cleanAllMetaData
      history := .cleaned i :: p.history } := by
  have hsender (j : ι) : Function.update p.senders i (p.senders i).cleanAllMetaData j =
      if j = i then .new else p.senders j := Function.update_apply ..
  refine ⟨fun j => ?_, h.count, fun j k n hid => ?_, fun e n he hid => ?_, fun e he => ?_,
    fun newer e older hsplit => ?_⟩
  · dsimp only
    rw [hsender, sinceClean]
    by_cases hji : j = i
    · rw [if_pos hji, if_pos hji.symm]
      exact senderOk_new
    · rw [if_neg hji, if_neg (Ne.symm hji)]
      exact h.senders j
  · dsimp only at hid
    rw [hsender] at hid
    split at hid
    · cases hid
    · exact h.cached j k n hid
  · exact h.returned e n ((List.mem_cons.1 he).resolve_left nofun) hid
  · exact h.kinds e ((List.mem_cons.1 he).resolve_left nofun)
  · cases newer with
    | nil => cases hsplit
    | cons first newer => exact h.follows newer e older (List.cons.inj hsplit).2

theorem asInt32_fits (hkey : key.metaType ≠ .sqlUidApi) (id : CachedId) (hfits : id.Fits key) :
    ∃ n, asInt32 (some id) = .ok n ∧ CachedId.int32 n = id := by
  cases id with
  | int32 n => exact ⟨n, rfl, rfl⟩
  | bytes uid => exact absurd hfits hkey

theorem asBytes_fits (hkey : key.metaType = .sqlUidApi) (id : CachedId) (hfits : id.Fits key) :
    ∃ uid, asBytes (some id) = .ok uid ∧ CachedId.bytes uid = id := by
  cases id with
  | int32 n => exact absurd hkey hfits
  | bytes uid => exact ⟨uid, rfl, rfl⟩

private theorem Consistent.step (h : p.Consistent) (hash : String → List UInt8) {call : Call ι} (htyped : call.Typed) :
    ∃ q, p.step hash call = some q ∧ q.Consistent := by
  cases call with
  | cleanAllMetaData i => exact ⟨_, rfl, h.cleaned i⟩
  | getSqlUidMetaApiId i name outcome =>
    have hkey : (MetaKey.mk .sqlUidApi name).metaType = .sqlUidApi := rfl
    obtain ⟨r, s', hlookup, hlooked⟩ := lookup_spec (hash name) (asBytes_fits hkey) hkey
      ((h.senders i).fits ⟨.sqlUidApi, name⟩) outcome
    refine ⟨p.note i ⟨.sqlUidApi, name⟩ .bytes r s', ?_, ?_⟩
    · simp only [Process.step, SpanSender.getSqlUidMetaApiId, hlookup]
    · exact h.looked hlooked rfl rfl rfl (List.prefix_refl _) h.count nofun
  | getMetaApiId i name metaType outcome =>
    have hkey : (MetaKey.mk metaType name).metaType ≠ .sqlUidApi := htyped
    obtain ⟨r, s', hlookup, hlooked⟩ := lookup_spec (p.uniqueIdCount + 1) (asInt32_fits hkey) hkey
      ((h.senders i).fits ⟨metaType, name⟩) outcome
    have hstep : p.step hash (.getMetaApiId i name metaType outcome) =
        some (if r.allocated then { p.note i ⟨metaType, name⟩ .int32 r s' with
          uniqueIdCount := p.uniqueIdCount + 1, allocated := p.allocated ++ [⟨metaType, name⟩] }
        else p.note i ⟨metaType, name⟩ .int32 r s') := by
      simp only [Process.step, SpanSender.getMetaApiId, hlookup]
    obtain ⟨hold, hallocated⟩ | ⟨-, hallocated, hfresh⟩ := hlooked.origin
    · rw [hallocated, if_neg Bool.false_ne_true] at hstep
      refine ⟨_, hstep, h.looked hlooked hkey rfl rfl (List.prefix_refl _) h.count ?_⟩
      rintro n ⟨⟩
      exact h.cached i _ _ hold
    · rw [hallocated, if_pos rfl] at hstep
      have hcount : p.uniqueIdCount + 1 = Int32.ofNat (p.allocated.length + 2) := by
        rw [h.count]
        exact (Int32.ofNat_add _ 1).symm
      refine ⟨_, hstep, h.looked hlooked hkey rfl rfl (List.prefix_append _ _) ?_ ?_⟩
      · rw [hcount, List.length_append]
        rfl
      · rintro n ⟨⟩
        exact ⟨p.allocated.length, List.getElem?_concat_length, hfresh.trans hcount⟩

private theorem Consistent.exec (h : p.Consistent) (hash : String → List UInt8) {calls : List (Call ι)}
    (htyped : ∀ call ∈ calls, call.Typed) : ∃ q, Framework.exec (Process.step hash) p calls = some q ∧ q.Consistent := by
  induction calls generalizing p with
  | nil => exact ⟨p, rfl, h⟩
  | cons call calls ih =>
    obtain ⟨q, hq, hconsistent⟩ := h.step hash (htyped call List.mem_cons_self)
    obtain ⟨final, hfinal, hend⟩ := ih hconsistent fun other hother => htyped other (List.mem_cons_of_mem _ hother)
    exact ⟨final, Option.bind_eq_some_iff.2 ⟨q, hq, hfinal⟩, hend⟩

end Steps

/-- For every sequence of lookups and cleans on any senders in which `getMetaApiId` is not asked for the
type of SQL statements, and with any outcome of the registrations: no lookup panics; each one returns the
identifier that its key has had since the last clean of the sender, and skips the registration only if
one with that identifier, name and type succeeded since then; and lookups of different keys with
`getMetaApiId`, on whatever sender, return different numbers. -/
theorem metadata_ids_consistent (hash : String → List UInt8) (calls : List (Call ι))
    (htyped : ∀ call ∈ calls, call.Typed) :
    ∃ p, exec (step hash) new calls = some p ∧
      (∀ newer e older, p.history = newer ++ .looked e :: older →
        (∀ e' ∈ sinceClean e.sender older, e'.key = e.key → e'.id = e.id) ∧
        (e.registering = none → ∃ e' ∈ sinceClean e.sender older, e'.Confirms e.key e.id) ∧
        ∀ outcome, e.registering = some outcome → outcome ≠ .connectFailed →
          (∀ code, e.key.metaType ≠ .noSuchType code) → ∃ r, e.sent = some r ∧ r.Carries e.key e.id) ∧
      (p.allocated.length < 2 ^ 31 → ∀ e e', .looked e ∈ p.history → .looked e' ∈ p.history →
        e.key.metaType ≠ .sqlUidApi → e'.key.metaType ≠ .sqlUidApi → e.key ≠ e'.key → e.id ≠ e'.id) := by
  obtain ⟨p, hrun, h⟩ := consistent_new.exec hash htyped
  refine ⟨p, hrun, fun newer e older hsplit => ?_, fun hcount e e' he he' hkey _ hne hid => ?_⟩
  · have hfollows := h.follows newer e older hsplit
    exact ⟨hfollows.same, hfollows.trusted, hfollows.sends⟩
  · obtain ⟨n, -, hn⟩ := asInt32_fits hkey e.id (h.kinds e he)
    have hnumber := h.returned e n he hn.symm
    have hnumber' := h.returned e' n he' (hid.symm.trans hn.symm)
    exact hne (hnumber.key_eq hcount hnumber')

/-- A registration that fails, one that succeeds, and a lookup that needs none. -/
theorem metadata_ids_consistent_retry :
    ∃ p : Process Unit, exec (step fun _ => []) new [.getMetaApiId () "retry-me" .defaultApi .connectFailed,
        .getMetaApiId () "retry-me" .defaultApi .succeeded, .getMetaApiId () "retry-me" .defaultApi .connectFailed,
        .getSqlUidMetaApiId () "retry-me" .succeeded] = some p ∧
      ∀ newer e older, p.history = newer ++ .looked e :: older → e.registering = none →
        ∃ e' ∈ sinceClean e.sender older, e'.Confirms e.key e.id := by
  obtain ⟨p, hrun, hhistory, -⟩ := metadata_ids_consistent (ι := Unit) (fun _ => [])
    [.getMetaApiId () "retry-me" .defaultApi .connectFailed, .getMetaApiId () "retry-me" .defaultApi .succeeded,
      .getMetaApiId () "retry-me" .defaultApi .connectFailed, .getSqlUidMetaApiId () "retry-me" .succeeded]
    (by decide)
  exact ⟨p, hrun, fun newer e older hsplit => (hhistory newer e older hsplit).2.1⟩

/-- Asked for the type of SQL statements, `getMetaApiId` puts a number where the registration expects
bytes. -/
theorem sql_type_panics :
    exec (step fun _ => []) (new : Process Unit) [.getMetaApiId () "SELECT 1" .sqlUidApi .succeeded] = none ∧
      (SpanSender.new.getMetaApiId 1 "SELECT 1" .sqlUidApi .succeeded) =
        .error (.interfaceConversion (some (.int32 2))) :=
  ⟨rfl, rfl⟩

end Process

end PinpointAgent.Metadata

import D3OS.Ibverbs.CompletionQueue
import D3OS.Ibverbs.Completions

/-!
# The card and a completion queue

The card is a producer: it marks its entries with the parity of its pass over the ring and stays
within one ring of the consumer index that was published last. Polls are the consumer. The state
records all entries that were produced and all completions that polls returned; the other calls
of the library may do anything to the queue pairs in between.
-/

namespace D3OS.Ibverbs

open Lib

/-- The opcode says what has completed. -/
def CompletionQueueEntry.parsable (cqe : CompletionQueueEntry) : Bool :=
  cqe.opcode == cqeOpcodeError ||
    if cqe.isSend then (QueuePairOpcode.fromRepr cqe.opcode).isSome
    else (ReceiveOpcode.fromRepr cqe.opcode).any (· != .sendInval)

/-- The entries can be turned into completions one after the other: the queue pairs can be told,
and an entry that belongs to a request has a good opcode. -/
def Completable (mode : Overflow) : Context → List CompletionQueueEntry → Prop
  | _, [] => True
  | qps, cqe :: cqes =>
    match qps.resolveCompletion mode cqe.qpNumber cqe.wqeIndex.toNat cqe.isSend with
    | .error _ => False
    | .ok (wrId, qps) => (wrId = none ∨ cqe.parsable = true) ∧ Completable mode qps cqes

instance Completable.decidable (mode : Overflow) (qps : Context)
    (cqes : List CompletionQueueEntry) : Decidable (Completable mode qps cqes) :=
  match cqes with
  | [] => .isTrue trivial
  | cqe :: cqes =>
    match h : qps.resolveCompletion mode cqe.qpNumber cqe.wqeIndex.toNat cqe.isSend with
    | .error _ => .isFalse (by rw [Completable, h]; exact id)
    | .ok (wrId, qps') =>
      have := Completable.decidable mode qps' cqes
      decidable_of_iff ((wrId = none ∨ cqe.parsable = true) ∧ Completable mode qps' cqes)
        (by rw [Completable, h])

/-- The completions of the entries, one after the other, from the queue pairs that are given. -/
def Completes (mode : Overflow) (qps : Context) (cqes : List CompletionQueueEntry)
    (wcs : List WorkCompletion) (qps' : Context) : Prop :=
  cqes.mapM (CompletionQueueEntry.completion mode) qps = .ok wcs qps'

namespace CompletionQueue

/-- The entries that a poll takes can be turned into completions, and with overflow checks the
consumer index does not overflow. -/
def Takes (mode : Overflow) (cq : CompletionQueue) (qps : Context)
    (outstanding : List CompletionQueueEntry) (len : Nat) : Prop :=
  Completable mode qps (outstanding.take len) ∧
    (mode = .panics → cq.consumerIndex + min len outstanding.length < 2 ^ 32)

/-- A completion queue that the card and polls share. -/
structure System where
  cq : CompletionQueue
  qps : Context
  produced : List CompletionQueueEntry
  published : Nat
  returned : List WorkCompletion

/-- A write of the card, a poll with a slice of some length, or what other calls do. -/
inductive Event where
  | produce (cqe : CompletionQueueEntry)
  | poll (len : Nat)
  | others (qps : Context)

namespace System

/-- The system behind `create`. -/
def init (cq : CompletionQueue) (qps : Context) : System := ⟨cq, qps, [], 0, []⟩

/-- The index that was published, told from the movement of the stored one. -/
def publishedAfter (published consumerIndex : Nat) : Nat :=
  published + (consumerIndex + 2 ^ 32 - published % 2 ^ 32) % 2 ^ 32

/-- The system after an event. The card does not write when it is one ring ahead. -/
def step (mode : Overflow) (s : System) : Event → Except Panic System
  | .produce cqe =>
    if s.produced.length < s.published + s.cq.numEntries then
      let cqe := { cqe with owner := passParity s.cq.numEntries s.produced.length }
      .ok { s with
        cq := { s.cq with
          entries := Function.update s.cq.entries (s.produced.length % s.cq.numEntries) cqe }
        produced := s.produced ++ [cqe] }
    else .ok s
  | .poll len =>
    match CompletionQueue.poll mode len (s.cq, s.qps) with
    | .ok wcs (cq, qps) => .ok { s with
        cq := cq
        qps := qps
        published := publishedAfter s.published cq.consumerIndex
        returned := s.returned ++ wcs }
    | .error (.err _) (cq, qps) => .ok { s with cq := cq, qps := qps }
    | .error (.panic reason) _ => .error reason
  | .others qps => .ok { s with qps := qps }

instance (mode : Overflow) (cq : CompletionQueue) (qps : Context)
    (outstanding : List CompletionQueueEntry) (len : Nat) :
    Decidable (Takes mode cq qps outstanding len) :=
  inferInstanceAs (Decidable (_ ∧ _))

/-- A poll has everything that it needs. -/
def Pollable (mode : Overflow) (s : System) : Event → Prop
  | .poll len => Takes mode s.cq s.qps (s.produced.drop s.returned.length) len
  | _ => True

/-- A poll returns the completions of the oldest entries that were not returned yet, as the queue
pairs that it had tell them; no other event returns any. -/
def Delivers (mode : Overflow) (s : System) : Event → System → Prop
  | .poll len, s' => ∃ wcs, s'.returned = s.returned ++ wcs ∧
      Completes mode s.qps ((s.produced.drop s.returned.length).take len) wcs s'.qps
  | _, s' => s'.returned = s.returned

end System

instance (mode : Overflow) (s : System) (e : Event) : Decidable (System.Pollable mode s e) := by
  cases e <;> unfold System.Pollable <;> infer_instance

section

variable {mode : Overflow} {cq : CompletionQueue} {qps : Context} {cqe : CompletionQueueEntry}
  {produced : List CompletionQueueEntry} {r : Nat}

private theorem sendCompletion_yields (wrId : UInt64) :
    Yields (cqe.sendCompletion wrId) (fun _ ↦ (QueuePairOpcode.fromRepr cqe.opcode).isSome = true)
      fun _ ↦ (QueuePairOpcode.fromRepr cqe.opcode).isSome = false := by
  unfold CompletionQueueEntry.sendCompletion
  cases QueuePairOpcode.fromRepr cqe.opcode with
  | none => rfl
  | some opcode => cases opcode <;> rfl

private theorem receiveCompletion_yields (wrId : UInt64) :
    Yields (cqe.receiveCompletion wrId)
      (fun _ ↦ (ReceiveOpcode.fromRepr cqe.opcode).any (· != .sendInval) = true)
      fun _ ↦ (ReceiveOpcode.fromRepr cqe.opcode).any (· != .sendInval) = false := by
  unfold CompletionQueueEntry.receiveCompletion
  cases ReceiveOpcode.fromRepr cqe.opcode with
  | none => rfl
  | some opcode => cases opcode <;> rfl

private theorem completion_ends (mode : Overflow) (cqe : CompletionQueueEntry) (qps : Context) :
    Ends (cqe.completion mode) qps
      (fun _ qps' ↦ ∃ wrId, qps.resolveCompletion mode cqe.qpNumber cqe.wqeIndex.toNat cqe.isSend =
        .ok (wrId, qps') ∧ (wrId = none ∨ cqe.parsable = true))
      fun _ _ ↦ ∀ wrId qps', qps.resolveCompletion mode cqe.qpNumber cqe.wqeIndex.toNat cqe.isSend =
        .ok (wrId, qps') → ¬ (wrId = none ∨ cqe.parsable = true) := by
  unfold CompletionQueueEntry.completion
  simp only [ends_bind, ends_get, ends_lift, yields_orPanic]
  refine ⟨?_, fun reason hreason wrId qps' hok ↦ ?_⟩
  · rintro ⟨wrId, qps'⟩ hresolve
    rw [hresolve]
    cases wrId with
    | none => exact ⟨none, rfl, .inl rfl⟩
    | some wrId =>
      simp only [ends_ite, ends_pure, ends_lift]
      refine ⟨fun herr ↦ ⟨some wrId, rfl, .inr ?_⟩, fun hne ↦ ⟨fun hsend ↦ ?_, fun hsend ↦ ?_⟩⟩
      · simp [CompletionQueueEntry.parsable, herr]
      · refine (sendCompletion_yields wrId).mono (fun _ h ↦ ⟨some wrId, rfl, .inr ?_⟩) ?_
        · simp [CompletionQueueEntry.parsable, hsend, h]
        · rintro _ h _ _ hok
          cases hok
          simp [CompletionQueueEntry.parsable, hsend, hne, h]
      · refine (receiveCompletion_yields wrId).mono (fun _ h ↦ ⟨some wrId, rfl, .inr ?_⟩) ?_
        · simp [CompletionQueueEntry.parsable, hsend, h]
        · rintro _ h _ _ hok
          cases hok
          simp [CompletionQueueEntry.parsable, hsend, hne, h]
  · rw [hreason] at hok
    cases hok

private theorem numEntries_eq (cq : CompletionQueue) : cq.numEntries = 2 ^ Nat.log2 cq.numEntries :=
  (two_pow_log2 cq.powerOfTwo).symm

private theorem numEntries_pos (cq : CompletionQueue) : 0 < cq.numEntries := by
  rw [cq.numEntries_eq]
  exact Nat.two_pow_pos _

private theorem and_mask (cq : CompletionQueue) (index : Nat) :
    index &&& (cq.numEntries - 1) = index % cq.numEntries := by
  rw [cq.numEntries_eq, Nat.and_two_pow_sub_one_eq_mod]

private theorem two_mul_dvd (h : cq.numEntries ≤ 2 ^ 31) : 2 * cq.numEntries ∣ 2 ^ 32 := by
  rw [cq.numEntries_eq] at h ⊢
  rw [Nat.mul_comm, ← Nat.pow_succ]
  exact Nat.pow_dvd_pow 2 (Nat.succ_le_succ ((Nat.pow_le_pow_iff_right (by decide)).mp h))

private theorem getCqeSw_eq
    (hring : HoldsLast cq.numEntries CompletionQueueEntry.owner cq.entries produced)
    (hcnt : cq.numEntries ≤ 2 ^ 31) (hindex : cq.consumerIndex = r % 2 ^ 32)
    (hle : r ≤ produced.length) (hlen : produced.length ≤ r + cq.numEntries) :
    cq.getCqeSw cq.consumerIndex = produced[r]? := by
  have hdvd := two_mul_dvd hcnt
  have hslot : cq.consumerIndex % cq.numEntries = r % cq.numEntries := by
    rw [hindex, slot_stored (Nat.dvd_trans (Nat.dvd_mul_left _ 2) hdvd)]
  have hparity : cq.consumerIndex / cq.numEntries &&& 1 = passParity cq.numEntries r := by
    rw [Nat.and_one_is_mod, hindex, ← passParity_stored hdvd r]
    rfl
  have hiff := hring.owner_eq_iff cq.numEntries_pos hle hlen
  rw [getCqeSw, and_mask, hslot, hparity]
  by_cases hlt : r < produced.length
  · rw [if_neg (not_not.mpr (hiff.mpr hlt)), List.getElem?_eq_getElem hlt,
      hring.last r _ (List.getElem?_eq_getElem hlt) hlen]
  · rw [if_pos (mt hiff.mp hlt), List.getElem?_eq_none (Nat.not_lt.mp hlt)]

private theorem takes_cons {outstanding : List CompletionQueueEntry} {len : Nat} :
    Takes mode cq qps (cqe :: outstanding) (len + 1) ↔ ∃ wrId qps',
      qps.resolveCompletion mode cqe.qpNumber cqe.wqeIndex.toNat cqe.isSend = .ok (wrId, qps') ∧
      (wrId = none ∨ cqe.parsable = true) ∧
      Completable mode qps' (outstanding.take len) ∧
      (mode = .panics → cq.consumerIndex + 1 + min len outstanding.length < 2 ^ 32) := by
  have hmin : cq.consumerIndex + min (len + 1) (outstanding.length + 1) =
      cq.consumerIndex + 1 + min len outstanding.length := by omega
  rw [Takes, List.take_succ_cons, Completable, List.length_cons, hmin]
  cases qps.resolveCompletion mode cqe.qpNumber cqe.wqeIndex.toNat cqe.isSend with
  | error reason => simp
  | ok out =>
    obtain ⟨wrId, qps'⟩ := out
    simp [and_assoc]

private theorem completes_cons {cqes : List CompletionQueueEntry} {wc : WorkCompletion}
    {wcs : List WorkCompletion} {qps' qps'' : Context}
    (h : CompletionQueueEntry.completion mode cqe qps = .ok wc qps')
    (hrest : Completes mode qps' cqes wcs qps'') :
    Completes mode qps (cqe :: cqes) (wc :: wcs) qps'' := by
  rw [Completes, List.mapM_cons]
  simp only [bind, EStateM.bind, h]
  rw [show cqes.mapM (CompletionQueueEntry.completion mode) qps' = .ok wcs qps'' from hrest]
  rfl

private theorem noneTaken (hindex : cq.consumerIndex = r % 2 ^ 32)
    (outstanding : List CompletionQueueEntry) {len : Nat}
    (hcount : 0 = min len outstanding.length)
    (hcompletable : Completable mode qps (outstanding.take len)) :
    0 = min len outstanding.length ∧ cq = { cq with consumerIndex := (r + 0) % 2 ^ 32 } ∧
      Completes mode qps (outstanding.take len) [] qps ∧ Takes mode cq qps outstanding len := by
  refine ⟨hcount, ?_, ?_, hcompletable, fun _ ↦ ?_⟩
  · rw [Nat.add_zero, ← hindex]
  · rw [List.eq_nil_of_length_eq_zero (List.length_take.trans hcount.symm)]
    rfl
  · rw [← hcount, hindex]
    exact Nat.mod_lt _ (by decide)

variable (hring : HoldsLast cq.numEntries CompletionQueueEntry.owner cq.entries produced)
  (hcnt : cq.numEntries ≤ 2 ^ 31) (hindex : cq.consumerIndex = r % 2 ^ 32)
  (hle : r ≤ produced.length) (hlen : produced.length ≤ r + cq.numEntries)
include hring hcnt hindex hle hlen

private theorem pollLoop_ends (len : Nat) :
    Ends (pollLoop mode len) (cq, qps)
      (fun wcs s' ↦ wcs.length = min len (produced.drop r).length ∧
        s'.1 = { cq with consumerIndex := (r + wcs.length) % 2 ^ 32 } ∧
        Completes mode qps ((produced.drop r).take len) wcs s'.2 ∧
        Takes mode cq qps (produced.drop r) len)
      fun _ _ ↦ ¬ Takes mode cq qps (produced.drop r) len := by
  induction len generalizing cq qps r with
  | zero => exact noneTaken hindex _ (Nat.zero_min _).symm trivial
  | succ len ih =>
    rw [pollLoop]
    simp only [ends_bind, ends_get]
    rw [getCqeSw_eq hring hcnt hindex hle hlen]
    cases hget : produced[r]? with
    | none =>
      have hnil : produced.drop r = [] :=
        List.drop_eq_nil_iff.mpr (List.getElem?_eq_none_iff.mp hget)
      rw [hnil]
      exact noneTaken hindex _ rfl trivial
    | some cqe =>
      obtain ⟨hr, rfl⟩ := List.getElem?_eq_some_iff.mp hget
      rw [List.drop_eq_getElem_cons hr, takes_cons]
      simp only [ends_bind, ends_zoom]
      refine ends_of_eq (fun wc qps' hcompletion ↦ ?_) fun e qps' hcompletion ↦ ?_
      · obtain ⟨wrId, hresolve, hgood⟩ := (completion_ends mode _ qps).of_ok hcompletion
        simp only [ends_lift, yields_orPanic, ends_modify, ends_pure]
        refine ⟨fun index hadd ↦ ?_, fun reason hadd ↦ ?_⟩
        · obtain ⟨hindex', hfits⟩ := Overflow.add_eq_ok.mp hadd
          have hnext : index = (r + 1) % 2 ^ 32 := by
            rw [← hindex', hindex, Nat.mod_add_mod]
          have hstored : mode = .panics → index = cq.consumerIndex + 1 := fun hmode ↦ by
            rw [← hindex', Nat.mod_eq_of_lt (hfits hmode)]
          have hlen' : produced.length ≤ r + 1 + cq.numEntries := by omega
          have hrest : Ends (pollLoop mode len) ({ cq with consumerIndex := index }, qps') _ _ :=
            ih hring hcnt hnext hr hlen'
          refine hrest.mono ?_ ?_
          · rintro wcs s' ⟨hcount, hcq, hcompletes, hcompletable, hbound⟩
            refine ⟨?_, ?_, completes_cons hcompletion hcompletes, wrId, qps', hresolve, hgood,
              hcompletable, fun hmode ↦ ?_⟩
            · rw [List.length_cons, List.length_cons, hcount]
              omega
            · rw [hcq, List.length_cons, show r + (wcs.length + 1) = r + 1 + wcs.length by omega]
            · have := hbound hmode
              rwa [hstored hmode] at this
          · rintro e s' hnot ⟨wrId', qps'', hresolve', -, hcompletable, hbound⟩
            cases hresolve.symm.trans hresolve'
            refine hnot ⟨hcompletable, fun hmode ↦ ?_⟩
            rw [hstored hmode]
            exact hbound hmode
        · obtain ⟨-, hmode, hge⟩ := Overflow.add_eq_error.mp hadd
          rintro ⟨-, -, -, -, -, hbound⟩
          have := hbound hmode
          omega
      · have hbad := (completion_ends mode _ qps).of_error hcompletion
        rintro ⟨wrId, qps'', hresolve, hgood, -⟩
        exact hbad wrId qps'' hresolve hgood

private theorem poll_ends (len : Nat) :
    Ends (poll mode len) (cq, qps)
      (fun wcs s' ↦ wcs.length = min len (produced.drop r).length ∧
        s'.1 = { cq with
          consumerIndex := (r + wcs.length) % 2 ^ 32
          updateConsumerIndex := (r + wcs.length) % 2 ^ 24 } ∧
        Completes mode qps ((produced.drop r).take len) wcs s'.2 ∧
        Takes mode cq qps (produced.drop r) len)
      fun _ _ ↦ ¬ Takes mode cq qps (produced.drop r) len := by
  have hmask : ∀ n, n % 2 ^ 32 &&& 0xffffff = n % 2 ^ 24 := fun n ↦ by
    rw [show 0xffffff = 2 ^ 24 - 1 by decide, Nat.and_two_pow_sub_one_eq_mod,
      Nat.mod_mod_of_dvd _ (Nat.pow_dvd_pow 2 (by decide))]
  simp only [poll, ends_bind, ends_modify, ends_pure]
  refine (pollLoop_ends hring hcnt hindex hle hlen len).mono ?_ fun _ _ ↦ id
  rintro wcs s' ⟨hcount, hcq, hcompletes, htakes⟩
  refine ⟨hcount, ?_, hcompletes, htakes⟩
  rw [hcq, hmask]

end

namespace System

/-- What holds in every state of a run. -/
structure Invariant (s : System) : Prop where
  ring : HoldsLast s.cq.numEntries CompletionQueueEntry.owner s.cq.entries s.produced
  numEntries_le : s.cq.numEntries ≤ 2 ^ 31
  consumerIndex_eq : s.cq.consumerIndex = s.returned.length % 2 ^ 32
  doorbell_eq : s.cq.updateConsumerIndex = s.returned.length % 2 ^ 24
  published_eq : s.published = s.returned.length
  returned_le : s.returned.length ≤ s.produced.length
  window : s.produced.length ≤ s.returned.length + s.cq.numEntries

variable {mode : Overflow} {s s' : System}

private theorem invariant_init {cq : CompletionQueue} {minNumEntries : Int32}
    {bufferMapped doorbellMapped : Bool} {uverbs : Nat → Except Fault Nat}
    {entries : Nat → CompletionQueueEntry}
    (hcreate : create minNumEntries bufferMapped doorbellMapped uverbs entries = .ok cq)
    (hcard : ∀ i, (entries i).owner = 1) (qps : Context) : Invariant (init cq qps) := by
  unfold create at hcreate
  split at hcreate
  next => cases hcreate
  next hpos =>
    split at hcreate
    next => cases hcreate
    next =>
      split at hcreate
      next => cases hcreate
      next =>
        obtain ⟨number, -, hcreate⟩ := of_bind hcreate
        split at hcreate
        next => cases hcreate
        next =>
          cases hcreate
          have hsize : minNumEntries.toInt.toNat ≤ 2 ^ 31 := by
            have := minNumEntries.toInt_lt
            omega
          exact {
            ring := ⟨fun _ _ hget ↦ (nomatch hget), fun _ _ hget ↦ (nomatch hget),
              fun i _ _ ↦ hcard i⟩
            numEntries_le := nextPowerOfTwo_le hsize
            consumerIndex_eq := rfl
            doorbell_eq := rfl
            published_eq := rfl
            returned_le := Nat.le_refl 0
            window := Nat.zero_le _ }

private theorem step_produce (h : Invariant s) {cqe : CompletionQueueEntry}
    (hstep : step mode s (.produce cqe) = .ok s') :
    Invariant s' ∧ Delivers mode s (.produce cqe) s' := by
  unfold step at hstep
  dsimp only at hstep
  split at hstep
  next hroom =>
    cases hstep
    rw [h.published_eq] at hroom
    refine ⟨⟨h.ring.push rfl, h.numEntries_le, h.consumerIndex_eq, h.doorbell_eq, h.published_eq,
      ?_, ?_⟩, rfl⟩
    · rw [List.length_append]
      exact Nat.le_trans h.returned_le (Nat.le_add_right _ _)
    · rw [List.length_append]
      exact hroom
  next =>
    cases hstep
    exact ⟨h, rfl⟩

private theorem step_poll (h : Invariant s) {len : Nat}
    (hpollable : Pollable mode s (.poll len))
    (hstep : step mode s (.poll len) = .ok s') :
    Invariant s' ∧ Delivers mode s (.poll len) s' := by
  have hends : Ends (CompletionQueue.poll mode len) (s.cq, s.qps) _ _ :=
    poll_ends h.ring h.numEntries_le h.consumerIndex_eq h.returned_le h.window len
  unfold step at hstep
  dsimp only at hstep
  split at hstep
  next wcs cq qps hpoll =>
    cases hstep
    obtain ⟨hcount, rfl, hcompletes, -⟩ := hends.of_ok hpoll
    have hle := h.returned_le
    have hwindow := h.window
    have hcnt := h.numEntries_le
    rw [List.length_drop] at hcount
    refine ⟨⟨h.ring, hcnt, ?_, ?_, ?_, ?_, ?_⟩, wcs, rfl, hcompletes⟩
    · rw [List.length_append]
    · rw [List.length_append]
    · dsimp only
      rw [publishedAfter, List.length_append, h.published_eq]
      omega
    · rw [List.length_append]
      dsimp only
      omega
    · rw [List.length_append]
      dsimp only
      omega
  next hpoll => exact absurd hpollable (hends.of_error hpoll)
  next => cases hstep

private theorem Invariant.step (h : Invariant s) {e : Event}
    (hstep : System.step mode s e = .ok s') (hpollable : Pollable mode s e) :
    Invariant s' ∧ Delivers mode s e s' := by
  cases e with
  | produce cqe => exact step_produce h hstep
  | poll len => exact step_poll h hpollable hstep
  | others qps =>
    cases hstep
    exact ⟨⟨h.ring, h.numEntries_le, h.consumerIndex_eq, h.doorbell_eq, h.published_eq,
      h.returned_le, h.window⟩, rfl⟩

/-- In a run whose polls have everything that they need, every poll returns the completions of
the next entries, in order, and thereby each entry once. In every state the ring shows the next
entry as soon as it was produced and nothing before, the card knows the consumer index, and a poll
returns as many completions as it can exactly if it has everything that it needs. -/
theorem polls_return_in_order {cq : CompletionQueue} {minNumEntries : Int32}
    {bufferMapped doorbellMapped : Bool} {uverbs : Nat → Except Fault Nat}
    {entries : Nat → CompletionQueueEntry} {qps : Context} {events : List Event}
    (hcreate : create minNumEntries bufferMapped doorbellMapped uverbs entries = .ok cq)
    (hcard : ∀ i, (entries i).owner = 1)
    (hrun : events.foldlM (step mode) (init cq qps) = .ok s)
    (hpollable : Along (step mode) (fun s e _ ↦ Pollable mode s e) (init cq qps) events) :
    Along (step mode) (Delivers mode) (init cq qps) events ∧
    s.returned.length ≤ s.produced.length ∧
    s.cq.getCqeSw s.cq.consumerIndex = s.produced[s.returned.length]? ∧
    s.cq.updateConsumerIndex = s.returned.length % 2 ^ 24 ∧
    s.produced.length ≤ s.returned.length + s.cq.numEntries ∧
    (s.cq.numEntries < 2 ^ 24 → (s.produced.length + 2 ^ 24 - s.cq.updateConsumerIndex) % 2 ^ 24 =
      s.produced.length - s.returned.length) ∧
    ∀ len, (∃ wcs after, CompletionQueue.poll mode len (s.cq, s.qps) = .ok wcs after ∧
      wcs.length = min len (s.produced.length - s.returned.length)) ↔
        Pollable mode s (.poll len) := by
  have hinit := invariant_init hcreate hcard qps
  have h : Invariant s :=
    hpollable.invariant hrun hinit fun _ _ _ hs hstep hp ↦ (hs.step hstep hp).1
  refine ⟨hpollable.of_invariant hinit fun _ _ _ hs hstep hp ↦ hs.step hstep hp, h.returned_le,
    getCqeSw_eq h.ring h.numEntries_le h.consumerIndex_eq h.returned_le h.window, h.doorbell_eq,
    h.window, fun hlt ↦ ?_, fun len ↦ ?_⟩
  · have hle := h.returned_le
    have hwindow := h.window
    rw [h.doorbell_eq]
    omega
  have hends : Ends (CompletionQueue.poll mode len) (s.cq, s.qps) _ _ :=
    poll_ends h.ring h.numEntries_le h.consumerIndex_eq h.returned_le h.window len
  constructor
  · rintro ⟨wcs, after, hpoll, -⟩
    exact (hends.of_ok hpoll).2.2.2
  · intro htakes
    obtain ⟨wcs, after, hpoll, hcount, -⟩ := hends.exists_ok fun _ _ hnot ↦ hnot htakes
    rw [List.length_drop] at hcount
    exact ⟨wcs, after, hpoll, hcount⟩

namespace Sample

/-- A receive of 64 bytes on the sample queue pair. -/
def received (wqeIndex : UInt16) (opcode owner : Nat) : CompletionQueueEntry :=
  ⟨64, 0, false, 0, 0, 0, 0, 64, wqeIndex, 0, owner, false, opcode⟩

/-- Two receives are posted. -/
def posted : List Ibverbs.Event := Ibverbs.System.Sample.bringUp ++
  [.postReceive [Ibverbs.System.Sample.receive 1, Ibverbs.System.Sample.receive 2]]

/-- A ring of two entries that the card owns. -/
def create : Except Fault CompletionQueue :=
  CompletionQueue.create 2 true true (fun _ ↦ .ok 130) fun _ ↦ received 0 0 1

/-- Both receives complete and are polled, the second with the given opcode. -/
def events (opcode : Nat) : List Event :=
  [.produce (received 0 1 0), .produce (received 1 opcode 0), .poll 2]

/-- The context of one queue pair. -/
def context (qp : QueuePair) : Context := fun number ↦ if number = qp.number then some qp else none

private theorem exists_queue {P : CompletionQueue → Context → Prop}
    (h : ∃ qp, QueuePair.Sample.created = .ok qp ∧
      ∃ s, posted.foldlM (Ibverbs.System.step .panics) (Ibverbs.System.init qp) = .ok s ∧
        ∃ cq, create = .ok cq ∧ P cq (context s.qp)) :
    ∃ cq, create = .ok cq ∧ ∃ qps, P cq qps := by
  obtain ⟨-, -, s, -, cq, hcq, h⟩ := h
  exact ⟨cq, hcq, _, h⟩

end Sample

/-- Two receives are polled in one call. -/
theorem polls_return_in_order_sample : ∃ cq qps s, Sample.create = .ok cq ∧
    (Sample.events 1).foldlM (step .panics) (init cq qps) = .ok s ∧
    s.returned.map WorkCompletion.wrId = [1, 2] ∧
    Along (step .panics) (Delivers .panics) (init cq qps) (Sample.events 1) := by
  obtain ⟨cq, hcq, qps, s, hrun, hids, hpollable⟩ : ∃ cq, Sample.create = .ok cq ∧
      ∃ qps s, (Sample.events 1).foldlM (step .panics) (init cq qps) = .ok s ∧
        s.returned.map WorkCompletion.wrId = [1, 2] ∧
        Along (step .panics) (fun s e _ ↦ Pollable .panics s e) (init cq qps) (Sample.events 1) :=
    Sample.exists_queue (by decide +kernel)
  obtain ⟨hdelivers, -⟩ := polls_return_in_order hcq (fun _ ↦ rfl) hrun hpollable
  exact ⟨cq, qps, s, hcq, hrun, hids, hdelivers⟩

/-- A message that invalidates a key at the receiver makes the poll panic, and the completion
before it is lost as well. -/
theorem poll_panics_on_invalidate : ∃ cq qps s, Sample.create = .ok cq ∧
    ((Sample.events 3).take 2).foldlM (step .panics) (init cq qps) = .ok s ∧
    s.produced.length = 2 ∧ s.returned = [] ∧ step .panics s (.poll 2) = .error .assertion := by
  simp only [exists_and_left]
  exact Sample.exists_queue (by decide +kernel)

end System

end CompletionQueue

end D3OS.Ibverbs

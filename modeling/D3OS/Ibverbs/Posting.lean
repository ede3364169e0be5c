import D3OS.Ibverbs.Outstanding
import D3OS.Ibverbs.QueuePair

/-!
# What posting does to a queue

A request that `post_send` accepts is written into the element at the head, stamps the element
that enters the headroom and is added to the requests that the queue tracks. Everything else in
the buffer stays as it is. Rejected requests leave the queue alone.
-/

namespace D3OS.Ibverbs

open Lib Rdma

/-- What the queue has to know about a send request. -/
def SendWorkRequest.request (wr : SendWorkRequest) : Request := ⟨wr.wrId, wr.isSignaled⟩

/-- What the queue has to know about a receive request; every one completes. -/
def ReceiveWorkRequest.request (wr : ReceiveWorkRequest) : Request := ⟨wr.wrId, true⟩

/-- The operation has an opcode, and with overflow checks the scatter list is not empty. -/
def Encodable (mode : Overflow) (wr : SendWorkRequest) : Prop :=
  (∃ opcode, wr.op.opcode = .ok opcode) ∧ (mode = .panics → wr.payload ≠ .sges [])

/-- The first word of the element at an index. -/
def ownerWord (cnt index opcode : Nat) : Nat :=
  (if passParity cnt index = 0 then 0 else 2 ^ 31) ||| opcode

/-- What posting an element at an index does to the buffer. -/
structure Posts (sizes : WorkQueueSizes) (spare index : Nat) (wqe : List UInt8)
    (bytes bytes' : Nat → UInt8) : Prop where
  outside : ∀ o, o / 2 ^ sizes.wqeShift ≠ index % sizes.wqeCnt →
    o / 2 ^ sizes.wqeShift ≠ (index + spare) % sizes.wqeCnt → bytes' o = bytes o
  stamped : WorkQueue.Stamped sizes bytes' (index + spare)
  fits : wqe.length ≤ 2 ^ sizes.wqeShift
  element : slice bytes' (index % sizes.wqeCnt * 2 ^ sizes.wqeShift) wqe.length = wqe

/-- A send queue with what it tracks. -/
structure Sending (R : Nat → Nat → Prop) (mode : Overflow) (qpType : QueuePairType)
    (sq : WorkQueue) (bytes : Nat → UInt8) (sent : List SendWorkRequest) (done tail : Nat) :
    Prop where
  sizes : sq.IsSend qpType
  mapped : sq.Mapped bytes
  tracks : Tracks R sq (sent.map SendWorkRequest.request) done tail
  bound : mode = .panics → sent.length < 2 ^ 32

/-- The request passes the checks in front of its element. -/
def Reaches (sq : WorkQueue) (sent : List SendWorkRequest) (tail : Nat) (wr : SendWorkRequest) :
    Prop :=
  sent.length - tail + 1 < sq.maxPost ∧ wr.sgeCount ≤ sq.maxGs

/-- Nothing panics behind the checks when the request is posted at an index. -/
def Postable (mode : Overflow) (spare index : Nat) (wr : SendWorkRequest) : Prop :=
  Encodable mode wr ∧ (mode = .panics → index + spare < 2 ^ 32)

/-- Nothing panics behind the checks when the requests are posted from an index on. -/
def AllPostable (mode : Overflow) (spare : Nat) : Nat → List SendWorkRequest → Prop
  | _, [] => True
  | index, wr :: wrs => Postable mode spare index wr ∧ AllPostable mode spare (index + 1) wrs

/-- The requests of a call that pass the checks, given the number of free elements. -/
def reached (maxGs : Nat) : Nat → List SendWorkRequest → List SendWorkRequest
  | 0, _ => []
  | _, [] => []
  | room + 1, wr :: wrs => if maxGs < wr.sgeCount then [] else wr :: reached maxGs room wrs

/-- What `post_send` has done with a request that it accepted. -/
structure Accepted (R : Nat → Nat → Prop) (mode : Overflow) (qpType : QueuePairType)
    (spare : Nat) (sq : WorkQueue) (bytes : Nat → UInt8) (sent : List SendWorkRequest)
    (done tail : Nat) (wr : SendWorkRequest) (chainSize chainSize' : Nat) (sq' : WorkQueue) :
    Prop where
  reaches : Reaches sq sent tail wr
  postable : Postable mode spare sent.length wr
  sizes_eq : sq'.toWorkQueueSizes = sq.toWorkQueueSizes
  chain_le : chainSize' ≤ trailing ((sent ++ [wr]).map SendWorkRequest.request) + 1
  chain : R chainSize (trailing (sent.map SendWorkRequest.request) + 1) →
    R chainSize' (trailing ((sent ++ [wr]).map SendWorkRequest.request) + 1)
  sending : ∃ opcode bytes', wr.op.opcode = .ok opcode ∧
    Sending R mode qpType sq' bytes' (sent ++ [wr]) done tail ∧
    Posts sq.toWorkQueueSizes spare sent.length
      (wqeBytes qpType wr (ownerWord sq.wqeCnt sent.length opcode)) bytes bytes'

/-- What `post_send` has done when it has posted some requests, with a property of the buffer. -/
structure PostedAll (R : Nat → Nat → Prop) (mode : Overflow) (qpType : QueuePairType)
    (spare : Nat) (sizes : WorkQueueSizes) (J : (Nat → UInt8) → List SendWorkRequest → Prop)
    (sent : List SendWorkRequest) (done tail : Nat) (posted : List SendWorkRequest)
    (sq' : WorkQueue) : Prop where
  sizes_eq : sq'.toWorkQueueSizes = sizes
  postable : AllPostable mode spare sent.length posted
  sending : ∃ bytes', Sending R mode qpType sq' bytes' (sent ++ posted) done tail ∧
    J bytes' (sent ++ posted)

section

variable {sq : WorkQueue} {qpType : QueuePairType} {wr : SendWorkRequest}

private theorem length_headerBytes_le (qpType : QueuePairType) (op : SendOperation) :
    controlSegmentSize + (headerBytes qpType op).length ≤ sendWqeOverhead qpType := by
  cases qpType <;> cases op <;> simp [headerBytes, headerSegment, sendWqeOverhead]

private theorem length_payloadBytes (wr : SendWorkRequest) :
    (payloadBytes wr.payload).length = wr.sgeCount * dataSegmentSize := by
  unfold SendWorkRequest.sgeCount
  cases wr.payload with
  | sges sges => exact length_flatMap_dataSegment sges
  | inlined data => rw [Nat.zero_mul, payloadBytes, List.length_nil]

private theorem fits (h : sq.IsSend qpType) (hsges : wr.sgeCount ≤ sq.maxGs) :
    controlSegmentSize + (headerBytes qpType wr.op).length + (payloadBytes wr.payload).length ≤
      2 ^ sq.wqeShift := by
  have hheader := length_headerBytes_le qpType wr.op
  have hsges' := Nat.mul_le_mul_right dataSegmentSize hsges
  have hover := h.overhead_le
  rw [length_payloadBytes]
  omega

private theorem and_two_pow_eq_zero (n k : Nat) : n &&& 2 ^ k = 0 ↔ n / 2 ^ k % 2 = 0 := by
  rw [Nat.and_two_pow, Nat.testBit_eq_decide_div_mod_eq]
  rcases Nat.mod_two_eq_zero_or_one (n / 2 ^ k) with h | h <;> simp [h]

private theorem ownerOpcode_eq {index : Nat} (hhead : sq.head = index % 2 ^ 32)
    (hcnt : sq.wqeCnt ≤ 2 ^ 17) (opcode : Nat) :
    sq.ownerOpcode opcode = ownerWord sq.wqeCnt index opcode := by
  have hiff : sq.head &&& sq.wqeCnt = 0 ↔ passParity sq.wqeCnt index = 0 := by
    rw [← passParity_stored (WorkQueueSizes.two_mul_dvd hcnt), ← hhead, passParity]
    have := and_two_pow_eq_zero sq.head (Nat.log2 sq.wqeCnt)
    rwa [← sq.wqeCnt_eq] at this
  rw [WorkQueue.ownerOpcode, ownerWord]
  simp only [hiff]

end

section

variable {R : Nat → Nat → Prop} {mode : Overflow} {qpType : QueuePairType} {sq : WorkQueue}
  {bytes bytes₁ : Nat → UInt8} {sent : List SendWorkRequest} {wr : SendWorkRequest}
  {done tail spare chainSize wqeSize : Nat}

private theorem posts_of_patch (h : Sending R mode qpType sq bytes sent done tail)
    (hspare : sq.spareWqes = some spare) {wqe : List UInt8} (hlen : wqe.length ≤ 2 ^ sq.wqeShift)
    {bytes' : Nat → UInt8}
    (hout : ∀ o, o / 2 ^ sq.wqeShift ≠ (sent.length + spare) % sq.wqeCnt → bytes' o =
      patch bytes (sent.length % sq.wqeCnt * 2 ^ sq.wqeShift) wqe o)
    (hstamped : WorkQueue.Stamped sq.toWorkQueueSizes bytes' (sent.length + spare)) :
    Posts sq.toWorkQueueSizes spare sent.length wqe bytes bytes' := by
  obtain ⟨hpos, hsum⟩ := h.sizes.spare_eq hspare
  have hmax := h.sizes.le_maxPost
  have hne : sent.length % sq.wqeCnt ≠ (sent.length + spare) % sq.wqeCnt :=
    slot_ne (by omega) (by omega)
  refine ⟨fun o ho ho' ↦ ?_, hstamped, hlen, ?_⟩
  · rw [hout o ho', WorkQueue.patch_of_div_ne hlen ho]
  · have hself := slice_patch_self bytes (sent.length % sq.wqeCnt * 2 ^ sq.wqeShift) wqe
    rw [← hself, length_slice]
    refine slice_congr fun o hle hlt ↦ hout o ?_
    rwa [WorkQueue.div_eq_of_slot hle (by omega)]

section

variable (hR : Counting R) (h : Sending R mode qpType sq bytes sent done tail)
include hR h

private theorem chain_lt
    (hle : chainSize ≤ trailing (sent.map SendWorkRequest.request) + 1) :
    chainSize + 1 < 2 ^ 32 := by
  have htrailing := trailing_take_le h.tracks.boundary h.tracks.done_le
  rw [List.take_length] at htrailing
  have htail := hR.le h.tracks.tail_rel
  have hroom := h.tracks.room
  have hmax := h.sizes.maxPost_le
  have hcnt := h.sizes.wqeCnt_le
  omega

section

variable (hroom : sent.length + 2 ≤ tail + sq.maxPost) (hspare : sq.spareWqes = some spare)
include hroom hspare

private theorem Sending.advance
    (hbound : mode = .panics → sent.length + spare < 2 ^ 32) {sq' : WorkQueue}
    (hsizes : sq'.toWorkQueueSizes = sq.toWorkQueueSizes) {bytes' : Nat → UInt8}
    (hmapped : sq'.Mapped bytes') (hhead : sq'.head = (sq.head + 1) % 2 ^ 32)
    (htail : sq'.tail = sq.tail)
    (hmetadata : sq'.metadata = if wr.request.signaled then
      sq.metadata.set (sq.head % sq.wqeCnt) (some ⟨wr.request.wrId, chainSize⟩) else sq.metadata)
    (hchain : wr.isSignaled = true →
      R chainSize (trailing (sent.map SendWorkRequest.request) + 1)) :
    Sending R mode qpType sq' bytes' (sent ++ [wr]) done tail := by
  refine ⟨?_, hmapped, ?_, fun hmode ↦ ?_⟩
  · rw [hsizes]
    exact h.sizes
  · rw [List.map_append]
    refine h.tracks.push hR h.sizes.maxPost_le h.sizes.wqeCnt_le ?_ hsizes hhead htail
      hmetadata hchain
    rw [List.length_map]
    exact hroom
  · have hpos := (h.sizes.spare_eq hspare).1
    have := hbound hmode
    rw [List.length_append, List.length_singleton]
    omega

private theorem finishSend_yields
    (hle : chainSize ≤ trailing (sent.map SendWorkRequest.request) + 1)
    (hchain : wr.isSignaled = true →
      R chainSize (trailing (sent.map SendWorkRequest.request) + 1))
    (hpos : 0 < wqeSize) (hsize : wqeSize ≤ 2 ^ sq.wqeShift) :
    Yields ((sq.withBytes bytes₁).finishSend mode wr wqeSize chainSize)
      (fun out ↦ out.1.toWorkQueueSizes = sq.toWorkQueueSizes ∧
        out.2 ≤ trailing ((sent ++ [wr]).map SendWorkRequest.request) + 1 ∧
        (R chainSize (trailing (sent.map SendWorkRequest.request) + 1) →
          R out.2 (trailing ((sent ++ [wr]).map SendWorkRequest.request) + 1)) ∧
        (mode = .panics → sent.length + spare < 2 ^ 32) ∧
        ∃ bytes', Sending R mode qpType out.1 bytes' (sent ++ [wr]) done tail ∧
          (∀ o, o / 2 ^ sq.wqeShift ≠ (sent.length + spare) % sq.wqeCnt → bytes' o = bytes₁ o) ∧
          WorkQueue.Stamped sq.toWorkQueueSizes bytes' (sent.length + spare))
      fun e ↦ ¬ e.IsErr ∧ mode = .panics ∧ 2 ^ 32 ≤ sent.length + spare := by
  have hhead := h.tracks.counts.1
  unfold WorkQueue.finishSend
  rw [WorkQueue.withBytes_sizes, hspare]
  show Yields (orPanic (mode.add 32 sq.head spare) >>= _) _ _
  rw [yields_bind]
  refine yields_of_eq (fun index hindex ↦ ?_) fun e he ↦ ?_
  · rw [orPanic_eq_ok, Overflow.add_eq_ok] at hindex
    have hstored : (sent.length + spare) % 2 ^ 32 = index := by
      rw [← hindex.1, hhead, Nat.mod_add_mod]
    have hbound : mode = .panics → sent.length + spare < 2 ^ 32 := fun hmode ↦ by
      have := hindex.2 hmode
      rwa [hhead, Nat.mod_eq_of_lt (h.bound hmode)] at this
    have hlt : index < 2 ^ 32 := hstored ▸ Nat.mod_lt _ (by decide)
    have hmapped₁ : (sq.withBytes bytes₁).Mapped bytes₁ := h.mapped.withBytes
    have hsize₁ : wqeSize ≤ 2 ^ (sq.withBytes bytes₁).wqeShift := hsize
    obtain ⟨bytes', hstamp, hout, hstamped⟩ := hmapped₁.stampWqebb h.sizes.shift index
    rw [WorkQueue.withBytes_sizes, ← hstored] at hout hstamped
    rw [WorkQueue.stamped_stored h.sizes.wqeCnt_le] at hstamped
    rw [slot_stored (WorkQueueSizes.dvd h.sizes.wqeCnt_le)] at hout
    have hmapped : (sq.withBytes bytes').Mapped bytes' := h.mapped.withBytes
    rw [WorkQueue.stampWqe_eq hpos hsize₁ hlt, hstamp, WorkQueue.withBytes_withBytes]
    rw [List.map_append, List.map_singleton, trailing_concat]
    show Yields (if _ then _ else _) _ _
    split
    next hsignaled =>
      rw [WorkQueue.updateMetaForHead_eq, if_pos (show wr.request.signaled = true from hsignaled)]
      refine ⟨rfl, Nat.le_refl 1, fun _ ↦ hR.refl 1, hbound, bytes', ?_, hout, hstamped⟩
      · refine h.advance hR hroom hspare hbound ?_ ?_ ?_ ?_ (if_pos hsignaled).symm hchain
        exacts [rfl, ⟨hmapped.buffer_eq, hmapped.wqeCnt_le, hmapped.wqeShift_le⟩, rfl, rfl]
    next hsignaled =>
      rw [Overflow.add_of_lt (chain_lt hR h hle),
        if_neg (show ¬ wr.request.signaled = true from hsignaled)]
      refine ⟨rfl, Nat.add_le_add_right hle 1, fun hchain ↦ hR.add hchain (hR.refl 1), hbound,
        bytes', ?_, hout, hstamped⟩
      · refine h.advance hR hroom hspare hbound ?_ ?_ ?_ ?_ (if_neg hsignaled).symm hchain
        exacts [rfl, ⟨hmapped.buffer_eq, hmapped.wqeCnt_le, hmapped.wqeShift_le⟩, rfl, rfl]
  · cases hadd : mode.add 32 sq.head spare with
    | ok index =>
      rw [hadd] at he
      cases he
    | error reason =>
      rw [hadd] at he
      cases he
      obtain ⟨-, hmode, hge⟩ := Overflow.add_eq_error.mp hadd
      exact ⟨Fault.not_isErr_panic _, hmode, by omega⟩

end

private theorem postSendOne_ends (hspare : sq.spareWqes = some spare)
    (hle : chainSize ≤ trailing (sent.map SendWorkRequest.request) + 1)
    (hchain : Reaches sq sent tail wr → wr.isSignaled = true →
      R chainSize (trailing (sent.map SendWorkRequest.request) + 1)) :
    Ends (WorkQueue.postSendOne mode qpType wr chainSize) sq
      (Accepted R mode qpType spare sq bytes sent done tail wr chainSize)
      fun e sq' ↦ (e.IsErr → sq' = sq ∧ ¬ Reaches sq sent tail wr) ∧
        (¬ e.IsErr → Reaches sq sent tail wr ∧ ¬ Postable mode spare sent.length wr) := by
  have hhead := h.tracks.counts.1
  have hmax : sq.maxPost ≤ 2 ^ 17 := Nat.le_trans h.sizes.maxPost_le h.sizes.wqeCnt_le
  simp only [WorkQueue.postSendOne, ends_bind, ends_get, ends_lift, ends_ite, ends_throw, ends_set,
    ends_pure]
  rw [yields_orPanic]
  have hcheck : Yields (sq.wouldOverflow mode) _ _ := h.tracks.wouldOverflow hR hmax
  refine ⟨fun full hfull ↦ ?_, fun reason hreason ↦ ?_⟩
  · cases hcheck.of_ok hfull
    rw [decide_eq_true_eq]
    refine ⟨fun hfull ↦ ⟨fun _ ↦ ⟨trivial, fun hr ↦ Nat.not_le.mpr hr.1 hfull⟩,
      fun he ↦ absurd trivial he⟩, fun hfree ↦ ⟨fun hsges ↦ ⟨fun _ ↦ ⟨trivial,
        fun hr ↦ Nat.not_lt.mpr hr.2 hsges⟩, fun he ↦ absurd trivial he⟩, fun hsges ↦ ?_⟩⟩
    have hreaches : Reaches sq sent tail wr := ⟨Nat.not_le.mp hfree, Nat.not_lt.mp hsges⟩
    by_cases hencodable : Encodable mode wr
    · obtain ⟨⟨opcode, hopcode⟩, hmode⟩ := hencodable
      have hfits := fits h.sizes hreaches.2
      have hlen := length_wqeBytes qpType wr (ownerWord sq.wqeCnt sent.length opcode)
      have hslot : sq.head % sq.wqeCnt = sent.length % sq.wqeCnt := by
        rw [hhead, slot_stored (WorkQueueSizes.dvd h.sizes.wqeCnt_le)]
      rw [h.mapped.writeWqe hfits hmode hopcode, ownerOpcode_eq hhead h.sizes.wqeCnt_le, hslot]
      refine (finishSend_yields hR h ?_ hspare hle (hchain hreaches) ?_ ?_).mono ?_ ?_
      · omega
      · rw [hlen, controlSegmentSize]
        omega
      · rw [hlen]
        exact hfits
      · rintro ⟨sq', chainSize'⟩ ⟨hsizes, hle', hchain', hbound, bytes', hsending, hout, hstamped⟩
        exact ⟨hreaches, ⟨⟨⟨opcode, hopcode⟩, hmode⟩, hbound⟩, hsizes, hle', hchain', opcode,
          bytes', hopcode, hsending, posts_of_patch h hspare (hlen ▸ hfits) hout hstamped⟩
      · rintro e ⟨he, hpanics, hle⟩
        exact ⟨fun he' ↦ absurd he' he, fun _ ↦ ⟨hreaches, fun hp ↦
          Nat.not_lt.mpr hle (hp.2 hpanics)⟩⟩
    · refine writeWqe_yields.mono (fun _ hencodable' ↦ absurd hencodable' hencodable) ?_
      exact fun e he ↦ ⟨fun he' ↦ absurd he' he, fun _ ↦ ⟨hreaches, fun hp ↦ hencodable hp.1⟩⟩
  · have hpanic := hcheck.of_error hreason
    exact absurd (h.bound hpanic.1) (Nat.not_lt.mpr hpanic.2)

end

private theorem reached_nil (maxGs room : Nat) : reached maxGs room [] = [] := by
  cases room <;> rfl

private theorem reached_of_reaches {wrs : List SendWorkRequest} (hle : tail ≤ sent.length)
    (h : Reaches sq sent tail wr) :
    reached sq.maxGs (sq.maxPost - 1 - (sent.length - tail)) (wr :: wrs) =
      wr :: reached sq.maxGs (sq.maxPost - 1 - ((sent ++ [wr]).length - tail)) wrs := by
  have hroom : sq.maxPost - 1 - (sent.length - tail) =
      sq.maxPost - 1 - ((sent ++ [wr]).length - tail) + 1 := by
    have := h.1
    rw [List.length_append, List.length_singleton]
    omega
  rw [hroom, reached, if_neg (Nat.not_lt.mpr h.2)]

private theorem reached_of_not_reaches {wrs : List SendWorkRequest}
    (h : ¬ Reaches sq sent tail wr) :
    reached sq.maxGs (sq.maxPost - 1 - (sent.length - tail)) (wr :: wrs) = [] := by
  cases hroom : sq.maxPost - 1 - (sent.length - tail) with
  | zero => rfl
  | succ room =>
    rw [reached]
    split
    · rfl
    next hsges => exact absurd ⟨by omega, Nat.not_lt.mp hsges⟩ h

private theorem postSendAll_ends (hR : Counting R) {sizes : WorkQueueSizes}
    (hspare : sizes.spareWqes = some spare)
    {J : (Nat → UInt8) → List SendWorkRequest → Prop}
    (hJ : ∀ bytes bytes' sent wr opcode, wr.op.opcode = .ok opcode →
      sent.length + 2 ≤ tail + sizes.maxPost → J bytes sent →
      Posts sizes spare sent.length (wqeBytes qpType wr (ownerWord sizes.wqeCnt sent.length opcode))
        bytes bytes' → J bytes' (sent ++ [wr]))
    (hsizes : sq.toWorkQueueSizes = sizes)
    (h : Sending R mode qpType sq bytes sent done tail) (hinit : J bytes sent)
    (hle : chainSize ≤ trailing (sent.map SendWorkRequest.request) + 1)
    (wrs : List SendWorkRequest) {posted : List SendWorkRequest}
    (hposted : reached sizes.maxGs (sizes.maxPost - 1 - (sent.length - tail)) wrs = posted)
    (hchain : ∀ wr ∈ posted, wr.isSignaled = true →
      R chainSize (trailing (sent.map SendWorkRequest.request) + 1)) :
    Ends (WorkQueue.postSendAll mode qpType wrs chainSize) sq
      (fun _ sq' ↦ posted = wrs ∧ PostedAll R mode qpType spare sizes J sent done tail wrs sq')
      fun e sq' ↦
        (e.IsErr → posted ≠ wrs ∧ PostedAll R mode qpType spare sizes J sent done tail posted sq') ∧
        (¬ e.IsErr → ¬ AllPostable mode spare sent.length posted) := by
  induction wrs generalizing sq bytes sent chainSize posted with
  | nil =>
    refine ⟨hposted.symm.trans (reached_nil _ _), hsizes, trivial, bytes, ?_, ?_⟩
    · rwa [List.append_nil]
    · rwa [List.append_nil]
  | cons wr wrs ih =>
    have htail := h.tracks.tail_le hR
    have hhead := @reached_of_reaches sq sent wr tail wrs htail
    have hstop := @reached_of_not_reaches sq sent wr tail wrs
    rw [hsizes, hposted] at hhead hstop
    rw [WorkQueue.postSendAll, ends_bind]
    refine (postSendOne_ends hR h (hsizes ▸ hspare) hle fun hreaches ↦ ?_).mono ?_ ?_
    · refine hchain wr ?_
      rw [hhead hreaches]
      exact List.mem_cons_self
    · rintro chainSize' sq' ⟨hreaches, hpostable, hsizes', hle', hchain', opcode, bytes', hopcode,
        hsending, hposts⟩
      have hroom : sent.length + 2 ≤ tail + sq.maxPost := by
        have := hreaches.1
        omega
      rw [hsizes] at hposts hroom
      have hinit' := hJ bytes bytes' sent wr opcode hopcode hroom hinit hposts
      have hassoc : ∀ posted, sent ++ [wr] ++ posted = sent ++ wr :: posted := fun posted ↦ by
        rw [List.append_assoc, List.singleton_append]
      have hlen : (sent ++ [wr]).length = sent.length + 1 := by
        rw [List.length_append, List.length_singleton]
      have hpost : ∀ posted sq'',
          PostedAll R mode qpType spare sizes J (sent ++ [wr]) done tail posted sq'' →
          PostedAll R mode qpType spare sizes J sent done tail (wr :: posted) sq'' :=
        fun posted sq'' ⟨hsizes'', hall, bytes'', hrest⟩ ↦
          ⟨hsizes'', ⟨hpostable, hlen ▸ hall⟩, bytes'', by rwa [← hassoc]⟩
      rw [hhead hreaches] at hchain ⊢
      refine (ih (hsizes'.trans hsizes) hsending hinit' hle' rfl fun wr' hmem hsignaled ↦
        hchain' (hchain wr' (List.mem_cons_of_mem _ hmem) hsignaled)).mono ?_ ?_
      · rintro - sq'' ⟨hall, hposted⟩
        exact ⟨congrArg (wr :: ·) hall, hpost wrs sq'' hposted⟩
      · rintro e sq'' ⟨herr, hpanic⟩
        refine ⟨fun he ↦ ⟨fun heq ↦ ?_, hpost _ sq'' (herr he).2⟩, fun he hall ↦ ?_⟩
        · exact (herr he).1 (List.cons.inj heq).2
        · exact hpanic he (hlen ▸ hall.2)
    · rintro e sq' ⟨herr, hpanic⟩
      refine ⟨fun he ↦ ?_, fun he ↦ ?_⟩
      · obtain ⟨rfl, hreaches⟩ := herr he
        rw [hstop hreaches]
        refine ⟨nofun, hsizes, trivial, bytes, ?_, ?_⟩
        · rwa [List.append_nil]
        · rwa [List.append_nil]
      · obtain ⟨hreaches, hpostable⟩ := hpanic he
        rw [hhead hreaches]
        exact fun hall ↦ hpostable hall.1

end

/-- The requests that a call can add before the queue is full. -/
def WorkQueue.free (sq : WorkQueue) : Nat :=
  sq.maxPost - 1 - (sq.head + 2 ^ 32 - sq.tail) % 2 ^ 32

/-- The requests of a call that pass the checks. -/
def QueuePair.reaching (qp : QueuePair) (wrs : List SendWorkRequest) : List SendWorkRequest :=
  if qp.state = .readyToSend then reached qp.sq.maxGs qp.sq.free wrs else []

/-- The doorbell takes the number of the queue pair, if the call gets there. -/
def QueuePair.Rings (qp : QueuePair) (wrs : List SendWorkRequest) : Prop :=
  qp.state = .readyToSend → wrs ≠ [] → qp.reaching wrs = wrs → qp.number < 2 ^ 24

section

variable {R : Nat → Nat → Prop} {mode : Overflow} {qp : QueuePair} {bytes : Nat → UInt8}
  {sent : List SendWorkRequest} {done tail spare : Nat}

private theorem Tracks.free_eq {α : Type} {f : α → Request} {l : List α} {wq : WorkQueue}
    (hR : Counting R) (h : Tracks R wq (l.map f) done tail) (hmax : wq.maxPost ≤ wq.wqeCnt)
    (hcnt : wq.wqeCnt ≤ 2 ^ 17) : wq.free = wq.maxPost - 1 - (l.length - tail) := by
  have htail := h.tail_le hR
  obtain ⟨hhead, -, hroom⟩ := h.counts
  rw [WorkQueue.free, hhead, h.tail_eq]
  omega

/-- The room that `post_send` sees. -/
theorem Sending.free_eq {qpType : QueuePairType} {sq : WorkQueue} (hR : Counting R)
    (h : Sending R mode qpType sq bytes sent done tail) :
    sq.free = sq.maxPost - 1 - (sent.length - tail) :=
  h.tracks.free_eq hR h.sizes.maxPost_le h.sizes.wqeCnt_le

/-- What a call of `post_send` does: it posts the requests that pass the checks. It panics if
that is not possible. -/
theorem postSend_ends (hR : Counting R) (hspare : qp.sq.spareWqes = some spare)
    {J : (Nat → UInt8) → List SendWorkRequest → Prop}
    (hJ : ∀ bytes bytes' sent wr opcode, wr.op.opcode = .ok opcode →
      sent.length + 2 ≤ tail + qp.sq.maxPost → J bytes sent →
      Posts qp.sq.toWorkQueueSizes spare sent.length
        (wqeBytes qp.qpType wr (ownerWord qp.sq.wqeCnt sent.length opcode)) bytes bytes' →
      J bytes' (sent ++ [wr]))
    (h : Sending R mode qp.qpType qp.sq bytes sent done tail) (hinit : J bytes sent)
    (wrs : List SendWorkRequest)
    (hchain : ∀ wr ∈ qp.reaching wrs, wr.isSignaled = true →
      R 1 (trailing (sent.map SendWorkRequest.request) + 1)) :
    Ends (QueuePair.postSend mode wrs) qp
      (fun _ qp' ↦ (qp.state = .readyToSend ∧ qp.reaching wrs = wrs) ∧ qp.Rings wrs ∧
        ∃ sq', qp' = { qp with sq := sq' } ∧ PostedAll R mode qp.qpType spare
          qp.sq.toWorkQueueSizes J sent done tail (qp.reaching wrs) sq')
      fun e qp' ↦
        (e.IsErr → ¬ (qp.state = .readyToSend ∧ qp.reaching wrs = wrs) ∧ qp.Rings wrs ∧
          ∃ sq', qp' = { qp with sq := sq' } ∧ PostedAll R mode qp.qpType spare
            qp.sq.toWorkQueueSizes J sent done tail (qp.reaching wrs) sq') ∧
        (¬ e.IsErr → ¬ (AllPostable mode spare sent.length (qp.reaching wrs) ∧ qp.Rings wrs)) := by
  have hnone : PostedAll R mode qp.qpType spare qp.sq.toWorkQueueSizes J sent done tail [] qp.sq :=
    ⟨rfl, trivial, bytes, by rwa [List.append_nil], by rwa [List.append_nil]⟩
  simp only [QueuePair.postSend, ends_bind, ends_get, ends_ite, ends_throw, ends_pure]
  refine ⟨fun hstate ↦ ?_, fun hstate ↦ ⟨fun hempty ↦ ?_, fun hempty ↦ ?_⟩⟩
  · refine ⟨fun _ ↦ ⟨fun hready ↦ hstate hready.1, fun hready ↦ absurd hready hstate, qp.sq, rfl,
      ?_⟩, fun he ↦ absurd trivial he⟩
    rw [QueuePair.reaching, if_neg hstate]
    exact hnone
  · have hnil := List.isEmpty_iff.mp hempty
    have hreaching : qp.reaching wrs = [] := by
      rw [QueuePair.reaching, hnil, reached_nil, ite_self]
    refine ⟨⟨Decidable.not_not.mp hstate, hreaching.trans hnil.symm⟩,
      fun _ hne ↦ absurd hnil hne, qp.sq, rfl, ?_⟩
    rw [hreaching]
    exact hnone
  · have hready : qp.state = .readyToSend := Decidable.not_not.mp hstate
    have hne : wrs ≠ [] := fun hnil ↦ hempty (List.isEmpty_iff.mpr hnil)
    have hreaching : reached qp.sq.maxGs (qp.sq.maxPost - 1 - (sent.length - tail)) wrs =
        qp.reaching wrs := by
      rw [QueuePair.reaching, if_pos hready, h.free_eq hR]
    rw [QueuePair.withSq, ends_zoom]
    refine (postSendAll_ends hR hspare hJ rfl h hinit (Nat.le_add_left _ _) wrs hreaching
      hchain).mono ?_ ?_
    · rintro - sq' ⟨hall, hposted⟩
      refine ⟨fun hnumber ↦ ⟨fun he ↦ absurd he (Fault.not_isErr_panic _), fun _ hgood ↦ ?_⟩,
        fun hnumber ↦ ⟨⟨hready, hall⟩, fun _ _ _ ↦ Nat.not_le.mp hnumber, sq', rfl, ?_⟩⟩
      · exact Nat.not_lt.mpr hnumber (hgood.2 hready hne hall)
      · rw [hall]
        exact hposted
    · rintro e sq' ⟨herr, hpanic⟩
      exact ⟨fun he ↦ ⟨fun hall ↦ (herr he).1 hall.2, fun _ _ hall ↦ absurd hall (herr he).1, sq',
        rfl, (herr he).2⟩, fun he hgood ↦ hpanic he hgood.1⟩

end

/-- A receive queue with what it tracks; every request is signaled, so the counts are exact. -/
structure Receiving (rq : WorkQueue) (received : List ReceiveWorkRequest) (done : Nat) :
    Prop where
  sizes : rq.IsReceive
  mapped : ∃ bytes, rq.Mapped bytes
  tracks : Tracks (· = ·) rq (received.map ReceiveWorkRequest.request) done done

section

variable {mode : Overflow} {rq : WorkQueue} {bytes : Nat → UInt8}
  {received : List ReceiveWorkRequest} {wr : ReceiveWorkRequest} {done : Nat}

private theorem trailing_received (received : List ReceiveWorkRequest) :
    trailing (received.map ReceiveWorkRequest.request) = 0 := by
  rcases received.eq_nil_or_concat with rfl | ⟨init, last, rfl⟩
  · rfl
  · rw [List.concat_eq_append, List.map_append, List.map_singleton, trailing_concat]
    rfl

section

variable (h : rq.Mapped bytes) (hsizes : rq.IsReceive) (index : Nat)
include h hsizes

private theorem getDataSegment_eq {sgeIndex : Nat} (hlt : sgeIndex < rq.maxGs) :
    ∃ place, rq.getDataSegment index sgeIndex = some place := by
  have hle : (sgeIndex + 1) * dataSegmentSize ≤ rq.maxGs * dataSegmentSize :=
    Nat.mul_le_mul_right _ hlt
  have hgs := hsizes.maxGs_le
  rw [Nat.succ_mul] at hle
  refine ⟨_, h.getInBuffer index ?_⟩
  rw [h.wqeByteOffset]
  omega

private theorem writeSges_yields (sges : List ScatterGatherEntry) (sgeIndex : Nat) :
    Yields (rq.writeSges index sges sgeIndex) (fun rq' ↦ ∃ bytes', rq' = rq.withBytes bytes')
      fun e ↦ ¬ e.IsErr ∧ rq.maxGs < sgeIndex + sges.length := by
  induction sges generalizing rq bytes sgeIndex with
  | nil => exact ⟨bytes, h.withBytes_self.symm⟩
  | cons sge rest ih =>
    rw [WorkQueue.writeSges, yields_bind, yields_orPanic]
    refine ⟨fun place _ ↦ ?_, fun reason hreason ↦ ⟨Fault.not_isErr_panic _, ?_⟩⟩
    · rw [h.write]
      refine (ih h.withBytes hsizes (sgeIndex + 1)).mono ?_ ?_
      · rintro rq' ⟨bytes', rfl⟩
        exact ⟨bytes', WorkQueue.withBytes_withBytes⟩
      · rintro e ⟨he, hlt⟩
        refine ⟨he, ?_⟩
        rw [List.length_cons]
        exact Nat.lt_of_lt_of_eq hlt (by omega)
    · by_contra hcon
      rw [List.length_cons] at hcon
      obtain ⟨place, hplace⟩ := getDataSegment_eq h hsizes index (show sgeIndex < rq.maxGs by omega)
      rw [hplace] at hreason
      cases hreason

end

section

variable (h : Receiving rq received done) (hroom : received.length + 2 ≤ done + rq.maxPost)
include h hroom

private theorem Receiving.advance {rq' : WorkQueue}
    (hsizes : rq'.toWorkQueueSizes = rq.toWorkQueueSizes) {bytes' : Nat → UInt8}
    (hmapped : rq'.Mapped bytes') (hhead : rq'.head = (rq.head + 1) % 2 ^ 32)
    (htail : rq'.tail = rq.tail)
    (hmetadata : rq'.metadata = rq.metadata.set (rq.head % rq.wqeCnt) (some ⟨wr.wrId, 1⟩)) :
    Receiving rq' (received ++ [wr]) done := by
  refine ⟨?_, ⟨bytes', hmapped⟩, ?_⟩
  · rw [hsizes]
    exact h.sizes
  · rw [List.map_append]
    refine h.tracks.push counting_eq h.sizes.maxPost_le
      (Nat.le_trans h.sizes.wqeCnt_le (by decide)) ?_ hsizes hhead htail hmetadata fun _ ↦ ?_
    · rw [List.length_map]
      exact hroom
    · rw [trailing_received]

private theorem writeReceive_yields :
    Yields (rq.writeReceive wr)
      (fun rq' ↦ rq'.toWorkQueueSizes = rq.toWorkQueueSizes ∧ Receiving rq' (received ++ [wr]) done)
      fun e ↦ ¬ e.IsErr ∧ rq.maxGs < wr.sges.length := by
  obtain ⟨bytes, hmapped⟩ := h.mapped
  rw [WorkQueue.writeReceive, yields_bind]
  refine (writeSges_yields hmapped h.sizes rq.head wr.sges 0).mono ?_ ?_
  · rintro _ ⟨bytes₁, rfl⟩
    have hmapped₁ : (rq.withBytes bytes₁).Mapped bytes₁ := hmapped.withBytes
    obtain ⟨rq₂, hrq₂, hsizes₂, hbuffer₂, hhead₂, htail₂, hmetadata₂⟩ : ∃ rq₂,
        (rq.withBytes bytes₁).updateMetaForHead wr.wrId 1 = .ok rq₂ ∧
        rq₂.toWorkQueueSizes = rq.toWorkQueueSizes ∧ rq₂.buffer = (rq.withBytes bytes₁).buffer ∧
        rq₂.head = rq.head ∧ rq₂.tail = rq.tail ∧
        rq₂.metadata = rq.metadata.set (rq.head % rq.wqeCnt) (some ⟨wr.wrId, 1⟩) :=
      ⟨_, WorkQueue.updateMetaForHead_eq _ _ _, rfl, rfl, rfl, rfl, rfl⟩
    have hmapped₂ : rq₂.Mapped bytes₁ := hmapped₁.congr hsizes₂ hbuffer₂
    rw [hrq₂]
    show Yields (if wr.sges.length < rq₂.maxGs then _ else _) _ _
    split
    next hlt =>
      obtain ⟨place, hplace⟩ := getDataSegment_eq hmapped₂ (hsizes₂ ▸ h.sizes) rq₂.head hlt
      rw [hplace]
      show _ ∧ Receiving (rq₂.write place lastSegment).advance _ _
      rw [hmapped₂.write]
      have hmapped₃ : (rq₂.withBytes (patch bytes₁ place lastSegment)).Mapped _ :=
        hmapped₂.withBytes
      exact ⟨hsizes₂, h.advance hroom hsizes₂
        ⟨hmapped₃.buffer_eq, hmapped₃.wqeCnt_le, hmapped₃.wqeShift_le⟩
        (congrArg (fun n ↦ (n + 1) % 2 ^ 32) hhead₂) htail₂ hmetadata₂⟩
    next =>
      exact ⟨hsizes₂, h.advance hroom hsizes₂
        ⟨hmapped₂.buffer_eq, hmapped₂.wqeCnt_le, hmapped₂.wqeShift_le⟩
        (congrArg (fun n ↦ (n + 1) % 2 ^ 32) hhead₂) htail₂ hmetadata₂⟩
  · rintro e ⟨he, hlt⟩
    exact ⟨he, by omega⟩

end

/-- The request passes the checks in front of its element. -/
def Admits (rq : WorkQueue) (received : List ReceiveWorkRequest) (done : Nat)
    (wr : ReceiveWorkRequest) : Prop :=
  received.length - done + 1 < rq.maxPost ∧ wr.sges.length % 2 ^ 32 ≤ rq.maxGs

/-- The requests of a call of `post_receive` that pass the checks, given the number of free
elements. -/
def admitted (maxGs room : Nat) (wrs : List ReceiveWorkRequest) : List ReceiveWorkRequest :=
  (wrs.take room).takeWhile fun wr ↦ decide (wr.sges.length % 2 ^ 32 ≤ maxGs)

/-- The admitted receives come first. -/
theorem admitted_front (maxGs room : Nat) (wrs : List ReceiveWorkRequest) :
    admitted maxGs room wrs <+: wrs :=
  (List.takeWhile_prefix _).trans (List.take_prefix _ _)

private theorem admitted_of_admits {wrs : List ReceiveWorkRequest} (hle : done ≤ received.length)
    (h : Admits rq received done wr) :
    admitted rq.maxGs (rq.maxPost - 1 - (received.length - done)) (wr :: wrs) =
      wr :: admitted rq.maxGs (rq.maxPost - 1 - ((received ++ [wr]).length - done)) wrs := by
  have hroom : rq.maxPost - 1 - (received.length - done) =
      rq.maxPost - 1 - ((received ++ [wr]).length - done) + 1 := by
    have := h.1
    rw [List.length_append, List.length_singleton]
    omega
  rw [hroom, admitted, List.take_succ_cons, List.takeWhile_cons, if_pos (decide_eq_true h.2),
    admitted]

private theorem admitted_of_not_admits {wrs : List ReceiveWorkRequest}
    (h : ¬ Admits rq received done wr) :
    admitted rq.maxGs (rq.maxPost - 1 - (received.length - done)) (wr :: wrs) = [] := by
  cases hroom : rq.maxPost - 1 - (received.length - done) with
  | zero => rfl
  | succ room =>
    rw [admitted, List.take_succ_cons, List.takeWhile_cons_of_neg]
    exact fun hsges ↦ h ⟨by omega, of_decide_eq_true hsges⟩

private theorem postReceiveOne_ends (h : Receiving rq received done) :
    Ends (WorkQueue.postReceiveOne mode wr) rq
      (fun _ rq' ↦ Admits rq received done wr ∧ rq'.toWorkQueueSizes = rq.toWorkQueueSizes ∧
        Receiving rq' (received ++ [wr]) done)
      fun e rq' ↦ (e.IsErr → rq' = rq ∧ ¬ Admits rq received done wr) ∧
        (¬ e.IsErr → rq.maxGs < wr.sges.length ∨ (mode = .panics ∧ 2 ^ 32 ≤ received.length)) := by
  have hmax : rq.maxPost ≤ 2 ^ 17 :=
    Nat.le_trans h.sizes.maxPost_le (Nat.le_trans h.sizes.wqeCnt_le (by decide))
  simp only [WorkQueue.postReceiveOne, ends_bind, ends_get, ends_lift, ends_ite, ends_throw,
    ends_set]
  rw [yields_orPanic]
  have hcheck : Yields (rq.wouldOverflow mode) _ _ := h.tracks.wouldOverflow counting_eq hmax
  refine ⟨fun full hfull ↦ ?_, fun reason hreason ↦ ?_⟩
  · cases hcheck.of_ok hfull
    rw [decide_eq_true_eq]
    refine ⟨fun hfull ↦ ⟨fun _ ↦ ⟨trivial, fun ha ↦ Nat.not_le.mpr ha.1 hfull⟩,
      fun he ↦ absurd trivial he⟩, fun hfree ↦ ⟨fun hsges ↦ ⟨fun _ ↦ ⟨trivial,
        fun ha ↦ Nat.not_lt.mpr ha.2 hsges⟩, fun he ↦ absurd trivial he⟩, fun hsges ↦ ?_⟩⟩
    refine (writeReceive_yields h (by omega)).mono (fun rq' hrq' ↦ ?_) fun e he ↦ ?_
    · exact ⟨⟨Nat.not_le.mp hfree, Nat.not_lt.mp hsges⟩, hrq'⟩
    · exact ⟨fun he' ↦ absurd he' he.1, fun _ ↦ .inl he.2⟩
  · have hpanic := hcheck.of_error hreason
    exact ⟨fun he ↦ absurd he (Fault.not_isErr_panic _), fun _ ↦ .inr hpanic⟩

/-- The queue has room for the requests, and their numbers do not overflow. -/
def Receivable (mode : Overflow) (rq : WorkQueue) (received : List ReceiveWorkRequest)
    (done : Nat) (wrs : List ReceiveWorkRequest) : Prop :=
  received.length - done + wrs.length < rq.maxPost ∧ (∀ wr ∈ wrs, wr.sges.length ≤ rq.maxGs) ∧
    (mode = .panics → received.length + wrs.length ≤ 2 ^ 32)

private theorem postReceiveAll_ends (h : Receiving rq received done) (wrs : List ReceiveWorkRequest)
    {posted : List ReceiveWorkRequest}
    (hposted : admitted rq.maxGs (rq.maxPost - 1 - (received.length - done)) wrs = posted) :
    Ends (wrs.forM (WorkQueue.postReceiveOne mode)) rq
      (fun _ rq' ↦ posted = wrs ∧
        rq'.toWorkQueueSizes = rq.toWorkQueueSizes ∧ Receiving rq' (received ++ wrs) done)
      fun e rq' ↦ ¬ Receivable mode rq received done wrs ∧
        e.OnErr (posted ≠ wrs ∧ rq'.toWorkQueueSizes = rq.toWorkQueueSizes ∧
          Receiving rq' (received ++ posted) done) := by
  induction wrs generalizing rq received posted with
  | nil =>
    rw [admitted, List.take_nil] at hposted
    exact ⟨hposted.symm, rfl, by rwa [List.append_nil]⟩
  | cons wr wrs ih =>
    have hdone := h.tracks.counts.2.1
    show Ends (WorkQueue.postReceiveOne mode wr >>= fun _ ↦ wrs.forM _) _ _ _
    rw [ends_bind]
    refine (postReceiveOne_ends h).mono ?_ ?_
    · rintro - rq' ⟨hadmits, hsizes, h'⟩
      have ih := ih h' rfl
      rw [hsizes] at ih
      rw [← hposted, admitted_of_admits hdone hadmits]
      refine ih.mono ?_ ?_
      · rintro - rq'' ⟨hall, hsizes', h''⟩
        rw [List.append_assoc, List.singleton_append] at h''
        exact ⟨congrArg (wr :: ·) hall, hsizes', h''⟩
      · rintro e rq'' ⟨hnot, he⟩
        refine ⟨fun ⟨hroom, hsges, hbound⟩ ↦ hnot ?_, he.mono fun ⟨hall, hsizes', h''⟩ ↦ ?_⟩
        · rw [List.length_cons] at hroom hbound
          rw [Receivable, hsizes, List.length_append, List.length_singleton]
          exact ⟨by omega, fun wr' hmem ↦ hsges wr' (List.mem_cons_of_mem _ hmem),
            fun hmode ↦ by have := hbound hmode; omega⟩
        · rw [List.append_assoc, List.singleton_append] at h''
          exact ⟨fun heq ↦ hall (List.cons.inj heq).2, hsizes', h''⟩
    · rintro e rq' ⟨herr, hpanic⟩
      refine ⟨fun ⟨hroom, hsges, hbound⟩ ↦ ?_, ?_⟩
      · have hsges' := hsges wr List.mem_cons_self
        rw [List.length_cons] at hroom hbound
        by_cases he : e.IsErr
        · exact (herr he).2 ⟨by omega, Nat.le_trans (Nat.mod_le _ _) hsges'⟩
        · rcases hpanic he with htoo | ⟨hmode, hlen⟩
          · omega
          · have := hbound hmode
            omega
      · cases e with
        | panic reason => trivial
        | err message =>
          obtain ⟨rfl, hadmits⟩ := herr trivial
          rw [← hposted, admitted_of_not_admits hadmits]
          exact ⟨nofun, rfl, by rwa [List.append_nil]⟩

/-- The requests of a call of `post_receive` that pass the checks. -/
def QueuePair.admitting (qp : QueuePair) (wrs : List ReceiveWorkRequest) :
    List ReceiveWorkRequest :=
  if qp.state = .readyToReceive ∨ qp.state = .readyToSend then admitted qp.rq.maxGs qp.rq.free wrs
  else []

/-- What a call of `post_receive` does. -/
theorem postReceive_ends {qp : QueuePair} (h : Receiving qp.rq received done)
    (wrs : List ReceiveWorkRequest) :
    Ends (QueuePair.postReceive mode wrs) qp
      (fun _ qp' ↦ qp.admitting wrs = wrs ∧ qp'.sq = qp.sq ∧ qp'.qpType = qp.qpType ∧
        qp'.state = qp.state ∧ qp'.rq.toWorkQueueSizes = qp.rq.toWorkQueueSizes ∧
        Receiving qp'.rq (received ++ wrs) done ∧ qp'.receiveWqeCounter =
          if wrs = [] then qp.receiveWqeCounter else qp'.rq.head % 2 ^ 16)
      fun e qp' ↦
        ¬ ((qp.state = .readyToReceive ∨ qp.state = .readyToSend) ∧
          Receivable mode qp.rq received done wrs) ∧
        e.OnErr (qp'.sq = qp.sq ∧ qp'.qpType = qp.qpType ∧
          qp'.rq.toWorkQueueSizes = qp.rq.toWorkQueueSizes ∧
          Receiving qp'.rq (received ++ qp.admitting wrs) done ∧
          qp'.receiveWqeCounter = qp.receiveWqeCounter ∧
          (wrs ≠ [] → qp.admitting wrs ≠ wrs)) := by
  simp only [QueuePair.postReceive, ends_bind, ends_get, ends_ite, ends_throw, ends_pure,
    ends_modify, QueuePair.withRq, ends_zoom, Fault.onErr_err]
  refine ⟨fun hstate ↦ ?_, fun hstate ↦ ?_⟩
  · have hready := not_or.mpr hstate
    rw [QueuePair.admitting, if_neg hready]
    exact ⟨fun hready' ↦ hready hready'.1, trivial, trivial, trivial, by rwa [List.append_nil],
      trivial, Ne.symm⟩
  · have hready : qp.state = .readyToReceive ∨ qp.state = .readyToSend := by
      rwa [← not_or, Decidable.not_not] at hstate
    rw [QueuePair.admitting, if_pos hready, h.tracks.free_eq counting_eq h.sizes.maxPost_le
      (Nat.le_trans h.sizes.wqeCnt_le (by decide))]
    refine (postReceiveAll_ends h wrs rfl).mono ?_ ?_
    · rintro - rq' ⟨hall, hsizes, h'⟩
      refine ⟨fun hempty ↦ ?_, fun hempty ↦ ?_⟩
      · rw [List.isEmpty_iff.mp hempty] at hall h' ⊢
        exact ⟨hall, trivial, trivial, trivial, hsizes, h', rfl⟩
      · have hne : wrs ≠ [] := fun hnil ↦ hempty (List.isEmpty_iff.mpr hnil)
        exact ⟨hall, trivial, trivial, trivial, hsizes, h', (if_neg hne).symm⟩
    · rintro e rq' ⟨hnot, he⟩
      exact ⟨fun hready ↦ hnot hready.2, he.mono fun h ↦
        ⟨trivial, trivial, h.2.1, h.2.2, trivial, fun _ ↦ h.1⟩⟩

end

section

variable {sizes : WorkQueueSizes} {bytes bytes' : Nat → UInt8} {wqe : List UInt8}
  {index spare tail i : Nat}

/-- A post leaves the elements behind the tail alone. -/
theorem Posts.keeps (h : Posts sizes spare index wqe bytes bytes') (hpos : 0 < spare)
    (hsum : sizes.maxPost + spare = sizes.wqeCnt) (hroom : index + 2 ≤ tail + sizes.maxPost)
    (hi : tail ≤ i) (hlt : i < index) :
    ∀ o, o / 2 ^ sizes.wqeShift = i % sizes.wqeCnt → bytes' o = bytes o := by
  intro o ho
  apply h.outside o
  · rw [ho]
    exact slot_ne hlt (by omega)
  · rw [ho]
    exact slot_ne (by omega) (by omega)

/-- A post leaves the headroom behind it alone. -/
theorem Posts.keeps_headroom (h : Posts sizes spare index wqe bytes bytes')
    (hlt : index < i) (hle : i < index + spare) (hsum : spare ≤ sizes.wqeCnt) :
    ∀ o, o / 2 ^ sizes.wqeShift = i % sizes.wqeCnt → bytes' o = bytes o := by
  intro o ho
  apply h.outside o
  · rw [ho]
    exact (slot_ne hlt (by omega)).symm
  · rw [ho]
    exact slot_ne hle (by omega)

end

end D3OS.Ibverbs

import D3OS.Ibverbs.Completions

/-!
# Doorbells

`post_receive` writes the doorbell record and `post_send` rings the doorbell once, behind the
loop over their requests. A call that rejects a request leaves the loop and returns without
either, although the requests before it have been posted.
-/

namespace D3OS.Ibverbs

open Lib

/-- Behind the requests that doorbells have announced, of those posted so far, no element up to
the end of the headroom is valid for the card. -/
def WorkQueue.Clean (sq : WorkQueue) (posted announced : Nat) : Prop :=
  ∀ bytes spare, sq.Mapped bytes → sq.spareWqes = some spare →
    ∀ i, announced ≤ i → i < posted + spare →
      ownerBit (bytes (i % sq.wqeCnt * 2 ^ sq.wqeShift)) ≠ passParity sq.wqeCnt i

private theorem clean_iff {sq : WorkQueue} {bytes : Nat → UInt8} {spare posted announced : Nat}
    (hmapped : sq.Mapped bytes) (hspare : sq.spareWqes = some spare) :
    sq.Clean posted announced ↔ ∀ i, announced ≤ i → i < posted + spare →
      ownerBit (bytes (i % sq.wqeCnt * 2 ^ sq.wqeShift)) ≠ passParity sq.wqeCnt i := by
  refine ⟨fun h ↦ h bytes spare hmapped hspare, fun h bytes' spare' hmapped' hspare' ↦ ?_⟩
  cases hmapped.unique hmapped'
  cases hspare.symm.trans hspare'
  exact h

namespace System

variable {qp : QueuePair} {mode : Overflow} {events : List Event} {s : System}

private theorem record_eq_head_iff (h : Invariant (· ≤ ·) mode s) {wrs : List ReceiveWorkRequest}
    {qp' : QueuePair} (hcall : s.qp.postReceive mode wrs = .ok () qp' ∨
      ∃ message, s.qp.postReceive mode wrs = .error (.err message) qp') :
    qp'.receiveWqeCounter = qp'.rq.head % 2 ^ 16 ↔
      (wrs ≠ [] ∧ s.qp.admitting wrs = wrs) ∨
        s.qp.receiveWqeCounter = (s.qp.rq.head + (s.qp.admitting wrs).length) % 2 ^ 16 := by
  have hends : Ends (QueuePair.postReceive mode wrs) s.qp _ _ := postReceive_ends h.receiving wrs
  have hnew : ∀ posted, Receiving qp'.rq (s.received ++ posted) s.receiveDone →
      qp'.rq.head % 2 ^ 16 = (s.qp.rq.head + posted.length) % 2 ^ 16 := by
    intro posted hreceiving
    rw [hreceiving.tracks.counts.1, h.receiving.tracks.counts.1, List.length_append]
    omega
  rcases hcall with hcall | ⟨message, hcall⟩
  · obtain ⟨hall, -, -, -, -, hreceiving, hrecord⟩ := hends.of_ok hcall
    by_cases hnil : wrs = []
    · rw [hrecord, if_pos hnil, hall, hnew wrs hreceiving]
      exact ⟨Or.inr, fun hor ↦ hor.resolve_left fun hne ↦ hne.1 hnil⟩
    · rw [hrecord, if_neg hnil]
      exact iff_of_true rfl (.inl ⟨hnil, hall⟩)
  · obtain ⟨-, -, -, -, hreceiving, hrecord, hpart⟩ := hends.of_error hcall
    rw [hrecord, hnew _ hreceiving]
    exact ⟨Or.inr, fun hor ↦ hor.resolve_left fun hall ↦ hpart hall.1 hall.2⟩

private theorem clean_after_error_iff (h : Invariant (· ≤ ·) mode s) {wrs : List SendWorkRequest}
    {message : String} {qp' : QueuePair}
    (hcall : s.qp.postSend mode wrs = .error (.err message) qp') {announced : Nat}
    (hannounced : announced ≤ s.sent.length) :
    qp'.sq.Clean (s.sent.length + (s.qp.reaching wrs).length) announced ↔
      s.qp.reaching wrs = [] ∧ s.qp.sq.Clean s.sent.length announced := by
  obtain ⟨bytes, tail, spare, hspare, hsending, hheadroom⟩ := h.sending
  obtain ⟨hpos, hsum⟩ := hsending.sizes.spare_eq hspare
  have hends := postSend_ends counting_le hspare
    (J := fun bytes' sent' ↦ Headroom s.qp.sq.toWorkQueueSizes spare bytes' sent'.length tail ∧
      s.sent.length ≤ sent'.length ∧ (sent'.length = s.sent.length → bytes' = bytes))
    (fun bytes₁ bytes₂ sent' wr opcode hopcode hroom hJ hposts ↦ by
      rw [List.length_append, List.length_singleton]
      exact ⟨hJ.1.posts hopcode hpos hsum hroom hposts, by omega, fun heq ↦ by omega⟩)
    hsending ⟨hheadroom, Nat.le_refl _, fun _ ↦ rfl⟩ wrs fun _ _ _ ↦ Nat.le_add_left _ _
  obtain ⟨-, -, sq', rfl, hsizes, -, bytes', hsending', hheadroom', -, hsame⟩ :=
    (hends.of_error hcall).1 trivial
  rw [List.length_append] at hheadroom' hsame
  rw [clean_iff hsending.mapped hspare, clean_iff hsending'.mapped (hsizes ▸ hspare)]
  rw [hsizes]
  by_cases hnil : s.qp.reaching wrs = []
  · rw [hnil, List.length_nil] at hsame ⊢
    rw [hsame rfl, and_iff_right rfl, Nat.add_zero]
  · -- the last element that was posted is valid
    have hlast := List.length_pos_iff.mpr hnil
    have htail := hsending.tracks.tail_le counting_le
    refine iff_of_false (fun hclean ↦ ?_) fun hand ↦ hnil hand.1
    refine hclean (s.sent.length + (s.qp.reaching wrs).length - 1) (by omega) (by omega) ?_
    exact hheadroom'.owned _ (by omega) (by omega)

/-- In every state of every run: the receive record is right behind a call exactly when the call
has posted all its requests, or the old record happens to fit the new head; and a call of
`post_send` that returns an error leaves no unannounced valid element exactly when it has posted
nothing, and there was none before. -/
theorem doorbells_cover_posts_iff (h : qp.Created)
    (hrun : events.foldlM (step mode) (init qp) = .ok s) :
    (∀ wrs qp', (s.qp.postReceive mode wrs = .ok () qp' ∨
        ∃ message, s.qp.postReceive mode wrs = .error (.err message) qp') →
      (qp'.receiveWqeCounter = qp'.rq.head % 2 ^ 16 ↔
        (wrs ≠ [] ∧ s.qp.admitting wrs = wrs) ∨
          s.qp.receiveWqeCounter = (s.qp.rq.head + (s.qp.admitting wrs).length) % 2 ^ 16)) ∧
    ∀ wrs message qp' announced, announced ≤ s.sent.length →
      s.qp.postSend mode wrs = .error (.err message) qp' →
      (qp'.sq.Clean (s.sent.length + (s.qp.reaching wrs).length) announced ↔
        s.qp.reaching wrs = [] ∧ s.qp.sq.Clean s.sent.length announced) := by
  have hinv := invariant_run h hrun
  exact ⟨fun _ _ hcall ↦ record_eq_head_iff hinv hcall,
    fun _ _ _ _ hannounced hcall ↦ clean_after_error_iff hinv hcall hannounced⟩

/-- One receive is posted and announced. -/
theorem doorbells_cover_posts_iff_sample : ∃ qp s qp', qp.Created ∧
    Sample.bringUp.foldlM (step .panics) (init qp) = .ok s ∧
    s.qp.postReceive .panics [Sample.receive 1] = .ok () qp' ∧
    qp'.receiveWqeCounter = qp'.rq.head % 2 ^ 16 := by
  obtain ⟨qp, hqp, s, hrun, hall, qp', hcall⟩ : ∃ qp, qp.Created ∧
      ∃ s, Sample.bringUp.foldlM (step .panics) (init qp) = .ok s ∧
        s.qp.admitting [Sample.receive 1] = [Sample.receive 1] ∧
        ∃ qp', s.qp.postReceive .panics [Sample.receive 1] = .ok () qp' :=
    QueuePair.Sample.exists_created (by decide +kernel)
  refine ⟨qp, s, qp', hqp, hrun, hcall, ?_⟩
  exact ((doorbells_cover_posts_iff hqp hrun).1 _ qp' (.inl hcall)).mpr (.inl ⟨nofun, hall⟩)

/-- A receive into more segments than any queue takes. -/
def Sample.longReceive : ReceiveWorkRequest :=
  ⟨2, List.replicate 33 ⟨0x10000000000, 64, 1⟩⟩

/-- The first of two receives is posted, the second one is rejected, and the record still tells
the card that there is none. -/
theorem receive_not_published : ∃ qp s qp', qp.Created ∧
    Sample.bringUp.foldlM (step .panics) (init qp) = .ok s ∧
    s.qp.postReceive .panics [Sample.receive 1, Sample.longReceive] =
      .error (.err "work request has too many sges") qp' ∧
    qp'.rq.head = 1 ∧ qp'.receiveWqeCounter = 0 := by
  simp only [exists_and_left]
  exact QueuePair.Sample.exists_created (by decide +kernel)

end System

end D3OS.Ibverbs

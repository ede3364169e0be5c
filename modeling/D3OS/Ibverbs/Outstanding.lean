import D3OS.Ibverbs.WorkQueue

/-!
# What a work queue knows about its outstanding requests

The abstract queue is the list of all requests posted so far and the number of them that a
completion has covered. Only signaled requests complete; a completion covers the unsignaled
requests before it. A work queue tracks the abstract queue with an index for the last request,
an index for the first outstanding one and the metadata of the outstanding signaled requests.
The tail and the recorded chains are compared with the exact counts by a relation, which is `≤`
for what holds in every run and `=` for exact counting.
-/

namespace D3OS.Ibverbs

open Lib

/-- What a queue has to know about a request. -/
structure Request where
  wrId : UInt64
  signaled : Bool
  deriving DecidableEq, Repr

/-- The number of unsignaled requests at the end. -/
def trailing (requests : List Request) : Nat :=
  requests.foldl (fun n request ↦ if request.signaled then 0 else n + 1) 0

/-- A relation between counts that is at most `≤` and survives addition. -/
structure Counting (R : Nat → Nat → Prop) : Prop where
  le : ∀ {a b}, R a b → a ≤ b
  add : ∀ {a b c d}, R a b → R c d → R (a + c) (b + d)
  refl : ∀ a, R a a

/-- Bounds add up. -/
theorem counting_le : Counting (· ≤ ·) := ⟨id, Nat.add_le_add, Nat.le_refl⟩

/-- Exact counts add up. -/
theorem counting_eq : Counting (· = ·) := ⟨Nat.le_of_eq, fun h h' ↦ by rw [h, h'], fun _ ↦ rfl⟩

/-- The queue tracks the requests, of which the first `done` are covered by a completion; `tail`
is the unbounded value of the tail. -/
structure Tracks (R : Nat → Nat → Prop) (wq : WorkQueue) (requests : List Request)
    (done tail : Nat) : Prop where
  head_eq : wq.head = requests.length % 2 ^ 32
  tail_eq : wq.tail = tail % 2 ^ 32
  tail_rel : R tail done
  done_le : done ≤ requests.length
  room : requests.length + 1 ≤ tail + wq.maxPost
  boundary : trailing (requests.take done) = 0
  metadata : ∀ i, done ≤ i → ∀ request, requests[i]? = some request → request.signaled = true →
    ∃ chain, wq.metadata[i % wq.wqeCnt]? = some (some ⟨request.wrId, chain⟩) ∧
      R chain (trailing (requests.take i) + 1)

section

variable {requests : List Request} {request : Request}

/-- A signaled request ends the trail, another one extends it. -/
theorem trailing_concat : trailing (requests ++ [request]) =
    if request.signaled then 0 else trailing requests + 1 := by
  rw [trailing, List.foldl_append]
  rfl

private theorem trailing_take_succ {i : Nat} (h : requests[i]? = some request) :
    trailing (requests.take (i + 1)) =
      if request.signaled then 0 else trailing (requests.take i) + 1 := by
  rw [List.take_add_one, h]
  exact trailing_concat

private theorem trailing_take_add {done k : Nat} (hdone : trailing (requests.take done) = 0)
    (h : ∀ i, done ≤ i → i < done + k → ∃ request, requests[i]? = some request ∧
      request.signaled = false) : trailing (requests.take (done + k)) = k := by
  induction k with
  | zero => exact hdone
  | succ k ih =>
    obtain ⟨request, hget, hunsignaled⟩ := h (done + k) (Nat.le_add_right _ _) (by omega)
    rw [← Nat.add_assoc, trailing_take_succ hget, hunsignaled,
      ih fun i hle hlt ↦ h i hle (by omega)]
    rfl

/-- The trail does not reach back over a reported request. -/
theorem trailing_take_le {done i : Nat} (hdone : trailing (requests.take done) = 0)
    (hle : done ≤ i) : trailing (requests.take i) ≤ i - done := by
  induction i with
  | zero =>
    cases Nat.le_zero.mp hle
    exact Nat.le_of_eq hdone
  | succ i ih =>
    rcases Nat.eq_or_lt_of_le hle with rfl | hlt
    · exact Nat.le_trans (Nat.le_of_eq hdone) (Nat.zero_le _)
    · have hi := ih (by omega)
      cases hget : requests[i]? with
      | none =>
        have hlen := List.getElem?_eq_none_iff.mp hget
        rw [List.take_of_length_le (by omega)] at hi ⊢
        omega
      | some request =>
        rw [trailing_take_succ hget]
        split <;> omega

end

namespace Tracks

variable {R : Nat → Nat → Prop} {wq wq' : WorkQueue} {requests : List Request}
  {request : Request} {done tail : Nat} {mode : Overflow} {α : Type} {f : α → Request} {l : List α}

/-- The counts in terms of the list that the requests come from. -/
theorem counts (h : Tracks R wq (l.map f) done tail) :
    wq.head = l.length % 2 ^ 32 ∧ done ≤ l.length ∧ l.length + 1 ≤ tail + wq.maxPost := by
  have hlen : (l.map f).length = l.length := List.length_map _
  exact hlen ▸ ⟨h.head_eq, h.done_le, h.room⟩

section

variable (hR : Counting R) (h : Tracks R wq (l.map f) done tail)
include hR h

/-- The tail is not ahead of the requests. -/
theorem tail_le : tail ≤ l.length :=
  Nat.le_trans (hR.le h.tail_rel) h.counts.2.1

/-- The overflow check compares the number of requests behind the tail. -/
theorem wouldOverflow (hmax : wq.maxPost ≤ 2 ^ 17) :
    Yields (wq.wouldOverflow mode)
      (fun full ↦ full = decide (wq.maxPost ≤ l.length - tail + 1))
      fun _ ↦ mode = .panics ∧ 2 ^ 32 ≤ l.length := by
  have htail := h.tail_le hR
  obtain ⟨hhead, -, hroom⟩ := h.counts
  have hhead' : l.length % 2 ^ 32 < 2 ^ 32 := Nat.mod_lt _ (by decide)
  have htail' : tail % 2 ^ 32 < 2 ^ 32 := Nat.mod_lt _ (by decide)
  rw [WorkQueue.wouldOverflow, hhead, h.tail_eq]
  rw [yields_bind]
  refine yields_of_eq (fun used hused ↦ ?_) fun e he ↦ ?_
  · rw [Overflow.sub_eq_ok hhead' htail'] at hused
    have hused' : l.length - tail = used := by omega
    rw [← hused', Overflow.add_of_lt (by omega)]
    exact rfl
  · obtain ⟨-, hmode, hlt⟩ := Overflow.sub_eq_error.mp he
    exact ⟨hmode, by omega⟩

end

section

variable (hR : Counting R) (h : Tracks R wq requests done tail) (hmax : wq.maxPost ≤ wq.wqeCnt)
include hR h hmax

/-- A request is added behind the others. -/
theorem push (hcnt : wq.wqeCnt ≤ 2 ^ 17) (hroom : requests.length + 2 ≤ tail + wq.maxPost)
    (hsizes : wq'.toWorkQueueSizes = wq.toWorkQueueSizes)
    (hhead : wq'.head = (wq.head + 1) % 2 ^ 32) (htail : wq'.tail = wq.tail) {chain : Nat}
    (hmetadata : wq'.metadata = if request.signaled then
      wq.metadata.set (wq.head % wq.wqeCnt) (some ⟨request.wrId, chain⟩) else wq.metadata)
    (hchain : request.signaled = true → R chain (trailing requests + 1)) :
    Tracks R wq' (requests ++ [request]) done tail := by
  have hwindow := hR.le h.tail_rel
  have hslot : wq.head % wq.wqeCnt = requests.length % wq.wqeCnt := by
    rw [h.head_eq, slot_stored (WorkQueueSizes.dvd hcnt)]
  refine ⟨?_, htail.trans h.tail_eq, h.tail_rel, ?_, ?_, ?_, ?_⟩
  · rw [hhead, h.head_eq, List.length_append, List.length_singleton, Nat.mod_add_mod]
  · rw [List.length_append]
    exact Nat.le_trans h.done_le (Nat.le_add_right _ _)
  · rw [hsizes, List.length_append, List.length_singleton]
    exact hroom
  · rw [List.take_append_of_le_length h.done_le]
    exact h.boundary
  · intro i hi new hget hsignaled
    rw [hsizes, hmetadata, hslot]
    rcases getElem?_concat_eq_some.mp hget with hget | ⟨rfl, rfl⟩
    · have hlt := (List.getElem?_eq_some_iff.mp hget).1
      rw [List.take_append_of_le_length (Nat.le_of_lt hlt)]
      obtain ⟨chain', hentry, hchain'⟩ := h.metadata i hi new hget hsignaled
      refine ⟨chain', ?_, hchain'⟩
      have hne : requests.length % wq.wqeCnt ≠ i % wq.wqeCnt := (slot_ne hlt (by omega)).symm
      split
      · rw [List.getElem?_set_ne hne]
        exact hentry
      · exact hentry
    · rw [if_pos hsignaled, List.take_left]
      refine ⟨chain, List.getElem?_set_self ?_, hchain hsignaled⟩
      rw [wq.length_metadata]
      exact Nat.mod_lt _ wq.wqeCnt_pos

/-- The next signaled request completes with its own identifier, unless the tail overflows. -/
theorem resolve {i : Nat} (hi : done ≤ i)
    (hget : requests[i]? = some request) (hsignaled : request.signaled = true)
    (hbetween : ∀ j, done ≤ j → j < i → ∃ request, requests[j]? = some request ∧
      request.signaled = false) {wqeIndex : Nat}
    (hindex : wqeIndex % wq.wqeCnt = i % wq.wqeCnt) :
    Yields (wq.resolveCompletion mode wqeIndex)
      (fun out ↦ out.1 = some request.wrId ∧ out.2.toWorkQueueSizes = wq.toWorkQueueSizes ∧
        out.2.buffer = wq.buffer ∧ out.2.head = wq.head ∧
        ∃ chain, R chain (i - done + 1) ∧ Tracks R out.2 requests (i + 1) (tail + chain) ∧
          (mode = .panics → wq.tail + chain < 2 ^ 32))
      fun e ↦ e = .overflow ∧ mode = .panics ∧
        ∃ chain, R chain (i - done + 1) ∧ 2 ^ 32 ≤ wq.tail + chain := by
  obtain ⟨chain, hentry, hchain⟩ := h.metadata i hi request hget hsignaled
  have hgap : trailing (requests.take i) = i - done := by
    obtain ⟨k, rfl⟩ := Nat.exists_eq_add_of_le hi
    rw [trailing_take_add h.boundary hbetween, Nat.add_sub_cancel_left]
  rw [hgap] at hchain
  have hlen : i < requests.length := (List.getElem?_eq_some_iff.mp hget).1
  have hwindow := hR.le h.tail_rel
  have hroom := h.room
  have hrel : R (tail + chain) (i + 1) := by
    have := hR.add h.tail_rel hchain
    rwa [show done + (i - done + 1) = i + 1 by omega] at this
  rw [← hindex] at hentry
  refine (WorkQueue.resolveCompletion_yields hentry).mono ?_ ?_
  · rintro ⟨wrId, wq'⟩ ⟨hwrId, hsizes, hbuffer, hhead, htail, hmetadata, hfits⟩
    refine ⟨hwrId, hsizes, hbuffer, hhead, chain, hchain,
      ⟨hhead.trans h.head_eq, ?_, hrel, hlen, ?_, ?_, ?_⟩, hfits⟩
    · rw [htail, h.tail_eq, Nat.mod_add_mod]
    · rw [hsizes]
      omega
    · rw [List.take_add_one, hget]
      exact trailing_concat.trans (if_pos hsignaled)
    · intro j hj later hlater hsignaled'
      obtain ⟨chain', hentry', hchain'⟩ := h.metadata j (by omega) later hlater hsignaled'
      have hjlen : j < requests.length := (List.getElem?_eq_some_iff.mp hlater).1
      have hne : i % wq.wqeCnt ≠ j % wq.wqeCnt := slot_ne (by omega) (by omega)
      refine ⟨chain', ?_, hchain'⟩
      rw [hsizes, hmetadata, hindex, List.getElem?_set_ne hne]
      exact hentry'
  · exact fun e he ↦ ⟨he.1, he.2.1, chain, hchain, he.2.2⟩

end

end Tracks

end D3OS.Ibverbs

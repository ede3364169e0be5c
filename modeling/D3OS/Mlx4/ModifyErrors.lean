import D3OS.Mlx4.Transitions

/-!
# What a failed `modify` leaves behind

Two transitions write the port number into the queue pair before the attributes of the request
are checked and before the card is asked. Every other field is written when the command has
succeeded.
-/

namespace D3OS.Mlx4.QueuePair

open Lib Rdma

/-- The two transitions that write the port. -/
def WritesPort (state : QueuePairState) (next : Option QueuePairState) : Prop :=
  (state = .reset ∧ next = some .init) ∨ (state = .init ∧ next = some .readyToReceive)

/-- The request changes the port of the queue pair: it carries another one, which the card has,
and makes one of the two transitions. -/
def TakesPort (caps : Capabilities) (qp : QueuePair) (attr : QueuePairAttr)
    (attrMask : QueuePairAttrMask) : Prop :=
  contains attrMask QueuePairAttrMask.ibvQpPort = true ∧
    (1 ≤ attr.portNum.toNat ∧ attr.portNum.toNat ≤ caps.numPorts.toNat) ∧
    qp.portNumber ≠ some attr.portNum ∧ contains attrMask QueuePairAttrMask.ibvQpState = true ∧
    WritesPort qp.state (some attr.qpState)

section

variable {caps : Capabilities} {qp : QueuePair} {attr : QueuePairAttr}
  {attrMask : QueuePairAttrMask} {cmd : CommandInterface}

private theorem setPort_eq_iff : qp.setPort attr attrMask = qp ↔
    (contains attrMask QueuePairAttrMask.ibvQpPort = true → qp.portNumber = some attr.portNum) := by
  unfold setPort
  split
  next h =>
    refine ⟨fun heq _ ↦ (congrArg QueuePair.portNumber heq).symm, fun hport ↦ ?_⟩
    rw [← hport h]
  next h => exact iff_of_true rfl fun h' ↦ absurd h' h

private theorem transition_fst_eq_iff {next : Option QueuePairState} :
    (transition caps qp attr attrMask next).1 = qp ↔
      (WritesPort qp.state next → qp.setPort attr attrMask = qp) := by
  unfold transition
  split
  case h_1 hstate => exact ⟨fun h _ ↦ h, fun h ↦ h (.inl ⟨hstate, rfl⟩)⟩
  case h_3 hstate => exact ⟨fun h _ ↦ h, fun h ↦ h (.inr ⟨hstate, rfl⟩)⟩
  all_goals simp_all [WritesPort]

/-- For every queue pair, all attributes and masks and every answer of the card: a call that returns
an error leaves the queue pair as it was if and only if the request does not change the port. -/
theorem modify_error_keeps_iff {message : String} {s' : QueuePair × CommandInterface}
    (h : modify caps attr attrMask (qp, cmd) = .error (.err message) s') :
    s'.1 = qp ↔ ¬ TakesPort caps qp attr attrMask := by
  have hends : Ends (modify caps attr attrMask) (qp, cmd) (fun _ _ ↦ True)
      fun _ s' ↦ s'.1 = qp ↔ ¬ TakesPort caps qp attr attrMask := by
    simp only [modify, ends_bind, ends_get, ends_set, ends_lift, ends_ite, ends_throw]
    refine ⟨fun hrange ↦ iff_of_true trivial fun h ↦ hrange.2 h.2.1, fun hrange ↦ ?_⟩
    have hleft : (transition caps qp attr attrMask
        (if contains attrMask QueuePairAttrMask.ibvQpState then some attr.qpState else none)).1 =
          qp ↔ ¬ TakesPort caps qp attr attrMask := by
      rw [not_and, Decidable.not_not] at hrange
      rw [transition_fst_eq_iff, setPort_eq_iff]
      split
      next hstate =>
        refine ⟨fun h hport ↦ hport.2.2.1 (h hport.2.2.2.2 hport.1), fun h hwrites hmask ↦ ?_⟩
        by_contra hport
        exact h ⟨hmask, hrange hmask, hport, hstate, hwrites⟩
      next hstate =>
        refine iff_of_true ?_ fun h ↦ hstate h.2.2.2.1
        rintro (⟨-, hnone⟩ | ⟨-, hnone⟩) <;> cases hnone
    refine yields_of_eq (fun p _ ↦ ?_) fun _ _ ↦ hleft
    cases p with
    | none => trivial
    | some command => simp [execute, ends_zoom, hleft]
  exact hends.of_error h

end

/-- A request for `Init` without a port and a key is refused and changes nothing. -/
theorem modify_error_keeps_sample : ∃ process qp card s', Sample.process 1 = .ok process ∧
    new Sample.caps process (sampleParams 5) 2 (Sample.card Sample.caps) = .ok qp card ∧
    modify Sample.caps { qpState := .init } QueuePairAttrMask.ibvQpState (qp, card.cmd) =
      .error (.err "qkey is required") s' ∧ s'.1 = qp := by
  obtain ⟨process, qp, card, s', hprocess, hnew, hmodify⟩ : ∃ process qp card s',
      Sample.process 1 = .ok process ∧
      new Sample.caps process (sampleParams 5) 2 (Sample.card Sample.caps) = .ok qp card ∧
      modify Sample.caps { qpState := .init } QueuePairAttrMask.ibvQpState (qp, card.cmd) =
        .error (.err "qkey is required") s' := by
    simp only [exists_and_left]
    decide +kernel
  exact ⟨process, qp, card, s', hprocess, hnew, hmodify,
    (modify_error_keeps_iff hmodify).mpr fun h ↦ absurd h.1 (by decide)⟩

/-- A request for `Init` without the key that a datagram pair needs is refused, and the port that
it carried stays in the queue pair. -/
theorem modify_error_loses_port : ∃ process qp card s', Sample.process 1 = .ok process ∧
    new Sample.caps process (sampleParams 5) 2 (Sample.card Sample.caps) = .ok qp card ∧
    modify Sample.caps { qpState := .init, portNum := 1 }
      (QueuePairAttrMask.ibvQpState ||| QueuePairAttrMask.ibvQpPort) (qp, card.cmd) =
        .error (.err "qkey is required") s' ∧
    qp.portNumber = none ∧ s'.1.portNumber = some 1 := by
  simp only [exists_and_left]
  decide +kernel

end D3OS.Mlx4.QueuePair

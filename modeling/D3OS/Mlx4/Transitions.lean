import D3OS.Mlx4.QueuePair

/-!
# State transitions of a queue pair

What one call of `modify` can do to the recorded state and to the card, and what follows
for every sequence of calls. The attributes of a request are checked before they are
written to the context; the protection domain, the completion queues and the UAR page are
those the queue pair was created with, and are not.
-/

namespace D3OS.Mlx4.QueuePair

open Lib Rdma

/-- The transitions that have a command of their own. -/
inductive Transition : QueuePairState → Opcode → QueuePairState → Prop
  | resetToInit : Transition .reset .rst2InitQp .init
  | initToInit : Transition .init .init2InitQp .init
  | initToReadyToReceive : Transition .init .init2RtrQp .readyToReceive
  | readyToReceiveToReadyToSend : Transition .readyToReceive .rtr2RtsQp .readyToSend
  | anyToReset (state : QueuePairState) : Transition state .any2RstQp .reset

/-- A call leaves the card and the state alone, or executes one command on this queue pair:
the state then follows the transition of the command if it succeeded and stays if not. -/
inductive Lawful (before after : QueuePair × CommandInterface) : Prop
  | idle (hcmd : after.2 = before.2) (hstate : after.1.state = before.1.state)
  | command (command : Command) (hlog : after.2.log = before.2.log ++ [command])
      (hnumber : command.inputModifier = before.1.number)
      (hok : command.status = .ok →
        Transition before.1.state command.opcode after.1.state)
      (hfailed : command.status ≠ .ok → after.1.state = before.1.state)

private theorem Transition.opcode_notMem {source target : QueuePairState} {opcode : Opcode}
    (h : Transition source opcode target) :
    opcode ∉ [Opcode.sw2HwMpt, .hw2SwMpt, .sw2HwCq, .hw2SwCq] := by
  cases h <;> decide

/-- The commands on queue pairs are not about the other objects of the card. -/
theorem Lawful.registered {before after : QueuePair × CommandInterface} (h : Lawful before after) :
    Command.registered after.2.log = Command.registered before.2.log := by
  cases h with
  | idle hcmd hstate => rw [hcmd]
  | command command hlog hnumber hok hfailed =>
    rw [hlog]
    refine Command.registered_append (or_iff_not_imp_left.mpr fun hstatus ↦ ?_)
    exact (hok (not_not.mp hstatus)).opcode_notMem

/-- The values from the creation of the queue pair that fit the context. -/
def Fits (qp : QueuePair) : Prop :=
  qp.pd < 2 ^ 24 ∧ qp.sendCqNumber < 2 ^ 24 ∧ qp.receiveCqNumber < 2 ^ 24 ∧
    uarIndexToHw qp.uarIndex < 2 ^ 24

/-- The queue pair but for its state and its port, which stays or becomes one of the card's. -/
structure SameObject (qp qp' : QueuePair) : Prop where
  eq : { qp' with state := qp.state, portNumber := qp.portNumber } = qp
  port : qp'.portNumber = qp.portNumber ∨ ∃ port, qp'.portNumber = some port ∧ 1 ≤ port.toNat

variable {opcode : Opcode}

section

variable {qp : QueuePair} {attr : QueuePairAttr} {attrMask : QueuePairAttrMask}
  {input : StateTransitionCommandParameter}

/-- The computation does not panic. -/
private abbrev NoPanic {α : Type} (m : Except Fault α) : Prop :=
  Yields m (fun _ ↦ True) Fault.IsErr

/-- The rule for `require`. -/
theorem yields_require {needed : Bool} {flag : QueuePairAttrMask} {message : String}
    {Q : Unit → Prop} {E : Fault → Prop} :
    Yields (require needed attrMask flag message) Q E ↔
      ((needed = true → contains attrMask flag = true) → Q ()) ∧
      (needed = true → contains attrMask flag = false → E (.err message)) := by
  unfold require
  cases needed <;> cases contains attrMask flag <;> simp

private theorem initContext_noPanic (hsized : qp.Sized) (hfits : qp.Fits) :
    NoPanic (qp.initContext attr attrMask) := by
  obtain ⟨hpd, hsend, hreceive, huar⟩ := hfits
  have hsq : qp.logSqBbCount < 2 ^ 4 := Nat.lt_of_le_of_lt hsized.logSqBbCount_le (by decide)
  have hrq : qp.logRqWqeCount < 2 ^ 4 := Nat.lt_of_le_of_lt hsized.logRqWqeCount_le (by decide)
  have hsqStride := hsized.logSqStride_bounds
  have hrqStride := hsized.logRqStride_bounds
  have hsqField : qp.logSqStride - 4 < 2 ^ 3 := by omega
  have hrqField : qp.logRqStride - 4 < 2 ^ 3 := by omega
  have hpage : pageShift - icmPageShift < 2 ^ 6 := by decide
  simp only [initContext, yields_bind, yields_setField, yields_require, yields_subOrPanic,
    yields_okOr, yields_ok, Fault.isErr_err, Fault.not_isErr_panic, implies_true, and_true,
    imp_false, Nat.not_le, Nat.not_lt, hpd, hsend, hreceive, huar, hsq, hrq, hsqStride.1,
    hrqStride.1, hsqField, hrqField, hsized.pageOffset_lt, hpage, forall_const, true_and]
  intro _ _ mtt hmtt
  exact hsized.mtt_lt mtt hmtt

private theorem optMinRnrNak_noPanic : NoPanic (optMinRnrNak qp attr attrMask input) := by
  unfold optMinRnrNak
  split
  next => simp [NoPanic]
  next => trivial

private theorem optPkeyIndex_noPanic : NoPanic (optPkeyIndex attr attrMask input) := by
  unfold optPkeyIndex
  split
  next => simp [NoPanic]
  next => trivial

private theorem optAltPath_noPanic : NoPanic (optAltPath qp attr attrMask input) := by
  unfold optAltPath
  split
  next => simp [NoPanic]
  next => trivial

private theorem remoteEndpoint_noPanic : NoPanic (remoteEndpoint qp attr attrMask input) := by
  unfold remoteEndpoint
  split
  next => simp [NoPanic, yields_require]
  next => trivial

private theorem logRdAtomic_noPanic {message : String} {count : UInt8} :
    NoPanic (logRdAtomic message count) := by
  simp [NoPanic, logRdAtomic]

private theorem responderResources_noPanic :
    NoPanic (responderResources qp attr attrMask input) := by
  unfold responderResources
  split
  next =>
    simp only [NoPanic, yields_bind, yields_require, Fault.isErr_err, implies_true, and_true]
    intro _
    exact logRdAtomic_noPanic
  next => trivial

private theorem requesterResources_noPanic :
    NoPanic (requesterResources qp attr attrMask input) := by
  unfold requesterResources
  split
  next =>
    simp only [NoPanic, yields_bind, yields_require, yields_setFieldChecked, yields_ok,
      Fault.isErr_err, implies_true, and_true]
    intro _
    exact logRdAtomic_noPanic
  next => trivial

private theorem primaryPath_noPanic (hsized : qp.Sized) : NoPanic (primaryPath qp attr input) := by
  simp only [NoPanic, primaryPath, yields_bind, yields_okOr, yields_subOrPanic, yields_ok,
    Fault.isErr_err, Fault.not_isErr_panic, implies_true, and_true, true_and, imp_false]
  intro port hport
  exact Nat.not_lt.mpr (hsized.portNumber_pos port hport)

private theorem setField_noPanic {w value : Nat} (h : value < 2 ^ w) :
    NoPanic (setField w value) := by
  rw [setField_of_lt h]
  trivial

private theorem rtrContext_noPanic (hsized : qp.Sized) (caps : Capabilities) :
    NoPanic (rtrContext qp attr attrMask caps) := by
  have hmtu : (if contains attrMask QueuePairAttrMask.ibvQpPathMtu then attr.pathMtu.repr
      else Mtu.mtu4096.repr) < 2 ^ 3 := by
    split
    next => exact attr.pathMtu.repr_lt
    next => exact Mtu.mtu4096.repr_lt
  apply (setField_noPanic hmtu).bind
  intro mtu _
  apply (setField_noPanic caps.logMaxMsg.isLt).bind
  intro msgMax _
  apply remoteEndpoint_noPanic.bind
  intro input _
  apply responderResources_noPanic.bind
  intro input _
  apply (primaryPath_noPanic hsized).bind
  intro input _
  apply optMinRnrNak_noPanic.bind
  intro input _
  apply optPkeyIndex_noPanic.bind
  intro input _
  exact optAltPath_noPanic

private theorem initUpdateContext_noPanic : NoPanic (initUpdateContext qp attr attrMask) := by
  apply optPkeyIndex_noPanic.bind
  intro input _
  trivial

private theorem rtsContext_noPanic : NoPanic (rtsContext qp attr attrMask) := by
  apply requesterResources_noPanic.bind
  intro input _
  apply optMinRnrNak_noPanic.bind
  intro input _
  apply optPkeyIndex_noPanic.bind
  intro input _
  trivial

private theorem plan_noPanic {input : Except Fault StateTransitionCommandParameter}
    (h : NoPanic input) : NoPanic (plan opcode input) := by
  apply h.bind
  intro input _
  trivial

private theorem Sized.setPort (hsized : qp.Sized) (hport : contains attrMask
    QueuePairAttrMask.ibvQpPort = true → 1 ≤ attr.portNum.toNat) :
    (qp.setPort attr attrMask).Sized := by
  unfold QueuePair.setPort
  split
  next h =>
    refine ⟨hsized.1, hsized.2, hsized.3, hsized.4, hsized.5, hsized.6, ?_⟩
    rintro port ⟨⟩
    exact hport h
  next => exact hsized

private theorem Fits.setPort (hfits : qp.Fits) : (qp.setPort attr attrMask).Fits := by
  unfold QueuePair.setPort
  split
  next => exact hfits
  next => exact hfits

private theorem transition_noPanic (hsized : qp.Sized) (hfits : qp.Fits) (hport : contains attrMask
    QueuePairAttrMask.ibvQpPort = true → 1 ≤ attr.portNum.toNat) (caps : Capabilities)
    (next : Option QueuePairState) : NoPanic (transition caps qp attr attrMask next).2 := by
  unfold transition
  split
  case h_1 => exact plan_noPanic (initContext_noPanic (hsized.setPort hport) hfits.setPort)
  case h_3 => exact plan_noPanic (rtrContext_noPanic (hsized.setPort hport) caps)
  case h_4 | h_5 => exact plan_noPanic initUpdateContext_noPanic
  case h_6 => exact plan_noPanic rtsContext_noPanic
  all_goals trivial

end

variable {qp : QueuePair} {attr : QueuePairAttr} {attrMask : QueuePairAttrMask}

private theorem plan_ok {m : Except Fault StateTransitionCommandParameter} {p : Plan}
    (h : plan opcode m = .ok p) : ∃ input, p = some (opcode, input) := by
  obtain ⟨input, _, h⟩ := of_bind h
  cases h
  exact ⟨input, rfl⟩

private theorem transition_opcode {caps : Capabilities} {next : Option QueuePairState}
    {input : StateTransitionCommandParameter}
    (h : (transition caps qp attr attrMask next).2 = .ok (some (opcode, input))) :
    Transition qp.state opcode (next.getD qp.state) := by
  unfold transition at h
  split at h
  case h_1 | h_3 | h_4 | h_5 | h_6 =>
    rename_i hstate
    obtain ⟨_, hp⟩ := plan_ok h
    cases hp
    rw [hstate]
    constructor
  case h_14 =>
    obtain ⟨_, hp⟩ := plan_ok h
    cases hp
    exact .anyToReset _
  all_goals cases h

private theorem transition_object (qp : QueuePair)
    (hport : contains attrMask QueuePairAttrMask.ibvQpPort = true →
    1 ≤ attr.portNum.toNat) (caps : Capabilities) (next : Option QueuePairState) :
    SameObject qp (transition caps qp attr attrMask next).1 ∧
      (transition caps qp attr attrMask next).1.state = qp.state := by
  have hset : SameObject qp (qp.setPort attr attrMask) ∧
      (qp.setPort attr attrMask).state = qp.state := by
    unfold setPort
    split
    next h => exact ⟨⟨rfl, Or.inr ⟨attr.portNum, rfl, hport h⟩⟩, rfl⟩
    next => exact ⟨⟨rfl, Or.inl rfl⟩, rfl⟩
  unfold transition
  split
  case h_1 | h_3 => exact hset
  all_goals exact ⟨⟨rfl, Or.inl rfl⟩, rfl⟩

variable {qp qp' : QueuePair}

private theorem execute_ends {p : Plan} {next : Option QueuePairState} {cmd : CommandInterface}
    (hsame : SameObject qp qp') (hstate : qp'.state = qp.state)
    (hop : ∀ opcode input, p = some (opcode, input) →
      Transition qp.state opcode (next.getD qp.state)) :
    Ends (execute p next) (qp', cmd) (fun _ s ↦ Lawful (qp, cmd) s ∧ SameObject qp s.1)
      (fun e s ↦ e.IsErr ∧ Lawful (qp, cmd) s ∧ SameObject qp s.1) := by
  cases p with
  | none => exact ⟨.idle rfl hstate, hsame⟩
  | some command =>
    obtain ⟨opcode, input⟩ := command
    have hnumber : qp'.number = qp.number := by
      have h := congrArg QueuePair.number hsame.eq
      exact h
    simp only [execute, ends_bind, ends_get, ends_zoom, ends_modify,
      CommandInterface.ends_executeCommand]
    constructor
    · intro hok
      refine ⟨.command _ rfl hnumber (fun _ ↦ ?_) (fun h ↦ absurd hok h), hsame.eq, hsame.port⟩
      rw [hstate]
      exact hop opcode input rfl
    · intro hfailed
      exact ⟨trivial, .command _ rfl hnumber (fun h ↦ absurd h hfailed) (fun _ ↦ hstate), hsame⟩

/-- What a call of `modify` does, whether it returns or fails; it panics only if a value of
the queue pair does not fit the context. -/
theorem modify_ends (caps : Capabilities) (attr : QueuePairAttr) (attrMask : QueuePairAttrMask)
    (qp : QueuePair) (cmd : CommandInterface) :
    Ends (modify caps attr attrMask) (qp, cmd)
      (fun _ s ↦ Lawful (qp, cmd) s ∧ SameObject qp s.1)
      (fun e s ↦ e.OnErr (Lawful (qp, cmd) s ∧ SameObject qp s.1) ∧
        (qp.Sized → qp.Fits → e.IsErr)) := by
  simp only [modify, ends_ite, ends_throw, ends_bind, ends_get, ends_set, ends_lift,
    Fault.onErr_err, Fault.isErr_err, implies_true, and_true]
  refine ⟨fun _ ↦ ⟨.idle rfl rfl, rfl, Or.inl rfl⟩, fun hrange ↦ ?_⟩
  have hport : contains attrMask QueuePairAttrMask.ibvQpPort = true → 1 ≤ attr.portNum.toNat :=
    fun h ↦ (not_not.mp fun hout ↦ hrange ⟨h, hout⟩).1
  obtain ⟨hsame, hstate⟩ := transition_object qp hport caps
    (if contains attrMask QueuePairAttrMask.ibvQpState then some attr.qpState else none)
  refine yields_of_eq (fun p hp ↦ ?_) (fun e he ↦ ⟨?_, fun hsized hfits ↦ ?_⟩)
  · refine (execute_ends hsame hstate ?_).mono (fun _ _ h ↦ h) fun e s h ↦ ⟨?_, fun _ _ ↦ h.1⟩
    · rintro opcode input rfl
      exact transition_opcode hp
    · cases e with
      | err message => exact h.2
      | panic reason => trivial
  · cases e with
    | err message => exact ⟨.idle rfl hstate, hsame⟩
    | panic reason => trivial
  · have hno := transition_noPanic hsized hfits hport caps
      (if contains attrMask QueuePairAttrMask.ibvQpState then some attr.qpState else none)
    rw [he] at hno
    exact hno

/-- A call of `modify` with any attributes and mask, as a step of the queue pair and the
card. -/
def modifyStep (caps : Capabilities) (s : QueuePair × CommandInterface)
    (call : QueuePairAttr × QueuePairAttrMask) : Except Panic (QueuePair × CommandInterface) :=
  afterCall (modify caps call.1 call.2) s

/-- A sequence of calls of `modify` none of which panics, whose steps follow the transitions
and which does not end in `SQD`. -/
def GoodRun (caps : Capabilities) (s : QueuePair × CommandInterface)
    (calls : List (QueuePairAttr × QueuePairAttrMask)) : Prop :=
  (∃ s', calls.foldlM (modifyStep caps) s = .ok s' ∧ s'.1.state ≠ .sqd) ∧
    Along (modifyStep caps) (fun before _ after ↦ Lawful before after) s calls

private theorem SameObject.sized (h : SameObject qp qp') (hsized : qp.Sized) : qp'.Sized := by
  have heq := h.eq
  have hport : ∀ port, qp'.portNumber = some port → 1 ≤ port.toNat := by
    intro port hp
    rcases h.port with hport | ⟨port', hport, hpos⟩
    · exact hsized.portNumber_pos port (hport ▸ hp)
    · rw [hport] at hp
      cases hp
      exact hpos
  rw [← heq] at hsized
  exact ⟨hsized.1, hsized.2, hsized.3, hsized.4, hsized.5, hsized.6, hport⟩

private theorem SameObject.fits (h : SameObject qp qp') (hfits : qp.Fits) : qp'.Fits := by
  rw [← h.eq] at hfits
  exact hfits

private theorem Transition.target_ne_sqd {source target : QueuePairState}
    (h : Transition source opcode target) : target ≠ .sqd := by
  cases h <;> decide

private theorem Lawful.state_ne_sqd {before after : QueuePair × CommandInterface}
    (h : Lawful before after) (hstate : before.1.state ≠ .sqd) : after.1.state ≠ .sqd := by
  cases h with
  | idle hcmd hsame => rwa [hsame]
  | command command hlog hnumber hok hfailed =>
    by_cases hs : command.status = .ok
    · exact (hok hs).target_ne_sqd
    · rwa [hfailed hs]

/-- The invariant of a run of calls that does not panic. -/
private def RunInv (s : QueuePair × CommandInterface) : Prop :=
  s.1.Sized ∧ s.1.Fits ∧ s.1.state ≠ .sqd

private theorem modifyStep_returns (caps : Capabilities) {s : QueuePair × CommandInterface}
    (hinv : RunInv s) (call : QueuePairAttr × QueuePairAttrMask) :
    Yields (modifyStep caps s call) (fun s' ↦ Lawful s s' ∧ RunInv s') fun _ ↦ False := by
  obtain ⟨hsized, hfits, hstate⟩ := hinv
  have hinv : ∀ s', Lawful s s' ∧ SameObject s.1 s'.1 → Lawful s s' ∧ RunInv s' :=
    fun s' h ↦ ⟨h.1, h.2.sized hsized, h.2.fits hfits, h.1.state_ne_sqd hstate⟩
  refine afterCall_returns ((modify_ends caps call.1 call.2 s.1 s.2).mono
    (fun _ s' h ↦ hinv s' h) fun _ _ h ↦ h) ?_
  intro e s' h
  cases e with
  | err message => exact ⟨trivial, hinv s' h.1⟩
  | panic reason => exact absurd (h.2 hsized hfits) id

private theorem goodRun_of_inv (caps : Capabilities) {s : QueuePair × CommandInterface}
    (hinv : RunInv s) (calls : List (QueuePairAttr × QueuePairAttrMask)) :
    GoodRun caps s calls := by
  induction calls generalizing s with
  | nil => exact ⟨⟨s, rfl, hinv.2.2⟩, trivial⟩
  | cons call calls ih =>
    obtain ⟨s', hs', hlawful, hinv'⟩ := (modifyStep_returns caps hinv call).exists_ok fun _ ↦ id
    obtain ⟨⟨t, ht, hsqd⟩, halong⟩ := ih hinv'
    refine ⟨⟨t, ?_, hsqd⟩, ?_⟩
    · rw [List.foldlM_cons, hs']
      exact ht
    · rw [Along, hs']
      exact ⟨hlawful, halong⟩

/-- A request for `Init` that carries the attributes of every type. -/
private def initRequest : QueuePairAttr × QueuePairAttrMask :=
  ({ qpState := .init }, QueuePairAttrMask.ibvQpState ||| QueuePairAttrMask.ibvQpAccessFlags |||
    QueuePairAttrMask.ibvQpQkey)

private theorem initContext_panics (hfits : ¬ qp.Fits) :
    ∃ reason, qp.initContext initRequest.1 initRequest.2 = .error (.panic reason) := by
  have hyields : Yields (qp.initContext initRequest.1 initRequest.2) (fun _ ↦ False)
      fun e ↦ ¬ e.IsErr := by
    have hflags : contains initRequest.2 QueuePairAttrMask.ibvQpAccessFlags = true := by decide
    simp only [initContext, yields_bind, yields_setField, yields_require, hflags,
      Fault.not_isErr_panic, not_false_eq_true, implies_true, and_true, Bool.true_eq_false,
      false_implies, forall_const]
    intro huar hpd hsend hreceive
    exact absurd ⟨hpd, hsend, hreceive, huar⟩ hfits
  cases h : qp.initContext initRequest.1 initRequest.2 with
  | ok input =>
    rw [h] at hyields
    exact hyields.elim
  | error e =>
    rw [h] at hyields
    cases e with
    | err message => exact absurd trivial hyields
    | panic reason => exact ⟨reason, rfl⟩

private theorem initRequest_panics (caps : Capabilities) (cmd : CommandInterface)
    (hstate : qp.state = .reset) (hfits : ¬ qp.Fits) :
    ∃ reason, modifyStep caps (qp, cmd) initRequest = .error reason := by
  obtain ⟨reason, hpanic⟩ := initContext_panics hfits
  have hset : qp.setPort initRequest.1 initRequest.2 = qp := rfl
  have htr : transition caps qp initRequest.1 initRequest.2 (some .init) =
      (qp, .error (.panic reason)) := by
    unfold transition
    rw [hstate]
    simp only [hset, hpanic]
    rfl
  refine ⟨reason, ?_⟩
  have hmodify : modify caps initRequest.1 initRequest.2 (qp, cmd) =
      .error (.panic reason) (qp, cmd) := by
    show (lift (transition caps qp initRequest.1 initRequest.2 (some .init)).2 >>= fun p ↦
      execute p (some .init)) ((transition caps qp initRequest.1 initRequest.2 (some .init)).1, cmd)
        = _
    rw [htr]
    rfl
  rw [modifyStep, afterCall, hmodify]

/-- Every sequence of calls of `modify` on a queue pair that `new` accepted is good exactly if
its protection domain, its completion queues and its UAR page fit the context. -/
theorem modify_run_iff {caps : Capabilities} {process : Memory.Process} {params : Params}
    {uarIndex : Nat} {card card' : Card} {qp : QueuePair}
    (hnew : new caps process params uarIndex card = .ok qp card') :
    (∀ cmd calls, GoodRun caps (qp, cmd) calls) ↔
      params.pd < 2 ^ 24 ∧ params.sendCqNumber < 2 ^ 24 ∧ params.receiveCqNumber < 2 ^ 24 ∧
        uarIndexToHw uarIndex < 2 ^ 24 := by
  obtain ⟨-, hcreated, -⟩ := (new_ends caps process params uarIndex card).of_ok hnew
  have hfits : qp.Fits ↔ params.pd < 2 ^ 24 ∧ params.sendCqNumber < 2 ^ 24 ∧
      params.receiveCqNumber < 2 ^ 24 ∧ uarIndexToHw uarIndex < 2 ^ 24 := by
    rw [Fits, hcreated.pd_eq, hcreated.sendCqNumber_eq, hcreated.receiveCqNumber_eq,
      hcreated.uarIndex_eq]
  rw [← hfits]
  constructor
  · intro hgood
    by_contra hnot
    obtain ⟨reason, hpanic⟩ := initRequest_panics caps card.cmd hcreated.state_eq hnot
    obtain ⟨⟨s', hs', -⟩, -⟩ := hgood card.cmd [initRequest]
    rw [List.foldlM_cons, hpanic] at hs'
    cases hs'
  · intro h cmd calls
    have hstate : qp.state ≠ .sqd := by
      rw [hcreated.state_eq]
      decide
    exact goodRun_of_inv caps ⟨hcreated.sized, h, hstate⟩ calls

/-- A small datagram pair whose buffer and doorbell share the page of the sample process. -/
def sampleParams (pd : Nat) : Params :=
  ⟨.ud, pd, 16, 16, 0x10000000000, 0x10000000800, 0, 4, 0, 4⟩

/-- A queue pair in the protection domain 5 is never brought to a panic. -/
theorem modify_run_iff_sample : ∃ process qp card, Sample.process 1 = .ok process ∧
    new Sample.caps process (sampleParams 5) 2 (Sample.card Sample.caps) = .ok qp card ∧
      ∀ cmd calls, GoodRun Sample.caps (qp, cmd) calls := by
  obtain ⟨process, hp, qp, card, hn, -⟩ : ∃ process, Sample.process 1 = .ok process ∧ ∃ qp card,
      new Sample.caps process (sampleParams 5) 2 (Sample.card Sample.caps) = .ok qp card ∧
        True := by
    decide +kernel
  exact ⟨process, qp, card, hp, hn, (modify_run_iff hn).mpr (by decide)⟩

/-- The sample card with more protection domains than fit the field of the queue pair context. -/
def manyPds : Capabilities := { Sample.caps with logMaxPd := 24 }

/-- A queue pair in a protection domain with a number of 25 bits is accepted, and the first
request for `Init` panics. -/
theorem modify_panics_of_wide_pd : ∃ process qp card, Sample.process 1 = .ok process ∧
    2 ^ 24 < manyPds.numRsvdPds.toNat + 2 ^ manyPds.logMaxPd.toNat ∧
    new manyPds process (sampleParams (2 ^ 24)) 2 (Sample.card manyPds) = .ok qp card ∧
      modifyStep manyPds (qp, card.cmd) ({ qpState := .init },
        QueuePairAttrMask.ibvQpState ||| QueuePairAttrMask.ibvQpQkey) = .error .fieldOverflow := by
  simp only [exists_and_left]
  decide +kernel

end D3OS.Mlx4.QueuePair

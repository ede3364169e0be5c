import D3OS.Mlx4.Icm

/-!
# Queue pairs

`os/kernel/src/device/infiniband/mlx4/queue_pair.rs`. `modify` looks the transition up in an
ordered match on the current and the requested state, builds the context of that transition,
sends it with the command of that transition and records the new state when the command
succeeded.
-/

namespace D3OS.Mlx4

open Lib Memory Rdma

/-- `QueuePair`, `queue_pair.rs:26`. -/
structure QueuePair where
  number : Nat
  state : QueuePairState
  qpType : QueuePairType
  portNumber : Option UInt8
  pd : Nat
  sendCqNumber : Nat
  receiveCqNumber : Nat
  uarIndex : Nat
  mtt : Option Nat
  pageOffset : Nat
  doorbellAddress : PhysAddr
  logSqBbCount : Nat
  logSqStride : Nat
  logRqWqeCount : Nat
  logRqStride : Nat
  deriving DecidableEq

namespace QueuePair

/-- What `create_qp` passes on from the caller. -/
structure Params where
  qpType : QueuePairType
  pd : Nat
  sendCqNumber : Nat
  receiveCqNumber : Nat
  buffer : Nat
  doorbellPtr : Nat
  logSqBbCount : UInt8
  logSqStride : UInt8
  logRqWqeCount : UInt8
  logRqStride : UInt8
  deriving DecidableEq, Repr

/-- `QueuePair::new`, `queue_pair.rs:56`. -/
def new (caps : Capabilities) (process : Process) (params : Params) (uarIndex : Nat) :
    EStateM Fault Card QueuePair := do
  let vas := process.virtualAddressSpace
  let doorbellAddr ← lift (okOr "Doorbell address is not canonical"
    (VirtAddr.tryNew params.doorbellPtr))
  if vas.accessOk doorbellAddr 4 = false then throw (.err "User has no access to Doorbell")
  else if params.logSqStride < 4 ∨ params.logRqStride < 4 then
    throw (.err "stride is not multiple of 16 bytes")
  else if 11 < params.logSqStride ∨ 11 < params.logRqStride then
    throw (.err "stride is larger than 2048 bytes")
  else if min caps.logMaxQpSz.toNat 15 < params.logSqBbCount.toNat ∨
      min caps.logMaxQpSz.toNat 15 < params.logRqWqeCount.toNat then
    throw (.err "WQE count exceeds the HCA's max QP size")
  else
    let bufferSize := 2 ^ (params.logSqBbCount.toNat + params.logSqStride.toNat) +
      2 ^ (params.logRqWqeCount.toNat + params.logRqStride.toNat)
    let bufferAddr ← lift (okOr "Buffer address is not canonical" (VirtAddr.tryNew params.buffer))
    if bufferAddr.asU64 % 64 ≠ 0 then throw (.err "buffer is not aligned to 64")
    else if vas.accessOk bufferAddr bufferSize = false then
      throw (.err "User has no access to QP buffer")
    else
      let start := Page.containingAddress bufferAddr
      let stop ← lift (orPanic (start.add ((bufferSize + pageSize - 1) / pageSize)))
      let mtt ← Card.withMrTable (MrTable.allocMttForPages caps process ⟨start, stop⟩)
      let pageOffset := ((bufferAddr.asU64 - start.startAddress.asU64) >>> 6) % 2 ^ 8
      let translated ← lift (orPanic (vas.getPhys params.doorbellPtr))
      let doorbellAddress ← lift (okOr "doorbell not mapped to physical address" translated)
      let number ← Card.withOffsets Offsets.allocQpn
      return {
        number := number
        state := .reset
        qpType := params.qpType
        portNumber := none
        pd := params.pd
        sendCqNumber := params.sendCqNumber
        receiveCqNumber := params.receiveCqNumber
        uarIndex := uarIndex
        mtt := some mtt
        pageOffset := pageOffset
        doorbellAddress := doorbellAddress
        logSqBbCount := params.logSqBbCount.toNat
        logSqStride := params.logSqStride.toNat
        logRqWqeCount := params.logRqWqeCount.toNat
        logRqStride := params.logRqStride.toNat }

/-- An attribute that a transition cannot do without, for the types that need it. -/
def require (needed : Bool) (attrMask flag : QueuePairAttrMask) (message : String) :
    Except Fault Unit :=
  if needed && !contains attrMask flag then .error (.err message) else .ok ()

/-- The types with a connection. -/
def isConnected (qp : QueuePair) : Bool := qp.qpType == .rc || qp.qpType == .uc

/-- Take over the port number if it is given, `queue_pair.rs:168` and `queue_pair.rs:246`. -/
def setPort (qp : QueuePair) (attr : QueuePairAttr) (attrMask : QueuePairAttrMask) : QueuePair :=
  if contains attrMask QueuePairAttrMask.ibvQpPort then { qp with portNumber := some attr.portNum }
  else qp

/-- The service type, `queue_pair.rs:172-178`. -/
def serviceType : QueuePairType → BitVec 8
  | .rc => 0
  | .uc => 1
  | .ud => 3

/-- The context of `Reset → Init`, `queue_pair.rs:171-232`. -/
def initContext (qp : QueuePair) (attr : QueuePairAttr) (attrMask : QueuePairAttrMask) :
    Except Fault StateTransitionCommandParameter := do
  let usrPage ← setField 24 (uarIndexToHw qp.uarIndex)
  let protectionDomain ← setField 24 qp.pd
  let cqnSend ← setField 24 qp.sendCqNumber
  require qp.isConnected attrMask QueuePairAttrMask.ibvQpAccessFlags "access flags are required"
  let cqnReceive ← setField 24 qp.receiveCqNumber
  require (qp.qpType == .ud) attrMask QueuePairAttrMask.ibvQpQkey "qkey is required"
  let logSqSize ← setField 4 qp.logSqBbCount
  let logRqSize ← setField 4 qp.logRqWqeCount
  let sqStride ← orPanic (subOrPanic qp.logSqStride 4)
  let logSqStride ← setField 3 sqStride
  let rqStride ← orPanic (subOrPanic qp.logRqStride 4)
  let logRqStride ← setField 3 rqStride
  let pageOffset ← setField 6 qp.pageOffset
  let logPageSize ← setField 6 (pageShift - icmPageShift)
  let mtt ← okOr "queue pair has no MTT" qp.mtt
  let mttBaseAddr ← setField 40 mtt
  .ok { qpcData := {
    serviceType := serviceType qp.qpType
    pathMigrationState := 3
    usrPage := usrPage
    protectionDomain := protectionDomain
    cqnSend := cqnSend
    remoteRead := qp.qpType == .rc && contains attr.qpAccessFlags AccessFlags.remoteRead
    remoteWrite := qp.isConnected && contains attr.qpAccessFlags AccessFlags.remoteWrite
    remoteAtomic := qp.qpType == .rc && contains attr.qpAccessFlags AccessFlags.remoteAtomic
    cqnReceive := cqnReceive
    qkey := if qp.qpType == .ud then attr.qkey.toBitVec else 0
    logSqSize := logSqSize
    logRqSize := logRqSize
    logSqStride := logSqStride
    logRqStride := logRqStride
    reservedLkey := false
    sqNoPrefetch := false
    pageOffset := pageOffset
    logPageSize := logPageSize
    mttBaseAddr := mttBaseAddr
    dbRecordAddr := qp.doorbellAddress.asU64 } }

section

variable (qp : QueuePair) (attr : QueuePairAttr) (attrMask : QueuePairAttrMask)
  (input : StateTransitionCommandParameter)

/-- The optional timer of a reliable connection, `queue_pair.rs:294` and `queue_pair.rs:387`. -/
def optMinRnrNak : Except Fault StateTransitionCommandParameter :=
  if qp.qpType == .rc && contains attrMask QueuePairAttrMask.ibvQpMinRnrTimer then do
    let minRnrNak ← setFieldChecked 5 "min_rnr_timer out of range" attr.minRnrTimer.toNat
    .ok { optParamMask := input.optParamMask ||| OptionalParameterMask.minRnrNak
          qpcData := { input.qpcData with minRnrNak := minRnrNak } }
  else .ok input

/-- The optional key of a datagram pair, `queue_pair.rs:301`, `queue_pair.rs:340` and
`queue_pair.rs:394`. -/
def optQkey : StateTransitionCommandParameter :=
  if qp.qpType == .ud && contains attrMask QueuePairAttrMask.ibvQpQkey then
    { optParamMask := input.optParamMask ||| OptionalParameterMask.qkey
      qpcData := { input.qpcData with qkey := attr.qkey.toBitVec } }
  else input

/-- The optional partition key index, `queue_pair.rs:307`, `queue_pair.rs:347` and
`queue_pair.rs:400`; an index beyond `u8` and one beyond the field are refused alike. -/
def optPkeyIndex : Except Fault StateTransitionCommandParameter :=
  if contains attrMask QueuePairAttrMask.ibvQpPkeyIndex then do
    let pkeyIndex ← setFieldChecked 7 "pkey index out of range" attr.pkeyIndex.toNat
    .ok { optParamMask := input.optParamMask ||| OptionalParameterMask.pkeyIndex
          qpcData := { input.qpcData with primaryPkeyIndex := pkeyIndex } }
  else .ok input

/-- The optional access flags of a connected pair, `queue_pair.rs:313`, `queue_pair.rs:354`
and `queue_pair.rs:406`, with the bits they set in the mask. -/
def optAccessFlags (bits : OptionalParameterMask) : StateTransitionCommandParameter :=
  if qp.isConnected && contains attrMask QueuePairAttrMask.ibvQpAccessFlags then
    { optParamMask := input.optParamMask ||| bits
      qpcData := { input.qpcData with
        remoteWrite := contains attr.qpAccessFlags AccessFlags.remoteWrite
        remoteAtomic := contains attr.qpAccessFlags AccessFlags.remoteAtomic
        remoteRead := contains attr.qpAccessFlags AccessFlags.remoteRead } }
  else input

/-- The optional alternate path of a connected pair, `queue_pair.rs:322`. -/
def optAltPath : Except Fault StateTransitionCommandParameter :=
  if qp.isConnected && contains attrMask QueuePairAttrMask.ibvQpAltPath then do
    let pkeyIndex ← setFieldChecked 7 "alternate pkey index out of range" attr.altPkeyIndex.toNat
    .ok { optParamMask := input.optParamMask ||| OptionalParameterMask.alternatePath
          qpcData := { input.qpcData with
            alternatePkeyIndex := pkeyIndex, alternateRlid := attr.altAhAttr.dlid.toBitVec } }
  else .ok input

/-- The bits of the three access flags. -/
def accessBits : OptionalParameterMask :=
  OptionalParameterMask.remoteWrite ||| OptionalParameterMask.remoteAtomic |||
    OptionalParameterMask.remoteRead

/-- The remote queue pair of a connected pair, `queue_pair.rs:261-271`. -/
def remoteEndpoint : Except Fault StateTransitionCommandParameter :=
  if qp.isConnected then do
    require true attrMask QueuePairAttrMask.ibvQpDestQpn "destination QPN is required"
    let remoteQpn ← setFieldChecked 24 "destination QPN out of range" attr.destQpNum.toNat
    require true attrMask QueuePairAttrMask.ibvQpAv "address vector is required"
    .ok { input with qpcData := { input.qpcData with
      remoteQpn := remoteQpn, primaryRlid := attr.ahAttr.dlid.toBitVec } }
  else .ok input

/-- A number of outstanding operations as the logarithm the card takes. -/
def logRdAtomic (message : String) (count : UInt8) : Except Fault (BitVec 3) := do
  let rounded ← okOr message (checkedNextPowerOfTwo 8 count.toNat)
  setFieldChecked 3 message (Nat.log2 rounded)

/-- The responder resources of a reliable connection, `queue_pair.rs:274-281`. -/
def responderResources : Except Fault StateTransitionCommandParameter :=
  if qp.qpType == .rc then do
    require true attrMask QueuePairAttrMask.ibvQpMaxDestRdAtomic "max_dest_rd_atomic is required"
    let rraMax ← logRdAtomic "rra_max out of bounds" attr.maxDestRdAtomic
    .ok { input with qpcData := { input.qpcData with rraMax := rraMax } }
  else .ok input

/-- The schedule queue of the port and the service level, `queue_pair.rs:284-288`. -/
def primaryPath : Except Fault StateTransitionCommandParameter := do
  let port ← okOr "port number not set" qp.portNumber
  let portIndex ← orPanic (subOrPanic port.toNat 1)
  .ok { input with qpcData := { input.qpcData with
    primaryGrh := false
    primaryMlid := 0
    primarySchedQueue := 0x83#8 ||| BitVec.ofNat 8 portIndex <<< 6 |||
      (attr.ahAttr.sl.toBitVec &&& 0xf) <<< 2 } }

/-- The context of `Init → ReadyToReceive`, `queue_pair.rs:250-333`. -/
def rtrContext (caps : Capabilities) : Except Fault StateTransitionCommandParameter := do
  let mtu ← setField 3
    (if contains attrMask QueuePairAttrMask.ibvQpPathMtu then attr.pathMtu.repr
    else Mtu.mtu4096.repr)
  let msgMax ← setField 5 caps.logMaxMsg.toNat
  let input ← remoteEndpoint qp attr attrMask { qpcData := { mtu := mtu, msgMax := msgMax } }
  let input ← responderResources qp attr attrMask input
  let input ← primaryPath qp attr input
  let input ← optMinRnrNak qp attr attrMask input
  let input ← optPkeyIndex attr attrMask (optQkey qp attr attrMask input)
  optAltPath qp attr attrMask (optAccessFlags qp attr attrMask input accessBits)

/-- The context of `Init → Init`, `queue_pair.rs:338-360`; the access flags are written
without their bits in the mask. -/
def initUpdateContext : Except Fault StateTransitionCommandParameter := do
  let input ← optPkeyIndex attr attrMask (optQkey qp attr attrMask {})
  .ok (optAccessFlags qp attr attrMask input 0)

/-- The requester resources of a reliable connection, `queue_pair.rs:367-381`. -/
def requesterResources : Except Fault StateTransitionCommandParameter :=
  if qp.qpType == .rc then do
    require true attrMask QueuePairAttrMask.ibvQpMaxQpRdAtomic "max_rd_atomic is required"
    let sraMax ← logRdAtomic "sra_max out of bounds" attr.maxRdAtomic
    require true attrMask QueuePairAttrMask.ibvQpRnrRetry "rnr_retry is required"
    let rnrRetry ← setFieldChecked 3 "rnr_retry out of range" attr.rnrRetry.toNat
    require true attrMask QueuePairAttrMask.ibvQpTimeout "timeout is required"
    let ackTimeout ← setFieldChecked 5 "timeout out of range" attr.timeout.toNat
    .ok { input with qpcData := { input.qpcData with
      sraMax := sraMax, rnrRetry := rnrRetry, primaryAckTimeout := ackTimeout } }
  else .ok input

/-- The context of `ReadyToReceive → ReadyToSend`, `queue_pair.rs:365-416`. -/
def rtsContext : Except Fault StateTransitionCommandParameter := do
  let input ← requesterResources qp attr attrMask {}
  let input ← optMinRnrNak qp attr attrMask input
  let input ← optPkeyIndex attr attrMask (optQkey qp attr attrMask input)
  .ok (optAccessFlags qp attr attrMask input accessBits)

end

/-- The command that a transition takes and its input. -/
abbrev Plan := Option (Opcode × StateTransitionCommandParameter)

/-- A plan to send the given input. -/
def plan (opcode : Opcode) (input : Except Fault StateTransitionCommandParameter) :
    Except Fault Plan := do
  let input ← input
  .ok (some (opcode, input))

/-- The match of `modify` on the current and the requested state, `queue_pair.rs:164-446`: the
queue pair, which two of the transitions write the port to, and the command to execute. -/
def transition (caps : Capabilities) (qp : QueuePair) (attr : QueuePairAttr)
    (attrMask : QueuePairAttrMask) (next : Option QueuePairState) :
    QueuePair × Except Fault Plan :=
  match qp.state, next with
  | .reset, some .init =>
    let qp := qp.setPort attr attrMask
    (qp, plan .rst2InitQp (qp.initContext attr attrMask))
  | .reset, none => (qp, .ok none)
  | .init, some .readyToReceive =>
    let qp := qp.setPort attr attrMask
    (qp, plan .init2RtrQp (qp.rtrContext attr attrMask caps))
  | .init, some .init | .init, none => (qp, plan .init2InitQp (qp.initUpdateContext attr attrMask))
  | .readyToReceive, some .readyToSend => (qp, plan .rtr2RtsQp (qp.rtsContext attr attrMask))
  | .readyToReceive, none => (qp, .error (.err "modifying a QP in RTR is not supported"))
  | .readyToSend, some .readyToSend | .readyToSend, none =>
    (qp, .error (.err "modifying a QP in RTS is not supported"))
  | .readyToSend, some .sqd | .sqd, some .readyToSend | .sqd, some .sqd | .sqd, none =>
    (qp, .error (.err "the SQD state is not supported"))
  | _, some .reset => (qp, plan .any2RstQp (.ok {}))
  | .reset, some _ => (qp, .error (.err "Can not go from RESET to the supplied State"))
  | .init, some _ => (qp, .error (.err "Can not go from INIT to the supplied State"))
  | .readyToReceive, some _ => (qp, .error (.err "Can not go from RTR to the supplied State"))
  | .readyToSend, some _ => (qp, .error (.err "Can not go from RTS to the supplied State"))
  | .sqd, some _ => (qp, .error (.err "Can not go from SQD to the supplied State"))

/-- Execute the command of a transition and record the requested state,
`queue_pair.rs:448-457`. -/
def execute (plan : Plan) (next : Option QueuePairState) :
    EStateM Fault (QueuePair × CommandInterface) Unit :=
  match plan with
  | none => return ()
  | some (opcode, input) => do
    let (qp, _) ← get
    let _ ← zoom Prod.snd (fun cmd s ↦ (s.1, cmd))
      (CommandInterface.executeCommand opcode (.stateTransition input) qp.number)
    modify fun s ↦ ({ s.1 with state := next.getD s.1.state }, s.2)

/-- Give the translation entries up, `queue_pair.rs:477`. -/
def takeMtt : EStateM Fault (QueuePair × CommandInterface) Unit :=
  modify fun s ↦ ({ s.1 with mtt := none }, s.2)

/-- `QueuePair::modify`, `queue_pair.rs:138`. -/
def modify (caps : Capabilities) (attr : QueuePairAttr) (attrMask : QueuePairAttrMask) :
    EStateM Fault (QueuePair × CommandInterface) Unit := do
  if contains attrMask QueuePairAttrMask.ibvQpPort ∧
      ¬ (1 ≤ attr.portNum.toNat ∧ attr.portNum.toNat ≤ caps.numPorts.toNat) then
    throw (.err "port number out of range")
  else
    let next := if contains attrMask QueuePairAttrMask.ibvQpState then some attr.qpState else none
    let (qp, cmd) ← get
    let result := transition caps qp attr attrMask next
    set (result.1, cmd)
    let plan ← lift result.2
    execute plan next

/-- `QueuePair::destroy`, `queue_pair.rs:463`. -/
def destroy (caps : Capabilities) : EStateM Fault (QueuePair × CommandInterface) Unit := do
  let (qp, _) ← get
  if qp.state = .reset then takeMtt
  else
    modify caps { qpState := .reset } QueuePairAttrMask.ibvQpState
    takeMtt

private theorem transition_reset (caps : Capabilities) (qp : QueuePair) (attr : QueuePairAttr)
    (attrMask : QueuePairAttrMask) :
    transition caps qp attr attrMask (some .reset) = (qp, .ok (some (.any2RstQp, {}))) := by
  unfold transition
  cases qp.state <;> rfl

/-- The interface after the command that resets the queue pair. -/
def resetCommand (qp : QueuePair) (cmd : CommandInterface) : CommandInterface :=
  cmd.record .any2RstQp (.stateTransition {}) qp.number

/-- A queue pair in `Reset` is destroyed without a command; another one is reset first, and is
left as it was if that fails. -/
theorem ends_destroy {caps : Capabilities} {qp : QueuePair} {cmd : CommandInterface}
    {Q : Unit → QueuePair × CommandInterface → Prop}
    {E : Fault → QueuePair × CommandInterface → Prop} :
    Ends (destroy caps) (qp, cmd) Q E ↔
      (qp.state = .reset → Q () ({ qp with mtt := none }, cmd)) ∧
      (qp.state ≠ .reset →
        (cmd.nextReply.status = .ok →
          Q () ({ qp with state := .reset, mtt := none }, qp.resetCommand cmd)) ∧
        (cmd.nextReply.status ≠ .ok →
          E (.err cmd.nextReply.status.text) (qp, qp.resetCommand cmd))) := by
  have hport : contains QueuePairAttrMask.ibvQpState QueuePairAttrMask.ibvQpPort = false := by
    decide
  have hstate : contains QueuePairAttrMask.ibvQpState QueuePairAttrMask.ibvQpState = true := by
    decide
  simp only [destroy, takeMtt, modify, transition_reset, execute, resetCommand, ends_bind,
    ends_get, ends_ite, ends_modify, ends_set, ends_lift, ends_zoom, yields_ok,
    CommandInterface.ends_executeCommand, hport, hstate, Bool.false_eq_true, false_and, if_true,
    false_implies, true_and, not_false_eq_true, forall_const, Option.getD_some, ne_eq]

/-- What `new` checks, and `modify` keeps, of the values that go into fields of the context
without being checked again. -/
structure Sized (qp : QueuePair) : Prop where
  logSqBbCount_le : qp.logSqBbCount ≤ 15
  logRqWqeCount_le : qp.logRqWqeCount ≤ 15
  logSqStride_bounds : 4 ≤ qp.logSqStride ∧ qp.logSqStride ≤ 11
  logRqStride_bounds : 4 ≤ qp.logRqStride ∧ qp.logRqStride ≤ 11
  pageOffset_lt : qp.pageOffset < 2 ^ 6
  mtt_lt : ∀ mtt, qp.mtt = some mtt → mtt < 2 ^ 40
  portNumber_pos : ∀ port, qp.portNumber = some port → 1 ≤ port.toNat

/-- What a new queue pair takes over from its parameters. -/
structure CreatedBy (params : Params) (uarIndex : Nat) (qp : QueuePair) : Prop where
  state_eq : qp.state = .reset
  qpType_eq : qp.qpType = params.qpType
  pd_eq : qp.pd = params.pd
  sendCqNumber_eq : qp.sendCqNumber = params.sendCqNumber
  receiveCqNumber_eq : qp.receiveCqNumber = params.receiveCqNumber
  uarIndex_eq : qp.uarIndex = uarIndex
  sized : qp.Sized

private theorem pageOffset_lt (addr : VirtAddr) :
    ((addr.asU64 - (Page.containingAddress addr).startAddress.asU64) >>> 6) % 2 ^ 8 < 2 ^ 6 := by
  show ((addr.asU64 - addr.asU64 / 4096 * 4096) >>> 6) % 2 ^ 8 < 2 ^ 6
  omega

/-- A queue pair takes the next number. -/
theorem new_ends (caps : Capabilities) (process : Process) (params : Params) (uarIndex : Nat)
    (card : Card) :
    Ends (new caps process params uarIndex) card
      (fun qp card' ↦ qp.number = card.offsets.nextQpn ∧ qp.CreatedBy params uarIndex ∧
        card'.offsets = { card.offsets with nextQpn := card.offsets.nextQpn + 1 })
      (fun e card' ↦ e.OnErr (card'.offsets = card.offsets ∧ card'.cmd = card.cmd)) := by
  simp only [new, ends_bind, ends_lift, ends_ite, ends_throw, ends_pure,
    Card.ends_withOffsets, Card.ends_withMrTable, yields_orPanic, yields_okOr, Fault.onErr_err,
    Fault.onErr_panic, implies_true, and_true, true_and]
  rintro doorbellAddr - - hlow hhigh hcount bufferAddr - - - stop -
  refine (MrTable.allocMttForPages_ends _ _ _ _).mono (fun mtt mrTable hmtt ↦ ?_) ?_
  · rintro translated - doorbellAddress -
    refine (Offsets.allocQpn_ends _).mono ?_ ?_
    · rintro number offsets ⟨rfl, rfl⟩
      refine ⟨rfl, ⟨rfl, rfl, rfl, rfl, rfl, rfl, ?_⟩, rfl⟩
      simp only [UInt8.lt_iff_toNat_lt, UInt8.reduceToNat, not_or, Nat.not_lt, Nat.le_min]
        at hlow hhigh hcount
      exact {
        logSqBbCount_le := hcount.1.2
        logRqWqeCount_le := hcount.2.2
        logSqStride_bounds := ⟨hlow.1, hhigh.1⟩
        logRqStride_bounds := ⟨hlow.2, hhigh.2⟩
        pageOffset_lt := pageOffset_lt bufferAddr
        mtt_lt := by
          rintro mtt' ⟨⟩
          exact Nat.lt_trans hmtt (by decide)
        portNumber_pos := by
          rintro port ⟨⟩ }
    · intro e offsets he
      exact he.mono False.elim
  · intro e mrTable _
    cases e <;> simp

end QueuePair

end D3OS.Mlx4

import D3OS.Mlx4.Icm

/-!
# Completion queues

`os/kernel/src/device/infiniband/mlx4/completion_queue.rs`.
-/

namespace D3OS.Mlx4

open Lib Memory

/-- `CQE_SIZE`, `completion_queue.rs:24`. -/
def cqeSize : Nat := 32

/-- `CompletionQueue`, `completion_queue.rs:27`. -/
structure CompletionQueue where
  number : Nat
  mtt : Option Nat
  eqNumber : Option Nat
  deriving DecidableEq, Repr

namespace CompletionQueue

/-- What `create_cq` passes on from the caller. -/
structure Params where
  numEntries : UInt32
  buffer : Nat
  doorbellPtr : Nat
  deriving DecidableEq, Repr

/-- The context that `new` hands to the card, `completion_queue.rs:92-103`. -/
def context (numEntries bufferOffset uarIdx : Nat) (eqNumber : Option Nat) (mtt : Nat)
    (doorbellAddress : PhysAddr) : Except Fault CompletionQueueContext := do
  let pageOffset ← setField 16 bufferOffset
  let logCqSize ← setField 5 (Nat.log2 numEntries)
  let usrPage ← setField 24 (uarIndexToHw uarIdx)
  let log2PageSize ← setField 6 (pageShift - icmPageShift)
  let mttBaseAddr ← setField 40 mtt
  .ok {
    pageOffset := pageOffset
    logCqSize := logCqSize
    usrPage := usrPage
    cEqn := (eqNumber.getD 0 : Nat)
    log2PageSize := log2PageSize
    mttBaseAddr := mttBaseAddr
    doorbellRecordAddr := doorbellAddress.asU64 }

/-- `CompletionQueue::new`, `completion_queue.rs:43`. -/
def new (caps : Capabilities) (eqNumber : Option Nat) (process : Process) (params : Params)
    (uarIdx : Nat) : EStateM Fault Card CompletionQueue := do
  let vas := process.virtualAddressSpace
  let doorbellAddr ← lift (okOr "Doorbell address is not canonical"
    (VirtAddr.tryNew params.doorbellPtr))
  if vas.accessOk doorbellAddr 8 = false then throw (.err "User has no access to Doorbell")
  else if isPowerOfTwo params.numEntries.toNat = false then
    throw (.err "The number off CQE is not a power of 2")
  else if 2 ^ 22 < params.numEntries.toNat then throw (.err "Too many CQEs")
  else
    let bufferAddr ← lift (okOr "Buffer address is not canonical" (VirtAddr.tryNew params.buffer))
    if bufferAddr.asU64 % 4 ≠ 0 then throw (.err "Buffer is not aligned to CQE stride")
    else
      let bufferSize := params.numEntries.toNat * cqeSize
      if vas.accessOk bufferAddr bufferSize = false then
        throw (.err "User has no access to CQ buffer")
      else
        let start := Page.containingAddress bufferAddr
        let stop ← lift (orPanic (start.add ((bufferSize + pageSize - 1) / pageSize)))
        let mtt ← Card.withMrTable (MrTable.allocMttForPages caps process ⟨start, stop⟩)
        let translated ← lift (orPanic (vas.getPhys params.doorbellPtr))
        let doorbellAddress ← lift (okOr "doorbell not mapped to physical address" translated)
        let number ← Card.withOffsets Offsets.allocCqn
        let ctx ← lift (context params.numEntries.toNat (bufferAddr.asU64 % pageSize) uarIdx
          eqNumber mtt doorbellAddress)
        let _ ← Card.withCmd
          (CommandInterface.executeCommand .sw2HwCq (.completionQueue ctx) number)
        return ⟨number, some mtt, eqNumber⟩

/-- `CompletionQueue::destroy`, `completion_queue.rs:114`. -/
def destroy : EStateM Fault (CompletionQueue × CommandInterface) Unit := do
  let (cq, _) ← get
  let _ ← zoom Prod.snd (fun cmd s ↦ (s.1, cmd))
    (CommandInterface.executeCommand .hw2SwCq .empty cq.number)
  modify fun s ↦ ({ s.1 with mtt := none }, s.2)

/-- `CompletionQueue::query`, `completion_queue.rs:129`. -/
def query (cq : CompletionQueue) : EStateM Fault CommandInterface Unit := do
  let _ ← CommandInterface.executeCommand .queryCq .empty cq.number
  return ()

/-- A completion queue is left as it was if the card refuses. -/
theorem ends_destroy {cq : CompletionQueue} {cmd : CommandInterface}
    {Q : Unit → CompletionQueue × CommandInterface → Prop}
    {E : Fault → CompletionQueue × CommandInterface → Prop} :
    Ends destroy (cq, cmd) Q E ↔
      (cmd.nextReply.status = .ok →
        Q () ({ cq with mtt := none }, cmd.record .hw2SwCq .empty cq.number)) ∧
      (cmd.nextReply.status ≠ .ok →
        E (.err cmd.nextReply.status.text) (cq, cmd.record .hw2SwCq .empty cq.number)) := by
  simp only [destroy, ends_bind, ends_get, ends_zoom, ends_modify,
    CommandInterface.ends_executeCommand]

private theorem context_yields (numEntries bufferOffset uarIdx : Nat) (eqNumber : Option Nat)
    (mtt : Nat) (doorbellAddress : PhysAddr) :
    Yields (context numEntries bufferOffset uarIdx eqNumber mtt doorbellAddress)
      (fun _ ↦ True) (fun e ↦ e.OnErr False) := by
  simp only [context, yields_bind, yields_setField, yields_ok, Fault.onErr_panic, implies_true,
    and_true]

/-- A completion queue takes the next number. -/
theorem new_ends (caps : Capabilities) (eqNumber : Option Nat) (process : Process)
    (params : Params) (uarIdx : Nat) (card : Card) :
    Ends (new caps eqNumber process params uarIdx) card
      (fun cq card' ↦ cq.number = card.offsets.nextCqn ∧
        card'.offsets = { card.offsets with nextCqn := card.offsets.nextCqn + 1 })
      (fun e card' ↦ e.OnErr ((card'.offsets = card.offsets ∨
        card'.offsets = { card.offsets with nextCqn := card.offsets.nextCqn + 1 }) ∧
        Command.registered card'.cmd.log = Command.registered card.cmd.log)) := by
  simp only [new, ends_bind, ends_lift, ends_ite, ends_throw, ends_pure,
    Card.ends_withCmd, Card.ends_withOffsets, Card.ends_withMrTable,
    CommandInterface.ends_executeCommand, yields_orPanic, yields_okOr, Fault.onErr_err,
    Fault.onErr_panic, implies_true, and_true, true_and, true_or]
  rintro doorbellAddr - - - - bufferAddr - - - stop -
  refine (MrTable.allocMttForPages_ends _ _ _ _).mono (fun mtt mrTable _ ↦ ?_) ?_
  · rintro translated - doorbellAddress -
    refine (Offsets.allocCqn_ends _).mono ?_ ?_
    · rintro number offsets ⟨rfl, rfl⟩
      refine (context_yields _ _ _ _ _ _).mono (fun ctx _ ↦ ?_) ?_
      · exact ⟨fun _ ↦ ⟨rfl, rfl⟩,
          fun hrefused ↦ ⟨.inr rfl, Command.registered_append (.inl hrefused)⟩⟩
      · intro e he
        exact he.mono False.elim
    · intro e offsets he
      exact he.mono False.elim
  · intro e mrTable _
    cases e <;> simp

end CompletionQueue

end D3OS.Mlx4

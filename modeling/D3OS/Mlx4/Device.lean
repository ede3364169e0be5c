import D3OS.Lib.Vec
import D3OS.Mlx4.CompletionQueue
import D3OS.Mlx4.QueuePair

/-!
# The device and its verbs

`os/kernel/src/device/infiniband/mlx4/mod.rs`. Every verb but `open` and `release` looks the
named context up, provided the calling process opened it, and works on that context, the
card and the set of protection domain numbers; what it has written when it returns an error
stays written.
-/

namespace D3OS.Mlx4

open Lib Memory Rdma

/-- `UarPage`, `mod.rs:736`. -/
structure UarPage where
  index : Nat
  doorbell : PhysFrame
  blueflame : Option PhysFrame
  deriving DecidableEq

/-- The address space of the calling process and the frames its page tables are taken from. -/
abbrev Mapping := VirtualAddressSpace × FrameAllocator

/-- The calls into the address space that fail although they need not. -/
structure MapFaults where
  alloc : Bool := false
  map : Bool := false
  deriving DecidableEq, Repr

namespace UarPage

/-- The flags of both mappings, `mod.rs:760` and `mod.rs:782`. -/
def flags : PageTableFlags :=
  PageTableFlags.userAccessible ||| PageTableFlags.writable ||| PageTableFlags.noExecute |||
    PageTableFlags.noCache

/-- The name of an area: a text and the index of the page. -/
def tag (name : List Char) (index : Nat) : List UInt8 :=
  (name ++ Nat.toDigits 10 index).map fun c ↦ UInt8.ofNat c.toNat

/-- Map one frame into a new area of the process. -/
def mapFrame (frame : PhysFrame) (tag : List UInt8) (allocError mapError : String)
    (faults : MapFaults) : EStateM Fault Mapping Page := do
  if faults.alloc then throw (.err allocError)
  else
    let (vas, fa) ← get
    let (vas, area) ← lift (orPanic (vas.allocVma none 1 .user .deviceMemory tag))
    set (vas, fa)
    let vma ← lift (okOr allocError area)
    if faults.map then throw (.err mapError)
    else
      let stop ← lift (orPanic (frame.add 1))
      let mapped ← lift (orPanic (vas.mapPfrForVma vma ⟨frame, stop⟩ flags fa))
      let mapping ← lift (okOr mapError mapped)
      set mapping
      return vma.range.start

/-- `map_doorbell_page`, `mod.rs:751`. -/
def mapDoorbellPage (page : UarPage) (faults : MapFaults) : EStateM Fault Mapping Page :=
  mapFrame page.doorbell (tag ['d', 'b', '-'] page.index) "Failed to allocate VMA for UAR"
    "Failed to map UAR" faults

/-- `map_blueflame_page`, `mod.rs:771`. -/
def mapBlueflamePage (page : UarPage) (faults : MapFaults) : EStateM Fault Mapping Page := do
  let frame ← lift (okOr "No BlueFlame Page present" page.blueflame)
  mapFrame frame (tag ['b', 'f', '-'] page.index) "Failed to allocate VMA for BF"
    "Failed to map BF" faults

/-- The two mappings that `open` makes one after the other, `mod.rs:288`. -/
def mapPages (page : UarPage) (doorbellFaults blueflameFaults : MapFaults) :
    EStateM Fault Mapping (Page × Page) := do
  let doorbell ← page.mapDoorbellPage doorbellFaults
  let blueflame ← page.mapBlueflamePage blueflameFaults
  return (doorbell, blueflame)

end UarPage

/-- `UContext`, `mod.rs:664`. -/
structure UContext where
  handle : Nat
  owner : Nat
  uarPage : UarPage
  doorbellPage : Page
  blueflamePage : Page
  pds : List Nat
  cqs : List CompletionQueue
  qps : List QueuePair
  mrs : List MemoryRegion
  deriving DecidableEq

/-- Destroy one object; it is kept, as the failed attempt left it, if that returns an error. -/
def destroyOne {α : Type} (destroy : EStateM Fault (α × CommandInterface) Unit) (object : α) :
    EStateM Fault CommandInterface (Option α) := fun cmd ↦
  match destroy (object, cmd) with
  | .ok () (_, cmd) => .ok none cmd
  | .error (.err _) (object, cmd) => .ok (some object) cmd
  | .error (.panic reason) (_, cmd) => .error (.panic reason) cmd

/-- Run a computation whose error is only logged. -/
def logError (m : EStateM Fault CommandInterface Unit) : EStateM Fault CommandInterface Unit :=
  fun cmd ↦
    match m cmd with
    | .error (.err _) cmd => .ok () cmd
    | result => result

/-- The `retain_mut` passes of `UContext::destroy`, `mod.rs:708-731`: the objects that could
not be destroyed. -/
def retainMut {α : Type} (destroy : EStateM Fault (α × CommandInterface) Unit) :
    List α → EStateM Fault CommandInterface (List α)
  | [] => pure []
  | object :: rest => do
    let kept ← destroyOne destroy object
    let others ← retainMut destroy rest
    return kept.toList ++ others

namespace UContext

/-- `uar_index`, `mod.rs:683`. -/
def uarIndex (ctx : UContext) : Nat := ctx.uarPage.index % 2 ^ 32

/-- `UContext::destroy`, `mod.rs:706`; an object that is kept is one that failed. -/
def destroy (caps : Capabilities) : EStateM Fault (UContext × CommandInterface) Unit := do
  let (ctx, _) ← get
  let onCmd {β : Type} : EStateM Fault CommandInterface β →
    EStateM Fault (UContext × CommandInterface) β := zoom Prod.snd fun cmd s ↦ (s.1, cmd)
  let qps ← onCmd (retainMut (QueuePair.destroy caps) ctx.qps)
  let mrs ← onCmd (retainMut MemoryRegion.destroy ctx.mrs)
  let cqs ← onCmd (retainMut CompletionQueue.destroy ctx.cqs)
  modify fun s ↦ ({ ctx with qps := qps, mrs := mrs, cqs := cqs }, s.2)
  if qps.isEmpty && mrs.isEmpty && cqs.isEmpty then return ()
  else throw (.err "failed to destroy all resources of the context")

end UContext

/-- What a verb works on: the context it names, the card and the numbers of protection
domains in use. -/
structure Session where
  ctx : UContext
  card : Card
  pdNumbers : Std.ExtTreeSet Nat

/-- Run a computation on the object at an index of a vector. -/
def runAt {α β : Type} (m : EStateM Fault (α × CommandInterface) β) (index : Nat) :
    EStateM Fault (List α × CommandInterface) β := fun s ↦
  match s.1[index]? with
  | none => .error (.panic .unwrapNone) s
  | some object =>
    match m (object, s.2) with
    | .ok b (object, cmd) => .ok b (s.1.set index object, cmd)
    | .error e (object, cmd) => .error e (s.1.set index object, cmd)

namespace Session

/-- Run a computation on the card. -/
def onCard {α : Type} : EStateM Fault Card α → EStateM Fault Session α :=
  zoom Session.card fun card s ↦ { s with card := card }

/-- Run a computation on the completion queues of the context. -/
def onCqs {α : Type} :
    EStateM Fault (List CompletionQueue × CommandInterface) α → EStateM Fault Session α :=
  zoom (fun s ↦ (s.ctx.cqs, s.card.cmd)) fun t s ↦
    { s with ctx := { s.ctx with cqs := t.1 }, card := { s.card with cmd := t.2 } }

/-- Run a computation on the queue pairs of the context. -/
def onQps {α : Type} :
    EStateM Fault (List QueuePair × CommandInterface) α → EStateM Fault Session α :=
  zoom (fun s ↦ (s.ctx.qps, s.card.cmd)) fun t s ↦
    { s with ctx := { s.ctx with qps := t.1 }, card := { s.card with cmd := t.2 } }

/-- Run a computation on the memory regions of the context. -/
def onMrs {α : Type} :
    EStateM Fault (List MemoryRegion × CommandInterface) α → EStateM Fault Session α :=
  zoom (fun s ↦ (s.ctx.mrs, s.card.cmd)) fun t s ↦
    { s with ctx := { s.ctx with mrs := t.1 }, card := { s.card with cmd := t.2 } }

end Session

/-- What a verb returns when it succeeds. -/
inductive Answer where
  | done
  | number (n : Nat)
  | region (metadata : MemoryRegionMetadata)
  deriving DecidableEq, Repr

/-- The size in bytes of the response with the answer. -/
def Answer.size : Answer → Nat
  | number _ => 4
  | region _ => 12
  | done => 0

namespace Session

/-- `alloc_pd`, `mod.rs:422`. -/
def allocPd (caps : Capabilities) : EStateM Fault Session Answer := do
  let s ← get
  let first := caps.numRsvdPds.toNat
  let count := 2 ^ caps.logMaxPd.toNat
  let pd ← lift (okOr "No protection domains available"
    ((List.range' first count).find? fun pd ↦ !s.pdNumbers.contains pd))
  set { s with pdNumbers := s.pdNumbers.insert pd, ctx := { s.ctx with pds := s.ctx.pds ++ [pd] } }
  return .number pd

/-- `dealloc_pd`, `mod.rs:435`. -/
def deallocPd (pd : Nat) : EStateM Fault Session Answer := do
  let s ← get
  let index ← lift (okOr "PD not found" (s.ctx.pds.findIdx? fun p ↦ p == pd))
  set { s with
    ctx := { s.ctx with pds := swapRemove s.ctx.pds index }
    pdNumbers := s.pdNumbers.erase pd }
  return .done

/-- `create_cq`, `mod.rs:446`; the query of the new queue is only logged. -/
def createCq (caps : Capabilities) (eqNumber : Option Nat) (process : Process)
    (params : CompletionQueue.Params) : EStateM Fault Session Answer := do
  let s ← get
  let cq ← onCard (CompletionQueue.new caps eqNumber process params s.ctx.uarIndex)
  onCard (Card.withCmd (logError cq.query))
  modify fun s ↦ { s with ctx := { s.ctx with cqs := s.ctx.cqs ++ [cq] } }
  return .number cq.number

/-- `destroy_cq`, `mod.rs:474`. -/
def destroyCq (number : Nat) : EStateM Fault Session Answer := do
  let s ← get
  let index ← lift (okOr "completion queue not found"
    (s.ctx.cqs.findIdx? fun cq ↦ cq.number == number))
  onCqs (runAt CompletionQueue.destroy index)
  modify fun s ↦ { s with ctx := { s.ctx with cqs := s.ctx.cqs.eraseIdx index } }
  return .done

/-- `create_qp`, `mod.rs:483`. -/
def createQp (caps : Capabilities) (process : Process) (params : QueuePair.Params) :
    EStateM Fault Session Answer := do
  let s ← get
  if params.pd ∉ s.ctx.pds then throw (.err "PD not found")
  else if s.ctx.cqs.all fun cq ↦ cq.number != params.sendCqNumber then
    throw (.err "send completion queue not found")
  else if s.ctx.cqs.all fun cq ↦ cq.number != params.receiveCqNumber then
    throw (.err "receive completion queue not found")
  else
    let qp ← onCard (QueuePair.new caps process params s.ctx.uarIndex)
    modify fun s ↦ { s with ctx := { s.ctx with qps := s.ctx.qps ++ [qp] } }
    return .number qp.number

/-- `modify_qp`, `mod.rs:525`. -/
def modifyQp (caps : Capabilities) (number : Nat) (attr : QueuePairAttr)
    (attrMask : QueuePairAttrMask) : EStateM Fault Session Answer := do
  let s ← get
  let index ← lift (okOr "queue pair not found"
    (s.ctx.qps.findIdx? fun qp ↦ qp.number == number))
  onQps (runAt (QueuePair.modify caps attr attrMask) index)
  return .done

/-- `destroy_qp`, `mod.rs:532`. -/
def destroyQp (caps : Capabilities) (number : Nat) : EStateM Fault Session Answer := do
  let s ← get
  let index ← lift (okOr "queue pair not found"
    (s.ctx.qps.findIdx? fun qp ↦ qp.number == number))
  onQps (runAt (QueuePair.destroy caps) index)
  modify fun s ↦ { s with ctx := { s.ctx with qps := swapRemove s.ctx.qps index } }
  return .done

/-- `create_mr`, `mod.rs:543`. -/
def createMr (caps : Capabilities) (process : Process) (pd : Nat) (data : UserSlice)
    (access : AccessFlags) : EStateM Fault Session Answer := do
  let s ← get
  if pd ∉ s.ctx.pds then throw (.err "PD not found")
  else
    let (mr, metadata) ← onCard (allocDmpt caps process pd data none access)
    modify fun s ↦ { s with ctx := { s.ctx with mrs := s.ctx.mrs ++ [mr] } }
    return .region metadata

/-- `destroy_mr`, `mod.rs:560`. -/
def destroyMr (index : Nat) : EStateM Fault Session Answer := do
  let s ← get
  let position ← lift (okOr "dmpt entry not found"
    (s.ctx.mrs.findIdx? fun mr ↦ mr.index == some index))
  onMrs (runAt MemoryRegion.destroy position)
  modify fun s ↦ { s with ctx := { s.ctx with mrs := swapRemove s.ctx.mrs position } }
  return .done

end Session

/-- A verb on a context and its arguments. -/
inductive Verb where
  | allocPd
  | deallocPd (pd : Nat)
  | createCq (params : CompletionQueue.Params)
  | destroyCq (number : Nat)
  | createQp (params : QueuePair.Params)
  | modifyQp (number : Nat) (attr : QueuePairAttr) (attrMask : QueuePairAttrMask)
  | destroyQp (number : Nat)
  | createMr (pd : Nat) (data : UserSlice) (access : AccessFlags)
  | destroyMr (index : Nat)
  deriving DecidableEq

/-- `Mlx4Device`, `mod.rs:90`, as far as the verbs use it; `eqNumber` is the number of the first
event queue. -/
structure Mlx4Device where
  capabilities : Capabilities
  card : Card
  contexts : Std.ExtTreeMap Nat UContext
  nextContext : Nat
  pdNumbers : Std.ExtTreeSet Nat
  eqNumber : Option Nat
  uarList : List UarPage

namespace Mlx4Device

/-- `context_of`, `mod.rs:654`. -/
def contextOf (dev : Mlx4Device) (handle : Nat) (process : Process) : Option UContext :=
  dev.contexts[handle]?.filter fun ctx ↦ ctx.owner == process.id

/-- The body of a verb on the context it names. -/
def body (dev : Mlx4Device) (process : Process) : Verb → EStateM Fault Session Answer
  | .allocPd => Session.allocPd dev.capabilities
  | .deallocPd pd => Session.deallocPd pd
  | .createCq params => Session.createCq dev.capabilities dev.eqNumber process params
  | .destroyCq number => Session.destroyCq number
  | .createQp params => Session.createQp dev.capabilities process params
  | .modifyQp number attr attrMask => Session.modifyQp dev.capabilities number attr attrMask
  | .destroyQp number => Session.destroyQp dev.capabilities number
  | .createMr pd data access => Session.createMr dev.capabilities process pd data access
  | .destroyMr index => Session.destroyMr index

/-- Write back what a verb has changed. -/
def store (dev : Mlx4Device) (handle : Nat) (s : Session) : Mlx4Device :=
  { dev with
    contexts := dev.contexts.insert handle s.ctx
    card := s.card
    pdNumbers := s.pdNumbers }

/-- A verb called by a process with the handle of a context. -/
def perform (process : Process) (handle : Nat) (verb : Verb) : EStateM Fault Mlx4Device Answer :=
  fun dev ↦
    match dev.contextOf handle process with
    | none => .error (.err "context not found") dev
    | some ctx =>
      zoom (fun dev ↦ ⟨ctx, dev.card, dev.pdNumbers⟩) (fun s dev ↦ dev.store handle s)
        (dev.body process verb) dev

/-- `open`, `mod.rs:284`, with the faults of the two mappings. -/
def openContext (owner : Nat) (doorbellFaults blueflameFaults : MapFaults) :
    EStateM Fault (Mlx4Device × Mapping) UContext := fun s ↦
  let (dev, mapping) := s
  let handle := dev.nextContext
  if 2 ^ 32 ≤ handle + 1 then .error (.err "No context handle available") s
  else
    match dev.uarList.getLast? with
    | none => .error (.err "No UAR page available") s
    | some uarPage =>
      let dev := { dev with uarList := dev.uarList.dropLast }
      match uarPage.mapPages doorbellFaults blueflameFaults mapping with
      | .error (.panic reason) mapping => .error (.panic reason) (dev, mapping)
      | .error (.err message) mapping =>
        .error (.err message) ({ dev with uarList := dev.uarList ++ [uarPage] }, mapping)
      | .ok (doorbellPage, blueflamePage) mapping =>
        let context : UContext :=
          ⟨handle, owner, uarPage, doorbellPage, blueflamePage, [], [], [], []⟩
        let contexts := dev.contexts.insertIfNew handle context
        .ok (contexts.getD handle context)
          ({ dev with nextContext := handle + 1, contexts := contexts }, mapping)

/-- The loop of `release` over the handles of the contexts of the process, `mod.rs:321-339`. -/
def releaseLoop : List Nat → Except Fault Unit → EStateM Fault Mlx4Device Unit
  | [], result => lift result
  | handle :: rest, result => do
    let dev ← get
    match dev.contexts[handle]? with
    | none => releaseLoop rest result
    | some ctx =>
      match UContext.destroy dev.capabilities (ctx, dev.card.cmd) with
      | .error (.panic reason) _ => throw (.panic reason)
      | .error (.err message) (ctx, cmd) =>
        set { dev with
          card := { dev.card with cmd := cmd }
          contexts := (dev.contexts.erase handle).insert handle ctx }
        releaseLoop rest (.error (.err message))
      | .ok () (ctx, cmd) =>
        set { dev with
          card := { dev.card with cmd := cmd }
          contexts := dev.contexts.erase handle
          pdNumbers := ctx.pds.foldl (fun pds pd ↦ pds.erase pd) dev.pdNumbers
          uarList := dev.uarList ++ [ctx.uarPage] }
        releaseLoop rest result

/-- The handles of the contexts of a process, in the order of the map. -/
def handlesOf (dev : Mlx4Device) (pid : Nat) : List Nat :=
  (dev.contexts.toList.filter fun entry ↦ entry.2.owner == pid).map Prod.fst

/-- `release`, `mod.rs:318`. -/
def release (pid : Nat) : EStateM Fault Mlx4Device Unit := do
  let dev ← get
  releaseLoop (dev.handlesOf pid) (.ok ())

end Mlx4Device

end D3OS.Mlx4

import D3OS.Base.Overflow
import D3OS.Memory.UserCopy
import D3OS.Mlx4.Device

/-!
# The system call for verbs

`os/kernel/src/device/infiniband/uverbs.rs` and `uverbs_cmd.rs`. A command copies its request
in, performs the operation of the device and copies the response out, each step with its own
errors. The bytes of the process are not modelled: a command comes with the request that its
input slice holds, and the responses that were written are listed.
-/

namespace D3OS.Uverbs

open Lib Memory Mlx4 Rdma

/-- `DeviceAttr`, `ib_core.rs:72`. -/
structure DeviceAttr where
  fwVerMajor : UInt16
  fwVerMinor : UInt16
  fwVerSubminor : UInt16
  physPortCnt : UInt8
  deriving DecidableEq, Repr

/-- `PortAttr`, `ib_core.rs:214`, with the discriminants of the states. -/
structure PortAttr where
  state : Nat
  maxMtu : Mtu
  activeMtu : Mtu
  portCapFlags : UInt32
  lid : UInt16
  smLid : UInt16
  lmc : UInt8
  linkLayer : UInt8
  physState : Nat
  deriving DecidableEq, Repr

/-- `Port`, `port.rs:14`: what `query_single` makes of the answers of the card, by the number
of the attempt, and the attempts so far. -/
structure Port where
  answers : Nat → Except String PortAttr
  attempts : Nat

/-- The attempts of `Port::query`, `port.rs:88`, with the error of the last one. -/
def Port.queryLoop : Nat → Option String → EStateM Fault Port PortAttr
  | 0, none => throw (.panic .unwrapNone)
  | 0, some message => throw (.err message)
  | left + 1, _ => do
    let port ← get
    set { port with attempts := port.attempts + 1 }
    match port.answers port.attempts with
    | .ok attr => return attr
    | .error message => queryLoop left (some message)

/-- `Port::query`, `port.rs:88`. -/
def Port.query : EStateM Fault Port PortAttr := Port.queryLoop 5 none

/-- `Mlx4Device`, `mod.rs:90`, with what the queries read. -/
structure Device where
  handle : Nat
  firmware : UInt16 × UInt16 × UInt16
  ports : List Port
  mlx4 : Mlx4Device

namespace Device

/-- `query_device`, `mod.rs:346`. -/
def queryDevice : EStateM Fault Device DeviceAttr := do
  let dev ← get
  if dev.ports.length < 2 ^ 8 then
    let (major, minor, subminor) := dev.firmware
    return ⟨major, minor, subminor, UInt8.ofNat dev.ports.length⟩
  else throw (.panic .unwrapNone)

/-- The port with a number, counted from 1. -/
def port (dev : Device) (portNum : UInt8) : Option Port :=
  if portNum = 0 then none else dev.ports[portNum.toNat - 1]?

/-- `query_port`, `mod.rs:409`; the check for an internal error only logs. -/
def queryPort (portNum : UInt8) : EStateM Fault Device PortAttr := do
  let dev ← get
  let port ← lift (okOr "port does not exist" (dev.port portNum))
  zoom (fun _ ↦ port)
    (fun port dev ↦ { dev with ports := dev.ports.set (portNum.toNat - 1) port }) Port.query

end Device

/-- `UverbsCmd`, `uverbs_uapi.rs:6`, with the request that the command reads from its input
slice. -/
inductive UverbsCmd where
  | queryDevice
  | queryPort (portNum : UInt8)
  | queryDevices
  | openDevice
  | allocPd (context : Nat)
  | deallocPd (context pd : Nat)
  | createCq (context : Nat) (params : CompletionQueue.Params)
  | destroyCq (context handle : Nat)
  | createQp (context : Nat) (params : QueuePair.Params)
  | modifyQp (context qpNum : Nat) (attr : QueuePairAttr) (attrMask : QueuePairAttrMask)
  | queryQp
  | destroyQp (context handle : Nat)
  | regMr (context pd : Nat) (data : UserSlice) (access : AccessFlags)
  | deregMr (context handle : Nat)
  | setMrSize
  deriving DecidableEq

/-- `OpenDeviceResponse`, `uverbs_uapi.rs:197`. -/
structure OpenDeviceResponse where
  context : Nat
  doorbellPage : VirtAddr
  blueflamePage : VirtAddr
  deriving DecidableEq

/-- What is written to the output slice. -/
inductive Response where
  | devices (handles : List Nat)
  | device (attr : DeviceAttr)
  | port (attr : PortAttr)
  | opened (response : OpenDeviceResponse)
  | answer (answer : Answer)

/-- The size of a response in bytes: `DeviceHandle`s, `DeviceAttr`, `PortAttr`,
`OpenDeviceResponse`, the three responses with a number, and `CreateMrResponse`. -/
def Response.size : Response → Nat
  | devices handles => 8 * handles.length
  | device _ => 8
  | port _ => 20
  | opened _ => 24
  | answer a => a.size

namespace SizeOf

/-! The sizes of the requests in bytes, `uverbs_uapi.rs:88-193`. -/

def queryPortRequest : Nat := 1
def allocPdRequest : Nat := 4
def deallocPdRequest : Nat := 8
def destroyRequest : Nat := 8
def createMrRequest : Nat := 32
def createCqRequest : Nat := 24
def createQpRequest : Nat := 48
def modifyQpRequest : Nat := 100

end SizeOf

/-- What a call works on: the devices, the address space of the calling process with the
frames for its page tables, and what has been written to the process. -/
structure Kernel where
  devices : List Device
  mapping : Mapping
  written : List (Nat × Response)

namespace Kernel

/-- Run a computation on the address space of the process. -/
def onMapping {ε α : Type} : EStateM ε Mapping α → EStateM ε Kernel α :=
  zoom Kernel.mapping fun mapping k ↦ { k with mapping := mapping }

end Kernel

/-- `log_error_and_invalid`, `uverbs.rs:113`: an error becomes `EINVAL`. -/
def logErrorAndInvalid {σ α : Type} (m : EStateM Fault σ α) : EStateM (Stop Errno) σ α := fun s ↦
  match m s with
  | .ok a s => .ok a s
  | .error (.err _) s => .error (.error .einval) s
  | .error (.panic reason) s => .error (.panic reason) s

/-- `copy_from_user`, `uverbs.rs:119`, of a request of the given size. -/
def copyFromUser (userIn : UserSlice) (size : Nat) : EStateM (Stop Errno) Kernel Unit := do
  if userIn.address = 0 ∨ userIn.size < size then throw (.error .einval)
  else
    let addr ← lift (orStop (VirtAddr.new userIn.address))
    Kernel.onMapping
      (mapStop (fun _ ↦ .efault) (VirtualAddressSpace.copyBytesFromUser addr size))

/-- A copy to the output slice, with the value that the call returns then. -/
def copyResponse (userOut : UserSlice) (response : Response) (result : Nat) :
    EStateM (Stop Errno) Kernel Nat := do
  if userOut.address = 0 ∨ userOut.size < response.size then throw (.error .einval)
  else
    let addr ← lift (orStop (VirtAddr.new userOut.address))
    Kernel.onMapping
      (mapStop (fun _ ↦ .efault) (VirtualAddressSpace.copyBytesToUser addr response.size))
    modify fun k ↦ { k with written := k.written ++ [(userOut.address, response)] }
    return result

/-- `copy_to_user`, `uverbs.rs:142`. -/
def copyToUser (userOut : UserSlice) (response : Response) : EStateM (Stop Errno) Kernel Nat :=
  copyResponse userOut response 0

/-- `copy_slice_to_user`, `uverbs.rs:161`. -/
def copySliceToUser (userOut : UserSlice) (handles : List Nat) :
    EStateM (Stop Errno) Kernel Nat :=
  copyResponse userOut (.devices handles) handles.length

/-- `device_handle_to_idx`, `mod.rs:74`. -/
def deviceHandleToIdx (mode : Overflow) (handle : Nat) : Except Panic Nat := mode.sub 64 handle 1

/-- Run an operation on the device with a handle and on the address space of the process. -/
def withDevice {α : Type} (mode : Overflow) (deviceHandle : Nat)
    (m : EStateM Fault (Device × Mapping) α) : EStateM Fault Kernel α := fun k ↦
  match deviceHandleToIdx mode deviceHandle with
  | .error reason => .error (.panic reason) k
  | .ok index =>
    match k.devices[index]? with
    | none => .error (.err "Device not found") k
    | some dev =>
      zoom (fun k ↦ (dev, k.mapping))
        (fun s k ↦ { k with devices := k.devices.set index s.1, mapping := s.2 }) m k

/-- Run an operation of the driver on the device with a handle. -/
def withMlx4 {α : Type} (mode : Overflow) (deviceHandle : Nat)
    (m : EStateM Fault (Mlx4Device × Mapping) α) : EStateM Fault Kernel α :=
  withDevice mode deviceHandle
    (zoom (fun s ↦ (s.1.mlx4, s.2)) (fun t s ↦ ({ s.1 with mlx4 := t.1 }, t.2)) m)

section

variable (mode : Overflow) (deviceHandle pid : Nat)

/-- `uverbs_query_devices`, `uverbs_cmd.rs:12`. -/
def uverbsQueryDevices (maxLen : Nat) (k : Kernel) : List Nat :=
  (k.devices.map Device.handle).take maxLen

/-- `uverbs_open_device`, `uverbs_cmd.rs:16`. -/
def uverbsOpenDevice (faults : MapFaults × MapFaults) :
    EStateM Fault Kernel OpenDeviceResponse := do
  let ctx ← withMlx4 mode deviceHandle (Mlx4Device.openContext pid faults.1 faults.2)
  return ⟨ctx.handle, ctx.doorbellPage.startAddress, ctx.blueflamePage.startAddress⟩

/-- `uverbs_query_device`, `uverbs_cmd.rs:26`. -/
def uverbsQueryDevice : EStateM Fault Kernel DeviceAttr :=
  withDevice mode deviceHandle (zoom Prod.fst (fun dev s ↦ (dev, s.2)) Device.queryDevice)

/-- `uverbs_query_port`, `uverbs_cmd.rs:32`. -/
def uverbsQueryPort (portNum : UInt8) : EStateM Fault Kernel PortAttr :=
  withDevice mode deviceHandle (zoom Prod.fst (fun dev s ↦ (dev, s.2)) (Device.queryPort portNum))

/-- A verb on a context of the device. -/
def uverbsPerform (context : Nat) (verb : Verb) : EStateM Fault Kernel Answer := do
  let k ← get
  withMlx4 mode deviceHandle (zoom Prod.fst (fun dev s ↦ (dev, s.2))
    (Mlx4Device.perform ⟨pid, k.mapping.1⟩ context verb))

/-- Another text in place of that of an error. -/
def withMessage {σ α : Type} (message : String) (m : EStateM Fault σ α) : EStateM Fault σ α :=
  fun s ↦
    match m s with
    | .error (.err _) s => .error (.err message) s
    | result => result

/-- `uverbs_register_mem_region`, `uverbs_cmd.rs:38`. -/
def uverbsRegisterMemRegion (context pd : Nat) (data : UserSlice) (access : AccessFlags) :
    EStateM Fault Kernel Answer :=
  withMessage "failed to create memory region"
    (uverbsPerform mode deviceHandle pid context (.createMr pd data access))

/-- `uverbs_create_cq`, `uverbs_cmd.rs:50`. -/
def uverbsCreateCq (context : Nat) (params : CompletionQueue.Params) :
    EStateM Fault Kernel Answer :=
  uverbsPerform mode deviceHandle pid context (.createCq params)

/-- `uverbs_create_qp`, `uverbs_cmd.rs:60`. -/
def uverbsCreateQp (context : Nat) (params : QueuePair.Params) : EStateM Fault Kernel Answer :=
  uverbsPerform mode deviceHandle pid context (.createQp params)

/-- `uverbs_modify_qp`, `uverbs_cmd.rs:80`. -/
def uverbsModifyQp (context qpNum : Nat) (attr : QueuePairAttr) (attrMask : QueuePairAttrMask) :
    EStateM Fault Kernel Answer :=
  uverbsPerform mode deviceHandle pid context (.modifyQp qpNum attr attrMask)

/-- `uverbs_destroy`, `uverbs_cmd.rs:92`, with the verb that destroys the object. -/
def uverbsDestroy (destroy : Nat → Verb) (context handle : Nat) : EStateM Fault Kernel Answer :=
  uverbsPerform mode deviceHandle pid context (destroy handle)

/-- `uverbs_alloc_pd`, `uverbs_cmd.rs:102`. -/
def uverbsAllocPd (context : Nat) : EStateM Fault Kernel Answer :=
  uverbsPerform mode deviceHandle pid context .allocPd

/-- `uverbs_dealloc_pd`, `uverbs_cmd.rs:110`. -/
def uverbsDeallocPd (context pd : Nat) : EStateM Fault Kernel Answer :=
  uverbsPerform mode deviceHandle pid context (.deallocPd pd)

end

/-- `dispatch`, `uverbs.rs:42`; `faults` are those of the mappings that `open` makes. -/
def dispatch (mode : Overflow) (faults : MapFaults × MapFaults) (pid deviceHandle : Nat)
    (userIn userOut : UserSlice) : UverbsCmd → EStateM (Stop Errno) Kernel Nat
  | .queryDevices => do
    let k ← get
    copySliceToUser userOut (uverbsQueryDevices (userOut.size / 8) k)
  | .queryDevice => do
    let attr ← logErrorAndInvalid (uverbsQueryDevice mode deviceHandle)
    copyToUser userOut (.device attr)
  | .queryPort portNum => do
    copyFromUser userIn SizeOf.queryPortRequest
    let attr ← logErrorAndInvalid (uverbsQueryPort mode deviceHandle portNum)
    copyToUser userOut (.port attr)
  | .regMr context pd data access => do
    copyFromUser userIn SizeOf.createMrRequest
    let answer ← logErrorAndInvalid
      (uverbsRegisterMemRegion mode deviceHandle pid context pd data access)
    copyToUser userOut (.answer answer)
  | .createCq context params => do
    copyFromUser userIn SizeOf.createCqRequest
    let answer ← logErrorAndInvalid (uverbsCreateCq mode deviceHandle pid context params)
    copyToUser userOut (.answer answer)
  | .createQp context params => do
    copyFromUser userIn SizeOf.createQpRequest
    let answer ← logErrorAndInvalid (uverbsCreateQp mode deviceHandle pid context params)
    copyToUser userOut (.answer answer)
  | .modifyQp context qpNum attr attrMask => do
    copyFromUser userIn SizeOf.modifyQpRequest
    let _ ← logErrorAndInvalid (uverbsModifyQp mode deviceHandle pid context qpNum attr attrMask)
    return 0
  | .destroyCq context handle => do
    copyFromUser userIn SizeOf.destroyRequest
    let _ ← logErrorAndInvalid (uverbsDestroy mode deviceHandle pid .destroyCq context handle)
    return 0
  | .destroyQp context handle => do
    copyFromUser userIn SizeOf.destroyRequest
    let _ ← logErrorAndInvalid (uverbsDestroy mode deviceHandle pid .destroyQp context handle)
    return 0
  | .deregMr context handle => do
    copyFromUser userIn SizeOf.destroyRequest
    let _ ← logErrorAndInvalid (uverbsDestroy mode deviceHandle pid .destroyMr context handle)
    return 0
  | .queryQp | .setMrSize => throw (.error .enotsup)
  | .openDevice => do
    let response ← logErrorAndInvalid (uverbsOpenDevice mode deviceHandle pid faults)
    copyToUser userOut (.opened response)
  | .allocPd context => do
    copyFromUser userIn SizeOf.allocPdRequest
    let answer ← logErrorAndInvalid (uverbsAllocPd mode deviceHandle pid context)
    copyToUser userOut (.answer answer)
  | .deallocPd context pd => do
    copyFromUser userIn SizeOf.deallocPdRequest
    let _ ← logErrorAndInvalid (uverbsDeallocPd mode deviceHandle pid context pd)
    return 0

/-- The size of the request of a command, for the commands with one. -/
def UverbsCmd.requestSize : UverbsCmd → Option Nat
  | queryPort _ => some SizeOf.queryPortRequest
  | allocPd _ => some SizeOf.allocPdRequest
  | deallocPd _ _ => some SizeOf.deallocPdRequest
  | createCq _ _ => some SizeOf.createCqRequest
  | createQp _ _ => some SizeOf.createQpRequest
  | modifyQp _ _ _ _ => some SizeOf.modifyQpRequest
  | regMr _ _ _ _ => some SizeOf.createMrRequest
  | destroyCq _ _ | destroyQp _ _ | deregMr _ _ => some SizeOf.destroyRequest
  | queryDevice | queryDevices | openDevice | queryQp | setMrSize => none

/-- The first part of a call: the copy of the request. -/
def copyRequest (userIn : UserSlice) (cmd : UverbsCmd) : EStateM (Stop Errno) Kernel Unit :=
  match cmd.requestSize with
  | none => pure ()
  | some size => copyFromUser userIn size

/-- The second part of a call: the operation of the device, with its response. -/
def operate (mode : Overflow) (faults : MapFaults × MapFaults) (pid deviceHandle : Nat)
    (userOut : UserSlice) : UverbsCmd → EStateM Fault Kernel (Option Response)
  | .queryDevices => do
    let k ← get
    return some (.devices (uverbsQueryDevices (userOut.size / 8) k))
  | .queryDevice => do
    let attr ← uverbsQueryDevice mode deviceHandle
    return some (.device attr)
  | .queryPort portNum => do
    let attr ← uverbsQueryPort mode deviceHandle portNum
    return some (.port attr)
  | .regMr context pd data access => do
    let answer ← uverbsRegisterMemRegion mode deviceHandle pid context pd data access
    return some (.answer answer)
  | .createCq context params => do
    let answer ← uverbsCreateCq mode deviceHandle pid context params
    return some (.answer answer)
  | .createQp context params => do
    let answer ← uverbsCreateQp mode deviceHandle pid context params
    return some (.answer answer)
  | .modifyQp context qpNum attr attrMask => do
    let _ ← uverbsModifyQp mode deviceHandle pid context qpNum attr attrMask
    return none
  | .destroyCq context handle => do
    let _ ← uverbsDestroy mode deviceHandle pid .destroyCq context handle
    return none
  | .destroyQp context handle => do
    let _ ← uverbsDestroy mode deviceHandle pid .destroyQp context handle
    return none
  | .deregMr context handle => do
    let _ ← uverbsDestroy mode deviceHandle pid .destroyMr context handle
    return none
  | .queryQp | .setMrSize => return none
  | .openDevice => do
    let response ← uverbsOpenDevice mode deviceHandle pid faults
    return some (.opened response)
  | .allocPd context => do
    let answer ← uverbsAllocPd mode deviceHandle pid context
    return some (.answer answer)
  | .deallocPd context pd => do
    let _ ← uverbsDeallocPd mode deviceHandle pid context pd
    return none

/-- What a call returns once its response is written. -/
def Response.result : Response → Nat
  | devices handles => handles.length
  | _ => 0

/-- The third part of a call: the copy of the response. -/
def respond (userOut : UserSlice) : Option Response → EStateM (Stop Errno) Kernel Nat
  | none => pure 0
  | some response => copyResponse userOut response response.result

/-- The commands that are not implemented. -/
def UverbsCmd.Unsupported (cmd : UverbsCmd) : Prop := cmd = .queryQp ∨ cmd = .setMrSize

/-- The error of a call for the fault of an operation. -/
def toStop : Fault → Stop Errno
  | .err _ => .error .einval
  | .panic reason => .panic reason

/-- An error stays one. -/
@[simp] theorem isError_toStop {e : Fault} : (toStop e).IsError ↔ e.IsErr := by
  cases e <;> exact Iff.rfl

@[simp] private theorem ends_logErrorAndInvalid {σ α : Type} {m : EStateM Fault σ α} {s : σ}
    {Q : α → σ → Prop} {E : Stop Errno → σ → Prop} :
    Ends (logErrorAndInvalid m) s Q E ↔ Ends m s Q fun e s' ↦ E (toStop e) s' := by
  unfold Ends logErrorAndInvalid
  cases m s with
  | ok a s' => exact Iff.rfl
  | error e s' =>
    cases e with
    | err message | panic reason => exact Iff.rfl

section

variable {α : Type} {mode : Overflow} {deviceHandle : Nat} {k : Kernel}

/-- The rule for `onMapping`. -/
@[simp] theorem ends_onMapping {ε : Type} {m : EStateM ε Mapping α} {Q : α → Kernel → Prop}
    {E : ε → Kernel → Prop} :
    Ends (Kernel.onMapping m) k Q E ↔
      Ends m k.mapping (fun a mapping ↦ Q a { k with mapping := mapping })
        fun e mapping ↦ E e { k with mapping := mapping } := ends_zoom

/-- The device that an operation works on. -/
def Kernel.device (mode : Overflow) (k : Kernel) (deviceHandle : Nat) : Option Device :=
  match deviceHandleToIdx mode deviceHandle with
  | .ok index => k.devices[index]?
  | .error _ => none

/-- Write a device back. -/
def Kernel.setDevice (mode : Overflow) (k : Kernel) (deviceHandle : Nat) (dev : Device)
    (mapping : Mapping) : Kernel :=
  match deviceHandleToIdx mode deviceHandle with
  | .ok index => { k with devices := k.devices.set index dev, mapping := mapping }
  | .error _ => k

/-- An operation runs on the device with the handle, provided that there is one. -/
theorem ends_withDevice {m : EStateM Fault (Device × Mapping) α} {Q : α → Kernel → Prop}
    {E : Fault → Kernel → Prop} :
    Ends (withDevice mode deviceHandle m) k Q E ↔
      (∀ reason, deviceHandleToIdx mode deviceHandle = .error reason → E (.panic reason) k) ∧
      (∀ index, deviceHandleToIdx mode deviceHandle = .ok index →
        k.device mode deviceHandle = none → E (.err "Device not found") k) ∧
      ∀ dev, k.device mode deviceHandle = some dev →
        Ends m (dev, k.mapping) (fun a s ↦ Q a (k.setDevice mode deviceHandle s.1 s.2))
          fun e s ↦ E e (k.setDevice mode deviceHandle s.1 s.2) := by
  cases hindex : deviceHandleToIdx mode deviceHandle with
  | error reason => simp [Ends, withDevice, Kernel.device, hindex]
  | ok index =>
    have hdevice : k.device mode deviceHandle = k.devices[index]? := by
      simp only [Kernel.device, hindex]
    have hset : ∀ dev mapping, k.setDevice mode deviceHandle dev mapping =
        { k with devices := k.devices.set index dev, mapping := mapping } := by
      simp only [Kernel.setDevice, hindex, implies_true]
    cases hdev : k.devices[index]? with
    | none =>
      simp [Ends, withDevice, hindex, hdev, hdevice]
    | some dev =>
      rw [hdev] at hdevice
      have hzoom : Ends (withDevice mode deviceHandle m) k Q E ↔
          Ends (zoom (fun k ↦ (dev, k.mapping))
            (fun s k ↦ { k with devices := k.devices.set index s.1, mapping := s.2 }) m) k Q E := by
        unfold Ends withDevice
        simp only [hindex, hdev]
      rw [hzoom, ends_zoom]
      simp [hset, hdevice]

end

section

variable {mode : Overflow} {faults : MapFaults × MapFaults} {pid deviceHandle : Nat}
  {userIn userOut : UserSlice} {cmd : UverbsCmd} {k : Kernel} {Q : Nat → Kernel → Prop}
  {E : Stop Errno → Kernel → Prop}

/-- A command that is not implemented does nothing. -/
theorem ends_dispatch_of_unsupported (h : cmd.Unsupported) :
    Ends (dispatch mode faults pid deviceHandle userIn userOut cmd) k Q E ↔
      E (.error .enotsup) k := by
  rcases h with rfl | rfl
  · exact Iff.rfl
  · exact Iff.rfl

/-- The other commands have the three parts. -/
theorem ends_dispatch (h : ¬ cmd.Unsupported) :
    Ends (dispatch mode faults pid deviceHandle userIn userOut cmd) k Q E ↔
      Ends (copyRequest userIn cmd) k (fun _ k₁ ↦
        Ends (operate mode faults pid deviceHandle userOut cmd) k₁
          (fun response k₂ ↦ Ends (respond userOut response) k₂ Q E)
          fun e k₂ ↦ E (toStop e) k₂) E := by
  cases cmd with
  | queryQp => exact absurd (.inl rfl) h
  | setMrSize => exact absurd (.inr rfl) h
  | _ =>
    simp only [dispatch, copyRequest, UverbsCmd.requestSize, operate, respond, copyToUser,
      copySliceToUser, Response.result, ends_bind, ends_pure, ends_get, ends_logErrorAndInvalid]

end

end D3OS.Uverbs

import D3OS.Mlx4.Objects
import D3OS.Uverbs.Dispatch

/-!
# What a failed call leaves behind

A verb that fails leaves the objects of the devices as they were, unless the card refuses to
report on a memory region that it has accepted. A call that fails does not: the response is copied
to the process after the operation, and the error of that copy is returned with the object in
place.
-/

namespace D3OS.Uverbs

open Lib Memory Mlx4

/-- The objects of all devices. -/
def Kernel.objects (k : Kernel) : List DeviceObjects := k.devices.map fun dev ↦ dev.mlx4.objects

/-- The commands that create an object. -/
def UverbsCmd.creates : UverbsCmd → Bool
  | openDevice | allocPd _ | createCq _ _ | createQp _ _ | regMr _ _ _ _ => true
  | queryDevice | queryPort _ | queryDevices | deallocPd _ _ | destroyCq _ _ | modifyQp _ _ _ _
  | queryQp | destroyQp _ _ | deregMr _ _ | setMrSize => false

/-- The size in bytes of the response of a command that creates an object. -/
def UverbsCmd.responseSize : UverbsCmd → Nat
  | openDevice => 24
  | regMr _ _ _ _ => 12
  | _ => 4

/-- The card does not accept a new memory region and then refuse to report on it. -/
def UverbsCmd.Reported (mode : Overflow) (deviceHandle : Nat) (k : Kernel) : UverbsCmd → Prop
  | regMr _ _ _ _ => ∀ dev, k.device mode deviceHandle = some dev → dev.mlx4.card.cmd.ReportsNext
  | _ => True

/-- A copy to or from a slice returns an error: the slice is null or too small, its bytes are
not those of a user, or a page of them is not mapped. -/
def Refused (vas : VirtualAddressSpace) (slice : UserSlice) (size : Nat) : Prop :=
  slice.address = 0 ∨ slice.size < size ∨
    ∃ addr, VirtAddr.tryNew slice.address = some addr ∧ vas.CopyRefused addr size

section

variable {mode : Overflow} {deviceHandle pid : Nat} {k : Kernel} {dev dev' : Device}

section

variable (hdev : k.device mode deviceHandle = some dev)
include hdev

private theorem exists_index :
    ∃ index, k.devices[index]? = some dev ∧ ∀ dev' mapping,
      k.setDevice mode deviceHandle dev' mapping =
        { k with devices := k.devices.set index dev', mapping := mapping } := by
  unfold Kernel.device at hdev
  unfold Kernel.setDevice
  cases hindex : deviceHandleToIdx mode deviceHandle with
  | error reason =>
    rw [hindex] at hdev
    cases hdev
  | ok index =>
    rw [hindex] at hdev
    exact ⟨index, hdev, fun _ _ ↦ rfl⟩

private theorem objects_setDevice (h : dev'.mlx4.objects = dev.mlx4.objects) (mapping : Mapping) :
    (k.setDevice mode deviceHandle dev' mapping).objects = k.objects := by
  obtain ⟨index, hget, hset⟩ := exists_index hdev
  rw [hset]
  exact map_set_of_key hget h

private theorem objects_setDevice_ne
    (h : dev'.mlx4.objects ≠ dev.mlx4.objects) (mapping : Mapping) :
    (k.setDevice mode deviceHandle dev' mapping).objects ≠ k.objects := by
  obtain ⟨index, hget, hset⟩ := exists_index hdev
  obtain ⟨hlt, -⟩ := List.getElem?_eq_some_iff.mp hget
  rw [hset]
  intro heq
  have hsame := congrArg (fun l : List DeviceObjects ↦ l[index]?) heq
  simp only [Kernel.objects, List.getElem?_map, List.getElem?_set_self hlt, hget, Option.map_some,
    Option.some_inj] at hsame
  exact h hsame

end

private theorem mapping_setDevice (hdev : k.device mode deviceHandle = some dev) (dev' : Device)
    (mapping : Mapping) : (k.setDevice mode deviceHandle dev' mapping).mapping = mapping := by
  obtain ⟨index, -, hset⟩ := exists_index hdev
  rw [hset]

private theorem withMlx4_objects {α : Type} {m : EStateM Fault (Mlx4Device × Mapping) α}
    {c : Bool} {A : α → Prop} {R : Mlx4Device → Prop}
    (h : ∀ dev, Ends m (dev, k.mapping)
      (fun a s' ↦ A a ∧ k.mapping.1.Keeps s'.2.1 ∧ (c = true → s'.1.objects ≠ dev.objects))
      fun e s' ↦ e.OnErr (R dev → s'.1.objects = dev.objects)) :
    Ends (withMlx4 mode deviceHandle m) k
      (fun a k' ↦ A a ∧ k.mapping.1.Keeps k'.mapping.1 ∧ (c = true → k'.objects ≠ k.objects))
      fun e k' ↦ e.OnErr ((∀ dev, k.device mode deviceHandle = some dev → R dev.mlx4) →
        k'.objects = k.objects) := by
  rw [withMlx4, ends_withDevice]
  refine ⟨fun _ _ ↦ trivial, fun _ _ _ _ ↦ rfl, fun dev hdev ↦ ?_⟩
  rw [ends_zoom]
  refine (h dev.mlx4).mono (fun _ s' h ↦ ⟨h.1, ?_, fun hcreates ↦ ?_⟩)
    fun _ s' h ↦ h.mono fun h hR ↦ ?_
  · rw [mapping_setDevice hdev]
    exact h.2.1
  · exact objects_setDevice_ne hdev (h.2.2 hcreates) s'.2
  · exact objects_setDevice hdev (h (hR dev hdev)) s'.2

/-- What a verb does to the objects. -/
private abbrev Performs (mode : Overflow) (deviceHandle : Nat) (k : Kernel) (verb : Verb)
    (m : EStateM Fault Kernel Answer) : Prop :=
  Ends m k (fun answer k' ↦ answer.size = verb.answerSize ∧ k.mapping.1.Keeps k'.mapping.1 ∧
      (verb.creates = true → k'.objects ≠ k.objects))
    fun e k' ↦ e.OnErr ((∀ dev, k.device mode deviceHandle = some dev →
      verb.Reported dev.mlx4.card.cmd) → k'.objects = k.objects)

private theorem uverbsPerform_objects (context : Nat) (verb : Verb) :
    Performs mode deviceHandle k verb (uverbsPerform mode deviceHandle pid context verb) := by
  rw [Performs, uverbsPerform, ends_bind, ends_get]
  refine withMlx4_objects (A := fun answer : Answer ↦ answer.size = verb.answerSize)
    (R := fun dev ↦ verb.Reported dev.card.cmd) fun dev ↦ ?_
  rw [ends_zoom]
  exact (Mlx4Device.perform_objects dev _ context verb).mono
    (fun _ _ h ↦ ⟨h.1, .refl _, h.2⟩) fun _ _ h ↦ h

private theorem query_objects {α : Type} {m : EStateM Fault Device α}
    (h : ∀ dev, Ends m dev (fun _ dev' ↦ dev'.mlx4 = dev.mlx4) fun _ dev' ↦ dev'.mlx4 = dev.mlx4) :
    Ends (withDevice mode deviceHandle (zoom Prod.fst (fun dev s ↦ (dev, s.2)) m)) k
      (fun _ k' ↦ k.mapping.1.Keeps k'.mapping.1 ∧ k'.objects = k.objects)
      fun e k' ↦ e.OnErr (k'.objects = k.objects) := by
  rw [ends_withDevice]
  refine ⟨fun _ _ ↦ trivial, fun _ _ _ ↦ rfl, fun dev hdev ↦ ?_⟩
  rw [ends_zoom]
  refine (h dev).mono (fun _ _ h ↦ ⟨?_, objects_setDevice hdev (congrArg _ h) _⟩)
    fun e _ h ↦ e.onErr_of (objects_setDevice hdev (congrArg _ h) _)
  rw [mapping_setDevice hdev]
  exact .refl _

private theorem queryDevice_mlx4 (dev : Device) :
    Ends Device.queryDevice dev (fun _ dev' ↦ dev'.mlx4 = dev.mlx4)
      fun _ dev' ↦ dev'.mlx4 = dev.mlx4 := by
  simp only [Device.queryDevice, ends_bind, ends_get, ends_ite, ends_pure, ends_throw, implies_true,
    and_self]

private theorem queryPort_mlx4 (portNum : UInt8) (dev : Device) :
    Ends (Device.queryPort portNum) dev (fun _ dev' ↦ dev'.mlx4 = dev.mlx4)
      fun _ dev' ↦ dev'.mlx4 = dev.mlx4 := by
  simp only [Device.queryPort, ends_bind, ends_get, ends_lift, ends_zoom, yields_okOr, implies_true,
    and_true]
  exact fun _ _ ↦ ends_of_forall (fun _ _ ↦ trivial) fun _ _ ↦ trivial

end

section

variable {mode : Overflow} {faults : MapFaults × MapFaults} {pid deviceHandle : Nat}
  {userIn userOut : UserSlice} {cmd : UverbsCmd} {k : Kernel}

private theorem withMessage_ends {σ α : Type} {m : EStateM Fault σ α} {message : String} {s : σ}
    {Q : α → σ → Prop} {P : σ → Prop} (h : Ends m s Q fun e s' ↦ e.OnErr (P s')) :
    Ends (withMessage message m) s Q fun e s' ↦ e.OnErr (P s') := by
  unfold Ends at h
  unfold Ends withMessage
  cases hm : m s with
  | ok a s' =>
    rw [hm] at h
    exact h
  | error e s' =>
    rw [hm] at h
    cases e with
    | err text => exact h
    | panic reason => trivial

/-- What an operation does to the objects: one that fails keeps them if the card reports, one that
creates an object does not, and one with a response that creates none does. -/
private abbrev Outcome (mode : Overflow) (deviceHandle : Nat)
    (m : EStateM Fault Kernel (Option Response)) (k : Kernel) (cmd : UverbsCmd) : Prop :=
  Ends m k (fun response k' ↦ k.mapping.1.Keeps k'.mapping.1 ∧
      (cmd.creates = true → k'.objects ≠ k.objects ∧
        ∃ r, response = some r ∧ r.size = cmd.responseSize) ∧
      (cmd.creates = false → response.isSome → k'.objects = k.objects))
    fun e k' ↦ e.OnErr (cmd.Reported mode deviceHandle k → k'.objects = k.objects)

section

variable {verb : Verb} {m : EStateM Fault Kernel Answer} (h : Performs mode deviceHandle k verb m)
include h

private theorem outcome_of_creating (hcmd : cmd.creates = true) (hverb : verb.creates = true)
    (hsize : verb.answerSize = cmd.responseSize)
    (hreported : cmd.Reported mode deviceHandle k →
      ∀ dev, k.device mode deviceHandle = some dev → verb.Reported dev.mlx4.card.cmd) :
    Outcome mode deviceHandle (m >>= fun a ↦ pure (some (.answer a))) k cmd := by
  rw [Outcome, ends_bind, hcmd]
  refine h.mono (fun a k' ⟨ha, hkeeps, hne⟩ ↦ ⟨hkeeps, fun _ ↦ ⟨hne hverb, _, rfl, ?_⟩, nofun⟩)
    fun _ _ h ↦ h.mono fun h hr ↦ h (hreported hr)
  rw [← hsize]
  exact ha

private theorem outcome_of_silent (hcmd : cmd.creates = false)
    (hreported : ∀ cmd, verb.Reported cmd) :
    Outcome mode deviceHandle (m >>= fun _ ↦ pure none) k cmd := by
  rw [Outcome, ends_bind, hcmd]
  exact h.mono (fun _ _ h ↦ ⟨h.2.1, nofun, nofun⟩)
    fun _ _ h ↦ h.mono fun h _ ↦ h fun _ _ ↦ hreported _

end

private theorem outcome_of_query {α : Type} {m : EStateM Fault Kernel α} {f : α → Option Response}
    (hcmd : cmd.creates = false)
    (h : Ends m k (fun _ k' ↦ k.mapping.1.Keeps k'.mapping.1 ∧ k'.objects = k.objects)
      fun e k' ↦ e.OnErr (k'.objects = k.objects)) :
    Outcome mode deviceHandle (m >>= fun a ↦ pure (f a)) k cmd := by
  rw [Outcome, ends_bind, hcmd]
  exact h.mono (fun _ _ h ↦ ⟨h.1, nofun, fun _ _ ↦ h.2⟩) fun _ _ h ↦ h.mono fun h _ ↦ h

private theorem operate_objects (mode : Overflow) (faults : MapFaults × MapFaults)
    (pid deviceHandle : Nat) (userOut : UserSlice) (cmd : UverbsCmd) (k : Kernel) :
    Outcome mode deviceHandle (operate mode faults pid deviceHandle userOut cmd) k cmd := by
  cases cmd with
  | queryDevice => exact outcome_of_query rfl (query_objects queryDevice_mlx4)
  | queryPort portNum => exact outcome_of_query rfl (query_objects (queryPort_mlx4 portNum))
  | queryDevices => exact ⟨.refl _, by rintro ⟨⟩, fun _ _ ↦ rfl⟩
  | openDevice =>
    simp only [operate, uverbsOpenDevice, Outcome, ends_bind, ends_pure]
    refine (withMlx4_objects (c := true) (A := fun _ ↦ True) (R := fun _ ↦ True)
      fun dev ↦ (Mlx4Device.openContext_objects dev pid faults.1 faults.2 k.mapping).mono
        (fun _ _ h ↦ ⟨trivial, h.1, fun _ ↦ h.2⟩) fun _ _ h ↦ h.mono fun h _ ↦ h).mono ?_ ?_
    · exact fun _ _ h ↦ ⟨h.2.1, fun _ ↦ ⟨h.2.2 rfl, _, rfl, rfl⟩, by rintro ⟨⟩⟩
    · exact fun _ _ h ↦ h.mono fun h _ ↦ h fun _ _ ↦ trivial
  | allocPd context =>
    exact outcome_of_creating (uverbsPerform_objects context .allocPd) rfl rfl rfl
      fun _ _ _ ↦ trivial
  | createCq context params =>
    exact outcome_of_creating (uverbsPerform_objects context (.createCq params)) rfl rfl rfl
      fun _ _ _ ↦ trivial
  | createQp context params =>
    exact outcome_of_creating (uverbsPerform_objects context (.createQp params)) rfl rfl rfl
      fun _ _ _ ↦ trivial
  | regMr context pd data access =>
    exact outcome_of_creating
      (withMessage_ends (uverbsPerform_objects context (.createMr pd data access))) rfl rfl rfl id
  | deallocPd context pd =>
    exact outcome_of_silent (uverbsPerform_objects context (.deallocPd pd)) rfl fun _ ↦ trivial
  | destroyCq context handle =>
    exact outcome_of_silent (uverbsPerform_objects context (.destroyCq handle)) rfl fun _ ↦ trivial
  | modifyQp context qpNum attr attrMask =>
    exact outcome_of_silent (uverbsPerform_objects context (.modifyQp qpNum attr attrMask)) rfl
      fun _ ↦ trivial
  | destroyQp context handle =>
    exact outcome_of_silent (uverbsPerform_objects context (.destroyQp handle)) rfl fun _ ↦ trivial
  | deregMr context handle =>
    exact outcome_of_silent (uverbsPerform_objects context (.destroyMr handle)) rfl fun _ ↦ trivial
  | queryQp | setMrSize => exact ⟨.refl _, by rintro ⟨⟩, fun _ _ ↦ rfl⟩

private theorem copyRequest_keeps (userIn : UserSlice) (cmd : UverbsCmd) (k : Kernel) :
    Ends (copyRequest userIn cmd) k
      (fun _ k' ↦ k'.devices = k.devices ∧ k.mapping.1.Keeps k'.mapping.1)
      fun _ k' ↦ k'.devices = k.devices := by
  unfold copyRequest
  cases cmd.requestSize with
  | none => exact ⟨rfl, .refl _⟩
  | some size =>
    simp only [copyFromUser, ends_ite, ends_throw, ends_bind, ends_lift, ends_onMapping,
      ends_mapStop, yields_orStop, implies_true, and_true, true_and]
    exact fun _ addr _ ↦ (VirtualAddressSpace.copyBytes_ends _ addr size k.mapping).mono
      (fun _ _ h ↦ h.2) fun _ _ _ ↦ trivial

private theorem copyResponse_refused (userOut : UserSlice) (response : Response) (result : Nat)
    (k : Kernel) :
    Ends (copyResponse userOut response result) k
      (fun _ _ ↦ ¬ Refused k.mapping.1 userOut response.size)
      fun e k' ↦ (e.IsError ↔ Refused k.mapping.1 userOut response.size) ∧
        k'.devices = k.devices := by
  simp only [copyResponse, ends_ite, ends_throw, ends_bind, ends_lift, ends_onMapping,
    ends_mapStop, ends_modify, ends_pure, yields_orStop, Stop.isError_error, true_iff,
    Stop.isError_map, and_true]
  refine ⟨fun h ↦ ?_, fun h ↦ ⟨fun addr haddr ↦ ?_, fun reason hreason ↦ ?_⟩⟩
  · rcases h with h | h
    · exact .inl h
    · exact .inr (.inl h)
  · have hrefused : Refused k.mapping.1 userOut response.size ↔
        k.mapping.1.CopyRefused addr response.size := by
      rw [VirtAddr.new_eq_ok] at haddr
      simp only [Refused, haddr, Option.some_inj, exists_eq_left', ← or_assoc, h, false_or]
    rw [hrefused]
    exact (VirtualAddressSpace.copyBytes_ends _ addr response.size k.mapping).mono
      (fun _ _ h ↦ h.1) fun _ _ h ↦ h
  · have htry := VirtAddr.tryNew_of_new_eq_error hreason
    refine iff_of_false id ?_
    simp only [Refused, htry, reduceCtorEq, false_and, exists_false, or_false]
    exact h

private theorem objects_of_devices {k k' : Kernel} (h : k'.devices = k.devices) :
    k'.objects = k.objects := by
  rw [Kernel.objects, h, Kernel.objects]

private theorem Refused.of_keeps {vas vas' : VirtualAddressSpace} {slice : UserSlice} {size : Nat}
    (hkeeps : vas.Keeps vas') (h : Refused vas' slice size) : Refused vas slice size :=
  h.imp_right (.imp_right fun ⟨addr, haddr, hrefused⟩ ↦ ⟨addr, haddr, hkeeps.copyRefused hrefused⟩)

private theorem respond_keeps {k₁ k₂ : Kernel} {response : Option Response}
    (hcreates : cmd.creates = true → ¬ Refused k₂.mapping.1 userOut cmd.responseSize ∧
      ∃ r, response = some r ∧ r.size = cmd.responseSize)
    (hquery : cmd.creates = false → response.isSome → k₂.objects = k₁.objects) :
    Ends (respond userOut response) k₂ (fun _ _ ↦ True)
      fun e k' ↦ e.IsError → k'.objects = k₁.objects := by
  cases response with
  | none => exact trivial
  | some r =>
    refine (copyResponse_refused userOut r r.result k₂).mono (fun _ _ _ ↦ trivial) fun _ _ h he ↦ ?_
    cases hcmd : cmd.creates with
    | false => rw [objects_of_devices h.2, hquery hcmd rfl]
    | true =>
      obtain ⟨hdelivers, r', hr', hsize⟩ := hcreates hcmd
      cases hr'
      rw [← hsize] at hdelivers
      exact absurd (h.1.mp he) hdelivers

private theorem respond_fails {k₂ : Kernel} {r : Response}
    (hrefused : Refused k₂.mapping.1 userOut r.size) :
    Ends (respond userOut (some r)) k₂ (fun _ _ ↦ False)
      fun e k' ↦ e.IsError ∧ k'.objects = k₂.objects :=
  (copyResponse_refused userOut r r.result k₂).mono (fun _ _ h ↦ h hrefused)
    fun _ _ h ↦ ⟨h.1.mpr hrefused, objects_of_devices h.2⟩

private theorem reported_of_devices {k₁ : Kernel} (hdevices : k₁.devices = k.devices)
    (h : cmd.creates = true → cmd.Reported mode deviceHandle k) :
    cmd.Reported mode deviceHandle k₁ := by
  cases cmd with
  | regMr context pd data access =>
    have hdevice : k₁.device mode deviceHandle = k.device mode deviceHandle := by
      rw [Kernel.device, hdevices, Kernel.device]
    rw [UverbsCmd.Reported, hdevice]
    exact h rfl
  | _ => trivial

private theorem dispatch_keeps (hdelivers : cmd.creates = true →
      ¬ Refused k.mapping.1 userOut cmd.responseSize ∧ cmd.Reported mode deviceHandle k) :
    Ends (dispatch mode faults pid deviceHandle userIn userOut cmd) k (fun _ _ ↦ True)
      fun e k' ↦ e.IsError → k'.objects = k.objects := by
  by_cases hcmd : cmd.Unsupported
  · rw [ends_dispatch_of_unsupported hcmd]
    exact fun _ ↦ rfl
  rw [ends_dispatch hcmd]
  refine (copyRequest_keeps userIn cmd k).mono ?_ fun _ _ h _ ↦ objects_of_devices h
  rintro _ k₁ ⟨hdevices, hkeeps⟩
  rw [← objects_of_devices hdevices]
  refine (operate_objects mode faults pid deviceHandle userOut cmd k₁).mono ?_ ?_
  · rintro response k₂ ⟨hkeeps', hcreates, hquery⟩
    refine respond_keeps (fun hcmd ↦ ⟨?_, (hcreates hcmd).2⟩) hquery
    exact mt (.of_keeps (hkeeps.trans hkeeps')) (hdelivers hcmd).1
  · intro e k₂ h herror
    obtain ⟨message, rfl⟩ := (isError_toStop.mp herror).exists_eq
    exact h (reported_of_devices hdevices fun hcmd ↦ (hdelivers hcmd).2)

private theorem dispatch_leaves {k₁ k₂ : Kernel} {response : Option Response}
    (hcreates : cmd.creates = true) (hcopy : copyRequest userIn cmd k = .ok () k₁)
    (hop : operate mode faults pid deviceHandle userOut cmd k₁ = .ok response k₂)
    (hrefused : Refused k₂.mapping.1 userOut cmd.responseSize) :
    Ends (dispatch mode faults pid deviceHandle userIn userOut cmd) k (fun _ _ ↦ False)
      fun e k' ↦ e.IsError ∧ k'.objects ≠ k.objects := by
  have hcmd : ¬ cmd.Unsupported := by
    rintro (rfl | rfl)
    · cases hcreates
    · cases hcreates
  obtain ⟨-, hcreated, -⟩ :=
    (operate_objects mode faults pid deviceHandle userOut cmd k₁).of_ok hop
  obtain ⟨hne, r, rfl, hsize⟩ := hcreated hcreates
  rw [objects_of_devices ((copyRequest_keeps userIn cmd k).of_ok hcopy).1] at hne
  rw [← hsize] at hrefused
  rw [ends_dispatch hcmd, ends_eq_ok hcopy, ends_eq_ok hop]
  refine (respond_fails hrefused).mono (fun _ _ h ↦ h) fun _ _ h ↦ ⟨h.1, ?_⟩
  rw [h.2]
  exact hne

end

namespace Sample

/-- A process with one page of heap at the start of user space. -/
def mapping : Except Panic Mapping := do
  let vas ← VirtualAddressSpace.new Paging.new 48
  let (vas, area) ← vas.allocVma none 1 .user .heap []
  let vma ← unwrap area
  vas.mapPartialVma vma vma.range .user VirtualAddressSpace.faultFlags Mlx4.Sample.frames

/-- One device, on which nothing has been opened. -/
def device : Device := ⟨1, (2, 42, 5000), [], Mlx4.Sample.device Mlx4.Sample.caps⟩

/-- The heap of the process. -/
def memory : UserSlice := ⟨0x10000000000, 4096⟩

/-- A kernel with the device. -/
def kernel : Except Panic Kernel := do
  let mapping ← mapping
  .ok ⟨[device], mapping, []⟩

/-- The kernel after the process has opened a context. -/
def opened : Except Panic Kernel := do
  let k ← kernel
  match dispatch .panics ({}, {}) 1 1 ⟨0, 0⟩ memory .openDevice k with
  | .ok _ k => .ok k
  | .error _ _ => .error .assertion

/-- The protection domains of the first context of a device. -/
def pds (objects : List DeviceObjects) : Option (List Nat) := do
  let dev ← objects[0]?
  let ctx ← dev.contexts 1
  return ctx.pds

end Sample

end D3OS.Uverbs

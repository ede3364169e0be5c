import D3OS.Memory.UserMappings
import D3OS.Mlx4.Calls

/-!
# The objects of a device

The contexts of a device and what was created in them, by their numbers. A call that returns an
error leaves them as they were, and a verb that creates an object adds to them.
-/

namespace D3OS.Mlx4

open Lib Memory

/-- What a device holds, and the memory regions and completion queues that its card has. -/
@[ext] structure DeviceObjects where
  contexts : Nat → Option ContextObjects
  pdNumbers : Std.ExtTreeSet Nat
  uarList : List UarPage
  registered : List Nat × List Nat

/-- The objects of a device. -/
def Mlx4Device.objects (dev : Mlx4Device) : DeviceObjects where
  contexts handle := dev.contexts[handle]?.map UContext.objects
  pdNumbers := dev.pdNumbers
  uarList := dev.uarList
  registered := Command.registered dev.card.cmd.log

namespace Mlx4Device

section

variable {dev : Mlx4Device} {handle : Nat} {ctx : UContext} {s : Session}

private theorem contexts_objects (hctx : dev.contexts[handle]? = some ctx) :
    dev.objects.contexts handle = some ctx.objects := by
  simp only [objects, hctx, Option.map_some]

private theorem contexts_store (handle' : Nat) :
    (dev.store handle s).objects.contexts handle' =
      if handle' = handle then some s.ctx.objects else dev.objects.contexts handle' := by
  simp only [objects, store, Std.ExtTreeMap.getElem?_insert]
  by_cases h : handle' = handle
  · simp [h]
  · rw [if_neg (by simpa using Ne.symm h), if_neg h]

private theorem objects_store (hctx : dev.contexts[handle]? = some ctx)
    (h : Session.SameObjects ⟨ctx, dev.card, dev.pdNumbers⟩ s) :
    (dev.store handle s).objects = dev.objects := by
  apply DeviceObjects.ext
  · funext handle'
    rw [contexts_store]
    split
    next heq => rw [heq, contexts_objects hctx, h.ctx_eq]
    next => rfl
  · exact h.pdNumbers_eq
  · rfl
  · exact h.registered_eq

private theorem objects_store_ne (hctx : dev.contexts[handle]? = some ctx)
    (h : s.ctx.objects ≠ ctx.objects) : (dev.store handle s).objects ≠ dev.objects := by
  intro heq
  have hsame := congrFun (congrArg DeviceObjects.contexts heq) handle
  rw [contexts_store, if_pos rfl, contexts_objects hctx, Option.some_inj] at hsame
  exact h hsame

end

/-- A verb that returns an error leaves the objects of the device as they were if the card
reports, and one that creates an object and returns does not. -/
theorem perform_objects (dev : Mlx4Device) (process : Process) (handle : Nat) (verb : Verb) :
    Ends (perform process handle verb) dev
      (fun answer dev' ↦ answer.size = verb.answerSize ∧
        (verb.creates = true → dev'.objects ≠ dev.objects))
      fun e dev' ↦ e.OnErr (verb.Reported dev.card.cmd → dev'.objects = dev.objects) := by
  refine ends_perform.mpr ⟨fun _ _ ↦ rfl, fun ctx hctx ↦ ?_⟩
  obtain ⟨hget, -⟩ := contextOf_eq_some.mp hctx
  exact (dev.body_effect process verb _).mono
    (fun _ _ h ↦ ⟨h.2.1, fun hcreates ↦ objects_store_ne hget (h.2.2 hcreates)⟩)
    fun _ _ h ↦ h.mono fun h hreported ↦ objects_store hget (h.2 hreported)

private theorem mapFrame_keeps (frame : PhysFrame) (tag : List UInt8)
    (allocError mapError : String) (faults : MapFaults) (mapping : Mapping) :
    Ends (UarPage.mapFrame frame tag allocError mapError faults) mapping
      (fun _ mapping' ↦ mapping.1.Keeps mapping'.1) fun _ _ ↦ True := by
  simp only [UarPage.mapFrame, ends_bind, ends_get, ends_ite, ends_throw, ends_lift, ends_set,
    ends_pure, yields_orPanic, yields_okOr, implies_true, and_true, true_and]
  rintro - ⟨vas₁, found⟩ harea area - - stop - mapped hmapped ⟨vas₂, fa'⟩ rfl
  exact (VirtualAddressSpace.Keeps.of_areas (VirtualAddressSpace.allocVma_eq harea)).trans
    (VirtualAddressSpace.mapPfrForVma_keeps hmapped)

private theorem mapPages_keeps (page : UarPage) (doorbellFaults blueflameFaults : MapFaults)
    (mapping : Mapping) :
    Ends (page.mapPages doorbellFaults blueflameFaults) mapping
      (fun _ mapping' ↦ mapping.1.Keeps mapping'.1) fun _ _ ↦ True := by
  simp only [UarPage.mapPages, UarPage.mapDoorbellPage, UarPage.mapBlueflamePage, ends_bind,
    ends_lift, ends_pure, yields_okOr, implies_true, and_true]
  refine (mapFrame_keeps _ _ _ _ _ _).mono (fun _ _ hdoorbell frame _ ↦ ?_) fun _ _ _ ↦ trivial
  exact (mapFrame_keeps _ _ _ _ _ _).mono (fun _ _ h ↦ hdoorbell.trans h) fun _ _ _ ↦ trivial

/-- `open` takes a UAR page out of the list and no mapping away, or returns an error and puts the
page back. -/
theorem openContext_objects (dev : Mlx4Device) (owner : Nat)
    (doorbellFaults blueflameFaults : MapFaults) (mapping : Mapping) :
    Ends (openContext owner doorbellFaults blueflameFaults) (dev, mapping)
      (fun _ s' ↦ mapping.1.Keeps s'.2.1 ∧ s'.1.objects ≠ dev.objects)
      fun e s' ↦ e.OnErr (s'.1.objects = dev.objects) := by
  refine ends_openContext.mpr ⟨fun _ ↦ rfl, fun _ ↦ ⟨fun _ ↦ rfl, fun uarList page hlist ↦ ?_⟩⟩
  refine (mapPages_keeps page _ _ mapping).mono (fun pages mapping' hkeeps ↦ ⟨hkeeps, fun heq ↦ ?_⟩)
    fun e mapping' _ ↦ ?_
  · have hlength := congrArg List.length (congrArg DeviceObjects.uarList heq)
    simp only [objects, hlist, List.length_append, List.length_singleton] at hlength
    omega
  · cases e with
    | err message => exact rfl
    | panic reason => trivial

end Mlx4Device

end D3OS.Mlx4

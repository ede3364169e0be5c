import D3OS.Mlx4.Calls

/-!
# Isolation of contexts

A verb works on the context it names and on nothing of another process: contexts of other
processes stay as they are, and a verb that names a context of another process, or an object
that is not in the context it names, fails and changes nothing.
-/

namespace D3OS.Mlx4

open Lib Memory

/-- The objects that a verb names are in the context. -/
def Verb.NamesIn (ctx : UContext) : Verb → Prop
  | .allocPd => True
  | .deallocPd pd => pd ∈ ctx.pds
  | .createCq _ => True
  | .destroyCq number => number ∈ ctx.cqs.map CompletionQueue.number
  | .createQp params => params.pd ∈ ctx.pds ∧
      params.sendCqNumber ∈ ctx.cqs.map CompletionQueue.number ∧
      params.receiveCqNumber ∈ ctx.cqs.map CompletionQueue.number
  | .modifyQp number _ _ => number ∈ ctx.qps.map QueuePair.number
  | .destroyQp number => number ∈ ctx.qps.map QueuePair.number
  | .createMr pd _ _ => pd ∈ ctx.pds
  | .destroyMr index => some index ∈ ctx.mrs.map MemoryRegion.index

private theorem findIdx?_eq_none {α β : Type} [BEq β] [LawfulBEq β] {l : List α} {f : α → β} {b : β}
    (h : b ∉ l.map f) : (l.findIdx? fun a ↦ f a == b) = none := by
  rw [List.findIdx?_eq_none_iff]
  intro a ha
  rw [beq_eq_false_iff_ne]
  rintro rfl
  exact h (List.mem_map_of_mem ha)

private theorem not_all_number {cqs : List CompletionQueue} {number : Nat} :
    ¬ (cqs.all fun cq ↦ cq.number != number) = true ↔
      number ∈ cqs.map CompletionQueue.number := by
  simp [List.mem_map]

namespace Mlx4Device

private theorem body_of_not_namesIn (dev : Mlx4Device) (process : Process) {verb : Verb}
    {s : Session}
    (h : ¬ verb.NamesIn s.ctx) :
    Ends (dev.body process verb) s (fun _ _ ↦ False) fun e s' ↦ e.IsErr ∧ s' = s := by
  cases verb with
  | allocPd | createCq params => exact absurd trivial h
  | deallocPd pd =>
    have hnone : s.ctx.pds.findIdx? (fun p ↦ p == pd) = none :=
      findIdx?_eq_none (f := id) (by rwa [List.map_id])
    simp [body, Session.deallocPd, hnone]
  | destroyCq number =>
    have hnone := findIdx?_eq_none h
    simp [body, Session.destroyCq, hnone]
  | createQp params =>
    simp only [body, Session.createQp, ends_bind, ends_get, ends_ite, ends_throw, not_not,
      not_all_number, Fault.isErr_err, implies_true, true_and]
    intro hpd hsend hreceive
    exact absurd ⟨hpd, hsend, hreceive⟩ h
  | modifyQp number attr attrMask =>
    have hnone := findIdx?_eq_none h
    simp [body, Session.modifyQp, hnone]
  | destroyQp number =>
    have hnone := findIdx?_eq_none h
    simp [body, Session.destroyQp, hnone]
  | createMr pd data access =>
    rw [Verb.NamesIn] at h
    simp [body, Session.createMr, h]
  | destroyMr index =>
    have hnone := findIdx?_eq_none h
    simp [body, Session.destroyMr, hnone]

private theorem store_self {dev : Mlx4Device} {handle : Nat} {ctx : UContext}
    (h : dev.contexts[handle]? = some ctx) :
    dev.store handle ⟨ctx, dev.card, dev.pdNumbers⟩ = dev := by
  have hsame : dev.contexts.insert handle ctx = dev.contexts := by
    apply Std.ExtTreeMap.ext_getElem?
    intro j
    rw [Std.ExtTreeMap.getElem?_insert]
    split
    next hj => rw [← Std.LawfulEqOrd.compare_eq_iff_eq.mp hj, h]
    next => rfl
  rw [store, hsame]

private theorem perform_of_not_namesIn (dev : Mlx4Device) (process : Process) (handle : Nat)
    (verb : Verb)
    (h : ∀ ctx, dev.contextOf handle process = some ctx → ¬ verb.NamesIn ctx) :
    Ends (perform process handle verb) dev (fun _ _ ↦ False)
      fun e dev' ↦ e.IsErr ∧ dev' = dev := by
  refine ends_perform.mpr ⟨fun _ ↦ ⟨trivial, rfl⟩, fun ctx hctx ↦ ?_⟩
  refine (dev.body_of_not_namesIn process (h ctx hctx)).mono (fun _ _ h ↦ h) ?_
  rintro e s' ⟨he, rfl⟩
  exact ⟨he, store_self (contextOf_eq_some.mp hctx).1⟩

/-- The contexts of other processes are the same. -/
def SameForOthers (pid : Nat) (dev dev' : Mlx4Device) : Prop :=
  ∀ (handle : Nat) (ctx : UContext), dev.contexts[handle]? = some ctx → ctx.owner ≠ pid →
    dev'.contexts[handle]? = some ctx

private theorem perform_sameForOthers (dev : Mlx4Device) (process : Process) (handle : Nat)
    (verb : Verb) :
    Ends (perform process handle verb) dev (fun _ dev' ↦ SameForOthers process.id dev dev')
      fun _ dev' ↦ SameForOthers process.id dev dev' := by
  refine ends_perform.mpr ⟨fun _ _ _ h _ ↦ h, fun ctx hctx ↦ ?_⟩
  obtain ⟨hget, howner⟩ := contextOf_eq_some.mp hctx
  have hstore : ∀ s', SameForOthers process.id dev (dev.store handle s') := by
    intro s' j other hother hne
    have hj : handle ≠ j := by
      rintro rfl
      rw [hget] at hother
      cases hother
      exact hne howner
    rw [store, Std.ExtTreeMap.getElem?_insert, if_neg (by simpa using hj), hother]
  exact ends_of_forall (fun _ s' ↦ hstore s') fun _ s' ↦ hstore s'

private theorem openContext_sameForOthers (dev : Mlx4Device) (owner : Nat)
    (doorbellFaults blueflameFaults : MapFaults) (mapping : Mapping) :
    Ends (openContext owner doorbellFaults blueflameFaults) (dev, mapping)
      (fun _ s' ↦ SameForOthers owner dev s'.1) fun _ s' ↦ SameForOthers owner dev s'.1 := by
  have hsame : ∀ dev' : Mlx4Device, dev'.contexts = dev.contexts →
      SameForOthers owner dev dev' := by
    intro dev' hcontexts j ctx hctx _
    rw [hcontexts, hctx]
  refine ends_openContext.mpr ⟨fun _ ↦ hsame dev rfl, fun _ ↦ ⟨fun _ ↦ hsame dev rfl, ?_⟩⟩
  intro uarList page _
  refine ends_of_forall (fun pages _ j other hother _ ↦ ?_) fun e _ ↦ ?_
  · have hmem : j ∈ dev.contexts := Std.ExtTreeMap.mem_iff_isSome_getElem?.mpr (by simp [hother])
    rw [Std.ExtTreeMap.getElem?_insertIfNew, if_neg, hother]
    rintro ⟨heq, habsent⟩
    rw [Std.LawfulEqOrd.compare_eq_iff_eq.mp heq] at habsent
    exact habsent hmem
  · cases e with
    | err message | panic reason => exact hsame _ rfl

/-- Isolation of contexts: whatever a process calls, the contexts of other processes stay as
they are, and a verb that names a context of another process, or an object that is not in the
context it names, returns an error and changes nothing. -/
theorem verbs_isolated (dev : Mlx4Device) (process : Process) :
    (∀ doorbellFaults blueflameFaults mapping,
      Ends (openContext process.id doorbellFaults blueflameFaults) (dev, mapping)
        (fun _ s' ↦ SameForOthers process.id dev s'.1)
        fun _ s' ↦ SameForOthers process.id dev s'.1) ∧
    (∀ handle verb, Ends (perform process handle verb) dev
      (fun _ dev' ↦ SameForOthers process.id dev dev')
      fun _ dev' ↦ SameForOthers process.id dev dev') ∧
    ∀ handle verb, (∀ ctx, dev.contextOf handle process = some ctx → ¬ verb.NamesIn ctx) →
      ∃ message, perform process handle verb dev = .error (.err message) dev := by
  refine ⟨fun _ _ _ ↦ openContext_sameForOthers dev _ _ _ _,
    fun handle verb ↦ perform_sameForOthers dev process handle verb, fun handle verb h ↦ ?_⟩
  have hends := perform_of_not_namesIn dev process handle verb h
  cases hperform : perform process handle verb dev with
  | ok answer dev' => exact (hends.of_ok hperform).elim
  | error e dev' =>
    obtain ⟨he, rfl⟩ := hends.of_error hperform
    cases e with
    | err message => exact ⟨message, rfl⟩
    | panic reason => exact he.elim

/-- A process cannot give back a protection domain in the context of another one. -/
theorem verbs_isolated_sample : ∃ first second dev message,
    [Call.openContext first {} {} Sample.frames, .verb first 1 .allocPd].foldlM step
      (Sample.device Sample.caps) = .ok dev ∧ dev.held UContext.pds 1 = [2] ∧
    perform second 1 (.deallocPd 2) dev = .error (.err message) dev := by
  obtain ⟨first, second, dev, hrun, hpds, hnone⟩ : ∃ first second dev,
      [Call.openContext first {} {} Sample.frames, .verb first 1 .allocPd].foldlM step
        (Sample.device Sample.caps) = .ok dev ∧ dev.held UContext.pds 1 = [2] ∧
        (dev.contextOf 1 second).isNone :=
    Sample.exists_run (by decide +kernel)
  rw [Option.isNone_iff_eq_none] at hnone
  obtain ⟨message, hperform⟩ := (verbs_isolated dev second).2.2 1 (.deallocPd 2) (by simp [hnone])
  exact ⟨first, second, dev, message, hrun, hpds, hperform⟩

end Mlx4Device

end D3OS.Mlx4

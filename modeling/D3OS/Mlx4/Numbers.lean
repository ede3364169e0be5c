import D3OS.Mlx4.Calls
import D3OS.Mlx4.Profile

/-!
# Numbers of objects

The numbers of queue pairs, completion queues and memory regions come from counters that
only grow, so no two live objects of a kind have the same number. Nothing bounds the
counters: how far they get depends on the reserved ranges they start after and on the number
of objects created in the run.
-/

namespace D3OS.Mlx4

open Lib Memory

/-- A kind of objects that are numbered by a counter. -/
structure NumberKind where
  /-- The numbers of the objects in a context. -/
  view : UContext → List Nat
  /-- The counter. -/
  next : Offsets → Nat
  /-- The verb creates such an object. -/
  creates : Verb → Bool
  /-- A verb drops objects or creates one with the number that is next. -/
  effect : ∀ {s s' : Session} {verb : Verb}, Effect s verb s' →
    ((view s'.ctx).Subperm (view s.ctx) ∧ next s.card.offsets ≤ next s'.card.offsets ∧
      next s'.card.offsets ≤ next s.card.offsets + (creates verb).toNat) ∨
    (creates verb = true ∧ view s'.ctx = view s.ctx ++ [next s.card.offsets] ∧
      next s'.card.offsets = next s.card.offsets + 1)
  /-- `destroy` only drops objects. -/
  tornDown : ∀ {ctx ctx' : UContext} {log : List Command}, TornDown ctx log ctx' →
    (view ctx').Subperm (view ctx)
  /-- A context is opened without objects. -/
  newContext : ∀ dev owner page pages, view (Mlx4Device.newContext dev owner page pages) = []

private theorem subperm_map {α β : Type} (f : α → β) {l l' : List α} (h : l.Subperm l') :
    (l.map f).Subperm (l'.map f) := by
  obtain ⟨l'', hperm, hsub⟩ := h
  exact ⟨l''.map f, hperm.map f, hsub.map f⟩

private theorem subperm_filterMap {α β : Type} (f : α → Option β) {l l' : List α}
    (h : l.Subperm l') : (l.filterMap f).Subperm (l'.filterMap f) := by
  obtain ⟨l'', hperm, hsub⟩ := h
  exact ⟨l''.filterMap f, hperm.filterMap f, hsub.filterMap f⟩

private theorem index_eq_key (mr : MemoryRegion) : mr.index = mr.key.map Prod.fst := by
  rw [MemoryRegion.index, MemoryRegion.key, Option.map_map]
  rfl

namespace NumberKind

/-- Queue pairs. -/
def queuePair : NumberKind where
  view ctx := ctx.qps.map QueuePair.number
  next := Offsets.nextQpn
  creates
    | .createQp _ => true
    | _ => false
  effect h := by
    cases h with
    | card verb card' hoffsets =>
      obtain ⟨cmd, offsets, mrTable⟩ := card'
      dsimp only at hoffsets
      cases hoffsets <;> exact .inl ⟨.refl _, by simp⟩
    | createQp params qp card' hpd hkey hoffsets =>
      have hnumber : qp.number = _ := congrArg Prod.fst hkey
      exact .inr (by simp [hnumber, hoffsets])
    | qps verb cmd' qps' hqps =>
      have hnumbers := subperm_map Prod.fst hqps
      rw [List.map_map, List.map_map] at hnumbers
      exact .inl ⟨hnumbers, by simp⟩
    | _ => exact .inl ⟨.refl _, by simp [*]⟩
  tornDown h := by
    obtain ⟨qpLog, mrLog, cqLog, -, hqps, -, -⟩ := h.retained
    exact (hqps.sublist.map _).subperm
  newContext _ _ _ _ := rfl

/-- Completion queues. -/
def completionQueue : NumberKind where
  view ctx := ctx.cqs.map CompletionQueue.number
  next := Offsets.nextCqn
  creates
    | .createCq _ => true
    | _ => false
  effect h := by
    cases h with
    | card verb card' hoffsets =>
      obtain ⟨cmd, offsets, mrTable⟩ := card'
      dsimp only at hoffsets
      cases hoffsets <;> exact .inl ⟨.refl _, by simp⟩
    | createCq params cq card' hnumber hoffsets => exact .inr (by simp [hnumber, hoffsets])
    | cqs verb cmd' cqs' hcqs => exact .inl ⟨hcqs, by simp⟩
    | _ => exact .inl ⟨.refl _, by simp [*]⟩
  tornDown h := by
    obtain ⟨qpLog, mrLog, cqLog, -, -, -, hcqs⟩ := h.retained
    exact (hcqs.sublist.map _).subperm
  newContext _ _ _ _ := rfl

/-- Memory regions, by their entry in the protection table. -/
def memoryRegion : NumberKind where
  view ctx := ctx.mrs.filterMap MemoryRegion.index
  next := Offsets.nextDmpt
  creates
    | .createMr _ _ _ => true
    | _ => false
  effect h := by
    cases h with
    | card verb card' hoffsets =>
      obtain ⟨cmd, offsets, mrTable⟩ := card'
      dsimp only at hoffsets
      cases hoffsets <;> exact .inl ⟨.refl _, by simp⟩
    | createMr pd data access mr card' hpd hkey hoffsets =>
      have hindex : mr.index = _ := (index_eq_key mr).trans (congrArg (Option.map Prod.fst) hkey)
      exact .inr (by simp [hindex, hoffsets])
    | mrs verb cmd' mrs' hmrs =>
      have hindices := subperm_filterMap (Option.map Prod.fst) hmrs
      simp only [List.filterMap_map, Function.comp_def, ← index_eq_key] at hindices
      exact .inl ⟨hindices, by simp⟩
    | _ => exact .inl ⟨.refl _, by simp [*]⟩
  tornDown h := by
    obtain ⟨qpLog, mrLog, cqLog, -, -, hmrs, -⟩ := h.retained
    exact (hmrs.sublist.filterMap _).subperm
  newContext _ _ _ _ := rfl

/-- The call creates such an object. -/
def createdBy (kind : NumberKind) : Call → Bool
  | .verb _ _ verb => kind.creates verb
  | _ => false

/-- The calls of a run that create such an object. -/
def count (kind : NumberKind) (calls : List Call) : Nat := calls.countP kind.createdBy

private theorem count_cons (kind : NumberKind) (call : Call) (calls : List Call) :
    kind.count (call :: calls) = (kind.createdBy call).toNat + kind.count calls := by
  rw [count, count, List.countP_cons, Nat.add_comm]
  cases kind.createdBy call <;> rfl

end NumberKind

private theorem Mlx4Device.Releases.offsets_eq {dev dev' : Mlx4Device} {handles : List Nat}
    {log : List Command} (h : Releases dev handles log dev') :
    dev'.card.offsets = dev.card.offsets := by
  induction h with
  | nil dev => rfl
  | missing hctx h ih | kept hctx htorn hbare h ih | freed hctx htorn hbare h ih => exact ih

/-- The live objects of a kind have different numbers, drawn from `first` on, and the counter
has not passed `limit`. -/
structure Numbered (kind : NumberKind) (first limit : Nat) (dev : Mlx4Device) : Prop where
  apart : Apart (dev.held kind.view)
  first_le : first ≤ kind.next dev.card.offsets
  next_le : kind.next dev.card.offsets ≤ limit
  mem : ∀ handle number, number ∈ dev.held kind.view handle →
    first ≤ number ∧ number < kind.next dev.card.offsets

namespace Numbered

variable {kind : NumberKind} {first limit : Nat} {dev dev' : Mlx4Device}

section

variable (h : Numbered kind first limit dev)
include h

private theorem mono {limit' : Nat}
    (hheld : ∀ j, (dev'.held kind.view j).Subperm (dev.held kind.view j))
    (hnext : kind.next dev.card.offsets ≤ kind.next dev'.card.offsets)
    (hlimit : kind.next dev'.card.offsets ≤ limit') : Numbered kind first limit' dev' where
  apart := h.apart.mono hheld
  first_le := h.first_le.trans hnext
  next_le := hlimit
  mem j number hmem := by
    obtain ⟨hfirst, hlt⟩ := h.mem j number ((hheld j).subset hmem)
    exact ⟨hfirst, hlt.trans_le hnext⟩

private theorem verb {handle : Nat} {verb : Verb}
    {ctx : UContext} {s' : Session} (hctx : dev.contexts[handle]? = some ctx)
    (heffect : Effect ⟨ctx, dev.card, dev.pdNumbers⟩ verb s') :
    Numbered kind first (limit + (kind.creates verb).toNat) (dev.store handle s') := by
  have hheld : (dev.store handle s').held kind.view =
      Function.update (dev.held kind.view) handle (kind.view s'.ctx) :=
    Mlx4Device.held_of_insert rfl
  have hold : dev.held kind.view handle = kind.view ctx := Mlx4Device.held_of_some hctx
  rcases kind.effect heffect with ⟨hsub, hle, hge⟩ | ⟨hcreates, hview, hnext⟩
  · refine h.mono ?_ hle (hge.trans (Nat.add_le_add_right h.next_le _))
    rw [hheld]
    exact update_subperm (by rwa [hold])
  · have hfresh : ∀ j, kind.next dev.card.offsets ∉ dev.held kind.view j :=
      fun j hmem ↦ Nat.lt_irrefl _ (h.mem j _ hmem).2
    have hnext' : kind.next (dev.store handle s').card.offsets =
        kind.next dev.card.offsets + 1 := hnext
    rw [hview, ← hold] at hheld
    constructor
    · rw [hheld]
      exact h.apart.update_concat hfresh
    · rw [hnext']
      exact h.first_le.trans (Nat.le_add_right _ _)
    · rw [hnext', hcreates]
      exact Nat.add_le_add_right h.next_le 1
    · intro j number hmem
      rw [hnext']
      rw [hheld, mem_update, List.mem_append, List.mem_singleton] at hmem
      rcases hmem with ⟨-, hmem | rfl⟩ | ⟨-, hmem⟩
      · exact (h.mem handle number hmem).imp_right Nat.lt_succ_of_lt
      · exact ⟨h.first_le, Nat.lt_succ_self _⟩
      · exact (h.mem j number hmem).imp_right Nat.lt_succ_of_lt

private theorem effect {call : Call} (heffect : Mlx4Device.DeviceEffect dev call dev') :
    Numbered kind first (limit + (kind.createdBy call).toNat) dev' := by
  cases heffect with
  | nothing call => exact h.mono (fun _ ↦ .refl _) (Nat.le_refl _) (by have := h.next_le; omega)
  | verb hctx howner heffect => exact h.verb hctx heffect
  | opened pages hlist =>
    refine h.mono ?_ (Nat.le_refl _) h.next_le
    rw [Mlx4Device.held_of_insert rfl, kind.newContext]
    exact update_subperm List.nil_subperm
  | released hreleases =>
    have hoffsets := hreleases.offsets_eq
    refine h.mono (hreleases.held_subperm fun _ _ _ htorn ↦ kind.tornDown htorn) ?_ ?_
    · rw [hoffsets]
    · rw [hoffsets]
      exact h.next_le

private theorem run {calls : List Call} (hbelow : dev.HandlesBelow)
    (hrun : calls.foldlM Mlx4Device.step dev = .ok dev') :
    Numbered kind first (limit + kind.count calls) dev' := by
  induction calls generalizing dev limit with
  | nil =>
    cases hrun
    exact h
  | cons call calls ih =>
    obtain ⟨dev₁, hstep, hrest⟩ := of_bind hrun
    have heffect := (Mlx4Device.step_effect hbelow call).of_ok hstep
    have hafter := ih (h.effect heffect) (heffect.handlesBelow hbelow) hrest
    rw [kind.count_cons, ← Nat.add_assoc]
    exact hafter

end

private theorem of_initial (kind : NumberKind) (h : dev.Initial) :
    Numbered kind (kind.next dev.card.offsets) (kind.next dev.card.offsets) dev where
  apart := apart_of_forall_eq_nil fun j ↦ Mlx4Device.held_of_none (h.getElem?_contexts j)
  first_le := Nat.le_refl _
  next_le := Nat.le_refl _
  mem j number hmem := by
    rw [Mlx4Device.held_of_none (h.getElem?_contexts j)] at hmem
    cases hmem

end Numbered

/-- No two live objects of a kind ever have the same number. -/
theorem Mlx4Device.Reachable.apart {dev : Mlx4Device} (h : dev.Reachable) (kind : NumberKind) :
    Apart (dev.held kind.view) := by
  obtain ⟨dev₀, calls, hinit, hrun⟩ := h
  exact ((Numbered.of_initial kind hinit).run hinit.handlesBelow hrun).apart

/-- The tables have room for the objects created in the run, and the numbers of queue pairs
stay clear of the special block. -/
structure Room (caps : Capabilities) (calls : List Call) : Prop where
  queuePairs : 2 ^ caps.log2RsvdQps.toNat + NumberKind.queuePair.count calls ≤ 2 ^ 17
  completionQueues : (Offsets.init caps).baseQpn + numSpecialQp +
    NumberKind.completionQueue.count calls ≤ 2 ^ 16
  memoryRegions : 2 ^ caps.log2RsvdMrws.toNat + NumberKind.memoryRegion.count calls ≤ 2 ^ 19
  special : (Offsets.init caps).baseQpn + numSpecialQp ≤ 2 ^ caps.log2RsvdQps.toNat ∨
    2 ^ caps.log2RsvdQps.toNat + NumberKind.queuePair.count calls ≤ (Offsets.init caps).baseQpn

namespace Mlx4Device

/-- The numbers of live objects lie in the tables, are different, and no queue pair has a
number of the special block. -/
structure WellNumbered (profile : Profile) (baseQpn : Nat) (dev : Mlx4Device) : Prop where
  queuePairs : ∀ handle, ∀ number ∈ dev.held NumberKind.queuePair.view handle,
    number < profile.initHca.numQps ∧ ¬ (baseQpn ≤ number ∧ number < baseQpn + numSpecialQp)
  completionQueues : ∀ handle, ∀ number ∈ dev.held NumberKind.completionQueue.view handle,
    number < profile.initHca.numCqs
  memoryRegions : ∀ handle, ∀ index ∈ dev.held NumberKind.memoryRegion.view handle,
    index < profile.numMpts
  queuePairs_apart : Apart (dev.held NumberKind.queuePair.view)
  completionQueues_apart : Apart (dev.held NumberKind.completionQueue.view)
  memoryRegions_apart : Apart (dev.held NumberKind.memoryRegion.view)

/-- A device initialised from capabilities hands out numbers as it should in every run that
the tables have room for; `sortBySize` stands for the library's sort. -/
theorem wellNumbered_of_run {sortBySize : List Resource → List Resource}
    (hsort : ∀ l, (sortBySize l).Perm l) {dev₀ dev : Mlx4Device} {profile : Profile}
    {calls : List Call} (hinit : dev₀.Initial)
    (hoffsets : dev₀.card.offsets = Offsets.init dev₀.capabilities)
    (hprofile : Profile.new sortBySize dev₀.capabilities = .ok profile)
    (hrun : calls.foldlM step dev₀ = .ok dev) (hroom : Room dev₀.capabilities calls) :
    dev.WellNumbered profile (Offsets.init dev₀.capabilities).baseQpn := by
  obtain ⟨hqps, hcqs, hmpts⟩ := Profile.new_counts hsort hprofile
  have hnumbered := fun kind ↦ (Numbered.of_initial kind hinit).run hinit.handlesBelow hrun
  have hqp := hnumbered .queuePair
  have hcq := hnumbered .completionQueue
  have hmr := hnumbered .memoryRegion
  rw [hoffsets] at hqp hcq hmr
  refine ⟨fun handle number hmem ↦ ?_, fun handle number hmem ↦ ?_, fun handle index hmem ↦ ?_,
    hqp.apart, hcq.apart, hmr.apart⟩
  · have hlimit : number < 2 ^ dev₀.capabilities.log2RsvdQps.toNat +
        NumberKind.queuePair.count calls := (hqp.mem handle number hmem).2.trans_le hqp.next_le
    have hfirst : 2 ^ dev₀.capabilities.log2RsvdQps.toNat ≤ number :=
      (hqp.mem handle number hmem).1
    rw [hqps]
    refine ⟨hlimit.trans_le hroom.queuePairs, fun hspecial ↦ ?_⟩
    rcases hroom.special with habove | hbelow
    · exact absurd (habove.trans hfirst) (Nat.not_le_of_lt hspecial.2)
    · exact absurd (hlimit.trans_le hbelow) (Nat.not_lt_of_le hspecial.1)
  · rw [hcqs]
    exact ((hcq.mem handle number hmem).2.trans_le hcq.next_le).trans_le hroom.completionQueues
  · rw [hmpts]
    exact ((hmr.mem handle index hmem).2.trans_le hmr.next_le).trans_le hroom.memoryRegions

end Mlx4Device

namespace Sample

/-- A sort of resources by size. -/
def sortBySize (l : List Resource) : List Resource :=
  l.insertionSort fun r r' ↦ r.size ≤ r'.size

/-- A process creates a completion queue and a queue pair. -/
def queuePairCalls (first _second : Process) : List Call :=
  [.openContext first {} {} frames, .verb first 1 .allocPd,
    .verb first 1 (.createCq ⟨4, 0x10000000000, 0x10000000800⟩),
    .verb first 1 (.createQp (QueuePair.sampleParams 2))]

end Sample

namespace Mlx4Device

/-- On the sample card queue pairs start above the special block. -/
theorem wellNumbered_of_run_sample : ∃ first second dev profile,
    (Sample.queuePairCalls first second).foldlM step (Sample.device Sample.caps) = .ok dev ∧
    Profile.new Sample.sortBySize Sample.caps = .ok profile ∧
    dev.held NumberKind.queuePair.view 1 = [64] ∧ dev.WellNumbered profile 8 := by
  obtain ⟨first, second, dev, hrun, h⟩ : ∃ first second dev,
      (Sample.queuePairCalls first second).foldlM step (Sample.device Sample.caps) = .ok dev ∧
        dev.held NumberKind.queuePair.view 1 = [64] :=
    Sample.exists_run (by decide +kernel)
  obtain ⟨profile, hprofile, -⟩ : ∃ profile,
      Profile.new Sample.sortBySize Sample.caps = .ok profile ∧ True := by
    decide +kernel
  have hroom : Room Sample.caps (Sample.queuePairCalls first second) :=
    ⟨show 64 + 1 ≤ 2 ^ 17 by decide, show 8 + 8 + 1 ≤ 2 ^ 16 by decide,
      show 16 + 0 ≤ 2 ^ 19 by decide, .inl (by decide)⟩
  exact ⟨first, second, dev, profile, hrun, hprofile, h,
    wellNumbered_of_run (fun l ↦ List.perm_insertionSort _ l) (Sample.device_initial _) rfl
      hprofile hrun hroom⟩

/-- A card that reserves as many queue pairs as completion queues: the first queue pair gets
the first number of the special block. -/
theorem queuePair_in_special_block :
    (Sample.device { Sample.caps with log2RsvdQps := 3 }).Initial ∧
    (Profile.new Sample.sortBySize { Sample.caps with log2RsvdQps := 3 }).isOk = true ∧
    (Offsets.init { Sample.caps with log2RsvdQps := 3 }).baseQpn = 8 ∧
    (fun dev ↦ dev.held NumberKind.queuePair.view 1) <$>
      Sample.run (Sample.device { Sample.caps with log2RsvdQps := 3 }) Sample.queuePairCalls =
        .ok [8] :=
  ⟨Sample.device_initial _, by decide +kernel, by decide, by decide +kernel⟩

end Mlx4Device

end D3OS.Mlx4

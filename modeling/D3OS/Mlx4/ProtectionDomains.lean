import D3OS.Mlx4.Calls

/-!
# Protection domains

A protection domain number is taken by at most one context at a time. The objects of a
context keep a copy of the number, and `dealloc_pd` does not look at them: the numbers that
contexts use stay apart as long as no domain is given back that an object still refers to.
-/

namespace D3OS.Mlx4

open Lib Memory

namespace UContext

/-- The protection domains that objects of the context refer to. -/
def referencedPds (ctx : UContext) : List Nat :=
  ctx.qps.map QueuePair.pd ++ ctx.mrs.filterMap fun mr ↦ mr.dmpt.map fun entry ↦ entry.pd.toNat

/-- The protection domains that the context holds or refers to. -/
def usedPds (ctx : UContext) : List Nat := ctx.pds ++ ctx.referencedPds

private theorem mem_referencedPds {ctx : UContext} {pd : Nat} :
    pd ∈ ctx.referencedPds ↔ (∃ number, (number, pd) ∈ ctx.qps.map QueuePair.key) ∨
      ∃ index, some (index, pd) ∈ ctx.mrs.map MemoryRegion.key := by
  rw [referencedPds, List.mem_append]
  refine or_congr ?_ ?_
  · simp [QueuePair.key]
  · simp only [List.mem_filterMap, List.mem_map, MemoryRegion.key, Option.map_eq_some_iff,
      Prod.mk.injEq]
    constructor
    · rintro ⟨mr, hmr, entry, hentry, hpd⟩
      exact ⟨entry.index, mr, hmr, entry, hentry, rfl, hpd⟩
    · rintro ⟨index, mr, hmr, entry, hentry, -, hpd⟩
      exact ⟨mr, hmr, entry, hentry, hpd⟩

/-- Objects refer only to protection domains that the context holds. -/
def RefersToOwn (ctx : UContext) : Prop := ∀ pd ∈ ctx.referencedPds, pd ∈ ctx.pds

private theorem RefersToOwn.mono {ctx ctx' : UContext} (h : ctx.RefersToOwn)
    (hpds : ctx'.pds = ctx.pds)
    (hqps : ∀ key ∈ ctx'.qps.map QueuePair.key,
      key ∈ ctx.qps.map QueuePair.key ∨ key.2 ∈ ctx.pds)
    (hmrs : ∀ key, some key ∈ ctx'.mrs.map MemoryRegion.key →
      some key ∈ ctx.mrs.map MemoryRegion.key ∨ key.2 ∈ ctx.pds) : ctx'.RefersToOwn := by
  intro pd hpd
  rw [hpds]
  rw [mem_referencedPds] at hpd
  rcases hpd with ⟨number, hmem⟩ | ⟨index, hmem⟩
  · exact (hqps _ hmem).elim (fun hold ↦ h pd (mem_referencedPds.mpr (.inl ⟨number, hold⟩))) id
  · exact (hmrs _ hmem).elim (fun hold ↦ h pd (mem_referencedPds.mpr (.inr ⟨index, hold⟩))) id

end UContext

private theorem Effect.refersToOwn {s s' : Session} {verb : Verb} (h : Effect s verb s')
    (hown : s.ctx.RefersToOwn) (hdealloc : ∀ pd, verb = .deallocPd pd → pd ∉ s.ctx.referencedPds) :
    s'.ctx.RefersToOwn := by
  cases h with
  | card verb card' hoffsets | createCq params cq card' hnumber hoffsets
  | cqs verb cmd' cqs' hcqs => exact hown
  | allocPd pd hfree => exact fun pd' hpd' ↦ List.mem_append_left _ (hown pd' hpd')
  | deallocPd pd pds' hpds =>
    intro pd' hpd'
    rcases List.mem_cons.mp (hpds.mem_iff.mpr (hown pd' hpd')) with rfl | hmem
    · exact absurd hpd' (hdealloc _ rfl)
    · exact hmem
  | createQp params qp card' hpd hkey hoffsets =>
    refine hown.mono rfl (fun key hmem ↦ ?_) fun key hmem ↦ .inl hmem
    rw [List.map_append, List.mem_append, List.map_singleton, List.mem_singleton, hkey] at hmem
    refine hmem.imp_right ?_
    rintro rfl
    exact hpd
  | qps verb cmd' qps' hqps =>
    exact hown.mono rfl (fun key hmem ↦ .inl (hqps.subset hmem)) fun key hmem ↦ .inl hmem
  | createMr pd data access mr card' hpd hkey hoffsets =>
    refine hown.mono rfl (fun key hmem ↦ .inl hmem) fun key hmem ↦ ?_
    rw [List.map_append, List.mem_append, List.map_singleton, List.mem_singleton, hkey,
      Option.some_inj] at hmem
    refine hmem.imp_right ?_
    rintro rfl
    exact hpd
  | mrs verb cmd' mrs' hmrs =>
    exact hown.mono rfl (fun key hmem ↦ .inl hmem) fun key hmem ↦ .inl (hmrs.subset hmem)

private theorem TornDown.refersToOwn {ctx ctx' : UContext} {log : List Command}
    (h : TornDown ctx log ctx')
    (hown : ctx.RefersToOwn) : ctx'.RefersToOwn := by
  obtain ⟨qpLog, mrLog, cqLog, -, hqps, hmrs, -⟩ := h.retained
  exact hown.mono h.pds_eq (fun key hmem ↦ .inl ((hqps.sublist.map _).subset hmem))
    fun key hmem ↦ .inl ((hmrs.sublist.map _).subset hmem)

private theorem Effect.pds {s s' : Session} {verb : Verb} (h : Effect s verb s') :
    (s'.ctx.pds = s.ctx.pds ∧ s'.pdNumbers = s.pdNumbers) ∨
    (∃ pd, pd ∉ s.pdNumbers ∧ s'.ctx.pds = s.ctx.pds ++ [pd] ∧
      s'.pdNumbers = s.pdNumbers.insert pd) ∨
    ∃ pd, (pd :: s'.ctx.pds).Perm s.ctx.pds ∧ s'.pdNumbers = s.pdNumbers.erase pd := by
  cases h with
  | card verb card' hoffsets | createCq params cq card' hnumber hoffsets
  | cqs verb cmd' cqs' hcqs | createQp params qp card' hpd hkey hoffsets
  | qps verb cmd' qps' hqps | createMr pd data access mr card' hpd hkey hoffsets
  | mrs verb cmd' mrs' hmrs => exact .inl ⟨rfl, rfl⟩
  | allocPd pd hfree => exact .inr (.inl ⟨pd, hfree, rfl, rfl⟩)
  | deallocPd pd pds' hpds => exact .inr (.inr ⟨pd, hpds, rfl⟩)

namespace Mlx4Device

/-- Every protection domain is held by one context at most, and then its number is taken. -/
structure PdsExclusive (dev : Mlx4Device) : Prop where
  apart : Apart (dev.held UContext.pds)
  mem : ∀ handle pd, pd ∈ dev.held UContext.pds handle → pd ∈ dev.pdNumbers

private theorem mem_erase {pd a : Nat} {numbers : Std.ExtTreeSet Nat} :
    pd ∈ numbers.erase a ↔ pd ≠ a ∧ pd ∈ numbers := by
  rw [Std.ExtTreeSet.mem_erase, Ne, Std.LawfulEqOrd.compare_eq_iff_eq, eq_comm]

/-- The numbers that are left. -/
theorem mem_foldl_erase {pd : Nat} (pds : List Nat) (numbers : Std.ExtTreeSet Nat) :
    pd ∈ pds.foldl (fun numbers pd ↦ numbers.erase pd) numbers ↔ pd ∈ numbers ∧ pd ∉ pds := by
  induction pds generalizing numbers with
  | nil => simp
  | cons a rest ih =>
    rw [List.foldl_cons, ih, mem_erase, List.mem_cons, not_or, and_assoc, and_left_comm]

variable {dev dev' : Mlx4Device}

section

variable (h : dev.PdsExclusive)
include h

private theorem PdsExclusive.mono
    (hheld : ∀ j, (dev'.held UContext.pds j).Subperm (dev.held UContext.pds j))
    (hnumbers : dev'.pdNumbers = dev.pdNumbers) : dev'.PdsExclusive where
  apart := h.apart.mono hheld
  mem j pd hpd := by
    rw [hnumbers]
    exact h.mem j pd ((hheld j).subset hpd)

private theorem PdsExclusive.verb {handle : Nat} {verb : Verb}
    {ctx : UContext} {s' : Session} (hctx : dev.contexts[handle]? = some ctx)
    (heffect : Effect ⟨ctx, dev.card, dev.pdNumbers⟩ verb s') :
    (dev.store handle s').PdsExclusive := by
  have hheld : (dev.store handle s').held UContext.pds =
      Function.update (dev.held UContext.pds) handle s'.ctx.pds := held_of_insert rfl
  have hold : dev.held UContext.pds handle = ctx.pds := held_of_some hctx
  rcases heffect.pds with ⟨hpds, hnumbers⟩ | ⟨pd, hfree, hpds, hnumbers⟩ | ⟨pd, hpds, hnumbers⟩
  · rw [hpds, ← hold, Function.update_eq_self] at hheld
    refine h.mono (fun j ↦ ?_) hnumbers
    rw [hheld]
  · have hnew : ∀ j, pd ∉ dev.held UContext.pds j := fun j hmem ↦ hfree (h.mem j pd hmem)
    rw [hpds, ← hold] at hheld
    constructor
    · rw [hheld]
      exact h.apart.update_concat hnew
    · intro j pd' hpd'
      rw [store, hnumbers, Std.ExtTreeSet.mem_insert, Std.LawfulEqOrd.compare_eq_iff_eq]
      rw [hheld, mem_update, List.mem_append, List.mem_singleton] at hpd'
      rcases hpd' with ⟨-, hmem | rfl⟩ | ⟨-, hmem⟩
      · exact .inr (h.mem handle pd' hmem)
      · exact .inl rfl
      · exact .inr (h.mem j pd' hmem)
  · rw [← hold] at hpds
    have hsub : s'.ctx.pds.Subperm (dev.held UContext.pds handle) :=
      List.Subperm.cons_self.trans hpds.subperm
    constructor
    · rw [hheld]
      exact h.apart.mono (update_subperm hsub)
    · intro j pd' hpd'
      rw [hheld] at hpd'
      have hmem := (update_subperm hsub j).subset hpd'
      rw [store, hnumbers, mem_erase]
      refine ⟨?_, h.mem j pd' hmem⟩
      rintro rfl
      -- the context held the number once and has given it back
      obtain rfl := h.apart.eq_of_mem hmem (hpds.mem_iff.mp List.mem_cons_self)
      rw [Function.update_self] at hpd'
      exact (List.nodup_cons.mp (hpds.nodup_iff.mpr (h.apart.nodup j))).1 hpd'

private theorem PdsExclusive.releases {handles : List Nat} {log : List Command}
    (hreleases : Releases dev handles log dev') : dev'.PdsExclusive := by
  induction hreleases with
  | nil dev => exact h
  | missing hctx hrest ih => exact ih h
  | kept hctx htorn hbare hrest ih =>
    refine ih (h.mono ?_ rfl)
    rw [held_keep]
    apply update_subperm
    rw [htorn.pds_eq, held_of_some hctx]
  | @freed dev dev' handle handles ctx ctx' log log' hctx htorn hbare hrest ih =>
    apply ih
    have hheld : dev.held UContext.pds handle = ctx'.pds := by
      rw [htorn.pds_eq, held_of_some hctx]
    constructor
    · rw [held_of_erase rfl]
      exact h.apart.mono (update_subperm List.nil_subperm)
    · intro j pd hpd
      rw [held_of_erase rfl, mem_update] at hpd
      rcases hpd with ⟨-, hnil⟩ | ⟨hne, hmem⟩
      · cases hnil
      · rw [free, mem_foldl_erase, ← hheld]
        exact ⟨h.mem j pd hmem, h.apart.disjoint j _ hne hmem⟩

private theorem PdsExclusive.effect {call : Call}
    (heffect : DeviceEffect dev call dev') : dev'.PdsExclusive := by
  cases heffect with
  | nothing call => exact h
  | verb hctx howner heffect => exact h.verb hctx heffect
  | opened pages hlist =>
    refine h.mono ?_ rfl
    rw [held_of_insert rfl]
    exact update_subperm List.nil_subperm
  | released hreleases => exact h.releases hreleases

end

private theorem Initial.pdsExclusive (h : dev.Initial) : dev.PdsExclusive where
  apart := apart_of_forall_eq_nil fun j ↦ held_of_none (h.getElem?_contexts j)
  mem j pd hpd := by
    rw [held_of_none (h.getElem?_contexts j)] at hpd
    cases hpd

/-- Protection domains are exclusive in every run. -/
theorem Reachable.pdsExclusive (h : dev.Reachable) : dev.PdsExclusive := by
  obtain ⟨dev₀, calls, hinit, hrun⟩ := h
  exact (run_invariant hrun hinit.handlesBelow hinit.pdsExclusive
    fun _ _ _ _ h heffect ↦ h.effect heffect).2

/-- A call that gives a protection domain back does so when no object of the context refers
to it. -/
def DeallocsUnreferenced (dev : Mlx4Device) : Call → Mlx4Device → Prop
  | .verb process handle (.deallocPd pd), _ =>
    pd ∉ (dev.contextOf handle process).elim [] UContext.referencedPds
  | _, _ => True

instance (dev : Mlx4Device) (call : Call) (dev' : Mlx4Device) :
    Decidable (dev.DeallocsUnreferenced call dev') := by
  unfold DeallocsUnreferenced
  split
  · infer_instance
  · infer_instance

private theorem refersToOwn_effect (h : dev.AllContexts UContext.RefersToOwn) {call : Call}
    (heffect : DeviceEffect dev call dev') (hdealloc : dev.DeallocsUnreferenced call dev') :
    dev'.AllContexts UContext.RefersToOwn := by
  refine h.effect heffect ?_ ?_ fun _ _ _ htorn hown ↦ htorn.refersToOwn hown
  · intro process handle verb ctx s' hcall hctx hverb hown
    refine hverb.refersToOwn hown fun pd hpd ↦ ?_
    rw [hcall, hpd, DeallocsUnreferenced, hctx] at hdealloc
    exact hdealloc
  · intro owner page pages pd hpd
    cases hpd

/-- If no protection domain is given back that an object still refers to, no two contexts ever
use the same one. -/
theorem usedPds_disjoint {dev₀ dev : Mlx4Device} {calls : List Call} (hinit : dev₀.Initial)
    (hrun : calls.foldlM step dev₀ = .ok dev)
    (hdealloc : Along step DeallocsUnreferenced dev₀ calls)
    {handle handle' : Nat} {ctx ctx' : UContext} (hne : handle ≠ handle')
    (hctx : dev.contexts[handle]? = some ctx) (hctx' : dev.contexts[handle']? = some ctx') :
    ctx.usedPds.Disjoint ctx'.usedPds := by
  have hinv : dev.HandlesBelow ∧ dev.AllContexts UContext.RefersToOwn := by
    refine hdealloc.invariant
      (I := fun dev ↦ dev.HandlesBelow ∧ dev.AllContexts UContext.RefersToOwn) hrun
      ⟨hinit.handlesBelow, hinit.allContexts _⟩ ?_
    rintro s call s' ⟨hbelow, hown⟩ hstep hcond
    have heffect := (step_effect hbelow call).of_ok hstep
    exact ⟨heffect.handlesBelow hbelow, refersToOwn_effect hown heffect hcond⟩
  have hpds : ∀ {handle ctx}, dev.contexts[handle]? = some ctx →
      ∀ pd ∈ ctx.usedPds, pd ∈ dev.held UContext.pds handle := by
    intro handle ctx hctx pd hpd
    rw [held_of_some hctx]
    exact (List.mem_append.mp hpd).elim id (hinv.2 handle ctx hctx pd)
  have hapart := (Reachable.pdsExclusive ⟨dev₀, calls, hinit, hrun⟩).apart
  intro pd hpd hpd'
  exact hapart.disjoint _ _ hne (hpds hctx pd hpd) (hpds hctx' pd hpd')

/-- A run in which a protection domain is given back after the region in it was destroyed. -/
def sampleCalls (first second : Process) : List Call :=
  [.openContext first {} {} Sample.frames, .verb first 1 .allocPd,
    .verb first 1 (.createMr 2 Sample.memory 1), .verb first 1 (.destroyMr 16),
    .verb first 1 (.deallocPd 2), .verb first 1 .allocPd,
    .openContext second {} {} Sample.frames, .verb second 2 .allocPd]

/-- Both processes hold a protection domain. -/
theorem usedPds_disjoint_sample : ∃ first second dev ctx ctx',
    (sampleCalls first second).foldlM step (Sample.device Sample.caps) = .ok dev ∧
    Along step DeallocsUnreferenced (Sample.device Sample.caps) (sampleCalls first second) ∧
    dev.contexts[1]? = some ctx ∧ dev.contexts[2]? = some ctx' ∧
    ctx.usedPds.Disjoint ctx'.usedPds := by
  obtain ⟨first, second, dev, hrun, hdealloc, ctx, hctx, ctx', hctx', -⟩ :
      ∃ first second dev,
        (sampleCalls first second).foldlM step (Sample.device Sample.caps) = .ok dev ∧
        Along step DeallocsUnreferenced (Sample.device Sample.caps) (sampleCalls first second) ∧
        ∃ ctx, dev.contexts[1]? = some ctx ∧ ∃ ctx', dev.contexts[2]? = some ctx' ∧ True :=
    Sample.exists_run (by decide +kernel)
  exact ⟨first, second, dev, ctx, ctx', hrun, hdealloc, hctx, hctx',
    usedPds_disjoint (Sample.device_initial _) hrun hdealloc (by decide) hctx hctx'⟩

/-- A process registers memory in its protection domain and gives that back; another process
gets the same number while the region is still registered in it. -/
theorem dealloc_pd_shares_pd : (Sample.device Sample.caps).Initial ∧
    (fun dev ↦ (dev.held UContext.usedPds 1, dev.held UContext.usedPds 2)) <$>
      Sample.run (Sample.device Sample.caps) (fun first second ↦ [
        .openContext first {} {} Sample.frames, .verb first 1 .allocPd,
        .verb first 1 (.createMr 2 Sample.memory 1), .verb first 1 (.deallocPd 2),
        .openContext second {} {} Sample.frames, .verb second 2 .allocPd]) = .ok ([2], [2]) :=
  ⟨Sample.device_initial _, by decide +kernel⟩

end Mlx4Device

end D3OS.Mlx4

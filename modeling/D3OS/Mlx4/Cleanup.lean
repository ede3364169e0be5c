import D3OS.Mlx4.Numbers
import D3OS.Mlx4.ProtectionDomains

/-!
# What `release` leaves behind

Objects have different numbers, so the commands that `release` executes tell for each
object whether it was destroyed: a context stays exactly if a command for one of its objects
failed, with the objects whose commands failed, and everything else is given back.
-/

namespace D3OS.Mlx4

open Lib

/-- What a command is for. -/
def Command.target (command : Command) : Opcode × Nat := (command.opcode, command.inputModifier)

/-- A command for the target failed. -/
def failed (log : List Command) (target : Opcode × Nat) : Bool :=
  log.any fun command ↦ command.target == target && command.status != .ok

/-- The target of the command that it takes to destroy an object. -/
def Teardown.target? : Teardown → Option (Opcode × Nat)
  | .nothing => none
  | .refused => none
  | .command opcode _ number => some (opcode, number)

private theorem failed_of_mem {log : List Command} (hnodup : (log.map Command.target).Nodup)
    {command : Command} (hmem : command ∈ log) :
    failed log command.target = (command.status != .ok) := by
  rw [Bool.eq_iff_iff, failed, List.any_eq_true]
  constructor
  · rintro ⟨other, hother, h⟩
    rw [Bool.and_eq_true, beq_iff_eq] at h
    rw [← List.inj_on_of_nodup_map hnodup hother hmem h.1]
    exact h.2
  · intro hstatus
    exact ⟨command, hmem, by rw [hstatus, beq_self_eq_true, Bool.and_self]⟩

section

variable {α : Type} {teardown : α → Teardown} {l kept : List α} {log : List Command}

private theorem Retained.map_target (h : Retained teardown l log kept) :
    log.map Command.target = l.filterMap fun a ↦ (teardown a).target? := by
  induction h with
  | nil => rfl
  | silent ha h ih | refused ha h ih => rw [ih, List.filterMap_cons, ha]; rfl
  | destroyed ha h ih | failed ha hstatus h ih =>
    rw [List.map_cons, ih, List.filterMap_cons, ha]; rfl

private theorem Retained.eq_filter (h : Retained teardown l log kept)
    {isFailed : Opcode × Nat → Bool}
    (hlive : ∀ a ∈ l, teardown a ≠ .refused)
    (hfailed : ∀ command ∈ log, isFailed command.target = (command.status != .ok)) :
    kept = l.filter fun a ↦ (teardown a).target?.any isFailed := by
  induction h with
  | nil => rfl
  | silent ha h ih =>
    rw [ih (fun a hmem ↦ hlive a (List.mem_cons_of_mem _ hmem)) hfailed, List.filter_cons_of_neg]
    rw [ha]
    exact Bool.false_ne_true
  | refused ha h ih => exact absurd ha (hlive _ List.mem_cons_self)
  | destroyed ha h ih =>
    rw [ih (fun a hmem ↦ hlive a (List.mem_cons_of_mem _ hmem))
      fun c hmem ↦ hfailed c (List.mem_cons_of_mem _ hmem), List.filter_cons_of_neg]
    rw [ha]
    exact Bool.eq_false_iff.mp (hfailed _ List.mem_cons_self)
  | failed ha hstatus h ih =>
    rw [ih (fun a hmem ↦ hlive a (List.mem_cons_of_mem _ hmem))
      fun c hmem ↦ hfailed c (List.mem_cons_of_mem _ hmem), List.filter_cons_of_pos]
    rw [ha]
    exact (hfailed _ List.mem_cons_self).trans (bne_iff_ne.mpr hstatus)

end

private theorem QueuePair.teardown_ne_refused (qp : QueuePair) : qp.teardown ≠ .refused := by
  unfold teardown
  split
  · exact Teardown.noConfusion
  · exact Teardown.noConfusion

private theorem MemoryRegion.teardown_ne_refused (mr : MemoryRegion) (h : mr.index ≠ none) :
    mr.teardown ≠ .refused := by
  unfold teardown
  split
  next hnone => exact absurd hnone h
  next => exact Teardown.noConfusion

private theorem CompletionQueue.teardown_ne_refused (cq : CompletionQueue) :
    cq.teardown ≠ .refused :=
  Teardown.noConfusion

namespace UContext

/-- What it takes to destroy everything in the context. -/
def teardowns (ctx : UContext) : List (Opcode × Nat) :=
  (ctx.qps.filterMap fun qp ↦ qp.teardown.target?) ++
    (ctx.mrs.filterMap fun mr ↦ mr.teardown.target?) ++
    ctx.cqs.filterMap fun cq ↦ cq.teardown.target?

/-- The context with the objects whose commands failed. -/
def remaining (isFailed : Opcode × Nat → Bool) (ctx : UContext) : UContext :=
  { ctx with
    qps := ctx.qps.filter fun qp ↦ qp.teardown.target?.any isFailed
    mrs := ctx.mrs.filter fun mr ↦ mr.teardown.target?.any isFailed
    cqs := ctx.cqs.filter fun cq ↦ cq.teardown.target?.any isFailed }

/-- Every memory region of the context is registered with the card. -/
def IsLive (ctx : UContext) : Prop := ∀ mr ∈ ctx.mrs, mr.index ≠ none

/-- Every object of the context can be destroyed if the card accepts the command. -/
def Destroyable (caps : Capabilities) (ctx : UContext) : Prop :=
  ∀ cmd : CommandInterface, cmd.nextReply.status = .ok →
    (∀ qp ∈ ctx.qps, ∃ t, QueuePair.destroy caps (qp, cmd) = .ok () t) ∧
    (∀ mr ∈ ctx.mrs, ∃ t, MemoryRegion.destroy (mr, cmd) = .ok () t) ∧
    ∀ cq ∈ ctx.cqs, ∃ t, CompletionQueue.destroy (cq, cmd) = .ok () t

private theorem exists_ok {σ : Type} {m : EStateM Fault σ Unit} {s : σ}
    (h : Ends m s (fun _ _ ↦ True) fun _ _ ↦ False) : ∃ t, m s = .ok () t := by
  cases hm : m s with
  | ok a t => exact ⟨t, rfl⟩
  | error e t => exact (h.of_error hm).elim

private theorem IsLive.destroyable {ctx : UContext} (h : ctx.IsLive) (caps : Capabilities) :
    ctx.Destroyable caps := by
  intro cmd hok
  refine ⟨fun qp _ ↦ exists_ok ?_, fun mr hmem ↦ exists_ok ?_, fun cq _ ↦ exists_ok ?_⟩
  · rw [QueuePair.ends_destroy]
    exact ⟨fun _ ↦ trivial, fun _ ↦ ⟨fun _ ↦ trivial, fun hfailed ↦ hfailed hok⟩⟩
  · rw [MemoryRegion.ends_destroy]
    exact ⟨fun _ _ ↦ ⟨fun _ ↦ trivial, fun hfailed ↦ hfailed hok⟩, h mr hmem⟩
  · rw [CompletionQueue.ends_destroy]
    exact ⟨fun _ ↦ trivial, fun hfailed ↦ hfailed hok⟩

private theorem IsLive.remaining {ctx : UContext} (h : ctx.IsLive)
    (isFailed : Opcode × Nat → Bool) :
    (ctx.remaining isFailed).IsLive :=
  fun mr hmem ↦ h mr (List.mem_of_mem_filter hmem)

instance (ctx : UContext) : Decidable ctx.IsBare := by
  unfold IsBare
  infer_instance

end UContext

namespace TornDown

variable {ctx ctx' : UContext} {log : List Command}

section

variable (h : TornDown ctx log ctx')
include h

private theorem map_target : log.map Command.target = ctx.teardowns := by
  obtain ⟨qpLog, mrLog, cqLog, rfl, hqps, hmrs, hcqs⟩ := h.retained
  rw [List.map_append, List.map_append, hqps.map_target, hmrs.map_target, hcqs.map_target,
    UContext.teardowns]

private theorem eq_remaining (hlive : ctx.IsLive) {isFailed : Opcode × Nat → Bool}
    (hfailed : ∀ command ∈ log, isFailed command.target = (command.status != .ok)) :
    ctx' = ctx.remaining isFailed := by
  obtain ⟨qpLog, mrLog, cqLog, rfl, hqps, hmrs, hcqs⟩ := h.retained
  simp only [List.mem_append] at hfailed
  have hqps' := hqps.eq_filter (fun qp _ ↦ qp.teardown_ne_refused)
    fun c hmem ↦ hfailed c (.inl (.inl hmem))
  have hmrs' := hmrs.eq_filter (fun mr hmem ↦ mr.teardown_ne_refused (hlive mr hmem))
    fun c hmem ↦ hfailed c (.inl (.inr hmem))
  have hcqs' := hcqs.eq_filter (fun cq _ ↦ cq.teardown_ne_refused)
    fun c hmem ↦ hfailed c (.inr hmem)
  rw [h.eq, UContext.remaining, hqps', hmrs', hcqs']

private theorem isLive (hlive : ctx.IsLive) : ctx'.IsLive := by
  obtain ⟨qpLog, mrLog, cqLog, -, -, hmrs, -⟩ := h.retained
  exact fun mr hmem ↦ hlive mr (hmrs.sublist.subset hmem)

end

end TornDown

namespace Mlx4Device

/-- The UAR page of a context that is freed. -/
def freedPages (isFailed : Opcode × Nat → Bool) (ctx : UContext) : List UarPage :=
  if (ctx.remaining isFailed).IsBare then [ctx.uarPage] else []

/-- The protection domains of a context that is freed. -/
def freedPds (isFailed : Opcode × Nat → Bool) (ctx : UContext) : List Nat :=
  if (ctx.remaining isFailed).IsBare then ctx.pds else []

namespace Releases

variable {dev dev' : Mlx4Device} {handles : List Nat} {log : List Command}

private theorem cmd_eq (h : Releases dev handles log dev') :
    dev'.card.cmd = dev.card.cmd.append log := by
  induction h with
  | nil dev => exact (CommandInterface.append_nil _).symm
  | missing hctx h ih => exact ih
  | kept hctx htorn hbare h ih | freed hctx htorn hbare h ih =>
    exact ih.trans (CommandInterface.append_append _ _ _)

private theorem flatMap_update {α : Type} {f : Nat → List α} {l : List α} {handle : Nat}
    {handles : List Nat} (hmem : handle ∉ handles) :
    handles.flatMap (Function.update f handle l) = handles.flatMap f := by
  refine List.flatMap_congr fun j hj ↦ Function.update_of_ne ?_ _ _
  rintro rfl
  exact hmem hj

private theorem map_target (h : Releases dev handles log dev') (hnodup : handles.Nodup) :
    log.map Command.target = handles.flatMap (dev.held UContext.teardowns) := by
  induction h with
  | nil dev => rfl
  | missing hctx h ih =>
    rw [List.flatMap_cons, held_of_none hctx, List.nil_append, ih hnodup.of_cons]
  | kept hctx htorn hbare h ih =>
    rw [List.map_append, htorn.map_target, ih hnodup.of_cons, held_keep,
      flatMap_update (List.nodup_cons.mp hnodup).1, List.flatMap_cons, held_of_some hctx]
  | freed hctx htorn hbare h ih =>
    rw [List.map_append, htorn.map_target, ih hnodup.of_cons, held_of_erase rfl,
      flatMap_update (List.nodup_cons.mp hnodup).1, List.flatMap_cons, held_of_some hctx]

section

variable {isFailed : Opcode × Nat → Bool}

private theorem allContexts_keep {handle : Nat} {ctx ctx' : UContext}
    (hlive : dev.AllContexts UContext.IsLive) (hctx : dev.contexts[handle]? = some ctx)
    (htorn : TornDown ctx log ctx') : (dev.keep handle ctx' log).AllContexts UContext.IsLive :=
  hlive.insert (htorn.isLive (hlive _ _ hctx)) (contexts_keep _ _ _ _)

private theorem allContexts_free {handle : Nat} {ctx' : UContext}
    (hlive : dev.AllContexts UContext.IsLive) :
    (dev.free handle ctx' log).AllContexts UContext.IsLive := by
  intro j ctx hctx
  rw [free, Std.ExtTreeMap.getElem?_erase] at hctx
  split at hctx
  · cases hctx
  · exact hlive j ctx hctx

variable (h : Releases dev handles log dev') (hnodup : handles.Nodup)
  (hlive : dev.AllContexts UContext.IsLive)
  (hfailed : ∀ command ∈ log, isFailed command.target = (command.status != .ok))
include h hnodup hlive hfailed

private theorem inductionOn {motive : Mlx4Device → List Nat → Mlx4Device → Prop}
    (nil : ∀ dev, motive dev [] dev)
    (missing : ∀ {dev dev' : Mlx4Device} {handle : Nat} {handles : List Nat},
      dev.contexts[handle]? = none → motive dev handles dev' → motive dev (handle :: handles) dev')
    (kept : ∀ {dev dev' : Mlx4Device} {handle : Nat} {handles : List Nat} {ctx : UContext}
      {log log' : List Command}, dev.contexts[handle]? = some ctx → handle ∉ handles →
        ¬ (ctx.remaining isFailed).IsBare →
        Releases (dev.keep handle (ctx.remaining isFailed) log) handles log' dev' →
        motive (dev.keep handle (ctx.remaining isFailed) log) handles dev' →
        motive dev (handle :: handles) dev')
    (freed : ∀ {dev dev' : Mlx4Device} {handle : Nat} {handles : List Nat} {ctx : UContext}
      {log log' : List Command}, dev.contexts[handle]? = some ctx → handle ∉ handles →
        (ctx.remaining isFailed).IsBare →
        Releases (dev.free handle (ctx.remaining isFailed) log) handles log' dev' →
        motive (dev.free handle (ctx.remaining isFailed) log) handles dev' →
        motive dev (handle :: handles) dev') : motive dev handles dev' := by
  induction h with
  | nil dev => exact nil dev
  | missing hctx h ih => exact missing hctx (ih hnodup.of_cons hlive hfailed)
  | kept hctx htorn hbare h ih =>
    simp only [List.mem_append] at hfailed
    have ih := ih hnodup.of_cons (allContexts_keep hlive hctx htorn)
      fun c hmem ↦ hfailed c (.inr hmem)
    cases htorn.eq_remaining (hlive _ _ hctx) fun c hmem ↦ hfailed c (.inl hmem)
    exact kept hctx (List.nodup_cons.mp hnodup).1 hbare h ih
  | freed hctx htorn hbare h ih =>
    simp only [List.mem_append] at hfailed
    have ih := ih hnodup.of_cons (allContexts_free hlive) fun c hmem ↦ hfailed c (.inr hmem)
    cases htorn.eq_remaining (hlive _ _ hctx) fun c hmem ↦ hfailed c (.inl hmem)
    exact freed hctx (List.nodup_cons.mp hnodup).1 hbare h ih

private theorem getElem?_of_mem {j : Nat} (hj : j ∈ handles) {ctx : UContext}
    (hctx : dev.contexts[j]? = some ctx) :
    dev'.contexts[j]? =
      if (ctx.remaining isFailed).IsBare then none else some (ctx.remaining isFailed) := by
  revert hj hctx
  refine h.inductionOn (motive := fun dev handles dev' ↦ j ∈ handles →
    dev.contexts[j]? = some ctx → dev'.contexts[j]? =
      if (ctx.remaining isFailed).IsBare then none else some (ctx.remaining isFailed))
    hnodup hlive hfailed ?_ ?_ ?_ ?_
  · intro dev hj
    cases hj
  · intro dev dev' handle handles hnone ih hj hctx
    rcases List.mem_cons.mp hj with rfl | hj
    · rw [hnone] at hctx
      cases hctx
    · exact ih hj hctx
  · intro dev dev' handle handles ctx₁ log log' hget hmem hbare h ih hj hctx
    rcases List.mem_cons.mp hj with rfl | hj
    · rw [hget] at hctx
      cases hctx
      rw [h.getElem?_of_notMem hmem, contexts_keep, Std.ExtTreeMap.getElem?_insert_self,
        if_neg hbare]
    · have hne : handle ≠ j := (ne_of_mem_of_not_mem hj hmem).symm
      refine ih hj ?_
      rw [contexts_keep, Std.ExtTreeMap.getElem?_insert, if_neg (by simpa using hne), hctx]
  · intro dev dev' handle handles ctx₁ log log' hget hmem hbare h ih hj hctx
    rcases List.mem_cons.mp hj with rfl | hj
    · rw [hget] at hctx
      cases hctx
      rw [h.getElem?_of_notMem hmem, free, Std.ExtTreeMap.getElem?_erase_self, if_pos hbare]
    · have hne : handle ≠ j := (ne_of_mem_of_not_mem hj hmem).symm
      refine ih hj ?_
      rw [free, Std.ExtTreeMap.getElem?_erase, if_neg (by simpa using hne), hctx]

private theorem uarList_eq :
    dev'.uarList = dev.uarList ++ handles.flatMap (dev.held (freedPages isFailed)) := by
  refine h.inductionOn (motive := fun dev handles dev' ↦
    dev'.uarList = dev.uarList ++ handles.flatMap (dev.held (freedPages isFailed)))
    hnodup hlive hfailed ?_ ?_ ?_ ?_
  · exact fun dev ↦ (List.append_nil _).symm
  · intro dev dev' handle handles hnone ih
    rw [ih, List.flatMap_cons, held_of_none hnone, List.nil_append]
  · intro dev dev' handle handles ctx log log' hget hmem hbare h ih
    rw [ih, held_keep, flatMap_update hmem, List.flatMap_cons, held_of_some hget, freedPages,
      if_neg hbare]
    rfl
  · intro dev dev' handle handles ctx log log' hget hmem hbare h ih
    rw [ih, held_of_erase rfl, flatMap_update hmem, List.flatMap_cons, held_of_some hget,
      freedPages, if_pos hbare, free, List.append_assoc]
    rfl

private theorem mem_pdNumbers (pd : Nat) :
    pd ∈ dev'.pdNumbers ↔
      pd ∈ dev.pdNumbers ∧ pd ∉ handles.flatMap (dev.held (freedPds isFailed)) := by
  refine h.inductionOn (motive := fun dev handles dev' ↦ pd ∈ dev'.pdNumbers ↔
    pd ∈ dev.pdNumbers ∧ pd ∉ handles.flatMap (dev.held (freedPds isFailed)))
    hnodup hlive hfailed ?_ ?_ ?_ ?_
  · intro dev
    simp
  · intro dev dev' handle handles hnone ih
    rw [ih, List.flatMap_cons, held_of_none hnone, List.nil_append]
  · intro dev dev' handle handles ctx log log' hget hmem hbare h ih
    rw [ih, held_keep, flatMap_update hmem, List.flatMap_cons, held_of_some hget, freedPds,
      if_neg hbare]
    rfl
  · intro dev dev' handle handles ctx log log' hget hmem hbare h ih
    rw [ih, held_of_erase rfl, flatMap_update hmem, List.flatMap_cons, held_of_some hget,
      freedPds, if_pos hbare, free, mem_foldl_erase, List.mem_append, not_or, and_assoc]
    rfl

end

end Releases

variable {dev : Mlx4Device}

private theorem isLive_effect {s s' : Session} {verb : Verb} (h : Effect s verb s')
    (hlive : s.ctx.IsLive) : s'.ctx.IsLive := by
  have hindex : ∀ mr : MemoryRegion, mr.index ≠ none ↔ mr.key ≠ none := by
    intro mr
    rw [MemoryRegion.index, MemoryRegion.key, Ne, Ne, Option.map_eq_none_iff,
      Option.map_eq_none_iff]
  cases h with
  | createMr pd data access mr' card' hpd hkey hoffsets =>
    refine forall_mem_push hlive ?_
    rw [hindex, hkey]
    exact Option.some_ne_none _
  | mrs verb cmd' mrs' hmrs =>
    intro mr hmem
    obtain ⟨old, hold, hkey⟩ := List.mem_map.mp (hmrs.subset (List.mem_map_of_mem hmem))
    rw [hindex, ← hkey, ← hindex]
    exact hlive old hold
  | _ => exact hlive

private theorem Reachable.isLive (h : dev.Reachable) : dev.AllContexts UContext.IsLive := by
  obtain ⟨dev₀, calls, hinit, hrun⟩ := h
  refine (run_invariant hrun hinit.handlesBelow (hinit.allContexts _) ?_).2
  intro dev call dev' _ hlive heffect
  refine hlive.effect heffect (fun _ _ _ _ _ _ _ hverb hctx ↦ isLive_effect hverb hctx) ?_
    fun _ _ _ htorn hctx ↦ htorn.isLive hctx
  intro owner page pages mr hmem
  cases hmem

private theorem filterMap_sublist_map {α β : Type} {f : α → Option β} {g : α → β}
    (h : ∀ a b, f a = some b → b = g a) (l : List α) : (l.filterMap f).Sublist (l.map g) := by
  induction l with
  | nil => exact List.Sublist.slnil
  | cons a l ih =>
    rw [List.map_cons, List.filterMap_cons]
    cases hf : f a with
    | none => exact ih.cons _
    | some b =>
      rw [h a b hf]
      exact ih.cons_cons _

private theorem disjoint_map_mk {opcode opcode' : Opcode} (hne : opcode ≠ opcode')
    (l l' : List Nat) :
    (l.map (Prod.mk opcode)).Disjoint (l'.map (Prod.mk opcode')) := by
  intro target hmem hmem'
  obtain ⟨n, -, rfl⟩ := List.mem_map.mp hmem
  obtain ⟨n', -, heq⟩ := List.mem_map.mp hmem'
  exact hne (congrArg Prod.fst heq).symm

private theorem teardowns_sublist (ctx : UContext) :
    ctx.teardowns.Sublist
      ((NumberKind.queuePair.view ctx).map (Prod.mk Opcode.any2RstQp) ++
        (NumberKind.memoryRegion.view ctx).map (Prod.mk Opcode.hw2SwMpt) ++
        (NumberKind.completionQueue.view ctx).map (Prod.mk Opcode.hw2SwCq)) := by
  refine (List.Sublist.append ?_ ?_).append ?_
  · have hqp : ∀ (qp : QueuePair) target, qp.teardown.target? = some target →
        target = (Opcode.any2RstQp, qp.number) := by
      intro qp target h
      unfold QueuePair.teardown at h
      split at h
      · cases h
      · cases h
        rfl
    have hsub := filterMap_sublist_map hqp ctx.qps
    rwa [← Function.comp_def (Prod.mk Opcode.any2RstQp), ← List.map_map] at hsub
  · have hmr : ∀ mr : MemoryRegion,
        mr.teardown.target? = mr.index.map (Prod.mk Opcode.hw2SwMpt) := by
      intro mr
      unfold MemoryRegion.teardown
      cases mr.index <;> rfl
    simp only [hmr, ← List.map_filterMap]
    exact List.Sublist.refl _
  · rw [NumberKind.completionQueue, List.map_map]
    exact filterMap_sublist_map (fun cq target h ↦ (Option.some.inj h).symm) ctx.cqs

private theorem targets_injective (opcode : Opcode) (f : Nat → List Nat) :
    ∀ j, ∀ a ∈ f j, ∀ k, ∀ b ∈ f k, (opcode, a) = (opcode, b) → a = b :=
  fun _ _ _ _ _ _ heq ↦ congrArg Prod.snd heq

private theorem Reachable.apart_teardowns (h : dev.Reachable) : Apart
    (dev.held UContext.teardowns) := by
  have hqps := (h.apart .queuePair).map (targets_injective Opcode.any2RstQp _)
  have hmrs := (h.apart .memoryRegion).map (targets_injective Opcode.hw2SwMpt _)
  have hcqs := (h.apart .completionQueue).map (targets_injective Opcode.hw2SwCq _)
  have hqpsMrs := hqps.append hmrs fun j k ↦ disjoint_map_mk (by decide) _ _
  have hall := hqpsMrs.append hcqs fun j k ↦ List.disjoint_append_left.mpr
    ⟨disjoint_map_mk (by decide) _ _, disjoint_map_mk (by decide) _ _⟩
  refine hall.mono fun j ↦ ?_
  cases hctx : dev.contexts[j]? with
  | none =>
    rw [held_of_none hctx]
    exact List.nil_subperm
  | some ctx =>
    simp only [held_of_some hctx]
    exact (teardowns_sublist ctx).subperm

/-- The device after `release`, by the commands it executed: one for each object of the process
that takes one. A context with an object whose command failed is kept, with exactly these
objects and with its UAR page and protection domains; any other is given back. Of the numbers of
protection domains exactly those of the contexts that are given back are free again. -/
structure Cleaned (dev : Mlx4Device) (pid : Nat) (log : List Command) (dev' : Mlx4Device) :
    Prop where
  log_eq : dev'.card.cmd.log = dev.card.cmd.log ++ log
  targets : log.map Command.target = (dev.handlesOf pid).flatMap (dev.held UContext.teardowns)
  others : ∀ (handle : Nat) (ctx : UContext), dev.contexts[handle]? = some ctx →
    ctx.owner ≠ pid → dev'.contexts[handle]? = some ctx ∧ ∀ pd ∈ ctx.pds, pd ∈ dev'.pdNumbers
  absent : ∀ handle : Nat, dev.contexts[handle]? = none → dev'.contexts[handle]? = none
  kept : ∀ (handle : Nat) (ctx : UContext), dev.contexts[handle]? = some ctx → ctx.owner = pid →
    ¬ (ctx.remaining (failed log)).IsBare →
      dev'.contexts[handle]? = some (ctx.remaining (failed log)) ∧
      (ctx.remaining (failed log)).Destroyable dev.capabilities ∧
      ∀ pd ∈ ctx.pds, pd ∈ dev'.pdNumbers
  freed : ∀ (handle : Nat) (ctx : UContext), dev.contexts[handle]? = some ctx → ctx.owner = pid →
    (ctx.remaining (failed log)).IsBare →
      dev'.contexts[handle]? = none ∧ ctx.uarPage ∈ dev'.uarList ∧
      ∀ pd ∈ ctx.pds, pd ∉ dev'.pdNumbers
  uarList_eq : dev'.uarList =
    dev.uarList ++ (dev.handlesOf pid).flatMap (dev.held (freedPages (failed log)))
  mem_pdNumbers : ∀ pd, pd ∈ dev'.pdNumbers ↔ pd ∈ dev.pdNumbers ∧
    pd ∉ (dev.handlesOf pid).flatMap (dev.held (freedPds (failed log)))

private theorem Reachable.pds_stay (h : dev.Reachable) {pid handle pd : Nat} {log : List Command}
    {ctx : UContext} (hctx : dev.contexts[handle]? = some ctx)
    (hkept : ¬ (ctx.owner = pid ∧ (ctx.remaining (failed log)).IsBare)) (hpd : pd ∈ ctx.pds) :
    pd ∈ dev.pdNumbers ∧
      pd ∉ (dev.handlesOf pid).flatMap (dev.held (freedPds (failed log))) := by
  have hpd : pd ∈ dev.held UContext.pds handle := mem_held.mpr ⟨ctx, hctx, hpd⟩
  refine ⟨h.pdsExclusive.mem handle pd hpd, fun hfreed ↦ ?_⟩
  -- a freed context that held the domain would be this one
  obtain ⟨j, hj, hfreed⟩ := List.mem_flatMap.mp hfreed
  obtain ⟨ctx', hctx', hfreed⟩ := mem_held.mp hfreed
  rw [freedPds] at hfreed
  split at hfreed
  next hbare =>
    obtain rfl := h.pdsExclusive.apart.eq_of_mem (mem_held.mpr ⟨ctx', hctx', hfreed⟩) hpd
    obtain ⟨owned, howned, howner⟩ := mem_handlesOf.mp hj
    rw [hctx] at hctx' howned
    cases hctx'
    cases howned
    exact hkept ⟨howner, hbare⟩
  next => cases hfreed

private theorem Reachable.cleaned (h : dev.Reachable) {pid : Nat} {log : List Command}
    {dev' : Mlx4Device} (hreleases : Releases dev (dev.handlesOf pid) log dev') :
    Cleaned dev pid log dev' := by
  have hnodup := nodup_handlesOf dev pid
  have hlive := h.isLive
  have htargets := hreleases.map_target hnodup
  have hfailed : ∀ command ∈ log, failed log command.target = (command.status != .ok) := by
    intro command hmem
    refine failed_of_mem ?_ hmem
    rw [htargets]
    exact h.apart_teardowns.nodup_flatMap hnodup
  have huar := hreleases.uarList_eq hnodup hlive hfailed
  have hpds := hreleases.mem_pdNumbers hnodup hlive hfailed
  refine ⟨?_, htargets, ?_, fun handle ↦ hreleases.eq_none, ?_, ?_, huar, hpds⟩
  · rw [hreleases.cmd_eq]
    rfl
  · intro handle ctx hctx howner
    refine ⟨?_, fun pd hpd ↦ (hpds pd).mpr (h.pds_stay hctx (fun h ↦ howner h.1) hpd)⟩
    rw [hreleases.getElem?_of_notMem ?_, hctx]
    rw [mem_handlesOf]
    rintro ⟨ctx', hctx', rfl⟩
    rw [hctx] at hctx'
    cases hctx'
    exact howner rfl
  · intro handle ctx hctx howner hbare
    have hmem := mem_handlesOf.mpr ⟨ctx, hctx, howner⟩
    have hget := hreleases.getElem?_of_mem hnodup hlive hfailed hmem hctx
    rw [if_neg hbare] at hget
    exact ⟨hget, ((hlive handle ctx hctx).remaining _).destroyable _,
      fun pd hpd ↦ (hpds pd).mpr (h.pds_stay hctx (fun h ↦ hbare h.2) hpd)⟩
  · intro handle ctx hctx howner hbare
    have hmem := mem_handlesOf.mpr ⟨ctx, hctx, howner⟩
    have hget := hreleases.getElem?_of_mem hnodup hlive hfailed hmem hctx
    rw [if_pos hbare] at hget
    refine ⟨hget, ?_, fun pd hpd ↦ ?_⟩
    · rw [huar]
      refine List.mem_append_right _ (List.mem_flatMap.mpr ⟨handle, hmem, ?_⟩)
      rw [held_of_some hctx, freedPages, if_pos hbare]
      exact List.mem_singleton_self _
    · rw [hpds]
      rintro ⟨-, hnot⟩
      refine hnot (List.mem_flatMap.mpr ⟨handle, hmem, ?_⟩)
      rwa [held_of_some hctx, freedPds, if_pos hbare]

/-- What `release` leaves behind, whatever the card answers: it returns `Ok` if every context
of the process is given back, and an error if one is kept. -/
theorem release_cleans (h : dev.Reachable) (pid : Nat) :
    Ends (release pid) dev
      (fun _ dev' ↦ ∃ log, Cleaned dev pid log dev' ∧
        ∀ (handle : Nat) (ctx : UContext), dev.contexts[handle]? = some ctx → ctx.owner = pid →
          dev'.contexts[handle]? = none ∧ ctx.uarPage ∈ dev'.uarList ∧
          ∀ pd ∈ ctx.pds, pd ∉ dev'.pdNumbers)
      (fun e dev' ↦ e.IsErr ∧ ∃ log, Cleaned dev pid log dev' ∧
        ∃ (handle : Nat) (ctx : UContext), dev.contexts[handle]? = some ctx ∧ ctx.owner = pid ∧
          ¬ (ctx.remaining (failed log)).IsBare) := by
  refine (release_ends dev pid).mono ?_ ?_
  · rintro _ dev' ⟨⟨log, hreleases⟩, hnone⟩
    have hclean := h.cleaned hreleases
    refine ⟨log, hclean, fun handle ctx hctx howner ↦ hclean.freed handle ctx hctx howner ?_⟩
    by_contra hbare
    refine hnone ⟨handle, mem_handlesOf.mpr ⟨ctx, hctx, howner⟩, ?_⟩
    rw [Std.ExtTreeMap.mem_iff_isSome_getElem?, (hclean.kept handle ctx hctx howner hbare).1]
    rfl
  · rintro e dev' ⟨⟨log, hreleases⟩, he, handle, hmem, hany⟩
    have hclean := h.cleaned hreleases
    obtain ⟨ctx, hctx, howner⟩ := mem_handlesOf.mp hmem
    refine ⟨he, log, hclean, handle, ctx, hctx, howner, fun hbare ↦ ?_⟩
    rw [Std.ExtTreeMap.mem_iff_isSome_getElem?,
      (hclean.freed handle ctx hctx howner hbare).1] at hany
    cases hany

/-- The sample device with a card that refuses its third command. -/
def stubborn : Mlx4Device :=
  { Sample.device Sample.caps with
    card := { Sample.card Sample.caps with
      cmd := ⟨fun n ↦ ⟨if n = 2 then .resourceBusy else .ok, 16, 4096, 0⟩, []⟩ } }

/-- The card refuses to let go of a memory region: the context is kept. -/
theorem release_cleans_sample : ∃ dev e dev' log ctx, dev.Reachable ∧
    release 1 dev = .error e dev' ∧ Cleaned dev 1 log dev' ∧ dev.contexts[1]? = some ctx ∧
    ctx.owner = 1 ∧ ¬ (ctx.remaining (failed log)).IsBare := by
  obtain ⟨first, second, dev, hrun, hhandles, e, dev', hrelease, -⟩ : ∃ first second dev,
      [Call.openContext first {} {} Sample.frames, .verb first 1 .allocPd,
        .verb first 1 (.createMr 2 Sample.memory 1)].foldlM step stubborn = .ok dev ∧
      dev.handlesOf 1 = [1] ∧ ∃ e dev', release 1 dev = .error e dev' ∧ True :=
    Sample.exists_run (by decide +kernel)
  have hreach : dev.Reachable := ⟨stubborn, _, ⟨rfl, rfl, rfl⟩, hrun⟩
  obtain ⟨-, log, hclean, handle, ctx, hctx, howner, hbare⟩ :=
    (release_cleans hreach 1).of_error hrelease
  have hhandle : handle ∈ dev.handlesOf 1 := mem_handlesOf.mpr ⟨ctx, hctx, howner⟩
  rw [hhandles, List.mem_singleton] at hhandle
  subst hhandle
  exact ⟨dev, e, dev', log, ctx, hreach, hrelease, hclean, hctx, howner, hbare⟩

end Mlx4Device

end D3OS.Mlx4

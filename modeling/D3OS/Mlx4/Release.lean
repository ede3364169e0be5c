import D3OS.Mlx4.Device

/-!
# Destroying objects and contexts

What `UContext::destroy` and `release` do, told by the commands they execute: an object is
kept exactly if its command failed, and a context exactly if one of its objects is kept.
-/

namespace D3OS.Mlx4

open Lib

/-- What it takes to destroy an object. -/
inductive Teardown where
  | nothing
  | refused
  | command (opcode : Opcode) (input : InputParam) (number : Nat)

/-- A queue pair in `Reset` goes without a command. -/
def QueuePair.teardown (qp : QueuePair) : Teardown :=
  if qp.state = .reset then .nothing else .command .any2RstQp (.stateTransition {}) qp.number

/-- A memory region that is destroyed already is refused. -/
def MemoryRegion.teardown (mr : MemoryRegion) : Teardown :=
  match mr.index with
  | none => .refused
  | some index => .command .hw2SwMpt .empty index

/-- A completion queue takes a command. -/
def CompletionQueue.teardown (cq : CompletionQueue) : Teardown :=
  .command .hw2SwCq .empty cq.number

/-- The interface after some more commands. -/
def CommandInterface.append (cmd : CommandInterface) (log : List Command) : CommandInterface :=
  { cmd with log := cmd.log ++ log }

/-- No command is logged. -/
@[simp] theorem CommandInterface.append_nil (cmd : CommandInterface) : cmd.append [] = cmd := by
  simp [append]

/-- Commands are logged one after the other. -/
@[simp] theorem CommandInterface.append_append (cmd : CommandInterface) (log log' : List Command) :
    (cmd.append log).append log' = cmd.append (log ++ log') := by
  simp [append]

/-- Going through objects with `retain_mut`: the commands executed and the objects kept. -/
inductive Retained {α : Type} (teardown : α → Teardown) : List α → List Command → List α → Prop
  | nil : Retained teardown [] [] []
  | silent {a : α} {l kept : List α} {log : List Command} (ha : teardown a = .nothing)
      (h : Retained teardown l log kept) : Retained teardown (a :: l) log kept
  | refused {a : α} {l kept : List α} {log : List Command} (ha : teardown a = .refused)
      (h : Retained teardown l log kept) : Retained teardown (a :: l) log (a :: kept)
  | destroyed {a : α} {l kept : List α} {log : List Command} {opcode : Opcode}
      {input : InputParam} {number : Nat} (ha : teardown a = .command opcode input number)
      (h : Retained teardown l log kept) :
      Retained teardown (a :: l) (⟨opcode, input, number, .ok⟩ :: log) kept
  | failed {a : α} {l kept : List α} {log : List Command} {opcode : Opcode} {input : InputParam}
      {number : Nat} {status : ReturnStatus} (ha : teardown a = .command opcode input number)
      (hstatus : status ≠ .ok) (h : Retained teardown l log kept) :
      Retained teardown (a :: l) (⟨opcode, input, number, status⟩ :: log) (a :: kept)

section

variable {α : Type} {destroy : EStateM Fault (α × CommandInterface) Unit} {teardown : α → Teardown}

/-- The function destroys objects as described. -/
def DestroyedBy (destroy : EStateM Fault (α × CommandInterface) Unit) (teardown : α → Teardown) :
    Prop :=
  ∀ a cmd, Ends destroy (a, cmd)
    (fun _ t ↦ (teardown a = .nothing ∧ t.2 = cmd) ∨
      ∃ opcode input number, teardown a = .command opcode input number ∧
        t.2 = cmd.append [⟨opcode, input, number, .ok⟩])
    (fun e t ↦ e.IsErr ∧ t.1 = a ∧ ((teardown a = .refused ∧ t.2 = cmd) ∨
      ∃ opcode input number status, teardown a = .command opcode input number ∧ status ≠ .ok ∧
        t.2 = cmd.append [⟨opcode, input, number, status⟩]))

private theorem retainMut_ends (hd : DestroyedBy destroy teardown) (l : List α)
    (cmd : CommandInterface) :
    Ends (retainMut destroy l) cmd
      (fun kept cmd' ↦ ∃ log, cmd' = cmd.append log ∧ Retained teardown l log kept)
      fun _ _ ↦ False := by
  induction l generalizing cmd with
  | nil => exact ⟨[], (cmd.append_nil).symm, .nil⟩
  | cons a rest ih =>
    have hone : Ends (destroyOne destroy a) cmd
        (fun kept cmd' ↦ ∃ log, cmd' = cmd.append log ∧ ∀ log' others,
          Retained teardown rest log' others →
            Retained teardown (a :: rest) (log ++ log') (kept.toList ++ others))
        fun _ _ ↦ False := by
      have hends := hd a cmd
      unfold Ends at hends
      unfold Ends destroyOne
      cases hr : destroy (a, cmd) with
      | ok u t =>
        rw [hr] at hends
        rcases hends with ⟨ha, ht⟩ | ⟨opcode, input, number, ha, ht⟩
        · exact ⟨[], ht.trans (cmd.append_nil).symm, fun _ _ h ↦ .silent ha h⟩
        · exact ⟨_, ht, fun _ _ h ↦ .destroyed ha h⟩
      | error e t =>
        rw [hr] at hends
        obtain ⟨he, hsame, hends⟩ := hends
        cases e with
        | panic reason => exact he
        | err message =>
          rcases hends with ⟨ha, ht⟩ | ⟨opcode, input, number, status, ha, hstatus, ht⟩
          · refine ⟨[], ht.trans (cmd.append_nil).symm, fun log' others h ↦ ?_⟩
            rw [hsame]
            exact .refused ha h
          · refine ⟨_, ht, fun log' others h ↦ ?_⟩
            rw [hsame]
            exact .failed ha hstatus h
    simp only [retainMut, ends_bind, ends_pure]
    refine hone.mono (fun kept cmd' ↦ ?_) fun _ _ h ↦ h
    rintro ⟨log, rfl, hkept⟩
    refine (ih _).mono (fun others cmd'' ↦ ?_) fun _ _ h ↦ h
    rintro ⟨log', rfl, hothers⟩
    exact ⟨log ++ log', cmd.append_append log log', hkept log' others hothers⟩

/-- What is kept was there. -/
theorem Retained.sublist {l kept : List α} {log : List Command} (h : Retained teardown l log kept) :
    kept.Sublist l := by
  induction h with
  | nil => exact List.Sublist.slnil
  | silent ha h ih | destroyed ha h ih => exact ih.cons _
  | refused ha h ih | failed ha hstatus h ih => exact ih.cons_cons _

end

private theorem queuePair_destroyedBy (caps : Capabilities) :
    DestroyedBy (QueuePair.destroy caps) QueuePair.teardown := by
  intro qp cmd
  rw [QueuePair.ends_destroy, QueuePair.teardown]
  refine ⟨fun h ↦ Or.inl ⟨if_pos h, rfl⟩, fun h ↦ ⟨fun hok ↦ Or.inr ⟨_, _, _, if_neg h, ?_⟩,
    fun hfailed ↦ ⟨trivial, rfl, Or.inr ⟨_, _, _, _, if_neg h, hfailed, rfl⟩⟩⟩⟩
  rw [← hok]
  rfl

private theorem memoryRegion_destroyedBy :
    DestroyedBy MemoryRegion.destroy MemoryRegion.teardown := by
  intro mr cmd
  rw [MemoryRegion.ends_destroy, MemoryRegion.teardown]
  refine ⟨fun index h ↦ ⟨fun hok ↦ Or.inr ⟨.hw2SwMpt, .empty, index, by rw [h], ?_⟩,
    fun hfailed ↦ ⟨trivial, rfl, Or.inr ⟨.hw2SwMpt, .empty, index, _, by rw [h], hfailed, rfl⟩⟩⟩,
    fun h ↦ ⟨trivial, rfl, Or.inl ⟨by rw [h], rfl⟩⟩⟩
  rw [← hok]
  rfl

private theorem completionQueue_destroyedBy :
    DestroyedBy CompletionQueue.destroy CompletionQueue.teardown := by
  intro cq cmd
  rw [CompletionQueue.ends_destroy, CompletionQueue.teardown]
  refine ⟨fun hok ↦ Or.inr ⟨_, _, _, rfl, ?_⟩,
    fun hfailed ↦ ⟨trivial, rfl, Or.inr ⟨_, _, _, _, rfl, hfailed, rfl⟩⟩⟩
  rw [← hok]
  rfl

/-- A context after an attempt to destroy everything in it: queue pairs first, completion
queues last. -/
structure TornDown (ctx : UContext) (log : List Command) (ctx' : UContext) : Prop where
  eq : ctx' = { ctx with qps := ctx'.qps, mrs := ctx'.mrs, cqs := ctx'.cqs }
  retained : ∃ qpLog mrLog cqLog, log = qpLog ++ mrLog ++ cqLog ∧
    Retained QueuePair.teardown ctx.qps qpLog ctx'.qps ∧
    Retained MemoryRegion.teardown ctx.mrs mrLog ctx'.mrs ∧
    Retained CompletionQueue.teardown ctx.cqs cqLog ctx'.cqs

/-- The protection domains stay. -/
theorem TornDown.pds_eq {ctx ctx' : UContext} {log : List Command} (h : TornDown ctx log ctx') :
    ctx'.pds = ctx.pds := by
  rw [h.eq]

/-- The UAR page stays. -/
theorem TornDown.uarPage_eq {ctx ctx' : UContext} {log : List Command}
    (h : TornDown ctx log ctx') : ctx'.uarPage = ctx.uarPage := by
  rw [h.eq]

namespace UContext

/-- No object is left in the context. -/
def IsBare (ctx : UContext) : Prop := ctx.qps = [] ∧ ctx.mrs = [] ∧ ctx.cqs = []

private theorem destroy_ends (caps : Capabilities) (ctx : UContext) (cmd : CommandInterface) :
    Ends (destroy caps) (ctx, cmd)
      (fun _ t ↦ t.1.IsBare ∧ ∃ log, t.2 = cmd.append log ∧ TornDown ctx log t.1)
      (fun e t ↦ e.IsErr ∧ ¬ t.1.IsBare ∧ ∃ log, t.2 = cmd.append log ∧ TornDown ctx log t.1) := by
  simp only [destroy, ends_bind, ends_get, ends_zoom, ends_modify, ends_ite, ends_pure,
    ends_throw, Fault.isErr_err, true_and]
  refine (retainMut_ends (queuePair_destroyedBy caps) ctx.qps cmd).mono ?_ fun _ _ h ↦ h.elim
  rintro qps _ ⟨qpLog, rfl, hqps⟩
  refine (retainMut_ends memoryRegion_destroyedBy ctx.mrs _).mono ?_ fun _ _ h ↦ h.elim
  rintro mrs _ ⟨mrLog, rfl, hmrs⟩
  refine (retainMut_ends completionQueue_destroyedBy ctx.cqs _).mono ?_ fun _ _ h ↦ h.elim
  rintro cqs _ ⟨cqLog, rfl, hcqs⟩
  have htorn : TornDown ctx (qpLog ++ mrLog ++ cqLog)
      { ctx with qps := qps, mrs := mrs, cqs := cqs } :=
    ⟨rfl, qpLog, mrLog, cqLog, rfl, hqps, hmrs, hcqs⟩
  have hbare : (qps.isEmpty && mrs.isEmpty && cqs.isEmpty) = true ↔
      IsBare { ctx with qps := qps, mrs := mrs, cqs := cqs } := by
    simp only [IsBare, Bool.and_eq_true, List.isEmpty_iff, and_assoc]
  rw [hbare]
  exact ⟨fun h ↦ ⟨h, _, by simp, htorn⟩, fun h ↦ ⟨h, _, by simp, htorn⟩⟩

end UContext

namespace Mlx4Device

/-- The device after a context could not be destroyed. -/
def keep (dev : Mlx4Device) (handle : Nat) (ctx : UContext) (log : List Command) : Mlx4Device :=
  { dev with
    card := { dev.card with cmd := dev.card.cmd.append log }
    contexts := (dev.contexts.erase handle).insert handle ctx }

/-- The contexts after one is kept. -/
theorem contexts_keep (dev : Mlx4Device) (handle : Nat) (ctx : UContext) (log : List Command) :
    (dev.keep handle ctx log).contexts = dev.contexts.insert handle ctx := by
  apply Std.ExtTreeMap.ext_getElem?
  intro j
  by_cases hj : handle = j
  · subst hj
    simp [keep]
  · simp [keep, Std.ExtTreeMap.getElem?_insert, Std.ExtTreeMap.getElem?_erase, hj]

/-- The device after a context was destroyed. -/
def free (dev : Mlx4Device) (handle : Nat) (ctx : UContext) (log : List Command) : Mlx4Device :=
  { dev with
    card := { dev.card with cmd := dev.card.cmd.append log }
    contexts := dev.contexts.erase handle
    pdNumbers := ctx.pds.foldl (fun pds pd ↦ pds.erase pd) dev.pdNumbers
    uarList := dev.uarList ++ [ctx.uarPage] }

/-- The passes of `release` over contexts: the commands executed and the device afterwards. -/
inductive Releases : Mlx4Device → List Nat → List Command → Mlx4Device → Prop
  | nil (dev : Mlx4Device) : Releases dev [] [] dev
  | missing {dev dev' : Mlx4Device} {handle : Nat} {handles : List Nat} {log : List Command}
      (hctx : dev.contexts[handle]? = none) (h : Releases dev handles log dev') :
      Releases dev (handle :: handles) log dev'
  | kept {dev dev' : Mlx4Device} {handle : Nat} {handles : List Nat} {ctx ctx' : UContext}
      {log log' : List Command} (hctx : dev.contexts[handle]? = some ctx)
      (htorn : TornDown ctx log ctx') (hbare : ¬ ctx'.IsBare)
      (h : Releases (dev.keep handle ctx' log) handles log' dev') :
      Releases dev (handle :: handles) (log ++ log') dev'
  | freed {dev dev' : Mlx4Device} {handle : Nat} {handles : List Nat} {ctx ctx' : UContext}
      {log log' : List Command} (hctx : dev.contexts[handle]? = some ctx)
      (htorn : TornDown ctx log ctx') (hbare : ctx'.IsBare)
      (h : Releases (dev.free handle ctx' log) handles log' dev') :
      Releases dev (handle :: handles) (log ++ log') dev'

/-- Some handle of the list still has a context. -/
def HasAny (dev : Mlx4Device) (handles : List Nat) : Prop :=
  ∃ handle ∈ handles, handle ∈ dev.contexts

private theorem hasAny_cons (dev : Mlx4Device) (handle : Nat) (handles : List Nat) :
    dev.HasAny (handle :: handles) ↔ handle ∈ dev.contexts ∨ dev.HasAny handles := by
  simp only [HasAny, List.exists_mem_cons_iff]

variable {dev dev' : Mlx4Device} {handles : List Nat} {log : List Command}

/-- The contexts of other handles stay as they are. -/
theorem Releases.getElem?_of_notMem (h : Releases dev handles log dev') {handle : Nat}
    (hmem : handle ∉ handles) : dev'.contexts[handle]? = dev.contexts[handle]? := by
  induction h with
  | nil dev => rfl
  | missing hctx h ih => exact ih (List.not_mem_of_not_mem_cons hmem)
  | kept hctx htorn hbare h ih =>
    have hne := List.ne_of_not_mem_cons hmem
    rw [ih (List.not_mem_of_not_mem_cons hmem), contexts_keep]
    simp [Std.ExtTreeMap.getElem?_insert, hne.symm]
  | freed hctx htorn hbare h ih =>
    have hne := List.ne_of_not_mem_cons hmem
    rw [ih (List.not_mem_of_not_mem_cons hmem), free]
    simp [Std.ExtTreeMap.getElem?_erase, hne.symm]

private theorem Releases.mem_iff (h : Releases dev handles log dev') {handle : Nat}
    (hmem : handle ∉ handles) : handle ∈ dev'.contexts ↔ handle ∈ dev.contexts := by
  rw [Std.ExtTreeMap.mem_iff_isSome_getElem?, h.getElem?_of_notMem hmem,
    ← Std.ExtTreeMap.mem_iff_isSome_getElem?]

private theorem Releases.hasAny_cons_of_absent (h : Releases dev handles log dev') {handle : Nat}
    (hmem : handle ∉ handles) (habsent : handle ∉ dev.contexts) :
    dev'.HasAny (handle :: handles) ↔ dev'.HasAny handles := by
  rw [hasAny_cons, h.mem_iff hmem, or_iff_right habsent]

private theorem releaseLoop_ends (dev : Mlx4Device) {handles : List Nat} (hnodup : handles.Nodup)
    (result : Except Fault Unit) (hresult : Yields result (fun _ ↦ True) Fault.IsErr) :
    Ends (releaseLoop handles result) dev
      (fun _ dev' ↦ (∃ log, Releases dev handles log dev') ∧ result = .ok () ∧
        ¬ dev'.HasAny handles)
      (fun e dev' ↦ (∃ log, Releases dev handles log dev') ∧ e.IsErr ∧
        (result = .ok () → dev'.HasAny handles)) := by
  induction handles generalizing dev result with
  | nil =>
    cases result with
    | ok u => exact ⟨⟨[], .nil dev⟩, rfl, by simp [HasAny]⟩
    | error e => exact ⟨⟨[], .nil dev⟩, hresult, by simp⟩
  | cons handle rest ih =>
    obtain ⟨hmem, hrest⟩ := List.nodup_cons.mp hnodup
    simp only [releaseLoop, ends_bind, ends_get]
    cases hctx : dev.contexts[handle]? with
    | none =>
      have habsent : handle ∉ dev.contexts := by simpa using hctx
      refine (ih dev hrest result hresult).mono ?_ ?_
      · rintro _ dev' ⟨⟨log, h⟩, hok, hnone⟩
        exact ⟨⟨log, .missing hctx h⟩, hok,
          fun hany ↦ hnone ((h.hasAny_cons_of_absent hmem habsent).mp hany)⟩
      · rintro e dev' ⟨⟨log, h⟩, herr, hany⟩
        exact ⟨⟨log, .missing hctx h⟩, herr,
          fun hok ↦ (h.hasAny_cons_of_absent hmem habsent).mpr (hany hok)⟩
    | some ctx =>
      have hdestroy := UContext.destroy_ends dev.capabilities ctx dev.card.cmd
      unfold Ends at hdestroy
      dsimp only
      cases hd : UContext.destroy dev.capabilities (ctx, dev.card.cmd) with
      | error e t =>
        rw [hd] at hdestroy
        obtain ⟨he, hbare, log, hcmd, htorn⟩ := hdestroy
        cases e with
        | panic reason => exact he.elim
        | err message =>
          obtain ⟨ctx', cmd'⟩ := t
          obtain rfl : cmd' = _ := hcmd
          refine (ih (dev.keep handle ctx' log) hrest (.error (.err message)) trivial).mono ?_ ?_
          · rintro _ dev' ⟨-, hok, -⟩
            cases hok
          · rintro e dev' ⟨⟨log', h⟩, herr, -⟩
            refine ⟨⟨log ++ log', .kept hctx htorn hbare h⟩, herr, fun _ ↦ ?_⟩
            rw [hasAny_cons, h.mem_iff hmem, contexts_keep]
            exact Or.inl Std.ExtTreeMap.mem_insert_self
      | ok u t =>
        rw [hd] at hdestroy
        obtain ⟨hbare, log, hcmd, htorn⟩ := hdestroy
        obtain ⟨ctx', cmd'⟩ := t
        obtain rfl : cmd' = _ := hcmd
        have habsent : handle ∉ (dev.free handle ctx' log).contexts := by simp [free]
        refine (ih (dev.free handle ctx' log) hrest result hresult).mono ?_ ?_
        · rintro _ dev' ⟨⟨log', h⟩, hok, hnone⟩
          exact ⟨⟨log ++ log', .freed hctx htorn hbare h⟩, hok,
            fun hany ↦ hnone ((h.hasAny_cons_of_absent hmem habsent).mp hany)⟩
        · rintro e dev' ⟨⟨log', h⟩, herr, hany⟩
          exact ⟨⟨log ++ log', .freed hctx htorn hbare h⟩, herr,
            fun hok ↦ (h.hasAny_cons_of_absent hmem habsent).mpr (hany hok)⟩

/-- The handles that `release` goes through are those of the contexts of the process. -/
theorem mem_handlesOf {dev : Mlx4Device} {pid handle : Nat} :
    handle ∈ dev.handlesOf pid ↔ ∃ ctx, dev.contexts[handle]? = some ctx ∧ ctx.owner = pid := by
  simp [handlesOf, Std.ExtTreeMap.mem_toList_iff_getElem?_eq_some]

/-- It goes through each of them once. -/
theorem nodup_handlesOf (dev : Mlx4Device) (pid : Nat) : (dev.handlesOf pid).Nodup := by
  have hkeys := dev.contexts.distinct_keys_toList
  rw [handlesOf, List.Nodup, List.pairwise_map]
  refine (hkeys.sublist List.filter_sublist).imp ?_
  intro a b hne heq
  rw [heq] at hne
  simp at hne

/-- `release` returns an error if a context of the process is kept. -/
theorem release_ends (dev : Mlx4Device) (pid : Nat) :
    Ends (release pid) dev
      (fun _ dev' ↦ (∃ log, Releases dev (dev.handlesOf pid) log dev') ∧
        ¬ dev'.HasAny (dev.handlesOf pid))
      (fun e dev' ↦ (∃ log, Releases dev (dev.handlesOf pid) log dev') ∧ e.IsErr ∧
        dev'.HasAny (dev.handlesOf pid)) := by
  refine (releaseLoop_ends dev (nodup_handlesOf dev pid) (.ok ()) trivial).mono ?_ ?_
  · rintro _ dev' ⟨h, -, hnone⟩
    exact ⟨h, hnone⟩
  · rintro e dev' ⟨h, herr, hany⟩
    exact ⟨h, herr, hany rfl⟩

end Mlx4Device

end D3OS.Mlx4

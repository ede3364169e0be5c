import D3OS.Lib.Apart
import D3OS.Mlx4.Effects
import D3OS.Mlx4.Release

/-!
# Calls and runs of the device

A run interleaves calls of any processes in any order; the card may refuse each command. As
for the verbs, all that is needed of a call is what it can do to the device: a verb changes
the context it names, `open` adds a context, and `release` goes through the contexts of a
process, each of which it frees or keeps with what could not be destroyed.
-/

namespace D3OS.Mlx4

open Lib Memory

/-- A call into the driver. The process of a call is given with the address space it has at
that time. -/
inductive Call where
  | openContext (process : Process) (doorbellFaults blueflameFaults : MapFaults)
      (fa : FrameAllocator)
  | release (pid : Nat)
  | verb (process : Process) (handle : Nat) (verb : Verb)

namespace Mlx4Device

/-- The device after a call. -/
def step (dev : Mlx4Device) : Call → Except Panic Mlx4Device
  | .openContext process doorbellFaults blueflameFaults fa =>
    Prod.fst <$> afterCall (openContext process.id doorbellFaults blueflameFaults)
      (dev, process.virtualAddressSpace, fa)
  | .release pid => afterCall (release pid) dev
  | .verb process handle verb => afterCall (perform process handle verb) dev

/-- A device on which nothing has been opened. -/
structure Initial (dev : Mlx4Device) : Prop where
  contexts_eq : dev.contexts = ∅
  pdNumbers_eq : dev.pdNumbers = ∅
  nextContext_eq : dev.nextContext = 1

/-- A device after a run of calls. -/
def Reachable (dev : Mlx4Device) : Prop :=
  ∃ (dev₀ : Mlx4Device) (calls : List Call), dev₀.Initial ∧ calls.foldlM step dev₀ = .ok dev

/-- The context that `open` creates. -/
def newContext (dev : Mlx4Device) (owner : Nat) (uarPage : UarPage) (pages : Page × Page) :
    UContext :=
  ⟨dev.nextContext, owner, uarPage, pages.1, pages.2, [], [], [], []⟩

/-- The device after `open` has created a context. -/
def opened (dev : Mlx4Device) (ctx : UContext) (uarList : List UarPage) : Mlx4Device :=
  { dev with
    contexts := dev.contexts.insert dev.nextContext ctx
    nextContext := dev.nextContext + 1
    uarList := uarList }

/-- Every context was opened with a handle that was new. -/
def HandlesBelow (dev : Mlx4Device) : Prop :=
  ∀ handle, dev.nextContext ≤ handle → dev.contexts[handle]? = none

variable {handle : Nat}

private theorem insertIfNew_of_none {contexts : Std.ExtTreeMap Nat UContext}
    (h : contexts[handle]? = none) (ctx : UContext) :
    contexts.insertIfNew handle ctx = contexts.insert handle ctx := by
  apply Std.ExtTreeMap.ext_getElem?
  intro k
  have habsent : handle ∉ contexts := by simpa using h
  rw [Std.ExtTreeMap.getElem?_insertIfNew, Std.ExtTreeMap.getElem?_insert]
  by_cases hk : handle = k
  · simp [habsent]
  · simp [hk]

variable {dev : Mlx4Device}

/-- `open`, as a rule to compute with. -/
theorem ends_openContext {owner : Nat} {doorbellFaults blueflameFaults : MapFaults}
    {mapping : Mapping} {Q : UContext → Mlx4Device × Mapping → Prop}
    {E : Fault → Mlx4Device × Mapping → Prop} :
    Ends (openContext owner doorbellFaults blueflameFaults) (dev, mapping) Q E ↔
      (2 ^ 32 ≤ dev.nextContext + 1 → E (.err "No context handle available") (dev, mapping)) ∧
      (dev.nextContext + 1 < 2 ^ 32 →
        (dev.uarList = [] → E (.err "No UAR page available") (dev, mapping)) ∧
        ∀ uarList page, dev.uarList = uarList ++ [page] →
          Ends (page.mapPages doorbellFaults blueflameFaults) mapping
            (fun pages mapping' ↦
              let ctx := dev.newContext owner page pages
              let contexts := dev.contexts.insertIfNew dev.nextContext ctx
              Q (contexts.getD dev.nextContext ctx) ({ dev with
                uarList := uarList, nextContext := dev.nextContext + 1, contexts := contexts },
                mapping'))
            fun
              | .err message, mapping' => E (.err message) (dev, mapping')
              | .panic reason, mapping' =>
                E (.panic reason) ({ dev with uarList := uarList }, mapping')) := by
  by_cases hnext : 2 ^ 32 ≤ dev.nextContext + 1
  · simp only [Ends, openContext, hnext, Nat.not_lt.mpr hnext, if_true, true_implies, false_implies,
      and_true]
  · simp only [Ends, openContext, hnext, Nat.not_le.mp hnext, if_false, true_implies, false_implies,
      true_and]
    rcases dev.uarList.eq_nil_or_concat' with hlist | ⟨uarList, page, hlist⟩
    · simp [hlist]
    · have hsame : { dev with uarList := uarList ++ [page] } = dev := by rw [← hlist]
      cases hmap : page.mapPages doorbellFaults blueflameFaults mapping with
      | ok pages mapping' => simp [hlist, hmap, newContext]
      | error e mapping' =>
        cases e with
        | err message | panic reason => simp [hlist, hsame, hmap]

/-- `open` returns with a new context, or with an error and the device as it was. -/
theorem openContext_ends (hbelow : dev.HandlesBelow) (owner : Nat)
    (doorbellFaults blueflameFaults : MapFaults) (mapping : Mapping)
    {Q : UContext → Mlx4Device × Mapping → Prop} {E : Fault → Mlx4Device × Mapping → Prop}
    (hopen : ∀ uarList page, dev.uarList = uarList ++ [page] →
      Ends (page.mapPages doorbellFaults blueflameFaults) mapping
        (fun pages mapping' ↦ Q (dev.newContext owner page pages)
          (dev.opened (dev.newContext owner page pages) uarList, mapping'))
        fun e mapping' ↦ e.OnErr (E e (dev, mapping')))
    (hrefused : ∀ message, E (.err message) (dev, mapping)) :
    Ends (openContext owner doorbellFaults blueflameFaults) (dev, mapping) Q
      fun e s' ↦ e.OnErr (E e s') := by
  refine ends_openContext.mpr ⟨fun _ ↦ hrefused _, fun _ ↦ ⟨fun _ ↦ hrefused _, ?_⟩⟩
  intro uarList page hlist
  refine (hopen uarList page hlist).mono (fun pages mapping' h ↦ ?_) fun e mapping' h ↦ ?_
  · dsimp only
    rw [insertIfNew_of_none (hbelow _ (Nat.le_refl _)), Std.ExtTreeMap.getD_insert_self]
    exact h
  · cases e with
    | err message => exact h
    | panic reason => trivial

/-- What a call can do to the device. -/
inductive DeviceEffect (dev : Mlx4Device) : Call → Mlx4Device → Prop
  | nothing (call : Call) : DeviceEffect dev call dev
  | verb {process : Process} {handle : Nat} {verb : Verb} {ctx : UContext} {s' : Session}
      (hctx : dev.contexts[handle]? = some ctx) (howner : ctx.owner = process.id)
      (heffect : Effect ⟨ctx, dev.card, dev.pdNumbers⟩ verb s') :
      DeviceEffect dev (.verb process handle verb) (dev.store handle s')
  | opened {process : Process} {doorbellFaults blueflameFaults : MapFaults} {fa : FrameAllocator}
      {uarList : List UarPage} {page : UarPage} (pages : Page × Page)
      (hlist : dev.uarList = uarList ++ [page]) :
      DeviceEffect dev (.openContext process doorbellFaults blueflameFaults fa)
        (dev.opened (dev.newContext process.id page pages) uarList)
  | released {pid : Nat} {log : List Command} {dev' : Mlx4Device}
      (h : Releases dev (dev.handlesOf pid) log dev') : DeviceEffect dev (.release pid) dev'

/-- A context is found for its owner only. -/
theorem contextOf_eq_some {process : Process} {ctx : UContext} :
    dev.contextOf handle process = some ctx ↔
      dev.contexts[handle]? = some ctx ∧ ctx.owner = process.id := by
  rw [contextOf, Option.filter_eq_some_iff, beq_iff_eq]

/-- A verb runs on the context it names, provided the process has opened that. -/
theorem ends_perform {process : Process} {verb : Verb} {Q : Answer → Mlx4Device → Prop}
    {E : Fault → Mlx4Device → Prop} :
    Ends (perform process handle verb) dev Q E ↔
      (dev.contextOf handle process = none → E (.err "context not found") dev) ∧
      ∀ ctx, dev.contextOf handle process = some ctx →
        Ends (dev.body process verb) ⟨ctx, dev.card, dev.pdNumbers⟩
          (fun answer s' ↦ Q answer (dev.store handle s'))
          fun e s' ↦ E e (dev.store handle s') := by
  cases hctx : dev.contextOf handle process with
  | none => simp [Ends, perform, hctx]
  | some ctx =>
    have hzoom : Ends (perform process handle verb) dev Q E ↔
        Ends (zoom (fun dev ↦ ⟨ctx, dev.card, dev.pdNumbers⟩) (fun s dev ↦ dev.store handle s)
          (dev.body process verb)) dev Q E := by
      unfold Ends perform
      simp only [hctx]
    rw [hzoom, ends_zoom]
    simp

private theorem perform_ends (dev : Mlx4Device) (process : Process) (handle : Nat) (verb : Verb) :
    Ends (perform process handle verb) dev
      (fun _ dev' ↦ DeviceEffect dev (.verb process handle verb) dev')
      fun e dev' ↦ e.OnErr (DeviceEffect dev (.verb process handle verb) dev') := by
  refine ends_perform.mpr ⟨fun _ ↦ .nothing _, fun ctx hctx ↦ ?_⟩
  obtain ⟨hget, howner⟩ := contextOf_eq_some.mp hctx
  exact (dev.body_effect process verb _).mono (fun _ _ h ↦ .verb hget howner h.1)
    fun _ _ h ↦ h.mono fun h ↦ .verb hget howner h.1

/-- Every call that does not panic has one of the effects. -/
theorem step_effect (hbelow : dev.HandlesBelow) (call : Call) :
    Yields (dev.step call) (DeviceEffect dev call) fun _ ↦ True := by
  cases call with
  | openContext process doorbellFaults blueflameFaults fa =>
    have hopen := openContext_ends (Q := fun _ s' ↦ DeviceEffect dev
        (.openContext process doorbellFaults blueflameFaults fa) s'.1)
      (E := fun _ s' ↦ s'.1 = dev) hbelow process.id doorbellFaults blueflameFaults
      (process.virtualAddressSpace, fa)
      (fun uarList page hlist ↦ ends_of_forall (fun pages _ ↦ .opened pages hlist)
        fun e _ ↦ e.onErr_of rfl) fun _ ↦ rfl
    rw [step, yields_map]
    refine afterCall_yields hopen fun e s' h ↦ h.mono fun heq ↦ ?_
    rw [heq]
    exact .nothing _
  | release pid =>
    have hrelease : Ends (release pid) dev (fun _ dev' ↦ DeviceEffect dev (.release pid) dev')
        fun _ dev' ↦ DeviceEffect dev (.release pid) dev' :=
      (release_ends dev pid).mono (fun _ _ ⟨⟨_, h⟩, _⟩ ↦ .released h)
        fun _ _ ⟨⟨_, h⟩, _⟩ ↦ .released h
    exact afterCall_yields hrelease fun e _ h ↦ e.onErr_of h
  | verb process handle verb =>
    exact afterCall_yields (perform_ends dev process handle verb) fun _ _ h ↦ h

/-- What the contexts hold, by handle. -/
def held {α : Type} (dev : Mlx4Device) (view : UContext → List α) (handle : Nat) : List α :=
  dev.contexts[handle]?.elim [] view

variable {handles : List Nat} {log : List Command}

section

variable {α : Type} {dev dev' : Mlx4Device} {view : UContext → List α} {handle : Nat}
  {ctx : UContext}

/-- What a context holds. -/
theorem held_of_some (h : dev.contexts[handle]? = some ctx) : dev.held view handle = view ctx := by
  rw [held, h, Option.elim_some]

/-- Without a context nothing is held. -/
theorem held_of_none (h : dev.contexts[handle]? = none) : dev.held view handle = [] := by
  rw [held, h, Option.elim_none]

/-- What is held, by the context. -/
theorem mem_held {a : α} :
    a ∈ dev.held view handle ↔ ∃ ctx, dev.contexts[handle]? = some ctx ∧ a ∈ view ctx := by
  cases h : dev.contexts[handle]? with
  | none => simp [held_of_none h]
  | some ctx => simp [held_of_some h]

/-- The family of what is held after a context is written. -/
theorem held_of_insert (hcontexts : dev'.contexts = dev.contexts.insert handle ctx) :
    dev'.held view = Function.update (dev.held view) handle (view ctx) := by
  funext j
  by_cases hj : j = handle
  · subst hj
    rw [Function.update_self, held, hcontexts, Std.ExtTreeMap.getElem?_insert_self,
      Option.elim_some]
  · rw [Function.update_of_ne hj, held, held, hcontexts, Std.ExtTreeMap.getElem?_insert,
      if_neg (by simpa using Ne.symm hj)]

/-- The family of what is held after a context is removed. -/
theorem held_of_erase (hcontexts : dev'.contexts = dev.contexts.erase handle) :
    dev'.held view = Function.update (dev.held view) handle [] := by
  funext j
  by_cases hj : j = handle
  · subst hj
    rw [Function.update_self, held, hcontexts, Std.ExtTreeMap.getElem?_erase_self,
      Option.elim_none]
  · rw [Function.update_of_ne hj, held, held, hcontexts, Std.ExtTreeMap.getElem?_erase,
      if_neg (by simpa using Ne.symm hj)]

/-- What is held after a context is kept. -/
theorem held_keep (dev : Mlx4Device) (handle : Nat) (ctx : UContext) (log : List Command) :
    (dev.keep handle ctx log).held view = Function.update (dev.held view) handle (view ctx) :=
  held_of_insert (contexts_keep dev handle ctx log)

/-- `release` adds nothing to what contexts hold. -/
theorem Releases.held_subperm (h : Releases dev handles log dev')
    (hview : ∀ ctx log ctx', TornDown ctx log ctx' → (view ctx').Subperm (view ctx)) (j : Nat) :
    (dev'.held view j).Subperm (dev.held view j) := by
  induction h with
  | nil dev => exact List.Subperm.refl _
  | missing hctx h ih => exact ih
  | kept hctx htorn hbare h ih =>
    refine ih.trans ?_
    rw [held_keep]
    refine update_subperm ?_ j
    rw [held_of_some hctx]
    exact hview _ _ _ htorn
  | freed hctx htorn hbare h ih =>
    refine ih.trans ?_
    rw [held_of_erase rfl]
    exact update_subperm (List.nil_subperm) j

end

variable {dev' : Mlx4Device}

private theorem Releases.nextContext_eq (h : Releases dev handles log dev') :
    dev'.nextContext = dev.nextContext := by
  induction h with
  | nil dev => rfl
  | missing hctx h ih | kept hctx htorn hbare h ih | freed hctx htorn hbare h ih => exact ih

/-- `release` opens no context. -/
theorem Releases.eq_none (h : Releases dev handles log dev') (hnone : dev.contexts[handle]? = none)
    :
    dev'.contexts[handle]? = none := by
  induction h with
  | nil dev => exact hnone
  | missing hctx h ih => exact ih hnone
  | @kept dev dev' j handles ctx ctx' log log' hctx htorn hbare h ih =>
    apply ih
    have hne : j ≠ handle := by
      rintro rfl
      rw [hnone] at hctx
      cases hctx
    rw [contexts_keep, Std.ExtTreeMap.getElem?_insert, if_neg (by simpa using hne)]
    exact hnone
  | freed hctx htorn hbare h ih =>
    apply ih
    rw [free, Std.ExtTreeMap.getElem?_erase, hnone, ite_self]

/-- Handles stay below the next one. -/
theorem DeviceEffect.handlesBelow {call : Call} (h : DeviceEffect dev call dev')
    (hbelow : dev.HandlesBelow) : dev'.HandlesBelow := by
  intro j hj
  cases h with
  | nothing call => exact hbelow j hj
  | @verb process handle verb ctx s' hctx howner heffect =>
    have hne : handle ≠ j := by
      rintro rfl
      rw [hbelow handle hj] at hctx
      cases hctx
    simp only [store, Std.ExtTreeMap.getElem?_insert]
    rw [if_neg (by simpa using hne)]
    exact hbelow j hj
  | opened pages hlist =>
    simp only [Mlx4Device.opened] at hj ⊢
    rw [Std.ExtTreeMap.getElem?_insert, if_neg (by simp; omega)]
    exact hbelow j (by omega)
  | released h =>
    rw [h.nextContext_eq] at hj
    exact h.eq_none (hbelow j hj)

/-- Something holds of every context. -/
def AllContexts (R : UContext → Prop) (dev : Mlx4Device) : Prop :=
  ∀ (handle : Nat) (ctx : UContext), dev.contexts[handle]? = some ctx → R ctx

section

variable {R : UContext → Prop} {dev dev' : Mlx4Device}

/-- A context that has the property is written. -/
theorem AllContexts.insert (h : dev.AllContexts R) {ctx : UContext} (hctx : R ctx)
    (hcontexts : dev'.contexts = dev.contexts.insert handle ctx) : dev'.AllContexts R := by
  intro j ctx' hctx'
  rw [hcontexts, Std.ExtTreeMap.getElem?_insert] at hctx'
  split at hctx'
  · cases hctx'
    exact hctx
  · exact h j ctx' hctx'

private theorem AllContexts.releases (h : dev.AllContexts R)
    (hreleases : Releases dev handles log dev')
    (htorn : ∀ ctx log ctx', TornDown ctx log ctx' → R ctx → R ctx') : dev'.AllContexts R := by
  induction hreleases with
  | nil dev => exact h
  | missing hctx hrest ih => exact ih h
  | kept hctx hdown hbare hrest ih =>
    exact ih (h.insert (htorn _ _ _ hdown (h _ _ hctx)) (contexts_keep _ _ _ _))
  | freed hctx hdown hbare hrest ih =>
    apply ih
    intro j ctx' hctx'
    rw [free, Std.ExtTreeMap.getElem?_erase] at hctx'
    split at hctx'
    · cases hctx'
    · exact h j ctx' hctx'

/-- What verbs and `destroy` keep of a context, and holds of a new one, is kept by calls. -/
theorem AllContexts.effect (h : dev.AllContexts R) {call : Call}
    (heffect : DeviceEffect dev call dev')
    (hverb : ∀ process handle verb ctx s', call = .verb process handle verb →
      dev.contextOf handle process = some ctx →
      Effect ⟨ctx, dev.card, dev.pdNumbers⟩ verb s' → R ctx → R s'.ctx)
    (hnew : ∀ owner page pages, R (dev.newContext owner page pages))
    (htorn : ∀ ctx log ctx', TornDown ctx log ctx' → R ctx → R ctx') : dev'.AllContexts R := by
  cases heffect with
  | nothing call => exact h
  | verb hctx howner heffect =>
    have hown := contextOf_eq_some.mpr ⟨hctx, howner⟩
    exact h.insert (hverb _ _ _ _ _ rfl hown heffect (h _ _ hctx)) rfl
  | opened pages hlist => exact h.insert (hnew _ _ _) rfl
  | released hreleases => exact h.releases hreleases htorn

end

/-- What holds at first and is kept by everything a call can do holds after every run. -/
theorem run_invariant {I : Mlx4Device → Prop} {dev₀ : Mlx4Device} {calls : List Call}
    (hrun : calls.foldlM step dev₀ = .ok dev) (hbelow : dev₀.HandlesBelow) (h0 : I dev₀)
    (hstep : ∀ dev call dev', dev.HandlesBelow → I dev → DeviceEffect dev call dev' → I dev') :
    dev.HandlesBelow ∧ I dev := by
  have hyields : Yields (calls.foldlM step dev₀) (fun dev ↦ dev.HandlesBelow ∧ I dev)
      fun _ ↦ True := by
    refine foldlM_yields calls ⟨hbelow, h0⟩ fun dev call ⟨hbelow, hI⟩ ↦ ?_
    refine (step_effect hbelow call).mono (fun dev' h ↦ ?_) fun _ h ↦ h
    exact ⟨h.handlesBelow hbelow, hstep dev call dev' hbelow hI h⟩
  exact hyields.of_ok hrun

/-- There are no contexts at first. -/
theorem Initial.getElem?_contexts (h : dev.Initial) (handle : Nat) :
    dev.contexts[handle]? = none := by
  rw [h.contexts_eq]
  exact Std.ExtTreeMap.getElem?_empty

/-- There are no handles at first. -/
theorem Initial.handlesBelow (h : dev.Initial) : dev.HandlesBelow :=
  fun handle _ ↦ h.getElem?_contexts handle

/-- There is no context to ask at first. -/
theorem Initial.allContexts (h : dev.Initial) (R : UContext → Prop) : dev.AllContexts R := by
  intro handle ctx hctx
  rw [h.getElem?_contexts handle] at hctx
  cases hctx

end Mlx4Device

namespace Sample

/-- A UAR page of the sample card. -/
def uarPage (index : Fin 256) : UarPage :=
  ⟨index, ⟨0x100000 + index, by omega⟩, some ⟨0x100100 + index, by omega⟩⟩

/-- Frames for page tables. -/
def frames : FrameAllocator := ⟨fun n ↦ some ⟨n % 2 ^ 30 + 0x100, by omega⟩, 0, [], []⟩

/-- A device with two UAR pages and the sample card, on which nothing has been opened. -/
def device (caps : Capabilities) : Mlx4Device where
  capabilities := caps
  card := card caps
  contexts := ∅
  nextContext := 1
  pdNumbers := ∅
  eqNumber := some 60
  uarList := [uarPage 2, uarPage 3]

/-- The sample device is one at the start. -/
theorem device_initial (caps : Capabilities) : (device caps).Initial := ⟨rfl, rfl, rfl⟩

/-- A device after calls of two sample processes. -/
def run (dev : Mlx4Device) (calls : Process → Process → List Call) : Except Panic Mlx4Device := do
  let first ← process 1
  let second ← process 2
  (calls first second).foldlM Mlx4Device.step dev

/-- A run of the two sample processes. -/
theorem exists_run {dev₀ : Mlx4Device} {calls : Process → Process → List Call}
    {P : Process → Process → Mlx4Device → Prop}
    (h : ∃ first, process 1 = .ok first ∧ ∃ second, process 2 = .ok second ∧
      ∃ dev, (calls first second).foldlM Mlx4Device.step dev₀ = .ok dev ∧ P first second dev) :
    ∃ first second dev, (calls first second).foldlM Mlx4Device.step dev₀ = .ok dev ∧
      P first second dev := by
  obtain ⟨first, -, second, -, h⟩ := h
  exact ⟨first, second, h⟩

/-- The memory of a sample process. -/
def memory : UserSlice := ⟨0x10000000000, 4096⟩

end Sample

end D3OS.Mlx4

import D3OS.Mlx4.Uar

/-!
# Access to UAR pages

`open` maps the doorbell page of a UAR page into the process before the BlueFlame page, and
puts the UAR page back into the list if the second mapping fails, but leaves the first one in
place. In runs in which that does not happen the frames of a UAR page are mapped only in the
process of its context.
-/

namespace D3OS.Mlx4

open Lib Memory

namespace UarPage

/-- The area that the mapping of a frame allocates. -/
def allocArea (vas : VirtualAddressSpace) (tag : List UInt8) :
    Except Panic (VirtualAddressSpace × Option VirtualMemoryArea) :=
  vas.allocVma none 1 .user .deviceMemory tag

private theorem mapFrame_ends (frame : PhysFrame) (tag : List UInt8) (allocError mapError : String)
    (faults : MapFaults) (vas : VirtualAddressSpace) (fa : FrameAllocator) :
    Ends (mapFrame frame tag allocError mapError faults) (vas, fa)
      (fun _ mapping ↦ faults = {} ∧
        (∃ vas₁ area, allocArea vas tag = .ok (vas₁, some area) ∧
          { vas₁ with pageTables := mapping.1.pageTables } = mapping.1) ∧
        ∀ other, mapping.1.MapsFrame other → other = frame ∨ vas.MapsFrame other)
      (fun e mapping ↦ e.OnErr
        ((faults ≠ {} ∨ ∃ vas₁, allocArea vas tag = .ok (vas₁, none)) ∧
          ∀ other, mapping.1.MapsFrame other → vas.MapsFrame other)) := by
  simp only [mapFrame, ends_bind, ends_get, ends_ite, ends_throw, ends_lift, ends_set, ends_pure,
    yields_orPanic, yields_okOr, Fault.onErr_err, Fault.onErr_panic, implies_true, and_true]
  have hfault : faults.alloc = true ∨ faults.map = true → faults ≠ {} := by
    rintro h rfl
    simp at h
  refine ⟨fun halloc ↦ ⟨.inl (hfault (.inl halloc)), fun _ h ↦ h⟩, fun halloc ↦ ?_⟩
  rintro ⟨vas₁, found⟩ harea
  have hsame : ∀ other, vas₁.MapsFrame other → vas.MapsFrame other :=
    fun other h ↦ h.congr (VirtualAddressSpace.allocVma_eq harea)
  refine ⟨fun area hfound ↦ ⟨fun hmap ↦ ⟨.inl (hfault (.inr hmap)), hsame⟩, fun hmap ↦ ?_⟩,
    fun hnone ↦ ⟨.inr ⟨vas₁, ?_⟩, hsame⟩⟩
  · obtain rfl : found = some area := hfound
    obtain ⟨hspace, hlen⟩ := VirtualAddressSpace.allocVma_vma harea
    intro stop hstop mapped hmapped
    refine ⟨?_, ?_⟩
    · rintro ⟨vas₂, fa'⟩ rfl
      refine ⟨?_, ⟨vas₁, area, harea, (VirtualAddressSpace.mapPfrForVma_ok hmapped).1.symm⟩, ?_⟩
      · obtain ⟨alloc, map⟩ := faults
        rw [Bool.not_eq_true] at halloc hmap
        rw [show alloc = false from halloc, show map = false from hmap]
      · intro other hother
        exact (VirtualAddressSpace.mapPfrForVma_mapsFrame hstop hspace hmapped hother).imp_right
          (hsame other)
    · rintro rfl
      have hone := PhysFrame.number_of_add hstop
      refine absurd hmapped (VirtualAddressSpace.mapPfrForVma_ne_none ?_ ?_)
      · simp only [PageRange.len]
        omega
      · simp only [PhysFrameRange.len, PageRange.len]
        omega
  · obtain rfl : found = none := hnone
    exact harea

/-- The address space has room for the areas of both frames, or for neither. -/
def roomForBoth (page : UarPage) (vas : VirtualAddressSpace) : Bool :=
  match allocArea vas (tag ['d', 'b', '-'] page.index) with
  | .ok (vas₁, some _) =>
    match allocArea vas₁ (tag ['b', 'f', '-'] page.index) with
    | .ok (_, none) => false
    | _ => true
  | _ => true

/-- The mapping of the doorbell page fails, or that of the BlueFlame page has no reason to: the
card has BlueFlame and the address space has room. -/
def mapsWhole (page : UarPage) (vas : VirtualAddressSpace)
    (doorbellFaults blueflameFaults : MapFaults) : Bool :=
  doorbellFaults != {} ||
    (page.blueflame.isSome && blueflameFaults == {} && page.roomForBoth vas)

private theorem mapPages_ends (page : UarPage) (doorbellFaults blueflameFaults : MapFaults)
    (vas : VirtualAddressSpace) (fa : FrameAllocator)
    (hwhole : page.mapsWhole vas doorbellFaults blueflameFaults = true) :
    Ends (page.mapPages doorbellFaults blueflameFaults) (vas, fa)
      (fun _ mapping ↦
        ∀ frame, mapping.1.MapsFrame frame → frame ∈ page.frames ∨ vas.MapsFrame frame)
      (fun e mapping ↦ e.OnErr
        (∀ frame, mapping.1.MapsFrame frame → vas.MapsFrame frame)) := by
  simp only [mapPages, mapDoorbellPage, mapBlueflamePage, ends_bind, ends_lift, ends_pure,
    yields_okOr, Fault.onErr_err]
  refine (mapFrame_ends _ _ _ _ _ _ _).mono ?_ fun e mapping h ↦ h.mono And.right
  rintro _ ⟨vas₁, fa₁⟩ ⟨rfl, ⟨vas₂, area, harea, htables⟩, hdoorbell⟩
  rw [mapsWhole, bne_self_eq_false, Bool.false_or, Bool.and_eq_true, Bool.and_eq_true,
    beq_iff_eq] at hwhole
  obtain ⟨⟨hsome, rfl⟩, hroom⟩ := hwhole
  refine ⟨fun frame hframe ↦ ?_, fun hnone ↦ ?_⟩
  · refine (mapFrame_ends _ _ _ _ _ _ _).mono ?_ fun e mapping h ↦ h.mono ?_
    · rintro _ mapping ⟨-, -, hblueflame⟩ other hother
      rcases hblueflame other hother with rfl | hother
      · exact .inl (List.mem_cons_of_mem _ (Option.mem_toList.mpr hframe))
      · refine (hdoorbell other hother).imp_left ?_
        rintro rfl
        exact List.mem_cons_self
    · rintro ⟨hfails | ⟨vas₃, hfull⟩, -⟩
      · exact absurd rfl hfails
      · dsimp only at htables
        rw [← htables] at hfull
        simp only [roomForBoth, harea,
          show allocArea vas₂ _ = _ from VirtualAddressSpace.allocVma_full hfull] at hroom
        cases hroom
  · rw [hnone] at hsome
    cases hsome

end UarPage

/-- The process has a context with the UAR page. -/
def Mlx4Device.Owns (dev : Mlx4Device) (pid : Nat) (page : UarPage) : Prop :=
  ∃ (handle : Nat) (ctx : UContext), dev.contexts[handle]? = some ctx ∧ ctx.owner = pid ∧
    ctx.uarPage = page

namespace Mlx4Device.Owns

variable {dev dev' : Mlx4Device} {pid : Nat} {page : UarPage}

private theorem insert (h : dev.Owns pid page) {handle : Nat} {ctx : UContext}
    (hcontexts : dev'.contexts = dev.contexts.insert handle ctx)
    (hsame : ∀ old, dev.contexts[handle]? = some old →
      ctx.owner = old.owner ∧ ctx.uarPage = old.uarPage) : dev'.Owns pid page := by
  obtain ⟨j, old, hold, howner, hpage⟩ := h
  by_cases hj : j = handle
  · subst hj
    obtain ⟨howner', hpage'⟩ := hsame old hold
    refine ⟨j, ctx, ?_, howner'.trans howner, hpage'.trans hpage⟩
    rw [hcontexts, Std.ExtTreeMap.getElem?_insert_self]
  · refine ⟨j, old, ?_, howner, hpage⟩
    rw [hcontexts, Std.ExtTreeMap.getElem?_insert, if_neg (by simpa using Ne.symm hj), hold]

private theorem effect (h : dev.Owns pid page) (hbelow : dev.HandlesBelow) {call : Call}
    (heffect : DeviceEffect dev call dev') (hcall : call ≠ .release pid) :
    dev'.Owns pid page := by
  cases heffect with
  | nothing call => exact h
  | verb hctx howner heffect =>
    refine h.insert rfl fun old hold ↦ ?_
    rw [hctx] at hold
    cases hold
    exact heffect.owner_uarPage
  | opened pages hlist =>
    refine h.insert rfl fun old hold ↦ ?_
    rw [hbelow _ (Nat.le_refl _)] at hold
    cases hold
  | released hreleases =>
    obtain ⟨handle, ctx, hctx, howner, hpage⟩ := h
    refine ⟨handle, ctx, ?_, howner, hpage⟩
    rw [hreleases.getElem?_of_notMem ?_, hctx]
    rw [mem_handlesOf]
    rintro ⟨ctx', hctx', hpid⟩
    rw [hctx] at hctx'
    cases hctx'
    exact hcall (by rw [← howner, hpid])

end Mlx4Device.Owns

/-- A device and the address spaces of the live processes. -/
structure System where
  device : Mlx4Device
  processes : Std.ExtTreeMap Nat VirtualAddressSpace
  frames : FrameAllocator

/-- A call of a process, or the end of a process. -/
inductive SystemCall where
  | openContext (pid : Nat) (doorbellFaults blueflameFaults : MapFaults)
  | verb (pid handle : Nat) (verb : Verb)
  | release (pid : Nat)

namespace System

/-- The system after a call. `release` is called when a process is dropped; its address space
goes right after that. -/
def step (sys : System) : SystemCall → Except Panic System
  | .openContext pid doorbellFaults blueflameFaults =>
    match sys.processes[pid]? with
    | none => .ok sys
    | some vas => do
      let (dev, vas, fa) ← afterCall
        (Mlx4Device.openContext pid doorbellFaults blueflameFaults) (sys.device, vas, sys.frames)
      .ok ⟨dev, sys.processes.insert pid vas, fa⟩
  | .verb pid handle verb =>
    match sys.processes[pid]? with
    | none => .ok sys
    | some vas => do
      let dev ← afterCall (Mlx4Device.perform ⟨pid, vas⟩ handle verb) sys.device
      .ok { sys with device := dev }
  | .release pid => do
    let dev ← afterCall (Mlx4Device.release pid) sys.device
    .ok { sys with device := dev, processes := sys.processes.erase pid }

/-- The system after `init`, with a UAR region at an address: no process has mapped a page
of it. -/
structure Initial (startAddr : Nat) (sys : System) : Prop where
  device : sys.device.Initial
  uarList : UarPage.all sys.device.capabilities startAddr = .ok sys.device.uarList
  unmapped : ∀ (pid : Nat) (vas : VirtualAddressSpace), sys.processes[pid]? = some vas →
    ∀ page ∈ sys.device.uarList, ∀ frame ∈ page.frames, ¬ vas.MapsFrame frame

/-- A call of `open` does not stop between its two mappings. -/
def OpensWhole (sys : System) : SystemCall → System → Prop
  | .openContext pid doorbellFaults blueflameFaults, _ =>
    match sys.processes[pid]?, sys.device.uarList.getLast? with
    | some vas, some page => page.mapsWhole vas doorbellFaults blueflameFaults = true
    | _, _ => True
  | _, _ => True

instance (sys : System) (call : SystemCall) (sys' : System) :
    Decidable (sys.OpensWhole call sys') := by
  unfold OpensWhole
  split
  · split <;> infer_instance
  · infer_instance

/-- Every UAR page is in one place, and a process can reach only those of its contexts. -/
private structure Private (pages : List UarPage) (sys : System) : Prop where
  below : sys.device.HandlesBelow
  placed : Mlx4Device.PagesPlaced pages sys.device
  owned : ∀ (pid : Nat) (vas : VirtualAddressSpace), sys.processes[pid]? = some vas →
    ∀ page ∈ pages, ∀ frame ∈ page.frames, vas.MapsFrame frame → sys.device.Owns pid page

variable {pages : List UarPage} {sys sys' : System}

section

variable (h : Private pages sys)
include h

private theorem Private.openContext {pid : Nat}
    {vas : VirtualAddressSpace} {doorbellFaults blueflameFaults : MapFaults}
    (hwhole : ∀ page, sys.device.uarList.getLast? = some page →
      page.mapsWhole vas doorbellFaults blueflameFaults = true) :
    Yields (afterCall (Mlx4Device.openContext pid doorbellFaults blueflameFaults)
        (sys.device, vas, sys.frames))
      (fun s' ↦ Mlx4Device.DeviceEffect sys.device
          (.openContext ⟨pid, vas⟩ doorbellFaults blueflameFaults sys.frames) s'.1 ∧
        ∀ frame, s'.2.1.MapsFrame frame →
          vas.MapsFrame frame ∨ ∃ page ∈ pages, frame ∈ page.frames ∧ s'.1.Owns pid page)
      fun _ ↦ True := by
  refine afterCall_yields (Mlx4Device.openContext_ends (E := fun _ s' ↦ s'.1 = sys.device ∧
      ∀ frame, s'.2.1.MapsFrame frame → vas.MapsFrame frame) h.below pid doorbellFaults
      blueflameFaults (vas, sys.frames) ?_ fun _ ↦ ⟨rfl, fun _ h ↦ h⟩) ?_
  · intro uarList page hlist
    have hpages := UarPage.mapPages_ends page doorbellFaults blueflameFaults vas sys.frames
      (hwhole page (by rw [hlist, List.getLast?_concat]))
    refine hpages.mono (fun pages' mapping hmaps ↦ ⟨.opened pages' hlist, fun frame hframe ↦ ?_⟩)
      fun e mapping hmaps ↦ hmaps.mono fun hmaps ↦ ⟨rfl, hmaps⟩
    refine (hmaps frame hframe).symm.imp_right fun hmem ↦ ⟨page, ?_, hmem, sys.device.nextContext,
      _, Std.ExtTreeMap.getElem?_insert_self, rfl, rfl⟩
    refine (h.placed.mem_iff page).mp ⟨none, ?_⟩
    rw [Mlx4Device.places, hlist]
    exact List.mem_append_right _ List.mem_cons_self
  · intro e s' hs
    refine hs.mono fun hkeeps ↦ ⟨?_, fun frame hframe ↦ .inl (hkeeps.2 frame hframe)⟩
    rw [hkeeps.1]
    exact .nothing _

private theorem Private.effect {call : Call}
    (heffect : Mlx4Device.DeviceEffect sys.device call sys'.device)
    (hprocesses : ∀ (pid : Nat) (vas : VirtualAddressSpace), sys'.processes[pid]? = some vas →
      sys.processes[pid]? = some vas ∧ call ≠ .release pid) : Private pages sys' where
  below := heffect.handlesBelow h.below
  placed := h.placed.effect h.below heffect
  owned pid vas hvas page hpage frame hframe hmaps := by
    obtain ⟨hold, hcall⟩ := hprocesses pid vas hvas
    exact (h.owned pid vas hold page hpage frame hframe hmaps).effect h.below heffect hcall

variable (hdistinct : ∀ page ∈ pages, ∀ page' ∈ pages, ∀ frame ∈ page.frames,
  frame ∈ page'.frames → page = page')
include hdistinct

private theorem Private.opened {pid : Nat} {vas vas' : VirtualAddressSpace} {fa : FrameAllocator}
    {doorbellFaults blueflameFaults : MapFaults} {dev : Mlx4Device}
    (hvas : sys.processes[pid]? = some vas)
    (heffect : Mlx4Device.DeviceEffect sys.device
      (.openContext ⟨pid, vas⟩ doorbellFaults blueflameFaults sys.frames) dev)
    (hmaps : ∀ frame, vas'.MapsFrame frame →
      vas.MapsFrame frame ∨ ∃ page ∈ pages, frame ∈ page.frames ∧ dev.Owns pid page) :
    Private pages ⟨dev, sys.processes.insert pid vas', fa⟩ := by
  refine ⟨heffect.handlesBelow h.below, h.placed.effect h.below heffect, ?_⟩
  have hkept : ∀ (j : Nat) (vas₁ : VirtualAddressSpace), sys.processes[j]? = some vas₁ →
      ∀ page ∈ pages, ∀ frame ∈ page.frames, vas₁.MapsFrame frame → dev.Owns j page :=
    fun j vas₁ hvas₁ page hpage frame hframe hmapped ↦
      (h.owned j vas₁ hvas₁ page hpage frame hframe hmapped).effect h.below heffect
        Call.noConfusion
  intro j vas₁ hvas₁ page hpage frame hframe hmapped
  rw [Std.ExtTreeMap.getElem?_insert] at hvas₁
  split at hvas₁
  next hj =>
    obtain rfl : pid = j := by simpa using hj
    cases hvas₁
    rcases hmaps frame hmapped with hold | ⟨page', hpage', hframe', howns⟩
    · exact hkept pid vas hvas page hpage frame hframe hold
    · rw [hdistinct page hpage page' hpage' frame hframe hframe']
      exact howns
  next => exact hkept j vas₁ hvas₁ page hpage frame hframe hmapped

private theorem Private.step {call : SystemCall} (hstep : sys.step call = .ok sys')
    (hwhole : sys.OpensWhole call sys') : Private pages sys' := by
  cases call with
  | openContext pid doorbellFaults blueflameFaults =>
    cases hvas : sys.processes[pid]? with
    | none =>
      simp only [System.step, hvas] at hstep
      cases hstep
      exact h
    | some vas =>
      simp only [System.step, hvas] at hstep
      obtain ⟨⟨dev, vas', fa⟩, hopen, hstep⟩ := of_bind hstep
      cases hstep
      have hwhole' : ∀ page, sys.device.uarList.getLast? = some page →
          page.mapsWhole vas doorbellFaults blueflameFaults = true := by
        intro page hpage
        simp only [OpensWhole, hvas, hpage] at hwhole
        exact hwhole
      obtain ⟨heffect, hmaps⟩ := (h.openContext hwhole').of_ok hopen
      exact h.opened hdistinct hvas heffect hmaps
  | verb pid handle verb =>
    cases hvas : sys.processes[pid]? with
    | none =>
      simp only [System.step, hvas] at hstep
      cases hstep
      exact h
    | some vas =>
      simp only [System.step, hvas] at hstep
      obtain ⟨dev, hperform, hstep⟩ := of_bind hstep
      cases hstep
      have heffect := (Mlx4Device.step_effect h.below (.verb ⟨pid, vas⟩ handle verb)).of_ok hperform
      exact h.effect heffect fun pid vas hvas ↦ ⟨hvas, Call.noConfusion⟩
  | release pid =>
    obtain ⟨dev, hrelease, hstep⟩ := of_bind hstep
    cases hstep
    have heffect := (Mlx4Device.step_effect h.below (.release pid)).of_ok hrelease
    refine h.effect heffect fun other vas hvas ↦ ?_
    rw [Std.ExtTreeMap.getElem?_erase] at hvas
    split at hvas
    next => cases hvas
    next hne =>
      refine ⟨hvas, fun heq ↦ hne ?_⟩
      cases heq
      exact Std.ReflCmp.compare_self

end

private theorem Initial.isPrivate {startAddr : Nat} (h : sys.Initial startAddr) :
    Private sys.device.uarList sys where
  below := h.device.handlesBelow
  placed := Mlx4Device.PagesPlaced.of_initial h.device
    (UarPage.nodup_index_of_all h.uarList).of_map
  owned pid vas hvas page hpage frame hframe hmaps :=
    absurd hmaps (h.unmapped pid vas hvas page hpage frame hframe)

private theorem mem_places {dev : Mlx4Device} {handle : Nat} {ctx : UContext}
    (h : dev.contexts[handle]? = some ctx) : ctx.uarPage ∈ dev.places (some handle) :=
  Mlx4Device.mem_held.mpr ⟨ctx, h, List.mem_cons_self⟩

/-- In every run of calls of `open`, the verbs and `release` in which no `open` stops between
its two mappings, the index of each UAR page is in one place, and its frames are not mapped in
any live process but the one whose context has the page. -/
theorem uarPages_private {startAddr : Nat} {sys₀ sys : System} {calls : List SystemCall}
    (hinit : sys₀.Initial startAddr) (hrun : calls.foldlM step sys₀ = .ok sys)
    (hwhole : Along step OpensWhole sys₀ calls) :
    Apart (fun place ↦ (sys.device.places place).map UarPage.index) ∧
    (∀ page ∈ sys₀.device.uarList, ∃ place, page ∈ sys.device.places place) ∧
    (∀ page ∈ sys.device.uarList, ∀ frame ∈ page.frames, ∀ (pid : Nat) (vas : VirtualAddressSpace),
      sys.processes[pid]? = some vas → ¬ vas.MapsFrame frame) ∧
    ∀ (handle : Nat) (ctx : UContext), sys.device.contexts[handle]? = some ctx →
      ∀ frame ∈ ctx.uarPage.frames, ∀ (pid : Nat) (vas : VirtualAddressSpace),
        sys.processes[pid]? = some vas → pid ≠ ctx.owner → ¬ vas.MapsFrame frame := by
  have hdistinct : ∀ page ∈ sys₀.device.uarList, ∀ page' ∈ sys₀.device.uarList,
      ∀ frame ∈ page.frames, frame ∈ page'.frames → page = page' :=
    fun page hpage page' hpage' frame hframe hframe' ↦
      UarPage.eq_of_mem_frames hinit.uarList hpage hpage' hframe hframe'
  have h : Private sys₀.device.uarList sys :=
    hwhole.invariant hrun hinit.isPrivate fun _ _ _ h hstep hcond ↦ h.step hdistinct hstep hcond
  have hindex := UarPage.nodup_index_of_all hinit.uarList
  refine ⟨h.placed.apart.map ?_, fun page hpage ↦ (h.placed.mem_iff page).mpr hpage, ?_, ?_⟩
  · intro place page hpage place' page' hpage' heq
    exact List.inj_on_of_nodup_map hindex ((h.placed.mem_iff page).mp ⟨place, hpage⟩)
      ((h.placed.mem_iff page').mp ⟨place', hpage'⟩) heq
  · intro page hpage frame hframe pid vas hvas hmaps
    have hfree : page ∈ sys.device.places none := hpage
    have hmem := (h.placed.mem_iff page).mp ⟨none, hfree⟩
    obtain ⟨handle, ctx, hctx, -, rfl⟩ := h.owned pid vas hvas page hmem frame hframe hmaps
    have hplace : ctx.uarPage ∈ sys.device.places (some handle) := mem_places hctx
    cases h.placed.apart.eq_of_mem hfree hplace
  · intro handle ctx hctx frame hframe pid vas hvas hne hmaps
    have hplace : ctx.uarPage ∈ sys.device.places (some handle) := mem_places hctx
    have hmem := (h.placed.mem_iff ctx.uarPage).mp ⟨some handle, hplace⟩
    obtain ⟨handle', ctx', hctx', rfl, hpage⟩ :=
      h.owned pid vas hvas ctx.uarPage hmem frame hframe hmaps
    have hplace' : ctx.uarPage ∈ sys.device.places (some handle') := by
      rw [← hpage]
      exact mem_places hctx'
    cases h.placed.apart.eq_of_mem hplace hplace'
    rw [hctx] at hctx'
    cases hctx'
    exact hne rfl

/-- Where the sample card has its UAR region. -/
def sampleBar : Nat := 0x100000000

/-- A card with its UAR pages in the list, and two processes without mappings. -/
def sample (caps : Capabilities) : Except Panic System := do
  let uarList ← UarPage.all caps sampleBar
  let vas ← VirtualAddressSpace.new Paging.new 48
  .ok ⟨{ Sample.device caps with uarList := uarList },
    (∅ : Std.ExtTreeMap Nat VirtualAddressSpace).insert 1 vas |>.insert 2 vas, Sample.frames⟩

private theorem sample_initial {caps : Capabilities} (h : sample caps = .ok sys) :
    sys.Initial sampleBar := by
  obtain ⟨uarList, huar, h⟩ := of_bind h
  obtain ⟨vas, hvas, h⟩ := of_bind h
  cases h
  refine ⟨⟨rfl, rfl, rfl⟩, huar, fun pid other hother page _ frame _ ↦ ?_⟩
  have hsame : other = vas := by
    simp only [Std.ExtTreeMap.getElem?_insert, Std.ExtTreeMap.getElem?_empty] at hother
    split at hother
    next => exact (Option.some.inj hother).symm
    next =>
      split at hother
      next => exact (Option.some.inj hother).symm
      next => cases hother
  rw [hsame]
  exact VirtualAddressSpace.not_mapsFrame_of_new (VirtualAddressSpace.new_pageTables hvas)

private theorem exists_initial (caps : Capabilities) {P : System → Prop}
    (h : ∃ sys, sample caps = .ok sys ∧ P sys) : ∃ sys, sys.Initial sampleBar ∧ P sys := by
  obtain ⟨sys, hsys, h⟩ := h
  exact ⟨sys, sample_initial hsys, h⟩

/-- After two processes have opened a context, the first one cannot reach the BlueFlame frame of
the second. -/
theorem uarPages_private_sample : ∃ sys₀ sys vas ctx frame, sys₀.Initial sampleBar ∧
    [SystemCall.openContext 1 {} {}, .openContext 2 {} {}].foldlM step sys₀ = .ok sys ∧
    Along step OpensWhole sys₀ [.openContext 1 {} {}, .openContext 2 {} {}] ∧
    sys.processes[1]? = some vas ∧ sys.device.contexts[2]? = some ctx ∧ ctx.owner = 2 ∧
    ctx.uarPage.blueflame = some frame ∧ ¬ vas.MapsFrame frame := by
  obtain ⟨sys₀, hinit, sys, hrun, hwhole, vas, hvas, ctx, hctx, howner, frame, hframe, -⟩ :
      ∃ sys₀, sys₀.Initial sampleBar ∧
        ∃ sys, [SystemCall.openContext 1 {} {}, .openContext 2 {} {}].foldlM step sys₀ = .ok sys ∧
        Along step OpensWhole sys₀ [.openContext 1 {} {}, .openContext 2 {} {}] ∧
        ∃ vas, sys.processes[1]? = some vas ∧ ∃ ctx, sys.device.contexts[2]? = some ctx ∧
          ctx.owner = 2 ∧ ∃ frame, ctx.uarPage.blueflame = some frame ∧ True :=
    exists_initial Sample.caps (by decide +kernel)
  refine ⟨sys₀, sys, vas, ctx, frame, hinit, hrun, hwhole, hvas, hctx, howner, hframe, ?_⟩
  refine (uarPages_private hinit hrun hwhole).2.2.2 2 ctx hctx frame ?_ 1 vas hvas ?_
  · exact List.mem_cons_of_mem _ (Option.mem_toList.mpr hframe)
  · rw [howner]
    decide

/-- On a card without BlueFlame every `open` fails after it has mapped the doorbell page, which
goes back into the list: two processes can ring the doorbell of a page that is not in use. -/
theorem doorbell_stays_mapped : ∃ sys₀ sys vas₁ vas₂ page, sys₀.Initial sampleBar ∧
    [SystemCall.openContext 1 {} {}, .openContext 2 {} {}].foldlM step sys₀ = .ok sys ∧
    sys.processes[1]? = some vas₁ ∧ sys.processes[2]? = some vas₂ ∧
    page ∈ sys.device.uarList ∧ vas₁.MapsFrame page.doorbell ∧ vas₂.MapsFrame page.doorbell := by
  obtain ⟨sys₀, hinit, sys, hrun, vas₁, hvas₁, vas₂, hvas₂, page, hpage, h₁, h₂⟩ :
      ∃ sys₀, sys₀.Initial sampleBar ∧
        ∃ sys, [SystemCall.openContext 1 {} {}, .openContext 2 {} {}].foldlM step sys₀ = .ok sys ∧
        ∃ vas₁, sys.processes[1]? = some vas₁ ∧ ∃ vas₂, sys.processes[2]? = some vas₂ ∧
          ∃ page, sys.device.uarList.getLast? = some page ∧
            vas₁.reaches userSpaceStart page.doorbell ∧ vas₂.reaches userSpaceStart page.doorbell :=
    exists_initial { Sample.caps with bf := false } (by decide +kernel)
  exact ⟨sys₀, sys, vas₁, vas₂, page, hinit, hrun, hvas₁, hvas₂, List.mem_of_getLast? hpage,
    VirtualAddressSpace.mapsFrame_of_reaches h₁, VirtualAddressSpace.mapsFrame_of_reaches h₂⟩

end System

end D3OS.Mlx4

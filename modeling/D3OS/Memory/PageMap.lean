import D3OS.Memory.PageWalk

/-!
# Mapping

What `map` and `map_physical` make of a tree of page tables. `Maps` says it for
the part of a range in one table: the pages of the range get their frames and the
requested flags, the entries above them keep the flags they had and are created with
the requested ones, and every other page keeps its mapping.
-/

namespace D3OS.Memory

open Lib

/-- The frame that page `q` of a range starting at page `s` gets. -/
def FrameFor (space : MemorySpace) (frames : PhysFrameRange) (s q : Nat) (f : PhysFrame) : Prop :=
  match space with
  | .kernel => f.number = q
  | .user => frames.start.number < frames.stop.number → f.number + s = frames.start.number + q

/-- Which frames the pages from page `s` on get while the allocator hands out frames: `order`
has, for every page that gets a new frame, the place of that frame in the supply. -/
def FrameAt (space : MemorySpace) (frames : PhysFrameRange) (supply : Nat → Option PhysFrame)
    (s : Nat) (order : List Nat) (q : Nat) (f : PhysFrame) : Prop :=
  FrameFor space frames s q f ∧ (space = .user → frames.start.number = frames.stop.number →
    ∃ i, order[q - s]? = some i ∧ supply i = some f)

/-- The effect of mapping the range from `s` to `e` on one table. `F` relates the pages
of the range to the frames they get. -/
structure Maps (l : Nat) (F : Nat → PhysFrame → Prop) (flags : PageTableFlags) (s e : Nat)
    (table table' : PageTable l) : Prop where
  inside : ∀ k, InSpan 512 (l + 1) s e k →
    ∃ f, F (keyAt 512 (l + 1) s k) f ∧ entryAt l table' k = some ⟨f, flags⟩
  upper : ∀ k, InSpan 512 (l + 1) s e k → upperFlags l table' k =
    upperFlags l table k ++ List.replicate (l - (upperFlags l table k).length) flags
  outside : ∀ k, ¬ InSpan 512 (l + 1) s e k → lookup l table' k = lookup l table k

/-- Conditions under which no panic of the mapping functions can occur. -/
structure Mappable (supply : Nat → Option PhysFrame) (pages : PageRange) (space : MemorySpace)
    (flags : PageTableFlags) : Prop where
  noHuge : flags.contains PageTableFlags.hugePage = false
  supplied : ∀ n, ∃ f, supply n = some f ∧ f.number ≠ 0
  half : pages.OneHalf
  lower : space = .kernel → pages.Lower

/-- An empty frame range, or one frame for each page. -/
def Fits (frames : PhysFrameRange) (pages : PageRange) : Prop :=
  frames.start.number = frames.stop.number ∨
    (frames.start.number < frames.stop.number ∧
      frames.stop.number + pages.start.number = frames.start.number + pages.stop.number)

/-- The allocator has only handed out frames. -/
def OnlyAllocated (fa fa' : FrameAllocator) : Prop :=
  fa'.supply = fa.supply ∧ fa'.freed = fa.freed

/-- Nothing happens to the allocator. -/
theorem OnlyAllocated.refl (fa : FrameAllocator) : OnlyAllocated fa fa := ⟨rfl, rfl⟩

/-- Two steps that free nothing. -/
theorem OnlyAllocated.trans {fa fa' fa'' : FrameAllocator} (h : OnlyAllocated fa fa')
    (h' : OnlyAllocated fa' fa'') : OnlyAllocated fa fa'' :=
  ⟨h'.1.trans h.1, h'.2.trans h.2⟩

/-- `order` lists places in the supply between two states of the allocator, in the order in
which they were handed out. -/
structure Handed (fa fa' : FrameAllocator) (order : List Nat) : Prop where
  only : OnlyAllocated fa fa'
  le : fa.allocated ≤ fa'.allocated
  sorted : order.Pairwise (· < ·)
  mem : ∀ i ∈ order, fa.allocated ≤ i ∧ i < fa'.allocated

private theorem Handed.refl (fa : FrameAllocator) : Handed fa fa [] :=
  ⟨.refl fa, le_rfl, .nil, nofun⟩

private theorem Handed.trans {fa fa' fa'' : FrameAllocator} {order order' : List Nat}
    (h : Handed fa fa' order) (h' : Handed fa' fa'' order') :
    Handed fa fa'' (order ++ order') := by
  have hle := h.le
  have hle' := h'.le
  refine ⟨h.only.trans h'.only, hle.trans hle', ?_, ?_⟩
  · refine List.pairwise_append.mpr ⟨h.sorted, h'.sorted, ?_⟩
    intro i hi j hj
    have := h.mem i hi
    have := h'.mem j hj
    omega
  · intro i hi
    rcases List.mem_append.mp hi with hi | hi
    · have := h.mem i hi
      omega
    · have := h'.mem i hi
      omega

section

variable {G : Prop} {pages : PageRange} {space : MemorySpace} {flags : PageTableFlags}
  {fa : FrameAllocator}

/-- Moving the start of a range forward stays in its half of the address space. -/
theorem Page.add_yields {p : Page} {n : Nat} (hG : G → pages.OneHalf)
    (hs : pages.start.number ≤ p.number) (hn : p.number + n ≤ pages.stop.number) :
    Yields (p.add n) (fun q ↦ q.number = p.number + n) (fun _ ↦ ¬ G) := by
  unfold Page.add
  split
  next h => rfl
  next h =>
    intro hg
    apply h
    have hstop := pages.stop.canonical
    rcases hG hg with hlo | hhi
    · exact .inl (by omega)
    · exact .inr (by omega)

private theorem PhysFrame.add_yields {f : PhysFrame} {n : Nat} (hG : G → f.number + n < 2 ^ 40) :
    Yields (f.add n) (fun g ↦ g.number = f.number + n) (fun _ ↦ ¬ G) := by
  unfold PhysFrame.add
  split
  next h => rfl
  next h => exact fun hg ↦ h (hG hg)

private theorem setFrame_yields {frame : PhysFrame}
    (hG : G → flags.contains PageTableFlags.hugePage = false) :
    Yields (PageTableEntry.setFrame frame flags) (fun e ↦ e = ⟨frame, flags⟩) (fun _ ↦ ¬ G) := by
  unfold PageTableEntry.setFrame
  split
  next h => exact fun hg ↦ absurd (hG hg) (by simp [h])
  next h => rfl

private theorem allocFrame_yields (hG : G → ∀ n, ∃ f, fa.supply n = some f ∧ f.number ≠ 0) :
    Yields fa.allocFrame (fun r ↦ (OnlyAllocated fa r.2 ∧ r.2.allocated = fa.allocated + 1) ∧
      fa.supply fa.allocated = some r.1) (fun _ ↦ ¬ G) := by
  unfold FrameAllocator.allocFrame
  split
  next f h => exact ⟨⟨⟨rfl, rfl⟩, rfl⟩, h⟩
  next h =>
    intro hg
    obtain ⟨f, hf, -⟩ := hG hg fa.allocated
    rw [h] at hf
    exact absurd hf (by simp)

private theorem nextLevelTable_yields {l : Nat} {entry : Option (TableEntry (PageTable l))}
    (hG : G → Mappable fa.supply pages space flags) :
    Yields (nextLevelTable entry flags fa) (fun r ↦ Handed fa r.2 [] ∧
      (entry = some r.1 ∨ (entry = none ∧ r.1.flags = flags ∧ r.1.next = PageTable.zero l)))
      (fun _ ↦ ¬ G) := by
  cases entry with
  | some e => exact ⟨.refl fa, .inl rfl⟩
  | none =>
    apply (allocFrame_yields fun hg ↦ (hG hg).supplied).bind
    rintro ⟨frame, fa'⟩ ⟨⟨hfa, hcount⟩, hsup⟩
    dsimp only at hcount hsup ⊢
    split
    next h => exact fun hg ↦ absurd (hG hg).noHuge (by simp [h])
    next h =>
      split
      next hne => exact ⟨⟨hfa, (Nat.le_succ _).trans hcount.ge, .nil, nofun⟩, .inr ⟨rfl, rfl, rfl⟩⟩
      next hne =>
        intro hg
        obtain ⟨f, hf, hf0⟩ := (hG hg).supplied fa.allocated
        rw [hsup] at hf
        cases hf
        exact hne hf0

end

section

variable {G : Prop} {table table' : Level1Table} {pages : PageRange} {space : MemorySpace}
  {flags : PageTableFlags} {fa : FrameAllocator} {F : Nat → PhysFrame → Prop} {s e : Nat}

private theorem maps_of_filled
    (h : Filled table (index 0 s).val (span 512 1 s e) (fun c x ↦ ∃ f, F (s + c) f ∧ x = ⟨f, flags⟩)
      table') : Maps 0 F flags s e table table' := by
  refine ⟨?_, fun _ _ ↦ rfl, ?_⟩
  · intro k hk
    obtain ⟨f, hF, he⟩ := h.inside hk
    exact ⟨f, hF, congrArg some he⟩
  · intro k hk
    exact lookup_zero_congr (h.outside hk)

variable (hse : pages.start.number ≤ pages.stop.number)
include hse

private theorem identityMapKernel_yields (hG : G → pages.Lower) :
    Yields (identityMapKernel table pages flags) (fun r ↦
      Maps 0 (fun q f ↦ f.number = q) flags pages.start.number pages.stop.number table r.1 ∧
        r.2 = span 512 1 pages.start.number pages.stop.number) (fun _ ↦ ¬ G) := by
  simp only [identityMapKernel, pageTableIndex_startAddress]
  rw [pagesInTable_eq hse]
  split
  next hlt =>
    apply (forCount_yields (I := fun c (f : PhysFrame) ↦ f.number = pages.start.number + c)
      (index_add_span_le _ _) rfl ?_).bind
    · rintro ⟨t, f⟩ ⟨-, hfill⟩
      exact ⟨maps_of_filled hfill, rfl⟩
    · intro c i f hc hi hf
      apply (PhysFrame.add_yields ?_).bind
      · intro g hg
        exact ⟨⟨f, hf, rfl⟩, by rw [hg, hf]; rfl⟩
      · intro hg
        have hlow : pages.stop.number < 2 ^ 35 := hG hg
        omega
  next hlt =>
    intro hg
    have hlow : pages.stop.number < 2 ^ 35 := hG hg
    omega

private theorem mapUser_yields (hG : G → Mappable fa.supply pages space flags) :
    Yields (mapUser table pages flags fa) (fun r ↦
      ∃ order : List Nat, order.length = r.2.1 ∧ Handed fa r.2.2 order ∧
        Maps 0 (fun q f ↦ ∃ i, order[q - pages.start.number]? = some i ∧ fa.supply i = some f)
          flags pages.start.number pages.stop.number table r.1 ∧
        r.2.1 = span 512 1 pages.start.number pages.stop.number) (fun _ ↦ ¬ G) := by
  simp only [mapUser, pageTableIndex_startAddress]
  rw [pagesInTable_eq hse]
  have hplace : ∀ {n c : Nat} (s a : Nat), c < n →
      (List.range' a n)[s + c - s]? = some (a + c) := by
    intro n c s a hc
    rw [Nat.add_sub_cancel_left, List.getElem?_range' hc, Nat.one_mul]
  apply (forCount_yields
    (I := fun c fa' ↦ OnlyAllocated fa fa' ∧ fa'.allocated = fa.allocated + c)
    (index_add_span_le _ _) ⟨OnlyAllocated.refl fa, rfl⟩ ?_).bind
  · rintro ⟨t, fa'⟩ ⟨⟨hfa, hcount⟩, hfill⟩
    refine ⟨List.range' fa.allocated (span 512 1 pages.start.number pages.stop.number),
      List.length_range', ⟨hfa, (Nat.le_add_right _ _).trans hcount.ge, List.pairwise_lt_range',
        ?_⟩, maps_of_filled hfill, rfl⟩
    intro i hi
    rw [List.mem_range'_1] at hi
    dsimp only at hcount ⊢
    omega
  · rintro c i fa' hc hi ⟨hfa, hcount⟩
    apply (allocFrame_yields fun hg ↦ ?_).bind
    · rintro ⟨f, fa''⟩ ⟨⟨hfa', hcount'⟩, hsup⟩
      apply (setFrame_yields fun hg ↦ (hG hg).noHuge).bind
      rintro x rfl
      rw [hfa.1, hcount] at hsup
      exact ⟨⟨f, ⟨_, hplace _ _ hc, hsup⟩, rfl⟩, hfa.trans hfa', by dsimp only at hcount' ⊢; omega⟩
    · rw [hfa.1]
      exact (hG hg).supplied

private theorem mapUserPhysical_yields {frames : PhysFrameRange}
    (hlt : frames.start.number < frames.stop.number)
    (hfit : frames.stop.number + pages.start.number = frames.start.number + pages.stop.number)
    (hG : G → flags.contains PageTableFlags.hugePage = false) :
    Yields (mapUserPhysical table frames pages flags) (fun r ↦
      Maps 0 (fun q f ↦ f.number + pages.start.number = frames.start.number + q) flags
        pages.start.number pages.stop.number table r.1 ∧
        r.2 = span 512 1 pages.start.number pages.stop.number) (fun _ ↦ ¬ G) := by
  have hle : span 512 1 pages.start.number pages.stop.number ≤
      pages.stop.number - pages.start.number := min_le_left _ _
  simp only [mapUserPhysical, pageTableIndex_startAddress]
  rw [pagesInTable_eq hse]
  apply (forCount_yields (I := fun c (iter : PhysFrameRange) ↦ iter.stop = frames.stop ∧
    iter.start.number = frames.start.number + c) (index_add_span_le _ _) ⟨rfl, rfl⟩ ?_).bind
  · rintro ⟨t, iter⟩ ⟨-, hfill⟩
    exact ⟨maps_of_filled hfill, rfl⟩
  · rintro c i ⟨start, stop⟩ hc hi ⟨hstop, hstart⟩
    dsimp only at hstop hstart ⊢
    have hstop' := stop.lt
    subst hstop
    rw [if_pos (by omega)]
    apply (PhysFrame.add_yields fun _ ↦ by omega).bind
    intro next hnext
    apply (setFrame_yields hG).bind
    rintro x rfl
    refine ⟨⟨start, by omega, rfl⟩, rfl, ?_⟩
    dsimp only
    omega

end

section

variable {l : Nat} {F F' : Nat → PhysFrame → Prop} {flags : PageTableFlags} {s e : Nat}

/-- Only the pages of the range matter for the relation to the frames. -/
theorem Maps.mono {table table' : PageTable l} (h : Maps l F flags s e table table')
    (hF : ∀ q f, s ≤ q → q < e → F q f → F' q f) : Maps l F' flags s e table table' := by
  refine ⟨?_, h.upper, h.outside⟩
  intro k hk
  obtain ⟨f, hf, he⟩ := h.inside k hk
  exact ⟨f, hF _ f (Nat.le_add_right _ _) (keyAt_lt hk) hf, he⟩

/-- The effect of mapping on the table behind one entry, which may have been created. -/
def MapsEntry (F : Nat → PhysFrame → Prop) (flags : PageTableFlags) (e s : Nat)
    (old new : Option (TableEntry (PageTable l))) : Prop :=
  ∃ d, new = some d ∧
    ((∃ c, old = some c ∧ d.flags = c.flags ∧ Maps l F flags s e c.next d.next) ∨
      (old = none ∧ d.flags = flags ∧ Maps l F flags s e (PageTable.zero l) d.next))

private theorem MapsEntry.mono {old new : Option (TableEntry (PageTable l))}
    (h : MapsEntry F flags e s old new) (hF : ∀ q f, F q f → F' q f) :
    MapsEntry F' flags e s old new := by
  obtain ⟨d, hd, ⟨c, hc, hfl, hm⟩ | ⟨hc, hfl, hm⟩⟩ := h
  · exact ⟨d, hd, .inl ⟨c, hc, hfl, hm.mono fun q f _ _ ↦ hF q f⟩⟩
  · exact ⟨d, hd, .inr ⟨hc, hfl, hm.mono fun q f _ _ ↦ hF q f⟩⟩

private theorem upperFlags_zero (k : Nat) : upperFlags l (PageTable.zero l) k = [] := by
  cases l with
  | zero => rfl
  | succ l => rfl

private theorem maps_succ {table table' : PageTable (l + 1)}
    (h : ∀ j, Scanned (l + 1) s e (MapsEntry F flags e) (fun _ ↦ False) Eq table j (table' j)) :
    Maps (l + 1) F flags s e table table' := by
  have hentry : ∀ k, InSpan 512 (l + 2) s e k → MapsEntry F flags e
      (blockStart 512 (l + 1) s (digit 512 (l + 1) k)) (table (index (l + 1) k))
      (table' (index (l + 1) k)) ∧
      InSpan 512 (l + 1) (blockStart 512 (l + 1) s (digit 512 (l + 1) k)) e k := by
    intro k hk
    obtain ⟨hent, hin⟩ := (inSpan_succ_iff (by decide) k).mp hk
    rcases h (index (l + 1) k) with ⟨-, hR⟩ | ⟨hne, -⟩ | ⟨hf, -⟩
    · exact ⟨hR, hin⟩
    · exact absurd hent hne
    · exact hf.elim
  refine ⟨?_, ?_, ?_⟩
  · intro k hk
    obtain ⟨⟨d, hd, hold⟩, hin⟩ := hentry k hk
    rw [← keyAt_blockStart (by decide) hk]
    simp only [entryAt, hd]
    rcases hold with ⟨c, -, -, hm⟩ | ⟨-, -, hm⟩
    · exact hm.inside k hin
    · exact hm.inside k hin
  · intro k hk
    obtain ⟨⟨d, hd, hold⟩, hin⟩ := hentry k hk
    simp only [upperFlags_succ, hd]
    rcases hold with ⟨c, hc, hf, hm⟩ | ⟨hc, hf, hm⟩
    · simp only [hc, upperFlagsEntry, hf, hm.upper k hin, List.length_cons, List.cons_append,
        Nat.add_sub_add_right]
    · simp only [hc, upperFlagsEntry, hf, hm.upper k hin, upperFlags_zero, List.nil_append,
        List.length_nil, Nat.sub_zero, List.replicate_succ]
  · intro k hk
    rw [lookup_succ, lookup_succ]
    rcases h (index (l + 1) k) with ⟨hent, d, hd, hold⟩ | ⟨-, he⟩ | ⟨hf, -⟩
    · have hin : ¬ InSpan 512 (l + 1) (blockStart 512 (l + 1) s (digit 512 (l + 1) k)) e k :=
        fun hin ↦ hk ((inSpan_succ_iff (by decide) k).mpr ⟨hent, hin⟩)
      rw [hd]
      rcases hold with ⟨c, hc, -, hm⟩ | ⟨hc, -, hm⟩
      · rw [hc]
        exact hm.outside k hin
      · rw [hc]
        exact (hm.outside k hin).trans (lookup_zeroTable k)
    · rw [he]
    · exact hf.elim

end

section

variable {G : Prop} {pages : PageRange} {space : MemorySpace} {flags : PageTableFlags}
  {frames : PhysFrameRange} {fa : FrameAllocator} {l : Nat} {order : List Nat}

private theorem Mappable.rest {p : Page} (h : Mappable fa.supply pages space flags)
    (hp : pages.start.number ≤ p.number) : Mappable fa.supply ⟨p, pages.stop⟩ space flags :=
  ⟨h.noHuge, h.supplied, h.half.rest hp rfl, h.lower⟩

/-- The frames that are left for the rest of the pages. -/
private def FramesAt (frames : PhysFrameRange) (s : Nat) (cur : MapCursor) : Prop :=
  cur.frames.stop = frames.stop ∧
    ((frames.start.number = frames.stop.number ∧ cur.frames.start = frames.start) ∨
      (frames.start.number < frames.stop.number ∧
        cur.frames.start.number + s = frames.start.number + cur.pages.start.number))

/-- Loop invariant of `map_in_table`; `order` as in `FrameAt`. -/
private structure MapInv (space : MemorySpace) (frames : PhysFrameRange) (pages : PageRange)
    (fa : FrameAllocator) (order : List Nat) (cur : MapCursor) : Prop where
  stop : cur.pages.stop = pages.stop
  framesAt : FramesAt frames pages.start.number cur
  total : pages.start.number + cur.total = cur.pages.start.number
  handed : Handed fa cur.alloc order
  length : space = .user → frames.start.number = frames.stop.number → order.length = cur.total

variable {cur : MapCursor}

private theorem MapInv.fits (h : MapInv space frames pages fa order cur) (hfit : Fits frames pages)
    (hle : cur.pages.start.number ≤ pages.stop.number) : Fits cur.frames cur.pages := by
  have hstop := congrArg Page.number h.stop
  have hfstop := congrArg PhysFrame.number h.framesAt.1
  rcases h.framesAt.2 with ⟨heq, hstart⟩ | ⟨hlt, hstart⟩
  · rw [← hstart, ← hfstop] at heq
    exact .inl heq
  · rcases hfit with hz | ⟨-, hlen⟩
    · omega
    · by_cases hend : cur.pages.start.number = pages.stop.number
      · exact .inl (by omega)
      · exact .inr (by omega)

variable {order' : List Nat}

private theorem MapInv.frameAt (h : MapInv space frames pages fa order cur)
    (hfit : Fits frames pages) (q : Nat) (f : PhysFrame) (hs : cur.pages.start.number ≤ q)
    (hq : q < pages.stop.number)
    (hF : FrameAt space cur.frames fa.supply cur.pages.start.number order' q f) :
    FrameAt space frames fa.supply pages.start.number (order ++ order') q f := by
  have hfstop := congrArg PhysFrame.number h.framesAt.1
  have htot := h.total
  cases space with
  | kernel => exact ⟨hF.1, nofun⟩
  | user =>
    constructor
    · intro hlt
      rcases h.framesAt.2 with ⟨heq, -⟩ | ⟨-, hstart⟩
      · omega
      · rcases hfit with hz | ⟨-, hlen⟩
        · omega
        · have hf : f.number + cur.pages.start.number = cur.frames.start.number + q :=
            hF.1 (by omega)
          omega
    · intro _ heq
      have hlen := h.length rfl heq
      rcases h.framesAt.2 with ⟨-, hsame⟩ | ⟨hlt, -⟩
      · obtain ⟨i, hi, hsup⟩ := hF.2 rfl (by rw [hsame, hfstop, heq])
        refine ⟨i, ?_, hsup⟩
        rw [List.getElem?_append_right (by omega), hlen, ← hi]
        congr 1
        omega
      · omega

private theorem FrameAt.append {s q : Nat} {f : PhysFrame} {supply : Nat → Option PhysFrame}
    (h : FrameAt space frames supply s order q f) :
    FrameAt space frames supply s (order ++ order') q f := by
  refine ⟨h.1, fun hspace heq ↦ ?_⟩
  obtain ⟨i, hi, hsup⟩ := h.2 hspace heq
  refine ⟨i, ?_, hsup⟩
  rw [List.getElem?_append_left (List.getElem?_eq_some_iff.mp hi).1, hi]

variable {n : Nat}

private theorem advanceFrames_yields {cur : PhysFrameRange}
    (hn : cur.start.number < cur.stop.number → cur.start.number + n ≤ cur.stop.number) :
    Yields (advanceFrames cur n) (fun r ↦ r.stop = cur.stop ∧ r.start.number =
      if cur.start.number < cur.stop.number then cur.start.number + n else cur.start.number)
      (fun _ ↦ ¬ G) := by
  unfold advanceFrames
  split
  next hlt =>
    have hstop := cur.stop.lt
    apply (PhysFrame.add_yields fun _ ↦ by have := hn hlt; omega).bind
    intro start hstart
    exact ⟨rfl, hstart⟩
  next hlt => exact ⟨rfl, rfl⟩

section

variable (h : MapInv space frames pages fa order cur) (hfit : Fits frames pages)
include h hfit

private theorem MapInv.frames_le (hle : cur.pages.start.number ≤ pages.stop.number)
    (hn : cur.pages.start.number + n ≤ pages.stop.number)
    (hlt : cur.frames.start.number < cur.frames.stop.number) :
    cur.frames.start.number + n ≤ cur.frames.stop.number := by
  have hstop := congrArg Page.number h.stop
  rcases h.fits hfit hle with heq | ⟨-, hlen⟩
  · omega
  · omega

private theorem MapInv.next {cur' : MapCursor} (hn : cur.pages.start.number + n ≤ pages.stop.number)
    (hstop : cur'.pages.stop = cur.pages.stop)
    (hstart : cur'.pages.start.number = cur.pages.start.number + n)
    (htotal : cur'.total = cur.total + n) (hhanded : Handed cur.alloc cur'.alloc order')
    (hlength : space = .user → cur.frames.start.number = cur.frames.stop.number →
      order'.length = n) (hfr : cur'.frames.stop = cur.frames.stop ∧ cur'.frames.start.number =
      if cur.frames.start.number < cur.frames.stop.number then cur.frames.start.number + n
      else cur.frames.start.number) : MapInv space frames pages fa (order ++ order') cur' := by
  have htot := h.total
  have hfs := congrArg PhysFrame.number h.framesAt.1
  obtain ⟨hfstop, hfstart⟩ := hfr
  refine ⟨hstop.trans h.stop, ⟨hfstop.trans h.framesAt.1, ?_⟩, by omega,
    h.handed.trans hhanded, ?_⟩
  · rcases h.framesAt.2 with ⟨heq, hsame⟩ | ⟨hlt, hoff⟩
    · have hnum := congrArg PhysFrame.number hsame
      rw [if_neg (by omega)] at hfstart
      exact .inl ⟨heq, PhysFrame.ext (by omega)⟩
    · refine .inr ⟨hlt, ?_⟩
      rcases hfit with hz | ⟨-, hlen⟩
      · omega
      · split at hfstart
        · omega
        · omega
  · intro hspace heq
    rcases h.framesAt.2 with ⟨-, hsame⟩ | ⟨hlt, -⟩
    · rw [List.length_append, h.length hspace heq, hlength hspace (by rw [hsame, hfs, heq]), htotal]
    · omega

end

private theorem mapEntry_yields {recurse : PageTable l → MapCursor →
      Except Panic (PageTable l × Nat × FrameAllocator)}
    {P : List Nat → PageTable l → PageTable l → Prop} {entry : Option (TableEntry (PageTable l))}
    (hG : G → Mappable cur.alloc.supply cur.pages space flags)
    (hn : cur.pages.start.number + n ≤ cur.pages.stop.number)
    (hframes : cur.frames.start.number < cur.frames.stop.number →
      cur.frames.start.number + n ≤ cur.frames.stop.number)
    (hrec : ∀ t fa, Handed cur.alloc fa [] → Yields (recurse t { cur with alloc := fa })
      (fun r ↦ r.2.1 = n ∧ ∃ order, P order t r.1 ∧ Handed fa r.2.2 order) (fun _ ↦ ¬ G)) :
    Yields (mapEntry recurse flags entry cur) (fun r ↦ ∃ order,
      (∃ d, r.1 = some d ∧ ((∃ c, entry = some c ∧ d.flags = c.flags ∧ P order c.next d.next) ∨
        (entry = none ∧ d.flags = flags ∧ P order (PageTable.zero l) d.next))) ∧
      r.2.1.pages.stop = cur.pages.stop ∧
      r.2.1.pages.start.number = cur.pages.start.number + n ∧
      r.2.1.total = cur.total + n ∧ Handed cur.alloc r.2.1.alloc order ∧
      (r.2.1.frames.stop = cur.frames.stop ∧ r.2.1.frames.start.number =
        if cur.frames.start.number < cur.frames.stop.number then cur.frames.start.number + n
        else cur.frames.start.number) ∧
      r.2.2 = decide (cur.pages.stop.number ≤ r.2.1.pages.start.number)) (fun _ ↦ ¬ G) := by
  apply (nextLevelTable_yields hG).bind
  rintro ⟨c, fa⟩ ⟨hfa, hold⟩
  apply (hrec c.next fa hfa).bind
  rintro ⟨next, m, fa'⟩ ⟨rfl, order, hP, hfa'⟩
  apply (Page.add_yields (fun hg ↦ (hG hg).half) le_rfl hn).bind
  intro start hstart
  apply (advanceFrames_yields hframes).bind
  intro frames hfr
  refine ⟨order, ⟨_, rfl, ?_⟩, rfl, hstart, rfl, hfa.trans hfa', hfr, rfl⟩
  rcases hold with hc | ⟨hc, hflags, hzero⟩
  · exact .inl ⟨c, hc, rfl, hP⟩
  · refine .inr ⟨hc, hflags, ?_⟩
    rw [← hzero]
    exact hP

/-- What `map_in_table` does to a table: the count of pages, and the frames that it took. -/
def TableMapped (space : MemorySpace) (frames : PhysFrameRange) (pages : PageRange)
    (flags : PageTableFlags) (fa : FrameAllocator) (table : PageTable l)
    (r : PageTable l × Nat × FrameAllocator) : Prop :=
  r.2.1 = span 512 (l + 1) pages.start.number pages.stop.number ∧
  ∃ order, Maps l (FrameAt space frames fa.supply pages.start.number order) flags
      pages.start.number pages.stop.number table r.1 ∧
    Handed fa r.2.2 order ∧
    (space = .user → frames.start.number = frames.stop.number → order.length = r.2.1)

private theorem mapLevel1_yields {table : Level1Table}
    (hse : pages.start.number ≤ pages.stop.number) (hfit : Fits frames pages)
    (hG : G → Mappable fa.supply pages space flags) :
    Yields (mapLevel1 table frames pages space flags fa)
      (TableMapped (l := 0) space frames pages flags fa table) (fun _ ↦ ¬ G) := by
  cases space with
  | kernel =>
    apply (identityMapKernel_yields hse fun hg ↦ (hG hg).lower rfl).bind
    rintro ⟨t, n⟩ ⟨hm, hn⟩
    exact ⟨hn, [], hm.mono fun q f _ _ hf ↦ ⟨hf, nofun⟩, .refl fa, nofun⟩
  | user =>
    unfold mapLevel1
    dsimp only
    split
    next heq =>
      apply (mapUser_yields hse hG).mono _ (fun _ h ↦ h)
      rintro ⟨t, n, fa'⟩ ⟨order, hlen, hhanded, hm, hn⟩
      refine ⟨hn, order, hm.mono ?_, hhanded, fun _ _ ↦ hlen⟩
      refine fun q f _ _ hf ↦ ⟨fun hlt ↦ ?_, fun _ _ ↦ hf⟩
      rw [heq] at hlt
      exact absurd hlt (lt_irrefl _)
    next hne =>
      rcases hfit with heq | ⟨hlt, hlen⟩
      · exact absurd (PhysFrame.ext heq) hne
      · apply (mapUserPhysical_yields hse hlt hlen fun hg ↦ (hG hg).noHuge).bind
        rintro ⟨t, n⟩ ⟨hm, hn⟩
        refine ⟨hn, [], hm.mono fun q f _ _ hf ↦ ⟨fun _ ↦ hf, ?_⟩, .refl fa, ?_⟩
        · exact fun _ heq ↦ absurd heq hlt.ne
        · exact fun _ heq ↦ absurd heq hlt.ne

/-- `map_in_table` maps the part of the range in its table, and panics only where one of
the conditions of `Mappable` fails. -/
theorem mapInTable_yields (table : PageTable l) (hse : pages.start.number ≤ pages.stop.number)
    (hfit : Fits frames pages) (hG : G → Mappable fa.supply pages space flags) :
    Yields (mapInTable l table frames pages space flags fa) (fun r ↦
      TableMapped space frames pages flags fa table r ∧
      (l = 0 ∨ ∃ q : Page, q.number = pages.start.number + r.2.1)) (fun _ ↦ ¬ G) := by
  induction l generalizing frames pages fa with
  | zero =>
    apply (mapLevel1_yields hse hfit hG).mono _ (fun _ h ↦ h)
    intro r hr
    exact ⟨hr, .inl rfl⟩
  | succ l ih =>
    simp only [mapInTable, pageTableIndex_startAddress]
    apply (scanBlocks_collects (T := table) (l := l + 1) (e := pages.stop.number)
      (fun cur ↦ cur.pages.start.number) (MapInv space frames pages fa)
      (fun order ↦ MapsEntry (FrameAt space frames fa.supply pages.start.number order) flags
        pages.stop.number)
      (fun _ ↦ False) Eq False (by decide) hse (fun _ ↦ rfl) (g := []) rfl ?_ ?_ ?_).bind
    · rintro ⟨t, cur⟩ ⟨order, hJ, hscan, hend | ⟨hf, -⟩⟩
      · have htot := hJ.total
        dsimp only at hend htot
        refine ⟨⟨?_, order, maps_succ hscan, hJ.handed, hJ.length⟩, .inr ⟨cur.pages.start, ?_⟩⟩
        · dsimp only
          omega
        · dsimp only
          omega
      · exact hf.elim
    · refine ⟨rfl, ⟨rfl, ?_⟩, rfl, .refl fa, fun _ _ ↦ rfl⟩
      rcases hfit with heq | ⟨hlt, -⟩
      · exact .inl ⟨heq, rfl⟩
      · exact .inr ⟨hlt, rfl⟩
    · intro i cur order henter hJ hstart hle
      have hstop := congrArg Page.number hJ.stop
      have hn : cur.pages.start.number +
          span 512 (l + 1) cur.pages.start.number pages.stop.number ≤ pages.stop.number := by
        have hspan : span 512 (l + 1) cur.pages.start.number pages.stop.number ≤ _ :=
          min_le_left _ _
        omega
      have hG' : G → Mappable cur.alloc.supply cur.pages space flags := by
        intro hg
        have hrest := (hG hg).rest (p := cur.pages.start) (hJ.total ▸ Nat.le_add_right _ _)
        rw [← hJ.stop, ← hJ.handed.only.1] at hrest
        exact hrest
      apply (mapEntry_yields (P := fun order' t t' ↦
        (space = .user → cur.frames.start.number = cur.frames.stop.number → order'.length =
          span 512 (l + 1) cur.pages.start.number pages.stop.number) ∧
        Maps l (FrameAt space frames fa.supply pages.start.number (order ++ order')) flags
          cur.pages.start.number pages.stop.number t t') hG' (by rw [hstop]; exact hn)
        (hJ.frames_le hfit hle hn) ?_).mono _ (fun _ h ↦ h)
      · intro t fa' hfa'
        have hsupply : fa'.supply = fa.supply := hfa'.only.1.trans hJ.handed.only.1
        have hmap : G → Mappable fa'.supply cur.pages space flags :=
          fun hg ↦ hfa'.only.1.symm ▸ hG' hg
        have hrec := ih t (hstop ▸ hle) (hJ.fits hfit hle) hmap
        simp only [TableMapped, hJ.stop, hsupply] at hrec
        apply hrec.mono _ (fun _ h ↦ h)
        rintro r ⟨⟨hcount, order', hm, hal, hlen⟩, -⟩
        exact ⟨hcount, order', ⟨hcount ▸ hlen, hm.mono (hJ.frameAt hfit)⟩, hal⟩
      · rintro ⟨new, cur', stop⟩ ⟨order', hnew, hstop', hstart', htotal, halloc, hfr, hexit⟩
        have hlen : space = .user → cur.frames.start.number = cur.frames.stop.number →
            order'.length = span 512 (l + 1) cur.pages.start.number pages.stop.number := by
          obtain ⟨d, -, ⟨c, -, -, hlen, -⟩ | ⟨-, -, hlen, -⟩⟩ := hnew
          · exact hlen
          · exact hlen
        refine ⟨order ++ order', fun k old new h ↦ h.mono fun q f hf ↦ hf.append, ?_,
          hJ.next hfit hn hstop' hstart' htotal halloc hlen hfr, .inl ⟨hstart', ?_⟩⟩
        · obtain ⟨d, hd, ⟨c, hc, hfl, -, hm⟩ | ⟨hc, hfl, -, hm⟩⟩ := hnew
          · exact ⟨d, hd, .inl ⟨c, hc, hfl, hstart ▸ hm⟩⟩
          · exact ⟨d, hd, .inr ⟨hc, hfl, hstart ▸ hm⟩⟩
        · rw [← hstop]
          exact hexit
    · intro i cur order hf
      exact hf.elim

end

end D3OS.Memory

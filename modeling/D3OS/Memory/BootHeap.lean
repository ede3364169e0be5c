import D3OS.Memory.Boot

/-!
# Where the kernel heap lies

`boot_alloc` takes the lowest sufficiently large run of available memory; it does not look at
what is reserved. An area of the memory map that ends below its start after rounding to pages
stays in the list of available regions where nothing covers its start, and without overflow
checks its size is a huge number, so that the heap is taken there.
-/

namespace D3OS.Memory

open Lib

variable {regions : List PhysFrameRange}

namespace Dram

/-- A region that ends below its start and comes behind regions that end below its start. -/
private def Survives (r : Region) : List Region → Prop
  | [] => False
  | g :: rest => g = r ∨ (g.hi < r.lo ∧ Survives r rest)

variable {r : Region} {l : List Region}

private theorem mem_of_survives (h : Survives r l) : r ∈ l := by
  induction l with
  | nil => exact absurd h id
  | cons g rest ih =>
    rcases h with rfl | ⟨-, h⟩
    · exact List.mem_cons_self
    · exact List.mem_cons_of_mem _ (ih h)

private theorem mem_mergeRegions_iff (hr : r.hi < r.lo) (current : Region) (rest : List Region)
    (hsorted : (current :: rest).Pairwise fun a b ↦ a.lo ≤ b.lo) :
    r ∈ mergeRegions current rest ↔ Survives r (current :: rest) := by
  induction rest generalizing current with
  | nil => simp [mergeRegions, Survives, eq_comm]
  | cons next rest ih =>
    obtain ⟨hcurrent, hrest⟩ := List.pairwise_cons.mp hsorted
    have hle : current.lo ≤ next.lo := hcurrent next List.mem_cons_self
    unfold mergeRegions
    split
    next htouch =>
      have htouch : next.lo ≤ current.hi := htouch
      obtain ⟨joined, hjoined, hlo, hhi⟩ := exists_joined current next
      rw [← hjoined, ih joined (sorted_joined hsorted hlo)]
      have hjoined_ne : joined ≠ r := by
        rintro rfl
        omega
      have hcurrent_ne : current ≠ r := by
        rintro rfl
        omega
      have hnext : current.hi < r.lo → next ≠ r := by
        rintro h rfl
        omega
      simp only [Survives, hjoined_ne, hcurrent_ne, false_or, hhi, Nat.max_lt, and_assoc]
      constructor
      · rintro ⟨h, h', hs⟩
        exact ⟨h, .inr ⟨h', hs⟩⟩
      · rintro ⟨h, h' | h'⟩
        · exact absurd h' (hnext h)
        · exact ⟨h, h'⟩
    next hapart =>
      have hapart : current.hi < next.lo := not_le.mp hapart
      rw [List.mem_cons, ih next hrest, @eq_comm _ r]
      apply or_congr_right
      constructor
      · intro h
        refine ⟨?_, h⟩
        rcases List.mem_cons.mp (mem_of_survives h) with rfl | hmem
        · exact hapart
        · exact hapart.trans_le ((List.pairwise_cons.mp hrest).1 r hmem)
      · exact And.right

private theorem survives_iff_mem (h : Merged l) : Survives r l ↔ r ∈ l := by
  refine ⟨mem_of_survives, ?_⟩
  induction l with
  | nil => exact fun hr ↦ absurd hr List.not_mem_nil
  | cons g rest ih =>
    obtain ⟨hg, hrest⟩ := List.pairwise_cons.mp h
    intro hr
    rcases List.mem_cons.mp hr with rfl | hr
    · exact .inl rfl
    · exact .inr ⟨(hg r hr).2, ih hrest hr⟩

variable {set : List Region}

private theorem survives_orderedInsert (h : Merged set) (new r : Region) :
    Survives r (set.orderedInsert (fun a b ↦ a.start.asU64 ≤ b.start.asU64) new) ↔
      (r ∈ set ∧ (new.lo ≤ r.lo → new.hi < r.lo)) ∨
        (r = new ∧ ∀ g ∈ set, g.lo < new.lo → g.hi < new.lo) := by
  induction set with
  | nil => simp [Survives, eq_comm]
  | cons g rest ih =>
    obtain ⟨hg, hrest⟩ := List.pairwise_cons.mp h
    rw [List.orderedInsert_cons]
    split
    next hle =>
      have hbehind : ∀ a ∈ g :: rest, new.lo ≤ a.lo := by
        intro a ha
        rcases List.mem_cons.mp ha with rfl | ha
        · exact hle
        · exact hle.trans (hg a ha).1
      have hvacuous : ∀ a ∈ g :: rest, a.lo < new.lo → a.hi < new.lo := fun a ha hlt ↦
        absurd (hbehind a ha) (by omega)
      rw [Survives, survives_iff_mem h, @eq_comm _ new]
      constructor
      · rintro (rfl | ⟨hlt, hr⟩)
        · exact .inr ⟨rfl, hvacuous⟩
        · exact .inl ⟨hr, fun _ ↦ hlt⟩
      · rintro (⟨hr, hlt⟩ | ⟨rfl, -⟩)
        · exact .inr ⟨hlt (hbehind r hr), hr⟩
        · exact .inl rfl
    next hlt =>
      have hlt : g.lo < new.lo := not_le.mp hlt
      rw [Survives, ih hrest, List.forall_mem_cons]
      constructor
      · rintro (rfl | ⟨hgr, ⟨hr, hreach⟩ | ⟨rfl, hall⟩⟩)
        · exact .inl ⟨List.mem_cons_self, fun h ↦ absurd h (by omega)⟩
        · exact .inl ⟨List.mem_cons_of_mem _ hr, hreach⟩
        · exact .inr ⟨rfl, fun _ ↦ hgr, hall⟩
      · rintro (⟨hr, hreach⟩ | ⟨rfl, hgr, hall⟩)
        · rcases List.mem_cons.mp hr with rfl | hr
          · exact .inl rfl
          · exact .inr ⟨(hg r hr).2, .inl ⟨hr, hreach⟩⟩
        · exact .inr ⟨hgr hlt, .inr ⟨rfl, hall⟩⟩

private theorem mem_insertRegion_iff {set' : List Region} (hset : Merged set)
    {newRegion : PhysFrameRange} (h : insertRegion set newRegion = .ok set') (hr : r.hi < r.lo) :
    r ∈ set' ↔
      (r ∈ set ∧ ((Region.ofFrames newRegion).lo ≤ r.lo → (Region.ofFrames newRegion).hi < r.lo)) ∨
        (r = .ofFrames newRegion ∧ ∀ g ∈ set, g.lo < r.lo → g.hi < r.lo) := by
  have hsorted := orderedInsert_sorted hset (.ofFrames newRegion)
  have hsurvives := survives_orderedInsert hset (.ofFrames newRegion) r
  unfold insertRegion at h
  split at h
  next => cases h
  next =>
    split at h
    next hnil =>
      have hlen := List.orderedInsert_length (fun a b : Region ↦ a.start.asU64 ≤ b.start.asU64)
        set (.ofFrames newRegion)
      rw [hnil] at hlen
      cases hlen
    next first rest hcons =>
      cases h
      rw [hcons] at hsorted hsurvives
      rw [mem_mergeRegions_iff hr first rest hsorted, hsurvives]
      apply or_congr_right
      apply and_congr_right
      rintro rfl
      rfl

/-- A region of the list ends below its start at `s`, and no other region reaches `s`: neither
one from below nor a later one from `s` on. -/
def Exposed (regions : List Region) (s : Nat) : Prop :=
  ∃ before m after, regions = before ++ m :: after ∧ (m.lo = s ∧ m.hi < s) ∧
    (∀ g ∈ before, g.lo < s → g.hi < s) ∧ ∀ g ∈ after, g.lo ≤ s → g.hi < s

private theorem exposed_concat {regions : List Region} {new : Region} {s : Nat} :
    Exposed (regions ++ [new]) s ↔ (Exposed regions s ∧ (new.lo ≤ s → new.hi < s)) ∨
      ((new.lo = s ∧ new.hi < s) ∧ ∀ g ∈ regions, g.lo < s → g.hi < s) := by
  constructor
  · rintro ⟨before, m, after, heq, hm, hbefore, hafter⟩
    rcases List.eq_nil_or_concat after with rfl | ⟨after, last, rfl⟩
    · obtain ⟨rfl, hlast⟩ := List.append_inj' heq rfl
      cases hlast
      exact .inr ⟨hm, hbefore⟩
    · rw [List.concat_eq_append] at heq hafter
      rw [← List.cons_append, ← List.append_assoc] at heq
      obtain ⟨rfl, hlast⟩ := List.append_inj' heq rfl
      cases hlast
      exact .inl ⟨⟨before, m, after, rfl, hm, hbefore,
        fun g hg ↦ hafter g (List.mem_append_left _ hg)⟩, hafter new (by simp)⟩
  · rintro (⟨⟨before, m, after, rfl, hm, hbefore, hafter⟩, hnew⟩ | ⟨hnew, hall⟩)
    · exact ⟨before, m, after ++ [new], by simp, hm, hbefore, forall_mem_push hafter hnew⟩
    · exact ⟨regions, new, [], rfl, hnew, hall, nofun⟩

private theorem forall_reach_iff (l : List Region) (s : Nat) :
    (∀ g ∈ l, g.lo < s → g.hi < s) ↔ (0 < s → s - 1 ∉ points l) := by
  constructor
  · rintro h hpos ⟨g, hg, hle, hlt⟩
    have := h g hg (by omega)
    omega
  · intro h g hg hlt
    by_contra hge
    exact h (by omega) ⟨g, hg, by omega, by omega⟩

/-- The list of available regions in terms of what was inserted. -/
private structure Scanned (regions : List Region) (set : List Region) : Prop where
  merged : Merged set
  points_eq : points set = points regions
  exposed_iff : ∀ s, (∃ r ∈ set, r.lo = s ∧ r.hi < s) ↔ Exposed regions s

private theorem Scanned.insert {regions set' : List Region} (h : Scanned regions set)
    {newRegion : PhysFrameRange} (hinsert : insertRegion set newRegion = .ok set') :
    Scanned (regions ++ [.ofFrames newRegion]) set' := by
  have hm := (insertRegion_yields h.merged newRegion).of_ok hinsert
  refine ⟨hm.merged, ?_, ?_⟩
  · rw [hm.points_eq]
    ext x
    rw [mem_points_cons, h.points_eq, mem_points_append, mem_points_cons, points_nil]
    simp [or_comm]
  · intro s
    rw [exposed_concat, ← h.exposed_iff, forall_reach_iff, ← h.points_eq, ← forall_reach_iff]
    constructor
    · rintro ⟨r, hr, rfl, hbad⟩
      rcases (mem_insertRegion_iff h.merged hinsert hbad).mp hr with ⟨hr, hreach⟩ | ⟨rfl, hall⟩
      · exact .inl ⟨⟨r, hr, rfl, hbad⟩, hreach⟩
      · exact .inr ⟨⟨rfl, hbad⟩, hall⟩
    · rintro (⟨⟨r, hr, rfl, hbad⟩, hreach⟩ | ⟨⟨rfl, hbad⟩, hall⟩)
      · exact ⟨r, (mem_insertRegion_iff h.merged hinsert hbad).mpr (.inl ⟨hr, hreach⟩), rfl, hbad⟩
      · exact ⟨_, (mem_insertRegion_iff h.merged hinsert hbad).mpr (.inr ⟨rfl, hall⟩), rfl, hbad⟩

/-- The regions that the calls of `insert_available` insert. -/
def inserted (ranges : List PhysFrameRange) : List Region :=
  (ranges.filterMap cutFirstPage).map .ofFrames

variable {ranges : List PhysFrameRange} {d d' : Dram}

private theorem scanned_run (regions : List Region) (h : Scanned regions d.availableRegions)
    (hrun : ranges.foldlM insertAvailable d = .ok d') :
    Scanned (regions ++ inserted ranges) d'.availableRegions := by
  induction ranges generalizing regions d with
  | nil =>
    cases hrun
    simpa [inserted] using h
  | cons range rest ih =>
    obtain ⟨d₁, hstep, hrun⟩ := of_bind hrun
    unfold insertAvailable at hstep
    split at hstep
    next hcut =>
      cases hstep
      have heq : inserted (range :: rest) = inserted rest := by
        rw [inserted, List.filterMap_cons_none hcut, inserted]
      rw [heq]
      exact ih regions h hrun
    next cut hcut =>
      split at hstep
      next => cases hstep
      next =>
        obtain ⟨set, hinsert, hstep⟩ := of_bind hstep
        cases hstep
        have heq : inserted (range :: rest) = [.ofFrames cut] ++ inserted rest := by
          rw [inserted, List.filterMap_cons_some hcut, List.map_cons, inserted]
          rfl
        rw [heq, ← List.append_assoc]
        exact ih _ (h.insert hinsert) hrun

/-- What `boot_alloc` takes: the start of the first region that is large enough, or that ends
below its start. -/
private structure Takes (size : Nat) (l : List Region) (frames : PhysFrameRange)
    (left : List Region) (before : List Region) (r : Region) (after : List Region) : Prop where
  split : l = before ++ r :: after
  start_eq : frames.start.startAddress.asU64 = r.lo
  stop_eq : frames.stop.startAddress.asU64 = r.lo + size
  fits : r.lo ≤ r.hi → r.lo + size ≤ r.hi
  small : ∀ g ∈ before, g.lo ≤ g.hi ∧ g.hi < g.lo + size
  length_le : left.length ≤ l.length
  left_eq : ∃ r' : Region, r'.lo = r.lo + size ∧ r'.hi = r.hi ∧
    occupied left = occupied (before ++ r' :: after)

variable {mode : Overflow}

private theorem sub_cases {a b c : Nat} (h : mode.sub 64 a b = .ok c) :
    (b ≤ a ∧ c = a - b) ∨ (a < b ∧ c = a + 2 ^ 64 - b) := by
  unfold Overflow.sub at h
  split at h
  next hle => exact .inl ⟨hle, (Except.ok.inj h).symm⟩
  next hlt =>
    split at h
    · cases h
    · exact .inr ⟨not_le.mp hlt, (Except.ok.inj h).symm⟩

variable {frames : PhysFrameRange}

private theorem takeFrames_takes {size : Nat} (hsize : size ≤ 2 ^ 63) {left : List Region}
    (h : takeFrames mode size l = .ok (some (frames, left))) :
    ∃ before r after, Takes size l frames left before r after := by
  induction l generalizing left with
  | nil => cases h
  | cons region rest ih =>
    obtain ⟨-, -, h⟩ := of_bind h
    obtain ⟨-, -, h⟩ := of_bind h
    obtain ⟨-, -, h⟩ := of_bind h
    obtain ⟨regionSize, hregion, h⟩ := of_bind h
    have hcases : (region.lo ≤ region.hi ∧ regionSize = region.hi - region.lo) ∨
        (region.hi < region.lo ∧ regionSize = region.hi + 2 ^ 64 - region.lo) := sub_cases hregion
    have hbound : region.lo < 2 ^ 52 := region.start.lt
    split at h
    next hsmall =>
      obtain ⟨taken, htaken, h⟩ := of_bind h
      cases taken with
      | none => cases h
      | some taken =>
        cases h
        obtain ⟨before, r, after, ht⟩ := ih htaken
        obtain ⟨r', hlo, hhi, hleft⟩ := ht.left_eq
        refine ⟨region :: before, r, after, by rw [ht.split, List.cons_append], ht.start_eq,
          ht.stop_eq, ht.fits, ?_, Nat.succ_le_succ ht.length_le, r', hlo, hhi, ?_⟩
        · exact List.forall_mem_cons.mpr ⟨by omega, ht.small⟩
        · unfold occupied at hleft ⊢
          rw [List.cons_append, List.filter_cons, List.filter_cons, hleft]
    next hlarge =>
      obtain ⟨sum, hsum, h⟩ := of_bind h
      obtain ⟨allocEnd, hend, h⟩ := of_bind h
      obtain ⟨startFrame, hstart, h⟩ := of_bind h
      obtain ⟨endFrame, hstop, h⟩ := of_bind h
      cases h
      have hsum : region.lo + size = sum := by
        have hsum := unwrap_eq_ok.mp hsum
        simp only [checkedAdd, Option.ite_none_right_eq_some, Option.some.injEq] at hsum
        exact hsum.2
      have hend : allocEnd.asU64 = region.lo + size := (PhysAddr.asU64_of_new hend).trans hsum.symm
      refine ⟨[], region, rest, rfl, PhysFrame.number_of_fromStartAddress (unwrap_eq_ok.mp hstart),
        (PhysFrame.number_of_fromStartAddress (unwrap_eq_ok.mp hstop)).trans hend, by omega,
        List.forall_mem_nil _, ?_, { region with start := allocEnd }, hend, rfl, ?_⟩
      · split <;> simp
      · split
        next hall => exact (List.filter_cons_of_neg (by simp [Region.lo, Region.hi, hall])).symm
        next => rfl

section

variable {size : Nat} {l left before after : List Region} {frames : PhysFrameRange} {r : Region}

variable (h : Takes size l frames left before r after)
include h

private theorem Takes.merged (hm : Merged l) :
    Merged (occupied left) := by
  rw [h.split] at hm
  obtain ⟨hbefore, hrest, hacross⟩ := List.pairwise_append.mp hm
  obtain ⟨hr, hafter⟩ := List.pairwise_cons.mp hrest
  obtain ⟨r', hlo, hhi, hleft⟩ := h.left_eq
  rw [hleft]
  by_cases hgood : r.lo ≤ r.hi
  · have hfits := h.fits hgood
    apply List.Pairwise.filter
    refine List.pairwise_append.mpr ⟨hbefore, List.pairwise_cons.mpr ⟨?_, hafter⟩, ?_⟩
    · intro a ha
      have := hr a ha
      omega
    · intro g hg
      refine List.forall_mem_cons.mpr ⟨?_, fun a ha ↦ hacross g hg a (List.mem_cons_of_mem _ ha)⟩
      have := hacross g hg r List.mem_cons_self
      omega
  · rw [occupied, List.filter_append, List.filter_cons_of_neg (by simp; omega),
      ← List.filter_append]
    exact (hm.sublist (by simp)).filter _

private theorem Takes.bounded {b : Nat}
    (hb : ∀ g ∈ occupied l, g.hi ≤ b) : ∀ g ∈ occupied left, g.hi ≤ b := by
  intro g hg
  obtain ⟨r', hlo, hhi, hleft⟩ := h.left_eq
  rw [hleft, mem_occupied, List.mem_append, List.mem_cons] at hg
  obtain ⟨hg | rfl | hg, hlt⟩ := hg
  · exact hb g (mem_occupied.mpr ⟨by simp [h.split, hg], hlt⟩)
  · rw [hhi]
    exact hb r (mem_occupied.mpr ⟨by simp [h.split], by omega⟩)
  · exact hb g (mem_occupied.mpr ⟨by simp [h.split, hg], hlt⟩)

end

/-- Where `boot_alloc` may find `size` bytes: all of them are available, or a region that ends
below its start is exposed there. -/
def HeapCandidate (ranges : List PhysFrameRange) (size a : Nat) : Prop :=
  (∀ x, a ≤ x → x < a + size → x ∈ points (inserted ranges)) ∨ Exposed (inserted ranges) a

private theorem Takes.isLeast {size : Nat} (hsize : 0 < size) {left before after : List Region}
    (h : Takes size l frames left before r after) (hl : Scanned (inserted ranges) l) :
    IsLeast {a | HeapCandidate ranges size a} r.lo := by
  have hm := hl.merged
  have hmem : r ∈ l := by
    rw [h.split]
    simp
  rw [h.split] at hm
  obtain ⟨-, hrest, -⟩ := List.pairwise_append.mp hm
  have hafter := (List.pairwise_cons.mp hrest).1
  -- A region that `boot_alloc` would have taken does not come before `r`.
  have hlater : ∀ g ∈ l, (g.lo ≤ g.hi → g.lo + size ≤ g.hi) → r.lo ≤ g.lo := by
    intro g hg hfits
    rw [h.split] at hg
    rcases List.mem_append.mp hg with hg | hg
    · have := h.small g hg
      omega
    · rcases List.mem_cons.mp hg with rfl | hg
      · exact le_rfl
      · exact (hafter g hg).1
  constructor
  · by_cases hgood : r.lo ≤ r.hi
    · refine .inl fun x hle hlt ↦ ?_
      rw [← hl.points_eq]
      have := h.fits hgood
      exact ⟨r, hmem, hle, by omega⟩
    · exact .inr ((hl.exposed_iff r.lo).mp ⟨r, hmem, rfl, not_le.mp hgood⟩)
  · rintro b (hall | hexposed)
    · rw [← hl.points_eq] at hall
      obtain ⟨g, hg, hle, hend⟩ := hl.merged.exists_covers hsize hall
      exact (hlater g hg fun _ ↦ by omega).trans hle
    · obtain ⟨g, hg, rfl, hbad⟩ := (hl.exposed_iff b).mpr hexposed
      exact hlater g hg fun hgood ↦ absurd hgood (by omega)

private theorem scan_facts (h : ranges.foldlM insertAvailable new = .ok d) :
    Scanned (inserted ranges) d.availableRegions ∧
      ∃ available, Collects available ∅ ranges.length d := by
  have hempty : Scanned [] new.availableRegions := by
    refine ⟨.nil, rfl, fun s ↦ ?_⟩
    simp [new, Exposed]
  have hmap : (ranges.map Insertion.available).foldlM insert new = .ok d := by
    rw [List.foldlM_map]
    exact h
  have hnone : reservedPoints (ranges.map Insertion.available) = ∅ := by
    ext x
    simp [reservedPoints]
  have hcollects := ((collects_new.foldlM (ranges.map Insertion.available) (by simp) .nil).of_ok
    hmap).1
  rw [hnone, Set.union_empty, Set.union_empty, List.length_map, Nat.zero_add] at hcollects
  exact ⟨scanned_run [] hempty h, _, hcollects⟩

private theorem bootAlloc_facts {n : Nat} (hn : n * pageSize ≤ 2 ^ 63) {available : Set Nat}
    {count : Nat} (hscan : Scanned (inserted ranges) d.availableRegions)
    (hd : Collects available ∅ count d) (h : d.bootAlloc mode n = .ok (some frames, d')) :
    IsLeast {a | HeapCandidate ranges (n * pageSize) a} frames.start.startAddress.asU64 ∧
      frames.stop.startAddress.asU64 = frames.start.startAddress.asU64 + n * pageSize ∧
      Collects (points d'.availableRegions) ∅ count d' := by
  unfold bootAlloc at h
  split at h
  next => cases h
  next hpos =>
    obtain ⟨byteLen, hlen, h⟩ := of_bind h
    obtain ⟨taken, htaken, h⟩ := of_bind h
    have hlen : n * pageSize = byteLen := by
      have hlen := unwrap_eq_ok.mp hlen
      simp only [checkedMul, Option.ite_none_right_eq_some, Option.some.injEq] at hlen
      exact hlen.2
    subst hlen
    cases taken with
    | none => cases h
    | some taken =>
      cases h
      obtain ⟨before, r, after, ht⟩ := takeFrames_takes hn htaken
      have hsize : 0 < n * pageSize := Nat.mul_pos (Nat.pos_of_ne_zero hpos) (by decide)
      rw [ht.start_eq]
      refine ⟨ht.isLeast hsize hscan, ht.stop_eq, ?_⟩
      have hlen := hd.length_le
      have hleft := ht.length_le
      exact { hd with
        availableMerged := ht.merged hscan.merged
        available_eq := rfl
        bounded := ht.bounded hd.bounded
        length_le := (Nat.add_le_add_right hleft _).trans hlen }

private theorem insertReserved_run
    (hordered : ∀ region ∈ regions, region.start.number ≤ region.stop.number)
    {available reserved : Set Nat} {count : Nat} (h : Collects available reserved count d)
    (hrun : regions.foldlM insertReserved d = .ok d') :
    ∃ reserved' count', Collects available reserved' count' d' ∧ reserved ⊆ reserved' := by
  induction regions generalizing d reserved count with
  | nil =>
    cases hrun
    exact ⟨reserved, count, h, subset_rfl⟩
  | cons region rest ih =>
    obtain ⟨d₁, hstep, hrun⟩ := of_bind hrun
    have h₁ := ((h.insertReserved region (hordered region List.mem_cons_self)).of_ok hstep).1
    obtain ⟨reserved', count', h', hsub⟩ :=
      ih (fun r hr ↦ hordered r (List.mem_cons_of_mem _ hr)) h₁ hrun
    exact ⟨reserved', count', h', Set.subset_union_right.trans hsub⟩

end Dram

namespace Boot

open Dram

/-- The bytes of the kernel heap. -/
def heapSize : Nat := kernelHeapPages * pageSize

private theorem alignUp_le {a b : PhysAddr} (h : a.alignUp = .ok b) : a.asU64 ≤ b.asU64 := by
  have hb := PhysAddr.asU64_of_new h
  rw [hb]
  simp only [pageSize]
  omega

private theorem alignedFrames_ordered {e : Extent} {frames : PhysFrameRange}
    (h : alignedFrames e = .ok frames) : frames.start.number ≤ frames.stop.number := by
  obtain ⟨start, hstart, h⟩ := of_bind h
  obtain ⟨startFrame, hstartFrame, h⟩ := of_bind h
  obtain ⟨stop, hstop, h⟩ := of_bind h
  obtain ⟨aligned, haligned, h⟩ := of_bind h
  obtain ⟨endFrame, hendFrame, h⟩ := of_bind h
  cases h
  have hfirst := PhysFrame.number_of_fromStartAddress (unwrap_eq_ok.mp hstartFrame)
  have hlast := PhysFrame.number_of_fromStartAddress (unwrap_eq_ok.mp hendFrame)
  have hle := alignUp_le haligned
  rw [PhysAddr.asU64_of_new hstop] at hle
  rw [PhysAddr.asU64_of_new hstart] at hfirst
  have hordered := e.ordered
  show startFrame.number ≤ endFrame.number
  simp only [pageSize] at hfirst hlast
  omega

private theorem getMultibootFrames_ordered {e : Extent} {frames : PhysFrameRange}
    (h : getMultibootFrames e = .ok frames) : frames.start.number ≤ frames.stop.number := by
  obtain ⟨start, hstart, h⟩ := of_bind h
  obtain ⟨stop, hstop, h⟩ := of_bind h
  cases h
  show start.asU64 / pageSize ≤ stop.asU64 / pageSize
  rw [PhysAddr.asU64_of_new hstart, PhysAddr.asU64_of_new hstop]
  exact Nat.div_le_div_right e.ordered

private theorem regions_ordered {p : Placement} (h : p.regions = .ok regions) :
    ∀ region ∈ regions, region.start.number ≤ region.stop.number := by
  obtain ⟨kernelImage, hkernel, h⟩ := of_bind h
  obtain ⟨apBoot, hap, h⟩ := of_bind h
  obtain ⟨initrd, hinitrd, h⟩ := of_bind h
  obtain ⟨multiboot, hmultiboot, h⟩ := of_bind h
  cases h
  simp only [List.forall_mem_cons, List.not_mem_nil, false_implies, implies_true, and_true]
  exact ⟨alignedFrames_ordered hkernel, alignedFrames_ordered hap, alignedFrames_ordered hinitrd,
    getMultibootFrames_ordered hmultiboot⟩

private theorem start_facts {mode : Overflow} {map : MemoryMap} {placement : Placement}
    {setup : Setup} (h : start mode map placement = .ok setup) {ranges : List PhysFrameRange}
    (hranges : map.ranges = .ok ranges) (hregions : placement.regions = .ok regions) :
    IsLeast {a | HeapCandidate ranges heapSize a} setup.heapRegion.start.startAddress.asU64 ∧
      setup.heapRegion.stop.startAddress.asU64 =
        setup.heapRegion.start.startAddress.asU64 + heapSize ∧
      Merged setup.dram.reservedRegions ∧
      setup.heapRegion.bytes ⊆ points setup.dram.reservedRegions := by
  obtain ⟨ranges', hranges', h⟩ := of_bind h
  obtain rfl := Except.ok.inj (hranges.symm.trans hranges')
  obtain ⟨d, hscan, h⟩ := of_bind h
  obtain ⟨⟨heap, d₁⟩, halloc, h⟩ := of_bind h
  obtain ⟨heapRegion, hheap, h⟩ := of_bind h
  rw [unwrap_eq_ok.mp hheap] at halloc
  obtain ⟨d₂, hreserve, h⟩ := of_bind h
  obtain ⟨regions', hregions', h⟩ := of_bind h
  obtain rfl := Except.ok.inj (hregions.symm.trans hregions')
  obtain ⟨d₃, hothers, h⟩ := of_bind h
  obtain ⟨d₄, hfinalize, h⟩ := of_bind h
  cases h
  obtain ⟨hscanned, available, hcollects⟩ := scan_facts hscan
  obtain ⟨hleast, hstop, h₁⟩ := bootAlloc_facts (by decide) hscanned hcollects halloc
  have hordered : heapRegion.start.number ≤ heapRegion.stop.number := by
    have hstop' : heapRegion.stop.number * pageSize =
      heapRegion.start.number * pageSize + kernelHeapPages * pageSize := hstop
    simp only [pageSize] at hstop'
    omega
  have h₂ := ((h₁.insertReserved heapRegion hordered).of_ok hreserve).1
  obtain ⟨reserved, count, h₃, hsub⟩ := insertReserved_run (regions_ordered hregions) h₂ hothers
  obtain ⟨⟨-, hmerged, hlimit⟩, havailable, hreserved⟩ := (h₃.finalize mode).of_ok hfinalize
  refine ⟨hleast, hstop, hmerged, ?_⟩
  intro x hx
  have hx : x ∈ reserved := hsub (.inl hx)
  rw [hreserved, havailable, hlimit]
  exact ⟨⟨Nat.zero_le _, h₃.reserved_lt x hx⟩, fun hmem ↦ hmem.2 hx⟩

/-- For every memory map and every placement that the boot sequence accepts: the heap overlaps
none of the regions that are marked as reserved exactly when the lowest place that
`boot_alloc` accepts overlaps none of them. In any case no frame of the heap is handed out by
the frame allocator later. -/
theorem heap_disjoint_iff {mode : Overflow} {map : MemoryMap} {placement : Placement}
    {setup : Setup} (h : start mode map placement = .ok setup)
    {ranges regions : List PhysFrameRange}
    (hranges : map.ranges = .ok ranges) (hregions : placement.regions = .ok regions) :
    ((∀ region ∈ regions, Disjoint setup.heapRegion.bytes region.bytes) ↔
      ∀ a, IsLeast {a | HeapCandidate ranges heapSize a} a →
        ∀ region ∈ regions, Disjoint (Set.Ico a (a + heapSize)) region.bytes) ∧
    ∀ maxOrder allocator, FramesLf.init maxOrder mode setup.dram = .ok allocator →
      ∀ events s, Along FramesLf.step FramesLf.Proper ⟨allocator, fun _ ↦ false, []⟩ events →
        events.foldlM FramesLf.step ⟨allocator, fun _ ↦ false, []⟩ = .ok s →
        ∀ frames ∈ s.returned, ∀ n, FramesLf.InRange frames n →
          ¬ FramesLf.InRange setup.heapRegion n := by
  obtain ⟨hleast, hstop, hmerged, hsub⟩ := start_facts h hranges hregions
  have hbytes : setup.heapRegion.bytes =
      Set.Ico setup.heapRegion.start.startAddress.asU64
        (setup.heapRegion.start.startAddress.asU64 + heapSize) := by
    rw [PhysFrameRange.bytes, hstop]
  constructor
  · rw [hbytes]
    constructor
    · intro hdisjoint a ha
      rw [ha.unique hleast]
      exact hdisjoint
    · exact fun hall ↦ hall _ hleast
  · intro maxOrder allocator hinit events s hproper hrun
    have hreserved : ∀ n, FramesLf.InRange setup.heapRegion n → allocator.free n ≠ true := by
      intro n hn hfree
      -- The page of the frame lies in one of the reserved regions.
      have hpage : ∀ x, n * pageSize ≤ x → x < n * pageSize + pageSize →
          x ∈ points setup.dram.reservedRegions := by
        intro x hle hlt
        refine hsub ⟨(Nat.mul_le_mul_right pageSize hn.1).trans hle, hlt.trans_le ?_⟩
        rw [← Nat.succ_mul]
        exact Nat.mul_le_mul_right pageSize hn.2
      obtain ⟨r, hr, hle, hend⟩ := hmerged.exists_covers (by decide) hpage
      rw [← Nat.succ_mul] at hend
      exact ((FramesLf.reserveAll_free hinit n).mp hfree).2 r hr ⟨hle, hend⟩
    exact ((FramesLf.avoids_of_not_free hreserved).run hproper hrun).returned

/-- The placement of `os/kernel/link.ld`, with the AP boot code at 8 KiB and the kernel image at
25 MiB; the initrd and the multiboot information are in low memory. -/
def Sample.placement : Placement where
  kernelImage := ⟨0x1900000, 0x1a00000, by decide⟩
  apBootCode := ⟨0x2000, 0x3000, by decide⟩
  initrd := ⟨0x20000, 0x21000, by decide⟩
  multiboot := ⟨0x30000, 0x31000, by decide⟩

/-- The memory of a virtual machine with OVMF, as `os/kernel/link.ld` describes it. -/
def Sample.ovmf : MemoryMap :=
  .efi [⟨.conventional, 0, 0, 0xa0⟩, ⟨.conventional, 0x100000, 0, 0x700⟩,
    ⟨.other, 0x800000, 0, 0x100⟩, ⟨.bootServicesData, 0x900000, 0, 0xf00⟩,
    ⟨.conventional, 0x1800000, 0, 0x4000⟩]

/-- A memory map with a hole for ISA cards between 15 MiB and 16 MiB. -/
def Sample.isaHole : MemoryMap :=
  .multiboot2 [⟨.available, 0, 0x9fc00⟩, ⟨.available, 0x100000, 0xf00000⟩,
    ⟨.available, 0x1000000, 0x8000000⟩]

/-- With OVMF the heap is taken from 9 MiB on and ends where the kernel image starts. -/
theorem heap_disjoint_iff_sample :
    ∃ setup ranges regions, start .panics Sample.ovmf Sample.placement = .ok setup ∧
      Sample.ovmf.ranges = .ok ranges ∧ Sample.placement.regions = .ok regions ∧
      ∀ a, IsLeast {a | HeapCandidate ranges heapSize a} a →
        ∀ region ∈ regions, Disjoint (Set.Ico a (a + heapSize)) region.bytes := by
  obtain ⟨setup, hsetup, ranges, hranges, regions, hregions, hall⟩ :
      ∃ setup, start .panics Sample.ovmf Sample.placement = .ok setup ∧
        ∃ ranges, Sample.ovmf.ranges = .ok ranges ∧
        ∃ regions, Sample.placement.regions = .ok regions ∧ ∀ region ∈ regions,
          setup.heapRegion.stop.number ≤ region.start.number ∨
            region.stop.number ≤ setup.heapRegion.start.number := by
    decide +kernel
  refine ⟨setup, ranges, regions, hsetup, hranges, hregions, ?_⟩
  refine (heap_disjoint_iff hsetup hranges hregions).1.mp ?_
  intro region hregion
  have happart := hall region hregion
  rw [Set.disjoint_left]
  rintro x ⟨hle, hlt⟩ ⟨hle', hlt'⟩
  simp only [PhysFrame.startAddress, pageSize] at hle hlt hle' hlt'
  omega

/-- An area of less than a page without overflow checks: the heap is taken at the page behind
it, where no memory is available. -/
example : (do
    let setup ← start .wraps (.multiboot2 [⟨.available, 0x5100, 0x5200⟩,
      ⟨.available, 0x100000, 0x4000000⟩]) Sample.placement
    .ok setup.heapRegion.start.number : Except Panic Nat) = .ok 6 := by
  decide +kernel

/-- The memory below the hole is too small for the heap: it is taken from 16 MiB on and overlaps
the kernel image. -/
theorem heap_overlaps_kernel_image :
    ∃ setup image, start .panics Sample.isaHole Sample.placement = .ok setup ∧
      kernelImageRegion Sample.placement.kernelImage = .ok image ∧
      FramesLf.InRange setup.heapRegion 0x1900 ∧ FramesLf.InRange image 0x1900 := by
  simp only [exists_and_left, FramesLf.InRange]
  decide +kernel

end Boot

end D3OS.Memory

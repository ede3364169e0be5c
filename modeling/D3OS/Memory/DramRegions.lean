import D3OS.Lib.Spans
import D3OS.Memory.Dram

/-!
# What the boot code collects

The sets of regions over all sequences of insertions: sorted and merged, with the points of
the inserted regions. `finalize` leaves the available points that are not reserved and
reports the complement below the limit as reserved.
-/

namespace D3OS.Memory

open Lib

variable {cur' limit : Nat} {gap : List Region}

namespace Dram

/-- The addresses in the regions of a list. -/
def points (l : List Region) : Set Nat := spans Region.lo Region.hi l

/-- Without regions there are no points. -/
@[simp] theorem points_nil : points [] = ∅ := spans_nil

variable {r : Region} {l : List Region} {x : Nat}

/-- The points of one more region. -/
@[simp] theorem mem_points_cons : x ∈ points (r :: l) ↔ (r.lo ≤ x ∧ x < r.hi) ∨ x ∈ points l :=
  mem_spans_cons

/-- The points of two lists. -/
@[simp] theorem mem_points_append {l' : List Region} :
    x ∈ points (l ++ l') ↔ x ∈ points l ∨ x ∈ points l' :=
  mem_spans_append

/-- A sorted list of regions no two of which overlap or touch. -/
def Merged (l : List Region) : Prop := l.Pairwise fun a b ↦ a.lo ≤ b.lo ∧ a.hi < b.lo

/-- What merging keeps of a list. -/
structure Merges (input output : List Region) : Prop where
  merged : Merged output
  points_eq : points output = points input
  length_le : output.length ≤ input.length
  keeps : ∀ P : Region → Prop,
    (∀ a b j : Region, P a → P b → b.lo ≤ a.hi → j.lo = a.lo → j.hi = max a.hi b.hi → P j) →
    (∀ r ∈ input, P r) → ∀ r ∈ output, P r

/-- What `current` becomes when the next region is merged into it. -/
theorem exists_joined (current next : Region) : ∃ joined, joined = (if current.stop.asU64 <
    next.stop.asU64 then { current with stop := next.stop } else current) ∧
    joined.lo = current.lo ∧ joined.hi = max current.hi next.hi := by
  refine ⟨_, rfl, ?_, ?_⟩
  · split <;> rfl
  · split
    next h => exact (max_eq_right h.le).symm
    next h => exact (max_eq_left (not_lt.mp h)).symm

/-- Joining two neighbours keeps the order. -/
theorem sorted_joined {current next joined : Region} {rest : List Region}
    (h : (current :: next :: rest).Pairwise fun a b ↦ a.lo ≤ b.lo) (hlo : joined.lo = current.lo) :
    (joined :: rest).Pairwise fun a b ↦ a.lo ≤ b.lo := by
  have hsorted := h.sublist ((List.sublist_cons_self next rest).cons_cons current)
  rw [List.pairwise_cons, ← hlo] at hsorted
  exact List.pairwise_cons.mpr hsorted

private theorem mergeRegions_merges (current : Region) (rest : List Region)
    (hsorted : (current :: rest).Pairwise fun a b ↦ a.lo ≤ b.lo) :
    Merges (current :: rest) (mergeRegions current rest) := by
  induction rest generalizing current with
  | nil => exact ⟨List.pairwise_singleton _ _, rfl, le_rfl, fun _ _ h ↦ h⟩
  | cons next rest ih =>
    obtain ⟨hcurrent, hrest⟩ := List.pairwise_cons.mp hsorted
    have hle : current.lo ≤ next.lo := hcurrent next List.mem_cons_self
    unfold mergeRegions
    split
    next htouch =>
      -- The merged region starts where `current` does and has the points of both.
      obtain ⟨joined, hjoined, hlo, hhi⟩ := exists_joined current next
      rw [← hjoined]
      have hm := ih joined (sorted_joined hsorted hlo)
      have htouch : next.lo ≤ current.hi := htouch
      refine ⟨hm.merged, ?_, hm.length_le.trans (by simp), ?_⟩
      · rw [hm.points_eq]
        ext x
        simp only [mem_points_cons, hlo, hhi]
        rw [← or_assoc]
        apply or_congr_left
        omega
      · intro P hP h
        obtain ⟨hfirst, hsecond, h⟩ : P current ∧ P next ∧ ∀ r ∈ rest, P r := by simpa using h
        exact hm.keeps P hP
          (List.forall_mem_cons.mpr ⟨hP _ _ _ hfirst hsecond htouch hlo hhi, h⟩)
    next hapart =>
      have hm := ih next hrest
      have hapart : current.hi < next.lo := not_le.mp hapart
      have hbehind := hm.keeps (fun r ↦ next.lo ≤ r.lo) (by intros; omega)
        (List.forall_mem_cons.mpr ⟨le_rfl, (List.pairwise_cons.mp hrest).1⟩)
      refine ⟨?_, ?_, Nat.succ_le_succ hm.length_le, fun P hP h ↦ ?_⟩
      · refine List.pairwise_cons.mpr ⟨fun r hr ↦ ?_, hm.merged⟩
        exact ⟨hle.trans (hbehind r hr), hapart.trans_le (hbehind r hr)⟩
      · ext x
        simp only [mem_points_cons, hm.points_eq]
      · obtain ⟨hfirst, h⟩ := List.forall_mem_cons.mp h
        exact List.forall_mem_cons.mpr ⟨hfirst, hm.keeps P hP h⟩

/-- Insertion keeps the order. -/
theorem orderedInsert_sorted {set : List Region} (hset : Merged set) (new : Region) :
    (set.orderedInsert (fun a b ↦ a.start.asU64 ≤ b.start.asU64) new).Pairwise
      fun a b ↦ a.lo ≤ b.lo := by
  exact List.Pairwise.orderedInsert _ _ (hset.imp And.left)

/-- An insertion fails only when the set is full. -/
theorem insertRegion_yields {set : List Region} (hset : Merged set)
    (newRegion : PhysFrameRange) :
    Yields (insertRegion set newRegion)
      (fun set' ↦ Merges (.ofFrames newRegion :: set) set') (fun _ ↦ set.length = maxRegions) := by
  unfold insertRegion
  split
  next hfull => exact hfull
  next =>
    have hperm := List.perm_orderedInsert
      (fun a b : Region ↦ a.start.asU64 ≤ b.start.asU64) (.ofFrames newRegion) set
    have hsorted := orderedInsert_sorted hset (.ofFrames newRegion)
    split
    next hnil =>
      rw [hnil] at hperm
      exact absurd hperm.symm (by simp)
    next first rest hcons =>
      rw [hcons] at hperm hsorted
      have hm := mergeRegions_merges first rest hsorted
      have hmem := fun r ↦ hperm.mem_iff (a := r)
      exact ⟨hm.merged, hm.points_eq.trans (spans_congr hmem), hm.length_le.trans
        hperm.length_eq.le, fun P hP h ↦ hm.keeps P hP fun r hr ↦ h r ((hmem r).mp hr)⟩

/-- The reserved region starts behind `cur` and inside the available region. -/
private def inside (cur stop : Nat) (r : Region) : Bool := decide (cur < r.lo ∧ r.lo < stop)

/-- What the loop over the reserved regions returns for an available region that it has
processed up to `cur`: the pieces in front of the new `cur`. -/
private structure Cuts (stop : Nat) (reserved : List Region) (cur : Nat) (pieces : List Region)
    (cur' : Nat) : Prop where
  ascending : Ascending Region.lo Region.hi pieces
  within : ∀ p ∈ pieces, cur ≤ p.lo ∧ p.hi ≤ cur'
  le : cur ≤ cur' ∧ cur' ≤ stop
  points_iff : ∀ x, (x ∈ points pieces ∨ (cur' ≤ x ∧ x < stop)) ↔
    cur ≤ x ∧ x < stop ∧ x ∉ points reserved
  length_le : pieces.length ≤ reserved.countP (inside cur stop)

/-- The gap between two addresses. -/
private structure Gap (cur stop : Nat) (gap : List Region) : Prop where
  ascending : Ascending Region.lo Region.hi gap
  merged : Merged gap
  within : ∀ p ∈ gap, cur ≤ p.lo ∧ p.hi ≤ stop
  points_iff : ∀ x, x ∈ points gap ↔ cur ≤ x ∧ x < stop
  length_le : gap.length ≤ if cur < stop then 1 else 0

variable {cur : Nat}

private theorem gap_nil {stop : Nat} (h : stop ≤ cur) : Gap cur stop [] where
  ascending := .nil
  merged := .nil
  within := nofun
  points_iff x := by
    simp only [points_nil, Set.mem_empty_iff_false, false_iff]
    omega
  length_le := Nat.zero_le _

private theorem gap_single {cur stop : PhysAddr} (h : cur.asU64 < stop.asU64) :
    Gap cur.asU64 stop.asU64 [⟨cur, stop⟩] where
  ascending := .singleton h
  merged := List.pairwise_singleton _ _
  within p hp := by
    rw [List.mem_singleton.mp hp]
    exact ⟨le_rfl, le_rfl⟩
  points_iff x := by
    simp [Region.lo, Region.hi]
  length_le := by rw [if_pos h, List.length_singleton]

variable {rest : List Region}

private theorem lt_of_mem_points_tail (h : Merged (r :: rest)) (hx : x ∈ points rest) :
    r.hi < x ∧ r.lo ≤ x := by
  obtain ⟨i, hi, hle, -⟩ := hx
  have hr := (List.pairwise_cons.mp h).1 i hi
  omega

private theorem Cuts.nil {stop : Nat} (hle : cur ≤ stop)
    (h : ∀ x ∈ points l, cur ≤ x → stop ≤ x) : Cuts stop l cur [] cur where
  ascending := .nil
  within := nofun
  le := ⟨le_rfl, hle⟩
  points_iff x := by
    simp only [points_nil, Set.mem_empty_iff_false, false_or]
    refine ⟨fun hx ↦ ⟨hx.1, hx.2, fun hmem ↦ ?_⟩, fun hx ↦ ⟨hx.1, hx.2.1⟩⟩
    exact absurd (h x hmem hx.1) (not_le.mpr hx.2)
  length_le := Nat.zero_le _

private theorem countP_inside_mono (cur cur' stop : Nat) (h : cur ≤ cur') (l : List Region) :
    l.countP (inside cur' stop) ≤ l.countP (inside cur stop) := by
  apply List.countP_mono_left
  intro r _ hr
  simp only [inside, decide_eq_true_eq] at hr ⊢
  omega

variable {pieces : List Region}

private theorem Gap.points_append_iff {stop next : Nat} (hgap : Gap cur r.lo gap)
    (hin : r.lo < stop)
    (htail : x ∈ points rest → r.hi ≤ x ∧ r.lo ≤ x)
    (hnext : next = if cur < r.hi then min stop r.hi else cur)
    (h : (x ∈ points pieces ∨ (cur' ≤ x ∧ x < stop)) ↔ next ≤ x ∧ x < stop ∧ x ∉ points rest) :
    (x ∈ points (gap ++ pieces) ∨ (cur' ≤ x ∧ x < stop)) ↔
      cur ≤ x ∧ x < stop ∧ x ∉ points (r :: rest) := by
  rw [mem_points_append, or_assoc, h, hgap.points_iff, mem_points_cons]
  by_cases hx : x ∈ points rest
  · have := htail hx
    simp only [hx, or_true, not_true_eq_false, and_false, or_false, iff_false]
    omega
  · simp only [hx, or_false, not_false_eq_true, and_true]
    split at hnext <;> omega

private theorem Cuts.cons {stop next : Nat} (hm : Merged (r :: rest)) (hr : r.lo ≤ r.hi)
    (hin : r.lo < stop) (hgap : Gap cur r.lo gap)
    (hnext : next = if cur < r.hi then min stop r.hi else cur) (hle : cur ≤ stop)
    (h : Cuts stop rest next pieces cur') : Cuts stop (r :: rest) cur (gap ++ pieces) cur' where
  ascending := by
    refine hgap.ascending.append h.ascending (b := next) ?_ fun p hp ↦ (h.within p hp).1
    intro p hp
    have hp := hgap.within p hp
    split at hnext <;> omega
  within p hp := by
    have hle := h.le
    rcases List.mem_append.mp hp with hp | hp
    · have hp := hgap.within p hp
      split at hnext <;> omega
    · have hp := h.within p hp
      split at hnext <;> omega
  le := by
    have hle := h.le
    split at hnext <;> omega
  points_iff x := by
    refine hgap.points_append_iff hin (fun hx ↦ ?_) hnext (h.points_iff x)
    exact (lt_of_mem_points_tail hm hx).imp_left Nat.le_of_lt
  length_le := by
    have hlen := h.length_le
    have hmono := countP_inside_mono cur next stop (by split at hnext <;> omega) rest
    have hfirst := hgap.length_le
    rw [List.length_append, List.countP_cons]
    split at hfirst
    next h =>
      rw [if_pos (by simp [inside, h, hin])]
      omega
    next => omega

variable {f : Region}

private theorem pushGap_yields (cur : PhysAddr) (result : List Region) (hin : r.lo < f.hi) :
    Yields (pushGap f r cur result) (fun out ↦ ∃ gap, out = result ++ gap ∧ Gap cur.asU64 r.lo gap)
      (fun _ ↦ maxRegions ≤ result.length ∧ cur.asU64 < r.lo) := by
  unfold pushGap
  split
  next hgap =>
    rw [if_pos (show r.start.asU64 < f.stop.asU64 from hin), pushRegion, if_neg (not_le.mpr hgap)]
    split
    next hfull => exact ⟨hfull, hgap⟩
    next => exact ⟨_, rfl, gap_single hgap⟩
  next hgap => exact ⟨[], (List.append_nil _).symm, gap_nil (not_lt.mp hgap)⟩

private theorem subtractReserved_yields (f : Region) (reserved : List Region)
    (hm : Merged reserved) (hordered : ∀ r ∈ reserved, r.lo ≤ r.hi) (cur : PhysAddr)
    (hcur : cur.asU64 ≤ f.hi) (result : List Region) :
    Yields (subtractReserved f reserved cur result)
      (fun out ↦ ∃ pieces, out.2 = result ++ pieces ∧
        Cuts f.hi reserved cur.asU64 pieces out.1.asU64)
      (fun _ ↦ maxRegions < result.length + reserved.countP (inside cur.asU64 f.hi)) := by
  induction reserved generalizing cur result with
  | nil => exact ⟨[], (List.append_nil _).symm, .nil hcur nofun⟩
  | cons r rest ih =>
    have hr := hordered r List.mem_cons_self
    unfold subtractReserved
    split
    next hout =>
      refine ⟨[], (List.append_nil _).symm, .nil hcur fun x hx _ ↦ hout.trans ?_⟩
      rcases mem_points_cons.mp hx with hx | hx
      · exact hx.1
      · exact (lt_of_mem_points_tail hm hx).2
    next hin =>
      have hin : r.lo < f.hi := not_le.mp hin
      have hcount : (r :: rest).countP (inside cur.asU64 f.hi) =
          rest.countP (inside cur.asU64 f.hi) + if cur.asU64 < r.lo then 1 else 0 := by
        simp [List.countP_cons, inside, hin]
      refine ((pushGap_yields cur result hin).mono (fun _ h ↦ h) ?_).bind ?_
      · rintro _ ⟨hfull, hgap⟩
        rw [hcount, if_pos hgap]
        omega
      · rintro _ ⟨gap, rfl, hgap⟩
        obtain ⟨next, hnext, hnum⟩ : ∃ next : PhysAddr, next = (if cur.asU64 < r.stop.asU64 then
            if f.stop.asU64 < r.stop.asU64 then f.stop else r.stop else cur) ∧
            next.asU64 = if cur.asU64 < r.hi then min f.hi r.hi else cur.asU64 := by
          refine ⟨_, rfl, ?_⟩
          show _ = if cur.asU64 < r.stop.asU64 then min f.stop.asU64 r.stop.asU64 else cur.asU64
          split
          next =>
            split <;> omega
          next => rfl
        rw [← hnext]
        dsimp only
        split
        next hend =>
          have hnil : Cuts f.hi rest next.asU64 [] next.asU64 :=
            .nil (by split at hnum <;> omega) fun _ _ hx ↦ hend.trans hx
          exact ⟨gap ++ [], by rw [List.append_nil], hnil.cons hm hr hin hgap hnum hcur⟩
        next hend =>
          have hlt : next.asU64 < f.hi := not_le.mp hend
          refine (ih (List.pairwise_cons.mp hm).2
            (fun r hr ↦ hordered r (List.mem_cons_of_mem _ hr)) next hlt.le (result ++ gap)).mono
            ?_ ?_
          · rintro out ⟨pieces, hout, hcuts⟩
            exact ⟨gap ++ pieces, by rw [hout, List.append_assoc],
              hcuts.cons hm hr hin hgap hnum hcur⟩
          · intro _ hover
            have hmono := countP_inside_mono cur.asU64 next.asU64 f.hi
              (by split at hnum <;> omega) rest
            have hlen := hgap.length_le
            rw [List.length_append] at hover
            omega

/-- The pieces that are left of the regions of a list. -/
private structure Leaves (reserved : List Region) (S : Set Nat) (lo hi : Nat)
    (pieces : List Region) : Prop where
  ascending : Ascending Region.lo Region.hi pieces
  within : ∀ p ∈ pieces, lo ≤ p.lo ∧ p.hi ≤ hi
  points_eq : points pieces = S \ points reserved

variable {reserved : List Region}

private theorem Cuts.leaves {tail : List Region} (h : Cuts f.hi reserved f.lo pieces cur)
    (htail : Gap cur f.hi tail) : Leaves reserved (points [f]) f.lo f.hi (pieces ++ tail) where
  ascending := h.ascending.append htail.ascending (b := cur) (fun p hp ↦ (h.within p hp).2)
    fun p hp ↦ (htail.within p hp).1
  within p hp := by
    have hle := h.le
    rcases List.mem_append.mp hp with hp | hp
    · have hp := h.within p hp
      omega
    · have hp := htail.within p hp
      omega
  points_eq := by
    ext x
    rw [mem_points_append, htail.points_iff, h.points_iff]
    simp [and_assoc]

private theorem Cuts.pushTail_yields {cur : PhysAddr} (h : Cuts f.hi reserved f.lo pieces cur.asU64)
    (result : List Region) :
    Yields (pushTail f cur (result ++ pieces))
      (fun out ↦ ∃ pieces, out = result ++ pieces ∧
        Leaves reserved (points [f]) f.lo f.hi pieces ∧
        pieces.length ≤ reserved.countP (inside f.lo f.hi) + 1)
      (fun _ ↦ maxRegions < result.length + reserved.countP (inside f.lo f.hi) + 1) := by
  have hlen := h.length_le
  unfold pushTail
  split
  next htail =>
    rw [pushRegion, if_neg (not_le.mpr htail)]
    split
    next hfull =>
      rw [List.length_append] at hfull
      show maxRegions < _
      omega
    next =>
      have hgap : Gap cur.asU64 f.hi [⟨cur, f.stop⟩] := gap_single htail
      refine ⟨_, List.append_assoc _ _ _, h.leaves hgap, ?_⟩
      rw [List.length_append]
      exact Nat.succ_le_succ hlen
  next htail =>
    have hleaves := h.leaves (gap_nil (not_lt.mp htail))
    rw [List.append_nil] at hleaves
    exact ⟨pieces, rfl, hleaves, Nat.le_succ_of_le hlen⟩

variable {b : Nat}

private theorem mem_points_dropWhile (hx : b ≤ x) :
    x ∈ points (reserved.dropWhile fun r ↦ r.stop.asU64 ≤ b) ↔ x ∈ points reserved := by
  have hsplit := List.takeWhile_append_dropWhile
    (p := fun r : Region ↦ decide (r.stop.asU64 ≤ b)) (l := reserved)
  nth_rewrite 2 [← hsplit]
  rw [mem_points_append, or_iff_right]
  rintro ⟨r, hr, -, hlt⟩
  have hle := of_decide_eq_true (List.all_eq_true.mp List.all_takeWhile r hr)
  exact absurd (hlt.trans_le hle) (by omega)

private theorem Leaves.append {dropped first : List Region} {c : Nat}
    (h : Leaves dropped (points [f]) f.lo f.hi first)
    (h' : Leaves dropped (points rest) f.hi c pieces)
    (hdropped : ∀ x, f.lo ≤ x → (x ∈ points dropped ↔ x ∈ points reserved))
    (hf : ∀ g ∈ rest, f.lo ≤ g.lo ∧ f.hi < g.lo) (hb : b ≤ f.lo) (hc : f.hi ≤ c) (hlt : f.lo < f.hi)
    : Leaves reserved (points (f :: rest)) b c (first ++ pieces) where
  ascending := h.ascending.append h'.ascending (b := f.hi) (fun p hp ↦ (h.within p hp).2)
    fun p hp ↦ (h'.within p hp).1
  within p hp := by
    rcases List.mem_append.mp hp with hp | hp
    · have hp := h.within p hp
      omega
    · have hp := h'.within p hp
      omega
  points_eq := by
    ext x
    rw [mem_points_append, h.points_eq, h'.points_eq]
    have hge : x ∈ points (f :: rest) → f.lo ≤ x := by
      rw [mem_points_cons]
      rintro (hx | hx)
      · exact hx.1
      · exact le_of_mem_spans (fun g hg ↦ (hf g hg).1) hx
    simp only [Set.mem_sdiff, mem_points_cons, points_nil, Set.mem_empty_iff_false, or_false,
      ← or_and_right]
    rw [mem_points_cons] at hge
    exact and_congr_right fun hx ↦ not_congr (hdropped x (hge hx))

private theorem countP_inside_add_le (hf : f.lo < f.hi) (hb : b ≤ f.lo) (l : List Region) :
    l.countP (inside f.lo f.hi) + l.countP (fun r ↦ f.hi ≤ r.lo) ≤ l.countP (fun r ↦ b ≤ r.lo) := by
  induction l with
  | nil => exact le_rfl
  | cons r l ih =>
    simp only [List.countP_cons, inside, decide_eq_true_eq]
    split_ifs <;> omega

private theorem subtractAll_yields (available : List Region) (ha : Merged available)
    (hm : Merged reserved) (hordered : ∀ r ∈ reserved, r.lo ≤ r.hi) (result : List Region)
    (hb : ∀ f ∈ available, b ≤ f.lo) {c : Nat} (hc : ∀ f ∈ available, f.hi ≤ c) :
    Yields (subtractAll available reserved result)
      (fun out ↦ ∃ pieces, out = result ++ pieces ∧
        Leaves reserved (points available) b c pieces ∧
        pieces.length ≤ available.length + reserved.countP (fun r ↦ b ≤ r.lo))
      (fun _ ↦ maxRegions <
        result.length + available.length + reserved.countP (fun r ↦ b ≤ r.lo)) := by
  induction available generalizing reserved result b with
  | nil =>
    refine ⟨[], (List.append_nil _).symm, ⟨.nil, nofun, ?_⟩, Nat.zero_le _⟩
    simp
  | cons f rest ih =>
    obtain ⟨hf, hrest⟩ := List.pairwise_cons.mp ha
    have hc' : ∀ g ∈ rest, g.hi ≤ c := fun g hg ↦ hc g (List.mem_cons_of_mem _ hg)
    unfold subtractAll
    split
    next hempty =>
      have hempty : f.hi ≤ f.lo := hempty
      have hpoints : points (f :: rest) = points rest := by
        ext x
        rw [mem_points_cons, or_iff_right]
        omega
      rw [hpoints]
      refine (ih hrest hm hordered result (fun g hg ↦ hb g (List.mem_cons_of_mem _ hg)) hc').mono
        ?_ ?_
      · rintro out ⟨pieces, hout, hleaves, hlen⟩
        refine ⟨pieces, hout, hleaves, ?_⟩
        rw [List.length_cons]
        omega
      · intro _ hover
        rw [List.length_cons]
        omega
    next hlt =>
      have hlt : f.lo < f.hi := not_le.mp hlt
      let dropped := reserved.dropWhile fun r ↦ r.stop.asU64 ≤ f.start.asU64
      have hsub : dropped.Sublist reserved := List.dropWhile_sublist _
      have hdropped : Merged dropped := hm.sublist hsub
      have hordered' : ∀ r ∈ dropped, r.lo ≤ r.hi := fun r hr ↦ hordered r (hsub.subset hr)
      have hbf := hb f List.mem_cons_self
      have hcount := (countP_inside_add_le hlt hbf dropped).trans hsub.countP_le
      refine ((subtractReserved_yields f dropped hdropped hordered' f.start hlt.le result).mono
        (fun _ h ↦ h) ?_).bind ?_
      · intro _ hover
        have hover : maxRegions < result.length + dropped.countP (inside f.lo f.hi) := hover
        omega
      rintro ⟨cur, result'⟩ ⟨pieces, rfl, hcuts⟩
      refine ((hcuts.pushTail_yields result).mono (fun _ h ↦ h) ?_).bind ?_
      · intro _ hover
        rw [List.length_cons]
        omega
      rintro _ ⟨first, rfl, hfirst, hlen⟩
      refine (ih hrest hdropped hordered' (result ++ first) (b := f.hi)
        (fun g hg ↦ (hf g hg).2.le) hc').mono ?_ ?_
      · rintro out ⟨pieces, hout, hleaves, hlen'⟩
        refine ⟨first ++ pieces, by rw [hout, List.append_assoc], ?_, ?_⟩
        · exact hfirst.append hleaves (fun x hx ↦ mem_points_dropWhile hx) hf hbf
            (hc f List.mem_cons_self) hlt
        · rw [List.length_append, List.length_cons]
          omega
      · intro _ hover
        rw [List.length_append] at hover
        rw [List.length_cons]
        omega

/-- Consecutive points of a merged list lie in one region. -/
theorem Merged.exists_covers (h : Merged l) {n : Nat} (hn : 0 < n)
    (hall : ∀ x, b ≤ x → x < b + n → x ∈ points l) : ∃ r ∈ l, r.lo ≤ b ∧ b + n ≤ r.hi := by
  obtain ⟨r, hr, hle, hlt⟩ := hall b le_rfl (by omega)
  refine ⟨r, hr, hle, ?_⟩
  by_contra hover
  -- The address behind the region is a point too, of a region that touches it.
  obtain ⟨r', hr', hle', hlt'⟩ := hall r.hi (by omega) (by omega)
  have : Std.Symm fun a b : Region ↦ a.hi < b.lo ∨ b.hi < a.lo := ⟨fun _ _ ↦ Or.symm⟩
  have hrel : l.Pairwise fun a b ↦ a.hi < b.lo ∨ b.hi < a.lo := h.imp fun hab ↦ .inl hab.2
  have hne : r ≠ r' := by
    rintro rfl
    omega
  rcases hrel.forall hr hr' hne with hapart | hapart <;> omega

/-- The regions with points. -/
def occupied (l : List Region) : List Region := l.filter fun r ↦ r.lo < r.hi

/-- The regions that are not empty. -/
theorem mem_occupied : r ∈ occupied l ↔ r ∈ l ∧ r.lo < r.hi := by
  simp [occupied]

@[simp] private theorem points_occupied (l : List Region) : points (occupied l) = points l := by
  ext x
  simp only [points, mem_spans, mem_occupied]
  constructor
  · rintro ⟨r, ⟨hr, -⟩, hx⟩
    exact ⟨r, hr, hx⟩
  · rintro ⟨r, hr, hx⟩
    exact ⟨r, ⟨hr, hx.1.trans_lt hx.2⟩, hx⟩

private theorem subtractAll_occupied (available reserved result : List Region) :
    subtractAll available reserved result = subtractAll (occupied available) reserved result := by
  induction available generalizing reserved result with
  | nil => rfl
  | cons f rest ih =>
    by_cases hf : f.stop.asU64 ≤ f.start.asU64
    · have hdrop : occupied (f :: rest) = occupied rest :=
        List.filter_cons_of_neg fun h ↦ absurd (of_decide_eq_true h) (not_lt.mpr hf)
      rw [hdrop, subtractAll, if_pos hf, ih]
    · have hkeep : occupied (f :: rest) = f :: occupied rest :=
        List.filter_cons_of_pos (decide_eq_true (not_le.mp hf))
      rw [hkeep, subtractAll, subtractAll, if_neg hf, if_neg hf]
      simp only [ih]

/-- The gaps between the available regions from `cur` on. -/
private structure Gaps (limit cur : Nat) (available gaps : List Region) (cur' : Nat) : Prop where
  le : cur ≤ cur' ∧ cur' ≤ limit
  merged : Merged gaps
  within : ∀ g ∈ gaps, cur ≤ g.lo ∧ g.lo < g.hi ∧ g.hi < cur'
  points_iff : ∀ x, (x ∈ points gaps ∨ (cur' ≤ x ∧ x < limit)) ↔
    cur ≤ x ∧ x < limit ∧ x ∉ points available
  length_le : gaps.length ≤ available.length

private theorem debugAssert_yields (mode : Overflow) {condition : Bool} (h : condition = true)
    {E : Panic → Prop} : Yields (debugAssert mode condition) (fun _ ↦ True) E := by
  rw [debugAssert, h, if_neg (by simp)]
  trivial

private theorem pushReserved_yields (cur : PhysAddr) (r : Region) (reserved : List Region) :
    Yields (pushReserved cur r reserved)
      (fun out ↦ ∃ gap, out = reserved ++ gap ∧ Gap cur.asU64 r.lo gap)
      (fun _ ↦ maxRegions ≤ reserved.length) := by
  unfold pushReserved
  split
  next hgap =>
    split
    next hfull => exact hfull
    next => exact ⟨_, rfl, gap_single hgap⟩
  next hgap => exact ⟨[], (List.append_nil _).symm, gap_nil (not_lt.mp hgap)⟩

private theorem Gaps.cons {gaps : List Region} (hr : r.lo < r.hi) (hcur : cur ≤ r.lo)
    (hrl : r.hi ≤ limit) (hafter : ∀ a ∈ rest, r.hi ≤ a.lo) (hgap : Gap cur r.lo gap)
    (h : Gaps limit r.hi rest gaps cur') : Gaps limit cur (r :: rest) (gap ++ gaps) cur' where
  le := ⟨(hcur.trans hr.le).trans h.le.1, h.le.2⟩
  merged := by
    refine List.pairwise_append.mpr ⟨hgap.merged, h.merged, ?_⟩
    intro g hg g' hg'
    have hne := hgap.ascending.nonempty g hg
    have hg := hgap.within g hg
    have hg' := h.within g' hg'
    omega
  within g hg := by
    have hle := h.le
    rcases List.mem_append.mp hg with hg | hg
    · have hne := hgap.ascending.nonempty g hg
      have hg := hgap.within g hg
      omega
    · have hg := h.within g hg
      omega
  points_iff x := by
    have htail : x ∈ points rest → r.hi ≤ x := le_of_mem_spans hafter
    refine hgap.points_append_iff (hr.trans_le hrl) (fun hx ↦ ?_) ?_ (h.points_iff x)
    · exact ⟨htail hx, hr.le.trans (htail hx)⟩
    · rw [if_pos (hcur.trans_lt hr), min_eq_right hrl]
  length_le := by
    have hlen := hgap.length_le
    have hlen' := h.length_le
    rw [List.length_append, List.length_cons]
    split at hlen <;> omega

private theorem collectGaps_yields (mode : Overflow) (available : List Region)
    (ha : Ascending Region.lo Region.hi available) (hlimit : ∀ r ∈ available, r.hi ≤ limit)
    (cur : PhysAddr) (hcur : cur.asU64 ≤ limit) (hge : ∀ r ∈ available, cur.asU64 ≤ r.lo)
    (reserved : List Region) :
    Yields (collectGaps mode limit available cur reserved)
      (fun out ↦ ∃ gaps, out.2 = reserved ++ gaps ∧
        Gaps limit cur.asU64 available gaps out.1.asU64)
      (fun _ ↦ maxRegions < reserved.length + available.length) := by
  induction available generalizing cur reserved with
  | nil =>
    refine ⟨[], (List.append_nil _).symm, ⟨le_rfl, hcur⟩, .nil, nofun, ?_, le_rfl⟩
    simp
  | cons r rest ih =>
    obtain ⟨hafter, hsorted⟩ := List.pairwise_cons.mp ha.sorted
    have hr := ha.nonempty r List.mem_cons_self
    have hrl := hlimit r List.mem_cons_self
    have hcr := hge r List.mem_cons_self
    have hnext : (if cur.asU64 < r.stop.asU64 then r.stop else cur) = r.stop :=
      if_pos (hcr.trans_lt hr)
    refine (debugAssert_yields mode (decide_eq_true hr.le)).bind fun _ _ ↦ ?_
    refine (debugAssert_yields mode (decide_eq_true hrl)).bind fun _ _ ↦ ?_
    refine ((pushReserved_yields cur r reserved).mono (fun _ h ↦ h) ?_).bind ?_
    · intro _ hfull
      rw [List.length_cons]
      omega
    rintro _ ⟨gap, rfl, hgap⟩
    rw [hnext]
    refine (ih ⟨fun a ha' ↦ ha.nonempty a (List.mem_cons_of_mem _ ha'), hsorted⟩
      (fun a ha ↦ hlimit a (List.mem_cons_of_mem _ ha)) r.stop hrl hafter (reserved ++ gap)).mono
      ?_ ?_
    · rintro out ⟨gaps, hout, hgaps⟩
      exact ⟨gap ++ gaps, by rw [hout, List.append_assoc], hgaps.cons hr hcr hrl hafter hgap⟩
    · intro _ hover
      have hlen := hgap.length_le
      rw [List.length_append] at hover
      rw [List.length_cons]
      split at hlen <;> omega

/-- A call of `insert_available` or `insert_reserved`. -/
inductive Insertion where
  | available (region : PhysFrameRange)
  | reserved (region : PhysFrameRange)

/-- The range of an insertion. -/
def Insertion.region : Insertion → PhysFrameRange
  | .available region => region
  | .reserved region => region

/-- One insertion. -/
def insert (d : Dram) : Insertion → Except Panic Dram
  | .available region => d.insertAvailable region
  | .reserved region => d.insertReserved region

/-- All insertions on the initial sets, then `finalize`. -/
def collect (mode : Overflow) (insertions : List Insertion) : Except Panic Dram := do
  let d ← insertions.foldlM insert new
  d.finalize mode

/-- The addresses of the inserted available regions. -/
def availablePoints (insertions : List Insertion) : Set Nat :=
  {x | ∃ region, .available region ∈ insertions ∧
    region.start.startAddress.asU64 ≤ x ∧ x < region.stop.startAddress.asU64}

/-- The addresses of the inserted reserved regions. -/
def reservedPoints (insertions : List Insertion) : Set Nat :=
  {x | ∃ region, .reserved region ∈ insertions ∧
    region.start.startAddress.asU64 ≤ x ∧ x < region.stop.startAddress.asU64}

section

variable {region : PhysFrameRange} {rest : List Insertion}

private theorem availablePoints_cons_available :
    availablePoints (.available region :: rest) = {x | region.start.startAddress.asU64 ≤ x ∧
      x < region.stop.startAddress.asU64} ∪ availablePoints rest := by
  ext x
  simp [availablePoints, or_and_right, exists_or]

private theorem availablePoints_cons_reserved :
    availablePoints (.reserved region :: rest) = availablePoints rest := by
  ext x
  simp [availablePoints]

private theorem reservedPoints_cons_available :
    reservedPoints (.available region :: rest) = reservedPoints rest := by
  ext x
  simp [reservedPoints]

private theorem reservedPoints_cons_reserved :
    reservedPoints (.reserved region :: rest) = {x | region.start.startAddress.asU64 ≤ x ∧
      x < region.stop.startAddress.asU64} ∪ reservedPoints rest := by
  ext x
  simp [reservedPoints, or_and_right, exists_or]

end

/-- The sets before `finalize`, in terms of the points that were inserted. -/
structure Collects (available reserved : Set Nat) (count : Nat) (d : Dram) : Prop where
  open_ : d.dramFinalized = false
  availableMerged : Merged (occupied d.availableRegions)
  reservedMerged : Merged d.reservedRegions
  reservedOrdered : ∀ r ∈ d.reservedRegions, r.lo ≤ r.hi
  available_eq : points d.availableRegions = available
  reserved_eq : points d.reservedRegions = reserved
  reserved_lt : ∀ x ∈ reserved, x < d.dramLimit
  bounded : ∀ r ∈ occupied d.availableRegions, r.hi ≤ d.dramLimit
  limit_lt : d.dramLimit < 2 ^ 52
  length_le : d.availableRegions.length + d.reservedRegions.length ≤ count

/-- Nothing is collected at the start. -/
theorem collects_new : Collects ∅ ∅ 0 new where
  open_ := rfl
  availableMerged := .nil
  reservedMerged := .nil
  reservedOrdered := nofun
  available_eq := points_nil
  reserved_eq := points_nil
  reserved_lt := nofun
  bounded := nofun
  limit_lt := by decide
  length_le := le_rfl

section

variable {available reserved : Set Nat} {count : Nat} {d : Dram}

private theorem newLimit_lt (h : d.dramLimit < 2 ^ 52) (region : PhysFrameRange) :
    d.newLimit region < 2 ^ 52 :=
  max_lt h region.stop.startAddress.lt

/-- `insert_reserved` adds the points of the region. -/
theorem Collects.insertReserved (h : Collects available reserved count d)
    (region : PhysFrameRange) (hordered : region.start.number ≤ region.stop.number) :
    Yields (d.insertReserved region)
      (fun d' ↦ Collects available ({x | region.start.startAddress.asU64 ≤ x ∧
          x < region.stop.startAddress.asU64} ∪ reserved) (count + 1) d' ∧
        d'.availableRegions = d.availableRegions)
      (fun _ ↦ maxRegions ≤ count) := by
  rw [Dram.insertReserved, if_neg (by rw [h.open_]; decide)]
  have hlen := h.length_le
  refine ((insertRegion_yields h.reservedMerged region).mono (fun _ h ↦ h) ?_).bind ?_
  · intro _ hfull
    omega
  intro regions hm
  have hlen' := hm.length_le
  rw [List.length_cons] at hlen'
  refine ⟨⟨h.open_, h.availableMerged, hm.merged, ?_, h.available_eq, ?_, ?_, ?_,
    newLimit_lt h.limit_lt region, ?_⟩, rfl⟩
  · exact hm.keeps (fun r ↦ r.lo ≤ r.hi) (by intros; omega)
      (List.forall_mem_cons.mpr ⟨Nat.mul_le_mul_right _ hordered, h.reservedOrdered⟩)
  · rw [hm.points_eq, ← h.reserved_eq]
    ext x
    exact mem_points_cons
  · rintro x (hx | hx)
    · exact hx.2.trans_le (le_max_right _ _)
    · exact (h.reserved_lt x hx).trans_le (le_max_left _ _)
  · exact fun r hr ↦ (h.bounded r hr).trans (le_max_left _ _)
  · show d.availableRegions.length + regions.length ≤ count + 1
    omega

private theorem cutFirstPage_points (region : PhysFrameRange) (x : Nat) :
    (∃ cut, cutFirstPage region = some cut ∧ cut.start.startAddress.asU64 ≤ x ∧
      x < cut.stop.startAddress.asU64) ↔
    (region.start.startAddress.asU64 ≤ x ∧ x < region.stop.startAddress.asU64) ∧
      x ∉ Set.Ico 0 pageSize := by
  have hstart : region.start.startAddress.asU64 = region.start.number * pageSize := rfl
  simp only [Set.mem_Ico, Nat.zero_le, true_and, not_lt]
  unfold cutFirstPage
  split
  next hzero =>
    split
    next hsmall =>
      simp only [reduceCtorEq, false_and, exists_false, false_iff]
      omega
    next =>
      have hcut : (⟨1, by decide⟩ : PhysFrame).startAddress.asU64 = pageSize := rfl
      simp only [Option.some.injEq, exists_eq_left', hcut]
      omega
  next hpos =>
    simp only [Option.some.injEq, exists_eq_left']
    simp only [hstart, pageSize] at hpos ⊢
    omega

private theorem Collects.insertAvailable (h : Collects available reserved count d)
    (hmerged : Merged d.availableRegions) (region : PhysFrameRange) :
    Yields (d.insertAvailable region)
      (fun d' ↦ Collects ({x | region.start.startAddress.asU64 ≤ x ∧
          x < region.stop.startAddress.asU64} \ Set.Ico 0 pageSize ∪ available) reserved
          (count + 1) d' ∧ Merged d'.availableRegions)
      (fun _ ↦ maxRegions ≤ count) := by
  have hcut := cutFirstPage_points region
  have hlen := h.length_le
  unfold Dram.insertAvailable
  split
  next hnone =>
    simp only [hnone, reduceCtorEq, false_and, exists_false, false_iff] at hcut
    have hempty : {x | region.start.startAddress.asU64 ≤ x ∧
        x < region.stop.startAddress.asU64} \ Set.Ico 0 pageSize ∪ available = available := by
      ext x
      simp only [Set.mem_union, Set.mem_sdiff, Set.mem_ofPred_eq, hcut, false_or]
    rw [hempty]
    exact ⟨{ h with length_le := by omega }, hmerged⟩
  next cut hsome =>
    simp only [hsome, Option.some.injEq, exists_eq_left'] at hcut
    rw [if_neg (by rw [h.open_]; decide)]
    refine ((insertRegion_yields hmerged cut).mono (fun _ h ↦ h) ?_).bind ?_
    · intro _ hfull
      omega
    intro regions hm
    have hlen' := hm.length_le
    rw [List.length_cons] at hlen'
    refine ⟨⟨h.open_, hm.merged.filter _, h.reservedMerged, h.reservedOrdered, ?_, h.reserved_eq,
      fun x hx ↦ (h.reserved_lt x hx).trans_le (le_max_left _ _), ?_,
      newLimit_lt h.limit_lt cut, ?_⟩, hm.merged⟩
    · rw [hm.points_eq, ← h.available_eq]
      ext x
      rw [mem_points_cons]
      simp only [Set.mem_union, Set.mem_sdiff, Set.mem_ofPred_eq, ← hcut]
      rfl
    · intro r hr
      obtain ⟨hr, hlt⟩ := mem_occupied.mp hr
      refine hm.keeps (fun r ↦ r.lo < r.hi → r.hi ≤ d.newLimit cut) (by intros; omega)
        (List.forall_mem_cons.mpr ⟨fun _ ↦ le_max_right _ _, fun r hr hlt ↦ ?_⟩) r hr hlt
      exact (h.bounded r (mem_occupied.mpr ⟨hr, hlt⟩)).trans (le_max_left _ _)
    · show regions.length + d.reservedRegions.length ≤ count + 1
      omega

/-- The sets after any insertions. -/
theorem Collects.foldlM (insertions : List Insertion)
    (hordered : ∀ region, .reserved region ∈ insertions → region.start.number ≤ region.stop.number)
    (h : Collects available reserved count d) (hmerged : Merged d.availableRegions) :
    Yields (insertions.foldlM insert d)
      (fun d' ↦ Collects (availablePoints insertions \ Set.Ico 0 pageSize ∪ available)
          (reservedPoints insertions ∪ reserved) (count + insertions.length) d' ∧
        Merged d'.availableRegions)
      (fun _ ↦ maxRegions < count + insertions.length) := by
  induction insertions generalizing d available reserved count with
  | nil =>
    simpa [availablePoints, reservedPoints] using ⟨h, hmerged⟩
  | cons i rest ih =>
    have hrest := fun region hr ↦ hordered region (List.mem_cons_of_mem _ hr)
    rw [List.foldlM_cons, List.length_cons]
    cases i with
    | available region =>
      refine ((h.insertAvailable hmerged region).mono (fun _ h ↦ h) ?_).bind ?_
      · intro _ hfull
        omega
      rintro d' ⟨h', hmerged'⟩
      rw [availablePoints_cons_available, reservedPoints_cons_available, Nat.add_comm _ 1,
        ← Nat.add_assoc, Set.union_sdiff_distrib, Set.union_assoc, Set.union_left_comm]
      exact ih hrest h' hmerged'
    | reserved region =>
      refine ((h.insertReserved region (hordered region List.mem_cons_self)).mono
        (fun _ h ↦ h) ?_).bind ?_
      · intro _ hfull
        omega
      rintro d' ⟨h', heq⟩
      rw [availablePoints_cons_reserved, reservedPoints_cons_reserved, Nat.add_comm _ 1,
        ← Nat.add_assoc, Set.union_assoc, Set.union_left_comm]
      exact ih hrest h' (heq ▸ hmerged)

end

private theorem pushLastReserved_yields (hlimit : limit < 2 ^ 52) {cur : PhysAddr}
    {available gaps : List Region} (h : Gaps limit 0 available gaps cur.asU64) :
    Yields (pushLastReserved cur limit gaps)
      (fun reserved ↦ Merged reserved ∧ points reserved = Set.Ico 0 limit \ points available)
      (fun _ ↦ maxRegions ≤ available.length) := by
  have hpoints : points gaps ∪ Set.Ico cur.asU64 limit = Set.Ico 0 limit \ points available := by
    ext x
    simpa [and_assoc] using h.points_iff x
  unfold pushLastReserved
  split
  next hlt =>
    split
    next hfull => exact hfull.trans h.length_le
    next =>
      rw [PhysAddr.new, dif_pos hlimit]
      refine ⟨List.pairwise_append.mpr ⟨h.merged, List.pairwise_singleton _ _, ?_⟩, ?_⟩
      · intro g hg last hlast
        rw [List.mem_singleton.mp hlast]
        have hg := h.within g hg
        exact ⟨(hg.2.1.trans hg.2.2).le, hg.2.2⟩
      · rw [← hpoints]
        ext x
        simp [Region.lo, Region.hi]
  next hge =>
    refine ⟨h.merged, ?_⟩
    rw [← hpoints, Set.Ico_eq_empty (by omega), Set.union_empty]

private theorem finalizeReservedRegions_yields (mode : Overflow) {d : Dram}
    (hfinalized : d.dramFinalized = true)
    (ha : Ascending Region.lo Region.hi d.availableRegions)
    (hbounded : ∀ r ∈ d.availableRegions, r.hi ≤ d.dramLimit) (hlimit : d.dramLimit < 2 ^ 52) :
    Yields (d.finalizeReservedRegions mode)
      (fun d' ↦ ∃ reserved, d' = { d with reservedRegions := reserved } ∧ Merged reserved ∧
        points reserved = Set.Ico 0 d.dramLimit \ points d.availableRegions)
      (fun _ ↦ maxRegions ≤ d.availableRegions.length) := by
  rw [finalizeReservedRegions, if_neg (by rw [hfinalized]; decide)]
  split
  next hfull => exact hfull.le
  next =>
    split
    next hzero =>
      refine ⟨[], rfl, .nil, ?_⟩
      rw [hzero, Set.Ico_self, Set.empty_sdiff, points_nil]
    next =>
      refine ((collectGaps_yields mode d.availableRegions ha hbounded ⟨0, by decide⟩
        (Nat.zero_le _) (fun _ _ ↦ Nat.zero_le _) []).mono (fun _ h ↦ h) ?_).bind ?_
      · intro _ hover
        rw [List.length_nil] at hover
        omega
      rintro ⟨cur, reserved⟩ ⟨gaps, hgaps, h⟩
      obtain rfl : reserved = gaps := hgaps
      refine (pushLastReserved_yields hlimit h).bind ?_
      intro reserved hreserved
      exact ⟨reserved, rfl, hreserved⟩

/-- `finalize` turns the collected points into the available ones and their complement. -/
theorem Collects.finalize {available reserved : Set Nat} {count : Nat} {d : Dram}
    (h : Collects available reserved count d) (mode : Overflow) :
    Yields (d.finalize mode)
      (fun d' ↦ (Ascending Region.lo Region.hi d'.availableRegions ∧ Merged d'.reservedRegions ∧
          d'.dramLimit = d.dramLimit) ∧
        points d'.availableRegions = available \ reserved ∧
        points d'.reservedRegions = Set.Ico 0 d'.dramLimit \ points d'.availableRegions)
      (fun _ ↦ maxRegions ≤ count) := by
  have hlen := h.length_le
  have hcount : d.reservedRegions.countP (fun r ↦ 0 ≤ r.lo) ≤ d.reservedRegions.length :=
    List.countP_le_length
  unfold Dram.finalize finalizeAvailableRegions
  rw [if_neg (by rw [h.open_]; decide)]
  have hlen' : (occupied d.availableRegions).length ≤ d.availableRegions.length :=
    List.length_filter_le _ _
  have hsub := subtractAll_yields (occupied d.availableRegions) h.availableMerged
    h.reservedMerged h.reservedOrdered [] (b := 0) (fun _ _ ↦ Nat.zero_le _) h.bounded
  rw [← subtractAll_occupied, points_occupied] at hsub
  have hfirst : Yields (subtractAll d.availableRegions d.reservedRegions [] >>= fun result ↦
      .ok { d with availableRegions := result, dramFinalized := true })
      (fun d' ↦ ∃ pieces, d' = { d with availableRegions := pieces, dramFinalized := true } ∧
        Leaves d.reservedRegions (points d.availableRegions) 0 d.dramLimit pieces ∧
        pieces.length ≤ count) (fun _ ↦ maxRegions ≤ count) := by
    refine (hsub.mono (fun _ h ↦ h) ?_).bind ?_
    · intro _ hover
      rw [List.length_nil] at hover
      omega
    rintro pieces ⟨_, rfl, hleaves, hpieces⟩
    exact ⟨pieces, rfl, hleaves, by omega⟩
  refine hfirst.bind ?_
  rintro _ ⟨pieces, rfl, hleaves, hpieces⟩
  refine (finalizeReservedRegions_yields mode
    (d := { d with availableRegions := pieces, dramFinalized := true }) rfl hleaves.ascending
    (fun r hr ↦ (hleaves.within r hr).2) h.limit_lt).mono ?_ ?_
  · rintro _ ⟨reserved', rfl, hmerged, hreserved⟩
    refine ⟨⟨hleaves.ascending, hmerged, rfl⟩, ?_, hreserved⟩
    rw [hleaves.points_eq, h.available_eq, h.reserved_eq]
  · exact fun _ hfull ↦ le_trans hfull hpieces

/-- For any insertions of ordered ranges: with fewer than `MAX_REGIONS` of them all calls
return, and whenever they return, the available regions are ascending, disjoint and not empty
and have exactly the points that are available, not reserved and not in the first page; the
reserved regions have exactly the other points below the limit. -/
theorem collect_partitions (mode : Overflow) (insertions : List Insertion)
    (hordered : ∀ i ∈ insertions, i.region.start.number ≤ i.region.stop.number) :
    (insertions.length < maxRegions → ∃ d, collect mode insertions = .ok d) ∧
    ∀ d, collect mode insertions = .ok d →
      Ascending Region.lo Region.hi d.availableRegions ∧
      points d.availableRegions =
        (availablePoints insertions \ reservedPoints insertions) \ Set.Ico 0 pageSize ∧
      points d.reservedRegions = Set.Ico 0 d.dramLimit \ points d.availableRegions := by
  have hall : Yields (collect mode insertions)
      (fun d ↦ Ascending Region.lo Region.hi d.availableRegions ∧
        points d.availableRegions =
          (availablePoints insertions \ reservedPoints insertions) \ Set.Ico 0 pageSize ∧
        points d.reservedRegions = Set.Ico 0 d.dramLimit \ points d.availableRegions)
      (fun _ ↦ maxRegions ≤ insertions.length) := by
    refine ((collects_new.foldlM insertions (fun region hr ↦ hordered _ hr) .nil).mono
      (fun _ h ↦ h) ?_).bind ?_
    · intro _ hover
      omega
    rintro d ⟨h, -⟩
    refine (h.finalize mode).mono ?_ ?_
    · rintro d' ⟨⟨hascending, -, -⟩, havailable, hreserved⟩
      refine ⟨hascending, ?_, hreserved⟩
      rw [havailable, Set.union_empty, Set.union_empty]
      exact Set.sdiff_sdiff_comm
    · intro _ hfull
      rw [Nat.zero_add] at hfull
      exact hfull
  refine ⟨fun hlen ↦ ?_, fun d hd ↦ hall.of_ok hd⟩
  obtain ⟨d, hd, -⟩ := hall.exists_ok fun _ hfull ↦ absurd hlen (not_lt.mpr hfull)
  exact ⟨d, hd⟩

/-- A range of frames given by two numbers. -/
def Sample.frames (start stop : Fin 4096) : PhysFrameRange :=
  ⟨⟨start.val, by omega⟩, ⟨stop.val, by omega⟩⟩

/-- Overlapping, adjacent, nested and empty ranges; an empty reserved range
splits an available one. -/
theorem collect_partitions_sample :
    let insertions : List Insertion := [.available (Sample.frames 0 16),
      .available (Sample.frames 30 40), .reserved (Sample.frames 4 8),
      .available (Sample.frames 16 20), .reserved (Sample.frames 6 7),
      .reserved (Sample.frames 35 35), .reserved (Sample.frames 18 32)]
    ∃ d, collect .panics insertions = .ok d ∧ d.availableRegions.length = 4 ∧
      points d.availableRegions =
        (availablePoints insertions \ reservedPoints insertions) \ Set.Ico 0 pageSize := by
  intro insertions
  obtain ⟨d, hd, hlen⟩ : ∃ d, collect .panics insertions = .ok d ∧
      d.availableRegions.length = 4 := by
    decide +kernel
  exact ⟨d, hd, hlen, ((collect_partitions .panics insertions (by decide)).2 d hd).2.1⟩

end Dram

end D3OS.Memory

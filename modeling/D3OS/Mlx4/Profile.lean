import D3OS.Mlx4.Contexts
import D3OS.Mlx4.Fw

/-!
# Layout of the card's context memory

`os/kernel/src/device/infiniband/mlx4/profile.rs`. `Profile::new` gives each resource a
number of entries and lays the resources out by decreasing size. The order that
`sort_unstable_by_key` leaves among resources of one size is not specified, so the sort is
a parameter.
-/

namespace D3OS.Mlx4

open Lib Memory

/-- `ResourceType`, `profile.rs:12`. -/
inductive ResourceType where
  | qp
  | rdmarc
  | altc
  | auxc
  | srq
  | cq
  | eq
  | dmpt
  | cmpt
  | mtt
  | mcg
  deriving DecidableEq, Repr

/-- `Resource`, `profile.rs:29`. -/
structure Resource where
  size : Nat
  start : Nat
  typ : ResourceType
  num : Nat
  deriving DecidableEq, Repr

/-- `lognum`, `profile.rs:37`. -/
def Resource.lognum (r : Resource) : Nat := Nat.log2 r.num

def defaultNumQp : Nat := 2 ^ 17
def defaultNumSrq : Nat := 2 ^ 16
def defaultRdmarcPerQp : Nat := 2 ^ 4
def defaultNumCq : Nat := 2 ^ 16
def defaultNumMcg : Nat := 2 ^ 13
def defaultNumMpt : Nat := 2 ^ 19
def defaultNumMtt : Nat := 2 ^ 20
def maxNumEqs : Nat := 2 ^ 9

/-- `get_mgm_entry_size`, `profile.rs:216`. -/
def getMgmEntrySize : Nat := 2 ^ 10

/-- `Profile`, `profile.rs:62`. -/
structure Profile where
  numMpts : Nat := 0
  numMgms : Nat := 0
  numAmgms : Nat := 0
  numMtts : Nat := 0
  maxQpDestRdma : Nat := 0
  rdmarcShift : Nat := 0
  initHca : InitHcaParameters := {}
  totalSize : Nat := 0
  deriving DecidableEq, Repr

namespace Profile

/-- The table of entry sizes and counts that `Profile::new` starts from, `profile.rs:93-117`. -/
def resources (caps : Capabilities) : List Resource :=
  [⟨caps.qpcEntrySz.toNat, 0, .qp, defaultNumQp⟩,
   ⟨caps.rdmarcEntrySz.toNat, 0, .rdmarc, defaultNumQp * defaultRdmarcPerQp⟩,
   ⟨caps.altcEntrySz.toNat, 0, .altc, defaultNumQp⟩,
   ⟨caps.auxEntrySz.toNat, 0, .auxc, defaultNumQp⟩,
   ⟨caps.srqEntrySz.toNat, 0, .srq, defaultNumSrq⟩,
   ⟨caps.cqcEntrySz.toNat, 0, .cq, defaultNumCq⟩,
   ⟨caps.eqcEntrySz.toNat, 0, .eq, maxNumEqs⟩,
   ⟨caps.dMptEntrySz.toNat, 0, .dmpt, defaultNumMpt⟩,
   ⟨caps.cMptEntrySz.toNat, 0, .cmpt, 4 * 2 ^ 24⟩,
   ⟨caps.mttEntrySz.toNat, 0, .mtt, defaultNumMtt * 2 ^ 3⟩,
   ⟨getMgmEntrySize, 0, .mcg, defaultNumMcg⟩]

/-- The size of a resource in bytes, at least a page, `profile.rs:119-126`. -/
def sizeResource (r : Resource) : Except Fault Resource := do
  let num ← orPanic (unwrap (checkedNextPowerOfTwo 64 r.num))
  let size ← orPanic (mulOrPanic r.size num)
  .ok { r with num := num, size := if size < pageSize then pageSize else size }

/-- Place the resources one after the other, `profile.rs:134-150`. -/
def layout (maxIcmSz : Nat) : List Resource → Nat → Except Fault (List Resource × Nat)
  | [], total => .ok ([], total)
  | r :: rest, total => do
    let next ← orPanic (addOrPanic total r.size)
    if maxIcmSz < next then .error (.err "total size > maximum ICM size")
    else
      let (placed, totalSize) ← layout maxIcmSz rest next
      .ok ({ r with start := total } :: placed, totalSize)

/-- The loop over the shift of the RDMARC table, `profile.rs:177-184`. -/
def rdmarcLoop (r : Resource) : Nat → Profile → Except Fault Profile
  | 0, p => .ok p
  | fuel + 1, p =>
    if defaultNumQp <<< p.rdmarcShift < r.num then do
      let reg ← BaseNum.setBase p.initHca.qpcRdmarcBaseNum 0x7 r.start
      let reg ← BaseNum.setLog reg 0x7 p.rdmarcShift
      rdmarcLoop r fuel { p with
        maxQpDestRdma := 2 ^ p.rdmarcShift
        initHca := { p.initHca with qpcRdmarcBaseNum := reg }
        rdmarcShift := p.rdmarcShift + 1 }
    else .ok p

/-- Set the base and the count of a register that packs both. -/
def setBaseNum (reg : BaseNum) (start log : Nat) : Except Fault BaseNum := do
  let reg ← BaseNum.setBase reg 0x1f start
  BaseNum.setLog reg 0x1f log

/-- Write one placed resource to the profile, `profile.rs:154-200`. -/
def addResource (p : Profile) (r : Resource) : Except Fault Profile :=
  match r.typ with
  | .cmpt => .ok { p with initHca := { p.initHca with tptCmptBase := r.start } }
  | .cq => do
    let reg ← setBaseNum p.initHca.qpcCqcBaseNum r.start r.lognum
    .ok { p with initHca := { p.initHca with qpcCqcBaseNum := reg } }
  | .srq => do
    let reg ← setBaseNum p.initHca.qpcSrqcBaseNum r.start r.lognum
    .ok { p with initHca := { p.initHca with qpcSrqcBaseNum := reg } }
  | .qp => do
    let reg ← setBaseNum p.initHca.qpcBaseNum r.start r.lognum
    .ok { p with initHca := { p.initHca with qpcBaseNum := reg } }
  | .altc => .ok { p with initHca := { p.initHca with qpcAltcBase := r.start } }
  | .auxc => .ok { p with initHca := { p.initHca with qpcAuxcBase := r.start } }
  | .mtt => .ok { p with numMtts := r.num, initHca := { p.initHca with tptMttBase := r.start } }
  | .eq => do
    let reg ← setBaseNum p.initHca.qpcEqcBaseNum r.start (Nat.log2 maxNumEqs)
    .ok { p with initHca := { p.initHca with qpcEqcBaseNum := reg } }
  | .rdmarc => rdmarcLoop r 64 p
  | .dmpt => do
    let log ← setField 6 r.lognum
    .ok { p with
      numMpts := r.num
      initHca := { p.initHca with tptDmptBase := r.start, tptLogDmptSz := log } }
  | .mcg => do
    let logEntry ← setField 5 (Nat.log2 getMgmEntrySize)
    let logTable ← setField 5 r.lognum
    let hash ← orPanic (subOrPanic r.lognum 1)
    let logHash ← setField 5 hash
    .ok { p with
      numMgms := r.num >>> 1
      numAmgms := r.num >>> 1
      initHca := { p.initHca with
        mcBase := r.start, mcLogEntrySz := logEntry, mcLogTableSz := logTable,
        mcLogHashSz := logHash } }

/-- `Profile::new`, `profile.rs:80`. -/
def new (sortBySize : List Resource → List Resource) (caps : Capabilities) :
    Except Fault Profile := do
  let sized ← (resources caps).mapM sizeResource
  let (placed, totalSize) ← layout caps.maxIcmSz.toNat (sortBySize sized).reverse 0
  let profile ← placed.foldlM addResource {}
  .ok { profile with totalSize := totalSize }

/-- What `Profile::new` decides about a resource before it lays it out. -/
private def key (r : Resource) : ResourceType × Nat := (r.typ, r.num)

private theorem sizeResource_key {r r' : Resource} (h : sizeResource r = .ok r')
    (hnum : checkedNextPowerOfTwo 64 r.num = some r.num) : key r' = key r := by
  obtain ⟨num, hn, h⟩ := of_bind h
  obtain ⟨size, _, h⟩ := of_bind h
  rw [hnum] at hn
  cases hn
  cases h
  rfl

private theorem layout_key {maxIcmSz : Nat} {l placed : List Resource} {total totalSize : Nat}
    (h : layout maxIcmSz l total = .ok (placed, totalSize)) : placed.map key = l.map key := by
  induction l generalizing total placed totalSize with
  | nil =>
    cases h
    rfl
  | cons r rest ih =>
    obtain ⟨next, _, h⟩ := of_bind h
    split at h
    next => cases h
    next =>
      obtain ⟨⟨placed', totalSize'⟩, hrest, h⟩ := of_bind h
      cases h
      rw [List.map_cons, List.map_cons, ih hrest]
      rfl

private theorem num_setBaseNum {reg reg' : BaseNum} {start log : Nat} (hlog : log < 64)
    (h : setBaseNum reg start log = .ok reg') : reg'.num = 2 ^ log := by
  obtain ⟨reg₁, _, h⟩ := of_bind h
  rw [BaseNum.num_setLog h]
  show 2 ^ (BitVec.ofNat 64 log).toNat = 2 ^ log
  rw [BitVec.toNat_ofNat, Nat.mod_eq_of_lt (by omega)]

private theorem rdmarcLoop_frame {r : Resource} {fuel : Nat} {p p' : Profile}
    (h : rdmarcLoop r fuel p = .ok p') :
    p'.numMpts = p.numMpts ∧ p'.initHca.qpcBaseNum = p.initHca.qpcBaseNum ∧
      p'.initHca.qpcCqcBaseNum = p.initHca.qpcCqcBaseNum := by
  induction fuel generalizing p with
  | zero =>
    cases h
    exact ⟨rfl, rfl, rfl⟩
  | succ fuel ih =>
    rw [rdmarcLoop] at h
    split at h
    next =>
      obtain ⟨reg, _, h⟩ := of_bind h
      obtain ⟨reg', _, h⟩ := of_bind h
      have hrest := ih h
      exact hrest
    next =>
      cases h
      exact ⟨rfl, rfl, rfl⟩

private theorem addResource_counts {p p' : Profile} {r : Resource} (hlog : r.lognum < 64)
    (h : addResource p r = .ok p') :
    p'.initHca.numQps = (if r.typ = .qp then 2 ^ r.lognum else p.initHca.numQps) ∧
    p'.initHca.numCqs = (if r.typ = .cq then 2 ^ r.lognum else p.initHca.numCqs) ∧
    p'.numMpts = (if r.typ = .dmpt then r.num else p.numMpts) := by
  unfold addResource at h
  split at h
  case h_1 | h_5 | h_6 | h_7 =>
    rename_i ht
    cases h
    simp [ht, InitHcaParameters.numQps, InitHcaParameters.numCqs]
  case h_2 | h_3 | h_4 | h_8 =>
    rename_i ht
    obtain ⟨reg, hreg, h⟩ := of_bind h
    cases h
    first
      | simp [ht, InitHcaParameters.numQps, InitHcaParameters.numCqs, num_setBaseNum hlog hreg]
      | simp [ht, InitHcaParameters.numQps, InitHcaParameters.numCqs]
  case h_9 ht =>
    obtain ⟨hmpt, hqp, hcq⟩ := rdmarcLoop_frame h
    simp [ht, InitHcaParameters.numQps, InitHcaParameters.numCqs, hmpt, hqp, hcq]
  case h_10 ht =>
    obtain ⟨log, _, h⟩ := of_bind h
    cases h
    simp [ht, InitHcaParameters.numQps, InitHcaParameters.numCqs]
  case h_11 ht =>
    obtain ⟨logEntry, _, h⟩ := of_bind h
    obtain ⟨logTable, _, h⟩ := of_bind h
    obtain ⟨hash, _, h⟩ := of_bind h
    obtain ⟨logHash, _, h⟩ := of_bind h
    cases h
    simp [ht, InitHcaParameters.numQps, InitHcaParameters.numCqs]

private theorem foldlM_slot (slot : Profile → Nat) {t : ResourceType} {n : Nat} {l : List Resource}
    {p p' : Profile} (h : l.foldlM addResource p = .ok p')
    (hslot : ∀ p p', ∀ r ∈ l, addResource p r = .ok p' →
      slot p' = if r.typ = t then n else slot p)
    (hset : slot p = n ∨ ∃ r ∈ l, r.typ = t) : slot p' = n := by
  induction l generalizing p with
  | nil =>
    cases h
    simpa using hset
  | cons r rest ih =>
    obtain ⟨p₁, hp₁, h⟩ := of_bind h
    refine ih h (fun p p' r hr ↦ hslot p p' r (List.mem_cons_of_mem _ hr)) ?_
    rw [hslot p p₁ r List.mem_cons_self hp₁]
    by_cases ht : r.typ = t
    · exact Or.inl (if_pos ht)
    · rw [if_neg ht]
      rcases hset with hset | ⟨r', hr', ht'⟩
      · exact Or.inl hset
      · rcases List.mem_cons.mp hr' with rfl | hr'
        · exact absurd ht' ht
        · exact Or.inr ⟨r', hr', ht'⟩

/-- The counts of the table, which do not depend on the card. -/
private def counts : List (ResourceType × Nat) :=
  [(.qp, 2 ^ 17), (.rdmarc, 2 ^ 21), (.altc, 2 ^ 17), (.auxc, 2 ^ 17), (.srq, 2 ^ 16),
   (.cq, 2 ^ 16), (.eq, 2 ^ 9), (.dmpt, 2 ^ 19), (.cmpt, 2 ^ 26), (.mtt, 2 ^ 23), (.mcg, 2 ^ 13)]

private theorem resources_key (caps : Capabilities) : (resources caps).map key = counts := rfl

private theorem placed_key {sortBySize : List Resource → List Resource}
    (hsort : ∀ l, (sortBySize l).Perm l) {caps : Capabilities} {sized placed : List Resource}
    {totalSize : Nat} (hsized : (resources caps).mapM sizeResource = .ok sized)
    (hplaced : layout caps.maxIcmSz.toNat (sortBySize sized).reverse 0 = .ok (placed, totalSize)) :
    (placed.map key).Perm counts := by
  have hpow : ∀ k ∈ counts, checkedNextPowerOfTwo 64 k.2 = some k.2 := by decide
  have hkey : sized.map key = counts := by
    refine mapM_map_eq hsized fun r hr r' hr' ↦ sizeResource_key hr' ?_
    exact hpow (key r) (resources_key caps ▸ List.mem_map_of_mem hr)
  rw [layout_key hplaced, ← hkey]
  exact ((List.reverse_perm _).trans (hsort sized)).map key

/-- The numbers of queue pairs, completion queues and protection table entries that the
card is configured for. -/
theorem new_counts {sortBySize : List Resource → List Resource}
    (hsort : ∀ l, (sortBySize l).Perm l) {caps : Capabilities} {profile : Profile}
    (h : new sortBySize caps = .ok profile) :
    profile.initHca.numQps = 2 ^ 17 ∧ profile.initHca.numCqs = 2 ^ 16 ∧
      profile.numMpts = 2 ^ 19 := by
  obtain ⟨sized, hsized, h⟩ := of_bind h
  obtain ⟨⟨placed, totalSize⟩, hplaced, h⟩ := of_bind h
  obtain ⟨p, hp, h⟩ := of_bind h
  cases h
  have hkeys := placed_key hsort hsized hplaced
  have hmem : ∀ r ∈ placed, key r ∈ counts :=
    fun r hr ↦ hkeys.mem_iff.mp (List.mem_map_of_mem hr)
  have hplace : ∀ t n, (t, n) ∈ counts → ∃ r ∈ placed, r.typ = t := by
    intro t n ht
    obtain ⟨r, hr, hk⟩ := List.mem_map.mp (hkeys.mem_iff.mpr ht)
    exact ⟨r, hr, congrArg Prod.fst hk⟩
  have hlog : ∀ k ∈ counts, Nat.log2 k.2 < 64 := by decide
  have hcount : ∀ k ∈ counts, (k.1 = .qp → 2 ^ Nat.log2 k.2 = 2 ^ 17) ∧
      (k.1 = .cq → 2 ^ Nat.log2 k.2 = 2 ^ 16) ∧ (k.1 = .dmpt → k.2 = 2 ^ 19) := by decide
  have hstep := fun (p p' : Profile) (r : Resource) (hr : r ∈ placed)
    (h : addResource p r = .ok p') ↦ addResource_counts (hlog (key r) (hmem r hr)) h
  show p.initHca.numQps = 2 ^ 17 ∧ p.initHca.numCqs = 2 ^ 16 ∧ p.numMpts = 2 ^ 19
  refine ⟨foldlM_slot (fun p ↦ p.initHca.numQps) hp ?_ (Or.inr (hplace .qp (2 ^ 17) (by decide))),
    foldlM_slot (fun p ↦ p.initHca.numCqs) hp ?_ (Or.inr (hplace .cq (2 ^ 16) (by decide))),
    foldlM_slot (fun p ↦ p.numMpts) hp ?_ (Or.inr (hplace .dmpt (2 ^ 19) (by decide)))⟩
  · intro p p' r hr h
    rw [(hstep p p' r hr h).1]
    exact ite_congr rfl (hcount (key r) (hmem r hr)).1 fun _ ↦ rfl
  · intro p p' r hr h
    rw [(hstep p p' r hr h).2.1]
    exact ite_congr rfl (hcount (key r) (hmem r hr)).2.1 fun _ ↦ rfl
  · intro p p' r hr h
    rw [(hstep p p' r hr h).2.2]
    exact ite_congr rfl (hcount (key r) (hmem r hr)).2.2 fun _ ↦ rfl

end Profile

end D3OS.Mlx4

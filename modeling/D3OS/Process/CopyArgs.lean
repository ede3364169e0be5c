import D3OS.Memory.FullMapping
import D3OS.Memory.PhysMem

/-!
# The arguments of a new process

`copy_args`, `os/kernel/src/process/thread.rs:454`. The environment of a process starts with
the number of arguments and the array of pointers to them; the strings follow. The number of
pages is computed from the lengths of the arguments alone.
-/

namespace D3OS.Thread

open Lib Memory

/-- `USER_SPACE_ENV_START`, `os/kernel/src/consts.rs:11`. -/
def userSpaceEnvStart : VirtAddr := ⟨0x10000000000 + 0x40000000, by decide⟩

/-- The first page of the environment. -/
def envPage : Page := .containingAddress userSpaceEnvStart

/-- The bytes of `"env"`. -/
def envTag : List UInt8 := [101, 110, 118]

/-- `env_page_count`, `thread.rs:459-463`. -/
def envPageCount (envSize : Nat) : Nat :=
  if 0 < envSize ∧ envSize % pageSize = 0 then envSize / pageSize else envSize / pageSize + 1

/-- The loop over the arguments, `thread.rs:501-508`. Pointers are numbers. -/
def copyEach (argv argsBegin : Nat) (argsBeginVirt : VirtAddr) :
    List (List UInt8) → Nat → Nat → PhysMem → Except Panic PhysMem
  | [], _, _, mem => .ok mem
  | arg :: rest, i, offset, mem => do
    let target := argsBegin + offset
    let mem := (mem.store target arg).store (target + arg.length) [0]
    let pointer ← argsBeginVirt.add offset
    let mem := mem.store (argv + 8 * (i + 1)) (toLe 8 pointer.asU64)
    copyEach argv argsBegin argsBeginVirt rest (i + 1) (offset + (arg.length + 1)) mem

/-- The stores of `copy_args`, `thread.rs:481-508`, to the environment at `env_frame`. -/
def fillEnvironment (envFrame : PhysAddr) (name : List UInt8) (args : List (List UInt8))
    (mem : PhysMem) : Except Panic PhysMem := do
  let envAddr ← VirtAddr.new envFrame.asU64
  let argv ← envAddr.add 8
  let mem := mem.store envAddr.asU64 (toLe 8 (args.length + 1))
  let argsBegin := argv.asU64 + 8 * (args.length + 1)
  let argsBeginVirt ← userSpaceEnvStart.add 8
  let argsBeginVirt ← argsBeginVirt.add ((args.length + 1) * 8)
  let mem := (mem.store argsBegin name).store (argsBegin + name.length) [0]
  let mem := mem.store argv.asU64 (toLe 8 argsBeginVirt.asU64)
  copyEach argv.asU64 argsBegin argsBeginVirt args 0 (name.length + 1) mem

/-- `copy_args`, `thread.rs:454`. -/
def copyArgs (vas : VirtualAddressSpace) (fa : FrameAllocator) (mem : PhysMem)
    (name : List UInt8) (args : List (List UInt8)) :
    Except Panic (VirtualAddressSpace × FrameAllocator × PhysMem) := do
  let pageCount := envPageCount (args.map List.length).sum
  let area ← vas.userAllocMapFull (some envPage) pageCount .environment envTag fa
  let (_, vas, fa) ← unwrap area
  if 1 < pageCount then .error .assertion
  else do
    let phys ← vas.getPhys userSpaceEnvStart.asU64
    let envFrame ← unwrap phys
    let mem ← fillEnvironment envFrame name args mem
    .ok (vas, fa, mem)

/-- The pointers that the array holds for strings from an offset on. -/
def pointerBytes (argsBeginVirt : Nat) : List (List UInt8) → Nat → List UInt8
  | [], _ => []
  | s :: rest, offset =>
    toLe 8 (argsBeginVirt + offset) ++ pointerBytes argsBeginVirt rest (offset + (s.length + 1))

/-- The strings with their terminators. -/
def stringBytes (strings : List (List UInt8)) : List UInt8 := strings.flatMap fun s ↦ s ++ [0]

/-- The environment holds some pointers and some strings, which grow behind `argsBegin`. -/
private structure Progress (base : Nat → UInt8) (env argsBegin : Nat)
    (header strings : List UInt8) (mem : PhysMem) : Prop where
  byte_eq : mem.byte = patch (patch base env header) argsBegin strings
  within : ∀ x, mem.Stored x → env ≤ x ∧ x < argsBegin + strings.length
  last : strings ≠ [] → mem.Stored (argsBegin + strings.length - 1)

variable {env : Nat} {mem : PhysMem}

private theorem Progress.step {base : Nat → UInt8} {argsBegin : Nat} {header strings : List UInt8}
    (h : Progress base env argsBegin header strings mem) {pointer : List UInt8}
    (hroom : env + (header ++ pointer).length ≤ argsBegin) (s : List UInt8) :
    Progress base env argsBegin (header ++ pointer) (strings ++ (s ++ [0]))
      (((mem.store (argsBegin + strings.length) s).store
        (argsBegin + strings.length + s.length) [0]).store (env + header.length) pointer) where
  byte_eq := by
    rw [List.length_append] at hroom
    simp only [PhysMem.store]
    rw [patch_append, h.byte_eq, patch_append, ← patch_append base env header,
      patch_comm (.inr (by omega))]
  within x hx := by
    rw [List.length_append] at hroom
    simp only [PhysMem.stored_store, List.length_append, List.length_singleton] at hx ⊢
    rcases hx with ((hx | hx) | hx) | hx
    · have := h.within x hx
      omega
    · omega
    · omega
    · omega
  last _ := by
    simp only [PhysMem.stored_store, List.length_append, List.length_singleton]
    exact .inl (.inr (by omega))

variable {i : Nat}

private theorem copyEach_yields {base : Nat → UInt8} {argsBegin : Nat} (argsBeginVirt : VirtAddr)
    (args : List (List UInt8)) {header strings : List UInt8}
    (h : Progress base env argsBegin header strings mem) (hheader : header.length = 8 * (i + 2))
    (hroom : env + header.length + 8 * args.length ≤ argsBegin) :
    Yields (copyEach (env + 8) argsBegin argsBeginVirt args i strings.length mem)
      (Progress base env argsBegin
        (header ++ pointerBytes argsBeginVirt.asU64 args strings.length)
        (strings ++ stringBytes args))
      (fun _ ↦ 2 ^ 47 ≤ argsBeginVirt.asU64 + (strings ++ stringBytes args).length) := by
  induction args generalizing i header strings mem with
  | nil =>
    rw [copyEach, pointerBytes, stringBytes, List.flatMap_nil, List.append_nil, List.append_nil]
    exact h
  | cons arg rest ih =>
    rw [List.length_cons] at hroom
    refine ((argsBeginVirt.add_yields strings.length).mono (fun _ h ↦ h) ?_).bind ?_
    · intro _ he
      rw [List.length_append]
      omega
    · intro pointer hpointer
      have hlen : (header ++ toLe 8 pointer.asU64).length = 8 * (i + 1 + 2) := by
        rw [List.length_append, length_toLe]
        omega
      have hfit : env + (header ++ toLe 8 pointer.asU64).length ≤ argsBegin := by omega
      have hstep := ih (h.step hfit arg) hlen (by omega)
      rw [hpointer] at hstep ⊢
      have hplace : env + 8 + 8 * (i + 1) = env + header.length := by omega
      simp only [List.length_append, List.length_singleton, List.append_assoc, stringBytes,
        pointerBytes, List.flatMap_cons] at hstep ⊢
      rw [hplace]
      exact hstep

/-- The bytes that the environment needs. -/
def environmentSize (name : List UInt8) (args : List (List UInt8)) : Nat :=
  8 + 8 * (args.length + 1) + (stringBytes (name :: args)).length

/-- The contents of the environment. -/
def environmentBytes (strings : List (List UInt8)) : List UInt8 :=
  toLe 8 strings.length ++
    (pointerBytes (userSpaceEnvStart.asU64 + 8 + 8 * strings.length) strings 0 ++
      stringBytes strings)

private theorem length_pointerBytes (argsBeginVirt : Nat) (strings : List (List UInt8))
    (offset : Nat) : (pointerBytes argsBeginVirt strings offset).length = 8 * strings.length := by
  induction strings generalizing offset with
  | nil => rfl
  | cons s rest ih =>
    rw [pointerBytes, List.length_append, length_toLe, ih, List.length_cons]
    omega

private theorem length_environmentBytes (name : List UInt8) (args : List (List UInt8)) :
    (environmentBytes (name :: args)).length = environmentSize name args := by
  simp only [environmentBytes, environmentSize, List.length_append, length_toLe,
    length_pointerBytes, List.length_cons]
  omega

/-- The memory after `copy_args` has filled the environment at a frame. -/
private structure Filled (bytes : Nat → UInt8) (env : Nat) (name : List UInt8)
    (args : List (List UInt8)) (mem : PhysMem) : Prop where
  byte_eq : mem.byte = patch bytes env (environmentBytes (name :: args))
  within : ∀ x, mem.Stored x → env ≤ x ∧ x < env + environmentSize name args
  last : mem.Stored (env + environmentSize name args - 1)

private theorem fillEnvironment_yields (bytes : Nat → UInt8) {frame : PhysFrame}
    {envFrame : PhysAddr} (henv : envFrame.asU64 = frame.number * pageSize)
    (hlow : frame.number < 2 ^ 35) (name : List UInt8) (args : List (List UInt8)) :
    Yields (fillEnvironment envFrame name args ⟨bytes, []⟩)
      (Filled bytes envFrame.asU64 name args) (fun _ ↦ pageSize < environmentSize name args) := by
  have hpage : envFrame.asU64 + pageSize ≤ 2 ^ 47 := by
    rw [henv]
    simp only [pageSize]
    omega
  have hstart : userSpaceEnvStart.asU64 + pageSize + 1 ≤ 2 ^ 47 := by decide
  have hsize : environmentSize name args = 8 + 8 * (args.length + 1) +
      (stringBytes (name :: args)).length := rfl
  have hpos : 0 < (stringBytes (name :: args)).length := by simp [stringBytes]
  simp only [pageSize] at hpage hstart
  rw [fillEnvironment, VirtAddr.new_of_lt (by omega : envFrame.asU64 < 2 ^ 47)]
  refine ((VirtAddr.add_yields _ 8).mono (fun _ h ↦ h) fun _ h ↦ ?_).bind ?_
  · simp only at h
    omega
  intro argv hargv
  refine ((VirtAddr.add_yields _ 8).mono (fun _ h ↦ h) fun _ h ↦ ?_).bind ?_
  · omega
  intro begin₀ hbegin₀
  refine ((VirtAddr.add_yields _ _).mono (fun _ h ↦ h) fun _ h ↦ ?_).bind ?_
  · simp only [pageSize]
    omega
  intro argsBeginVirt hbegin
  simp only at hargv
  have hcount : Progress bytes envFrame.asU64 (argv.asU64 + 8 * (args.length + 1))
      (toLe 8 (args.length + 1)) []
      (PhysMem.store ⟨bytes, []⟩ envFrame.asU64 (toLe 8 (args.length + 1))) := by
    refine ⟨(patch_nil _ _).symm, fun x hx ↦ ?_, fun h ↦ absurd rfl h⟩
    simp only [PhysMem.stored_store, PhysMem.not_stored_nil, false_or, length_toLe] at hx
    omega
  have hfit : envFrame.asU64 + (toLe 8 (args.length + 1) ++ toLe 8 argsBeginVirt.asU64).length ≤
      argv.asU64 + 8 * (args.length + 1) := by
    rw [List.length_append, length_toLe, length_toLe]
    omega
  have hname := hcount.step hfit name
  simp only [List.length_nil, Nat.add_zero, List.nil_append, length_toLe] at hname
  have hloop := copyEach_yields argsBeginVirt args (i := 0) hname
    (by rw [List.length_append, length_toLe, length_toLe])
    (by rw [List.length_append, length_toLe, length_toLe]; omega)
  have hvirt : argsBeginVirt.asU64 =
      userSpaceEnvStart.asU64 + 8 + 8 * (args.length + 1) := by omega
  rw [List.length_append, List.length_singleton, ← hargv] at hloop
  have hstrings : name ++ [0] ++ stringBytes args = stringBytes (name :: args) := by
    rw [stringBytes, stringBytes, List.flatMap_cons]
  have hheader : toLe 8 (args.length + 1) ++ toLe 8 argsBeginVirt.asU64 ++
      pointerBytes argsBeginVirt.asU64 args (name.length + 1) = toLe 8 (args.length + 1) ++
        pointerBytes argsBeginVirt.asU64 (name :: args) 0 := by
    simp only [pointerBytes, List.append_assoc, Nat.add_zero, Nat.zero_add]
  rw [hstrings, hheader] at hloop
  refine hloop.mono (fun mem h ↦ ⟨?_, fun x hx ↦ ?_, ?_⟩) fun _ h ↦ ?_
  · have hbegin : argv.asU64 + 8 * (args.length + 1) = envFrame.asU64 +
        (toLe 8 (args.length + 1) ++ pointerBytes argsBeginVirt.asU64 (name :: args) 0).length := by
      rw [List.length_append, length_toLe, length_pointerBytes, List.length_cons]
      omega
    rw [h.byte_eq, hbegin, patch_append, environmentBytes, List.append_assoc, hvirt,
      List.length_cons]
  · have hx := h.within x hx
    omega
  · have hlast := h.last (List.length_pos_iff.mp hpos)
    rw [hargv] at hlast
    rw [hsize]
    have hadd : envFrame.asU64 + 8 + 8 * (args.length + 1) + (stringBytes (name :: args)).length =
        envFrame.asU64 + (8 + 8 * (args.length + 1) + (stringBytes (name :: args)).length) := by
      omega
    rw [← hadd]
    exact hlast
  · simp only [pageSize]
    omega

private theorem stringBytes_split {strings : List (List UInt8)} {s : List UInt8}
    (h : strings[i]? = some s) : ∃ rest, stringBytes strings =
      stringBytes (strings.take i) ++ ((s ++ [0]) ++ rest) := by
  obtain ⟨hi, rfl⟩ := List.getElem?_eq_some_iff.mp h
  refine ⟨stringBytes (strings.drop (i + 1)), ?_⟩
  conv_lhs => rw [← List.take_append_drop i strings, List.drop_eq_getElem_cons hi]
  rw [stringBytes, List.flatMap_append, List.flatMap_cons]
  rfl

private theorem pointerBytes_split {strings : List (List UInt8)} {s : List UInt8}
    (h : strings[i]? = some s) (argsBeginVirt offset : Nat) :
    ∃ front rest, front.length = 8 * i ∧ pointerBytes argsBeginVirt strings offset = front ++
      (toLe 8 (argsBeginVirt + (offset + (stringBytes (strings.take i)).length)) ++ rest) := by
  induction strings generalizing i offset with
  | nil => cases h
  | cons s' strings ih =>
    cases i with
    | zero => exact ⟨[], _, rfl, rfl⟩
    | succ i =>
      obtain ⟨front, rest, hlen, heq⟩ := ih h (offset + (s'.length + 1))
      refine ⟨toLe 8 (argsBeginVirt + offset) ++ front, rest, ?_, ?_⟩
      · rw [List.length_append, length_toLe, hlen]
        omega
      · have hlen : (stringBytes (s' :: strings.take i)).length =
            s'.length + 1 + (stringBytes (strings.take i)).length := by
          simp only [stringBytes, List.flatMap_cons, List.length_append, List.length_singleton]
        rw [pointerBytes, heq, List.append_assoc, List.take_succ_cons, hlen,
          Nat.add_assoc offset]

/-- The environment has the number of strings, the pointers to them and, behind the pointers
and apart from each other, the strings with their terminators. -/
def HoldsArguments (vas : VirtualAddressSpace) (mem : PhysMem) (strings : List (List UInt8)) :
    Prop :=
  vas.Reads mem userSpaceEnvStart.asU64 (toLe 8 strings.length) ∧
  ∃ pointer : Nat → Nat, ∀ i s, strings[i]? = some s →
    vas.Reads mem (userSpaceEnvStart.asU64 + 8 + 8 * i) (toLe 8 (pointer i)) ∧
    vas.Reads mem (pointer i) (s ++ [0]) ∧
    userSpaceEnvStart.asU64 + 8 + 8 * strings.length ≤ pointer i ∧
    ∀ j s', i < j → strings[j]? = some s' → pointer i + (s ++ [0]).length ≤ pointer j

/-- The byte at the physical address belongs to a page of the environment. -/
def EnvironmentByte (vas : VirtualAddressSpace) (x : Nat) : Prop :=
  ∃ vma a, vas.Has vma ∧ vma.range.start = envPage ∧ vma.range.ContainsAddr a ∧
    (vas.pageTables.translate a).map PhysAddr.asU64 = some x

/-- The frame of the environment as the process sees it. -/
private def SeesFrame (vas : VirtualAddressSpace) (env : Nat) : Prop :=
  ∀ o < pageSize, ∃ a, VirtAddr.tryNew (userSpaceEnvStart.asU64 + o) = some a ∧
    (vas.pageTables.translate a).map PhysAddr.asU64 = some (env + o)

variable {vas : VirtualAddressSpace} {bytes : Nat → UInt8}

private theorem SeesFrame.reads (h : SeesFrame vas env) {front data rest : List UInt8}
    (hmem : mem.byte = patch bytes env (front ++ (data ++ rest)))
    (hsize : (front ++ (data ++ rest)).length ≤ pageSize) {addr : Nat}
    (haddr : addr = userSpaceEnvStart.asU64 + front.length) : vas.Reads mem addr data := by
  intro i hi
  have hlen : front.length + i < (front ++ (data ++ rest)).length := by
    simp only [List.length_append]
    omega
  obtain ⟨a, ha, htranslate⟩ := h (front.length + i) (by omega)
  obtain ⟨p, hp, hpaddr⟩ := Option.map_eq_some_iff.mp htranslate
  refine ⟨a, p, ?_, hp, ?_⟩
  · rw [haddr, Nat.add_assoc, ha]
  · rw [hmem, hpaddr, patch_of_lt hlen, List.getElem_append_right (Nat.le_add_right _ _),
      List.getElem_append_left (by omega)]
    simp only [Nat.add_sub_cancel_left]

variable {name : List UInt8} {args : List (List UInt8)}

private theorem Filled.holdsArguments (h : Filled bytes env name args mem)
    (hsees : SeesFrame vas env) (hfit : environmentSize name args ≤ pageSize) :
    HoldsArguments vas mem (name :: args) := by
  rw [← length_environmentBytes] at hfit
  obtain ⟨hmem, -, -⟩ := h
  generalize name :: args = strings at hmem hfit
  have hbytes : environmentBytes strings = toLe 8 strings.length ++
    (pointerBytes (userSpaceEnvStart.asU64 + 8 + 8 * strings.length) strings 0 ++
      stringBytes strings) := rfl
  constructor
  · rw [hbytes, ← List.nil_append (toLe 8 strings.length ++ _)] at hmem hfit
    exact hsees.reads hmem hfit rfl
  refine ⟨fun i ↦ userSpaceEnvStart.asU64 + 8 + 8 * strings.length +
    (0 + (stringBytes (strings.take i)).length), ?_⟩
  intro i s hs
  refine ⟨?_, ?_, Nat.le_add_right _ _, ?_⟩
  · obtain ⟨front, rest, hlen, heq⟩ := pointerBytes_split hs
      (userSpaceEnvStart.asU64 + 8 + 8 * strings.length) 0
    have himage : environmentBytes strings = (toLe 8 strings.length ++ front) ++
        (toLe 8 (userSpaceEnvStart.asU64 + 8 + 8 * strings.length +
          (0 + (stringBytes (strings.take i)).length)) ++ (rest ++ stringBytes strings)) := by
      rw [hbytes, heq]
      simp only [List.append_assoc]
    rw [himage] at hmem hfit
    refine hsees.reads hmem hfit ?_
    rw [List.length_append, length_toLe, hlen, Nat.add_assoc]
  · obtain ⟨rest, heq⟩ := stringBytes_split hs
    have himage : environmentBytes strings = (toLe 8 strings.length ++
        (pointerBytes (userSpaceEnvStart.asU64 + 8 + 8 * strings.length) strings 0 ++
          stringBytes (strings.take i))) ++ ((s ++ [0]) ++ rest) := by
      rw [hbytes]
      conv_lhs => rw [heq]
      simp only [List.append_assoc]
    rw [himage] at hmem hfit
    refine hsees.reads hmem hfit ?_
    simp only [List.length_append, length_toLe, length_pointerBytes]
    omega
  · intro j s' hij hs'
    have htake : (strings.take j)[i]? = some s := by
      rw [List.getElem?_take_of_lt hij, hs]
    obtain ⟨rest, heq⟩ := stringBytes_split htake
    rw [List.take_take, Nat.min_eq_left hij.le] at heq
    simp only [heq, List.length_append]
    omega

section

variable {vas vas' : VirtualAddressSpace} {fa fa' : FrameAllocator} {vma : VirtualMemoryArea}
  {frame : PhysFrame}

private theorem startAddress_envPage : envPage.startAddress.asU64 = userSpaceEnvStart.asU64 := by
  decide

private theorem containingAddress_of_lt {a : VirtAddr} {o : Nat} (ho : o < pageSize)
    (ha : a.asU64 = userSpaceEnvStart.asU64 + o) : Page.containingAddress a = envPage := by
  apply Page.ext
  show a.asU64 / pageSize = userSpaceEnvStart.asU64 / pageSize
  have haligned : userSpaceEnvStart.asU64 % pageSize = 0 := by decide
  simp only [pageSize] at ho haligned ⊢
  omega

private theorem seesFrame_of_mappedInFull
    (h : VirtualAddressSpace.MappedInFull envPage [frame] (vas.pageTables, fa)
      (vas'.pageTables, fa')) : SeesFrame vas' (frame.number * pageSize) := by
  intro o ho
  have hlow : userSpaceEnvStart.asU64 + pageSize ≤ 2 ^ 47 := by decide
  let a : VirtAddr := ⟨userSpaceEnvStart.asU64 + o, .inl (by omega)⟩
  refine ⟨a, VirtAddr.tryNew_asU64 a, h.inside 0 frame rfl o ho a ?_⟩
  exact congrArg (· + o) startAddress_envPage.symm

private theorem SeesFrame.getPhys (h : SeesFrame vas env) :
    ∃ p, vas.getPhys userSpaceEnvStart.asU64 = .ok (some p) ∧ p.asU64 = env := by
  obtain ⟨a, ha, hx⟩ := h 0 (by decide)
  obtain ⟨p, hp, heq⟩ := Option.map_eq_some_iff.mp hx
  rw [Nat.add_zero] at ha heq
  refine ⟨p, ?_, heq⟩
  rw [VirtualAddressSpace.getPhys, VirtAddr.new_eq_ok.mpr ha, ← hp]
  rfl

private theorem lt_of_mappedInFull (hstock : fa.Stocked)
    (h : VirtualAddressSpace.MappedInFull envPage [frame] (vas.pageTables, fa)
      (vas'.pageTables, fa')) : frame.number < 2 ^ 35 := by
  obtain ⟨i, -, -, hi⟩ := h.supplied frame List.mem_cons_self
  obtain ⟨f, hf, -, hlow⟩ := hstock i
  rw [hi] at hf
  cases hf
  exact hlow

private theorem environmentByte_iff (harea : VirtualAddressSpace.AddsArea envPage 1 .environment
      vma vas vas')
    (h : VirtualAddressSpace.MappedInFull envPage [frame] (vas.pageTables, fa)
      (vas'.pageTables, fa')) (x : Nat) :
    EnvironmentByte vas' x ↔
      frame.number * pageSize ≤ x ∧ x < frame.number * pageSize + pageSize := by
  have hhas : vas'.Has vma := (harea.has vma).mpr (.inr rfl)
  constructor
  · rintro ⟨other, a, hother, hstart, ⟨hfirst, hlast⟩, hx⟩
    have hsame : other = vma := by
      by_contra hne
      have hne' := harea.wellFormed.nonempty other hother
      have hne'' := harea.wellFormed.nonempty vma hhas
      have hstarts : other.start = vma.start := by
        rw [VirtualMemoryArea.start, VirtualMemoryArea.start, hstart, harea.start]
      rw [hstarts] at hne'
      rcases harea.wellFormed.disjoint other vma hother hhas hne with hle | hle
      · omega
      · rw [hstarts] at hle
        omega
    rw [hsame, harea.start] at hfirst
    rw [hsame, harea.stop] at hlast
    have hpage : a.asU64 / pageSize = envPage.number := by
      have hnum : (Page.containingAddress a).number = a.asU64 / pageSize := rfl
      omega
    have hmod : a.asU64 % pageSize < pageSize := Nat.mod_lt _ (by decide)
    have ha : a.asU64 = (envPage.number + 0) * pageSize + a.asU64 % pageSize := by
      rw [Nat.add_zero, ← hpage, Nat.mul_comm, Nat.div_add_mod]
    rw [h.inside 0 frame rfl _ hmod a ha, Option.some.injEq] at hx
    omega
  · rintro ⟨hle, hlt⟩
    obtain ⟨a, ha, hx⟩ := seesFrame_of_mappedInFull h (x - frame.number * pageSize) (by omega)
    refine ⟨vma, a, hhas, harea.start, ?_, ?_⟩
    · rw [PageRange.ContainsAddr, containingAddress_of_lt (o := x - frame.number * pageSize)
        (by omega) (VirtAddr.tryNew_eq_some ha)]
      have hstart := harea.start
      have hstop := harea.stop
      refine ⟨by rw [hstart], by omega⟩
    · rw [hx]
      congr 1
      omega

end

private theorem envPageCount_eq_one {n : Nat} (h : n < pageSize) : envPageCount n = 1 := by
  rw [envPageCount, if_neg ?_]
  · rw [Nat.div_eq_of_lt h]
  · rintro ⟨hpos, hmod⟩
    rw [Nat.mod_eq_of_lt h] at hmod
    omega

private theorem one_le_envPageCount (n : Nat) : 1 ≤ envPageCount n := by
  by_cases h : 0 < n ∧ n % pageSize = 0
  · rw [envPageCount, if_pos h]
    simp only [pageSize] at h ⊢
    omega
  · rw [envPageCount, if_neg h]
    exact Nat.le_add_left _ _

private theorem sum_lt_environmentSize (name : List UInt8) (args : List (List UInt8)) :
    (args.map List.length).sum < environmentSize name args := by
  have hle : (args.map List.length).sum ≤ (stringBytes args).length := by
    induction args with
    | nil => exact Nat.zero_le _
    | cons arg args ih =>
      simp only [stringBytes, List.map_cons, List.sum_cons, List.flatMap_cons, List.length_append,
        List.length_singleton] at ih ⊢
      omega
  simp only [environmentSize, stringBytes, List.flatMap_cons, List.length_append] at hle ⊢
  omega

private theorem copyArgs_ok {vas' : VirtualAddressSpace} {fa fa' : FrameAllocator}
    (hwf : vas.WellFormed) (hstock : fa.Stocked)
    (h : copyArgs vas fa ⟨bytes, []⟩ name args = .ok (vas', fa', mem)) :
    vas.FreeRun .user 1 envPage ∧ ∃ env, SeesFrame vas' env ∧ Filled bytes env name args mem ∧
      ∀ x, EnvironmentByte vas' x ↔ env ≤ x ∧ x < env + pageSize := by
  obtain ⟨area, harea, h⟩ := of_bind h
  obtain ⟨⟨vma, vas₁, fa₁⟩, hsome, h⟩ := of_bind h
  rw [unwrap_eq_ok] at hsome
  dsimp only at h
  by_cases hcount : 1 < envPageCount (args.map List.length).sum
  · rw [if_pos hcount] at h
    cases h
  · rw [if_neg hcount] at h
    have hone : envPageCount (args.map List.length).sum = 1 := by
      have := one_le_envPageCount (args.map List.length).sum
      omega
    obtain ⟨phys, hphys, h⟩ := of_bind h
    obtain ⟨envFrame, hframe, h⟩ := of_bind h
    rw [unwrap_eq_ok] at hframe
    obtain ⟨mem₁, hfill, h⟩ := of_bind h
    cases h
    rw [hone] at harea
    rcases VirtualAddressSpace.userAllocMapFull_ok hwf hstock le_rfl harea with
      hnone | ⟨vma', vas₂, fa₂, frames, heq, hfree, hadds, hlen, hfull⟩
    · rw [hnone] at hsome
      cases hsome
    · rw [hsome] at heq
      cases heq
      obtain ⟨frame, rfl⟩ := List.length_eq_one_iff.mp hlen
      have hsees := seesFrame_of_mappedInFull hfull
      refine ⟨hfree, frame.number * pageSize, hsees, ?_, environmentByte_iff hadds hfull⟩
      obtain ⟨p, hp, henv⟩ := hsees.getPhys
      rw [hphys, hframe] at hp
      cases hp
      rw [← henv]
      exact (fillEnvironment_yields bytes henv (lt_of_mappedInFull hstock hfull) name args).of_ok
        hfill

private theorem copyArgs_returns {fa : FrameAllocator} (hwf : vas.WellFormed)
    (hlast : vas.lastUsableUserAddr.asU64 < 2 ^ 47) (hstock : fa.Stocked)
    (hfree : vas.FreeRun .user 1 envPage) (bytes : Nat → UInt8)
    (hfit : environmentSize name args ≤ pageSize) :
    ∃ r, copyArgs vas fa ⟨bytes, []⟩ name args = .ok r := by
  have hone := envPageCount_eq_one (lt_of_lt_of_le (sum_lt_environmentSize name args) hfit)
  obtain ⟨⟨vma, vas', fa'⟩, harea⟩ := VirtualAddressSpace.userAllocMapFull_of_freeRun hwf hstock
    le_rfl hlast hfree .environment envTag
  rcases VirtualAddressSpace.userAllocMapFull_ok hwf hstock le_rfl harea with
    hnone | ⟨vma', vas₂, fa₂, frames, heq, -, -, hlen, hfull⟩
  · cases hnone
  · cases heq
    obtain ⟨frame, rfl⟩ := List.length_eq_one_iff.mp hlen
    obtain ⟨p, hphys, henv⟩ := (seesFrame_of_mappedInFull hfull).getPhys
    obtain ⟨mem, hmem, -⟩ := (fillEnvironment_yields bytes henv
      (lt_of_mappedInFull hstock hfull) name args).exists_ok fun _ h ↦ absurd hfit (not_le.mpr h)
    refine ⟨(vas', fa', mem), ?_⟩
    simp only [copyArgs, hone, harea, hphys, hmem, unwrap, bind, Except.bind, lt_irrefl, if_false]

/-- `copy_args` writes only bytes of the environment and leaves the arguments there if and
only if the first page of the environment is free and the number of arguments, the pointers,
the name, the arguments and their terminators fit into it. Otherwise it panics or writes
behind the frame; it has no way to reject the list. -/
theorem copyArgs_iff {vas : VirtualAddressSpace} {fa : FrameAllocator} (hwf : vas.WellFormed)
    (hlast : vas.lastUsableUserAddr.asU64 < 2 ^ 47) (hstock : fa.Stocked) (bytes : Nat → UInt8)
    (name : List UInt8) (args : List (List UInt8)) :
    (∃ vas' fa' mem, copyArgs vas fa ⟨bytes, []⟩ name args = .ok (vas', fa', mem) ∧
      (∀ x, mem.Stored x → EnvironmentByte vas' x) ∧ HoldsArguments vas' mem (name :: args)) ↔
    vas.FreeRun .user 1 envPage ∧ environmentSize name args ≤ pageSize := by
  constructor
  · rintro ⟨vas', fa', mem, hok, hwithin, -⟩
    obtain ⟨hfree, env, -, hfilled, hbytes⟩ := copyArgs_ok hwf hstock hok
    refine ⟨hfree, ?_⟩
    have hlast := (hbytes _).mp (hwithin _ hfilled.last)
    omega
  · rintro ⟨hfree, hfit⟩
    obtain ⟨⟨vas', fa', mem⟩, hok⟩ := copyArgs_returns hwf hlast hstock hfree bytes hfit
    obtain ⟨-, env, hsees, hfilled, hbytes⟩ := copyArgs_ok hwf hstock hok
    refine ⟨vas', fa', mem, hok, fun x hx ↦ (hbytes x).mpr ?_, hfilled.holdsArguments hsees hfit⟩
    have hx := hfilled.within x hx
    omega

private theorem freeRun_fresh : VirtualAddressSpace.fresh.FreeRun .user 1 envPage := by
  refine ⟨by decide, by decide, ?_⟩
  rintro vma ⟨k, hk⟩
  simp [VirtualAddressSpace.fresh] at hk

/-- `ls -a`. -/
theorem copyArgs_iff_sample :
    ∃ vas' fa' mem, copyArgs VirtualAddressSpace.fresh ascendingFrames ⟨fun _ ↦ 0, []⟩ [108, 115]
        [[45, 97]] = .ok (vas', fa', mem) ∧
      (∀ x, mem.Stored x → EnvironmentByte vas' x) ∧
      HoldsArguments vas' mem [[108, 115], [45, 97]] :=
  (copyArgs_iff (VirtualAddressSpace.wellFormed_of_empty rfl) (by decide) stocked_ascendingFrames
    _ _ _).mpr ⟨freeRun_fresh, by decide⟩

/-- One argument of 4090 bytes takes one page by its length, and 4118 bytes with what is
written around it: `copy_args` returns after it has written behind the frame. -/
theorem copyArgs_writes_behind_frame :
    ∃ vas' fa' mem, copyArgs VirtualAddressSpace.fresh ascendingFrames ⟨fun _ ↦ 0, []⟩ [108, 115]
        [List.replicate 4090 65] = .ok (vas', fa', mem) ∧
      ∃ x, mem.Stored x ∧ ¬ EnvironmentByte vas' x := by
  obtain ⟨⟨vas', fa', mem⟩, hok, -⟩ : ∃ r, copyArgs VirtualAddressSpace.fresh ascendingFrames
      ⟨fun _ ↦ 0, []⟩ [108, 115] [List.replicate 4090 65] = .ok r ∧ True := by
    decide +kernel
  obtain ⟨-, env, -, hfilled, hbytes⟩ := copyArgs_ok (VirtualAddressSpace.wellFormed_of_empty rfl)
    stocked_ascendingFrames hok
  refine ⟨vas', fa', mem, hok, _, hfilled.last, ?_⟩
  rw [hbytes]
  have hsize : environmentSize [108, 115] [List.replicate 4090 65] = 4118 := by decide +kernel
  simp only [pageSize]
  omega

end D3OS.Thread

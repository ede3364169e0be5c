import D3OS.Naming.Files

/-!
# Files as byte sequences, handles as cursors

The reference for calls on open files: a file is a sequence of bytes, a handle a cursor with an
access mode. The calls return what the reference returns as long as no call meets the access mode, a
position below zero or beyond the range of `isize`, or a file larger than the heap has room for.
-/

namespace D3OS.Naming

open Lib

/-- The contents after bytes were stored at a position; a gap is filled with zeros. -/
def store (pos : Nat) (buf data : List UInt8) : List UInt8 :=
  data.take pos ++ List.replicate (pos - data.length) 0 ++ buf ++ data.drop (pos + buf.length)

/-- The contents of the files and the cursors of the open handles. -/
structure Reference where
  files : List (List UInt8)
  handles : Nat → Option (OpenedObject Nat)

namespace Reference

/-- The contents of the file of a cursor. -/
def contents (cursor : OpenedObject Nat) (r : Reference) : List UInt8 :=
  r.files.getD cursor.object []

/-- The cursor of a handle is moved. -/
def moveTo (handle pos : Nat) (r : Reference) : Reference :=
  { r with handles := fun h ↦ (r.handles h).map fun cursor ↦
      if h = handle then { cursor with pos := pos } else cursor }

/-- Where a seek leads to. -/
def target (offset : Int64) (origin : SeekOrigin) (cursor : OpenedObject Nat) (r : Reference) :
    Int :=
  match origin with
  | .start => offset.toInt
  | .end => (r.contents cursor).length + offset.toInt
  | .current => cursor.pos + offset.toInt

/-- One call; `none` is an error. -/
def step (r : Reference) : Call → Option Result × Reference
  | .open file flags =>
    if file < r.files.length ∧ ¬ contains flags .directory then
      match lowestFree r.handles with
      | none => (none, r)
      | some handle =>
        (some (.number handle),
          { r with handles := fun h ↦ if h = handle then some ⟨file, 0, flags⟩ else r.handles h })
    else (none, r)
  | .write handle buf =>
    match r.handles handle with
    | none => (none, r)
    | some cursor =>
      if contains cursor.options .readonly then (none, r)
      else
        (some (.number buf.length), Reference.moveTo handle (cursor.pos + buf.length)
          { r with files := r.files.set cursor.object (store cursor.pos buf (r.contents cursor)) })
  | .read handle len =>
    match r.handles handle with
    | none => (none, r)
    | some cursor =>
      if contains cursor.options .writeonly then (none, r)
      else
        let bytes := ((r.contents cursor).drop cursor.pos).take len
        (some (.bytes bytes), r.moveTo handle (cursor.pos + bytes.length))
  | .seek handle offset origin =>
    match r.handles handle with
    | none => (none, r)
    | some cursor =>
      let target := r.target offset origin cursor
      if 0 ≤ target ∧ target < 2 ^ 63 then
        (some (.number target.toNat), r.moveTo handle target.toNat)
      else (none, r)
  | .stat handle =>
    match r.handles handle with
    | none => (none, r)
    | some cursor => (some (.number (r.contents cursor).length), r)
  | .close handle =>
    match r.handles handle with
    | none => (none, r)
    | some _ =>
      (some (.number 0), { r with handles := fun h ↦ if h = handle then none else r.handles h })

/-- Calls in turn, with what each returned. -/
def run : Reference → List Call → List (Option Result) × Reference
  | r, [] => ([], r)
  | r, call :: calls =>
    let (answer, r) := r.step call
    let (answers, r) := run r calls
    (answer :: answers, r)

/-- Files with these contents, none of them open. -/
def start (contents : List (List UInt8)) : Reference := ⟨contents, fun _ ↦ none⟩

end Reference

/-- The position that a seek asks for, before any conversion. -/
def seekPosition (offset : Int64) (origin : SeekOrigin) (object : OpenedObject Nat) (file : File) :
    Int :=
  match origin with
  | .start => offset.toInt
  | .end => file.size + offset.toInt
  | .current => object.pos + offset.toInt

/-- A call on an open handle keeps to the access mode, the range of positions and the heap. -/
def Admissible (limit : Nat) (s : FileSystem) : Call → Prop
  | .write handle buf => ∀ object file, s.opened handle = some (object, file) →
      ¬ contains object.options .readonly ∧
        object.pos + buf.length ≤ max file.data.length limit
  | .read handle _ => ∀ object file, s.opened handle = some (object, file) →
      ¬ contains object.options .writeonly
  | .seek handle offset origin => ∀ object file, s.opened handle = some (object, file) →
      0 ≤ seekPosition offset origin object file ∧ seekPosition offset origin object file < 2 ^ 63
  | _ => True

/-- Every call of a run is admissible where it is made. -/
def AllAdmissible (mode : Overflow) (limit : Nat) : FileSystem → List Call → Prop
  | _, [] => True
  | s, call :: calls => Admissible limit s call ∧
      ∀ answer s', s.step mode limit call = .ok (answer, s') → AllAdmissible mode limit s' calls

/-- No call panics, and each returns what the reference returns. -/
def Refines (mode : Overflow) (limit : Nat) (s : FileSystem) (r : Reference) (calls : List Call) :
    Prop :=
  ∃ answers s', s.run mode limit calls = .ok (answers, s') ∧
    answers.map Except.toOption = (r.run calls).1

private theorem refines_iff_map {mode : Overflow} {limit : Nat} {s : FileSystem} {r : Reference}
    {calls : List Call} : Refines mode limit s r calls ↔
      (s.run mode limit calls).map (fun result ↦ result.1.map Except.toOption) =
        .ok (r.run calls).1 := by
  rw [Refines]
  cases s.run mode limit calls with
  | error e => exact ⟨nofun, nofun⟩
  | ok result =>
    constructor
    · rintro ⟨answers, s', hrun, hanswers⟩
      cases hrun
      exact congrArg Except.ok hanswers
    · intro h
      exact ⟨result.1, result.2, rfl, Except.ok.inj h⟩

instance (mode : Overflow) (limit : Nat) (s : FileSystem) (r : Reference) (calls : List Call) :
    Decidable (Refines mode limit s r calls) :=
  decidable_of_iff _ refines_iff_map.symm

/-- The files and handles are those of the reference, every size is the length of the data, and
positions and lengths are in the range of `isize`. -/
structure Simulates (s : FileSystem) (r : Reference) : Prop where
  files : r.files = s.files.map (·.data)
  sizes : ∀ file ∈ s.files, file.size = file.data.length ∧ file.data.length < 2 ^ 63
  table : s.table.Valid
  handles : ∀ handle, s.table.lookupOpenedObject handle = r.handles handle
  objects : ∀ handle cursor, r.handles handle = some cursor →
    cursor.object < s.files.length ∧ cursor.pos < 2 ^ 63

section

variable {mode : Overflow} {limit : Nat} {s : FileSystem} {r : Reference} {handle : Nat}
  {object : OpenedObject Nat} {file : File}

section

variable (h : Simulates s r)
include h

private theorem Simulates.opened (handle : Nat) :
    (r.handles handle = none ∧ s.opened handle = none) ∨
    ∃ object file, r.handles handle = some object ∧ s.opened handle = some (object, file) ∧
      r.contents object = file.data ∧ file.size = file.data.length ∧
      file.data.length < 2 ^ 63 ∧ object.pos < 2 ^ 63 := by
  rw [FileSystem.opened, h.handles]
  cases hcursor : r.handles handle with
  | none => exact .inl ⟨rfl, rfl⟩
  | some object =>
    obtain ⟨hlt, hpos⟩ := h.objects handle object hcursor
    have hfile : s.files[object.object]? = some s.files[object.object] :=
      List.getElem?_eq_getElem hlt
    obtain ⟨hsize, hlength⟩ := h.sizes _ (List.getElem_mem hlt)
    refine .inr ⟨object, s.files[object.object], rfl, ?_, ?_, hsize, hlength, hpos⟩
    · show (s.files[object.object]?).bind _ = _
      rw [hfile]
      rfl
    · rw [Reference.contents, h.files, List.getD_eq_getElem?_getD, List.getElem?_map, hfile]
      rfl

private theorem Simulates.of_opened (hopened : s.opened handle = some (object, file)) :
    r.handles handle = some object ∧ r.contents object = file.data ∧
      file.size = file.data.length := by
  rcases h.opened handle with ⟨-, hnone⟩ | ⟨_, _, hcursor, hsome, hcontents, hsize, -⟩
  · cases hopened.symm.trans hnone
  · cases hopened.symm.trans hsome
    exact ⟨hcursor, hcontents, hsize⟩

private theorem Simulates.target_eq (hopened : s.opened handle = some (object, file))
    (offset : Int64) (origin : SeekOrigin) :
    r.target offset origin object = seekPosition offset origin object file := by
  obtain ⟨-, hcontents, hsize⟩ := h.of_opened hopened
  cases origin with
  | start => rfl
  | «end» => rw [Reference.target, hcontents, ← hsize, seekPosition]
  | current => rfl

end

private theorem File.read_eq (len offset : Nat) (file : File) :
    file.read len offset = (file.data.drop offset).take len := by
  rw [File.read]
  split
  next h =>
    rw [List.drop_of_length_le (by omega), List.take_nil]
  next h =>
    split
    next hlt =>
      have hlen := List.length_drop (i := offset) (l := file.data)
      rw [List.take_of_length_le (by omega), List.take_of_length_le (by omega)]
    next => rfl

private theorem length_store (pos : Nat) (buf data : List UInt8) :
    (store pos buf data).length = max data.length (pos + buf.length) := by
  simp only [store, List.length_append, List.length_take, List.length_replicate, List.length_drop]
  omega

private theorem File.write_eq {buf : List UInt8} {offset : Nat} (mode : Overflow)
    (hsize : file.size = file.data.length) (hlength : file.data.length < 2 ^ 63)
    (hlimit : limit < 2 ^ 63) (h : offset + buf.length ≤ max file.data.length limit) :
    file.write mode limit buf offset = .ok (buf.length,
      ⟨store offset buf file.data, (store offset buf file.data).length⟩) := by
  have hstop : mode.add 64 offset buf.length = .ok (offset + buf.length) :=
    Overflow.add_of_lt (by omega)
  refine bind_eq_ok.mpr ⟨_, hstop, ?_⟩
  rw [length_store]
  by_cases hgrow : offset + buf.length > file.data.length
  · refine bind_eq_ok.mpr ⟨_, (if_pos hgrow).trans (if_pos (by omega)),
      bind_eq_ok.mpr ⟨_, if_pos ?_, ?_⟩⟩
    · rw [List.length_append, List.length_replicate]
      omega
    · rw [show max file.data.length (offset + buf.length) = offset + buf.length by omega, store,
        List.drop_of_length_le (by rw [List.length_append, List.length_replicate]; omega),
        List.drop_of_length_le (by omega), List.append_nil, List.append_nil, List.take_append,
        List.take_replicate, Nat.min_eq_left (by omega)]
      rfl
  · refine bind_eq_ok.mpr ⟨file, if_neg hgrow, bind_eq_ok.mpr ⟨_, if_pos ?_, ?_⟩⟩
    · omega
    · rw [show max file.data.length (offset + buf.length) = file.size by omega, store,
        show offset - file.data.length = 0 by omega, List.replicate_zero, List.append_nil,
        List.append_assoc]
      rfl

private theorem File.le_of_write {buf : List UInt8} {offset n : Nat} {file' : File}
    (h : file.write mode limit buf offset = .ok (n, file')) :
    offset + buf.length ≤ max file.data.length limit := by
  obtain ⟨stop, -, h⟩ := of_bind h
  obtain ⟨grown, hgrown, h⟩ := of_bind h
  obtain ⟨_, hclone, -⟩ := of_bind h
  rw [File.cloneFromSlice] at hclone
  split at hclone
  next hrange =>
    rw [File.grow] at hgrown
    split at hgrown
    next hgrow =>
      rw [File.resize] at hgrown
      split at hgrown
      · omega
      · cases hgrown
    next hfits =>
      cases hgrown
      omega
  · cases hclone

private theorem seekTarget_eq {offset : Int64} {origin : SeekOrigin} (hsize : file.size < 2 ^ 63)
    (hpos : object.pos < 2 ^ 63) (hle : 0 ≤ seekPosition offset origin object file)
    (hlt : seekPosition offset origin object file < 2 ^ 63) :
    FileSystem.seekTarget mode offset origin object file =
      .ok (seekPosition offset origin object file).toNat := by
  have hstore : asUsize (seekPosition offset origin object file) =
      (seekPosition offset origin object file).toNat := by
    rw [asUsize, Int.emod_eq_of_lt hle (by omega)]
  have hadd (a b : Int) (hle : 0 ≤ a + b) (hlt : a + b < 2 ^ 63) :
      addIsize mode a b = .ok (a + b) := if_pos ⟨by omega, hlt⟩
  have hnat (n : Nat) (hn : n < 2 ^ 63) : asIsize n = n := if_pos hn
  rw [← hstore]
  cases origin with
  | start => rfl
  | «end» =>
    refine bind_eq_ok.mpr ⟨_, ?_, rfl⟩
    rw [hnat file.size hsize]
    exact hadd _ _ hle hlt
  | current =>
    refine bind_eq_ok.mpr ⟨_, ?_, rfl⟩
    rw [hnat object.pos hpos]
    exact hadd _ _ hle hlt

section

variable (h : Simulates s r)
include h

private theorem Simulates.moveTo {pos : Nat} (hpos : pos < 2 ^ 63) :
    Simulates { s with table := s.table.storePos handle pos } (r.moveTo handle pos) := by
  refine ⟨h.files, h.sizes, h.table.storePos handle pos, ?_, ?_⟩
  · intro k
    rw [OpenObjectTable.lookup_storePos, h.handles]
    rfl
  · intro k cursor hcursor
    obtain ⟨cursor', hcursor', rfl⟩ := Option.map_eq_some_iff.mp hcursor
    obtain ⟨hobject, hpos'⟩ := h.objects k cursor' hcursor'
    split
    · exact ⟨hobject, hpos⟩
    · exact ⟨hobject, hpos'⟩

private theorem Simulates.setFile {i : Nat} {data : List UInt8} (hlength : data.length < 2 ^ 63) :
    Simulates { s with files := s.files.set i ⟨data, data.length⟩ }
      { r with files := r.files.set i data } := by
  refine ⟨?_, ?_, h.table, h.handles, ?_⟩
  · rw [h.files, List.map_set]
  · intro file hfile
    rcases List.mem_or_eq_of_mem_set hfile with hfile | rfl
    · exact h.sizes file hfile
    · exact ⟨rfl, hlength⟩
  · intro k cursor hcursor
    rw [List.length_set]
    exact h.objects k cursor hcursor

private theorem Simulates.openFile (i : Nat) (flags : OpenOptions) :
    (s.openFile i flags).1.toOption = (r.step (.open i flags)).1 ∧
      Simulates (s.openFile i flags).2 (r.step (.open i flags)).2 := by
  have hlength : r.files.length = s.files.length := by rw [h.files, List.length_map]
  have hhandles : (fun k ↦ s.table.lookupOpenedObject k) = r.handles := funext h.handles
  rw [FileSystem.openFile, Reference.step, hlength]
  by_cases hlt : i < s.files.length
  · rw [List.getElem?_eq_getElem hlt]
    by_cases hdir : contains flags .directory
    · rw [if_pos hdir, if_neg (by simp [hdir])]
      exact ⟨rfl, h⟩
    · rw [if_neg hdir, if_pos ⟨hlt, hdir⟩]
      cases hfree : lowestFree r.handles with
      | none =>
        rw [h.table.allocateHandle_of_none _ (hhandles ▸ hfree)]
        exact ⟨rfl, h⟩
      | some k =>
        obtain ⟨table, hallocate, htable, hlookup⟩ :=
          h.table.allocateHandle ⟨i, 0, flags⟩ (hhandles ▸ hfree)
        rw [hallocate]
        refine ⟨rfl, h.files, h.sizes, htable, ?_, ?_⟩
        · intro k'
          rw [hlookup, h.handles]
        · intro k' cursor hcursor
          dsimp only at hcursor
          split at hcursor
          · cases hcursor
            exact ⟨hlt, Nat.two_pow_pos 63⟩
          · exact h.objects k' cursor hcursor
  · rw [List.getElem?_eq_none (by omega), if_neg fun hopen : _ ∧ _ ↦ hlt hopen.1]
    exact ⟨rfl, h⟩

private theorem Simulates.close (handle : Nat) :
    (s.close handle).1.toOption = (r.step (.close handle)).1 ∧
      Simulates (s.close handle).2 (r.step (.close handle)).2 := by
  rw [FileSystem.close, Reference.step]
  cases hcursor : r.handles handle with
  | none =>
    rw [OpenObjectTable.freeHandle_of_none ((h.handles handle).trans hcursor)]
    exact ⟨rfl, h⟩
  | some cursor =>
    obtain ⟨table, hfree, htable, hlookup⟩ :=
      h.table.freeHandle ((h.handles handle).trans hcursor)
    rw [hfree]
    refine ⟨rfl, h.files, h.sizes, htable, ?_, ?_⟩
    · intro k
      rw [hlookup, h.handles]
    · intro k cursor hk
      dsimp only at hk
      split at hk
      · cases hk
      · exact h.objects k cursor hk

private theorem Simulates.stat (handle : Nat) :
    (s.stat handle).1.toOption = (r.step (.stat handle)).1 ∧
      Simulates (s.stat handle).2 (r.step (.stat handle)).2 := by
  rw [FileSystem.stat, Reference.step]
  rcases h.opened handle with ⟨hcursor, hopened⟩ |
      ⟨cursor, file, hcursor, hopened, hcontents, hsize, -⟩ <;> rw [hcursor, hopened]
  · exact ⟨rfl, h⟩
  · dsimp only
    rw [hcontents, ← hsize]
    exact ⟨rfl, h⟩

end

private theorem Simulates.step (mode : Overflow) (h : Simulates s r) (hlimit : limit < 2 ^ 63)
    {call : Call}
    (hcall : Admissible limit s call) :
    ∃ answer s', s.step mode limit call = .ok (answer, s') ∧
      answer.toOption = (r.step call).1 ∧ Simulates s' (r.step call).2 := by
  cases call with
  | «open» i flags => exact ⟨_, _, rfl, h.openFile i flags⟩
  | close handle => exact ⟨_, _, rfl, h.close handle⟩
  | stat handle => exact ⟨_, _, rfl, h.stat handle⟩
  | write handle buf =>
    rw [FileSystem.step, FileSystem.write, Reference.step]
    rcases h.opened handle with ⟨hcursor, hopened⟩ |
        ⟨cursor, file, hcursor, hopened, hcontents, hsize, hlength, hpos⟩ <;> rw [hcursor, hopened]
    · exact ⟨_, _, rfl, rfl, h⟩
    · obtain ⟨hmode, hroom⟩ := hcall cursor file hopened
      dsimp only
      rw [if_neg hmode, hcontents]
      have hstored : (store cursor.pos buf file.data).length < 2 ^ 63 := by
        rw [length_store]
        omega
      refine ⟨_, _, bind_eq_ok.mpr ⟨_, File.write_eq mode hsize hlength hlimit hroom,
        bind_eq_ok.mpr ⟨_, Overflow.add_of_lt (by omega), rfl⟩⟩, rfl, ?_⟩
      exact (h.setFile hstored).moveTo (by omega)
  | read handle len =>
    rw [FileSystem.step, FileSystem.read, Reference.step]
    rcases h.opened handle with ⟨hcursor, hopened⟩ |
        ⟨cursor, file, hcursor, hopened, hcontents, hsize, hlength, hpos⟩ <;> rw [hcursor, hopened]
    · exact ⟨_, _, rfl, rfl, h⟩
    · dsimp only
      rw [if_neg (hcall cursor file hopened), hcontents, File.read_eq]
      have hend : cursor.pos + ((file.data.drop cursor.pos).take len).length < 2 ^ 63 := by
        rw [List.length_take, List.length_drop]
        omega
      exact ⟨_, _, bind_eq_ok.mpr ⟨_, Overflow.add_of_lt (by omega), rfl⟩, rfl,
        h.moveTo hend⟩
  | seek handle offset origin =>
    rw [FileSystem.step, FileSystem.seek, Reference.step]
    rcases h.opened handle with ⟨hcursor, hopened⟩ |
        ⟨cursor, file, hcursor, hopened, hcontents, hsize, hlength, hpos⟩ <;> rw [hcursor, hopened]
    · exact ⟨_, _, rfl, rfl, h⟩
    · obtain ⟨hle, hlt⟩ := hcall cursor file hopened
      dsimp only
      rw [h.target_eq hopened, if_pos ⟨hle, hlt⟩]
      exact ⟨_, _, bind_eq_ok.mpr ⟨_, seekTarget_eq (by omega) hpos hle hlt, rfl⟩, rfl,
        h.moveTo (by omega)⟩

private theorem Simulates.admissible (h : Simulates s r) {call : Call}
    {answer : Except Errno Result}
    {s' : FileSystem} (hstep : s.step mode limit call = .ok (answer, s'))
    (hanswer : answer.toOption = (r.step call).1) : Admissible limit s call := by
  cases call with
  | «open» i flags | close handle | stat handle => trivial
  | write handle buf =>
    intro object file hopened
    rw [FileSystem.step, FileSystem.write, hopened] at hstep
    obtain ⟨⟨n, file'⟩, hwrite, hstep⟩ := of_bind hstep
    obtain ⟨pos, -, hstep⟩ := of_bind hstep
    cases hstep
    refine ⟨fun hreadonly ↦ ?_, File.le_of_write hwrite⟩
    rw [Reference.step, (h.of_opened hopened).1] at hanswer
    dsimp only at hanswer
    rw [if_pos hreadonly] at hanswer
    cases hanswer
  | read handle len =>
    intro object file hopened hwriteonly
    rw [FileSystem.step, FileSystem.read, hopened] at hstep
    obtain ⟨pos, -, hstep⟩ := of_bind hstep
    cases hstep
    rw [Reference.step, (h.of_opened hopened).1] at hanswer
    dsimp only at hanswer
    rw [if_pos hwriteonly] at hanswer
    cases hanswer
  | seek handle offset origin =>
    intro object file hopened
    rw [FileSystem.step, FileSystem.seek, hopened] at hstep
    obtain ⟨pos, -, hstep⟩ := of_bind hstep
    cases hstep
    have hcursor := (h.of_opened hopened).1
    rw [Reference.step, hcursor] at hanswer
    dsimp only at hanswer
    rw [h.target_eq hopened] at hanswer
    split at hanswer
    next hrange => exact hrange
    · cases hanswer

end

private theorem simulates_start {contents : List (List UInt8)}
    (h : ∀ data ∈ contents, data.length < 2 ^ 63) :
    Simulates (FileSystem.start contents) (Reference.start contents) := by
  refine ⟨?_, ?_, OpenObjectTable.valid_new, fun _ ↦ rfl, nofun⟩
  · show contents = (contents.map fun data ↦ (⟨data, data.length⟩ : File)).map (·.data)
    rw [List.map_map]
    exact (List.map_id contents).symm
  · intro file hfile
    obtain ⟨data, hdata, rfl⟩ := List.mem_map.mp hfile
    exact ⟨rfl, h data hdata⟩

private theorem refines_iff {mode : Overflow} {limit : Nat} {s : FileSystem} {r : Reference}
    (h : Simulates s r) (hlimit : limit < 2 ^ 63) (calls : List Call) :
    Refines mode limit s r calls ↔ AllAdmissible mode limit s calls := by
  induction calls generalizing s r with
  | nil => exact ⟨fun _ ↦ trivial, fun _ ↦ ⟨[], s, rfl, rfl⟩⟩
  | cons call calls ih =>
    constructor
    · rintro ⟨answers, s', hrun, hanswers⟩
      obtain ⟨⟨answer, s₁⟩, hstep, hrun⟩ := of_bind hrun
      obtain ⟨⟨rest, s₂⟩, hrest, hrun⟩ := of_bind hrun
      cases hrun
      obtain ⟨hanswer, hanswers⟩ := List.cons.inj hanswers
      have hcall := h.admissible hstep hanswer
      obtain ⟨answer', s₁', hstep', -, hsim⟩ := h.step mode hlimit hcall
      refine ⟨hcall, fun answer'' s₁'' hstep'' ↦ ?_⟩
      cases Except.ok.inj (hstep''.symm.trans hstep')
      cases Except.ok.inj (hstep.symm.trans hstep')
      exact (ih hsim).mp ⟨rest, s', hrest, hanswers⟩
    · rintro ⟨hcall, hcalls⟩
      obtain ⟨answer, s₁, hstep, hanswer, hsim⟩ := h.step mode hlimit hcall
      obtain ⟨rest, s₂, hrest, hanswers⟩ := (ih hsim).mpr (hcalls answer s₁ hstep)
      refine ⟨answer :: rest, s₂, ?_, ?_⟩
      · exact bind_eq_ok.mpr ⟨_, hstep, bind_eq_ok.mpr ⟨_, hrest, rfl⟩⟩
      · rw [List.map_cons, hanswer, hanswers]
        rfl

/-- For every build profile, files with any contents and calls with any arguments: the calls return
what they return on byte sequences and cursors, and none panics, if and only if each call keeps to
the access mode of its handle, a seek leads to a position from zero to the largest `isize`, and a
write ends within the file or within the room of the heap. -/
theorem files_refine_iff (mode : Overflow) {limit : Nat} (hlimit : limit < 2 ^ 63)
    {contents : List (List UInt8)} (hcontents : ∀ data ∈ contents, data.length < 2 ^ 63)
    (calls : List Call) :
    Refines mode limit (.start contents) (.start contents) calls ↔
      AllAdmissible mode limit (.start contents) calls :=
  refines_iff (simulates_start hcontents) hlimit calls

/-- Calls that a process may make. -/
theorem files_refine_iff_sample : AllAdmissible .panics 4096 (.start [[]])
    [.open 0 2, .write 0 [1, 2], .seek 0 5 .start, .write 0 [3], .seek 0 (-6) .current,
      .read 0 8, .stat 0, .close 0] := by
  apply (files_refine_iff .panics (by decide) (by decide) _).mp
  decide +kernel

/-- A write on a handle that was opened for reading succeeds, a seek below zero succeeds, and the
write after it panics. -/
theorem readonly_write_and_negative_seek :
    ¬ Refines .panics 4096 (.start [[]]) (.start [[]]) [.open 0 1, .write 0 [7]] ∧
      ¬ Refines .panics 4096 (.start [[]]) (.start [[]]) [.open 0 2, .seek 0 (-1) .start] ∧
      (FileSystem.run .panics 4096 (.start [[]]) [.open 0 2, .seek 0 (-1) .start, .write 0 [7]]).map
        (·.1) = .error .overflow := by
  decide +kernel

end D3OS.Naming

import D3OS.Base.Rust

/-!
# The piece table

`TextBuffer` of `os/library/text_buffer/src/lib.rs`. The text is a sequence of pieces of two
buffers, the initial string and the characters that were inserted. Lengths are those of strings in
memory, so no sum of them overflows.
-/

namespace D3OS.Text

/-- `TextBufferError`, `lib.rs:27`. -/
inductive TextBufferError where
  | addressOutOfBounds
  deriving DecidableEq, Repr

/-- `BufferDescr`, `lib.rs:32`. -/
inductive BufferDescr where
  | file
  | add
  deriving DecidableEq, Repr

/-- `UndoRedoOperation`, `lib.rs:38`. -/
inductive UndoRedoOperation where
  | undo
  | redo
  | none
  deriving DecidableEq, Repr

/-- `Operation`, `lib.rs:45`. -/
inductive Operation where
  | insert (logicalAdress : Nat) (c : Char)
  | delete (logicalAdress : Nat) (c : Char)
  deriving DecidableEq, Repr

/-- `PieceDescr`, `lib.rs:51`. -/
structure PieceDescr where
  buffer : BufferDescr
  offset : Nat
  length : Nat
  deriving DecidableEq, Repr

/-- `TextBuffer`, `lib.rs:57`. The last entry of `history` and of `redo` comes first. -/
structure TextBuffer where
  fileBuffer : List Char
  addBuffer : List Char
  pieceTable : List PieceDescr
  lenght : Nat
  history : List Operation
  redo : List Operation
  deriving DecidableEq, Repr

/-- `Vec::insert`. -/
def insertAt {α : Type} (i : Nat) (a : α) (l : List α) : Except Panic (List α) :=
  if i ≤ l.length then .ok (l.insertIdx i a) else .error .assertion

/-- The sum of the lengths of pieces. -/
def total (pieces : List PieceDescr) : Nat := (pieces.map (·.length)).sum

/-- The loop of `resolve_logical_adress`, at an index with its logical start. -/
def resolveFrom (logicalAdress : Nat) (append : Bool) :
    List PieceDescr → Nat → Nat → Option (Nat × Nat)
  | [], i, _ => if append then some (i, 0) else none
  | p :: rest, i, start =>
    if start ≤ logicalAdress ∧ logicalAdress < start + p.length then some (i, logicalAdress - start)
    else resolveFrom logicalAdress append rest (i + 1) (start + p.length)

/-- The length with one more piece. -/
theorem total_cons (p : PieceDescr) (rest : List PieceDescr) :
    total (p :: rest) = p.length + total rest := by
  rfl

private theorem lt_of_resolveFrom {la : Nat} {table : List PieceDescr} {i start : Nat}
    {place : Nat × Nat}
    (h : resolveFrom la false table i start = some place) : la < start + total table := by
  induction table generalizing i start with
  | nil => cases h
  | cons p rest ih =>
    rw [total_cons]
    rw [resolveFrom] at h
    split at h
    · omega
    · have hlt := ih h
      omega

namespace TextBuffer

/-- `from_str`, `lib.rs:273`. -/
def fromStr (fileBuffer : List Char) : TextBuffer :=
  ⟨fileBuffer, [], [⟨.file, 0, fileBuffer.length⟩], fileBuffer.length, [], []⟩

/-- `len`, `lib.rs:69`. -/
def len (b : TextBuffer) : Nat := b.lenght

/-- The characters of a buffer. -/
def chars (b : TextBuffer) : BufferDescr → List Char
  | .file => b.fileBuffer
  | .add => b.addBuffer

/-- `resolve_logical_adress`, `lib.rs:196`. -/
def resolveLogicalAdress (logicalAdress : Nat) (append : Bool) (b : TextBuffer) :
    Option (Nat × Nat) :=
  resolveFrom logicalAdress append b.pieceTable 0 0

/-- `get_char`, `lib.rs:72`. -/
def getChar (logicalAdress : Nat) (b : TextBuffer) : Option Char := do
  let (i, offset) ← b.resolveLogicalAdress logicalAdress false
  let piece ← b.pieceTable[i]?
  (b.chars piece.buffer)[piece.offset + offset]?

/-- `self.piece_table[i]`. -/
def piece (i : Nat) (b : TextBuffer) : Except Panic PieceDescr :=
  match b.pieceTable[i]? with
  | some p => .ok p
  | none => .error .assertion

/-- How `_insert` and `_delete` end: the operation goes on one of the two stacks. -/
def log (operation : UndoRedoOperation) (entry : Operation) (b : TextBuffer) : TextBuffer :=
  match operation with
  | .undo => { b with redo := entry :: b.redo }
  | .none => { b with history := entry :: b.history, redo := [] }
  | .redo => { b with history := entry :: b.history }

/-- `self.add_buffer.push(c)`. -/
def push (c : Char) (b : TextBuffer) : TextBuffer := { b with addBuffer := b.addBuffer ++ [c] }

/-- Whether the piece before the insertion ends where the new character is. -/
def extendsPiece (i offset : Nat) (b : TextBuffer) : Except Panic Bool :=
  if 0 < i ∧ offset = 0 then do
    let p ← b.piece (i - 1)
    let last ← subOrPanic b.addBuffer.length 1
    return p.buffer = .add ∧ p.offset + p.length = last
  else .ok false

/-- The piece table that `_insert` leaves once the character is in the buffer. -/
def insertPiece (i offset : Nat) (b : TextBuffer) : Except Panic (List PieceDescr) := do
  if ← b.extendsPiece i offset then
    let p ← b.piece (i - 1)
    return b.pieceTable.set (i - 1) { p with length := p.length + 1 }
  else
    let last ← subOrPanic b.addBuffer.length 1
    if i = b.pieceTable.length then insertAt i ⟨.add, last, 1⟩ b.pieceTable
    else if offset = 0 then insertAt i ⟨.add, last, 1⟩ b.pieceTable
    else
      let p ← b.piece i
      let rest ← subOrPanic p.length offset
      let table := b.pieceTable.set i { p with length := offset }
      let table ← insertAt (i + 1) ⟨p.buffer, p.offset + offset, rest⟩ table
      insertAt (i + 1) ⟨.add, last, 1⟩ table

/-- `_insert`, `lib.rs:110`. -/
def insertAs (operation : UndoRedoOperation) (logicalAdress : Nat) (c : Char) (b : TextBuffer) :
    Except Panic (Except TextBufferError Unit × TextBuffer) :=
  match b.resolveLogicalAdress logicalAdress true with
  | none => .ok (.error .addressOutOfBounds, b)
  | some (i, offset) => do
    let b := b.push c
    let table ← b.insertPiece i offset
    let b := { b with pieceTable := table, lenght := b.lenght + 1 }
    return (.ok (), b.log operation (.insert logicalAdress c))

/-- `insert`, `lib.rs:107`. -/
def insert (logicalAdress : Nat) (c : Char) (b : TextBuffer) :
    Except Panic (Except TextBufferError Unit × TextBuffer) :=
  b.insertAs .none logicalAdress c

/-- The piece table that `_delete` leaves, before an empty piece is removed. -/
def cutPiece (i offset : Nat) (b : TextBuffer) : Except Panic (List PieceDescr) := do
  let p ← b.piece i
  let last ← subOrPanic p.length 1
  if offset = 0 then return b.pieceTable.set i { p with offset := p.offset + 1, length := last }
  else if last = offset then return b.pieceTable.set i { p with length := last }
  else
    let rest ← subOrPanic p.length offset
    let rest ← subOrPanic rest 1
    let table := b.pieceTable.set i { p with length := offset }
    insertAt (i + 1) ⟨p.buffer, p.offset + offset + 1, rest⟩ table

/-- `_delete`, `lib.rs:222`. -/
def deleteAs (operation : UndoRedoOperation) (logicalAdress : Nat) (b : TextBuffer) :
    Except Panic (Except TextBufferError Unit × TextBuffer) :=
  match b.resolveLogicalAdress logicalAdress false with
  | none => .ok (.error .addressOutOfBounds, b)
  | some (i, offset) =>
    match b.getChar logicalAdress with
    | none => .ok (.error .addressOutOfBounds, b)
    | some c => do
      let table ← b.cutPiece i offset
      let p ← unwrap table[i]?
      let table := if p.length = 0 then table.eraseIdx i else table
      let lenght ← subOrPanic b.lenght 1
      let b := { b with pieceTable := table, lenght := lenght }
      return (.ok (), b.log operation (.delete logicalAdress c))

/-- `delete`, `lib.rs:219`. -/
def delete (logicalAdress : Nat) (b : TextBuffer) :
    Except Panic (Except TextBufferError Unit × TextBuffer) :=
  b.deleteAs .none logicalAdress

private theorem lt_of_getChar {b : TextBuffer} {i : Nat} {c : Char} (h : b.getChar i = some c) :
    i < total b.pieceTable := by
  obtain ⟨place, hplace, -⟩ := Option.bind_eq_some_iff.mp h
  rw [← Nat.zero_add (total b.pieceTable)]
  exact lt_of_resolveFrom hplace

/-- The loop of `to_string`. -/
def toStringFrom (b : TextBuffer) (i : Nat) : List Char :=
  match h : b.getChar i with
  | some c => c :: toStringFrom b (i + 1)
  | none => []
termination_by total b.pieceTable - i
decreasing_by
  have := lt_of_getChar h
  omega

/-- `to_string`, `lib.rs:287`. -/
def toString (b : TextBuffer) : List Char := b.toStringFrom 0

end TextBuffer

end D3OS.Text

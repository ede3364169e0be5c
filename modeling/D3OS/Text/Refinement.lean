import D3OS.Text.PieceTable

/-!
# The piece table is a sequence of characters

The text of a buffer is what its pieces spell. Insertion and deletion change it as they change a
plain sequence, for every address and every history.
-/

namespace D3OS.Text

open Lib

/-- `n` entries of a list, from `offset` on. -/
def span {α : Type} (l : List α) (offset n : Nat) : List α := (l.drop offset).take n

variable {k : Nat}

section

variable {α : Type} {l : List α} {offset n : Nat}

private theorem length_span (h : offset + n ≤ l.length) : (span l offset n).length = n := by
  rw [span, List.length_take, List.length_drop]
  omega

private theorem span_add (l : List α) (offset m n : Nat) :
    span l offset (m + n) = span l offset m ++ span l (offset + m) n := by
  rw [span, span, span, List.take_add, List.drop_drop]

private theorem span_append (h : offset + n ≤ l.length) (l' : List α) :
    span (l ++ l') offset n = span l offset n := by
  rw [span, span, List.drop_append_of_le_length (by omega),
    List.take_append_of_le_length (by rw [List.length_drop]; omega)]

private theorem take_span (h : k ≤ n) : (span l offset n).take k = span l offset k := by
  rw [span, span, List.take_take, Nat.min_eq_left h]

private theorem drop_span (l : List α) (offset n k : Nat) :
    (span l offset n).drop k = span l (offset + k) (n - k) := by
  rw [span, span, List.drop_take, List.drop_drop]

private theorem span_one {a : α} (h : l[offset]? = some a) : span l offset 1 = [a] := by
  obtain ⟨hlt, rfl⟩ := List.getElem?_eq_some_iff.mp h
  rw [span, List.drop_eq_getElem_cons hlt, List.take_succ_cons, List.take_zero]

private theorem getElem?_span {i : Nat} (h : i < n) : (span l offset n)[i]? = l[offset + i]? := by
  rw [span, List.getElem?_take_of_lt h, List.getElem?_drop]

end

private theorem resolveFrom_cases (la : Nat) (append : Bool) (table : List PieceDescr)
    (i start : Nat)
    (hstart : start ≤ la) :
    (∃ pre p post, table = pre ++ p :: post ∧ start + total pre ≤ la ∧
      la < start + total pre + p.length ∧
      resolveFrom la append table i start = some (i + pre.length, la - start - total pre)) ∨
    (start + total table ≤ la ∧ resolveFrom la append table i start =
      if append then some (i + table.length, 0) else none) := by
  induction table generalizing i start with
  | nil => exact Or.inr ⟨hstart, rfl⟩
  | cons p rest ih =>
    rw [resolveFrom]
    split
    next h => exact Or.inl ⟨[], p, rest, rfl, hstart, h.2, rfl⟩
    next h =>
      rcases ih (i + 1) (start + p.length) (by omega) with
        ⟨pre, q, post, rfl, hle, hlt, heq⟩ | ⟨hle, heq⟩
      · refine Or.inl ⟨p :: pre, q, post, rfl, ?_, ?_, ?_⟩
        · rw [total_cons]
          omega
        · rw [total_cons]
          omega
        · rw [heq, total_cons, List.length_cons]
          congr 2 <;> omega
      · refine Or.inr ⟨?_, ?_⟩
        · rw [total_cons]
          omega
        · rw [heq, List.length_cons, Nat.add_assoc, Nat.add_comm 1]

variable {α : Type}

section

variable (pre post : List α)

private theorem insertIdx_append (a : α) :
    (pre ++ post).insertIdx pre.length a = pre ++ a :: post := by
  induction pre with
  | nil => rfl
  | cons x pre ih =>
    rw [List.length_cons, List.cons_append, List.insertIdx_succ_cons, ih]
    rfl

private theorem insertAt_append (a : α) :
    insertAt pre.length a (pre ++ post) = .ok (pre ++ a :: post) := by
  rw [insertAt, if_pos (by rw [List.length_append]; omega), insertIdx_append]

private theorem insertAt_behind (x a : α) :
    insertAt (pre.length + 1) a (pre ++ x :: post) = .ok (pre ++ x :: a :: post) := by
  have h := insertAt_append (pre ++ [x]) post a
  rwa [List.length_append, List.append_assoc, List.append_assoc] at h

private theorem set_append_cons (a a' : α) :
    (pre ++ a :: post).set pre.length a' = pre ++ a' :: post := by
  rw [List.set_append_right _ _ (Nat.le_refl _), Nat.sub_self]
  rfl

private theorem getElem?_append_cons (a : α) :
    (pre ++ a :: post)[pre.length]? = some a := by
  rw [List.getElem?_append_right (Nat.le_refl _), Nat.sub_self]
  rfl

private theorem eraseIdx_append_cons (a : α) :
    (pre ++ a :: post).eraseIdx pre.length = pre ++ post := by
  rw [List.eraseIdx_append_of_length_le (Nat.le_refl _), Nat.sub_self]
  rfl

end

namespace TextBuffer

variable {b : TextBuffer} {la : Nat} {c : Char}

/-- What a piece spells. -/
def spell (b : TextBuffer) (p : PieceDescr) : List Char :=
  span (b.chars p.buffer) p.offset p.length

/-- A piece lies within its buffer. -/
def Fits (b : TextBuffer) (p : PieceDescr) : Prop :=
  p.offset + p.length ≤ (b.chars p.buffer).length

/-- The text of a buffer. -/
def text (b : TextBuffer) : List Char := b.pieceTable.flatMap b.spell

/-- The pieces lie within their buffers and spell a text. -/
structure Spells (b : TextBuffer) (pieces : List PieceDescr) (t : List Char) : Prop where
  fits : ∀ p ∈ pieces, b.Fits p
  text : pieces.flatMap b.spell = t

/-- The pieces spell the text, and the stored length is the sum of their lengths. -/
structure Valid (b : TextBuffer) : Prop where
  spells : b.Spells b.pieceTable b.text
  lenght : b.lenght = total b.pieceTable

variable {p : PieceDescr}

private theorem Fits.length_spell (h : b.Fits p) : (b.spell p).length = p.length :=
  length_span h

private theorem Fits.part (h : b.Fits p) {n : Nat} (hle : k + n ≤ p.length) :
    b.Fits ⟨p.buffer, p.offset + k, n⟩ := by
  have h : p.offset + p.length ≤ (b.chars p.buffer).length := h
  show p.offset + k + n ≤ (b.chars p.buffer).length
  omega

private theorem take_spell (h : k ≤ p.length) :
    (b.spell p).take k = b.spell { p with length := k } := take_span h

private theorem drop_spell (b : TextBuffer) (p : PieceDescr) (k : Nat) :
    (b.spell p).drop k = b.spell ⟨p.buffer, p.offset + k, p.length - k⟩ := drop_span _ _ _ _

private theorem spells_nil (b : TextBuffer) : b.Spells [] [] := ⟨nofun, rfl⟩

section

variable {pre post : List PieceDescr} {p : PieceDescr} {before behind t : List Char}

private theorem Spells.cons (h : b.Spells post behind) (hp : b.Fits p) :
    b.Spells (p :: post) (b.spell p ++ behind) := by
  constructor
  · intro q hq
    rcases List.mem_cons.mp hq with rfl | hq
    · exact hp
    · exact h.fits q hq
  · rw [List.flatMap_cons, h.text]

private theorem Spells.append (hpre : b.Spells pre before) (hpost : b.Spells post behind) :
    b.Spells (pre ++ post) (before ++ behind) := by
  constructor
  · intro p hp
    rcases List.mem_append.mp hp with hp | hp
    · exact hpre.fits p hp
    · exact hpost.fits p hp
  · rw [List.flatMap_append, hpre.text, hpost.text]

private theorem spells_append (h : b.Spells (pre ++ post) t) :
    ∃ before behind, b.Spells pre before ∧ b.Spells post behind ∧ t = before ++ behind := by
  refine ⟨_, _, ⟨fun p hp ↦ h.fits p (List.mem_append_left _ hp), rfl⟩,
    ⟨fun p hp ↦ h.fits p (List.mem_append_right _ hp), rfl⟩, ?_⟩
  rw [← h.text, List.flatMap_append]

private theorem spells_cons (h : b.Spells (p :: post) t) :
    b.Fits p ∧ ∃ behind, b.Spells post behind ∧ t = b.spell p ++ behind := by
  refine ⟨h.fits p List.mem_cons_self, _,
    ⟨fun q hq ↦ h.fits q (List.mem_cons_of_mem p hq), rfl⟩, ?_⟩
  rw [← h.text, List.flatMap_cons]

private theorem Spells.total_eq (h : b.Spells pre before) : total pre = before.length := by
  induction pre generalizing before with
  | nil =>
    rw [← h.text]
    rfl
  | cons p rest ih =>
    obtain ⟨hp, behind, hrest, rfl⟩ := spells_cons h
    rw [total_cons, ih hrest, List.length_append, hp.length_spell]

private theorem Spells.remove (h : b.Spells (pre ++ p :: post) t) (hp : p.length = 0) :
    b.Spells (pre ++ post) t := by
  obtain ⟨before, behind, hpre, hrest, rfl⟩ := spells_append h
  obtain ⟨hfits, behind, hpost, rfl⟩ := spells_cons hrest
  have hnil : b.spell p = [] := List.eq_nil_of_length_eq_zero (hfits.length_spell.trans hp)
  rw [hnil]
  exact hpre.append hpost

private theorem Fits.push (h : b.Fits p) (c : Char) :
    (b.push c).Fits p ∧ (b.push c).spell p = b.spell p := by
  obtain ⟨buffer, offset, length⟩ := p
  cases buffer with
  | file => exact ⟨h, rfl⟩
  | add =>
    have h : offset + length ≤ b.addBuffer.length := h
    constructor
    · show offset + length ≤ (b.addBuffer ++ [c]).length
      rw [List.length_append]
      omega
    · exact span_append h [c]

private theorem Spells.push (h : b.Spells pre before) (c : Char) :
    (b.push c).Spells pre before := by
  induction pre generalizing before with
  | nil =>
    rw [← h.text]
    exact spells_nil _
  | cons p rest ih =>
    obtain ⟨hp, behind, hrest, rfl⟩ := spells_cons h
    rw [← (hp.push c).2]
    exact (ih hrest).cons (hp.push c).1

private theorem Spells.congr {b' : TextBuffer} (h : b.Spells pre before)
    (hchars : b'.chars = b.chars) :
    b'.Spells pre before := by
  have hspell : b'.spell = b.spell := by
    funext p
    rw [spell, spell, hchars]
  refine ⟨fun p hp ↦ ?_, by rw [hspell, h.text]⟩
  rw [Fits, hchars]
  exact h.fits p hp

private theorem Spells.valid (h : b.Spells b.pieceTable t) (hlenght : b.lenght = t.length) :
    b.Valid ∧ b.text = t := by
  have htext : b.text = t := h.text
  exact ⟨⟨htext ▸ h, hlenght.trans h.total_eq.symm⟩, htext⟩

end

private theorem Valid.resolve_cases (h : b.Valid) (la : Nat) (append : Bool) :
    (∃ pre p post before behind, b.pieceTable = pre ++ p :: post ∧ b.Spells pre before ∧ b.Fits p ∧
      b.Spells post behind ∧ b.text = before ++ (b.spell p ++ behind) ∧ before.length ≤ la ∧
      la < before.length + p.length ∧
      b.resolveLogicalAdress la append = some (pre.length, la - before.length)) ∨
    (b.text.length ≤ la ∧ b.resolveLogicalAdress la append =
      if append then some (b.pieceTable.length, 0) else none) := by
  have hcases := resolveFrom_cases la append b.pieceTable 0 0 (Nat.zero_le la)
  simp only [Nat.zero_add, Nat.sub_zero] at hcases
  rcases hcases with ⟨pre, p, post, htable, hle, hlt, hresolve⟩ | ⟨hle, hresolve⟩
  · obtain ⟨before, behind, hpre, hrest, htext⟩ := spells_append (htable ▸ h.spells)
    obtain ⟨hp, behind, hpost, rfl⟩ := spells_cons hrest
    rw [hpre.total_eq] at hle hlt hresolve
    exact Or.inl ⟨pre, p, post, before, behind, htable, hpre, hp, hpost, htext, hle, hlt, hresolve⟩
  · exact Or.inr ⟨h.spells.total_eq ▸ hle, hresolve⟩

private theorem Valid.getChar_eq (h : b.Valid) (la : Nat) : b.getChar la = b.text[la]? := by
  rw [getChar]
  rcases h.resolve_cases la false with
    ⟨pre, p, post, before, behind, htable, -, hp, -, htext, hle, hlt, hresolve⟩ | ⟨hle, hresolve⟩
  · have hpiece : b.pieceTable[pre.length]? = some p := by
      rw [htable, getElem?_append_cons]
    have hlength := hp.length_spell
    rw [htext, List.getElem?_append_right hle, List.getElem?_append_left (by omega), spell,
      getElem?_span (by omega), hresolve]
    show (b.pieceTable[pre.length]?).bind _ = _
    rw [hpiece]
    rfl
  · rw [hresolve, List.getElem?_eq_none hle]
    rfl

private theorem Valid.toStringFrom_eq (h : b.Valid) (i : Nat) :
    b.toStringFrom i = b.text.drop i := by
  induction hleft : b.text.length - i generalizing i with
  | zero =>
    rw [toStringFrom, List.drop_of_length_le (by omega)]
    split
    next c hc =>
      rw [h.getChar_eq, List.getElem?_eq_none (by omega)] at hc
      cases hc
    · rfl
  | succ left ih =>
    have hlt : i < b.text.length := by omega
    have hchar : b.getChar i = some b.text[i] := by
      rw [h.getChar_eq, List.getElem?_eq_getElem hlt]
    rw [toStringFrom, List.drop_eq_getElem_cons hlt]
    split
    next c hc =>
      rw [hchar] at hc
      cases hc
      rw [ih (i + 1) (by omega)]
    next hc =>
      rw [hchar] at hc
      cases hc

/-- The piece of a pushed character. -/
def pushedPiece (b : TextBuffer) : PieceDescr := ⟨.add, b.addBuffer.length, 1⟩

private theorem spell_pushedPiece (b : TextBuffer) (c : Char) : (b.push c).spell b.pushedPiece =
    [c] := by
  apply span_one
  show (b.addBuffer ++ [c])[b.addBuffer.length]? = some c
  simp

private theorem fits_pushedPiece (b : TextBuffer) (c : Char) : (b.push c).Fits b.pushedPiece := by
  have hlen : (b.addBuffer ++ [c]).length = b.addBuffer.length + 1 := List.length_append
  exact Nat.le_of_eq hlen.symm

private theorem extend_piece {q : PieceDescr} (hq : b.Fits q) (hbuffer : q.buffer = .add)
    (hend : q.offset + q.length = b.addBuffer.length) (c : Char) :
    (b.push c).Fits { q with length := q.length + 1 } ∧
      (b.push c).spell { q with length := q.length + 1 } = b.spell q ++ [c] := by
  obtain ⟨buffer, offset, length⟩ := q
  cases hbuffer
  have hend : offset + length = b.addBuffer.length := hend
  constructor
  · show offset + (length + 1) ≤ (b.addBuffer ++ [c]).length
    rw [List.length_append, List.length_singleton]
    omega
  · rw [← b.spell_pushedPiece c, ← (hq.push c).2]
    show span _ _ (length + 1) = span _ _ length ++ span _ b.addBuffer.length 1
    rw [← hend, span_add]
    rfl

private theorem piece_append {pre post : List PieceDescr}
    (htable : b.pieceTable = pre ++ p :: post) :
    b.piece pre.length = .ok p := by
  rw [piece, htable, getElem?_append_cons]

private theorem subOrPanic_push (b : TextBuffer) (c : Char) :
    subOrPanic (b.push c).addBuffer.length 1 = .ok b.addBuffer.length := by
  rw [push, List.length_append, List.length_singleton, subOrPanic, if_pos (by omega)]
  rfl

section

variable {pre post : List PieceDescr} {before behind : List Char}

private theorem extendsPiece_push {q : PieceDescr} (htable : b.pieceTable = pre ++ q :: post)
    (c : Char) :
    (b.push c).extendsPiece (pre.length + 1) 0 =
      .ok (decide (q.buffer = .add ∧ q.offset + q.length = b.addBuffer.length)) := by
  rw [extendsPiece, if_pos ⟨Nat.succ_pos _, rfl⟩, subOrPanic_push]
  exact bind_eq_ok.mpr ⟨q, piece_append (b := b.push c) htable, rfl⟩

private theorem insertPiece_boundary (htable : b.pieceTable = pre ++ post)
    (hpre : b.Spells pre before)
    (hpost : b.Spells post behind) (c : Char) :
    ∃ table, (b.push c).insertPiece pre.length 0 = .ok table ∧
      (b.push c).Spells table (before ++ c :: behind) := by
  have hnew : (b.push c).Spells (pre ++ b.pushedPiece :: post) (before ++ c :: behind) := by
    have h := (hpre.push c).append ((hpost.push c).cons (b.fits_pushedPiece c))
    rwa [spell_pushedPiece] at h
  have hinsert (h : (b.push c).extendsPiece pre.length 0 = .ok false) :
      (b.push c).insertPiece pre.length 0 = .ok (pre ++ b.pushedPiece :: post) := by
    refine bind_eq_ok.mpr ⟨false, h, ?_⟩
    rw [if_neg (by decide), subOrPanic_push]
    refine Eq.trans ?_ (insertAt_append pre post b.pushedPiece)
    rw [← htable]
    show (if _ then _ else _) = _
    rw [if_pos (rfl : 0 = 0), ite_self]
    rfl
  rcases pre.eq_nil_or_concat with rfl | ⟨init, q, rfl⟩
  · exact ⟨_, hinsert rfl, hnew⟩
  · rw [List.concat_eq_append] at hpre htable hnew hinsert ⊢
    rw [List.append_assoc] at htable
    rw [List.length_append] at hinsert ⊢
    have hextends := extendsPiece_push htable c
    by_cases hq : q.buffer = .add ∧ q.offset + q.length = b.addBuffer.length
    · rw [decide_eq_true hq] at hextends
      obtain ⟨first, last, hinit, hlast, rfl⟩ := spells_append hpre
      obtain ⟨hfits, last, hnil, rfl⟩ := spells_cons hlast
      cases hnil.text
      obtain ⟨hlonger, hspell⟩ := extend_piece hfits hq.1 hq.2 c
      refine ⟨init ++ { q with length := q.length + 1 } :: post, ?_, ?_⟩
      · refine bind_eq_ok.mpr ⟨true, hextends, ?_⟩
        refine bind_eq_ok.mpr ⟨q, piece_append (b := b.push c) htable, ?_⟩
        rw [← set_append_cons init post q]
        exact congrArg (fun table ↦ Except.ok (List.set table init.length _)) htable
      · have h := (hinit.push c).append ((hpost.push c).cons hlonger)
        rw [hspell] at h
        simpa only [List.flatMap_nil, List.append_nil, List.append_assoc, List.singleton_append]
          using h
    · rw [decide_eq_false hq] at hextends
      exact ⟨_, hinsert hextends, hnew⟩

private theorem insertPiece_within {offset : Nat} (htable : b.pieceTable = pre ++ p :: post)
    (hpre : b.Spells pre before) (hp : b.Fits p) (hpost : b.Spells post behind) (hpos : 0 < offset)
    (hlt : offset < p.length) (c : Char) :
    ∃ table, (b.push c).insertPiece pre.length offset = .ok table ∧
      (b.push c).Spells table
        (before ++ (b.spell p).take offset ++ c :: ((b.spell p).drop offset ++ behind)) := by
  have hfirst : b.Fits { p with length := offset } := hp.part (k := 0) (by omega)
  have hrest : b.Fits ⟨p.buffer, p.offset + offset, p.length - offset⟩ := hp.part (by omega)
  refine ⟨pre ++ { p with length := offset } :: b.pushedPiece ::
    ⟨p.buffer, p.offset + offset, p.length - offset⟩ :: post, ?_, ?_⟩
  · have hextends : (b.push c).extendsPiece pre.length offset = .ok false := if_neg (by omega)
    have hshorter := set_append_cons pre post p { p with length := offset }
    have hindex : pre.length ≠ (b.push c).pieceTable.length := by
      show _ ≠ b.pieceTable.length
      rw [htable, List.length_append, List.length_cons]
      omega
    refine bind_eq_ok.mpr ⟨false, hextends, ?_⟩
    rw [if_neg (by decide), subOrPanic_push]
    show (if _ then _ else _) = _
    rw [if_neg hindex, if_neg (by omega)]
    refine bind_eq_ok.mpr ⟨p, piece_append (b := b.push c) htable, ?_⟩
    refine bind_eq_ok.mpr ⟨p.length - offset, if_pos (by omega), ?_⟩
    rw [← htable] at hshorter
    refine bind_eq_ok.mpr ⟨_, (congrArg _ hshorter).trans (insertAt_behind pre post _ _), ?_⟩
    exact insertAt_behind pre _ _ b.pushedPiece
  · have h := (hpre.push c).append (((((hpost.push c).cons (hrest.push c).1).cons
      (b.fits_pushedPiece c)).cons (hfirst.push c).1))
    rw [spell_pushedPiece, (hfirst.push c).2, (hrest.push c).2, ← drop_spell,
      ← take_spell (by omega)] at h
    simpa only [List.append_assoc, List.cons_append, List.nil_append] using h

end

section

variable (operation : UndoRedoOperation) (entry : Operation) (b : TextBuffer)

@[simp] private theorem chars_log : (b.log operation entry).chars = b.chars := by
  cases operation <;> rfl

@[simp] private theorem pieceTable_log : (b.log operation entry).pieceTable = b.pieceTable := by
  cases operation <;> rfl

@[simp] private theorem lenght_log : (b.log operation entry).lenght = b.lenght := by
  cases operation <;> rfl

end

private theorem Spells.log {table : List PieceDescr} {t : List Char} (h : b.Spells table t)
    (operation : UndoRedoOperation) (entry : Operation) {n : Nat} (hn : n = t.length) :
    (TextBuffer.log operation entry { b with pieceTable := table, lenght := n }).Valid ∧
      (TextBuffer.log operation entry { b with pieceTable := table, lenght := n }).text = t := by
  apply Spells.valid
  · rw [pieceTable_log]
    exact h.congr (chars_log operation entry _)
  · rw [lenght_log]
    exact hn

private theorem Valid.insertAs (h : b.Valid) (operation : UndoRedoOperation) (la : Nat) (c : Char) :
    ∃ b', b.insertAs operation la c = .ok (.ok (), b') ∧ b'.Valid ∧
      b'.text = b.text.insertIdx (min la b.text.length) c := by
  have hstep {i offset : Nat} {table : List PieceDescr} {before behind : List Char}
      (hresolve : b.resolveLogicalAdress la true = some (i, offset))
      (hinsert : (b.push c).insertPiece i offset = .ok table)
      (hspells : (b.push c).Spells table (before ++ c :: behind))
      (htext : b.text = before ++ behind) (hlength : before.length = min la b.text.length) :
      ∃ b', b.insertAs operation la c = .ok (.ok (), b') ∧ b'.Valid ∧
        b'.text = b.text.insertIdx (min la b.text.length) c := by
    have hn : b.lenght + 1 = (before ++ c :: behind).length := by
      rw [h.lenght, h.spells.total_eq, htext, List.length_append, List.length_append,
        List.length_cons]
      omega
    obtain ⟨hvalid, htext'⟩ := hspells.log operation (.insert la c) hn
    rw [TextBuffer.insertAs, hresolve]
    refine ⟨_, bind_eq_ok.mpr ⟨table, hinsert, rfl⟩, hvalid, htext'.trans ?_⟩
    rw [← hlength, htext, insertIdx_append]
  rcases h.resolve_cases la true with
    ⟨pre, p, post, before, behind, htable, hpre, hp, hpost, htext, hle, hlt, hresolve⟩ |
    ⟨hle, hresolve⟩
  · have hlength := hp.length_spell
    by_cases hzero : la - before.length = 0
    · rw [hzero] at hresolve
      obtain ⟨table, hinsert, hspells⟩ := insertPiece_boundary htable hpre (hpost.cons hp) c
      refine hstep hresolve hinsert hspells htext ?_
      rw [htext, List.length_append]
      omega
    · obtain ⟨table, hinsert, hspells⟩ :=
        insertPiece_within htable hpre hp hpost (Nat.pos_of_ne_zero hzero) (by omega) c
      refine hstep hresolve hinsert hspells ?_ ?_
      · rw [List.append_assoc, ← List.append_assoc (List.take _ _), List.take_append_drop, htext]
      · rw [htext, List.length_append, List.length_append, List.length_append, List.length_take]
        omega
  · obtain ⟨table, hinsert, hspells⟩ :=
      insertPiece_boundary (List.append_nil b.pieceTable).symm h.spells (spells_nil b) c
    exact hstep hresolve hinsert hspells (List.append_nil _).symm (by omega)

private theorem cutPiece_spec {pre post : List PieceDescr} {before behind : List Char}
    {offset : Nat}
    (htable : b.pieceTable = pre ++ p :: post) (hpre : b.Spells pre before) (hp : b.Fits p)
    (hpost : b.Spells post behind) (hlt : offset < p.length) :
    ∃ q rest, b.cutPiece pre.length offset = .ok (pre ++ q :: rest) ∧
      b.Spells (pre ++ q :: rest)
        (before ++ ((b.spell p).take offset ++ ((b.spell p).drop (offset + 1) ++ behind))) := by
  have hset (q : PieceDescr) : b.pieceTable.set pre.length q = pre ++ q :: post := by
    rw [htable, set_append_cons]
  have hlast : subOrPanic p.length 1 = .ok (p.length - 1) := if_pos (by omega)
  rw [drop_spell, take_spell (by omega)]
  by_cases hzero : offset = 0
  · subst hzero
    refine ⟨⟨p.buffer, p.offset + 1, p.length - 1⟩, post, ?_, ?_⟩
    · refine bind_eq_ok.mpr ⟨p, piece_append htable, bind_eq_ok.mpr ⟨_, hlast, ?_⟩⟩
      rw [if_pos rfl, hset]
      rfl
    · exact hpre.append (hpost.cons (hp.part (by omega)))
  · have hfirst : b.Fits { p with length := offset } := hp.part (k := 0) (by omega)
    by_cases hend : p.length - 1 = offset
    · refine ⟨{ p with length := offset }, post, ?_, ?_⟩
      · refine bind_eq_ok.mpr ⟨p, piece_append htable, bind_eq_ok.mpr ⟨_, hlast, ?_⟩⟩
        rw [if_neg hzero, if_pos hend, hset, hend]
        rfl
      · rw [show p.length - (offset + 1) = 0 by omega]
        exact hpre.append (hpost.cons hfirst)
    · refine ⟨{ p with length := offset },
        ⟨p.buffer, p.offset + (offset + 1), p.length - (offset + 1)⟩ :: post, ?_, ?_⟩
      · refine bind_eq_ok.mpr ⟨p, piece_append htable, bind_eq_ok.mpr ⟨_, hlast, ?_⟩⟩
        rw [if_neg hzero, if_neg hend]
        refine bind_eq_ok.mpr ⟨p.length - offset, if_pos (by omega), ?_⟩
        refine bind_eq_ok.mpr ⟨p.length - offset - 1, if_pos (by omega), ?_⟩
        rw [hset]
        exact insertAt_behind pre post _ _
      · exact hpre.append ((hpost.cons (hp.part (by omega))).cons hfirst)

private theorem Valid.deleteAs (h : b.Valid) (operation : UndoRedoOperation) {la : Nat}
    (hlt : la < b.text.length) :
    ∃ b', b.deleteAs operation la = .ok (.ok (), b') ∧ b'.Valid ∧ b'.text = b.text.eraseIdx la := by
  rcases h.resolve_cases la false with
    ⟨pre, p, post, before, behind, htable, hpre, hp, hpost, htext, hle, hoffset, hresolve⟩ |
    ⟨hle, -⟩
  · have hlength := hp.length_spell
    have hchar : b.getChar la = some b.text[la] := by
      rw [h.getChar_eq, List.getElem?_eq_getElem hlt]
    obtain ⟨q, rest, hcut, hspells⟩ :=
      cutPiece_spec htable hpre hp hpost (by omega : la - before.length < p.length)
    have herase : before ++ ((b.spell p).take (la - before.length) ++
        ((b.spell p).drop (la - before.length + 1) ++ behind)) = b.text.eraseIdx la := by
      rw [htext, List.eraseIdx_append_of_length_le hle,
        List.eraseIdx_append_of_lt_length (by omega), List.eraseIdx_eq_take_drop_succ,
        List.append_assoc]
    rw [herase] at hspells
    have hunwrap : unwrap (pre ++ q :: rest)[pre.length]? = .ok q := by
      rw [getElem?_append_cons]
      rfl
    have htable' : b.Spells (if q.length = 0 then (pre ++ q :: rest).eraseIdx pre.length
        else pre ++ q :: rest) (b.text.eraseIdx la) := by
      split
      next hempty =>
        rw [eraseIdx_append_cons]
        exact hspells.remove hempty
      · exact hspells
    have hlenght : b.lenght = b.text.length := h.lenght.trans h.spells.total_eq
    have hn : b.lenght - 1 = (b.text.eraseIdx la).length := by
      rw [List.length_eraseIdx_of_lt hlt, hlenght]
    obtain ⟨hvalid, htext'⟩ := htable'.log operation (.delete la b.text[la]) hn
    rw [TextBuffer.deleteAs, hresolve]
    refine ⟨_, ?_, hvalid, htext'⟩
    rw [hchar]
    refine bind_eq_ok.mpr ⟨_, hcut, bind_eq_ok.mpr ⟨q, hunwrap, ?_⟩⟩
    exact bind_eq_ok.mpr ⟨_, if_pos (by omega), rfl⟩
  · omega

private theorem Valid.deleteAs_of_le (h : b.Valid) (operation : UndoRedoOperation) {la : Nat}
    (hle : b.text.length ≤ la) :
    b.deleteAs operation la = .ok (.error .addressOutOfBounds, b) := by
  rcases h.resolve_cases la false with
    ⟨pre, p, post, before, behind, -, -, hp, -, htext, -, hlt, -⟩ | ⟨-, hresolve⟩
  · have hlength := hp.length_spell
    rw [htext, List.length_append, List.length_append] at hle
    omega
  · rw [TextBuffer.deleteAs, hresolve]
    rfl

private theorem valid_fromStr (s : List Char) : (fromStr s).Valid ∧ (fromStr s).text = s := by
  have hp : (fromStr s).Fits ⟨.file, 0, s.length⟩ := by
    show 0 + s.length ≤ s.length
    omega
  have hspells := (spells_nil (fromStr s)).cons hp
  have hspell : (fromStr s).spell ⟨.file, 0, s.length⟩ = s := by
    show (s.drop 0).take s.length = s
    rw [List.drop_zero, List.take_length]
  rw [hspell, List.append_nil] at hspells
  exact hspells.valid rfl

end TextBuffer

/-- An edit of a text. -/
inductive Edit where
  | insert (logicalAdress : Nat) (c : Char)
  | delete (logicalAdress : Nat)
  deriving DecidableEq, Repr

namespace Edit

/-- An edit of a buffer. -/
def apply (b : TextBuffer) : Edit → Except Panic (Except TextBufferError Unit × TextBuffer)
  | insert la c => b.insert la c
  | delete la => b.delete la

/-- An edit of a plain sequence of characters. -/
def applyText (t : List Char) : Edit → Except TextBufferError Unit × List Char
  | insert la c => (.ok (), t.insertIdx (min la t.length) c)
  | delete la => if la < t.length then (.ok (), t.eraseIdx la) else (.error .addressOutOfBounds, t)

/-- Edits of a buffer, with what each returned. -/
def run : List Edit → TextBuffer → Except Panic (List (Except TextBufferError Unit) × TextBuffer)
  | [], b => .ok ([], b)
  | e :: edits, b => do
    let (answer, b) ← e.apply b
    let (answers, b) ← run edits b
    return (answer :: answers, b)

/-- Edits of a plain sequence of characters, with what each returned. -/
def runText : List Edit → List Char → List (Except TextBufferError Unit) × List Char
  | [], t => ([], t)
  | e :: edits, t =>
    let (answer, t) := e.applyText t
    let (answers, t) := runText edits t
    (answer :: answers, t)

private theorem apply_refines {b : TextBuffer} (h : b.Valid) (e : Edit) :
    ∃ b', e.apply b = .ok ((e.applyText b.text).1, b') ∧ b'.Valid ∧
      b'.text = (e.applyText b.text).2 := by
  cases e with
  | insert la c => exact h.insertAs .none la c
  | delete la =>
    by_cases hlt : la < b.text.length
    · rw [applyText, if_pos hlt]
      exact h.deleteAs .none hlt
    · rw [applyText, if_neg hlt]
      exact ⟨b, h.deleteAs_of_le .none (Nat.le_of_not_lt hlt), h, rfl⟩

private theorem run_refines {b : TextBuffer} (h : b.Valid) (edits : List Edit) :
    ∃ b', run edits b = .ok ((runText edits b.text).1, b') ∧ b'.Valid ∧
      b'.text = (runText edits b.text).2 := by
  induction edits generalizing b with
  | nil => exact ⟨b, rfl, h, rfl⟩
  | cons e edits ih =>
    obtain ⟨b₁, happly, hvalid, htext⟩ := apply_refines h e
    obtain ⟨b₂, hrun, hvalid', htext'⟩ := ih hvalid
    rw [htext] at hrun htext'
    exact ⟨b₂, bind_eq_ok.mpr ⟨_, happly, bind_eq_ok.mpr ⟨_, hrun, rfl⟩⟩, hvalid', htext'⟩

end Edit

/-- For every initial string and all edits at any addresses: no edit panics, each returns what it
returns on a plain sequence of characters, and afterwards `to_string`, `get_char` at every address,
`len` and the piece lengths agree with that sequence. An edit that fails leaves the buffer as it
was. -/
theorem textBuffer_refines (s : List Char) (edits : List Edit) :
    ∃ b, Edit.run edits (TextBuffer.fromStr s) = .ok ((Edit.runText edits s).1, b) ∧
      b.toString = (Edit.runText edits s).2 ∧
      (∀ la, b.getChar la = (Edit.runText edits s).2[la]?) ∧
      b.len = (Edit.runText edits s).2.length ∧
      total b.pieceTable = (Edit.runText edits s).2.length ∧
      ∀ la, (Edit.runText edits s).2.length ≤ la →
        b.delete la = .ok (.error .addressOutOfBounds, b) := by
  obtain ⟨hvalid, htext⟩ := TextBuffer.valid_fromStr s
  obtain ⟨b, hrun, hvalid, htext'⟩ := Edit.run_refines hvalid edits
  rw [htext] at hrun htext'
  refine ⟨b, hrun, ?_, ?_, ?_, ?_, ?_⟩
  · rw [TextBuffer.toString, hvalid.toStringFrom_eq, List.drop_zero, htext']
  · intro la
    rw [hvalid.getChar_eq, htext']
  · rw [TextBuffer.len, hvalid.lenght, hvalid.spells.total_eq, htext']
  · rw [hvalid.spells.total_eq, htext']
  · intro la hle
    exact hvalid.deleteAs_of_le .none (htext' ▸ hle)

end D3OS.Text

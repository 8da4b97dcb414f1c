/-!
# Cursors

A cursor is a place in a text, held as the text from there on and the number of its line. Distances are counted
in the bytes of the text's UTF-8 form, lines by a counter of 32 bits that starts again from zero where it is full.
-/

namespace ChessEval.Text

structure Cursor where
  rest : List Char
  line : UInt32
deriving DecidableEq, Repr

def byteCount (text : List Char) : Nat :=
  text.foldr (fun c count => c.utf8Size + count) 0

namespace Cursor

/-- The characters of a text that a number of bytes reaches, and those after them. -/
def splitBytes : Nat → List Char → List Char × List Char
  | _, [] => ([], [])
  | n, c :: cs => if n = 0 then ([], c :: cs) else (splitBytes (n - c.utf8Size) cs).map (c :: ·) id

def ofText (text : String) : Cursor :=
  ⟨text.toList, 1⟩

/-- Moves the cursor forward, at most to the end of the text, and keeps the line in step. -/
def advance (cursor : Cursor) (bytes : Nat) : Cursor :=
  let passed := splitBytes bytes cursor.rest
  ⟨passed.2, cursor.line + UInt32.ofNat (passed.1.count '\n')⟩

def remainder (cursor : Cursor) : String :=
  String.ofList cursor.rest

def current (cursor : Cursor) : Char :=
  cursor.rest.headD '\x00'

def atEnd (cursor : Cursor) : Bool :=
  cursor.rest.isEmpty

theorem byteCount_cons_ne_zero (c : Char) (text : List Char) : byteCount (c :: text) ≠ 0 := by
  have hpos := c.utf8Size_pos
  exact Nat.ne_of_gt (Nat.add_pos_left hpos _)

theorem splitBytes_cons {n : Nat} (h : n ≠ 0) (c : Char) (cs : List Char) :
    splitBytes n (c :: cs) = (splitBytes (n - c.utf8Size) cs).map (c :: ·) id :=
  if_neg h

theorem splitBytes_append (text tail : List Char) : splitBytes (byteCount text) (text ++ tail) = (text, tail) := by
  induction text with
  | nil => cases tail <;> rfl
  | cons c text ih =>
    have hcount : byteCount (c :: text) = byteCount text + c.utf8Size := Nat.add_comm _ _
    rw [List.cons_append, splitBytes_cons (byteCount_cons_ne_zero c text), hcount, Nat.add_sub_cancel, ih]
    rfl

theorem advance_append (text tail : List Char) (line : UInt32) :
    advance ⟨text ++ tail, line⟩ (byteCount text) = ⟨tail, line + UInt32.ofNat (text.count '\n')⟩ := by
  simp only [advance, splitBytes_append]

theorem length_splitBytes_le (n : Nat) (cs : List Char) : (splitBytes n cs).2.length ≤ cs.length := by
  induction cs generalizing n with
  | nil => exact Nat.le_refl _
  | cons c cs ih =>
    rw [splitBytes]
    split
    · exact Nat.le_refl _
    · exact Nat.le_succ_of_le (ih _)

/-- A cursor that moves over a character has less of the text before it. -/
theorem length_advance_lt {cursor : Cursor} {n : Nat} (h : cursor.atEnd = false) (hn : 0 < n) :
    (cursor.advance (byteCount (cursor.rest.take n))).rest.length < cursor.rest.length := by
  obtain ⟨rest, line⟩ := cursor
  cases rest with
  | nil => cases h
  | cons c cs =>
    obtain ⟨n, rfl⟩ := Nat.exists_eq_add_one_of_ne_zero (Nat.ne_of_gt hn)
    change (splitBytes (byteCount (c :: cs.take n)) (c :: cs)).2.length < _
    rw [splitBytes_cons (byteCount_cons_ne_zero _ _)]
    exact Nat.lt_succ_of_le (length_splitBytes_le _ cs)

end Cursor

end ChessEval.Text

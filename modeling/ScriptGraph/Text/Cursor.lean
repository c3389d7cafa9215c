/-!
# Cursors

A cursor is a place in a text.  It keeps what lies before it, last character first, and what lies
after it, so that a pattern can look back as well as ahead.
-/

namespace ScriptGraph.Text

structure Cursor where
  /-- The characters before the place, the nearest one first. -/
  back : List Char
  /-- The characters after the place. -/
  rest : List Char
deriving DecidableEq, Repr

namespace Cursor

def start (text : List Char) : Cursor := ⟨[], text⟩

def text (c : Cursor) : List Char := c.back.reverse ++ c.rest

def offset (c : Cursor) : Nat := c.back.length

/-- The place `n` characters on, or the end of the text. -/
def skip : Nat → Cursor → Cursor
  | n + 1, ⟨back, x :: rest⟩ => skip n ⟨x :: back, rest⟩
  | _, c => c

/-- The characters from `c` up to the later place `d`. -/
def upTo (c d : Cursor) : List Char := c.rest.take (c.rest.length - d.rest.length)

/-- The same place in the text that ends at the later place `d`. -/
def endingAt (c d : Cursor) : Cursor := ⟨c.back, c.upTo d⟩

@[simp] theorem text_start (text : List Char) : (start text).text = text := rfl

@[simp] theorem offset_start (text : List Char) : (start text).offset = 0 := rfl

theorem text_step (back rest : List Char) (x : Char) :
    text ⟨x :: back, rest⟩ = text ⟨back, x :: rest⟩ := by simp [text]

@[simp] theorem text_skip (n : Nat) (c : Cursor) : (skip n c).text = c.text := by
  fun_induction skip n c with
  | case1 n back x rest ih => rw [ih, text_step]
  | case2 => rfl

end Cursor

end ScriptGraph.Text

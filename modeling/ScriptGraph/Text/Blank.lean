/-!
# Blanks

The characters that separate tokens and that trimming removes from the ends of a text.
-/

namespace ScriptGraph.Text

/-- White space: the ASCII blanks, the four information separators, and the blanks of Unicode. -/
def isBlank (c : Char) : Bool :=
  let n := c.toNat
  if n < 0x80 then (0x09 ≤ n && n ≤ 0x0d) || (0x1c ≤ n && n ≤ 0x20)
  else n == 0x85 || n == 0xa0 || n == 0x1680 || (0x2000 ≤ n && n ≤ 0x200a) ||
    n == 0x2028 || n == 0x2029 || n == 0x202f || n == 0x205f || n == 0x3000

/-- White space as Unicode defines it: the blanks without the four information separators. -/
def isSpace (c : Char) : Bool := isBlank c && !(0x1c ≤ c.toNat && c.toNat < 0x20)

def trimSpace (text : List Char) : List Char :=
  ((text.dropWhile isSpace).reverse.dropWhile isSpace).reverse

def trimStart (text : List Char) : List Char := text.dropWhile isBlank

def trimEnd (text : List Char) : List Char := (text.reverse.dropWhile isBlank).reverse

def trim (text : List Char) : List Char := trimEnd (trimStart text)

/-- A text of blanks only; the empty text is one. -/
def allBlank (text : List Char) : Bool := text.all isBlank

end ScriptGraph.Text

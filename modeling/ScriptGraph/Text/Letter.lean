import ScriptGraph.Text.Pattern

/-!
# Letters without regard to case

Words of the language are recognised in any case.  Besides the two ASCII cases of a letter this
admits four characters: the dotted capital and the dotless small `i` (U+0130, U+0131) for `i`, the
long `s` (U+017F) for `s`, and the Kelvin sign (U+212A) for `k`.
-/

namespace ScriptGraph.Text

/-- The ASCII lower-case letter that a character can stand for in a word; any other character
stands for itself. -/
def plainLetter (c : Char) : Char :=
  if 'A' ≤ c ∧ c ≤ 'Z' then Char.ofNat (c.toNat + 32)
  else if c.toNat < 0x80 then c
  else if c.toNat == 0x130 || c.toNat == 0x131 then 'i'
  else if c.toNat == 0x17f then 's'
  else if c.toNat == 0x212a then 'k'
  else c

def sameLetter (a b : Char) : Bool := plainLetter a == plainLetter b

def isAsciiLetter (c : Char) : Bool := ('A' ≤ c && c ≤ 'Z') || ('a' ≤ c && c ≤ 'z')

namespace Pattern

def word (letters : String) : Pattern := all (letters.toList.map fun x => one (sameLetter x))

/-- The given letters, in any case, after a word edge. -/
def startingWord (letters : String) : Pattern := seq wordEdge (word letters)

end Pattern

end ScriptGraph.Text

/-!
# Lower case, as far as ASCII words need it

A text is compared with lower-case ASCII words.  The only characters with a lower-case form that is
one ASCII letter are `A` to `Z` and the Kelvin sign, so these are the ones that change.
-/

namespace ScriptGraph.Text

/-- The lower-case form of a character, where that form is an ASCII letter. -/
def lowerChar (c : Char) : Char :=
  if 'A' ≤ c ∧ c ≤ 'Z' then Char.ofNat (c.toNat + 32)
  else if c == 'K' then 'k'
  else c

/-- The lower-case form of a text, for comparison with an ASCII word. -/
def lower (text : List Char) : List Char := text.map lowerChar

end ScriptGraph.Text

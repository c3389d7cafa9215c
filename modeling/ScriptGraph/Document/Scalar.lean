import ScriptGraph.Number.Double
import ScriptGraph.Text.Blank

/-!
# Counts and flags in documents

A count is an integer, and a flag a truth value.  A document may also give them in other ways: a
count as a text of digits or as a double without a fraction, and a flag as a word or as zero or one.
-/

namespace ScriptGraph

/-- Whether a number fits into a signed word of 64 bits. -/
def fitsWord (n : Int) : Bool := -0x8000000000000000 ≤ n && n < 0x8000000000000000

/-! ### Counts -/

/-- Why something is no count. -/
inductive CountFault where
  /-- Neither a number nor a text. -/
  | noNumber
  /-- A text that stands for no integer. -/
  | unreadable
  /-- A text of too many digits, or a double too far from zero. -/
  | tooLarge
  /-- A double with a fraction. -/
  | fractional
  /-- An infinity or a NaN. -/
  | endless
deriving DecidableEq

namespace Count

/-- The greatest number of digits of an integer that is read; a sign does not count. -/
def digitLimit : Nat := 4300

/-- The integer that a text of a sign, if need be, and digits stands for; zeros come first only in
zero itself. -/
def ofPlain (text : List Char) : Except CountFault Int :=
  let negative := text.head? == some '-'
  let digits := if negative then text.drop 1 else text
  let run := digits.takeWhile Char.isDigit
  if run == ['0'] && digits.length == 1 then .ok 0
  else if run.isEmpty || digits.head? == some '0' then .error .unreadable
  else if digitLimit < run.length then .error .tooLarge
  else if run.length < digits.length then .error .unreadable
  else
    let n := run.foldl (fun n c => n * 10 + (c.toNat - '0'.toNat)) 0
    .ok (if negative then Int.negOfNat n else Int.ofNat n)

/-- A text without the zeros at its start, where underscores may stand among them; at least one
character is left before a point and before the end.  Only a digit can come first, and only a digit,
a minus sign or a point can follow the zeros. -/
def dropZeros? : List Char → Option (List Char)
  | [] => none
  | c :: later =>
      if c == '0' then after c later
      else if c.isDigit then some (c :: later)
      else none
where
  /-- What is left after zeros and underscores, the last of which is given. -/
  after (last : Char) : List Char → Option (List Char)
    | [] => some [last]
    | c :: later =>
        if c == '0' || c == '_' then after c later
        else if c.isDigit || c == '-' then some (c :: later)
        else if c == '.' then some (last :: c :: later)
        else none

/-- A text without a point and the zeros after it, at least one, at its end. -/
def dropFraction (text : List Char) : List Char :=
  let whole := text.takeWhile (· != '.')
  let fraction := text.drop (whole.length + 1)
  if !fraction.isEmpty && fraction.all (· == '0') then whole else text

def hasDoubleUnderscore : List Char → Bool
  | '_' :: '_' :: _ => true
  | _ :: later => hasDoubleUnderscore later
  | [] => false

/-- A text without its underscores, if they are single ones inside it. -/
def dropUnderscores (text : List Char) : List Char :=
  if text.head? == some '_' || text.getLast? == some '_' || hasDoubleUnderscore text then text
  else text.filter (· != '_')

/-- A text without what may be written around and inside an integer: white space and a plus sign,
zeros before it and a fraction of zeros after it, and underscores between the digits.  A minus sign
stays. -/
def bare? (text : List Char) : Option (List Char) :=
  let (sign, unsigned) := match Text.trimSpace text with
    | '-' :: later => (['-'], later)
    | '+' :: later => ([], later)
    | trimmed => ([], trimmed)
  (dropZeros? unsigned).map fun digits => sign ++ dropUnderscores (dropFraction digits)

def ofText (text : List Char) : Except CountFault Int :=
  match ofPlain text with
  | .error .unreadable =>
      match (bare? text).map ofPlain with
      | some (.ok n) => .ok n
      | _ => .error .unreadable
  | read => read

def ofDouble (x : Double) : Except CountFault Int :=
  if !x.isFinite then .error .endless
  else
    match x.integer? with
    | none => .error .fractional
    | some n => if n.natAbs < 0x8000000000000000 then .ok n else .error .tooLarge

end Count

/-! ### Flags -/

/-- Why something is no flag. -/
inductive FlagFault where
  /-- Neither a word nor a number that can be looked at as a flag. -/
  | noFlag
  /-- A word or a number other than those for flags. -/
  | unreadable
deriving DecidableEq

namespace Flag

def setWords : List String := ["1", "t", "y", "on", "yes", "true"]

def unsetWords : List String := ["0", "f", "n", "no", "off", "false"]

/-- The flag that a word stands for, in capitals or not. -/
def ofText (word : String) : Except FlagFault Bool :=
  let small := word.map Char.toLower
  if setWords.contains small then .ok true
  else if unsetWords.contains small then .ok false
  else .error .unreadable

def ofInt (n : Int) : Except FlagFault Bool :=
  if n = 0 then .ok false
  else if n = 1 then .ok true
  else if fitsWord n then .error .unreadable
  else .error .noFlag

def ofDouble (x : Double) : Except FlagFault Bool :=
  match x.integer? with
  | some n => if n.natAbs < 0x8000000000000000 then ofInt n else .error .noFlag
  | none => .error .noFlag

end Flag

end ScriptGraph

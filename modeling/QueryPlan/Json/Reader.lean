import QueryPlan.Json.Value
import QueryPlan.Text.Utf16

/-!
Reading the text of a JSON value. Digits that stand alone are an integer if 64 bits can hold it;
any other number is kept in writing, and so is `-0`, which is no integer. Of members of one name
the last one counts.
-/
namespace QueryPlan.Json

open Text

abbrev Reader (α : Type) := List Char → Option (α × List Char)

def isBlank (c : Char) : Bool := c == ' ' || c == '\t' || c == '\n' || c == '\r'

def skipBlanks (cs : List Char) : List Char := cs.dropWhile isBlank

def hexDigit? (c : Char) : Option Nat :=
  if '0' ≤ c ∧ c ≤ '9' then some (c.toNat - '0'.toNat)
  else if 'a' ≤ c ∧ c ≤ 'f' then some (c.toNat - 'a'.toNat + 10)
  else if 'A' ≤ c ∧ c ≤ 'F' then some (c.toNat - 'A'.toNat + 10)
  else none

def hexNumber? (digits : List Char) : Option Nat :=
  digits.foldlM (fun n c => (hexDigit? c).map (n * 16 + ·)) 0

def escaped? : Char → Option Char
  | '"' => some '"'
  | '\\' => some '\\'
  | '/' => some '/'
  | 'b' => some '\x08'
  | 'f' => some '\x0c'
  | 'n' => some '\n'
  | 'r' => some '\r'
  | 't' => some '\t'
  | _ => none

/-- The rest of a text up to the quote that ends it, after the characters `done`, the last one
first. Where `high?` is a surrogate, the low one must be next. -/
def readText (done : List Char) (high? : Option Nat) : Reader String
  | '\\' :: 'u' :: a :: b :: c :: d :: rest =>
    match hexNumber? [a, b, c, d], high? with
    | some low, some high =>
      if isLowSurrogate low then readText (joinSurrogates high low :: done) none rest else none
    | some unit, none =>
      if isHighSurrogate unit then readText done (some unit) rest
      else if isLowSurrogate unit then none
      else readText (Char.ofNat unit :: done) none rest
    | none, _ => none
  | '\\' :: e :: rest =>
    match escaped? e, high? with
    | some c, none => readText (c :: done) none rest
    | _, _ => none
  | c :: rest =>
    if high?.isSome || c < ' ' then none
    else if c = '"' then some (String.ofList done.reverse, rest)
    else readText (c :: done) none rest
  | [] => none

def readDigits : Reader (List Char) := fun cs =>
  let digits := cs.takeWhile Char.isDigit
  if digits.isEmpty then none else some (digits, cs.dropWhile Char.isDigit)

def readWhole : Reader (List Char)
  | '0' :: rest => some (['0'], rest)
  | cs => readDigits cs

def readFraction : Reader (List Char)
  | '.' :: rest => (readDigits rest).map fun (digits, rest) => ('.' :: digits, rest)
  | cs => some ([], cs)

def readExponent : Reader (List Char)
  | e :: rest =>
    if e = 'e' ∨ e = 'E' then
      let (sign, rest) := match rest with
        | '+' :: rest => ([], rest)
        | '-' :: rest => (['-'], rest)
        | rest => ([], rest)
      (readDigits rest).map fun (digits, rest) => ('e' :: sign ++ digits, rest)
    else some ([], e :: rest)
  | [] => some ([], [])

def signedNumber (negative : Bool) (digits : List Char) : Int :=
  let n : Nat := digits.foldl (fun n c => n * 10 + (c.toNat - '0'.toNat)) 0
  if negative then -n else n

/-- The value of a number by its parts. A point after the digits tells a whole number that is no
integer from one that is. -/
def ofParts (negative : Bool) (whole fraction exponent : List Char) : Json :=
  let n := signedNumber negative whole
  let sign := if negative then ['-'] else []
  if fraction.isEmpty && exponent.isEmpty then
    if (negative && n == 0) || n < Int64.minValue.toInt || UInt64.size ≤ n then
      number (String.ofList (sign ++ whole ++ ['.', '0']))
    else integer n
  else number (String.ofList (sign ++ whole ++ fraction ++ exponent))

def readNumber : Reader Json := fun cs => do
  let (negative, cs) := match cs with
    | '-' :: rest => (true, rest)
    | cs => (false, cs)
  let (whole, cs) ← readWhole cs
  let (fraction, cs) ← readFraction cs
  let (exponent, cs) ← readExponent cs
  return (ofParts negative whole fraction exponent, cs)

/-- Members in ascending order of their names with one more, which takes the place of any other of
its name. -/
def insertMember (name : String) (j : Json) : List (String × Json) → List (String × Json)
  | [] => [(name, j)]
  | (other, k) :: members =>
    if name < other then (name, j) :: (other, k) :: members
    else if name = other then (name, j) :: members
    else (other, k) :: insertMember name j members

def ofMembers (members : List (String × Json)) : Json :=
  object (members.foldl (fun ms (name, j) => insertMember name j ms) [])

mutual

def readValue : Nat → Reader Json
  | 0, _ => none
  | fuel + 1, cs =>
    match skipBlanks cs with
    | 'n' :: 'u' :: 'l' :: 'l' :: rest => some (null, rest)
    | 't' :: 'r' :: 'u' :: 'e' :: rest => some (boolean true, rest)
    | 'f' :: 'a' :: 'l' :: 's' :: 'e' :: rest => some (boolean false, rest)
    | '"' :: rest => (readText [] none rest).map fun (s, rest) => (text s, rest)
    | '[' :: rest =>
      match skipBlanks rest with
      | ']' :: rest => some (array [], rest)
      | rest => (readItems fuel rest).map fun (items, rest) => (array items, rest)
    | '\x7b' :: rest =>
      match skipBlanks rest with
      | '\x7d' :: rest => some (object [], rest)
      | rest => (readMembers fuel rest).map fun (members, rest) => (ofMembers members, rest)
    | rest => readNumber rest

def readItems : Nat → Reader (List Json)
  | 0, _ => none
  | fuel + 1, cs => do
    let (j, cs) ← readValue fuel cs
    match skipBlanks cs with
    | ',' :: rest => (readItems fuel rest).map fun (items, rest) => (j :: items, rest)
    | ']' :: rest => some ([j], rest)
    | _ => none

def readMembers : Nat → Reader (List (String × Json))
  | 0, _ => none
  | fuel + 1, cs => do
    let (name, cs) ← match skipBlanks cs with
      | '"' :: rest => readText [] none rest
      | _ => none
    let (j, cs) ← match skipBlanks cs with
      | ':' :: rest => readValue fuel rest
      | _ => none
    match skipBlanks cs with
    | ',' :: rest =>
      (readMembers fuel rest).map fun (members, rest) => ((name, j) :: members, rest)
    | '\x7d' :: rest => some ([(name, j)], rest)
    | _ => none

end

/-- The value that a text holds, with nothing but blanks around it. A level of nesting takes two
steps and has two brackets, and a further item takes a step and has a comma, so as many steps as
characters are enough. -/
def parse? (s : String) : Option Json := do
  let (j, rest) ← readValue s.length s.toList
  if (skipBlanks rest).isEmpty then some j else none

end QueryPlan.Json

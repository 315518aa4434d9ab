import QueryPlan.Json.Value
import QueryPlan.Text.Utf16

namespace QueryPlan.Json

open Text

def escapeUnit (unit : Nat) : List Char :=
  ['\\', 'u'] ++ (Nat.toDigits 16 unit).leftpad 4 '0'

def escapeChar (c : Char) : List Char :=
  if c = '"' ∨ c = '\\' then ['\\', c]
  else if ' ' ≤ c ∧ c ≤ '~' then [c]
  else (utf16 c).flatMap escapeUnit

def renderText (s : String) : String :=
  String.ofList ('"' :: s.toList.flatMap escapeChar ++ ['"'])

mutual

def render : Json → String
  | null => "null"
  | boolean true => "true"
  | boolean false => "false"
  | integer n => toString n
  | number numeral => numeral
  | text s => renderText s
  | array items => "[" ++ ",".intercalate (renderItems items) ++ "]"
  | object members => "\x7b" ++ ",".intercalate (renderMembers members) ++ "\x7d"

def renderItems : List Json → List String
  | [] => []
  | j :: items => j.render :: renderItems items

def renderMembers : List (String × Json) → List String
  | [] => []
  | (name, j) :: members => (renderText name ++ ":" ++ j.render) :: renderMembers members

end

end QueryPlan.Json

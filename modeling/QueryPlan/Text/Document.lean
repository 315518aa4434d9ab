namespace QueryPlan

inductive Document
  | empty
  | text (content : String)
  /-- Ends the line and begins the next one at the indentation. -/
  | lineBreak
  | append (first second : Document)
  | nest (blanks : Nat) (inner : Document)

namespace Document

def concat (parts : List Document) : Document := parts.foldl append empty

def blanks (n : Nat) : String := String.ofList (List.replicate n ' ')

def layout (indentation : Nat) : Document → String
  | empty => ""
  | text content => content
  | lineBreak => "\n" ++ blanks indentation
  | append first second => first.layout indentation ++ second.layout indentation
  | nest more inner => inner.layout (indentation + more)

def render (d : Document) : String := d.layout 0

end Document
end QueryPlan

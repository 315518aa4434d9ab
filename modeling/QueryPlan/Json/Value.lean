namespace QueryPlan

inductive Json
  | null
  | boolean (value : Bool)
  | integer (value : Int)
  /-- A number that is no integer of 64 bits, signed or not. -/
  | number (numeral : String)
  | text (value : String)
  | array (items : List Json)
  | object (members : List (String × Json))

namespace Json

instance : Inhabited Json := ⟨null⟩

mutual

def depth : Json → Nat
  | array items => depthItems items + 1
  | object members => depthMembers members + 1
  | _ => 0

def depthItems : List Json → Nat
  | [] => 0
  | j :: items => max j.depth (depthItems items)

def depthMembers : List (String × Json) → Nat
  | [] => 0
  | (_, j) :: members => max j.depth (depthMembers members)

end

/-- The member of an object; null for whatever has no such member. -/
def member (j : Json) (name : String) : Json :=
  match j with
  | object members => (members.lookup name).getD null
  | _ => null

def tagged (tag : String) (contents : Json) : Json := object [(tag, contents)]

def contents : Json → Json
  | object [(_, contents)] => contents
  | j => j

end Json
end QueryPlan

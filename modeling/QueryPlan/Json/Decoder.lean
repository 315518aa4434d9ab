import QueryPlan.Json.Value

/-!
Decoders of JSON values, and the errors they report. A record is an object with a member for each
field, or an array of the fields in their order; of several faults an object reports the one at
the member that comes first by name, an array the one at the first position, and either reports
what is missing only when all that is there has been decoded.
-/
namespace QueryPlan

inductive DecodeError
  | missingField (name : String)
  | unknownVariant (tag : String)
  | unknownField (name : String)
  | invalidType
  | invalidValue
  | invalidLength (count : Nat)
  deriving DecidableEq

def DecodeError.message : DecodeError → String
  | missingField name => "missing field `" ++ name ++ "`"
  | unknownVariant tag => "unknown variant `" ++ tag ++ "`"
  | unknownField name => "unknown field `" ++ name ++ "`"
  | invalidType => "invalid type"
  | invalidValue => "invalid value"
  | invalidLength count => "invalid length " ++ toString count

abbrev Decoder (α : Type) := Json → Except DecodeError α

namespace Decoder

def integer : Decoder Int
  | .integer n => .ok n
  | _ => .error .invalidType

def natural : Decoder Nat := fun j => do
  let n ← integer j
  if 0 ≤ n ∧ n < UInt64.size then .ok n.toNat else .error .invalidValue

def uint64 : Decoder UInt64 := fun j => UInt64.ofNat <$> natural j

def int64 : Decoder Int64 := fun j => do
  let n ← integer j
  if Int64.minValue.toInt ≤ n ∧ n ≤ Int64.maxValue.toInt then .ok (Int64.ofInt n)
  else .error .invalidValue

def boolean : Decoder Bool
  | .boolean b => .ok b
  | _ => .error .invalidType

def text : Decoder String
  | .text s => .ok s
  | _ => .error .invalidType

def list (item : Decoder α) : Decoder (List α)
  | .array items => items.mapM item
  | _ => .error .invalidType

def optional (value : Decoder α) : Decoder (Option α)
  | .null => .ok none
  | j => some <$> value j

def variant : Decoder (String × Option Json)
  | .text tag => .ok (tag, none)
  | .object [(tag, contents)] => .ok (tag, some contents)
  | .object _ => .error .invalidValue
  | _ => .error .invalidType

def unit (value : α) : Option Json → Except DecodeError α
  | none | some .null => .ok value
  | some _ => .error .invalidType

def payload (value : Decoder α) : Option Json → Except DecodeError α
  | none => .error .invalidType
  | some j => value j

def enumeration (all : List α) (tag : α → String) : Decoder α := fun j => do
  let (name, contents) ← variant j
  match all.find? fun a => tag a == name with
  | some a => unit a contents
  | none => .error (.unknownVariant name)

/-- Runs a decoder that hands nested values to itself, down to the given depth. -/
def nested (body : Decoder α → Decoder α) : Nat → Decoder α
  | 0 => fun _ => .error .invalidType
  | depth + 1 => body (nested body depth)

def recursive (body : Decoder α → Decoder α) : Decoder α := fun j =>
  nested body (j.depth + 1) j

end Decoder

inductive Record
  | named (members : List (String × Json))
  | positional (items : List Json)

inductive Fault
  /-- What stands at `place` does not decode. The place is the name of a member; places in an
  array are not told apart. -/
  | bad (place : String) (error : DecodeError)
  | missing (name : String)

namespace Fault

/-- Which of two faults is reported, `a` being of an earlier field than `b`. -/
def first (a b : Fault) : Fault :=
  match a, b with
  | bad p _, bad q _ => if q < p then b else a
  | missing _, bad _ _ => b
  | _, missing _ => a

def both (a : Except Fault α) (b : Except Fault β) : Except Fault (α × β) :=
  match a, b with
  | .ok a, .ok b => .ok (a, b)
  | .ok _, .error f => .error f
  | .error f, .ok _ => .error f
  | .error f, .error g => .error (f.first g)

end Fault

structure Fields (α : Type) where
  names : List String
  read : Nat → Record → Except Fault α

namespace Fields

/-- A single field. Where it is absent, `absent` stands for it if that is given. -/
def one (name : String) (value : Decoder α) (absent : Option α) : Fields α where
  names := [name]
  read position record :=
    let found := match record with
      | .named members => members.lookup name
      | .positional items => items[position]?
    let place := match record with
      | .named _ => name
      | .positional _ => ""
    match found, absent with
    | some j, _ => (value j).mapError (.bad place)
    | none, some a => .ok a
    | none, none => .error (.missing name)

def required (name : String) (value : Decoder α) : Fields α := one name value none

def withDefault (name : String) (value : Decoder α) (default : α) : Fields α :=
  one name value (some default)

def and (a : Fields α) (b : Fields β) : Fields (α × β) where
  names := a.names ++ b.names
  read position record :=
    Fault.both (a.read position record) (b.read (position + a.names.length) record)

def map (f : α → β) (a : Fields α) : Fields β := ⟨a.names, fun p r => f <$> a.read p r⟩

def unknown (names : List String) (members : List (String × Json)) : Option Fault :=
  (members.map Prod.fst).foldr (fun name fault? =>
    if names.contains name then fault?
    else
      let fault := Fault.bad name (.unknownField name)
      some (match fault? with
        | some other => fault.first other
        | none => fault)) none

def ofMembers (fields : Fields α) (members : List (String × Json)) : Except DecodeError α :=
  match fields.read 0 (.named members) with
  | .ok a => .ok a
  | .error (.bad _ e) => .error e
  | .error (.missing name) => .error (.missingField name)

def ofItems (fields : Fields α) (items : List Json) : Except DecodeError α :=
  match fields.read 0 (.positional items) with
  | .ok a => if fields.names.length < items.length then .error (.invalidLength items.length)
    else .ok a
  | .error (.bad _ e) => .error e
  | .error (.missing _) => .error (.invalidLength items.length)

def record (fields : Fields α) : Decoder α
  | .object members => fields.ofMembers members
  | .array items => fields.ofItems items
  | _ => .error .invalidType

def items (fields : Fields α) : Decoder α
  | .array items => fields.ofItems items
  | _ => .error .invalidType

def members (fields : Fields α) : Decoder α
  | .object members => fields.ofMembers members
  | _ => .error .invalidType

/-- A record in which every member must be a field. -/
def strict (fields : Fields α) : Decoder α
  | .object members =>
    let checked : Fields α := ⟨fields.names, fun position record =>
      match unknown fields.names members with
      | none => fields.read position record
      | some fault =>
        Prod.snd <$> Fault.both (.error fault : Except Fault Unit) (fields.read position record)⟩
    checked.ofMembers members
  | .array items => fields.ofItems items
  | _ => .error .invalidType

end Fields

def Decoder.pair (first : Decoder α) (second : Decoder β) : Decoder (α × β) :=
  ((Fields.required "first" first).and (Fields.required "second" second)).items

end QueryPlan

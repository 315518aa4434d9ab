import QueryPlan.Plan.Basic

namespace QueryPlan

structure Catalog where
  supply : Supply := ⟨1⟩
  /-- The slots by name, the latest first. -/
  columns : List (String × Slot) := []

inductive CatalogError
  | overflow
  | definedTwice (column : String)
  | unknownColumn (column : String)
  deriving DecidableEq

def CatalogError.message : CatalogError → String
  | overflow => "attempt to add with overflow"
  | definedTwice column => "column " ++ column ++ " defined twice"
  | unknownColumn column => "unknown column " ++ column

namespace Catalog

/-- A fresh slot registered under `name`. It is registered even if the name is taken. -/
def fresh (catalog : Catalog) (name : String) : Except CatalogError Slot × Catalog :=
  let (slot, supply) := catalog.supply.fresh name
  if supply.InRange then
    let found :=
      if (catalog.columns.lookup name).isSome then .error (.definedTwice name) else .ok slot
    (found, ⟨supply, (name, slot) :: catalog.columns⟩)
  else (.error .overflow, catalog)

def freshAll (catalog : Catalog) : List String → Except CatalogError (List Slot) × Catalog
  | [] => (.ok [], catalog)
  | name :: names =>
    match catalog.fresh name with
    | (.error e, catalog) => (.error e, catalog)
    | (.ok slot, catalog) =>
      let (rest, catalog) := catalog.freshAll names
      ((slot :: ·) <$> rest, catalog)

def table (catalog : Catalog) (name : String) (columns : List String) :
    Except CatalogError Plan × Catalog :=
  let (slots, catalog) := catalog.freshAll columns
  ((fun slots => .get ⟨name, slots⟩) <$> slots, catalog)

def computed (catalog : Catalog) (name : String) (expr : Expr) :
    Except CatalogError NamedExpr × Catalog :=
  let (slot, catalog) := catalog.fresh name
  ((fun slot => .aliased ⟨slot, expr⟩) <$> slot, catalog)

def slot (catalog : Catalog) (name : String) : Except CatalogError Slot :=
  match catalog.columns.lookup name with
  | some slot => .ok slot
  | none => .error (.unknownColumn name)

def passed (catalog : Catalog) (names : List String) : Except CatalogError (List NamedExpr) :=
  names.mapM fun name => .column <$> catalog.slot name

end Catalog
end QueryPlan

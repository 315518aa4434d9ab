import QueryPlan.Json.Decoder
import QueryPlan.Optimizer.Pass

namespace QueryPlan.Config

def toJson (c : Config) : Json :=
  .object [("fixpoint_limit", .integer c.fixpointLimit),
    ("enable_fill_up_qualify", .boolean c.enableFillUpQualify)]

def ofJson : Decoder Config :=
  let default : Config := {}
  (((Fields.withDefault "fixpoint_limit" Decoder.natural default.fixpointLimit).and
    (.withDefault "enable_fill_up_qualify" Decoder.boolean default.enableFillUpQualify)).map
    fun (limit, enable) => (⟨limit, enable⟩ : Config)).strict

end QueryPlan.Config

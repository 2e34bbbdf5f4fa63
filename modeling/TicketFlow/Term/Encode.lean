import TicketFlow.Json.Basic
import TicketFlow.Term.Basic

namespace TicketFlow

/-! The JSON form of terms.

Each form of a term is an object with one member, named for the form.  Bindings
are objects in binding order.  An absent task of a curry is `null`; an absent
rest parameter is left out.
-/

def Digest.toJson (digest : Digest) : Json :=
  .string digest.text

def BlockId.toJson (block : BlockId) : Json :=
  Json.nat block.index

def Param.toJson : Param → Json
  | .plain name => .object [("plain", .string name)]
  | .aggregate name => .object [("aggregate", .string name)]

def Prototype.toJson (prototype : Prototype) : Json :=
  let rest := match prototype.rest with
    | some name => [("rest", Json.string name)]
    | none => []
  .object ([("params", .array (prototype.params.map Param.toJson)),
    ("outputs", Json.strings prototype.outputs),
    ("correlated", .bool prototype.correlated)] ++ rest)

def NativeLambda.toJson (lambda : NativeLambda) : Json :=
  .object [("prototype", lambda.prototype.toJson), ("body", lambda.body.toJson)]

def ForeignLambda.toJson (lambda : ForeignLambda) : Json :=
  .object [("name", .string lambda.name), ("prototype", lambda.prototype.toJson),
    ("lang", .string lambda.lang), ("script", .string lambda.script)]

def Lambda.toJson : Lambda → Json
  | .native lambda => .object [("native", lambda.toJson)]
  | .foreign lambda => .object [("foreign", lambda.toJson)]

def Placeholder.toJson (placeholder : Placeholder) : Json :=
  .object [("ticket", placeholder.ticket.toJson),
    ("channel", Json.nat placeholder.channel), ("output", .string placeholder.output)]

namespace Term

mutual

def toJson : Term → Json
  | .name word => .object [("name", .string word)]
  | .str value => .object [("str", .string value)]
  | .apply task bindings channel rest =>
      .object [("apply", .object [("task", .array (allToJson task)),
        ("bindings", .object (bindingsToJson bindings)),
        ("channel", Json.nat channel), ("rest", .bool rest)])]
  | .lambda value => .object [("lambda", value.toJson)]
  | .cond condition prototype channel thenBlock elseBlock =>
      .object [("cond", .object [("condition", .array (allToJson condition)),
        ("prototype", prototype.toJson), ("channel", Json.nat channel),
        ("then_block", thenBlock.toJson), ("else_block", elseBlock.toJson)])]
  | .curry none bindings =>
      .object
        [("curry", .object [("task", .null), ("bindings", .object (bindingsToJson bindings))])]
  | .curry (some task) bindings =>
      .object [("curry", .object [("task", .array (allToJson task)),
        ("bindings", .object (bindingsToJson bindings))])]
  | .ticket value => .object [("ticket", value.toJson)]
termination_by structural term => term

def allToJson : List Term → List Json
  | [] => []
  | term :: rest => term.toJson :: allToJson rest
termination_by structural terms => terms

def bindingsToJson : List (String × List Term) → List (String × Json)
  | [] => []
  | (parameter, value) :: rest =>
      (parameter, .array (allToJson value)) :: bindingsToJson rest
termination_by structural bindings => bindings

end

end Term

def Compound.toJson (compound : Compound) : Json :=
  .array (Term.allToJson compound)

def Bindings.toJson (bindings : Bindings) : Json :=
  .object (Term.bindingsToJson bindings)

end TicketFlow

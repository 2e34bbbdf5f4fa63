import TicketFlow.Term.Basic

namespace TicketFlow

/-! The text form of terms, as results and messages show them. -/

def BlockId.text (block : BlockId) : String :=
  "#" ++ toString block.index

def TicketId.display (ticket : TicketId) : String :=
  "ticket:" ++ ticket.short

def Lambda.text : Lambda → String
  | .native lambda =>
      "\\" ++ lambda.prototype.text ++ " \x7b block " ++ lambda.body.text ++ " \x7d"
  | .foreign lambda =>
      "\\" ++ lambda.prototype.text ++ " in " ++ lambda.lang ++ " *\x7b " ++
        lambda.name ++ " \x7d*"

def channelText (channel : Nat) : String :=
  "#" ++ toString channel

namespace Term

/-- An empty sequence of alternatives is written as a word. -/
def joinAlternatives : List String → String
  | [] => "nil"
  | texts => " ".intercalate texts

mutual

def text : Term → String
  | .name word => word
  | .str value => "'" ++ value ++ "'"
  | .apply task bindings channel rest =>
      "apply( task: " ++ joinAlternatives (texts task) ++ bindingsText bindings ++
        (if rest then ", ..." else "") ++ " )" ++ channelText channel
  | .lambda value => value.text
  | .cond condition _ channel thenBlock elseBlock =>
      "if " ++ joinAlternatives (texts condition) ++ " then " ++ thenBlock.text ++
        " else " ++ elseBlock.text ++ " end" ++ channelText channel
  | .curry none bindings => "curry( task: ?" ++ bindingsText bindings ++ " )"
  | .curry (some task) bindings =>
      "curry( task: " ++ joinAlternatives (texts task) ++ bindingsText bindings ++ " )"
  | .ticket value => TicketId.display value.ticket ++ channelText value.channel
termination_by structural term => term

def texts : List Term → List String
  | [] => []
  | term :: rest => term.text :: texts rest
termination_by structural terms => terms

def bindingsText : List (String × List Term) → String
  | [] => ""
  | (parameter, value) :: rest =>
      ", " ++ parameter ++ ": " ++ joinAlternatives (texts value) ++ bindingsText rest
termination_by structural bindings => bindings

end

end Term

def Compound.text (compound : Compound) : String :=
  Term.joinAlternatives (Term.texts compound)

def Apply.text (apply : Apply) : String :=
  apply.toTerm.text

def Cond.text (cond : Cond) : String :=
  cond.toTerm.text

def Curry.text (curry : Curry) : String :=
  curry.toTerm.text

end TicketFlow

import TicketFlow.Json.Raw
import TicketFlow.Term.Basic

namespace TicketFlow

/-! Reading terms back from their JSON form.

A record may be written as an object, whose unknown members are passed over and
whose known members occur at most once, or as an array of its fields in order.
`depth` is the number of containers that may still be opened.
-/

namespace RawJson

structure Record where
  named : Bool
  fields : List (Option RawJson)

def occurrences (name : String) (members : List (String × RawJson)) : List RawJson :=
  members.filterMap fun member => if member.1 = name then some member.2 else none

def field? (members : List (String × RawJson)) (name : String) :
    Option (Option RawJson) :=
  match occurrences name members with
  | [] => some none
  | [value] => some (some value)
  | _ => none

def record? (names : List String) : RawJson → Option Record
  | .object members => (names.mapM (field? members)).map fun fields => ⟨true, fields⟩
  | .array items =>
      if items.length ≤ names.length then
        some ⟨false, items.map some ++ List.replicate (names.length - items.length) none⟩
      else none
  | _ => none

namespace Record

variable {α : Type}

def required (record : Record) (index : Nat) (read : RawJson → Option α) : Option α :=
  (record.fields[index]?.join).bind read

/-- A field that takes a value of its own when it is absent. -/
def defaulted (record : Record) (index : Nat) (absent : α)
    (read : RawJson → Option α) : Option α :=
  match record.fields[index]?.join with
  | some value => read value
  | none => some absent

def orNull (read : RawJson → Option α) : RawJson → Option (Option α)
  | .null => some none
  | value => (read value).map some

/-- A field that may be `null`, and that an object may leave out. -/
def optional (record : Record) (index : Nat) (read : RawJson → Option α) :
    Option (Option α) :=
  match record.fields[index]?.join with
  | some value => orNull read value
  | none => if record.named then some none else none

end Record

def string? : RawJson → Option String
  | .string value => some value
  | _ => none

def bool? : RawJson → Option Bool
  | .bool value => some value
  | _ => none

def nat? : RawJson → Option Nat
  | .number numeral => numeral.nat?
  | _ => none

def array? {α : Type} (read : RawJson → Option α) : RawJson → Option (List α)
  | .array items => items.mapM read
  | _ => none

def tagged? : RawJson → Option (String × RawJson)
  | .object [member] => some member
  | _ => none

def inside {α : Type} (depth : Nat) (read : Nat → Option α) : Option α :=
  match depth with
  | 0 => none
  | depth + 1 => read depth

def digest? (value : RawJson) : Option Digest :=
  value.string?.bind fun text => (Digest.parse text).toOption

def maxBlock : Nat := BlockId.limit - 1

def blockId? (value : RawJson) : Option BlockId :=
  (value.nat?.filter (· ≤ maxBlock)).map BlockId.mk

def param? (depth : Nat) (value : RawJson) : Option Param :=
  inside depth fun _ =>
    match value.tagged? with
    | some ("plain", name) => name.string?.map .plain
    | some ("aggregate", name) => name.string?.map .aggregate
    | _ => none

def strings? (depth : Nat) (value : RawJson) : Option (List String) :=
  inside depth fun _ => value.array? string?

def prototype? (depth : Nat) (value : RawJson) : Option Prototype :=
  inside depth fun depth => do
    let record ← value.record? ["params", "outputs", "correlated", "rest"]
    let params ← record.required 0
        fun field => inside depth fun depth => field.array? (param? depth)
    let outputs ← record.required 1 (strings? depth)
    let correlated ← record.defaulted 2 false bool?
    let rest ← record.defaulted 3 none (Record.orNull string?)
    pure { params, outputs, correlated, rest }

def native? (depth : Nat) (value : RawJson) : Option NativeLambda :=
  inside depth fun depth => do
    let record ← value.record? ["prototype", "body"]
    let prototype ← record.required 0 (prototype? depth)
    let body ← record.required 1 blockId?
    pure { prototype, body }

def foreign? (depth : Nat) (value : RawJson) : Option ForeignLambda :=
  inside depth fun depth => do
    let record ← value.record? ["name", "prototype", "lang", "script"]
    let name ← record.required 0 string?
    let prototype ← record.required 1 (prototype? depth)
    let lang ← record.required 2 string?
    let script ← record.required 3 string?
    pure { name, prototype, lang, script }

def lambda? (depth : Nat) (value : RawJson) : Option Lambda :=
  inside depth fun depth =>
    match value.tagged? with
    | some ("native", content) => (native? depth content).map .native
    | some ("foreign", content) => (foreign? depth content).map .foreign
    | _ => none

def placeholder? (depth : Nat) (value : RawJson) : Option Placeholder :=
  inside depth fun _ => do
    let record ← value.record? ["ticket", "channel", "output"]
    let ticket ← record.required 0 digest?
    let channel ← record.required 1 nat?
    let output ← record.required 2 string?
    pure { ticket, channel, output }

mutual

def term? : Nat → RawJson → Option Term
  | 0, _ => none
  | depth + 1, value =>
      match value.tagged? with
      | some ("name", content) => content.string?.map .name
      | some ("str", content) => content.string?.map .str
      | some ("apply", content) => (application? depth content).map Apply.toTerm
      | some ("lambda", content) => (lambda? depth content).map .lambda
      | some ("cond", content) => (conditional? depth content).map Cond.toTerm
      | some ("curry", content) => (curry? depth content).map Curry.toTerm
      | some ("ticket", content) => (placeholder? depth content).map .ticket
      | _ => none

def compound? : Nat → RawJson → Option Compound
  | 0, _ => none
  | depth + 1, value => value.array? (term? depth)

/-- A repeated name keeps its first place and its last value. -/
def bindings? : Nat → RawJson → Option Bindings
  | 0, _ => none
  | depth + 1, .object members =>
      (members.mapM fun member =>
        (compound? depth member.2).map fun value => (member.1, value)).map OrderedMap.ofList
  | _ + 1, _ => none

def application? : Nat → RawJson → Option Apply
  | 0, _ => none
  | depth + 1, value => do
      let record ← value.record? ["task", "bindings", "channel", "rest"]
      let task ← record.required 0 (compound? depth)
      let bindings ← record.required 1 (bindings? depth)
      let channel ← record.required 2 nat?
      let rest ← record.defaulted 3 false bool?
      pure { task, bindings, channel, rest }

def conditional? : Nat → RawJson → Option Cond
  | 0, _ => none
  | depth + 1, value => do
      let record ← value.record?
          ["condition", "prototype", "channel", "then_block", "else_block"]
      let condition ← record.required 0 (compound? depth)
      let prototype ← record.required 1 (prototype? depth)
      let channel ← record.required 2 nat?
      let thenBlock ← record.required 3 blockId?
      let elseBlock ← record.required 4 blockId?
      pure { condition, prototype, channel, thenBlock, elseBlock }

def curry? : Nat → RawJson → Option Curry
  | 0, _ => none
  | depth + 1, value => do
      let record ← value.record? ["task", "bindings"]
      let task ← record.optional 0 (compound? depth)
      let bindings ← record.required 1 (bindings? depth)
      pure { task, bindings }

end

end RawJson

def RawJson.readText? {α : Type} (read : Nat → RawJson → Option α)
    (text : String) : Option α :=
  (RawJson.ofText? text).bind (read RawJson.depthLimit)

end TicketFlow

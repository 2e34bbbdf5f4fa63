import TicketFlow.Proofs.Encoding.Terms
import TicketFlow.Ticket

namespace TicketFlow

/-! The address of a ticket is the digest of all that its invocation is.

The bytes that are digested agree for two tickets just if run, task and
arguments do.  So different invocations share an address only if the digest
collides, and equal ones always do.
-/

open Cbor

variable {lambda : ForeignLambda} {bindings others : Bindings}

namespace Ticket

/-- The bytes that the address of the ticket is the digest of. -/
def content (ticket : Ticket) : List UInt8 :=
  identityBytes ticket.run ticket.lambda ticket.bindings

/-- The order that a ticket keeps its arguments in does not show. -/
theorem bindingsCbor_sorted (distinct : OrderedMap.Distinct bindings)
    (before : String → String → Bool) :
    bindingsCbor (OrderedMap.sortedOfList before bindings) = bindingsCbor bindings := by
  have members (given : Bindings) (kept : OrderedMap.Distinct given) :
      OrderedMap.Distinct (ofMembers (Term.bindingsToJson given)) := by
    rwa [ofMembers_eq, Term.bindingsToJson_eq, OrderedMap.Distinct,
      OrderedMap.keys_mapValues, OrderedMap.keys_mapValues]
  rw [bindingsCbor, bindingsCbor, Bindings.toJson, Bindings.toJson, ofJson, ofJson,
    sortedMap_eq_iff (members _ distinct.sortedOfList) (members _ distinct)]
  intro name
  simp only [ofMembers_eq, Term.bindingsToJson_eq, OrderedMap.get?_mapValues,
    OrderedMap.get?_sortedOfList distinct]

theorem content_create (run : RunId) (lambda : ForeignLambda)
    (distinct : OrderedMap.Distinct bindings) :
    (create run lambda bindings).content = (identity run lambda bindings).canonical := by
  rw [content, identityBytes, create, identity, bindingsCbor_sorted distinct, ← identity]

theorem identity_eq_iff (run again : RunId) (lambda other : ForeignLambda)
    (writable : (Bindings.toJson bindings).isWritable = true)
    (writableToo : (Bindings.toJson others).isWritable = true) :
    identity run lambda bindings = identity again other others ↔
      run = again ∧ lambda = other ∧ Bindings.same bindings others = true := by
  have runs : run.uuid.bytes = again.uuid.bytes ↔ run = again := by
    obtain ⟨⟨_, _⟩⟩ := run
    obtain ⟨⟨_, _⟩⟩ := again
    simp
  refine Iff.trans
    (sortedMap_record_eq_iff (by simp [OrderedMap.Distinct, OrderedMap.keys]) rfl) ?_
  simp only [List.cons.injEq, Prod.mk.injEq, true_and,
    and_true, ForeignLambda.ofJson_eq_iff, bindingsCbor,
    Bindings.ofJson_eq_iff writable writableToo, Cbor.bytes.injEq, runs]
  exact ⟨fun ⟨lambdas, same, runs⟩ => ⟨runs, lambdas, same⟩,
    fun ⟨runs, lambdas, same⟩ => ⟨lambdas, same, runs⟩⟩

theorem isWritable_identity (run : RunId) (taskWritable : lambda.toJson.isWritable = true)
    (writable : (Bindings.toJson bindings).isWritable = true) :
    (identity run lambda bindings).isWritable = true := by
  have task := isWritable_ofJson taskWritable
  have arguments := isWritable_ofJson writable
  refine isWritable_sortedMap (by simp [OrderedMap.Distinct, OrderedMap.keys]) ?_
  simp only [isWritable, areEntriesWritable, Bool.and_eq_true, decide_eq_true_eq,
    run.uuid.length_bytes, bindingsCbor]
  have three : 3 < UInt64.size := by decide
  exact ⟨three, ⟨by decide +kernel, task⟩, ⟨by decide +kernel, arguments⟩,
    ⟨by decide +kernel, by decide⟩, trivial⟩

/-- Tickets have the same content just if they stand for the same invocation: the same
task in the same run, with arguments that are equal as maps at every level.  The content
is all that goes into the address. -/
theorem content_eq_iff {other : ForeignLambda} (run again : RunId)
    (task : lambda.toJson.isWritable = true) (taskToo : other.toJson.isWritable = true)
    (arguments : (Bindings.toJson bindings).isWritable = true)
    (argumentsToo : (Bindings.toJson others).isWritable = true) :
    (create run lambda bindings).id = Digest.ofBytes (create run lambda bindings).content ∧
      ((create run lambda bindings).content = (create again other others).content ↔
        run = again ∧ lambda = other ∧ Bindings.same bindings others = true) := by
  refine ⟨rfl, ?_⟩
  rw [content_create run lambda (Bindings.writable arguments).1,
    content_create again other (Bindings.writable argumentsToo).1,
    canonical_injective (isWritable_identity run task arguments)
      (isWritable_identity again taskToo argumentsToo)]
  exact identity_eq_iff run again lambda other arguments argumentsToo

section Samples

def pageRun : RunId := ⟨Uuid.nil⟩

def pageTask : ForeignLambda where
  name := "fetch"
  prototype :=
    { params := [.plain "url", .aggregate "headers"]
      outputs := ["page"]
      rest := some "options" }
  lang := "bash"
  script := "fetch $url > $page"

/-- Arguments with an application inside, whose own bindings come in either order. -/
def pageBindings (swapped : Bool) (channel : Nat) : Bindings :=
  let host : Compound := [.ticket ⟨⟨List.replicate 32 0, Digest.length_zeros⟩, 1, "host"⟩]
  let path : Compound := [.curry none [("base", [.str "docs"])],
      .cond [.name "deep"] pageTask.prototype 1 ⟨1⟩ ⟨2⟩]
  let url : Term := .apply [.lambda (.foreign pageTask)]
    (if swapped then [("path", path), ("host", host)] else
      [("host", host), ("path", path)]) channel false
  if swapped then [("headers", []), ("url", [url])] else [("url", [url]), ("headers", [])]

theorem content_eq_iff_pageBindings :
    (create pageRun pageTask (pageBindings false 1)).content =
      (create pageRun pageTask (pageBindings true 1)).content ∧
      (create pageRun pageTask (pageBindings false 1)).content ≠
      (create pageRun pageTask (pageBindings true 2)).content := by
  have task : pageTask.toJson.isWritable = true := by decide +kernel
  have one : (Bindings.toJson (pageBindings false 1)).isWritable = true := by
    decide +kernel
  have two : (Bindings.toJson (pageBindings true 1)).isWritable = true := by
    decide +kernel
  have three : (Bindings.toJson (pageBindings true 2)).isWritable = true := by
    decide +kernel
  have alike : (pageBindings false 1).same (pageBindings true 1) = true := by
    decide +kernel
  have unlike : (pageBindings false 1).same (pageBindings true 2) = false := by
    decide +kernel
  refine ⟨(content_eq_iff pageRun pageRun task task one two).2.mpr ⟨rfl, rfl, alike⟩,
    fun same => ?_⟩
  have matched := ((content_eq_iff pageRun pageRun task task one three).2.mp same).2.2
  rw [unlike] at matched
  exact Bool.false_ne_true matched

end Samples

end Ticket

end TicketFlow

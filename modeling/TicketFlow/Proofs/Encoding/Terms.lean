import TicketFlow.Proofs.Encoding.Cbor
import TicketFlow.Term.Encode

namespace TicketFlow

/-! The encoded form of a term determines the term, up to the order of bindings.

Terms go through JSON, where each form is an object with a member named for it,
and from there to maps in canonical order.  That order makes up for the one
bindings were made in, at every level, and for nothing else.
-/

section Writable

mutual

/-- What a machine can hold: lengths and numbers have at most 64 bits, nothing is a
floating point number, and no name occurs twice in an object. -/
def Json.isWritable : Json → Bool
  | .null | .bool _ => true
  | .number (.whole value) => decide (-UInt64.size ≤ value ∧ value < UInt64.size)
  | .number (.float _) => false
  | .string value => decide ((Text.bytes value).length < UInt64.size)
  | .array items => decide (items.length < UInt64.size) && areItemsWritable items
  | .object members =>
      decide (members.length < UInt64.size) && decide (OrderedMap.keys members).Nodup &&
        areMembersWritable members
termination_by structural value => value

def Json.areItemsWritable : List Json → Bool
  | [] => true
  | item :: rest => item.isWritable && areItemsWritable rest
termination_by structural items => items

def Json.areMembersWritable : List (String × Json) → Bool
  | [] => true
  | (name, value) :: rest =>
      decide ((Text.bytes name).length < UInt64.size) && value.isWritable &&
        areMembersWritable rest
termination_by structural members => members

end

namespace Json

variable {items : List Json} {members : List (String × Json)}
  {name : String} {value : Json}

theorem areItemsWritable_of_array (writable : (Json.array items).isWritable = true) :
    areItemsWritable items = true := by
  simp only [isWritable, Bool.and_eq_true] at writable
  exact writable.2

theorem distinct_of_object (writable : (Json.object members).isWritable = true) :
    OrderedMap.Distinct members := by
  simp only [isWritable, Bool.and_eq_true, decide_eq_true_eq] at writable
  exact writable.1.2

theorem areMembersWritable_iff : areMembersWritable members = true ↔
    ∀ member ∈ members, (Text.bytes member.1).length < UInt64.size ∧
      member.2.isWritable = true := by
  induction members with
  | nil => simp [areMembersWritable]
  | cons member rest ih => simp [areMembersWritable, ih]

theorem isWritable_of_mem (writable : (Json.object members).isWritable = true)
    (member : (name, value) ∈ members) : value.isWritable = true := by
  simp only [isWritable, Bool.and_eq_true, areMembersWritable_iff] at writable
  exact (writable.2 _ member).2

theorem isWritable_of_record {tag : String}
    (writable : (Json.object [(tag, .object members)]).isWritable = true)
    (member : (name, value) ∈ members) : value.isWritable = true :=
  isWritable_of_mem (isWritable_of_mem writable List.mem_cons_self) member

end Json

namespace Cbor

variable {left right : List (String × Json)}

theorem ofItems_eq (items : List Json) : ofItems items = items.map ofJson := by
  induction items with
  | nil => rfl
  | cons item rest ih => simp [ofItems, ih]

theorem ofMembers_eq (members : List (String × Json)) :
    ofMembers members = OrderedMap.mapValues ofJson members := by
  induction members with
  | nil => rfl
  | cons member rest ih => simp [ofMembers, ih, OrderedMap.mapValues]

theorem isWritable_ofNumber {value : Int}
    (fits : -UInt64.size ≤ value ∧ value < UInt64.size) :
    (ofNumber (.whole value)).isWritable = true := by
  simp only [ofNumber]
  split
  · simp only [isWritable, decide_eq_true_eq, UInt64.size] at *
    omega
  · simp only [isWritable, decide_eq_true_eq, UInt64.size] at *
    omega

theorem distinct_ofMembers (distinct : OrderedMap.Distinct left) :
    OrderedMap.Distinct (ofMembers left) := by
  rw [ofMembers_eq, OrderedMap.Distinct, OrderedMap.keys_mapValues]
  exact distinct

mutual

theorem isWritable_ofJson :
    ∀ {value : Json}, value.isWritable = true → (ofJson value).isWritable = true
  | .null, _ | .bool _, _ => rfl
  | .number (.whole value), writable => isWritable_ofNumber (of_decide_eq_true writable)
  | .number (.float _), writable => Bool.noConfusion writable
  | .string _, writable => writable
  | .array items, writable => by
      simp only [Json.isWritable, Bool.and_eq_true] at writable
      simp only [ofJson, isWritable, Bool.and_eq_true]
      exact ⟨by rw [ofItems_eq, List.length_map]; exact writable.1,
        areItemsWritable_ofItems writable.2⟩
  | .object members, writable => by
      simp only [Json.isWritable, Bool.and_eq_true, decide_eq_true_eq] at writable
      obtain ⟨⟨size, distinct⟩, each⟩ := writable
      refine isWritable_sortedMap (distinct_ofMembers distinct) ?_
      simp only [isWritable, Bool.and_eq_true, decide_eq_true_eq]
      exact ⟨by rw [ofMembers_eq, OrderedMap.mapValues, List.length_map]; exact size,
        areEntriesWritable_ofMembers each⟩
termination_by structural value => value

theorem areItemsWritable_ofItems :
    ∀ {items : List Json}, Json.areItemsWritable items = true →
      areItemsWritable (ofItems items) = true
  | [], _ => rfl
  | item :: rest, writable => by
      simp only [Json.areItemsWritable, Bool.and_eq_true] at writable
      simp only [ofItems, areItemsWritable, Bool.and_eq_true]
      exact ⟨isWritable_ofJson writable.1, areItemsWritable_ofItems writable.2⟩
termination_by structural items => items

theorem areEntriesWritable_ofMembers :
    ∀ {members : List (String × Json)}, Json.areMembersWritable members = true →
      areEntriesWritable (ofMembers members) = true
  | [], _ => rfl
  | (name, value) :: rest, writable => by
      simp only [Json.areMembersWritable, Bool.and_eq_true] at writable
      simp only [ofMembers, areEntriesWritable, Bool.and_eq_true]
      exact ⟨⟨writable.1.1, isWritable_ofJson writable.1.2⟩,
        areEntriesWritable_ofMembers writable.2⟩
termination_by structural members => members

end

/-- Objects are one value if their members are alike, in whatever order. -/
theorem ofJson_object_eq_iff (one : OrderedMap.Distinct left)
    (two : OrderedMap.Distinct right) : ofJson (.object left) = ofJson (.object right) ↔
      left.length = right.length ∧
        ∀ member ∈ left,
          (OrderedMap.get? right member.1).map ofJson = some (ofJson member.2) := by
  rw [ofJson, ofJson, sortedMap_eq_iff (distinct_ofMembers one) (distinct_ofMembers two),
    (distinct_ofMembers one).alike_iff (distinct_ofMembers two),
    ofMembers_eq, ofMembers_eq]
  simp only [OrderedMap.mapValues, List.length_map, List.mem_map, forall_exists_index,
    and_imp, forall_apply_eq_imp_iff₂, ← OrderedMap.get?_mapValues]

theorem ofJson_member (one : OrderedMap.Distinct left) (two : OrderedMap.Distinct right)
    (same : ofJson (.object left) = ofJson (.object right)) (name : String) :
    (OrderedMap.get? left name).map ofJson = (OrderedMap.get? right name).map ofJson := by
  rw [ofJson, ofJson,
    sortedMap_eq_iff (distinct_ofMembers one) (distinct_ofMembers two)] at same
  simpa only [ofMembers_eq, OrderedMap.get?_mapValues] using same name

/-- Records, which have the same members in the same order, are compared member by member. -/
theorem ofJson_record_eq_iff (distinct : OrderedMap.Distinct left)
    (named : OrderedMap.keys left = OrderedMap.keys right) :
    ofJson (.object left) = ofJson (.object right) ↔ ofMembers left = ofMembers right := by
  have keys : OrderedMap.keys (ofMembers left) = OrderedMap.keys (ofMembers right) := by
    rw [ofMembers_eq, ofMembers_eq, OrderedMap.keys_mapValues,
      OrderedMap.keys_mapValues, named]
  rw [ofJson, ofJson]
  exact sortedMap_record_eq_iff (distinct_ofMembers distinct) keys

/-- An object with one member is a value marked with a name. -/
theorem ofJson_tagged (tag : String) (value : Json) :
    ofJson (.object [(tag, value)]) = .map [(tag, ofJson value)] := rfl

theorem ofJson_tagged_record_eq_iff (tag : String) (distinct : OrderedMap.Distinct left)
    (named : OrderedMap.keys left = OrderedMap.keys right) :
    ofJson (.object [(tag, .object left)]) = ofJson (.object [(tag, .object right)]) ↔
      ofMembers left = ofMembers right := by
  rw [← ofJson_record_eq_iff distinct named, ofJson_tagged, ofJson_tagged]
  simp

theorem ofJson_array_eq_iff (left right : List Json) :
    ofJson (.array left) = ofJson (.array right) ↔ ofItems left = ofItems right := by
  rw [ofJson, ofJson, array.injEq]

theorem ofJson_bool_eq_iff (left right : Bool) :
    ofJson (.bool left) = ofJson (.bool right) ↔ left = right := by
  rw [ofJson, ofJson, bool.injEq]

theorem ofJson_nat (value : Nat) : ofJson (Json.nat value) = .unsigned value := by
  simp [Json.nat, ofJson, ofNumber]

end Cbor

end Writable

section Parts

open Cbor

theorem Param.ofJson_eq_iff (left right : Param) :
    ofJson left.toJson = ofJson right.toJson ↔ left = right := by
  cases left <;> cases right <;> simp [Param.toJson, ofJson_tagged, ofJson]

theorem Json.ofJson_strings_eq_iff (left right : List String) :
    ofJson (Json.strings left) = ofJson (Json.strings right) ↔ left = right := by
  have injective : Function.Injective (ofJson ∘ Json.string) :=
    fun _ _ same => Cbor.text.inj same
  rw [Json.strings, Json.strings, ofJson, ofJson, Cbor.array.injEq, ofItems_eq,
    ofItems_eq, List.map_map, List.map_map]
  exact (List.map_injective_iff.mpr injective).eq_iff

/-- A rest parameter is a member of its own, which an absent one leaves out. -/
theorem Prototype.toJson_members (prototype : Prototype) :
    ∃ members, prototype.toJson = .object members ∧ OrderedMap.Distinct members ∧
      OrderedMap.get? members "params" = some (.array (prototype.params.map Param.toJson)) ∧
      OrderedMap.get? members "outputs" = some (Json.strings prototype.outputs) ∧
      OrderedMap.get? members "correlated" = some (.bool prototype.correlated) ∧
      OrderedMap.get? members "rest" = prototype.rest.map Json.string := by
  refine ⟨_, rfl, ?_⟩
  cases prototype.rest <;> simp [OrderedMap.Distinct, OrderedMap.keys, OrderedMap.get?]

theorem Prototype.ofJson_eq_iff (left right : Prototype) :
    ofJson left.toJson = ofJson right.toJson ↔ left = right := by
  refine ⟨fun same => ?_, fun same => by rw [same]⟩
  obtain ⟨lefts, one, distinct, params, outputs, correlated, rest⟩ := left.toJson_members
  obtain ⟨rights, two, distinctToo, paramsToo, outputsToo, correlatedToo, restToo⟩ :=
    right.toJson_members
  rw [one, two] at same
  have member := ofJson_member distinct distinctToo same
  have paramsSame : ofJson (.array (left.params.map Param.toJson)) =
      ofJson (.array (right.params.map Param.toJson)) := by
    simpa [params, paramsToo] using member "params"
  have outputsSame :
      ofJson (Json.strings left.outputs) = ofJson (Json.strings right.outputs) := by
    simpa [outputs, outputsToo] using member "outputs"
  have correlatedSame : left.correlated = right.correlated := by
    simpa [correlated, correlatedToo, ofJson] using member "correlated"
  have restSame : left.rest.map Cbor.text = right.rest.map Cbor.text := by
    simpa [rest, restToo, ofJson, Function.comp_def] using member "rest"
  have injective : Function.Injective (ofJson ∘ Param.toJson) :=
    fun one two same => (Param.ofJson_eq_iff one two).mp same
  rw [ofJson, ofJson, Cbor.array.injEq, ofItems_eq, ofItems_eq, List.map_map,
    List.map_map] at paramsSame
  obtain ⟨⟩ := left
  obtain ⟨⟩ := right
  rw [Prototype.mk.injEq]
  exact ⟨List.map_injective_iff.mpr injective paramsSame,
    (Json.ofJson_strings_eq_iff _ _).mp outputsSame, correlatedSame,
    Option.map_injective (fun _ _ => Cbor.text.inj) restSame⟩

theorem ForeignLambda.ofJson_eq_iff (left right : ForeignLambda) :
    ofJson left.toJson = ofJson right.toJson ↔ left = right := by
  refine Iff.trans
    (ofJson_record_eq_iff (by simp [OrderedMap.Distinct, OrderedMap.keys]) rfl) ?_
  obtain ⟨⟩ := left
  obtain ⟨⟩ := right
  simp [ofMembers, ofJson, Prototype.ofJson_eq_iff]

theorem NativeLambda.ofJson_eq_iff (left right : NativeLambda) :
    ofJson left.toJson = ofJson right.toJson ↔ left = right := by
  refine Iff.trans
    (ofJson_record_eq_iff (by simp [OrderedMap.Distinct, OrderedMap.keys]) rfl) ?_
  obtain ⟨_, ⟨_⟩⟩ := left
  obtain ⟨_, ⟨_⟩⟩ := right
  simp [ofMembers, BlockId.toJson, ofJson_nat, Prototype.ofJson_eq_iff]

theorem Lambda.ofJson_eq_iff (left right : Lambda) :
    ofJson left.toJson = ofJson right.toJson ↔ left = right := by
  cases left <;> cases right <;>
    simp [Lambda.toJson, ofJson_tagged, NativeLambda.ofJson_eq_iff,
      ForeignLambda.ofJson_eq_iff]

theorem Placeholder.ofJson_eq_iff (left right : Placeholder) :
    ofJson left.toJson = ofJson right.toJson ↔ left = right := by
  refine Iff.trans
    (ofJson_record_eq_iff (by simp [OrderedMap.Distinct, OrderedMap.keys]) rfl) ?_
  obtain ⟨⟩ := left
  obtain ⟨⟩ := right
  simp [ofMembers, Digest.toJson, ofJson_nat, ofJson, Digest.text_injective.eq_iff]

end Parts

section Same

mutual

/-- Equality of terms for which the order of bindings does not count, at any level. -/
def Term.same : Term → Term → Bool
  | .name left, .name right => left == right
  | .str left, .str right => left == right
  | .apply task bindings channel rest, .apply otherTask others otherChannel otherRest =>
      areSame task otherTask &&
        (bindings.length == others.length && areBoundIn others bindings) &&
        channel == otherChannel && rest == otherRest
  | .lambda left, .lambda right => left == right
  | .cond condition prototype channel thenBlock elseBlock,
      .cond otherCondition otherPrototype otherChannel otherThen otherElse =>
      areSame condition otherCondition && prototype == otherPrototype &&
        channel == otherChannel && thenBlock == otherThen && elseBlock == otherElse
  | .curry none bindings, .curry none others =>
      bindings.length == others.length && areBoundIn others bindings
  | .curry (some task) bindings, .curry (some otherTask) others =>
      areSame task otherTask &&
        (bindings.length == others.length && areBoundIn others bindings)
  | .ticket left, .ticket right => left == right
  | _, _ => false
termination_by structural left => left

def Term.areSame : List Term → List Term → Bool
  | [], [] => true
  | left :: lefts, right :: rights => left.same right && areSame lefts rights
  | _, _ => false
termination_by structural lefts => lefts

/-- Every one of these bindings is among the others, with the same value. -/
def Term.areBoundIn (others : Bindings) : List (String × List Term) → Bool
  | [] => true
  | (parameter, value) :: rest =>
      (match others.get? parameter with
        | some other => areSame value other
        | none => false) && areBoundIn others rest
termination_by structural bindings => bindings

end

/-- Equality of bindings as maps: there are as many of the one as of the other, and they
have the same values. -/
def Bindings.same (left right : Bindings) : Bool :=
  left.length == right.length && Term.areBoundIn right left

open Cbor

theorem Term.bindingsToJson_eq (bindings : Bindings) :
    bindingsToJson bindings = OrderedMap.mapValues Compound.toJson bindings := by
  induction bindings with
  | nil => rfl
  | cons binding rest ih =>
      simp [bindingsToJson, ih, OrderedMap.mapValues, Compound.toJson]

/-- The values among the bindings can be held by a machine. -/
def Bindings.Writable (bindings : Bindings) : Prop :=
  ∀ binding ∈ bindings, (Compound.toJson binding.2).isWritable = true

/-- Every one of these bindings is among the others, with a value that is encoded alike. -/
def Bindings.EncodedIn (others bindings : Bindings) : Prop :=
  ∀ binding ∈ bindings, (others.get? binding.1).map (ofJson ∘ Compound.toJson) =
    some (ofJson (Compound.toJson binding.2))

theorem Bindings.writable {bindings : Bindings}
    (writable : (Json.object (Term.bindingsToJson bindings)).isWritable = true) :
    OrderedMap.Distinct bindings ∧ bindings.Writable := by
  have distinct := Json.distinct_of_object writable
  rw [Term.bindingsToJson_eq] at writable
  rw [Term.bindingsToJson_eq, OrderedMap.Distinct, OrderedMap.keys_mapValues] at distinct
  refine ⟨distinct, fun binding member => ?_⟩
  exact Json.isWritable_of_mem writable (List.mem_map.mpr ⟨binding, member, rfl⟩)

/-- Bindings are compared by comparing the values under each name. -/
theorem Bindings.ofJson_eq_iff_of_values {left right : Bindings}
    (writable : (Json.object (Term.bindingsToJson left)).isWritable = true)
    (writableToo : (Json.object (Term.bindingsToJson right)).isWritable = true)
    (values : left.Writable → right.Writable →
      (right.EncodedIn left ↔ Term.areBoundIn right left = true)) :
    ofJson (.object (Term.bindingsToJson left)) =
      ofJson (.object (Term.bindingsToJson right)) ↔ left.same right = true := by
  have inside := values (Bindings.writable writable).2 (Bindings.writable writableToo).2
  rw [ofJson_object_eq_iff (Json.distinct_of_object writable)
    (Json.distinct_of_object writableToo), Bindings.same, Bool.and_eq_true, beq_iff_eq,
    ← inside, Bindings.EncodedIn, Term.bindingsToJson_eq, Term.bindingsToJson_eq]
  simp only [OrderedMap.get?_mapValues, Option.map_map]
  simp only [OrderedMap.mapValues, List.length_map, List.mem_map, forall_exists_index,
    and_imp, forall_apply_eq_imp_iff₂]

/-- Terms of different kinds are neither encoded alike nor equal. -/
theorem Term.ofJson_eq_iff_of_kind {left right : Term} (kinds : left.kind ≠ right.kind) :
    ofJson left.toJson = ofJson right.toJson ↔ left.same right = true := by
  have tagged
      (term : Term) : ∃ content, ofJson term.toJson = .map [(term.kind, content)] := by
    cases term with
    | curry task bindings => cases task <;> exact ⟨_, rfl⟩
    | _ => exact ⟨_, rfl⟩
  have unlike : ofJson left.toJson ≠ ofJson right.toJson := by
    obtain ⟨one, left_eq⟩ := tagged left
    obtain ⟨two, right_eq⟩ := tagged right
    simp [left_eq, right_eq, kinds]
  have different : left.same right = false := by
    cases left with
    | curry task bindings =>
        cases task <;> cases right <;> simp_all [Term.same, Term.kind]
    | _ => cases right <;> simp_all [Term.same, Term.kind]
  simp [unlike, different]

mutual

/-- Terms are encoded alike if they are equal but for the order of bindings. -/
theorem Term.ofJson_eq_iff :
    ∀ (left : Term)
      {right : Term}, left.toJson.isWritable = true → right.toJson.isWritable = true →
      (ofJson left.toJson = ofJson right.toJson ↔ left.same right = true)
  | .name word, right, _, _ => by
      cases right with
      | name other => simp [Term.toJson, ofJson_tagged, ofJson, Term.same]
      | _ => exact Term.ofJson_eq_iff_of_kind (by simp [Term.kind])
  | .str value, right, _, _ => by
      cases right with
      | str other => simp [Term.toJson, ofJson_tagged, ofJson, Term.same]
      | _ => exact Term.ofJson_eq_iff_of_kind (by simp [Term.kind])
  | .lambda value, right, _, _ => by
      cases right with
      | lambda other => simp [Term.toJson, ofJson_tagged, Term.same, Lambda.ofJson_eq_iff]
      | _ => exact Term.ofJson_eq_iff_of_kind (by simp [Term.kind])
  | .ticket value, right, _, _ => by
      cases right with
      | ticket other =>
          simp [Term.toJson, ofJson_tagged, Term.same, Placeholder.ofJson_eq_iff]
      | _ => exact Term.ofJson_eq_iff_of_kind (by simp [Term.kind])
  | .apply task bindings channel rest, right, writable, writableToo => by
      cases right with
      | apply otherTask others otherChannel otherRest =>
          have arguments :=
            Bindings.ofJson_eq_iff_of_values
              (Json.isWritable_of_record writable (.tail _ (.head _)))
              (Json.isWritable_of_record writableToo (.tail _ (.head _)))
              (Term.areBoundIn_iff bindings)
          have tasks := Term.areSame_iff task
            (Json.areItemsWritable_of_array (Json.isWritable_of_record writable (.head _)))
            (Json.areItemsWritable_of_array (Json.isWritable_of_record writableToo (.head _)))
          refine Iff.trans (ofJson_tagged_record_eq_iff "apply"
            (by simp [OrderedMap.Distinct, OrderedMap.keys]) rfl) ?_
          simp only [ofMembers, List.cons.injEq, Prod.mk.injEq, true_and, and_true,
            ofJson_array_eq_iff, tasks, arguments, Bindings.same, ofJson_nat,
            Cbor.unsigned.injEq, ofJson_bool_eq_iff, Term.same, Bool.and_eq_true,
            beq_iff_eq, and_assoc]
      | _ => exact Term.ofJson_eq_iff_of_kind (by simp [Term.kind])
  | .cond condition prototype channel thenBlock elseBlock, right, writable,
      writableToo => by
      cases right with
      | cond otherCondition otherPrototype otherChannel otherThen otherElse =>
          have conditions := Term.areSame_iff condition
            (Json.areItemsWritable_of_array (Json.isWritable_of_record writable (.head _)))
            (Json.areItemsWritable_of_array (Json.isWritable_of_record writableToo (.head _)))
          have blocks (left right : BlockId) : left.index = right.index ↔
              left = right := by
            cases left
            cases right
            simp
          refine Iff.trans (ofJson_tagged_record_eq_iff "cond"
            (by simp [OrderedMap.Distinct, OrderedMap.keys]) rfl) ?_
          simp only [ofMembers, List.cons.injEq, Prod.mk.injEq, true_and, and_true,
            ofJson_array_eq_iff, conditions, Prototype.ofJson_eq_iff, BlockId.toJson,
            ofJson_nat, Cbor.unsigned.injEq, blocks, Term.same, Bool.and_eq_true,
            beq_iff_eq, and_assoc]
      | _ => exact Term.ofJson_eq_iff_of_kind (by simp [Term.kind])
  | .curry none bindings, right, writable, writableToo => by
      cases right with
      | curry otherTask others =>
          cases otherTask with
          | some otherTask =>
              refine Iff.trans (ofJson_tagged_record_eq_iff "curry"
                (by simp [OrderedMap.Distinct, OrderedMap.keys]) rfl) ?_
              simp [ofMembers, ofJson, Term.same]
          | none =>
              have arguments :=
                Bindings.ofJson_eq_iff_of_values
                  (Json.isWritable_of_record writable (.tail _ (.head _)))
                  (Json.isWritable_of_record writableToo (.tail _ (.head _)))
                  (Term.areBoundIn_iff bindings)
              refine Iff.trans (ofJson_tagged_record_eq_iff "curry"
                (by simp [OrderedMap.Distinct, OrderedMap.keys]) rfl) ?_
              simp only [ofMembers, List.cons.injEq, Prod.mk.injEq, true_and, and_true,
                arguments, Bindings.same, Term.same, Bool.and_eq_true, beq_iff_eq]
      | _ => exact Term.ofJson_eq_iff_of_kind (by simp [Term.kind])
  | .curry (some task) bindings, right, writable, writableToo => by
      cases right with
      | curry otherTask others =>
          cases otherTask with
          | none =>
              refine Iff.trans (ofJson_tagged_record_eq_iff "curry"
                (by simp [OrderedMap.Distinct, OrderedMap.keys]) rfl) ?_
              simp [ofMembers, ofJson, Term.same]
          | some otherTask =>
              have arguments :=
                Bindings.ofJson_eq_iff_of_values
                  (Json.isWritable_of_record writable (.tail _ (.head _)))
                  (Json.isWritable_of_record writableToo (.tail _ (.head _)))
                  (Term.areBoundIn_iff bindings)
              have tasks := Term.areSame_iff task
                (Json.areItemsWritable_of_array (Json.isWritable_of_record writable (.head _)))
                (Json.areItemsWritable_of_array
                  (Json.isWritable_of_record writableToo (.head _)))
              refine Iff.trans (ofJson_tagged_record_eq_iff "curry"
                (by simp [OrderedMap.Distinct, OrderedMap.keys]) rfl) ?_
              simp only [ofMembers, List.cons.injEq, Prod.mk.injEq, true_and, and_true,
                ofJson_array_eq_iff, tasks, arguments, Bindings.same, Term.same,
                Bool.and_eq_true, beq_iff_eq]
      | _ => exact Term.ofJson_eq_iff_of_kind (by simp [Term.kind])
termination_by structural left => left

theorem Term.areSame_iff :
    ∀ (left : List Term) {right : List Term}, Json.areItemsWritable (allToJson left) =
      true → Json.areItemsWritable (allToJson right) = true →
    (ofItems (allToJson left) = ofItems (allToJson right) ↔ areSame left right = true)
  | [], [], _, _ => by simp [Term.areSame]
  | [], _ :: _, _, _ => by simp [Term.areSame, Term.allToJson, ofItems]
  | _ :: _, [], _, _ => by simp [Term.areSame, Term.allToJson, ofItems]
  | left :: lefts, right :: rights, writable, writableToo => by
      simp only [Term.allToJson, Json.areItemsWritable,
        Bool.and_eq_true] at writable writableToo
      simp only [Term.allToJson, ofItems, List.cons.injEq, Term.areSame, Bool.and_eq_true]
      exact and_congr (Term.ofJson_eq_iff left writable.1 writableToo.1)
        (Term.areSame_iff lefts writable.2 writableToo.2)
termination_by structural left => left

theorem Term.areBoundIn_iff :
    ∀ (left : List (String × List Term)) {right : Bindings}, Bindings.Writable left →
      right.Writable → (right.EncodedIn left ↔ areBoundIn right left = true)
  | [], _, _, _ => by simp [Bindings.EncodedIn, Term.areBoundIn]
  | (parameter, value) :: rest, right, writable, writableToo => by
      obtain ⟨first, later⟩ := List.forall_mem_cons.mp writable
      simp only [Bindings.EncodedIn, List.forall_mem_cons, Term.areBoundIn,
        Bool.and_eq_true]
      refine and_congr ?_ (Term.areBoundIn_iff rest later writableToo)
      cases found : right.get? parameter with
      | none => simp
      | some other =>
          have otherWritable := writableToo _ (OrderedMap.mem_of_get? found)
          have values := Term.areSame_iff value (Json.areItemsWritable_of_array first)
            (Json.areItemsWritable_of_array otherWritable)
          simp only [Option.map_some, Function.comp_apply, Option.some.injEq,
            Compound.toJson, ofJson, Cbor.array.injEq]
          rw [eq_comm, values]
termination_by structural left => left

end

theorem Bindings.ofJson_eq_iff {left right : Bindings}
    (writable : (Bindings.toJson left).isWritable = true)
    (writableToo : (Bindings.toJson right).isWritable = true) :
    ofJson (Bindings.toJson left) = ofJson (Bindings.toJson right) ↔
      left.same right = true :=
  Bindings.ofJson_eq_iff_of_values writable writableToo (Term.areBoundIn_iff left)

end Same

end TicketFlow

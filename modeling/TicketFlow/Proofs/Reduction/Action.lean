import Mathlib.Data.List.Forall2
import TicketFlow.Reduction.Pass

namespace TicketFlow.PassM

/-! What an action makes of the state of a pass, and of its value.

An action moves the state along a preorder, whatever comes of it; if it ends
with a value, then the value is good in the state it was reached in, and under
a condition it does end with one.
-/

variable {σ α β : Type} {advances : Pass σ → Pass σ → Prop}
  {pre : Pass σ → Prop} {total : Prop}

theorem joinMap_singleton (f : β → PassM σ Compound) (value : β) :
    joinMap f [value] = f value := by
  have whole (head : Compound) : head ++ [] = head := List.append_nil head
  simp only [joinMap, pure_bind, whole, bind_pure]

theorem joinMap_append (f : β → PassM σ Compound) (values others : List β) :
    joinMap f (values ++ others) = joinMap f values >>=
      fun head => joinMap f others >>= fun tail => pure (head ++ tail) := by
  induction values with
  | nil => simp only [List.nil_append, joinMap, pure_bind, bind_pure]
  | cons value rest ih =>
      simp only [List.cons_append, joinMap, ih, bind_assoc, pure_bind, List.append_assoc]

/-- From every state with `pre` the action only advances and its value is good;
there is one if `total`. -/
def Ensures (advances : Pass σ → Pass σ → Prop) (pre : Pass σ → Prop)
    (good : Pass σ → α → Prop) (total : Prop) (action : PassM σ α) : Prop :=
  ∀ pass, pre pass → advances pass (action pass).2 ∧
    (∀ value, (action pass).1 = .ok value → good (action pass).2 value) ∧
    (total → ∃ value, (action pass).1 = .ok value)

/-- Nothing that happens in a pass takes `pre` away. -/
structure Steady (advances : Pass σ → Pass σ → Prop) (pre : Pass σ → Prop) : Prop where
  refl : ∀ pass, advances pass pass
  trans :
    ∀ {first second third}, advances first second → advances second third →
    advances first third
  kept : ∀ {before after}, pre before → advances before after → pre after

/-- The list of results of the elements, joined. -/
inductive Joined (good : β → Compound → Prop) : List β → Compound → Prop where
  | nil : Joined good [] []
  | cons {value : β} {rest : List β} {head tail : Compound} :
      good value head → Joined good rest tail → Joined good (value :: rest) (head ++ tail)

theorem Joined.exists_of_mem {good : β → Compound → Prop} {values : List β}
    {result : Compound} {term : Term} (joined : Joined good values result)
    (member : term ∈ result) :
    ∃ value ∈ values, ∃ part, good value part ∧ term ∈ part := by
  induction joined with
  | nil => simp at member
  | cons head _ ih =>
      rcases List.mem_append.mp member with here | later
      · exact ⟨_, List.mem_cons_self, _, head, here⟩
      · obtain ⟨value, among, part, fine, inside⟩ := ih later
        exact ⟨value, List.mem_cons_of_mem _ among, part, fine, inside⟩

section Rules

variable {good : Pass σ → α → Prop} {better : Pass σ → β → Prop} {action : PassM σ α}

theorem ensures_pure {value : α} (steady : Steady advances pre)
    (holds : ∀ pass, pre pass → good pass value) :
    Ensures advances pre good total (pure value) := by
  intro pass given
  refine ⟨steady.refl pass, fun result same => ?_, fun _ => ⟨value, rfl⟩⟩
  obtain rfl := Except.ok.inj same
  exact holds pass given

theorem ensures_halt {reason : Halt} (steady : Steady advances pre) (partial_ : ¬total) :
    Ensures advances pre good total (halt reason) := by
  intro pass _
  exact ⟨steady.refl pass, fun result same => by simp [halt] at same,
    fun always => absurd always partial_⟩

theorem Ensures.mono {pre' : Pass σ → Prop} {good' : Pass σ → α → Prop}
    {total' : Prop} (ensured : Ensures advances pre good total action)
    (weaker : ∀ pass, pre' pass → pre pass)
    (implies : ∀ pass value, good pass value → good' pass value)
    (rarer : total' → total) : Ensures advances pre' good' total' action := by
  intro pass given
  obtain ⟨moved, fine, ends⟩ := ensured pass (weaker pass given)
  exact ⟨moved, fun value same => implies _ value (fine value same),
    fun always => ends (rarer always)⟩

theorem Ensures.bind {next : α → PassM σ β} (steady : Steady advances pre)
    (first : Ensures advances pre good total action)
    (second : ∀ value, Ensures advances (fun pass => pre pass ∧ good pass value) better
      total (next value)) : Ensures advances pre better total (action >>= next) := by
  intro pass given
  obtain ⟨moved, fine, ends⟩ := first pass given
  rw [bind_run]
  cases outcome : action pass with
  | mk result after =>
      rw [outcome] at moved fine ends
      cases result with
      | error reason =>
          exact ⟨moved, fun value same => by simp at same,
            fun always => by simpa using ends always⟩
      | ok value =>
          obtain ⟨further, better, ends⟩ :=
            second value after ⟨steady.kept given moved, fine value rfl⟩
          exact ⟨steady.trans moved further, better, ends⟩

/-- An action whose value is put together with what was reached before. -/
theorem Ensures.map {f : α → β} (ensured : Ensures advances pre good total action)
    (holds : ∀ {before after value}, pre before → advances before after →
      good after value → better after (f value)) :
    Ensures advances pre better total (action >>= fun value => pure (f value)) := by
  intro pass given
  obtain ⟨moved, fine, ends⟩ := ensured pass given
  rw [bind_run]
  cases outcome : action pass with
  | mk result after =>
      rw [outcome] at moved fine ends
      cases result with
      | error reason =>
          exact ⟨moved, fun value same => by simp at same,
            fun always => by simpa using ends always⟩
      | ok value =>
          refine ⟨moved, fun result same => ?_, fun _ => ⟨f value, rfl⟩⟩
          obtain rfl := Except.ok.inj same
          exact holds given moved (fine value rfl)

theorem ensures_joinMap {f : β → PassM σ Compound} {values : List β}
    {fine : Pass σ → β → Compound → Prop} (steady : Steady advances pre)
    (lasting : ∀ {before after value result}, advances before after →
      fine before value result → fine after value result)
    (each : ∀ value ∈ values,
      Ensures advances pre (fun pass result => fine pass value result) total (f value)) :
    Ensures advances pre (fun pass result => Joined (fine pass) values result) total
      (joinMap f values) := by
  induction values with
  | nil => exact ensures_pure steady fun _ _ => .nil
  | cons value rest ih =>
      rw [List.forall_mem_cons] at each
      unfold joinMap
      refine Ensures.bind steady each.1 fun head => ?_
      refine Ensures.map ((ih each.2).mono (fun pass => And.left) (fun _ _ => id) id) ?_
      intro before after tail given moved joined
      exact .cons (lasting moved given.2) joined

theorem ensures_mapEntries {κ : Type} {f : β → PassM σ α} {entries : List (κ × β)}
    {fine : Pass σ → β → α → Prop} (steady : Steady advances pre)
    (lasting : ∀ {before after value result}, advances before after →
      fine before value result → fine after value result)
    (each : ∀ entry ∈ entries, Ensures advances pre
      (fun pass result => fine pass entry.2 result) total (f entry.2)) :
    Ensures advances pre
      (fun pass results => List.Forall₂ (fun before after => after.1 = before.1 ∧
        fine pass before.2 after.2) entries results) total
      (mapEntries f entries) := by
  induction entries with
  | nil => exact ensures_pure steady fun _ _ => .nil
  | cons entry rest ih =>
      rw [List.forall_mem_cons] at each
      obtain ⟨key, value⟩ := entry
      unfold mapEntries
      refine Ensures.bind steady each.1 fun head => ?_
      refine Ensures.map ((ih each.2).mono (fun pass => And.left) (fun _ _ => id) id) ?_
      intro before after tail given moved mapped
      exact .cons ⟨rfl, lasting moved given.2⟩ mapped

end Rules

end TicketFlow.PassM

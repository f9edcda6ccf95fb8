import Recurrence.Calendar.Minute
import Recurrence.Diagnostic

/-!
What reading and searching enter into a log, and results that carry their entries.
-/

set_option autoImplicit false
set_option relaxedAutoImplicit false

namespace Recurrence

/-- An entry of the log. -/
inductive Event
  /-- An input did not have five fields. -/
  | wrongFieldCount (input : String) (found : Nat)
  /-- A field of an input was no pattern over its domain. -/
  | invalidField (input : String) (field : Field) (token : String)
  /-- A search that began at a minute ended at its horizon. -/
  | nothingWithinHorizon (start : Calendar.CalendarMinute)
deriving DecidableEq

namespace Event

/-- The wording of an entry. -/
def message : Event → String
  | wrongFieldCount .. => "cron: wrong field count"
  | invalidField .. => "cron: invalid field"
  | nothingWithinHorizon .. => "cron: no occurrence within search horizon"

end Event

/-- A result and the log entries made on the way to it. -/
structure Logged (α : Type) where
  result : α
  events : List Event

namespace Logged

instance : Monad Logged where
  pure result := ⟨result, []⟩
  bind first next :=
    let second := next first.result
    ⟨second.result, first.events ++ second.events⟩

/-- Enters an event. -/
def enter (event : Event) : Logged Unit :=
  ⟨(), [event]⟩

instance : LawfulMonad Logged :=
  LawfulMonad.mk' Logged
    (by
      rintro α ⟨result, events⟩
      simp only [Functor.map, Function.comp_apply, List.append_nil, id_eq])
    (by
      intro α β result next
      simp only [pure, bind, List.nil_append])
    (by
      intro α β γ first next last
      simp only [bind, List.append_assoc])

@[simp]
theorem result_pure {α : Type} (result : α) : (pure result : Logged α).result = result :=
  rfl

@[simp]
theorem events_pure {α : Type} (result : α) : (pure result : Logged α).events = [] :=
  rfl

@[simp]
theorem result_bind {α β : Type} (first : Logged α) (next : α → Logged β) :
    (first >>= next).result = (next first.result).result :=
  rfl

@[simp]
theorem events_bind {α β : Type} (first : Logged α) (next : α → Logged β) :
    (first >>= next).events = first.events ++ (next first.result).events :=
  rfl

section

variable {ε α β : Type} {first : ExceptT ε Logged α} {next : α → ExceptT ε Logged β}

/-- The result of two steps that can fail comes from their results alone. -/
theorem result_run_bind :
    (first >>= next).run.result = first.run.result >>= fun value ↦ (next value).run.result := by
  rw [ExceptT.run_bind, result_bind]
  cases first.run.result <;> rfl

/-- Behind a step that fails nothing is done and nothing is entered. -/
theorem run_bind_of_error {fault : ε} {events : List Event}
    (h : first.run = ⟨.error fault, events⟩) : (first >>= next).run = ⟨.error fault, events⟩ := by
  rw [ExceptT.run_bind, h]
  simp only [bind, pure, List.append_nil]

end

end Logged

end Recurrence

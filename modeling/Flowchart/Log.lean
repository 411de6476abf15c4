/-!
# Log entries

What the library reports while it works is data: a list of entries in the order they arose. `Logged`
is a value together with the entries written on the way to it.

Computations are put together with `bind`: the entries of the first one come before those of the
second, and the value of the second does not depend on what was written (`Logged.value_bind`,
`Logged.log_bind`). So a computation that writes nothing can be left out of the log, and values can
be followed without it.
-/

namespace Flowchart

/-- How grave an entry is. -/
inductive Level where
  | debug
  | info
  | warning
  | error
  deriving DecidableEq, Repr

/-- The name of a level. -/
def Level.name : Level → String
  | .debug => "debug"
  | .info => "info"
  | .warning => "warning"
  | .error => "error"

/-- Whether an entry of this level is shown when only warnings and worse are. -/
def Level.isGrave : Level → Bool
  | .debug | .info => false
  | .warning | .error => true

/-- One entry of the log. -/
structure Entry where
  level : Level
  message : String
  deriving DecidableEq, Repr

/-- A value and the log written on the way to it. -/
structure Logged (α : Type) where
  value : α
  log : List Entry
  deriving Repr

namespace Logged

instance : Monad Logged where
  pure a := ⟨a, []⟩
  bind x f :=
    let y := f x.value
    ⟨y.value, x.log ++ y.log⟩

/-- Writes one entry. -/
def write (level : Level) (message : String) : Logged Unit := ⟨(), [⟨level, message⟩]⟩

/-- A value by itself is the value. -/
@[simp] theorem value_pure {α : Type} (a : α) : (pure a : Logged α).value = a := rfl

/-- A value by itself writes nothing. -/
@[simp] theorem log_pure {α : Type} (a : α) : (pure a : Logged α).log = [] := rfl

/-- The value of two computations in a row is that of the second. -/
@[simp] theorem value_bind {α β : Type} (x : Logged α) (f : α → Logged β) :
    (x >>= f).value = (f x.value).value := rfl

/-- Changing the value changes it alone. -/
@[simp] theorem value_map {α β : Type} (f : α → β) (x : Logged α) :
    (f <$> x).value = f x.value := rfl

/-- Two computations in a row write what each of them writes. -/
@[simp] theorem log_bind {α β : Type} (x : Logged α) (f : α → Logged β) :
    (x >>= f).log = x.log ++ (f x.value).log := rfl

instance : LawfulMonad Logged := LawfulMonad.mk' _
  (fun x => by cases x; simp [Functor.map])
  (fun a f => by simp [bind, pure])
  (fun x f g => by simp [bind, List.append_assoc])

/-- The values of computations for the items of a list are one for each item. -/
theorem value_mapM {α β : Type} (f : α → Logged β) (as : List α) :
    (as.mapM f).value = as.map fun a => (f a).value := by
  induction as with
  | nil => rfl
  | cons a as ih => rw [List.mapM_cons, value_bind, value_bind, ih, value_pure, List.map_cons]

end Logged

/-- How an elapsed time is written in the log: the clock is outside, so the digits are not known
here. -/
def elapsed : String := "Ts"

end Flowchart

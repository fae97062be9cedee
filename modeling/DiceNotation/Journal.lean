/-! The events that compiling and rolling report, and computations that report them. Events
only accumulate: nothing a computation does later removes or reorders them. -/

namespace DiceNotation

inductive Event where
  | compiledPattern (source template : String) (groups : Nat)
  | rolledGroup (name : String) (total : Int64)
  | rolledPattern (source : String) (total : Int64)
deriving DecidableEq, Repr

namespace Event

inductive Level where
  | debug
  | trace
deriving DecidableEq, Repr

def Level.name : Level → String
  | debug => "DEBUG"
  | trace => "TRACE"

def level : Event → Level
  | compiledPattern .. => .debug
  | rolledGroup .. => .trace
  | rolledPattern .. => .debug

def fields : Event → List (String × String)
  | compiledPattern source template groups =>
    [("message", "compiled pattern"), ("source", source), ("template", template),
      ("dice", toString groups)]
  | rolledGroup name total =>
    [("message", "rolled dice group"), ("dice", name), ("total", toString total.toInt)]
  | rolledPattern source total =>
    [("message", "rolled pattern"), ("source", source), ("total", toString total.toInt)]

end Event

structure Logged (α : Type) where
  value : α
  events : List Event := []

namespace Logged

def report (event : Event) : Logged Unit := ⟨(), [event]⟩

instance : Monad Logged where
  pure value := ⟨value, []⟩
  bind first next := ⟨(next first.value).value, first.events ++ (next first.value).events⟩

instance : LawfulMonad Logged :=
  LawfulMonad.mk' Logged
    (fun _ => by simp [Functor.map])
    (fun _ _ => by simp [bind, pure])
    (fun _ _ _ => by simp [bind])

end Logged

end DiceNotation

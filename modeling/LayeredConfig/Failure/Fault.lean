/-!
# Faults of user code

A supplier of configuration is code of the user's and may fail with an error of its own. A `Fault` is
such an error: its kind, its message, an optional hint, and the errors it was raised from (`cause`) or
raised while handling (`context`). `firstHint` is the hint a user is shown for it: that of the error
itself if it is not empty, else the first found behind its context, else behind its cause.
-/
namespace LayeredConfig

/-- The kinds of error that user code raises. -/
inductive FaultKind where
  | configuration | general | reload | value | runtime
  deriving DecidableEq, Repr

def FaultKind.isOfConfiguration : FaultKind → Bool
  | configuration => true
  | general => true
  | reload => true
  | value => false
  | runtime => false

/-- An error raised by user code. -/
inductive Fault where
  | mk (kind : FaultKind) (message : String) (hint : Option String) (cause context : Option Fault)

namespace Fault

def kind : Fault → FaultKind
  | mk k _ _ _ _ => k

def message : Fault → String
  | mk _ m _ _ _ => m

/-- The hint of a fault itself. -/
def hint : Fault → Option String
  | mk _ _ h _ _ => h

def cause : Fault → Option Fault
  | mk _ _ _ c _ => c

mutual

/-- The first hint along a fault, its context and its cause that is not empty. -/
def firstHint : Fault → Option String
  | mk _ _ hint cause context =>
    match hint.filter (· ≠ "") with
    | some h => some h
    | none =>
      match hintBehind context with
      | some h => some h
      | none => hintBehind cause

/-- The first hint along a fault that need not be there. -/
def hintBehind : Option Fault → Option String
  | none => none
  | some fault => fault.firstHint

end

end Fault
end LayeredConfig

namespace PackScript

/-!
# Library routines

Routines that compiled code calls by name. Each takes its arguments from the channel it is called
with; what it does is in `PackScript.Machine.Library`.
-/

/-- A routine of the run-time library. -/
inductive Routine where
  | add
  | subtract
  | mathOperation
  | equals
  | numberCompare
  | toNumber
  | getMember
  | setMember
  | computedMember
  | prototypeMember
  | loopArray
  | setClassPrototype
  | resolvePromise
  | awaitPromise
  | initPromise
  | singleQuoteConcat
  | setVariable
  | callFunction
  | bindFunction
  | allocate
  | run
  | schedule
deriving Repr, DecidableEq, Inhabited

namespace Routine

/-- All routines. -/
def all : List Routine :=
  [.add, .subtract, .mathOperation, .equals, .numberCompare, .toNumber, .getMember, .setMember,
   .computedMember, .prototypeMember, .loopArray, .setClassPrototype, .resolvePromise,
   .awaitPromise, .initPromise, .singleQuoteConcat, .setVariable, .callFunction, .bindFunction,
   .allocate, .run, .schedule]

/-- The name of a routine. -/
def name : Routine → String
  | .add => "add"
  | .subtract => "subtract"
  | .mathOperation => "mathoperation"
  | .equals => "equals"
  | .numberCompare => "numbercompare"
  | .toNumber => "tonumber"
  | .getMember => "getmember"
  | .setMember => "setmember"
  | .computedMember => "computedmember"
  | .prototypeMember => "prototypemember"
  | .loopArray => "looparray"
  | .setClassPrototype => "setclassprototype"
  | .resolvePromise => "resolvepromise"
  | .awaitPromise => "awaitpromise"
  | .initPromise => "initpromise"
  | .singleQuoteConcat => "singlequoteconcat"
  | .setVariable => "setvariable"
  | .callFunction => "callfunction"
  | .bindFunction => "bindfunction"
  | .allocate => "allocate"
  | .run => "run"
  | .schedule => "schedule"

/-- The routine of a name. -/
def ofName? (name : String) : Option Routine :=
  all.find? (·.name == name)

/-- The unit that holds a routine. -/
def unitName (r : Routine) : String :=
  "lib/" ++ r.name

end Routine

end PackScript

namespace PackScript

/-!
# Arguments of the command line

`Invocation.ofArguments?` reads the arguments that the program is started with. An option that
takes a value has it after `=`, right after its letter, or as the next argument; letters of
options without value may be written together. Nothing is given twice, and after `--` an argument
is never an option.
-/

/-- What is written for a program. -/
inductive OutputForm where
  /-- A function file for each unit -/
  | functions
  /-- The program itself, as JSON -/
  | json
deriving Repr, DecidableEq, Inhabited

/-- The name of a form on the command line. -/
def OutputForm.name : OutputForm → String
  | .functions => "mcfunction"
  | .json => "json"

/-- The form of a name. -/
def OutputForm.ofName? (s : String) : Option OutputForm :=
  [OutputForm.functions, .json].find? (·.name = s)

/-- What is asked for on the command line. -/
structure Arguments where
  input : Option String := none
  ns : Option String := none
  out : Option String := none
  config : Option String := none
  noPrelude : Bool := false
  form : Option OutputForm := none
  run : Bool := false
  ticks : Option Nat := none
  verbose : Bool := false
deriving Repr, DecidableEq, Inhabited

/-- What the program is started for. -/
inductive Invocation where
  | compile (input : String) (arguments : Arguments)
  | help (full : Bool)
  | version
deriving Repr, DecidableEq, Inhabited

/-! ### Options -/

/-- The options that take a value. -/
inductive Setting where
  | ns
  | out
  | config
  | form
  | ticks
deriving Repr, DecidableEq, Inhabited

/-- The options that take none. -/
inductive Flag where
  | noPrelude
  | run
  | verbose
deriving Repr, DecidableEq, Inhabited

/-- An option. -/
inductive OptionName where
  | setting (s : Setting)
  | flag (f : Flag)
  | help
  | version
deriving Repr, DecidableEq, Inhabited

/-- The option that a word names. -/
def OptionName.ofWord? : String → Option OptionName
  | "namespace" => some (.setting .ns)
  | "out" => some (.setting .out)
  | "config" => some (.setting .config)
  | "emit" => some (.setting .form)
  | "ticks" => some (.setting .ticks)
  | "no-prelude" => some (.flag .noPrelude)
  | "run" => some (.flag .run)
  | "verbose" => some (.flag .verbose)
  | "help" => some .help
  | "version" => some .version
  | _ => none

/-- The option that a letter names. -/
def OptionName.ofLetter? : Char → Option OptionName
  | 'n' => some (.setting .ns)
  | 'o' => some (.setting .out)
  | 'c' => some (.setting .config)
  | 'v' => some (.flag .verbose)
  | 'h' => some .help
  | 'V' => some .version
  | _ => none

/-- The path that a value is: not the empty one. -/
def pathValue? (s : String) : Option String :=
  if s.isEmpty then none else some s

/-- The number of ticks that a value is: digits for 64 bits, maybe after a plus sign. -/
def ticksValue? (s : String) : Option Nat :=
  let digits := match s.toList with
    | '+' :: rest => rest
    | cs => cs
  if digits.isEmpty || !digits.all (fun c => '0' ≤ c && c ≤ '9') then none
  else
    let n := digits.foldl (fun n c => 10 * n + (c.toNat - '0'.toNat)) 0
    if n < 1 <<< 64 then some n else none

/-- The first value that is given. A second one is refused. -/
def giveOnce {α : Type} (before value : Option α) : Option α :=
  if before.isSome then none else value

namespace Arguments

/-- The arguments with the value of an option. -/
def give (a : Arguments) (value : String) : Setting → Option Arguments
  | .ns => (giveOnce a.ns (some value)).map fun v => { a with ns := some v }
  | .out => (giveOnce a.out (pathValue? value)).map fun v => { a with out := some v }
  | .config => (giveOnce a.config (pathValue? value)).map fun v => { a with config := some v }
  | .form => (giveOnce a.form (OutputForm.ofName? value)).map fun v => { a with form := some v }
  | .ticks => (giveOnce a.ticks (ticksValue? value)).map fun v => { a with ticks := some v }

/-- The arguments with an option. -/
def raise (a : Arguments) : Flag → Option Arguments
  | .noPrelude => if a.noPrelude then none else some { a with noPrelude := true }
  | .run => if a.run then none else some { a with run := true }
  | .verbose => if a.verbose then none else some { a with verbose := true }

/-- The arguments with the file to compile. -/
def name (a : Arguments) (path : String) : Option Arguments :=
  (giveOnce a.input (pathValue? path)).map fun v => { a with input := some v }

/-- What is asked for: there is a file to compile, and ticks are for runs. -/
def invocation? (a : Arguments) : Option Invocation :=
  if a.ticks.isSome && !a.run then none
  else a.input.map fun input => .compile input a

end Arguments

/-! ### Reading -/

/-- How an argument is understood. -/
inductive Understood where
  /-- It is complete -/
  | done (a : Arguments)
  /-- The next argument is the value of the option -/
  | awaits (s : Setting) (a : Arguments)
  /-- The other arguments do not matter -/
  | asks (i : Invocation)

/-- An option by its word, maybe with a value after `=`. -/
def Arguments.word (a : Arguments) (word : List Char) : Option Understood := do
  let name := word.takeWhile (· ≠ '=')
  let value := (word.drop name.length).tail?.map String.ofList
  match ← OptionName.ofWord? (.ofList name), value with
  | .setting s, some value => return .done (← a.give value s)
  | .setting s, none => return .awaits s a
  | .flag f, none => return .done (← a.raise f)
  | .help, none => return .asks (.help true)
  | .version, none => return .asks .version
  | _, some _ => none

/-- Options by their letters. What follows the letter of an option with a value is the value. -/
def Arguments.letters (a : Arguments) : List Char → Option Understood
  | [] => some (.done a)
  | c :: rest => do
    match ← OptionName.ofLetter? c with
    | .flag f => letters (← a.raise f) rest
    | .help => return .asks (.help false)
    | .version => return .asks .version
    | .setting s =>
      match rest with
      | [] => return .awaits s a
      | '=' :: value => return .done (← a.give (.ofList value) s)
      | value => return .done (← a.give (.ofList value) s)

/-- The argument is written as an option. -/
def isOption (arg : String) : Bool :=
  match arg.toList with
  | '-' :: _ :: _ => true
  | _ => false

/-- An argument where no value is awaited. -/
def Arguments.understand (a : Arguments) (arg : String) : Option Understood :=
  match arg.toList with
  | '-' :: '-' :: word => a.word word
  | '-' :: c :: rest => a.letters (c :: rest)
  | _ => (a.name arg).map .done

/-- Reads arguments, where an option may await its value. -/
def Arguments.read (a : Arguments) (awaited : Option Setting) : List String → Option Invocation
  | [] => if awaited.isSome then none else a.invocation?
  | arg :: rest =>
    match awaited with
    | some s => if isOption arg then none else do read (← a.give arg s) none rest
    | none =>
      if arg = "--" then do (← rest.foldlM Arguments.name a).invocation?
      else do
        match ← a.understand arg with
        | .done a => read a none rest
        | .awaits s a => read a (some s) rest
        | .asks i => return i

/-- What the program is started for, `none` if the arguments are wrong. -/
def Invocation.ofArguments? (args : List String) : Option Invocation :=
  Arguments.read { } none args

end PackScript

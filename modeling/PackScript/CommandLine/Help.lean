import PackScript.CommandLine.Arguments

namespace PackScript

/-!
# Help

`helpText` describes the command line, in brief with a line for each option, or in full.
-/

/-- The name and the version of the program. -/
def versionText : String := "datajs 0.1.0\n"

/-- How the program is used. -/
def usageText : String := "Usage: datajs [OPTIONS] <INPUT>"

/-- What is said about an option. -/
structure OptionHelp where
  letter : Option Char := none
  word : String
  value : Option String := none
  text : String := ""
  /-- The usual value -/
  usual : Option String := none
  /-- The values and what they mean -/
  choices : List (String × String) := []

/-- The options. The description of help itself names its other form. -/
def optionHelp (full : Bool) : List OptionHelp :=
  [{ letter := some 'n', word := "namespace", value := some "NAMESPACE",
     text := "Namespace of the generated functions and storages" },
   { letter := some 'o', word := "out", value := some "OUT", text := "Output directory" },
   { letter := some 'c', word := "config", value := some "CONFIG",
     text := "Options file (defaults to datajs.toml next to the input when present)" },
   { word := "no-prelude", text := "Compile without the built-in globals" },
   { word := "emit", value := some "EMIT", usual := some "mcfunction",
     choices := [("mcfunction", "One function file per unit"), ("json", "The instruction IR")] },
   { word := "run", text := "Run the program in the simulator and print its output" },
   { word := "ticks", value := some "TICKS", usual := some "0",
     text := "Ticks to simulate after the entry unit when running" },
   { letter := some 'v', word := "verbose", text := "Debug logging (RUST_LOG overrides)" },
   { letter := some 'h', word := "help",
     text := if full then "Print help (see a summary with '-h')"
       else "Print help (see more with '--help')" },
   { letter := some 'V', word := "version", text := "Print version" }]

/-- So many blanks. -/
def blanks (n : Nat) : String :=
  .ofList (List.replicate n ' ')

/-- The text, filled with blanks up to a width. -/
def fillTo (width : Nat) (s : String) : String :=
  s ++ blanks (width - s.length)

namespace OptionHelp

/-- How the option is written. -/
def form (o : OptionHelp) : String :=
  (match o.letter with
    | some c => "-" ++ c.toString ++ ", "
    | none => "    ") ++ "--" ++ o.word ++
  (match o.value with
    | some value => " <" ++ value ++ ">"
    | none => "")

/-- The remark on the usual value. -/
def usualNote (o : OptionHelp) : List String :=
  (o.usual.map fun v => "[default: " ++ v ++ "]").toList

/-- The description in a line. -/
def briefText (o : OptionHelp) : String :=
  let choices :=
    if o.choices.isEmpty then []
    else ["[possible values: " ++ ", ".intercalate (o.choices.map (·.1)) ++ "]"]
  " ".intercalate ((if o.text.isEmpty then [] else [o.text]) ++ o.usualNote ++ choices)

/-- The values, one on a line. -/
def choiceLines (o : OptionHelp) : List String :=
  if o.choices.isEmpty then []
  else
    let width := (o.choices.map (·.1.length)).foldl max 0
    "Possible values:" ::
      o.choices.map fun (name, meaning) => "- " ++ fillTo (width + 2) (name ++ ":") ++ meaning

/-- The description in paragraphs: the text, the values and the usual one. -/
def fullText (o : OptionHelp) : String :=
  let margin := blanks 10
  let paragraphs := [[o.text], o.choiceLines, o.usualNote].map ("\n" ++ margin).intercalate
  ("\n" ++ margin ++ "\n" ++ margin).intercalate (paragraphs.filter (!·.isEmpty))

end OptionHelp

/-- The options with a line for each. -/
def briefOptions : String :=
  let options := optionHelp false
  let width := (options.map (·.form.length)).foldl max 0
  "\n".intercalate (options.map fun o => "  " ++ fillTo (width + 2) o.form ++ o.briefText)

/-- The options with paragraphs for each. -/
def fullOptions : String :=
  "\n\n".intercalate ((optionHelp true).map fun o =>
    "  " ++ o.form ++ "\n" ++ blanks 10 ++ o.fullText)

/-- Describes the command line. -/
def helpText (full : Bool) : String :=
  "Compile a JavaScript subset into datapack functions\n\n" ++ usageText ++
    "\n\nArguments:\n  <INPUT>" ++ (if full then "\n" ++ blanks 10 else "  ") ++
    "Script to compile\n\nOptions:\n" ++ (if full then fullOptions else briefOptions) ++ "\n"

end PackScript

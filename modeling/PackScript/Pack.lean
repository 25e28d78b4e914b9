import PackScript.Command
import PackScript.Json.Write
import PackScript.Program.UnitName

namespace PackScript

/-!
# Packs

A program is written as the files of a pack: its description, the tag that runs the entry unit
when the pack is loaded, and a function file for each unit.
-/

/-- A file of a pack, with its path from the root of the pack. -/
structure Artifact where
  path : String
  contents : String
deriving Repr, DecidableEq, Inhabited

/-- The version of the format of packs. -/
def packFormat : Nat := 48

/-- A JSON file. -/
def jsonFile (j : Json) : String :=
  j.pretty ++ "\n"

/-- The description of a pack. -/
def Program.packInfo (p : Program) : Json :=
  .object [("pack", .object
    [("description", .string (p.ns ++ " (datajs)")), ("pack_format", .int packFormat)])]

/-- The functions that run when a pack is loaded. -/
def Program.loadTag (p : Program) : Json :=
  .object [("values", .array [.string (functionId p.ns p.entry)])]

/-- The files of a pack. -/
def Program.artifacts (p : Program) : List Artifact :=
  ⟨"pack.mcmeta", jsonFile p.packInfo⟩ ::
  ⟨"data/minecraft/tags/function/load.json", jsonFile p.loadTag⟩ ::
  p.units.map fun (_, u) => ⟨unitPath p.ns u.name, u.commands p.ns⟩

end PackScript

import PyStatic.Files.Tree
import PyStatic.Settings.Basic
import PyStatic.Settings.Toml.Document
import PyStatic.Settings.Toml.Spelled

/-!
Contract: settings from files.
-/

namespace PyStatic

inductive SettingsError where
  | unreadable
  | malformed
  deriving DecidableEq, Repr

structure LoadedSettings where
  settings : Settings := {}
  warnings : List String := []
  deriving DecidableEq, Repr, Inhabited

namespace Settings

def fileName : String := "heron.toml"

def options : List (String × String) :=
  [("builtins", "extra"), ("inference", "max_loop_iterations"), ("liveness", "max_iterations")]

/-- An array gives the option by position, and a moment gives nothing. -/
def optionOf (name : String) : Option TomlValue → Except SettingsError (Option TomlValue)
  | none => .ok none
  | some (.table entries) => .ok (entries.lookup name)
  | some (.array items) => .ok items.head?
  | some (.moment _) => .ok none
  | some _ => .error .malformed

def textOf : TomlValue → Except SettingsError String
  | .text text => .ok text
  | _ => .error .malformed

def textsOf : Option TomlValue → Except SettingsError (List String)
  | none => .ok []
  | some (.array items) => items.mapM textOf
  | some _ => .error .malformed

def countOf (default : Nat) : Option TomlValue → Except SettingsError Nat
  | none => .ok default
  | some (.integer value) => if value < 0 then .error .malformed else .ok value.toNat
  | some _ => .error .malformed

def ofEntries (entries : List (String × TomlValue)) : Except SettingsError Settings := do
  let defaults : Settings := {}
  let option (part name : String) := optionOf name (entries.lookup part)
  return {
    extraBuiltins := ← textsOf (← option "builtins" "extra")
    maxLoopRounds := ← countOf defaults.maxLoopRounds (← option "inference" "max_loop_iterations")
    maxLivenessVisits :=
      ← countOf defaults.maxLivenessVisits (← option "liveness" "max_iterations") }

def unknownKeys (known : List String) (entries : List (String × TomlValue)) : List String :=
  ((entries.map (·.1)).filter (!known.contains ·)).mergeSort fun first second =>
    decide (first ≤ second)

def partWarnings (part option : String) : Option TomlValue → List String
  | some (.table entries) =>
    (unknownKeys [option] entries).map fun name =>
      s!"Unknown config option in [{part}]: '{name}'"
  | _ => []

def warningsOf (entries : List (String × TomlValue)) : List String :=
  (unknownKeys (options.map (·.1)) entries).map (fun name => s!"Unknown config option: '{name}'") ++
    options.flatMap fun (part, option) => partWarnings part option (entries.lookup part)

/-- There are no warnings when the file spells out a moment wrongly. -/
def ofText (text : String) : Except SettingsError LoadedSettings :=
  match Toml.parse? text with
  | none => .error .malformed
  | some entries =>
    (ofEntries entries).map fun settings =>
      ⟨settings, ((Toml.spelledEntries? entries).map warningsOf).getD []⟩

def load (tree : FileTree) (path : Path) : Except SettingsError LoadedSettings :=
  match (tree.read? path).bind String.fromUTF8? with
  | none => .error .unreadable
  | some text => ofText text

def find? (tree : FileTree) (start : Path) : Option Path :=
  ((start :: start.parents).map (·.join fileName)).find? tree.holds

def loadFor (tree : FileTree) (start : Path) : LoadedSettings :=
  match find? tree start with
  | none => {}
  | some path => (load tree path).toOption.getD {}

end Settings

end PyStatic

import DecisionNetwork.Error
import DecisionNetwork.Toml.Reader

/-!
Contract: the settings of queries and rule utilities, and how they are read from TOML.

Owns:
- `Settings` and its defaults;
- `Settings.read`, which takes the defaults for missing keys and ignores keys it does not know;
- `Settings.ofFile`, the same for a file, which may be unreadable.

The number of assignments is a whole number that is not negative.
-/

namespace DecisionNetwork

/-- The greatest number of assignments that a query enumerates at once, and whether utilities of
rules are cached. -/
structure Settings where
  maxAssignments : Nat := 1000000
  cacheUtilities : Bool := true
deriving DecidableEq, Repr, Inhabited

namespace Settings

def limitKey : String := "max_assignments"
def cachingKey : String := "cache_utilities"

/-- The number of assignments, or the one given if the key is missing. -/
def limit? (entries : Toml.Entries) (missing : Nat) : Option Nat :=
  match entries.lookup limitKey with
  | none => some missing
  | some (.integer (.ofNat number)) => some number
  | some _ => none

/-- The choice about caching, or the one given if the key is missing. -/
def caching? (entries : Toml.Entries) (missing : Bool) : Option Bool :=
  match entries.lookup cachingKey with
  | none => some missing
  | some (.boolean flag) => some flag
  | some _ => none

/-- The settings of a document. -/
def ofEntries? (entries : Toml.Entries) : Option Settings := do
  let defaults : Settings := {}
  return ⟨← limit? entries defaults.maxAssignments, ← caching? entries defaults.cacheUtilities⟩

/-- Reads settings from a text. -/
def read (text : String) : Except InferenceError Settings :=
  match (Toml.read? text).bind ofEntries? with
  | some settings => .ok settings
  | none => .error .settingsMalformed

/-- The settings in a file, given its content if it can be read. -/
def ofFile (path : String) (content : Option String) : Except InferenceError Settings :=
  match content with
  | some text => read text
  | none => .error (.settingsUnreadable path)

end Settings

end DecisionNetwork

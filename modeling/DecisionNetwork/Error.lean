import DecisionNetwork.Assignment.Basic
import DecisionNetwork.Rule.Basic
import DecisionNetwork.Text.Visible

/-!
Contract: why a network, a query or a configuration is refused, and the words for it.

Owns:
- `ModelError`, about the nodes of a network;
- `InferenceError`, about queries, rule utilities and settings;
- the message of each. That of malformed settings is not given, as it quotes the reader of TOML.
-/

namespace DecisionNetwork

inductive ModelError where
  | duplicateNode (id : String)
  | unknownInput (node input : String)
  | unknownNode (id : String)
deriving DecidableEq, Repr

open DecisionNetwork.Text

def ModelError.message : ModelError → String
  | .duplicateNode id => "Node " ++ quoted id ++ " is already in the network"
  | .unknownInput node input =>
    "Node " ++ quoted node ++ " refers to input " ++ quoted input ++
      ", which is not in the network"
  | .unknownNode id => "Unknown node " ++ quoted id

inductive InferenceError where
  | notUtilityRule (label : String) (kind : RuleKind)
  | degenerateQuery (evidence : Assignment)
  | tooManyAssignments (count limit : Nat)
  | unknownVariable (name : String)
  | model (cause : ModelError)
  | settingsUnreadable (path : String)
  | settingsMalformed
deriving Repr

def InferenceError.message? : InferenceError → Option String
  | .notUtilityRule label kind => some <|
    "Configuration error: rule " ++ label ++ " must be a utility rule, found a " ++ kind.display ++
      " rule"
  | .degenerateQuery evidence => some <|
    "Degenerate query: evidence " ++ evidence.display ++ " has no probability mass"
  | .tooManyAssignments count limit => some <|
    "Enumerating " ++ toString count ++ " assignments exceeds the limit of " ++ toString limit
  | .unknownVariable name => some ("Unknown variable " ++ quoted name)
  | .model cause => some ("Network error: " ++ cause.message)
  | .settingsUnreadable path => some ("Failed to read config file " ++ quoted path)
  | .settingsMalformed => none

end DecisionNetwork

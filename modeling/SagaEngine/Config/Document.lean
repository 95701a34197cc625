import SagaEngine.Config.Fields
import SagaEngine.Config.Validation
import SagaEngine.Config.Yaml
import SagaEngine.Saga.FailureKind
import SagaEngine.Text.ZeroEnded
/-!
# Loading a configuration

A document is a map of sections, or nothing at all, which is the configuration
without sections. What is read is checked before it is handed out.
-/

namespace SagaEngine

/-- Why a configuration is not loaded. -/
inductive ConfigError where
  | unreadableFile (path reason : String)
  | unreadableText (reason : String)
  | notAMapping
  | malformed
  | invalid (fault : SettingsFault)
  deriving DecidableEq, Repr

namespace ConfigError

/-- What a loading error says. -/
def wording : ConfigError → String
  | unreadableFile path reason => "Failed to load YAML config " ++ path ++ ": " ++ reason
  | unreadableText reason => "Failed to parse YAML config: " ++ reason
  | notAMapping => "Invalid configuration: top level must be a mapping"
  | malformed => "Invalid configuration: json"
  | invalid fault => fault.message

/-- The wording of a loading error, as it is raised. -/
def message (e : ConfigError) : String := untilZero e.wording

def kind : ConfigError → FailureKind
  | invalid _ => .invalidArgument
  | _ => .runtime

end ConfigError

namespace RuntimeSettings

/-- The checked configuration of a document. -/
def ofDocument (node : YamlNode) : Except ConfigError RuntimeSettings :=
  match node with
  | .undefined => .ok {}
  | .null => .ok {}
  | .mapping entries =>
    match ofJson? (YamlNode.mapping entries).toJson with
    | none => .error .malformed
    | some settings =>
      match settings.validate with
      | .error fault => .error (.invalid fault)
      | .ok _ => .ok settings
  | _ => .error .notAMapping

/-- The checked configuration of a file, which may not be readable. -/
def ofFile (path : String) (content : Except String YamlNode) :
    Except ConfigError RuntimeSettings :=
  match content with
  | .error reason => .error (.unreadableFile path reason)
  | .ok node => ofDocument node

/-- The checked configuration of a text, which may not be readable. -/
def ofText (content : Except String YamlNode) : Except ConfigError RuntimeSettings :=
  match content with
  | .error reason => .error (.unreadableText reason)
  | .ok node => ofDocument node

end RuntimeSettings

end SagaEngine

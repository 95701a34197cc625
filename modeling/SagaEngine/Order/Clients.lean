import SagaEngine.Order.Collaborator
import SagaEngine.Saga.FailureKind
/-!
# Callers of the collaborating services

One caller for each service, made from its settings. A service needs an endpoint;
the services are looked at in order, and the first one without it is an error.
-/

namespace SagaEngine

/-- The callers by the names of their services. -/
abbrev ServiceCallers := Dictionary RemoteCaller

/-- A service whose settings name no endpoint. -/
structure EndpointMissing where
  service : String
  deriving DecidableEq, Repr

namespace EndpointMissing

def message (e : EndpointMissing) : String :=
  "collaborators." ++ e.service ++ ".endpoint is required"

def kind (_ : EndpointMissing) : FailureKind := .invalidArgument

end EndpointMissing

namespace ServiceCallers

/-- The line about a service that can be called. -/
def channelLine (name : String) (s : CollaboratorSettings) : LogEntry :=
  .info "collaborator channel" [.text "name" name, .text "endpoint" s.endpoint]

/-- Adds the callers of services, in order. -/
def addAll (callers : ServiceCallers) :
    List (String × CollaboratorSettings) → Except EndpointMissing ServiceCallers × List LogEntry
  | [] => (.ok callers, [])
  | (name, s) :: rest =>
    if s.endpoint.isEmpty then (.error ⟨name⟩, [])
    else
      let (answer, lines) := addAll (callers.insert name (.ofSettings name s)) rest
      (answer, channelLine name s :: lines)

/-- The callers that the settings describe, and the lines about them. -/
def ofSettings (s : CollaboratorsSettings) :
    Except EndpointMissing ServiceCallers × List LogEntry :=
  addAll Dictionary.empty s.named

end ServiceCallers

end SagaEngine

import SagaEngine.Engine.Orchestrator
import SagaEngine.Recovery.Options
/-!
# The recovery sweep

A sweep looks for executions that have not moved for a while and resumes them,
oldest first. One that is too old for that is alerted, once, and left alone from
then on. Alerted executions stay in the store and keep sorting first, so the page
is widened by their number.
-/

namespace SagaEngine

open SagaEngine.Action

/-- What a sweep did. -/
structure SweepStats where
  resumed : Nat := 0
  alerted : Nat := 0
  failed : Nat := 0
  deriving DecidableEq, Repr, Inhabited

namespace Sweep

/-- The statuses that a sweep looks for. -/
def statuses : List Status := [.started, .inProgress, .compensating]

/-- The rows that a sweep at a time asks for. -/
def query (o : RecoveryOptions) (now alerted : Nat) : StaleQuery where
  statuses := statuses
  updatedBefore := now - min now (wrapWord64 o.staleAfter)
  limit := wrapWord64 (o.batchLimit + alerted)

/-- Whether an execution is too old to be resumed. -/
def isOverdue (o : RecoveryOptions) (now : Nat) (row : Execution) : Bool :=
  row.createdAt ≤ now && wrapWord64 o.alertAfter ≤ now - row.createdAt

/-- The alert about an execution that is too old. -/
def overdueAlert (now : Nat) (row : Execution) : Alert where
  executionId := row.id
  sagaType := row.sagaType
  status := row.status.name
  reason := "execution stuck non-terminal for " ++ toString ((now - row.createdAt) / 1000) ++ "s"

/-- Alerts an execution or resumes it. -/
def handle (e : Engine) (o : RecoveryOptions) (now : Nat) (row : Execution) (stats : SweepStats) :
    Action SweepStats := do
  if isOverdue o now row then
    ask (.markAlerted row.id)
    ask (.alert (overdueAlert now row))
    return { stats with alerted := stats.alerted + 1 }
  else
    match ← (e.resume row.id).attempt with
    | .ok _ => return { stats with resumed := stats.resumed + 1 }
    | .error failure =>
      log (.err "recovery resume failed" [.execution row.id, .text "error" failure.message])
      return { stats with failed := stats.failed + 1 }

/-- Handles rows in order, at most as many as are left of the batch. -/
def handleAll (e : Engine) (o : RecoveryOptions) (now : Nat) :
    List Execution → Nat → SweepStats → Action SweepStats
  | [], _, stats => return stats
  | _ :: _, 0, stats => return stats
  | row :: rest, left + 1, stats => do
    if ← ask (.wasAlerted row.id) then handleAll e o now rest (left + 1) stats
    else
      let stats ← handle e o now row stats
      handleAll e o now rest left stats

/-- The line about a sweep that found something. -/
def line (found : Nat) (stats : SweepStats) : LogEntry :=
  .info "recovery sweep"
    [.int "stale" found, .int "resumed" stats.resumed, .int "alerted" stats.alerted,
      .int "failed" stats.failed]

def find (q : StaleQuery) : Action (List Execution) :=
  withTransaction fun tx => do
    let rows ← answered (← ask (.listStale tx q))
    commit tx
    return rows

/-- One sweep at a time. -/
def once (e : Engine) (o : RecoveryOptions) (now : Nat) : Action SweepStats := do
  let alerted ← ask .alertedCount
  let found ← find (query o now alerted)
  let stats ← handleAll e o now found o.batchLimit {}
  if !found.isEmpty then
    log (line found.length stats)
  return stats

/-- One sweep of the running daemon, at the present time; it outlives failures. -/
def guarded (e : Engine) (o : RecoveryOptions) : Action Unit := do
  let now ← ask .now
  match ← (once e o now).attempt with
  | .ok _ => return ()
  | .error failure => log (.err "recovery sweep failed" [.text "error" failure.message])

end Sweep

end SagaEngine

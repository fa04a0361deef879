import AnimeFeedFlux.Rpc.Status
import AnimeFeedFlux.Store.Runs

/-!
# The run service

`RunServer.Delete` removes a row of the run history.  It asks nothing of the row: neither
its status nor whether a budget window still counts it.
-/

namespace AnimeFeedFlux

/-- `RunServer.Delete`. -/
def deleteRun (db : DB) (runID : ℕ) : Reply Unit :=
  if db.runs.any (·.id == runID) then (deleteRuns db (·.id == runID), .ok ())
  else (db, .error ⟨.notFound, "rpc: run " ++ toString runID ++ " not found", none⟩)

end AnimeFeedFlux

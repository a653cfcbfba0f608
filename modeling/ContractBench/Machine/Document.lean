import ContractBench.Machine.Environment
import ContractBench.Transaction.Document
/-!
# Run contexts as JSON
-/

namespace ContractBench.Context

def ofJson? (j : Json) : Option Context := do
  let f ← j.record? ["app_id", "creator", "round", "latest_timestamp", "cost_budget"]
  return {
    appId := ← f.required "app_id" Json.word?
    creator := ← f.required "creator" Address.ofJson?
    round := ← f.required "round" Json.word?
    latestTimestamp := ← f.required "latest_timestamp" Json.word?
    costBudget := ← f.required "cost_budget" Json.word? }

def toJson (c : Context) : Json :=
  .obj [("app_id", .word c.appId), ("creator", c.creator.toJson), ("round", .word c.round),
    ("latest_timestamp", .word c.latestTimestamp), ("cost_budget", .word c.costBudget)]

end ContractBench.Context

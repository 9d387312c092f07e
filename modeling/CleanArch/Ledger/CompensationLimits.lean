import CleanArch.Ledger.Compensation

/-!
# The limits of compensating entries

The schemas of a settlement feed limit its texts (`ReconcileArgs.Admitted`). A compensation puts
them into longer texts, whose columns have limits of their own (`LedgerCmd.FitsTables`), and a
posting takes amounts with at most four decimals.
-/

namespace CleanArch

open Async List Prog

/-! ## The schemas -/

section Parts

variable [PyStr]

variable (gatewayName : String)

variable {item : SettlementItemDTO}

variable {gatewayName : String}

variable (entries : List JournalEntryEntity)

end Parts

/-! ## One item -/

end CleanArch

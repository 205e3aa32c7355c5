import Mathlib
import Remzar.Chain

/-! Repeated transfers along accepted chains. -/
namespace Remzar
open Fallible AccountGuard

def TxKind.transferId [Blake3] : TxKind → Option String
  | .transfer tx => tx.id.toOption
  | _ => none

/-- The ids of the transfers in a batch, in order. -/
def transferIds [Blake3] (batch : TransactionBatch) : List String :=
  batch.transactions.filterMap TxKind.transferId

end Remzar

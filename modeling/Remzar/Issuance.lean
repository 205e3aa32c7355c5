import Mathlib
import Remzar.Halving
import Remzar.Chain

/-! Issuance along accepted chains, compared with the emission schedule. -/
namespace Remzar
open Fallible AccountGuard RewardHalving

theorem ChainRun.tip [Blake3] {log : List (Block × TransactionBatch)} {s : ChainState}
    (h : ChainRun log s) (htip : s.tree.inner.hasTip) :
    s.tree.inner.tipHeight.toNat + 1 = log.length ∧
      s.tree.inner.tipHeight ≤ maxMetadataIndexHard := by
  cases h with
  | start db => cases htip
  | step hrun hacc =>
    have hext := hacc.extends hrun.invariant.queue
    have hbound : s.tree.inner.tipHeight ≤ maxMetadataIndexHard := hext.tip.2 ▸ hext.bounded
    refine ⟨?_, hbound⟩
    rw [← expectedNextHeight_of_tip htip hbound]
    exact (ChainRun.step hrun hacc).invariant.next

namespace Sample

end Sample

end Remzar

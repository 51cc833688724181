import ContractSim.Proofs.Ledger.Activation
import ContractSim.Proofs.Machine.Effect
import Mathlib.Data.List.Nodup

namespace ContractSim

namespace Ledger

variable {ledger : Ledger} {recipient least timestamp : Word}

end Ledger

namespace Machine

-- Going through the incoming transactions, from a timestamp on: the next one is put into A, and
-- the search goes on from its timestamp, until there is none.
inductive Visits (protocol : Protocol) : Machine → Word → List Word → Machine → Prop
  | done {machine asked : Machine} {timestamp : Word}
      (hnext : (call protocol .nextTransaction timestamp 0).run machine = (.ok .done, asked))
      (hnone : asked.contract.a.w1 = 0) : Visits protocol machine timestamp [] asked
  | visit {machine asked told final : Machine} {timestamp reached : Word} {ids : List Word}
      (hnext : (call protocol .nextTransaction timestamp 0).run machine = (.ok .done, asked))
      (hfound : asked.contract.a.w1 ≠ 0)
      (htold : (call protocol .transactionTimestamp 0 0).run asked = (.ok (.value reached), told))
      (hrest : Visits protocol told reached ids final) :
      Visits protocol machine timestamp (asked.contract.a.w1 :: ids) final

theorem Visits.unique {protocol : Protocol} {machine final last : Machine} {timestamp : Word}
    {ids others : List Word} (hvisits : Visits protocol machine timestamp ids final)
    (hothers : Visits protocol machine timestamp others last) : others = ids := by
  induction hvisits generalizing others with
  | done hnext hnone =>
      cases hothers with
      | done => rfl
      | visit hsame hfound =>
          cases hnext.symm.trans hsame
          exact absurd hnone hfound
  | visit hnext hfound htold _ ih =>
      cases hothers with
      | done hsame hnone =>
          cases hnext.symm.trans hsame
          exact absurd hnone hfound
      | visit hsame _ hreached hrest =>
          cases hnext.symm.trans hsame
          cases htold.symm.trans hreached
          rw [ih hrest]

section Incoming

variable {machine : Machine} {tx : Transaction}

end Incoming

end Machine

end ContractSim

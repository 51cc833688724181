import ContractSim.Proofs.Machine.Iteration
import ContractSim.Proofs.Session.Timestamp

namespace ContractSim

open Ledger Transaction

namespace Session

open Simulation

end Session

end ContractSim

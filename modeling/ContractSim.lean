import ContractSim.Api.Call
import ContractSim.Api.Function
import ContractSim.Arguments
import ContractSim.Assembly.Fee
import ContractSim.Assembly.Instruction
import ContractSim.Assembly.Line
import ContractSim.Assembly.Program
import ContractSim.Assembly.Token
import ContractSim.CommandLine
import ContractSim.Contract.Basic
import ContractSim.Contract.Load
import ContractSim.Contract.Memory
import ContractSim.Contract.Queue
import ContractSim.Contract.Stack
import ContractSim.Debugger
import ContractSim.Decimal.Layout
import ContractSim.Decimal.Range
import ContractSim.Decimal.Shortest
import ContractSim.Digest
import ContractSim.Digest.Blocks
import ContractSim.Digest.Md5
import ContractSim.Digest.Ripemd160
import ContractSim.Digest.Sha256
import ContractSim.Hex
import ContractSim.IdStream
import ContractSim.Json.Basic
import ContractSim.Json.Number
import ContractSim.Json.Parser
import ContractSim.Json.Printer
import ContractSim.Ledger.Account
import ContractSim.Ledger.Assets
import ContractSim.Ledger.Balance
import ContractSim.Ledger.Basic
import ContractSim.Ledger.History
import ContractSim.Ledger.Transaction
import ContractSim.Machine.Arithmetic
import ContractSim.Machine.Basic
import ContractSim.Machine.Execute
import ContractSim.Machine.Fault
import ContractSim.Machine.Run
import ContractSim.Machine.Step
import ContractSim.Main
import ContractSim.Message
import ContractSim.Proofs.Action
import ContractSim.Proofs.Api.Fairness
import ContractSim.Proofs.Api.Shares
import ContractSim.Proofs.Assembly.Grammar
import ContractSim.Proofs.Assembly.Names
import ContractSim.Proofs.Assembly.Occurrence
import ContractSim.Proofs.Assembly.Scan
import ContractSim.Proofs.Assembly.Spelling
import ContractSim.Proofs.Assembly.Words
import ContractSim.Proofs.Contract.Directives
import ContractSim.Proofs.Contract.Lifecycle
import ContractSim.Proofs.Contract.Loading
import ContractSim.Proofs.Contract.Log
import ContractSim.Proofs.Contract.Memory
import ContractSim.Proofs.Contract.Payments
import ContractSim.Proofs.Contract.Queue
import ContractSim.Proofs.Contract.Units
import ContractSim.Proofs.Debugger.Replay
import ContractSim.Proofs.Debugger.Subroutine
import ContractSim.Proofs.Digest
import ContractSim.Proofs.Hex
import ContractSim.Proofs.Ledger.Activation
import ContractSim.Proofs.Ledger.Alike
import ContractSim.Proofs.Ledger.Balance
import ContractSim.Proofs.Ledger.Delivery
import ContractSim.Proofs.Ledger.History
import ContractSim.Proofs.Ledger.Holders
import ContractSim.Proofs.Ledger.Posting
import ContractSim.Proofs.Ledger.Record
import ContractSim.Proofs.Ledger.Refusal
import ContractSim.Proofs.Ledger.Share
import ContractSim.Proofs.Ledger.Timestamp
import ContractSim.Proofs.Ledger.Units
import ContractSim.Proofs.Machine.Alike
import ContractSim.Proofs.Machine.Arithmetic
import ContractSim.Proofs.Machine.Atomic
import ContractSim.Proofs.Machine.Control
import ContractSim.Proofs.Machine.Course
import ContractSim.Proofs.Machine.Distribution
import ContractSim.Proofs.Machine.Effect
import ContractSim.Proofs.Machine.Fault
import ContractSim.Proofs.Machine.Frame
import ContractSim.Proofs.Machine.Iteration
import ContractSim.Proofs.Machine.Layout
import ContractSim.Proofs.Machine.Lifecycle
import ContractSim.Proofs.Machine.Loop
import ContractSim.Proofs.Machine.Metering
import ContractSim.Proofs.Machine.Share
import ContractSim.Proofs.Machine.Sleep
import ContractSim.Proofs.Machine.Spending
import ContractSim.Proofs.Machine.Step
import ContractSim.Proofs.Machine.Subroutine
import ContractSim.Proofs.Machine.Ticket
import ContractSim.Proofs.Machine.Units
import ContractSim.Proofs.Machine.Unseen
import ContractSim.Proofs.Machine.Wide
import ContractSim.Proofs.Message
import ContractSim.Proofs.Scenario.Literal
import ContractSim.Proofs.Session.Activation
import ContractSim.Proofs.Session.Block
import ContractSim.Proofs.Session.Conservation
import ContractSim.Proofs.Session.Deployment
import ContractSim.Proofs.Session.Distribution
import ContractSim.Proofs.Session.Halt
import ContractSim.Proofs.Session.History
import ContractSim.Proofs.Session.Iteration
import ContractSim.Proofs.Session.Lifecycle
import ContractSim.Proofs.Session.Metering
import ContractSim.Proofs.Session.Move
import ContractSim.Proofs.Session.Order
import ContractSim.Proofs.Session.Receipt
import ContractSim.Proofs.Session.Scenario
import ContractSim.Proofs.Session.Share
import ContractSim.Proofs.Session.Sleep
import ContractSim.Proofs.Session.Ticket
import ContractSim.Proofs.Session.Timestamp
import ContractSim.Proofs.Session.Turn
import ContractSim.Proofs.Session.Units
import ContractSim.Proofs.Settings
import ContractSim.Proofs.Simulation.Activation
import ContractSim.Proofs.Simulation.Books
import ContractSim.Proofs.Simulation.Deploy
import ContractSim.Proofs.Simulation.Dispatch
import ContractSim.Proofs.Simulation.Forge
import ContractSim.Proofs.Simulation.History
import ContractSim.Proofs.Simulation.Install
import ContractSim.Proofs.Simulation.Lifecycle
import ContractSim.Proofs.Simulation.Receipt
import ContractSim.Proofs.Simulation.Resume
import ContractSim.Proofs.Simulation.Sleep
import ContractSim.Proofs.Simulation.Timestamp
import ContractSim.Proofs.Simulation.Units
import ContractSim.Proofs.Termination
import ContractSim.Proofs.Text.Numeral
import ContractSim.Proofs.Text.Positional
import ContractSim.Proofs.UpdateFirst
import ContractSim.Proofs.Word
import ContractSim.Proofs.Word.Bytes
import ContractSim.Proofs.Word.Signed
import ContractSim.Protocol
import ContractSim.Register
import ContractSim.Scenario.Basic
import ContractSim.Scenario.Literal
import ContractSim.Session
import ContractSim.Settings.Basic
import ContractSim.Settings.Document
import ContractSim.Simulation.Basic
import ContractSim.Simulation.Deploy
import ContractSim.Simulation.Forge
import ContractSim.Text.Basic
import ContractSim.Text.Numeral
import ContractSim.Toml.Basic
import ContractSim.Toml.Datetime
import ContractSim.Toml.Number
import ContractSim.Toml.Parser
import ContractSim.Toml.Printer
import ContractSim.UpdateFirst
import ContractSim.View.Contract
import ContractSim.View.Ledger
import ContractSim.View.Report
import ContractSim.Word

import CodeRecovery.Address
import CodeRecovery.AddressSpace
import CodeRecovery.CommandLine
import CodeRecovery.CommandLine.Folder
import CodeRecovery.CommandLine.Options
import CodeRecovery.Extraction
import CodeRecovery.Failure
import CodeRecovery.FlowOps
import CodeRecovery.Graph.Backend
import CodeRecovery.Graph.Cursor
import CodeRecovery.Graph.Function
import CodeRecovery.Graph.Instruction
import CodeRecovery.Graph.Verify
import CodeRecovery.Handler
import CodeRecovery.HandlerMap
import CodeRecovery.Journal
import CodeRecovery.LittleEndian
import CodeRecovery.Main
import CodeRecovery.Native.Decode
import CodeRecovery.Native.Instruction
import CodeRecovery.Native.Register
import CodeRecovery.Opcode
import CodeRecovery.Pe.Image
import CodeRecovery.Proofs.Action
import CodeRecovery.Proofs.Address
import CodeRecovery.Proofs.Agreement
import CodeRecovery.Proofs.ControlFlow
import CodeRecovery.Proofs.Coupling
import CodeRecovery.Proofs.Extraction.Addresses
import CodeRecovery.Proofs.Extraction.Encoding
import CodeRecovery.Proofs.Extraction.Tiling
import CodeRecovery.Proofs.Extraction.Truncation
import CodeRecovery.Proofs.Extraction.Window
import CodeRecovery.Proofs.Graph.Acceptance
import CodeRecovery.Proofs.Graph.Balance
import CodeRecovery.Proofs.Graph.Building
import CodeRecovery.Proofs.Graph.Emission
import CodeRecovery.Proofs.Graph.Execution
import CodeRecovery.Proofs.Graph.Lawful
import CodeRecovery.Proofs.Graph.Layout
import CodeRecovery.Proofs.Graph.LockStep
import CodeRecovery.Proofs.Graph.Meaning
import CodeRecovery.Proofs.Graph.Moves
import CodeRecovery.Proofs.Graph.Numbering
import CodeRecovery.Proofs.Graph.Outline
import CodeRecovery.Proofs.Graph.Refinement
import CodeRecovery.Proofs.Graph.Rules
import CodeRecovery.Proofs.Graph.Shape
import CodeRecovery.Proofs.Graph.Text
import CodeRecovery.Proofs.Graph.Typing
import CodeRecovery.Proofs.HandlerMap
import CodeRecovery.Proofs.LockStep
import CodeRecovery.Proofs.Memory
import CodeRecovery.Proofs.Native.Locality
import CodeRecovery.Proofs.Pe.Mapping
import CodeRecovery.Proofs.Routine.Balance
import CodeRecovery.Proofs.Routine.Decoding
import CodeRecovery.Proofs.Routine.Emission
import CodeRecovery.Proofs.Routine.Execution
import CodeRecovery.Proofs.Routine.Exploration
import CodeRecovery.Proofs.Routine.Layout
import CodeRecovery.Proofs.Routine.Links
import CodeRecovery.Proofs.Routine.LockStep
import CodeRecovery.Proofs.Routine.Moves
import CodeRecovery.Proofs.Routine.Refinement
import CodeRecovery.Proofs.Routine.Scoping
import CodeRecovery.Proofs.Routine.Sealing
import CodeRecovery.Proofs.Routine.Shape
import CodeRecovery.Proofs.Routine.WellFormed
import CodeRecovery.Proofs.Session
import CodeRecovery.Proofs.Simulator.Arithmetic
import CodeRecovery.Proofs.Simulator.Balance
import CodeRecovery.Proofs.Simulator.Context
import CodeRecovery.Proofs.Simulator.Footprint
import CodeRecovery.Proofs.Simulator.Frame
import CodeRecovery.Proofs.Simulator.Overlap
import CodeRecovery.Proofs.Simulator.Safety
import CodeRecovery.Proofs.Skeleton
import CodeRecovery.Proofs.StackBalance
import CodeRecovery.Proofs.Stepping
import CodeRecovery.Proofs.Tally
import CodeRecovery.Recovery
import CodeRecovery.Register
import CodeRecovery.Routine.Backend
import CodeRecovery.Routine.Basic
import CodeRecovery.Routine.Encode
import CodeRecovery.Routine.Instruction
import CodeRecovery.Session
import CodeRecovery.Settings
import CodeRecovery.Simulator.Basic
import CodeRecovery.Simulator.Memory
import CodeRecovery.StackOps
import CodeRecovery.Stub
import CodeRecovery.Text.Blank
import CodeRecovery.Text.Hex
import CodeRecovery.Text.Layout
import CodeRecovery.Text.Rounded
import CodeRecovery.Toml.Reader
import CodeRecovery.Toml.Value
import CodeRecovery.Width

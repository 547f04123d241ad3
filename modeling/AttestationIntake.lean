import AttestationIntake.Bytes.Fixed
import AttestationIntake.Bits.Delimited
import AttestationIntake.Chain.Order
import AttestationIntake.Text.Quoted
import AttestationIntake.Decimal.Layout
import AttestationIntake.Json.Reader
import AttestationIntake.Json.Printer
import AttestationIntake.Json.Containers
import AttestationIntake.Chain.Inspect
import AttestationIntake.EpochIndex.Basic
import AttestationIntake.Pool
import AttestationIntake.BlockStore
import AttestationIntake.Intake
import AttestationIntake.Mailbox.Basic
import AttestationIntake.Bits.Register
import AttestationIntake.Settings.Document
import AttestationIntake.Proofs.EpochIndex.ArrivalList
import AttestationIntake.Proofs.EpochIndex.Represents
import AttestationIntake.Proofs.EpochIndex.Changes
import AttestationIntake.Proofs.EpochIndex.Composition
import AttestationIntake.Proofs.EpochIndex.Refinement
import AttestationIntake.Proofs.EpochIndex.WellFormed
import AttestationIntake.Proofs.EpochIndex.ByEpoch
import AttestationIntake.Proofs.EpochIndex.Newest
import AttestationIntake.Proofs.Bits.Positions
import AttestationIntake.Proofs.Bits.ByteForm
import AttestationIntake.Proofs.Bits.Joining
import AttestationIntake.Proofs.Pool.Contents
import AttestationIntake.Proofs.Pool.ClosedForm
import AttestationIntake.Proofs.Pool.OffChain
import AttestationIntake.Proofs.Orphans.Contents
import AttestationIntake.Proofs.Orphans.Window
import AttestationIntake.Proofs.Orphans.Alike
import AttestationIntake.Proofs.Orphans.Entries
import AttestationIntake.Proofs.Orphans.Conservation
import AttestationIntake.Proofs.Tally.Figures
import AttestationIntake.Proofs.Intake.Events
import AttestationIntake.Proofs.Intake.Outcome
import AttestationIntake.Proofs.Intake.Overlap
import AttestationIntake.Proofs.Intake.Metadata
import AttestationIntake.Proofs.Intake.Alignment
import AttestationIntake.Proofs.Intake.Imports
import AttestationIntake.Proofs.Intake.Refusals
import AttestationIntake.Proofs.Intake.ImportOrder
import AttestationIntake.Proofs.Intake.Ticks
import AttestationIntake.Proofs.Intake.Accounts
import AttestationIntake.Proofs.Bytes.Fixed
import AttestationIntake.Proofs.Intake.Submissions
import AttestationIntake.Proofs.Intake.Handover
import AttestationIntake.Proofs.Intake.Redelivery
import AttestationIntake.Proofs.Json.Restates
import AttestationIntake.Proofs.Json.Containers
import AttestationIntake.Proofs.Mailbox.Direct
import AttestationIntake.Proofs.Mailbox.Service
import AttestationIntake.Proofs.Chain.Conversion
import AttestationIntake.Proofs.Chain.Order
import AttestationIntake.Proofs.Bits.Registers
import AttestationIntake.Proofs.Yaml.Words
import AttestationIntake.Proofs.Yaml.Lines
import AttestationIntake.Proofs.Yaml.Mappings
import AttestationIntake.Proofs.Yaml.OneLine
import AttestationIntake.Proofs.Yaml.Values
import AttestationIntake.Proofs.Yaml.Decimals
import AttestationIntake.Proofs.Settings.Lines
import AttestationIntake.Proofs.Settings.Document

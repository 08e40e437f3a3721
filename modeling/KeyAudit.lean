import KeyAudit.Main
import KeyAudit.Proofs.Audit.Gain
import KeyAudit.Proofs.Audit.LineEnds
import KeyAudit.Proofs.Audit.Marking
import KeyAudit.Proofs.Audit.Order
import KeyAudit.Proofs.Cycles
import KeyAudit.Proofs.Command.Output
import KeyAudit.Proofs.Command.Readback
import KeyAudit.Proofs.Command.Respelling
import KeyAudit.Proofs.Command.Writing
import KeyAudit.Proofs.Path.Beside
import KeyAudit.Proofs.Settings.Decoding
import KeyAudit.Proofs.Settings.Extensions
import KeyAudit.Proofs.Settings.Loading
import KeyAudit.Proofs.Settings.Search
import KeyAudit.Proofs.Toml.Headings

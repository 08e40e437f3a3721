import KeyAudit.Proofs.Audit.Respelling
import KeyAudit.Proofs.Command.Exit

namespace KeyAudit

open Disk

namespace Command.Surroundings

variable {w : Surroundings} {root root' c : Path}

end Command.Surroundings

end KeyAudit

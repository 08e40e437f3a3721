import KeyAudit.Path.Basic
import KeyAudit.Text.Lossy

namespace KeyAudit.Path

def display (p : Path) : String := Text.lossy p.bytes

end KeyAudit.Path

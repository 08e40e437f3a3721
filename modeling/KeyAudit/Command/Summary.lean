import KeyAudit.Audit.Basic
import KeyAudit.Command.Color

namespace KeyAudit.Command

def note (color : Bool) (s : String) : String := paint color ["1;36"] "note:" ++ " " ++ s ++ "\n"

def counted (n : Nat) (one many : String) : String :=
  toString n ++ " " ++ if n = 1 then one else many

def summaryText (a : Audit) : String :=
  "Checked " ++ counted a.keyCount "key" "keys" ++ " across " ++ counted a.fileCount "file" "files" ++
    " - " ++ if a.unused = [] then "no unused keys" else
      counted a.unused.length "unused key" "unused keys"

def summary (color : Bool) (a : Audit) : String :=
  let (mark, style) := if a.unused = [] then ("✓", "32") else ("✘", "31")
  paint color [style] mark ++ " " ++ paint color [style] (summaryText a) ++ "\n"

end KeyAudit.Command

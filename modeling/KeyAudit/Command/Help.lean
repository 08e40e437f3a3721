import KeyAudit.Command.Color
import KeyAudit.Text.Unstyled

namespace KeyAudit.Command

def versionText : String := "check-unused 0.1.0\n"

def heading (s : String) : String := paint true ["1", "4"] s

def literal (s : String) : String := paint true ["1"] s

def usageLine (name : String) : String :=
  heading "Usage:" ++ " " ++ literal name ++ " [OPTIONS] <PATH>\n"

structure OptionEntry where
  short : String
  long : String
  value : String := ""
  purpose : String

def optionEntries : List OptionEntry :=
  [{ short := "-t", long := "--template-path", value := " <TEMPLATE_PATH>"
     purpose := "Template path (default: ../../common/template.toml next to the executable)" },
   { short := "-v", long := "--verbose", purpose := "Print a scan summary to stderr" },
   { short := "-h", long := "--help", purpose := "Print help" },
   { short := "-V", long := "--version", purpose := "Print version" }]

namespace OptionEntry

def width (o : OptionEntry) : Nat := o.short.length + 2 + o.long.length + o.value.length

/-- The purposes stand in one column, two characters behind the longest option. -/
def column : Nat := (optionEntries.map width).foldr max 0 + 2

def line (o : OptionEntry) : String :=
  "  " ++ literal o.short ++ ", " ++ literal o.long ++ o.value ++
    String.ofList (List.replicate (column - o.width) ' ') ++ o.purpose ++ "\n"

end OptionEntry

def styledHelp (name : String) : String :=
  "Check for unused language keys\n\n" ++ usageLine name ++ "\n" ++ heading "Arguments:" ++ "\n" ++
    "  <PATH>  Path of the script folder to scan\n\n" ++
    heading "Options:" ++ "\n" ++ String.join (optionEntries.map (·.line))

/-- Without styles the name too is shown without its escape sequences. -/
def helpText (styled : Bool) (name : String) : String :=
  if styled then styledHelp name else Text.unstyled (styledHelp name)

end KeyAudit.Command

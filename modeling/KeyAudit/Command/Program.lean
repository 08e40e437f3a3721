import KeyAudit.Command.Help
import KeyAudit.Command.Outcome

namespace KeyAudit.Command

def UsageStop.fault : UsageStop → String
  | .help => "help requested"
  | .version => "version requested"
  | .unknownArgument => "unexpected argument"
  | .invalidValue => "missing or empty value"
  | .tooManyValues => "unexpected value for a flag"
  | .conflict => "an option is given more than once"
  | .missingPath => "no <PATH> is given"

def usageText (name : String) (stop : UsageStop) : String :=
  "error: " ++ stop.fault ++ "\n\n" ++ Text.unstyled (usageLine name) ++
    "\nFor more information, try '--help'.\n"

structure Exit where
  code : UInt8
  stdout : Bytes
  stderr : String
  deriving DecidableEq, Repr

namespace Exit

/-- The status tells a run from a failure, and nothing about the keys. -/
def ofOutcome (o : Outcome) (explanation : String) : Exit :=
  match o.failure with
  | none => ⟨0, o.stdout, o.stderr⟩
  | some e => ⟨2, o.stdout, o.stderr ++ "Error: " ++ e.message explanation ++ "\n"⟩

def ofText (sink : Sink) (text : String) : Exit := ⟨0, (sink.write (Text.utf8 text)).1.output, ""⟩

def ofStop (sink : Sink) (styled : Bool) (name : String) : UsageStop → Exit
  | .help => ofText sink (helpText styled name)
  | .version => ofText sink versionText
  | stop => ⟨2, [], usageText name stop⟩

end Exit

structure Call where
  name : String
  arguments : List String
  styledHelp : Bool := false
  deriving DecidableEq, Repr

def execute (w : Surroundings) (c : Call) : Exit :=
  match Request.ofArguments c.arguments with
  | .error stop => .ofStop w.stdout c.styledHelp c.name stop
  | .ok q => .ofOutcome (w.run q) w.explanation

end KeyAudit.Command

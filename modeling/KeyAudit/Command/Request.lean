import KeyAudit.Path.Basic

namespace KeyAudit.Command

structure Request where
  path : Path
  template : Option Path
  verbose : Bool
  deriving DecidableEq, Repr

inductive UsageStop where
  | help
  | version
  | unknownArgument
  | invalidValue
  | tooManyValues
  | conflict
  | missingPath
  deriving DecidableEq, Repr

/-- The value read last. It is looked at only when the next option or positional argument begins. -/
inductive Pending where
  | nothing
  | path (v : Bytes)
  | template (v : Option Bytes)
  deriving DecidableEq, Repr

structure Reading where
  pending : Pending := .nothing
  path : Option Bytes := none
  template : Option Bytes := none
  verbose : Bool := false
  deriving DecidableEq, Repr

namespace Reading

def settle (r : Reading) : Except UsageStop Reading :=
  match r.pending with
  | .nothing => .ok r
  | .path v => if v = [] then .error .invalidValue
    else .ok { r with pending := .nothing, path := some v }
  | .template none => .error .invalidValue
  | .template (some v) =>
    if r.template.isSome then .error .conflict
    else if v = [] then .error .invalidValue
    else .ok { r with pending := .nothing, template := some v }

def setVerbose (r : Reading) : Except UsageStop Reading :=
  if r.verbose then .error .conflict else .ok { r with verbose := true }

def askHelp (_ : Reading) : Except UsageStop Reading := .error .help

def askVersion (_ : Reading) : Except UsageStop Reading := .error .version

def awaitTemplate (r : Reading) : Except UsageStop Reading :=
  .ok { r with pending := .template none }

def setTemplate (v : Bytes) (r : Reading) : Except UsageStop Reading :=
  settle { r with pending := .template (some v) }

def positional (r : Reading) (v : Bytes) : Except UsageStop Reading :=
  match r.path, r.pending with
  | some _, _ => .error .unknownArgument
  | _, .path _ => .error .unknownArgument
  | _, _ => (settle r).map fun r ↦ { r with pending := .path v }

def value (r : Reading) (v : Bytes) : Except UsageStop Reading :=
  match r.pending with
  | .template none => .ok { r with pending := .template (some v) }
  | _ => positional r v

def flag (v : Option Bytes) (f : Reading → Except UsageStop Reading) (r : Reading) :
    Except UsageStop Reading :=
  match v with
  | some _ => .error .tooManyValues
  | none => (settle r).bind f

def long (name : Bytes) (v : Option Bytes) (r : Reading) : Except UsageStop Reading :=
  if name = Text.utf8 "help" then flag v askHelp r
  else if name = Text.utf8 "version" then flag v askVersion r
  else if name = Text.utf8 "verbose" then flag v setVerbose r
  else if name = Text.utf8 "template-path" then
    match v with
    | some v => (settle r).bind (setTemplate v)
    | none => (settle r).bind awaitTemplate
  else .error .unknownArgument

def dash : UInt8 := '-'.toUInt8

def equalsSign : UInt8 := '='.toUInt8

def longArgument (b : Bytes) (r : Reading) : Except UsageStop Reading :=
  match b.dropWhile (· != equalsSign) with
  | [] => long b none r
  | _ :: v => long (b.takeWhile (· != equalsSign)) (some v) r

/-- Options of one letter behind one dash. What stands behind `t` is its value. -/
def cluster : Bytes → Reading → Except UsageStop Reading
  | [], r => .ok r
  | c :: cs, r =>
    if c = 'v'.toUInt8 then
      match (settle r).bind setVerbose with
      | .ok r => cluster cs r
      | .error e => .error e
    else if c = 'h'.toUInt8 then (settle r).bind askHelp
    else if c = 'V'.toUInt8 then (settle r).bind askVersion
    else if c = 't'.toUInt8 then
      match cs with
      | [] => (settle r).bind awaitTemplate
      | d :: v => (settle r).bind (setTemplate (if d = equalsSign then v else d :: v))
    else .error .unknownArgument

def argument (r : Reading) (a : Bytes) : Except UsageStop Reading :=
  match a with
  | d :: c :: cs =>
    if d ≠ dash then value r a
    else if c = dash then longArgument cs r
    else cluster (c :: cs) r
  | _ => value r a

/-- Reads arguments up to the first stop. Behind `--` all are positional. -/
def arguments : Reading → List Bytes → Except UsageStop Reading
  | r, [] => .ok r
  | r, a :: as =>
    if a = [dash, dash] then as.foldlM positional r
    else
      match argument r a with
      | .ok r => arguments r as
      | .error e => .error e

def finish (r : Reading) : Except UsageStop Request :=
  match settle r with
  | .error e => .error e
  | .ok r =>
    match r.path with
    | some p => .ok ⟨⟨p⟩, r.template.map Path.mk, r.verbose⟩
    | none => .error .missingPath

end Reading

namespace Request

def ofTokens (as : List Bytes) : Except UsageStop Request :=
  (Reading.arguments {} as).bind Reading.finish

def ofArguments (as : List String) : Except UsageStop Request := ofTokens (as.map Text.utf8)

end Request

end KeyAudit.Command

namespace KeyAudit.Command

/-- What the environment says about colour: a choice to force it, a ban, a choice of its own, and
whether anyone is there to see it. -/
structure ColorWish where
  force : Option String := none
  ban : Option String := none
  choice : Option String := none
  terminal : Bool := false
  deriving DecidableEq, Repr

namespace ColorWish

def allowed (w : ColorWish) : Bool := w.choice.all (· != "0") && w.terminal

/-- In notes and summaries the forced choice goes first, where `0` forces nothing. -/
def notes (w : ColorWish) : Bool :=
  if w.force.any (· != "0") then true else w.ban.isNone && w.allowed

/-- In the help text the ban goes first. It and the forced choice count with any text but none. -/
def help (w : ColorWish) : Bool :=
  if w.ban.any (· != "") then false else w.force.any (· != "") || w.allowed

end ColorWish

def paint (color : Bool) (styles : List String) (s : String) : String :=
  if color then String.join (styles.map fun style ↦ "\x1b[" ++ style ++ "m") ++ s ++ "\x1b[0m"
  else s

end KeyAudit.Command

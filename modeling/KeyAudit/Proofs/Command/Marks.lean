import KeyAudit.Command.Request
import Mathlib.Data.List.Count

namespace KeyAudit.Command

open Reading

/-- The line is wrong. The other stops are what the line asks for. -/
def UsageStop.IsFault : UsageStop → Prop
  | .help => False
  | .version => False
  | _ => True

/-- What an argument counts as. An option that awaits its value counts as that too. -/
inductive Mark where
  | operand
  | awaiting
  | templateOption
  | verboseOption
  | stop
  deriving DecidableEq

namespace Mark

def ofLetters : Bytes → List Mark
  | [] => []
  | c :: cs =>
    if c = 'v'.toUInt8 then verboseOption :: ofLetters cs
    else if c = 'h'.toUInt8 then [stop]
    else if c = 'V'.toUInt8 then [stop]
    else if c = 't'.toUInt8 then if cs = [] then [templateOption, awaiting] else [templateOption]
    else [stop]

def ofName (name : Bytes) (v : Option Bytes) : List Mark :=
  if name = Text.utf8 "help" then [stop]
  else if name = Text.utf8 "version" then [stop]
  else if name = Text.utf8 "verbose" then if v.isSome then [stop] else [verboseOption]
  else if name = Text.utf8 "template-path" then
    if v.isSome then [templateOption] else [templateOption, awaiting]
  else [stop]

def ofLong (b : Bytes) : List Mark :=
  match b.dropWhile (· != equalsSign) with
  | [] => ofName b none
  | _ :: v => ofName (b.takeWhile (· != equalsSign)) (some v)

def ofArgument : Bytes → List Mark
  | d :: c :: cs =>
    if d ≠ dash then [operand] else if c = dash then ofLong cs else ofLetters (c :: cs)
  | _ => [operand]

def ofArguments : List Bytes → List Mark
  | [] => []
  | a :: as =>
    if a = [dash, dash] then List.replicate as.length operand
    else ofArgument a ++ ofArguments as

end Mark

open Mark

namespace Pending

def isPath : Pending → Bool
  | .path _ => true
  | _ => false

def awaits : Pending → Nat
  | .template none => 1
  | _ => 0

def templates : Pending → Nat
  | .template _ => 1
  | _ => 0

end Pending

namespace Reading

variable {r r' r'' : Reading} {ms ns : List Mark} {v : Bytes} {e : UsageStop}
  {f : Reading → Except UsageStop Reading}

def paths (r : Reading) : Nat := (r.path.isSome || r.pending.isPath).toNat

def templates (r : Reading) : Nat := r.template.isSome.toNat + r.pending.templates

/-- What has been read between two readings, told by its marks. An operand is a path unless an
option awaits it. -/
structure Counts (r r' : Reading) (ms : List Mark) : Prop where
  paths : r'.paths + r.pending.awaits + ms.count awaiting =
    r.paths + r'.pending.awaits + ms.count operand
  templates : r'.templates = r.templates + ms.count templateOption
  verbose : r'.verbose.toNat = r.verbose.toNat + ms.count verboseOption
  goesOn : stop ∉ ms

theorem Counts.refl (r : Reading) : r.Counts r [] := ⟨rfl, rfl, rfl, List.not_mem_nil⟩

theorem Counts.trans (h : r.Counts r' ms) (h' : r'.Counts r'' ns) : r.Counts r'' (ms ++ ns) := by
  obtain ⟨hp, ht, hv, hs⟩ := h
  obtain ⟨hp', ht', hv', hs'⟩ := h'
  refine ⟨?_, ?_, ?_, ?_⟩
  · rw [List.count_append, List.count_append]
    omega
  · rw [List.count_append]
    omega
  · rw [List.count_append]
    omega
  · rw [List.mem_append, not_or]
    exact ⟨hs, hs'⟩

/-- A step ends in a reading that counts right, or in a fault. Only where its marks have a stop may it
ask for the help or the version. -/
def Goes (r : Reading) (ms : List Mark) : Except UsageStop Reading → Prop
  | .ok r' => r.Counts r' ms
  | .error e => stop ∉ ms → e.IsFault

theorem Goes.counts {x : Except UsageStop Reading} (h : r.Goes ms x) (hx : x = .ok r') :
    r.Counts r' ms := by
  rw [hx] at h
  exact h

theorem Goes.isFault {x : Except UsageStop Reading} (h : r.Goes ms x) (hx : x = .error e)
    (hstop : stop ∉ ms) : e.IsFault := by
  rw [hx] at h
  exact h hstop

theorem goes_stop (r : Reading) (e : UsageStop) : r.Goes [stop] (.error e) :=
  fun h ↦ absurd (List.mem_singleton_self stop) h

theorem goes_fault (h : e.IsFault) : r.Goes ms (.error e) := fun _ ↦ h

theorem goes_ite {c : Prop} [Decidable c] {x y : Except UsageStop Reading} (hx : c → r.Goes ms x)
    (hy : ¬ c → r.Goes ns y) : r.Goes (if c then ms else ns) (if c then x else y) := by
  split
  · exact hx ‹c›
  · exact hy ‹¬ c›

theorem Goes.bind {x : Except UsageStop Reading} (h : r.Goes ms x)
    (hf : ∀ r', x = .ok r' → r'.Goes ns (f r')) : r.Goes (ms ++ ns) (x.bind f) := by
  cases x with
  | error e => exact fun hstop ↦ h fun hms ↦ hstop (List.mem_append_left ns hms)
  | ok r₁ =>
    change r.Goes (ms ++ ns) (f r₁)
    cases hx : f r₁ with
    | error e =>
      exact fun hstop ↦ (hf r₁ rfl).isFault hx fun hns ↦ hstop (List.mem_append_right ms hns)
    | ok r₂ => exact Counts.trans h ((hf r₁ rfl).counts hx)

theorem goes_settle (r : Reading) : r.Goes [] (settle r) := by
  obtain ⟨pending, path, template, verbose⟩ := r
  rw [settle]
  cases pending with
  | nothing => exact .refl _
  | path v =>
    dsimp only
    split
    · exact goes_fault trivial
    · exact ⟨by simp [paths, Pending.isPath, Pending.awaits], rfl, rfl, List.not_mem_nil⟩
  | template v =>
    cases v with
    | none => exact goes_fault trivial
    | some v =>
      dsimp only
      split
      · exact goes_fault trivial
      · split
        · exact goes_fault trivial
        · rename_i h _
          rw [Option.not_isSome_iff_eq_none] at h
          subst h
          exact ⟨by simp [paths, Pending.isPath, Pending.awaits], rfl, rfl, List.not_mem_nil⟩

theorem pending_of_settle (h : settle r = .ok r') : r'.pending = .nothing := by
  rw [settle] at h
  split at h
  · rename_i hnothing
    cases h
    exact hnothing
  all_goals
    repeat' split at h
    all_goals cases h
    all_goals rfl

theorem goes_settle_bind (hf : ∀ r' : Reading, r'.pending = .nothing → r'.Goes ms (f r')) :
    r.Goes ms ((settle r).bind f) := by
  rw [← List.nil_append ms]
  exact (goes_settle r).bind fun r' h ↦ hf r' (pending_of_settle h)

theorem goes_setVerbose (r : Reading) : r.Goes [verboseOption] (setVerbose r) := by
  rw [setVerbose]
  split
  · exact goes_fault trivial
  · rename_i h
    rw [Bool.not_eq_true] at h
    refine ⟨rfl, rfl, ?_, by decide⟩
    rw [h]
    rfl

theorem goes_awaitTemplate (h : r.pending = .nothing) :
    r.Goes [templateOption, awaiting] (awaitTemplate r) := by
  obtain ⟨pending, path, template, verbose⟩ := r
  subst h
  exact ⟨rfl, rfl, rfl, by decide⟩

theorem goes_setTemplate (h : r.pending = .nothing) (v : Bytes) :
    r.Goes [templateOption] (setTemplate v r) := by
  obtain ⟨pending, path, template, verbose⟩ := r
  subst h
  have hset : Counts ⟨.nothing, path, template, verbose⟩
      ⟨.template (some v), path, template, verbose⟩ [templateOption] := ⟨rfl, rfl, rfl, by decide⟩
  exact Goes.bind (x := .ok _) hset fun r' hr' ↦ by
    cases hr'
    exact goes_settle _

theorem paths_of_settle (h : settle r = .ok r') (hr : r.paths = 0) : r'.paths = 0 := by
  have hpaths := ((goes_settle r).counts h).paths
  rw [hr, pending_of_settle h] at hpaths
  simp only [Pending.awaits, List.count_nil] at hpaths
  omega

theorem goes_readPath (h : r.pending = .nothing) (hr : r.paths = 0) (v : Bytes) :
    r.Goes [operand] (.ok { r with pending := .path v }) := by
  obtain ⟨pending, path, template, verbose⟩ := r
  subst h
  refine ⟨?_, rfl, rfl, by decide⟩
  rw [hr]
  simp [paths, Pending.isPath, Pending.awaits]

theorem goes_positional (r : Reading) (v : Bytes) : r.Goes [operand] (positional r v) := by
  rw [positional]
  split
  · exact goes_fault trivial
  · exact goes_fault trivial
  · rename_i hpath hpending
    have hnone : r.path = none := Option.eq_none_iff_forall_ne_some.2 hpath
    have hno : r.pending.isPath = false := by
      cases hr : r.pending with
      | path v => exact absurd hr (hpending v)
      | nothing => rfl
      | template v => rfl
    have hpaths : r.paths = 0 := by rw [paths, hnone, hno]; rfl
    change r.Goes ([] ++ [operand]) ((settle r).bind fun r ↦ .ok { r with pending := .path v })
    exact (goes_settle r).bind fun r' h ↦
      goes_readPath (pending_of_settle h) (paths_of_settle h hpaths) v

theorem goes_value (r : Reading) (v : Bytes) : r.Goes [operand] (value r v) := by
  rw [value]
  split
  · rename_i h
    obtain ⟨pending, path, template, verbose⟩ := r
    subst h
    exact ⟨rfl, rfl, rfl, by decide⟩
  · exact goes_positional r v

theorem goes_flag (v : Option Bytes)
    (hf : ∀ r' : Reading, r'.pending = .nothing → r'.Goes ms (f r')) :
    r.Goes (if v.isSome then [stop] else ms) (flag v f r) := by
  cases v with
  | some v => exact goes_stop r _
  | none => exact goes_settle_bind hf

theorem goes_askHelp (r : Reading) : r.Goes [stop] (askHelp r) := goes_stop r _

theorem goes_askVersion (r : Reading) : r.Goes [stop] (askVersion r) := goes_stop r _

theorem goes_long (name : Bytes) (v : Option Bytes) (r : Reading) :
    r.Goes (ofName name v) (long name v r) := by
  rw [ofName, long.eq_def]
  refine goes_ite (fun _ ↦ ?_) fun _ ↦ goes_ite (fun _ ↦ ?_) fun _ ↦ goes_ite (fun _ ↦ ?_) fun _ ↦
    goes_ite (fun _ ↦ ?_) fun _ ↦ goes_stop r _
  · rw [← ite_self (c := v.isSome = true) [stop]]
    exact goes_flag v fun r' _ ↦ goes_askHelp r'
  · rw [← ite_self (c := v.isSome = true) [stop]]
    exact goes_flag v fun r' _ ↦ goes_askVersion r'
  · exact goes_flag v fun r' _ ↦ goes_setVerbose r'
  · cases v with
    | none => exact goes_settle_bind fun r' h ↦ goes_awaitTemplate h
    | some v => exact goes_settle_bind fun r' h ↦ goes_setTemplate h v

theorem goes_longArgument (b : Bytes) (r : Reading) : r.Goes (ofLong b) (longArgument b r) := by
  rw [ofLong, longArgument.eq_def]
  cases b.dropWhile (· != equalsSign) with
  | nil => exact goes_long b none r
  | cons d v => exact goes_long _ _ r

theorem cluster_verbose (cs : Bytes) (r : Reading) :
    cluster ('v'.toUInt8 :: cs) r = ((settle r).bind setVerbose).bind (cluster cs) := by
  rw [cluster.eq_def]
  simp only [if_true]
  cases (settle r).bind setVerbose with
  | error e => rfl
  | ok r' => rfl

theorem goes_cluster (b : Bytes) (r : Reading) : r.Goes (ofLetters b) (cluster b r) := by
  induction b generalizing r with
  | nil => exact .refl r
  | cons c cs ih =>
    rw [ofLetters]
    by_cases hv : c = 'v'.toUInt8
    · subst hv
      rw [if_pos rfl, cluster_verbose]
      exact (goes_settle_bind fun r' _ ↦ goes_setVerbose r').bind fun r' _ ↦ ih r'
    · rw [cluster.eq_def, if_neg hv]
      dsimp only
      rw [if_neg hv]
      refine goes_ite (fun _ ↦ ?_) fun _ ↦ goes_ite (fun _ ↦ ?_) fun _ ↦
        goes_ite (fun _ ↦ ?_) fun _ ↦ goes_stop r _
      · exact goes_settle_bind fun r' _ ↦ goes_askHelp r'
      · exact goes_settle_bind fun r' _ ↦ goes_askVersion r'
      · cases cs with
        | nil => exact goes_settle_bind fun r' h ↦ goes_awaitTemplate h
        | cons d v => exact goes_settle_bind fun r' h ↦ goes_setTemplate h _

theorem goes_argument (r : Reading) (a : Bytes) : r.Goes (ofArgument a) (argument r a) := by
  match a with
  | [] => exact goes_value r []
  | [d] => exact goes_value r [d]
  | d :: c :: cs =>
    exact goes_ite (fun _ ↦ goes_value r _) fun _ ↦
      goes_ite (fun _ ↦ goes_longArgument cs r) fun _ ↦ goes_cluster (c :: cs) r

theorem goes_positionals (as : List Bytes) (r : Reading) :
    r.Goes (List.replicate as.length operand) (as.foldlM positional r) := by
  induction as generalizing r with
  | nil => exact .refl r
  | cons a as ih =>
    rw [List.foldlM_cons, List.length_cons, List.replicate_succ]
    exact (goes_positional r a).bind fun r' _ ↦ ih r'

theorem arguments_cons {a : Bytes} (h : a ≠ [dash, dash]) (as : List Bytes) (r : Reading) :
    arguments r (a :: as) = (argument r a).bind fun r' ↦ arguments r' as := by
  rw [arguments, if_neg h]
  cases argument r a with
  | error e => rfl
  | ok r' => rfl

theorem goes_arguments (as : List Bytes) (r : Reading) : r.Goes (ofArguments as) (arguments r as) := by
  induction as generalizing r with
  | nil => exact .refl r
  | cons a as ih =>
    rw [ofArguments]
    split
    · rename_i h
      rw [arguments, if_pos h]
      exact goes_positionals as r
    · rename_i h
      rw [arguments_cons h]
      exact (goes_argument r a).bind fun r' _ ↦ ih r'

end Reading

end KeyAudit.Command

import KeyAudit.Command.Program
import KeyAudit.Proofs.Audit.Result

namespace KeyAudit

variable {d : Disk} {root template : Path} {settings : Settings}

theorem Disk.isDirectory_of_not_has (h : d.has root = false) : d.isDirectory root = false := by
  unfold has at h
  unfold isDirectory
  split at h
  · cases h
  · rename_i he
    rw [he]

theorem Audit.run_of_not_has (h : d.has root = false) (template : Path) (settings : Settings) :
    ∃ e, run d root template settings = .error e := by
  rw [run_eq]
  cases Template.load d template with
  | error e => exact ⟨e, rfl⟩
  | ok t =>
    simp only [Sources.scan, Disk.isDirectory_of_not_has h, Bool.false_eq_true, if_false]
    exact ⟨_, rfl⟩

namespace Command

def keyLine (k : String) : Bytes := Text.utf8 k ++ [Text.lineFeed]

namespace Sink

variable {s : Sink}

theorem write_of_room_eq_none (h : s.room = none) (b : Bytes) :
    s.write b = ({ s with taken := b :: s.taken }, true) := by
  rw [write, h]

theorem output_cons (s : Sink) (b : Bytes) :
    output { s with taken := b :: s.taken } = s.output ++ b := by
  simp [output]

theorem writeKeys_of_room_eq_none (h : s.room = none) (ks : List String) :
    ∃ s', s.writeKeys ks = (s', true) ∧ s'.output = s.output ++ ks.flatMap keyLine := by
  induction ks generalizing s with
  | nil => exact ⟨s, rfl, (List.append_nil _).symm⟩
  | cons k ks ih =>
    rw [writeKeys, write_of_room_eq_none h]
    dsimp only
    rw [write_of_room_eq_none (s := { s with taken := Text.utf8 k :: s.taken }) h]
    obtain ⟨s', hs, hout⟩ := ih
      (s := { s with taken := [Text.lineFeed] :: Text.utf8 k :: s.taken }) h
    refine ⟨s', hs, ?_⟩
    rw [hout, output_cons { s with taken := Text.utf8 k :: s.taken } [Text.lineFeed],
      output_cons, List.flatMap_cons, keyLine, List.append_assoc, List.append_assoc,
      List.append_assoc]

end Sink

/-- The program reports a failure: nothing stands on its output, and the message is the last thing that
it says. -/
def Exit.FailsWith (x : Exit) (message : String) : Prop :=
  x.code = 2 ∧ x.stdout = [] ∧ ∃ notes, x.stderr = notes ++ "Error: " ++ message ++ "\n"

theorem Exit.failsWith_of_failure {notes explanation : String} {e : RunFailure} :
    (ofOutcome ⟨[], notes, some e⟩ explanation).FailsWith (e.message explanation) :=
  ⟨rfl, rfl, notes, rfl⟩

namespace Surroundings

variable {w : Surroundings} {q : Request} {loaded : Settings.Loaded}

theorem failsWith_of_load_error {e : Settings.LoadFailure}
    (h : Settings.load w.disk (w.searchStart q) = .error e) :
    (Exit.ofOutcome (w.run q) w.explanation).FailsWith e.message := by
  rw [run, h]
  exact Exit.failsWith_of_failure

theorem failsWith_of_audit_error {e : AuditFailure}
    (h : Settings.load w.disk (w.searchStart q) = .ok loaded)
    (ha : Audit.run w.disk q.path (w.template q) loaded.settings = .error e) :
    (Exit.ofOutcome (w.run q) w.explanation).FailsWith (e.message w.explanation) := by
  simp only [run, h, ha]
  exact Exit.failsWith_of_failure

theorem exit_of_audit {a : Audit} (hroom : w.stdout.room = none) (hnew : w.stdout.taken = [])
    (h : Settings.load w.disk (w.searchStart q) = .ok loaded)
    (ha : Audit.run w.disk q.path (w.template q) loaded.settings = .ok a) :
    (Exit.ofOutcome (w.run q) w.explanation).code = 0 ∧
      (Exit.ofOutcome (w.run q) w.explanation).stdout = a.unused.flatMap keyLine := by
  obtain ⟨s, hs, hout⟩ := Sink.writeKeys_of_room_eq_none hroom a.unused
  have hempty : w.stdout.output = [] := by rw [Sink.output, hnew]; rfl
  rw [hempty, List.nil_append] at hout
  simp only [run, h, ha, report, hs]
  exact ⟨rfl, hout⟩

/-- The program ends as the settings and the audit let it end. If the settings cannot be loaded, or else
the audit fails, it ends with status 2, writes no key and says last what has failed first. Otherwise it
ends with status 0 and has written the unused keys, each on its line. So it fails whenever nothing is at
the path that it is given. Where the program lies does not matter if a template is given. -/
theorem exit_decided_by_load_and_audit (hroom : w.stdout.room = none) (hnew : w.stdout.taken = [])
    (q : Request) :
    let start := (w.disk.canonical? q.path).getD q.path
    let template := q.template.getD
      (Template.besideProgram ((w.disk.canonical? w.program).getD w.program))
    let exit := Exit.ofOutcome (w.run q) w.explanation
    (∀ e, Settings.load w.disk start = .error e → exit.FailsWith e.message) ∧
    (∀ loaded e, Settings.load w.disk start = .ok loaded →
      Audit.run w.disk q.path template loaded.settings = .error e →
      exit.FailsWith (e.message w.explanation)) ∧
    (∀ loaded a, Settings.load w.disk start = .ok loaded →
      Audit.run w.disk q.path template loaded.settings = .ok a →
      exit.code = 0 ∧ exit.stdout = a.unused.flatMap keyLine) ∧
    (w.disk.has q.path = false → ∃ message, exit.FailsWith message) ∧
    (q.template ≠ none → ∀ program, { w with program }.run q = w.run q) ∧
    ∀ c, Request.ofArguments c.arguments = .ok q → execute w c = exit := by
  intro start template exit
  refine ⟨fun e ↦ failsWith_of_load_error, fun loaded e ↦ failsWith_of_audit_error,
    fun loaded a ↦ exit_of_audit hroom hnew, ?_, ?_, ?_⟩
  · intro hno
    cases hl : Settings.load w.disk (w.searchStart q) with
    | error e => exact ⟨_, failsWith_of_load_error hl⟩
    | ok loaded =>
      obtain ⟨e, he⟩ := Audit.run_of_not_has hno (w.template q) loaded.settings
      exact ⟨_, failsWith_of_audit_error hl he⟩
  · intro hgiven program
    obtain ⟨t, ht⟩ := Option.ne_none_iff_exists'.1 hgiven
    simp only [run, searchStart, templateNote, settingsNote, report, Surroundings.template, ht,
      Option.getD_some]
  · intro c hc
    simp only [execute, hc]
    rfl

def mentioning : Surroundings := { disk := Audit.mentioningDisk, program := "/bin/check-unused" }

theorem exit_mentioning : mentioning.stdout.room = none ∧ mentioning.stdout.taken = [] ∧
    (Exit.ofOutcome (mentioning.run ⟨"/r", some "/t", false⟩) mentioning.explanation).code = 0 ∧
    (Exit.ofOutcome (mentioning.run ⟨"/r", some "/t", false⟩) mentioning.explanation).stdout =
      Text.utf8 "free\n" ∧
    ∃ message, (Exit.ofOutcome (mentioning.run ⟨"/s", some "/t", false⟩)
      mentioning.explanation).FailsWith message := by
  have hload : Settings.load mentioning.disk ((mentioning.disk.canonical? "/r").getD "/r") =
      .ok ⟨{}, none⟩ := by decide +kernel
  have haudit : Audit.run mentioning.disk "/r" "/t" {} = .ok ⟨["free"], 2, 2⟩ := by decide +kernel
  have hmissing : mentioning.disk.has "/s" = false := by decide +kernel
  obtain ⟨-, -, hok, -⟩ :=
    exit_decided_by_load_and_audit (w := mentioning) rfl rfl ⟨"/r", some "/t", false⟩
  obtain ⟨-, -, -, hfail, -⟩ :=
    exit_decided_by_load_and_audit (w := mentioning) rfl rfl ⟨"/s", some "/t", false⟩
  obtain ⟨hcode, hout⟩ := hok _ _ hload haudit
  exact ⟨rfl, rfl, hcode, hout.trans (by decide +kernel), hfail hmissing⟩

end Surroundings

end Command

end KeyAudit

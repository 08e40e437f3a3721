import KeyAudit.Proofs.Command.Exit
import KeyAudit.Proofs.Command.Styles

namespace KeyAudit.Command

/-- What the program says last: the message of its failure, if there is one. -/
def Outcome.lastLine (o : Outcome) (explanation : String) : String :=
  match o.failure with
  | none => ""
  | some e => "Error: " ++ e.message explanation ++ "\n"

theorem Exit.stderr_ofOutcome (o : Outcome) (explanation : String) :
    (ofOutcome o explanation).stderr = o.stderr ++ o.lastLine explanation := by
  rw [ofOutcome, Outcome.lastLine]
  cases o.failure with
  | none => exact (String.append_empty).symm
  | some e => simp only [String.append_assoc]

namespace Surroundings

variable {w : Surroundings} {q : Request}

theorem styles_notes (w : Surroundings) (q : Request) (loaded : Settings.Loaded) :
    Styles (({ w with color := false }.settingsNote q loaded ++
        { w with color := false }.templateNote q).toList)
      ({ w with color := true }.settingsNote q loaded ++
        { w with color := true }.templateNote q).toList := by
  apply Styles.string_append
  · rw [settingsNote, settingsNote]
    split
    · exact styles_note _
    · exact .refl _
  · rw [templateNote, templateNote]
    split
    · exact styles_note _
    · exact .refl _

theorem notes_of_silent (h : q.verbose = false) (loaded : Settings.Loaded) :
    w.settingsNote q loaded ++ w.templateNote q = "" := by
  rw [settingsNote, templateNote, h]
  rfl

theorem report_eq (w : Surroundings) (q : Request) (notes : String) (a : Audit) :
    w.report q notes a =
      ⟨(w.stdout.writeKeys a.unused).1.output,
        notes ++ if (w.stdout.writeKeys a.unused).2 && q.verbose then summary w.color a else "",
        if (w.stdout.writeKeys a.unused).2 || (w.stdout.writeKeys a.unused).1.failure = .closed
          then none else some .output⟩ := by
  rw [report]
  split
  · rename_i s hs
    rw [hs]
    rfl
  · rename_i s hs
    rw [hs]
    simp only [Bool.false_and, Bool.false_eq_true, if_false, String.append_empty, Bool.false_or,
      decide_eq_true_eq]

theorem run_presented (w : Surroundings) (q : Request) (color verbose : Bool) :
    ({ w with color }.run { q with verbose }).stdout = (w.run q).stdout ∧
      ({ w with color }.run { q with verbose }).failure = (w.run q).failure := by
  have hstart : { w with color }.searchStart { q with verbose } = w.searchStart q := rfl
  have htemplate : { w with color }.template { q with verbose } = w.template q := rfl
  rw [run, run, hstart, htemplate]
  dsimp only
  cases Settings.load w.disk (w.searchStart q) with
  | error e => exact ⟨rfl, rfl⟩
  | ok loaded =>
    dsimp only
    cases Audit.run w.disk q.path (w.template q) loaded.settings with
    | error e => exact ⟨rfl, rfl⟩
    | ok a =>
      dsimp only
      rw [report_eq, report_eq]
      exact ⟨rfl, rfl⟩

theorem stderr_of_silent (h : q.verbose = false) : (w.run q).stderr = "" := by
  rw [run]
  split
  · rfl
  · rename_i loaded _
    rw [notes_of_silent h]
    split
    · rfl
    · rw [report_eq, h, Bool.and_false]
      rfl

theorem styles_stderr (w : Surroundings) (q : Request) :
    Styles ({ w with color := false }.run q).stderr.toList
      ({ w with color := true }.run q).stderr.toList := by
  have hstart : { w with color := true }.searchStart q = { w with color := false }.searchStart q := rfl
  have htemplate : { w with color := true }.template q = { w with color := false }.template q := rfl
  rw [run, run, hstart, htemplate]
  dsimp only
  split
  · exact .refl _
  · rename_i loaded _
    have hnotes := styles_notes w q loaded
    split
    · exact hnotes
    · rename_i a _
      rw [report_eq, report_eq]
      refine hnotes.string_append ?_
      dsimp only
      split
      · exact styles_summary a
      · exact .refl _

/-- Whether a run is verbose, and whether there is colour, changes neither what stands on the output nor
the status, nor how the run fails. A run that is not verbose says nothing but its failure. Colour only
puts escape sequences into what is said. -/
theorem execute_presented {c c' : Call} {verbose : Bool} (hc : Request.ofArguments c.arguments = .ok q)
    (hc' : Request.ofArguments c'.arguments = .ok { q with verbose }) (color : Bool) :
    let w' : Surroundings := { w with color }
    let q' : Request := { q with verbose }
    (execute w' c').code = (execute w c).code ∧ (execute w' c').stdout = (execute w c).stdout ∧
    (∃ line, (execute w c).stderr = (w.run q).stderr ++ line ∧
      (execute w' c').stderr = (w'.run q').stderr ++ line ∧
      ((execute w c).code = 0 ∧ line = "" ∨
        (execute w c).code = 2 ∧ ∃ message, line = "Error: " ++ message ++ "\n")) ∧
    (q.verbose = false → (w.run q).stderr = "") ∧ (verbose = false → (w'.run q').stderr = "") ∧
    Styles (execute { w with color := false } c).stderr.toList
      (execute { w with color := true } c).stderr.toList := by
  intro w' q'
  have hexec (v : Surroundings) : execute v c = Exit.ofOutcome (v.run q) v.explanation := by
    rw [execute, hc]
  have hexec' : execute w' c' = Exit.ofOutcome (w'.run q') w.explanation := by
    rw [execute, hc']
  obtain ⟨hout, hfail⟩ := run_presented w q color verbose
  have hline : (w'.run q').lastLine w.explanation = (w.run q).lastLine w.explanation := by
    rw [Outcome.lastLine, Outcome.lastLine, hfail]
  rw [hexec, hexec', hexec, hexec]
  refine ⟨?_, ?_, ⟨(w.run q).lastLine w.explanation, Exit.stderr_ofOutcome _ _, ?_, ?_⟩,
    fun h ↦ stderr_of_silent h, fun h ↦ stderr_of_silent h, ?_⟩
  · rw [Exit.ofOutcome, Exit.ofOutcome, hfail]
    cases (w.run q).failure <;> rfl
  · rw [Exit.ofOutcome, Exit.ofOutcome, hfail]
    cases (w.run q).failure with
    | none => exact hout
    | some e => exact hout
  · rw [Exit.stderr_ofOutcome, hline]
  · rw [Outcome.lastLine, Exit.ofOutcome]
    cases (w.run q).failure with
    | none => exact .inl ⟨rfl, rfl⟩
    | some e => exact .inr ⟨rfl, e.message w.explanation, rfl⟩
  · have hsame : ({ w with color := false }.run q).lastLine w.explanation =
        ({ w with color := true }.run q).lastLine w.explanation := by
      rw [Outcome.lastLine, Outcome.lastLine, (run_presented w q false q.verbose).2,
        (run_presented w q true q.verbose).2]
    rw [Exit.stderr_ofOutcome, Exit.stderr_ofOutcome, hsame]
    exact (styles_stderr w q).string_append (.refl _)

theorem execute_mentioning_presented :
    let silent : Call := { name := "check", arguments := ["/r", "-t", "/t"] }
    let loud : Call := { name := "check", arguments := ["-v", "--template-path=/t", "/r"] }
    Request.ofArguments silent.arguments = .ok ⟨"/r", some "/t", false⟩ ∧
    Request.ofArguments loud.arguments = .ok ⟨"/r", some "/t", true⟩ ∧
    (execute mentioning silent).code = 0 ∧
    (execute mentioning silent).stdout = Text.utf8 "free\n" ∧
    (execute { mentioning with color := true } loud).code = 0 ∧
    (execute { mentioning with color := true } loud).stdout = Text.utf8 "free\n" := by
  intro silent loud
  have hsilent : Request.ofArguments silent.arguments = .ok ⟨"/r", some "/t", false⟩ := by decide +kernel
  have hloud : Request.ofArguments loud.arguments = .ok ⟨"/r", some "/t", true⟩ := by decide +kernel
  obtain ⟨hcode, hout, -⟩ := execute_presented (w := mentioning) hsilent hloud true
  have hcode₀ : (execute mentioning silent).code = 0 := by decide +kernel
  have hout₀ : (execute mentioning silent).stdout = Text.utf8 "free\n" := by decide +kernel
  exact ⟨hsilent, hloud, hcode₀, hout₀, hcode.trans hcode₀, hout.trans hout₀⟩

end Surroundings

end KeyAudit.Command

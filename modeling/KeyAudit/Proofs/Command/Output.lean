import KeyAudit.Proofs.Command.Presentation

namespace KeyAudit.Command

variable {s s' : Sink} {n : Nat} {b c : Bytes} {texts : List Bytes} {r : Sink × Bool}

def keyTexts (ks : List String) : List Bytes := ks.flatMap fun k ↦ [Text.utf8 k, [Text.lineFeed]]

theorem flatten_keyTexts (ks : List String) : (keyTexts ks).flatten = ks.flatMap keyLine := by
  induction ks with
  | nil => rfl
  | cons k ks ih =>
    rw [keyTexts, List.flatMap_cons, List.flatten_append, List.flatMap_cons, keyLine]
    exact congrArg₂ (· ++ ·) rfl ih

namespace Sink

/-- What the writer of a text is told. -/
def told : Sink × Bool → Except SinkFailure Unit
  | (_, true) => .ok ()
  | (s, false) => .error s.failure

/-- Texts are written one after the other to a stream with a limit. It takes a piece of what it is offered,
of any length for which there is room, and is then offered the rest. Once there is no room left it takes
nothing. -/
inductive Writes : Sink → List Bytes → Sink × Bool → Prop
  | done (s : Sink) : Writes s [] (s, true)
  | next {s : Sink} {texts : List Bytes} {r : Sink × Bool} (h : Writes s texts r) :
      Writes s ([] :: texts) r
  | piece {s : Sink} {n : Nat} {b c : Bytes} {texts : List Bytes} {r : Sink × Bool}
      (hroom : s.room = some n) (hne : b ≠ []) (hfit : b.length ≤ n)
      (h : Writes { s with taken := b :: s.taken, room := some (n - b.length) } (c :: texts) r) :
      Writes s ((b ++ c) :: texts) r
  | refused {s : Sink} {b : Bytes} (texts : List Bytes) (hroom : s.room = some 0) (hne : b ≠ []) :
      Writes s (b :: texts) (s, false)

/-- How writing `b` to a stream with room for `n` bytes ends. -/
structure Fills (s : Sink) (n : Nat) (b : Bytes) (r : Sink × Bool) : Prop where
  output : r.1.output = s.output ++ b.take n
  room : r.1.room = some (n - b.length)
  failure : r.1.failure = s.failure
  whole : r.2 = decide (b.length ≤ n)

theorem fills_nil (h : s.room = some n) : s.Fills n [] (s, true) where
  output := by rw [List.take_nil, List.append_nil]
  room := h
  failure := rfl
  whole := rfl

theorem fills_write (h : s.room = some n) (b : Bytes) : s.Fills n b (s.write b) := by
  rw [write, h]
  exact ⟨output_cons s (b.take n), rfl, rfl, rfl⟩

theorem Fills.append (h : s.Fills n b (s', true)) (h' : s'.Fills (n - b.length) c r) :
    s.Fills n (b ++ c) r := by
  have hle : b.length ≤ n := of_decide_eq_true h.whole.symm
  constructor
  · rw [h'.output, h.output, List.append_assoc, List.take_append]
  · rw [h'.room, List.length_append, Nat.sub_sub]
  · exact h'.failure.trans h.failure
  · rw [h'.whole, List.length_append, decide_eq_decide]
    omega

theorem Fills.stop (h : s.Fills n b (s', false)) (c : Bytes) : s.Fills n (b ++ c) (s', false) := by
  have hlt : ¬ b.length ≤ n := of_decide_eq_false h.whole.symm
  constructor
  · rw [h.output, List.take_append_of_le_length (by omega)]
  · rw [h.room, List.length_append, Option.some_inj]
    omega
  · exact h.failure
  · rw [List.length_append, eq_comm, decide_eq_false_iff_not]
    omega

theorem fills_writeKeys (h : s.room = some n) (ks : List String) :
    s.Fills n (ks.flatMap keyLine) (s.writeKeys ks) := by
  induction ks generalizing s n with
  | nil => exact fills_nil h
  | cons k ks ih =>
    have hkey := fills_write h (Text.utf8 k)
    rw [List.flatMap_cons, keyLine, List.append_assoc, writeKeys]
    split
    · rename_i s₁ hs₁
      exact (hs₁ ▸ hkey).stop _
    · rename_i s₁ hs₁
      rw [hs₁] at hkey
      have hend := fills_write hkey.room [Text.lineFeed]
      refine hkey.append ?_
      split
      · rename_i s₂ hs₂
        exact (hs₂ ▸ hend).stop _
      · rename_i s₂ hs₂
        rw [hs₂] at hend
        exact hend.append (ih hend.room)

/-- The sizes of the pieces do not matter. -/
theorem Writes.fills (h : Writes s texts r) (hroom : s.room = some n) : s.Fills n texts.flatten r := by
  induction h generalizing n with
  | done s => exact fills_nil hroom
  | next h ih => exact ih hroom
  | @piece s m b c texts r hm hne hfit h ih =>
    obtain rfl := Option.some.inj (hm.symm.trans hroom)
    have hpiece : s.Fills m b ({ s with taken := b :: s.taken, room := some (m - b.length) }, true) := by
      refine ⟨?_, rfl, rfl, (decide_eq_true hfit).symm⟩
      rw [List.take_of_length_le hfit]
      exact output_cons s b
    rw [List.flatten_cons, List.append_assoc]
    exact hpiece.append (ih rfl)
  | @refused s b texts hempty hne =>
    obtain rfl := Option.some.inj (hempty.symm.trans hroom)
    refine Fills.stop ⟨?_, ?_, rfl, ?_⟩ _
    · rw [List.take_zero, List.append_nil]
    · rw [hroom, Nat.zero_sub]
    · rw [eq_comm, decide_eq_false_iff_not, Nat.le_zero, List.length_eq_zero_iff]
      exact hne

theorem exists_writes_of_lt (hroom : s.room = some n) (hlt : n < b.length) (texts : List Bytes) :
    ∃ r, Writes s (b :: texts) r := by
  have hrest : b.drop n ≠ [] := by
    rw [ne_eq, List.drop_eq_nil_iff]
    omega
  cases n with
  | zero => exact ⟨_, .refused texts hroom hrest⟩
  | succ n =>
    have hlength : (b.take (n + 1)).length = n + 1 := List.length_take_of_le hlt.le
    have hne : b.take (n + 1) ≠ [] := List.length_pos_iff.1 (by omega)
    have hfull : some (n + 1 - (b.take (n + 1)).length) = some 0 := by rw [hlength, Nat.sub_self]
    have hcut := Writes.piece hroom hne hlength.le (.refused texts hfull hrest)
    rw [List.take_append_drop] at hcut
    exact ⟨_, hcut⟩

theorem exists_writes (hroom : s.room = some n) (texts : List Bytes) : ∃ r, Writes s texts r := by
  induction texts generalizing s n with
  | nil => exact ⟨_, .done s⟩
  | cons b texts ih =>
    by_cases hne : b = []
    · subst hne
      obtain ⟨r, hr⟩ := ih hroom
      exact ⟨r, hr.next⟩
    by_cases hfit : b.length ≤ n
    · obtain ⟨r, hr⟩ := ih (s := { s with taken := b :: s.taken, room := some (n - b.length) }) rfl
      refine ⟨r, ?_⟩
      have hall := Writes.piece hroom hne hfit hr.next
      rwa [List.append_nil] at hall
    · exact exists_writes_of_lt hroom (Nat.lt_of_not_le hfit) texts

theorem Fills.told_eq (h : s.Fills n b r) :
    told r = if b.length ≤ n then .ok () else .error s.failure := by
  obtain ⟨s', ok⟩ := r
  have hwhole := h.whole
  have hfailure := h.failure
  split
  · rename_i hle
    obtain rfl : ok = true := hwhole.trans (decide_eq_true hle)
    rfl
  · rename_i hlt
    obtain rfl : ok = false := hwhole.trans (decide_eq_false hlt)
    exact congrArg Except.error hfailure

end Sink

theorem summary_ne_empty (color : Bool) (a : Audit) : summary color a ≠ "" := by
  intro h
  have hlength := congrArg String.length h
  simp [summary] at hlength

namespace Surroundings

variable {w : Surroundings} {q : Request} {loaded : Settings.Loaded} {a : Audit}

theorem run_of_audit (hload : Settings.load w.disk (w.searchStart q) = .ok loaded)
    (haudit : Audit.run w.disk q.path (w.template q) loaded.settings = .ok a) :
    w.run q = w.report q (w.settingsNote q loaded ++ w.templateNote q) a := by
  simp only [run, hload, haudit]

theorem report_of_room (hroom : w.stdout.room = some n) (q : Request) (notes : String) (a : Audit) :
    w.report q notes a =
      ⟨w.stdout.output ++ (a.unused.flatMap keyLine).take n,
        notes ++ if q.verbose = true ∧ (a.unused.flatMap keyLine).length ≤ n then summary w.color a else "",
        if (a.unused.flatMap keyLine).length ≤ n ∨ w.stdout.failure = .closed then none
          else some .output⟩ := by
  have hfills := Sink.fills_writeKeys hroom a.unused
  rw [report_eq, hfills.output, hfills.whole, hfills.failure]
  simp only [Bool.and_eq_true, Bool.or_eq_true, decide_eq_true_eq, and_comm]

end Surroundings

open Sink Surroundings in
/-- Of the keys that are written to an output with room for `n` bytes, each on its line, the first `n` bytes
are taken, in pieces of whatever sizes. The writer is told of a failure if these are not all of them, and
it is told of the failure of the output. A run whose audit has come to its end fails only then, and not if
there is no reader any more; it says its summary only if all was taken. -/
theorem writeKeys_until_full (hroom : s.room = some n) :
    (∀ (ks : List String) r, r = s.writeKeys ks ∨ Writes s (keyTexts ks) r →
      r.1.output = s.output ++ (ks.flatMap keyLine).take (min n (ks.flatMap keyLine).length) ∧
      told r = if (ks.flatMap keyLine).length ≤ n then .ok () else .error s.failure) ∧
    (∀ ks, ∃ r, Writes s (keyTexts ks) r) ∧
    ∀ (w : Surroundings) (q : Request) loaded a, w.stdout = s →
      Settings.load w.disk (w.searchStart q) = .ok loaded →
      Audit.run w.disk q.path (w.template q) loaded.settings = .ok a →
      (w.run q).stdout = s.output ++ (a.unused.flatMap keyLine).take n ∧
      ((w.run q).failure = none ↔
        (a.unused.flatMap keyLine).length ≤ n ∨ s.failure = .closed) ∧
      ((w.run q).failure ≠ none → (w.run q).failure = some .output) ∧
      (a.unused = [] → (w.run q).failure = none) ∧
      summary w.color a ≠ "" ∧
      (w.run q).stderr = w.settingsNote q loaded ++ w.templateNote q ++
        if q.verbose = true ∧ (a.unused.flatMap keyLine).length ≤ n then summary w.color a else "" := by
  refine ⟨?_, fun ks ↦ exists_writes hroom _, ?_⟩
  · intro ks r hr
    have hfills : s.Fills n (ks.flatMap keyLine) r := by
      rcases hr with rfl | hr
      · exact fills_writeKeys hroom ks
      · exact flatten_keyTexts ks ▸ hr.fills hroom
    refine ⟨?_, hfills.told_eq⟩
    rw [hfills.output, List.take_eq_take_min]
  · intro w q loaded a hs hload haudit
    subst hs
    rw [run_of_audit hload haudit, report_of_room hroom]
    dsimp only
    refine ⟨rfl, ?_, ?_, ?_, summary_ne_empty _ _, rfl⟩
    · split
      · rename_i h
        exact iff_of_true rfl h
      · rename_i h
        exact iff_of_false nofun h
    · intro h
      exact if_neg fun hno ↦ h (if_pos hno)
    · intro hnil
      rw [hnil]
      exact if_pos (.inl (Nat.zero_le n))

theorem run_mentioning_cut :
    let cut (failure : SinkFailure) : Surroundings :=
      { Surroundings.mentioning with stdout := { room := some 2, failure } }
    let q : Request := ⟨"/r", some "/t", true⟩
    Settings.load Audit.mentioningDisk "/r" = .ok ⟨{}, none⟩ ∧
    Audit.run Audit.mentioningDisk "/r" "/t" {} = .ok ⟨["free"], 2, 2⟩ ∧
    ((cut (.other 5)).run q).stdout = Text.utf8 "fr" ∧
    ((cut (.other 5)).run q).failure = some .output ∧
    ((cut .closed).run q).failure = none ∧
    ((cut .closed).run q).stderr = "note: template /t\n" := by
  intro cut q
  have hload : Settings.load Audit.mentioningDisk "/r" = .ok ⟨{}, none⟩ := by decide +kernel
  have haudit : Audit.run Audit.mentioningDisk "/r" "/t" {} = .ok ⟨["free"], 2, 2⟩ := by decide +kernel
  obtain ⟨-, -, hother⟩ := writeKeys_until_full (s := { room := some 2, failure := .other 5 }) rfl
  obtain ⟨-, -, hclosed⟩ := writeKeys_until_full (s := { room := some 2, failure := .closed }) rfl
  obtain ⟨hout, hiff, hfail, -⟩ := hother (cut (.other 5)) q _ _ rfl hload haudit
  obtain ⟨-, hiff', -, -, -, herr⟩ := hclosed (cut .closed) q _ _ rfl hload haudit
  refine ⟨hload, haudit, hout.trans rfl, hfail ?_, hiff'.2 (.inr rfl), herr.trans ?_⟩
  · rw [ne_eq, hiff]
    decide
  · decide +kernel

end KeyAudit.Command

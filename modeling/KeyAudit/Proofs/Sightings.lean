import KeyAudit.Sightings

namespace KeyAudit.Sightings

variable {s : Sightings} {keys seen : List String} {line : String}

def isMentioned (lines : List String) (k : String) : Bool :=
  lines.any fun line ↦ Text.occursIn k.toList line.toList

theorem isMentioned_concat (lines : List String) (line k : String) :
    isMentioned (lines ++ [line]) k = (isMentioned lines k || Text.occursIn k.toList line.toList) := by
  simp [isMentioned]

/-- What is recorded after the lines `seen`: for each key whether one of them holds it, and the number
of keys without a mark. -/
structure Records (s : Sightings) (keys seen : List String) : Prop where
  keys_eq : s.keys = keys
  marks : s.marks = keys.map (isMentioned seen)
  unmet : s.unmet = s.marks.countP (!·)

theorem records_ofKeys (keys : List String) : (ofKeys keys).Records keys [] where
  keys_eq := rfl
  marks := List.map_const'.symm
  unmet := by simp [ofKeys, List.countP_replicate]

theorem markIn_marks (line : List Char) {ks : List String} {ms : List Bool}
    (hl : ks.length = ms.length) (n : Nat) : (markIn line ks ms n).1 =
      List.zipWith (fun k met ↦ met || Text.occursIn k.toList line) ks ms := by
  induction ks generalizing ms n with
  | nil =>
    obtain rfl := List.length_eq_zero_iff.1 hl.symm
    rfl
  | cons k ks ih =>
    cases ms with
    | nil => cases hl
    | cons met ms =>
      have hl' : ks.length = ms.length := Nat.succ.inj hl
      rw [markIn, List.zipWith_cons_cons]
      split
      · rename_i h
        rw [Bool.and_eq_true] at h
        dsimp only
        rw [ih hl', h.2, Bool.or_true]
      · rename_i h
        dsimp only
        rw [ih hl']
        cases met with
        | true => rfl
        | false =>
          have hno : Text.occursIn k.toList line = false := by simpa using h
          rw [hno, Bool.or_false]

theorem markIn_unmet (line : List Char) (ks : List String) (ms : List Bool) (n : Nat)
    (hn : ms.countP (!·) ≤ n) :
    (markIn line ks ms n).2 + ms.countP (!·) = n + (markIn line ks ms n).1.countP (!·) := by
  induction ks generalizing ms n with
  | nil => rfl
  | cons k ks ih =>
    cases ms with
    | nil => rfl
    | cons met ms =>
      rw [markIn]
      split
      · rename_i h
        rw [Bool.and_eq_true, Bool.not_eq_true'] at h
        simp only [List.countP_cons, h.1, Bool.not_false, if_true, Bool.not_true, Bool.false_eq_true,
          if_false] at hn ⊢
        have := ih ms (n - 1) (by omega)
        omega
      · rw [List.countP_cons] at hn
        have := ih ms n (by omega)
        simp only [List.countP_cons]
        omega

theorem Records.length_marks (h : s.Records keys seen) : s.keys.length = s.marks.length := by
  rw [h.keys_eq, h.marks, List.length_map]

theorem Records.all_met (h : s.Records keys seen) (h0 : s.unmet = 0) : ∀ met ∈ s.marks, met = true := by
  have hc := h.unmet.symm.trans h0
  rw [List.countP_eq_zero] at hc
  simpa using hc

/-- Reading a line keeps the record, also where the line is skipped because no key is left. -/
theorem Records.look (h : s.Records keys seen) (line : String) :
    (s.look line).Records keys (seen ++ [line]) := by
  unfold Sightings.look
  split
  · rename_i h0
    have hall := h.all_met h0
    refine ⟨h.keys_eq, ?_, h.unmet⟩
    rw [h.marks, List.map_inj_left]
    intro k hk
    have hk' : isMentioned seen k = true := hall _ (h.marks ▸ List.mem_map_of_mem hk)
    rw [isMentioned_concat, hk', Bool.true_or]
  · have hm := markIn_marks line.toList h.length_marks s.unmet
    have hu := markIn_unmet line.toList s.keys s.marks s.unmet (Nat.le_of_eq h.unmet.symm)
    rw [← h.unmet] at hu
    refine ⟨h.keys_eq, ?_, by dsimp only; omega⟩
    dsimp only
    rw [hm, h.keys_eq, h.marks, List.zipWith_map_right, List.zipWith_self, List.map_inj_left]
    intro k _
    exact (isMentioned_concat seen line k).symm

theorem Records.foldl_look (h : s.Records keys seen) (lines : List String) :
    (lines.foldl (fun s line ↦ s.look line) s).Records keys (seen ++ lines) := by
  induction lines generalizing s seen with
  | nil => simpa using h
  | cons line lines ih =>
    have := ih (h.look line)
    rwa [List.append_assoc] at this

theorem Records.missing (h : s.Records keys seen) :
    s.missing = keys.filter fun k ↦ !isMentioned seen k := by
  have hzip : keys.zip (keys.map (isMentioned seen)) = keys.map fun k ↦ (k, isMentioned seen k) := by
    simpa using List.zip_map' (f := id) (g := isMentioned seen) (l := keys)
  rw [Sightings.missing, h.keys_eq, h.marks, hzip, List.filter_map, List.map_map]
  exact List.map_id _

/-- The record after the lines, when none of the keys has been met before them. -/
def after (keys lines : List String) : Sightings :=
  lines.foldl (fun s line ↦ s.look line) (ofKeys keys)

theorem records_after (keys lines : List String) : (after keys lines).Records keys lines :=
  (records_ofKeys keys).foldl_look lines

theorem isMentioned_iff {lines : List String} {k : String} :
    isMentioned lines k = true ↔ ∃ line ∈ lines, k.toList <:+: line.toList := by
  simp only [isMentioned, List.any_eq_true, Text.occursIn_iff]

theorem isMentioned_append (lines more : List String) (k : String) :
    isMentioned (lines ++ more) k = (isMentioned lines k || isMentioned more k) := List.any_append

theorem Records.getElem?_marks {i : Nat} {k : String} (h : s.Records keys seen)
    (hk : keys[i]? = some k) : s.marks[i]? = some (isMentioned seen k) := by
  rw [h.marks, List.getElem?_map, hk, Option.map_some]

theorem Records.exists_key {i : Nat} {met : Bool} (h : s.Records keys seen)
    (hi : s.marks[i]? = some met) : ∃ k, keys[i]? = some k ∧ isMentioned seen k = met := by
  rw [h.marks, List.getElem?_map] at hi
  exact Option.map_eq_some_iff.1 hi

theorem markIn_append (line : List Char) {ks : List String} {ms : List Bool}
    (hl : ks.length = ms.length) (ks' : List String) (ms' : List Bool) (n : Nat) :
    markIn line (ks ++ ks') (ms ++ ms') n =
      ((markIn line ks ms n).1 ++ (markIn line ks' ms' (markIn line ks ms n).2).1,
        (markIn line ks' ms' (markIn line ks ms n).2).2) := by
  induction ks generalizing ms n with
  | nil =>
    obtain rfl := List.length_eq_zero_iff.1 hl.symm
    rfl
  | cons k ks ih =>
    cases ms with
    | nil => cases hl
    | cons met ms =>
      simp only [List.cons_append, markIn, ih (Nat.succ.inj hl)]
      split
      · rfl
      · rfl

/-- Where a line turns on a mark, something is left to be counted down for it. -/
theorem Records.counts_down {line : List Char} {k : String} {before rest : List String}
    {marked left : List Bool} (h : s.Records keys seen) (hk : keys = before ++ k :: rest)
    (hm : s.marks = marked ++ false :: left) (hl : before.length = marked.length)
    (hoccurs : Text.occursIn k.toList line = true) :
    ∃ m, (markIn line before marked s.unmet).2 = m + 1 ∧
      markIn line s.keys s.marks s.unmet =
        ((markIn line before marked s.unmet).1 ++ true :: (markIn line rest left m).1,
          (markIn line rest left m).2) := by
  have hcount : s.unmet = marked.countP (!·) + (left.countP (!·) + 1) := by
    rw [h.unmet, hm, List.countP_append, List.countP_cons_of_pos rfl]
  have hpass := markIn_unmet line before marked s.unmet (by omega)
  obtain ⟨m, hleft⟩ : ∃ m, (markIn line before marked s.unmet).2 = m + 1 :=
    Nat.exists_eq_succ_of_ne_zero (by omega)
  refine ⟨m, hleft, ?_⟩
  rw [h.keys_eq, hk, hm, markIn_append line hl, hleft, markIn, if_pos (by simp [hoccurs])]
  rfl

/-- After any lines there is one mark for each key, in the order of the keys; it is on exactly if one of
the lines holds the key. The number that is kept beside the marks is the number of those that are off: no
step counts it down below zero, and where it says that nothing is left all marks are on. Marks stay on.
So the keys that are left, after the first lines as after all, are those that a test of every key against
every line leaves. -/
theorem after_exact (keys lines : List String) :
    (after keys lines).keys = keys ∧
    (after keys lines).marks.length = keys.length ∧
    (after keys lines).unmet = (after keys lines).marks.countP (!·) ∧
    ((after keys lines).unmet = 0 → ∀ met ∈ (after keys lines).marks, met = true) ∧
    (∀ (line : List Char) before (k : String) rest marked left, keys = before ++ k :: rest →
      (after keys lines).marks = marked ++ false :: left → before.length = marked.length →
      k.toList <:+: line →
      ∃ m, (markIn line before marked (after keys lines).unmet).2 = m + 1 ∧
        markIn line keys (after keys lines).marks (after keys lines).unmet =
          ((markIn line before marked (after keys lines).unmet).1 ++
            true :: (markIn line rest left m).1, (markIn line rest left m).2)) ∧
    (∀ (i : Nat) (k : String) met, keys[i]? = some k → (after keys lines).marks[i]? = some met →
      (met = true ↔ ∃ line ∈ lines, k.toList <:+: line.toList)) ∧
    (∀ more (i : Nat), (after keys lines).marks[i]? = some true →
      (after keys (lines ++ more)).marks[i]? = some true) ∧
    ∀ n, (after keys (lines.take n)).missing =
      keys.filter fun k ↦ !(lines.take n).any fun line ↦ Text.occursIn k.toList line.toList := by
  have h := records_after keys lines
  refine ⟨h.keys_eq, ?_, h.unmet, h.all_met, ?_, ?_, ?_, ?_⟩
  · rw [← h.length_marks, h.keys_eq]
  · intro line before k rest marked left hk hm hl hoccurs
    have hdown := h.counts_down hk hm hl (Text.occursIn_iff.2 hoccurs)
    rwa [h.keys_eq] at hdown
  · intro i k met hk hi
    obtain rfl := Option.some.inj ((h.getElem?_marks hk).symm.trans hi)
    exact isMentioned_iff
  · intro more i hi
    obtain ⟨k, hk, hmet⟩ := h.exists_key hi
    rw [(records_after keys (lines ++ more)).getElem?_marks hk, isMentioned_append, hmet, Bool.true_or]
  · intro n
    exact (records_after keys (lines.take n)).missing

theorem after_repeated :
    (after ["b", "", "a", "b"] ["", "xa"]).marks = [false, true, true] ++ false :: [] ∧
    ∃ m, (markIn "ab".toList ["b", "", "a"] [false, true, true] 2).2 = m + 1 := by
  have hmarks : (after ["b", "", "a", "b"] ["", "xa"]).marks = [false, true, true] ++ false :: [] := by
    decide
  obtain ⟨-, -, -, -, hdown, -⟩ := after_exact ["b", "", "a", "b"] ["", "xa"]
  obtain ⟨m, hm, -⟩ := hdown "ab".toList ["b", "", "a"] "b" [] _ _ rfl hmarks rfl
    (Text.occursIn_iff.1 (by decide))
  exact ⟨hmarks, m, hm⟩

end KeyAudit.Sightings

import KeyAudit.Proofs.Audit.Reading
import KeyAudit.Proofs.Text.Occurrence

namespace KeyAudit

variable {d : Disk} {p : Path} {keys seen : List String} {content : Bytes} {k : String}

namespace Text

open Sightings

/-- What it takes for a line of the content to hold the key: the key without characters is held by any
line, and another one stands in the content, within a line. -/
def HoldsKey (content : Bytes) (k : String) : Prop :=
  (k = "" ∧ content ≠ []) ∨ (k ≠ "" ∧ '\n' ∉ k.toList ∧ StandsIn (utf8 k) content)

theorem lineFeed_mem_utf8 : lineFeed ∈ utf8 k ↔ '\n' ∈ k.toList := mem_utf8 (by decide)

theorem getLast?_utf8_eq_return :
    (utf8 k).getLast? = some carriageReturn ↔ k.toList.getLast? = some '\r' := by
  rw [utf8_eq_encode, getLast?_encode (by decide)]
  exact Iff.rfl

theorem not_holdsKey_of_lineFeed (h : '\n' ∈ k.toList) : ¬ HoldsKey content k := by
  intro hk
  rcases hk with ⟨rfl, -⟩ | ⟨-, hlf, -⟩
  · exact absurd h (by decide)
  · exact hlf h

theorem holdsKey_iff_infix (hne : k ≠ "") (hlf : '\n' ∉ k.toList)
    (hcr : k.toList.getLast? ≠ some '\r') : HoldsKey content k ↔ utf8 k <:+: content := by
  rw [← standsIn_iff_infix (mt getLast?_utf8_eq_return.1 hcr)]
  simp [HoldsKey, hne, hlf]

theorem exists_line_infix_iff :
    (∃ line ∈ lines content, utf8 k <:+: line) ↔ HoldsKey content k := by
  by_cases hk : k = ""
  · subst hk
    have hnil : utf8 "" = [] := rfl
    simp [HoldsKey, hnil, exists_mem_lines]
  have hne : utf8 k ≠ [] := fun h ↦ hk (utf8_eq_nil.1 h)
  by_cases hlf : '\n' ∈ k.toList
  · have hmem : lineFeed ∈ utf8 k := lineFeed_mem_utf8.2 hlf
    refine iff_of_false ?_ (not_holdsKey_of_lineFeed hlf)
    intro h
    obtain ⟨line, hl, hin⟩ := h
    exact lineFeed_not_mem_of_mem_lines hl (hin.subset hmem)
  · rw [exists_mem_lines_having hne (mt lineFeed_mem_utf8.1 hlf)]
    simp [HoldsKey, hk, hlf]

theorem isMentioned_textLines (h : (ofUtf8? content).isSome) :
    isMentioned (textLines content) k = true ↔ HoldsKey content k := by
  rw [isMentioned_iff, ← exists_line_infix_iff]
  constructor
  · intro hm
    obtain ⟨text, ht, hk⟩ := hm
    obtain ⟨line, hl, ht⟩ := List.mem_filterMap.1 ht
    refine ⟨line, hl, ?_⟩
    rwa [eq_encode_of_ofUtf8? ht, utf8_eq_encode, encode_infix_encode]
  · intro hm
    obtain ⟨line, hl, hk⟩ := hm
    obtain ⟨text, ht⟩ := Option.isSome_iff_exists.1 ((forall_lines_isSome_ofUtf8? content).2 h line hl)
    refine ⟨text, List.mem_filterMap.2 ⟨line, hl, ht⟩, ?_⟩
    rwa [eq_encode_of_ofUtf8? ht, utf8_eq_encode, encode_infix_encode] at hk

end Text

namespace Sightings

open Text

theorem readFile_after (hread : d.read p = .ok content) :
    readFile d (after keys seen) p = if (ofUtf8? content).isSome then
      .ok (after keys (seen ++ textLines content)) else .error (.file p .notText) := by
  rw [readFile, hread]
  dsimp only
  rw [lookThrough_eq]
  cases ofUtf8? content with
  | none => rfl
  | some text => simp [after, List.foldl_append]

/-- A file whose bytes are not text ends the audit. Any other one turns on, of the marks that were off,
those of the keys that stand in its bytes as a whole; but a key with an LF in it is nowhere, and where a
key ends in CR that CR must not be part of a line end. -/
theorem readFile_marks (hread : d.read p = .ok content) :
    ((∃ e, readFile d (after keys seen) p = .error e) ↔ ofUtf8? content = none) ∧
    (∀ e, readFile d (after keys seen) p = .error e → e = .file p .notText) ∧
    ∀ s, readFile d (after keys seen) p = .ok s → s.keys = keys ∧
      ∀ (i : Nat) k, keys[i]? = some k → (after keys seen).marks[i]? = some false →
        ∃ met, s.marks[i]? = some met ∧
          (met = true ↔ HoldsKey content k) ∧
          ('\n' ∈ k.toList → met = false) ∧
          (k ≠ "" → '\n' ∉ k.toList → k.toList.getLast? ≠ some '\r' →
            (met = true ↔ utf8 k <:+: content)) := by
  rw [readFile_after hread]
  by_cases h : (ofUtf8? content).isSome
  · rw [if_pos h]
    refine ⟨?_, nofun, ?_⟩
    · exact iff_of_false nofun (fun hn ↦ by simp [hn] at h)
    intro s hs
    obtain rfl := Except.ok.inj hs
    refine ⟨(records_after keys _).keys_eq, ?_⟩
    intro i k hk hi
    have hmet := Option.some.inj (((records_after keys seen).getElem?_marks hk).symm.trans hi)
    have hholds : isMentioned (seen ++ textLines content) k = true ↔ HoldsKey content k := by
      rw [isMentioned_append, hmet, Bool.false_or, isMentioned_textLines h]
    refine ⟨_, (records_after keys _).getElem?_marks hk, hholds, ?_, ?_⟩
    · intro hlf
      rw [← Bool.not_eq_true, hholds]
      exact not_holdsKey_of_lineFeed hlf
    · intro hne hlf hcr
      rw [hholds, holdsKey_iff_infix hne hlf hcr]
  · rw [if_neg h]
    refine ⟨iff_of_true ⟨_, rfl⟩ (Option.not_isSome_iff_eq_none.1 h), ?_, nofun⟩
    intro e he
    exact (Except.error.inj he).symm

def doubleReturnDisk : Disk := ⟨[([utf8 "f"], .file (utf8 "a\r\r\nb"))], []⟩

theorem readFile_doubleReturnDisk :
    doubleReturnDisk.read "/f" = .ok (utf8 "a\r\r\nb") ∧
    ∃ s, readFile doubleReturnDisk (after ["a\r", "a\r\r"] []) "/f" = .ok s ∧
      s.keys = ["a\r", "a\r\r"] ∧ s.marks = [true, false] ∧
      HoldsKey (utf8 "a\r\r\nb") "a\r" ∧ ¬ HoldsKey (utf8 "a\r\r\nb") "a\r\r" := by
  have hread : doubleReturnDisk.read "/f" = .ok (utf8 "a\r\r\nb") := rfl
  have hs : readFile doubleReturnDisk (after ["a\r", "a\r\r"] []) "/f" =
      .ok ⟨["a\r", "a\r\r"], [true, false], 1⟩ := rfl
  obtain ⟨-, -, hmarks⟩ := readFile_marks hread
  obtain ⟨hkeys, hmarks⟩ := hmarks _ hs
  refine ⟨hread, _, hs, hkeys, rfl, ?_, ?_⟩
  · obtain ⟨met, hmet, hholds, -⟩ := hmarks 0 "a\r" rfl rfl
    exact hholds.1 (Option.some.inj hmet).symm
  · obtain ⟨met, hmet, hholds, -⟩ := hmarks 1 "a\r\r" rfl rfl
    intro hk
    cases (Option.some.inj hmet).trans (hholds.2 hk)

end Sightings

end KeyAudit

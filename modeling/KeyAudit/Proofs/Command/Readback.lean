import KeyAudit.Proofs.Audit.Marking
import KeyAudit.Proofs.Command.Output
import KeyAudit.Proofs.Text.Pieces

namespace KeyAudit

open Text

variable {d : Disk} {t : Template} {files : List Path} {k : String} {ks : List String}

theorem Text.lineFeed_notMem_of_mem_textLines {content : Bytes} {text : String}
    (h : text ∈ textLines content) : '\n' ∉ text.toList := by
  obtain ⟨line, hline, htext⟩ := List.mem_filterMap.1 h
  intro hlf
  refine lineFeed_not_mem_of_mem_lines hline ?_
  rw [ofUtf8?_eq_some.1 htext]
  exact lineFeed_mem_utf8.2 hlf

theorem Disk.not_isMentioned_of_lineFeed (h : '\n' ∈ k.toList) (d : Disk) (files : List Path) :
    Sightings.isMentioned (files.flatMap d.textLines) k = false := by
  rw [← Bool.not_eq_true, Sightings.isMentioned_iff]
  intro hm
  obtain ⟨text, htext, hk⟩ := hm
  obtain ⟨p, -, hp⟩ := List.mem_flatMap.1 htext
  unfold textLines at hp
  split at hp
  · exact lineFeed_notMem_of_mem_textLines hp (hk.subset h)
  · cases hp

theorem Disk.mem_filter_of_lineFeed (hk : k ∈ ks) (h : '\n' ∈ k.toList) (d : Disk)
    (files : List Path) :
    k ∈ ks.filter fun k ↦ !Sightings.isMentioned (files.flatMap d.textLines) k := by
  rw [List.mem_filter, d.not_isMentioned_of_lineFeed h]
  exact ⟨hk, rfl⟩

theorem Audit.mem_of_unmentioned {unused : List String} (h : unmentioned d t files = .ok unused)
    (hk : k ∈ t.keys) (hlf : '\n' ∈ k.toList) : k ∈ unused := by
  rcases d.readable_or_firstUnreadable files with hr | ⟨p, cause, hp⟩
  · rw [unmentioned_of_readable t hr] at h
    obtain rfl := Except.ok.inj h
    exact d.mem_filter_of_lineFeed hk hlf files
  · rw [unmentioned_of_firstUnreadable t hp] at h
    cases h

theorem Audit.mem_unused {root template : Path} {settings : Settings} {a : Audit}
    (h : run d root template settings = .ok a) (ht : Template.load d template = .ok t)
    (hk : k ∈ t.keys) (hlf : '\n' ∈ k.toList) : k ∈ a.unused := by
  obtain ⟨t', s, ht', -, -, rfl⟩ := run_eq_ok h
  obtain rfl := Except.ok.inj (ht.symm.trans ht')
  exact d.mem_filter_of_lineFeed hk hlf s.all

namespace Command

/-- What an output without a limit has taken once all keys are written. -/
def written (ks : List String) : Bytes := (({} : Sink).writeKeys ks).1.output

theorem written_eq (ks : List String) : written ks = ks.flatMap keyLine := by
  obtain ⟨s, hs, hout⟩ := Sink.writeKeys_of_room_eq_none (s := {}) rfl ks
  rw [written, hs, hout]
  rfl

theorem lineFeed_notMem_utf8 (h : '\n' ∉ k.toList) : lineFeed ∉ utf8 k := mt lineFeed_mem_utf8.1 h

theorem pieces_written (h : ∀ k ∈ ks, '\n' ∉ k.toList) : pieces (written ks) = ks.map utf8 := by
  rw [written_eq]
  induction ks with
  | nil => rfl
  | cons k ks ih =>
    obtain ⟨hk, hks⟩ := List.forall_mem_cons.1 h
    rw [List.flatMap_cons, keyLine, List.append_assoc, List.singleton_append,
      pieces_lineFeed (lineFeed_notMem_utf8 hk), ih hks, List.map_cons]

theorem pieces_ne (hk : k ∈ ks) (hlf : '\n' ∈ k.toList) (b : Bytes) : pieces b ≠ ks.map utf8 := by
  intro h
  have hpiece : utf8 k ∈ pieces b := h ▸ List.mem_map_of_mem hk
  exact lineFeed_notMem_of_mem_pieces hpiece (lineFeed_mem_utf8.2 hlf)

theorem written_eq_nil : written ks = [] ↔ ks = [] := by
  rw [written_eq]
  cases ks <;> simp [keyLine]

theorem exists_keyLines (cs : List Char) : ∃ k ks, (∀ k' ∈ k :: ks, '\n' ∉ k'.toList) ∧
    (k :: ks).flatMap keyLine = encode cs ++ [lineFeed] := by
  induction cs with
  | nil => exact ⟨"", [], by simp, by decide⟩
  | cons c cs ih =>
    obtain ⟨k, ks, hks, hwritten⟩ := ih
    obtain ⟨hk, hrest⟩ := List.forall_mem_cons.1 hks
    by_cases hc : c = '\n'
    · subst hc
      refine ⟨"", k :: ks, List.forall_mem_cons.2 ⟨by simp, hks⟩, ?_⟩
      rw [List.flatMap_cons, hwritten, encode_cons, List.append_assoc]
      rfl
    · refine ⟨String.ofList (c :: k.toList), ks, List.forall_mem_cons.2 ⟨?_, hrest⟩, ?_⟩
      · rw [String.toList_ofList, List.mem_cons, not_or]
        exact ⟨fun h ↦ hc h.symm, hk⟩
      · rw [List.flatMap_cons, keyLine] at hwritten ⊢
        rw [utf8_eq_encode, String.toList_ofList, encode_cons, encode_cons, ← utf8_eq_encode,
          List.append_assoc, List.append_assoc, List.append_assoc, ← hwritten, List.append_assoc]

theorem exists_written_eq (ks : List String) :
    ∃ ks', (∀ k ∈ ks', '\n' ∉ k.toList) ∧ written ks' = written ks := by
  simp only [written_eq]
  induction ks with
  | nil => exact ⟨[], nofun, rfl⟩
  | cons k ks ih =>
    obtain ⟨ks', hks', hwritten⟩ := ih
    obtain ⟨l, ls, hl, hlines⟩ := exists_keyLines k.toList
    refine ⟨l :: ls ++ ks', List.forall_mem_append.2 ⟨hl, hks'⟩, ?_⟩
    rw [List.flatMap_append, hlines, hwritten, List.flatMap_cons, keyLine, utf8_eq_encode]

open Surroundings in
/-- The written keys are read back line by line if none of them has an LF in it, and only then. Nothing is
written for no keys, and for any key something is. An LF in a key of the template spoils this for every
audit that comes to its end: the key is never found, and what is written is what other keys would have
left. -/
theorem written_read_back :
    (∀ ks, pieces (written ks) = ks.map utf8 ↔ ∀ k ∈ ks, '\n' ∉ k.toList) ∧
    (∀ ks, written ks = [] ↔ ks = []) ∧
    (∀ ks ks', (∀ k ∈ ks, '\n' ∉ k.toList) → (∀ k ∈ ks', '\n' ∉ k.toList) →
      written ks = written ks' → ks = ks') ∧
    (∀ d t files unused k, Audit.unmentioned d t files = .ok unused → k ∈ t.keys →
      '\n' ∈ k.toList → k ∈ unused) ∧
    ∀ (w : Surroundings) (q : Request) loaded t a k,
      Settings.load w.disk (w.searchStart q) = .ok loaded →
      Template.load w.disk (w.template q) = .ok t →
      Audit.run w.disk q.path (w.template q) loaded.settings = .ok a →
      k ∈ t.keys → '\n' ∈ k.toList →
      (w.stdout.room = none → (w.run q).stdout = w.stdout.output ++ written a.unused) ∧
      pieces (w.run q).stdout ≠ a.unused.map utf8 ∧
      ∃ ks, ks ≠ a.unused ∧ written ks = written a.unused := by
  refine ⟨?_, fun ks ↦ written_eq_nil, ?_, fun d t files unused k ↦ Audit.mem_of_unmentioned, ?_⟩
  · intro ks
    constructor
    · intro h k hk hlf
      exact pieces_ne hk hlf _ h
    · exact pieces_written
  · intro ks ks' hks hks' h
    have hmap : ks.map utf8 = ks'.map utf8 := by
      rw [← pieces_written hks, h, pieces_written hks']
    exact utf8_injective.list_map hmap
  · intro w q loaded t a k hload ht haudit hk hlf
    have hunused : k ∈ a.unused := Audit.mem_unused haudit ht hk hlf
    refine ⟨?_, pieces_ne hunused hlf _, ?_⟩
    · intro hroom
      obtain ⟨s, hs, hout⟩ := Sink.writeKeys_of_room_eq_none hroom a.unused
      rw [run_of_audit hload haudit, report_eq, hs, written_eq]
      exact hout
    · obtain ⟨ks, hks, hwritten⟩ := exists_written_eq a.unused
      refine ⟨ks, ?_, hwritten⟩
      intro h
      subst h
      exact hks k hunused hlf

def brokenKeyDisk : Disk where
  records := [([utf8 "r"], .directory), ([utf8 "a.js", utf8 "r"], .file (utf8 "a\nb")),
    ([utf8 "index.template.html"], .file []), ([utf8 "t"], .file (utf8 "\"a\\nb\" = 1"))]
  here := []

theorem run_brokenKeyDisk :
    let w : Surroundings := { disk := brokenKeyDisk, program := "/x" }
    Audit.run brokenKeyDisk "/r" "/t" {} = .ok ⟨["a\nb"], 2, 1⟩ ∧
    (w.run ⟨"/r", some "/t", false⟩).stdout = written ["a\nb"] ∧
    pieces (w.run ⟨"/r", some "/t", false⟩).stdout ≠ [utf8 "a\nb"] ∧
    written ["a", "b"] = written ["a\nb"] := by
  intro w
  have hload : Settings.load brokenKeyDisk "/r" = .ok ⟨{}, none⟩ := by decide +kernel
  have ht : Template.load brokenKeyDisk "/t" = .ok ⟨["a\nb"]⟩ := by decide +kernel
  have haudit : Audit.run brokenKeyDisk "/r" "/t" {} = .ok ⟨["a\nb"], 2, 1⟩ := by decide +kernel
  obtain ⟨-, -, -, -, hrun⟩ := written_read_back
  obtain ⟨hout, hpieces, -⟩ := hrun w ⟨"/r", some "/t", false⟩ _ _ _ "a\nb" hload ht haudit
    (List.mem_singleton_self _) (by decide)
  exact ⟨haudit, hout rfl, hpieces, by decide⟩

end Command

end KeyAudit

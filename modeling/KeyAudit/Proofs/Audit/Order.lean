import KeyAudit.Proofs.Audit.Result

namespace KeyAudit

variable {d : Disk} {files files' more : List Path} {p : Path} {cause : AccessFailure} {t : Template}

namespace Disk

theorem isMentioned_eq_of_mem_iff (h : ∀ p, p ∈ files ↔ p ∈ files') (k : String) :
    Sightings.isMentioned (files.flatMap d.textLines) k =
      Sightings.isMentioned (files'.flatMap d.textLines) k := by
  rw [Bool.eq_iff_iff, isMentioned_iff, isMentioned_iff]
  simp only [h]

theorem FirstUnreadable.append (h : d.FirstUnreadable more p cause) (hr : ∀ q ∈ files, d.IsReadable q) :
    d.FirstUnreadable (files ++ more) p cause := by
  obtain ⟨hp, before, after, rfl, hb⟩ := h
  exact ⟨hp, files ++ before, after, (List.append_assoc _ _ _).symm, List.forall_mem_append.2 ⟨hr, hb⟩⟩

theorem FirstUnreadable.exists_of_mem_iff (h : d.FirstUnreadable files p cause)
    (hmem : ∀ p, p ∈ files ↔ p ∈ files') : ∃ q cause', d.FirstUnreadable files' q cause' := by
  rcases d.readable_or_firstUnreadable files' with hr | hq
  · exact absurd (fun q hq ↦ hr q ((hmem q).1 hq)) h.not_isReadable
  · exact hq

end Disk

namespace Audit

theorem unmentioned_eq_error {e : AuditFailure} : unmentioned d t files = .error e ↔
    ∃ p cause, d.FirstUnreadable files p cause ∧ e = .file p cause := by
  constructor
  · intro h
    rcases d.readable_or_firstUnreadable files with hr | ⟨p, cause, hp⟩
    · rw [unmentioned_of_readable t hr] at h
      cases h
    · rw [unmentioned_of_firstUnreadable t hp] at h
      exact ⟨p, cause, hp, (Except.error.inj h).symm⟩
  · intro h
    obtain ⟨p, cause, hp, rfl⟩ := h
    exact unmentioned_of_firstUnreadable t hp

theorem unmentioned_eq_of_mem_iff (h : ∀ p, p ∈ files ↔ p ∈ files')
    (hr : ∀ p ∈ files, d.IsReadable p) : unmentioned d t files = unmentioned d t files' := by
  rw [unmentioned_of_readable t hr, unmentioned_of_readable t fun p hp ↦ hr p ((h p).2 hp)]
  simp only [Disk.isMentioned_eq_of_mem_iff h]

theorem unmentioned_append (hr : ∀ p ∈ files, d.IsReadable p) (t : Template) (more : List Path) :
    ∃ ks, unmentioned d t files = .ok ks ∧ unmentioned d t (files ++ more) = unmentioned d ⟨ks⟩ more := by
  refine ⟨_, unmentioned_of_readable t hr, ?_⟩
  rcases d.readable_or_firstUnreadable more with hmore | ⟨p, cause, hp⟩
  · rw [unmentioned_of_readable _ hmore, unmentioned_of_readable t (List.forall_mem_append.2 ⟨hr, hmore⟩),
      List.flatMap_append, List.filter_filter]
    congr 1
    apply List.filter_congr
    intro k _
    rw [Sightings.isMentioned_append, Bool.not_or, Bool.and_comm]
  · rw [unmentioned_of_firstUnreadable _ hp, unmentioned_of_firstUnreadable t (hp.append hr)]

/-- Two lists of the same files leave the same keys in the same order, or neither leaves any because some
file cannot be read; then each list is refused for the first such file in it, whatever the keys are. An
audit may be divided: what the first files leave is all that there is to look for in the others. -/
theorem unmentioned_of_same_files (h : ∀ p, p ∈ files ↔ p ∈ files') (t : Template) :
    ((∃ ks, unmentioned d t files = .ok ks ∧ unmentioned d t files' = .ok ks) ∨
      ∃ p cause p' cause', d.FirstUnreadable files p cause ∧ d.FirstUnreadable files' p' cause' ∧
        unmentioned d t files = .error (.file p cause) ∧
        unmentioned d t files' = .error (.file p' cause')) ∧
    (∀ (t : Template) (files : List Path) e, unmentioned d t files = .error e ↔
      ∃ p cause, d.FirstUnreadable files p cause ∧ e = .file p cause) ∧
    ∀ first more : List Path, (∀ p ∈ first, d.IsReadable p) →
      ∃ ks, unmentioned d t first = .ok ks ∧ unmentioned d t (first ++ more) = unmentioned d ⟨ks⟩ more := by
  refine ⟨?_, fun t files e ↦ unmentioned_eq_error, fun first more hr ↦ unmentioned_append hr t more⟩
  rcases d.readable_or_firstUnreadable files with hr | ⟨p, cause, hp⟩
  · have hok := unmentioned_of_readable t hr
    exact .inl ⟨_, hok, (unmentioned_eq_of_mem_iff h hr).symm.trans hok⟩
  · obtain ⟨p', cause', hp'⟩ := hp.exists_of_mem_iff h
    exact .inr ⟨p, cause, p', cause', hp, hp', unmentioned_of_firstUnreadable t hp,
      unmentioned_of_firstUnreadable t hp'⟩

theorem unmentioned_mentioningDisk :
    (∀ p : Path, p ∈ (["/r/a.js", "/s", "/r"] : List Path) ↔ p ∈ (["/r", "/r/a.js", "/r", "/s"] : List Path)) ∧
    unmentioned mentioningDisk ⟨["used", "used"]⟩ ["/r/a.js", "/s", "/r"] = .error (.file "/s" .notFound) ∧
    unmentioned mentioningDisk ⟨["used", "used"]⟩ ["/r", "/r/a.js", "/r", "/s"] =
      .error (.file "/r" .isADirectory) := by
  have hmem (p : Path) : p ∈ (["/r/a.js", "/s", "/r"] : List Path) ↔
      p ∈ (["/r", "/r/a.js", "/r", "/s"] : List Path) := by
    simp only [List.mem_cons, List.not_mem_nil, or_false]
    tauto
  have hfirst : mentioningDisk.FirstUnreadable ["/r/a.js", "/s", "/r"] "/s" .notFound := by
    refine ⟨rfl, ["/r/a.js"], ["/r"], rfl, List.forall_mem_singleton.2 ?_⟩
    exact ⟨"x\r\nt.used", rfl⟩
  have hfirst' : mentioningDisk.FirstUnreadable ["/r", "/r/a.js", "/r", "/s"] "/r" .isADirectory :=
    ⟨rfl, [], ["/r/a.js", "/r", "/s"], rfl, nofun⟩
  obtain ⟨hends, hreport, -⟩ := unmentioned_of_same_files (d := mentioningDisk) hmem ⟨["used", "used"]⟩
  have herror := (hreport ⟨["used", "used"]⟩ _ _).2 ⟨_, _, hfirst, rfl⟩
  refine ⟨hmem, herror, ?_⟩
  rcases hends with ⟨ks, hok, -⟩ | ⟨p, cause, p', cause', -, hp', -, herror'⟩
  · rw [herror] at hok
    cases hok
  · obtain ⟨rfl, rfl⟩ := hp'.unique hfirst'
    exact herror'

end Audit

end KeyAudit

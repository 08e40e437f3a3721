import KeyAudit.Disk.Lookup
import KeyAudit.Proofs.Path.Below

namespace KeyAudit.Disk

variable {d : Disk} {fits : Location → Bool} {follow : Bool} {links : Nat} {loc up : Location}
  {p : Path} {n part : Name}

def beyond (d : Disk) (fits : Location → Bool) (follow : Bool) :
    (links : Nat) → Location → List Bytes → Except AccessFailure Location
  | 0 => fun _ _ ↦ .error .linkLoop
  | links + 1 => descend d fits follow links

theorem descend_eq :
    descend d fits follow links = descendVia d fits follow (beyond d fits follow links) := by
  cases links <;> rfl

@[simp] theorem descend_nil : descend d fits follow links loc [] = .ok loc := by
  rw [descend_eq, descendVia]

theorem descend_cons {rest : List Bytes} : descend d fits follow links loc (part :: rest) =
    if Path.isVoid part then descend d fits follow links loc rest
    else if part = [Path.dot, Path.dot] then descend d fits follow links loc.tail rest
    else if isRemoved loc then .error .notFound
    else if nameLimit < part.length ∨ !fits (part :: loc) then .error .nameTooLong
    else
      match d.at? (part :: loc) with
      | none => .error .notFound
      | some .directory => descend d fits follow links (part :: loc) rest
      | some (.link target) =>
        if rest = [] ∧ !follow then .ok (part :: loc)
        else if target.bytes = [] then .error .notFound
        else beyond d fits follow links (if target.isAbsolute then [] else loc)
          (pathParts target ++ rest)
      | some _ => if rest = [] then .ok (part :: loc) else .error .notADirectory := by
  cases links <;> rfl

theorem descend_void (ps qs : List Bytes) (hq : qs ≠ []) :
    descend d fits follow links loc (ps ++ [] :: qs) =
      descend d fits follow links loc (ps ++ qs) := by
  induction links generalizing loc ps with
  | zero =>
    induction ps generalizing loc with
    | nil => simp [descend_cons, Path.isVoid]
    | cons part ps ih => simp [descend_cons, ih, beyond, hq]
  | succ links ihl =>
    induction ps generalizing loc with
    | nil => simp [descend_cons, Path.isVoid]
    | cons part ps ih =>
      have hb (target : Path) : beyond d fits follow (links + 1)
          (if target.isAbsolute then [] else loc) (pathParts target ++ (ps ++ [] :: qs)) =
          beyond d fits follow (links + 1)
            (if target.isAbsolute then [] else loc) (pathParts target ++ (ps ++ qs)) := by
        rw [← List.append_assoc, ← List.append_assoc]
        exact ihl (pathParts target ++ ps)
      simp [descend_cons, ih, hb, hq]

theorem descend_append_of_beyond {ps : List Bytes}
    (hb : ∀ loc ps, beyond d fits true links loc ps = .ok up →
      ∃ left, ∀ follow qs, qs ≠ [] →
        beyond d fits follow links loc (ps ++ qs) = descend d fits follow left up qs)
    (h : descend d fits true links loc ps = .ok up) (hd : d.at? up = some .directory) :
    ∃ left, ∀ follow qs, qs ≠ [] →
      descend d fits follow links loc (ps ++ qs) = descend d fits follow left up qs := by
  induction ps generalizing loc with
  | nil =>
    rw [descend_nil] at h
    cases h
    exact ⟨links, fun _ _ _ ↦ rfl⟩
  | cons part ps ih =>
    simp only [List.cons_append, descend_cons] at h ⊢
    by_cases hv : Path.isVoid part
    · rw [if_pos hv] at h
      simpa only [if_pos hv] using ih h
    by_cases hu : part = [Path.dot, Path.dot]
    · rw [if_neg hv, if_pos hu] at h
      simpa only [if_neg hv, if_pos hu] using ih h
    by_cases hr : isRemoved loc
    · rw [if_neg hv, if_neg hu, if_pos hr] at h
      cases h
    by_cases hl : nameLimit < part.length ∨ !fits (part :: loc)
    · rw [if_neg hv, if_neg hu, if_neg hr, if_pos hl] at h
      cases h
    simp only [if_neg hv, if_neg hu, if_neg hr, if_neg hl] at h ⊢
    cases hat : d.at? (part :: loc) with
    | none => simp only [hat] at h; cases h
    | some e =>
      cases e with
      | directory =>
        simp only [hat] at h ⊢
        exact ih h
      | file _ | device =>
        simp only [hat] at h
        split at h
        · cases h
          rw [hat] at hd
          cases hd
        · cases h
      | link target =>
        simp only [hat, Bool.not_true, and_false, if_false, Bool.false_eq_true] at h ⊢
        by_cases ht : target.bytes = []
        · rw [if_pos ht] at h
          cases h
        rw [if_neg ht] at h
        obtain ⟨left, hleft⟩ := hb _ _ h
        refine ⟨left, ?_⟩
        intro follow qs hq
        have hne : ¬ (ps ++ qs = [] ∧ (!follow) = true) :=
          fun hn ↦ hq (List.append_eq_nil_iff.1 hn.1).2
        rw [if_neg hne, if_neg ht, ← List.append_assoc, hleft follow qs hq]

theorem descend_append {ps : List Bytes} (h : descend d fits true links loc ps = .ok up)
    (hd : d.at? up = some .directory) :
    ∃ left, ∀ follow qs, qs ≠ [] →
      descend d fits follow links loc (ps ++ qs) = descend d fits follow left up qs := by
  induction links generalizing loc ps with
  | zero => exact descend_append_of_beyond (fun _ _ h ↦ by cases h) h hd
  | succ links ih => exact descend_append_of_beyond (fun _ _ h ↦ ih h) h hd

/-- The place to which a path leads through all links, however long it is. -/
def leadsTo (d : Disk) (p : Path) : Except AccessFailure Location := d.resolve (fun _ ↦ true) true p

/-- The place that a path names itself, with no link followed there. -/
def standsAt (d : Disk) (p : Path) : Except AccessFailure Location := d.resolve (fun _ ↦ true) false p

theorem bytes_of_resolve (h : d.resolve fits follow p = .ok loc) :
    p.bytes ≠ [] ∧ p.bytes.contains 0 = false := by
  unfold resolve at h
  split at h
  · cases h
  · rename_i h0
    split at h
    · cases h
    · rename_i hp
      exact ⟨hp, Bool.eq_false_iff.2 h0⟩

theorem bytes_of_leadsTo (h : d.leadsTo p = .ok loc) : p.bytes ≠ [] ∧ p.bytes.contains 0 = false :=
  bytes_of_resolve h

theorem locate_of_resolve (h : d.resolve (fun _ ↦ true) follow p = .ok loc) :
    d.locate follow p = if isTooLong p then .error .nameTooLong else .ok loc := by
  simp only [locate, (bytes_of_resolve h).2, Bool.not_false, and_true, h]

theorem resolve_of_locate (h : d.locate follow p = .ok loc) :
    isTooLong p = false ∧ d.resolve (fun _ ↦ true) follow p = .ok loc := by
  have hr : d.resolve (fun _ ↦ true) follow p = .ok loc := by
    unfold locate at h
    split at h
    · cases h
    · exact h
  refine ⟨Bool.eq_false_iff.2 ?_, hr⟩
  intro hlong
  rw [locate_of_resolve hr, if_pos hlong] at h
  cases h

theorem locate_eq_leadsTo (h : isTooLong p = false) : d.locate true p = d.leadsTo p := by
  rw [locate, if_neg (by simp [h]), leadsTo]

theorem leadsTo_of_locate (h : d.locate true p = .ok loc) : d.leadsTo p = .ok loc :=
  (resolve_of_locate h).2

theorem locate_eq_ok : d.locate true p = .ok loc ↔ isTooLong p = false ∧ d.leadsTo p = .ok loc := by
  constructor
  · exact resolve_of_locate
  · intro h
    obtain ⟨hlong, hl⟩ := h
    rw [locate_eq_leadsTo hlong, hl]

theorem entry_eq_ok {e : Entry} : d.entry p = .ok e ↔
    isTooLong p = false ∧ ∃ loc, d.leadsTo p = .ok loc ∧ d.at? loc = some e := by
  unfold entry
  constructor
  · intro h
    cases hl : d.locate true p with
    | error cause => simp [hl] at h
    | ok loc =>
      obtain ⟨hlong, hlead⟩ := locate_eq_ok.1 hl
      cases hat : d.at? loc with
      | none => simp [hl, hat] at h
      | some e' =>
        simp only [hl, hat, Except.ok.injEq] at h
        exact ⟨hlong, loc, hlead, h ▸ hat⟩
  · intro h
    obtain ⟨hlong, loc, hl, hat⟩ := h
    simp only [locate_eq_leadsTo hlong, hl, hat]

theorem isDirectory_eq_true : d.isDirectory p = true ↔ d.entry p = .ok .directory := by
  unfold isDirectory
  split
  · rename_i h
    simp [h]
  · rename_i h
    simpa using h

theorem nameIn?_eq_some {place : Location} :
    nameIn? up place = some n ↔ place = n :: up ∧ isProper n = true := by
  cases place with
  | nil => simp [nameIn?]
  | cons m place =>
    rw [nameIn?]
    constructor
    · intro h
      split at h
      · rename_i hm
        cases h
        exact ⟨by rw [hm.1], hm.2⟩
      · cases h
    · intro h
      obtain ⟨h, hn⟩ := h
      cases h
      exact if_pos ⟨rfl, hn⟩

theorem mem_children : n ∈ d.children loc ↔
    isRemoved loc = false ∧ isProper n ∧ (d.at? (n :: loc)).isSome := by
  unfold children
  split
  · rename_i h
    simp [h]
  · rename_i h
    rw [List.mem_eraseDups, List.mem_filterMap]
    simp only [Bool.eq_false_iff.2 h, true_and]
    have hat : d.at? (n :: loc) = d.records.lookup (n :: loc) := if_neg (List.cons_ne_nil _ _)
    rw [hat, List.lookup_isSome_iff]
    constructor
    · intro h
      obtain ⟨r, hr, hn⟩ := h
      rw [nameIn?_eq_some] at hn
      exact ⟨hn.2, r, hr, by simp [hn.1]⟩
    · intro h
      obtain ⟨hn, r, hr, he⟩ := h
      exact ⟨r, hr, nameIn?_eq_some.2 ⟨(beq_iff_eq.1 he).symm, hn⟩⟩

theorem resolve_join (h : d.leadsTo p = .ok loc) (hd : d.at? loc = some .directory)
    (hn : isProper n) :
    ∃ left, ∀ follow, d.resolve (fun _ ↦ true) follow (p.join ⟨n⟩) =
      descend d (fun _ ↦ true) follow left loc [n] := by
  obtain ⟨hp, h0⟩ := bytes_of_leadsTo h
  have hn0 : n.contains 0 = false := by
    simp only [isProper, Bool.and_eq_true, Bool.not_eq_true'] at hn
    exact hn.1.2
  have hsplit : n.splitOn Path.slash = [n] :=
    List.splitOn_eq_singleton (Path.slash_notMem_of_isProper hn)
  have hj : (p.join ⟨n⟩).bytes.contains 0 = false ∧ (p.join ⟨n⟩).isAbsolute = p.isAbsolute := by
    cases hb : p.bytes with
    | nil => exact absurd hb hp
    | cons x xs =>
      rcases Path.bytes_join hp (Path.isAbsolute_of_isProper hn) with ⟨-, hq⟩ | hq <;>
        simp_all [Path.isAbsolute, Path.slash]
  rw [leadsTo, resolve, h0, if_neg Bool.false_ne_true, if_neg hp] at h
  obtain ⟨left, hleft⟩ := descend_append h hd
  refine ⟨left, ?_⟩
  intro follow
  rw [resolve, hj.1, if_neg Bool.false_ne_true, if_neg (Path.join_bytes_ne_nil hp hn), hj.2,
    ← hleft follow [n] (List.cons_ne_nil _ _)]
  unfold pathParts
  rcases Path.bytes_join hp (Path.isAbsolute_of_isProper hn) with ⟨⟨b, hb⟩, hq⟩ | hq
  · rw [hq, hb, List.append_assoc, List.singleton_append, List.splitOn_append_cons_self,
      List.splitOn_append_cons_self, hsplit, List.splitOn_nil, List.append_assoc]
    exact (descend_void _ _ (List.cons_ne_nil _ _)).symm
  · rw [hq, List.splitOn_append_cons_self, hsplit]

theorem descend_name (hn : n ∈ d.children loc) :
    descend d (fun _ ↦ true) follow links loc [n] =
      match d.at? (n :: loc) with
      | some (.link target) =>
        if follow then
          if target.bytes = [] then .error .notFound
          else beyond d (fun _ ↦ true) follow links (if target.isAbsolute then [] else loc)
            (pathParts target)
        else .ok (n :: loc)
      | _ => .ok (n :: loc) := by
  obtain ⟨hr, hp, hs⟩ := mem_children.1 hn
  have hlen : ¬ (nameLimit < n.length ∨ (!true) = true) := by
    simp only [isProper, Bool.and_eq_true, decide_eq_true_eq] at hp
    simpa using hp.2
  rw [descend_cons, (Path.isName_of_isProper hp).isVoid_eq_false, if_neg Bool.false_ne_true,
    if_neg ((Path.isName_of_isProper hp).ne_up), hr, if_neg Bool.false_ne_true, if_neg hlen]
  cases hat : d.at? (n :: loc) with
  | none => simp [hat] at hs
  | some e => cases e <;> cases follow <;> simp

theorem standsAt_join (h : d.leadsTo p = .ok loc) (hd : d.at? loc = some .directory)
    (hn : n ∈ d.children loc) : d.standsAt (p.join ⟨n⟩) = .ok (n :: loc) := by
  obtain ⟨left, hleft⟩ := resolve_join h hd (mem_children.1 hn).2.1
  rw [standsAt, hleft, descend_name hn]
  split <;> rfl

theorem leadsTo_join (h : d.leadsTo p = .ok loc) (hd : d.at? loc = some .directory)
    (hn : n ∈ d.children loc) (hl : ∀ target, d.at? (n :: loc) ≠ some (.link target)) :
    d.leadsTo (p.join ⟨n⟩) = .ok (n :: loc) := by
  obtain ⟨left, hleft⟩ := resolve_join h hd (mem_children.1 hn).2.1
  rw [leadsTo, hleft, descend_name hn]
  split
  · rename_i target ht
    exact absurd ht (hl target)
  · rfl

end KeyAudit.Disk

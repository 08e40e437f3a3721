import KeyAudit.Json.Skip
import KeyAudit.Settings.Basic

namespace KeyAudit.Settings

open Json

inductive Member where
  | extensions (es : List String)
  | entryFile (f : String)
  | unknown
  deriving DecidableEq, Repr

def Member.extensions? : Member → Option (List String)
  | .extensions es => some es
  | _ => none

def Member.entryFile? : Member → Option String
  | .entryFile f => some f
  | _ => none

def string (s : List Char) : Option (String × List Char) :=
  (text s).map fun (t, r) ↦ (String.ofList t, r)

def item (s : List Char) : Option (String × List Char) :=
  (string (skipSpace s)).map fun (t, r) ↦ (t, skipSpace r)

theorem item_shorter {s r : List Char} {t : String} (h : item s = some (t, r)) :
    r.length < s.length := by
  simp only [item, string, Option.map_eq_some_iff, Prod.mk.injEq, Prod.exists] at h
  obtain ⟨_, _, ⟨_, u, hu, _, rfl⟩, _, rfl⟩ := h
  have := text_shorter hu
  have := skipSpace_le s
  have := skipSpace_le u
  omega

def items : Reader String := ⟨item, item_shorter⟩

def strings (s : List Char) : Option (List String × List Char) :=
  match s with
  | '[' :: r =>
    match skipSpace r with
    | ']' :: r => some ([], r)
    | r =>
      match items.sepBy ',' r with
      | some (ts, ']' :: r) => some (ts, r)
      | _ => none
  | _ => none

theorem strings_shorter {s r : List Char} {ts : List String} (h : strings s = some (ts, r)) :
    r.length < s.length := by
  unfold strings at h
  split at h
  · rename_i t
    have ht := skipSpace_le t
    split at h
    · rename_i hr
      cases h
      simp only [hr, List.length_cons] at *
      omega
    · split at h
      · rename_i hr
        cases h
        have := Reader.sepBy_shorter hr
        simp only [List.length_cons] at *
        omega
      · cases h
  · cases h

def memberValue (name : String) (s : List Char) : Option (Member × List Char) :=
  if name = "extensions" then (strings s).map fun (es, r) ↦ (.extensions es, r)
  else if name = "entryTemplate" then (string s).map fun (f, r) ↦ (.entryFile f, r)
  else (skipValue s).map fun r ↦ (.unknown, r)

theorem memberValue_shorter {name : String} {s r : List Char} {m : Member}
    (h : memberValue name s = some (m, r)) : r.length < s.length := by
  unfold memberValue at h
  split at h
  · simp only [Option.map_eq_some_iff, Prod.mk.injEq, Prod.exists] at h
    obtain ⟨_, _, h, rfl, rfl⟩ := h
    exact strings_shorter h
  split at h
  · simp only [string, Option.map_eq_some_iff, Prod.mk.injEq, Prod.exists] at h
    obtain ⟨_, _, ⟨_, _, h, rfl, rfl⟩, rfl, rfl⟩ := h
    exact text_shorter h
  · simp only [Option.map_eq_some_iff, Prod.mk.injEq] at h
    obtain ⟨_, h, rfl, rfl⟩ := h
    exact skipValue_shorter h

def member (s : List Char) : Option (Member × List Char) :=
  match item s with
  | some (name, ':' :: r) => (memberValue name (skipSpace r)).map fun (m, r) ↦ (m, skipSpace r)
  | _ => none

theorem member_shorter {s r : List Char} {m : Member} (h : member s = some (m, r)) :
    r.length < s.length := by
  unfold member at h
  split at h
  · rename_i t hn
    simp only [Option.map_eq_some_iff, Prod.mk.injEq, Prod.exists] at h
    obtain ⟨_, u, h, rfl, rfl⟩ := h
    have := item_shorter hn
    have := skipSpace_le t
    have := memberValue_shorter h
    have := skipSpace_le u
    simp only [List.length_cons] at *
    omega
  · cases h

def members : Reader Member := ⟨member, member_shorter⟩

def onlyOr {α : Type} (d : α) : List α → Option α
  | [] => some d
  | [a] => some a
  | _ => none

/-- Both known members may be left out, and neither may be given twice. -/
def ofMembers? (ms : List Member) : Option Settings :=
  let base : Settings := {}
  match onlyOr base.extensions (ms.filterMap Member.extensions?),
    onlyOr base.entryFile (ms.filterMap Member.entryFile?) with
  | some es, some f => some ⟨es, f⟩
  | _, _ => none

def object (s : List Char) : Option (Settings × List Char) :=
  match skipSpace s with
  | '}' :: r => some ({}, r)
  | r =>
    match members.sepBy ',' r with
    | some (ms, '}' :: r) => (ofMembers? ms).map (·, r)
    | _ => none

def tuple (s : List Char) : Option (Settings × List Char) :=
  match skipSpace s with
  | ']' :: r => some ({}, r)
  | r =>
    match strings r with
    | none => none
    | some (es, r) =>
      match skipSpace r with
      | ']' :: r => some ({ extensions := es }, r)
      | ',' :: r =>
        match item r with
        | some (f, ']' :: r) => some (⟨es, f⟩, r)
        | _ => none
      | _ => none

def ofJson? (content : String) : Option Settings :=
  let written := match skipSpace content.toList with
    | '{' :: r => object r
    | '[' :: r => tuple r
    | _ => none
  match written with
  | some (s, r) => if skipSpace r = [] then some s else none
  | none => none

end KeyAudit.Settings

import KeyAudit.Toml.Document

namespace KeyAudit.Toml

/-- What a statement of a document says about the top-level key with which its own key starts: that a
pair stands under it, that it has a header of its own, or that a longer header leads through it. -/
inductive Statement where
  | pair (k : String)
  | table (k : String)
  | element (k : String)
  | inner (k : String)
  deriving DecidableEq, Repr

namespace Statement

def key : Statement → String
  | pair k | table k | element k | inner k => k

def ofPair? (path : List String) : Option Statement := path.head?.map pair

def ofHeader? : HeaderKind → List String → Option Statement
  | _, [] => none
  | .table, [k] => some (table k)
  | .element, [k] => some (element k)
  | _, k :: _ :: _ => some (inner k)

/-- No statement but longer headers has named the key. -/
def IsImplied (earlier : List Statement) (k : String) : Prop :=
  ∀ s ∈ earlier, s.key = k → s = inner k

instance (earlier : List Statement) (k : String) : Decidable (IsImplied earlier k) :=
  inferInstanceAs (Decidable (∀ s ∈ earlier, s.key = k → s = inner k))

/-- A key is put at the end when it is new, and once more when it gets its own header after longer
headers only. -/
def declare (earlier : List Statement) (keys : List String) (s : Statement) : List String :=
  if s.key ∉ keys then keys ++ [s.key]
  else if s = table s.key ∧ IsImplied earlier s.key then keys.filter (· ≠ s.key) ++ [s.key]
  else keys

def declareAll (earlier : List Statement) (keys : List String) : List Statement → List String
  | [] => keys
  | s :: ss => declareAll (earlier ++ [s]) (declare earlier keys s) ss

theorem declareAll_append (earlier : List Statement) (keys : List String) (ss more : List Statement) :
    declareAll earlier keys (ss ++ more) =
      declareAll (earlier ++ ss) (declareAll earlier keys ss) more := by
  induction ss generalizing earlier keys with
  | nil => rw [List.append_nil, List.nil_append, declareAll]
  | cons s ss ih => rw [List.cons_append, declareAll, declareAll, ih, List.append_assoc,
      List.singleton_append]

def keyOrder (ss : List Statement) : List String := declareAll [] [] ss

end Statement

/-- The pairs before the first header, and all headers. Pairs below a header belong to its table. -/
def statementsIn (top : Bool) : List Line → List Statement
  | [] => []
  | .blank :: ls => statementsIn top ls
  | .pair p :: ls =>
    if top then (Statement.ofPair? p.1).toList ++ statementsIn top ls else statementsIn top ls
  | .header kind path :: ls => (Statement.ofHeader? kind path).toList ++ statementsIn false ls

def statements (ls : List Line) : List Statement := statementsIn true ls

def headersOf (sections : List Section) : List Statement :=
  sections.flatMap fun s ↦ (Statement.ofHeader? s.kind s.path).toList

def pairsOf (ps : List Pair) : List Statement :=
  ps.flatMap fun p ↦ (Statement.ofPair? p.1).toList

theorem statementsIn_false (ls : List Line) :
    statementsIn false ls = headersOf (Document.ofLines ls).sections := by
  induction ls with
  | nil => rfl
  | cons l ls ih =>
    cases l with
    | blank => exact ih
    | pair p => exact ih
    | header kind path => exact congrArg (_ ++ ·) ih

theorem statements_eq (ls : List Line) : statements ls =
    pairsOf (Document.ofLines ls).preamble ++ headersOf (Document.ofLines ls).sections := by
  unfold statements
  induction ls with
  | nil => rfl
  | cons l ls ih =>
    cases l with
    | blank => exact ih
    | pair p =>
      change _ ++ statementsIn true ls = (_ ++ pairsOf _) ++ _
      rw [ih, List.append_assoc]
      rfl
    | header kind path => exact congrArg (_ ++ ·) (statementsIn_false ls)

end KeyAudit.Toml

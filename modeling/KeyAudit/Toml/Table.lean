import KeyAudit.Toml.Moment

namespace KeyAudit.Toml

/-- How a table came to be: by a header of its own, as a part of the path in another header, or as a
part of a dotted key. -/
inductive Origin where
  | header
  | implied
  | dotted
  deriving DecidableEq, Repr

/-- What a key stands for. Values that are not texts matter only by being there. The entries of a
table keep their order, and those of an array of tables are its elements. -/
inductive Item where
  | text (t : String)
  | plain
  | array (items : List Item)
  | inlined (entries : List (String × Item))
  | table (origin : Origin) (entries : List (String × Item))
  | tables (elements : List (List (String × Item)))

abbrev Entries := List (String × Item)

namespace Entries

def put (k : String) (item : Item) (es : Entries) : Entries :=
  es.map fun e ↦ if e.1 = k then (k, item) else e

def remove (k : String) (es : Entries) : Entries := es.filter (·.1 != k)

/-- Changes the entries in which the last key of a path stands, where the path starts in `es`, and
makes the tables on the way that are not there. A path leads through tables and into the last element
of an array of tables. With `dotted` it is a dotted key, which neither leads through tables that have
a header nor ends in a table that no dotted key has made: `own` tells whether `es` may get an entry by
the key alone. -/
def change (dotted : Bool) (f : String → Entries → Option Entries) :
    List String → (own : Bool) → Entries → Option Entries
  | [], _, _ => none
  | [k], own, es => if dotted && !own then none else f k es
  | k :: path, _, es =>
    match es.lookup k with
    | none => (change dotted f path true []).map fun sub ↦
      es ++ [(k, .table (if dotted then .dotted else .implied) sub)]
    | some (.table origin sub) =>
      if dotted && origin = .header then none
      else (change dotted f path (origin = .dotted) sub).map fun sub ↦
        es.put k (.table origin sub)
    | some (.tables elements) =>
      match elements.getLast? with
      | none => none
      | some sub => (change dotted f path false sub).map fun sub ↦
        es.put k (.tables (elements.dropLast ++ [sub]))
    | some _ => none

def addPair (es : Entries) (pair : List String × Item) : Option Entries :=
  change true (fun k es ↦ if (es.lookup k).isSome then none else some (es ++ [(k, pair.2)]))
    pair.1 true es

def addPairs (es : Entries) (pairs : List (List String × Item)) : Option Entries :=
  pairs.foldlM addPair es

/-- Opens the table `path` and adds the pairs below its header. A table that is only implied so far
is opened at the end, with what it already holds. -/
def openTable (path : List String) (body : List (List String × Item)) (es : Entries) :
    Option Entries :=
  change false (fun k es ↦
    match es.lookup k with
    | none => (addPairs [] body).map fun sub ↦ es ++ [(k, .table .header sub)]
    | some (.table .implied sub) =>
      (addPairs sub body).map fun sub ↦ es.remove k ++ [(k, .table .header sub)]
    | some _ => none) path true es

def openElement (path : List String) (body : List (List String × Item)) (es : Entries) :
    Option Entries :=
  change false (fun k es ↦
    match es.lookup k with
    | none => (addPairs [] body).map fun sub ↦ es ++ [(k, .tables [sub])]
    | some (.tables elements) =>
      (addPairs [] body).map fun sub ↦ es.put k (.tables (elements ++ [sub]))
    | some _ => none) path true es

end Entries

/-- The key that marks a table as the written form of a moment. -/
def momentKey : String := "$__toml_private_datetime"

mutual

/-- A table whose first key is the moment key has to hold a moment under it, and nothing else in it
counts. -/
def Item.isSound : Item → Bool
  | .text _ => true
  | .plain => true
  | .array items => areSound items
  | .inlined es => isSoundTable es
  | .table _ es => isSoundTable es
  | .tables elements => areSoundTables elements

def areSound : List Item → Bool
  | [] => true
  | i :: is => i.isSound && areSound is

def isSoundTable : List (String × Item) → Bool
  | [] => true
  | (k, item) :: es =>
    if k = momentKey then
      match item with
      | .text t => isMoment t.toList
      | _ => false
    else item.isSound && areSoundEntries es

def areSoundEntries : List (String × Item) → Bool
  | [] => true
  | (_, item) :: es => item.isSound && areSoundEntries es

def areSoundTables : List (List (String × Item)) → Bool
  | [] => true
  | es :: rest => isSoundTable es && areSoundTables rest

end

end KeyAudit.Toml

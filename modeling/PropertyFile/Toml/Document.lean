import PropertyFile.Toml.Branch

/-!
# Putting a document together

A TOML document is a list of **statements**: assignments and headers. An
assignment belongs to the header before it. A header opens a
**section**, which goes on with the headers of tables below its own: they
open sections inside it. Any other header closes it — but the header of
the same array of tables, which begins a further item of it.

A section that is closed becomes an entry of the section around it, or
of the document. What contradicts an entry of the document itself makes
the text no document (`Fault.malformed`); what contradicts an entry of a
section, or is noticed when all is joined, is reported as the conflict
that it is.
-/

namespace PropertyFile.Toml

/-- What a document says. -/
inductive Statement where
  /-- The value of a key in the open table. -/
  | assign (path : KeyPath) (v : Value)
  /-- The header of a table, or of the next item of an array of
  tables. -/
  | header (array : Bool) (path : KeyPath)

/-- The keys of a statement. -/
def Statement.path : Statement → KeyPath
  | .assign path _ => path
  | .header _ path => path

/-- The entry that an assignment makes. -/
def assigned (path : KeyPath) (v : Value) : Text × Node :=
  (path.headD [], Node.under .dotted (path.drop 1) (.value v))

/-- A bound on how deep tables lie below some paths, with two steps for
each of them. -/
def depthOf (paths : List KeyPath) : Nat := paths.foldl (fun n path => n + 2 * path.length) 2

/-! ## Sections -/

/-- A table that is being written under a header. -/
structure Section where
  /-- The keys that lead to it. -/
  path : KeyPath
  /-- The first of those keys that does not lead to the section around
  it. -/
  key : Text
  /-- The keys behind that one. -/
  below : KeyPath
  /-- Whether it is an item of an array of tables. -/
  array : Bool
  /-- The items before it. -/
  items : List Branch := []
  /-- Its entries so far. -/
  content : Branch := []

namespace Section

/-- The section of a header, inside one that `outer` keys lead to. -/
def ofHeader (array : Bool) (path : KeyPath) (outer : Nat) : Section :=
  { path, key := (path.drop outer).headD [], below := path.drop (outer + 1), array }

/-- Whether a path leads below the section. -/
def holds (s : Section) (path : KeyPath) : Bool :=
  s.path.isPrefixOf path && s.path.length < path.length

/-- Whether a header begins a further item of the array that the section
is an item of. Only an array that lies directly in the section around it
goes on in this way. Where there are tables in between, each item is a
section of its own, and the arrays become one when they are put
together. -/
def isFollowedBy (s : Section) (array : Bool) (path : KeyPath) : Bool :=
  s.array && array && s.below.isEmpty && s.path = path

/-- The section with a further item begun. -/
def next (s : Section) : Section := { s with items := s.items ++ [s.content], content := [] }

/-- The entry that the section comes to. -/
def entry (s : Section) : Text × Node :=
  let n : Node := if s.array then .tables (s.items ++ [s.content]) else .table .opened s.content
  (s.key, Node.under .implied s.below n)

/-- The section with a further entry. -/
def put (depth : Nat) (strict : Bool) (s : Section) (e : Text × Node) : Except Fault Section :=
  ((s.content.put depth strict e).mapError .conflict).map fun content => { s with content }

/-- Checks a section that comes to its end. -/
def check (depth : Nat) (s : Section) : Except Fault Unit :=
  (s.content.checkAll depth).mapError .conflict

end Section

/-! ## The document -/

/-- A document while it is put together. -/
structure Document where
  /-- The entries of the document. -/
  root : Branch := []
  /-- The open sections, the innermost first. -/
  sections : List Section := []

namespace Document

/-- The entries of the document with a further one. -/
def putRoot (depth : Nat) (root : Branch) (e : Text × Node) : Except Fault Branch :=
  (root.put depth true e).mapError fun _ => .malformed

/-- Opens the section of a header, given the innermost section and those
around it. Sections that the header does not belong to are closed. -/
def enterFrom (depth : Nat) (array : Bool) (path : KeyPath) (root : Branch) (s : Section)
    (outer : List Section) : Except Fault Document :=
  if s.holds path then .ok ⟨root, .ofHeader array path s.path.length :: s :: outer⟩
  else do
    s.check depth
    if s.isFollowedBy array path then return ⟨root, s.next :: outer⟩
    else
      match outer with
      | [] => return ⟨← putRoot depth root s.entry, [.ofHeader array path 0]⟩
      | o :: rest => enterFrom depth array path root (← o.put depth false s.entry) rest

/-- **Opens the section of a header.** -/
def enter (depth : Nat) (array : Bool) (path : KeyPath) (d : Document) : Except Fault Document :=
  match d.sections with
  | [] => .ok { d with sections := [.ofHeader array path 0] }
  | s :: outer => enterFrom depth array path d.root s outer

/-- Closes all sections, given the innermost one and those around it. -/
def closeFrom (depth : Nat) (root : Branch) (s : Section) (outer : List Section) :
    Except Fault Branch := do
  s.check depth
  match outer with
  | [] => putRoot depth root s.entry
  | o :: rest => closeFrom depth root (← o.put depth false s.entry) rest

/-- The entries of the document with all sections closed. -/
def close (depth : Nat) (d : Document) : Except Fault Branch :=
  match d.sections with
  | [] => .ok d.root
  | s :: outer => closeFrom depth d.root s outer

/-- The document with a further assignment. -/
def assign (depth : Nat) (path : KeyPath) (v : Value) (d : Document) : Except Fault Document :=
  match d.sections with
  | [] => (putRoot depth d.root (assigned path v)).map fun root => { d with root }
  | s :: outer =>
    (s.put depth true (assigned path v)).map fun s => { d with sections := s :: outer }

/-- **The document with a further statement.** -/
def add (depth : Nat) (d : Document) : Statement → Except Fault Document
  | .assign path v => d.assign depth path v
  | .header array path => d.enter depth array path

end Document

/-- **The table that statements make.** If a fault stands behind them, it
counts unless they contain one before. -/
def tableOf (statements : List Statement) (fault : Option Fault) : Except Fault Table := do
  let depth := depthOf (statements.map Statement.path)
  let d ← statements.foldlM (Document.add depth) {}
  match fault with
  | some f => .error f
  | none =>
    let root ← d.close depth
    (root.finish depth).mapError .conflict

/-- **The inline table that assignments make.** -/
def inlineTable (assignments : List (KeyPath × Value)) : Except Conflict Table := do
  let depth := depthOf (assignments.map Prod.fst)
  let b ← assignments.foldlM (fun b (path, v) => Branch.put depth true b (assigned path v)) []
  Branch.finish depth b

end PropertyFile.Toml

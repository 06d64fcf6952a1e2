import PropertyFile.Toml.Fault
import PropertyFile.Toml.Value

/-!
# Tables in pieces

A table of a TOML document need not be written in one place. It is
written by a header of its own, by the headers of tables in it, and by
dotted keys (`Origin`), and other tables may be written in between. So a
table is kept as its **pieces**, in the order in which they stand: a
`Branch` may hold a key more than once, each time with a further piece.

Contradictions are looked for at three times:

* a new piece is compared with the last piece of its key
  (`Branch.put`), and where it follows that piece directly, and both are
  there for the tables in them only, the two become one;
* when a further piece has come in, the pieces of the key are gone
  through together, and those of the keys in them (`Branch.check`);
* at the end the pieces are joined (`Branch.finish`).

None of these makes another one superfluous. A piece may be at peace
with the one before it and not with an earlier one; and pieces that have
become one are not gone through again.
-/

namespace PropertyFile.Toml

/-- How a piece of a table came about. -/
inductive Origin where
  /-- It stands on the way of a header. -/
  | implied
  /-- It stands on the way of a dotted key. -/
  | dotted
  /-- A header opened it. -/
  | opened
deriving DecidableEq, Repr

/-- What stands at a key while a document is put together. -/
inductive Node where
  /-- A value, inline tables and arrays included. -/
  | value (v : Value)
  /-- A piece of a table. -/
  | table (origin : Origin) (entries : List (Text × Node))
  /-- An array of tables, the last of which is open. -/
  | tables (items : List (List (Text × Node)))
deriving Inhabited, Repr

/-- The entries of a table while a document is put together. -/
abbrev Branch := List (Text × Node)

/-- Keys that lead from a table to what is below it. -/
abbrev KeyPath := List Text

namespace Node

/-- Whether a node is a piece of a table. -/
def isTable : Node → Bool
  | .table _ _ => true
  | _ => false

/-- The entries of a piece of a table; nothing else has any. -/
def entries : Node → Branch
  | .table _ entries => entries
  | _ => []

/-- A node that some keys lead to, with tables of the given origin on the
way. -/
def under (origin : Origin) (path : KeyPath) (n : Node) : Node :=
  path.foldr (fun key n => .table origin [(key, n)]) n

end Node

namespace Branch

/-- The keys of a branch, in the order in which they first occur. -/
def keys (b : Branch) : List Text := (b.map Prod.fst).eraseDups

/-- The last piece of a key. -/
def last? (b : Branch) (key : Text) : Option Node := b.reverse.lookup key

/-- The key of the last piece of a table. -/
def lastTable? (b : Branch) : Option Text := (b.reverse.find? fun e => e.2.isTable).map Prod.fst

/-- The branch with the last piece of a key replaced. -/
def replaceLast (key : Text) (n : Node) : Branch → Branch
  | [] => []
  | e :: rest =>
    if e.1 = key && !(rest.any fun e => e.1 = key) then (key, n) :: rest
    else e :: replaceLast key n rest

/-- The pieces of a key in order. -/
def pieces (b : Branch) (key : Text) : List Node := (b.filter fun e => e.1 = key).map Prod.snd

/-- The entries of the pieces of a table one behind the other. -/
def contents (b : Branch) (key : Text) : Branch := (b.pieces key).flatMap Node.entries

mutual

/-- **The branch with a further entry.** Values stand alone at their key.
Arrays of tables at one key are one array, and what is below an array
goes to its last item. Of a table there may be any pieces but two that a
header opened, or one of these and a dotted one. With `strict` the
pieces are gone through if there are several now. No table lies deeper
than `depth` in the branch. -/
def put (depth : Nat) (strict : Bool) (b : Branch) (e : Text × Node) : Except Conflict Branch :=
  match depth with
  | 0 => .ok (b ++ [e])
  | depth + 1 =>
    let further : Except Conflict Branch :=
      if strict then (check depth e.1 (b ++ [e])).map fun _ => b ++ [e] else .ok (b ++ [e])
    match b.last? e.1, e.2 with
    | none, _ => .ok (b ++ [e])
    | some (.tables items), .tables more => .ok (replaceLast e.1 (.tables (items ++ more)) b)
    | some (.tables items), .table .implied new =>
      (new.foldlM (put depth true) (items.getLast?.getD [])).map fun item =>
        replaceLast e.1 (.tables (items.dropLast ++ [item])) b
    | some (.tables _), .table .dotted _ => .error .reopened
    | some (.table .implied old), .table .implied new =>
      if b.lastTable? = some e.1 then
        (new.foldlM (put depth true) old).map fun entries =>
          replaceLast e.1 (.table .implied entries) b
      else further
    | some (.table .opened _), .table .opened _ => .error (.taken e.1)
    | some (.table .opened _), .table .dotted _ => .error .reopened
    | some (.table .dotted _), .table .opened _ => .error .reopened
    | some (.table _ _), .table _ _ => further
    | _, _ => .error (.taken e.1)

/-- **Goes through the pieces of a key**, and those of the keys in them:
they have to be such that they could stand one behind the other. -/
def check (depth : Nat) (key : Text) (b : Branch) : Except Conflict Unit :=
  match depth with
  | 0 => .ok ()
  | depth + 1 =>
    if (b.pieces key).length ≤ 1 then .ok ()
    else do
      let inner ← (b.contents key).foldlM (put depth false) []
      inner.keys.forM fun key => check depth key inner

end

/-- Goes through the pieces of all keys. -/
def checkAll (depth : Nat) (b : Branch) : Except Conflict Unit :=
  b.keys.forM fun key => check depth key b

/-! ## The finished table -/

/-- The entries of joined pieces with a further entry. Pieces of tables
stay pieces, arrays of tables become one; nothing else may follow a
value or an array. What follows a piece of a table and is none is passed
over later on. -/
def join (b : Branch) (e : Text × Node) : Except Conflict Branch :=
  match b.last? e.1, e.2 with
  | none, _ => .ok (b ++ [e])
  | some (.table _ _), _ => .ok (b ++ [e])
  | some (.tables items), .tables more => .ok (replaceLast e.1 (.tables (items ++ more)) b)
  | _, _ => .error (.taken e.1)

/-- **The table that has been put together**, its pieces joined, with the
keys in the order in which they first occur. -/
def finish (depth : Nat) (b : Branch) : Except Conflict Table :=
  match depth with
  | 0 => .ok []
  | depth + 1 =>
    b.keys.mapM fun key =>
      match b.pieces key with
      | [.value v] => .ok (key, v)
      | [.tables items] =>
        (items.mapM fun item => (finish depth item).map Value.table).map fun vs => (key, .array vs)
      | [.table _ entries] => (finish depth entries).map fun t => (key, .table t)
      | _ => do
        let inner ← (b.contents key).foldlM join []
        let t ← finish depth inner
        return (key, .table t)

end Branch

end PropertyFile.Toml

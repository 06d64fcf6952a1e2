import PropertyFile.CommandLine.Show

/-!
# Editing files

A property of a file is edited in a store that is loaded from the file,
so that everything else in it stays as it is. What comes out is a
**revision** (`Revision`): the text of the file, and the text it is to
have. It is either shown as a diff, or written; planning it writes
nothing.
-/

namespace PropertyFile.CommandLine

/-- What an edit does to a file. -/
structure Revision where
  /-- The file. -/
  file : Path
  /-- The name of its encoding. -/
  encoding : Text
  /-- Its text. -/
  before : Text
  /-- The text it is to have. -/
  after : Text
deriving DecidableEq, Repr

/-- A comment given on one line, with its line breaks written `\n`. -/
def commentLines : Text → Text
  | [] => []
  | '\\' :: 'n' :: rest => '\n' :: commentLines rest
  | c :: rest => c :: commentLines rest

/-- The store after an edit; none if the property to be edited has to be
there and is not. -/
def Edit.apply (e : Edit) (st : Store) : Option Store :=
  match e with
  | .set key value comment add =>
    let st := st.mutate (if add then .add key (.one value) else .set key (.one value))
    some (match comment with
      | none => st
      | some c => { st with layout := st.layout.setComment key (some (commentLines c)) })
  | .unset key => if st.values.contains key then some (st.mutate (.remove key)) else none

/-- The key that an edit is about. -/
def Edit.key : Edit → Text
  | .set key _ _ _ => key
  | .unset key => key

/-- What the log says of an edit. -/
def Edit.log (p : Path) : Edit → List Message
  | .set key _ _ add =>
    [.log (Log.info ((if add then "Added " else "Set ") ++ Text.str key ++ " in " ++
      Text.str p.toText))]
  | .unset _ => []

namespace Revision

/-- **What an edit does to a file**; none if there is no property to be
edited. -/
def plan (s : Scene) (p : Path) (e : Edit) (c : ConfigChoice) : Step (Option Revision) := do
  let settings ← s.settings c p
  let before ← s.readText settings p
  let st ← s.loadStore settings false p
  match e.apply st with
  | none =>
    .report (missingKey p e.key)
    return none
  | some st =>
    .reportAll (e.log p)
    return some { file := p, encoding := settings.encoding, before, after := st.toText }

/-- Whether a revision changes anything. -/
def isChange (r : Revision) : Bool := r.before ≠ r.after

/-- The message for a revision that changes nothing. -/
def unchanged (r : Revision) : Message := .plain (r.file.toText ++ ": unchanged".toList)

/-- The message for a revision that was written. -/
def changed (r : Revision) : Message := .plain (r.file.toText ++ ": updated".toList) .green

/-- **Showing a revision**: a diff, unless nothing changes. -/
def preview (r : Revision) : Step Outcome :=
  if r.isChange then do
    .report (.diff (Diff.patch r.before r.after r.file.toText))
    return .wouldChange
  else do
    .report r.unchanged
    return .success

/-- The files after a revision is written, and what comes of writing it. -/
def write (s : Scene) (r : Revision) : Except SaveError Unit × FileTree :=
  if r.isChange then
    s.tree.writeText s.platform.codecs s.current r.file r.encoding [r.after]
  else (.ok (), s.tree)

/-- The report of a revision that was written. -/
def confirm (r : Revision) (written : Except SaveError Unit) : Step Outcome :=
  match written with
  | .error e => stopOfSave r.file e
  | .ok () => do
    .report (if r.isChange then r.changed else r.unchanged)
    return .success

end Revision

/-- **Showing an edit.** -/
def previewEdit (s : Scene) (p : Path) (e : Edit) (c : ConfigChoice) : Step Outcome := do
  match ← Revision.plan s p e c with
  | none => return .failure
  | some r => r.preview

/-- **Making an edit.** The files are returned also where it fails. -/
def applyEdit (s : Scene) (p : Path) (e : Edit) (c : ConfigChoice) : Step Outcome × FileTree :=
  let plan := Revision.plan s p e c
  match plan.result with
  | .ok (some r) =>
    let (written, tree) := r.write s
    (do
      let _ ← plan
      r.confirm written, tree)
  | _ =>
    (do
      let _ ← plan
      return .failure, s.tree)

end PropertyFile.CommandLine

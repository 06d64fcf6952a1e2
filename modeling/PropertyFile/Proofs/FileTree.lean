import PropertyFile.Proofs.OrderedMap
import PropertyFile.Proofs.Result
import PropertyFile.Store.File

/-!
# Files that are written

Writing to a file of a tree replaces its bytes, and that is all a path
through the tree can tell: every path leads to where it led before, and
only at the file itself to other bytes (`walk_write`). What may be done
with the file stays the same.

Writing a text, on the other hand, is not one step. The file is opened
first, which empties it, and then filled with the bytes of one piece
after the other, up to a piece that has none. So what went wrong tells
how the file is left: as it was, if it could not be opened
(`SaveError.IsEarly`), and with the bytes of the pieces before the fault
otherwise (`writeText_cases`, `Codec.exists_of_write_fault`).
-/

namespace PropertyFile

/-! ## Paths through a tree after a write -/

namespace FileTree

variable {tree : FileTree} {current l l' : Location} {p : Path} {bytes : List UInt8}

/-- Where a file lies, writing replaces its bytes. -/
theorem write_of_isSome (h : (tree.bytes? l).isSome) (bytes : List UInt8) :
    tree.write l bytes = { tree with files := OrderedMap.put l bytes tree.files } := by
  rw [write, Option.isNone_eq_false_iff.2 h]
  rfl

/-- A sink stays as it is. -/
theorem write_of_sink (h : tree.bytes? l = none) (hsink : l ∈ tree.sinks) (bytes : List UInt8) :
    tree.write l bytes = tree := by
  simp [write, h, hsink]

theorem bytes?_write (h : (tree.bytes? l).isSome) (l' : Location) (bytes : List UInt8) :
    (tree.write l bytes).bytes? l' = if l' = l then some bytes else tree.bytes? l' := by
  rw [write_of_isSome h]
  exact OrderedMap.lookup_put l l' bytes tree.files

@[simp] theorem mode_write (tree : FileTree) (l l' : Location) (bytes : List UInt8) :
    (tree.write l bytes).mode l' = tree.mode l' := by
  rw [write]
  split <;> rfl

@[simp] theorem sinks_write (tree : FileTree) (l : Location) (bytes : List UInt8) :
    (tree.write l bytes).sinks = tree.sinks := by
  rw [write]
  split <;> rfl

theorem isSome_bytes?_write (h : (tree.bytes? l).isSome) (bytes : List UInt8) (l' : Location) :
    ((tree.write l bytes).bytes? l').isSome = (tree.bytes? l').isSome := by
  rw [bytes?_write h]
  by_cases h' : l' = l
  · subst h'
    rw [if_pos rfl, h]
    rfl
  · rw [if_neg h']

/-- Directories are told from the places of the files alone. -/
theorem isDirectory_write (h : (tree.bytes? l).isSome) (bytes : List UInt8) (l' : Location) :
    (tree.write l bytes).isDirectory l' = tree.isDirectory l' := by
  have hany : ∀ files : List (Location × List UInt8),
      (files.any fun e => l'.isPrefixOf e.1 && l' ≠ e.1)
        = (files.map Prod.fst).any fun file => l'.isPrefixOf file && l' ≠ file := by
    intro files
    rw [List.any_map]
    rfl
  obtain ⟨held, hheld⟩ := Option.isSome_iff_exists.1 h
  have hfiles : ((OrderedMap.put l bytes tree.files).any fun e => l'.isPrefixOf e.1 && l' ≠ e.1)
      = tree.files.any fun e => l'.isPrefixOf e.1 && l' ≠ e.1 := by
    rw [hany, OrderedMap.keys_put, if_pos (Sources.mem_of_lookup hheld), ← hany]
  rw [write_of_isSome h]
  exact congrArg (fun b => l'.isEmpty || tree.directories.any (l'.isPrefixOf ·) ||
    tree.sinks.any (fun sink => l'.isPrefixOf sink && l' ≠ sink) || b) hfiles

/-- What a path leads to after the bytes of the file at `l` are
replaced. -/
def Target.rewritten (l : Location) (bytes : List UInt8) : Target → Target
  | .file l' held => .file l' (if l' = l then bytes else held)
  | t => t

/-- **A write moves nothing.** Every way through the tree ends where it
ended before, and at the file that is written with the new bytes. -/
theorem walkFrom_write (h : (tree.bytes? l).isSome) (bytes : List UInt8) (start : Location)
    (names : List Text) :
    (tree.write l bytes).walkFrom start names
      = (tree.walkFrom start names).rewritten l bytes := by
  induction names generalizing start with
  | nil =>
    cases hbytes : tree.bytes? start with
    | some held =>
      have hnew : (tree.write l bytes).bytes? start = some (if start = l then bytes else held) := by
        rw [bytes?_write h, hbytes, apply_ite some]
      rw [walkFrom, walkFrom, hnew, hbytes]
      rfl
    | none =>
      -- the file that is written is there, so it lies elsewhere
      have hl : start ≠ l := by
        rintro rfl
        simp [hbytes] at h
      rw [walkFrom, walkFrom, bytes?_write h, if_neg hl, hbytes, isDirectory_write h, sinks_write]
      simp only [apply_ite (Target.rewritten l bytes)]
      rfl
  | cons name rest ih =>
    rw [walkFrom, walkFrom, isSome_bytes?_write h, isDirectory_write h, sinks_write, mode_write, ih]
    simp only [apply_ite (Target.rewritten l bytes)]
    rfl

theorem walk_write (h : (tree.bytes? l).isSome) (bytes : List UInt8) (current : Location)
    (p : Path) :
    (tree.write l bytes).walk current p = (tree.walk current p).rewritten l bytes := by
  rw [walk, walk, walkFrom_write h, apply_ite (Target.rewritten l bytes)]
  rfl

theorem bytes?_of_walkFrom {start : Location} {names : List Text}
    (h : tree.walkFrom start names = .file l bytes) : tree.bytes? l = some bytes := by
  induction names generalizing start with
  | nil =>
    rw [walkFrom] at h
    split at h
    · next held hheld =>
      cases h
      exact hheld
    · repeat' split at h
      all_goals cases h
  | cons name rest ih =>
    rw [walkFrom] at h
    repeat' split at h
    all_goals first | cases h | exact ih h

/-- A path to a file leads to its bytes. -/
theorem bytes?_of_walk (h : tree.walk current p = .file l bytes) :
    tree.bytes? l = some bytes := by
  rw [walk] at h
  split at h
  · cases h
  · exact bytes?_of_walkFrom h

theorem mem_sinks_of_walkFrom {start : Location} {names : List Text}
    (h : tree.walkFrom start names = .sink l) : tree.bytes? l = none ∧ l ∈ tree.sinks := by
  induction names generalizing start with
  | nil =>
    rw [walkFrom] at h
    split at h
    · cases h
    · next hnone =>
      split at h
      · next hsink =>
        cases h
        exact ⟨hnone, List.contains_iff_mem.1 hsink⟩
      · split at h <;> cases h
  | cons name rest ih =>
    rw [walkFrom] at h
    repeat' split at h
    all_goals first | cases h | exact ih h

/-- A path to a sink leads to no file. -/
theorem mem_sinks_of_walk (h : tree.walk current p = .sink l) :
    tree.bytes? l = none ∧ l ∈ tree.sinks := by
  rw [walk] at h
  split at h
  · cases h
  · exact mem_sinks_of_walkFrom h

end FileTree

/-! ## Reading files -/

namespace FileTree

variable {tree : FileTree} {current : Location} {p : Path} {bytes : List UInt8}

/-- **What can be read**: a file that may be read, and nothing from a
sink. -/
def Holds (tree : FileTree) (current : Location) (p : Path) (bytes : List UInt8) : Prop :=
  ∃ l, (tree.mode l).read = true ∧
    (tree.walk current p = .file l bytes ∨ tree.walk current p = .sink l ∧ bytes = [])

theorem read_eq_ok_iff : tree.read current p = .ok bytes ↔ tree.Holds current p bytes := by
  have hif : ∀ {b : Bool} {x : Except FileFault (List UInt8)},
      ((if b then x else .error .denied) = .ok bytes) ↔ (b = true ∧ x = .ok bytes) := by
    intro b x
    cases b <;> simp
  rw [read, mapError_eq_ok_iff, Holds]
  cases tree.walk current p with
  | file l held =>
    rw [contents, hif]
    constructor
    · rintro ⟨hl, ⟨⟩⟩
      exact ⟨l, hl, .inl rfl⟩
    · rintro ⟨_, hl, ⟨⟨⟩⟩ | ⟨⟨⟩, -⟩⟩
      exact ⟨hl, rfl⟩
  | sink l =>
    rw [contents, hif]
    constructor
    · rintro ⟨hl, ⟨⟩⟩
      exact ⟨l, hl, .inr ⟨rfl, rfl⟩⟩
    · rintro ⟨_, hl, ⟨⟨⟩⟩ | ⟨⟨⟩, rfl⟩⟩
      exact ⟨hl, rfl⟩
  | directory l => simp [contents, hif]
  | vacant l | fault f => simp [contents]

theorem readBytes_eq_ok_iff :
    tree.readBytes current p = .ok bytes
      ↔ p.toText.contains '\x00' = false ∧ tree.Holds current p bytes := by
  rw [readBytes, ← read_eq_ok_iff]
  cases p.toText.contains '\x00' with
  | true => simp
  | false => exact mapError_eq_ok_iff.trans (and_iff_right rfl).symm

theorem readText_eq_ok_iff {codecs : Codecs} {encoding t : Text} :
    tree.readText codecs current p encoding = .ok t
      ↔ encoding.contains '\x00' = false ∧ ∃ bytes c, tree.readBytes current p = .ok bytes ∧
          codecs encoding = .ok c ∧ c.decode bytes = .ok t := by
  rw [readText]
  cases encoding.contains '\x00' with
  | true => simp
  | false =>
    cases tree.readBytes current p with
    | error fault => simp [Except.bind]
    | ok held =>
      show textOfBytes codecs encoding held = .ok t ↔ _
      rw [textOfBytes]
      cases codecs encoding with
      | error reason => simp
      | ok c =>
        show (c.decode held).mapError _ = .ok t ↔ _
        simp [mapError_eq_ok_iff]

end FileTree

/-! ## The bytes of pieces -/

namespace Codec

variable {c : Codec} {t : Text} {reason : String}

theorem exists_of_writeBehind_fault {written pieces : List Text}
    (h : (c.writeBehind written pieces).2 = some reason) :
    ∃ before piece rest, pieces = before ++ piece :: rest ∧
      c.encode (written ++ before) piece = .error reason ∧
      c.writeBehind written before = ((c.writeBehind written pieces).1, none) := by
  induction pieces generalizing written with
  | nil => cases h
  | cons piece rest ih =>
    rw [writeBehind] at h ⊢
    cases hpiece : c.encode written piece with
    | error reason' =>
      rw [hpiece] at h
      obtain rfl : reason' = reason := Option.some.inj h
      exact ⟨[], piece, rest, rfl, by rw [List.append_nil, hpiece], rfl⟩
    | ok bytes =>
      rw [hpiece] at h
      obtain ⟨before, piece', rest', rfl, hfault, hbefore⟩ := ih h
      refine ⟨piece :: before, piece', rest', rfl, ?_, ?_⟩
      · rwa [← List.append_cons] at hfault
      · rw [writeBehind, hpiece]
        simp only [hbefore]

/-- **What a fault leaves behind.** Where a file is written in pieces and
one of them has no bytes, the file holds what the pieces before that one
come to, and nothing else. -/
theorem exists_of_write_fault {pieces : List Text} (h : (c.write pieces).2 = some reason) :
    ∃ before piece rest, pieces = before ++ piece :: rest ∧ c.encode before piece = .error reason ∧
      c.write before = ((c.write pieces).1, none) :=
  exists_of_writeBehind_fault h

/-- A single text is written as a whole or not at all. -/
theorem write_singleton_of_error (h : c.encode [] t = .error reason) :
    c.write [t] = ([], some reason) := by
  rw [write, writeBehind, h]

theorem write_singleton_of_ok {bytes : List UInt8} (h : c.encode [] t = .ok bytes) :
    c.write [t] = (bytes, none) := by
  simp [write, writeBehind, h]

end Codec

/-! ## Writing texts -/

/-- Whether a file was not opened to be written, since it could not be. -/
def SaveError.IsEarly : SaveError → Prop
  | .file _ | .path _ | .encoding .nullCharacter => True
  | .unencodable _ | .encoding (.unknown _) => False

namespace FileTree

/-- The bytes of a file that was opened to be written in the given
pieces: all of them, or those before a fault. -/
def writtenBytes (codecs : Codecs) (encoding : Text) (pieces : List Text) : List UInt8 :=
  match codecs encoding with
  | .error _ => []
  | .ok c => (c.write pieces).1

variable {codecs : Codecs} {tree : FileTree} {current l : Location} {p : Path}
  {bytes : List UInt8}

theorem writable_of_walk (h : tree.walk current p = .file l bytes) :
    tree.writable current p
      = if (tree.mode l).write then .ok l else .error ⟨.denied, p.toText⟩ := by
  rw [writable, h, outlet]
  split <;> rfl

theorem writable_of_sink (h : tree.walk current p = .sink l) :
    tree.writable current p
      = if (tree.mode l).write then .ok l else .error ⟨.denied, p.toText⟩ := by
  rw [writable, h, outlet]
  split <;> rfl

/-- **Writing either finds no file to open, or replaces one.** In the
second case the file holds what was written, be it all of it or not. -/
theorem writeText_cases (codecs : Codecs) (tree : FileTree) (current : Location) (p : Path)
    (encoding : Text) (pieces : List Text) :
    (∃ e : SaveError, e.IsEarly ∧
        tree.writeText codecs current p encoding pieces = (.error e, tree))
      ∨ ∃ written l, tree.writable current p = .ok l ∧
          tree.writeText codecs current p encoding pieces
            = (written, tree.write l (writtenBytes codecs encoding pieces)) ∧
          ∀ e, written = .error e → ¬ e.IsEarly := by
  rw [writeText]
  by_cases hencoding : encoding.contains '\x00' = true
  · rw [if_pos hencoding]
    exact .inl ⟨.encoding .nullCharacter, trivial, rfl⟩
  rw [if_neg hencoding]
  by_cases hnull : p.toText.contains '\x00' = true
  · rw [if_pos hnull]
    exact .inl ⟨.path .nullCharacter, trivial, rfl⟩
  rw [if_neg hnull]
  cases hl : tree.writable current p with
  | error e => exact .inl ⟨.file e, trivial, rfl⟩
  | ok l =>
    cases hcodec : codecs encoding with
    | error reason =>
      have hbytes : writtenBytes codecs encoding pieces = [] := by rw [writtenBytes, hcodec]
      refine .inr ⟨.error (.encoding (.unknown reason)), l, rfl, by rw [hbytes], ?_⟩
      rintro _ ⟨⟩
      exact id
    | ok c =>
      have hbytes : writtenBytes codecs encoding pieces = (c.write pieces).1 := by
        rw [writtenBytes, hcodec]
      cases hfault : (c.write pieces).2 with
      | none => exact .inr ⟨.ok (), l, rfl, by simp [hbytes, hfault], fun _ h => nomatch h⟩
      | some reason =>
        refine .inr ⟨.error (.unencodable reason), l, rfl, by simp [hbytes, hfault], ?_⟩
        rintro _ ⟨⟩
        exact id

end FileTree

/-- **A store that is not saved.** The file keeps what it held if it could
not be opened, or if it held just what was written up to the fault. -/
theorem Store.walk_saveFile_iff {codecs : Codecs} {st : Store} {tree tree' : FileTree}
    {current l : Location} {p : Path} {bytes : List UInt8} {e : SaveError}
    (hfile : tree.walk current p = .file l bytes)
    (hsave : st.saveFile codecs tree current p = (.error e, tree')) :
    tree'.walk current p = .file l bytes
      ↔ e.IsEarly ∨ bytes = FileTree.writtenBytes codecs st.options.encoding st.pieces := by
  have hl : (tree.bytes? l).isSome := by rw [FileTree.bytes?_of_walk hfile]; rfl
  rw [saveFile] at hsave
  obtain ⟨e', hearly, hwrite⟩ | ⟨written, l', hl', hwrite, hlate⟩ :=
    tree.writeText_cases codecs current p st.options.encoding st.pieces
  · obtain ⟨rfl, rfl⟩ : e' = e ∧ tree = tree' := by simpa using hwrite.symm.trans hsave
    exact ⟨fun _ => .inl hearly, fun _ => hfile⟩
  · obtain ⟨hwritten, rfl⟩ := Prod.mk.inj (hwrite.symm.trans hsave)
    obtain rfl : l = l' := by
      rw [FileTree.writable_of_walk hfile] at hl'
      split at hl' <;> cases hl'
      rfl
    rw [FileTree.walk_write hl, hfile]
    simp [FileTree.Target.rewritten, hlate e hwritten, eq_comm]

end PropertyFile

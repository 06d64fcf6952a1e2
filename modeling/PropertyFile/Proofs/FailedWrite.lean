import PropertyFile.CommandLine.Execution
import PropertyFile.Proofs.FileTree
import PropertyFile.StandardPlatform

/-!
# Writes that fail

An edit that fails should leave its file alone. What a failing run does to
the files is settled here for every way in which it can fail: in finding
the settings, in reading, decoding and parsing the file, in the edit
itself, and in opening and writing the file; and for all codecs.

The text of a revision is written as one piece, so nothing of it is
written where its codec has no bytes for it. But by then the file was
opened, and is empty. So a failing run leaves all files as they were,
except that one (`applyEdit_cases`, `Command.run_cases`): what was in it
is lost, unless that was nothing (`run_walk_iff`). A store that is saved
to a file is written in many pieces, and those before the fault are what
is left of the file (`Store.walk_saveFile_iff`).
-/

namespace PropertyFile.CommandLine

/-! ## What is asked for -/

/-- **A run does what its command does, or nothing**: it may fail before
the command begins. -/
theorem Invocation.run_cases (site : Site) (i : Invocation) :
    ((∀ level, levelOf i.shared site.env ≠ .ok level) ∧ (i.run site).tree = site.tree)
      ∨ ∃ level k, levelOf i.shared site.env = .ok level ∧
          i.run site = RunEnding.ofStep k (i.command.run (site.scene i.shared)).2
            (i.command.run (site.scene i.shared)).1 := by
  rw [run, Shared.start]
  cases levelOf i.shared site.env with
  | error stop => exact .inl ⟨nofun, rfl⟩
  | ok level => exact .inr ⟨level, _, rfl, rfl⟩

/-- Whether a run fails: it ends with a code other than zero or breaks
down. -/
def RunEnding.Fails (ending : RunEnding) : Prop :=
  ending.code ≠ 0 ∨ ending.breakdown.isSome

instance (ending : RunEnding) : Decidable ending.Fails :=
  inferInstanceAs (Decidable (_ ∨ _))

theorem RunEnding.result_ne_success_of_fails {k : Look} {tree : FileTree} {x : Step Outcome}
    (h : (RunEnding.ofStep k tree x).Fails) : x.result ≠ .ok .success := by
  intro hx
  rw [Fails, ofStep, hx] at h
  exact h.elim (fun hcode => hcode rfl) (fun hbreakdown => nomatch hbreakdown)

/-! ## Edits -/

theorem result_stopOfLoad_ne_ok {α : Type} (p : Path) (e : LoadError) (a : α) :
    (stopOfLoad p e : Step α).result ≠ .ok a := by
  cases e with
  | file fault =>
    obtain ⟨fault, path⟩ := fault
    cases fault <;> exact fun h => nomatch h
  | undecodable _ | parse _ | notFound _ _ | cycle _ _ | path _ | encoding _ =>
    exact fun h => nomatch h

/-- A text that was read is that of a file, in the encoding of the
settings. -/
theorem Scene.readText_spec {s : Scene} {settings : Settings} {p : Path} {t : Text}
    (h : (s.readText settings p).result = .ok t) :
    settings.encoding.contains '\x00' = false ∧
      ∃ bytes c, s.tree.readBytes s.current p = .ok bytes ∧
        s.platform.codecs settings.encoding = .ok c ∧ c.decode bytes = .ok t := by
  rw [Scene.readText] at h
  cases hread : s.tree.readText s.platform.codecs s.current p settings.encoding with
  | error e =>
    rw [hread] at h
    exact absurd h (result_stopOfLoad_ne_ok p e t)
  | ok t' =>
    rw [hread] at h
    cases h
    exact FileTree.readText_eq_ok_iff.1 hread

/-- What is planned for a file was read from it. -/
theorem Revision.plan_spec {s : Scene} {p : Path} {e : Edit} {c : ConfigChoice} {r : Revision}
    (h : (plan s p e c).result = .ok (some r)) :
    r.file = p ∧ r.encoding.contains '\x00' = false ∧
      ∃ bytes codec, s.tree.readBytes s.current p = .ok bytes ∧
        s.platform.codecs r.encoding = .ok codec ∧ codec.decode bytes = .ok r.before := by
  obtain ⟨settings, -, h⟩ := Reporting.result_bind_eq_ok_iff.1 h
  obtain ⟨before, hbefore, h⟩ := Reporting.result_bind_eq_ok_iff.1 h
  obtain ⟨st, -, h⟩ := Reporting.result_bind_eq_ok_iff.1 h
  cases hst : e.apply st with
  | none =>
    rw [hst] at h
    obtain ⟨u, -, h⟩ := Reporting.result_bind_eq_ok_iff.1 h
    cases h
  | some st' =>
    rw [hst] at h
    obtain ⟨u, -, h⟩ := Reporting.result_bind_eq_ok_iff.1 h
    cases h
    exact ⟨rfl, Scene.readText_spec hbefore⟩

/-- A revision that changes something is written over the file it was
made of, if that may be written. -/
theorem Revision.write_of_isChange {s : Scene} {r : Revision} {codec : Codec}
    (hchange : r.isChange) (hencoding : r.encoding.contains '\x00' = false)
    (hpath : r.file.toText.contains '\x00' = false)
    (hcodec : s.platform.codecs r.encoding = .ok codec) :
    r.write s
      = match s.tree.writable s.current r.file with
        | .error e => (.error (.file e), s.tree)
        | .ok l =>
          (match (codec.write [r.after]).2 with
            | some reason => .error (.unencodable reason)
            | none => .ok (), s.tree.write l (codec.write [r.after]).1) := by
  rw [write, if_pos hchange, FileTree.writeText, hencoding, hpath]
  cases s.tree.writable s.current r.file with
  | error e => rfl
  | ok l =>
    simp only [hcodec]
    rfl

/-- Whether a command is to give the file at a location, which may be
written, a text for which the codec of the file has no bytes. -/
def Command.IsUnwritable (s : Scene) (l : Location) : Command → Prop
  | .edit file e true config => ∃ r codec held reason,
      (Revision.plan s file e config).result = .ok (some r) ∧ r.isChange ∧
      s.tree.walk s.current file = .file l held ∧ (s.tree.mode l).write = true ∧
      s.platform.codecs r.encoding = .ok codec ∧ codec.encode [] r.after = .error reason
  | _ => False

/-- **Writing a revision** succeeds, leaves all files as they are, or
empties the file it is about. -/
theorem Revision.write_cases {s : Scene} {r : Revision} {codec : Codec} {bytes : List UInt8}
    (hencoding : r.encoding.contains '\x00' = false)
    (hread : s.tree.readBytes s.current r.file = .ok bytes)
    (hcodec : s.platform.codecs r.encoding = .ok codec) :
    (r.write s).1 = .ok ()
      ∨ ((r.write s).2 = s.tree ∧ ¬ ∃ l held reason, r.isChange ∧
          s.tree.walk s.current r.file = .file l held ∧ (s.tree.mode l).write = true ∧
          codec.encode [] r.after = .error reason)
      ∨ ∃ l held reason, r.isChange ∧ s.tree.walk s.current r.file = .file l held ∧
          (s.tree.mode l).write = true ∧ codec.encode [] r.after = .error reason ∧
          (r.write s).2 = s.tree.write l [] := by
  obtain ⟨hpath, l, -, htarget⟩ := FileTree.readBytes_eq_ok_iff.1 hread
  by_cases hunchanged : ¬ r.isChange = true
  · rw [write, if_neg hunchanged]
    exact .inl rfl
  have hchange : r.isChange = true := Decidable.not_not.1 hunchanged
  rw [write_of_isChange hchange hencoding hpath hcodec]
  -- a file and a sink may be written alike, but a sink has nothing to lose
  have hplace : s.tree.writable s.current r.file
      = if (s.tree.mode l).write then .ok l else .error ⟨.denied, r.file.toText⟩ :=
    htarget.elim FileTree.writable_of_walk fun h => FileTree.writable_of_sink h.1
  rw [hplace]
  by_cases hdenied : ¬ (s.tree.mode l).write = true
  · rw [if_neg hdenied]
    refine .inr (.inl ⟨rfl, ?_⟩)
    rintro ⟨l', held, reason, -, hwalk, hmode, -⟩
    obtain h | ⟨h, -⟩ := htarget <;> cases h.symm.trans hwalk
    exact hdenied hmode
  have hmode : (s.tree.mode l).write = true := Decidable.not_not.1 hdenied
  rw [if_pos hmode]
  cases hencode : codec.encode [] r.after with
  | ok encoded =>
    rw [Codec.write_singleton_of_ok hencode]
    exact .inl rfl
  | error reason =>
    rw [Codec.write_singleton_of_error hencode]
    obtain hwalk | ⟨hsink, -⟩ := htarget
    · exact .inr (.inr ⟨l, bytes, reason, hchange, hwalk, hmode, rfl, rfl⟩)
    · refine .inr (.inl ⟨?_, ?_⟩)
      · obtain ⟨hnone, hmem⟩ := FileTree.mem_sinks_of_walk hsink
        exact FileTree.write_of_sink hnone hmem []
      · rintro ⟨l', held, reason', -, hwalk, -⟩
        cases hsink.symm.trans hwalk

/-- **An edit succeeds, leaves all files as they are, or empties the file
it is about.** -/
theorem applyEdit_cases (s : Scene) (p : Path) (e : Edit) (c : ConfigChoice) :
    (applyEdit s p e c).1.result = .ok .success
      ∨ ((applyEdit s p e c).2 = s.tree ∧
          ∀ l, ¬ (Command.edit p e true c).IsUnwritable s l)
      ∨ ∃ l, (Command.edit p e true c).IsUnwritable s l ∧
          (applyEdit s p e c).2 = s.tree.write l [] := by
  cases hplan : (Revision.plan s p e c).result with
  | error stop =>
    refine .inr (.inl ⟨by simp [applyEdit, hplan], ?_⟩)
    rintro l ⟨r, codec, held, reason, hr, -⟩
    cases hplan.symm.trans hr
  | ok planned =>
    cases planned with
    | none =>
      -- there is no property to be edited
      refine .inr (.inl ⟨by simp [applyEdit, hplan], ?_⟩)
      rintro l ⟨r, codec, held, reason, hr, -⟩
      cases hplan.symm.trans hr
    | some r =>
      obtain ⟨rfl, hencoding, bytes, codec, hread, hcodec, -⟩ := Revision.plan_spec hplan
      have htree : (applyEdit s r.file e c).2 = (r.write s).2 := by simp [applyEdit, hplan]
      have hresult : (applyEdit s r.file e c).1.result = (r.confirm (r.write s).1).result := by
        simp only [applyEdit, hplan]
        exact (Reporting.bind_of_ok hplan _).1
      obtain hok | ⟨hsame, hnone⟩ | ⟨l, held, reason, hchange, hwalk, hmode, hencode, hempty⟩ :=
        Revision.write_cases hencoding hread hcodec
      · left
        rw [hresult, hok]
        rfl
      · refine .inr (.inl ⟨htree.trans hsame, ?_⟩)
        rintro l ⟨r', codec', held, reason, hr, hchange, hwalk, hmode, hcodec', hencode⟩
        cases hplan.symm.trans hr
        cases hcodec.symm.trans hcodec'
        exact hnone ⟨l, held, reason, hchange, hwalk, hmode, hencode⟩
      · exact .inr (.inr ⟨l,
          ⟨r, codec, held, reason, hplan, hchange, hwalk, hmode, hcodec, hencode⟩,
          htree.trans hempty⟩)

/-- There is a file that is unwritable, and no other one. -/
theorem Command.IsUnwritable.eq {s : Scene} {command : Command} {l l' : Location}
    (h : command.IsUnwritable s l) (h' : command.IsUnwritable s l') : l = l' := by
  unfold IsUnwritable at h h'
  split at h
  · obtain ⟨-, -, held, -, -, -, hwalk, -⟩ := h
    obtain ⟨-, -, held', -, -, -, hwalk', -⟩ := h'
    rw [hwalk] at hwalk'
    cases hwalk'
    rfl
  · exact h.elim

theorem Command.IsUnwritable.isSome_bytes? {s : Scene} {command : Command} {l : Location}
    (h : command.IsUnwritable s l) : (s.tree.bytes? l).isSome := by
  unfold IsUnwritable at h
  split at h
  · obtain ⟨-, -, held, -, -, -, hwalk, -⟩ := h
    rw [FileTree.bytes?_of_walk hwalk]
    rfl
  · exact h.elim

/-- What a command leaves of the files if it does not succeed. -/
theorem Command.run_cases (s : Scene) (command : Command) :
    (command.run s).1.result = .ok .success
      ∨ ((command.run s).2 = s.tree ∧ ∀ l, ¬ command.IsUnwritable s l)
      ∨ ∃ l, command.IsUnwritable s l ∧ (command.run s).2 = s.tree.write l [] := by
  cases command with
  | version _ | get _ _ _ | dump _ _ _ | check _ _ => exact .inr (.inl ⟨rfl, fun _ => id⟩)
  | edit file e apply config =>
    cases apply with
    | false => exact .inr (.inl ⟨rfl, fun _ => id⟩)
    | true => exact applyEdit_cases s file e config

/-! ## Runs -/

/-- Whether a run is to give the file at a location a text for which its
codec has no bytes: its command is, and begins. -/
def Invocation.IsUnwritable (site : Site) (l : Location) (i : Invocation) : Prop :=
  (∃ level, levelOf i.shared site.env = .ok level) ∧
    i.command.IsUnwritable (site.scene i.shared) l

/-- **What a failing run leaves of a file.** Wherever a run fails, every
file keeps what it held, with one exception: the file of an edit whose
text has no bytes in the encoding of the file keeps nothing. -/
theorem run_walk_iff {site : Site} {l : Location} {p : Path} {bytes : List UInt8}
    (hfile : site.tree.walk site.current p = .file l bytes) {i : Invocation}
    (hfails : (i.run site).Fails) :
    (i.run site).tree.walk site.current p = .file l bytes
      ↔ bytes = [] ∨ ¬ i.IsUnwritable site l := by
  obtain ⟨hnone, htree⟩ | ⟨level, k, hlevel, hrun⟩ := i.run_cases site
  · rw [htree]
    exact iff_of_true hfile (.inr fun ⟨⟨level, h⟩, _⟩ => hnone level h)
  · have hcommand : i.IsUnwritable site l ↔ i.command.IsUnwritable (site.scene i.shared) l :=
      ⟨And.right, fun h => ⟨⟨level, hlevel⟩, h⟩⟩
    rw [hcommand]
    rw [hrun] at hfails ⊢
    show (i.command.run (site.scene i.shared)).2.walk site.current p = .file l bytes ↔ _
    obtain hsuccess | ⟨htree, hnone⟩ | ⟨l', hun, htree⟩ := i.command.run_cases (site.scene i.shared)
    · exact absurd hsuccess (RunEnding.result_ne_success_of_fails hfails)
    · rw [htree]
      exact iff_of_true hfile (.inr (hnone l))
    · have hl' : (site.tree.bytes? l').isSome := hun.isSome_bytes?
      have hwalk : (site.tree.write l' []).walk site.current p
          = (FileTree.Target.file l bytes).rewritten l' [] := by
        rw [FileTree.walk_write hl', hfile]
      rw [htree]
      show (site.tree.write l' []).walk site.current p = .file l bytes ↔ _
      rw [hwalk]
      -- the emptied file is the one asked about, or another one
      by_cases hl : l = l'
      · subst hl
        simp [FileTree.Target.rewritten, hun, eq_comm]
      · have hother : ¬ i.command.IsUnwritable (site.scene i.shared) l := fun h => hl (h.eq hun)
        simp [FileTree.Target.rewritten, hl, hother]

/-- **When a failed write loses nothing.** If a run fails, a file keeps
what it held if and only if that is nothing, or the run was not to give
it a text that its encoding has no bytes for. If a store cannot be saved
to a file, the file keeps what it held if and only if it could not be
opened, or held just the bytes that were written before the fault. -/
theorem failed_write_keeps_iff {site : Site} {l : Location} {p : Path} {bytes : List UInt8}
    (hfile : site.tree.walk site.current p = .file l bytes) :
    (∀ i : Invocation, (i.run site).Fails →
        ((i.run site).tree.walk site.current p = .file l bytes
          ↔ bytes = [] ∨ ¬ i.IsUnwritable site l))
      ∧ ∀ (st : Store) e tree',
          st.saveFile site.platform.codecs site.tree site.current p = (.error e, tree') →
          (tree'.walk site.current p = .file l bytes
            ↔ e.IsEarly ∨
              bytes = FileTree.writtenBytes site.platform.codecs st.options.encoding st.pieces) :=
  ⟨fun _ hfails => run_walk_iff hfile hfails,
    fun _ _ _ hsave => Store.walk_saveFile_iff hfile hsave⟩

/-- A property file by its path. -/
def appPath : Path := Path.ofText "app.properties".toList

/-- What is in the file. -/
def appBytes : List UInt8 := "k = v\n".toList.flatMap Encoding.utf8Bytes

/-- The file, and the configuration by which it is read and written as
ASCII. -/
def asciiTree : FileTree where
  files := [(["app.properties".toList], appBytes),
    (["proplay.toml".toList], "encoding = 'ascii'\n".toList.flatMap Encoding.utf8Bytes)]
  directories := []

/-- The place of both. -/
def asciiSite : Site := { platform := .standard, tree := asciiTree, current := [] }

theorem walk_asciiSite :
    asciiSite.tree.walk asciiSite.current appPath = .file ["app.properties".toList] appBytes := by
  decide +kernel

/-- The property of the file is to get a value that is not ASCII. -/
def setAccent : Invocation where
  command := .edit appPath (.set ['k'] ['é'] none false) true .nearest

/-- A store of two properties, the second one of which is not ASCII. -/
def accentStore : Store :=
  (({ options := { encoding := "ascii".toList } } : Store).mutate (.set ['k'] (.one ['1']))).mutate
    (.set ['l'] (.one ['é']))

/-- What is said of its second line. -/
def accentFault : SaveError :=
  .unencodable (EncodeError.message ⟨"ascii", 'é', 4, 1, "ordinal not in range(128)"⟩)

/-- What is left of the file if the store is saved to it: the line of the
first property. -/
theorem saveFile_accentStore :
    accentStore.saveFile Encoding.codecs asciiTree [] appPath
      = (.error accentFault, asciiTree.write ["app.properties".toList]
          ("k = 1\n".toList.flatMap Encoding.utf8Bytes)) := by
  rfl

/-- A run and a save that fail for a character without bytes. -/
theorem failed_write_keeps_iff_accent :
    asciiSite.tree.walk asciiSite.current appPath = .file ["app.properties".toList] appBytes ∧
      (setAccent.run asciiSite).Fails ∧
      ((setAccent.run asciiSite).tree.walk [] appPath = .file ["app.properties".toList] appBytes
        ↔ appBytes = [] ∨ ¬ setAccent.IsUnwritable asciiSite ["app.properties".toList]) ∧
      ((accentStore.saveFile Encoding.codecs asciiTree [] appPath).2.walk [] appPath
          = .file ["app.properties".toList] appBytes
        ↔ accentFault.IsEarly
          ∨ appBytes
              = FileTree.writtenBytes Encoding.codecs "ascii".toList accentStore.pieces) := by
  have hfails : (setAccent.run asciiSite).Fails := by decide +kernel
  obtain ⟨hrun, hsave⟩ := failed_write_keeps_iff walk_asciiSite
  exact ⟨walk_asciiSite, hfails, hrun setAccent hfails,
    hsave accentStore _ _ saveFile_accentStore⟩

/-- **A failed write can lose everything.** The run that is to set the
property fails, and the file that was not empty is. -/
theorem not_failed_write_keeps :
    asciiSite.tree.walk asciiSite.current appPath = .file ["app.properties".toList] appBytes ∧
      (setAccent.run asciiSite).Fails ∧
      (setAccent.run asciiSite).tree.walk [] appPath
        = .file ["app.properties".toList] [] ∧ appBytes ≠ [] := by
  decide +kernel

end PropertyFile.CommandLine

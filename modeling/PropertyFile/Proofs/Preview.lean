import PropertyFile.Proofs.Encoding
import PropertyFile.Proofs.FailedWrite

/-!
# Previews

An edit that is only shown foretells what making it would do, where the
file may be written. Both come from one plan, so they part only where a
text is to be replaced by another one: there the preview ends as a change
that is due, and the edit writes the bytes of the new text, which are read
as that text again (`applyEdit_of_isChange`). Everywhere else the two do
and say the same, and leave the files as they are.

No failure ends a run as a change that is due, or as a success
(`Stop.IsFault`). So the code of the preview alone tells whether the file
would change (`preview_foretells_apply`). It tells nothing of whether the
file may be written at all, which a preview does not ask
(`not_preview_foretells_apply`).
-/

namespace PropertyFile.CommandLine

/-! ## Failures -/

/-- Whether a stop is a fault: the run neither succeeds nor ends as a
change that is due. -/
def Stop.IsFault : Stop → Prop
  | .failed f => f.outcome ≠ .success ∧ f.outcome ≠ .wouldChange
  | .broken _ => True

/-- Whether a step stops at nothing but faults. -/
def Step.Sound {α : Type} (x : Step α) : Prop := ∀ stop, x.result = .error stop → stop.IsFault

namespace Step

variable {α β : Type} {x : Step α}

theorem sound_of_ok {a : α} (h : x.result = .ok a) : x.Sound :=
  fun _ hstop => nomatch hstop.symm.trans h

theorem sound_of_error {stop : Stop} (h : x.result = .error stop) (hfault : stop.IsFault) :
    x.Sound := by
  intro stop' hstop
  cases h.symm.trans hstop
  exact hfault

theorem Sound.bind {f : α → Step β} (hx : x.Sound) (hf : ∀ a, (f a).Sound) : (x >>= f).Sound := by
  intro stop hstop
  cases hresult : x.result with
  | error e =>
    rw [(Reporting.bind_of_error hresult f).1] at hstop
    exact Except.error.inj hstop ▸ hx e hresult
  | ok a =>
    rw [(Reporting.bind_of_ok hresult f).1] at hstop
    exact hf a stop hstop

/-- What commands have no words for is a fault. -/
theorem sound_convert {μ ε : Type} (x : Reporting μ ε α) (f : μ → Message) (g : ε → Breakdown) :
    Sound (x.convert f fun e => .broken (g e)) := by
  intro stop hstop
  cases hresult : x.result with
  | error e =>
    rw [Reporting.convert, hresult] at hstop
    cases hstop
    trivial
  | ok a =>
    rw [Reporting.convert, hresult] at hstop
    cases hstop

end Step

theorem sound_stopOfLoad {α : Type} (p : Path) (e : LoadError) :
    (stopOfLoad p e : Step α).Sound := by
  cases e with
  | file fault =>
    obtain ⟨fault, path⟩ := fault
    cases fault <;> exact Step.sound_of_error rfl ⟨nofun, nofun⟩
  | undecodable _ | parse _ | notFound _ _ | cycle _ _ =>
    exact Step.sound_of_error rfl ⟨nofun, nofun⟩
  | path _ | encoding _ => exact Step.sound_of_error rfl trivial

namespace Scene

theorem sound_settings (s : Scene) (c : ConfigChoice) (p : Path) : (s.settings c p).Sound := by
  refine Step.Sound.bind ?_ fun _ => (Step.sound_of_ok rfl).bind fun _ => Step.sound_of_ok rfl
  cases c with
  | none => exact Step.sound_of_ok rfl
  | nearest => exact Step.sound_convert _ _ _
  | file given =>
    refine (Step.sound_convert _ _ _).bind fun found => ?_
    cases found with
    | none => exact Step.sound_of_error rfl ⟨nofun, nofun⟩
    | some settings => exact Step.sound_of_ok rfl

theorem sound_readText (s : Scene) (settings : Settings) (p : Path) :
    (s.readText settings p).Sound := by
  rw [readText]
  split
  · exact Step.sound_of_ok rfl
  · exact sound_stopOfLoad p _

theorem sound_loadStore (s : Scene) (settings : Settings) (follow : Bool) (p : Path) :
    (s.loadStore settings follow p).Sound := by
  rw [loadStore]
  split
  · exact Step.sound_of_error rfl trivial
  · refine (Step.sound_of_ok rfl).bind fun _ => (Step.sound_of_ok rfl).bind fun _ => ?_
    split
    · exact Step.sound_of_ok rfl
    · exact sound_stopOfLoad p _

end Scene

theorem Revision.sound_plan (s : Scene) (p : Path) (e : Edit) (c : ConfigChoice) :
    (plan s p e c).Sound := by
  refine (s.sound_settings c p).bind fun settings =>
    (s.sound_readText settings p).bind fun before =>
    (s.sound_loadStore settings false p).bind fun st => ?_
  split
  · exact (Step.sound_of_ok rfl).bind fun _ => Step.sound_of_ok rfl
  · exact (Step.sound_of_ok rfl).bind fun _ => Step.sound_of_ok rfl

/-! ## Showing and making an edit -/

/-- What goes on alike with what comes out is alike. -/
theorem Step.bind_congr {α β : Type} {x : Step α} {f g : α → Step β}
    (h : ∀ a, x.result = .ok a → f a = g a) : x >>= f = x >>= g := by
  show Reporting.bind x f = Reporting.bind x g
  rw [Reporting.bind, Reporting.bind]
  cases hresult : x.result with
  | error e => rfl
  | ok a =>
    show Reporting.mk (f a).result _ = Reporting.mk (g a).result _
    rw [h a hresult]

/-- What an edit puts into a file: the store that is loaded from the file
and edited, as a text. -/
theorem Revision.after_of_plan {s : Scene} {p : Path} {e : Edit} {c : ConfigChoice} {r : Revision}
    (h : (plan s p e c).result = .ok (some r)) :
    ∃ settings st st', (s.settings c p).result = .ok settings ∧
      (s.loadStore settings false p).result = .ok st ∧ e.apply st = some st' ∧
      r.encoding = settings.encoding ∧ r.after = st'.toText := by
  obtain ⟨settings, hsettings, h⟩ := Reporting.result_bind_eq_ok_iff.1 h
  obtain ⟨before, -, h⟩ := Reporting.result_bind_eq_ok_iff.1 h
  obtain ⟨st, hst, h⟩ := Reporting.result_bind_eq_ok_iff.1 h
  refine ⟨settings, st, ?_⟩
  cases hedited : e.apply st with
  | none =>
    rw [hedited] at h
    cases h
  | some st' =>
    rw [hedited] at h
    cases h
    exact ⟨st', hsettings, hst, rfl, rfl, rfl⟩

/-- **An edit that changes nothing** is made as it is shown. -/
theorem applyEdit_eq_previewEdit {s : Scene} {p : Path} {e : Edit} {c : ConfigChoice}
    (h : ∀ r, (Revision.plan s p e c).result = .ok (some r) → r.isChange = false) :
    applyEdit s p e c = (previewEdit s p e c, s.tree) := by
  -- what follows the plan is the same where there is no revision
  have hsame : (∀ r, (Revision.plan s p e c).result ≠ .ok (some r)) →
      (Revision.plan s p e c >>= fun _ => (pure .failure : Step Outcome))
        = previewEdit s p e c := by
    intro hnone
    refine Step.bind_congr fun planned hplanned => ?_
    cases planned with
    | none => rfl
    | some r => exact absurd hplanned (hnone r)
  cases hplan : (Revision.plan s p e c).result with
  | error stop =>
    rw [← hsame fun r hr => by cases hplan.symm.trans hr]
    simp only [applyEdit, hplan]
  | ok planned =>
    cases planned with
    | none =>
      rw [← hsame fun r hr => by cases hplan.symm.trans hr]
      simp only [applyEdit, hplan]
    | some r =>
      have hwrite : r.write s = (.ok (), s.tree) := by
        rw [Revision.write, h r hplan]
        rfl
      have hconfirm : (Revision.plan s p e c >>= fun _ => r.confirm (.ok ()))
          = previewEdit s p e c := by
        refine Step.bind_congr fun planned hplanned => ?_
        cases hplan.symm.trans hplanned
        show r.confirm (.ok ()) = r.preview
        rw [Revision.confirm, Revision.preview, h r hplan]
        rfl
      rw [← hconfirm]
      simp only [applyEdit, hplan, hwrite]

/-- Whether what is read at a path is held by a file that may be
written. -/
def Scene.MayWrite (s : Scene) (p : Path) : Prop :=
  ∀ bytes, s.tree.readBytes s.current p = .ok bytes →
    ∃ l, s.tree.walk s.current p = .file l bytes ∧ (s.tree.mode l).write = true

/-- Whether the text that an edit puts into a file is written as bytes that
are read as that text. -/
def Edit.IsCarried (s : Scene) (p : Path) (c : ConfigChoice) (e : Edit) : Prop :=
  ∀ r codec, (Revision.plan s p e c).result = .ok (some r) →
    s.platform.codecs r.encoding = .ok codec → codec.Carries r.after

/-- **An edit that changes something** is shown as a change that is due.
Making it writes bytes that are not those of the file, and that are read
as the new text. -/
theorem applyEdit_of_isChange {s : Scene} {p : Path} {e : Edit} {c : ConfigChoice} {r : Revision}
    (hplan : (Revision.plan s p e c).result = .ok (some r)) (hchange : r.isChange = true)
    (hwrite : s.MayWrite p) (hcarried : e.IsCarried s p c) :
    ∃ l held codec bytes, s.tree.walk s.current p = .file l held ∧
      s.platform.codecs r.encoding = .ok codec ∧ codec.decode bytes = .ok r.after ∧ bytes ≠ held ∧
      (previewEdit s p e c).result = .ok .wouldChange ∧
      (applyEdit s p e c).1.result = .ok .success ∧
      (applyEdit s p e c).2 = s.tree.write l bytes := by
  obtain ⟨rfl, hencoding, held, codec, hread, hcodec, hbefore⟩ := Revision.plan_spec hplan
  obtain ⟨l, hwalk, hmode⟩ := hwrite held hread
  obtain ⟨bytes, hencode, hdecode⟩ := hcarried r codec hplan hcodec
  have hpath : r.file.toText.contains '\x00' = false := (FileTree.readBytes_eq_ok_iff.1 hread).1
  have hwritten : r.write s = (.ok (), s.tree.write l bytes) := by
    rw [Revision.write_of_isChange hchange hencoding hpath hcodec,
      FileTree.writable_of_walk hwalk, if_pos hmode, Codec.write_singleton_of_ok hencode]
  refine ⟨l, held, codec, bytes, hwalk, hcodec, hdecode, ?_, ?_, ?_, ?_⟩
  · -- the bytes of the file are read as another text
    rintro rfl
    rw [Revision.isChange, Except.ok.inj (hbefore.symm.trans hdecode)] at hchange
    simp at hchange
  · rw [previewEdit, (Reporting.bind_of_ok hplan _).1]
    show r.preview.result = _
    rw [Revision.preview, hchange]
    rfl
  · simp only [applyEdit, hplan, hwritten]
    exact (Reporting.bind_of_ok hplan _).1
  · simp only [applyEdit, hplan, hwritten]

/-! ## Runs -/

theorem Outcome.code_injective {o o' : Outcome} (h : o.code = o'.code) : o = o' := by
  cases o <;> cases o' <;> first | rfl | cases h

/-- **The code of a step that stops at faults only** tells a success, and
a change that is due. -/
theorem RunEnding.code_ofStep_eq_iff {k : Look} {tree : FileTree} {x : Step Outcome}
    (hx : x.Sound) {o : Outcome} (ho : o = .success ∨ o = .wouldChange) :
    (ofStep k tree x).code = o.code ↔ x.result = .ok o := by
  rw [ofStep]
  cases hresult : x.result with
  | ok o' =>
    exact ⟨fun h => congrArg Except.ok (Outcome.code_injective h), fun h => by cases h; rfl⟩
  | error stop =>
    refine iff_of_false ?_ fun h => by cases h
    have hfault := hx stop hresult
    cases stop with
    | broken b => obtain rfl | rfl := ho <;> exact fun h => by cases h
    | failed f =>
      intro h
      obtain rfl : f.outcome = o := Outcome.code_injective h
      exact ho.elim hfault.1 hfault.2

theorem sound_levelOf {shared : Shared} {env : Environment} {stop : Stop}
    (h : levelOf shared env = .error stop) : stop.IsFault := by
  rw [levelOf, logLevel] at h
  split at h
  · cases h
    exact ⟨nofun, nofun⟩
  · have hasked : ∀ {level : Int}, (do
        let asked ← (Log.levelOfVariable (env.lookup "PROPLAY_LOG_LEVEL".toList)).mapError
          fun e => Stop.broken (.level e)
        return asked.getD level) = .error stop → stop.IsFault := by
      intro level h
      cases hlevel : Log.levelOfVariable (env.lookup "PROPLAY_LOG_LEVEL".toList) with
      | error fault =>
        rw [hlevel] at h
        cases h
        trivial
      | ok asked =>
        rw [hlevel] at h
        cases h
    split at h <;> exact hasked h

/-- **What the preview of an edit foretells** of the run that makes the
edit. -/
structure Foretells (s : Scene) (file : Path) (e : Edit) (c : ConfigChoice)
    (preview apply : RunEnding) : Prop where
  /-- The preview leaves the files as they are. -/
  untouched : preview.tree = s.tree
  /-- The edit leaves all files but one as they are. -/
  elsewhere : apply.tree = s.tree ∨
    ∃ l held bytes, s.tree.walk s.current file = .file l held ∧ apply.tree = s.tree.write l bytes
  /-- A change is due in the preview if and only if the edit changes the
  file. -/
  due_iff : preview.code = Outcome.wouldChange.code ↔
    apply.tree.walk s.current file ≠ s.tree.walk s.current file
  /-- If it is due, the edit succeeds, and the bytes of the file are read
  as the text of the edited store. -/
  written : preview.code = Outcome.wouldChange.code →
    apply.code = Outcome.success.code ∧ ∃ settings st st' codec l bytes,
      (s.settings c file).result = .ok settings ∧
      (s.loadStore settings false file).result = .ok st ∧ e.apply st = some st' ∧
      s.platform.codecs settings.encoding = .ok codec ∧
      apply.tree.walk s.current file = .file l bytes ∧ codec.decode bytes = .ok st'.toText
  /-- The preview succeeds if and only if the edit does and changes
  nothing. -/
  success_iff : preview.code = Outcome.success.code ↔
    apply.code = Outcome.success.code ∧ apply.tree = s.tree
  /-- If no change is due, the two runs are the same. -/
  same : preview.code ≠ Outcome.wouldChange.code → apply = preview

/-- Runs that are the same foretell each other if nothing changes. -/
theorem Foretells.refl {s : Scene} {file : Path} {e : Edit} {c : ConfigChoice} {ending : RunEnding}
    (htree : ending.tree = s.tree) (hcode : ending.code ≠ Outcome.wouldChange.code) :
    Foretells s file e c ending ending where
  untouched := htree
  elsewhere := .inl htree
  due_iff := by
    rw [htree]
    exact iff_of_false hcode fun h => h rfl
  written h := absurd h hcode
  success_iff := ⟨fun h => ⟨h, htree⟩, And.left⟩
  same _ := rfl

theorem sound_previewEdit (s : Scene) (file : Path) (e : Edit) (c : ConfigChoice) :
    (previewEdit s file e c).Sound := by
  refine (Revision.sound_plan s file e c).bind fun planned => ?_
  cases planned with
  | none => exact Step.sound_of_ok rfl
  | some r =>
    show r.preview.Sound
    rw [Revision.preview]
    split <;> exact Step.sound_of_ok rfl

/-- Only a change is due. -/
theorem exists_of_previewEdit_eq_wouldChange {s : Scene} {file : Path} {e : Edit}
    {c : ConfigChoice} (h : (previewEdit s file e c).result = .ok .wouldChange) :
    ∃ r, (Revision.plan s file e c).result = .ok (some r) ∧ r.isChange = true := by
  obtain ⟨planned, hplan, hend⟩ := Reporting.result_bind_eq_ok_iff.1 h
  cases planned with
  | none => cases hend
  | some r =>
    refine ⟨r, hplan, ?_⟩
    cases hchange : r.isChange with
    | true => rfl
    | false =>
      have hsuccess : r.preview.result = .ok .success := by
        rw [Revision.preview, hchange]
        rfl
      cases hsuccess.symm.trans hend

/-- **Showing an edit foretells making it**, however the two are
reported. -/
theorem previewEdit_foretells {s : Scene} {file : Path} {e : Edit} {c : ConfigChoice}
    (hwrite : s.MayWrite file) (hcarried : e.IsCarried s file c) (k : Look) :
    Foretells s file e c (.ofStep k s.tree (previewEdit s file e c))
      (.ofStep k (applyEdit s file e c).2 (applyEdit s file e c).1) := by
  have hcode : (RunEnding.ofStep k s.tree (previewEdit s file e c)).code = Outcome.wouldChange.code
      ↔ (previewEdit s file e c).result = .ok .wouldChange :=
    RunEnding.code_ofStep_eq_iff (sound_previewEdit s file e c) (.inr rfl)
  by_cases hdue : ∃ r, (Revision.plan s file e c).result = .ok (some r) ∧ r.isChange = true
  · obtain ⟨r, hplan, hchange⟩ := hdue
    obtain ⟨l, held, codec, bytes, hwalk, hcodec, hdecode, hne, hpreview, happly, htree⟩ :=
      applyEdit_of_isChange hplan hchange hwrite hcarried
    obtain ⟨settings, st, st', hsettings, hst, hedited, hencoding, hafter⟩ :=
      Revision.after_of_plan hplan
    have hdueCode : (RunEnding.ofStep k s.tree (previewEdit s file e c)).code
        = Outcome.wouldChange.code := hcode.2 hpreview
    have happlyCode : (RunEnding.ofStep k (applyEdit s file e c).2 (applyEdit s file e c).1).code
        = Outcome.success.code := by
      rw [RunEnding.ofStep, happly]
    have hwalk' : (applyEdit s file e c).2.walk s.current file = .file l bytes := by
      rw [htree, FileTree.walk_write (by rw [FileTree.bytes?_of_walk hwalk]; rfl), hwalk]
      simp [FileTree.Target.rewritten]
    have hchanged : (applyEdit s file e c).2.walk s.current file ≠ s.tree.walk s.current file := by
      rw [hwalk', hwalk]
      exact fun h => hne (FileTree.Target.file.inj h).2
    exact {
      untouched := rfl
      elsewhere := .inr ⟨l, held, bytes, hwalk, htree⟩
      due_iff := iff_of_true hdueCode hchanged
      written := fun _ => ⟨happlyCode, settings, st, st', codec, l, bytes, hsettings, hst, hedited,
        hencoding ▸ hcodec, hwalk', hafter ▸ hdecode⟩
      success_iff := by
        rw [hdueCode]
        exact iff_of_false (by decide) fun h => hchanged (congrArg (·.walk s.current file) h.2)
      same := fun h => absurd hdueCode h }
  · have hsame : applyEdit s file e c = (previewEdit s file e c, s.tree) :=
      applyEdit_eq_previewEdit fun r hr => Bool.eq_false_iff.2 fun hchange => hdue ⟨r, hr, hchange⟩
    rw [hsame]
    exact .refl rfl fun h => hdue (exists_of_previewEdit_eq_wouldChange (hcode.1 h))

/-- **The preview foretells the edit.** The run that shows an edit and the
run that makes it differ in nothing else that is asked for. -/
theorem preview_foretells_apply {site : Site} {shared : Shared} {file : Path} {e : Edit}
    {c : ConfigChoice} (hwrite : (site.scene shared).MayWrite file)
    (hcarried : e.IsCarried (site.scene shared) file c) :
    Foretells (site.scene shared) file e c
      (Invocation.run site { shared, command := .edit file e false c })
      (Invocation.run site { shared, command := .edit file e true c }) := by
  rw [Invocation.run, Invocation.run, Shared.start, Shared.start]
  cases hlevel : levelOf shared site.env with
  | error stop =>
    have hsound : Step.Sound (.fail stop : Step Outcome) :=
      Step.sound_of_error rfl (sound_levelOf hlevel)
    refine .refl rfl fun h => ?_
    cases (RunEnding.code_ofStep_eq_iff hsound (.inr rfl)).1 h
  | ok level => exact previewEdit_foretells hwrite hcarried _

/-- The edit that gives a property of the ASCII file a new value. -/
def valueEdit : Edit := .set ['k'] ['w'] none false

/-- The run that shows it, and the one that makes it. -/
def setValue (apply : Bool) : Invocation where
  command := .edit appPath valueEdit apply .nearest

/-- The revision of the ASCII file. -/
def asciiRevision : Revision := ⟨appPath, "ascii".toList, "k = v\n".toList, "k = w\n".toList⟩

theorem isCarried_of_plan {s : Scene} {p : Path} {e : Edit} {c : ConfigChoice} {r : Revision}
    {enc : Encoding} {bytes : List UInt8}
    (hplan : (Revision.plan s p e c).result.toOption = some (some r))
    (hcodec : s.platform.codecs r.encoding = .ok enc.codec)
    (hencode : enc.codec.encode [] r.after = .ok bytes) : e.IsCarried s p c := by
  intro r' codec' hplan' hcodec'
  rw [hplan'] at hplan
  cases hplan
  cases hcodec.symm.trans hcodec'
  exact (Encoding.isFaithful_codec enc).carries hencode

theorem isCarried_valueEdit : valueEdit.IsCarried (asciiSite.scene {}) appPath .nearest :=
  isCarried_of_plan (show _ = some (some asciiRevision) by decide +kernel)
    (show _ = Except.ok Encoding.ascii.codec by rfl) rfl

/-- The preview of an edit of an ASCII file, and the edit. -/
theorem preview_foretells_apply_value :
    (asciiSite.scene {}).MayWrite appPath ∧
      valueEdit.IsCarried (asciiSite.scene {}) appPath .nearest ∧
      ((setValue false).run asciiSite).code = Outcome.wouldChange.code ∧
      Foretells (asciiSite.scene {}) appPath valueEdit .nearest ((setValue false).run asciiSite)
        ((setValue true).run asciiSite) := by
  have hwrite : (asciiSite.scene {}).MayWrite appPath := by
    intro bytes h
    have hread : asciiSite.tree.readBytes [] appPath = .ok appBytes := by rfl
    cases hread.symm.trans h
    exact ⟨_, walk_asciiSite, by rfl⟩
  exact ⟨hwrite, isCarried_valueEdit, by decide +kernel,
    preview_foretells_apply hwrite isCarried_valueEdit⟩

/-- The same place, where the file may be read and not written. -/
def readOnlySite : Site :=
  { asciiSite with
    tree := { asciiTree with modes := [(["app.properties".toList], { write := false })] } }

/-- A place with a device that holds nothing, which is not a file. -/
def nullSite : Site where
  platform := .standard
  tree := { files := [], directories := [], sinks := [["null".toList]] }
  current := []

/-- The path of the device. -/
def nullPath : Path := Path.ofText "null".toList

/-- The run that shows the edit of the device, or the one that makes
it. -/
def setNull (apply : Bool) : Invocation where
  command := .edit nullPath valueEdit apply .nearest

/-- **A preview does not tell whether the file may be written.** Of a file
that may not, it says that a change is due, but the edit fails and changes
nothing. And of a device that loses what is written to it, the preview
says so too, and the edit succeeds and changes nothing. In both cases the
new text is written as bytes that are read as that text. -/
theorem not_preview_foretells_apply :
    (valueEdit.IsCarried (readOnlySite.scene {}) appPath .nearest ∧
        ((setValue false).run readOnlySite).code = Outcome.wouldChange.code ∧
        ((setValue true).run readOnlySite).code = Outcome.permissionDenied.code ∧
        ((setValue true).run readOnlySite).tree = readOnlySite.tree) ∧
      valueEdit.IsCarried (nullSite.scene {}) nullPath .nearest ∧
        ((setNull false).run nullSite).code = Outcome.wouldChange.code ∧
        ((setNull true).run nullSite).code = Outcome.success.code ∧
        ((setNull true).run nullSite).tree = nullSite.tree := by
  have hreadOnly : valueEdit.IsCarried (readOnlySite.scene {}) appPath .nearest :=
    isCarried_of_plan (show _ = some (some asciiRevision) by decide +kernel)
      (show _ = Except.ok Encoding.ascii.codec by rfl) rfl
  have hnull : valueEdit.IsCarried (nullSite.scene {}) nullPath .nearest :=
    isCarried_of_plan
      (show _ = some (some ⟨nullPath, "utf-8".toList, [], "k = w\n".toList⟩) by decide +kernel)
      (show _ = Except.ok Encoding.utf8.codec by rfl) rfl
  exact ⟨⟨hreadOnly, by decide +kernel⟩, hnull, by decide +kernel⟩

end PropertyFile.CommandLine

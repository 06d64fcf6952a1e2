import Mathlib.Data.List.Forall2
import PropertyFile.Proofs.Configuration
import PropertyFile.Proofs.Content
import PropertyFile.Proofs.Preview

/-!
# Checks of many files

A check goes through its files one after the other and says of each
whether it passes, differs from what would be saved, or cannot be judged
(`Judges`). A file that cannot be judged does not stop it. What does is a
file on which there is no verdict at all, since the program has no words
for it: its settings cannot be told, or no codec goes by the encoding that
they name. There is one on every other file (`Scene.HasVerdict`,
`exists_ofFile_iff`).

So up to the first file without a verdict each is judged and reported
once, in order (`judge_cases`), and if there is no such file the verdicts
alone decide how the run ends (`check_judges_all_iff`).
-/

namespace PropertyFile

/-- A result that is only put into another form is reported alike. -/
theorem Reporting.bind_pure {μ ε α β : Type} (x : Reporting μ ε α) (f : α → β) :
    (x >>= fun a => pure (f a)) = { result := x.result.map f, reports := x.reports } := by
  cases h : x.result with
  | error e =>
    show Reporting.bind x _ = _
    rw [Reporting.bind, h]
    rfl
  | ok a =>
    show Reporting.bind x _ = _
    rw [Reporting.bind, h]
    exact congrArg (Reporting.mk _) (List.append_nil _)

/-- Whether commands have no words for an error of loading. -/
def LoadError.IsBreakdown : LoadError → Prop
  | .path _ | .encoding _ => True
  | _ => False

namespace FileTree

/-- **Whether a file is given an encoding that is one**: its name can be
one, and if the file can be opened a codec goes by it. -/
structure HasCodec (codecs : Codecs) (tree : FileTree) (current : Location) (p : Path)
    (encoding : Text) : Prop where
  /-- The name can be one. -/
  name : encoding.contains '\x00' = false
  /-- A codec goes by it. -/
  known : ∀ bytes, tree.read current p = .ok bytes → ∃ c, codecs encoding = .ok c

/-- Reading a file that has a name breaks down for its encoding, and for
nothing else. -/
theorem isBreakdown_iff_of_readText {codecs : Codecs} {tree : FileTree} {current : Location}
    {p : Path} {encoding : Text} {e : LoadError} (hp : p.IsName)
    (h : tree.readText codecs current p encoding = .error e) :
    e.IsBreakdown ↔ ¬ tree.HasCodec codecs current p encoding := by
  have hbytes : tree.readBytes current p = (tree.read current p).mapError .file := by
    rw [readBytes, hp]
    rfl
  rw [readText, hbytes] at h
  cases hnull : encoding.contains '\x00' with
  | true =>
    rw [hnull] at h
    cases h
    exact iff_of_true trivial fun hcodec => Bool.noConfusion (hnull.symm.trans hcodec.name)
  | false =>
    rw [hnull] at h
    cases hread : tree.read current p with
    | error fault =>
      rw [hread] at h
      cases h
      refine iff_of_false id (not_not_intro ⟨hnull, fun _ hb => ?_⟩)
      cases hread.symm.trans hb
    | ok bytes =>
      rw [hread] at h
      change textOfBytes codecs encoding bytes = .error e at h
      rw [textOfBytes] at h
      cases hcodec : codecs encoding with
      | error reason =>
        rw [hcodec] at h
        cases h
        refine iff_of_true trivial fun hknown => ?_
        obtain ⟨c, hc⟩ := hknown.known bytes hread
        cases hcodec.symm.trans hc
      | ok c =>
        rw [hcodec] at h
        refine iff_of_false (fun hbreakdown => ?_) (not_not_intro ⟨hnull, fun _ _ => ⟨c, hcodec⟩⟩)
        cases hdecode : c.decode bytes with
        | ok t => simp [hdecode, Except.mapError] at h
        | error reason =>
          simp only [hdecode, Except.mapError, Except.error.injEq] at h
          cases h
          exact hbreakdown

end FileTree

/-- Loading a file without includes breaks nothing down if the file has a
name and the encoding is known. -/
theorem Store.not_isBreakdown_of_loadFile {codecs : Codecs} {c : Codec} {st : Store}
    {src : Sources} {tree : FileTree} {current : Location} {p : Path} {e : LoadError}
    (hclosed : st.options.IsClosed) (hnull : st.options.encoding.contains '\x00' = false)
    (hcodec : codecs st.options.encoding = .ok c) (hp : p.IsName)
    (hcurrent : (Path.ofLocation current).IsName)
    (h : (st.loadFile codecs src tree current p).1 = .error e) : ¬ e.IsBreakdown := by
  obtain ⟨l, hl, hname⟩ := Path.exists_resolve hp hcurrent
  simp only [loadFile, hl] at h
  cases hread : tree.readText codecs current (Path.ofLocation l) st.options.encoding with
  | error fault =>
    rw [hread] at h
    cases h
    rw [FileTree.isBreakdown_iff_of_readText hname hread]
    exact not_not_intro ⟨hnull, fun _ _ => ⟨c, hcodec⟩⟩
  | ok t =>
    rw [hread] at h
    obtain ⟨fault, rfl⟩ := exists_parse_of_read hclosed h
    exact id

namespace CommandLine

/-! ## Breaking down -/

/-- Whether a step breaks down. -/
def Step.BreaksDown {α : Type} (x : Step α) : Prop := ∃ b, x.result = .error (.broken b)

namespace Step

variable {α β : Type} {x : Step α}

theorem not_breaksDown_of_ok {a : α} (h : x.result = .ok a) : ¬ x.BreaksDown :=
  fun ⟨_, hbroken⟩ => nomatch h.symm.trans hbroken

theorem breaksDown_bind_iff {f : α → Step β} :
    (x >>= f).BreaksDown ↔ x.BreaksDown ∨ ∃ a, x.result = .ok a ∧ (f a).BreaksDown := by
  cases hresult : x.result with
  | error stop => simp [BreaksDown, (Reporting.bind_of_error hresult f).1, hresult]
  | ok a => simp [BreaksDown, (Reporting.bind_of_ok hresult f).1, hresult]

theorem not_breaksDown_bind {f : α → Step β} (hx : ¬ x.BreaksDown) (hf : ∀ a, ¬ (f a).BreaksDown) :
    ¬ (x >>= f).BreaksDown := by
  rw [breaksDown_bind_iff]
  rintro (h | ⟨a, -, h⟩)
  · exact hx h
  · exact hf a h

/-- What never breaks down does not matter. -/
theorem breaksDown_bind_iff_of_not {f : α → Step β} (hf : ∀ a, ¬ (f a).BreaksDown) :
    (x >>= f).BreaksDown ↔ x.BreaksDown := by
  rw [breaksDown_bind_iff]
  exact or_iff_left fun ⟨a, _, ha⟩ => hf a ha

theorem breaksDown_convert_iff {μ ε : Type} {y : Reporting μ ε α} {f : μ → Message}
    {g : ε → Breakdown} :
    BreaksDown (y.convert f fun e => .broken (g e)) ↔ ¬ ∃ a, y.result = .ok a := by
  rw [BreaksDown, Reporting.convert]
  cases y.result with
  | error e =>
    refine iff_of_true ⟨g e, rfl⟩ ?_
    rintro ⟨_, ⟨⟩⟩
  | ok a =>
    refine iff_of_false ?_ (not_not_intro ⟨a, rfl⟩)
    rintro ⟨_, ⟨⟩⟩

end Step

theorem breaksDown_stopOfLoad_iff {α : Type} {p : Path} {e : LoadError} :
    (stopOfLoad p e : Step α).BreaksDown ↔ e.IsBreakdown := by
  cases e with
  | file fault =>
    obtain ⟨fault, path⟩ := fault
    cases fault <;> exact iff_of_false nofun id
  | undecodable _ | parse _ | notFound _ _ | cycle _ _ => exact iff_of_false nofun id
  | path _ | encoding _ => exact iff_of_true ⟨_, rfl⟩ trivial

namespace Scene

variable {s : Scene} {c : ConfigChoice} {p : Path} {settings : Settings}

/-- **Whether the settings for a file can be told**: none of the files
that are looked into for them is in the way. -/
def HasSettings (s : Scene) : ConfigChoice → Path → Prop
  | .none, _ => True
  | .file given, _ =>
    (Path.ofText given).IsName ∧
      ¬ Settings.IsBroken s.platform.parse s.tree s.current (Path.ofText given)
  | .nearest, p =>
    ∃ settings, (Settings.forPath s.platform.parse s.tree s.current p).result = .ok settings

theorem breaksDown_settings_iff : (s.settings c p).BreaksDown ↔ ¬ s.HasSettings c p := by
  have hchosen : (s.settings c p).BreaksDown ↔ (s.chosenSettings c p).BreaksDown :=
    Step.breaksDown_bind_iff_of_not fun _ => Step.not_breaksDown_of_ok rfl
  rw [hchosen]
  cases c with
  | none => exact iff_of_false (Step.not_breaksDown_of_ok rfl) (not_not_intro trivial)
  | nearest => exact Step.breaksDown_convert_iff
  | file given =>
    rw [HasSettings, ← Settings.exists_ofFile_iff, ← Step.breaksDown_convert_iff]
    refine Step.breaksDown_bind_iff_of_not fun found => ?_
    cases found with
    | none => exact nofun
    | some settings => exact Step.not_breaksDown_of_ok rfl

theorem breaksDown_readText_iff (hp : p.IsName) :
    (s.readText settings p).BreaksDown
      ↔ ¬ s.tree.HasCodec s.platform.codecs s.current p settings.encoding := by
  rw [readText]
  cases hread : s.tree.readText s.platform.codecs s.current p settings.encoding with
  | error e =>
    rw [← FileTree.isBreakdown_iff_of_readText hp hread]
    exact breaksDown_stopOfLoad_iff
  | ok t =>
    obtain ⟨hnull, _, c, -, hcodec, -⟩ := FileTree.readText_eq_ok_iff.1 hread
    exact iff_of_false (Step.not_breaksDown_of_ok rfl)
      (not_not_intro ⟨hnull, fun _ _ => ⟨c, hcodec⟩⟩)

theorem not_breaksDown_loadStore {codec : Codec} (hp : p.IsName)
    (hcurrent : (Path.ofLocation s.current).IsName)
    (hnull : settings.encoding.contains '\x00' = false)
    (hcodec : s.platform.codecs settings.encoding = .ok codec) :
    ¬ (s.loadStore settings false p).BreaksDown := by
  obtain ⟨l, hl, -⟩ := Path.exists_resolve hp hcurrent
  simp only [loadStore, hl]
  refine Step.not_breaksDown_bind (Step.not_breaksDown_of_ok rfl) fun _ =>
    Step.not_breaksDown_bind (Step.not_breaksDown_of_ok rfl) fun _ => ?_
  split
  · exact Step.not_breaksDown_of_ok rfl
  · next e he =>
    rw [breaksDown_stopOfLoad_iff]
    exact Store.not_isBreakdown_of_loadFile ⟨rfl, rfl⟩ hnull hcodec hp hcurrent he

end Scene

/-! ## The verdict on a file -/

/-- **What a file is saved as**: it holds the one text, and the store that
is loaded from it is saved as the other, which may be the same. -/
def Saves (s : Scene) (c : ConfigChoice) (p : Path) (held saved : Text) : Prop :=
  ∃ settings st, (s.settings c p).result = .ok settings ∧
    (s.readText settings p).result = .ok held ∧
    (s.loadStore settings false p).result = .ok st ∧ saved = st.toText

/-- **What a verdict says of a file.** -/
structure Judges (s : Scene) (c : ConfigChoice) (p : Path) (v : Verdict) : Prop where
  /-- A file passes if and only if it is saved as the text it holds. -/
  passed_iff : v = .passed ↔ ∃ t, Saves s c p t t
  /-- It differs if and only if it is saved as another text. -/
  differs_iff : ∀ held saved, v = .differs held saved ↔ Saves s c p held saved ∧ held ≠ saved
  /-- It cannot be judged if and only if there is a failure on the way. -/
  faulty_iff : ∀ f, v = .faulty f ↔ (Verdict.texts s p c).result = .error (.failed f)

/-- **Whether there is a verdict on a file**: its settings can be told,
and they give it an encoding that is one. -/
structure Scene.HasVerdict (s : Scene) (c : ConfigChoice) (p : Path) : Prop where
  /-- The settings can be told. -/
  settings : s.HasSettings c p
  /-- The encoding is one. -/
  encoding : ∀ settings, (s.settings c p).result = .ok settings →
    s.tree.HasCodec s.platform.codecs s.current p settings.encoding

section
variable {s : Scene} {c : ConfigChoice} {p : Path}

theorem result_texts_eq_ok_iff {held saved : Text} :
    (Verdict.texts s p c).result = .ok (held, saved) ↔ Saves s c p held saved := by
  rw [Verdict.texts, Reporting.result_bind_eq_ok_iff]
  simp only [Reporting.result_bind_eq_ok_iff, Reporting.result_pure, Except.ok.injEq,
    Prod.mk.injEq]
  constructor
  · rintro ⟨settings, hsettings, _, hheld, st, hst, rfl, rfl⟩
    exact ⟨settings, st, hsettings, hheld, hst, rfl⟩
  · rintro ⟨settings, st, hsettings, hheld, hst, rfl⟩
    exact ⟨settings, hsettings, held, hheld, st, hst, rfl, rfl⟩

/-- The verdict on a file is what its two texts, or the failure to get at
them, come to. -/
theorem judges_of_ofFile {v : Verdict} (h : (Verdict.ofFile s p c).result = .ok v) :
    Judges s c p v := by
  rw [Verdict.ofFile] at h
  cases hresult : (Verdict.texts s p c).result with
  | ok texts =>
    obtain ⟨held, saved⟩ := texts
    rw [hresult] at h
    obtain rfl : Verdict.ofTexts held saved = v := Except.ok.inj h
    have hsaves : ∀ t u, Saves s c p t u ↔ held = t ∧ saved = u := by
      intro t u
      rw [← result_texts_eq_ok_iff, hresult, Except.ok.injEq, Prod.mk.injEq]
    have hfaulty : ∀ f, (Verdict.texts s p c).result ≠ .error (.failed f) :=
      fun f hf => nomatch hresult.symm.trans hf
    by_cases hsame : held = saved
    · rw [Verdict.ofTexts, if_pos hsame]
      refine ⟨iff_of_true rfl ⟨held, (hsaves held held).2 ⟨rfl, hsame.symm⟩⟩,
        fun t u => iff_of_false nofun ?_, fun f => iff_of_false nofun (hfaulty f)⟩
      rintro ⟨h, hne⟩
      obtain ⟨rfl, rfl⟩ := (hsaves t u).1 h
      exact hne hsame
    · rw [Verdict.ofTexts, if_neg hsame]
      refine ⟨iff_of_false nofun ?_, fun t u => ?_, fun f => iff_of_false nofun (hfaulty f)⟩
      · rintro ⟨t, h⟩
        obtain ⟨rfl, hsaved⟩ := (hsaves t t).1 h
        exact hsame hsaved.symm
      · rw [hsaves, Verdict.differs.injEq]
        refine (and_iff_left_of_imp ?_).symm
        rintro ⟨rfl, rfl⟩
        exact hsame
  | error stop =>
    have hsaves : ∀ t u, ¬ Saves s c p t u := by
      intro t u h
      cases hresult.symm.trans (result_texts_eq_ok_iff.2 h)
    cases stop with
    | broken b =>
      rw [hresult] at h
      cases h
    | failed f =>
      rw [hresult] at h
      cases h
      refine ⟨iff_of_false nofun fun ⟨t, h⟩ => hsaves t t h,
        fun t u => iff_of_false nofun fun h => hsaves t u h.1, fun f' => ?_⟩
      rw [hresult, Verdict.faulty.injEq, Except.error.injEq, Stop.failed.injEq]

/-- **There is a verdict on every file but those that break the check
down.** -/
theorem exists_ofFile_iff (hp : p.IsName) (hcurrent : (Path.ofLocation s.current).IsName) :
    (∃ v, (Verdict.ofFile s p c).result = .ok v) ↔ s.HasVerdict c p := by
  have hbroken : (∃ v, (Verdict.ofFile s p c).result = .ok v)
      ↔ ¬ (Verdict.texts s p c).BreaksDown := by
    rw [Verdict.ofFile, Step.BreaksDown]
    cases (Verdict.texts s p c).result with
    | ok texts => simp
    | error stop => cases stop <;> simp
  rw [hbroken, Verdict.texts, Step.breaksDown_bind_iff, Scene.breaksDown_settings_iff]
  constructor
  · intro h
    obtain ⟨hsettings, henc⟩ := not_or.1 h
    refine ⟨not_not.1 hsettings, fun settings hresult => ?_⟩
    by_contra hcodec
    refine henc ⟨settings, hresult, ?_⟩
    rw [Step.breaksDown_bind_iff, Scene.breaksDown_readText_iff hp]
    exact .inl hcodec
  · rintro ⟨hsettings, henc⟩
    refine not_or.2 ⟨not_not_intro hsettings, ?_⟩
    rintro ⟨settings, hresult, h⟩
    rw [Step.breaksDown_bind_iff, Scene.breaksDown_readText_iff hp] at h
    obtain hcodec | ⟨held, hheld, h⟩ := h
    · exact hcodec (henc settings hresult)
    · -- a text was read, so a codec is there when the store is loaded
      obtain ⟨hnull, _, codec, -, hcodec, -⟩ := Scene.readText_spec hheld
      refine Step.not_breaksDown_bind ?_ (fun _ => Step.not_breaksDown_of_ok rfl) h
      exact Scene.not_breaksDown_loadStore hp hcurrent hnull hcodec

end

/-! ## What is reported -/

/-- Whether a message is a verdict: a line of results, or an error that
the user is told of. -/
def Message.isVerdict : Message → Bool
  | .line _ | .error _ => true
  | _ => false

/-- What is said first of a verdict; without more output, it is all that
is said. -/
def Verdict.headline (p : Path) (v : Verdict) : Message :=
  (v.messages 0 p).head (by cases v <;> exact List.cons_ne_nil _ _)

theorem Verdict.filter_messages (verbose : Nat) (p : Path) (v : Verdict) :
    (v.messages verbose p).filter Message.isVerdict = [v.headline p] := by
  cases v with
  | passed | faulty f => rfl
  | differs held saved =>
    rw [messages]
    split <;> rfl

/-- Whether a step reports no verdict. -/
def Step.IsSilent {α : Type} (x : Step α) : Prop := ∀ m ∈ x.reports, m.isVerdict = false

namespace Step

variable {α β : Type} {x : Step α}

theorem isSilent_of_nil (h : x.reports = []) : x.IsSilent := by
  rw [IsSilent, h]
  exact nofun

theorem IsSilent.bind {f : α → Step β} (hx : x.IsSilent) (hf : ∀ a, (f a).IsSilent) :
    (x >>= f).IsSilent := by
  intro m hm
  cases hresult : x.result with
  | error stop =>
    rw [(Reporting.bind_of_error hresult f).2] at hm
    exact hx m hm
  | ok a =>
    rw [(Reporting.bind_of_ok hresult f).2] at hm
    exact (List.mem_append.1 hm).elim (hx m) (hf a m)

theorem isSilent_convert {ε : Type} (y : Reporting Log.Record ε α) (g : ε → Stop) :
    IsSilent (y.convert .log g) := by
  intro m hm
  obtain ⟨r, -, rfl⟩ := List.mem_map.1 hm
  rfl

theorem isSilent_reportAll {ms : List Message} (h : ∀ m ∈ ms, m.isVerdict = false) :
    IsSilent (.reportAll ms : Step Unit) := h

end Step

theorem isSilent_stopOfLoad {α : Type} (p : Path) (e : LoadError) :
    (stopOfLoad p e : Step α).IsSilent := by
  cases e with
  | file fault =>
    obtain ⟨fault, path⟩ := fault
    cases fault with
    | notFound | isDirectory => exact List.forall_mem_singleton.2 rfl
    | denied | notDirectory | nameTooLong => exact Step.isSilent_of_nil rfl
  | undecodable _ | parse _ | notFound _ _ | cycle _ _ | path _ | encoding _ =>
    exact Step.isSilent_of_nil rfl

namespace Scene

theorem isSilent_settings (s : Scene) (c : ConfigChoice) (p : Path) :
    (s.settings c p).IsSilent := by
  refine Step.IsSilent.bind ?_ fun settings => (Step.isSilent_reportAll ?_).bind fun _ =>
    Step.isSilent_of_nil rfl
  · cases c with
    | none => exact Step.isSilent_of_nil rfl
    | nearest => exact Step.isSilent_convert _ _
    | file given =>
      refine (Step.isSilent_convert _ _).bind fun found => ?_
      cases found <;> exact Step.isSilent_of_nil rfl
  · exact List.forall_mem_map.2 fun _ _ => rfl

theorem isSilent_readText (s : Scene) (settings : Settings) (p : Path) :
    (s.readText settings p).IsSilent := by
  rw [readText]
  split
  · exact Step.isSilent_of_nil rfl
  · exact isSilent_stopOfLoad p _

theorem isSilent_loadStore (s : Scene) (settings : Settings) (follow : Bool) (p : Path) :
    (s.loadStore settings follow p).IsSilent := by
  rw [loadStore]
  split
  · exact Step.isSilent_of_nil rfl
  · refine Step.IsSilent.bind (List.forall_mem_singleton.2 rfl) fun _ =>
      (Step.isSilent_reportAll ?_).bind fun _ => ?_
    · intro m hm
      obtain ⟨n, -, hn⟩ := List.mem_flatMap.1 hm
      cases n with
      | opened _ _ => cases hn
      | skipped _ _ => exact List.mem_singleton.1 hn ▸ rfl
    · split
      · exact Step.isSilent_of_nil rfl
      · exact isSilent_stopOfLoad p _

end Scene

/-- On the way to a verdict none is reported. -/
theorem filter_reports_ofFile (s : Scene) (p : Path) (c : ConfigChoice) :
    (Verdict.ofFile s p c).reports.filter Message.isVerdict = [] := by
  have hsilent : (Verdict.texts s p c).IsSilent :=
    (s.isSilent_settings c p).bind fun settings => (s.isSilent_readText settings p).bind fun held =>
      (s.isSilent_loadStore settings false p).bind fun st => Step.isSilent_of_nil rfl
  rw [List.filter_eq_nil_iff]
  intro m hm
  exact Bool.eq_false_iff.1 (hsilent m hm)

/-! ## One file after the other -/

section
variable {s : Scene} {c : ConfigChoice} {p : Path}

/-- A file on which there is a verdict is reported, and the next ones
follow. -/
theorem judge_of_ok {v : Verdict} (h : (Verdict.ofFile s p c).result = .ok v)
    (rest : List Path) :
    (judge s c (p :: rest)).result = (judge s c rest).result.map (v :: ·) ∧
      (judge s c (p :: rest)).reports
        = (Verdict.ofFile s p c).reports
          ++ (v.messages s.verbose p ++ (judge s c rest).reports) := by
  obtain ⟨hresult, hreports⟩ := Reporting.bind_of_ok h fun v => (do
    .reportAll (v.messages s.verbose p)
    return v :: (← judge s c rest) : Reporting Message Breakdown (List Verdict))
  have hrest := Reporting.bind_pure (judge s c rest) (v :: ·)
  rw [judge, hresult, hreports]
  refine ⟨congrArg (·.result) hrest, ?_⟩
  exact congrArg (fun y => (Verdict.ofFile s p c).reports
    ++ (v.messages s.verbose p ++ y.reports)) hrest

/-- **A check of many files**: there is a verdict on each of the first
files, and either these are all files, or the next one ends the check. -/
theorem judge_cases (s : Scene) (c : ConfigChoice) (files : List Path) :
    ∃ before behind verdicts, files = before ++ behind ∧
      List.Forall₂ (fun p v => (Verdict.ofFile s p c).result = .ok v) before verdicts ∧
      (judge s c files).reports.filter Message.isVerdict
        = List.zipWith Verdict.headline before verdicts ∧
      ((behind = [] ∧ (judge s c files).result = .ok verdicts) ∨
        ∃ p rest b, behind = p :: rest ∧ (Verdict.ofFile s p c).result = .error b ∧
          (judge s c files).result = .error b) := by
  induction files with
  | nil => exact ⟨[], [], [], rfl, .nil, rfl, .inl ⟨rfl, rfl⟩⟩
  | cons p rest ih =>
    cases hp : (Verdict.ofFile s p c).result with
    | error b =>
      obtain ⟨hresult, hreports⟩ := Reporting.bind_of_error hp fun v => (do
        .reportAll (v.messages s.verbose p)
        return v :: (← judge s c rest) : Reporting Message Breakdown (List Verdict))
      refine ⟨[], p :: rest, [], rfl, .nil, ?_, .inr ⟨p, rest, b, rfl, hp, hresult⟩⟩
      rw [judge, hreports, filter_reports_ofFile]
      rfl
    | ok v =>
      obtain ⟨before, behind, verdicts, rfl, hverdicts, hsaid, hend⟩ := ih
      obtain ⟨hresult, hreports⟩ := judge_of_ok hp (before ++ behind)
      refine ⟨p :: before, behind, v :: verdicts, rfl, .cons hp hverdicts, ?_, ?_⟩
      · rw [hreports, List.filter_append, List.filter_append, filter_reports_ofFile,
          Verdict.filter_messages, hsaid]
        rfl
      · rw [hresult]
        obtain ⟨rfl, hall⟩ | ⟨q, later, b, rfl, hq, hbroken⟩ := hend
        · exact .inl ⟨rfl, by rw [hall]; rfl⟩
        · exact .inr ⟨q, later, b, rfl, hq, by rw [hbroken]; rfl⟩

end

section
variable {s : Scene} {c : ConfigChoice} {files : List Path}

theorem runCheck_of_ok {verdicts : List Verdict} (h : (judge s c files).result = .ok verdicts) :
    (runCheck s files c).result = .ok (outcomeOf verdicts) := by
  have hconvert : ((judge s c files).convert (id : Message → Message) Stop.broken).result
      = .ok verdicts := by
    rw [Reporting.convert, h]
    rfl
  exact (Reporting.bind_of_ok hconvert _).1

theorem runCheck_of_error {b : Breakdown} (h : (judge s c files).result = .error b) :
    (runCheck s files c).result = .error (.broken b) := by
  have hconvert : ((judge s c files).convert (id : Message → Message) Stop.broken).result
      = .error (.broken b) := by
    rw [Reporting.convert, h]
    rfl
  exact (Reporting.bind_of_error hconvert _).1

/-- Behind the last file no verdict is reported. -/
theorem filter_reports_runCheck (s : Scene) (files : List Path) (c : ConfigChoice) :
    (runCheck s files c).reports.filter Message.isVerdict
      = (judge s c files).reports.filter Message.isVerdict := by
  have hreports : ((judge s c files).convert (id : Message → Message) Stop.broken).reports
      = (judge s c files).reports := List.map_id _
  rw [runCheck]
  cases hresult : ((judge s c files).convert (id : Message → Message) Stop.broken).result with
  | error stop => rw [(Reporting.bind_of_error hresult _).2, hreports]
  | ok verdicts =>
    rw [(Reporting.bind_of_ok hresult _).2, hreports, List.filter_append]
    exact List.append_nil _

end

/-! ## How a check ends -/

/-- **How a check ends, by its verdicts.** -/
inductive EndsAs : List Verdict → Outcome → Prop
  /-- As the first file that cannot be judged. -/
  | faulty {before behind : List Verdict} {f : Failure} :
      (∀ v ∈ before, v.failure? = none) → EndsAs (before ++ .faulty f :: behind) f.outcome
  /-- All files can be judged, and one of them differs. -/
  | differs {verdicts : List Verdict} {held saved : Text} :
      (∀ v ∈ verdicts, v.failure? = none) → .differs held saved ∈ verdicts →
      EndsAs verdicts .wouldChange
  /-- All files pass. -/
  | passed {verdicts : List Verdict} : (∀ v ∈ verdicts, v = .passed) → EndsAs verdicts .success

theorem endsAs_iff {verdicts : List Verdict} {o : Outcome} :
    EndsAs verdicts o ↔ o = outcomeOf verdicts := by
  constructor
  · intro h
    cases h with
    | faulty hbefore =>
      rw [outcomeOf, List.findSome?_append, List.findSome?_eq_none_iff.2 hbefore]
      rfl
    | differs hnone hmem =>
      rw [outcomeOf, List.findSome?_eq_none_iff.2 hnone]
      exact (if_pos (List.any_eq_true.2 ⟨_, hmem, rfl⟩)).symm
    | passed hall =>
      have hnone : ∀ v ∈ verdicts, v.failure? = none := fun v hv => by rw [hall v hv]; rfl
      have hsame : ¬ verdicts.any Verdict.isDifference = true := by
        rw [List.any_eq_true]
        rintro ⟨v, hv, hdiffers⟩
        rw [hall v hv] at hdiffers
        cases hdiffers
      rw [outcomeOf, List.findSome?_eq_none_iff.2 hnone]
      exact (if_neg hsame).symm
  · rintro rfl
    rw [outcomeOf]
    cases hfirst : verdicts.findSome? Verdict.failure? with
    | some f =>
      obtain ⟨before, v, behind, rfl, hv, hbefore⟩ := List.findSome?_eq_some_iff.1 hfirst
      cases v with
      | passed | differs _ _ => cases hv
      | faulty f' =>
        cases hv
        exact .faulty hbefore
    | none =>
      rw [List.findSome?_eq_none_iff] at hfirst
      show EndsAs verdicts (if verdicts.any Verdict.isDifference then _ else _)
      split
      · next hany =>
        obtain ⟨v, hv, hdiffers⟩ := List.any_eq_true.1 hany
        cases v with
        | passed | faulty _ => cases hdiffers
        | differs held saved => exact .differs hfirst hv
      · next hany =>
        refine .passed fun v hv => ?_
        cases v with
        | passed => rfl
        | faulty f => cases hfirst _ hv
        | differs held saved => exact absurd (List.any_eq_true.2 ⟨_, hv, rfl⟩) hany

/-! ## Runs -/

/-- A step that does not fail has all its reports printed, and no more. -/
theorem RunEnding.ofStep_shown {k : Look} {tree : FileTree} {x : Step Outcome}
    (h : ∀ f, x.result ≠ .error (.failed f)) :
    (RunEnding.ofStep k tree x).out = printed k .out x.reports ∧
      (RunEnding.ofStep k tree x).err = printed k .err x.reports := by
  cases hresult : x.result with
  | ok o => simp [ofStep, hresult]
  | error stop =>
    cases stop with
    | failed f => exact absurd hresult (h f)
    | broken b => simp [ofStep, hresult]

/-- **What a check does**, given the files that it comes to judge and
those behind them. -/
structure Checks (s : Scene) (files : List Path) (c : ConfigChoice) (k : Look)
    (before behind : List Path) (verdicts : List Verdict) (ending : RunEnding) : Prop where
  /-- All files are the one or the other. -/
  parts : files = before ++ behind
  /-- There is a verdict on each of the first files. -/
  hasVerdict : ∀ p ∈ before, s.HasVerdict c p
  /-- It is the right one. -/
  judged : List.Forall₂ (Judges s c) before verdicts
  /-- Each of the verdicts is reported once, in order. -/
  said : (runCheck s files c).reports.filter Message.isVerdict
    = List.zipWith Verdict.headline before verdicts
  /-- All that is reported is printed. -/
  shown : ending.out = printed k .out (runCheck s files c).reports ∧
    ending.err = printed k .err (runCheck s files c).reports
  /-- The files are left as they are. -/
  untouched : ending.tree = s.tree
  /-- A check that comes to all files ends by the verdicts on them. -/
  ended : behind = [] → ending.breakdown = none ∧ ∃ o, EndsAs verdicts o ∧ ending.code = o.code
  /-- Otherwise it breaks down at a file on which there is no verdict. -/
  broken : ∀ p rest, behind = p :: rest →
    ¬ s.HasVerdict c p ∧ ending.breakdown.isSome ∧ ending.code = Outcome.failure.code

/-- A check judges its files up to the first one on which there is no
verdict. -/
theorem runCheck_checks {s : Scene} {files : List Path} {c : ConfigChoice}
    (hfiles : ∀ p ∈ files, p.IsName) (hcurrent : (Path.ofLocation s.current).IsName) (k : Look) :
    ∃ before behind verdicts,
      Checks s files c k before behind verdicts (.ofStep k s.tree (runCheck s files c)) := by
  obtain ⟨before, behind, verdicts, rfl, hverdicts, hsaid, hend⟩ := judge_cases s c files
  have hfound : ∀ p ∈ before, ∃ v, (Verdict.ofFile s p c).result = .ok v :=
    ((List.forall₂_and_left before verdicts).1 (hverdicts.imp fun _ v h => ⟨⟨v, h⟩, h⟩)).1
  have hhas : ∀ p ∈ before, s.HasVerdict c p := fun p hp =>
    (exists_ofFile_iff (hfiles p (List.mem_append_left _ hp)) hcurrent).1 (hfound p hp)
  have hjudged := hverdicts.imp fun p v => judges_of_ofFile
  have hresult : (behind = [] ∧ (runCheck s (before ++ behind) c).result = .ok (outcomeOf verdicts))
      ∨ ∃ p rest b, behind = p :: rest ∧ (Verdict.ofFile s p c).result = .error b ∧
        (runCheck s (before ++ behind) c).result = .error (.broken b) := by
    obtain ⟨hnil, hall⟩ | ⟨p, rest, b, hcons, hp, hbroken⟩ := hend
    · exact .inl ⟨hnil, runCheck_of_ok hall⟩
    · exact .inr ⟨p, rest, b, hcons, hp, runCheck_of_error hbroken⟩
  -- a failure is the verdict on a file, and never that of the check
  have hnofail : ∀ f, (runCheck s (before ++ behind) c).result ≠ .error (.failed f) := by
    intro f hf
    obtain ⟨-, h⟩ | ⟨_, _, _, -, -, h⟩ := hresult
    · cases h.symm.trans hf
    · cases h.symm.trans hf
  exact ⟨before, behind, verdicts, {
    parts := rfl
    hasVerdict := hhas
    judged := hverdicts.imp fun p v => judges_of_ofFile
    said := by rw [filter_reports_runCheck, hsaid]
    shown := RunEnding.ofStep_shown hnofail
    untouched := rfl
    ended := by
      rintro rfl
      obtain ⟨-, h⟩ | ⟨_, _, _, ⟨⟩, -, -⟩ := hresult
      rw [RunEnding.ofStep, h]
      exact ⟨rfl, _, endsAs_iff.2 rfl, rfl⟩
    broken := by
      rintro p rest rfl
      obtain ⟨⟨⟩, -⟩ | ⟨_, _, b, ⟨⟩, hp, h⟩ := hresult
      rw [RunEnding.ofStep, h]
      refine ⟨fun hverdict => ?_, rfl, rfl⟩
      have hname := hfiles p (List.mem_append_right _ List.mem_cons_self)
      obtain ⟨v, hv⟩ := (exists_ofFile_iff hname hcurrent).2 hverdict
      cases hp.symm.trans hv }⟩

/-- **A check judges every file** if and only if there is a verdict on
every file; else it judges those up to the first one on which there is
none. -/
theorem check_judges_all_iff {site : Site} {shared : Shared} {files : List Path} {c : ConfigChoice}
    (hfiles : ∀ p ∈ files, p.IsName) (hcurrent : (Path.ofLocation site.current).IsName)
    {level : Int} (hlevel : levelOf shared site.env = .ok level) :
    ∃ before behind verdicts,
      Checks (site.scene shared) files c
          ⟨usesColor shared.color shared.noColor site.env, level⟩ before behind verdicts
          (Invocation.run site { shared, command := .check files c }) ∧
        (behind = [] ↔ ∀ p ∈ files, (site.scene shared).HasVerdict c p) := by
  rw [Invocation.run, Shared.start, hlevel]
  obtain ⟨before, behind, verdicts, hchecks⟩ := runCheck_checks
    (s := site.scene shared) (c := c) hfiles hcurrent
    ⟨usesColor shared.color shared.noColor site.env, level⟩
  refine ⟨before, behind, verdicts, hchecks, ?_, ?_⟩
  · rintro rfl p hp
    rw [hchecks.parts, List.append_nil] at hp
    exact hchecks.hasVerdict p hp
  · intro hall
    cases behind with
    | nil => rfl
    | cons p later =>
      refine absurd (hall p ?_) (hchecks.broken p later rfl).1
      rw [hchecks.parts]
      exact List.mem_append_right _ List.mem_cons_self

/-- A place with two files: one for which there are no settings but the
defaults, and one in a directory whose settings name no encoding. -/
def mixedSite : Site where
  platform := .standard
  tree := {
    files := [(["sub".toList, "proplay.toml".toList],
        "encoding = 'nope'\n".toList.flatMap Encoding.utf8Bytes),
      (["sub".toList, "a.properties".toList], appBytes), (["b.properties".toList], appBytes)]
    directories := [] }
  current := []

/-- A check of the file of a name, and of the second file. -/
def checkWith (first : String) : Invocation where
  command := .check [Path.ofText first.toList, Path.ofText "b.properties".toList] .nearest

/-- A check of a file that is not there, and of one that is. -/
theorem check_judges_all_iff_missing :
    let s := mixedSite.scene {}
    let files := [Path.ofText "no.properties".toList, Path.ofText "b.properties".toList]
    let ending := (checkWith "no.properties").run mixedSite
    ending.code = Outcome.fileNotFound.code ∧ ending.out = "✔ b.properties\n".toList ∧
      ∃ before behind verdicts,
        Checks s files .nearest ⟨false, Log.Severity.warning.level⟩ before behind verdicts ending ∧
          (behind = [] ↔ ∀ p ∈ files, s.HasVerdict .nearest p) := by
  intro s files ending
  exact ⟨by decide +kernel, by decide +kernel,
    check_judges_all_iff (by decide) (by decide) (show levelOf _ _ = .ok _ by rfl)⟩

/-- **An encoding that is none ends a check.** Behind a file whose settings
name one, a file that would pass is not reported. -/
theorem not_check_judges_all_encoding :
    let ending := (checkWith "sub/a.properties").run mixedSite
    ending.out = [] ∧ ending.err = [] ∧
      ending.breakdown
        = some (.load (.encoding (.unknown (Encoding.unknownMessage "nope".toList)))) ∧
      ((checkWith "b.properties").run mixedSite).out
        = "✔ b.properties\n✔ b.properties\n".toList := by
  decide +kernel

end CommandLine

end PropertyFile

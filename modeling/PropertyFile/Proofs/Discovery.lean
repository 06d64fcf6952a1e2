import PropertyFile.Proofs.Configuration

/-!
# Finding the configuration file

Which file a directory has for its settings is said twice. Reading a file
of a project yields settings as soon as it has a table for them, be it
empty; the search for the file that counts passes over an empty table
like over none. `configFileOf` is the file of a directory as reading has
it, and `IsNearest` the one that counts for a place by it. The search
finds this one, and the settings that count are those in it, if and only
if every directory it comes to can be told (`CanTell`): it can be seen
whether its files are there, and a file of a project that it looks into
can be read, has no empty table of settings, and none in which a value
cannot be shown (`discovery_agrees_iff`).
-/

namespace PropertyFile.Settings

variable {parse : Toml.Reader} {tree : FileTree} {current : Location} {p : Path}
  {d base : Location}

/-! ## Files -/

/-- Whether a file lies at a path. -/
def isThere (tree : FileTree) (current : Location) (p : Path) : Bool :=
  match tree.walk current p with
  | .file _ _ => true
  | _ => false

/-- Whether it can be seen what lies at a path: the path is not too long,
and does not lead through a directory that may not be searched. -/
def CanSee (tree : FileTree) (current : Location) (p : Path) : Prop :=
  tree.walk current p ≠ .fault .nameTooLong ∧ tree.walk current p ≠ .fault .denied

/-- Where it can be seen, looking for a file tells whether it is there. -/
theorem CanSee.isFile_eq (h : CanSee tree current p) :
    isFile tree current p = .ok (isThere tree current p) := by
  obtain ⟨hlong, hdenied⟩ := h
  rw [isFile, isThere]
  cases hwalk : tree.walk current p with
  | fault f =>
    cases f with
    | nameTooLong => exact absurd hwalk hlong
    | denied => exact absurd hwalk hdenied
    | _ => rfl
  | _ => rfl

theorem exists_isFile_eq_error (h : ¬ CanSee tree current p) :
    ∃ f, isFile tree current p = .error f := by
  rw [isFile]
  by_cases hlong : tree.walk current p = .fault .nameTooLong
  · exact ⟨_, by rw [hlong]⟩
  · by_cases hdenied : tree.walk current p = .fault .denied
    · exact ⟨_, by rw [hdenied]⟩
    · exact absurd ⟨hlong, hdenied⟩ h

/-- Whether there are settings in a file. -/
def hasSettings (parse : Toml.Reader) (tree : FileTree) (current : Location) (p : Path) : Bool :=
  match (ofFile parse tree current p).result with
  | .ok (some _) => true
  | _ => false

theorem name_ownFile (d : Location) : (ownFile d).name = fileName := by
  simp [ownFile, Path.name, Path.ofLocation]

/-- **The configuration file of a directory**: its own one, or else that
of a project if there are settings in it. -/
def configFileOf (parse : Toml.Reader) (tree : FileTree) (current d : Location) : Option Path :=
  if isThere tree current (ownFile d) then some (ownFile d)
  else if isThere tree current (projectFile d) &&
      hasSettings parse tree current (projectFile d) then
    some (projectFile d)
  else none

/-- Whether it can be told which file a directory has. -/
structure CanTell (parse : Toml.Reader) (tree : FileTree) (current d : Location) : Prop where
  /-- Its own file can be seen. -/
  own : CanSee tree current (ownFile d)
  /-- So can the file of a project, where it matters. -/
  project : isThere tree current (ownFile d) = false → CanSee tree current (projectFile d)
  /-- If the file of a project is looked into, it can be read, and its
  table of settings is not an empty one, nor one that holds a value that
  cannot be shown. -/
  table : isThere tree current (ownFile d) = false →
    isThere tree current (projectFile d) = true →
    ∃ t : Toml.Table, (readTable parse tree current (projectFile d)).result = .ok t ∧
      ∀ inner, t.dotted? projectTable = some inner → inner ≠ [] ∧ IsTellable inner

/-- Of a table that can be read, it can be told whether there are settings
in it. -/
theorem hasSettings_projectFile_iff {t : Toml.Table}
    (h : (readTable parse tree current (projectFile d)).result = .ok t) :
    hasSettings parse tree current (projectFile d) = true
      ↔ ∃ inner, t.dotted? projectTable = some inner ∧ IsTellable inner := by
  rw [hasSettings, result_ofFile_of_table h, settingsTable?, if_pos (name_projectFile d)]
  cases t.dotted? projectTable with
  | none => simp
  | some inner =>
    simp only [Option.some.injEq, exists_eq_left']
    rw [← exists_ofTable_iff inner (settingsPlace (projectFile d)) (some (projectFile d))]
    cases (ofTable inner (settingsPlace (projectFile d)) (some (projectFile d))).result with
    | ok s => exact iff_of_true rfl ⟨s, rfl⟩
    | error e =>
      refine iff_of_false Bool.false_ne_true ?_
      rintro ⟨_, ⟨⟩⟩

/-- **In a directory that can be told, the search agrees with reading.** -/
theorem CanTell.result_fileIn (h : CanTell parse tree current d) :
    (fileIn parse tree current d).result = .ok (configFileOf parse tree current d) := by
  rw [Settings.result_fileIn, h.own.isFile_eq, configFileOf]
  cases hown : isThere tree current (ownFile d) with
  | true => rfl
  | false =>
    rw [(h.project hown).isFile_eq]
    cases hproject : isThere tree current (projectFile d) with
    | false => rfl
    | true =>
      obtain ⟨t, ht, hinner⟩ := h.table hown hproject
      have hsettings := hasSettings_projectFile_iff ht
      simp only [ht, Except.map, chosen?]
      cases hdotted : t.dotted? projectTable with
      | none => simp_all
      | some inner =>
        obtain ⟨hne, htell⟩ := hinner inner hdotted
        rw [hsettings.2 ⟨inner, hdotted, htell⟩]
        cases inner with
        | nil => exact absurd rfl hne
        | cons e rest => rfl

/-- In one that cannot be told, the search fails, or passes over the file
of a project that has settings, or finds one whose settings cannot be
told. -/
theorem result_fileIn_of_not_canTell (h : ¬ CanTell parse tree current d) :
    (∃ f, (fileIn parse tree current d).result = .error f) ∨
      ((fileIn parse tree current d).result = .ok none ∧
        configFileOf parse tree current d = some (projectFile d)) ∨
      ((fileIn parse tree current d).result = .ok (some (projectFile d)) ∧
        configFileOf parse tree current d = none) := by
  rw [Settings.result_fileIn, configFileOf]
  by_cases hown : CanSee tree current (ownFile d)
  case neg =>
    obtain ⟨f, hf⟩ := exists_isFile_eq_error hown
    exact .inl ⟨f, by rw [hf]⟩
  rw [hown.isFile_eq]
  cases hthere : isThere tree current (ownFile d) with
  | true => exact absurd ⟨hown, by simp [hthere], by simp [hthere]⟩ h
  | false =>
    by_cases hproject : CanSee tree current (projectFile d)
    case neg =>
      obtain ⟨f, hf⟩ := exists_isFile_eq_error hproject
      exact .inl ⟨f, by rw [hf]⟩
    rw [hproject.isFile_eq]
    cases hfile : isThere tree current (projectFile d) with
    | false => exact absurd ⟨hown, fun _ => hproject, by simp [hfile]⟩ h
    | true =>
      cases htable : (readTable parse tree current (projectFile d)).result with
      | error f => exact .inl ⟨f, rfl⟩
      | ok t =>
        have hsettings := hasSettings_projectFile_iff htable
        have htell : ¬ ∀ inner, t.dotted? projectTable = some inner →
            inner ≠ [] ∧ IsTellable inner :=
          fun hall => h ⟨hown, fun _ => hproject, fun _ _ => ⟨t, htable, hall⟩⟩
        cases hdotted : t.dotted? projectTable with
        | none =>
          have hnone : ∀ inner, t.dotted? projectTable ≠ some inner := by simp [hdotted]
          exact absurd (fun inner hinner => absurd hinner (hnone inner)) htell
        | some inner =>
          rw [hdotted] at hsettings htell
          simp only [Option.some.injEq, exists_eq_left', forall_eq'] at hsettings htell
          cases inner with
          | nil =>
            -- the empty table has settings, which the search does not ask for
            refine .inr (.inl ⟨?_, ?_⟩)
            · simp only [Except.map, chosen?, hdotted]
            · simp [hsettings.2 isTellable_nil]
          | cons e rest =>
            have hnot : ¬ IsTellable (e :: rest) := fun hall =>
              htell ⟨List.cons_ne_nil e rest, hall⟩
            refine .inr (.inr ⟨?_, ?_⟩)
            · simp only [Except.map, chosen?, hdotted]
            · simp [Bool.eq_false_iff.2 fun hs => hnot (hsettings.1 hs)]

/-! ## Going upwards -/

theorem mem_upwards {x : Location} : x ∈ upwards base ↔ x <+: base := by
  rw [upwards, List.mem_map, List.prefix_iff_eq_take]
  constructor
  · rintro ⟨i, hi, rfl⟩
    have hle : i ≤ base.length := by simpa [Nat.lt_succ_iff] using hi
    rw [List.length_take, Nat.min_eq_left hle]
  · intro h
    refine ⟨x.length, ?_, h.symm⟩
    have hle := congrArg List.length h
    rw [List.length_take] at hle
    simp
    omega

/-- The nearest directories come first. -/
theorem pairwise_upwards (base : Location) :
    (upwards base).Pairwise fun a b => b.length < a.length := by
  rw [upwards, List.pairwise_map, List.pairwise_reverse]
  refine List.pairwise_lt_range.imp_of_mem fun {i j} hi hj hij => ?_
  simp only [List.mem_range, List.length_take] at hi hj ⊢
  omega

/-- What stands before a directory on the way up is what lies below
it. -/
theorem mem_before_iff {before after : List Location} {x : Location}
    (h : upwards base = before ++ d :: after) :
    x ∈ before ↔ x <+: base ∧ d.length < x.length := by
  have hpairwise := pairwise_upwards base
  rw [h, List.pairwise_append, List.pairwise_cons] at hpairwise
  obtain ⟨-, ⟨hafter, -⟩, hbefore⟩ := hpairwise
  rw [← mem_upwards, h, List.mem_append, List.mem_cons]
  constructor
  · exact fun hx => ⟨.inl hx, hbefore x hx d List.mem_cons_self⟩
  · rintro ⟨hx | rfl | hx, hlt⟩
    · exact hx
    · exact absurd hlt (Nat.lt_irrefl _)
    · exact absurd hlt (Nat.lt_asymm (hafter x hx))

/-- **The file that counts for a directory**: that of the nearest
directory from there upwards that has one; none if there is no such
directory up to the root. -/
def IsNearest (parse : Toml.Reader) (tree : FileTree) (current base : Location) : Option Path → Prop
  | some p => ∃ d, d <+: base ∧ configFileOf parse tree current d = some p ∧
      ∀ below, below <+: base → d.length < below.length →
        configFileOf parse tree current below = none
  | none => ∀ d, d <+: base → configFileOf parse tree current d = none

theorem isNearest_iff {found : Option Path} :
    IsNearest parse tree current base found
      ↔ (upwards base).findSome? (configFileOf parse tree current) = found := by
  cases found with
  | none =>
    rw [List.findSome?_eq_none_iff]
    exact forall_congr' fun d => imp_congr_left mem_upwards.symm
  | some p =>
    rw [List.findSome?_eq_some_iff]
    constructor
    · rintro ⟨d, hd, hfile, hbelow⟩
      obtain ⟨before, after, h⟩ := List.append_of_mem (mem_upwards.2 hd)
      exact ⟨before, d, after, h, hfile, fun x hx =>
        hbelow x ((mem_before_iff h).1 hx).1 ((mem_before_iff h).1 hx).2⟩
    · rintro ⟨before, d, after, h, hfile, hbefore⟩
      refine ⟨d, mem_upwards.1 (h ▸ List.mem_append_right _ List.mem_cons_self), hfile, ?_⟩
      exact fun x hx hlt => hbefore x ((mem_before_iff h).2 ⟨hx, hlt⟩)

/-! ## The search -/

/-- The file that a directory has is one of the two that it may have. -/
theorem eq_of_configFileOf (h : configFileOf parse tree current d = some p) :
    p = ownFile d ∨ p = projectFile d := by
  rw [configFileOf] at h
  split at h
  · exact .inl (Option.some.inj h).symm
  · split at h
    · exact .inr (Option.some.inj h).symm
    · cases h

/-- What the search finds is one of the files of a directory it comes
to. -/
theorem exists_of_firstFile {directories : List Location}
    (h : (firstFile parse tree current directories).result = .ok (some p)) :
    ∃ d ∈ directories, p = ownFile d ∨ p = projectFile d := by
  induction directories with
  | nil => cases h
  | cons d rest ih =>
    rw [firstFile] at h
    obtain ⟨found, hfile, hrest⟩ := Reporting.result_bind_eq_ok_iff.1 h
    cases found with
    | none =>
      obtain ⟨d', hd', hp⟩ := ih hrest
      exact ⟨d', List.mem_cons_of_mem d hd', hp⟩
    | some q =>
      obtain rfl : q = p := by cases hrest; rfl
      refine ⟨d, List.mem_cons_self, ?_⟩
      rw [result_fileIn] at hfile
      split at hfile
      · cases hfile
      · cases hfile
        exact .inl rfl
      · split at hfile
        · cases hfile
        · obtain ⟨t, -, ht⟩ := map_eq_ok_iff.1 hfile
          obtain hnone | hsome := chosen?_eq (projectFile d) t
          · cases hnone.symm.trans ht
          · cases hsome.symm.trans ht
            exact .inr rfl
        · cases hfile

theorem projectFile_ne_ownFile (d d' : Location) : projectFile d ≠ ownFile d' := by
  intro h
  have hname := congrArg Path.name h
  rw [name_projectFile, name_ownFile] at hname
  exact absurd hname (by decide)

theorem projectFile_injective : Function.Injective projectFile := by
  intro d d' h
  exact (List.append_inj' (congrArg Path.names h) rfl).1

/-- Whether every directory that the search comes to can be told. -/
def IsClear (parse : Toml.Reader) (tree : FileTree) (current : Location)
    (directories : List Location) : Prop :=
  ∀ before d after, directories = before ++ d :: after →
    (∀ below ∈ before, configFileOf parse tree current below = none) → CanTell parse tree current d

theorem isClear_cons_iff {rest : List Location} :
    IsClear parse tree current (d :: rest)
      ↔ CanTell parse tree current d ∧
          (configFileOf parse tree current d = none → IsClear parse tree current rest) := by
  constructor
  · intro h
    refine ⟨h [] d rest rfl nofun, fun hnone before d' after hrest hbefore => ?_⟩
    refine h (d :: before) d' after (congrArg (d :: ·) hrest) ?_
    exact List.forall_mem_cons.2 ⟨hnone, hbefore⟩
  · rintro ⟨hd, hrest⟩ before d' after heq hbefore
    cases before with
    | nil =>
      obtain ⟨rfl, -⟩ := List.cons.inj heq
      exact hd
    | cons first before =>
      obtain ⟨rfl, htail⟩ := List.cons.inj heq
      obtain ⟨hfirst, hbefore⟩ := List.forall_mem_cons.1 hbefore
      exact hrest hfirst before d' after htail hbefore

/-- **The search finds the first file that a directory has** if and only
if every directory it comes to can be told. -/
theorem result_firstFile_eq_iff {directories : List Location} (hnodup : directories.Nodup) :
    (firstFile parse tree current directories).result
        = .ok (directories.findSome? (configFileOf parse tree current))
      ↔ IsClear parse tree current directories := by
  induction directories with
  | nil => exact iff_of_true rfl fun before d after h => absurd h.symm (by simp)
  | cons d rest ih =>
    obtain ⟨hd, hrest⟩ := List.nodup_cons.1 hnodup
    rw [isClear_cons_iff, firstFile, List.findSome?_cons]
    by_cases hcan : CanTell parse tree current d
    · rw [(Reporting.bind_of_ok hcan.result_fileIn _).1]
      cases hfile : configFileOf parse tree current d with
      | none => simpa [hcan] using ih hrest
      | some p => simp [hcan]
    · refine iff_of_false ?_ fun h => hcan h.1
      have hother : ∀ d' ∈ rest,
          ¬ (projectFile d = ownFile d' ∨ projectFile d = projectFile d') := by
        rintro d' hd' (hp | hp)
        · exact projectFile_ne_ownFile d d' hp
        · exact hd (projectFile_injective hp ▸ hd')
      obtain ⟨f, hfault⟩ | ⟨hnone, hfile⟩ | ⟨hsome, hfile⟩ := result_fileIn_of_not_canTell hcan
      · rw [(Reporting.bind_of_error hfault _).1]
        exact nofun
      -- the file in question is none of the directories that follow
      · rw [(Reporting.bind_of_ok hnone _).1, hfile]
        intro h
        obtain ⟨d', hd', hp⟩ := exists_of_firstFile h
        exact hother d' hd' hp
      · rw [(Reporting.bind_of_ok hsome _).1, hfile]
        intro h
        obtain ⟨d', hd', hp⟩ := List.exists_of_findSome?_eq_some (Except.ok.inj h).symm
        exact hother d' hd' (eq_of_configFileOf hp)

/-! ## Discovery -/

/-- The directory where the search starts, for a place: the place itself,
or the directory of the file that lies there. -/
def searchBase (tree : FileTree) (current l : Location) : Location :=
  if isThere tree current (Path.ofLocation l) then l.dropLast else l

/-- **Discovery agrees with reading**: for a path that leads to a place
the search ends, it finds the file that counts there, and the settings
that count are those in it, or the defaults if there is none. -/
def DiscoveryAgrees (parse : Toml.Reader) (tree : FileTree) (current : Location) (start : Path) :
    Prop :=
  ∃ l found, start.resolve current = .ok l ∧
    (findFile parse tree current start).result = .ok found ∧
    IsNearest parse tree current (searchBase tree current l) found ∧
    match found with
    | some p =>
      (ofFile parse tree current p).result = (forPath parse tree current start).result.map some
    | none => (forPath parse tree current start).result = .ok {}

/-- The file of a directory is one that yields settings, unless it cannot
be read. -/
theorem result_ofFile_ne_none (h : configFileOf parse tree current d = some p) :
    (ofFile parse tree current p).result ≠ .ok none := by
  rw [configFileOf] at h
  split at h
  · obtain rfl := Option.some.inj h
    have hname : (ownFile d).name ≠ projectFileName := by
      rw [name_ownFile]
      decide
    cases htable : (readTable parse tree current (ownFile d)).result with
    | error f =>
      rw [ofFile, (Reporting.bind_of_error htable _).1]
      rintro ⟨⟩
    | ok t =>
      rw [result_ofFile_of_table htable, settingsTable?, if_neg hname]
      dsimp only
      rw [ne_eq, mapError_eq_ok_iff, map_eq_ok_iff]
      rintro ⟨_, _, ⟨⟩⟩
  · split at h
    · next hproject =>
      obtain rfl := Option.some.inj h
      have hsettings := (Bool.and_eq_true_iff.1 hproject).2
      rw [hasSettings] at hsettings
      intro hnone
      rw [hnone] at hsettings
      cases hsettings
    · cases h

theorem result_forPath (parse : Toml.Reader) (tree : FileTree) (current : Location) {start : Path}
    (hfind : (findFile parse tree current start).result = .ok (some p))
    (hp : (ofFile parse tree current p).result ≠ .ok none) :
    (ofFile parse tree current p).result = (forPath parse tree current start).result.map some := by
  rw [forPath, (Reporting.bind_of_ok hfind _).1]
  cases h : (ofFile parse tree current p).result with
  | error f => rw [(Reporting.bind_of_error h _).1]; rfl
  | ok found =>
    rw [(Reporting.bind_of_ok h _).1]
    cases found with
    | none => exact absurd h hp
    | some s => rfl

theorem isClear_upwards_iff :
    IsClear parse tree current (upwards base)
      ↔ ∀ d, d <+: base →
          (∀ below, below <+: base → d.length < below.length →
            configFileOf parse tree current below = none) → CanTell parse tree current d := by
  constructor
  · intro h d hd hbelow
    obtain ⟨before, after, heq⟩ := List.append_of_mem (mem_upwards.2 hd)
    exact h before d after heq fun x hx =>
      hbelow x ((mem_before_iff heq).1 hx).1 ((mem_before_iff heq).1 hx).2
  · intro h before d after heq hbefore
    refine h d (mem_upwards.1 (heq ▸ List.mem_append_right _ List.mem_cons_self)) ?_
    exact fun x hx hlt => hbefore x ((mem_before_iff heq).2 ⟨hx, hlt⟩)

theorem nodup_upwards (base : Location) : (upwards base).Nodup :=
  (pairwise_upwards base).imp fun {a b} h => by
    rintro rfl
    exact Nat.lt_irrefl _ h

/-- From a place that can be seen, the search goes through the directories
upwards; elsewhere it fails. -/
theorem result_findFile_eq (parse : Toml.Reader) (tree : FileTree) (current : Location)
    (start : Path) {l : Location} (hl : start.resolve current = .ok l) :
    (CanSee tree current (Path.ofLocation l) ∧
        (findFile parse tree current start).result
          = (firstFile parse tree current (upwards (searchBase tree current l))).result)
      ∨ (¬ CanSee tree current (Path.ofLocation l) ∧
        ∃ f, (findFile parse tree current start).result = .error f) := by
  rw [result_findFile, searched, hl]
  by_cases hsee : CanSee tree current (Path.ofLocation l)
  · refine .inl ⟨hsee, ?_⟩
    simp only [hsee.isFile_eq, Except.map]
    rfl
  · obtain ⟨f, hf⟩ := exists_isFile_eq_error hsee
    refine .inr ⟨hsee, f, ?_⟩
    simp only [hf, Except.map]

/-- **When discovery agrees with reading** on what a configuration file
is: if and only if the path leads to a place that can be seen, and every
directory from there upwards can be told that has no directory with a
configuration file below it. -/
theorem discovery_agrees_iff (parse : Toml.Reader) (tree : FileTree) (current : Location)
    (start : Path) :
    DiscoveryAgrees parse tree current start
      ↔ ∃ l, start.resolve current = .ok l ∧ CanSee tree current (Path.ofLocation l) ∧
          ∀ d, d <+: searchBase tree current l →
            (∀ below, below <+: searchBase tree current l → d.length < below.length →
              configFileOf parse tree current below = none) → CanTell parse tree current d := by
  constructor
  · rintro ⟨l, found, hl, hfind, hnearest, -⟩
    obtain ⟨hsee, hfirst⟩ | ⟨-, f, hfault⟩ := result_findFile_eq parse tree current start hl
    · rw [hfirst, ← isNearest_iff.1 hnearest] at hfind
      refine ⟨l, hl, hsee, isClear_upwards_iff.1 ?_⟩
      exact (result_firstFile_eq_iff (nodup_upwards _)).1 hfind
    · cases hfault.symm.trans hfind
  · rintro ⟨l, hl, hsee, hclear⟩
    have hfirst := (result_firstFile_eq_iff (nodup_upwards _)).2 (isClear_upwards_iff.2 hclear)
    have hfind : (findFile parse tree current start).result
        = (firstFile parse tree current (upwards (searchBase tree current l))).result :=
      (result_findFile_eq parse tree current start hl).elim And.right fun h => absurd hsee h.1
    rw [hfirst] at hfind
    have hnearest : IsNearest parse tree current (searchBase tree current l) _ :=
      isNearest_iff.2 rfl
    refine ⟨l, _, hl, hfind, hnearest, ?_⟩
    generalize (upwards (searchBase tree current l)).findSome? (configFileOf parse tree current)
      = found at hfind hnearest
    cases found with
    | none =>
      rw [forPath, (Reporting.bind_of_ok hfind _).1]
      rfl
    | some p =>
      obtain ⟨d, -, hfile, -⟩ := hnearest
      exact result_forPath parse tree current hfind (result_ofFile_ne_none hfile)

/-- The files of a project that keeps an empty table of settings. -/
def emptyTableTree : FileTree where
  files := [([projectFileName], "[tool.proplay]\n".toList.flatMap Encoding.utf8Bytes)]
  directories := []

/-- **An empty table is passed over**, though reading the file yields
settings. -/
theorem not_discovery_agrees_emptyTable :
    hasSettings Toml.parse emptyTableTree [] (projectFile []) = true ∧
      (findFile Toml.parse emptyTableTree [] (Path.ofText ['.'])).result = .ok none ∧
      ¬ DiscoveryAgrees Toml.parse emptyTableTree [] (Path.ofText ['.']) := by
  have hsettings : hasSettings Toml.parse emptyTableTree [] (projectFile []) = true := by
    decide +kernel
  have hfind : (findFile Toml.parse emptyTableTree [] (Path.ofText ['.'])).result = .ok none := by
    have hnone : (findFile Toml.parse emptyTableTree [] (Path.ofText ['.'])).result.toOption
        = some none := by
      decide +kernel
    generalize (findFile Toml.parse emptyTableTree [] (Path.ofText ['.'])).result = result at hnone
    cases result with
    | error f => cases hnone
    | ok found => exact congrArg Except.ok (Option.some.inj hnone)
  refine ⟨hsettings, hfind, ?_⟩
  rintro ⟨l, found, hl, hfound, hnearest, -⟩
  obtain rfl := Except.ok.inj (hfind.symm.trans hfound)
  have hfile := hnearest [] List.nil_prefix
  rw [configFileOf, hsettings] at hfile
  cases hfile

end PropertyFile.Settings

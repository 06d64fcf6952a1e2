import PropertyFile.Proofs.PropertyLine

/-!
# Texts of lines that stand for themselves

A physical line stands for itself if reading it does not depend on the
lines around it: it is a comment line, or a property that announces no
further line. What such a line is read as is a `ReadLine`, and reading a
text of such lines is a plain recursion over them
(`run_readLines`): each property takes the comment lines since the one
before it, and those behind the last property are left over.

Everything that is written consists of such lines.
-/

namespace PropertyFile

/-- **A property line**: a line that is no comment line, announces no
further line, and is read as the given parts. -/
structure IsPropertyLine (line key separator value : Text) : Prop where
  /-- It is no comment line. -/
  notComment : isCommentLine line = false
  /-- It is not continued. -/
  ended : endsWithContinuation (line.dropWhile isSpacing) = false
  /-- Its parts are read wherever it stands. -/
  reads : ∀ comments number, Property.ofLine [] comments number (line.dropWhile isSpacing)
    = .ok ⟨key, value, separator, comments, number⟩

/-- What a physical line that stands for itself is read as. -/
inductive ReadLine where
  /-- A comment or blank line. -/
  | comment (line : Text)
  /-- A property, with its parts. -/
  | property (line key separator value : Text)
deriving DecidableEq, Repr

namespace ReadLine

/-- The physical line. -/
def text : ReadLine → Text
  | comment line => line
  | property line _ _ _ => line

/-- Whether the line is read as what it is said to be. -/
def Reads : ReadLine → Prop
  | comment line => isCommentLine line = true
  | property line key separator value => IsPropertyLine line key separator value

/-- The key and the value on the line, if it is a property. -/
def pair? : ReadLine → Option (Text × Text)
  | comment _ => none
  | property _ key _ value => some (key, value)

/-- **The properties on some lines**, from line `number` on, with the
comment lines `pending` before the first of them. -/
def properties (number : Nat) (pending : List Text) : List ReadLine → List Property
  | [] => []
  | comment line :: rest => properties (number + 1) (pending ++ [line]) rest
  | property _ key separator value :: rest =>
    ⟨key, value, separator, pending, number⟩ :: properties (number + 1) [] rest

/-- The comment lines behind the last property. -/
def trailing (pending : List Text) : List ReadLine → List Text
  | [] => pending
  | comment line :: rest => trailing (pending ++ [line]) rest
  | property _ _ _ _ :: rest => trailing [] rest

/-- **Reading lines that stand for themselves** is reading one after the
other. -/
theorem run_readLines {lines : List ReadLine} (h : ∀ l ∈ lines, l.Reads) (number : Nat)
    (pending : List Text) :
    Reading.run [] number pending none (lines.map text)
      = ⟨properties number pending lines, .complete (trailing pending lines)⟩ := by
  induction lines generalizing number pending with
  | nil => rfl
  | cons l rest ih =>
    obtain ⟨hl, hrest⟩ := List.forall_mem_cons.1 h
    cases l with
    | comment line =>
      have hcomment : isCommentLine line = true := hl
      rw [List.map_cons, text, Reading.run, if_pos (by simp [hcomment]), ih hrest]
      rfl
    | property line key separator value =>
      obtain ⟨hcomment, hended, hreads⟩ := hl
      rw [List.map_cons, text, Reading.run, if_neg (by simp [hcomment])]
      simp only [Option.map_none, Option.getD_none, List.nil_append, hended, hreads, ih hrest,
        Bool.false_eq_true, if_false]
      rfl

/-- The properties behind some comment lines have these before them. -/
theorem properties_comments (number : Nat) (pending comments : List Text) (rest : List ReadLine) :
    properties number pending (comments.map comment ++ rest)
      = properties (number + comments.length) (pending ++ comments) rest := by
  induction comments generalizing number pending with
  | nil => simp
  | cons line comments ih =>
    rw [List.map_cons, List.cons_append, properties, ih, List.append_assoc, List.singleton_append,
      List.length_cons, Nat.add_assoc, Nat.add_comm 1]

theorem trailing_comments (pending comments : List Text) (rest : List ReadLine) :
    trailing pending (comments.map comment ++ rest) = trailing (pending ++ comments) rest := by
  induction comments generalizing pending with
  | nil => simp
  | cons line comments ih =>
    rw [List.map_cons, List.cons_append, trailing, ih, List.append_assoc, List.singleton_append]

/-- Every property line gives one property, in order. -/
theorem pairs_properties (number : Nat) (pending : List Text) (lines : List ReadLine) :
    (properties number pending lines).map (fun p => (p.key, p.value))
      = lines.filterMap pair? := by
  induction lines generalizing number pending with
  | nil => rfl
  | cons l rest ih =>
    cases l with
    | comment line => exact ih (number + 1) (pending ++ [line])
    | property line key separator value => exact congrArg ((key, value) :: ·) (ih (number + 1) [])

/-- The comment lines before a property are comment lines. -/
theorem isCommentLine_of_mem_properties {lines : List ReadLine} (h : ∀ l ∈ lines, l.Reads)
    {number : Nat} {pending : List Text} (hpending : ∀ c ∈ pending, isCommentLine c = true) :
    (∀ p ∈ properties number pending lines, ∀ c ∈ p.comments, isCommentLine c = true) ∧
      ∀ c ∈ trailing pending lines, isCommentLine c = true := by
  induction lines generalizing number pending with
  | nil => exact ⟨fun p hp => absurd hp List.not_mem_nil, hpending⟩
  | cons l rest ih =>
    obtain ⟨hl, hrest⟩ := List.forall_mem_cons.1 h
    cases l with
    | comment line =>
      refine ih hrest fun c hc => ?_
      obtain hc | hc := List.mem_append.1 hc
      · exact hpending c hc
      · exact List.mem_singleton.1 hc ▸ hl
    | property line key separator value =>
      obtain ⟨hproperties, htrailing⟩ :=
        @ih hrest (number + 1) [] fun c hc => absurd hc List.not_mem_nil
      exact ⟨List.forall_mem_cons.2 ⟨hpending, hproperties⟩, htrailing⟩

end ReadLine

/-! ## What every reading gives -/

/-- A line without spacing at its start. -/
def NoIndent (line : Text) : Prop := ∀ c t, line = c :: t → isSpacing c = false

theorem noIndent_dropWhile (line : Text) : NoIndent (line.dropWhile isSpacing) := by
  intro c t h
  have hne : line.dropWhile isSpacing ≠ [] := by
    rw [h]
    exact List.cons_ne_nil c t
  have hhead := List.head_dropWhile_not isSpacing hne
  simpa [h] using hhead

theorem NoIndent.append {t u : Text} (ht : NoIndent t) (hu : NoIndent u) : NoIndent (t ++ u) := by
  cases t with
  | nil => exact hu
  | cons c t =>
    intro d w h
    exact ht d t (by rw [(List.cons.inj h).1])

theorem NoIndent.dropLast {t : Text} (ht : NoIndent t) : NoIndent t.dropLast := by
  match t with
  | [] | [_] => exact fun _ _ h => absurd h nofun
  | c :: d :: t => exact fun e u h => ht e (d :: t) (by rw [(List.cons.inj h).1])

/-- **What is known of a property that was read**, `lines` being where
its comment comes from. -/
structure Property.IsRead (lines : List Text) (p : Property) : Prop where
  /-- Its comment and blank lines are lines of the text. -/
  comments : ∀ c ∈ p.comments, c ∈ lines
  /-- Its separator is one. -/
  separator : IsSeparator p.separator
  /-- An empty key has an assignment mark behind it, or nothing. -/
  keyless : p.key = [] → p.separator = [] ∨ p.separator.any isAssign = true

/-- An empty key ends at an assignment mark or with its line. -/
theorem LineParts.separator_of_key_eq_nil {line : Text} (hline : NoIndent line)
    (hkey : (LineParts.ofLine line).key = []) :
    (LineParts.ofLine line).separator = [] ∨
      (LineParts.ofLine line).separator.any isAssign = true := by
  cases line with
  | nil => exact .inl rfl
  | cons c rest =>
    have hs := hline c rest rfl
    have ha : isAssign c = true := by
      by_contra ha
      exact LineParts.cutKey_fst_ne_nil hs (Bool.not_eq_true _ ▸ ha) rest hkey
    unfold LineParts.ofLine LineParts.cutSeparator
    rw [LineParts.cutKey_stop (.inr ha)]
    simp [hs, ha]

theorem Property.isRead_ofLine {kept : Text} {lines comments : List Text} {number : Nat}
    {line : Text} {p : Property} (hcomments : ∀ c ∈ comments, c ∈ lines) (hline : NoIndent line)
    (h : Property.ofLine kept comments number line = .ok p) : p.IsRead lines := by
  obtain ⟨hk, -, hs, rfl, -⟩ := Property.ofLine_eq_ok_iff.1 h
  refine ⟨hcomments, hs ▸ LineParts.isSeparator_cutSeparator _, fun hnil => ?_⟩
  rw [hs]
  exact LineParts.separator_of_key_eq_nil hline (Unescape.eq_nil_of_unescape_eq_nil (hnil ▸ hk))

namespace Reading

/-- Reading on from a state that is in order. -/
theorem isRead_run {kept : Text} {all : List Text} (lines : List Text) {number : Nat}
    {pending : List Text} {unfinished : Option Unfinished} (hlines : ∀ l ∈ lines, l ∈ all)
    (hpending : ∀ l ∈ pending, l ∈ all) (hunfinished : ∀ u ∈ unfinished, NoIndent u.line) :
    (∀ p ∈ (run kept number pending unfinished lines).properties, p.IsRead all) ∧
      ∀ trailing, (run kept number pending unfinished lines).ending = .complete trailing →
        ∀ l ∈ trailing, l ∈ all := by
  induction lines generalizing number pending unfinished with
  | nil =>
    cases unfinished with
    | none =>
      refine ⟨fun p hp => absurd hp List.not_mem_nil, fun trailing h => ?_⟩
      exact Ending.complete.inj h ▸ hpending
    | some u => exact ⟨fun p hp => absurd hp List.not_mem_nil, fun _ h => absurd h nofun⟩
  | cons physical rest ih =>
    obtain ⟨hphysical, hrest⟩ := List.forall_mem_cons.1 hlines
    rw [run]
    split
    · -- a comment line waits for its property
      refine ih hrest ?_ fun u hu => absurd hu nofun
      intro l hl
      obtain hl | hl := List.mem_append.1 hl
      · exact hpending l hl
      · exact List.mem_singleton.1 hl ▸ hphysical
    · have hline : NoIndent ((unfinished.map Unfinished.line).getD []
          ++ physical.dropWhile isSpacing) := by
        refine NoIndent.append ?_ (noIndent_dropWhile physical)
        cases unfinished with
        | none => exact fun _ _ h => absurd h nofun
        | some u => exact hunfinished u rfl
      dsimp only
      split
      · -- the line is continued: without its backslash it is not indented either
        refine ih hrest hpending fun u hu => ?_
        obtain rfl := Option.some.inj hu
        exact hline.dropLast
      · split
        · exact ⟨fun p hp => absurd hp List.not_mem_nil, fun _ h => absurd h nofun⟩
        · next p hp =>
          obtain ⟨hproperties, hending⟩ := @ih (number + 1) [] none hrest
            (fun l hl => absurd hl List.not_mem_nil) (fun u hu => absurd hu nofun)
          exact ⟨List.forall_mem_cons.2
            ⟨Property.isRead_ofLine hpending hline hp, hproperties⟩, hending⟩

/-- **What every reading gives**: properties in order, and lines of the
text behind them. -/
theorem isRead_ofLines (kept : Text) (lines : List Text) :
    (∀ p ∈ (ofLines kept lines).properties, p.IsRead lines) ∧
      ∀ trailing, (ofLines kept lines).ending = .complete trailing →
        ∀ l ∈ trailing, l ∈ lines :=
  isRead_run lines (fun _ hl => hl) (fun _ hl => absurd hl List.not_mem_nil)
    (fun _ hu => absurd hu nofun)

end Reading

/-! ## Written properties as lines of their own -/

theorem dropWhile_of_noIndent {line : Text} (h : NoIndent line) :
    line.dropWhile isSpacing = line := by
  cases line with
  | nil => rfl
  | cons c rest => rw [List.dropWhile_cons_of_neg (by simp [h c rest rfl])]

/-- **A written property is a property line**, if it is not indented and
cannot be taken for a comment. -/
theorem isPropertyLine_propertyLine (ascii : Bool) {k s v : Text} (hs : IsSeparator s)
    (hv : s ≠ [] ∨ v = [])
    (hindent : NoIndent (propertyLine ascii k s (Escape.value ascii s v)))
    (hcomment : isCommentLine (propertyLine ascii k s (Escape.value ascii s v)) = false) :
    IsPropertyLine (propertyLine ascii k s (Escape.value ascii s v)) k s v where
  notComment := hcomment
  ended := by
    rw [dropWhile_of_noIndent hindent]
    exact (isEscaped_propertyLine ascii k v hs).endsWithContinuation
  reads comments number := by
    rw [dropWhile_of_noIndent hindent]
    exact ofLine_propertyLine ascii hs hv comments number

end PropertyFile

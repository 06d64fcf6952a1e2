import PropertyFile.Proofs.Nesting

/-!
# What nested loads leave alone

A text that is included is loaded by the same function and into the same
layout as the text that includes it; only the depth of the layout tells
that it is not the outermost one. That is enough. Whatever a nested load
does and however it ends, the header, the footer, whether the file ends
in a line break and the depth itself are afterwards what they were
(`Layout.SameFile`): `sameFile_load` says so for any receiver that leaves
them alone itself, and `sameFile_receive` that receiving a property does.

So the footer and the last line break of a file come from its own text
alone (`layout_of_read`), and do not depend on what its directives lead
to, nor on whether they are followed (`nested_loads_leave_file`).
-/

namespace PropertyFile

namespace Layout

/-- **The file as a whole is left alone**: the footer, the last line
break, the switch for blank lines at the end and the depth stay as they
are, and so does the header, unless it is the outermost text that is
loaded. -/
structure SameFile (outermost : Bool) (l l' : Layout) : Prop where
  /-- The header is found by the outermost text only. -/
  header : outermost = false → l'.header = l.header
  /-- The footer stays. -/
  footer : l'.footer = l.footer
  /-- It stays open or settled whether the last line is ended. -/
  finalNewline : l'.finalNewline = l.finalNewline
  /-- The switch for blank lines at the end stays. -/
  keepTrailingBlankLines : l'.keepTrailingBlankLines = l.keepTrailingBlankLines
  /-- As many loads are running. -/
  loadDepth : l'.loadDepth = l.loadDepth

namespace SameFile

variable {outermost : Bool} {l l' l'' : Layout}

theorem refl (outermost : Bool) (l : Layout) : SameFile outermost l l :=
  ⟨fun _ => rfl, rfl, rfl, rfl, rfl⟩

theorem trans (h : SameFile outermost l l') (h' : SameFile outermost l' l'') :
    SameFile outermost l l'' where
  header hinner := (h'.header hinner).trans (h.header hinner)
  footer := h'.footer.trans h.footer
  finalNewline := h'.finalNewline.trans h.finalNewline
  keepTrailingBlankLines := h'.keepTrailingBlankLines.trans h.keepTrailingBlankLines
  loadDepth := h'.loadDepth.trans h.loadDepth

/-- What is left alone inside is left alone by the outermost text. -/
theorem of_inner (h : SameFile false l l') (outermost : Bool) : SameFile outermost l l' :=
  ⟨fun _ => h.header rfl, h.footer, h.finalNewline, h.keepTrailingBlankLines, h.loadDepth⟩

theorem place (outermost : Bool) (l : Layout) (p : Property) :
    SameFile outermost l (l.place outermost p) := by
  obtain ⟨header, block, hplace⟩ := place_eq outermost l p
  refine ⟨?_, by rw [hplace], by rw [hplace], by rw [hplace], by rw [hplace]⟩
  rintro rfl
  rfl

end SameFile

section Receiver

variable {σ : Type} {receive : Receiver σ} {s : Layout × σ}

/-- A receiver **leaves the file alone** if it does so within a load,
whatever it makes of a property. -/
def LeavesFile (receive : Receiver σ) : Prop :=
  ∀ p s, s.1.loadDepth ≠ 0 → SameFile false s.1 (receive p s).2.1

/-- Placing properties leaves the file alone. -/
theorem sameFile_placeAll (h : LeavesFile receive) (outermost : Bool)
    (properties : List Property) (hs : s.1.loadDepth ≠ 0) :
    SameFile outermost s.1 (placeAll receive outermost properties s).2.1 := by
  induction properties generalizing s with
  | nil => exact .refl outermost s.1
  | cons p rest ih =>
    have hp := (h p s hs).of_inner outermost
    rw [placeAll]
    rcases hreceive : receive p s with ⟨e | kept, l, s'⟩
    all_goals rw [hreceive] at hp
    · exact hp
    · have hdepth : l.loadDepth ≠ 0 := hp.loadDepth.symm ▸ hs
      cases kept with
      | false => exact hp.trans (ih hdepth)
      | true =>
        have hplace := SameFile.place outermost l p
        have hrest := @ih (l.place outermost p, s') (hplace.loadDepth.symm ▸ hdepth)
        exact hp.trans (hplace.trans hrest)

/-- **A nested load leaves the file alone**, however it ends. -/
theorem sameFile_load (h : LeavesFile receive) (kept : Text) (source : Option Text) (t : Text)
    (hs : s.1.loadDepth ≠ 0) : SameFile false s.1 (load kept source receive t s).2.1 := by
  have hinner : decide (s.1.loadDepth = 0) = false := decide_eq_false hs
  have hplaced := sameFile_placeAll h false
    (Reading.ofLines kept (PhysicalLines.ofText t).lines).properties
    (s := (s.1.enter (PhysicalLines.ofText t), s.2)) (Nat.succ_ne_zero _)
  -- entering settles the last line break only at the depth 0, and leaving takes the level back
  have hleave : ∀ {l : Layout}, SameFile false (s.1.enter (PhysicalLines.ofText t)) l →
      SameFile false s.1 l.leave := fun hl =>
    ⟨hl.header, hl.footer, hl.finalNewline.trans (if_neg hs), hl.keepTrailingBlankLines,
      congrArg (· - 1) hl.loadDepth⟩
  unfold load
  dsimp only
  rw [hinner]
  rcases hrun : placeAll receive false
    (Reading.ofLines kept (PhysicalLines.ofText t).lines).properties
    (s.1.enter (PhysicalLines.ofText t), s.2) with ⟨e | _, l, s'⟩
  all_goals rw [hrun] at hplaced
  · exact hleave hplaced
  · cases hending : (Reading.ofLines kept (PhysicalLines.ofText t).lines).ending with
    | complete trailing => exact hleave hplaced
    | failed pending fault line => exact hleave hplaced

/-- **What the outermost load leaves**, if it succeeds: the last line
break of its text, and the lines behind its last property as the
footer. -/
theorem layout_of_load (h : LeavesFile receive) {kept : Text} {source : Option Text} {t : Text}
    (hs : s.1.loadDepth = 0) (hok : (load kept source receive t s).1 = .ok ()) :
    ∃ trailing, (Reading.ofLines kept (PhysicalLines.ofText t).lines).ending
        = .complete trailing ∧
      (load kept source receive t s).2.1.footer
        = Comment.ofLines (if s.1.keepTrailingBlankLines then trailing
            else trailing.rdropWhile (· = [])) ∧
      (load kept source receive t s).2.1.finalNewline = (PhysicalLines.ofText t).finalBreak := by
  have houter : decide (s.1.loadDepth = 0) = true := decide_eq_true hs
  have hplaced := sameFile_placeAll h true
    (Reading.ofLines kept (PhysicalLines.ofText t).lines).properties
    (s := (s.1.enter (PhysicalLines.ofText t), s.2)) (Nat.succ_ne_zero _)
  unfold load at hok ⊢
  dsimp only at hok ⊢
  rw [houter] at hok ⊢
  rcases hrun : placeAll receive true
    (Reading.ofLines kept (PhysicalLines.ofText t).lines).properties
    (s.1.enter (PhysicalLines.ofText t), s.2) with ⟨e | _, l, s'⟩
  all_goals rw [hrun] at hok hplaced
  · cases hok
  · cases hending : (Reading.ofLines kept (PhysicalLines.ofText t).lines).ending with
    | failed pending fault line =>
      rw [hending] at hok
      cases hok
    | complete trailing =>
      have hkeep : l.keepTrailingBlankLines = s.1.keepTrailingBlankLines :=
        hplaced.keepTrailingBlankLines
      refine ⟨trailing, rfl, ?_, hplaced.finalNewline.trans (if_pos hs)⟩
      rw [← hkeep]
      rfl

theorem placeAll_ok {properties : List Property}
    (h : ∀ p ∈ properties, ∀ s, ∃ kept, (receive p s).1 = .ok kept) (outermost : Bool)
    (s : Layout × σ) : (placeAll receive outermost properties s).1 = .ok () := by
  induction properties generalizing s with
  | nil => rfl
  | cons p rest ih =>
    obtain ⟨hp, hrest⟩ := List.forall_mem_cons.1 h
    obtain ⟨kept, hkept⟩ := hp s
    rw [placeAll]
    rcases hreceive : receive p s with ⟨e | kept', l, s'⟩
    all_goals rw [hreceive] at hkept
    · cases hkept
    · cases kept' with
      | false => exact ih hrest _
      | true => exact ih hrest _

/-- Where no property stops a load, it succeeds if its text can be read
to the end. -/
theorem load_ok {kept : Text} {t : Text} {reading : Reading} {trailing : List Text}
    (hreading : Reading.ofLines kept (PhysicalLines.ofText t).lines = reading)
    (hending : reading.ending = .complete trailing)
    (h : ∀ p ∈ reading.properties, ∀ s, ∃ kept, (receive p s).1 = .ok kept)
    (source : Option Text) (s : Layout × σ) : (load kept source receive t s).1 = .ok () := by
  have hrun := placeAll_ok h (s.1.loadDepth = 0) (s.1.enter (PhysicalLines.ofText t), s.2)
  unfold load
  dsimp only
  rw [hreading]
  split
  · next he => rw [he] at hrun; cases hrun
  · rw [hending]
    rfl

end Receiver

end Layout

namespace Store

/-- **Receiving a property leaves the file alone**, with all that a
directive loads. -/
theorem sameFile_receive (o : StoreOptions) (src : Sources) (stack : List Text)
    (key value : Text) (s : Layout × Loading) (hs : s.1.loadDepth ≠ 0) :
    Layout.SameFile false s.1 (receive o src stack key value s).2.1 := by
  induction hn : src.remaining stack using Nat.strongRecOn generalizing stack key value s with
  | ind n ih =>
    cases hkey : o.directive? key with
    | none =>
      rw [receive_of_none hkey]
      exact .refl false s.1
    | some directive =>
      -- a source that is included is loaded with one openable name less
      have hnamed : ∀ name (s' : Layout × Loading), Layout.SameFile false s.1 s'.1 →
          Layout.SameFile false s.1 (loadNamed o src stack directive name s').2.1 := by
        intro name s' hs'
        obtain ⟨e, hfailed⟩ | ⟨resolved, reason, -, -, -, -, hskipped⟩ |
          ⟨resolved, text, -, hstack, hread, hloaded⟩ :=
          loadNamed_cases o src stack directive name s'
        · rw [hfailed]
          exact hs'
        · rw [hskipped]
          exact hs'
        · rw [hloaded]
          refine hs'.trans (Layout.sameFile_load (fun p s'' hs'' => ?_) _ _ text
            (s := (s'.1, s'.2.note (.opened resolved stack))) (hs'.loadDepth.symm ▸ hs))
          exact ih _ (hn ▸ src.remaining_lt hstack hread) _ p.key p.value s'' hs'' rfl
      rw [receive_of_some hkey]
      split
      · exact @LoadInvariant.forNames s (fun _ s' => Layout.SameFile false s.1 s'.1) 0 _ hnamed _
          (.refl false s.1)
      · exact .refl false s.1

theorem leavesFile_receive (o : StoreOptions) (src : Sources) (stack : List Text) :
    Layout.LeavesFile fun p s => receive o src stack p.key p.value s :=
  fun p s hs => sameFile_receive o src stack p.key p.value s hs

variable {o : StoreOptions} {src : Sources} {stack : List Text}

/-- Where includes are not allowed, no property stops a load. -/
theorem receive_ok_of_closed (h : o.includesAllowed = false) (key value : Text)
    (s : Layout × Loading) : ∃ kept, (receive o src stack key value s).1 = .ok kept := by
  cases hkey : o.directive? key with
  | none => exact ⟨true, by rw [receive_of_none hkey]⟩
  | some directive => exact ⟨false, by rw [receive_of_some hkey, h]; rfl⟩

/-- **The footer and the last line break of a file are those of its own
text**, whatever it includes. -/
theorem layout_of_read {keep : Bool} {source : Option Text} {t : Text} {st : Store}
    {notices : List Notice} (hread : (fresh o keep).read src source t = (.ok (), st, notices)) :
    ∃ trailing, (Reading.ofLines (ListDelimiter.kept o.delimiter)
        (PhysicalLines.ofText t).lines).ending = .complete trailing ∧
      st.layout.footer
        = Comment.ofLines (if keep then trailing else trailing.rdropWhile (· = [])) ∧
      st.layout.finalNewline = (PhysicalLines.ofText t).finalBreak := by
  unfold read loadWithin at hread
  obtain ⟨hok, hrest⟩ := Prod.mk.inj hread
  obtain ⟨rfl, -⟩ := Prod.mk.inj hrest
  exact Layout.layout_of_load (leavesFile_receive o src _) rfl hok

/-- Where no property stops a load, what can be read to the end is
read. -/
theorem exists_read_of_receive {source : Option Text} {t : Text} {reading : Reading}
    {trailing : List Text}
    (hreading : Reading.ofLines (ListDelimiter.kept o.delimiter) (PhysicalLines.ofText t).lines
      = reading)
    (hending : reading.ending = .complete trailing)
    (h : ∀ p ∈ reading.properties, ∀ s, ∃ kept,
      (receive o src (stackOf source) p.key p.value s).1 = .ok kept) (keep : Bool) :
    ∃ st notices, (fresh o keep).read src source t = (.ok (), st, notices) := by
  have hok := Layout.load_ok hreading hending h (sourceName source (stackOf source))
    ((fresh o keep).layout, ⟨(fresh o keep).values, []⟩)
  exact ⟨_, _, Prod.ext hok rfl⟩

/-- **Nested loads leave the file alone.** On the course of reading a
text, a source that is opened is loaded in the middle of the others, and
whether this returns or fails, it leaves the header, the footer, the last
line break and the depth as they were. Hence, where reading a text into a
fresh store succeeds, the footer and the last line break are those of
reading it with includes switched off, and do not depend on the
sources. -/
theorem nested_loads_leave_file (t : Text) :
    (∀ (st : Store) (src : Sources) (source : Option Text) (n : Nat) (f : Frame)
        (below : List Frame) (s : Layout × Loading) (directive : Directive) (name : Text)
        (names : List (Directive × Text)) (resolved text : Text),
      st.course src source t n = .running (f :: below) s →
      f.names = (directive, name) :: names →
      lead st.options src f.stack directive name = .opened resolved text →
      ∃ m result nested, st.course src source t (m + n)
          = .after ({ f with names } :: below) (result, nested) ∧
        Layout.load (ListDelimiter.kept st.options.delimiter) (some resolved)
            (fun p s => receive st.options src (f.stack ++ [resolved]) p.key p.value s) text
            (s.1, s.2.note (.opened resolved f.stack)) = (result, nested) ∧
        nested.1.header = s.1.header ∧ nested.1.footer = s.1.footer ∧
        nested.1.finalNewline = s.1.finalNewline ∧ nested.1.loadDepth = s.1.loadDepth) ∧
    ∀ (o : StoreOptions) (keep : Bool) (src : Sources) (source : Option Text) (st : Store)
        (notices : List Notice), (fresh o keep).read src source t = (.ok (), st, notices) →
      (∀ (src' : Sources) (source' : Option Text), ∃ bare notices',
        (fresh { o with includesAllowed := false } keep).read src' source' t
            = (.ok (), bare, notices') ∧
          st.layout.footer = bare.layout.footer ∧
          st.layout.finalNewline = bare.layout.finalNewline) ∧
      ∀ (src' : Sources) (source' : Option Text) (st' : Store) (notices' : List Notice),
        (fresh o keep).read src' source' t = (.ok (), st', notices') →
          st.layout.footer = st'.layout.footer ∧
          st.layout.finalNewline = st'.layout.finalNewline := by
  refine ⟨?_, ?_⟩
  · intro st src source n f below s directive name names resolved text hcourse hnames hlead
    have hsound := st.sound_course src source t n
    rw [hcourse] at hsound
    have hdepth : s.1.loadDepth ≠ 0 := by
      rw [hsound.2.1, List.length_cons]
      omega
    obtain ⟨m, hm⟩ := st.exists_course_after src source t hcourse hnames hlead
    have hsame := Layout.sameFile_load (leavesFile_receive st.options src (f.stack ++ [resolved]))
      (ListDelimiter.kept st.options.delimiter) (some resolved) text
      (s := (s.1, s.2.note (.opened resolved f.stack))) hdepth
    exact ⟨m, _, _, hm, rfl, hsame.header rfl, hsame.footer, hsame.finalNewline, hsame.loadDepth⟩
  · intro o keep src source st notices hread
    obtain ⟨trailing, hending, hfooter, hfinal⟩ := layout_of_read hread
    have hagree : ∀ (o' : StoreOptions) {src' : Sources} {source' : Option Text} {st' : Store}
        {notices' : List Notice}, o'.delimiter = o.delimiter →
        (fresh o' keep).read src' source' t = (.ok (), st', notices') →
          st.layout.footer = st'.layout.footer ∧
          st.layout.finalNewline = st'.layout.finalNewline := by
      intro o' src' source' st' notices' hdelimiter hread'
      obtain ⟨trailing', hending', hfooter', hfinal'⟩ := layout_of_read hread'
      rw [hdelimiter, hending] at hending'
      obtain rfl := Ending.complete.inj hending'
      exact ⟨hfooter.trans hfooter'.symm, hfinal.trans hfinal'.symm⟩
    refine ⟨fun src' source' => ?_, fun src' source' st' notices' => hagree o rfl⟩
    obtain ⟨bare, notices', hbare⟩ :=
      @exists_read_of_receive { o with includesAllowed := false } src' source' t _ _ rfl hending
        (fun p _ s => receive_ok_of_closed rfl p.key p.value s) keep
    exact ⟨bare, notices', hbare, hagree { o with includesAllowed := false } rfl hbare⟩

/-- A text that includes a source if it is there, read where it is and
where it is not. -/
theorem nested_loads_leave_file_optional :
    let o : StoreOptions := { includeKey := none, includeOptionalKey := some ['i'] }
    let t := "i=s\n#F".toList
    ∃ st notices st' notices',
      (fresh o true).read (Sources.inMemory [(['s'], some "#f\n".toList)] []) none t
        = (.ok (), st, notices) ∧
      (fresh o true).read (Sources.inMemory [] []) none t = (.ok (), st', notices') ∧
      st.layout.footer = st'.layout.footer ∧
      st.layout.finalNewline = st'.layout.finalNewline := by
  intro o t
  have hkey : o.directive? ['i'] = some .optional := by decide +kernel
  have hreading : Reading.ofLines (ListDelimiter.kept o.delimiter) (PhysicalLines.ofText t).lines
      = ⟨[⟨['i'], ['s'], ['='], [], 1⟩], .complete ["#F".toList]⟩ := by
    decide +kernel
  have hread : ∀ src : Sources, (∀ s, (loadNamed o src [] .optional ['s'] s).1 = .ok ()) →
      ∃ st notices, (fresh o true).read src none t = (.ok (), st, notices) := by
    intro src hnamed
    refine exists_read_of_receive hreading rfl (List.forall_mem_singleton.2 fun s => ?_) true
    have hloaded := hnamed s
    refine ⟨false, ?_⟩
    rw [receive_of_some hkey]
    show (forNames (loadNamed o src [] .optional) [['s']] s).1.map (fun _ => false) = .ok false
    rw [forNames]
    rcases hrun : loadNamed o src [] .optional ['s'] s with ⟨result, s'⟩
    rw [hrun] at hloaded
    obtain rfl := hloaded
    rfl
  obtain ⟨st, notices, hst⟩ := hread (Sources.inMemory [(['s'], some "#f\n".toList)] [])
    fun s => rfl
  obtain ⟨st', notices', hst'⟩ := hread (Sources.inMemory [] []) fun s => rfl
  exact ⟨st, notices, st', notices', hst, hst',
    ((nested_loads_leave_file t).2 o true _ none st notices hst).2 _ none st' notices' hst'⟩

end Store

end PropertyFile

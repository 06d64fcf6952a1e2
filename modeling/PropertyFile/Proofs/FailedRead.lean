import PropertyFile.Proofs.Including
import PropertyFile.Proofs.PhysicalLine

/-!
# Reads that fail

A text that is malformed is read up to the property that is at fault, and
what came in before stays. How much that is does not depend on where the
fault strikes, at an escape in the middle of a property or behind the last
line of the text: it is what reading the lines before the first line of
that property would have given, neither more nor less
(`Store.read_beforeFault`). A property comes to the store and to the
layout as a whole or not at all.

The lines before the fault are found by cutting the text into its logical
lines, each of which is either readable or at fault
(`LogicalLine.fault?`), whatever stands around it. They are the lines of a
beginning of the text (`PhysicalLines.exists_prefix_lines`), so there is a
text that can be read in its place.
-/

namespace PropertyFile

/-! ## Beginnings of texts -/

namespace PhysicalLines

/-- A text up to one of its line breaks is cut as the whole text is, and
has an empty line behind the break. -/
theorem exists_prefix_cut {t line : Text} {b : LineBreak} {before behind : List (LineBreak × Text)}
    (h : (cut t).2 = before ++ (b, line) :: behind) :
    ∃ u, u <+: t ∧ cut u = ((cut t).1, before ++ [(b, [])]) := by
  fun_induction cut t generalizing before with
  | case1 => exact absurd h (by simp)
  | case2 rest first later hcut ih =>
    rw [hcut] at ih
    cases before with
    | nil =>
      obtain ⟨heq, -⟩ := List.cons.inj h
      obtain ⟨rfl, -⟩ := Prod.mk.inj heq
      exact ⟨['\r', '\n'], ⟨rest, rfl⟩, rfl⟩
    | cons e before =>
      obtain ⟨rfl, hlater⟩ := List.cons.inj h
      obtain ⟨u, ⟨w, rfl⟩, hu⟩ := ih hlater
      exact ⟨'\r' :: '\n' :: u, ⟨w, rfl⟩, by rw [cut, hu]; rfl⟩
  | case3 rest hpair first later hcut ih =>
    rw [hcut] at ih
    cases before with
    | nil =>
      obtain ⟨heq, -⟩ := List.cons.inj h
      obtain ⟨rfl, -⟩ := Prod.mk.inj heq
      exact ⟨['\r'], ⟨rest, rfl⟩, rfl⟩
    | cons e before =>
      obtain ⟨rfl, hlater⟩ := List.cons.inj h
      obtain ⟨u, ⟨w, rfl⟩, hu⟩ := ih hlater
      -- no line feed follows, so the carriage return forms no pair
      refine ⟨'\r' :: u, ⟨w, rfl⟩, ?_⟩
      rw [cut.eq_3 u fun r hr => hpair (r ++ w) (by rw [hr]; rfl), hu]
      rfl
  | case4 rest first later hcut ih =>
    rw [hcut] at ih
    cases before with
    | nil =>
      obtain ⟨heq, -⟩ := List.cons.inj h
      obtain ⟨rfl, -⟩ := Prod.mk.inj heq
      exact ⟨['\n'], ⟨rest, rfl⟩, rfl⟩
    | cons e before =>
      obtain ⟨rfl, hlater⟩ := List.cons.inj h
      obtain ⟨u, ⟨w, rfl⟩, hu⟩ := ih hlater
      exact ⟨'\n' :: u, ⟨w, rfl⟩, by rw [cut, hu]; rfl⟩
  | case5 c rest _ hr hn first later hcut ih =>
    rw [hcut] at ih
    obtain ⟨u, ⟨w, rfl⟩, hu⟩ := ih h
    refine ⟨c :: u, ⟨w, rfl⟩, ?_⟩
    rw [cut.eq_5 _ _ (fun _ hc _ => hr hc) hr hn, hu]

/-- **Any number of physical lines from the first one on are the physical
lines of a beginning of the text.** -/
theorem exists_prefix_lines {t : Text} {lines : List Text} (h : lines <+: (ofText t).lines) :
    ∃ u, u <+: t ∧ (ofText u).lines = lines := by
  obtain ⟨behind, hlines⟩ := h
  have happend := lines_ofText_append t
  rw [← hlines, List.append_assoc] at happend
  cases lines with
  | nil => exact ⟨[], List.nil_prefix, rfl⟩
  | cons line before =>
    cases behind with
    | nil => exact ⟨t, List.prefix_refl t, by rw [← hlines, List.append_nil]⟩
    | cons next behind =>
      -- a further line follows, so the last of the lines is ended by a break
      obtain ⟨rfl, hlater⟩ := List.cons.inj happend
      obtain ⟨before', later, hcut, rfl, hbehind⟩ := List.map_eq_append_iff.1 hlater.symm
      obtain ⟨e, later, rfl, -, -⟩ := List.map_eq_cons_iff.1 hbehind
      obtain ⟨u, hprefix, hu⟩ := exists_prefix_cut hcut
      have hall : (cut t).1 :: (before' ++ [(e.1, [])]).map Prod.snd
          = ((cut t).1 :: before'.map Prod.snd) ++ [[]] := by simp
      refine ⟨u, hprefix, ?_⟩
      simp only [ofText, hu, hall, List.getLast?_concat, List.dropLast_concat, if_true]

end PhysicalLines

/-! ## The line at fault -/

/-- Whether a line can be read as a property does not depend on where the
line stands. -/
theorem ofLine_error_elsewhere {kept line : Text} {number : Nat} {e : MalformedEscape}
    {before : List Text} (h : Property.ofLine kept before number line = .error e)
    (comments : List Text) (number' : Nat) :
    Property.ofLine kept comments number' line = .error e := by
  unfold Property.ofLine at h ⊢
  dsimp only at h ⊢
  cases hk : unescape [] (LineParts.ofLine line).key with
  | error e' =>
    rw [hk] at h
    exact h
  | ok key =>
    cases hv : unescape kept (LineParts.ofLine line).value with
    | error e' =>
      rw [hk, hv] at h
      exact h
    | ok value =>
      rw [hk, hv] at h
      exact absurd h nofun

namespace LogicalLine

/-- What is wrong with a logical line, if anything is. -/
def fault? (kept : Text) : LogicalLine → Option ReadFault
  | comment _ => none
  | property _ text =>
    match Property.ofLine kept [] 0 text with
    | .ok _ => none
    | .error e => some (.escape e)
  | unterminated _ => some .unterminated

/-- The number of the line for which the fault of a logical line is
reported, given the number of its first line: a line that is missing is
missed behind the last one. -/
def faultLine (number : Nat) : LogicalLine → Nat
  | unterminated lines => number + lines.length - 1
  | _ => number

/-- **The logical lines before the first one at fault.** -/
def beforeFault (kept : Text) (ls : List LogicalLine) : List LogicalLine :=
  ls.takeWhile fun l => (l.fault? kept).isNone

theorem fault?_eq_none_iff {kept : Text} {l : LogicalLine} :
    l.fault? kept = none ↔ l.IsReadable kept := by
  cases l with
  | comment line => exact iff_of_true rfl trivial
  | unterminated lines => exact iff_of_false nofun id
  | property lines text =>
    unfold fault? IsReadable
    dsimp only
    cases hline : Property.ofLine kept [] 0 text with
    | ok p => exact iff_of_true rfl ⟨p, rfl⟩
    | error e => exact iff_of_false nofun fun ⟨p, hp⟩ => absurd hp nofun

/-- Readable lines are read whatever follows them, and what follows is
read whatever properties they hold. -/
theorem exists_read_append {kept : Text} {ls : List LogicalLine} (h : ∀ l ∈ ls, l.IsReadable kept)
    (number : Nat) (pending : List Text) :
    ∃ properties trailing, ∀ behind, read kept number pending (ls ++ behind) =
      let later := read kept (number + (ls.flatMap physical).length) trailing behind
      ⟨properties ++ later.properties, later.ending⟩ := by
  induction ls generalizing number pending with
  | nil => exact ⟨[], pending, fun behind => rfl⟩
  | cons l rest ih =>
    obtain ⟨hl, hrest⟩ := List.forall_mem_cons.1 h
    have hnumber : number + ((l :: rest).flatMap physical).length
        = number + l.physical.length + (rest.flatMap physical).length := by
      rw [List.flatMap_cons, List.length_append, Nat.add_assoc]
    rw [hnumber]
    cases l with
    | comment line => exact ih hrest (number + 1) (pending ++ [line])
    | unterminated lines => exact absurd hl id
    | property lines text =>
      obtain ⟨p, hp⟩ := hl
      obtain ⟨properties, trailing, hread⟩ := ih hrest (number + lines.length) []
      refine ⟨⟨p.key, p.value, p.separator, pending, number⟩ :: properties, trailing,
        fun behind => ?_⟩
      rw [List.cons_append, read, ofLine_elsewhere hp pending number]
      dsimp only
      rw [hread]
      rfl

/-- **A line at fault ends the reading**, whatever follows it. -/
theorem read_of_fault?_eq_some {kept : Text} {l : LogicalLine} {fault : ReadFault}
    (h : l.fault? kept = some fault) (number : Nat) (pending : List Text)
    (behind : List LogicalLine) :
    read kept number pending (l :: behind)
      = ⟨[], .failed pending fault (l.faultLine number)⟩ := by
  cases l with
  | comment line => exact absurd h nofun
  | unterminated lines =>
    obtain rfl := Option.some.inj h
    rfl
  | property lines text =>
    unfold fault? at h
    dsimp only at h
    cases hline : Property.ofLine kept [] 0 text with
    | ok p =>
      rw [hline] at h
      exact absurd h nofun
    | error e =>
      rw [hline] at h
      obtain rfl := Option.some.inj h
      rw [read, ofLine_error_elsewhere hline]
      rfl

/-- Logical lines are all readable, or the first of them that is not ends
the lines before the fault. -/
theorem eq_beforeFault_or (kept : Text) (ls : List LogicalLine) :
    beforeFault kept ls = ls ∨ ∃ bad behind fault, ls = beforeFault kept ls ++ bad :: behind ∧
      bad.fault? kept = some fault := by
  have hparts := List.takeWhile_append_dropWhile (p := fun l : LogicalLine => (l.fault? kept).isNone)
    (l := ls)
  cases hrest : ls.dropWhile fun l => (l.fault? kept).isNone with
  | nil =>
    rw [hrest, List.append_nil] at hparts
    exact .inl hparts
  | cons bad behind =>
    rw [hrest] at hparts
    have hbad := List.head_dropWhile_not (fun l : LogicalLine => (l.fault? kept).isNone)
      (l := ls) (by rw [hrest]; exact List.cons_ne_nil _ _)
    simp only [hrest, List.head_cons, Option.isNone_eq_false_iff] at hbad
    obtain ⟨fault, hfault⟩ := Option.isSome_iff_exists.1 hbad
    exact .inr ⟨bad, behind, fault, hparts.symm, hfault⟩

theorem isReadable_of_mem_beforeFault {kept : Text} {ls : List LogicalLine} {l : LogicalLine}
    (h : l ∈ beforeFault kept ls) : l.IsReadable kept :=
  have hnone := List.mem_takeWhile_imp (p := fun l : LogicalLine => (l.fault? kept).isNone) h
  fault?_eq_none_iff.1 (Option.isNone_iff_eq_none.1 hnone)

/-- The lines before the fault are cut by themselves as they were in the
whole text. -/
theorem cut_beforeFault (kept : Text) (lines : List Text) :
    cut none ((beforeFault kept (cut none lines)).flatMap physical)
      = beforeFault kept (cut none lines) :=
  cut_flatMap_physical fun _ hl =>
    ⟨(isReadable_of_mem_beforeFault hl).isTerminated, lines,
      (List.takeWhile_prefix _).subset hl⟩

/-- The lines before the fault stand at the start of the text. -/
theorem physical_beforeFault_isPrefix (kept : Text) (lines : List Text) :
    (beforeFault kept (cut none lines)).flatMap physical <+: lines := by
  have hall := flatMap_physical none lines
  rw [Option.getD_none, List.nil_append] at hall
  obtain ⟨behind, hbehind⟩ : beforeFault kept (cut none lines) <+: cut none lines :=
    List.takeWhile_prefix _
  refine ⟨behind.flatMap physical, ?_⟩
  rw [← List.flatMap_append, hbehind, hall]

end LogicalLine

/-- **Reading up to a fault is reading the lines before it.** Where
reading fails, the fault is that of the first logical line at fault, and
the lines before that one are read to their end, with the same
properties. -/
theorem Reading.ofLines_beforeFault {kept : Text} {lines : List Text} {properties : List Property}
    {pending : List Text} {fault : ReadFault} {line : Nat}
    (h : ofLines kept lines = ⟨properties, .failed pending fault line⟩) :
    let before := LogicalLine.beforeFault kept (LogicalLine.cut none lines)
    (∃ bad behind, LogicalLine.cut none lines = before ++ bad :: behind ∧
        bad.fault? kept = some fault ∧
        line = bad.faultLine (1 + (before.flatMap LogicalLine.physical).length)) ∧
      ofLines kept (before.flatMap LogicalLine.physical) = ⟨properties, .complete pending⟩ := by
  intro before
  have hreadable : ∀ l ∈ before, l.IsReadable kept :=
    fun _ hl => LogicalLine.isReadable_of_mem_beforeFault hl
  obtain ⟨properties', trailing, happend⟩ := LogicalLine.exists_read_append hreadable 1 []
  have hbefore : ofLines kept (before.flatMap LogicalLine.physical)
      = ⟨properties', .complete trailing⟩ := by
    have hread := happend []
    rw [List.append_nil] at hread
    rw [LogicalLine.ofLines_eq_read, LogicalLine.cut_beforeFault, hread]
    exact congrArg (Reading.mk · _) (List.append_nil properties')
  rw [LogicalLine.ofLines_eq_read] at h
  obtain hall | ⟨bad, behind, fault', hcut, hfault⟩ :=
    LogicalLine.eq_beforeFault_or kept (LogicalLine.cut none lines)
  · -- without a fault the text is read to its end
    have hread := happend []
    rw [List.append_nil, show before = _ from hall, h] at hread
    exact absurd (Reading.mk.inj hread).2 nofun
  · have hread := happend (bad :: behind)
    rw [← hcut, h, LogicalLine.read_of_fault?_eq_some hfault] at hread
    obtain ⟨hproperties, hending⟩ := Reading.mk.inj hread
    obtain ⟨rfl, rfl, rfl⟩ := Ending.failed.inj hending
    rw [List.append_nil] at hproperties
    exact ⟨⟨bad, behind, hcut, hfault, rfl⟩, hproperties ▸ hbefore⟩

/-! ## Stores after the fault -/

/-- **Stores that agree** in everything but what stands at the end of the
file and how its lines are ended: in their settings and values, and of
their layouts in the entries and the header. -/
structure Store.Agrees (st st' : Store) : Prop where
  /-- They have the same settings. -/
  options : st.options = st'.options
  /-- They have the same keys in the same order, with the same values. -/
  values : st.values = st'.values
  /-- They have the same entries in the same order. -/
  entries : st.layout.entries = st'.layout.entries
  /-- They have the same header. -/
  header : st.layout.header = st'.layout.header
  /-- They are as deep in loads. -/
  depth : st.layout.loadDepth = st'.layout.loadDepth

namespace Store

/-- **Stores that agree go on agreeing** through every change: it comes to
both layouts in the same way. -/
theorem Agrees.mutate {st st' : Store} (h : st.Agrees st') (m : Mutation) :
    (st.mutate m).Agrees (st'.mutate m) := by
  obtain ⟨hoptions, hvalues, hentries, hheader, hdepth⟩ := h
  have hloading : st.layout.isLoading = st'.layout.isLoading := by
    rw [Layout.isLoading, Layout.isLoading, hdepth]
  have hobserve : (st.layout.observe (m.event false)).entries
        = (st'.layout.observe (m.event false)).entries ∧
      (st.layout.observe (m.event false)).header
        = (st'.layout.observe (m.event false)).header ∧
      (st.layout.observe (m.event false)).loadDepth
        = (st'.layout.observe (m.event false)).loadDepth := by
    unfold Layout.observe
    rw [hloading]
    split
    · exact ⟨hentries, hheader, hdepth⟩
    · cases m with
      | add key v | set key v | remove key =>
        simp only [Mutation.event, Layout.setSingleLine, Layout.fetch, Layout.modifyEntry,
          Layout.remove, Layout.contains, hentries, hheader, hdepth, and_self]
      | clear => exact ⟨rfl, rfl, hdepth⟩
  exact ⟨hoptions, by rw [Store.mutate, Store.mutate, hoptions, hvalues], hobserve.1, hobserve.2.1,
    hobserve.2.2⟩

theorem Agrees.foldl_mutate {st st' : Store} (h : st.Agrees st') (ms : List Mutation) :
    (ms.foldl Store.mutate st).Agrees (ms.foldl Store.mutate st') := by
  induction ms generalizing st st' with
  | nil => exact h
  | cons m rest ih => exact ih (h.mutate m)

/-- What comes to a fresh store depends on the properties that are read,
and not on how the reading ends. -/
theorem agrees_of_properties_eq {o : StoreOptions} {t u : Text} {r r' : Reading}
    (ht : Reading.ofLines (ListDelimiter.kept o.delimiter) (PhysicalLines.ofText t).lines = r)
    (hu : Reading.ofLines (ListDelimiter.kept o.delimiter) (PhysicalLines.ofText u).lines = r')
    (hproperties : r'.properties = r.properties)
    (hkept : ∀ p ∈ r.properties, o.directive? p.key = none) (keep : Bool) (src src' : Sources)
    (source source' : Option Text) :
    ((fresh o keep).read src source t).2.1.Agrees ((fresh o keep).read src' source' u).2.1 := by
  have hplaced := fun physical properties => Layout.foldl_place
    (l := (fresh o keep).layout.enter physical) rfl properties
  rw [read_of_none ht hkept, read_of_none hu (hproperties ▸ hkept), hproperties, hplaced, hplaced]
  unfold Layout.conclude
  cases r.ending <;> cases r'.ending <;> exact ⟨rfl, rfl, rfl, rfl, rfl⟩

/-- **A failed read leaves exactly what stands before the fault.** If
reading a text without directives into a fresh store fails, it fails for
the first logical line at fault. The store then agrees with the one that
any text of the lines before it is read into, and such a text, a beginning
of the one that failed for instance, is read without an error. The two
stores go on agreeing through every later change; there is no footer, and
no load is left running. -/
theorem read_beforeFault {o : StoreOptions} {keep : Bool} {src : Sources} {source : Option Text}
    {t : Text} {e : ParseError} {st : Store} {notices : List Notice}
    (hkept : ∀ p ∈ (Reading.ofLines (ListDelimiter.kept o.delimiter)
      (PhysicalLines.ofText t).lines).properties, o.directive? p.key = none)
    (h : (fresh o keep).read src source t = (.error (.parse e), st, notices)) :
    let lines := LogicalLine.cut none (PhysicalLines.ofText t).lines
    let before := LogicalLine.beforeFault (ListDelimiter.kept o.delimiter) lines
    let physical := before.flatMap LogicalLine.physical
    (∃ bad behind, lines = before ++ bad :: behind ∧
        bad.fault? (ListDelimiter.kept o.delimiter) = some e.fault ∧
        e.place.line = some (bad.faultLine (1 + physical.length))) ∧
      st.layout.footer = none ∧ st.layout.loadDepth = 0 ∧
      (∃ u, u <+: t ∧ (PhysicalLines.ofText u).lines = physical) ∧
      ∀ u, (PhysicalLines.ofText u).lines = physical → ∀ src' source', ∃ st',
        (fresh o keep).read src' source' u = (.ok (), st', []) ∧ st.Agrees st' ∧
        ∀ ms : List Mutation, (ms.foldl mutate st).Agrees (ms.foldl mutate st') := by
  intro lines before physical
  cases hreading : Reading.ofLines (ListDelimiter.kept o.delimiter)
      (PhysicalLines.ofText t).lines with
  | mk properties ending =>
    rw [hreading] at hkept
    have hread := (read_of_none hreading hkept keep source).symm.trans h
    cases ending with
    | complete trailing => exact absurd (Prod.mk.inj hread).1 nofun
    | failed pending fault line =>
      obtain ⟨herror, hloaded⟩ := Prod.mk.inj hread
      obtain rfl := LoadError.parse.inj (Except.error.inj herror)
      obtain ⟨⟨bad, behind, hcut, hfault, hline⟩, hbefore⟩ := Reading.ofLines_beforeFault hreading
      have hlayout : st.layout = (properties.foldl (Layout.place true)
          ((fresh o keep).layout.enter (PhysicalLines.ofText t))).leave := by
        rw [← (Prod.mk.inj hloaded).1]
        rfl
      rw [Layout.foldl_place rfl] at hlayout
      refine ⟨⟨bad, behind, hcut, hfault, congrArg some hline⟩, by rw [hlayout]; rfl,
        by rw [hlayout]; rfl, PhysicalLines.exists_prefix_lines
          (LogicalLine.physical_beforeFault_isPrefix _ _), fun u hu src' source' => ?_⟩
      have hreading' := (congrArg (Reading.ofLines _) hu).trans hbefore
      have hread' : (fresh o keep).read src' source' u = _ :=
        read_of_none hreading' hkept keep source'
      have hagrees := agrees_of_properties_eq hreading hreading' rfl hkept keep src src' source
        source'
      rw [h, hread'] at hagrees
      exact ⟨_, hread', hagrees, hagrees.foldl_mutate⟩

/-- A malformed escape in a property that is continued, behind a header
and a list. -/
theorem read_beforeFault_escape :
    let o : StoreOptions := { delimiter := (ListDelimiter.ofText [',']).toOption }
    let t := "# h\n\na = 1, 2\n# c\nb = \\\n \\u12\n".toList
    ∃ e st notices,
      (fresh o true).read (Sources.inMemory [] []) none t = (.error (.parse e), st, notices) ∧
      ∃ st', (fresh o true).read (Sources.inMemory [] []) none "# h\n\na = 1, 2\n# c\n".toList
          = (.ok (), st', []) ∧
        st.Agrees st' ∧ (st.mutate .clear).Agrees (st'.mutate .clear) := by
  intro o t
  have hkept : ∀ p ∈ (Reading.ofLines (ListDelimiter.kept o.delimiter)
      (PhysicalLines.ofText t).lines).properties, o.directive? p.key = none := by
    decide +kernel
  have hending : (Reading.ofLines (ListDelimiter.kept o.delimiter)
      (PhysicalLines.ofText t).lines).ending
      = .failed ["# c".toList] (.escape ⟨"\\u12".toList⟩) 5 := by
    decide +kernel
  have hlines : (PhysicalLines.ofText "# h\n\na = 1, 2\n# c\n".toList).lines
      = (LogicalLine.beforeFault (ListDelimiter.kept o.delimiter)
          (LogicalLine.cut none (PhysicalLines.ofText t).lines)).flatMap LogicalLine.physical := by
    decide +kernel
  have hread : (fresh o true).read (Sources.inMemory [] []) none t = _ :=
    read_of_none rfl hkept true none
  rw [hending] at hread
  obtain ⟨-, -, -, -, hprefix⟩ := read_beforeFault hkept hread
  obtain ⟨st', hread', hagrees, hlater⟩ := hprefix _ hlines (Sources.inMemory [] []) none
  exact ⟨_, _, _, hread, st', hread', hagrees, hlater [.clear]⟩

end Store

end PropertyFile

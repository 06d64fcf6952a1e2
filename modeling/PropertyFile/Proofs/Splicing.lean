import PropertyFile.Proofs.Including
import PropertyFile.Proofs.PhysicalLine

/-!
# Including is splicing

A directive loads the sources it names on the spot, from inside the load
of the text it stands in. What comes of it is what would come of a single
text: the one in which every directive is replaced by the lines of its
sources, with the directives in these replaced in turn (`Sources.splice`).

Both ways are compared by what they leave of a property, its comments
aside (`Gist`): the values it adds, and in the layout its key, separator
and whether it goes on a single line. One step of a load changes the gist
as the properties on some logical lines do (`Amounts`); these can be put
one behind the other (`Amounts.append`), and the logical lines of a whole
load are those of the spliced text (`Store.load_amounts`). That text can
be read, since each of its logical lines was read in its source.
-/

namespace PropertyFile

open PhysicalLines

/-! ## The spliced text -/

/-- The names that a logical line lists if it is a directive. -/
def LogicalLine.included? (o : StoreOptions) (l : LogicalLine) : Option (List Text) :=
  match l.bare? (ListDelimiter.kept o.delimiter) with
  | none => none
  | some p =>
    if (o.directive? p.key).isSome then some (ListDelimiter.split o.delimiter true p.value)
    else none

namespace LogicalLine

variable {o : StoreOptions} {l : LogicalLine}

theorem included?_of_bare?_eq_none (h : l.bare? (ListDelimiter.kept o.delimiter) = none) :
    l.included? o = none := by
  rw [included?, h]

theorem included?_of_kept {p : Property} (h : l.bare? (ListDelimiter.kept o.delimiter) = some p)
    (hp : o.directive? p.key = none) : l.included? o = none := by
  rw [included?, h]
  dsimp only
  rw [hp]
  rfl

theorem included?_of_directive {p : Property} {directive : Directive}
    (h : l.bare? (ListDelimiter.kept o.delimiter) = some p)
    (hp : o.directive? p.key = some directive) :
    l.included? o = some (ListDelimiter.split o.delimiter true p.value) := by
  rw [included?, h]
  dsimp only
  rw [hp]
  rfl

end LogicalLine

namespace Sources

/-- **The logical lines of a text with its directives replaced** by those
of the sources they name, in order, with the given sources open. A source
that cannot be opened has no lines. -/
def splice (o : StoreOptions) (src : Sources) (stack : List Text) (t : Text) : List LogicalLine :=
  (LogicalLine.cut none (ofText t).lines).flatMap fun l =>
    match l.included? o with
    | none => [l]
    | some names => names.flatMap fun name =>
      match src.resolve (Store.targetOf o name) stack with
      | .error _ => []
      | .ok resolved =>
        if _h : resolved ∈ stack then []
        else
          match _hr : src.read resolved with
          | .error _ => []
          | .ok text => splice o src (stack ++ [resolved]) text
termination_by src.remaining stack
decreasing_by exact src.remaining_lt _h _hr

/-- What stands for one name of a directive. -/
def spliceNamed (o : StoreOptions) (src : Sources) (stack : List Text) (name : Text) :
    List LogicalLine :=
  match src.resolve (Store.targetOf o name) stack with
  | .error _ => []
  | .ok resolved =>
    if resolved ∈ stack then []
    else
      match src.read resolved with
      | .error _ => []
      | .ok text => splice o src (stack ++ [resolved]) text

/-- What stands for a logical line. -/
def spliceLine (o : StoreOptions) (src : Sources) (stack : List Text) (l : LogicalLine) :
    List LogicalLine :=
  match l.included? o with
  | none => [l]
  | some names => names.flatMap (spliceNamed o src stack)

section

variable {o : StoreOptions} (src : Sources) (stack : List Text) {l : LogicalLine}

theorem spliceLine_of_none (h : l.included? o = none) : src.spliceLine o stack l = [l] := by
  rw [spliceLine, h]

theorem spliceLine_of_some {names : List Text} (h : l.included? o = some names) :
    src.spliceLine o stack l = names.flatMap (src.spliceNamed o stack) := by
  rw [spliceLine, h]

end

/-- Logical lines are replaced one by one. -/
theorem splice_eq (o : StoreOptions) (src : Sources) (stack : List Text) (t : Text) :
    splice o src stack t = (LogicalLine.cut none (ofText t).lines).flatMap (spliceLine o src stack) := by
  rw [splice]
  refine congrArg (List.flatMap · _) (funext fun l => ?_)
  unfold spliceLine
  cases l.included? o with
  | none => rfl
  | some names =>
    refine congrArg (List.flatMap · names) (funext fun name => ?_)
    unfold spliceNamed
    cases src.resolve (Store.targetOf o name) stack with
    | error f => rfl
    | ok resolved =>
      dsimp only
      by_cases hstack : resolved ∈ stack
      · rw [dif_pos hstack, if_pos hstack]
      · rw [dif_neg hstack, if_neg hstack]
        split <;> next hread => rw [hread]

end Sources

/-! ## What is left of a property -/

/-- What a layout says of its keys, their comments and blank lines aside:
the key, its separator, and whether it goes on a single line. -/
def Layout.outline (l : Layout) : List (Text × Text × Bool) :=
  l.entries.entries.map fun e => (e.1, e.2.separator, e.2.singleLine)

/-- An outline with an occurrence of a key: a known key goes on several
lines from then on. -/
def Layout.outlineWith (key separator : Text) :
    List (Text × Text × Bool) → List (Text × Text × Bool)
  | [] => [(key, separator, true)]
  | e :: rest =>
    if e.1 = key then (key, e.2.1, false) :: rest else e :: outlineWith key separator rest

/-- **The place of a property in the outline** does not depend on the
comments before it. -/
theorem Layout.outline_place (outermost : Bool) (l : Layout) (p : Property) :
    (l.place outermost p).outline = outlineWith p.key p.separator l.outline := by
  obtain ⟨header, block, hplace⟩ := l.place_eq outermost p
  rw [hplace]
  unfold outline OrderedMap.update OrderedMap.insert OrderedMap.get?
  dsimp only
  induction l.entries.entries with
  | nil => rfl
  | cons e rest ih =>
    rw [OrderedMap.lookup_cons_eq_ite, OrderedMap.put, List.map_cons, outlineWith]
    by_cases h : e.1 = p.key
    · rw [if_pos h, if_pos h.symm, if_pos h]
      rfl
    · rw [if_neg h, if_neg (Ne.symm h), if_neg h, List.map_cons, ih]

/-- What loading leaves of properties, comments and blank lines aside. -/
structure Gist where
  /-- The values. -/
  values : Values
  /-- The outline of the layout. -/
  outline : List (Text × Text × Bool)

namespace Gist

/-- The gist of a load in progress. -/
def of (s : Layout × Loading) : Gist := ⟨s.2.values, s.1.outline⟩

/-- The gist with a property that is kept. -/
def keep (o : StoreOptions) (g : Gist) (p : Property) : Gist :=
  ⟨g.values.add o.delimiter p.key (.one p.value), Layout.outlineWith p.key p.separator g.outline⟩

/-- Where a property stands does not matter to the gist. -/
theorem foldl_bare (o : StoreOptions) (g : Gist) (properties : List Property) :
    (properties.map Property.bare).foldl (keep o) g = properties.foldl (keep o) g :=
  List.foldl_map

/-- The gist of a layout that properties were placed in. -/
theorem foldl_place (o : StoreOptions) (outermost : Bool) (properties : List Property)
    (l : Layout) (values : Values) :
    properties.foldl (keep o) ⟨values, l.outline⟩
      = ⟨values.addAll o.delimiter properties,
          (properties.foldl (Layout.place outermost) l).outline⟩ := by
  induction properties generalizing l values with
  | nil => rfl
  | cons p rest ih =>
    rw [List.foldl_cons, keep, ← Layout.outline_place outermost l p, ih]
    rfl

end Gist

/-! ## What steps amount to -/

/-- A logical line of some text that can be read and is no directive. -/
structure LogicalLine.IsFlat (o : StoreOptions) (l : LogicalLine) : Prop where
  /-- It was cut from a text. -/
  exists_cut : ∃ t, l ∈ cut none (ofText t).lines
  /-- It can be read. -/
  readable : l.IsReadable (ListDelimiter.kept o.delimiter)
  /-- It is no directive. -/
  kept : ∀ p ∈ l.bare? (ListDelimiter.kept o.delimiter), o.directive? p.key = none

/-- **A step from one state of a load to another amounts to some logical
lines** if it changes the gist as their properties do, and there is no
directive among them. -/
structure Amounts (o : StoreOptions) (ls : List LogicalLine) (s s' : Layout × Loading) : Prop where
  /-- The gist is changed by the properties on the lines. -/
  gist : Gist.of s' =
    (ls.filterMap (LogicalLine.bare? (ListDelimiter.kept o.delimiter))).foldl (Gist.keep o)
      (Gist.of s)
  /-- The lines can be read as they are. -/
  flat : ∀ l ∈ ls, l.IsFlat o

namespace Amounts

variable {o : StoreOptions} {ls ls' : List LogicalLine} {s s' s'' : Layout × Loading}

/-- What leaves the gist as it is amounts to nothing. -/
theorem nil (h : Gist.of s' = Gist.of s) : Amounts o [] s s' :=
  ⟨h, fun _ h => absurd h List.not_mem_nil⟩

/-- One step behind the other. -/
theorem append (h : Amounts o ls s s') (h' : Amounts o ls' s' s'') :
    Amounts o (ls ++ ls') s s'' where
  gist := by rw [h'.gist, h.gist, List.filterMap_append, List.foldl_append]
  flat l hl := (List.mem_append.1 hl).elim (h.flat l) (h'.flat l)

/-- A step between states of the same gist. -/
theorem congr (h : Amounts o ls s s') {r r' : Layout × Loading} (hr : Gist.of r = Gist.of s)
    (hr' : Gist.of r' = Gist.of s') : Amounts o ls r r' :=
  ⟨hr'.trans (h.gist.trans (by rw [hr])), h.flat⟩

/-- A logical line without a property. -/
theorem of_bare?_eq_none {l : LogicalLine} (hcut : ∃ t, l ∈ LogicalLine.cut none (ofText t).lines)
    (hl : l.IsReadable (ListDelimiter.kept o.delimiter))
    (h : l.bare? (ListDelimiter.kept o.delimiter) = none) : Amounts o [l] s s where
  gist := by rw [List.filterMap_cons, h]; rfl
  flat := by
    refine List.forall_mem_singleton.2 ⟨hcut, hl, fun p hp => ?_⟩
    rw [h] at hp
    exact absurd hp nofun

/-- A logical line with a property that is kept. -/
theorem place {l : LogicalLine} (hcut : ∃ t, l ∈ LogicalLine.cut none (ofText t).lines)
    (hl : l.IsReadable (ListDelimiter.kept o.delimiter)) {p : Property}
    (h : l.bare? (ListDelimiter.kept o.delimiter) = some p.bare)
    (hp : o.directive? p.key = none) (outermost : Bool) :
    Amounts o [l] s (s.1.place outermost p,
      { s.2 with values := s.2.values.add o.delimiter p.key (.one p.value) }) where
  gist := by
    rw [List.filterMap_cons, h, Gist.of, Layout.outline_place]
    rfl
  flat := by
    refine List.forall_mem_singleton.2 ⟨hcut, hl, fun q hq => ?_⟩
    obtain rfl := Option.some.inj (h.symm.trans hq)
    exact hp

end Amounts

namespace Store

variable {o : StoreOptions} {src : Sources} {stack : List Text} {s s' : Layout × Loading}

/-- The names of a directive, one after the other. -/
theorem forNames_amounts {step : Text → Layout × Loading → Except LoadError Unit × (Layout × Loading)}
    {linesOf : Text → List LogicalLine}
    (hstep : ∀ name s s', step name s = (.ok (), s') → Amounts o (linesOf name) s s')
    {names : List Text} (h : forNames step names s = (.ok (), s')) :
    Amounts o (names.flatMap linesOf) s s' := by
  induction names generalizing s with
  | nil =>
    obtain ⟨-, rfl⟩ := Prod.mk.inj h
    exact .nil rfl
  | cons name rest ih =>
    rw [forNames] at h
    split at h
    · cases (Prod.mk.inj h).1
    · next s₁ hname =>
      rw [List.flatMap_cons]
      exact (hstep name s s₁ hname).append (ih h)

/-- **The properties of a text**, one after the other, amount to its
spliced logical lines, if the names of directives do. -/
theorem placeAll_amounts (ho : o.includesAllowed = true)
    (hnamed : ∀ directive name s s', loadNamed o src stack directive name s = (.ok (), s') →
      Amounts o (src.spliceNamed o stack name) s s')
    {ls : List LogicalLine} (hcut : ∀ l ∈ ls, ∃ t, l ∈ LogicalLine.cut none (ofText t).lines)
    (hreadable : ∀ l ∈ ls, l.IsReadable (ListDelimiter.kept o.delimiter))
    {properties : List Property}
    (hbare : properties.map Property.bare
      = ls.filterMap (LogicalLine.bare? (ListDelimiter.kept o.delimiter)))
    {outermost : Bool}
    (h : Layout.placeAll (fun p s => receive o src stack p.key p.value s) outermost properties s
      = (.ok (), s')) :
    Amounts o (ls.flatMap (src.spliceLine o stack)) s s' := by
  induction ls generalizing properties s with
  | nil =>
    obtain rfl := List.map_eq_nil_iff.1 hbare
    obtain ⟨-, rfl⟩ := Prod.mk.inj h
    exact .nil rfl
  | cons l rest ih =>
    obtain ⟨hl, hcut⟩ := List.forall_mem_cons.1 hcut
    obtain ⟨hread, hreadable⟩ := List.forall_mem_cons.1 hreadable
    rw [List.flatMap_cons]
    cases hp : l.bare? (ListDelimiter.kept o.delimiter) with
    | none =>
      rw [List.filterMap_cons, hp] at hbare
      rw [src.spliceLine_of_none stack (LogicalLine.included?_of_bare?_eq_none hp)]
      exact (Amounts.of_bare?_eq_none hl hread hp).append (ih hcut hreadable hbare h)
    | some q =>
      rw [List.filterMap_cons, hp] at hbare
      obtain ⟨p, later, rfl, rfl, hlater⟩ := List.map_eq_cons_iff.1 hbare
      rw [Layout.placeAll] at h
      cases hkey : o.directive? p.key with
      | none =>
        rw [receive_of_none hkey] at h
        rw [src.spliceLine_of_none stack (LogicalLine.included?_of_kept hp hkey)]
        exact (Amounts.place hl hread hp hkey outermost).append (ih hcut hreadable hlater h)
      | some directive =>
        -- a directive is consumed: what it loads stands in its place
        rw [receive_of_some hkey, if_pos ho] at h
        rw [src.spliceLine_of_some stack (LogicalLine.included?_of_directive hp hkey)]
        cases hnames : forNames (loadNamed o src stack directive)
            (ListDelimiter.split o.delimiter true p.value) s with
        | mk result s₁ =>
          rw [hnames] at h
          cases result with
          | error e => cases (Prod.mk.inj h).1
          | ok _ =>
            exact (forNames_amounts (hnamed directive) hnames).append
              (ih hcut hreadable hlater h)

/-- **A load that succeeds amounts to the spliced text.** -/
theorem load_amounts (ho : o.includesAllowed = true) (src : Sources) (stack : List Text)
    {source : Option Text} {t : Text}
    (h : Layout.load (ListDelimiter.kept o.delimiter) source
      (fun p s => receive o src stack p.key p.value s) t s = (.ok (), s')) :
    Amounts o (src.splice o stack t) s s' := by
  induction hn : src.remaining stack using Nat.strongRecOn generalizing stack source t s s' with
  | ind n ih =>
    have hnamed : ∀ directive name s s', loadNamed o src stack directive name s = (.ok (), s') →
        Amounts o (src.spliceNamed o stack name) s s' := by
      intro directive name s s' h
      unfold Sources.spliceNamed
      obtain ⟨e, hfailed⟩ | ⟨resolved, reason, -, hresolve, hstack, hread, hskipped⟩ |
        ⟨resolved, text, hresolve, hstack, hread, hloaded⟩ :=
        loadNamed_cases o src stack directive name s
      · rw [hfailed] at h
        cases (Prod.mk.inj h).1
      · rw [hskipped] at h
        obtain ⟨-, rfl⟩ := Prod.mk.inj h
        rw [hresolve]
        dsimp only
        rw [if_neg hstack, hread]
        exact .nil rfl
      · rw [hloaded] at h
        rw [hresolve]
        dsimp only
        rw [if_neg hstack, hread]
        -- the source is open while it is loaded
        exact (ih _ (hn ▸ src.remaining_lt hstack hread) _ h rfl).congr rfl rfl
    unfold Layout.load at h
    dsimp only at h
    rw [LogicalLine.ofLines_eq_read] at h
    rw [Sources.splice_eq]
    split at h
    · exact absurd (Prod.mk.inj h).1 nofun
    · next l s₁ hplaced =>
      cases hread : LogicalLine.read (ListDelimiter.kept o.delimiter) 1 []
          (LogicalLine.cut none (ofText t).lines) with
      | mk properties ending =>
        rw [hread] at h hplaced
        cases ending with
        | failed pending fault line => exact absurd (Prod.mk.inj h).1 nofun
        | complete trailing =>
          obtain ⟨hreadable, hbare⟩ := LogicalLine.isReadable_of_read hread
          obtain ⟨-, rfl⟩ := Prod.mk.inj h
          have hlines := placeAll_amounts ho hnamed (fun l hl => ⟨_, hl⟩) hreadable hbare hplaced
          refine hlines.congr rfl ?_
          unfold Layout.conclude
          dsimp only
          split <;> rfl

/-- There is a text of some flat logical lines. -/
theorem exists_ofText {ls : List LogicalLine} (h : ∀ l ∈ ls, l.IsFlat o) :
    ∃ t, (ofText t).lines = ls.flatMap LogicalLine.physical := by
  have hlines : ∀ line ∈ ls.flatMap LogicalLine.physical, Text.IsLine line := by
    intro line hline
    obtain ⟨l, hl, hline⟩ := List.mem_flatMap.1 hline
    obtain ⟨t, ht⟩ := (h l hl).exists_cut
    refine isLine_of_mem_lines (t := t) ?_
    have hall := LogicalLine.flatMap_physical none (ofText t).lines
    rw [Option.getD_none, List.nil_append] at hall
    rw [← hall]
    exact List.mem_flatMap.2 ⟨l, ht, hline⟩
  by_cases hne : ls.flatMap LogicalLine.physical = []
  · exact ⟨[], hne.symm⟩
  · exact ⟨_, by rw [ofText_textOfLines .lf hne hlines]⟩

/-- **Flat logical lines can be read** by themselves, and what comes of
them is what their properties say. -/
theorem read_flat {ls : List LogicalLine} (h : ∀ l ∈ ls, l.IsFlat o) {t : Text}
    (ht : (ofText t).lines = ls.flatMap LogicalLine.physical) (keep : Bool) (src : Sources)
    (source : Option Text) :
    ∃ st, (fresh o keep).read src source t = (.ok (), st, []) ∧
      (⟨st.values, st.layout.outline⟩ : Gist)
        = (ls.filterMap (LogicalLine.bare? (ListDelimiter.kept o.delimiter))).foldl (Gist.keep o)
            ⟨.empty, []⟩ := by
  have hcut : LogicalLine.cut none (ofText t).lines = ls := by
    rw [ht]
    refine LogicalLine.cut_flatMap_physical fun l hl => ⟨(h l hl).readable.isTerminated, ?_⟩
    obtain ⟨t', ht'⟩ := (h l hl).exists_cut
    exact ⟨_, ht'⟩
  obtain ⟨properties, st, hbare, hread, hvalues, hentries⟩ :=
    exists_read_of_isReadable (fun l hl => (h l (hcut ▸ hl)).readable)
      (fun l hl => (h l (hcut ▸ hl)).kept) keep src source
  have hplaced :=
    Gist.foldl_place o true properties ((fresh o keep).layout.enter (ofText t)) .empty
  refine ⟨st, hread, ?_⟩
  rw [hcut] at hbare
  rw [hvalues, Layout.outline, hentries, ← hbare, Gist.foldl_bare]
  exact hplaced.symm

/-- **Including is splicing.** If reading a text into a fresh store
succeeds, with its directives followed, then there are texts of the
spliced lines, and each of them can be read, with no source at hand, to
the same values in the same order and to a layout with the same keys in
the same order, the same separators and the same choice of single
lines. -/
theorem read_splice (ho : o.includesAllowed = true) (keep : Bool) {src : Sources}
    {source : Option Text} {t : Text} {st : Store} {notices : List Notice}
    (h : (fresh o keep).read src source t = (.ok (), st, notices)) :
    let lines := (src.splice o (stackOf source) t).flatMap LogicalLine.physical
    (∃ t', (ofText t').lines = lines) ∧
      ∀ t', (ofText t').lines = lines → ∀ src' source', ∃ st',
        (fresh o keep).read src' source' t' = (.ok (), st', []) ∧
        st'.values = st.values ∧ st'.layout.outline = st.layout.outline := by
  intro lines
  cases hload : Layout.load (ListDelimiter.kept o.delimiter) (sourceName source (stackOf source))
      (fun p s => receive o src (stackOf source) p.key p.value s) t
      ((fresh o keep).layout, ⟨.empty, []⟩) with
  | mk result s =>
    have hst : (result, ({ options := o, values := s.2.values, layout := s.1 } : Store),
        s.2.notices) = (.ok (), st, notices) := by
      rw [← h]
      unfold read loadWithin
      dsimp only [fresh]
      exact congrArg (fun r : Except LoadError Unit × (Layout × Loading) =>
        (r.1, ({ options := o, values := r.2.2.values, layout := r.2.1 } : Store),
          r.2.2.notices)) hload.symm
    obtain ⟨hresult, hst⟩ := Prod.mk.inj hst
    obtain ⟨rfl, -⟩ := Prod.mk.inj hst
    rw [hresult] at hload
    obtain ⟨hgist, hflat⟩ := load_amounts ho src (stackOf source) hload
    refine ⟨exists_ofText hflat, fun t' ht' src' source' => ?_⟩
    obtain ⟨st', hread, hgist'⟩ := read_flat hflat ht' keep src' source'
    obtain ⟨hvalues, houtline⟩ := Gist.mk.inj (hgist'.trans hgist.symm)
    exact ⟨st', hread, hvalues, houtline⟩

/-- A source between two properties, one of which it adds to. -/
theorem read_splice_between :
    ∃ st notices, (fresh { includeKey := some ['i'], includeOptionalKey := none } true).read
        (Sources.inMemory [(['s'], some "b = 2\na = 3".toList)] []) none "a = 1\ni = s\n".toList
        = (.ok (), st, notices) ∧
      ∃ st', (fresh { includeKey := some ['i'], includeOptionalKey := none } true).read
          (Sources.inMemory [] []) none "a = 1\nb = 2\na = 3".toList = (.ok (), st', []) ∧
        st'.values = st.values ∧ st'.layout.outline = st.layout.outline := by
  have hok : ((fresh { includeKey := some ['i'], includeOptionalKey := none } true).read
      (Sources.inMemory [(['s'], some "b = 2\na = 3".toList)] []) none
      "a = 1\ni = s\n".toList).1 = .ok () := by
    decide +kernel
  have hlines : (ofText "a = 1\nb = 2\na = 3".toList).lines
      = ((Sources.inMemory [(['s'], some "b = 2\na = 3".toList)] []).splice
          { includeKey := some ['i'], includeOptionalKey := none } []
          "a = 1\ni = s\n".toList).flatMap LogicalLine.physical := by
    decide +kernel
  have hread : (fresh { includeKey := some ['i'], includeOptionalKey := none } true).read
      (Sources.inMemory [(['s'], some "b = 2\na = 3".toList)] []) none "a = 1\ni = s\n".toList
      = (.ok (), _, _) := Prod.ext hok rfl
  obtain ⟨-, hspliced⟩ := read_splice rfl true hread
  exact ⟨_, _, hread, hspliced _ hlines _ none⟩

end Store

end PropertyFile

import PropertyFile.Proofs.Comments
import PropertyFile.Proofs.RoundTrip
import PropertyFile.Proofs.SafeDelimiter
import PropertyFile.Proofs.Terminators

/-!
# Lists on one line

What a writer puts down for one property, with a list delimiter, is read
again: as one property, whose value is then cut into its parts
(`ReadsBack`). Two laws are told apart by the number of values.

Several values on one line come back as they were, but for the blanks
around them, if the delimiter is a punctuation character that is no mark
of the format (`readsBack_list`). A single value should come back with
any delimiter, but not every character that may be a delimiter is fit
for it: the letters and digits of escapes are not, nor is any character
that has to be written as one. With the others, the **safe** delimiters
(`ListDelimiter.IsSafe`), every value comes back, and with no other does
(`readsBack_single_iff`).
-/

namespace PropertyFile

open Text

/-! ## The text of one property -/

namespace Writer

/-- The text that a writer writes for one property, with the given
separator. -/
def propertyText (o : WriterOptions) (separator key : Text) (values : List Text)
    (singleLine final : Bool) : Text :=
  ((({ separator? := some separator } : Writer).writeProperty o key values singleLine).finish o
    final).output

theorem propertyText_eq (o : WriterOptions) (separator key : Text) (values : List Text)
    (singleLine final : Bool) :
    propertyText o separator key values singleLine final
      = textOfLines o.terminator final
          (propertyLines o.style (o.globalSeparator.getD separator) key values singleLine) :=
  ((holds_fresh o (some separator)).writeLines _).output_finish final

end Writer

/-- **What comes back of a text**: one property with the given key and
separator, and with a value that is cut into the given values. -/
def ReadsBack (d : ListDelimiter) (t key separator : Text) (values : List Text) : Prop :=
  ∃ p : Property, Reading.ofLines (ListDelimiter.kept (some d)) (PhysicalLines.ofText t).lines
      = ⟨[p], .complete []⟩ ∧
    p.key = key ∧ p.separator = separator ∧ ListDelimiter.split (some d) true p.value = values

/-! ## One line -/

section Line

variable {d : ListDelimiter} {ascii : Bool} {s u : Text}

/-- A line that is written, and is not empty, is a physical line. -/
theorem lines_textOfLines_singleton (b : LineBreak) (final : Bool) {line : Text}
    (hline : IsLine line) (hne : line ≠ []) :
    (PhysicalLines.ofText (textOfLines b.chars final [line])).lines = [line] := by
  obtain ⟨blank, hblank, hlines⟩ :=
    lines_ofText_textOfLines b final (List.forall_mem_singleton.2 hline)
  obtain rfl | rfl := hblank
  · rwa [List.append_nil] at hlines
  · -- the empty line is no part of the written one
    have hlast : [] ∈ [line] := hlines ▸ List.mem_append_right _ (List.mem_singleton_self [])
    exact absurd (List.mem_singleton.1 hlast).symm hne

/-- A line on its own is one property, or is malformed. -/
theorem Reading.ofLines_singleton {kept line : Text} (hindent : NoIndent line)
    (hcomment : isCommentLine line = false) (hended : endsWithContinuation line = false) :
    Reading.ofLines kept [line] =
      match Property.ofLine kept [] 1 line with
      | .error e => ⟨[], .failed [] (.escape e) 1⟩
      | .ok p => ⟨[p], .complete []⟩ := by
  unfold Reading.ofLines Reading.run
  rw [if_neg (by simp [hcomment])]
  simp only [Option.map_none, Option.getD_none, List.nil_append, dropWhile_of_noIndent hindent,
    hended, Bool.false_eq_true, if_false]
  cases Property.ofLine kept [] 1 line <;> rfl

/-- The property on a written line. -/
theorem Property.ofLine_of_follows (kept : Text) (ascii : Bool) (k : Text) (hs : IsSeparator s)
    (hne : s ≠ []) (hu : LineParts.Follows s u) (comments : List Text) (number : Nat) :
    Property.ofLine kept comments number (propertyLine ascii k s u)
      = (unescape kept u).map fun v => ⟨k, v, s, comments, number⟩ := by
  unfold Property.ofLine
  rw [lineParts_of_follows ascii k hs (.inl hne) hu]
  dsimp only
  rw [unescape_key_alone]
  cases unescape kept u <;> rfl

/-- **What comes back of a written line** is what comes back of its
value. -/
theorem readsBack_line_iff (b : LineBreak) (final : Bool) {c : Char} {k : Text} {vs : List Text}
    (hc : isBlank c = false) (hs : IsSeparator s) (hne : s ≠ []) (hu : LineParts.Follows s u)
    (hline : IsLine (propertyLine ascii (c :: k) s u))
    (hpaired : IsPaired (propertyLine ascii (c :: k) s u)) :
    ReadsBack d (textOfLines b.chars final [propertyLine ascii (c :: k) s u]) (c :: k) s vs ↔
      (unescape (ListDelimiter.kept (some d)) u).map (ListDelimiter.split (some d) true)
        = .ok vs := by
  obtain ⟨hindent, hcomment⟩ : NoIndent (propertyLine ascii (c :: k) s u) ∧
      isCommentLine (propertyLine ascii (c :: k) s u) = false := propertyLine_starts hc s u
  have hstart : propertyLine ascii (c :: k) s u ≠ [] := by
    simp [propertyLine, hne]
  unfold ReadsBack
  rw [lines_textOfLines_singleton b final hline hstart,
    Reading.ofLines_singleton hindent hcomment hpaired.endsWithContinuation,
    Property.ofLine_of_follows _ _ _ hs hne hu]
  cases unescape (ListDelimiter.kept (some d)) u with
  | error e => simp [Except.map]
  | ok v =>
    constructor
    · rintro ⟨p, hp, -, -, hsplit⟩
      obtain rfl : _ = p := List.head_eq_of_cons_eq (Reading.mk.inj hp).1
      exact congrArg Except.ok hsplit
    · exact fun h => ⟨_, rfl, rfl, rfl, Except.ok.inj h⟩

theorem isLine_protect (d : Option ListDelimiter) {t : Text} (h : IsLine t) :
    IsLine (ListDelimiter.protect d t) := by
  cases d with
  | none => exact h
  | some d =>
    intro x hx
    obtain ⟨c, hc, hx⟩ := List.mem_flatMap.1 hx
    have hchar := h c hc
    split at hx
    · next hd =>
      obtain rfl | hx := List.mem_cons.1 hx
      · decide
      · rw [List.mem_singleton.1 hx, ← hd]
        exact hchar
    · exact List.mem_singleton.1 hx ▸ hchar

/-- What may stand behind a separator may do so protected. -/
theorem follows_protect (hu : LineParts.Follows s u) :
    LineParts.Follows s (ListDelimiter.protect (some d) u) := by
  intro x t h
  cases u with
  | nil => cases h
  | cons c rest =>
    change (if c = d.char then [escapeMark, d.char] else [c]) ++
      ListDelimiter.protect (some d) rest = x :: t at h
    split at h
    · obtain ⟨rfl, -⟩ := List.cons.inj h
      exact ⟨rfl, fun ha => absurd ha (by decide)⟩
    · obtain ⟨rfl, -⟩ := List.cons.inj h
      exact hu c rest rfl

/-- Values on one line hold no line break, if there is a single one or the
delimiter is none. -/
theorem isLine_joined (ascii : Bool) (s : Text) {vs : List Text}
    (h : vs.length = 1 ∨ d.char ≠ '\n' ∧ d.char ≠ '\r') : IsLine (d.joined ascii s vs) := by
  have hvalue : ∀ v, IsLine (ListDelimiter.protect (some d) (Escape.value ascii s v)) :=
    fun v => isLine_protect _ (Escape.isLine_value ascii s v)
  intro c hc
  obtain hone | hbreak := h
  · obtain ⟨v, rfl⟩ := List.length_eq_one_iff.1 hone
    exact hvalue v c hc
  · unfold ListDelimiter.joined at hc
    rw [List.map_map] at hc
    obtain hc | ⟨t, ht, hc⟩ := mem_of_mem_joinWith hc
    · exact List.mem_singleton.1 hc ▸ hbreak
    · obtain ⟨v, -, rfl⟩ := List.mem_map.1 ht
      exact hvalue v c hc

/-- Values on one line may stand behind their separator, if there is a
single one or the separator does not go on into the delimiter. -/
theorem follows_joined (ascii : Bool) (s : Text) {vs : List Text}
    (h : vs.length = 1 ∨ isSpacing d.char = false ∧ isAssign d.char = false) :
    LineParts.Follows s (d.joined ascii s vs) := by
  match vs, h with
  | [], _ => exact fun c t h => absurd h nofun
  | [v], _ => exact follows_protect (Escape.follows_value ascii s v)
  | v :: w :: rest, .inl hone => exact absurd hone (by simp)
  | v :: w :: rest, .inr ⟨hspacing, hassign⟩ =>
    intro x u hxu
    have hfirst := follows_protect (d := d) (Escape.follows_value ascii s v)
    have hcons : d.joined ascii s (v :: w :: rest)
        = ListDelimiter.protect (some d) (Escape.value ascii s v) ++ [d.char]
          ++ d.joined ascii s (w :: rest) := rfl
    rw [hcons] at hxu
    cases hvalue : ListDelimiter.protect (some d) (Escape.value ascii s v) with
    | nil =>
      rw [hvalue] at hxu
      obtain ⟨rfl, -⟩ := List.cons.inj hxu
      exact ⟨hspacing, fun ha => absurd (hassign.symm.trans ha) Bool.false_ne_true⟩
    | cons c t =>
      rw [hvalue] at hxu
      obtain ⟨rfl, -⟩ := List.cons.inj hxu
      exact hfirst c t hvalue

/-- The line of a property that is written on a single one. -/
theorem propertyLines_joined (d : ListDelimiter) (ascii : Bool) (s key : Text) {vs : List Text}
    {singleLine : Bool} (hne : vs ≠ []) (hsingle : singleLine = true ∨ vs.length = 1) :
    propertyLines ⟨some d, ascii⟩ s key vs singleLine
      = [propertyLine ascii key s (d.joined ascii s vs)] := by
  unfold propertyLines
  dsimp only
  rw [if_neg (by simp [hne]), if_pos (by simpa using hsingle)]
  rfl

/-- **What is written for one property on a single line** is one line, and
what comes back of it is what comes back of its value. -/
theorem readsBack_propertyText_iff (ascii : Bool) (b : LineBreak) (final : Bool) {c : Char}
    (hc : isBlank c = false) (k : Text) (hs : IsSeparator s) (hne : s ≠ []) {vs : List Text}
    {singleLine : Bool} (hsingle : singleLine = true ∨ vs.length = 1) (hvs : vs ≠ [])
    (hd : vs.length = 1 ∨ (isSpacing d.char = false ∧ isAssign d.char = false) ∧
      d.char ≠ '\n' ∧ d.char ≠ '\r') :
    (PhysicalLines.ofText (Writer.propertyText ⟨⟨some d, ascii⟩, b.chars, none⟩ s (c :: k) vs
      singleLine final)).lines = [propertyLine ascii (c :: k) s (d.joined ascii s vs)] ∧
    ∀ ws, ReadsBack d (Writer.propertyText ⟨⟨some d, ascii⟩, b.chars, none⟩ s (c :: k) vs
        singleLine final) (c :: k) s ws ↔
      (unescape (ListDelimiter.kept (some d)) (d.joined ascii s vs)).map
        (ListDelimiter.split (some d) true) = .ok ws := by
  have hlines := propertyLines_joined d ascii s (c :: k) hvs hsingle
  have hmark : escapeMark ∉ s := fun hmem => absurd (hs.chars _ hmem) (by decide)
  have hpaired := isPaired_propertyLines ⟨some d, ascii⟩ hmark (c :: k) vs singleLine
  rw [hlines, List.forall_mem_singleton] at hpaired
  have hline : IsLine (propertyLine ascii (c :: k) s (d.joined ascii s vs)) :=
    isLine_append.2 ⟨isLine_append.2 ⟨Escape.isLine_key ascii _, hs.isLine⟩,
      isLine_joined ascii s (hd.imp_right And.right)⟩
  rw [Writer.propertyText_eq]
  dsimp only [Option.getD_none]
  rw [hlines]
  exact ⟨lines_textOfLines_singleton b final hline (by simp [propertyLine, hne]), fun ws =>
    readsBack_line_iff b final hc hs hne (follows_joined ascii s (hd.imp_right And.left)) hline
      hpaired⟩

end Line

/-! ## Several values -/

/-- **A single value comes back exactly if all of its pieces are
spared.** -/
theorem readsBack_iff_spares (d : ListDelimiter) (ascii : Bool) (b : LineBreak)
    (singleLine final : Bool) {c : Char} (hc : isBlank c = false) (k : Text) {s : Text}
    (hs : IsSeparator s) (hne : s ≠ []) (v : Text) :
    ReadsBack d (Writer.propertyText ⟨⟨some d, ascii⟩, b.chars, none⟩ s (c :: k) [v] singleLine
        final) (c :: k) s [v] ↔
      ∀ p ∈ Escape.pieces ascii s v, d.Spares p.1 p.2 := by
  obtain ⟨-, hread⟩ := readsBack_propertyText_iff (d := d) ascii b final hc k hs hne
    (.inr rfl : singleLine = true ∨ _) (List.cons_ne_nil v []) (.inl rfl)
  exact (hread [v]).trans ListDelimiter.split_protect_iff

/-- A letter is no blank. -/
theorem isBlank_of_isAlpha {c : Char} (h : c.isAlpha = true) : isBlank c = false := by
  have hrange : (65 ≤ c.toNat ∧ c.toNat ≤ 90) ∨ (97 ≤ c.toNat ∧ c.toNat ≤ 122) := by
    obtain hupper | hlower := Bool.or_eq_true_iff.1 h
    · have hbounds : 'A'.val ≤ c.val ∧ c.val ≤ 'Z'.val := of_decide_eq_true hupper
      exact .inl hbounds
    · obtain ⟨hlow, hhigh⟩ := Bool.and_eq_true_iff.1 hlower
      exact .inr ⟨of_decide_eq_true hlow, of_decide_eq_true hhigh⟩
  simp only [isBlank, Bool.or_eq_false_iff, Bool.and_eq_false_iff, decide_eq_false_iff_not,
    beq_eq_false_iff_ne]
  omega

/-- **A list delimiter is safe exactly if every single value comes
back**, written for a key of letters with the default separator. -/
theorem readsBack_single_iff (d : ListDelimiter) (ascii : Bool) (b : LineBreak)
    (singleLine final : Bool) :
    (∀ key v : Text, key ≠ [] → (∀ c ∈ key, c.isAlpha = true) →
      ReadsBack d (Writer.propertyText ⟨⟨some d, ascii⟩, b.chars, none⟩ defaultSeparator key [v]
        singleLine final) key defaultSeparator [v]) ↔
      d.IsSafe ascii := by
  have hiff : ∀ (c : Char) (k v : Text), c.isAlpha = true → (ReadsBack d (Writer.propertyText
      ⟨⟨some d, ascii⟩, b.chars, none⟩ defaultSeparator (c :: k) [v] singleLine final) (c :: k)
        defaultSeparator [v] ↔
      ∀ p ∈ Escape.pieces ascii defaultSeparator v, d.Spares p.1 p.2) := fun c k v hc =>
    readsBack_iff_spares d ascii b singleLine final (isBlank_of_isAlpha hc) k .default
      (List.cons_ne_nil _ _) v
  constructor
  · intro h
    refine ListDelimiter.isSafe_of_spares fun v => (hiff 'k' [] v (by decide)).1 ?_
    exact h ['k'] v (List.cons_ne_nil _ _) (List.forall_mem_singleton.2 (by decide))
  · intro hsafe key v hne hkey
    obtain ⟨c, k, rfl⟩ := List.exists_cons_of_ne_nil hne
    exact (hiff c k v (hkey c List.mem_cons_self)).2 (hsafe.spares_pieces (fun _ => rfl) v)

/-- A tab is not safe: a value that holds one is written with its name,
`k = a\tb`, and read as two values. -/
theorem not_readsBack_tab :
    ¬∀ (d : ListDelimiter) (ascii : Bool) (b : LineBreak) (singleLine final : Bool)
      (key v : Text), key ≠ [] → (∀ c ∈ key, c.isAlpha = true) →
      ReadsBack d (Writer.propertyText ⟨⟨some d, ascii⟩, b.chars, none⟩ defaultSeparator key [v]
        singleLine final) key defaultSeparator [v] := by
  intro h
  have hread := h ⟨'\t', by decide⟩ false .lf false true ['k'] ['a', '\t', 'b']
    (List.cons_ne_nil _ _) (List.forall_mem_singleton.2 (by decide))
  rw [readsBack_iff_spares _ _ _ _ _ (by decide) _ .default (by decide)] at hread
  exact absurd (hread ('\t', ['\\', 't']) (by decide)) (by decide)

end PropertyFile

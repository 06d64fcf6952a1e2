import PropertyFile.Text.Basic

/-!
# Terminal styles

Colours on a terminal are switched by control sequences: the escape
character U+001B, a bracket, numbers, and a letter. Texts are styled in
two ways. **Painting** (`Paint.apply`) takes back at the end exactly
what it switched on, and keeps the style alive through sequences and
line breaks inside the text. **Marking** (`Mark.apply`) switches
everything off at the end and leaves the inside alone. Where colours
are not wanted, sequences are taken out again (`stripSequences`).
-/

namespace PropertyFile.Ansi

/-- The character that starts a control sequence. -/
def controlMark : Char := '\x1b'

/-- The sequence that sends one number. -/
def sequence (code : Nat) : Text := controlMark :: '[' :: (toString code).toList ++ ['m']

/-- The sequence that switches every style off. -/
def reset : Text := sequence 0

/-! ## Painting -/

/-- Styles that are switched on and off together: the numbers that
switch each on and off, in order. -/
structure Paint where
  /-- The number that switches a style on, and the one that ends it. -/
  codes : List (Nat × Nat)
deriving DecidableEq, Repr

namespace Paint

/-- The sequences that switch the styles on. -/
def opening (p : Paint) : Text := p.codes.flatMap fun c => sequence c.1

/-- The sequences that switch the styles off. -/
def closing (p : Paint) : Text := p.codes.flatMap fun c => sequence c.2

/-- Every occurrence of `old` in the text replaced by `new`, from the
left; `skip` characters are still part of the last occurrence. -/
def replaceFrom (old new : Text) : (skip : Nat) → Text → Text
  | _, [] => []
  | skip + 1, _ :: rest => replaceFrom old new skip rest
  | 0, c :: rest =>
    if old.isPrefixOf (c :: rest) then new ++ replaceFrom old new (old.length - 1) rest
    else c :: replaceFrom old new 0 rest

/-- The text up to the next reset sequence, which has to stand on the
same line, and what follows that sequence. -/
def upToReset : Text → Option (Text × Text)
  | [] => none
  | c :: rest =>
    if reset.isPrefixOf (c :: rest) then some ([], (c :: rest).drop reset.length)
    else if c = '\n' then none
    else (upToReset rest).map fun (inside, after) => (c :: inside, after)

theorem length_of_upToReset {t inside after : Text} (h : upToReset t = some (inside, after)) :
    after.length ≤ t.length := by
  induction t generalizing inside with
  | nil => simp [upToReset] at h
  | cons c rest ih =>
    unfold upToReset at h
    split at h
    · simp at h
      simp [← h.2]
    · split at h
      · cases h
      · obtain ⟨⟨inner, after'⟩, hr, he⟩ := Option.map_eq_some_iff.1 h
        obtain rfl : after' = after := (Prod.mk.inj he).2
        have := ih hr
        simp
        omega

/-- Each stretch from one reset sequence to the next put between the
closing and the opening sequences. -/
def encloseResets (p : Paint) : Text → Text
  | [] => []
  | c :: rest =>
    if reset.isPrefixOf (c :: rest) then
      match _h : upToReset (rest.drop (reset.length - 1)) with
      | some (inside, after) =>
        p.closing ++ reset ++ inside ++ reset ++ p.opening ++ encloseResets p after
      | none => c :: encloseResets p rest
    else c :: encloseResets p rest
termination_by t => t.length
decreasing_by
  · have := length_of_upToReset _h
    simp at this ⊢
    omega
  · simp
  · simp

/-- Each line break put between the closing and the opening
sequences. -/
def encloseBreaks (p : Paint) : Text → Text
  | [] => []
  | '\r' :: '\n' :: rest => p.closing ++ ['\r', '\n'] ++ p.opening ++ encloseBreaks p rest
  | c :: rest =>
    (if c = '\n' then p.closing ++ [c] ++ p.opening else [c]) ++ encloseBreaks p rest

/-- **The painted text.** Where a sequence inside ends one of the
styles it is switched on again; stretches between resets, and line
breaks, stay unpainted. -/
def apply (p : Paint) (t : Text) : Text :=
  let inside :=
    if t.contains controlMark then
      p.encloseResets <| p.codes.foldl (fun t c =>
        replaceFrom (sequence c.2) (sequence c.2 ++ sequence c.1) 0 t) t
    else t
  p.opening ++ p.encloseBreaks inside ++ p.closing

/-- Faint. -/
def dim : Paint := ⟨[(2, 22)]⟩
/-- Bold and red. -/
def boldRed : Paint := ⟨[(1, 22), (31, 39)]⟩
/-- Bold and green. -/
def boldGreen : Paint := ⟨[(1, 22), (32, 39)]⟩
/-- Green. -/
def green : Paint := ⟨[(32, 39)]⟩
/-- Yellow. -/
def yellow : Paint := ⟨[(33, 39)]⟩
/-- Blue. -/
def blue : Paint := ⟨[(34, 39)]⟩
/-- Cyan. -/
def cyan : Paint := ⟨[(36, 39)]⟩
/-- White. -/
def white : Paint := ⟨[(37, 39)]⟩
/-- Grey. -/
def gray : Paint := ⟨[(90, 39)]⟩
/-- Bright red. -/
def brightRed : Paint := ⟨[(91, 39)]⟩

end Paint

/-! ## Marking -/

/-- Styles that are switched on one after the other and off all at
once. -/
structure Mark where
  /-- The numbers that switch the styles on. -/
  codes : List Nat
deriving DecidableEq, Repr

namespace Mark

/-- The marked text; with no style at all the text as it is. -/
def apply (m : Mark) (t : Text) : Text :=
  if m.codes.isEmpty then t else m.codes.flatMap sequence ++ t ++ reset

/-- Bold. -/
def bold : Mark := ⟨[1]⟩
/-- Faint. -/
def dim : Mark := ⟨[2]⟩
/-- Bold and underlined. -/
def heading : Mark := ⟨[1, 4]⟩
/-- Red. -/
def red : Mark := ⟨[31]⟩
/-- Green. -/
def green : Mark := ⟨[32]⟩
/-- Yellow. -/
def yellow : Mark := ⟨[33]⟩
/-- Bright red. -/
def brightRed : Mark := ⟨[91]⟩

end Mark

/-! ## Taking styles out -/

/-- Whether a character is a parameter of a control sequence. -/
def isParameter (c : Char) : Bool := c.isDigit || c == ';' || c == '?'

/-- What follows a control sequence whose first two characters have been
read, if it ends in a letter. -/
def afterSequence? (t : Text) : Option Text :=
  match t.dropWhile isParameter with
  | c :: rest => if c.isAlpha then some rest else none
  | [] => none

theorem length_of_afterSequence? {t after : Text} (h : afterSequence? t = some after) :
    after.length < t.length := by
  have hl := congrArg List.length (List.takeWhile_append_dropWhile (p := isParameter) (l := t))
  unfold afterSequence? at h
  split at h
  · next c rest hd =>
    split at h
    · obtain rfl := by simpa using h
      rw [hd] at hl
      simp at hl
      omega
    · cases h
  · cases h

/-- **The text without control sequences.** -/
def stripSequences : Text → Text
  | [] => []
  | '\x1b' :: '[' :: rest =>
    match _h : afterSequence? rest with
    | some after => stripSequences after
    | none => '\x1b' :: stripSequences ('[' :: rest)
  | c :: rest => c :: stripSequences rest
termination_by t => t.length
decreasing_by
  · have := length_of_afterSequence? _h
    simp
    omega
  · simp
  · simp

end PropertyFile.Ansi

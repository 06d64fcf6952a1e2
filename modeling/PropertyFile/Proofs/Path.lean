import PropertyFile.Path
import PropertyFile.Proofs.Text

/-!
# Names of files

No file has a name with U+0000 in it, so what cannot be the name of a
file is told from the path alone (`Path.IsName`). The place that a path
leads to has a name if the path and the place it starts from have one
(`Path.exists_resolve`).
-/

namespace PropertyFile

namespace Path

/-- Whether a path can be the name of a file: it does not hold U+0000. -/
def IsName (p : Path) : Prop := p.toText.contains '\x00' = false

instance (p : Path) : Decidable p.IsName :=
  inferInstanceAs (Decidable (p.toText.contains '\x00' = false))

theorem isName_iff {p : Path} : p.IsName ↔ ∀ name ∈ p.names, '\x00' ∉ name := by
  have hslashes : '\x00' ∉ List.replicate p.slashes '/' := fun h => by
    cases (List.mem_replicate.1 h).2
  have hjoined : '\x00' ∈ Text.joinWith ['/'] p.names ↔ ∃ name ∈ p.names, '\x00' ∈ name := by
    constructor
    · intro h
      exact (Text.mem_of_mem_joinWith h).resolve_left (by decide)
    · rintro ⟨name, hname, h⟩
      exact Text.mem_joinWith hname h
  rw [IsName, List.contains_eq_mem, decide_eq_false_iff_not, toText]
  split
  · next h =>
    have hnone : p.names = [] := by simpa using (Bool.and_eq_true_iff.1 h).2
    simp [hnone]
  · rw [List.mem_append, hjoined]
    simp [hslashes]

theorem not_mem_of_mem_follow {start : Location} {names : List Text}
    (hstart : ∀ name ∈ start, '\x00' ∉ name) (hnames : ∀ name ∈ names, '\x00' ∉ name) :
    ∀ name ∈ follow start names, '\x00' ∉ name := by
  induction names generalizing start with
  | nil => exact hstart
  | cons first rest ih =>
    obtain ⟨hfirst, hrest⟩ := List.forall_mem_cons.1 hnames
    refine ih ?_ hrest
    show ∀ name ∈ if first = parentName then start.dropLast else start ++ [first], '\x00' ∉ name
    split
    · exact fun name hname => hstart name (List.dropLast_subset start hname)
    · intro name hname
      obtain hname | hname := List.mem_append.1 hname
      · exact hstart name hname
      · exact List.mem_singleton.1 hname ▸ hfirst

/-- What a path leads to has a name if the path and the place it starts
from have one. -/
theorem exists_resolve {current : Location} {p : Path} (hp : p.IsName)
    (hcurrent : (ofLocation current).IsName) :
    ∃ l, p.resolve current = .ok l ∧ (ofLocation l).IsName := by
  rw [isName_iff] at hp hcurrent
  have hnone : (p.names.any fun name => name.contains '\x00') = false := by
    simpa using hp
  rw [resolve, hnone]
  refine ⟨_, rfl, isName_iff.2 (not_mem_of_mem_follow ?_ hp)⟩
  split
  · exact nofun
  · exact hcurrent

end Path

end PropertyFile

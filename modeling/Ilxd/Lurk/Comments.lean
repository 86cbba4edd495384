import Mathlib.Data.List.Basic
import Mathlib.Data.String.Basic

/-!
# Comment removal

`removeComments` of the macro preprocessor reads its text with a `bufio.Scanner` split by
`ScanLines` and keeps each line whose trimmed text does not start with `;;`, followed by a
newline.  It never looks at `scanner.Err()`.  A scanner buffers at most `MaxScanTokenSize`
bytes of a line; on a longer line `Scan` fails and the loop ends as if the text ended there.

* `scanLines_lines` — on a text made of lines below the buffer size, each ended by a newline,
  the scanner yields those lines, a terminal carriage return dropped.
* `scanLines_long` — from a line of `MaxScanTokenSize` bytes or more, it yields nothing.
* `removeComments_lines` — so `removeComments` keeps exactly the lines that are not comments,
  and drops a line of 64 KiB or more, with everything after it, without an error.

Here a text is the list of the runes of a UTF-8 string: `strings.TrimSpace` trims the runes
`unicode.IsSpace` names, and the scanner's buffer counts each rune's UTF-8 bytes
(`String.utf8Len`).
-/

set_option autoImplicit false

namespace Ilxd

/-- `unicode.IsSpace`: in Latin-1 the runes `\t`, `\n`, `\v`, `\f`, `\r`, space, U+0085 and
U+00A0, and above it the runes of Unicode's `White_Space` table. -/
def IsSpace (r : Char) : Bool :=
  if r.toNat ≤ 0xFF then
    r == '\t' || r == '\n' || r == '\x0b' || r == '\x0c' || r == '\r' || r == ' ' ||
      r.toNat == 0x85 || r.toNat == 0xA0
  else
    r.toNat == 0x1680 || (0x2000 ≤ r.toNat && r.toNat ≤ 0x200A) || r.toNat == 0x2028 ||
      r.toNat == 0x2029 || r.toNat == 0x202F || r.toNat == 0x205F || r.toNat == 0x3000

/-- `strings.TrimSpace`: the text without its leading and trailing white space.  Its ASCII
fast path trims the same runes as the `TrimFunc(s, unicode.IsSpace)` it falls back to. -/
def TrimSpace (s : List Char) : List Char :=
  ((s.dropWhile IsSpace).reverse.dropWhile IsSpace).reverse

/-- `bufio.MaxScanTokenSize`: the largest buffer, in bytes, a `bufio.Scanner` grows to. -/
def MaxScanTokenSize : Nat := 64 * 1024

/-- `dropCR` of `bufio.ScanLines`: drop one terminal carriage return. -/
def dropCR (data : List Char) : List Char :=
  if data.getLast? = some '\r' then data.dropLast else data

/-- The lines `for scanner.Scan()` yields from a `bufio.Scanner` split by `ScanLines`, `line`
being the part of the current line buffered so far.  A line ends at `\n`, and the last one at
the end of the data if it is not empty.  Once the bytes of one line fill the
`MaxScanTokenSize` bytes of the buffer with no `\n` among them, `Scan` fails with
`ErrTooLong` and yields no more lines. -/
def scanLines (line : List Char) : List Char → List (List Char)
  | [] => if line = [] then [] else [dropCR line]
  | c :: data =>
    if c = '\n' then dropCR line :: scanLines [] data
    else if MaxScanTokenSize ≤ String.utf8Len (line ++ [c]) then []
    else scanLines (line ++ [c]) data

/-- `removeComments`. -/
def removeComments (expression : List Char) : List Char :=
  ((scanLines [] expression).filter fun line =>
    !";;".toList.isPrefixOf (TrimSpace line)).flatMap (· ++ ['\n'])

/-- A line that starts with a no-break space before its `;;` is a comment too. -/
example : removeComments "(+ 1 2)\n\u00A0;; a note\n".toList = "(+ 1 2)\n".toList := by
  decide

/-! ## The scanner -/

/-- A line below the buffer size ends at its newline. -/
theorem scanLines_line : ∀ (line l rest : List Char), '\n' ∉ l →
    String.utf8Len (line ++ l) < MaxScanTokenSize →
    scanLines line (l ++ '\n' :: rest) = dropCR (line ++ l) :: scanLines [] rest
  | line, [], rest, _, _ => by simp [scanLines]
  | line, c :: l, rest, hl, hlen => by
    have hc : c ≠ '\n' := fun h => hl (h ▸ List.mem_cons_self c l)
    have e : line ++ c :: l = line ++ [c] ++ l := by simp
    rw [e] at hlen ⊢
    rw [List.cons_append, scanLines, if_neg hc, if_neg (by simp at hlen ⊢; omega),
      scanLines_line (line ++ [c]) l rest (fun h => hl (List.mem_cons_of_mem c h)) hlen]

/-- **A line that fills the buffer ends the scan**, whatever follows it. -/
theorem scanLines_long : ∀ (line l rest : List Char), '\n' ∉ l →
    String.utf8Len line < MaxScanTokenSize → MaxScanTokenSize ≤ String.utf8Len (line ++ l) →
    scanLines line (l ++ rest) = []
  | line, [], _, _, hline, hlen => absurd hline (by simpa using hlen)
  | line, c :: l, rest, hl, _, hlen => by
    have hc : c ≠ '\n' := fun h => hl (h ▸ List.mem_cons_self c l)
    rw [List.cons_append, scanLines, if_neg hc]
    split
    · rfl
    · exact scanLines_long (line ++ [c]) l rest (fun h => hl (List.mem_cons_of_mem c h))
        (by omega) (by simpa using hlen)

/-- **The lines of a text**, each below the buffer size and ended by a newline. -/
theorem scanLines_lines (rest : List Char) : ∀ lines : List (List Char),
    (∀ l ∈ lines, '\n' ∉ l ∧ String.utf8Len l < MaxScanTokenSize) →
    scanLines [] (lines.flatMap (· ++ ['\n']) ++ rest) = lines.map dropCR ++ scanLines [] rest
  | [], _ => rfl
  | l :: lines, h => by
    have hl := h l (List.mem_cons_self l lines)
    rw [List.flatMap_cons, List.append_assoc, List.append_assoc, List.singleton_append,
      scanLines_line [] l _ hl.1 hl.2,
      scanLines_lines rest lines fun l' hl' => h l' (List.mem_cons_of_mem l hl')]
    simp

/-! ## Comments -/

/-- **`removeComments` keeps the lines that are not comments**, each followed by a newline
and without a terminal carriage return, when every line is below the buffer size; and at a
line of `MaxScanTokenSize` bytes or more it stops, dropping that line and all that follow. -/
theorem removeComments_lines (lines : List (List Char))
    (hlines : ∀ l ∈ lines, '\n' ∉ l ∧ String.utf8Len l < MaxScanTokenSize) (long rest : List Char)
    (hlong : '\n' ∉ long ∧ MaxScanTokenSize ≤ String.utf8Len long) :
    removeComments (lines.flatMap (· ++ ['\n'])) =
      ((lines.map dropCR).filter fun line =>
        !";;".toList.isPrefixOf (TrimSpace line)).flatMap (· ++ ['\n']) ∧
    removeComments (lines.flatMap (· ++ ['\n']) ++ long ++ rest) =
      removeComments (lines.flatMap (· ++ ['\n'])) := by
  have hscan := scanLines_lines [] lines hlines
  rw [List.append_nil] at hscan
  refine ⟨by rw [removeComments, hscan, scanLines, if_pos rfl, List.append_nil], ?_⟩
  rw [removeComments, removeComments, List.append_assoc, scanLines_lines _ lines hlines,
    scanLines_long [] long rest hlong.1 (by decide) (by simpa using hlong.2), List.append_nil,
    hscan, scanLines, if_pos rfl, List.append_nil]

theorem utf8Len_replicate (n : Nat) (c : Char) :
    String.utf8Len (List.replicate n c) = n * c.utf8Size := by
  induction n with
  | zero => simp
  | succ n ih => rw [List.replicate_succ, String.utf8Len_cons, ih, Nat.succ_mul]

/-- A line of 21846 three-byte runes, 65538 bytes, ends the text; the comment line before it,
indented by a no-break space, is dropped. -/
theorem removeComments_drops_long_line :
    ((∀ l ∈ ["(+ 1 2)".toList, "\u00A0;; a note".toList],
        '\n' ∉ l ∧ String.utf8Len l < MaxScanTokenSize) ∧
      ('\n' ∉ List.replicate 21846 '\u4E00' ∧
        MaxScanTokenSize ≤ String.utf8Len (List.replicate 21846 '\u4E00'))) ∧
    removeComments (["(+ 1 2)".toList, "\u00A0;; a note".toList].flatMap (· ++ ['\n'])) =
      ((["(+ 1 2)".toList, "\u00A0;; a note".toList].map dropCR).filter fun line =>
        !";;".toList.isPrefixOf (TrimSpace line)).flatMap (· ++ ['\n']) ∧
    removeComments (["(+ 1 2)".toList, "\u00A0;; a note".toList].flatMap (· ++ ['\n']) ++
        List.replicate 21846 '\u4E00' ++ "(+ 3 4)\n".toList) =
      removeComments (["(+ 1 2)".toList, "\u00A0;; a note".toList].flatMap (· ++ ['\n'])) := by
  have hlines : ∀ l ∈ ["(+ 1 2)".toList, "\u00A0;; a note".toList],
      '\n' ∉ l ∧ String.utf8Len l < MaxScanTokenSize := by decide
  have hlong : '\n' ∉ List.replicate 21846 '\u4E00' ∧
      MaxScanTokenSize ≤ String.utf8Len (List.replicate 21846 '\u4E00') :=
    ⟨fun h => absurd (List.eq_of_mem_replicate h) (by decide), by rw [utf8Len_replicate]; decide⟩
  exact ⟨⟨hlines, hlong⟩, removeComments_lines _ hlines _ _ hlong⟩

end Ilxd

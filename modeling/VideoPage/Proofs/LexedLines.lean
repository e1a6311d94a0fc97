import VideoPage.Proofs.SheetBraces
import VideoPage.Proofs.SheetPositions
import VideoPage.Proofs.SheetRegions

/-! A lexer is given the lines of a text one after the other. All that it carries from one line
to the next is whether a comment is open, and yet it finds the braces that a reader of
the whole text finds, at the same bytes. -/

namespace VideoPage.Proofs.LexedLines
open Stylesheet SheetScan SheetBraces SheetPositions SheetRegions

section Lexer

/-- How many bytes a text takes. -/
def bytes (text : List Char) : Nat := (text.map Char.utf8Size).sum

/-- The structural braces of a line, each with the byte of the line that it stands at. -/
def lexed (inComment : Bool) (line : List Char) : List (Nat × Brace) :=
  (located (.atLineStart inComment) [] line).map fun found => (bytes found.1, found.2)

def openAfter (inComment : Bool) (line : List Char) : Bool := ((Scan.atLineStart inComment).after line).inComment

/-- Whether a comment is open when a lexer has been given some lines. -/
def openBehind (lines : List (List Char)) : Bool := lines.foldl openAfter false

/-- What a lexer finds on lines that follow each other, moved on by the bytes in front of each line. -/
def lexedLines (inComment : Bool) (start : Nat) : List (List Char) → List (Nat × Brace)
  | [] => []
  | line :: rest =>
    (lexed inComment line).map (fun found => (start + found.1, found.2)) ++
      lexedLines (openAfter inComment line) (start + bytes line + 1) rest

end Lexer

section Lines

theorem bytes_append (first second : List Char) : bytes (first ++ second) = bytes first + bytes second := by
  rw [bytes, List.map_append, List.sum_append]
  rfl

theorem bytes_break : bytes ['\n'] = 1 := rfl

theorem located_bytes (inComment : Bool) (front line : List Char) :
    (located (.atLineStart inComment) front line).map (fun found => (bytes found.1, found.2)) =
      (lexed inComment line).map fun found => (bytes front + found.1, found.2) := by
  rw [located_front, lexed, List.map_map, List.map_map]
  simp [bytes_append]

theorem lexedLines_eq (inComment : Bool) (front : List Char) (lines : List (List Char)) :
    lexedLines inComment (bytes front) lines =
      (locatedLines inComment front lines).map fun found => (bytes found.1, found.2) := by
  induction lines generalizing inComment front with
  | nil => rfl
  | cons line lines ih =>
    rw [lexedLines, locatedLines, List.map_append, located_bytes, ← ih, bytes_append, bytes_append, bytes_break]
    rfl

theorem foldl_openAfter (inComment : Bool) (lines : List (List Char)) :
    lines.foldl openAfter inComment = ((Scan.atLineStart inComment).after (textOf lines)).inComment := by
  induction lines generalizing inComment with
  | nil => exact (inComment_atLineStart inComment).symm
  | cons line lines ih =>
    have text : textOf (line :: lines) = (line ++ ['\n']) ++ textOf lines := List.flatMap_cons
    rw [List.foldl_cons, ih, text, after_append, after_append]
    rfl

/-- The lexer is in a comment behind some lines as a scan of their text is. -/
theorem openBehind_eq (lines : List (List Char)) :
    openBehind lines = (Scan.code.after (['\n'].intercalate lines)).inComment := by
  rw [openBehind, foldl_openAfter, inComment_textOf]
  rfl

theorem head?_lexed (inComment : Bool) (line : List Char) : (lexed inComment line).head? =
    ((Scan.atLineStart inComment).splitAtBrace? line).map fun cut => (bytes cut.1, cut.2.1) := by
  rw [lexed, List.head?_map, head?_located, Option.map_map]
  rfl

theorem lexed_braces (inComment : Bool) (line : List Char) :
    (lexed inComment line).map Prod.snd = (Scan.atLineStart inComment).braces line := by
  rw [← located_braces _ [], lexed, List.map_map]
  rfl

end Lines

/-- Reading line by line is reading the whole: the braces that a lexer finds on the lines of a text
are those that stand outside comments and strings, in order and at their bytes, and
after each line it knows whether the text is inside a comment there. The scoping of a sheet goes by
what the lexer finds. -/
theorem lexed_as_whole (text : List Char) :
    lexedLines false 0 (text.splitOn '\n') = (structuralBraces text).map (fun found => (bytes found.1, found.2)) ∧
    (∀ front brace, (front, brace) ∈ structuralBraces text ↔
      ∃ rest, text = front ++ charOf brace :: rest ∧ Outside front (charOf brace :: rest)) ∧
    (∀ lines rest, lines <+: text.splitOn '\n' → text = ['\n'].intercalate lines ++ rest →
      (openBehind lines = true ↔ InComment (['\n'].intercalate lines) rest)) ∧
    (∀ index p line, ReadAt {} (text.splitOn '\n') index p line →
      p.inComment = openBehind ((text.splitOn '\n').take index) ∧
      p.scan.braces line = (lexed p.inComment line).map Prod.snd ∧
      (p.scan.splitAtBrace? line).map (fun cut => (bytes cut.1, cut.2.1)) = (lexed p.inComment line).head?) := by
  have located : structuralBraces text = located .code [] text := bracesFrom_eq_located .code trivial [] text
  refine ⟨?_, fun front brace => ?_, fun lines rest _ _ => ?_, fun index p line read => ⟨?_, ?_, ?_⟩⟩
  · have lines := lexedLines_eq false [] (text.splitOn '\n')
    rw [← located_intercalate, List.intercalate_splitOn] at lines
    rw [located]
    exact lines
  · rw [located, mem_located]
    constructor
    · rintro ⟨c, rest, whole, found⟩
      obtain ⟨rfl, place⟩ := brace?_after_iff.mp found
      exact ⟨rest, whole, place⟩
    · rintro ⟨rest, whole, place⟩
      exact ⟨charOf brace, rest, whole, brace?_after_iff.mpr ⟨rfl, place⟩⟩
  · rw [openBehind_eq]
    exact inComment_after_iff
  · rw [through?_inComment read.position, inComment_textOf, openBehind_eq]
    rfl
  · exact (lexed_braces p.inComment line).symm
  · exact (head?_lexed p.inComment line).symm

/-- A comment starts behind a character of two bytes, its opening star stands before a slash, and its
end comes behind one more star. The string on the second line ends with that line. -/
theorem lexed_as_whole_overlaps :
    let first := ['é', '{', '/', '*', '/', '}']
    let second := ['*', '*', '/', '}', '"', '\\']
    let rest := '\n' :: second ++ ['\n', '{']
    let p : Position := { inComment := true, blocks := [.rule] }
    (structuralBraces (first ++ rest)).map (fun found => (bytes found.1, found.2)) =
        [(2, .opening), (11, .closing), (15, .opening)] ∧
      [first] <+: (first ++ rest).splitOn '\n' ∧ first ++ rest = ['\n'].intercalate [first] ++ rest ∧
      InComment (['\n'].intercalate [first]) rest ∧
      ReadAt {} ((first ++ rest).splitOn '\n') 1 p second ∧ p.scan.braces second = [.closing] := by
  intro first second rest p
  obtain ⟨found, -, comments, loop⟩ := lexed_as_whole (first ++ rest)
  have prior : [first] <+: (first ++ rest).splitOn '\n' := by decide
  have read : ReadAt {} ((first ++ rest).splitOn '\n') 1 p second := ⟨by decide, by decide⟩
  refine ⟨?_, prior, rfl, (comments [first] rest prior rfl).mp (by decide), read, ?_⟩
  · rw [← found]
    decide
  · rw [(loop 1 p second read).2.1]
    decide

end VideoPage.Proofs.LexedLines

import VideoPage.Proofs.SheetScan

/-! The structural braces of a whole text, found by a reader who goes through it once and
knows three regions. A comment runs to the nearest end after its start, over line breaks;
a string runs to its quote, unless a backslash hides that, or to the end of its line. The
braces of a text are those of its lines, which a scan may read one by one. -/

namespace VideoPage.Proofs.SheetBraces
open Stylesheet SheetScan

inductive Region where
  | code
  | comment
  | string (quote : Char)

/-- The structural braces in the rest of a text, each with all the text in front of it. -/
def bracesFrom : Region → List Char → List Char → List (List Char × Brace)
  | _, _, [] => []
  | .code, front, '/' :: '*' :: rest => bracesFrom .comment (front ++ ['/', '*']) rest
  | .code, front, c :: rest =>
    if c = '"' ∨ c = '\'' then bracesFrom (.string c) (front ++ [c]) rest
    else if c = '{' then (front, .opening) :: bracesFrom .code (front ++ [c]) rest
    else if c = '}' then (front, .closing) :: bracesFrom .code (front ++ [c]) rest
    else bracesFrom .code (front ++ [c]) rest
  | .comment, front, '*' :: '/' :: rest => bracesFrom .code (front ++ ['*', '/']) rest
  | .comment, front, c :: rest => bracesFrom .comment (front ++ [c]) rest
  | .string quote, front, '\\' :: c :: rest =>
    if c = '\n' then bracesFrom .code (front ++ ['\\', c]) rest
    else bracesFrom (.string quote) (front ++ ['\\', c]) rest
  | .string quote, front, c :: rest =>
    if c = quote ∨ c = '\n' then bracesFrom .code (front ++ [c]) rest
    else bracesFrom (.string quote) (front ++ [c]) rest

def structuralBraces (text : List Char) : List (List Char × Brace) := bracesFrom .code [] text

def located (s : Scan) (front : List Char) : List Char → List (List Char × Brace)
  | [] => []
  | c :: rest => ((s.brace? c).map (front, ·)).toList ++ located (s.step c) (front ++ [c]) rest

theorem located_append (s : Scan) (front first second : List Char) :
    located s front (first ++ second) = located s front first ++ located (s.after first) (front ++ first) second := by
  induction first generalizing s front with
  | nil => simp [located, Scan.after]
  | cons c first ih =>
    simp only [List.cons_append, located, ih, after_cons, List.append_assoc, List.nil_append]

/-- All the text in front of a brace that is found in the rest of a text. -/
theorem located_front (s : Scan) (front text : List Char) :
    located s front text = (located s [] text).map fun found => (front ++ found.1, found.2) := by
  induction text generalizing s front with
  | nil => rfl
  | cons c text ih =>
    rw [located, located, ih, ih _ ([] ++ [c])]
    cases s.brace? c <;> simp

theorem mem_located {s : Scan} {front text : List Char} {brace : Brace} :
    (front, brace) ∈ located s [] text ↔
      ∃ c rest, text = front ++ c :: rest ∧ (s.after front).brace? c = some brace := by
  induction text generalizing s front with
  | nil => simp [located]
  | cons d text ih =>
    rw [located, located_front]
    cases front with
    | nil => cases found : s.brace? d <;> simp [found, Scan.after, eq_comm]
    | cons e front =>
      have later : (e :: front, brace) ∈ (located (s.step d) [] text).map (fun found => ([d] ++ found.1, found.2)) ↔
          d = e ∧ (front, brace) ∈ located (s.step d) [] text := by
        simp [and_comm]
      have here : (e :: front, brace) ∉ ((s.brace? d).map (([] : List Char), ·)).toList := by simp
      rw [List.mem_append, or_iff_right here, List.nil_append, later, ih]
      constructor
      · rintro ⟨rfl, c, rest, rfl, found⟩
        exact ⟨c, rest, rfl, found⟩
      · rintro ⟨c, rest, same, found⟩
        obtain ⟨rfl, rfl⟩ := List.cons.inj same
        exact ⟨rfl, c, rest, rfl, found⟩

/-- A line is cut at the first of its braces. -/
theorem head?_located (s : Scan) (text : List Char) :
    (located s [] text).head? = (s.splitAtBrace? text).map fun cut => (cut.1, cut.2.1) := by
  induction text generalizing s with
  | nil => rfl
  | cons c text ih =>
    rw [located, located_front, Scan.splitAtBrace?]
    cases s.brace? c with
    | some brace => rfl
    | none =>
      rw [Option.map_none, Option.toList_none, List.nil_append, List.head?_map, ih]
      cases (s.step c).splitAtBrace? text <;> rfl

/-- The braces of lines that follow each other, each with all the text in front of it. -/
def locatedLines (inComment : Bool) (front : List Char) : List (List Char) → List (List Char × Brace)
  | [] => []
  | line :: rest =>
    located (.atLineStart inComment) front line ++
      locatedLines ((Scan.atLineStart inComment).after line).inComment (front ++ line ++ ['\n']) rest

/-- A text is read like its lines, of which each starts anew but for an open comment. -/
theorem located_intercalate (inComment : Bool) (front : List Char) (lines : List (List Char)) :
    located (.atLineStart inComment) front (['\n'].intercalate lines) = locatedLines inComment front lines := by
  induction lines generalizing inComment front with
  | nil => rfl
  | cons line lines ih =>
    cases lines with
    | nil => simp [locatedLines]
    | cons next lines =>
      rw [List.intercalate_cons_cons, List.append_assoc, located_append, locatedLines, ← ih]
      congr 1
      cases (Scan.atLineStart inComment).after line <;> rfl

def Region.scan : Region → Scan
  | .code => .code
  | .comment => .comment
  | .string quote => .quoted quote

/-- A slash that no star follows, and a star that no slash follows, mean nothing. -/
theorem located_slash {front rest : List Char} (noStar : ∀ tail, rest ≠ '*' :: tail) :
    located .slash front rest = located .code front rest := by
  cases rest with
  | nil => rfl
  | cons c rest =>
    have other : c ≠ '*' := fun same => noStar rest (by rw [same])
    rw [located, located, step_slash other]
    rfl

theorem located_star {front rest : List Char} (noSlash : ∀ tail, rest ≠ '/' :: tail) :
    located .star front rest = located .comment front rest := by
  cases rest with
  | nil => rfl
  | cons c rest =>
    have other : c ≠ '/' := fun same => noSlash rest (by rw [same])
    rw [located, located, step_star other]
    rfl

theorem bracesFrom_eq_located (region : Region) (sound : Sound region.scan) (front text : List Char) :
    bracesFrom region front text = located region.scan front text := by
  -- The cases are the reader's: the end of the text, then code, comments and strings.
  fun_induction bracesFrom region front text with
  | case1 => cases ‹Region› <;> rfl
  | case2 front rest ih =>
    rw [ih trivial]
    simp [located, Region.scan, Scan.brace?, Scan.step, Scan.inCode]
  | case3 front c rest _ quote ih =>
    have noBreak : c ≠ '\n' := by rintro rfl; simp at quote
    have noSlash : c ≠ '/' := by rintro rfl; simp at quote
    have noOpening : c ≠ '{' := by rintro rfl; simp at quote
    have noClosing : c ≠ '}' := by rintro rfl; simp at quote
    rw [ih quote]
    simp [located, Region.scan, Scan.brace?, Scan.step, Scan.inCode, noBreak, noSlash, noOpening, noClosing, quote]
  | case4 front rest _ _ ih =>
    rw [ih trivial]
    simp [located, Region.scan, Scan.brace?, Scan.step, Scan.inCode]
  | case5 front rest _ _ _ ih =>
    rw [ih trivial]
    simp [located, Region.scan, Scan.brace?, Scan.step, Scan.inCode]
  | case6 front c rest noComment noQuote noOpening noClosing ih =>
    rw [ih trivial]
    by_cases slash : c = '/'
    · subst slash
      rw [Region.scan, ← located_slash (fun tail same => noComment tail rfl same)]
      simp [located, Scan.brace?, Scan.step, Scan.inCode]
    · simp [located, Region.scan, Scan.brace?, Scan.step, Scan.inCode, Scan.newline, Scan.inComment, Scan.atLineStart,
        slash, noQuote, noOpening, noClosing]
  | case7 front rest ih =>
    rw [ih trivial]
    simp [located, Region.scan, Scan.brace?, Scan.step, Scan.inCommentText]
  | case8 front c rest noEnd ih =>
    rw [ih trivial]
    by_cases star : c = '*'
    · subst star
      rw [Region.scan, ← located_star (fun tail same => noEnd tail rfl same)]
      simp [located, Scan.brace?, Scan.step, Scan.inCommentText]
    · simp [located, Region.scan, Scan.brace?, Scan.step, Scan.inCommentText, Scan.newline, Scan.inComment,
        Scan.atLineStart, star]
  | case9 quote front rest ih =>
    rw [ih trivial]
    simp [located, Region.scan, Scan.brace?, Scan.step, Scan.newline, Scan.inComment, Scan.atLineStart]
  | case10 quote front c rest noBreak ih =>
    rw [ih sound]
    simp [located, Region.scan, Scan.brace?, Scan.step, noBreak]
  | case11 quote front c rest _ ends ih =>
    have noEscape : quote ≠ '\\' := by rcases sound with rfl | rfl <;> decide
    rw [ih trivial]
    rcases ends with rfl | rfl
    · simp [located, Region.scan, Scan.brace?, Scan.step, Scan.newline, Scan.inComment, Scan.atLineStart, noEscape]
    · simp [located, Region.scan, Scan.brace?, Scan.step, Scan.newline, Scan.inComment, Scan.atLineStart]
  | case12 quote front c rest noEscape more ih =>
    rw [ih sound]
    cases rest with
    | nil => simp [located, Region.scan, Scan.brace?]
    | cons d rest =>
      have other : c ≠ '\\' := fun same => noEscape d rest same rfl
      simp only [not_or] at more
      simp [located, Region.scan, Scan.brace?, Scan.step, other, more]

theorem located_braces (s : Scan) (front text : List Char) : (located s front text).map Prod.snd = s.braces text := by
  induction text generalizing s front with
  | nil => rfl
  | cons c text ih =>
    rw [located, List.map_append, ih, braces_cons]
    cases s.brace? c <;> rfl

theorem structuralBraces_braces (text : List Char) : (structuralBraces text).map Prod.snd = Scan.code.braces text := by
  have same : structuralBraces text = located .code [] text := bracesFrom_eq_located .code trivial [] text
  rw [same, located_braces]

theorem braces_of_structural_nil {text : List Char} (none : structuralBraces text = []) : Scan.code.braces text = [] := by
  rw [← structuralBraces_braces, none, List.map_nil]

end VideoPage.Proofs.SheetBraces

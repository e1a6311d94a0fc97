import VideoPage.Proofs.SheetScan

/-! The regions of a whole sheet. A reader who takes each comment and each string in one go
comes to rest only outside of both, and where that is says nothing about lines or about what a
scan remembers. The scan knows these places: at them alone a brace is structure to it, and
it is in a comment just where the reader would be in the middle of one. -/

namespace VideoPage.Proofs.SheetRegions
open Stylesheet SheetScan

section Regions

def charOf : Brace → Char
  | .opening => '{'
  | .closing => '}'

def IsQuote (c : Char) : Prop := c = '"' ∨ c = '\''

/-- Text in which no string ends. A backslash hides the character behind it, but no line break. -/
inductive Unended (quote : Char) : List Char → Prop where
  | nil : Unended quote []
  | plain {c : Char} {text : List Char} (noEnd : c ∉ [quote, '\\', '\n']) (rest : Unended quote text) :
      Unended quote (c :: text)
  | hidden {c : Char} {text : List Char} (noBreak : c ≠ '\n') (rest : Unended quote text) :
      Unended quote ('\\' :: c :: text)

/-- The places between the characters of a text at which a reader from the left comes to rest,
each as the text in front of it and the text behind it. -/
inductive Outside : List Char → List Char → Prop where
  | start (text : List Char) : Outside [] text
  | code {front rest : List Char} {c : Char} (place : Outside front (c :: rest)) (noString : ¬ IsQuote c)
      (noComment : ¬ ['/', '*'] <+: c :: rest) : Outside (front ++ [c]) rest
  /-- A comment runs to the next end, and the star at its start is no part of that. -/
  | comment {front body rest : List Char} (place : Outside front ('/' :: '*' :: (body ++ '*' :: '/' :: rest)))
      (next : Uncut (body ++ ['*'])) : Outside (front ++ '/' :: '*' :: (body ++ ['*', '/'])) rest
  /-- A string runs to the next such quote that nothing hides. -/
  | string {front body rest : List Char} {quote : Char} (place : Outside front (quote :: (body ++ quote :: rest)))
      (isQuote : IsQuote quote) (next : Unended quote body) : Outside (front ++ quote :: (body ++ [quote])) rest
  /-- A line break that comes first ends a string too, even just behind a backslash. -/
  | broken {front body escape rest : List Char} {quote : Char}
      (place : Outside front (quote :: (body ++ escape ++ '\n' :: rest))) (isQuote : IsQuote quote)
      (next : Unended quote body) (escapes : escape = [] ∨ escape = ['\\']) :
      Outside (front ++ quote :: (body ++ escape ++ ['\n'])) rest

/-- The places behind the start of a comment and not behind its end. -/
def InComment (front rest : List Char) : Prop :=
  ∃ before body, front = before ++ '/' :: '*' :: body ∧ Outside before ('/' :: '*' :: (body ++ rest)) ∧ Uncut body

end Regions

section Bodies
variable {quote c : Char} {text : List Char}

theorem IsQuote.step (isQuote : IsQuote c) : Scan.code.step c = .quoted c := by
  rcases isQuote with rfl | rfl
  all_goals rfl

theorem step_noQuote (noQuote : ¬ IsQuote c) : Scan.code.step c = if c = '/' then .slash else .code := by
  rw [step_code, Scan.inCode]
  simp only [IsQuote] at noQuote
  simp [noQuote]

theorem IsQuote.noEscape (isQuote : IsQuote quote) : quote ≠ '\\' := by
  rcases isQuote with rfl | rfl
  all_goals decide

theorem IsQuote.noBreak (isQuote : IsQuote quote) : quote ≠ '\n' := by
  rcases isQuote with rfl | rfl
  all_goals decide

theorem Unended.append {more : List Char} (first : Unended quote text) (second : Unended quote more) :
    Unended quote (text ++ more) := by
  induction first with
  | nil => exact second
  | plain noEnd _ ih => exact .plain noEnd ih
  | hidden noBreak _ ih => exact .hidden noBreak ih

theorem after_unended (unended : Unended quote text) :
    (Scan.quoted quote).after text = .quoted quote := by
  induction unended with
  | nil => rfl
  | plain noEnd _ ih =>
    simp only [List.mem_cons, List.not_mem_nil, or_false, not_or] at noEnd
    obtain ⟨noQuote, noEscape, noBreak⟩ := noEnd
    rw [after_cons, Scan.step, if_neg noBreak, if_neg noEscape, if_neg noQuote, ih]
  | hidden noBreak _ ih =>
    rw [after_cons, after_cons, Scan.step, if_neg (by decide), if_pos rfl, Scan.step, if_neg noBreak, ih]

end Bodies

section Knowledge

/-- What a scan remembers at a place, and where the reader is who comes to it or passes it. -/
inductive Knows : Scan → List Char → List Char → Prop where
  | code {front rest : List Char} (place : Outside front rest) : Knows .code front rest
  | slash {front rest : List Char} (place : Outside front ('/' :: rest)) : Knows .slash (front ++ ['/']) rest
  | comment {front body rest : List Char} (place : Outside front ('/' :: '*' :: (body ++ rest))) (uncut : Uncut body)
      (noStar : body.getLast? ≠ some '*') : Knows .comment (front ++ '/' :: '*' :: body) rest
  | star {front body rest : List Char} (place : Outside front ('/' :: '*' :: (body ++ rest))) (uncut : Uncut body)
      (star : body.getLast? = some '*') : Knows .star (front ++ '/' :: '*' :: body) rest
  | quoted {front body rest : List Char} {quote : Char} (place : Outside front (quote :: (body ++ rest)))
      (isQuote : IsQuote quote) (unended : Unended quote body) : Knows (.quoted quote) (front ++ quote :: body) rest
  | escaped {front body rest : List Char} {quote : Char} (place : Outside front (quote :: (body ++ '\\' :: rest)))
      (isQuote : IsQuote quote) (unended : Unended quote body) :
      Knows (.escaped quote) (front ++ quote :: (body ++ ['\\'])) rest

variable {front rest : List Char} {c : Char}

theorem comment_starts_iff : ['/', '*'] <+: c :: rest ↔ c = '/' ∧ rest.head? = some '*' := by
  cases rest <;> simp [List.cons_prefix_cons, eq_comm]

theorem Outside.pass_slash (place : Outside front ('/' :: rest)) (noStar : rest.head? ≠ some '*') :
    Outside (front ++ ['/']) rest :=
  .code place (by simp [IsQuote]) fun starts => noStar (comment_starts_iff.mp starts).2

theorem knows_inCode (place : Outside front (c :: rest)) : Knows (Scan.code.step c) (front ++ [c]) rest := by
  by_cases isQuote : IsQuote c
  · rw [isQuote.step]
    exact @Knows.quoted front [] rest c place isQuote .nil
  · rw [step_noQuote isQuote]
    split
    next slash =>
      subst slash
      exact .slash place
    next other => exact .code (.code place isQuote fun starts => other (comment_starts_iff.mp starts).1)

theorem knows_inComment {body : List Char} (place : Outside front ('/' :: '*' :: (body ++ c :: rest)))
    (uncut : Uncut (body ++ [c])) : Knows (Scan.comment.step c) (front ++ '/' :: '*' :: (body ++ [c])) rest := by
  have place : Outside front ('/' :: '*' :: ((body ++ [c]) ++ rest)) := by simpa using place
  rw [step_comment, Scan.inCommentText]
  split
  next star => exact .star place uncut (by simp [star])
  next star => exact .comment place uncut (by simp [star])

/-- One more character, one case for each thing that a scan can remember. -/
theorem Knows.step {s : Scan} (knows : Knows s front (c :: rest)) : Knows (s.step c) (front ++ [c]) rest := by
  cases knows with
  | code place => exact knows_inCode place
  | @slash front _ place =>
    by_cases star : c = '*'
    · subst star
      rw [List.append_assoc]
      exact @Knows.comment front [] rest place (by simp [Uncut]) (by simp)
    · rw [step_slash star]
      exact knows_inCode (place.pass_slash (by simpa using star))
  | @comment front body _ place uncut noStar =>
    rw [List.append_assoc]
    exact knows_inComment place (uncut_concat.mpr ⟨uncut, fun ends => noStar ends.1⟩)
  | @star front body _ place uncut star =>
    by_cases slash : c = '/'
    · subst slash
      obtain ⟨inner, rfl⟩ := List.getLast?_eq_some_iff.mp star
      have closed : Outside (front ++ '/' :: '*' :: (inner ++ ['*', '/'])) rest := .comment (by simpa using place) uncut
      exact .code (by simpa using closed)
    · rw [step_star slash, List.append_assoc]
      exact knows_inComment place (uncut_concat.mpr ⟨uncut, fun ends => slash ends.2⟩)
  | @quoted front body _ quote place isQuote unended =>
    by_cases newline : c = '\n'
    · subst newline
      have broken : Outside (front ++ quote :: (body ++ [] ++ ['\n'])) rest :=
        .broken (by simpa using place) isQuote unended (.inl rfl)
      exact .code (by simpa using broken)
    · rw [Scan.step, if_neg newline]
      split
      next escape =>
        subst escape
        simpa using Knows.escaped place isQuote unended
      next escape =>
        split
        next same =>
          subst same
          exact .code (by simpa using Outside.string place isQuote unended)
        next other =>
          have more : Unended quote (body ++ [c]) := unended.append (.plain (by simp [newline, escape, other]) .nil)
          simpa using Knows.quoted (by simpa using place) isQuote more
  | @escaped front body _ quote place isQuote unended =>
    by_cases newline : c = '\n'
    · subst newline
      have broken : Outside (front ++ quote :: (body ++ ['\\'] ++ ['\n'])) rest :=
        .broken (by simpa using place) isQuote unended (.inr rfl)
      exact .code (by simpa using broken)
    · rw [Scan.step, if_neg newline]
      have more : Unended quote (body ++ ['\\', c]) := unended.append (.hidden newline .nil)
      simpa using Knows.quoted (by simpa using place) isQuote more

theorem Knows.after {s : Scan} {text : List Char} (knows : Knows s front (text ++ rest)) :
    Knows (s.after text) (front ++ text) rest := by
  induction text generalizing s front with
  | nil =>
    rw [List.append_nil]
    exact knows
  | cons c text ih =>
    have next := ih knows.step
    rw [List.append_assoc] at next
    exact next

theorem knows_after (front rest : List Char) : Knows (Scan.code.after front) front rest :=
  Knows.after (.code (.start (front ++ rest)))

end Knowledge

section Places
variable {front rest : List Char} {c : Char}

/-- A scan in code, with at most a slash in mind that starts no comment. -/
def Rested (s : Scan) (rest : List Char) : Prop := s = .code ∨ s = .slash ∧ rest.head? ≠ some '*'

theorem Rested.step {s : Scan} (rested : Rested s (c :: rest)) : s.step c = Scan.code.step c := by
  rcases rested with rfl | ⟨rfl, noStar⟩
  · rfl
  · exact step_slash (by simpa using noStar)

theorem Rested.comment {s : Scan} (rested : Rested s ('/' :: rest)) (body : List Char) :
    s.after ('/' :: '*' :: body) = Scan.comment.after body := by
  rw [after_cons, rested.step]
  rfl

theorem Rested.string {s : Scan} (rested : Rested s (c :: rest)) (isQuote : IsQuote c) (body : List Char) :
    s.after (c :: body) = (Scan.quoted c).after body := by
  rw [after_cons, rested.step, isQuote.step]

theorem Outside.rested (place : Outside front rest) : Rested (Scan.code.after front) rest := by
  -- By the way the reader came to the place: a comment or a string is one step for the reader, and
  -- the scan goes through it without coming to rest before its end.
  induction place with
  | start => exact .inl rfl
  | @code front rest c _ noString noComment ih =>
    rw [after_append, after_cons, ih.step, step_noQuote noString]
    split
    next slash =>
      subst slash
      exact .inr ⟨rfl, fun star => noComment (comment_starts_iff.mpr ⟨rfl, star⟩)⟩
    next => exact .inl rfl
  | @comment front body rest _ next ih =>
    have inner := (scan_uncut next).2
    rw [List.getLast?_concat, if_pos rfl] at inner
    rw [after_append, ih.comment, List.append_cons, after_append, inner]
    exact .inl rfl
  | @string front body rest quote _ isQuote next ih =>
    rw [after_append, ih.string isQuote, after_append, after_unended next, after_cons, Scan.step,
      if_neg isQuote.noBreak, if_neg isQuote.noEscape, if_pos rfl]
    exact .inl rfl
  | @broken front body escape rest quote _ isQuote next escapes ih =>
    rw [after_append, ih.string isQuote, after_append, after_append, after_unended next]
    rcases escapes with rfl | rfl
    all_goals exact .inl rfl

theorem brace?_code {brace : Brace} : Scan.code.brace? c = some brace ↔ c = charOf brace := by
  cases brace with
  | opening => simp [Scan.brace?, charOf]
  | closing =>
    by_cases opening : c = '{'
    · simp [Scan.brace?, charOf, opening]
    · simp [Scan.brace?, charOf, opening]

/-- A brace is structure to a scan just where it stands outside comments and strings. -/
theorem brace?_after_iff {brace : Brace} :
    (Scan.code.after front).brace? c = some brace ↔ c = charOf brace ∧ Outside front (c :: rest) := by
  constructor
  · intro found
    have known := knows_after front (c :: rest)
    generalize Scan.code.after front = s at found known
    cases known with
    | code place => exact ⟨brace?_code.mp found, place⟩
    | slash place =>
      have same : c = charOf brace := brace?_code.mp found
      have noStar : c ≠ '*' := by
        rw [same]
        cases brace <;> decide
      exact ⟨same, place.pass_slash (by simpa using noStar)⟩
    | _ => cases found
  · rintro ⟨same, place⟩
    rcases place.rested with rested | ⟨rested, -⟩
    all_goals
      rw [rested]
      exact brace?_code.mpr same

/-- A scan is in a comment just behind the start of one and not behind its end. -/
theorem inComment_after_iff : (Scan.code.after front).inComment = true ↔ InComment front rest := by
  constructor
  · intro inside
    have known := knows_after front rest
    generalize Scan.code.after front = s at inside known
    cases known with
    | comment place uncut _ => exact ⟨_, _, rfl, place, uncut⟩
    | star place uncut _ => exact ⟨_, _, rfl, place, uncut⟩
    | _ => cases inside
  · rintro ⟨before, body, rfl, place, uncut⟩
    rw [after_append, place.rested.comment, (scan_uncut uncut).2]
    split
    all_goals rfl

end Places

end VideoPage.Proofs.SheetRegions

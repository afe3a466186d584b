import ScriptLang.Source
import Mathlib.Data.List.Basic

set_option autoImplicit false

/-! # The stretches of a program text

Apart from how it is scanned, a program text is a row of text literals, comments and single
characters of code (`Source.stretches`). Without its comments it is `Source.strip`: of a block
comment only the line feeds are left. Taking comments out never makes a new one
(`Source.commentFree_strip`): a slash in front of a comment would have started a comment itself. -/

namespace ScriptLang.Source

/-! ## Where literals and comments end -/

/-- The rest of a text literal up to the quote that ends it, and what follows. The character after a
backslash ends nothing. -/
def literalEnd? : List Char → Option (List Char × List Char)
  | [] => none
  | '"' :: rest => some (['"'], rest)
  | '\\' :: c :: rest => (literalEnd? rest).map fun found => ('\\' :: c :: found.1, found.2)
  | c :: rest => (literalEnd? rest).map fun found => (c :: found.1, found.2)

/-- The rest of a block comment up to its first `*/`, and what follows. -/
def blockEnd? : List Char → Option (List Char × List Char)
  | [] => none
  | '*' :: '/' :: rest => some (['*', '/'], rest)
  | c :: rest => (blockEnd? rest).map fun found => (c :: found.1, found.2)

/-- The text up to an end, and what follows. Without an end it is all of the text. -/
def split (find : List Char → Option (List Char × List Char)) (cs : List Char) :
    List Char × List Char :=
  (find cs).getD (cs, [])

variable {cs inner after rest rest' : List Char} {c : Char}
  {find : List Char → Option (List Char × List Char)}

theorem split_of_some (h : find cs = some (inner, after)) : split find cs = (inner, after) := by
  rw [split, h]
  rfl

theorem split_of_none (h : find cs = none) : split find cs = (cs, []) := by
  rw [split, h]
  rfl

/-- Whether a text is cut in two at the end that is looked for. -/
def Cuts (find : List Char → Option (List Char × List Char)) : Prop :=
  ∀ {cs inner after : List Char}, find cs = some (inner, after) → cs = inner ++ after

theorem cuts_literalEnd? : Cuts literalEnd? := by
  intro cs inner after h
  fun_induction literalEnd? cs generalizing inner with
  | case1 => cases h
  | case2 rest =>
    cases h
    rfl
  | case3 c rest ih =>
    obtain ⟨found, hfound, heq⟩ := Option.map_eq_some_iff.1 h
    cases heq
    rw [ih hfound]
    rfl
  | case4 c rest _ _ ih =>
    obtain ⟨found, hfound, heq⟩ := Option.map_eq_some_iff.1 h
    cases heq
    rw [ih hfound]
    rfl

theorem cuts_blockEnd? : Cuts blockEnd? := by
  intro cs inner after h
  fun_induction blockEnd? cs generalizing inner with
  | case1 => cases h
  | case2 rest =>
    cases h
    rfl
  | case3 c rest _ ih =>
    obtain ⟨found, hfound, heq⟩ := Option.map_eq_some_iff.1 h
    cases heq
    rw [ih hfound]
    rfl

theorem Cuts.append (h : Cuts find) (cs : List Char) :
    (split find cs).1 ++ (split find cs).2 = cs := by
  cases hfind : find cs with
  | none => rw [split_of_none hfind, List.append_nil]
  | some found => rw [split_of_some hfind, ← h hfind]

theorem Cuts.length_le (h : Cuts find) (cs : List Char) :
    (split find cs).2.length ≤ cs.length := by
  have hlength := congrArg List.length (h.append cs)
  rw [List.length_append] at hlength
  omega

/-- Where a literal ends does not depend on what follows it. -/
theorem literalEnd?_append (h : literalEnd? cs = some (inner, after)) (rest : List Char) :
    literalEnd? (inner ++ rest) = some (inner, rest) := by
  fun_induction literalEnd? cs generalizing inner with
  | case1 => cases h
  | case2 =>
    cases h
    rfl
  | case3 c cs ih =>
    obtain ⟨found, hfound, heq⟩ := Option.map_eq_some_iff.1 h
    cases heq
    rw [List.cons_append, List.cons_append, literalEnd?, ih hfound]
    rfl
  | case4 c cs hquote hslash ih =>
    obtain ⟨found, hfound, heq⟩ := Option.map_eq_some_iff.1 h
    cases heq
    have hne : c ≠ '\\' := by
      rintro rfl
      cases cs with
      | nil => cases hfound
      | cons d cs => exact hslash d cs rfl rfl
    rw [List.cons_append, literalEnd?.eq_4 _ _ hquote fun _ _ hc _ => hne hc, ih hfound]
    rfl

/-- A semicolon ends no literal. -/
theorem literalEnd?_semicolon (h : literalEnd? cs = none) : literalEnd? (cs ++ [';']) = none := by
  fun_induction literalEnd? cs with
  | case1 => rfl
  | case2 => cases h
  | case3 c cs ih =>
    rw [List.cons_append, List.cons_append, literalEnd?, ih (Option.map_eq_none_iff.1 h)]
    rfl
  | case4 c cs hquote hslash ih =>
    have htail := ih (Option.map_eq_none_iff.1 h)
    cases cs with
    | nil => by_cases hc : c = '\\' <;> simp_all [literalEnd?]
    | cons d cs =>
      have hne : c ≠ '\\' := fun hc => hslash d cs hc rfl
      rw [List.cons_append, literalEnd?.eq_4 _ _ hquote fun _ _ hc _ => hne hc, htail]
      rfl

theorem split_literal_escape (c : Char) (rest : List Char) :
    split literalEnd? ('\\' :: c :: rest)
      = ('\\' :: c :: (split literalEnd? rest).1, (split literalEnd? rest).2) := by
  rw [split, literalEnd?, split]
  cases literalEnd? rest <;> rfl

theorem split_literal_cons (hquote : c = '"' → False)
    (hslash : ∀ d tail, c = '\\' → rest = d :: tail → False) :
    split literalEnd? (c :: rest)
      = (c :: (split literalEnd? rest).1, (split literalEnd? rest).2) := by
  rw [split, literalEnd?.eq_4 c rest hquote hslash, split]
  cases literalEnd? rest <;> rfl

theorem split_block_cons (hend : ∀ tail, c = '*' → rest = '/' :: tail → False) :
    split blockEnd? (c :: rest) = (c :: (split blockEnd? rest).1, (split blockEnd? rest).2) := by
  rw [split, blockEnd?.eq_3 c rest hend, split]
  cases blockEnd? rest <;> rfl

/-- A literal is found again in front of another text. One that has no end leaves no room for
any. -/
theorem split_literal_append (h : literalEnd? cs = none → rest = []) :
    split literalEnd? ((split literalEnd? cs).1 ++ rest) = ((split literalEnd? cs).1, rest) := by
  cases hend : literalEnd? cs with
  | none => rw [split_of_none hend, h hend, List.append_nil, split_of_none hend]
  | some found => rw [split_of_some hend, split_of_some (literalEnd?_append hend rest)]

/-! ## Stretches -/

/-- What a program text is made of. -/
inductive Stretch where
  /-- A character outside literals and comments. -/
  | code (c : Char)
  /-- A text literal. -/
  | literal (cs : List Char)
  /-- A comment that starts with `#` or `//`; the line feed after it is not part of it. -/
  | lineComment (cs : List Char)
  /-- A comment that starts with a slash and a star. -/
  | blockComment (cs : List Char)

namespace Stretch

/-- The characters of a stretch. -/
def characters : Stretch → List Char
  | code c => [c]
  | literal cs | lineComment cs | blockComment cs => cs

/-- Whether a stretch is a comment. -/
def isComment : Stretch → Bool
  | code _ | literal _ => false
  | lineComment _ | blockComment _ => true

/-- What is left of a stretch without comments: the line feeds of a block comment stay. -/
def kept : Stretch → List Char
  | code c => [c]
  | literal cs => cs
  | lineComment _ => []
  | blockComment cs => cs.filter (· = '\n')

theorem kept_of_isComment {s : Stretch} (h : s.isComment = false) : s.kept = s.characters := by
  cases s with
  | code c => rfl
  | literal cs => rfl
  | lineComment cs => cases h
  | blockComment cs => cases h

end Stretch

/-- The stretches of a program text. -/
def stretches : List Char → List Stretch
  | [] => []
  | '"' :: rest =>
    .literal ('"' :: (split literalEnd? rest).1) :: stretches (split literalEnd? rest).2
  | '/' :: '*' :: rest =>
    .blockComment ('/' :: '*' :: (split blockEnd? rest).1) :: stretches (split blockEnd? rest).2
  | '/' :: '/' :: rest =>
    .lineComment ('/' :: '/' :: rest.takeWhile (· != '\n')) ::
      stretches (rest.dropWhile (· != '\n'))
  | '#' :: rest =>
    .lineComment ('#' :: rest.takeWhile (· != '\n')) :: stretches (rest.dropWhile (· != '\n'))
  | c :: rest => .code c :: stretches rest
termination_by cs => cs.length
decreasing_by
  · exact Nat.lt_succ_of_le (cuts_literalEnd?.length_le rest)
  · have := cuts_blockEnd?.length_le rest
    simp only [List.length_cons]
    omega
  · have := (List.dropWhile_suffix (· != '\n') (l := rest)).length_le
    simp only [List.length_cons]
    omega
  · exact Nat.lt_succ_of_le (List.dropWhile_suffix _).length_le
  · exact Nat.lt_succ_self _

/-- The text without comments. -/
def strip (cs : List Char) : List Char :=
  (stretches cs).flatMap Stretch.kept

/-- The stretches make up the text. -/
theorem flatMap_stretches (cs : List Char) : (stretches cs).flatMap Stretch.characters = cs := by
  fun_induction stretches cs with
  | case1 => rfl
  | case2 rest ih => simp [Stretch.characters, ih, cuts_literalEnd?.append]
  | case3 rest ih => simp [Stretch.characters, ih, cuts_blockEnd?.append]
  | case4 rest ih =>
    rw [List.flatMap_cons, ih, Stretch.characters, List.cons_append, List.cons_append,
      List.takeWhile_append_dropWhile]
  | case5 rest ih =>
    rw [List.flatMap_cons, ih, Stretch.characters, List.cons_append,
      List.takeWhile_append_dropWhile]
  | case6 c rest _ _ _ _ ih => simp [Stretch.characters, ih]

/-! ## Texts without comments -/

/-- Whether a text starts with a comment. -/
def startsComment : List Char → Bool
  | '#' :: _ => true
  | '/' :: c :: _ => c = '*' || c = '/'
  | _ => false

/-- Whether no comment starts in a text, outside literals. -/
def CommentFree (cs : List Char) : Prop :=
  ∀ s ∈ stretches cs, s.isComment = false

theorem strip_of_commentFree (h : CommentFree cs) : strip cs = cs := by
  have hkept : strip cs = (stretches cs).flatMap Stretch.characters :=
    List.flatMap_congr fun s hs => Stretch.kept_of_isComment (h s hs)
  rw [hkept, flatMap_stretches]

theorem startsComment_of_ne (hslash : c ≠ '/') (hhash : c ≠ '#') (rest : List Char) :
    startsComment (c :: rest) = false := by
  unfold startsComment
  split
  · next heq => simp_all
  · next heq => simp_all
  · rfl

theorem startsComment_slash (rest : List Char) :
    startsComment ('/' :: rest) = (rest.head? = some '*' || rest.head? = some '/') := by
  cases rest with
  | nil => rfl
  | cons d rest => simp [startsComment]

theorem startsComment_of_forall (hblock : ∀ tail, c = '/' → rest = '*' :: tail → False)
    (hline : ∀ tail, c = '/' → rest = '/' :: tail → False) (hhash : c = '#' → False) :
    startsComment (c :: rest) = false := by
  by_cases hc : c = '/'
  · rw [hc, startsComment_slash]
    cases rest with
    | nil => rfl
    | cons d rest =>
      have hstar : d ≠ '*' := fun hd => hblock rest hc (by rw [hd])
      have hslash : d ≠ '/' := fun hd => hline rest hc (by rw [hd])
      simp [hstar, hslash]
  · exact startsComment_of_ne hc hhash rest

theorem stretches_code (hquote : c ≠ '"') (h : startsComment (c :: rest) = false) :
    stretches (c :: rest) = .code c :: stretches rest := by
  have hblock : ∀ tail, c = '/' → rest = '*' :: tail → False := by
    rintro tail rfl rfl
    cases h
  have hline : ∀ tail, c = '/' → rest = '/' :: tail → False := by
    rintro tail rfl rfl
    cases h
  have hhash : c = '#' → False := by
    rintro rfl
    cases h
  rw [stretches.eq_6 c rest hquote hblock hline hhash]

theorem commentFree_nil : CommentFree [] := by
  simp [CommentFree, stretches]

theorem commentFree_quote :
    CommentFree ('"' :: rest) ↔ CommentFree (split literalEnd? rest).2 := by
  simp [CommentFree, stretches, Stretch.isComment]

theorem commentFree_code (hquote : c ≠ '"') :
    CommentFree (c :: rest) ↔ startsComment (c :: rest) = false ∧ CommentFree rest := by
  cases hstarts : startsComment (c :: rest) with
  | false => simp [CommentFree, stretches_code hquote hstarts, Stretch.isComment]
  | true =>
    simp only [Bool.true_eq_false, false_and, iff_false]
    intro hfree
    unfold startsComment at hstarts
    split at hstarts
    · next heq =>
      cases heq
      simp [CommentFree, stretches, Stretch.isComment] at hfree
    · next heq =>
      cases heq
      simp only [Bool.or_eq_true, decide_eq_true_eq] at hstarts
      rcases hstarts with rfl | rfl <;> simp [CommentFree, stretches, Stretch.isComment] at hfree
    · cases hstarts

/-- A text that starts with no comment starts with none if something else follows its first
character, as long as that is no star and no slash. -/
theorem startsComment_congr (h : startsComment (c :: rest) = false)
    (hhead : c = '/' → ∀ d, rest'.head? = some d → d ≠ '*' ∧ d ≠ '/') :
    startsComment (c :: rest') = false := by
  by_cases hc : c = '/'
  · subst hc
    rw [startsComment_slash]
    have hd := hhead rfl
    cases rest' with
    | nil => rfl
    | cons d rest' => simp [hd d rfl]
  · have hhash : c ≠ '#' := by
      rintro rfl
      cases h
    exact startsComment_of_ne hc hhash rest'

/-! ## Taking comments out -/

theorem strip_nil : strip [] = [] := by
  simp [strip, stretches]

theorem strip_quote (rest : List Char) :
    strip ('"' :: rest)
      = '"' :: (split literalEnd? rest).1 ++ strip (split literalEnd? rest).2 := by
  simp [strip, stretches, Stretch.kept]

/-- The literals of a text stay as they are. -/
theorem split_literal_strip (rest : List Char) :
    split literalEnd? ((split literalEnd? rest).1 ++ strip (split literalEnd? rest).2)
      = ((split literalEnd? rest).1, strip (split literalEnd? rest).2) := by
  refine split_literal_append fun hnone => ?_
  rw [split_of_none hnone, strip_nil]

theorem strip_code (hquote : c ≠ '"') (h : startsComment (c :: rest) = false) :
    strip (c :: rest) = c :: strip rest := by
  simp [strip, stretches_code hquote h, Stretch.kept]

theorem strip_block (rest : List Char) :
    strip ('/' :: '*' :: rest)
      = (split blockEnd? rest).1.filter (· = '\n') ++ strip (split blockEnd? rest).2 := by
  simp [strip, stretches, Stretch.kept]

theorem strip_slashes (rest : List Char) :
    strip ('/' :: '/' :: rest) = strip (rest.dropWhile (· != '\n')) := by
  simp [strip, stretches, Stretch.kept]

theorem strip_hash (rest : List Char) :
    strip ('#' :: rest) = strip (rest.dropWhile (· != '\n')) := by
  simp [strip, stretches, Stretch.kept]

/-- At the end of a line stands a line feed, or nothing. -/
theorem head?_strip_dropWhile {d : Char}
    (h : (strip (rest.dropWhile (· != '\n'))).head? = some d) : d = '\n' := by
  have hhead := List.head?_dropWhile_not (· != '\n') rest
  cases hdrop : rest.dropWhile (· != '\n') with
  | nil => simp [hdrop, strip_nil] at h
  | cons e tail =>
    rw [hdrop] at h hhead
    obtain rfl : e = '\n' := by simpa using hhead
    rw [strip_code (by decide) rfl] at h
    exact (Option.some.inj h).symm

/-- Where no comment starts, none starts after all comments behind are taken out. -/
theorem startsComment_strip (h : startsComment (c :: rest) = false) :
    startsComment (c :: strip rest) = false := by
  refine startsComment_congr h ?_
  rintro rfl d hd
  rw [startsComment_slash] at h
  cases rest with
  | nil => simp [strip_nil] at hd
  | cons e rest =>
    simp only [List.head?_cons, Option.some.injEq, Bool.or_eq_false_iff, decide_eq_false_iff_not]
      at h
    by_cases hquote : e = '"'
    · subst hquote
      rw [strip_quote] at hd
      cases hd
      decide
    by_cases hhash : e = '#'
    · subst hhash
      rw [strip_hash] at hd
      rw [head?_strip_dropWhile hd]
      decide
    · rw [strip_code hquote (startsComment_of_ne h.2 hhash rest)] at hd
      cases hd
      exact h

/-- Line feeds are no comments. -/
theorem commentFree_lineFeeds (inner : List Char) (h : CommentFree cs) :
    CommentFree (inner.filter (· = '\n') ++ cs) := by
  induction inner with
  | nil => exact h
  | cons d inner ih =>
    by_cases hd : d = '\n'
    · subst hd
      exact (commentFree_code (by decide)).2 ⟨rfl, ih⟩
    · simpa [hd] using ih

/-- Taking comments out leaves no comment. -/
theorem commentFree_strip (cs : List Char) : CommentFree (strip cs) := by
  fun_induction stretches cs with
  | case1 =>
    rw [strip_nil]
    exact commentFree_nil
  | case2 rest ih =>
    rw [strip_quote, List.cons_append, commentFree_quote, split_literal_strip]
    exact ih
  | case3 rest ih =>
    rw [strip_block]
    exact commentFree_lineFeeds _ ih
  | case4 rest ih =>
    rw [strip_slashes]
    exact ih
  | case5 rest ih =>
    rw [strip_hash]
    exact ih
  | case6 c rest hquote hblock hline hhash ih =>
    have hstarts : startsComment (c :: rest) = false := startsComment_of_forall hblock hline hhash
    rw [strip_code hquote hstarts, commentFree_code hquote]
    exact ⟨startsComment_strip hstarts, ih⟩

end ScriptLang.Source

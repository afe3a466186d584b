import ScriptLang.Token
import ScriptLang.Proofs.Insertion
import Mathlib.Data.List.Forall2
import Mathlib.Data.List.TakeWhile

set_option autoImplicit false

/-! # Lines keep their numbers

Nothing outside comments is lost when the statements of a program text are ended, and everything
stays in its line: each character that is written comes from one of the program text that stands in
the same line, or is a semicolon that was added (`Source.terminate_keeps_lines`). The columns may
change. -/

namespace ScriptLang

theorem Position.line_advance (p : Position) (c : Char) :
    (p.advance c).line = if c = '\n' then p.line + 1 else p.line := by
  unfold advance
  split <;> rfl

namespace Source

/-! ## Places -/

/-- The characters of a text with their places, if the text starts at a place. -/
def placesFrom (position : Position) : List Char → List (Char × Position)
  | [] => []
  | c :: rest => (c, position) :: placesFrom (position.advance c) rest

/-- Whether a character of a stretch stays: one outside comments does, and a line feed in a block
comment. -/
def Stretch.keeps : Stretch → Char → Bool
  | .code _, _ | .literal _, _ => true
  | .lineComment _, _ => false
  | .blockComment _, c => c = '\n'

/-- The characters of some stretches that stay, with their places. -/
def keptFrom (position : Position) : List Stretch → List (Char × Position)
  | [] => []
  | s :: rest => (placesFrom position s.characters).filter (fun place => s.keeps place.1)
      ++ keptFrom (position.advanceBy s.characters) rest

/-- Whether a character that is written comes from one of the program text, in the same line, or is
a semicolon that comes from nowhere. -/
def IsFrom : Option (Char × Position) → Char × Position → Prop
  | some (c, place), (d, place') => d = c ∧ place'.line = place.line
  | none, (d, _) => d = ';'

/-- Whether each character stands in the line after the line feeds before it. -/
def IsLined (line : Nat) : List (Char × Position) → Prop
  | [] => True
  | (c, place) :: rest => place.line = line ∧ IsLined (if c = '\n' then line + 1 else line) rest

variable {cs out : List Char} {position : Position}

/-! ## What stays -/

theorem lineFeed_notMem_lineComment (h : .lineComment out ∈ stretches cs) : '\n' ∉ out := by
  have hline (rest : List Char) : '\n' ∉ rest.takeWhile (· != '\n') := by
    intro hmem
    simpa using List.mem_takeWhile_imp hmem
  fun_induction stretches cs with
  | case1 => simp at h
  | case2 rest ih => exact ih (by simpa using h)
  | case3 rest ih => exact ih (by simpa using h)
  | case4 rest ih =>
    rcases List.mem_cons.1 h with heq | hmem
    · cases heq
      simp [hline]
    · exact ih hmem
  | case5 rest ih =>
    rcases List.mem_cons.1 h with heq | hmem
    · cases heq
      simp [hline]
    · exact ih hmem
  | case6 c rest _ _ _ _ ih => exact ih (by simpa using h)

/-- No line feed is lost. -/
theorem keeps_lineFeed {s : Stretch} (h : s ∈ stretches cs) (hfeed : '\n' ∈ s.characters) :
    s.keeps '\n' = true := by
  cases s with
  | code c => rfl
  | literal inner => rfl
  | lineComment inner => exact absurd hfeed (lineFeed_notMem_lineComment h)
  | blockComment inner => rfl

theorem map_fst_placesFrom (position : Position) (cs : List Char) :
    (placesFrom position cs).map Prod.fst = cs := by
  induction cs generalizing position with
  | nil => rfl
  | cons c cs ih => rw [placesFrom, List.map_cons, ih]

theorem placesFrom_append (position : Position) (cs rest : List Char) :
    placesFrom position (cs ++ rest)
      = placesFrom position cs ++ placesFrom (position.advanceBy cs) rest := by
  induction cs generalizing position with
  | nil => rfl
  | cons c cs ih =>
    rw [List.cons_append, placesFrom, ih, placesFrom]
    rfl

/-- What stays of some stretches stood there before, at the same places. -/
theorem keptFrom_sublist (position : Position) (ss : List Stretch) :
    (keptFrom position ss).Sublist (placesFrom position (ss.flatMap Stretch.characters)) := by
  induction ss generalizing position with
  | nil => exact List.Sublist.refl _
  | cons s ss ih =>
    rw [keptFrom, List.flatMap_cons, placesFrom_append]
    exact List.filter_sublist.append (ih _)

theorem Stretch.kept_eq_filter (s : Stretch) : s.kept = s.characters.filter s.keeps := by
  cases s with
  | code c => rfl
  | literal cs => exact (List.filter_true cs).symm
  | lineComment cs => exact (List.filter_false cs).symm
  | blockComment cs => rfl

theorem map_fst_keptFrom (position : Position) (ss : List Stretch) :
    (keptFrom position ss).map Prod.fst = ss.flatMap Stretch.kept := by
  induction ss generalizing position with
  | nil => rfl
  | cons s ss ih =>
    have hstretch : ((placesFrom position s.characters).filter fun place => s.keeps place.1).map
        Prod.fst = s.kept := by
      rw [s.kept_eq_filter]
      conv_rhs => rw [← map_fst_placesFrom position s.characters]
      rw [List.filter_map]
      rfl
    rw [keptFrom, List.map_append, hstretch, ih, List.flatMap_cons]

/-- Characters keep their lines if others are left out, as long as no line feed is. -/
theorem isLined_filter {keeps : Char → Bool} {places : List (Char × Position)}
    (hfeed : '\n' ∈ cs → keeps '\n' = true) (h : IsLined (position.advanceBy cs).line places) :
    IsLined position.line
      ((placesFrom position cs).filter (fun place => keeps place.1) ++ places) := by
  induction cs generalizing position with
  | nil => exact h
  | cons c cs ih =>
    have hrest := ih (fun hmem => hfeed (List.mem_cons_of_mem _ hmem)) h
    rw [Position.line_advance] at hrest
    rw [placesFrom, List.filter_cons]
    by_cases hkept : keeps c = true
    · rw [if_pos hkept]
      exact ⟨rfl, hrest⟩
    · have hc : c ≠ '\n' := by
        rintro rfl
        exact hkept (hfeed (List.mem_cons_self ..))
      rw [if_neg hkept]
      rwa [if_neg hc] at hrest

theorem isLined_keptFrom {ss : List Stretch}
    (h : ∀ s ∈ ss, '\n' ∈ s.characters → s.keeps '\n' = true) :
    IsLined position.line (keptFrom position ss) := by
  induction ss generalizing position with
  | nil => trivial
  | cons s ss ih =>
    refine isLined_filter (h s (List.mem_cons_self ..)) (ih ?_)
    exact fun s' hs' => h s' (List.mem_cons_of_mem _ hs')

/-! ## What is added -/

/-- Whether a text is another one with semicolons added. -/
inductive Adds : List Char → List Char → Prop where
  | nil : Adds [] []
  | keep {cs out : List Char} (c : Char) (h : Adds cs out) : Adds (c :: cs) (c :: out)
  | add {cs out : List Char} (h : Adds cs out) : Adds cs (';' :: out)

theorem Adds.append (h : Adds cs out) (front : List Char) : Adds (front ++ cs) (front ++ out) := by
  induction front with
  | nil => exact h
  | cons c front ih => exact .keep c ih

theorem adds_insertFrom (written : List Char) (depth : Nat) (cs : List Char) :
    Adds cs (insertFrom written depth cs) := by
  fun_induction insertFrom written depth cs with
  | case1 written depth =>
    rcases missing_eq written with hnone | hsome
    · rw [hnone]
      exact .nil
    · rw [hsome]
      exact .add .nil
  | case2 written depth rest literal ih =>
    have h := ih.append literal
    rwa [List.cons_append, cuts_literalEnd?.append] at h
  | case3 written depth c rest hquote added ih =>
    rcases addedBefore_eq written depth c with hadded | hadded
    · rw [show added = [] from hadded] at ih ⊢
      exact .keep c ih
    · rw [show added = [';'] from hadded] at ih ⊢
      exact .add (.keep c ih)

theorem Adds.count_lineFeed (h : Adds cs out) : out.count '\n' = cs.count '\n' := by
  induction h with
  | nil => rfl
  | keep c h ih => rw [List.count_cons, List.count_cons, ih]
  | add h ih => rw [List.count_cons_of_ne (by decide), ih]

/-- Where semicolons are added, every other character comes from one that stood in the same
line. -/
theorem Adds.exists_origins (h : Adds cs out) {places : List (Char × Position)}
    (hplaces : places.map Prod.fst = cs) (hlined : IsLined position.line places) :
    ∃ origins : List (Option (Char × Position)), origins.filterMap id = places ∧
      List.Forall₂ IsFrom origins (placesFrom position out) := by
  induction h generalizing position places with
  | nil =>
    rw [List.map_eq_nil_iff] at hplaces
    exact ⟨[], hplaces.symm, .nil⟩
  | keep c h ih =>
    obtain ⟨place, places, rfl, rfl, hrest⟩ := List.map_eq_cons_iff.1 hplaces
    obtain ⟨hline, hlined⟩ := hlined
    rw [← Position.line_advance] at hlined
    obtain ⟨origins, rfl, hfrom⟩ := ih hrest hlined
    exact ⟨some place :: origins, rfl, .cons ⟨rfl, hline.symm⟩ hfrom⟩
  | add h ih =>
    have hadvance : (position.advance ';').line = position.line := rfl
    rw [← hadvance] at hlined
    obtain ⟨origins, rfl, hfrom⟩ := ih hplaces hlined
    exact ⟨none :: origins, rfl, .cons rfl hfrom⟩

/-! ## Lines -/

theorem count_lineFeed_strip (cs : List Char) : (strip cs).count '\n' = cs.count '\n' := by
  have hkept : ∀ s ∈ stretches cs, s.kept.count '\n' = s.characters.count '\n' := by
    intro s hs
    rw [s.kept_eq_filter]
    by_cases hfeed : '\n' ∈ s.characters
    · exact List.count_filter (keeps_lineFeed hs hfeed)
    · have hfilter : '\n' ∉ s.characters.filter s.keeps := fun h => hfeed (List.mem_of_mem_filter h)
      rw [List.count_eq_zero_of_not_mem hfilter, List.count_eq_zero_of_not_mem hfeed]
  have hcounts :
      (strip cs).count '\n' = ((stretches cs).flatMap Stretch.characters).count '\n' := by
    rw [strip, List.count_flatMap, List.count_flatMap]
    exact congrArg List.sum (List.map_congr_left hkept)
  rw [hcounts, flatMap_stretches]

/-- **Lines.** The text with statement ends has as many line feeds as the program text. Each of its
characters comes from one of the program text that stands in the same line, or is a semicolon that
was added; and those it comes from are, in this order, the characters of the program text outside
comments and the line feeds in block comments. -/
theorem terminate_keeps_lines (source : String) :
    (terminate source).toList.count '\n' = source.toList.count '\n' ∧
      (keptFrom {} (stretches source.toList)).Sublist (placesFrom {} source.toList) ∧
      ∃ origins : List (Option (Char × Position)),
        origins.filterMap id = keptFrom {} (stretches source.toList) ∧
        List.Forall₂ IsFrom origins (placesFrom {} (terminate source).toList) := by
  have hadds : Adds (strip source.toList) (terminate source).toList := by
    rw [toList_terminate]
    exact adds_insertFrom [] 0 _
  have hlined : IsLined ({} : Position).line (keptFrom {} (stretches source.toList)) :=
    isLined_keptFrom fun s hs => keeps_lineFeed hs
  have hkept := keptFrom_sublist {} (stretches source.toList)
  rw [flatMap_stretches] at hkept
  refine ⟨?_, hkept, hadds.exists_origins (map_fst_keptFrom {} _) hlined⟩
  rw [hadds.count_lineFeed, count_lineFeed_strip]

end Source

end ScriptLang

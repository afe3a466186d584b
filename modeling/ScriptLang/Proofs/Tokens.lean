import ScriptLang.Proofs.Derivation

set_option autoImplicit false

/-! # The tokens of a text

`Reader.Takes` says which tokens the reader takes from a text and to which state they lead. A text
can be read exactly if all of it is taken and the program may end in that state (`Takes.readFrom`,
`Reader.takes_of_readFrom`). `Tree.tokens` lists the tokens. -/

namespace ScriptLang

/-! ## Places -/

namespace Position

theorem offset_advance (p : Position) (c : Char) : (p.advance c).offset = p.offset + 1 := by
  unfold advance
  split <;> rfl

@[simp]
theorem offset_advanceBy (p : Position) (cs : List Char) :
    (p.advanceBy cs).offset = p.offset + cs.length := by
  induction cs generalizing p with
  | nil => rfl
  | cons c cs ih =>
    have hrest := ih (p.advance c)
    rw [offset_advance] at hrest
    rw [List.length_cons, advanceBy, List.foldl_cons]
    rw [advanceBy] at hrest
    omega

theorem advanceBy_append (p : Position) (cs cs' : List Char) :
    p.advanceBy (cs ++ cs') = (p.advanceBy cs).advanceBy cs' :=
  List.foldl_append

end Position

namespace Lexer

variable {accepts : Terminal → Bool} {position after : Position} {cs rest : List Char} {t : Token}

/-- White space at the front ends at the same place if more text follows what comes after it. -/
theorem dropWhile_gap_append (h : cs.dropWhile isGap ≠ []) (rest : List Char) :
    (cs ++ rest).dropWhile isGap = cs.dropWhile isGap ++ rest := by
  rw [List.dropWhile_append, if_neg (by simpa using h)]

theorem takeWhile_gap_append (h : cs.dropWhile isGap ≠ []) (rest : List Char) :
    (cs ++ rest).takeWhile isGap = cs.takeWhile isGap := by
  refine (List.append_left_inj (cs.dropWhile isGap ++ rest)).1 ?_
  rw [← List.append_assoc (cs.takeWhile isGap), List.takeWhile_append_dropWhile,
    ← dropWhile_gap_append h, List.takeWhile_append_dropWhile]

/-- A token is what is found after the white space, and it starts and ends there. -/
theorem next_eq_token_iff :
    next accepts position cs = .token t rest after ↔
      ∃ length, match? accepts (cs.dropWhile isGap) = some (t.terminal, length) ∧
        t.text.toList = (cs.dropWhile isGap).take length ∧
        rest = (cs.dropWhile isGap).drop length ∧
        t.start = position.advanceBy (cs.takeWhile isGap) ∧
        after = t.start.advanceBy t.text.toList := by
  obtain ⟨terminal, text, start⟩ := t
  unfold next
  dsimp only
  cases hdrop : cs.dropWhile isGap with
  | nil => simp [match?]
  | cons c cs' =>
    dsimp only
    cases hmatch : match? accepts (c :: cs') with
    | none =>
      dsimp only
      cases match? (fun _ => true) (c :: cs') <;> simp
    | some found =>
      obtain ⟨found, length⟩ := found
      simp only [Next.token.injEq, Token.mk.injEq, Option.some.injEq, Prod.mk.injEq]
      constructor
      · rintro ⟨⟨rfl, rfl, rfl⟩, rfl, rfl⟩
        exact ⟨length, ⟨rfl, rfl⟩, by simp, rfl, rfl, by simp⟩
      · rintro ⟨_, ⟨rfl, rfl⟩, htext, rfl, rfl, rfl⟩
        have htext' : String.ofList ((c :: cs').take length) = text := by
          rw [← htext, String.ofList_toList]
        exact ⟨⟨rfl, htext', rfl⟩, rfl, by rw [htext]⟩

theorem next_eq_finish_iff :
    next accepts position cs = .finish ↔ ∀ c ∈ cs, isGap c = true := by
  refine ⟨next_finish, fun hgap => ?_⟩
  have hdrop : cs.dropWhile isGap = [] := List.dropWhile_eq_nil_iff.2 hgap
  unfold next
  dsimp only
  rw [hdrop]

end Lexer

namespace Reader

/-! ## What the reader takes -/

/-- Whether the reader, in `state` before a text, takes the tokens of all of it and comes to another
state. -/
inductive Takes : State → Position → List Char → List Token → State → Prop where
  | finish {state : State} {position : Position} {gap : List Char}
      (hgap : ∀ c ∈ gap, Lexer.isGap c = true) : Takes state position gap [] state
  | token {state state' final : State} {position after : Position} {cs rest : List Char}
      {t : Token} {ts : List Token}
      (hnext : Lexer.next (accepts state.expectation) position cs = .token t rest after)
      (hstep : step state t = some state') (hrest : Takes state' after rest ts final) :
      Takes state position cs (t :: ts) final

/-- The tokens that the reader takes from a text. -/
def tokensFrom (state : State) (position : Position) (cs : List Char) :
    (fuel : Nat) → List Token
  | 0 => []
  | fuel + 1 =>
    match Lexer.next (accepts state.expectation) position cs with
    | .token t rest after =>
      match step state t with
      | some state => t :: tokensFrom state after rest fuel
      | none => []
    | .finish | .failed _ => []

variable {state final : State} {position last : Position} {cs : List Char} {ts : List Token}
  {tree : Tree} {fuel : Nat}

/-- A token has at least one character, so less text is left after it. -/
theorem length_rest {accepts : Terminal → Bool} {after : Position} {rest : List Char} {t : Token}
    (hnext : Lexer.next accepts position cs = .token t rest after) : rest.length < cs.length := by
  obtain ⟨_, hproper, gap, _, rfl⟩ := Lexer.next_token hnext
  have := List.length_pos_iff.2 hproper.ne_nil
  simp only [List.length_append]
  omega

theorem ends_eq_ok_iff : readFrom.ends state last = .ok tree ↔ finish? state = some tree := by
  unfold readFrom.ends
  cases finish? state <;> simp

/-- A text is read if all of it is taken and the program may end then. -/
theorem Takes.readFrom (h : Takes state position cs ts final) (hfinish : finish? final = some tree)
    (last : Position) (hfuel : cs.length ≤ fuel) :
    readFrom state last position cs fuel = .ok tree := by
  induction h generalizing last fuel with
  | finish hgap =>
    cases fuel with
    | zero => exact ends_eq_ok_iff.2 hfinish
    | succ fuel =>
      rw [Reader.readFrom, Lexer.next_eq_finish_iff.2 hgap]
      exact ends_eq_ok_iff.2 hfinish
  | token hnext hstep _ ih =>
    have := length_rest hnext
    obtain ⟨n, rfl⟩ : ∃ n, fuel = n + 1 := ⟨fuel - 1, by omega⟩
    rw [Reader.readFrom, hnext]
    dsimp only
    rw [hstep]
    exact ih hfinish _ (by omega)

/-- All of a text that is read is taken. -/
theorem takes_of_readFrom (hfuel : cs.length ≤ fuel)
    (h : readFrom state last position cs fuel = .ok tree) :
    ∃ ts final, Takes state position cs ts final ∧ finish? final = some tree := by
  induction fuel generalizing state last position cs with
  | zero =>
    obtain rfl := List.eq_nil_of_length_eq_zero (Nat.le_zero.1 hfuel)
    exact ⟨[], state, .finish (by simp), ends_eq_ok_iff.1 h⟩
  | succ fuel ih =>
    rw [readFrom] at h
    split at h
    · next hnext => exact ⟨[], state, .finish (Lexer.next_finish hnext), ends_eq_ok_iff.1 h⟩
    · cases h
    · next t rest after hnext =>
      have := length_rest hnext
      split at h
      · cases h
      · next state' hstep =>
        obtain ⟨ts, final, htakes, hfinish⟩ := ih (by omega) h
        exact ⟨t :: ts, final, .token hnext hstep htakes, hfinish⟩

theorem Takes.tokensFrom (h : Takes state position cs ts final) (hfuel : cs.length ≤ fuel) :
    tokensFrom state position cs fuel = ts := by
  induction h generalizing fuel with
  | finish hgap =>
    cases fuel with
    | zero => rfl
    | succ fuel => rw [Reader.tokensFrom, Lexer.next_eq_finish_iff.2 hgap]
  | token hnext hstep _ ih =>
    have := length_rest hnext
    obtain ⟨n, rfl⟩ : ∃ n, fuel = n + 1 := ⟨fuel - 1, by omega⟩
    rw [Reader.tokensFrom, hnext]
    dsimp only
    rw [hstep]
    dsimp only
    rw [ih (by omega)]

end Reader

/-- The tokens of a text. -/
def Tree.tokens (source : String) : List Token :=
  let cs := source.toList
  Reader.tokensFrom Reader.State.initial {} cs cs.length

/-- All of a text that can be read is taken. -/
theorem Tree.takes_of_read {source : String} {tree : Tree} (h : Tree.read source = .ok tree) :
    ∃ final, Reader.Takes .initial {} source.toList (Tree.tokens source) final ∧
      Reader.finish? final = some tree := by
  obtain ⟨ts, final, htakes, hfinish⟩ := Reader.takes_of_readFrom (Nat.le_refl _) h
  obtain rfl : Tree.tokens source = ts := htakes.tokensFrom (Nat.le_refl _)
  exact ⟨final, htakes, hfinish⟩

/-- The statements of a program are the meaning of the tree that is read. -/
theorem Program.read_of_parse {names : Text.Names} {source : String} {body : List Node}
    (h : Program.parse names source = .ok body) :
    ∃ tree, Tree.read (Source.terminate source) = .ok tree ∧
      tree.meaning names (Source.terminate source).toList = .ok (.node (.program body)) := by
  cases hread : Tree.read (Source.terminate source) with
  | error e =>
    rw [Program.parse, hread] at h
    cases h
  | ok tree =>
    obtain ⟨ts, hderives, -⟩ := Tree.read_derives hread
    obtain ⟨span, parts, rfl⟩ := Grammar.eq_branch_of_derives_program hderives
    refine ⟨_, rfl, ?_⟩
    cases hmeaning : (Tree.branch .program span parts).meaning names
        (Source.terminate source).toList with
    | error failure =>
      rw [Program.parse_of_meaning_error hread hmeaning] at h
      cases h
    | ok part =>
      obtain ⟨body', rfl⟩ := Tree.eq_program_of_meaning hmeaning
      rw [Program.parse_of_meaning rfl hread hmeaning] at h
      cases h
      rfl

end ScriptLang

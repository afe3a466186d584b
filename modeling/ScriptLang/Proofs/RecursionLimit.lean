import ScriptLang.Proofs.Cutoff
import Mathlib.Control.Monad.Basic

set_option autoImplicit false

/-! # The limit on active calls

A run with a limit is compared with the run with a larger one. As long as no more calls are active
than the smaller limit allows, the limit makes no difference, and the first call beyond it ends the
run (`Machine.recursion_limit_exact`). To tell from the run with the larger limit which of the two
happens, a `Lookout` watches it for calls beyond the smaller one. -/

namespace ScriptLang

open Exec Evaluator

/-! ## Limits -/

/-- The interpreter with another limit on active calls. -/
def Machine.withLimit (m : Machine) (limit : Nat) : Machine :=
  { m with
    config := { m.config with recursionLimit := limit }
    calls := { m.calls with limit := limit } }

/-- Another limit, as a way to count calls. -/
def Recount.toLimit (limit : Nat) : Recount :=
  { Recount.same with
    config := fun c => { c with recursionLimit := limit }
    calls := fun c => { c with limit := limit }
    debugLevel := fun _ => rfl
    debugFile := fun _ => rfl
    depth := fun _ => rfl }

theorem Exec.output_finish {α : Type} (r : Except Failure α × Machine) :
    (finish r).2.output = r.2.output := by
  obtain ⟨result, m⟩ := r
  cases result with
  | ok a => rfl
  | error e => cases e <;> rfl

/-! ## Watching for calls beyond a limit -/

/-- A probe that shows where a run goes beyond the limit `bound`. It does so by failures that
satisfy `sign`, unless the run may go on. -/
structure Lookout (bound : Nat) where
  probe : Probe
  sign : Failure → Prop
  goesOn : Prop
  visible : ∀ {e}, sign e → e ≠ .exhausted
  leaving : probe.leaving = id
  within : ∀ {active} m, active ≤ bound → probe.entered active m = none
  beyond : ∀ m, (probe.entered (bound + 1) m = none ∧ goesOn) ∨
    ∃ e, probe.entered (bound + 1) m = some e ∧ sign e
  exhausted : ∀ limit, (probe.exhausted limit = .script (.recursionLimit limit) ∧ goesOn) ∨
    sign (probe.exhausted limit)

namespace Lookout

variable {small large : Nat} (w : Lookout small)

/-- The failure of the run with the limit `small` at a call that is one too many. -/
def overrun (small : Nat) : Failure :=
  .script (.recursionLimit small)

/-- The runs with the limits `small` and `large` go through the same machines, up to the limits,
until the first one overruns. -/
def parallel (large : Nat) : Parallel where
  recount := .toLimit large
  holds active m := m.calls = ⟨small, active⟩ ∧ active ≤ small
  holds_congr h hcalls _ := ⟨hcalls.trans h.1, h.2⟩
  failed _ e₁ m₁ e₂ m₂ :=
    (e₁ = e₂ ∧ m₁.calls.limit = small ∧ m₂ = m₁.withLimit large) ∨
      (e₁ = overrun small ∧ w.sign e₂)
  throws _ h := Or.inl ⟨rfl, congrArg Calls.limit h.1, rfl⟩
  stopped e m₁ m₂ := e = overrun small ∧ w.goesOn ∧ m₁.output.toList <+: m₂.output.toList
  persists h later := ⟨h.1, h.2.1, h.2.2.trans later.output⟩
  restores _ := by
    rintro (⟨rfl, hlimit, rfl⟩ | ⟨rfl, he⟩)
    · exact Or.inl ⟨rfl, hlimit, rfl⟩
    · exact Or.inr ⟨rfl, he⟩
  restores_stopped _ h := h

/-- A call is counted in both runs, or it is the first beyond the smaller limit. -/
theorem enters (hlimits : small ≤ large) {active : Nat} {m : Machine}
    (h : (w.parallel large).holds active m) :
    (w.parallel large).lockstep.Ends active (active + 1) Eq (enterProbed {} (active + 1) m)
      (enterProbed w.probe (active + 1) (m.withLimit large)) := by
  obtain ⟨hcalls, hle⟩ := h
  have hdepth : m.calls.depth = active := congrArg Calls.depth hcalls
  have hlimit : m.calls.limit = small := congrArg Calls.limit hcalls
  have hdepth' : (m.withLimit large).calls.depth = active := hdepth
  have hlimit' : (m.withLimit large).calls.limit = large := rfl
  -- below both limits, between them (where the larger run is watched), or at both
  by_cases hsmall : active < small
  · have henter := enterCall_of_lt (m := m) (by omega)
    have henter' := enterCall_of_lt (m := m.withLimit large) (by omega)
    rw [enterProbed_of_ok henter, enterProbed_of_ok henter', w.within _ hsmall]
    refine ⟨rfl, rfl, ?_, hsmall⟩
    simp only [hlimit, hdepth, Int.natCast_succ]
  · have henter := enterCall_of_le (m := m) (by omega)
    rw [enterProbed_of_error henter, hlimit]
    by_cases hlarge : small < large
    · obtain rfl : active = small := by omega
      have henter' := enterCall_of_lt (m := m.withLimit large) (by omega)
      rw [enterProbed_of_ok henter']
      rcases w.beyond _ with ⟨hnone, hgoes⟩ | ⟨e, hsome, he⟩
      · rw [hnone]
        exact ⟨rfl, hgoes, List.prefix_refl _⟩
      · rw [hsome]
        exact Or.inl (Or.inr ⟨rfl, he⟩)
    · obtain rfl : large = small := by omega
      have henter' := enterCall_of_le (m := m.withLimit large) (by omega)
      rw [enterProbed_of_error henter']
      exact Or.inl (Or.inl ⟨rfl, hlimit, rfl⟩)

/-- A failure that both runs share ends both programs alike, except for a lack of room. -/
theorem ends_finish_error {α : Type} {active : Nat} {e : Failure} {m : Machine}
    (hlimit : m.calls.limit = small) :
    (w.parallel large).lockstep.Ends active active Eq
      (finish ((.error e, m) : Except Failure α × Machine))
      (finish (reported w.probe.exhausted (.error e, m.withLimit large))) := by
  cases e with
  | exhausted =>
    have hoverrun : finish ((.error .exhausted, m) : Except Failure α × Machine) =
        (.error (overrun small), m.resetCalls.closeTrace) := by
      simp only [finish, hlimit, overrun]
    rw [hoverrun]
    simp only [reported]
    rcases w.exhausted (m.withLimit large).calls.limit with ⟨hreport, hgoes⟩ | he
    · rw [hreport]
      exact Or.inr ⟨rfl, hgoes, List.prefix_refl _⟩
    · obtain ⟨m', hfinish⟩ := finish_error (α := α) (w.visible he) (m.withLimit large)
      rw [hfinish]
      exact Or.inl (Or.inr ⟨rfl, he⟩)
  | script e => exact Or.inl (Or.inl ⟨rfl, hlimit, rfl⟩)
  | fault f => exact Or.inl (Or.inl ⟨rfl, hlimit, rfl⟩)
  | outOfFuel => exact Or.inl (Or.inl ⟨rfl, hlimit, rfl⟩)

/-- What ends a program keeps the runs in step. -/
theorem ends_finish {α : Type} {active : Nat} {x y : Except Failure α × Machine}
    (h : (w.parallel large).lockstep.Ends active active Eq x y) :
    (w.parallel large).lockstep.Ends active active Eq (finish x)
      (finish (reported w.probe.exhausted y)) := by
  obtain ⟨result₁, m₁⟩ := x
  obtain ⟨result₂, m₂⟩ := y
  have stops {e₁ : Failure} (hstop : (w.parallel large).stopped e₁ m₁ m₂) :
      (w.parallel large).lockstep.Ends active active Eq (finish (.error e₁, m₁))
        (finish (reported w.probe.exhausted (result₂, m₂))) := by
    obtain ⟨rfl, hgoes, houtput⟩ := hstop
    refine Lockstep.Ends.of_stopped ⟨rfl, hgoes, ?_⟩
    rw [output_finish, reported_snd]
    exact houtput
  cases result₁ with
  | ok a =>
    cases result₂ with
    | ok b =>
      obtain ⟨rfl, rfl, hholds⟩ := h
      exact ⟨rfl, rfl, hholds⟩
    | error e => exact h.elim
  | error e₁ =>
    cases result₂ with
    | ok b => exact stops h
    | error e₂ =>
      rcases h with (⟨rfl, hlimit, rfl⟩ | ⟨rfl, he⟩) | hstop
      · exact w.ends_finish_error hlimit
      · obtain ⟨m', hfinish⟩ := finish_error (α := α) (w.visible he) m₂
        rw [reported_error (w.visible he), hfinish]
        exact Or.inl (Or.inr ⟨rfl, he⟩)
      · exact stops hstop

theorem pairs_guarded {active : Nat} {x y : Exec (Option Value)}
    (hxy : (w.parallel large).lockstep.Pairs active x y) :
    (w.parallel large).lockstep.Pairs active (guarded (reporting (Probe.exhausted {}) x))
      (guarded (reporting w.probe.exhausted y)) := by
  refine Parallel.pairs_guarded hxy fun h => ?_
  rw [finish_reported]
  exact w.ends_finish h

theorem leaves {active : Nat} {m : Machine} (h : (w.parallel large).holds (active + 1) m) :
    (w.parallel large).lockstep.Ends (active + 1) active Eq (leaveCall m)
      (leaveCall (m.withLimit large)) := by
  obtain ⟨hcalls, hle⟩ := h
  refine ⟨rfl, rfl, ?_, Nat.le_of_succ_le hle⟩
  show m.calls.leave = _
  rw [hcalls, Calls.leave]
  simp

/-- The run with the smaller limit, and beside it the watched run with the larger one. -/
def simulation (hlimits : small ≤ large) : Simulation {} w.probe :=
  (w.parallel large).simulation (fun needed h => Parallel.ends_demand h rfl needed)
    (w.enters hlimits) w.leaves
    (fun hfailed => by
      rw [w.leaving, Failure.mapFault_id, Failure.mapFault_id]
      exact hfailed)
    (fun hstopped => by simpa only [Failure.mapFault_id] using hstopped) (Or.inr w.pairs_guarded)

/-- The run with the larger limit is that with the smaller one, or the latter overruns. -/
theorem run_ends (hlimits : small ≤ large) (fuel : Nat) (body : List Node) {m : Machine}
    (hdepth : m.calls.depth = 0) :
    (w.parallel large).lockstep.Ends 0 0 Eq (Machine.run fuel body (m.withLimit small))
      (Machine.runProbed w.probe fuel body (m.withLimit large)) := by
  have hcalls : (m.withLimit small).calls = ⟨small, (0 : Nat)⟩ :=
    congrArg (Calls.mk small) hdepth
  rw [← Machine.runProbed_nothing]
  exact (w.simulation hlimits).ends_runProbed (Or.inl rfl) rfl w.pairs_guarded body
    ⟨rfl, hcalls, Nat.zero_le _⟩ rfl

/-- What it means for the outcomes of whole runs to relate. -/
theorem same_or_overrun {α : Type} {x y : Except Failure α × Machine}
    (h : (w.parallel large).lockstep.Ends 0 0 Eq x y) :
    y = (x.1, x.2.withLimit large) ∨
      x.1 = .error (overrun small) ∧ ((∃ e, w.sign e ∧ y.1 = .error e) ∨
        w.goesOn ∧ x.2.output.toList <+: y.2.output.toList) := by
  obtain ⟨result₁, m₁⟩ := x
  obtain ⟨result₂, m₂⟩ := y
  cases result₁ with
  | ok a =>
    cases result₂ with
    | ok b =>
      obtain ⟨rfl, rfl, _⟩ := h
      exact Or.inl rfl
    | error e => exact h.elim
  | error e₁ =>
    cases result₂ with
    | ok b =>
      obtain ⟨rfl, hprefix⟩ := h
      exact Or.inr ⟨rfl, Or.inr hprefix⟩
    | error e₂ =>
      rcases h with (⟨rfl, _, rfl⟩ | ⟨rfl, he⟩) | ⟨rfl, hprefix⟩
      · exact Or.inl rfl
      · exact Or.inr ⟨rfl, Or.inl ⟨e₂, he, rfl⟩⟩
      · exact Or.inr ⟨rfl, Or.inr hprefix⟩

end Lookout

/-! ## Three lookouts -/

namespace Probe

/-- Raises a fault as soon as more than `bound` calls are active. -/
def nesting (bound : Nat) (fault : Fault) : Probe where
  entered active _ := if bound < active then some (.fault fault) else none

/-- Raises a fault where there is not enough room. -/
def exhaustion (fault : Fault) : Probe where
  exhausted _ := .fault fault

/-- Raises one fault as soon as more than `bound` calls are active, and another where there is not
enough room. -/
def alarm (bound : Nat) (nested exhausted : Fault) : Probe where
  entered active _ := if bound < active then some (.fault nested) else none
  exhausted _ := .fault exhausted

/-- Without its second fault, an alarm only watches the calls. -/
theorem cutoff_alarm_nesting (bound : Nat) (nested exhausted : Fault) :
    (alarm bound nested exhausted).Cutoff (nesting bound nested) (· = .fault exhausted) where
  visible := by
    rintro _ rfl
    exact nofun
  leaving := ⟨rfl, rfl⟩
  entered _ _ := Or.inl rfl
  exhausted _ := Or.inr rfl

/-- Without its first fault, an alarm only watches the room. -/
theorem cutoff_alarm_exhaustion (bound : Nat) (nested exhausted : Fault) :
    (alarm bound nested exhausted).Cutoff (exhaustion exhausted) (· = .fault nested) where
  visible := by
    rintro _ rfl
    exact nofun
  leaving := ⟨rfl, rfl⟩
  entered active m := by
    by_cases h : bound < active
    · exact Or.inr ⟨_, if_pos h, rfl⟩
    · exact Or.inl (if_neg h)
  exhausted _ := Or.inl rfl

/-- A lack of room is reported as too many calls, and so can be recognised without a fault. -/
theorem cutoff_exhaustion (fault : Fault) :
    Cutoff {} (exhaustion fault) (∃ limit, · = .script (.recursionLimit limit)) where
  visible := by
    rintro _ ⟨_, rfl⟩
    exact nofun
  leaving := ⟨rfl, rfl⟩
  entered _ _ := Or.inl rfl
  exhausted _ := Or.inr ⟨_, rfl⟩

end Probe

namespace Lookout

variable (bound : Nat)

/-- Nothing is watched, and the run goes on beyond the limit. -/
def unwatched : Lookout bound where
  probe := {}
  sign _ := False
  goesOn := True
  visible h := h.elim
  leaving := rfl
  within _ _ := rfl
  beyond _ := Or.inl ⟨rfl, trivial⟩
  exhausted _ := Or.inl ⟨rfl, trivial⟩

/-- The calls are watched. -/
def nesting (fault : Fault) : Lookout bound where
  probe := .nesting bound fault
  sign e := e ≠ .exhausted
  goesOn := False
  visible h := h
  leaving := rfl
  within _ h := if_neg (Nat.not_lt.2 h)
  beyond _ := Or.inr ⟨_, if_pos (Nat.lt_succ_self bound), nofun⟩
  exhausted _ := Or.inr nofun

/-- The calls and the room are watched. -/
def alarm (nested exhausted : Fault) : Lookout bound where
  probe := .alarm bound nested exhausted
  sign e := e = .fault nested ∨ e = .fault exhausted
  goesOn := False
  visible := by
    rintro _ (rfl | rfl) <;> exact nofun
  leaving := rfl
  within _ h := if_neg (Nat.not_lt.2 h)
  beyond _ := Or.inr ⟨_, if_pos (Nat.lt_succ_self bound), Or.inl rfl⟩
  exhausted _ := Or.inr (Or.inr rfl)

end Lookout

/-! ## Exactness -/

namespace Machine

/-- Whether at some moment of a run more than `bound` calls of declared functions are active: to
raise a fault at such a moment would make a difference. -/
def Exceeds (m : Machine) (fuel : Nat) (body : List Node) (bound : Nat) : Prop :=
  ∃ fault, runProbed (.nesting bound fault) fuel body m ≠ run fuel body m

/-- Whether a run lacks room at some moment: to raise a fault there would make a difference. -/
def Exhausts (m : Machine) (fuel : Nat) (body : List Node) : Prop :=
  ∃ fault, runProbed (.exhaustion fault) fuel body m ≠ run fuel body m

/-- A run that lacks room at some moment says so. -/
theorem Exhausts.exists_recursionLimit {m : Machine} {fuel : Nat} {body : List Node}
    (h : m.Exhausts fuel body) :
    ∃ limit, (run fuel body m).1 = .error (.script (.recursionLimit limit)) := by
  obtain ⟨fault, hdiffers⟩ := h
  rcases runProbed_cutoff (Probe.cutoff_exhaustion fault) (Or.inl (Eq.refl fuel)) body m with
    hsame | ⟨_, ⟨limit, rfl⟩, hresult⟩
  · rw [runProbed_nothing] at hsame
    exact absurd hsame.symm hdiffers
  · rw [runProbed_nothing] at hresult
    exact ⟨limit, hresult⟩

section

variable {m : Machine} {small large : Nat} (hdepth : m.calls.depth = 0) (hle : small ≤ large)
  (fuel : Nat) (body : List Node)

include hdepth hle

/-- A larger limit changes nothing, unless the run overruns. Then the run with the larger limit
prints all that it prints. -/
theorem run_withLimit :
    run fuel body (m.withLimit large) = ((run fuel body (m.withLimit small)).1,
      (run fuel body (m.withLimit small)).2.withLimit large) ∨
    (run fuel body (m.withLimit small)).1 = .error (.script (.recursionLimit small)) ∧
      (run fuel body (m.withLimit small)).2.output.toList <+:
        (run fuel body (m.withLimit large)).2.output.toList := by
  have hends := (Lookout.unwatched small).run_ends hle fuel body hdepth
  rw [show (Lookout.unwatched small).probe = {} from rfl, runProbed_nothing] at hends
  rcases Lookout.same_or_overrun _ hends with hsame | ⟨hoverrun, hcut | ⟨_, hprefix⟩⟩
  · exact Or.inl hsame
  · exact hcut.elim fun _ he => he.1.elim
  · exact Or.inr ⟨hoverrun, hprefix⟩

theorem overrun_of_exceeds (h : (m.withLimit large).Exceeds fuel body small) :
    (run fuel body (m.withLimit small)).1 = .error (.script (.recursionLimit small)) := by
  obtain ⟨fault, hdiffers⟩ := h
  have hends := (Lookout.nesting small fault).run_ends hle fuel body hdepth
  rcases Lookout.same_or_overrun _ hends with htrapped | ⟨hoverrun, _⟩
  · -- the tripwire was not reached, so the larger limit must have made the difference
    rcases run_withLimit hdepth hle fuel body with hsame | ⟨hoverrun, _⟩
    · exact absurd (htrapped.trans hsame.symm) hdiffers
    · exact hoverrun
  · exact hoverrun

omit hdepth hle in
/-- Where neither moment occurs, to raise two different faults at them makes no difference. -/
theorem runProbed_alarm {bound : Nat} (hcalls : ¬ m.Exceeds fuel body bound)
    (hroom : ¬ m.Exhausts fuel body) {nested exhausted : Fault} (hne : nested ≠ exhausted) :
    runProbed (.alarm bound nested exhausted) fuel body m = run fuel body m := by
  simp only [Exceeds, Exhausts, not_exists, ne_eq, Classical.not_not] at hcalls hroom
  rcases runProbed_cutoff (Probe.cutoff_alarm_nesting bound nested exhausted)
    (Or.inl (Eq.refl fuel)) body m with heq | ⟨_, rfl, hexhausted⟩
  · exact heq.trans (hcalls nested)
  rcases runProbed_cutoff (Probe.cutoff_alarm_exhaustion bound nested exhausted)
    (Or.inl (Eq.refl fuel)) body m with heq | ⟨_, rfl, hnested⟩
  · exact heq.trans (hroom exhausted)
  · rw [hexhausted] at hnested
    injection hnested with hfault
    injection hfault with hfault
    exact absurd hfault.symm hne

theorem run_withLimit_of_not_exceeds (hcalls : ¬ (m.withLimit large).Exceeds fuel body small)
    (hroom : ¬ (m.withLimit large).Exhausts fuel body) :
    run fuel body (m.withLimit large) = ((run fuel body (m.withLimit small)).1,
      (run fuel body (m.withLimit small)).2.withLimit large) := by
  have halarm {nested exhausted : Fault} (hne : nested ≠ exhausted) :
      run fuel body (m.withLimit large) = ((run fuel body (m.withLimit small)).1,
        (run fuel body (m.withLimit small)).2.withLimit large) ∨
      (run fuel body (m.withLimit large)).1 = .error (.fault nested) ∨
      (run fuel body (m.withLimit large)).1 = .error (.fault exhausted) := by
    have hends := (Lookout.alarm small nested exhausted).run_ends hle fuel body hdepth
    rw [show (Lookout.alarm small nested exhausted).probe = .alarm small nested exhausted from rfl,
      runProbed_alarm fuel body hcalls hroom hne] at hends
    rcases Lookout.same_or_overrun _ hends with hsame | ⟨_, ⟨e, he, hresult⟩ | hgoes⟩
    · exact Or.inl hsame
    · rcases he with rfl | rfl
      · exact Or.inr (Or.inl hresult)
      · exact Or.inr (Or.inr hresult)
    · exact hgoes.1.elim
  -- a run cannot end with the faults of two alarms that have none in common
  rcases halarm (show Fault.host "a" ≠ .host "b" by decide) with hsame | hfirst
  · exact hsame
  rcases halarm (show Fault.host "c" ≠ .host "d" by decide) with hsame | hsecond
  · exact hsame
  rcases hfirst with hfirst | hfirst <;> rcases hsecond with hsecond | hsecond <;>
    simp [hfirst] at hsecond

/-- **The limit is exact and otherwise invisible.** Take an interpreter without active calls, and a
limit that is not larger than another one. (1) If the run with the smaller limit does not overrun
it, then the run with the larger one is the same run. (2) So it is if in the run with the larger
limit never more calls are active at once than the smaller one allows, and the room suffices. (3) If
more are active at some moment, then the run with the smaller limit overruns, and what it prints is
a beginning of what the run with the larger one prints, even if the latter goes on for longer. -/
theorem recursion_limit_exact :
    ((run fuel body (m.withLimit small)).1 ≠ .error (.script (.recursionLimit small)) →
      run fuel body (m.withLimit large) = ((run fuel body (m.withLimit small)).1,
        (run fuel body (m.withLimit small)).2.withLimit large)) ∧
    (¬ (m.withLimit large).Exceeds fuel body small → ¬ (m.withLimit large).Exhausts fuel body →
      run fuel body (m.withLimit large) = ((run fuel body (m.withLimit small)).1,
        (run fuel body (m.withLimit small)).2.withLimit large)) ∧
    ((m.withLimit large).Exceeds fuel body small → ∀ more ≥ fuel,
      (run more body (m.withLimit small)).1 = .error (.script (.recursionLimit small)) ∧
      (run more body (m.withLimit small)).2.output.toList <+:
        (run more body (m.withLimit large)).2.output.toList) := by
  refine ⟨fun hresult => ?_, run_withLimit_of_not_exceeds hdepth hle fuel body,
    fun hexceeds more hmore => ?_⟩
  · rcases run_withLimit hdepth hle fuel body with hsame | ⟨hoverrun, _⟩
    · exact hsame
    · exact absurd hoverrun hresult
  · have hoverrun := overrun_of_exceeds hdepth hle fuel body hexceeds
    have hended : (run fuel body (m.withLimit small)).1 ≠ .error .outOfFuel := by
      rw [hoverrun]
      exact nofun
    refine ⟨by rw [run_eq_of_le hmore hended, hoverrun], ?_⟩
    rcases run_withLimit hdepth hle more body with hsame | ⟨_, hprefix⟩
    · rw [hsame]
      exact List.prefix_refl _
    · exact hprefix

end

/-- A program that prints, and then calls a function that calls another one, which prints. -/
def twoDeep : List Node :=
  [.function "inner" [] (.block [.print [.literal (.string "in")]]),
    .function "outer" [] (.block [.callStatement "inner" []]),
    .print [.literal (.string "out")], .callStatement "outer" []]

/-- Two calls are too many for the limit 1, and the limit 2 is as good as 3. -/
theorem recursion_limit_exact_twoDeep :
    (new {}).calls.depth = 0 ∧ ((new {}).withLimit 2).Exceeds 2 twoDeep 1 ∧
      ((∀ more ≥ 2, (run more twoDeep ((new {}).withLimit 1)).1 =
          .error (.script (.recursionLimit 1)) ∧
        (run more twoDeep ((new {}).withLimit 1)).2.output.toList <+:
          (run more twoDeep ((new {}).withLimit 2)).2.output.toList) ∧
      (run 2 twoDeep ((new {}).withLimit 2)).2.output = #["out", "in"] ∧
      run 2 twoDeep ((new {}).withLimit 3) = ((run 2 twoDeep ((new {}).withLimit 2)).1,
        (run 2 twoDeep ((new {}).withLimit 2)).2.withLimit 3)) := by
  have hfresh : (new {}).calls.depth = 0 := rfl
  have hresult : (run 2 twoDeep ((new {}).withLimit 2)).1 = .ok none := by decide +kernel
  have hexceeds : ((new {}).withLimit 2).Exceeds 2 twoDeep 1 := by
    refine ⟨.missingLimit, fun h => ?_⟩
    have htrapped : (runProbed (.nesting 1 .missingLimit) 2 twoDeep ((new {}).withLimit 2)).1 =
      .error (.fault .missingLimit) := by decide +kernel
    rw [h, hresult] at htrapped
    cases htrapped
  refine ⟨hfresh, hexceeds, (recursion_limit_exact hfresh (by decide) 2 twoDeep).2.2 hexceeds,
    by decide +kernel, (recursion_limit_exact hfresh (by decide) 2 twoDeep).1 ?_⟩
  rw [hresult]
  intro h
  cases h

end Machine

end ScriptLang

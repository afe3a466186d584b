import ScriptLang.Operator.Apply
import ScriptLang.Proofs.CorrectRounding
import Mathlib.Data.String.Basic
import Mathlib.Order.WithBot

set_option autoImplicit false

/-! # Equality and order of values

Two integers, two texts and two truth values are compared exactly; an integer and a float are
compared as floats. So any two values that have an order stand in a linear one
(`Value.exists_comparedAs`), although numbers as a whole do not: narrowing keeps the order of
integers but makes some of them equal to one float. The order stays transitive
(`Value.smaller_trans`), and equality does but for integers with a float between them
(`Value.equals_trans`). -/

namespace ScriptLang

/-! ## The place of a number -/

namespace Floating

variable {f : Format} {x y : Floating f}

/-- The place of a number among the fractions and the two infinite numbers. There is none for `nan`,
which is put at zero. -/
def position : Floating f → WithBot (WithTop ℚ)
  | .infinite true => ⊥
  | .infinite false => ((⊤ : WithTop ℚ) : WithBot (WithTop ℚ))
  | x => ((x.toRat : WithTop ℚ) : WithBot (WithTop ℚ))

theorem less_iff (hx : x ≠ .nan) (hy : y ≠ .nan) :
    x.less y = true ↔ x.position < y.position := by
  cases x with
  | nan => exact absurd rfl hx
  | infinite s =>
    cases y with
    | nan => exact absurd rfl hy
    | infinite t => cases s <;> cases t <;> simp [less, position]
    | finite t m k h => cases s <;> simp [less, position]
  | finite s n e h =>
    cases y with
    | nan => exact absurd rfl hy
    | infinite t =>
      cases t with
      | true => simp [less, position]
      | false =>
        have hbelow := WithBot.coe_lt_coe.2 (WithTop.coe_lt_top (finite s n e h).toRat)
        simpa [less, position] using hbelow
    | finite t m k h => simp [less, position]

theorem equal_iff (hx : x ≠ .nan) (hy : y ≠ .nan) :
    x.equal y = true ↔ x.position = y.position := by
  cases x with
  | nan => exact absurd rfl hx
  | infinite s =>
    cases y with
    | nan => exact absurd rfl hy
    | infinite t => cases s <;> cases t <;> simp [equal, position]
    | finite t m k h => cases s <;> simp [equal, position]
  | finite s n e h =>
    cases y with
    | nan => exact absurd rfl hy
    | infinite t => cases t <;> simp [equal, position]
    | finite t m k h => simp [equal, position]

theorem ne_nan_of_equal (h : x.equal y = true) : x ≠ .nan ∧ y ≠ .nan := by
  cases x <;> cases y <;> simp_all [equal]

theorem Rounds.ne_nan {q : ℚ} (h : x.Rounds q) : x ≠ .nan := by
  rintro rfl
  exact h

end Floating

/-! ## Linear orders -/

/-- A relation of the language, in a linear order. -/
def Order.Holds {α : Type} [LinearOrder α] (relation : Order) (u v : α) : Prop :=
  match relation with
  | .smaller => u < v
  | .bigger => v < u
  | .smallerOrEqual => u ≤ v
  | .biggerOrEqual => v ≤ u

/-- The operator gives `true`. -/
def Operator.Holds (operator : Operator) (a b : Value) : Prop :=
  operator.apply a b = .ok (.bool true)

namespace Order

theorem onIntegers_iff (relation : Order) (m n : Int) :
    relation.onIntegers m n = true ↔ relation.Holds m n := by
  cases relation <;> simp [onIntegers, Holds]

theorem onTexts_iff (relation : Order) (s t : String) :
    relation.onTexts s t = true ↔ relation.Holds s t := by
  cases relation with
  | smaller => exact decide_eq_true_iff
  | bigger => exact decide_eq_true_iff
  | smallerOrEqual =>
    rw [onTexts, Holds, Bool.or_eq_true, decide_eq_true_iff, beq_iff_eq, le_iff_lt_or_eq]
  | biggerOrEqual =>
    rw [onTexts, Holds, Bool.or_eq_true, decide_eq_true_iff, beq_iff_eq, le_iff_lt_or_eq,
      @eq_comm _ s t]

theorem onFloats_iff (relation : Order) {x y : Single} (hx : x ≠ .nan) (hy : y ≠ .nan) :
    relation.onFloats x y = true ↔ relation.Holds x.position y.position := by
  cases relation with
  | smaller => exact Floating.less_iff hx hy
  | bigger => exact Floating.less_iff hy hx
  | smallerOrEqual =>
    rw [onFloats, Holds, Bool.or_eq_true, Floating.less_iff hx hy, Floating.equal_iff hx hy,
      le_iff_lt_or_eq]
  | biggerOrEqual =>
    rw [onFloats, Holds, Bool.or_eq_true, Floating.less_iff hy hx, Floating.equal_iff hx hy,
      le_iff_lt_or_eq, @eq_comm _ x.position]

end Order

namespace Value

/-- The values that have an order: two numbers, two texts or two truth values. -/
def Comparable (a b : Value) : Prop :=
  (a.kind.isNumeric = true ∧ b.kind.isNumeric = true) ∨ (a.kind = .string ∧ b.kind = .string) ∨
    (a.kind = .bool ∧ b.kind = .bool)

/-- A number as a float, and nothing for other values. -/
def narrow? : Value → Option Single
  | .integer n => some (Floating.ofInt n.toInt)
  | .float x => some x
  | _ => none

/-- `a` and `b` are compared as `u` and `v` are in their linear order. -/
structure ComparedAs {α : Type} [LinearOrder α] (a b : Value) (u v : α) : Prop where
  is_iff : Operator.is.Holds a b ↔ u = v
  order_iff (relation : Order) : (Operator.order relation).Holds a b ↔ relation.Holds u v

end Value

namespace Operator

theorem holds_is_iff (a b : Value) : Operator.is.Holds a b ↔ a.equals b = true := by
  simp [Holds, apply]

theorem holds_order_iff {relation : Order} {a b : Value} {truth : Bool}
    (h : relation.apply a b = .ok truth) : (order relation).Holds a b ↔ truth = true := by
  simp [Holds, apply, h, Except.map, Except.mapError]

end Operator

namespace Value

variable {a b c : Value} {x y z : Single}

/-! ## Numbers as floats -/

theorem narrow?_eq_some (h : a.narrow? = some x) :
    (∃ n, a = .integer n ∧ x = Floating.ofInt n.toInt) ∨ a = .float x := by
  cases a with
  | integer n => exact .inl ⟨n, rfl, (Option.some.inj h).symm⟩
  | float y => exact .inr (congrArg float (Option.some.inj h))
  | void | string _ | bool _ => cases h

theorem exists_narrow? (h : a.kind.isNumeric = true) : ∃ x, a.narrow? = some x := by
  cases a with
  | integer n => exact ⟨_, rfl⟩
  | float x => exact ⟨x, rfl⟩
  | void | string _ | bool _ => cases h

/-- Numbers that are no floats are integers. -/
theorem exists_integers (ha : a.narrow? = some x) (hb : b.narrow? = some y)
    (hfloat : ¬ (a.kind = .float ∨ b.kind = .float)) :
    ∃ m n, a = .integer m ∧ b = .integer n ∧ x = Floating.ofInt m.toInt
      ∧ y = Floating.ofInt n.toInt := by
  rcases narrow?_eq_some ha with ⟨m, rfl, rfl⟩ | rfl
  · rcases narrow?_eq_some hb with ⟨n, rfl, rfl⟩ | rfl
    · exact ⟨m, n, rfl, rfl, rfl, rfl⟩
    · exact absurd (.inr rfl) hfloat
  · exact absurd (.inl rfl) hfloat

theorem rounds_ofInt (n : Int) : (Floating.ofInt n : Single).Rounds n := by
  rw [Floating.ofInt_eq_ofRat]
  exact Floating.rounds_ofRat Format.single_isProper n

theorem narrow?_ne_nan (h : a.narrow? = some x) (ha : a ≠ .float .nan) : x ≠ .nan := by
  rcases narrow?_eq_some h with ⟨n, rfl, rfl⟩ | rfl
  · exact (rounds_ofInt n.toInt).ne_nan
  · rintro rfl
    exact ha rfl

/-- Narrowing keeps the order of integers, but two of them can become one float. -/
theorem position_ofInt_mono {m n : Int} (h : m ≤ n) :
    (Floating.ofInt m : Single).position ≤ (Floating.ofInt n : Single).position := by
  have hm := rounds_ofInt m
  have hn := rounds_ofInt n
  have hless := hm.mono Format.single_isProper hn (by exact_mod_cast h)
  rw [← not_lt, ← Floating.less_iff hn.ne_nan hm.ne_nan, hless]
  exact Bool.false_ne_true

theorem equals_narrow (ha : a.narrow? = some x) (hb : b.narrow? = some y)
    (hfloat : a.kind = .float ∨ b.kind = .float) : a.equals b = x.equal y := by
  rcases narrow?_eq_some ha with ⟨m, rfl, rfl⟩ | rfl <;>
    rcases narrow?_eq_some hb with ⟨n, rfl, rfl⟩ | rfl
  · simp [kind] at hfloat
  · rfl
  · rfl
  · rfl

theorem apply_narrow (ha : a.narrow? = some x) (hb : b.narrow? = some y)
    (hfloat : a.kind = .float ∨ b.kind = .float) (relation : Order) :
    relation.apply a b = .ok (relation.onFloats x y) := by
  rcases narrow?_eq_some ha with ⟨m, rfl, rfl⟩ | rfl <;>
    rcases narrow?_eq_some hb with ⟨n, rfl, rfl⟩ | rfl
  · simp [kind] at hfloat
  · rfl
  · rfl
  · rfl

/-! ## Pairs of values -/

theorem comparedAs_integers (m n : Int32) :
    ComparedAs (.integer m) (.integer n) m.toInt n.toInt where
  is_iff := by rw [Operator.holds_is_iff, equals, beq_iff_eq, Int32.toInt_inj]
  order_iff relation := by rw [Operator.holds_order_iff rfl, Order.onIntegers_iff]

theorem comparedAs_texts (s t : String) : ComparedAs (.string s) (.string t) s t where
  is_iff := by rw [Operator.holds_is_iff, equals, beq_iff_eq]
  order_iff relation := by rw [Operator.holds_order_iff rfl, Order.onTexts_iff]

theorem comparedAs_truths (s t : Bool) : ComparedAs (.bool s) (.bool t) s.toInt t.toInt where
  is_iff := by
    rw [Operator.holds_is_iff, equals, beq_iff_eq]
    cases s <;> cases t <;> decide
  order_iff relation := by rw [Operator.holds_order_iff rfl, Order.onIntegers_iff]

theorem comparedAs_narrow (ha : a.narrow? = some x) (hb : b.narrow? = some y)
    (hfloat : a.kind = .float ∨ b.kind = .float) (hx : x ≠ .nan) (hy : y ≠ .nan) :
    ComparedAs a b x.position y.position where
  is_iff := by rw [Operator.holds_is_iff, equals_narrow ha hb hfloat, Floating.equal_iff hx hy]
  order_iff relation := by
    rw [Operator.holds_order_iff (apply_narrow ha hb hfloat relation), Order.onFloats_iff _ hx hy]

/-- Any two values that have an order are compared as in a linear one. -/
theorem exists_comparedAs (h : a.Comparable b) (ha : a ≠ .float .nan) (hb : b ≠ .float .nan) :
    ∃ (α : Type) (_ : LinearOrder α) (u v : α), ComparedAs a b u v := by
  rcases h with ⟨hnum, hnum'⟩ | ⟨htext, htext'⟩ | ⟨htruth, htruth'⟩
  · obtain ⟨x, hx⟩ := exists_narrow? hnum
    obtain ⟨y, hy⟩ := exists_narrow? hnum'
    by_cases hfloat : a.kind = .float ∨ b.kind = .float
    · exact ⟨_, _, _, _,
        comparedAs_narrow hx hy hfloat (narrow?_ne_nan hx ha) (narrow?_ne_nan hy hb)⟩
    · obtain ⟨m, n, rfl, rfl, -, -⟩ := exists_integers hx hy hfloat
      exact ⟨_, _, _, _, comparedAs_integers m n⟩
  · cases a with
    | string s =>
      cases b with
      | string t => exact ⟨_, _, _, _, comparedAs_texts s t⟩
      | void | integer _ | float _ | bool _ => cases htext'
    | void | integer _ | float _ | bool _ => cases htext
  · cases a with
    | bool s =>
      cases b with
      | bool t => exact ⟨_, _, _, _, comparedAs_truths s t⟩
      | void | string _ | integer _ | float _ => cases htruth'
    | void | string _ | integer _ | float _ => cases htruth

/-! ## Order -/

theorem apply_eq_error_iff (relation : Order) (a b : Value) :
    relation.apply a b = .error (.illegalComparison a.kind b.kind) ↔ ¬ a.Comparable b := by
  cases a <;> cases b <;> simp [Order.apply, Comparable, kind, Kind.isNumeric]

theorem exists_apply (relation : Order) (h : a.Comparable b) :
    ∃ truth, relation.apply a b = .ok truth := by
  cases a <;> cases b <;> simp_all [Order.apply, Comparable, kind, Kind.isNumeric]

/-- Numbers are in the order of their floats, if these differ. -/
theorem smaller_of_position_lt (ha : a.narrow? = some x) (hb : b.narrow? = some y)
    (hx : x ≠ .nan) (hy : y ≠ .nan) (h : x.position < y.position) :
    (Operator.order .smaller).Holds a b := by
  by_cases hfloat : a.kind = .float ∨ b.kind = .float
  · exact ((comparedAs_narrow ha hb hfloat hx hy).order_iff .smaller).2 h
  · obtain ⟨m, n, rfl, rfl, rfl, rfl⟩ := exists_integers ha hb hfloat
    refine ((comparedAs_integers m n).order_iff .smaller).2 (lt_of_not_ge fun hle => ?_)
    exact absurd (position_ofInt_mono hle) (not_le.2 h)

theorem position_lt_of_smaller (ha : a.narrow? = some x) (hb : b.narrow? = some y)
    (hfloat : a.kind = .float ∨ b.kind = .float) (hx : x ≠ .nan) (hy : y ≠ .nan)
    (h : (Operator.order .smaller).Holds a b) : x.position < y.position :=
  ((comparedAs_narrow ha hb hfloat hx hy).order_iff .smaller).1 h

theorem position_le_of_smaller (ha : a.narrow? = some x) (hb : b.narrow? = some y)
    (hx : x ≠ .nan) (hy : y ≠ .nan) (h : (Operator.order .smaller).Holds a b) :
    x.position ≤ y.position := by
  by_cases hfloat : a.kind = .float ∨ b.kind = .float
  · exact (position_lt_of_smaller ha hb hfloat hx hy h).le
  · obtain ⟨m, n, rfl, rfl, rfl, rfl⟩ := exists_integers ha hb hfloat
    exact position_ofInt_mono (((comparedAs_integers m n).order_iff .smaller).1 h).le

/-- The order of numbers is transitive: with a float among them, one of the two steps is a step of
the floats as well. -/
theorem smaller_trans_of_narrow (ha : a.narrow? = some x) (hb : b.narrow? = some y)
    (hc : c.narrow? = some z) (hx : x ≠ .nan) (hy : y ≠ .nan) (hz : z ≠ .nan)
    (hab : (Operator.order .smaller).Holds a b) (hbc : (Operator.order .smaller).Holds b c) :
    (Operator.order .smaller).Holds a c := by
  have hxy := position_le_of_smaller ha hb hx hy hab
  have hyz := position_le_of_smaller hb hc hy hz hbc
  by_cases hleft : a.kind = .float ∨ b.kind = .float
  · refine smaller_of_position_lt ha hc hx hz ?_
    exact (position_lt_of_smaller ha hb hleft hx hy hab).trans_le hyz
  by_cases hright : b.kind = .float ∨ c.kind = .float
  · refine smaller_of_position_lt ha hc hx hz ?_
    exact hxy.trans_lt (position_lt_of_smaller hb hc hright hy hz hbc)
  obtain ⟨k, m, rfl, rfl, -, -⟩ := exists_integers ha hb hleft
  obtain ⟨_, n, -, rfl, -, -⟩ := exists_integers hb hc hright
  have hkm := ((comparedAs_integers k m).order_iff .smaller).1 hab
  have hmn := ((comparedAs_integers m n).order_iff .smaller).1 hbc
  exact ((comparedAs_integers k n).order_iff .smaller).2 (lt_trans hkm hmn)

theorem smaller_trans (hab : a.Comparable b) (hbc : b.Comparable c) (ha : a ≠ .float .nan)
    (hb : b ≠ .float .nan) (hc : c ≠ .float .nan) (hsmaller : (Operator.order .smaller).Holds a b)
    (hsmaller' : (Operator.order .smaller).Holds b c) : (Operator.order .smaller).Holds a c := by
  cases b with
  | void => simp [Comparable, kind, Kind.isNumeric] at hab
  | string t =>
    obtain ⟨s, rfl⟩ : ∃ s, a = .string s := by
      cases a <;> simp_all [Comparable, kind, Kind.isNumeric]
    obtain ⟨u, rfl⟩ : ∃ u, c = .string u := by
      cases c <;> simp_all [Comparable, kind, Kind.isNumeric]
    have hst := ((comparedAs_texts s t).order_iff .smaller).1 hsmaller
    have htu := ((comparedAs_texts t u).order_iff .smaller).1 hsmaller'
    exact ((comparedAs_texts s u).order_iff .smaller).2 (lt_trans hst htu)
  | bool t =>
    obtain ⟨s, rfl⟩ : ∃ s, a = .bool s := by
      cases a <;> simp_all [Comparable, kind, Kind.isNumeric]
    obtain ⟨u, rfl⟩ : ∃ u, c = .bool u := by
      cases c <;> simp_all [Comparable, kind, Kind.isNumeric]
    have hst := ((comparedAs_truths s t).order_iff .smaller).1 hsmaller
    have htu := ((comparedAs_truths t u).order_iff .smaller).1 hsmaller'
    exact ((comparedAs_truths s u).order_iff .smaller).2 (lt_trans hst htu)
  | integer _ | float _ =>
    obtain ⟨x, hx⟩ : ∃ x, a.narrow? = some x := by
      cases a <;> simp_all [Comparable, kind, Kind.isNumeric, narrow?]
    obtain ⟨z, hz⟩ : ∃ z, c.narrow? = some z := by
      cases c <;> simp_all [Comparable, kind, Kind.isNumeric, narrow?]
    exact smaller_trans_of_narrow hx rfl hz (narrow?_ne_nan hx ha) (narrow?_ne_nan rfl hb)
      (narrow?_ne_nan hz hc) hsmaller hsmaller'

/-- In a linear order exactly one of three relations holds, and the others follow from them. -/
theorem ComparedAs.trichotomy {α : Type} [LinearOrder α] {u v : α} (h : ComparedAs a b u v) :
    ((Operator.order .smaller).Holds a b ∧ ¬ Operator.is.Holds a b
        ∧ ¬ (Operator.order .bigger).Holds a b
      ∨ ¬ (Operator.order .smaller).Holds a b ∧ Operator.is.Holds a b
        ∧ ¬ (Operator.order .bigger).Holds a b
      ∨ ¬ (Operator.order .smaller).Holds a b ∧ ¬ Operator.is.Holds a b
        ∧ (Operator.order .bigger).Holds a b)
    ∧ ((Operator.order .smallerOrEqual).Holds a b
      ↔ (Operator.order .smaller).Holds a b ∨ Operator.is.Holds a b)
    ∧ ((Operator.order .biggerOrEqual).Holds a b
      ↔ (Operator.order .bigger).Holds a b ∨ Operator.is.Holds a b) := by
  simp only [h.is_iff, h.order_iff, Order.Holds]
  refine ⟨?_, le_iff_lt_or_eq, by rw [le_iff_lt_or_eq, @eq_comm _ u v]⟩
  rcases lt_trichotomy u v with hlt | heq | hlt
  · exact .inl ⟨hlt, hlt.ne, hlt.not_gt⟩
  · exact .inr (.inl ⟨heq.not_lt, heq, heq.symm.not_lt⟩)
  · exact .inr (.inr ⟨hlt.not_gt, hlt.ne', hlt⟩)

theorem apply_smaller (h : a.Comparable b) :
    Order.smaller.apply a b = Order.bigger.apply b a := by
  cases a <;> cases b <;>
    simp_all [Comparable, kind, Kind.isNumeric, Order.apply, Order.onIntegers, Order.onFloats,
      Order.onTexts]

end Value

namespace Operator

/-- Equality and order belong together. Only two numbers, two texts or two truth values have an
order; for any others the comparison is an error that names their kinds. Of smaller, equal and
bigger exactly one holds for two values without `nan`, the other relations and the turned ones agree
with them, and smaller is transitive, with integers and floats in any mixture. -/
theorem order_coherent :
    (∀ (relation : Order) (a b : Value),
      ((order relation).apply a b = .error (.script (.illegalComparison a.kind b.kind))
        ↔ ¬ a.Comparable b)
      ∧ (a.Comparable b → ∃ truth, (order relation).apply a b = .ok (.bool truth)))
    ∧ (∀ a b : Value, a.Comparable b → a ≠ .float .nan → b ≠ .float .nan →
      ((order .smaller).Holds a b ∧ ¬ is.Holds a b ∧ ¬ (order .bigger).Holds a b
        ∨ ¬ (order .smaller).Holds a b ∧ is.Holds a b ∧ ¬ (order .bigger).Holds a b
        ∨ ¬ (order .smaller).Holds a b ∧ ¬ is.Holds a b ∧ (order .bigger).Holds a b)
      ∧ ((order .smallerOrEqual).Holds a b ↔ (order .smaller).Holds a b ∨ is.Holds a b)
      ∧ ((order .biggerOrEqual).Holds a b ↔ (order .bigger).Holds a b ∨ is.Holds a b)
      ∧ (order .smaller).apply a b = (order .bigger).apply b a)
    ∧ (∀ a b c : Value, a.Comparable b → b.Comparable c →
      a ≠ .float .nan → b ≠ .float .nan → c ≠ .float .nan →
      (order .smaller).Holds a b → (order .smaller).Holds b c → (order .smaller).Holds a c) := by
  refine ⟨fun relation a b => ⟨?_, fun h => ?_⟩, fun a b h ha hb => ?_,
    fun a b c => Value.smaller_trans⟩
  · rw [← Value.apply_eq_error_iff relation]
    simp only [apply]
    cases relation.apply a b <;> simp [Except.map, Except.mapError]
  · obtain ⟨truth, htruth⟩ := Value.exists_apply relation h
    exact ⟨truth, by simp [apply, htruth, Except.map, Except.mapError]⟩
  · obtain ⟨α, _, u, v, hcompared⟩ := Value.exists_comparedAs h ha hb
    obtain ⟨hone, hsmaller, hbigger⟩ := hcompared.trichotomy
    refine ⟨hone, hsmaller, hbigger, ?_⟩
    rw [apply, apply, Value.apply_smaller h]

/-- Two integers with a float between them, though the second is not a float itself. -/
theorem order_coherent_mixed :
    let half : Single := .finite false 16777213 (-1) (by decide)
    Value.Comparable (.integer 8388606) (.float half)
      ∧ Value.Comparable (.float half) (.integer 16777217)
      ∧ (order .smaller).Holds (.integer 8388606) (.float half)
      ∧ (order .smaller).Holds (.float half) (.integer 16777217)
      ∧ (order .smaller).Holds (.integer 8388606) (.integer 16777217) := by
  intro half
  have hleft : Value.Comparable (.integer 8388606) (.float half) := .inl ⟨rfl, rfl⟩
  have hright : Value.Comparable (.float half) (.integer 16777217) := .inl ⟨rfl, rfl⟩
  have hsmaller : (order .smaller).Holds (.integer 8388606) (.float half) := by
    unfold Holds
    decide +kernel
  have hsmaller' : (order .smaller).Holds (.float half) (.integer 16777217) := by
    unfold Holds
    decide +kernel
  exact ⟨hleft, hright, hsmaller, hsmaller', order_coherent.2.2 _ _ _ hleft hright (by simp)
    (by simp [half]) (by simp) hsmaller hsmaller'⟩

end Operator

/-! ## Equality -/

namespace Floating

variable {f : Format}

theorem equal_comm (x y : Floating f) : x.equal y = y.equal x := by
  cases x <;> cases y <;> simp [equal, Bool.beq_comm]

theorem equal_trans {x y z : Floating f} (hxy : x.equal y = true) (hyz : y.equal z = true) :
    x.equal z = true := by
  obtain ⟨hx, hy⟩ := ne_nan_of_equal hxy
  obtain ⟨_, hz⟩ := ne_nan_of_equal hyz
  rw [equal_iff hx hy] at hxy
  rw [equal_iff hy hz] at hyz
  rw [equal_iff hx hz, hxy, hyz]

end Floating

/-- Integers with no more than 24 bits are singles. -/
theorem Single.exists_toRat_eq {i : Int} (hi : |i| ≤ 16777216) :
    ∃ x : Single, x.isFinite = true ∧ x.toRat = i := by
  have hpositive {n : Nat} (hn : n ≤ 16777216) :
      ∃ x : Single, x.isFinite = true ∧ x.toRat = n := by
    by_cases hzero : n = 0
    · subst hzero
      exact ⟨.finite false 0 (-149) (by decide), rfl, rfl⟩
    have hnearest : Format.single.Nearest (n * 2 ^ (0 : Int)) (n * 2 ^ (0 : Int)) :=
      Format.nearest_self (by decide) hzero hn (by decide)
    rw [zpow_zero, mul_one] at hnearest
    have hlt : (n : ℚ) < 2 ^ (Format.single.maxExponent + Format.single.precision) := by
      have hle : (n : ℚ) ≤ 2 ^ (24 : Int) := by
        norm_num
        exact_mod_cast hn
      exact hle.trans_lt (zpow_lt_zpow_right₀ (by norm_num) (by decide))
    obtain ⟨m, k, h, hvalue⟩ := hnearest.exists_canonical (by decide) (by decide) hlt
    exact ⟨.finite false m k h, rfl, (Floating.toRat_finite false h).trans hvalue.symm⟩
  rw [abs_le] at hi
  obtain ⟨x, hx, hvalue⟩ := hpositive (n := i.natAbs) (by omega)
  rcases Int.natAbs_eq i with heq | heq
  · exact ⟨x, hx, by rw [hvalue, heq]; simp⟩
  · refine ⟨x.neg, by rwa [Floating.isFinite_neg], ?_⟩
    rw [Floating.toRat_neg, hvalue, heq]
    simp

/-- A number to which an integer of at most 24 bits is rounded is this integer, and no other one
is rounded to it. -/
theorem Floating.Rounds.eq_of_small {x : Single} {m n : Int} (hm : |m| < 16777216)
    (hx : x.Rounds m) (hx' : x.Rounds n) : m = n := by
  have hproper := Format.single_isProper
  obtain ⟨y, hyfinite, hy⟩ := Single.exists_toRat_eq hm.le
  have hxy := hx.equal hproper (hy ▸ rounds_toRat hproper hyfinite)
  -- the neighbour of `m` on the side of `n` would be nearer to `n`
  obtain ⟨z, hzfinite, hz⟩ := Single.exists_toRat_eq (i := if m < n then m + 1 else m - 1)
    (by rw [abs_lt] at hm; rw [abs_le]; split <;> omega)
  cases x with
  | nan => exact hx.elim
  | infinite negative => cases y <;> first | cases hxy | cases hyfinite
  | finite negative k e h =>
    have hvalue : (.finite negative k e h : Single).toRat = m := by
      cases y with
      | nan => cases hxy
      | infinite negative => cases hxy
      | finite negative' k' e' h' => rw [← hy]; exact beq_iff_eq.1 hxy
    have hle := hx'.2.le z hzfinite
    rw [hvalue, hz] at hle
    have hle : |n - m| ≤ |n - if m < n then m + 1 else m - 1| := by exact_mod_cast hle
    split at hle
    · next hlt =>
      rw [abs_of_pos (by omega), abs_of_nonneg (by omega)] at hle
      omega
    · next hge =>
      by_contra hne
      rw [abs_of_neg (by omega), abs_of_nonpos (by omega)] at hle
      omega

namespace Value

variable {a b c : Value}

theorem equals_self (h : a ≠ .float .nan) : a.equals a = true := by
  cases a with
  | float x =>
    have hx : x ≠ .nan := fun hx => h (hx ▸ rfl)
    exact (Floating.equal_iff hx hx).2 rfl
  | void | string _ | integer _ | bool _ => simp [equals]

theorem equals_comm (a b : Value) : a.equals b = b.equals a := by
  cases a <;> cases b <;> simp [equals, Bool.beq_comm, Floating.equal_comm]

/-- Values are equal if they are the same, or as floats if one of them is a float. -/
theorem eq_or_narrow_of_equals (h : a.equals b = true) :
    a = b ∨ ∃ x y, a.narrow? = some x ∧ b.narrow? = some y ∧
      (a.kind = .float ∨ b.kind = .float) ∧ x.equal y = true := by
  cases a <;> cases b <;> simp_all [equals, narrow?, kind]

/-- Equality is transitive unless a float stands between two integers. -/
theorem equals_trans (hab : a.equals b = true) (hbc : b.equals c = true) :
    a.equals c = true ∨ ∃ m n x, a = .integer m ∧ b = .float x ∧ c = .integer n := by
  rcases eq_or_narrow_of_equals hab with rfl | ⟨x, y, hx, hy, hleft, hxy⟩
  · exact .inl hbc
  rcases eq_or_narrow_of_equals hbc with rfl | ⟨y', z, hy', hz, hright, hyz⟩
  · exact .inl hab
  obtain rfl : y = y' := Option.some.inj (hy.symm.trans hy')
  by_cases hfloat : a.kind = .float ∨ c.kind = .float
  · left
    rw [equals_narrow hx hz hfloat]
    exact Floating.equal_trans hxy hyz
  · right
    obtain ⟨m, n, rfl, rfl, -, -⟩ := exists_integers hx hz hfloat
    rcases narrow?_eq_some hy with ⟨k, rfl, _⟩ | rfl
    · simp [kind] at hleft
    · exact ⟨m, n, y, rfl, rfl, rfl⟩

/-- An integer equals the float that it is rounded to. -/
theorem equals_float_iff (n : Int32) (x : Single) :
    (integer n).equals (.float x) = true ↔ x.Rounds n.toInt := by
  rw [equals, Floating.ofInt_eq_ofRat, Floating.equal_ofRat_iff Format.single_isProper]

theorem equals_floats_iff {x y : Single} (hx : x.isFinite = true) (hy : y.isFinite = true) :
    (float x).equals (.float y) = true ↔ x.toRat = y.toRat := by
  cases x <;> cases y <;> simp_all [equals, Floating.equal, Floating.isFinite]

/-- Equality is reflexive but for `nan`, and symmetric. It is transitive unless a float stands
between two different integers, and then none of them has less than 25 bits. Two integers, and two
finite floats, are equal by their values, and an integer equals the float that it is rounded to. -/
theorem equals_relation :
    (∀ a : Value, a ≠ .float .nan → a.equals a = true)
    ∧ (∀ a b : Value, a.equals b = true → b.equals a = true)
    ∧ (∀ a b c : Value, a.equals b = true → b.equals c = true →
      (a.equals c = true
        ↔ ¬ ∃ m n x, a = .integer m ∧ b = .float x ∧ c = .integer n ∧ m ≠ n))
    ∧ (∀ (m n : Int32) (x : Single), (integer m).equals (.float x) = true →
      (float x).equals (.integer n) = true → m ≠ n →
      16777216 ≤ |m.toInt| ∧ 16777216 ≤ |n.toInt|)
    ∧ (∀ m n : Int32, (integer m).equals (.integer n) = true ↔ m.toInt = n.toInt)
    ∧ (∀ x y : Single, x.isFinite = true → y.isFinite = true →
      ((float x).equals (.float y) = true ↔ x.toRat = y.toRat))
    ∧ (∀ (n : Int32) (x : Single), (integer n).equals (.float x) = true ↔ x.Rounds n.toInt) := by
  have hintegers (m n : Int32) : (integer m).equals (.integer n) = true ↔ m.toInt = n.toInt := by
    rw [equals, beq_iff_eq, Int32.toInt_inj]
  refine ⟨fun a => equals_self, fun a b h => equals_comm a b ▸ h, fun a b c hab hbc => ?_,
    fun m n x hm hn hne => ?_, hintegers, fun x y => equals_floats_iff, equals_float_iff⟩
  · constructor
    · rintro hac ⟨m, n, x, rfl, rfl, rfl, hne⟩
      exact hne (Int32.toInt_inj.1 ((hintegers m n).1 hac))
    · intro hnot
      rcases equals_trans hab hbc with hac | ⟨m, n, x, rfl, rfl, rfl⟩
      · exact hac
      · rw [hintegers]
        by_contra hne
        exact hnot ⟨m, n, x, rfl, rfl, rfl, fun heq => hne (heq ▸ rfl)⟩
  · rw [equals_comm] at hn
    rw [equals_float_iff] at hm hn
    have hne : m.toInt ≠ n.toInt := fun heq => hne (Int32.toInt_inj.1 heq)
    exact ⟨not_lt.1 fun hlt => hne (hm.eq_of_small hlt hn),
      not_lt.1 fun hlt => hne (hn.eq_of_small hlt hm).symm⟩

/-- The least positive integer that is no single. -/
theorem equals_relation_least :
    let middle : Single := .finite false 8388608 1 (by decide)
    (integer 16777217).equals (.float middle) = true
      ∧ (float middle).equals (.integer 16777216) = true
      ∧ 16777216 ≤ |(16777217 : Int32).toInt| ∧ 16777216 ≤ |(16777216 : Int32).toInt| := by
  intro middle
  have hleft : (integer 16777217).equals (.float middle) = true := by decide +kernel
  have hright : (float middle).equals (.integer 16777216) = true := by decide +kernel
  exact ⟨hleft, hright, equals_relation.2.2.2.1 _ _ middle hleft hright (by decide)⟩

/-- Equality is not transitive: two integers can equal one float. -/
theorem equals_not_transitive :
    let middle : Single := .finite false 8388608 1 (by decide)
    (integer 16777217).equals (.float middle) = true
      ∧ (float middle).equals (.integer 16777216) = true
      ∧ (integer 16777217).equals (.integer 16777216) = false := by
  decide +kernel

end Value

end ScriptLang

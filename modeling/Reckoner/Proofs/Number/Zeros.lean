import Mathlib
import Reckoner.Arithmetic.Operation

/-!
# The two zeros

Numbers have the same value if they are the same, or if both are zero, whatever their signs
(`sameValue_iff`). Sums, differences, products, remainders, square roots and absolute values are
determined by the values of their operands. Quotients are not, for the sign of a zero divisor
decides between the two infinities, and for the other functions nothing is said about their values
at the two zeros. Read `Operation.sameValue_or_meetsZeros` first.
-/

namespace Reckoner

namespace Binary64

open Float.Model (UnpackedFloat Format)
open Float.Model.UnpackedFloat (Sign)

/-- Do two numbers have the same value? They are equal as numbers, or both undefined. -/
def SameValue (x y : Float) : Prop := x == y ∨ x.isNaN ∧ y.isNaN

/-- Is a number one of the two zeros? -/
def IsZero (x : Float) : Prop := x = 0 ∨ x = -0

/-- Two unpacked numbers differ at most in the sign of a zero. -/
inductive UpToSign : UnpackedFloat → UnpackedFloat → Prop
  | refl (x : UnpackedFloat) : UpToSign x x
  | zero (sign other : Sign) : UpToSign (.zero sign) (.zero other)

section Unpacked

variable {first second left right : UnpackedFloat} {f : UnpackedFloat → UnpackedFloat}

theorem UpToSign.trans {third : UnpackedFloat} (h : UpToSign first second)
    (h' : UpToSign second third) : UpToSign first third := by
  cases h with
  | refl => exact h'
  | zero sign =>
      cases h' with
      | refl => exact .zero sign _
      | zero => exact .zero sign _

/-- What does not tell the zeros apart tells nothing apart that differs in the sign of a zero
only. -/
theorem UpToSign.map (hf : ∀ sign other, UpToSign (f (.zero sign)) (f (.zero other)))
    (h : UpToSign first second) : UpToSign (f first) (f second) := by
  cases h with
  | refl => exact .refl _
  | zero sign other => exact hf sign other

/-- What does not tell the zeros apart on either side tells nothing apart that differs in the signs
of zeros only. -/
theorem UpToSign.map₂ {f : UnpackedFloat → UnpackedFloat → UnpackedFloat}
    (hf : ∀ sign other x, UpToSign (f (.zero sign) x) (f (.zero other) x) ∧
      UpToSign (f x (.zero sign)) (f x (.zero other)))
    (h : UpToSign first second) (h' : UpToSign left right) :
    UpToSign (f first left) (f second right) := by
  have hleft : UpToSign (f first left) (f second left) :=
    h.map (f := fun x => f x left) fun sign other => (hf sign other left).1
  have hright : UpToSign (f second left) (f second right) :=
    h'.map fun sign other => (hf sign other second).2
  exact hleft.trans hright

end Unpacked

variable {x y x' y' : Float}

/-- Numbers have the same value if they are the same or both zero. -/
theorem sameValue_iff : SameValue x y ↔ x = y ∨ IsZero x ∧ IsZero y := by
  unfold SameValue IsZero
  rw [Float.beq_iff_ne_nan_and_eq, Float.isNaN_eq_decide_eq_nan, Float.isNaN_eq_decide_eq_nan]
  have hzero : (0 : Float) ≠ .nan := by decide
  have hnegative : (-0 : Float) ≠ .nan := by decide
  grind

/-- The zeros are the numbers that unpack to a zero. -/
theorem isZero_iff : IsZero x ↔ ∃ sign, x.toModel.unpack = .zero sign := by
  have hpacked : ∀ sign, x.toModel.unpack = .zero sign ↔ x = ⟨.pack (.zero sign)⟩ := by
    intro sign
    rw [← Float.toBits_inj, ← UInt64.toBitVec_inj]
    exact Float.Model.UnpackedFloat.unpack_eq_zero_iff_of_valid x.toModel.valid
  have hpositive : (0 : Float) = ⟨.pack (.zero .positive)⟩ := by decide
  have hnegative : (-0 : Float) = ⟨.pack (.zero .negative)⟩ := by decide
  unfold IsZero
  rw [hnegative, hpositive, ← hpacked, ← hpacked]
  constructor
  · rintro (h | h)
    · exact ⟨.positive, h⟩
    · exact ⟨.negative, h⟩
  · rintro ⟨sign, h⟩
    cases sign with
    | positive => exact .inl h
    | negative => exact .inr h

/-- Numbers with the same value unpack to the same but for the sign of a zero. -/
theorem SameValue.upToSign (h : SameValue x y) :
    UpToSign x.toModel.unpack y.toModel.unpack := by
  obtain rfl | ⟨hx, hy⟩ := sameValue_iff.1 h
  · exact .refl _
  · obtain ⟨sign, hsign⟩ := isZero_iff.1 hx
    obtain ⟨other, hother⟩ := isZero_iff.1 hy
    rw [hsign, hother]
    exact .zero sign other

/-- What is the same but for the sign of a zero packs to numbers with the same value. -/
theorem UpToSign.sameValue {first second : UnpackedFloat} (h : UpToSign first second) :
    SameValue ⟨.pack first⟩ ⟨.pack second⟩ := by
  have hzero : ∀ sign, IsZero ⟨.pack (.zero sign)⟩ := by
    intro sign
    cases sign with
    | positive => exact .inl (by decide)
    | negative => exact .inr (by decide)
  cases h with
  | refl => exact sameValue_iff.2 (.inl rfl)
  | zero sign other => exact sameValue_iff.2 (.inr ⟨hzero sign, hzero other⟩)

/-- The numbers without a magnitude are the zeros. -/
theorem isZero_ofMagnitude (negative : Bool) : IsZero (ofMagnitude negative 0) := by
  cases negative with
  | false => exact .inl (by decide)
  | true => exact .inr (by decide)

/-- A zero has no magnitude, and is neither undefined nor infinite. -/
theorem IsZero.spec (h : IsZero x) : magnitude x = 0 ∧ x.isNaN = false ∧ x.isInf = false := by
  obtain rfl | rfl := h <;> decide

/-- A zero has no quotient by a zero, and an undefined number has none at all. -/
theorem IsZero.div_eq_nan (hdivisor : IsZero y) (h : IsZero x ∨ x.isNaN) : x / y = .nan := by
  rw [Float.isNaN_eq_decide_eq_nan, decide_eq_true_eq] at h
  obtain rfl | rfl := hdivisor <;> obtain (rfl | rfl) | rfl := h <;> decide

theorem SameValue.refl (x : Float) : SameValue x x := sameValue_iff.2 (.inl rfl)

namespace SameValue

/-- The value of a sum. -/
theorem add (h : SameValue x y) (h' : SameValue x' y') : SameValue (x + x') (y + y') := by
  refine (UpToSign.map₂ (fun sign other x => ?_) h.upToSign h'.upToSign).sameValue
  cases x with
  | zero s => cases s <;> cases sign <;> cases other <;> exact ⟨.zero _ _, .zero _ _⟩
  | infinity | notANumber | finite => exact ⟨.refl _, .refl _⟩

/-- The value of a difference. -/
theorem sub (h : SameValue x y) (h' : SameValue x' y') : SameValue (x - x') (y - y') := by
  refine (UpToSign.map₂ (fun sign other x => ?_) h.upToSign h'.upToSign).sameValue
  cases x with
  | zero s => cases s <;> cases sign <;> cases other <;> exact ⟨.zero _ _, .zero _ _⟩
  | infinity | notANumber | finite => exact ⟨.refl _, .refl _⟩

/-- The value of a product. -/
theorem mul (h : SameValue x y) (h' : SameValue x' y') : SameValue (x * x') (y * y') := by
  refine (UpToSign.map₂ (fun sign other x => ?_) h.upToSign h'.upToSign).sameValue
  cases x with
  | zero | finite => exact ⟨.zero _ _, .zero _ _⟩
  | infinity | notANumber => exact ⟨.refl _, .refl _⟩

/-- The value of a square root. -/
theorem sqrt (h : SameValue x y) : SameValue x.sqrt y.sqrt :=
  (h.upToSign.map fun sign other => .zero sign other).sameValue

/-- The value of an absolute value. -/
theorem abs (h : SameValue x y) : SameValue x.abs y.abs :=
  (h.upToSign.map fun _ _ => .refl _).sameValue

/-- The value of a remainder. -/
theorem remainder (h : SameValue x y) (h' : SameValue x' y') :
    SameValue (remainder x x') (remainder y y') := by
  -- the sign of the divisor is not looked at
  have hdivisor : Reckoner.remainder x x' = Reckoner.remainder x y' := by
    obtain rfl | ⟨hx, hy⟩ := sameValue_iff.1 h'
    · rfl
    · simp [Reckoner.remainder, hx.spec.1, hy.spec.1]
  rw [hdivisor]
  obtain rfl | ⟨hx, hy⟩ := sameValue_iff.1 h
  · exact .refl _
  · obtain ⟨hmagnitude, hnan, hinf⟩ := hx.spec
    obtain ⟨hmagnitude', hnan', hinf'⟩ := hy.spec
    have hindex : index (units 0 % units (magnitude y')) = 0 := by simp [units, index, binade]
    simp only [Reckoner.remainder, hmagnitude, hmagnitude', hnan, hnan', hinf, hinf', hindex]
    split
    · exact .refl _
    · split
      · exact h
      · exact sameValue_iff.2 (.inr ⟨isZero_ofMagnitude _, isZero_ofMagnitude _⟩)

/-- The value of a quotient by a given divisor. -/
theorem div_left (h : SameValue x y) (divisor : Float) :
    SameValue (x / divisor) (y / divisor) := by
  refine (h.upToSign.map (f := fun x => .div .binary64 x divisor.toModel.unpack) ?_).sameValue
  intro sign other
  cases divisor.toModel.unpack with
  | infinity | finite => exact .zero _ _
  | zero | notANumber => exact .refl _

/-- The value of a quotient depends on the values of its operands only, unless the divisors are the
two zeros and the dividend is neither a zero nor undefined. -/
theorem div (h : SameValue x y) (h' : SameValue x' y') :
    SameValue (x / x') (y / y') ∨
      x = y ∧ ¬ IsZero x ∧ x.isNaN = false ∧ IsZero x' ∧ IsZero y' ∧ x' ≠ y' := by
  by_cases hdivisor : x' = y'
  · subst hdivisor
    exact .inl (h.div_left x')
  · obtain ⟨hx', hy'⟩ := (sameValue_iff.1 h').resolve_left hdivisor
    by_cases hundefined : IsZero x ∨ x.isNaN
    · have hother : IsZero y ∨ y.isNaN := by
        obtain rfl | ⟨-, hy⟩ := sameValue_iff.1 h
        · exact hundefined
        · exact .inl hy
      rw [hx'.div_eq_nan hundefined, hy'.div_eq_nan hother]
      exact .inl (.refl _)
    · obtain ⟨hzero, hnan⟩ := not_or.1 hundefined
      have hsame : x = y := (sameValue_iff.1 h).resolve_right fun hboth => hzero hboth.1
      exact .inr ⟨hsame, hzero, Bool.eq_false_iff.2 hnan, hx', hy', hdivisor⟩

/-- Lists of numbers with the same values are the same, or have different zeros at some place. -/
theorem eq_or_exists {first second : List Float} (h : List.Forall₂ SameValue first second) :
    first = second ∨
      ∃ pair ∈ first.zip second, IsZero pair.1 ∧ IsZero pair.2 ∧ pair.1 ≠ pair.2 := by
  induction h with
  | nil => exact .inl rfl
  | @cons x y _ _ hxy _ ih =>
      by_cases hne : x = y
      · obtain rfl | ⟨pair, hmem, hpair⟩ := ih
        · exact .inl (by rw [hne])
        · exact .inr ⟨pair, List.mem_cons_of_mem _ hmem, hpair⟩
      · obtain ⟨hx, hy⟩ := (sameValue_iff.1 hxy).resolve_left hne
        exact .inr ⟨(x, y), List.mem_cons_self, hx, hy, hne⟩

end SameValue

end Binary64

open Binary64

/-- An operation meets zeros of different signs in operands that otherwise have the same values: as
divisors of a number that is neither a zero nor undefined, or as arguments of a function that is
neither the square root nor the absolute value. -/
inductive Operation.MeetsZeros : Operation → List Float → List Float → Prop
  | divisors {x y z : Float} : ¬ IsZero x → x.isNaN = false → IsZero y → IsZero z → y ≠ z →
      MeetsZeros (.operator .div) [x, y] [x, z]
  | arguments {function : Builtin} {first second : List Float} {pair : Float × Float} :
      function ≠ .sqrt → function ≠ .abs → pair ∈ first.zip second → IsZero pair.1 →
      IsZero pair.2 → pair.1 ≠ pair.2 → MeetsZeros (.builtin function) first second

/-- Operations that are not divisions do not tell the two zeros apart. -/
theorem Operator.sameValue_apply {operator : Operator} {x y x' y' : Float}
    (hoperator : operator ≠ .div) (h : SameValue x y) (h' : SameValue x' y') :
    SameValue (operator.apply x x') (operator.apply y y') := by
  cases operator with
  | add => exact h.add h'
  | sub => exact h.sub h'
  | mul => exact h.mul h'
  | mod => exact h.remainder h'
  | div => exact absurd rfl hoperator

/-- Square roots and absolute values do not tell the two zeros apart. -/
theorem Builtin.sameValue_result {function : Builtin} {first second : List Float} {x y : Float}
    (hfunction : function = .sqrt ∨ function = .abs) (h : List.Forall₂ SameValue first second)
    (hfirst : function.result? first = some x) (hsecond : function.result? second = some y) :
    SameValue x y := by
  have hsome : (Operation.result? (.builtin function) first).isSome := by
    rw [Operation.result?, hfirst, Option.isSome_some]
  have harity : function.arity = 1 := by obtain rfl | rfl := hfunction <;> rfl
  rw [Operation.result?_isSome, beq_iff_eq, Operation.arity, harity, List.length_eq_one_iff]
    at hsome
  obtain ⟨a, rfl⟩ := hsome
  obtain ⟨b, rest, hab, hrest, rfl⟩ := List.forall₂_cons_left_iff.1 h
  obtain rfl := List.forall₂_nil_left_iff.1 hrest
  obtain rfl | rfl := hfunction
  · cases hfirst
    cases hsecond
    exact hab.sqrt
  · cases hfirst
    cases hsecond
    exact hab.abs

/-- An operation on operands with the same values has results with the same value, unless it meets
zeros of different signs. -/
theorem Operation.sameValue_or_meetsZeros {operation : Operation} {first second : List Float}
    {x y : Float} (h : List.Forall₂ SameValue first second)
    (hfirst : operation.result? first = some x) (hsecond : operation.result? second = some y) :
    SameValue x y ∨ operation.MeetsZeros first second := by
  cases operation with
  | operator op =>
      match h, hfirst, hsecond with
      | .cons h (.cons h' .nil), hfirst, hsecond =>
          cases hfirst
          cases hsecond
          by_cases hop : op = .div
          · subst hop
            refine (h.div h').imp_right ?_
            rintro ⟨rfl, hzero, hnan, hx, hy, hne⟩
            exact .divisors hzero hnan hx hy hne
          · exact .inl (Operator.sameValue_apply hop h h')
  | builtin function =>
      obtain rfl | ⟨pair, hmem, hx, hy, hne⟩ := SameValue.eq_or_exists h
      · obtain rfl := Option.some.inj (hfirst.symm.trans hsecond)
        exact .inl (.refl x)
      · by_cases hfunction : function = .sqrt ∨ function = .abs
        · exact .inl (Builtin.sameValue_result hfunction h hfirst hsecond)
        · obtain ⟨hsqrt, habs⟩ := not_or.1 hfunction
          exact .inr (.arguments hsqrt habs hmem hx hy hne)

end Reckoner

import LazyLisp.Proofs.Evaluation.Operators
import Mathlib

/-!
# Arithmetic

What the arithmetic operators make of integers: sums, products, and what is left of the
first operand when all the others are taken from it or divide it.

Division goes from one divisor to the next and rounds toward zero each time. That is as
good as dividing once, by the product of the divisors, whatever their signs
(`divideByAll_eq_divideInt`): signs decide on which side of zero the quotient is, and
not how far from it, so that it comes down to the division of natural numbers
(`tdiv_tdiv`).

A single division is one of absolute values, and its sign is found by a test that takes
zero for a number that is not negative. That this is to round toward zero, whatever the
signs (`signedQuotient_eq_tdiv`), is all that is used of it.

What it means to round toward zero is said without any division
(`IsTruncatedQuotient`): what remains is smaller than the divisor, and is on the same
side of zero as what was divided.
-/

namespace LazyLisp

/-! ## Operands -/

section Operands

variable {op : Op} {es : List Expr} {v : Expr} {n : Int} {ns : List Int}

/-- A list of results is there if the first of them and the list of the others are. -/
theorem bind_cons_eq_ok_iff {α : Type} {x : Except Stop α} {y : Except Stop (List α)}
    {as : List α} : (x >>= fun a => y >>= fun as => pure (a :: as)) = .ok as ↔
      ∃ a as', x = .ok a ∧ y = .ok as' ∧ as = a :: as' := by
  rcases x with stop | a
  · simp [bind, Except.bind]
  · rcases y with stop | as'
    · simp [bind, Except.bind]
    · simp [bind, Except.bind, pure, Except.pure, eq_comm]

/-- Operands are integers if each of them is one. -/
theorem integers_eq_ok_iff :
    integers op es = .ok ns ↔ List.Forall₂ (fun e n => e = .int n) es ns := by
  induction es generalizing ns with
  | nil => cases ns <;> simp [integers]
  | cons e es ih =>
    rw [List.forall₂_cons_left_iff]
    cases e with
    | int n =>
      have hcons : integers op (.int n :: es) =
          (.ok n >>= fun n => integers op es >>= fun ns => pure (n :: ns)) := rfl
      simp only [hcons, bind_cons_eq_ok_iff, ih, Except.ok.injEq, Expr.int.injEq]
    | _ => simp [integers]

theorem integers_map_int (op : Op) (ns : List Int) : integers op (ns.map .int) = .ok ns := by
  rw [integers_eq_ok_iff, List.forall₂_map_left_iff, List.forall₂_same]
  exact fun _ _ => rfl

/-- An arithmetic operator returns nothing unless its operands are integers. -/
theorem Op.exists_integers (h : op.run es = .ok v) (hop : op ≠ .equal) :
    ∃ ns, integers op es = .ok ns := by
  rcases hes : integers op es with stop | ns
  · cases op with
    | equal => exact absurd rfl hop
    | add | multiply | subtract | divide =>
      rw [Op.run, hes] at h
      cases h
  · exact ⟨ns, rfl⟩

theorem Op.run_add (h : integers .add es = .ok ns) : Op.add.run es = .ok (.int ns.sum) := by
  rw [Op.run, h, List.sum_eq_foldl]
  rfl

theorem Op.run_multiply (h : integers .multiply es = .ok ns) :
    Op.multiply.run es = .ok (.int ns.prod) := by
  rw [Op.run, h, List.prod_eq_foldl]
  rfl

theorem foldl_sub (n : Int) (ns : List Int) : ns.foldl (· - ·) n = n - ns.sum := by
  induction ns generalizing n with
  | nil => simp
  | cons m ns ih => rw [List.foldl_cons, ih, List.sum_cons, sub_sub]

theorem Op.run_subtract (h : integers .subtract es = .ok (n :: ns)) :
    Op.subtract.run es = .ok (.int (n - ns.sum)) := by
  rw [Op.run, h, ← foldl_sub]
  rfl

end Operands

/-! ## Division -/

section Division

variable {a b d q : Int}

/-- To round twice toward zero is to round once. -/
theorem tdiv_tdiv (a b c : Int) : (a.tdiv b).tdiv c = a.tdiv (b * c) := by
  obtain ⟨k, rfl | rfl⟩ := a.eq_nat_or_neg <;> obtain ⟨m, rfl | rfl⟩ := b.eq_nat_or_neg <;>
    obtain ⟨n, rfl | rfl⟩ := c.eq_nat_or_neg <;>
    simp only [Int.neg_tdiv, Int.tdiv_neg, Int.neg_mul, Int.mul_neg, neg_neg, ← Int.ofNat_tdiv,
      ← Int.natCast_mul, Nat.div_div_eq_div_mul]

/-- The quotient of the absolute values, negated if the signs differ, is the quotient rounded
    toward zero. -/
theorem signedQuotient_eq_tdiv (a b : Int) :
    (if a < 0 ↔ b < 0 then Int.fdiv a.natAbs b.natAbs else -Int.fdiv a.natAbs b.natAbs) =
      a.tdiv b := by
  rw [← Int.ofNat_fdiv, Int.ofNat_tdiv]
  rcases lt_or_ge a 0 with ha | ha <;> rcases lt_or_ge b 0 with hb | hb
  · rw [if_pos (iff_of_true ha hb), Int.ofNat_natAbs_of_nonpos ha.le,
      Int.ofNat_natAbs_of_nonpos hb.le, Int.neg_tdiv, Int.tdiv_neg, neg_neg]
  · rw [if_neg fun h => hb.not_gt (h.1 ha), Int.ofNat_natAbs_of_nonpos ha.le,
      Int.natAbs_of_nonneg hb, Int.neg_tdiv, neg_neg]
  · -- Here `a` may be zero; the test takes the signs for different, which makes no difference.
    rw [if_neg fun h => ha.not_gt (h.2 hb), Int.natAbs_of_nonneg ha,
      Int.ofNat_natAbs_of_nonpos hb.le, Int.tdiv_neg, neg_neg]
  · rw [if_pos (iff_of_false ha.not_gt hb.not_gt), Int.natAbs_of_nonneg ha,
      Int.natAbs_of_nonneg hb]

theorem divideInt_zero (a : Int) : divideInt a 0 = .error (.error .divisionByZero) := rfl

theorem divideInt_of_ne_zero (a : Int) (hb : b ≠ 0) : divideInt a b = .ok (a.tdiv b) := by
  rw [divideInt, if_neg hb]
  exact congrArg Except.ok (signedQuotient_eq_tdiv a b)

/-- To divide by one divisor after the other is to divide by their product. -/
theorem divideByAll_eq_divideInt (a : Int) (bs : List Int) :
    divideByAll a bs = divideInt a bs.prod := by
  induction bs generalizing a with
  | nil => rw [List.prod_nil, divideInt_of_ne_zero a one_ne_zero, Int.tdiv_one, divideByAll]
  | cons b bs ih =>
    rw [divideByAll, List.prod_cons]
    by_cases hb : b = 0
    · rw [hb, zero_mul, divideInt_zero]
      rfl
    · rw [divideInt_of_ne_zero a hb]
      change divideByAll (a.tdiv b) bs = _
      rw [ih]
      by_cases hbs : bs.prod = 0
      · rw [hbs, mul_zero, divideInt_zero, divideInt_zero]
      · rw [divideInt_of_ne_zero _ hbs, divideInt_of_ne_zero a (mul_ne_zero hb hbs), tdiv_tdiv]

theorem Op.run_divide {es : List Expr} {n : Int} {ns : List Int}
    (h : integers .divide es = .ok (n :: ns)) :
    Op.divide.run es = (divideInt n ns.prod).map .int := by
  rw [Op.run, h, ← divideByAll_eq_divideInt]
  rfl

/-- `q` is the quotient of `a` by `d`, rounded toward zero: the remainder is smaller than
    `d`, and has the sign of `a` unless there is none. -/
def IsTruncatedQuotient (a d q : Int) : Prop :=
  ∃ r, a = q * d + r ∧ |r| < |d| ∧ (r = 0 ∨ r.sign = a.sign)

theorem isTruncatedQuotient_tdiv (a : Int) (hd : d ≠ 0) :
    IsTruncatedQuotient a d (a.tdiv d) := by
  refine ⟨a.tmod d, (a.tdiv_mul_add_tmod d).symm, ?_, ?_⟩
  · rw [Int.abs_eq_natAbs, Int.abs_eq_natAbs, Int.natAbs_tmod, Int.ofNat_lt]
    exact Nat.mod_lt _ (Int.natAbs_pos.2 hd)
  · by_cases hdvd : d ∣ a
    · exact .inl (Int.tmod_eq_zero_of_dvd hdvd)
    · exact .inr (by rw [Int.sign_tmod, if_neg hdvd])

theorem IsTruncatedQuotient.eq_tdiv (h : IsTruncatedQuotient a d q) : q = a.tdiv d := by
  obtain ⟨r, ha, hr, hsign⟩ := h
  have hd : d ≠ 0 := by
    rintro rfl
    rw [abs_zero] at hr
    exact absurd (abs_nonneg r) (not_le.2 hr)
  rw [abs_lt, Int.abs_eq_natAbs] at hr
  have heq : r + d * q = a := by rw [ha, mul_comm, add_comm]
  rcases le_total 0 a with hle | hle
  · have hr0 : 0 ≤ r := by
      rcases hsign with rfl | hsign
      · exact le_rfl
      · rwa [← Int.sign_nonneg_iff, hsign, Int.sign_nonneg_iff]
    exact ((Int.tdiv_tmod_unique hle hd).2 ⟨heq, hr0, hr.2⟩).1.symm
  · have hr0 : r ≤ 0 := by
      rcases hsign with rfl | hsign
      · exact le_rfl
      · rwa [← Int.sign_nonpos_iff, hsign, Int.sign_nonpos_iff]
    exact ((Int.tdiv_tmod_unique' hle hd).2 ⟨heq, hr.1, hr0⟩).1.symm

/-- Division by any number of divisors fails exactly if one of them is zero, and otherwise
    returns the one quotient of the first operand by their product that is rounded toward
    zero. So it is the same to divide by the product. -/
theorem divide_by_product (a : Int) (bs : List Int) :
    (Op.divide.run (.int a :: bs.map .int) = .error (.error .divisionByZero) ↔ 0 ∈ bs) ∧
      EvalError.divisionByZero.message = "division by zero" ∧
      (0 ∉ bs → ∃ q, Op.divide.run (.int a :: bs.map .int) = .ok (.int q) ∧
        ∀ q', IsTruncatedQuotient a bs.prod q' ↔ q' = q) ∧
      Op.divide.run (.int a :: bs.map .int) = Op.divide.run [.int a, .int bs.prod] := by
  have hrun (cs : List Int) :
      Op.divide.run (.int a :: cs.map .int) = (divideInt a cs.prod).map .int :=
    Op.run_divide (integers_map_int .divide (a :: cs))
  have honce : Op.divide.run (.int a :: bs.map .int) = Op.divide.run [.int a, .int bs.prod] := by
    have hproduct := hrun [bs.prod]
    rw [List.prod_singleton] at hproduct
    exact (hrun bs).trans hproduct.symm
  by_cases hzero : 0 ∈ bs
  · have herror : Op.divide.run (.int a :: bs.map .int) = .error (.error .divisionByZero) := by
      rw [hrun, List.prod_eq_zero hzero, divideInt_zero]
      rfl
    exact ⟨iff_of_true herror hzero, rfl, absurd hzero, honce⟩
  · have hd : bs.prod ≠ 0 := List.prod_ne_zero hzero
    have hok : Op.divide.run (.int a :: bs.map .int) = .ok (.int (a.tdiv bs.prod)) := by
      rw [hrun, divideInt_of_ne_zero a hd]
      rfl
    refine ⟨iff_of_false (by simp [hok]) hzero, rfl, fun _ => ⟨_, hok, fun q => ?_⟩, honce⟩
    exact ⟨IsTruncatedQuotient.eq_tdiv, fun hq => hq ▸ isTruncatedQuotient_tdiv a hd⟩

/-- Divisors of both signs, which change the sign of what is divided twice. -/
theorem divide_by_product_mixedSigns :
    let bs : List Int := [7, -2, 3, -1]
    (0 ∉ bs ∧ Op.divide.run (.int (-100) :: bs.map .int) = .ok (.int (-2))) ∧
      (∃ q, Op.divide.run (.int (-100) :: bs.map .int) = .ok (.int q) ∧
        ∀ q', IsTruncatedQuotient (-100) bs.prod q' ↔ q' = q) ∧
      Op.divide.run (.int (-100) :: bs.map .int) = Op.divide.run [.int (-100), .int bs.prod] := by
  intro bs
  have hzero : 0 ∉ bs := by decide
  obtain ⟨-, -, hquotient, honce⟩ := divide_by_product (-100) bs
  exact ⟨⟨hzero, rfl⟩, hquotient hzero, honce⟩

end Division

end LazyLisp

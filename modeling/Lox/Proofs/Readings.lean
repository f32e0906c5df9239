import Lox.Proofs.Printing
import Lox.Proofs.Shortest

/-!
# Reading numerals

A numeral stands for a decimal: digits with a point among them, times a power of ten.  It is read
as the double nearest to that, an infinity if the decimal is out of range, and two words are read
as the infinities.
-/

namespace Lox
namespace Numeral

/-! ## The reader -/

/-- The exponent at the end of a numeral; where there is none it is zero. -/
def exponent? : List Char → Option Int
  | [] => some 0
  | 'e' :: sign :: ds =>
    if ds.isEmpty || !ds.all Char.isDigit then none
    else if sign = '+' then some (Digits.value ds)
    else if sign = '-' then some (-(Digits.value ds))
    else none
  | _ => none

/-- The digits after a point, and what comes after them; where there is no point there are none. -/
def splitFraction : List Char → List Char × List Char
  | '.' :: cs => (cs.takeWhile Char.isDigit, cs.dropWhile Char.isDigit)
  | cs => ([], cs)

/-- The magnitude of digits whose last one stands at the given power of ten. -/
def scaled (ds : List Char) (exponent : Int) : ℚ := Digits.value ds * 10 ^ exponent

/-- The magnitude that a numeral without a sign stands for: digits, perhaps a point and more digits,
and perhaps an exponent. -/
def magnitude? (cs : List Char) : Option ℚ :=
  let whole := cs.takeWhile Char.isDigit
  let (fraction, rest) := splitFraction (cs.dropWhile Char.isDigit)
  if whole.isEmpty then none
  else (exponent? rest).map fun exponent => scaled (whole ++ fraction) (exponent - fraction.length)

/-- The double with the given sign that a numeral without a sign is read as. -/
def readUnsigned? (negative : Bool) (cs : List Char) : Option Float :=
  if cs = ['i', 'n', 'f'] then some (Double.ofOrdinal negative Double.infinityOrdinal)
  else (magnitude? cs).map (Double.nearest negative)

/-- The double that a numeral is read as. -/
def read? : List Char → Option Float
  | '-' :: cs => readUnsigned? true cs
  | cs => readUnsigned? false cs

/-! ## Decimals -/

section
variable {whole fraction rest : List Char} {exponent : Int}

/-- Digits are split off where they end. -/
theorem takeWhile_digits (hwhole : ∀ d ∈ whole, d.isDigit = true) (rest : List Char)
    (hrest : ∀ c ∈ rest.head?, c.isDigit = false) :
    (whole ++ rest).takeWhile Char.isDigit = whole ∧
      (whole ++ rest).dropWhile Char.isDigit = rest := by
  rw [List.takeWhile_append_of_pos hwhole, List.dropWhile_append_of_pos hwhole]
  cases rest with
  | nil => exact ⟨List.append_nil whole, rfl⟩
  | cons c cs =>
    have hc := hrest c rfl
    simp [hc]

theorem exponent?_nil : exponent? [] = some 0 := rfl

/-- What stands as an exponent begins with a letter. -/
theorem head?_of_exponent? (h : exponent? rest = some exponent) : ∀ c ∈ rest.head?, c = 'e' := by
  unfold exponent? at h
  split at h
  · simp
  · simp
  · cases h

/-- Digits and an exponent. -/
theorem magnitude?_digits (hne : whole ≠ []) (hwhole : ∀ d ∈ whole, d.isDigit = true)
    (hrest : exponent? rest = some exponent) :
    magnitude? (whole ++ rest) = some (scaled whole exponent) := by
  have hhead := head?_of_exponent? hrest
  obtain ⟨htake, hdrop⟩ := takeWhile_digits hwhole rest fun c hc => by rw [hhead c hc]; decide
  have hsplit : splitFraction rest = ([], rest) := by
    unfold splitFraction
    split
    · exact absurd (hhead '.' rfl) (by decide)
    · rfl
  unfold magnitude?
  rw [htake, hdrop, hsplit]
  simp [hne, hrest]

/-- Digits with a point among them, and an exponent. -/
theorem magnitude?_point (hne : whole ≠ []) (hwhole : ∀ d ∈ whole, d.isDigit = true)
    (hfraction : ∀ d ∈ fraction, d.isDigit = true) (hrest : exponent? rest = some exponent) :
    magnitude? (whole ++ '.' :: (fraction ++ rest)) =
      some (scaled (whole ++ fraction) (exponent - fraction.length)) := by
  have hhead := head?_of_exponent? hrest
  obtain ⟨htake, hdrop⟩ := takeWhile_digits hwhole ('.' :: (fraction ++ rest))
    fun c hc => by cases hc; decide
  obtain ⟨htake', hdrop'⟩ := takeWhile_digits hfraction rest
    fun c hc => by rw [hhead c hc]; decide
  unfold magnitude?
  rw [htake, hdrop, splitFraction, htake', hdrop']
  simp [hne, hrest]

end

/-- Zeros in front do not count. -/
theorem scaled_zeros_append (k : Nat) (ds : List Char) (exponent : Int) :
    scaled (List.replicate k '0' ++ ds) exponent = scaled ds exponent := by
  rw [scaled, Digits.value_append, Digits.value_replicate_zero, Nat.mul_zero, Nat.zero_add, scaled]

/-- A zero at the end counts as a power of ten. -/
theorem scaled_append_zeros (ds : List Char) (k : Nat) (exponent : Int) :
    scaled (ds ++ List.replicate k '0') exponent = scaled ds (exponent + k) := by
  rw [scaled, Digits.value_append, Digits.value_replicate_zero, List.length_replicate, scaled,
    zpow_add₀ (by norm_num), zpow_natCast]
  push_cast
  ring

/-! ## The two notations -/

section
variable {ds : List Char}

/-- Positional notation stands for its digits, the first of which has the given exponent. -/
theorem magnitude?_positional (hne : ds ≠ []) (hds : ∀ d ∈ ds, d.isDigit = true) (exponent : Int) :
    magnitude? (positional ds exponent) = some (scaled ds (exponent + 1 - ds.length)) := by
  have hzeros : ∀ k, ∀ d ∈ List.replicate k '0', d.isDigit = true := by
    intro k d hd
    rw [List.eq_of_mem_replicate hd]
    decide
  cases exponent with
  | ofNat e =>
    dsimp only [positional]
    rcases Nat.lt_or_ge (e + 1) ds.length with hmany | hfew
    · -- the point stands among the digits
      have htake : ds.take (e + 1) ≠ [] := by simp [hne]
      have hpoint := magnitude?_point htake (fun d hd => hds d (List.mem_of_mem_take hd))
        (fun d hd => hds d (List.mem_of_mem_drop (i := e + 1) hd)) exponent?_nil
      rw [List.append_nil, List.take_append_drop] at hpoint
      rw [Nat.sub_eq_zero_of_le hmany.le, List.replicate_zero, List.append_nil,
        if_neg (by simpa using hmany), hpoint, List.length_drop, Int.ofNat_eq_natCast,
        show (0 : Int) - ((ds.length - (e + 1) : Nat) : Int) = e + 1 - ds.length by omega]
    · -- the point stands after all digits, and after zeros that fill up the places before it
      have hpoint := magnitude?_point (List.append_ne_nil_of_left_ne_nil hne _)
        (List.forall_mem_append.2 ⟨hds, hzeros (e + 1 - ds.length)⟩) (hzeros 1) exponent?_nil
      rw [List.append_nil, scaled_append_zeros, scaled_append_zeros] at hpoint
      rw [List.take_of_length_le hfew, List.drop_of_length_le hfew]
      refine hpoint.trans (congrArg (fun n => some (scaled ds n)) ?_)
      rw [List.length_replicate, Int.ofNat_eq_natCast]
      omega
  | negSucc zeros =>
    have hpoint := magnitude?_point (List.cons_ne_nil '0' []) (hzeros 1)
      (List.forall_mem_append.2 ⟨hzeros zeros, hds⟩) exponent?_nil
    rw [List.append_nil, ← List.append_assoc] at hpoint
    refine hpoint.trans (congrArg some ?_)
    rw [List.append_assoc, show ['0'] = List.replicate 1 '0' from rfl, scaled_zeros_append,
      scaled_zeros_append, List.length_append, List.length_replicate, Int.negSucc_eq]
    congr 1
    push_cast
    ring

/-- The exponent of scientific notation. -/
theorem exponent?_scientific (exponent : Int) :
    exponent? ('e' :: (if exponent < 0 then '-' else '+') :: Digits.padded 2 exponent.natAbs) =
      some exponent := by
  have hne : Digits.padded 2 exponent.natAbs ≠ [] :=
    List.append_ne_nil_of_right_ne_nil _ (Digits.ofNat_ne_nil _)
  have hdigits : (Digits.padded 2 exponent.natAbs).all Char.isDigit = true :=
    List.all_eq_true.2 fun d hd => Digits.isDigit_padded hd
  rw [exponent?, hdigits, Digits.value_padded]
  by_cases hneg : exponent < 0
  · simp [hneg, hne, abs_of_neg hneg]
  · simp [hneg, hne, not_lt.1 hneg]

/-- Scientific notation stands for its digits, the first of which has the given exponent. -/
theorem magnitude?_scientific (hne : ds ≠ []) (hds : ∀ d ∈ ds, d.isDigit = true) (exponent : Int) :
    magnitude? (scientific ds exponent) = some (scaled ds (exponent + 1 - ds.length)) := by
  cases ds with
  | nil => exact absurd rfl hne
  | cons first rest =>
    have hfirst : ∀ d ∈ [first], d.isDigit = true := fun d hd => hds d (by simp_all)
    dsimp only [scientific]
    cases rest with
    | nil =>
      rw [List.isEmpty_nil, if_pos rfl,
        magnitude?_digits (List.cons_ne_nil first []) hfirst (exponent?_scientific exponent)]
      simp
    | cons second rest =>
      have hpoint := magnitude?_point (List.cons_ne_nil first []) hfirst
        (fun d hd => hds d (List.mem_cons_of_mem first hd)) (exponent?_scientific exponent)
      refine hpoint.trans (congrArg (fun n => some (scaled (first :: second :: rest) n)) ?_)
      simp

end

/-! ## Significant digits -/

/-- Zeros that are stripped stood at the end. -/
theorem exists_eq_stripZeros_append (ds : List Char) :
    ∃ k, ds = stripZeros ds ++ List.replicate k '0' := by
  refine ⟨(ds.reverse.takeWhile (· == '0')).length, ?_⟩
  have hzeros : ds.reverse.takeWhile (· == '0') =
      List.replicate (ds.reverse.takeWhile (· == '0')).length '0' :=
    List.eq_replicate_of_mem fun d hd => by simpa using List.mem_takeWhile_imp hd
  have hsplit := congrArg List.reverse
    (List.takeWhile_append_dropWhile (p := (· == '0')) (l := ds.reverse))
  rw [List.reverse_append, List.reverse_reverse, hzeros, List.reverse_replicate] at hsplit
  exact hsplit.symm

/-- Without their trailing zeros digits stand for the same magnitude, if the first one stays at its
place. -/
theorem scaled_stripZeros (ds : List Char) (exponent : Int) :
    scaled (stripZeros ds) (exponent + ds.length - (stripZeros ds).length) =
      scaled ds exponent := by
  obtain ⟨k, hstrip⟩ := exists_eq_stripZeros_append ds
  have hlength : (ds.length : Int) = (stripZeros ds).length + k := by
    conv_lhs => rw [hstrip]
    simp
  conv_rhs => rw [hstrip, scaled_append_zeros]
  congr 1
  omega

section
variable {n : Nat}

theorem isDigit_of_mem_stripZeros {d : Char} (h : d ∈ stripZeros (Digits.ofNat n)) :
    d.isDigit = true := by
  obtain ⟨k, hstrip⟩ := exists_eq_stripZeros_append (Digits.ofNat n)
  refine Digits.isDigit_ofNat (n := n) ?_
  rw [hstrip]
  exact List.mem_append_left _ h

/-- A positive number has significant digits. -/
theorem stripZeros_ne_nil (hn : 0 < n) : stripZeros (Digits.ofNat n) ≠ [] := by
  obtain ⟨k, hstrip⟩ := exists_eq_stripZeros_append (Digits.ofNat n)
  intro hnil
  rw [hnil, List.nil_append] at hstrip
  have hvalue := Digits.value_ofNat n
  rw [hstrip, Digits.value_replicate_zero] at hvalue
  exact hn.ne hvalue

end

/-! ## Doubles -/

/-- Grains are counted by the digits up to the last place. -/
theorem scaled_places (n : Nat) :
    scaled (Digits.ofNat n) (-Double.places) = n / Double.grainsPerUnit := by
  rw [scaled, Digits.value_ofNat, Double.cast_grainsPerUnit, zpow_neg, zpow_natCast, div_eq_mul_inv]

/-- The numeral of a double other than a zero stands for the shortest decimal of the double. -/
theorem magnitude?_ofMagnitude {ordinal : Nat} (h : ordinal ≠ 0) :
    magnitude? (ofMagnitude ordinal) =
      some (Double.shortest ordinal / Double.grainsPerUnit : ℚ) := by
  have hpos := Double.shortest_pos h
  have hdigits : ∀ d ∈ stripZeros (Digits.ofNat (Double.shortest ordinal)), d.isDigit = true :=
    fun d => isDigit_of_mem_stripZeros
  have hpositional := magnitude?_positional (stripZeros_ne_nil hpos) hdigits
  have hscientific := magnitude?_scientific (stripZeros_ne_nil hpos) hdigits
  rw [ofMagnitude, if_neg h, Digits.inBlocks_eq_ofNat, ← scaled_places, ← scaled_stripZeros]
  generalize Double.places = places
  dsimp only
  split
  · rw [hpositional]
    congr 2
    ring
  · rw [hscientific]
    congr 2
    ring

/-- The numeral of a finite magnitude stands for a magnitude that is rounded to it, and with as few
digits as any that is. -/
theorem exists_magnitude?_ofMagnitude (ordinal : Nat) :
    ∃ q, magnitude? (ofMagnitude ordinal) = some q ∧ Double.ordinalNear q = ordinal ∧
      ∀ digits p, HasDigits digits p → Double.ordinalNear p = ordinal → HasDigits digits q := by
  by_cases hzero : ordinal = 0
  · have hnone : scaled ['0', '0'] (-1) = 0 := by
      rw [scaled, show ['0', '0'] = List.replicate 2 '0' from rfl, Digits.value_replicate_zero,
        Nat.cast_zero, zero_mul]
    refine ⟨0, ?_, by rw [hzero, Double.ordinalNear_zero], fun digits p _ _ => ?_⟩
    · rw [hzero, ← hnone]
      rfl
    · exact ⟨0, 0, Nat.pow_pos (by decide), by rw [Nat.cast_zero, zero_mul]⟩
  · refine ⟨_, magnitude?_ofMagnitude hzero, ?_,
      fun digits p => Double.hasDigits_shortest hzero⟩
    rw [Double.ordinalNear_div _ Double.grainsPerUnit_pos, Double.nearestOrdinal_shortest]

/-- The numeral of a finite magnitude is read as the double with that magnitude. -/
theorem readUnsigned?_ofMagnitude (negative : Bool) {ordinal : Nat}
    (h : ordinal < Double.infinityOrdinal) :
    readUnsigned? negative (ofMagnitude ordinal) = some (Double.ofOrdinal negative ordinal) := by
  obtain ⟨q, hq, hnear, -⟩ := exists_magnitude?_ofMagnitude ordinal
  have hword : ofMagnitude ordinal ≠ ['i', 'n', 'f'] := by
    intro heq
    rw [heq] at hq
    cases hq
  rw [readUnsigned?, if_neg hword, hq, Option.map_some, Double.nearest, hnear,
    Nat.min_eq_left h.le]

/-- What is read without a sign is read with its sign. -/
theorem read?_signed {negative : Bool} {cs : List Char} {x : Float}
    (h : readUnsigned? negative cs = some x) : read? (signed negative cs) = some x := by
  cases negative with
  | true => exact h
  | false =>
    unfold read? signed
    split
    · next cs' heq =>
      -- a minus sign is no digit
      obtain rfl : cs = '-' :: cs' := heq
      simp [readUnsigned?, magnitude?] at h
    · exact h

/-- The numeral of a double is read as that double, unless that is not a number. -/
theorem read?_ofFloat {x : Float} (h : Double.exactValue? x ≠ none) :
    read? (ofFloat x) = some x := by
  obtain ⟨negative, ordinal, hle, rfl⟩ := Double.exists_of_exactValue? h
  rw [ofFloat, Double.contents_ofOrdinal hle]
  rcases Nat.lt_or_eq_of_le hle with hlt | rfl
  · rw [if_pos hlt]
    exact read?_signed (readUnsigned?_ofMagnitude negative hlt)
  · rw [if_neg (Nat.lt_irrefl _)]
    exact read?_signed (if_pos rfl)

/-! ## Texts -/

/-- The numeral of an integer has nothing in it but digits and a minus sign. -/
theorem eq_minus_or_isDigit {n : Int} {c : Char} (h : c ∈ ofInt n) :
    c = '-' ∨ c.isDigit = true := by
  rw [ofInt_eq] at h
  rcases List.mem_append.1 h with hsign | hdigit
  · split at hsign
    · exact .inl (List.mem_singleton.1 hsign)
    · cases hsign
  · exact .inr (Digits.isDigit_ofNat hdigit)

/-- A character that an integer is not written with: neither a digit nor a minus sign. -/
def IsMark (c : Char) : Prop := c ≠ '-' ∧ c.isDigit = false

instance : DecidablePred IsMark := fun _ => inferInstanceAs (Decidable (_ ∧ _))

/-- The numeral of a finite magnitude has a point or an exponent. -/
theorem exists_mark_ofMagnitude (ordinal : Nat) : ∃ c ∈ ofMagnitude ordinal, IsMark c := by
  unfold ofMagnitude
  dsimp only
  generalize stripZeros (Digits.inBlocks Digits.wordWidth (Double.shortest ordinal)) = ds
  generalize _ - (Double.places : Int) = exponent
  split_ifs with hzero hplain
  · exact ⟨'.', by decide⟩
  · refine ⟨'.', ?_, by decide⟩
    cases exponent with
    | ofNat e => simp [positional]
    | negSucc zeros => simp [positional]
  · exact ⟨'e', by simp [scientific], by decide⟩

theorem exists_mark_signed {cs : List Char} (h : ∃ c ∈ cs, IsMark c) (negative : Bool) :
    ∃ c ∈ signed negative cs, IsMark c := by
  obtain ⟨c, hmem, hc⟩ := h
  cases negative with
  | false => exact ⟨c, hmem, hc⟩
  | true => exact ⟨c, List.mem_cons_of_mem _ hmem, hc⟩

/-- The numeral of a double shows that it is not that of an integer. -/
theorem exists_mark_ofFloat (x : Float) : ∃ c ∈ ofFloat x, IsMark c := by
  unfold ofFloat
  cases Double.contents x with
  | nan => exact ⟨'n', by decide⟩
  | infinite negative => exact exists_mark_signed ⟨'n', by decide⟩ negative
  | finite negative ordinal => exact exists_mark_signed (exists_mark_ofMagnitude ordinal) negative

/-- No double is written as an integer is. -/
theorem ofFloat_ne_ofInt (x : Float) (n : Int) : ofFloat x ≠ ofInt n := by
  obtain ⟨c, hmem, hsign, hdigit⟩ := exists_mark_ofFloat x
  intro heq
  rcases eq_minus_or_isDigit (heq ▸ hmem) with h | h
  · exact hsign h
  · rw [hdigit] at h
    cases h

end Numeral

namespace Number

/-- Two numbers are of one type and of one value; two zeros among the doubles have one sign too. -/
inductive Same : Number → Number → Prop
  | int (n : Int) : Same (int n) (int n)
  | float {x y : Float} (hvalue : Double.exactValue? x = Double.exactValue? y)
    (hsign : Double.signField x = Double.signField y) : Same (float x) (float y)

/-- Numbers that are the same are identical, unless they are not numbers. -/
theorem same_iff_eq {a b : Number} (ha : a.exactValue? ≠ none) : a.Same b ↔ a = b := by
  constructor
  · intro h
    cases h with
    | int n => rfl
    | float hvalue hsign => exact congrArg float (Double.eq_of_exactValue?_eq ha hvalue hsign)
  · rintro rfl
    cases a with
    | int n => exact .int n
    | float x => exact .float rfl rfl

/-- The text of a number is that of no other one. -/
theorem text_inj {a b : Number} (ha : a.exactValue? ≠ none) (hb : b.exactValue? ≠ none) :
    a.text = b.text ↔ a = b := by
  refine ⟨fun h => ?_, congrArg text⟩
  have hnumeral : a.numeral = b.numeral := String.ofList_injective h
  cases a with
  | int m =>
    cases b with
    | int n =>
      have hread := toInt?_text m
      rw [h, toInt?_text] at hread
      exact congrArg int (Option.some.inj hread).symm
    | float y => exact absurd hnumeral.symm (Numeral.ofFloat_ne_ofInt y m)
  | float x =>
    cases b with
    | int n => exact absurd hnumeral (Numeral.ofFloat_ne_ofInt x n)
    | float y =>
      have hread := Numeral.read?_ofFloat ha
      rw [show Numeral.ofFloat x = Numeral.ofFloat y from hnumeral,
        Numeral.read?_ofFloat hb] at hread
      exact congrArg float (Option.some.inj hread).symm

end Number

/-- What a print statement adds to the console. -/
theorem out_exec_print {inner : Node} {m : Machine} {v : Value} {store : Store}
    (h : inner.eval m.active m.store = .ok v store) (fuel : Nat) :
    (finalState ((Node.print inner).exec fuel m)).console.out =
      m.console.out.push (v.text ++ "\n") := by
  rw [exec_print, h]
  rfl

/-- The text of a number, read back as a decimal and rounded to the nearest double, is the number
again; no decimal with fewer digits is; and no double is written as an integer.  So printing a
number and adding it to a string show which number it is. -/
theorem numerals_identify_numbers :
    (∀ x : Float, Double.exactValue? x ≠ none →
      Numeral.read? (Number.float x).text.toList = some x) ∧
    (∀ (x : Float) (negative : Bool) (ordinal : Nat),
      Double.contents x = .finite negative ordinal →
      ∃ cs q, (Number.float x).numeral = Numeral.signed negative cs ∧
        Numeral.magnitude? cs = some q ∧
        ∀ digits p, HasDigits digits p → Double.nearest negative p = x → HasDigits digits q) ∧
    (∀ (negative : Bool) (q : ℚ), 0 ≤ q →
      (Double.signField (Double.nearest negative q) = if negative then .negative else .positive) ∧
      (q < 2 ^ 1024 - 2 ^ 970 →
        Double.IsNearest (Double.withSign negative q) (Double.nearest negative q)) ∧
      (2 ^ 1024 - 2 ^ 970 ≤ q →
        Double.exactValue? (Double.nearest negative q) = some (if negative then ⊥ else ⊤))) ∧
    (∀ (x : Float) (n : Int), (Number.float x).text ≠ (Number.int n).text) ∧
    ∀ a b : Number, a.exactValue? ≠ none → b.exactValue? ≠ none →
      ((Value.number a).text = (Value.number b).text ↔ a.Same b) ∧
      (∀ s, BinaryOp.add.apply (.value (.string s)) (.value (.number a)) =
        BinaryOp.add.apply (.value (.string s)) (.value (.number b)) ↔ a.Same b) ∧
      ∀ (fuel : Nat) (m : Machine) (left right : Node) (s t : Store),
        left.eval m.active m.store = .ok (.number a) s →
        right.eval m.active m.store = .ok (.number b) t →
        ((finalState ((Node.print left).exec fuel m)).console.out =
          (finalState ((Node.print right).exec fuel m)).console.out ↔ a.Same b) := by
  refine ⟨fun x hx => ?_, fun x negative ordinal hx => ?_,
    fun negative q hq => ⟨?_, Double.isNearest_nearest negative hq, Double.nearest_of_le negative⟩,
    fun x n heq => ?_, fun a b ha hb => ?_⟩
  · rw [Number.text, String.toList_ofList]
    exact Numeral.read?_ofFloat hx
  · obtain ⟨q, hq, -, hfewest⟩ := Numeral.exists_magnitude?_ofMagnitude ordinal
    refine ⟨_, q, ?_, hq, fun digits p hp hnear => hfewest digits p hp ?_⟩
    · rw [Number.numeral, Numeral.ofFloat, hx]
    · rw [← hnear] at hx
      exact Double.ordinalNear_of_contents_nearest hx
  · exact Double.signField_ofOrdinal (Nat.min_le_right _ _)
  · exact Numeral.ofFloat_ne_ofInt x n (String.ofList_injective heq)
  · rw [Number.same_iff_eq ha]
    refine ⟨Number.text_inj ha hb, fun s => ?_, fun fuel m left right s t hleft hright => ?_⟩
    · have hadd : ∀ n : Number, BinaryOp.add.apply (.value (.string s)) (.value (.number n)) =
          .ok (.string (s ++ n.text)) := fun _ => rfl
      rw [hadd, hadd, Except.ok.injEq, Value.string.injEq, String.append_right_inj,
        Number.text_inj ha hb]
    · rw [out_exec_print hleft, out_exec_print hright, Array.push_eq_push, String.append_left_inj,
        and_iff_left rfl]
      exact Number.text_inj ha hb

/-- The least double and zero with a minus sign are read back; a tenth is read as the nearest
double, which is written with one digit; and a double and an integer of one value are printed
differently. -/
theorem numerals_identify_numbers_hardDoubles :
    let m : Machine := ⟨Store.empty.push none, 0, false, {}, #[]⟩
    Numeral.read? (Number.float 5e-324).text.toList = some 5e-324 ∧
    Numeral.read? (Number.float (-0.0)).text.toList = some (-0.0) ∧
    Double.IsNearest (1 / 10) 0.1 ∧
    (∃ cs q, (Number.float 0.1).numeral = Numeral.signed false cs ∧
      Numeral.magnitude? cs = some q ∧ HasDigits 1 q) ∧
    (Value.number (.float 0.0)).text ≠ (Value.number (.float (-0.0))).text ∧
    (finalState ((Node.print (.literal (.host (.number (.float 1e16))))).exec 0 m)).console.out ≠
      (finalState ((Node.print (.literal (.host (.number (.int (10 ^ 16)))))).exec 0
        m)).console.out := by
  intro m
  have hnumber : ∀ x : Float, x.isNaN = false → Double.exactValue? x ≠ none := by
    intro x hx hnone
    rw [Double.exactValue?_eq_none_iff, hx] at hnone
    cases hnone
  have htenth : Double.nearest false (1 / 10) = 0.1 := by decide +kernel
  refine ⟨numerals_identify_numbers.1 _ (hnumber _ (by decide +kernel)),
    numerals_identify_numbers.1 _ (hnumber _ (by decide)), ?_, ?_, fun heq => ?_, fun heq => ?_⟩
  · have hq : (0 : ℚ) ≤ 1 / 10 := by norm_num
    have hrange : (1 / 10 : ℚ) < 2 ^ 1024 - 2 ^ 970 := by
      rw [← not_le, ← Double.infinityOrdinal_le_ordinalNear_iff hq]
      decide +kernel
    exact htenth ▸ (numerals_identify_numbers.2.2.1 false (1 / 10) hq).2.1 hrange
  · have hcontents : Double.contents 0.1 = .finite false (Double.ordinalNear (1 / 10)) := by
      decide +kernel
    obtain ⟨cs, q, hcs, hq, hfewest⟩ := numerals_identify_numbers.2.1 0.1 _ _ hcontents
    exact ⟨cs, q, hcs, hq, hfewest 1 (1 / 10) ⟨1, -1, by decide, by norm_num⟩ htenth⟩
  · have hsame := (numerals_identify_numbers.2.2.2.2 (.float 0.0) (.float (-0.0))
      (hnumber _ (by decide)) (hnumber _ (by decide))).1.1 heq
    cases hsame with
    | float hvalue hsign => exact absurd hsign Float.Model.UnpackedFloat.Sign.noConfusion
  · have hsame := (numerals_identify_numbers.2.2.2.2 (.float 1e16) (.int (10 ^ 16))
      (hnumber _ (by decide)) (Option.some_ne_none _)).2.2 0 m _ _ _ _ rfl rfl |>.1 heq
    cases hsame

end Lox

import Lox.Proofs.Growth

/-!
# Programs one after the other

Interpreting a program executes its statements until one of them raises a fault, which is then
reported.  So a program can be cut in two at any place: what comes second is executed where what
comes first left the machine, unless what comes first was cut short by a fault.
-/

namespace Lox

/-! ## Statements in a row -/

namespace Node
variable {m m' : Machine}

theorem execAll_append (fuel : Nat) (xs ys : List Node) :
    execAll fuel (xs ++ ys) = (do execAll fuel xs; execAll fuel ys) := by
  induction xs with
  | nil => exact (pure_bind () fun _ => execAll fuel ys).symm
  | cons statement rest ih =>
    simp only [List.cons_append, execAll, ih, bind_assoc]

theorem ends_execAll_append_iff {xs ys : List Node} {outcome : Except Fault Unit} :
    Ends (execAll · (xs ++ ys)) m outcome m' ↔
      (∃ between, Ends (execAll · xs) m (.ok ()) between ∧
        Ends (execAll · ys) between outcome m') ∨
      ∃ fault, Ends (execAll · xs) m (.error fault) m' ∧ outcome = .error fault := by
  simp only [execAll_append]
  refine (ends_bind_iff (fuelMonotone_execAll xs) fun _ => fuelMonotone_execAll ys).trans ?_
  exact or_congr_left ⟨fun ⟨_, between, h⟩ => ⟨between, h⟩, fun ⟨between, h⟩ => ⟨(), between, h⟩⟩

theorem ends_execAll_cons_iff {statement : Node} {rest : List Node}
    {outcome : Except Fault Unit} :
    Ends (execAll · (statement :: rest)) m outcome m' ↔
      (∃ between, Ends (exec · statement) m (.ok ()) between ∧
        Ends (execAll · rest) between outcome m') ∨
      ∃ fault, Ends (exec · statement) m (.error fault) m' ∧ outcome = .error fault := by
  simp only [execAll]
  refine (ends_bind_iff (fuelMonotone_exec statement) fun _ => fuelMonotone_execAll rest).trans ?_
  exact or_congr_left ⟨fun ⟨_, between, h⟩ => ⟨between, h⟩, fun ⟨between, h⟩ => ⟨(), between, h⟩⟩

/-- A statement of the program raises the fault and leaves the second machine, after all statements
before it came to their ends in order. -/
def CutShort (program : List Node) (m : Machine) (fault : Fault) (m' : Machine) : Prop :=
  ∃ earlier statement later between, program = earlier ++ statement :: later ∧
    Ends (execAll · earlier) m (.ok ()) between ∧ Ends (exec · statement) between (.error fault) m'

/-- Statements in a row end in a fault exactly if the first one to raise a fault raises it. -/
theorem ends_execAll_error_iff {program : List Node} {fault : Fault} :
    Ends (execAll · program) m (.error fault) m' ↔ CutShort program m fault m' := by
  constructor
  · intro h
    induction program generalizing m with
    | nil =>
      obtain ⟨fuel, hfuel⟩ := h
      cases hfuel
    | cons statement rest ih =>
      -- Either the fault comes later, or the first statement raises it and nothing comes before.
      rcases ends_execAll_cons_iff.1 h with ⟨between, hstatement, hrest⟩ | ⟨fault', hfault, heq⟩
      · obtain ⟨earlier, statement', later, between', rfl, hearlier, hfault⟩ := ih hrest
        exact ⟨statement :: earlier, statement', later, between', rfl,
          ends_execAll_cons_iff.2 (.inl ⟨between, hstatement, hearlier⟩), hfault⟩
      · cases heq
        exact ⟨[], statement, rest, m, rfl, ⟨0, rfl⟩, hfault⟩
  · rintro ⟨earlier, statement, later, between, rfl, hearlier, hfault⟩
    exact ends_execAll_append_iff.2
      (.inl ⟨between, hearlier, ends_execAll_cons_iff.2 (.inr ⟨fault, hfault, rfl⟩)⟩)

end Node

/-! ## Programs -/

namespace ExecM
variable {m m' : Machine} {program xs ys : List Node} {fuel : Nat}

/-- An answer is true exactly if the statements come to their end. -/
theorem interpret_eq_true_iff :
    interpret fuel program m = .ok true m' ↔ Node.execAll fuel program m = .ok () m' := by
  simp only [interpret]
  cases Node.execAll fuel program m with
  | ok a m₁ => simp
  | error stop m₁ => cases stop <;> simp

/-- An answer is false exactly if the statements end in a fault. -/
theorem interpret_eq_false_iff :
    interpret fuel program m = .ok false m' ↔ ∃ fault m₁,
      Node.execAll fuel program m = .error (.fault fault) m₁ ∧ m' = m₁.fail fault := by
  simp only [interpret]
  cases Node.execAll fuel program m with
  | ok a m₁ => simp
  | error stop m₁ =>
    cases stop with
    | fault fault =>
      refine ⟨fun h => ?_, ?_⟩
      · cases h
        exact ⟨fault, m₁, rfl, rfl⟩
      · rintro ⟨fault', m₂, heq, rfl⟩
        cases heq
        rfl
    | outOfFuel => simp

/-- No fault gets out of a program. -/
theorem interpret_ne_fault {fault : Fault} :
    interpret fuel program m ≠ .error (.fault fault) m' := by
  simp only [interpret]
  cases Node.execAll fuel program m with
  | ok a m₁ => simp
  | error stop m₁ => cases stop <;> simp

/-- A program in two parts goes on with the second part if the first came to its end. -/
theorem interpret_append (fuel : Nat) (xs ys : List Node) :
    interpret fuel (xs ++ ys) = (do
      let completed ← interpret fuel xs
      if completed then interpret fuel ys else pure false) := by
  funext m
  cases hxs : Node.execAll fuel xs m with
  | ok a between =>
    rw [bind_of_ok (interpret_eq_true_iff.2 hxs)]
    simp only [interpret, Node.execAll_append, bind_of_ok hxs, if_true]
  | error stop m₁ =>
    cases stop with
    | fault fault =>
      rw [bind_of_ok (interpret_eq_false_iff.2 ⟨fault, m₁, hxs, rfl⟩)]
      simp only [interpret, Node.execAll_append, bind_of_error hxs]
      rfl
    | outOfFuel =>
      have hout : interpret fuel xs m = .error .outOfFuel m₁ := by simp only [interpret, hxs]
      rw [bind_of_error hout]
      simp only [interpret, Node.execAll_append, bind_of_error hxs]

theorem fuelMonotone_interpret (program : List Node) :
    FuelMonotone fun fuel => interpret fuel program := by
  intro fuel more hle m
  rcases Node.fuelMonotone_execAll program fuel more hle m with ⟨m', hm⟩ | hm
  · refine .inl ⟨m', ?_⟩
    simp only at hm
    simp only [interpret, hm]
  · refine .inr ?_
    simp only at hm
    simp only [interpret, hm]

theorem exists_ok_of_ends_interpret {outcome : Except Fault Bool}
    (h : Ends (interpret · program) m outcome m') : ∃ completed, outcome = .ok completed := by
  cases outcome with
  | ok completed => exact ⟨completed, rfl⟩
  | error fault =>
    obtain ⟨fuel, hfuel⟩ := h
    exact absurd hfuel interpret_ne_fault

/-! ### A program in two parts -/

/-- After a first part that came to its end, a program does what its second part does. -/
theorem ends_interpret_append_of_true {between : Machine}
    (h : Ends (interpret · xs) m (.ok true) between) (ys : List Node)
    (outcome : Except Fault Bool) (m' : Machine) :
    Ends (interpret · (xs ++ ys)) m outcome m' ↔ Ends (interpret · ys) between outcome m' := by
  simp only [interpret_append]
  exact Ends.bind_iff (fuelMonotone_interpret xs)
    (fun completed => (fuelMonotone_interpret ys).ite completed _) h

/-- Where the first part of a program is cut short, so is the program. -/
theorem ends_interpret_append_of_false {m₁ : Machine}
    (h : Ends (interpret · xs) m (.ok false) m₁) (ys : List Node)
    (outcome : Except Fault Bool) (m' : Machine) :
    Ends (interpret · (xs ++ ys)) m outcome m' ↔ Ends (interpret · xs) m outcome m' := by
  simp only [interpret_append]
  refine (Ends.bind_iff (fuelMonotone_interpret xs)
    (fun completed => (fuelMonotone_interpret ys).ite completed _) h).trans ⟨?_, ?_⟩
  · rintro ⟨fuel, hfuel⟩
    obtain ⟨rfl, rfl⟩ := eq_of_ok_eq_endedIn hfuel
    exact h
  · intro h'
    obtain ⟨rfl, rfl⟩ := h.unique (fuelMonotone_interpret xs) h'
    exact ⟨0, rfl⟩

/-! ### Reports and the fault flag -/

/-- The answer is false exactly if a statement raised a fault: then the machine is the one that
the statement left, with the fault taken note of. -/
theorem ends_interpret_false_iff :
    Ends (interpret · program) m (.ok false) m' ↔
      ∃ fault m₁, Node.CutShort program m fault m₁ ∧ m' = m₁.fail fault := by
  constructor
  · rintro ⟨fuel, hfuel⟩
    obtain ⟨fault, m₁, hexec, rfl⟩ := interpret_eq_false_iff.1 hfuel
    exact ⟨fault, m₁, Node.ends_execAll_error_iff.1 ⟨fuel, hexec⟩, rfl⟩
  · rintro ⟨fault, m₁, hcut, rfl⟩
    obtain ⟨fuel, hexec⟩ := Node.ends_execAll_error_iff.2 hcut
    exact ⟨fuel, interpret_eq_false_iff.2 ⟨fault, m₁, hexec, rfl⟩⟩

/-- The answer is true exactly if all statements come to their ends. -/
theorem ends_interpret_true_iff :
    Ends (interpret · program) m (.ok true) m' ↔ Ends (Node.execAll · program) m (.ok ()) m' :=
  exists_congr fun _ => interpret_eq_true_iff

/-- A program that comes to its end reports nothing. -/
theorem err_of_ends_interpret_true (h : Ends (interpret · program) m (.ok true) m') :
    m'.console.err = m.console.err :=
  ((ends_interpret_true_iff.1 h).leads fun fuel => Node.leads_execAll fuel program).err_eq

/-- A program that is cut short reports the fault and nothing else. -/
theorem err_fail_of_cutShort {fault : Fault} {m₁ : Machine}
    (h : Node.CutShort program m fault m₁) :
    (m₁.fail fault).console.err = m.console.err.push fault.report := by
  have hkeeps : m.Keeps m₁ :=
    (Node.ends_execAll_error_iff.2 h).leads fun fuel => Node.leads_execAll fuel program
  exact congrArg (·.push fault.report) hkeeps.err_eq

/-- The fault flag is up after a program if it was so before or if the program was cut short. -/
theorem failed_of_interpret {completed : Bool} (h : interpret fuel program m = .ok completed m') :
    m'.failed = true ↔ m.failed = true ∨ completed = false := by
  cases completed with
  | true =>
    have hkeeps := Node.leads_execAll fuel program m
    rw [interpret_eq_true_iff.1 h] at hkeeps
    simp only [finalState_ok] at hkeeps
    simp [hkeeps.failed_eq]
  | false =>
    obtain ⟨fault, m₁, -, rfl⟩ := interpret_eq_false_iff.1 h
    exact iff_of_true rfl (.inr rfl)

/-- The fault flag is up after a sequence of programs if it was so before or if one of them was
cut short. -/
theorem failed_of_mapM_interpret {programs : List (List Node)} {answers : List Bool}
    (h : programs.mapM (interpret fuel) m = .ok answers m') :
    m'.failed = true ↔ m.failed = true ∨ false ∈ answers := by
  induction programs generalizing m answers with
  | nil =>
    cases h
    simp
  | cons program rest ih =>
    rw [List.mapM_cons] at h
    obtain ⟨completed, m₁, hprogram, h⟩ := bind_eq_ok_iff.1 h
    obtain ⟨answers', m₂, hrest, h⟩ := bind_eq_ok_iff.1 h
    cases h
    rw [ih hrest, failed_of_interpret hprogram, List.mem_cons, or_assoc, eq_comm (a := false)]

end ExecM
end Lox

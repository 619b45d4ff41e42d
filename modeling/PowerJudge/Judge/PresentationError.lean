import PowerJudge.Judge.Accepted
import PowerJudge.Judge.NormalExit

/-!
# Presentation errors in an ACM run

`judge` returns `false` for every result but `OJ_AC`, so an ACM run stops at the
first case that is not accepted, a presentation error included.
-/

namespace PowerJudge

variable {sol : OjSolution}

/-- Two splits of a list at its first element without `P` are the same. -/
theorem firstSplit_unique {α : Type*} {P : α → Prop} {before before' later later' : List α}
    {a a' : α} (hbefore : ∀ x ∈ before, P x) (hbefore' : ∀ x ∈ before', P x)
    (ha : ¬P a) (ha' : ¬P a') (h : before ++ a :: later = before' ++ a' :: later') :
    a = a' ∧ later = later' := by
  induction before generalizing before' with
  | nil =>
      cases before' with
      | nil => simpa using h
      | cons x before' =>
          have hax : a = x := by simpa using congrArg List.head? h
          exact (ha (hax ▸ hbefore' x List.mem_cons_self)).elim
  | cons y before ih =>
      cases before' with
      | nil =>
          have hya : y = a' := by simpa using congrArg List.head? h
          exact (ha' (hya ▸ hbefore y List.mem_cons_self)).elim
      | cons x before' =>
          have htail := (List.cons.inj h).2
          refine ih ?_ ?_ htail
          · exact fun z hz => hbefore z (List.mem_cons_of_mem _ hz)
          · exact fun z hz => hbefore' z (List.mem_cons_of_mem _ hz)

/-! ## Where the run stops -/

/-- An ACM run that stops at the case `c` with outcome `outcome`. -/
structure StopsAt (sol : OjSolution) (cases : List TestCase) (p : Progress)
    (before : List TestCase) (c : TestCase) (later : List TestCase)
    (outcome : OjResult) (result : OjResult) : Prop where
  split : cases = before ++ c :: later
  accepted : ∀ b ∈ before, compareCase sol b = .returned .ac
  compared : compareCase sol c = .returned outcome
  notAccepted : outcome ≠ .ac
  judged : ∃ j, (trace sol cases p).getLast? = some j ∧ j.case = c
  length : (trace sol cases p).length = before.length + 1
  result_of_ne_wa : outcome ≠ .wa → result = outcome
  result_of_wa : outcome = .wa →
    result ∈ [OjResult.wa, .re, .mle] ∧ (result = .wa ↔ ¬Reclassified sol c)

theorem CaseEffect.clean {c : TestCase} {p p' : Progress}
    (h : CaseEffect sol c .ac p p') (hp : p.result = .ac) : Clean sol p' where
  result := by
    rw [h.result_of_ne_wa (by decide), hp]
    rfl
  time_le := h.time_le
  memory_le := h.memory_le_iff.mpr (by simp)

/-- The run stops where it stops after its first case, if that is accepted. -/
theorem StopsAt.cons {cases before later : List TestCase} {c b : TestCase}
    {p p' : Progress} {outcome result : OjResult}
    (h : StopsAt sol cases p' before b later outcome result)
    (hcompare : compareCase sol c = .returned .ac)
    (htrace : trace sol (c :: cases) p = ⟨c, p, p'⟩ :: trace sol cases p') :
    StopsAt sol (c :: cases) p (c :: before) b later outcome result where
  split := by rw [h.split]; rfl
  accepted := by
    intro a ha
    rcases List.mem_cons.mp ha with rfl | ha
    · exact hcompare
    · exact h.accepted a ha
  compared := h.compared
  notAccepted := h.notAccepted
  judged := by
    obtain ⟨j, hlast, hcase⟩ := h.judged
    exact ⟨j, by rw [htrace, List.getLast?_cons, hlast]; rfl, hcase⟩
  length := by rw [htrace, List.length_cons, h.length]; rfl
  result_of_ne_wa := h.result_of_ne_wa
  result_of_wa := h.result_of_wa

/-- A case that is not accepted leaves another result than `OJ_AC`. -/
theorem CaseEffect.result_ne_ac {c : TestCase} {outcome : OjResult} {p p' : Progress}
    (h : CaseEffect sol c outcome p p') (hp : p.result = .ac) (hac : outcome ≠ .ac) :
    p'.result ≠ .ac := by
  by_cases hwa : outcome = .wa
  · subst hwa
    exact h.result_ne_ac_of_wa
  · rw [h.result_of_ne_wa hwa, hp, mergeResult_ac]
    exact hac

/-- A run whose first case is not accepted stops there. -/
theorem CaseEffect.stopsAt {cases : List TestCase} {c : TestCase} {p p' : Progress}
    {outcome : OjResult} (h : CaseEffect sol c outcome p p') (hp : p.result = .ac)
    (hcompare : compareCase sol c = .returned outcome) (hac : outcome ≠ .ac)
    (htrace : trace sol (c :: cases) p = [⟨c, p, p'⟩]) :
    StopsAt sol (c :: cases) p [] c cases outcome p'.result where
  split := rfl
  accepted := by simp
  compared := hcompare
  notAccepted := hac
  judged := ⟨⟨c, p, p'⟩, by rw [htrace]; rfl, rfl⟩
  length := by rw [htrace]; rfl
  result_of_ne_wa := by
    intro hwa
    rw [h.result_of_ne_wa hwa, hp, mergeResult_ac]
  result_of_wa := fun hwa => ⟨h.result_of_wa hwa, h.wa_iff hwa⟩

/-- A run over cases with normal exits accepts all of them, or stops at the
first one whose outcome is not `OJ_AC`. -/
theorem runCases_stops (hacm : sol.judgeType = acm) {cases : List TestCase}
    {i f : ℕ} {p : Progress} {ended : Progress × ℕ}
    (houtcomes : ∀ c ∈ cases, ∃ outcome, compareCase sol c = .returned outcome)
    (hexits : ∀ j ∈ trace sol cases p, j.ExitsNormally sol) (hclean : Clean sol p)
    (h : runCases sol cases i f p = .returned ended) :
    ((∀ c ∈ cases, compareCase sol c = .returned .ac) ∧ ended.1.result = .ac ∧
      (trace sol cases p).length = cases.length) ∨
    ∃ before c later outcome, StopsAt sol cases p before c later outcome ended.1.result := by
  induction cases generalizing i f p with
  | nil =>
      cases h
      exact Or.inl ⟨by simp, hclean.result, rfl⟩
  | cons c cases ih =>
      obtain ⟨p', ok, hjudge⟩ := runCases_cons_eq_returned h
      obtain ⟨outcome, hcompare⟩ := houtcomes c List.mem_cons_self
      have htrace := trace_cons_of_returned hjudge cases
      have hhead : CaseRun.ExitsNormally sol ⟨c, p, p'⟩ := hexits _ (by rw [htrace]; simp)
      have heffect := hhead.effect hclean.time_le hclean.memory_le hcompare hjudge
      have hflag := judge_flag hjudge
      rw [runCases_cons_of_returned hjudge] at h
      by_cases hac : outcome = .ac
      · subst hac
        have hclean' := heffect.clean hclean.result
        have hok : ok = true := hflag.mpr hclean'.result
        rw [if_pos (Or.inl hok)] at h htrace
        have hexits' : ∀ j ∈ trace sol cases p', j.ExitsNormally sol := by
          intro j hj
          apply hexits
          rw [htrace]
          exact List.mem_cons_of_mem _ hj
        have houtcomes' := fun b hb => houtcomes b (List.mem_cons_of_mem _ hb)
        rcases ih houtcomes' hexits' hclean' h with
          ⟨hall, hresult, hlength⟩ | ⟨before, b, later, outcome, hstops⟩
        · refine Or.inl ⟨?_, hresult, by rw [htrace, List.length_cons, hlength]; rfl⟩
          intro b hb
          rcases List.mem_cons.mp hb with rfl | hb
          · exact hcompare
          · exact hall b hb
        · exact Or.inr ⟨c :: before, b, later, outcome, hstops.cons hcompare htrace⟩
      · have hne : p'.result ≠ .ac := heffect.result_ne_ac hclean.result hac
        have hok : ok ≠ true := fun hok => hne (hflag.mp hok)
        have hstop : ¬(ok = true ∨ sol.judgeType ≠ acm) := by simp [hok, hacm]
        rw [if_neg hstop] at h htrace
        cases h
        exact Or.inr ⟨[], c, cases, outcome,
          heffect.stopsAt hclean.result hcompare hac htrace⟩

/-! ## What a presentation error hides -/

/-- What the trace and the record of an ACM run should say about the outcomes of
its cases. -/
structure PeHidesNothing (sol : OjSolution) (cases : List TestCase) (record : Record) :
    Prop where
  stops : ∀ j, (trace sol cases .start).getLast? = some j →
    (trace sol cases .start).length < cases.length →
    compareCase sol j.case ≠ .returned .ac ∧ compareCase sol j.case ≠ .returned .pe
  pe : record.result = .pe →
    (∀ c ∈ cases, compareCase sol c = .returned .ac ∨ compareCase sol c = .returned .pe) ∧
      ∃ c ∈ cases, compareCase sol c = .returned .pe
  wa : (∃ c ∈ cases, compareCase sol c = .returned .wa) → record.result = .wa

/-- A run that accepts all cases has nothing to hide. -/
theorem peHidesNothing_of_accepted {cases : List TestCase} {record : Record}
    (hall : ∀ c ∈ cases, compareCase sol c = .returned .ac) (hresult : record.result = .ac)
    (hlength : (trace sol cases .start).length = cases.length) :
    PeHidesNothing sol cases record where
  stops := fun j _ hlt => by omega
  pe := fun hpe => by simp [hresult] at hpe
  wa := by
    rintro ⟨c, hc, hwa⟩
    rw [hall c hc] at hwa
    cases hwa

/-- A presentation error hides the cases after it. -/
theorem StopsAt.peHidesNothing_iff_of_pe {cases before later : List TestCase}
    {c : TestCase} {record : Record}
    (h : StopsAt sol cases .start before c later .pe record.result) :
    PeHidesNothing sol cases record ↔ later = [] := by
  obtain ⟨j, hlast, hcase⟩ := h.judged
  have hcount : cases.length = before.length + 1 + later.length := by
    rw [h.split, List.length_append, List.length_cons]
    omega
  constructor
  · intro hhides
    by_contra hlater
    have hpos := List.length_pos_iff.mpr hlater
    have hlt : (trace sol cases .start).length < cases.length := by
      rw [h.length]
      omega
    have hne := (hhides.stops j hlast hlt).2
    rw [hcase] at hne
    exact hne h.compared
  · rintro rfl
    have hclasses : ∀ b ∈ cases,
        compareCase sol b = .returned .ac ∨ compareCase sol b = .returned .pe := by
      intro b hb
      rw [h.split] at hb
      rcases List.mem_append.mp hb with hb | hb
      · exact Or.inl (h.accepted b hb)
      · obtain rfl := List.mem_singleton.mp hb
        exact Or.inr h.compared
    refine ⟨?_, fun _ => ⟨hclasses, c, by rw [h.split]; simp, h.compared⟩, ?_⟩
    · intro j' _ hlt
      rw [h.length, hcount] at hlt
      simp at hlt
    · rintro ⟨b, hb, hwa⟩
      rcases hclasses b hb with hb | hb <;> rw [hb] at hwa <;> cases hwa

/-- A wrong answer hides nothing unless it is reported as another class. -/
theorem StopsAt.peHidesNothing_iff_of_wa {cases before later : List TestCase}
    {c : TestCase} {record : Record}
    (h : StopsAt sol cases .start before c later .wa record.result) :
    PeHidesNothing sol cases record ↔ ¬Reclassified sol c := by
  obtain ⟨j, hlast, hcase⟩ := h.judged
  obtain ⟨hmemResult, hiff⟩ := h.result_of_wa rfl
  constructor
  · intro hhides
    exact hiff.mp (hhides.wa ⟨c, by rw [h.split]; simp, h.compared⟩)
  · intro hclass
    refine ⟨?_, ?_, fun _ => hiff.mpr hclass⟩
    · intro j' hlast' _
      obtain rfl : j = j' := by
        rw [hlast] at hlast'
        exact Option.some.inj hlast'
      rw [hcase, h.compared]
      exact ⟨by decide, by decide⟩
    · intro hpe
      simp [hpe] at hmemResult

/-- What is hidden depends on the case at which the run stops only. -/
theorem StopsAt.peHidesNothing_iff {cases before later : List TestCase} {c : TestCase}
    {outcome : OjResult} {record : Record}
    (h : StopsAt sol cases .start before c later outcome record.result)
    (houtcome : outcome = .pe ∨ outcome = .wa) :
    PeHidesNothing sol cases record ↔
      (outcome = .pe → later = []) ∧ (outcome = .wa → ¬Reclassified sol c) := by
  rcases houtcome with rfl | rfl
  · rw [h.peHidesNothing_iff_of_pe]
    simp
  · rw [h.peHidesNothing_iff_of_wa]
    simp

/-- In an ACM run over cases with normal exits a presentation error hides no
worse case exactly when the first case whose outcome is not `OJ_AC` is no
presentation error, unless it is the last case, and no wrong answer that is
reported as another class. -/
theorem pe_hides_nothing_iff (sol : OjSolution) (hacm : sol.judgeType = acm)
    (cases : List TestCase) (record : Record)
    (houtcomes : ∀ c ∈ cases, compareCase sol c = .returned .ac ∨
      compareCase sol c = .returned .pe ∨ compareCase sol c = .returned .wa)
    (hexits : ∀ j ∈ trace sol cases .start, j.ExitsNormally sol)
    (hrun : runSolution sol cases = .returned record) :
    PeHidesNothing sol cases record ↔
      ∀ before c later, cases = before ++ c :: later →
        (∀ b ∈ before, compareCase sol b = .returned .ac) →
        (compareCase sol c = .returned .pe → later = []) ∧
        (compareCase sol c = .returned .wa → ¬Reclassified sol c) := by
  obtain ⟨ended, hloop, hresult, -⟩ := runSolution_eq_returned hrun
  have hcompared : ∀ c ∈ cases, ∃ outcome, compareCase sol c = .returned outcome := by
    intro c hc
    rcases houtcomes c hc with h | h | h
    · exact ⟨_, h⟩
    · exact ⟨_, h⟩
    · exact ⟨_, h⟩
  have hstops := runCases_stops hacm hcompared hexits clean_start hloop
  rw [← hresult] at hstops
  rcases hstops with ⟨hall, hac, hlength⟩ | ⟨before, c, later, outcome, hstop⟩
  · refine iff_of_true (peHidesNothing_of_accepted hall hac hlength) ?_
    rintro before c later rfl -
    rw [hall c (by simp)]
    exact ⟨by simp, by simp⟩
  · have hmem : c ∈ cases := by
      rw [hstop.split]
      simp
    have houtcome : outcome = .pe ∨ outcome = .wa := by
      have hc := houtcomes c hmem
      have hne := hstop.notAccepted
      rw [hstop.compared] at hc
      simpa [hne] using hc
    have hnotAc : compareCase sol c ≠ .returned .ac := by
      rw [hstop.compared]
      simpa using hstop.notAccepted
    rw [hstop.peHidesNothing_iff houtcome]
    constructor
    · rintro ⟨hlater, hclass⟩ before' c' later' hsplit hbefore'
      by_cases hc' : compareCase sol c' = .returned .ac
      · rw [hc']
        exact ⟨by simp, by simp⟩
      · obtain ⟨rfl, rfl⟩ := firstSplit_unique hstop.accepted hbefore' hnotAc hc'
          (hstop.split.symm.trans hsplit)
        rw [hstop.compared]
        exact ⟨fun h => hlater (Outcome.returned.inj h),
          fun h => hclass (Outcome.returned.inj h)⟩
    · intro hcond
      have hhere := hcond before c later hstop.split hstop.accepted
      rw [hstop.compared] at hhere
      exact ⟨fun h => hhere.1 (by rw [h]), fun h => hhere.2 (by rw [h])⟩

/-- A run over an accepted case and a wrong one. -/
theorem pe_hides_nothing_iff_ac_wa :
    PeHidesNothing (.init .c11) [.quiet [49] [49], .quiet [49] [50]] ⟨.wa, 0, 0, 2⟩ := by
  have hac : compareCase (.init .c11) (.quiet [49] [49]) = .returned .ac := by
    decide +kernel
  have hwa : compareCase (.init .c11) (.quiet [49] [50]) = .returned .wa := by
    decide +kernel
  refine (pe_hides_nothing_iff (.init .c11) rfl [.quiet [49] [49], .quiet [49] [50]]
    ⟨.wa, 0, 0, 2⟩ ?_ ?_ ?_).mpr ?_
  · intro c hc
    simp only [List.mem_cons, List.not_mem_nil, or_false] at hc
    rcases hc with rfl | rfl
    · exact Or.inl hac
    · exact Or.inr (Or.inr hwa)
  · exact exitsNormally_of_mem_trace_quiet [([49], [49]), ([49], [50])]
  · decide +kernel
  · intro before c later hsplit _
    have hc : c ∈ [TestCase.quiet [49] [49], .quiet [49] [50]] := by
      rw [hsplit]
      simp
    simp only [List.mem_cons, List.not_mem_nil, or_false] at hc
    rcases hc with rfl | rfl
    · rw [hac]
      exact ⟨by simp, by simp⟩
    · rw [hwa]
      refine ⟨by simp, fun _ => ?_⟩
      simp [Reclassified, OjSolution.init, Lang.isPython]

/-- A presentation error followed by a wrong answer is reported as a presentation
error. -/
theorem wrong_case_hidden :
    compareCase (.init .c11) (.quiet [49, 32, 49] [49, 10, 49]) = .returned .pe ∧
    compareCase (.init .c11) (.quiet [49] [50]) = .returned .wa ∧
    (∀ j ∈ trace (.init .c11) [.quiet [49, 32, 49] [49, 10, 49], .quiet [49] [50]] .start,
      j.ExitsNormally (.init .c11)) ∧
    runSolution (.init .c11) [.quiet [49, 32, 49] [49, 10, 49], .quiet [49] [50]] =
      .returned ⟨.pe, 0, 0, 1⟩ ∧
    ¬PeHidesNothing (.init .c11) [.quiet [49, 32, 49] [49, 10, 49], .quiet [49] [50]]
      ⟨.pe, 0, 0, 1⟩ := by
  have hwa : compareCase (.init .c11) (.quiet [49] [50]) = .returned .wa := by
    decide +kernel
  refine ⟨by decide +kernel, hwa, ?_, by decide +kernel, ?_⟩
  · exact exitsNormally_of_mem_trace_quiet [([49, 32, 49], [49, 10, 49]), ([49], [50])]
  · intro hhides
    exact absurd (hhides.wa ⟨_, by simp, hwa⟩) (by decide)

end PowerJudge

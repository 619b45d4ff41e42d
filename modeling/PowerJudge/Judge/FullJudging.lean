import Mathlib.Data.List.Induction
import PowerJudge.Judge.NormalExit

/-!
# Judging all cases

With a judge type other than ACM every case is judged, and the verdict is the
fold of `mergeResult` over the outcomes, up to the classes that replace a wrong
answer.  The fold does not keep a failure: a later `OJ_AC` replaces anything but
a presentation error.
-/

namespace PowerJudge

variable {sol : OjSolution}

/-! ## The fold of the merge -/

/-- Some case is a presentation error and no later one is a wrong answer. -/
def PeWithoutLaterWa (outcomes : List OjResult) : Prop :=
  ∃ before later, outcomes = before ++ .pe :: later ∧ OjResult.wa ∉ later

theorem peWithoutLaterWa_concat {outcomes : List OjResult} {outcome : OjResult} :
    PeWithoutLaterWa (outcomes ++ [outcome]) ↔
      outcome = .pe ∨ (outcome ≠ .wa ∧ PeWithoutLaterWa outcomes) := by
  constructor
  · rintro ⟨before, later, hsplit, hwa⟩
    rcases List.eq_nil_or_concat later with rfl | ⟨init, last, rfl⟩
    · have hlast := List.append_inj_right' hsplit rfl
      exact Or.inl (by simpa using hlast)
    · rw [List.concat_eq_append, ← List.cons_append, ← List.append_assoc] at hsplit
      have hinit := List.append_inj_left' hsplit rfl
      have hlast := List.append_inj_right' hsplit rfl
      obtain rfl : outcome = last := by simpa using hlast
      refine Or.inr ⟨?_, before, init, hinit, ?_⟩
      · rintro rfl
        exact hwa (by simp)
      · intro hmem
        exact hwa (by simp [hmem])
  · rintro (rfl | ⟨hne, before, later, rfl, hwa⟩)
    · exact ⟨outcomes, [], rfl, by simp⟩
    · refine ⟨before, later ++ [outcome], by simp, ?_⟩
      intro hmem
      rcases List.mem_append.mp hmem with hmem | hmem
      · exact hwa hmem
      · exact hne (List.mem_singleton.mp hmem).symm

theorem mergeResult_eq_pe_iff {previous outcome : OjResult} :
    mergeResult previous outcome = .pe ↔
      outcome = .pe ∨ (outcome ≠ .wa ∧ previous = .pe) := by
  unfold mergeResult
  split_ifs with hwa hpe
  · simp [hwa]
  · simp [hpe]
  · have hprevious : previous = .pe := by simpa using hpe
    simp [hwa, hprevious]

theorem mergeResult_eq_ac_iff {previous outcome : OjResult} :
    mergeResult previous outcome = .ac ↔ outcome = .ac ∧ previous ≠ .pe := by
  unfold mergeResult
  split_ifs with hwa hpe
  · simp [hwa]
  · simp [hpe]
  · simp [hpe]

theorem foldl_mergeResult_eq_pe_iff (outcomes : List OjResult) :
    outcomes.foldl mergeResult .ac = .pe ↔ PeWithoutLaterWa outcomes := by
  induction outcomes using List.reverseRecOn with
  | nil => simp [PeWithoutLaterWa]
  | append_singleton outcomes outcome ih =>
      rw [List.foldl_append, List.foldl_cons, List.foldl_nil, mergeResult_eq_pe_iff, ih,
        peWithoutLaterWa_concat]

/-- The fold ends in `OJ_AC` when the last outcome is `OJ_AC` and no presentation
error is left standing. -/
theorem foldl_mergeResult_eq_ac_iff (outcomes : List OjResult) :
    outcomes.foldl mergeResult .ac = .ac ↔
      (∀ outcome, outcomes.getLast? = some outcome → outcome = .ac) ∧
        ¬PeWithoutLaterWa outcomes := by
  induction outcomes using List.reverseRecOn with
  | nil => simp [PeWithoutLaterWa]
  | append_singleton outcomes outcome _ =>
      rw [List.foldl_append, List.foldl_cons, List.foldl_nil, mergeResult_eq_ac_iff,
        peWithoutLaterWa_concat, ← foldl_mergeResult_eq_pe_iff, List.getLast?_concat]
      constructor
      · rintro ⟨rfl, hpe⟩
        refine ⟨by simp, ?_⟩
        rintro (hac | ⟨-, hpe'⟩)
        · cases hac
        · exact hpe hpe'
      · rintro ⟨hlast, hpe⟩
        have hac : outcome = .ac := hlast outcome rfl
        refine ⟨hac, ?_⟩
        intro hpe'
        exact hpe (Or.inr ⟨by rw [hac]; decide, hpe'⟩)

/-! ## Agreement of the verdict with the fold -/

/-- The verdict is that of the fold, or a class that replaces its wrong answer. -/
def Agrees (result merged : OjResult) : Prop :=
  result = merged ∨ (merged = .wa ∧ (result = .re ∨ result = .mle))

theorem Agrees.eq_ac_iff {result merged : OjResult} (h : Agrees result merged) :
    result = .ac ↔ merged = .ac := by
  rcases h with rfl | ⟨rfl, rfl | rfl⟩
  · exact Iff.rfl
  · simp
  · simp

theorem Agrees.mergeResult_eq {result merged outcome : OjResult}
    (h : Agrees result merged) : mergeResult result outcome = mergeResult merged outcome := by
  rcases h with rfl | ⟨rfl, rfl | rfl⟩
  · rfl
  · simp [mergeResult]
  · simp [mergeResult]

theorem CaseEffect.agrees {c : TestCase} {outcome merged : OjResult} {p p' : Progress}
    (h : CaseEffect sol c outcome p p') (hp : Agrees p.result merged) :
    Agrees p'.result (mergeResult merged outcome) := by
  by_cases hwa : outcome = .wa
  · have hmerged : mergeResult merged outcome = .wa := mergeResult_eq_wa_iff.mpr hwa
    have hresult := h.result_of_wa hwa
    simp only [List.mem_cons, List.not_mem_nil, or_false] at hresult
    rcases hresult with hresult | hresult | hresult
    · exact Or.inl (hresult.trans hmerged.symm)
    · exact Or.inr ⟨hmerged, Or.inl hresult⟩
    · exact Or.inr ⟨hmerged, Or.inr hresult⟩
  · exact Or.inl ((h.result_of_ne_wa hwa).trans hp.mergeResult_eq)

/-! ## Above the memory limit -/

theorem classify_memoryUsage_of_ne_wa {c : TestCase} {p : Progress} (hp : p.result ≠ .wa) :
    (classify sol c p).memoryUsage = p.memoryUsage := by
  rw [classify, if_neg hp]
  split
  · rfl
  · rfl

theorem settle_above_memory {c : TestCase} {last : Report} {p : Progress}
    (hover : sol.memoryLimit < max p.memoryUsage last.rusage.maxrss) :
    sol.memoryLimit < (settle sol c last p).1.memoryUsage ∧
      (settle sol c last p).1.result ≠ .ac := by
  have hresult : (checkLimits sol last p).result = .tle ∨
      (checkLimits sol last p).result = .mle := by
    rw [checkLimits_result, if_pos hover]
    split
    · exact Or.inl rfl
    · exact Or.inr rfl
  have hwa : (checkLimits sol last p).result ≠ .wa := by
    rcases hresult with h | h <;> rw [h] <;> decide
  have hac : (checkLimits sol last p).result ≠ .ac := by
    rcases hresult with h | h <;> rw [h] <;> decide
  simp only [settle, if_pos hac]
  refine ⟨?_, classify_result_ne_ac hac⟩
  rw [classify_memoryUsage_of_ne_wa hwa, checkLimits_memoryUsage]
  exact hover

/-- The memory usage never gets back below the limit. -/
theorem judge_above_memory {c : TestCase} {p p' : Progress} {ok : Bool}
    (hp : sol.memoryLimit < p.memoryUsage)
    (h : judge sol c p = .returned (p', ok)) :
    sol.memoryLimit < p'.memoryUsage ∧ p'.result ≠ .ac := by
  obtain ⟨passed, last, q, hends, hsettle⟩ := judge_eq_returned h
  obtain ⟨mid, hpasses, hleaves⟩ := hends.leaves
  have hmid : p.memoryUsage ≤ mid.memoryUsage := hpasses.memory_mono
  have hq : mid.memoryUsage ≤ q.memoryUsage := hleaves.memory_mono
  have hover : sol.memoryLimit < max q.memoryUsage last.rusage.maxrss := by omega
  have habove := settle_above_memory (c := c) hover
  rwa [hsettle] at habove

theorem runCases_above_memory {cases : List TestCase} {i f : ℕ} {p : Progress}
    {ended : Progress × ℕ} (hp : sol.memoryLimit < p.memoryUsage)
    (hne : p.result ≠ .ac) (h : runCases sol cases i f p = .returned ended) :
    ended.1.result ≠ .ac := by
  have habove : sol.memoryLimit < ended.1.memoryUsage ∧ ended.1.result ≠ .ac :=
    @runCases_invariant sol (fun q => sol.memoryLimit < q.memoryUsage ∧ q.result ≠ .ac)
      (fun hq hjudge => judge_above_memory hq.1 hjudge) _ _ _ _ _ ⟨hp, hne⟩ h
  exact habove.2

/-! ## The run -/

/-- The outcomes of the comparisons, case by case. -/
def HasOutcomes (sol : OjSolution) : List TestCase → List OjResult → Prop :=
  List.Forall₂ fun c outcome => compareCase sol c = .returned outcome

/-- A case whose wrong answer leaves the memory usage above the limit. -/
def WaExhausts (sol : OjSolution) (c : TestCase) : Prop :=
  compareCase sol c = .returned .wa ∧ Exhausts sol c

/-- The first case of a run that judges all cases, and the rest of the run. -/
theorem runCases_cons_effect (hmode : sol.judgeType ≠ acm) {c : TestCase} {cases : List TestCase}
    {outcome : OjResult} {i f : ℕ} {p : Progress} {ended : Progress × ℕ}
    (hcompare : compareCase sol c = .returned outcome)
    (hexits : ∀ j ∈ trace sol (c :: cases) p, j.ExitsNormally sol)
    (htime : p.timeUsage ≤ sol.timeLimit) (hmemory : p.memoryUsage ≤ sol.memoryLimit)
    (h : runCases sol (c :: cases) i f p = .returned ended) :
    ∃ p', CaseEffect sol c outcome p p' ∧ (∀ j ∈ trace sol cases p', j.ExitsNormally sol) ∧
      runCases sol cases (i + 1) (noteFailure f i p'.result) p' = .returned ended := by
  obtain ⟨p', ok, hjudge⟩ := runCases_cons_eq_returned h
  rw [trace_cons_of_returned hjudge, if_pos (Or.inr hmode)] at hexits
  rw [runCases_cons_of_returned hjudge, if_pos (Or.inr hmode)] at h
  have heffect := (hexits _ List.mem_cons_self).effect htime hmemory hcompare hjudge
  exact ⟨p', heffect, fun j hj => hexits j (List.mem_cons_of_mem _ hj), h⟩

/-- While no wrong answer exhausts the memory the verdict is that of the fold;
after one the run is not accepted any more. -/
theorem runCases_agrees (hmode : sol.judgeType ≠ acm) {cases : List TestCase}
    {outcomes : List OjResult} {i f : ℕ} {p : Progress} {ended : Progress × ℕ}
    {merged : OjResult} (houtcomes : HasOutcomes sol cases outcomes)
    (hexits : ∀ j ∈ trace sol cases p, j.ExitsNormally sol)
    (htime : p.timeUsage ≤ sol.timeLimit) (hmemory : p.memoryUsage ≤ sol.memoryLimit)
    (hagrees : Agrees p.result merged)
    (h : runCases sol cases i f p = .returned ended) :
    ((∃ c ∈ cases, WaExhausts sol c) ∧ ended.1.result ≠ .ac) ∨
      ((¬∃ c ∈ cases, WaExhausts sol c) ∧
        Agrees ended.1.result (outcomes.foldl mergeResult merged)) := by
  induction houtcomes generalizing i f p merged with
  | nil =>
      cases h
      exact Or.inr ⟨by simp, hagrees⟩
  | @cons c outcome cases outcomes hcompare _ ih =>
      obtain ⟨p', heffect, hexits', h⟩ :=
        runCases_cons_effect hmode hcompare hexits htime hmemory h
      by_cases hover : outcome = .wa ∧ Exhausts sol c
      · obtain ⟨rfl, hexhausts⟩ := hover
        have hp' : ¬p'.memoryUsage ≤ sol.memoryLimit :=
          fun hle => heffect.memory_le_iff.mp hle ⟨rfl, hexhausts⟩
        refine Or.inl ⟨⟨c, List.mem_cons_self, hcompare, hexhausts⟩, ?_⟩
        exact runCases_above_memory (Nat.lt_of_not_le hp') heffect.result_ne_ac_of_wa h
      · have hhead : ¬WaExhausts sol c := by
          rintro ⟨hwa, hexhausts⟩
          rw [hcompare] at hwa
          exact hover ⟨Outcome.returned.inj hwa, hexhausts⟩
        have hrest := ih hexits' heffect.time_le (heffect.memory_le_iff.mpr hover)
          (heffect.agrees hagrees) h
        simpa [hhead] using hrest

theorem runCases_firstFailed {cases : List TestCase} {i f : ℕ} {p : Progress}
    {ended : Progress × ℕ} (hf : f ≠ 0)
    (h : runCases sol cases i f p = .returned ended) : ended.2 = f := by
  induction cases generalizing i p with
  | nil =>
      cases h
      rfl
  | cons c cases ih =>
      obtain ⟨p', ok, hjudge⟩ := runCases_cons_eq_returned h
      have hnote : noteFailure f i p'.result = f := by simp [noteFailure, hf]
      rw [runCases_cons_of_returned hjudge, hnote] at h
      split at h
      · exact ih h
      · cases h
        rfl

/-- `test` numbers the first case whose outcome is not `OJ_AC`. -/
def IsFirstFailure (outcomes : List OjResult) (test : ℕ) : Prop :=
  ∃ before outcome later, outcomes = before ++ outcome :: later ∧
    (∀ o ∈ before, o = .ac) ∧ outcome ≠ .ac ∧ test = before.length + 1

theorem runCases_test (hmode : sol.judgeType ≠ acm) {cases : List TestCase}
    {outcomes : List OjResult} {i : ℕ} {p : Progress} {ended : Progress × ℕ}
    (houtcomes : HasOutcomes sol cases outcomes)
    (hexits : ∀ j ∈ trace sol cases p, j.ExitsNormally sol)
    (htime : p.timeUsage ≤ sol.timeLimit) (hmemory : p.memoryUsage ≤ sol.memoryLimit)
    (hac : p.result = .ac) (h : runCases sol cases i 0 p = .returned ended) :
    ((∀ o ∈ outcomes, o = .ac) ∧ ended.2 = 0) ∨
      ∃ test, IsFirstFailure outcomes test ∧ ended.2 = i + test := by
  induction houtcomes generalizing i p with
  | nil =>
      cases h
      exact Or.inl ⟨by simp, rfl⟩
  | @cons c outcome cases outcomes hcompare _ ih =>
      obtain ⟨p', heffect, hexits', h⟩ :=
        runCases_cons_effect hmode hcompare hexits htime hmemory h
      have hagrees := heffect.agrees (Or.inl hac)
      have hresult : p'.result = .ac ↔ outcome = .ac := by
        rw [hagrees.eq_ac_iff, mergeResult_eq_ac_iff]
        simp
      by_cases houtcome : outcome = .ac
      · subst houtcome
        have hac' : p'.result = .ac := hresult.mpr rfl
        have hnote : noteFailure 0 i p'.result = 0 := by simp [noteFailure, hac']
        have hmemory' : p'.memoryUsage ≤ sol.memoryLimit :=
          heffect.memory_le_iff.mpr (by simp)
        rw [hnote] at h
        rcases ih hexits' heffect.time_le hmemory' hac' h with
          ⟨hall, ht⟩ | ⟨test, ⟨before, o, later, rfl, hall, ho, rfl⟩, ht⟩
        · exact Or.inl ⟨by simpa using hall, ht⟩
        · refine Or.inr ⟨before.length + 2, ⟨.ac :: before, o, later, rfl, ?_, ho, rfl⟩, ?_⟩
          · simpa using hall
          · omega
      · have hne : p'.result ≠ .ac := fun hac' => houtcome (hresult.mp hac')
        have hnote : noteFailure 0 i p'.result = i + 1 := by simp [noteFailure, hne]
        rw [hnote] at h
        have ht := runCases_firstFailed (Nat.succ_ne_zero i) h
        exact Or.inr ⟨1, ⟨[], outcome, outcomes, rfl, by simp, houtcome, rfl⟩, ht⟩

theorem IsFirstFailure.not_all {outcomes : List OjResult} {test : ℕ}
    (h : IsFirstFailure outcomes test) : ¬∀ o ∈ outcomes, o = .ac := by
  obtain ⟨before, outcome, later, rfl, -, hne, -⟩ := h
  intro hall
  exact hne (hall outcome (by simp))

/-! ## Stickiness -/

/-- What the record of a run over all cases should say about their outcomes. -/
structure FailureSticky (outcomes : List OjResult) (record : Record) : Prop where
  result_iff : record.result = .ac ↔ ∀ o ∈ outcomes, o = .ac
  test_iff : record.test = 0 ↔ record.result = .ac
  firstFailure : record.result ≠ .ac → IsFirstFailure outcomes record.test

theorem HasOutcomes.exists_outcome {cases : List TestCase} {outcomes : List OjResult}
    (h : HasOutcomes sol cases outcomes) {c : TestCase} (hc : c ∈ cases) :
    ∃ outcome ∈ outcomes, compareCase sol c = .returned outcome := by
  induction h with
  | nil => simp at hc
  | @cons c' outcome cases outcomes hcompare _ ih =>
      rcases List.mem_cons.mp hc with rfl | hc
      · exact ⟨outcome, List.mem_cons_self, hcompare⟩
      · obtain ⟨o, ho, heq⟩ := ih hc
        exact ⟨o, List.mem_cons_of_mem _ ho, heq⟩

theorem foldl_mergeResult_of_all_ac {outcomes : List OjResult}
    (hall : ∀ o ∈ outcomes, o = .ac) : outcomes.foldl mergeResult .ac = .ac := by
  rw [foldl_mergeResult_eq_ac_iff]
  refine ⟨fun o ho => hall o (List.mem_of_getLast? ho), ?_⟩
  rintro ⟨before, later, rfl, -⟩
  exact absurd (hall .pe (by simp)) (by decide)

/-- The verdict in terms of the cases and their outcomes. -/
theorem runSolution_result_eq_ac_iff (hmode : sol.judgeType ≠ acm) {cases : List TestCase}
    {outcomes : List OjResult} {record : Record}
    (houtcomes : HasOutcomes sol cases outcomes)
    (hexits : ∀ j ∈ trace sol cases .start, j.ExitsNormally sol)
    (hrun : runSolution sol cases = .returned record) :
    record.result = .ac ↔
      ((∀ o, outcomes.getLast? = some o → o = .ac) ∧ ¬PeWithoutLaterWa outcomes) ∧
        ¬∃ c ∈ cases, WaExhausts sol c := by
  obtain ⟨ended, hloop, hresult, -⟩ := runSolution_eq_returned hrun
  have hstart : Agrees Progress.start.result .ac := Or.inl rfl
  rw [hresult, ← foldl_mergeResult_eq_ac_iff]
  rcases runCases_agrees hmode houtcomes hexits (Nat.zero_le _) (Nat.zero_le _) hstart
    hloop with ⟨hexhausts, hne⟩ | ⟨hexhausts, hagrees⟩
  · exact iff_of_false hne (fun h => h.2 hexhausts)
  · rw [hagrees.eq_ac_iff]
    exact ⟨fun h => ⟨h, hexhausts⟩, fun h => h.1⟩

/-- A run over all cases reports failures as it should exactly when all outcomes
are `OJ_AC`, or the last one is not, or a presentation error is followed by no
wrong answer, or a wrong answer exhausted Java's heap. -/
theorem failure_sticky_iff (sol : OjSolution) (hmode : sol.judgeType ≠ acm)
    (cases : List TestCase) (outcomes : List OjResult) (record : Record)
    (houtcomes : HasOutcomes sol cases outcomes)
    (hexits : ∀ j ∈ trace sol cases .start, j.ExitsNormally sol)
    (hrun : runSolution sol cases = .returned record) :
    FailureSticky outcomes record ↔
      (∀ o ∈ outcomes, o = .ac) ∨
      (∃ o, outcomes.getLast? = some o ∧ o ≠ .ac) ∨
      PeWithoutLaterWa outcomes ∨
      ∃ c ∈ cases, WaExhausts sol c := by
  obtain ⟨ended, hloop, -, -, -, htest⟩ := runSolution_eq_returned hrun
  have hverdict := runSolution_result_eq_ac_iff hmode houtcomes hexits hrun
  have hfirst := runCases_test hmode houtcomes hexits (Nat.zero_le _) (Nat.zero_le _)
    rfl hloop
  simp only [Nat.zero_add, ← htest] at hfirst
  rcases hfirst with ⟨hall, ht⟩ | ⟨test, hfailure, rfl⟩
  · -- all outcomes are `OJ_AC`, and so is the verdict
    have hac : record.result = .ac := by
      rw [hverdict, ← foldl_mergeResult_eq_ac_iff]
      refine ⟨foldl_mergeResult_of_all_ac hall, ?_⟩
      rintro ⟨c, hc, hwa, -⟩
      obtain ⟨outcome, hmem, hcompare⟩ := houtcomes.exists_outcome hc
      rw [hcompare, hall outcome hmem] at hwa
      cases hwa
    refine iff_of_true ⟨iff_of_true hac hall, iff_of_true ht hac, ?_⟩ (Or.inl hall)
    exact fun hne => (hne hac).elim
  · -- some outcome is not, so the verdict must not be either
    have hnot := hfailure.not_all
    have hsticky : FailureSticky outcomes record ↔ record.result ≠ .ac := by
      constructor
      · exact fun h hac => hnot (h.result_iff.mp hac)
      · intro hne
        have hpos : record.test ≠ 0 := by
          obtain ⟨before, -, -, -, -, -, heq⟩ := hfailure
          omega
        exact ⟨iff_of_false hne hnot, iff_of_false hpos hne, fun _ => hfailure⟩
    rw [hsticky, Ne, hverdict]
    constructor
    · intro h
      by_contra hnone
      push Not at hnone
      obtain ⟨-, hlast, hpe, hexhausts⟩ := hnone
      refine h ⟨⟨hlast, hpe⟩, ?_⟩
      rintro ⟨c, hc, hwa⟩
      exact hexhausts c hc hwa
    · rintro (hall | ⟨o, hlast, hne⟩ | hpe | hexhausts) ⟨⟨hac, hnpe⟩, hnone⟩
      · exact hnot hall
      · exact hne (hac o hlast)
      · exact hnpe hpe
      · exact hnone hexhausts

/-- A run in OI mode over an accepted and a wrong case. -/
theorem failure_sticky_iff_last_wrong :
    FailureSticky [.ac, .wa] ⟨.wa, 0, 0, 2⟩ := by
  refine (failure_sticky_iff { OjSolution.init .c11 with judgeType := oi } (by decide)
    [.quiet [49] [49], .quiet [49] [50]] [.ac, .wa] ⟨.wa, 0, 0, 2⟩ ?_ ?_ ?_).mpr ?_
  · exact .cons (by decide +kernel) (.cons (by decide +kernel) .nil)
  · exact exitsNormally_of_mem_trace_quiet [([49], [49]), ([49], [50])]
  · decide +kernel
  · exact Or.inr (Or.inl ⟨.wa, rfl, by decide⟩)

/-- A wrong case followed by an accepted one is reported as `OJ_AC`, with the
number of the wrong case. -/
theorem failure_forgotten :
    HasOutcomes { OjSolution.init .c11 with judgeType := oi }
      [.quiet [49] [50], .quiet [49] [49]] [.wa, .ac] ∧
    (∀ j ∈ trace { OjSolution.init .c11 with judgeType := oi }
      [.quiet [49] [50], .quiet [49] [49]] .start,
      j.ExitsNormally { OjSolution.init .c11 with judgeType := oi }) ∧
    runSolution { OjSolution.init .c11 with judgeType := oi }
      [.quiet [49] [50], .quiet [49] [49]] = .returned ⟨.ac, 0, 0, 1⟩ ∧
    ¬FailureSticky [.wa, .ac] ⟨.ac, 0, 0, 1⟩ := by
  refine ⟨?_, ?_, ?_, ?_⟩
  · exact .cons (by decide +kernel) (.cons (by decide +kernel) .nil)
  · exact exitsNormally_of_mem_trace_quiet [([49], [50]), ([49], [49])]
  · decide +kernel
  · intro h
    exact absurd (h.result_iff.mp rfl .wa (by simp)) (by decide)

end PowerJudge

import Mathlib.Data.List.DropRight
import PowerJudge.Judged.ReadConfig
import PowerJudge.Support.Buffer

/-!
# A line of the configuration, split in place

`split` overwrites the first `'='` of a line and trims the two parts where they
are, by `trim`.  The line and its terminator are one buffer, and a pointer is an
offset in it.  The `int` that counts the bytes before the `'='` wraps.
-/

namespace PowerJudge

/-! ## `trim` and `split` -/

/-- `trim` from the offset `str` on. -/
def trimInPlace (buffer : Bytes) (str : ℕ) : Option (ℕ × Bytes) := do
  let str ← scanForward isSpace buffer str
  let first ← buffer[str]?
  if first = 0 then
    return (str, buffer)
  else
    let length ← strlen buffer str
    let last ← scanBackward isSpace buffer str (length - 1)
    let buffer ← write buffer (last + 1) 0
    return (str, buffer)

/-- What a call of `split` leaves: `pointers` is what it stores in `*key` and
`*value`, and nothing if it leaves them. -/
structure SplitRun where
  line : Bytes
  pointers : Option (ℕ × ℕ)
  valLen : ℕ
  deriving DecidableEq, Repr

/-- The branch for an `'='`. -/
def splitAtIndex (line : Bytes) : ℤ → Option SplitRun
  -- `line[index]` is in front of the line
  | .negSucc _ => none
  | .ofNat index => do
      let line ← write line index 0
      let (key, line) ← trimInPlace line 0
      let (value, line) ← trimInPlace line (index + 1)
      let valLen ← strlen line value
      return ⟨line, some (key, value), valLen⟩

/-- The loop of `split`; the second argument are the bytes from `p` on. -/
def splitFrom (line : Bytes) : Bytes → ℤ → Option SplitRun
  | [], _ => none
  | b :: rest, index =>
      if b = 0 then some ⟨line, none, 0⟩
      else if b = 61 then splitAtIndex line index
      else splitFrom line rest (Int.bmod (index + 1) (2 ^ 32))

/-- `split`. -/
def splitInPlace (line : Bytes) : Option SplitRun := splitFrom line line 0

/-- The pointers are those of the strings `key` and `value`, the one behind the
other, and only the byte at `index` and those behind the strings are overwritten. -/
def SplitRun.CutsAt (run : SplitRun) (line : Bytes) (index : ℕ) (key value : Bytes) : Prop :=
  ∃ k v, run.pointers = some (k, v) ∧ StringAt run.line k key ∧ StringAt run.line v value ∧
    k + key.length < v ∧ run.valLen = value.length ∧
    run.line = ((line.set index 0).set (k + key.length) 0).set (v + value.length) 0

/-- `split` stays in the line with its terminator.  It leaves a line without an
`'='`, and cuts another one at the first into its trimmed parts. -/
def SplitsExactly (line : CString) : Prop :=
  ∃ run, splitInPlace line.object = some run ∧
    match split line.val with
    | none => run = ⟨line.object, none, 0⟩
    | some (key, value) => run.CutsAt line.object (line.val.idxOf 61) key value

/-! ## The trimmed text -/

theorem trim_eq_rdropWhile (text : Bytes) :
    trim text = (text.dropWhile isSpace).rdropWhile isSpace := rfl

/-- A text is its trimmed part between blanks. -/
theorem trim_split (text : Bytes) :
    text = text.takeWhile isSpace ++
      (trim text ++ (text.dropWhile isSpace).rtakeWhile isSpace) := by
  rw [trim_eq_rdropWhile, List.rdropWhile_append_rtakeWhile, List.takeWhile_append_dropWhile]

/-- What `trim` removes is blank, so another byte is kept as often as it occurs. -/
theorem count_trim {b : UInt8} (hb : isSpace b = false) (text : Bytes) :
    (trim text).count b = text.count b := by
  have habsent : ∀ blanks : Bytes, (∀ c ∈ blanks, isSpace c = true) → blanks.count b = 0 := by
    intro blanks hblanks
    rw [List.count_eq_zero]
    intro hmem
    rw [hblanks b hmem] at hb
    cases hb
  have hleading := habsent (text.takeWhile isSpace) fun c hc => List.mem_takeWhile_imp hc
  have htrailing := habsent ((text.dropWhile isSpace).rtakeWhile isSpace)
    fun c hc => List.mem_rtakeWhile_imp hc
  have hcount := congrArg (List.count b) (trim_split text)
  rw [List.count_append, List.count_append, hleading, htrailing] at hcount
  omega

theorem trim_eq_nil_iff {text : Bytes} : trim text = [] ↔ ∀ b ∈ text, isSpace b = true := by
  constructor
  · intro h
    have hrest : ∀ b ∈ text.dropWhile isSpace, isSpace b = true := by
      rwa [trim_eq_rdropWhile, List.rdropWhile_eq_nil_iff] at h
    by_cases hnil : text.dropWhile isSpace = []
    · exact List.dropWhile_eq_nil_iff.mp hnil
    · have hblank := hrest _ (List.head_mem hnil)
      rw [List.head_dropWhile_not isSpace hnil] at hblank
      cases hblank
  · intro h
    rw [trim_eq_rdropWhile, List.dropWhile_eq_nil_iff.mpr h, List.rdropWhile_nil]

/-- The ends of a trimmed text are not blank. -/
theorem isSpace_head_trim {text : Bytes} (h : trim text ≠ []) :
    isSpace ((trim text).head h) = false := by
  have hrest : text.dropWhile isSpace ≠ [] := by
    intro hnil
    exact h (trim_eq_nil_iff.mpr (List.dropWhile_eq_nil_iff.mp hnil))
  have hinitial : trim text <+: text.dropWhile isSpace := List.rdropWhile_prefix isSpace _
  rw [hinitial.head h]
  exact List.head_dropWhile_not isSpace hrest

theorem isSpace_getLast_trim {text : Bytes} (h : trim text ≠ []) :
    isSpace ((trim text).getLast h) = false := by
  have hlast := List.rdropWhile_last_not isSpace (text.dropWhile isSpace) h
  exact Bool.eq_false_iff.mpr hlast

/-! ## `trim` in place -/

/-- A text with a byte that is not blank gets its terminator behind the last one. -/
theorem trimInPlace_of_parts {leading core trailing : Bytes}
    (hleading : ∀ b ∈ leading, isSpace b = true) (htrailing : ∀ b ∈ trailing, isSpace b = true)
    (hcore : core ≠ []) (hhead : isSpace (core.head hcore) = false)
    (hlast : isSpace (core.getLast hcore) = false)
    (hnul : ∀ b ∈ core ++ trailing, b ≠ 0) (before after : Bytes) :
    trimInPlace (before ++ (leading ++ (core ++ (trailing ++ 0 :: after)))) before.length =
      some (before.length + leading.length,
        (before ++ (leading ++ (core ++ (trailing ++ 0 :: after)))).set
          (before.length + leading.length + core.length) 0) := by
  have hpos : 0 < core.length := List.length_pos_iff.mpr hcore
  have hstr : scanForward isSpace (before ++ (leading ++ (core ++ (trailing ++ 0 :: after))))
      before.length = some (before.length + leading.length) := by
    rw [← List.cons_head_tail hcore]
    exact scanForward_append hleading hhead before _
  have hassoc : before ++ (leading ++ (core ++ (trailing ++ 0 :: after))) =
      (before ++ leading) ++ (core ++ (trailing ++ 0 :: after)) := by
    rw [List.append_assoc before]
  have hlength := strlen_append hnul (before ++ leading) after
  have hend := scanBackward_append hcore hlast htrailing (before ++ leading) (0 :: after)
  have hfirst : ((before ++ leading) ++ (core ++ (trailing ++ 0 :: after)))[
      before.length + leading.length]? = some (core.head hcore) := by
    rw [← List.length_append, List.getElem?_append_right (Nat.le_refl _), Nat.sub_self,
      List.getElem?_append_left hpos, ← List.head?_eq_getElem?, List.head?_eq_some_head hcore]
  have hne : core.head hcore ≠ 0 := hnul _ (List.mem_append_left _ (List.head_mem hcore))
  have hinside : before.length + leading.length + core.length <
      ((before ++ leading) ++ (core ++ (trailing ++ 0 :: after))).length := by
    simp only [List.length_append, List.length_cons]
    omega
  rw [List.length_append, List.append_assoc core] at hlength
  rw [List.length_append] at hlength hend
  rw [trimInPlace, hstr, hassoc]
  have hlast' : before.length + leading.length + (core.length - 1) + 1 =
      before.length + leading.length + core.length := by
    omega
  simp only [Option.bind_eq_bind, Option.bind_some, hfirst, if_neg hne, hlength, hend, hlast',
    write_eq hinside]
  rfl

theorem trimInPlace_of_blank {blanks : Bytes} (hblanks : ∀ b ∈ blanks, isSpace b = true)
    (before after : Bytes) :
    trimInPlace (before ++ (blanks ++ 0 :: after)) before.length =
      some (before.length + blanks.length, before ++ (blanks ++ 0 :: after)) := by
  rw [trimInPlace, scanForward_append hblanks (by rfl)]
  simp

/-- `trim` returns a pointer behind the leading blanks and ends the string before the
trailing ones. -/
theorem trimInPlace_eq {text : Bytes} (htext : ∀ b ∈ text, b ≠ 0) (before after : Bytes) :
    trimInPlace (before ++ (text ++ 0 :: after)) before.length =
      some (before.length + (text.takeWhile isSpace).length,
        (before ++ (text ++ 0 :: after)).set
          (before.length + (text.takeWhile isSpace).length + (trim text).length) 0) := by
  by_cases hnil : trim text = []
  · have hblank := trim_eq_nil_iff.mp hnil
    have hself : text.takeWhile isSpace = text := List.takeWhile_eq_self_iff.mpr hblank
    rw [trimInPlace_of_blank hblank, hnil, hself]
    simp
  · have hparts := trim_split text
    have hleading : ∀ b ∈ text.takeWhile isSpace, isSpace b = true :=
      fun b hb => List.mem_takeWhile_imp hb
    have htrailing : ∀ b ∈ (text.dropWhile isSpace).rtakeWhile isSpace, isSpace b = true :=
      fun b hb => List.mem_rtakeWhile_imp hb
    have hnul : ∀ b ∈ trim text ++ (text.dropWhile isSpace).rtakeWhile isSpace, b ≠ 0 := by
      intro b hb
      apply htext b
      rw [hparts]
      exact List.mem_append_right _ hb
    have htrim := trimInPlace_of_parts hleading htrailing hnil (isSpace_head_trim hnil)
      (isSpace_getLast_trim hnil) hnul before after
    rw [← List.append_assoc (trim text), ← List.append_assoc (text.takeWhile isSpace), ← hparts]
      at htrim
    exact htrim

/-- The string that `trim` returns. -/
theorem stringAt_trim {text : Bytes} (htext : ∀ b ∈ text, b ≠ 0) (before after : Bytes) :
    StringAt ((before ++ (text ++ 0 :: after)).set
        (before.length + (text.takeWhile isSpace).length + (trim text).length) 0)
      (before.length + (text.takeWhile isSpace).length) (trim text) := by
  have hnul : ∀ b ∈ trim text, b ≠ 0 := fun b hb => htext b (mem_trim hb)
  obtain ⟨first, rest, hrest⟩ : ∃ first rest,
      (text.dropWhile isSpace).rtakeWhile isSpace ++ 0 :: after = first :: rest :=
    List.exists_cons_of_ne_nil (by simp)
  have hbuffer : before ++ (text ++ 0 :: after) =
      (before ++ text.takeWhile isSpace) ++ (trim text ++ first :: rest) := by
    rw [← hrest]
    conv_lhs => rw [trim_split text]
    simp only [List.append_assoc]
  rw [← List.length_append, hbuffer, List.set_append_right _ _ (Nat.le_add_right _ _),
    Nat.add_sub_cancel_left, List.set_append_right _ _ (Nat.le_refl _), Nat.sub_self,
    List.set_cons_zero]
  exact stringAt_append hnul _ rest

theorem length_trim_le (text : Bytes) :
    (text.takeWhile isSpace).length + (trim text).length ≤ text.length := by
  have hlength := congrArg List.length (trim_split text)
  rw [List.length_append, List.length_append] at hlength
  omega

/-! ## `split` in place -/

theorem splitAtIndex_natCast (line : Bytes) (index : ℕ) :
    splitAtIndex line index = (write line index 0).bind fun line =>
      (trimInPlace line 0).bind fun key =>
        (trimInPlace key.2 (index + 1)).bind fun value =>
          (strlen value.2 value.1).map fun valLen =>
            ⟨value.2, some (key.1, value.1), valLen⟩ := by
  rw [← Int.ofNat_eq_natCast, splitAtIndex]
  simp only [Option.bind_eq_bind, Option.pure_def, Option.map_eq_bind]
  rfl

/-- The string at the start of a line, trimmed in front of what follows it. -/
theorem trimInPlace_zero {text : Bytes} (htext : ∀ b ∈ text, b ≠ 0) (after : Bytes) :
    trimInPlace (text ++ 0 :: after) 0 =
        some ((text.takeWhile isSpace).length, (text ++ 0 :: after).set
          ((text.takeWhile isSpace).length + (trim text).length) 0) ∧
      StringAt ((text ++ 0 :: after).set
        ((text.takeWhile isSpace).length + (trim text).length) 0)
          (text.takeWhile isSpace).length (trim text) := by
  constructor
  · simpa using trimInPlace_eq htext [] after
  · simpa using stringAt_trim htext [] after

/-- A write up to the first terminator leaves what follows it. -/
theorem exists_set_front {text : Bytes} {i : ℕ} (hi : i ≤ text.length) (after : Bytes) :
    ∃ front : Bytes, front.length = text.length + 1 ∧
      (text ++ 0 :: after).set i 0 = front ++ after := by
  refine ⟨(text ++ [0]).set i 0, by simp, ?_⟩
  rw [List.append_cons text, List.set_append_left]
  rw [List.length_append, List.length_singleton]
  omega

/-- The line is cut at the place of the `'='` whatever byte stands there. -/
theorem splitAtIndex_cutsAt {before after : Bytes} (hbefore : ∀ b ∈ before, b ≠ 0)
    (hafter : ∀ b ∈ after, b ≠ 0) (c : UInt8) :
    ∃ run, splitAtIndex (before ++ c :: (after ++ [0])) before.length = some run ∧
      run.CutsAt (before ++ c :: (after ++ [0])) before.length (trim before) (trim after) := by
  have hkeyEnd := length_trim_le before
  have hinside : before.length < (before ++ c :: (after ++ [0])).length := by
    rw [List.length_append, List.length_cons]
    omega
  have hcut : (before ++ c :: (after ++ [0])).set before.length 0 =
      before ++ 0 :: (after ++ [0]) := by
    rw [List.set_append_right _ _ (Nat.le_refl _), Nat.sub_self]
    rfl
  -- the key is trimmed in front of the value, and the value behind the key
  obtain ⟨hkey, hkeyAt⟩ := trimInPlace_zero hbefore (after ++ [0])
  obtain ⟨front, hfront, hline⟩ := exists_set_front hkeyEnd (after ++ [0])
  have hvalue := trimInPlace_eq hafter front []
  have hvalueAt := stringAt_trim hafter front []
  rw [hfront, ← hline] at hvalue hvalueAt
  have hvalueBehind : before.length < before.length + 1 + (after.takeWhile isSpace).length := by
    omega
  generalize (before.takeWhile isSpace).length = k at *
  generalize before.length + 1 + (after.takeWhile isSpace).length = v at *
  have hrun : splitAtIndex (before ++ c :: (after ++ [0])) before.length =
      some ⟨((before ++ 0 :: (after ++ [0])).set (k + (trim before).length) 0).set
        (v + (trim after).length) 0, some (k, v), (trim after).length⟩ := by
    rw [splitAtIndex_natCast, write_eq hinside, hcut, Option.bind_some, hkey, Option.bind_some,
      hvalue, Option.bind_some, hvalueAt.strlen_eq, Option.map_some]
  refine ⟨_, hrun, _, _, rfl, hkeyAt.set ?_ 0, hvalueAt, ?_, rfl, ?_⟩
  · omega
  · omega
  · rw [hcut]

/-- The loop passes the bytes before the first `'='`. -/
theorem splitFrom_append {before : Bytes} (hnul : ∀ b ∈ before, b ≠ 0)
    (hequals : ∀ b ∈ before, b ≠ 61) (line rest : Bytes) (n : ℤ) :
    splitFrom line (before ++ rest) (Int.bmod n (2 ^ 32)) =
      splitFrom line rest (Int.bmod (n + before.length) (2 ^ 32)) := by
  induction before generalizing n with
  | nil => simp
  | cons b before ih =>
      have hb : b ≠ 0 ∧ b ≠ 61 := ⟨hnul b List.mem_cons_self, hequals b List.mem_cons_self⟩
      have hwrap : Int.bmod (Int.bmod n (2 ^ 32) + 1) (2 ^ 32) = Int.bmod (n + 1) (2 ^ 32) :=
        Int.bmod_add_bmod
      rw [List.cons_append, splitFrom, if_neg hb.1, if_neg hb.2, hwrap,
        ih (fun c hc => hnul c (List.mem_cons_of_mem b hc))
          (fun c hc => hequals c (List.mem_cons_of_mem b hc)), List.length_cons]
      congr 2
      push_cast
      omega

theorem splitInPlace_of_not_mem {line : CString} (h : 61 ∉ line.val) :
    splitInPlace line.object = some ⟨line.object, none, 0⟩ := by
  have hequals : ∀ b ∈ line.val, b ≠ 61 := fun b hb heq => h (heq ▸ hb)
  have hloop := splitFrom_append line.property hequals line.object [0] 0
  rw [Int.zero_bmod] at hloop
  rw [splitInPlace]
  exact hloop

/-- A line with its first `'='` cut out. -/
theorem exists_first_equals {line : Bytes} (h : 61 ∈ line) :
    ∃ before after, line = before ++ 61 :: after ∧ (∀ b ∈ before, b ≠ 61) ∧
      line.idxOf 61 = before.length ∧ split line = some (trim before, trim after) := by
  obtain ⟨before, after, hline, hfirst⟩ := List.eq_append_cons_of_mem h
  have hequals : ∀ b ∈ before, b ≠ 61 := fun b hb heq => hfirst (heq ▸ hb)
  refine ⟨before, after, hline, hequals, ?_, ?_⟩
  · rw [hline, List.idxOf_append_of_notMem hfirst, List.idxOf_cons_self]
    rfl
  · have htake : (line.takeWhile fun b => b ≠ 61) = before := by
      rw [hline, List.takeWhile_append_of_pos (by simpa using hequals)]
      simp
    have hdrop : (line.dropWhile fun b => b ≠ 61) = 61 :: after := by
      rw [hline, List.dropWhile_append_of_pos (by simpa using hequals)]
      simp
    rw [split, if_pos h, htake, hdrop]
    rfl

theorem splitInPlace_of_first_equals {line : CString} {before after : Bytes}
    (hline : line.val = before ++ 61 :: after) (hequals : ∀ b ∈ before, b ≠ 61) :
    splitInPlace line.object =
      splitAtIndex line.object (Int.bmod before.length (2 ^ 32)) := by
  have hnul : ∀ b ∈ before, b ≠ 0 := by
    intro b hb
    apply line.property b
    rw [hline]
    exact List.mem_append_left _ hb
  have hobject : line.object = before ++ 61 :: (after ++ [0]) := by
    rw [CString.object, hline]
    simp
  have hloop := splitFrom_append hnul hequals line.object (61 :: (after ++ [0])) 0
  rw [Int.zero_bmod, Int.zero_add, ← hobject] at hloop
  rw [splitInPlace, hloop, splitFrom, if_neg (by decide), if_pos rfl]

theorem splitsExactly_of_not_mem {line : CString} (h : 61 ∉ line.val) : SplitsExactly line := by
  refine ⟨_, splitInPlace_of_not_mem h, ?_⟩
  rw [split, if_neg h]

/-- A line whose counter does not wrap before the `'='`. -/
theorem splitsExactly_of_lt {line : CString} (hmem : 61 ∈ line.val)
    (hindex : line.val.idxOf 61 < 2 ^ 31) : SplitsExactly line := by
  obtain ⟨before, after, hline, hequals, hplace, hsplit⟩ := exists_first_equals hmem
  have hnul : ∀ b ∈ before ++ 61 :: after, b ≠ 0 := hline ▸ line.property
  have hobject : line.object = before ++ 61 :: (after ++ [0]) := by
    rw [CString.object, hline]
    simp
  have hcount : Int.bmod before.length (2 ^ 32) = before.length := by
    apply Int.bmod_eq_of_le
    all_goals omega
  obtain ⟨run, hrun, hcuts⟩ := splitAtIndex_cutsAt
    (fun b hb => hnul b (List.mem_append_left _ hb))
    (fun b hb => hnul b (List.mem_append_right _ (List.mem_cons_of_mem _ hb))) 61
  refine ⟨run, ?_, ?_⟩
  · rw [splitInPlace_of_first_equals hline hequals, hcount, hobject, hrun]
  · rw [hsplit, hobject, hplace]
    exact hcuts

/-- Cut at the wrapped count, the string behind the cut still has the first `'='` in
it, or the cut is outside the line. -/
theorem not_splitsExactly_of_ge {line : CString} (hmem : 61 ∈ line.val)
    (hindex : 2 ^ 31 ≤ line.val.idxOf 61) : ¬SplitsExactly line := by
  obtain ⟨before, after, hline, hequals, hplace, hsplit⟩ := exists_first_equals hmem
  rintro ⟨run, hrun, hcuts⟩
  rw [splitInPlace_of_first_equals hline hequals] at hrun
  have hwrapped := Int.bmod_lt (x := before.length) (m := 2 ^ 32) (by decide)
  cases hcount : Int.bmod before.length (2 ^ 32) with
  | negSucc n =>
      rw [hcount] at hrun
      cases hrun
  | ofNat n =>
      rw [hcount, Int.ofNat_eq_natCast] at hrun hwrapped
      have hn : n < before.length := by omega
      obtain ⟨first, c, middle, hbefore, hfirst⟩ : ∃ first c middle,
          before = first ++ c :: middle ∧ first.length = n := by
        refine ⟨before.take n, before[n], before.drop (n + 1), ?_, by simp; omega⟩
        rw [← List.drop_eq_getElem_cons hn, List.take_append_drop]
      have hparts : line.val = first ++ c :: (middle ++ 61 :: after) := by
        rw [hline, hbefore, List.append_assoc, List.cons_append]
      have hnul : ∀ b ∈ first ++ c :: (middle ++ 61 :: after), b ≠ 0 := hparts ▸ line.property
      have hobject : line.object = first ++ c :: ((middle ++ 61 :: after) ++ [0]) := by
        rw [CString.object, hparts, List.append_assoc, List.cons_append]
      obtain ⟨run', hrun', _, v', hpointers', -, hvalue', -⟩ := splitAtIndex_cutsAt
        (fun b hb => hnul b (List.mem_append_left _ hb))
        (fun b hb => hnul b (List.mem_append_right _ (List.mem_cons_of_mem _ hb))) c
      rw [hobject, ← hfirst, hrun', Option.some.injEq] at hrun
      subst hrun
      rw [hsplit] at hcuts
      obtain ⟨_, v, hpointers, -, hvalue, -⟩ := hcuts
      rw [hpointers'] at hpointers
      cases hpointers
      have hcounts := congrArg (List.count 61) (hvalue.unique hvalue')
      rw [count_trim (by decide), count_trim (by decide), List.count_append,
        List.count_cons_self] at hcounts
      omega

theorem splitsExactly_of_index {line : CString}
    (hindex : 61 ∈ line.val → line.val.idxOf 61 < 2 ^ 31) : SplitsExactly line := by
  by_cases hmem : 61 ∈ line.val
  · exact splitsExactly_of_lt hmem (hindex hmem)
  · exact splitsExactly_of_not_mem hmem

/-- `split` is exact on the lines whose first `'='` is within the range of an `int`. -/
theorem splitsExactly_iff (line : CString) :
    SplitsExactly line ↔ (61 ∈ line.val → line.val.idxOf 61 < 2 ^ 31) := by
  constructor
  · intro h hmem
    apply Nat.lt_of_not_le
    intro hindex
    exact not_splitsExactly_of_ge hmem hindex h
  · exact splitsExactly_of_index

/-- A key of `n` letters in front of `"=b"`. -/
def keyLine (n : ℕ) : CString :=
  ⟨List.replicate n 97 ++ [61, 98], by
    intro b hb
    rcases List.mem_append.mp hb with hkey | hrest
    · rw [List.eq_of_mem_replicate hkey]
      decide
    · have hb : b = 61 ∨ b = 98 := by simpa using hrest
      rcases hb with rfl | rfl
      · decide
      · decide⟩

theorem idxOf_keyLine (n : ℕ) : (keyLine n).val.idxOf 61 = n := by
  have hfirst : (61 : UInt8) ∉ List.replicate n 97 := by
    intro hmem
    exact absurd (List.eq_of_mem_replicate hmem) (by decide)
  rw [keyLine, List.idxOf_append_of_notMem hfirst, List.idxOf_cons_self, List.length_replicate]
  rfl

/-- A key of 2 GiB. -/
theorem longKey_not_split : ¬SplitsExactly (keyLine (2 ^ 31)) := by
  apply not_splitsExactly_of_ge
  · exact List.mem_append_right _ List.mem_cons_self
  · rw [idxOf_keyLine]

example : splitInPlace (ascii " a = b=c \n" ++ [0]) =
    some ⟨[32, 97, 0, 0, 32, 98, 61, 99, 0, 10, 0], some (1, 5), 3⟩ := by decide

/-! ## The buffer of `getline` -/

theorem trimInPlace_extend {buffer buffer' : Bytes} {str start : ℕ}
    (h : trimInPlace buffer str = some (start, buffer')) (after : Bytes) :
    trimInPlace (buffer ++ after) str = some (start, buffer' ++ after) := by
  rw [trimInPlace] at h ⊢
  obtain ⟨first, hstr, h⟩ := Option.bind_eq_some_iff.mp h
  obtain ⟨b, hread, h⟩ := Option.bind_eq_some_iff.mp h
  have hread' : (buffer ++ after)[first]? = some b := by
    rw [List.getElem?_append_left (List.getElem?_eq_some_iff.mp hread).1, hread]
  simp only [scanForward_extend hstr, hread', Option.bind_eq_bind, Option.bind_some]
  split_ifs at h ⊢
  · cases h
    rfl
  · obtain ⟨length, hlength, h⟩ := Option.bind_eq_some_iff.mp h
    obtain ⟨last, hlast, h⟩ := Option.bind_eq_some_iff.mp h
    obtain ⟨written, hwrite, h⟩ := Option.bind_eq_some_iff.mp h
    cases h
    simp only [strlen_extend hlength, scanBackward_extend hlast, write_extend hwrite,
      Option.bind_some]
    rfl

def SplitRun.extend (run : SplitRun) (after : Bytes) : SplitRun :=
  { run with line := run.line ++ after }

theorem splitAtIndex_extend {line : Bytes} {index : ℤ} {run : SplitRun}
    (h : splitAtIndex line index = some run) (after : Bytes) :
    splitAtIndex (line ++ after) index = some (run.extend after) := by
  cases index with
  | negSucc n => cases h
  | ofNat n =>
      rw [Int.ofNat_eq_natCast, splitAtIndex_natCast] at h ⊢
      obtain ⟨cut, hcut, h⟩ := Option.bind_eq_some_iff.mp h
      obtain ⟨⟨k, keyLine⟩, hkey, h⟩ := Option.bind_eq_some_iff.mp h
      obtain ⟨⟨v, valueLine⟩, hvalue, h⟩ := Option.bind_eq_some_iff.mp h
      obtain ⟨valLen, hlength, h⟩ := Option.map_eq_some_iff.mp h
      subst h
      rw [write_extend hcut, Option.bind_some, trimInPlace_extend hkey, Option.bind_some,
        trimInPlace_extend hvalue, Option.bind_some, strlen_extend hlength]
      rfl

/-- What follows the terminator of the line in its buffer is neither read nor
changed. -/
theorem splitInPlace_extend {line : Bytes} {run : SplitRun} (h : splitInPlace line = some run)
    (after : Bytes) : splitInPlace (line ++ after) = some (run.extend after) := by
  have hloop : ∀ {rest : Bytes} {index : ℤ}, splitFrom line rest index = some run →
      splitFrom (line ++ after) (rest ++ after) index = some (run.extend after) := by
    intro rest
    induction rest with
    | nil =>
        intro index hindex
        cases hindex
    | cons b rest ih =>
        intro index hindex
        rw [List.cons_append, splitFrom]
        rw [splitFrom] at hindex
        split_ifs at hindex ⊢
        · cases hindex
          rfl
        · exact splitAtIndex_extend hindex after
        · exact ih hindex
  exact hloop h

/-- The key and the value that `read_config` goes on with. -/
def SplitRun.assignment (run : SplitRun) : Option (ConfigKey × Bytes) :=
  match run.pointers with
  | none => none
  | some (key, value) =>
      if run.valLen = 0 then none
      else (ConfigKey.ofName (stringFrom run.line key)).map fun found =>
        (found, stringFrom run.line value)

/-- The buffer of a line begins with a C string. -/
theorem exists_line_object (line : Bytes) :
    ∃ text : CString, text.val = line.takeWhile (fun b => b ≠ 0) ∧
      ∃ after, line ++ [0] = text.object ++ after := by
  by_cases hmem : 0 ∈ line
  · obtain ⟨before, after, hline, hfirst⟩ := List.eq_append_cons_of_mem hmem
    have hnul : ∀ b ∈ before, b ≠ 0 := fun b hb heq => hfirst (heq ▸ hb)
    refine ⟨⟨before, hnul⟩, ?_, after ++ [0], ?_⟩
    · rw [hline, List.takeWhile_append_of_pos (by simpa using hnul)]
      simp
    · rw [hline, CString.object]
      simp
  · have hnul : ∀ b ∈ line, b ≠ 0 := fun b hb heq => hmem (heq ▸ hb)
    refine ⟨⟨line, hnul⟩, ?_, [], ?_⟩
    · rw [List.takeWhile_eq_self_iff.mpr (by simpa using hnul)]
    · rw [CString.object, List.append_nil]

/-- What `read_config` takes from a line, split in its buffer. -/
theorem assignment_splitInPlace (line : Bytes)
    (hindex : 61 ∈ line.takeWhile (fun b => b ≠ 0) →
      (line.takeWhile fun b => b ≠ 0).idxOf 61 < 2 ^ 31) :
    (splitInPlace (line ++ [0])).map SplitRun.assignment = some (assignment line) := by
  obtain ⟨text, htext, after, hbuffer⟩ := exists_line_object line
  rw [← htext] at hindex
  obtain ⟨run, hrun, hcuts⟩ := splitsExactly_of_index hindex
  rw [hbuffer, splitInPlace_extend hrun, Option.map_some, assignment, ← htext]
  congr 1
  cases hsplit : split text.val with
  | none =>
      rw [hsplit] at hcuts
      rw [hcuts]
      rfl
  | some parts =>
      obtain ⟨key, value⟩ := parts
      rw [hsplit] at hcuts
      obtain ⟨k, v, hpointers, hkey, hvalue, -, hlength, -⟩ := hcuts
      have hkeyText := (hkey.extend after).stringFrom_eq
      have hvalueText := (hvalue.extend after).stringFrom_eq
      simp only [SplitRun.assignment, SplitRun.extend, hpointers, hlength, hkeyText, hvalueText]

end PowerJudge

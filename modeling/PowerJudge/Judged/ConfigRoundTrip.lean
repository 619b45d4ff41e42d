import Mathlib.Data.List.Nodup
import PowerJudge.Judged.ConfigNumbers
import PowerJudge.Judged.ConfigStrings

/-!
# Configuration files and what is read from them

A configuration file names each key at most once, in any order and with blanks around the key
and the value; between its settings it has any lines that `read_config` skips.  What is read
from the printed file is every setting that it has, and the defaults of the other keys.
-/

namespace PowerJudge

/-! ## Files -/

/-- Blanks within a line. -/
abbrev Blanks := {text : Bytes // ∀ b ∈ text, isSpace b = true ∧ b ≠ 10}

/-- A text that a line can say. -/
structure IsValue (value : Bytes) : Prop where
  ne_nil : value ≠ []
  inLine : ∀ b ∈ value, b ≠ 0 ∧ b ≠ 10
  trimmed : trim value = value

/-- A key with a value that its field can hold. -/
inductive Setting where
  | text (key : ConfigKey) (value : Bytes) (htype : key.type = .text) (hvalue : IsValue value)
      (hfits : value.length < key.field.size)
  | number (key : ConfigKey) (n : ℤ) (htype : key.type ≠ .text) (hpos : 0 < n)
      (hle : n ≤ key.largest)

def Setting.key : Setting → ConfigKey
  | .text key _ _ _ _ => key
  | .number key _ _ _ _ => key

/-- The value as the file says it. -/
def Setting.value : Setting → Bytes
  | .text _ value _ _ _ => value
  | .number _ n _ _ _ => formatInt n

inductive ConfigLine where
  | setting (s : Setting) (beforeKey afterKey beforeValue afterValue : Blanks)
  /-- A comment, an empty line, an unknown key. -/
  | skipped (text : Bytes) (hline : ∀ b ∈ text, b ≠ 10)
      (hskipped : assignment (text ++ [10]) = none)

def ConfigLine.setting? : ConfigLine → Option Setting
  | .setting s _ _ _ _ => some s
  | .skipped _ _ _ => none

/-- The line without its newline. -/
def ConfigLine.text : ConfigLine → Bytes
  | .setting s beforeKey afterKey beforeValue afterValue =>
      beforeKey.1 ++ s.key.name ++ afterKey.1 ++
        61 :: (beforeValue.1 ++ s.value ++ afterValue.1)
  | .skipped text _ _ => text

structure ConfigFile where
  lines : List ConfigLine
  /-- A last line that no newline ends. -/
  last : Option ConfigLine
  distinct : (((lines ++ last.toList).filterMap ConfigLine.setting?).map Setting.key).Nodup

def ConfigFile.settings (file : ConfigFile) : List Setting :=
  (file.lines ++ file.last.toList).filterMap ConfigLine.setting?

def ConfigFile.print (file : ConfigFile) : Bytes :=
  (file.lines.flatMap fun line => line.text ++ [10]) ++ file.last.toList.flatMap ConfigLine.text

/-- The daemon has the setting. -/
def Setting.IsIn (config : Memory) : Setting → Prop
  | .text key value _ _ _ => config.text? key.field.start key.field.size = some value
  | .number key n _ _ _ => key.setting config = n

/-- The daemon has nothing for a key but its default, if it has one. -/
def ConfigKey.IsUnset (config : Memory) (key : ConfigKey) : Prop :=
  (key.type = .text → config.text? key.field.start key.field.size = some []) ∧
  (key ∈ ConfigKey.numbers → key.setting config = key.default) ∧
  (key = .dbPort → key.setting config = 0)

/-! ## Lines -/

/-- Blanks around a text are trimmed away. -/
theorem trim_append {before text after : Bytes} (hbefore : ∀ b ∈ before, isSpace b = true)
    (hafter : ∀ b ∈ after, isSpace b = true) : trim (before ++ text ++ after) = trim text := by
  have hreverse : ∀ b ∈ after.reverse, isSpace b = true :=
    fun b hb => hafter b (List.mem_reverse.mp hb)
  rw [trim, trim, List.append_assoc, List.dropWhile_append_of_pos hbefore, List.dropWhile_append]
  split
  · next hblank =>
      have hall : after.dropWhile isSpace = [] := by
        rw [List.dropWhile_eq_nil_iff]
        exact hafter
      rw [hall, List.isEmpty_iff.mp hblank]
  · rw [List.reverse_append, List.dropWhile_append_of_pos hreverse]

theorem Setting.isValue (s : Setting) : IsValue s.value := by
  cases s with
  | text key value htype hvalue hfits => exact hvalue
  | number key n htype hpos hle =>
      have hnospace : ∀ b ∈ formatInt n, isSpace b = false := fun b hb => (mem_formatInt hb).1
      have hkeep : ∀ text : Bytes, (∀ b ∈ text, isSpace b = false) →
          text.dropWhile isSpace = text := by
        intro text htext
        cases text with
        | nil => rfl
        | cons b text => rw [List.dropWhile_cons, if_neg (by simp [htext b List.mem_cons_self])]
      refine ⟨formatInt_ne_nil n, fun b hb => ⟨(mem_formatInt hb).2, ?_⟩, ?_⟩
      · rintro rfl
        have hblank := hnospace 10 hb
        exact absurd hblank (by decide)
      · change trim (formatInt n) = formatInt n
        rw [trim, hkeep _ hnospace,
          hkeep _ (fun b hb => hnospace b (List.mem_reverse.mp hb)), List.reverse_reverse]

theorem forall_mem_of_all {P : UInt8 → Prop} [DecidablePred P] {text : Bytes}
    (h : (text.all fun b => decide (P b)) = true) : ∀ b ∈ text, P b := by
  simpa using h

/-- What `strcmp` and `split` need of the name of a key. -/
theorem ConfigKey.name_spec (key : ConfigKey) :
    ConfigKey.ofName key.name = some key ∧ trim key.name = key.name ∧
      ∀ b ∈ key.name, b ≠ 0 ∧ b ≠ 61 ∧ b ≠ 10 := by
  refine ⟨?_, ?_, forall_mem_of_all ?_⟩
  all_goals
    cases key <;> decide

theorem ne_of_isSpace {b : UInt8} (h : isSpace b = true) : b ≠ 0 ∧ b ≠ 61 := by
  constructor
  · rintro rfl
    exact absurd h (by decide)
  · rintro rfl
    exact absurd h (by decide)

/-- `split` at the first `'='`. -/
theorem split_append {left right : Bytes} (hleft : ∀ b ∈ left, b ≠ 61) :
    split (left ++ 61 :: right) = some (trim left, trim right) := by
  have hkeep : ∀ b ∈ left, decide (b ≠ 61) = true := fun b hb => decide_eq_true (hleft b hb)
  rw [split, if_pos (List.mem_append_right _ List.mem_cons_self),
    List.takeWhile_append_of_pos hkeep, List.dropWhile_append_of_pos hkeep]
  simp

/-- The newline of a line is trimmed away. -/
theorem split_newline (line : Bytes) : split (line ++ [10]) = split line := by
  by_cases hmem : 61 ∈ line
  · obtain ⟨left, right, rfl, hleft⟩ := List.eq_append_cons_of_mem hmem
    have hne : ∀ b ∈ left, b ≠ 61 := fun b hb heq => hleft (heq ▸ hb)
    have htrim : trim (right ++ [10]) = trim right :=
      @trim_append [] right [10] (by simp) fun b hb => by
        rw [List.mem_singleton.mp hb]
        decide
    rw [List.append_assoc, List.cons_append, split_append hne, split_append hne, htrim]
  · have hmem' : 61 ∉ line ++ [10] := by simp [hmem]
    rw [split, split, if_neg hmem, if_neg hmem']

theorem assignment_newline (line : Bytes) : assignment (line ++ [10]) = assignment line := by
  have hsplit : split ((line ++ [10]).takeWhile fun b => b ≠ 0) =
      split (line.takeWhile fun b => b ≠ 0) := by
    rw [List.takeWhile_append]
    split_ifs with hlength
    · have hall : line.takeWhile (fun b => b ≠ 0) = line :=
        (List.takeWhile_prefix _).eq_of_length hlength
      have hnewline : [(10 : UInt8)].takeWhile (fun b => b ≠ 0) = [10] := by decide
      rw [hall, hnewline, split_newline]
    · rfl
  rw [assignment, assignment, hsplit]

/-- A setting is assigned as the file means it. -/
theorem assignment_setting (s : Setting) (beforeKey afterKey beforeValue afterValue : Blanks) :
    assignment ((ConfigLine.setting s beforeKey afterKey beforeValue afterValue).text ++ [10]) =
      some (s.key, s.value) := by
  obtain ⟨hname, htrim, hbytes⟩ := s.key.name_spec
  have hvalue := s.isValue
  have hblank : ∀ (blanks : Blanks), ∀ b ∈ blanks.1, b ≠ 0 ∧ b ≠ 61 :=
    fun blanks b hb => ne_of_isSpace (blanks.2 b hb).1
  have hline : (ConfigLine.setting s beforeKey afterKey beforeValue afterValue).text ++ [10] =
      (beforeKey.1 ++ s.key.name ++ afterKey.1) ++
        61 :: (beforeValue.1 ++ s.value ++ (afterValue.1 ++ [10])) := by
    simp [ConfigLine.text]
  have hleft : ∀ b ∈ beforeKey.1 ++ s.key.name ++ afterKey.1, b ≠ 0 ∧ b ≠ 61 := by
    intro b hb
    rcases List.mem_append.mp hb with hb | hb
    · rcases List.mem_append.mp hb with hb | hb
      · exact hblank _ b hb
      · exact ⟨(hbytes b hb).1, (hbytes b hb).2.1⟩
    · exact hblank _ b hb
  have hnul : ∀ b ∈ (beforeKey.1 ++ s.key.name ++ afterKey.1) ++
      61 :: (beforeValue.1 ++ s.value ++ (afterValue.1 ++ [10])), decide (b ≠ 0) = true := by
    intro b hb
    apply decide_eq_true
    rcases List.mem_append.mp hb with hb | hb
    · exact (hleft b hb).1
    · simp only [List.mem_cons, List.mem_append, List.not_mem_nil, or_false] at hb
      rcases hb with rfl | (hb | hb) | hb | rfl
      · decide
      · exact (hblank _ b hb).1
      · exact (hvalue.inLine b hb).1
      · exact (hblank _ b hb).1
      · decide
  have hend : ∀ b ∈ afterValue.1 ++ [10], isSpace b = true := by
    intro b hb
    rcases List.mem_append.mp hb with hb | hb
    · exact (afterValue.2 b hb).1
    · obtain rfl := List.mem_singleton.mp hb
      decide
  have hlength : ¬s.value.length = 0 := fun h => hvalue.ne_nil (List.eq_nil_of_length_eq_zero h)
  rw [hline, assignment, List.takeWhile_eq_self_iff.mpr hnul,
    split_append fun b hb => (hleft b hb).2,
    trim_append (fun b hb => (beforeKey.2 b hb).1) (fun b hb => (afterKey.2 b hb).1), htrim,
    trim_append (fun b hb => (beforeValue.2 b hb).1) hend, hvalue.trimmed]
  dsimp only
  rw [if_neg hlength, hname]
  rfl

theorem ConfigLine.assignment_text (line : ConfigLine) :
    assignment (line.text ++ [10]) = line.setting?.map fun s => (s.key, s.value) := by
  cases line with
  | setting s beforeKey afterKey beforeValue afterValue =>
      exact assignment_setting s beforeKey afterKey beforeValue afterValue
  | skipped text hline hskipped => exact hskipped

theorem ConfigLine.newline_not_mem (line : ConfigLine) : ∀ b ∈ line.text, b ≠ 10 := by
  cases line with
  | setting s beforeKey afterKey beforeValue afterValue =>
      obtain ⟨-, -, hbytes⟩ := s.key.name_spec
      intro b hb
      simp only [ConfigLine.text, List.mem_append, List.mem_cons] at hb
      rcases hb with ((hb | hb) | hb) | rfl | (hb | hb) | hb
      · exact (beforeKey.2 b hb).2
      · exact (hbytes b hb).2.2
      · exact (afterKey.2 b hb).2
      · decide
      · exact (beforeValue.2 b hb).2
      · exact (s.isValue.inLine b hb).2
      · exact (afterValue.2 b hb).2
  | skipped text hline hskipped => exact hline

/-- The first line of a text. -/
theorem textLines_append {line : Bytes} (hline : ∀ b ∈ line, b ≠ 10) (rest : Bytes) :
    textLines (line ++ 10 :: rest) = (line ++ [10]) :: textLines rest := by
  induction line with
  | nil => rfl
  | cons b line ih =>
      rw [List.cons_append, textLines, if_neg (hline b List.mem_cons_self),
        ih fun b' hb' => hline b' (List.mem_cons_of_mem _ hb')]
      rfl

theorem assignments_flatMap (lines : List ConfigLine) (rest : Bytes) :
    assignments ((lines.flatMap fun line => line.text ++ [10]) ++ rest) =
      ((lines.filterMap ConfigLine.setting?).map fun s => (s.key, s.value)) ++
        assignments rest := by
  induction lines with
  | nil => rfl
  | cons line lines ih =>
      rw [List.flatMap_cons, List.append_assoc, List.append_assoc, List.singleton_append,
        assignments, textLines_append line.newline_not_mem]
      rw [assignments] at ih
      have hline := line.assignment_text
      cases hsetting : line.setting? with
      | none =>
          rw [hsetting] at hline
          rw [List.filterMap_cons_none hline, List.filterMap_cons_none hsetting, ih]
      | some s =>
          rw [hsetting] at hline
          rw [List.filterMap_cons_some hline, List.filterMap_cons_some hsetting, ih, List.map_cons,
            List.cons_append]

/-- A text without a newline is one line, or none. -/
theorem textLines_of_no_newline {line : Bytes} (hline : ∀ b ∈ line, b ≠ 10) :
    textLines line = if line = [] then [] else [line] := by
  induction line with
  | nil => rfl
  | cons b line ih =>
      rw [textLines, if_neg (hline b List.mem_cons_self),
        ih fun b' hb' => hline b' (List.mem_cons_of_mem _ hb'), if_neg (List.cons_ne_nil _ _)]
      split
      · next hnil =>
          rw [hnil]
          rfl
      · rfl

theorem assignments_of_no_newline {line : Bytes} (hline : ∀ b ∈ line, b ≠ 10) :
    assignments line = (assignment line).toList := by
  rw [assignments, textLines_of_no_newline hline]
  split
  · next hnil =>
      rw [hnil]
      rfl
  · cases hassigned : assignment line with
    | none => rw [List.filterMap_cons_none hassigned]; rfl
    | some a => rw [List.filterMap_cons_some hassigned]; rfl

theorem assignments_last (last : Option ConfigLine) :
    assignments (last.toList.flatMap ConfigLine.text) =
      (last.toList.filterMap ConfigLine.setting?).map fun s => (s.key, s.value) := by
  cases last with
  | none => rfl
  | some line =>
      rw [Option.toList_some, List.flatMap_singleton, assignments_of_no_newline
        line.newline_not_mem, ← assignment_newline, line.assignment_text]
      cases hsetting : line.setting? with
      | none => rw [List.filterMap_cons_none hsetting]; rfl
      | some s => rw [List.filterMap_cons_some hsetting]; rfl

/-- The assignments of a file are its settings. -/
theorem ConfigFile.assignments_print (file : ConfigFile) :
    assignments file.print = file.settings.map fun s => (s.key, s.value) := by
  rw [ConfigFile.print, assignments_flatMap, assignments_last, ConfigFile.settings,
    List.filterMap_append, List.map_append]

/-! ## The daemon -/

variable {file : ConfigFile} {config : Memory} {key : ConfigKey}

/-- No text of a file runs out of its field. -/
theorem ConfigFile.textsFit (file : ConfigFile) : TextsFit file.print := by
  intro a ha htext
  rw [file.assignments_print] at ha
  obtain ⟨s, -, rfl⟩ := List.mem_map.mp ha
  cases s with
  | text key value htype hvalue hfits => exact hfits
  | number key n htype hpos hle => exact (htype htext).elim

/-- A setting is the only one of its key. -/
theorem ConfigFile.assignments_cases {s : Setting} (hs : s ∈ file.settings) :
    ∃ before after, assignments file.print = before ++ (s.key, s.value) :: after ∧
      (∀ a ∈ before, a.1 ≠ s.key) ∧ ∀ a ∈ after, a.1 ≠ s.key := by
  obtain ⟨first, last, hsplit⟩ := List.append_of_mem hs
  have hdistinct : (file.settings.map Setting.key).Nodup := file.distinct
  rw [hsplit, List.map_append, List.map_cons, List.nodup_middle, List.nodup_cons] at hdistinct
  have hother : ∀ s' ∈ first ++ last, s'.key ≠ s.key := by
    intro s' hs' heq
    refine hdistinct.1 ?_
    rw [← List.map_append, ← heq]
    exact List.mem_map_of_mem hs'
  refine ⟨_, _, by rw [file.assignments_print, hsplit, List.map_append, List.map_cons], ?_, ?_⟩
  · intro a ha
    obtain ⟨s', hs', rfl⟩ := List.mem_map.mp ha
    exact hother s' (List.mem_append_left _ hs')
  · intro a ha
    obtain ⟨s', hs', rfl⟩ := List.mem_map.mp ha
    exact hother s' (List.mem_append_right _ hs')

/-- The number of a setting, before the defaults are filled in. -/
theorem setting_of_number {n : ℤ} (htype : key.type ≠ .text) (hpos : 0 < n) (hle : n ≤ key.largest)
    (hs : Setting.number key n htype hpos hle ∈ file.settings) :
    key.setting (applyStores (assignmentStores (assignments file.print)) zeroConfig) = n := by
  obtain ⟨before, after, hvalues, -, hafter⟩ := file.assignments_cases hs
  have hlargest : key.largest ≤ 2 ^ 31 - 1 := by
    unfold ConfigKey.largest
    split <;> omega
  have hatoi : atoi (formatInt n) = n := atoi_formatInt (by omega) (by omega)
  have hholds : (applyStores (assignmentStores (assignments file.print)) zeroConfig).Holds
      key.field.start (key.encode n) := by
    rw [← hatoi, ← ConfigKey.stored_of_number htype]
    intro i hi
    have hsize : i < key.field.size := by
      rwa [← ConfigKey.length_stored htype (formatInt n)]
    have hlater := not_covers_of_forall_ne
      (fun a ha => file.textsFit a (by rw [hvalues]; simp [ha])) hafter hsize
    rw [hvalues]
    exact (applyStores_of_last hlater zeroConfig).trans (Memory.store_add _ _ hi)
  rw [setting_of_holds hholds]
  rw [ConfigKey.largest] at hle
  split
  · next hint =>
      rw [if_pos hint] at hle
      apply Int.bmod_eq_of_le
      · omega
      · omega
  · next hint =>
      rw [if_neg hint] at hle
      omega

/-- The number of a key that the file does not name. -/
theorem setting_of_absent (htype : key.type ≠ .text) (hnone : ∀ s ∈ file.settings, s.key ≠ key) :
    key.setting (applyStores (assignmentStores (assignments file.print)) zeroConfig) = 0 := by
  have hother : ∀ a ∈ assignments file.print, a.1 ≠ key := by
    intro a ha
    rw [file.assignments_print] at ha
    obtain ⟨s, hs, rfl⟩ := List.mem_map.mp ha
    exact hnone s hs
  rw [← setting_zeroConfig key]
  apply setting_congr htype
  intro i hi
  exact applyStores_of_not_covers (not_covers_of_forall_ne file.textsFit hother hi) _

theorem setting_dbPort {text : Bytes}
    (hread : readConfig (some text) zeroConfig = .returned config) :
    ConfigKey.dbPort.setting config =
      ConfigKey.dbPort.setting (applyStores (assignmentStores (assignments text)) zeroConfig) := by
  apply setting_congr (by decide)
  intro i hi
  rw [readConfig_eq_returned hread, fill_apply (by decide) (by decide) (by decide) hi]

/-- What is read from a printed file is every setting of the file, and the defaults of the
keys that it does not name. -/
theorem config_roundTrip (file : ConfigFile) :
    ∃ config, readConfig (some file.print) zeroConfig = .returned config ∧
      (∀ s ∈ file.settings, s.IsIn config) ∧
      ∀ key, (∀ s ∈ file.settings, s.key ≠ key) → key.IsUnset config := by
  obtain ⟨config, hread⟩ :
      ∃ config, readConfig (some file.print) zeroConfig = .returned config := by
    rw [readConfig]
    exact ⟨_, rfl⟩
  have hkinds : ∀ key : ConfigKey, key.type ≠ .text → key ∈ ConfigKey.numbers ∨ key = .dbPort := by
    intro key htype
    cases key <;> first | exact (htype rfl).elim | decide
  refine ⟨config, hread, ?_, ?_⟩
  · intro s hs
    cases s with
    | text key value htype hvalue hfits =>
        obtain ⟨before, after, hvalues, hbefore, hafter⟩ := file.assignments_cases hs
        refine (text?_of_last file.textsFit hread htype hvalues hafter).mpr ?_
        intro earlier hearlier
        exact (hbefore _ (mem_valuesOf.mp hearlier) rfl).elim
    | number key n htype hpos hle =>
        have hstored := setting_of_number htype hpos hle hs
        change key.setting config = n
        rcases hkinds key htype with hnumber | rfl
        · rw [setting_readConfig hread hnumber, hstored, ConfigKey.filled, if_neg (by omega)]
        · rw [setting_dbPort hread, hstored]
  · intro key hnone
    refine ⟨?_, ?_, ?_⟩
    · intro htype
      apply text?_of_not_assigned file.textsFit hread htype
      intro a ha
      rw [file.assignments_print] at ha
      obtain ⟨s, hs, rfl⟩ := List.mem_map.mp ha
      exact hnone s hs
    · intro hnumber
      rw [setting_readConfig hread hnumber, setting_of_absent (type_ne_text hnumber) hnone,
        ConfigKey.filled, if_pos (by decide)]
    · rintro rfl
      rw [setting_dbPort hread, setting_of_absent (by decide) hnone]

/-- The beginning of the sample configuration, with blanks. -/
def sampleConfig : ConfigFile where
  lines :=
    [.skipped (ascii "# ip address: 0.0.0.0 or local ip or 127.0.0.1")
        (forall_mem_of_all (by decide)) (by decide),
      .setting (.text .ip (ascii "127.0.0.1") rfl
          ⟨by decide, forall_mem_of_all (by decide), by decide⟩ (by decide))
        ⟨[], by simp⟩ ⟨[], by simp⟩ ⟨[], by simp⟩ ⟨[], by simp⟩,
      .skipped [] (by simp) (by decide),
      .setting (.number .port 55555 (by decide) (by decide) (by decide))
        ⟨[], by simp⟩ ⟨[32], forall_mem_of_all (by decide)⟩
        ⟨[32], forall_mem_of_all (by decide)⟩ ⟨[13], forall_mem_of_all (by decide)⟩]
  last := some (.setting (.number .thread 4 (by decide) (by decide) (by decide))
    ⟨[], by simp⟩ ⟨[], by simp⟩ ⟨[], by simp⟩ ⟨[], by simp⟩)
  distinct := by decide

example : sampleConfig.print = ascii "# ip address: 0.0.0.0 or local ip or 127.0.0.1\n" ++
    ascii "ip=127.0.0.1\n\nport = 55555\r\nthread=4" := by
  decide +kernel

theorem config_roundTrip_sample :
    ∃ config, readConfig (some sampleConfig.print) zeroConfig = .returned config ∧
      config.text? ConfigKey.ip.field.start ConfigKey.ip.field.size = some (ascii "127.0.0.1") ∧
      ConfigKey.port.setting config = 55555 ∧ ConfigKey.thread.setting config = 4 ∧
      ConfigKey.backlog.setting config = 100 := by
  obtain ⟨config, hread, hset, hunset⟩ := config_roundTrip sampleConfig
  refine ⟨config, hread, ?_, ?_, ?_, ?_⟩
  · exact hset _ (List.mem_cons_self)
  · exact hset _ (List.mem_cons_of_mem _ List.mem_cons_self)
  · exact hset _ (List.mem_cons_of_mem _ (List.mem_cons_of_mem _ List.mem_cons_self))
  · exact (hunset .backlog (by decide)).2.1 (by decide)

end PowerJudge

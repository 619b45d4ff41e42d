import PowerJudge.Judged.ReadConfig
import PowerJudge.Support.ScanTokens

/-!
# The numbers of a configuration

`port` and `thread` are converted to 16 bits before they are tested for being
positive, so that a number outside the 16 bits is replaced by its remainder, and
by the default only where the remainder is zero.
-/

namespace PowerJudge

namespace ConfigKey

/-- The keys whose numbers have defaults. -/
def numbers : List ConfigKey := [port, thread, backlog]

theorem mem_numbers {key : ConfigKey} :
    key ∈ numbers ↔ key = port ∨ key = thread ∨ key = backlog := by
  simp [numbers]

/-- The largest number that a field can represent. -/
def largest (key : ConfigKey) : ℤ := if key.type = .int then 2 ^ 31 - 1 else 65535

def default : ConfigKey → ℤ
  | port => defaultPort
  | thread => defaultThreadNum
  | _ => defaultBacklog

/-- The number that a file writes for a key in the end. -/
def written (text : Bytes) (key : ConfigKey) : Option ℤ :=
  (valuesOf key (assignments text)).getLast?.bind numeral?

/-- What a setting should be: the number written if the field can represent it and it is
positive, and otherwise the default. -/
def expected (text : Bytes) (key : ConfigKey) : ℤ :=
  match key.written text with
  | none => key.default
  | some n => if 0 < n ∧ n ≤ key.largest then n else key.default

end ConfigKey

/-- The values written in the end are numerals in the range of an `int`. -/
def IntegersWritten (text : Bytes) : Prop :=
  ∀ key ∈ ConfigKey.numbers, ∀ value ∈ (valuesOf key (assignments text)).getLast?,
    ∃ n ∈ numeral? value, -(2 ^ 31) ≤ n ∧ n < 2 ^ 31

instance (text : Bytes) : Decidable (IntegersWritten text) :=
  inferInstanceAs (Decidable (∀ key ∈ ConfigKey.numbers, _))

/-- The assignments after the last one of a key. -/
def laterAssignments (key : ConfigKey) (values : List (ConfigKey × Bytes)) :
    List (ConfigKey × Bytes) :=
  (values.reverse.takeWhile fun a => a.1 ≠ key).reverse

/-- After the last number of a key no text runs into its field. -/
def NotReached (text : Bytes) (key : ConfigKey) : Prop :=
  ∀ a ∈ laterAssignments key (assignments text),
    a.1.type = .text → a.1.field.start + a.2.length ≤ key.field.start ∨
      key.field.start + key.field.size ≤ a.1.field.start

instance (text : Bytes) (key : ConfigKey) : Decidable (NotReached text key) :=
  inferInstanceAs (Decidable (∀ a ∈ _, _ → _))

/-- No setting is another number than expected. -/
def NumbersKept (text : Bytes) (config : Memory) : Prop :=
  ∀ key ∈ ConfigKey.numbers, key.setting config = key.expected text

instance (text : Bytes) (config : Memory) : Decidable (NumbersKept text config) :=
  inferInstanceAs (Decidable (∀ key ∈ ConfigKey.numbers, _))

/-- The number written for a 16-bit field fits it, or leaves the remainder 0 or the
default. -/
def ConfigKey.InRange (text : Bytes) (key : ConfigKey) : Prop :=
  key.type = .uint16 → ∀ n ∈ key.written text,
    (0 ≤ n ∧ n ≤ 65535) ∨ n % 65536 = 0 ∨ n % 65536 = key.default

instance (text : Bytes) (key : ConfigKey) : Decidable (key.InRange text) :=
  inferInstanceAs (Decidable (_ → ∀ n ∈ key.written text, _))

/-- The number written is in the range of the field, and no text runs into it. -/
def ConfigKey.Representable (text : Bytes) (key : ConfigKey) : Prop :=
  NotReached text key ∧ key.InRange text

instance (text : Bytes) (key : ConfigKey) : Decidable (key.Representable text) :=
  inferInstanceAs (Decidable (_ ∧ _))

/-! ## The loop -/

variable {text : Bytes} {config : Memory}

/-- Nothing has been written yet. -/
theorem setting_zeroConfig (key : ConfigKey) : key.setting zeroConfig = 0 := by
  have hbyte : ∀ i, zeroConfig i = 0 := fun _ => rfl
  unfold ConfigKey.setting Memory.int Memory.uint16
  rw [hbyte, hbyte, hbyte, hbyte]
  split
  · decide
  · decide

theorem type_ne_text {key : ConfigKey} (hkey : key ∈ ConfigKey.numbers) : key.type ≠ .text := by
  rcases ConfigKey.mem_numbers.mp hkey with rfl | rfl | rfl
  all_goals exact ConfigType.noConfusion

theorem laterAssignments_of_forall_ne {key : ConfigKey} {values : List (ConfigKey × Bytes)}
    (hne : ∀ a ∈ values, a.1 ≠ key) : laterAssignments key values = values := by
  have hall : ∀ a ∈ values.reverse, decide (a.1 ≠ key) = true :=
    fun a ha => decide_eq_true (hne a (List.mem_reverse.mp ha))
  rw [laterAssignments, List.takeWhile_eq_self_iff.mpr hall, List.reverse_reverse]

theorem laterAssignments_of_last {key : ConfigKey} {before after : List (ConfigKey × Bytes)}
    {value : Bytes} (hne : ∀ a ∈ after, a.1 ≠ key) :
    laterAssignments key (before ++ (key, value) :: after) = after := by
  have hall : ∀ a ∈ after.reverse, decide (a.1 ≠ key) = true :=
    fun a ha => decide_eq_true (hne a (List.mem_reverse.mp ha))
  rw [laterAssignments, List.reverse_append, List.reverse_cons, List.append_assoc,
    List.takeWhile_append_of_pos hall]
  simp

/-- The other lines leave the field of a number. -/
theorem not_covers_number {key : ConfigKey} (hreach : NotReached text key)
    {values : List (ConfigKey × Bytes)}
    (hvalues : laterAssignments key (assignments text) = values)
    (hne : ∀ a ∈ values, a.1 ≠ key) {i : ℕ} (hi : i < key.field.size) :
    ∀ store ∈ assignmentStores values, ¬Covers store (key.field.start + i) := by
  intro store hstore
  obtain ⟨a, ha, rfl⟩ := List.mem_map.mp hstore
  by_cases htext : a.1.type = .text
  · have hapart := hreach a (hvalues ▸ ha) htext
    rintro ⟨hlo, hhi⟩
    rw [ConfigKey.stored_of_text htext] at hhi
    dsimp only at hlo hhi
    omega
  · exact not_covers_of_ne (hne a ha) (Nat.le_of_eq (ConfigKey.length_stored htext a.2)) hi

/-- The number that a field holds after the loop. -/
def ConfigKey.converted (key : ConfigKey) : Option ℤ → ℤ
  | none => 0
  | some n => if key.type = .int then n else n % 65536

theorem setting_applyStores (hwritten : IntegersWritten text) {key : ConfigKey}
    (hkey : key ∈ ConfigKey.numbers) (hreach : NotReached text key) :
    key.setting (applyStores (assignmentStores (assignments text)) zeroConfig) =
      key.converted (key.written text) := by
  rcases values_cases key (assignments text) with hnone | ⟨before, value, after, hvalues, hafter⟩
  · have hzero : key.setting (applyStores (assignmentStores (assignments text)) zeroConfig) =
        key.setting zeroConfig := by
      apply setting_congr (type_ne_text hkey)
      intro i hi
      exact applyStores_of_not_covers
        (not_covers_number hreach (laterAssignments_of_forall_ne hnone) hnone hi) _
    rw [hzero, setting_zeroConfig, ConfigKey.written, valuesOf_eq_nil hnone]
    rfl
  · have hlast : (valuesOf key (assignments text)).getLast? = some value := by
      rw [hvalues, valuesOf_of_last hafter]
      simp
    obtain ⟨n, hn, hlo, hhi⟩ := hwritten key hkey value hlast
    have hatoi : atoi value = n := atoi_of_numeral? hn hlo hhi
    have hholds : (applyStores (assignmentStores (assignments text)) zeroConfig).Holds
        key.field.start (key.encode n) := by
      rw [← hatoi, ← ConfigKey.stored_of_number (type_ne_text hkey)]
      intro i hi
      have hsize : i < key.field.size := by
        rwa [← ConfigKey.length_stored (type_ne_text hkey) value]
      have hbehind : laterAssignments key (assignments text) = after := by
        rw [hvalues]
        exact laterAssignments_of_last hafter
      have hlater := not_covers_number hreach hbehind hafter hsize
      rw [hvalues, applyStores_of_last hlater, Memory.store_add _ _ hi]
    have hbmod : Int.bmod n (2 ^ 32) = n := by
      apply Int.bmod_eq_of_le
      · omega
      · omega
    rw [setting_of_holds hholds, hbmod, ConfigKey.written, hlast, Option.bind_some, hn]
    rfl

/-! ## The defaults -/

/-- A setting, or the default if it is not positive. -/
def ConfigKey.filled (key : ConfigKey) (n : ℤ) : ℤ := if n ≤ 0 then key.default else n

/-- Every default can be represented in its field. -/
theorem default_representable {key : ConfigKey} (hkey : key ∈ ConfigKey.numbers) :
    (if key.type = .int then Int.bmod key.default (2 ^ 32) else key.default % 65536) =
      key.default := by
  rcases ConfigKey.mem_numbers.mp hkey with rfl | rfl | rfl
  · rfl
  · rfl
  · rfl

theorem setting_fillNumber {key : ConfigKey} (hkey : key ∈ ConfigKey.numbers) (config : Memory) :
    key.setting (fillNumber key key.default config) = key.filled (key.setting config) := by
  rw [fillNumber, ConfigKey.filled]
  split
  · rw [setting_of_holds (Memory.holds_store _ _ _), default_representable hkey]
  · rfl

/-- The default of a key leaves the settings of the others. -/
theorem setting_fillNumber_of_ne {key other : ConfigKey} (hkey : key ∈ ConfigKey.numbers)
    (hother : other.type ≠ .text) (hne : key ≠ other) (config : Memory) :
    other.setting (fillNumber key key.default config) = other.setting config := by
  apply setting_congr hother
  intro i hi
  exact fillNumber_apply (type_ne_text hkey) hne hi key.default config

theorem setting_readConfig {config' : Memory}
    (hread : readConfig (some text) config = .returned config') {key : ConfigKey}
    (hkey : key ∈ ConfigKey.numbers) :
    key.setting config' =
      key.filled (key.setting (applyStores (assignmentStores (assignments text)) config)) := by
  rw [readConfig_eq_returned hread]
  generalize applyStores (assignmentStores (assignments text)) config = m
  have hport : fillPort m = fillNumber .port ConfigKey.port.default m := rfl
  have hbacklog : ∀ m, fillBacklog m = fillNumber .backlog ConfigKey.backlog.default m :=
    fun _ => rfl
  have hthread : ∀ m, fillThreadNum m = fillNumber .thread ConfigKey.thread.default m :=
    fun _ => rfl
  have htype := type_ne_text hkey
  rw [hport, hbacklog, hthread]
  rcases ConfigKey.mem_numbers.mp hkey with rfl | rfl | rfl
  · rw [setting_fillNumber_of_ne (by decide) htype (by decide),
      setting_fillNumber_of_ne (by decide) htype (by decide), setting_fillNumber hkey]
  · rw [setting_fillNumber hkey, setting_fillNumber_of_ne (by decide) htype (by decide),
      setting_fillNumber_of_ne (by decide) htype (by decide)]
  · rw [setting_fillNumber_of_ne (by decide) htype (by decide), setting_fillNumber hkey,
      setting_fillNumber_of_ne (by decide) htype (by decide)]

/-! ## All inputs -/

/-- A 16-bit setting is as expected exactly when its number fits, or leaves the remainder
0 or the default. -/
theorem filled_converted_uint16_iff {key : ConfigKey} (hkey : key = .port ∨ key = .thread) (n : ℤ) :
    key.filled (key.converted (some n)) =
        (if 0 < n ∧ n ≤ key.largest then n else key.default) ↔
      (0 ≤ n ∧ n ≤ 65535) ∨ n % 65536 = 0 ∨ n % 65536 = key.default := by
  have hdefault : 0 < key.default := by
    rcases hkey with rfl | rfl
    · decide
    · decide
  have htype : key.type ≠ .int := by
    rcases hkey with rfl | rfl
    all_goals exact ConfigType.noConfusion
  simp only [ConfigKey.filled, ConfigKey.converted, ConfigKey.largest, if_neg htype]
  split_ifs
  all_goals omega

theorem written_lt (hwritten : IntegersWritten text) {key : ConfigKey}
    (hkey : key ∈ ConfigKey.numbers) {n : ℤ} (h : key.written text = some n) : n < 2 ^ 31 := by
  obtain ⟨value, hlast, hvalue⟩ := Option.bind_eq_some_iff.mp h
  obtain ⟨n', hn', -, hhi⟩ := hwritten key hkey value hlast
  obtain rfl : n' = n := Option.some.inj (hn'.symm.trans hvalue)
  exact hhi

/-- A 16-bit setting. -/
theorem filled_uint16_eq_expected_iff {key : ConfigKey} (hkey : key = .port ∨ key = .thread) :
    key.filled (key.converted (key.written text)) = key.expected text ↔
      ∀ n, key.written text = some n →
        (0 ≤ n ∧ n ≤ 65535) ∨ n % 65536 = 0 ∨ n % 65536 = key.default := by
  rw [ConfigKey.expected]
  cases hnumber : key.written text with
  | none => exact iff_of_true rfl (by simp)
  | some n =>
      rw [filled_converted_uint16_iff hkey]
      simp

theorem filled_backlog_eq_expected (hwritten : IntegersWritten text) :
    ConfigKey.backlog.filled (ConfigKey.backlog.converted (ConfigKey.backlog.written text)) =
      ConfigKey.backlog.expected text := by
  rw [ConfigKey.expected]
  cases hnumber : ConfigKey.backlog.written text with
  | none => rfl
  | some n =>
      have hlt := written_lt hwritten (by simp [ConfigKey.numbers]) hnumber
      simp only [ConfigKey.filled, ConfigKey.converted, ConfigKey.largest, ConfigKey.type, if_true]
      split_ifs
      all_goals omega

/-- A setting that no text runs into. -/
theorem filled_converted_eq_expected_iff (hwritten : IntegersWritten text) {key : ConfigKey}
    (hkey : key ∈ ConfigKey.numbers) :
    key.filled (key.converted (key.written text)) = key.expected text ↔ key.InRange text := by
  rcases ConfigKey.mem_numbers.mp hkey with rfl | rfl | rfl
  · rw [filled_uint16_eq_expected_iff (Or.inl rfl)]
    exact ⟨fun h _ => h, fun h => h rfl⟩
  · rw [filled_uint16_eq_expected_iff (Or.inr rfl)]
    exact ⟨fun h _ => h, fun h => h rfl⟩
  · exact iff_of_true (filled_backlog_eq_expected hwritten) fun h => nomatch h

theorem setting_eq_expected_iff (hwritten : IntegersWritten text)
    (hread : readConfig (some text) zeroConfig = .returned config) {key : ConfigKey}
    (hkey : key ∈ ConfigKey.numbers) (hreach : NotReached text key) :
    key.setting config = key.expected text ↔ key.InRange text := by
  rw [setting_readConfig hread hkey, setting_applyStores hwritten hkey hreach]
  exact filled_converted_eq_expected_iff hwritten hkey

/-- No number of a configuration is replaced by another one if every number is
representable; a number whose field no text runs into is replaced exactly if it is out of
range. -/
theorem numbers_kept_iff (hwritten : IntegersWritten text)
    (hread : readConfig (some text) zeroConfig = .returned config) :
    ((∀ key ∈ ConfigKey.numbers, key.Representable text) → NumbersKept text config) ∧
      ∀ key ∈ ConfigKey.numbers, NotReached text key →
        (key.setting config = key.expected text ↔ key.InRange text) := by
  constructor
  · intro hall key hkey
    obtain ⟨hreach, hrange⟩ := hall key hkey
    exact (setting_eq_expected_iff hwritten hread hkey hreach).mpr hrange
  · intro key hkey hreach
    exact setting_eq_expected_iff hwritten hread hkey hreach

/-- A port of 17 bits. -/
def widePort : Bytes := ascii "port=65616\nthread=4\n"

/-- The port becomes 80. -/
theorem widePort_replaced :
    IntegersWritten widePort ∧ ConfigKey.port.written widePort = some 65616 ∧
    ∃ config, readConfig (some widePort) zeroConfig = .returned config ∧
      ConfigKey.port.setting config = 80 ∧ ¬NumbersKept widePort config := by
  refine ⟨by decide +kernel, by decide +kernel, _, rfl, by decide +kernel, by decide +kernel⟩

theorem numbers_kept_zero :
    ∃ config, readConfig (some (ascii "port = 0\nthread = 8\nbacklog=-1\n")) zeroConfig =
      .returned config ∧
      NumbersKept (ascii "port = 0\nthread = 8\nbacklog=-1\n") config :=
  ⟨_, rfl, (numbers_kept_iff (by decide +kernel) rfl).1 (by decide +kernel)⟩

end PowerJudge

import PowerJudge.Judged.ReadConfig

/-!
# The texts of a configuration

A value is copied over what earlier lines have put into its field, and its end
is not marked.  The last value of a key is read back exactly when no earlier one
is longer.
-/

namespace PowerJudge

/-- The value that a file assigns to a key in the end; empty if there is none. -/
def lastValue (text : Bytes) (key : ConfigKey) : Bytes :=
  (valuesOf key (assignments text)).getLastD []

/-- Every text is shorter than the field of its key. -/
def TextsFit (text : Bytes) : Prop :=
  ∀ a ∈ assignments text, a.1.type = .text → a.2.length < a.1.field.size

/-- Every field of a text holds the last value of its key. -/
def LastAssignmentWins (text : Bytes) (config : Memory) : Prop :=
  ∀ key : ConfigKey, key.type = .text →
    config.text? key.field.start key.field.size = some (lastValue text key)

/-- No value of a text is longer than the last one of its key. -/
def NoneOutlasts (text : Bytes) : Prop :=
  ∀ key : ConfigKey, key.type = .text → ∀ value ∈ valuesOf key (assignments text),
    value.length ≤ (lastValue text key).length

instance (text : Bytes) : Decidable (TextsFit text) :=
  inferInstanceAs (Decidable (∀ a ∈ assignments text, _ → _))

instance (text : Bytes) : Decidable (NoneOutlasts text) :=
  decidable_of_iff (∀ key ∈ ConfigKey.all, key.type = .text →
      ∀ value ∈ valuesOf key (assignments text), value.length ≤ (lastValue text key).length)
    ⟨fun h key => h key key.mem_all, fun h key _ => h key⟩

/-! ## Bytes of a field -/

theorem text?_congr {m m' : Memory} {start size : ℕ}
    (h : ∀ i < size, m (start + i) = m' (start + i)) :
    m.text? start size = m'.text? start size := by
  have hbytes : ((List.range size).map fun i => m (start + i)) =
      (List.range size).map fun i => m' (start + i) :=
    List.map_congr_left fun i hi => h i (List.mem_range.mp hi)
  simp only [Memory.text?, hbytes]

/-- The defaults leave the texts. -/
theorem readConfig_apply {text : Bytes} {config config' : Memory}
    (hread : readConfig (some text) config = .returned config') {key : ConfigKey}
    (hkey : key.type = .text) {i : ℕ} (hi : i < key.field.size) :
    config' (key.field.start + i) =
      applyStores (assignmentStores (assignments text)) config (key.field.start + i) := by
  have hport : key ≠ .port := by
    rintro rfl
    cases hkey
  have hbacklog : key ≠ .backlog := by
    rintro rfl
    cases hkey
  have hthread : key ≠ .thread := by
    rintro rfl
    cases hkey
  rw [readConfig_eq_returned hread, fill_apply hport hbacklog hthread hi]

/-- Only the assignments of a key write to its field. -/
theorem not_covers_of_forall_ne {values : List (ConfigKey × Bytes)}
    (hfit : ∀ a ∈ values, a.1.type = .text → a.2.length < a.1.field.size) {key : ConfigKey}
    (hne : ∀ a ∈ values, a.1 ≠ key) {i : ℕ} (hi : i < key.field.size) :
    ∀ store ∈ assignmentStores values, ¬Covers store (key.field.start + i) := by
  intro store hstore
  obtain ⟨a, ha, rfl⟩ := List.mem_map.mp hstore
  exact not_covers_of_ne (hne a ha) (length_stored_le (hfit a ha)) hi

/-- A byte that only bytes other than NUL are written to is left zero exactly when
nothing is written to it. -/
theorem applyStores_eq_zero_iff {stores : List (Field × Bytes)} {i : ℕ}
    (hnul : ∀ store ∈ stores, Covers store i → ∀ b ∈ store.2, b ≠ 0) :
    applyStores stores zeroConfig i = 0 ↔ ∀ store ∈ stores, ¬Covers store i := by
  rw [applyStores_zeroConfig, lastByte]
  rcases hlast : stores.reverse.find? fun store => decide (Covers store i) with _ | store
  · refine iff_of_true rfl ?_
    intro store hstore
    simpa using List.find?_eq_none.mp hlast store (List.mem_reverse.mpr hstore)
  · have hcovers : Covers store i := by simpa using List.find?_some hlast
    have hmem : store ∈ stores := List.mem_reverse.mp (List.mem_of_find?_eq_some hlast)
    refine iff_of_false ?_ fun hnone => hnone store hmem hcovers
    have hlt : i - store.1.start < store.2.length := Nat.sub_lt_left_of_lt_add hcovers.1 hcovers.2
    simpa [hlt] using hnul store hmem hcovers _ (List.getElem_mem hlt)

/-! ## One text -/

variable {text : Bytes} {config : Memory} {key : ConfigKey}

theorem text_value_of_mem {value : Bytes} (h : (key, value) ∈ assignments text) :
    ∀ b ∈ value, b ≠ 0 := by
  obtain ⟨line, -, hline⟩ := List.mem_filterMap.mp h
  exact (assignment_value hline).2

/-- The field of a text that is never assigned is empty. -/
theorem text?_of_not_assigned (hfit : TextsFit text)
    (hread : readConfig (some text) zeroConfig = .returned config) (hkey : key.type = .text)
    (hnone : ∀ a ∈ assignments text, a.1 ≠ key) :
    config.text? key.field.start key.field.size = some [] := by
  have hsize : 0 < key.field.size := key.size_pos
  have hzero : config.text? key.field.start key.field.size =
      zeroConfig.text? key.field.start key.field.size := by
    apply text?_congr
    intro i hi
    rw [readConfig_apply hread hkey hi]
    exact applyStores_of_not_covers (not_covers_of_forall_ne hfit hnone hi) _
  rw [hzero]
  apply Memory.text?_eq_some_iff.mpr
  refine ⟨Memory.isString_iff.mpr ⟨by simp, ?_, rfl⟩, hsize⟩
  intro i hi
  exact (Nat.not_lt_zero i hi).elim

/-- A byte of the field of a text that is assigned, after the last value. -/
theorem readConfig_apply_of_last {before after : List (ConfigKey × Bytes)} {value : Bytes}
    (hfit : TextsFit text) (hread : readConfig (some text) zeroConfig = .returned config)
    (hkey : key.type = .text) (hvalues : assignments text = before ++ (key, value) :: after)
    (hafter : ∀ a ∈ after, a.1 ≠ key) {i : ℕ} (hi : i < key.field.size) :
    config (key.field.start + i) =
      (applyStores (assignmentStores before) zeroConfig).store key.field.start value
        (key.field.start + i) := by
  have hlater := not_covers_of_forall_ne
    (fun a ha => hfit a (by rw [hvalues]; simp [ha])) hafter hi
  rw [readConfig_apply hread hkey hi, hvalues, applyStores_of_last hlater,
    ConfigKey.stored_of_text hkey]

/-- A byte of the field of a text is zero exactly when no value of the key reaches it. -/
theorem applyStores_eq_zero_iff_of_text {values : List (ConfigKey × Bytes)}
    (hfit : ∀ a ∈ values, a.1.type = .text → a.2.length < a.1.field.size)
    (hnul : ∀ value ∈ valuesOf key values, ∀ b ∈ value, b ≠ 0) (hkey : key.type = .text) {n : ℕ}
    (hn : n < key.field.size) :
    applyStores (assignmentStores values) zeroConfig (key.field.start + n) = 0 ↔
      ∀ value ∈ valuesOf key values, value.length ≤ n := by
  have howner : ∀ a ∈ values, Covers (a.1.field, a.1.stored a.2) (key.field.start + n) →
      a.1 = key := by
    intro a ha hcovers
    by_contra hne
    exact not_covers_of_ne hne (length_stored_le (hfit a ha)) hn hcovers
  rw [applyStores_eq_zero_iff]
  · constructor
    · intro hnone value hvalue
      apply Nat.le_of_not_lt
      intro hlonger
      refine hnone _ (List.mem_map.mpr ⟨_, mem_valuesOf.mp hvalue, rfl⟩) ⟨Nat.le_add_right _ _, ?_⟩
      rw [ConfigKey.stored_of_text hkey]
      exact Nat.add_lt_add_left hlonger _
    · intro hshort store hstore hcovers
      obtain ⟨⟨found, value⟩, ha, rfl⟩ := List.mem_map.mp hstore
      obtain rfl : found = key := howner _ ha hcovers
      have hle := hshort value (mem_valuesOf.mpr ha)
      have hlt := hcovers.2
      rw [ConfigKey.stored_of_text hkey] at hlt
      dsimp only at hlt
      omega
  · intro store hstore hcovers
    obtain ⟨⟨found, value⟩, ha, rfl⟩ := List.mem_map.mp hstore
    obtain rfl : found = key := howner _ ha hcovers
    rw [ConfigKey.stored_of_text hkey]
    exact hnul value (mem_valuesOf.mpr ha)

/-- The field of a text that is assigned holds the last value and, behind it, what
longer values before it have left. -/
theorem text?_of_last {before after : List (ConfigKey × Bytes)} {value : Bytes}
    (hfit : TextsFit text) (hread : readConfig (some text) zeroConfig = .returned config)
    (hkey : key.type = .text) (hvalues : assignments text = before ++ (key, value) :: after)
    (hafter : ∀ a ∈ after, a.1 ≠ key) :
    config.text? key.field.start key.field.size = some value ↔
      ∀ earlier ∈ valuesOf key before, earlier.length ≤ value.length := by
  have hmem : (key, value) ∈ assignments text := by
    rw [hvalues]
    exact List.mem_append_right _ List.mem_cons_self
  have hsubset : ∀ {a}, a ∈ before → a ∈ assignments text := by
    intro a ha
    rw [hvalues]
    exact List.mem_append_left _ ha
  have hlength : value.length < key.field.size := hfit _ hmem hkey
  have hbyte := fun {i : ℕ} (hi : i < key.field.size) =>
    readConfig_apply_of_last hfit hread hkey hvalues hafter hi
  have hholds : config.Holds key.field.start value := by
    intro i hi
    rw [hbyte (by omega), Memory.store_add]
  have hend : config (key.field.start + value.length) = 0 ↔
      ∀ earlier ∈ valuesOf key before, earlier.length ≤ value.length := by
    rw [hbyte hlength, Memory.store_of_ge _ (le_refl _)]
    exact applyStores_eq_zero_iff_of_text (fun a ha => hfit a (hsubset ha))
      (fun earlier hearlier => text_value_of_mem (hsubset (mem_valuesOf.mp hearlier))) hkey hlength
  rw [Memory.text?_eq_some_iff, Memory.isString_iff, hend]
  constructor
  · rintro ⟨⟨-, -, hshort⟩, -⟩
    exact hshort
  · intro hshort
    exact ⟨⟨text_value_of_mem hmem, hholds, hshort⟩, hlength⟩

/-! ## The whole configuration -/

/-- The last assignments of the texts win exactly when no value is longer than the
last one of its key. -/
theorem lastAssignmentWins_iff (hfit : TextsFit text)
    (hread : readConfig (some text) zeroConfig = .returned config) :
    LastAssignmentWins text config ↔ NoneOutlasts text := by
  apply forall_congr'
  intro key
  apply forall_congr'
  intro hkey
  rcases values_cases key (assignments text) with hnone | ⟨before, value, after, hvalues, hafter⟩
  · have hnil := valuesOf_eq_nil hnone
    have hempty : lastValue text key = [] := by
      rw [lastValue, hnil]
      rfl
    rw [hempty, hnil]
    exact iff_of_true (text?_of_not_assigned hfit hread hkey hnone) (by simp)
  · have hlast : lastValue text key = value := by
      rw [lastValue, hvalues, valuesOf_of_last hafter]
      simp
    rw [hlast, text?_of_last hfit hread hkey hvalues hafter, hvalues, valuesOf_of_last hafter,
      List.forall_mem_append, List.forall_mem_singleton]
    exact (and_iff_left (le_refl _)).symm

/-- An address, and a shorter one. -/
def shorterAddress : Bytes := ascii "ip=127.0.0.1\nip = 10.0.0.1\n"

/-- The last byte of the first address is left behind the second one. -/
theorem shorterAddress_read :
    TextsFit shorterAddress ∧
    lastValue shorterAddress .ip = ascii "10.0.0.1" ∧
    ∃ config, readConfig (some shorterAddress) zeroConfig = .returned config ∧
      config.text? ConfigKey.ip.field.start ConfigKey.ip.field.size = some (ascii "10.0.0.11") ∧
      ¬LastAssignmentWins shorterAddress config := by
  have hlast : lastValue shorterAddress .ip = ascii "10.0.0.1" := by
    decide +kernel
  refine ⟨by decide +kernel, hlast, _, rfl, ?_, ?_⟩
  · decide +kernel
  · intro hwins
    have hip := hwins .ip rfl
    rw [hlast] at hip
    revert hip
    decide +kernel

theorem lastAssignmentWins_of_longer :
    ∃ config, readConfig (some (ascii "ip = 10.0.0.1\nport = 80\nip=127.0.0.1\n")) zeroConfig =
      .returned config ∧
      LastAssignmentWins (ascii "ip = 10.0.0.1\nport = 80\nip=127.0.0.1\n") config :=
  ⟨_, rfl, (lastAssignmentWins_iff (by decide +kernel) rfl).mpr (by decide +kernel)⟩

end PowerJudge

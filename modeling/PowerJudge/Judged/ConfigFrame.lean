import PowerJudge.Judged.ReadConfig

/-!
# One line of a configuration

A line writes to the field of its key.  It stays there, and leaves the strings
of the other fields, when its value is shorter than the field and no string
before the field runs into it.
-/

namespace PowerJudge

/-- A scan of the C string at `start` reads the same bytes in both memories. -/
def ReadsAlike (m m' : Memory) (start : ℕ) : Prop :=
  ∀ i, (∀ j < i, m (start + j) ≠ 0) → m' (start + i) = m (start + i)

/-- A scan at `start` reads `bytes`, or their part through the first NUL. -/
def AlreadyReads (m : Memory) (start : ℕ) (bytes : Bytes) : Prop :=
  ∀ i, ∀ hi : i < bytes.length, (∀ j, ∀ hj : j < i, bytes[j] ≠ 0) → m (start + i) = bytes[i]

/-- Setting a key changes the bytes of its field only and leaves the strings of the
other fields, and a value that is too long leaves its own field terminated. -/
structure SetsOnlyItsField (config config' : Memory) (key : ConfigKey) (value : Bytes) :
    Prop where
  frame : ∀ i, i < key.field.start ∨ key.field.start + key.field.size ≤ i → config' i = config i
  others : ∀ other : ConfigKey, other ≠ key → other.type = .text →
    ReadsAlike config config' other.field.start
  terminated : key.type = .text → key.field.size ≤ value.length →
    config'.text? key.field.start key.field.size ≠ none

/-- A line sets the field of its key only, or nothing if it assigns nothing. -/
def LineSetsOnlyItsField (config : Memory) (line : Bytes) : Prop :=
  match assignment line with
  | none => readLine config line = config
  | some (key, value) => SetsOnlyItsField config (readLine config line) key value

/-- The value of a line is shorter than its field, and the strings before the field end
there unless they already go on with it. -/
def LineIsSeparate (config : Memory) (line : Bytes) : Prop :=
  ∀ key value, assignment line = some (key, value) →
    (key.type = .text → value.length < key.field.size) ∧
      (AlreadyReads config key.field.start (key.stored value) ∨
        ∀ other : ConfigKey, other.type = .text → other.field.start < key.field.start →
          config.text? other.field.start (key.field.start - other.field.start) ≠ none)

/-! ## Scans over a store -/

variable {config : Memory}

theorem readsAlike_store_iff {start : ℕ} {bytes : Bytes} :
    ReadsAlike config (config.store start bytes) start ↔ AlreadyReads config start bytes := by
  constructor
  · intro h i
    induction i using Nat.strongRecOn with
    | ind i ih =>
        intro hi hnul
        have hearlier : ∀ j < i, config (start + j) ≠ 0 := by
          intro j hj
          rw [ih j hj (by omega) fun k hk => hnul k (by omega)]
          exact hnul j hj
        have hread := h i hearlier
        rw [Memory.store_add _ _ hi] at hread
        exact hread.symm
  · intro h i hnul
    rcases Nat.lt_or_ge i bytes.length with hlt | hge
    · have hsame : ∀ j, ∀ hj : j ≤ i, config (start + j) = bytes[j] := by
        intro j
        induction j using Nat.strongRecOn with
        | ind j ih =>
            intro hj
            apply h j
            intro k hk
            rw [← ih k hk (by omega)]
            exact hnul k (by omega)
      rw [Memory.store_add _ _ hlt, hsame i (le_refl i)]
    · exact Memory.store_of_ge _ (by omega)

/-- A string that ends before a store is left. -/
theorem readsAlike_of_terminated {start start' : ℕ} {bytes : Bytes}
    (hends : config.text? start (start' - start) ≠ none) :
    ReadsAlike config (config.store start' bytes) start := by
  intro i hnul
  apply Memory.store_of_lt
  by_contra hge
  apply hends
  apply Memory.text?_eq_none_iff.mpr
  intro j hj
  exact hnul j (by omega)

/-- A string that runs into a store goes on as the string there. -/
theorem readsAlike_iff_of_runsInto {start start' : ℕ} {bytes : Bytes} (hle : start ≤ start')
    (hruns : config.text? start (start' - start) = none) :
    ReadsAlike config (config.store start' bytes) start ↔
      ReadsAlike config (config.store start' bytes) start' := by
  rw [Memory.text?_eq_none_iff] at hruns
  constructor
  · intro h i hnul
    have hoffset : start + (start' - start + i) = start' + i := by omega
    rw [← hoffset]
    apply h
    intro j hj
    rcases Nat.lt_or_ge j (start' - start) with hlt | hge
    · exact hruns j hlt
    · have hbyte := hnul (j - (start' - start)) (by omega)
      rwa [show start' + (j - (start' - start)) = start + j by omega] at hbyte
  · intro h i hnul
    rcases Nat.lt_or_ge i (start' - start) with hlt | hge
    · exact Memory.store_of_lt _ _ (by omega)
    · have hoffset : start' + (i - (start' - start)) = start + i := by omega
      rw [← hoffset]
      apply h
      intro j hj
      have hbyte := hnul (start' - start + j) (by omega)
      rwa [show start + (start' - start + j) = start' + j by omega] at hbyte

/-! ## One assignment -/

/-- A text that does not fit leaves its field unterminated. -/
theorem text?_of_too_long {key : ConfigKey} {value : Bytes} (hkey : key.type = .text)
    (hnul : ∀ b ∈ value, b ≠ 0) (hlong : key.field.size ≤ value.length) :
    (config.store key.field.start (key.stored value)).text? key.field.start key.field.size =
      none := by
  rw [ConfigKey.stored_of_text hkey]
  apply Memory.text?_eq_none_iff.mpr
  intro i hi
  have hlt : i < value.length := Nat.lt_of_lt_of_le hi hlong
  rw [Memory.store_add _ _ hlt]
  exact hnul _ (List.getElem_mem hlt)

/-- A string behind a store that fits its field is left. -/
theorem readsAlike_of_after {key other : ConfigKey} {bytes : Bytes}
    (hfit : bytes.length ≤ key.field.size)
    (hafter : key.field.start + key.field.size ≤ other.field.start) :
    ReadsAlike config (config.store key.field.start bytes) other.field.start := by
  intro i _
  exact Memory.store_of_ge _ (by omega)

theorem setsOnlyItsField_iff {key : ConfigKey} {value : Bytes} (hnul : ∀ b ∈ value, b ≠ 0) :
    SetsOnlyItsField config (config.store key.field.start (key.stored value)) key value ↔
      (key.type = .text → value.length < key.field.size) ∧
        (AlreadyReads config key.field.start (key.stored value) ∨
          ∀ other : ConfigKey, other.type = .text → other.field.start < key.field.start →
            config.text? other.field.start (key.field.start - other.field.start) ≠ none) := by
  constructor
  · intro h
    constructor
    · intro hkey
      apply Nat.lt_of_not_le
      intro hlong
      exact h.terminated hkey hlong (text?_of_too_long hkey hnul hlong)
    · by_cases hends : ∀ other : ConfigKey, other.type = .text →
          other.field.start < key.field.start →
          config.text? other.field.start (key.field.start - other.field.start) ≠ none
      · exact Or.inr hends
      · push Not at hends
        obtain ⟨other, hother, hbefore, hruns⟩ := hends
        have hne : other ≠ key := by
          rintro rfl
          exact Nat.lt_irrefl _ hbefore
        have hreads := h.others other hne hother
        rw [readsAlike_iff_of_runsInto (Nat.le_of_lt hbefore) hruns] at hreads
        exact Or.inl (readsAlike_store_iff.mp hreads)
  · rintro ⟨hshort, hreads⟩
    have hfit : (key.stored value).length ≤ key.field.size := length_stored_le hshort
    refine ⟨?_, ?_, ?_⟩
    · intro i hi
      have hcovers : ¬Covers (key.field, key.stored value) i := by
        rintro ⟨hlo, hhi⟩
        dsimp only at hlo hhi
        omega
      exact store_of_not_covers hcovers _
    · intro other hne hother
      rcases ConfigKey.apart_of_ne hne with hbefore | hafter
      · by_cases hends :
            config.text? other.field.start (key.field.start - other.field.start) = none
        · have hlt : other.field.start < key.field.start := by
            have hsize : 0 < other.field.size := other.size_pos
            omega
          rw [readsAlike_iff_of_runsInto (Nat.le_of_lt hlt) hends]
          apply readsAlike_store_iff.mpr
          exact hreads.resolve_right fun h => h other hother hlt hends
        · exact readsAlike_of_terminated hends
      · exact readsAlike_of_after hfit hafter
    · intro hkey hlong
      exact absurd (hshort hkey) (Nat.not_lt.mpr hlong)

/-- A line sets its field only exactly when its value is shorter than the field and the
strings before the field end there, unless they already go on with the value. -/
theorem lineSetsOnlyItsField_iff (config : Memory) (line : Bytes) :
    LineSetsOnlyItsField config line ↔ LineIsSeparate config line := by
  unfold LineSetsOnlyItsField LineIsSeparate
  cases hline : assignment line with
  | none => exact iff_of_true (by rw [readLine, hline]) (by simp)
  | some a =>
      obtain ⟨key, value⟩ := a
      have hread : readLine config line = config.store key.field.start (key.stored value) := by
        rw [readLine, hline]
      simp only [hread, setsOnlyItsField_iff (assignment_value hline).2]
      constructor
      · rintro h _ _ ⟨⟩
        exact h
      · exact fun h => h key value rfl

/-- An address with a port, one byte longer than its field. -/
def addressWithPort : Bytes := ascii "ip=192.168.100.100:55555"

/-- Its last digit is written to the port, and the address is not terminated. -/
theorem addressWithPort_written :
    (readLine zeroConfig addressWithPort).uint16 ConfigKey.port.field.start = 53 ∧
    (readLine zeroConfig addressWithPort).text? ConfigKey.ip.field.start
      ConfigKey.ip.field.size = none ∧
    ¬LineSetsOnlyItsField zeroConfig addressWithPort := by
  have hline : assignment addressWithPort = some (.ip, ascii "192.168.100.100:55555") := by
    decide +kernel
  have hbyte : readLine zeroConfig addressWithPort 20 = 53 := by
    decide +kernel
  refine ⟨by decide +kernel, by decide +kernel, ?_⟩
  intro h
  rw [LineSetsOnlyItsField, hline] at h
  have hframe := h.frame 20 (Or.inr (le_refl 20))
  rw [hbyte] at hframe
  exact absurd hframe (by decide)

end PowerJudge

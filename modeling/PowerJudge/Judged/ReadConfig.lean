import Mathlib.Data.List.Pairwise
import Mathlib.Data.List.TakeWhile
import PowerJudge.Judged.Connection
import PowerJudge.Support.Lines

/-!
# The configuration of the daemon

`read_config` copies the values of a file of `key=value` lines into an
`oj_config_t`.  The configuration is its bytes: a text is copied by the length
of the value, without a terminator and whatever the size of the field.
-/

namespace PowerJudge

/-! ## Keys and fields -/

/-- The keys that `read_config` tests for, in the order of the tests. -/
inductive ConfigKey where
  | ip | port | thread | backlog | password | dataDir | tempDir | dbHost | dbPort | dbUser
  | dbPassword | dbDatabase | apiUrl | userAgent
  deriving DecidableEq, Repr

/-- The type of a field of `oj_config_t`. -/
inductive ConfigType where
  | text | uint16 | int
  deriving DecidableEq, Repr

namespace ConfigKey

def all : List ConfigKey :=
  [ip, port, thread, backlog, password, dataDir, tempDir, dbHost, dbPort, dbUser, dbPassword,
    dbDatabase, apiUrl, userAgent]

def name : ConfigKey → Bytes
  | ip => ascii "ip"
  | port => ascii "port"
  | thread => ascii "thread"
  | backlog => ascii "backlog"
  | password => ascii "password"
  | dataDir => ascii "data.dir"
  | tempDir => ascii "temp.dir"
  | dbHost => ascii "db.host"
  | dbPort => ascii "db.port"
  | dbUser => ascii "db.user"
  | dbPassword => ascii "db.password"
  | dbDatabase => ascii "db.database"
  | apiUrl => ascii "api.url"
  | userAgent => ascii "user.agent"

def type : ConfigKey → ConfigType
  | port => .uint16
  | thread => .uint16
  | backlog => .int
  | dbPort => .uint16
  | _ => .text

/-- The field of `oj_config_t`; `backlog` is aligned to four bytes. -/
def field : ConfigKey → Field
  | ip => ⟨0, 20⟩
  | port => ⟨20, 2⟩
  | backlog => ⟨24, 4⟩
  | password => ⟨28, 256⟩
  | dataDir => ⟨284, 4096⟩
  | tempDir => ⟨4380, 4096⟩
  | dbHost => ⟨8476, 256⟩
  | dbPort => ⟨8732, 2⟩
  | dbUser => ⟨8734, 256⟩
  | dbPassword => ⟨8990, 256⟩
  | dbDatabase => ⟨9246, 256⟩
  | apiUrl => ⟨9502, 256⟩
  | userAgent => ⟨9758, 256⟩
  | thread => ⟨10014, 2⟩

/-- The key that `strcmp` finds. -/
def ofName (text : Bytes) : Option ConfigKey := all.find? fun key => key.name = text

/-- The bytes of a number in a field. -/
def encode (key : ConfigKey) (n : ℤ) : Bytes :=
  if key.type = .int then Memory.intBytes n else Memory.uint16Bytes n

/-- The number in a field. -/
def setting (config : Memory) (key : ConfigKey) : ℤ :=
  if key.type = .int then config.int key.field.start else config.uint16 key.field.start

/-- What is written for a value: `strncpy` of its length, or `atoi` of it. -/
def stored (key : ConfigKey) (value : Bytes) : Bytes :=
  match key.type with
  | .text => value
  | .uint16 => Memory.uint16Bytes (atoi value)
  | .int => Memory.intBytes (atoi value)

end ConfigKey

/-! ## `split` -/

/-- `trim`. -/
def trim (text : Bytes) : Bytes :=
  ((text.dropWhile isSpace).reverse.dropWhile isSpace).reverse

/-- `split` at the first `'='` of a C string; `none` if there is none. -/
def split (line : Bytes) : Option (Bytes × Bytes) :=
  if 61 ∈ line then
    some (trim (line.takeWhile fun b => b ≠ 61), trim ((line.dropWhile fun b => b ≠ 61).drop 1))
  else none

/-- The key that a line assigns a value to.  A line is read as a C string, and
skipped when its value is empty. -/
def assignment (line : Bytes) : Option (ConfigKey × Bytes) :=
  match split (line.takeWhile fun b => b ≠ 0) with
  | none => none
  | some (key, value) =>
      if value.length = 0 then none
      else (ConfigKey.ofName key).map fun key => (key, value)

/-! ## `read_config` -/

/-- One iteration of the loop of `read_config`. -/
def readLine (config : Memory) (line : Bytes) : Memory :=
  match assignment line with
  | none => config
  | some (key, value) => config.store key.field.start (key.stored value)

/-- `oj_config_t oj_config;` -/
def zeroConfig : Memory := fun _ => 0

def defaultPort : ℤ := 55555

def defaultThreadNum : ℤ := 1

def defaultBacklog : ℤ := 100

/-- A setting that is not positive is replaced by its default. -/
def fillNumber (key : ConfigKey) (default : ℤ) (config : Memory) : Memory :=
  if key.setting config ≤ 0 then config.store key.field.start (key.encode default) else config

def fillPort : Memory → Memory := fillNumber .port defaultPort

def fillBacklog : Memory → Memory := fillNumber .backlog defaultBacklog

def fillThreadNum : Memory → Memory := fillNumber .thread defaultThreadNum

/-- `read_config`; a file that cannot be opened ends the daemon. -/
def readConfig (file : Option Bytes) (config : Memory) : Outcome ExitReason Memory :=
  match file with
  | none => .exited .failure
  | some text =>
      .returned (fillThreadNum (fillBacklog (fillPort ((textLines text).foldl readLine config))))

/-! ## The stores of a file -/

/-- The assignments of a file, in order. -/
def assignments (text : Bytes) : List (ConfigKey × Bytes) := (textLines text).filterMap assignment

def assignmentStores (values : List (ConfigKey × Bytes)) : List (Field × Bytes) :=
  values.map fun a => (a.1.field, a.1.stored a.2)

theorem foldl_readLine (lines : List Bytes) (config : Memory) :
    lines.foldl readLine config =
      applyStores (assignmentStores (lines.filterMap assignment)) config := by
  induction lines generalizing config with
  | nil => rfl
  | cons line lines ih =>
      rw [List.foldl_cons, ih, readLine]
      cases hline : assignment line with
      | none => rw [List.filterMap_cons_none hline]
      | some a =>
          rw [List.filterMap_cons_some hline]
          rfl

theorem mem_trim {text : Bytes} {b : UInt8} (hb : b ∈ trim text) : b ∈ text := by
  rw [trim, List.mem_reverse] at hb
  have hkept := List.mem_reverse.mp ((List.dropWhile_sublist _).mem hb)
  exact (List.dropWhile_sublist _).mem hkept

theorem mem_of_split {line key value : Bytes} (h : split line = some (key, value)) {b : UInt8}
    (hb : b ∈ value) : b ∈ line := by
  rw [split] at h
  split at h
  · cases h
    exact (List.dropWhile_sublist _).mem (List.mem_of_mem_drop (mem_trim hb))
  · cases h

/-- An assigned value is a C string and not empty. -/
theorem assignment_value {line : Bytes} {key : ConfigKey} {value : Bytes}
    (h : assignment line = some (key, value)) : value ≠ [] ∧ ∀ b ∈ value, b ≠ 0 := by
  rw [assignment] at h
  split at h
  · cases h
  · next name text hsplit =>
      split_ifs at h with hempty
      obtain ⟨found, -, hfound⟩ := Option.map_eq_some_iff.mp h
      cases hfound
      refine ⟨fun hnil => hempty (by rw [hnil]; rfl), ?_⟩
      intro b hb
      have hmem := mem_of_split hsplit hb
      simpa using List.mem_takeWhile_imp hmem

/-! ## Bytes outside the stores -/

/-- A store writes the byte at an offset. -/
def Covers (store : Field × Bytes) (i : ℕ) : Prop :=
  store.1.start ≤ i ∧ i < store.1.start + store.2.length

instance (store : Field × Bytes) (i : ℕ) : Decidable (Covers store i) :=
  inferInstanceAs (Decidable (_ ∧ _))

theorem applyStores_append (stores later : List (Field × Bytes)) (config : Memory) :
    applyStores (stores ++ later) config = applyStores later (applyStores stores config) :=
  List.foldl_append

theorem store_of_not_covers {store : Field × Bytes} {i : ℕ} (h : ¬Covers store i)
    (config : Memory) : config.store store.1.start store.2 i = config i := by
  rw [Covers] at h
  rcases Nat.lt_or_ge i store.1.start with hlt | hge
  · exact config.store_of_lt store.2 hlt
  · exact config.store_of_ge (by omega)

/-- The bytes that no store covers are left. -/
theorem applyStores_of_not_covers {stores : List (Field × Bytes)} {i : ℕ}
    (h : ∀ store ∈ stores, ¬Covers store i) (config : Memory) :
    applyStores stores config i = config i := by
  induction stores generalizing config with
  | nil => rfl
  | cons store stores ih =>
      have hlater := ih fun later hlater => h later (List.mem_cons_of_mem _ hlater)
      calc
        applyStores (store :: stores) config i =
            applyStores stores (config.store store.1.start store.2) i := rfl
        _ = config.store store.1.start store.2 i := hlater _
        _ = config i := store_of_not_covers (h store List.mem_cons_self) config

/-- The byte that the last of some stores over an offset puts there. -/
def lastByte (stores : List (Field × Bytes)) (i : ℕ) : UInt8 :=
  match stores.reverse.find? fun store => Covers store i with
  | none => 0
  | some store => (store.2[i - store.1.start]?).getD 0

theorem applyStores_concat (stores : List (Field × Bytes)) (store : Field × Bytes)
    (config : Memory) :
    applyStores (stores ++ [store]) config =
      (applyStores stores config).store store.1.start store.2 :=
  applyStores_append stores [store] config

/-- Every byte is left by the last store over it. -/
theorem applyStores_zeroConfig (stores : List (Field × Bytes)) (i : ℕ) :
    applyStores stores zeroConfig i = lastByte stores i := by
  induction stores using List.reverseRecOn with
  | nil => rfl
  | append_singleton stores store ih =>
      rw [applyStores_concat, lastByte, List.reverse_append, List.reverse_singleton,
        List.singleton_append]
      by_cases hcovers : Covers store i
      · rw [List.find?_cons_of_pos (by simpa using hcovers)]
        obtain ⟨n, rfl⟩ := Nat.exists_eq_add_of_le hcovers.1
        have hn : n < store.2.length := Nat.lt_of_add_lt_add_left hcovers.2
        rw [Memory.store_add _ _ hn]
        simp [hn]
      · rw [List.find?_cons_of_neg (by simpa using hcovers), store_of_not_covers hcovers, ih]
        rfl

/-! ## The layout -/

namespace ConfigKey

theorem mem_all (key : ConfigKey) : key ∈ all := by
  cases key <;> decide

theorem pairwise_all : all.Pairwise fun key other => key.field.Apart other.field := by
  decide

/-- The fields of different keys do not overlap. -/
theorem apart_of_ne {key other : ConfigKey} (h : key ≠ other) : key.field.Apart other.field := by
  have hsymm : Std.Symm fun key other : ConfigKey => key.field.Apart other.field :=
    ⟨fun _ _ hapart => Or.symm hapart⟩
  exact pairwise_all.forall key.mem_all other.mem_all h

theorem size_pos (key : ConfigKey) : 0 < key.field.size := by
  cases key <;> decide

/-- A number fills its field. -/
theorem length_encode {key : ConfigKey} (h : key.type ≠ .text) (n : ℤ) :
    (key.encode n).length = key.field.size := by
  cases key with
  | port => rfl
  | thread => rfl
  | backlog => rfl
  | dbPort => rfl
  | _ => exact (h rfl).elim

theorem stored_of_number {key : ConfigKey} (h : key.type ≠ .text) (value : Bytes) :
    key.stored value = key.encode (atoi value) := by
  rw [stored, encode]
  cases htype : key.type with
  | text => exact (h htype).elim
  | uint16 => rfl
  | int => rfl

theorem length_stored {key : ConfigKey} (h : key.type ≠ .text) (value : Bytes) :
    (key.stored value).length = key.field.size := by
  rw [stored_of_number h, length_encode h]

theorem stored_of_text {key : ConfigKey} (h : key.type = .text) (value : Bytes) :
    key.stored value = value := by
  rw [stored, h]

end ConfigKey

/-- A text that fits its field, or a number, stays in it. -/
theorem length_stored_le {key : ConfigKey} {value : Bytes}
    (h : key.type = .text → value.length < key.field.size) :
    (key.stored value).length ≤ key.field.size := by
  by_cases htext : key.type = .text
  · rw [ConfigKey.stored_of_text htext]
    exact Nat.le_of_lt (h htext)
  · exact Nat.le_of_eq (ConfigKey.length_stored htext value)

/-- A store that fits its field covers no byte of another field. -/
theorem not_covers_of_ne {key other : ConfigKey} {bytes : Bytes} {i : ℕ} (hne : other ≠ key)
    (hfit : bytes.length ≤ other.field.size) (hi : i < key.field.size) :
    ¬Covers (other.field, bytes) (key.field.start + i) := by
  rintro ⟨hlo, hhi⟩
  dsimp only at hlo hhi
  have hapart := ConfigKey.apart_of_ne hne
  rw [Field.Apart] at hapart
  omega

/-! ## The numbers -/

/-- The number of a field depends on its bytes only. -/
theorem setting_congr {config config' : Memory} {key : ConfigKey} (htype : key.type ≠ .text)
    (h : ∀ i < key.field.size, config' (key.field.start + i) = config (key.field.start + i)) :
    key.setting config' = key.setting config := by
  rw [← ConfigKey.length_encode htype 0] at h
  rw [ConfigKey.setting, ConfigKey.setting]
  split
  · next hint =>
      rw [ConfigKey.encode, if_pos hint] at h
      exact Memory.int_congr h
  · next hint =>
      rw [ConfigKey.encode, if_neg hint] at h
      exact Memory.uint16_congr h

/-- The number of a field that one has been written to. -/
theorem setting_of_holds {config : Memory} {key : ConfigKey} {n : ℤ}
    (h : config.Holds key.field.start (key.encode n)) :
    key.setting config = if key.type = .int then Int.bmod n (2 ^ 32) else n % 65536 := by
  rw [ConfigKey.setting]
  rw [ConfigKey.encode] at h
  split
  · next hint =>
      rw [if_pos hint] at h
      exact h.int_eq
  · next hint =>
      rw [if_neg hint] at h
      exact h.uint16_eq

/-- A default leaves the fields of the other keys. -/
theorem fillNumber_apply {key other : ConfigKey} (htype : key.type ≠ .text) (hne : key ≠ other)
    {i : ℕ} (hi : i < other.field.size) (default : ℤ) (config : Memory) :
    fillNumber key default config (other.field.start + i) = config (other.field.start + i) := by
  rw [fillNumber]
  split
  · have hfit := Nat.le_of_eq (ConfigKey.length_encode htype default)
    exact store_of_not_covers (not_covers_of_ne hne hfit hi) config
  · rfl

/-- The defaults leave the field of a key that has none. -/
theorem fill_apply {key : ConfigKey} (hport : key ≠ .port) (hbacklog : key ≠ .backlog)
    (hthread : key ≠ .thread) {i : ℕ} (hi : i < key.field.size) (config : Memory) :
    fillThreadNum (fillBacklog (fillPort config)) (key.field.start + i) =
      config (key.field.start + i) := by
  rw [fillThreadNum, fillBacklog, fillPort, fillNumber_apply (by decide) hthread.symm hi,
    fillNumber_apply (by decide) hbacklog.symm hi, fillNumber_apply (by decide) hport.symm hi]

/-! ## The values of a key -/

/-- The values assigned to a key, in order. -/
def valuesOf (key : ConfigKey) (values : List (ConfigKey × Bytes)) : List Bytes :=
  values.filterMap fun a => if a.1 = key then some a.2 else none

theorem valuesOf_eq_nil {key : ConfigKey} {values : List (ConfigKey × Bytes)}
    (h : ∀ a ∈ values, a.1 ≠ key) : valuesOf key values = [] := by
  rw [valuesOf, List.filterMap_eq_nil_iff]
  exact fun a ha => if_neg (h a ha)

theorem mem_valuesOf {key : ConfigKey} {values : List (ConfigKey × Bytes)} {value : Bytes} :
    value ∈ valuesOf key values ↔ (key, value) ∈ values := by
  rw [valuesOf, List.mem_filterMap]
  constructor
  · rintro ⟨⟨found, text⟩, hmem, hvalue⟩
    split_ifs at hvalue with hkey
    cases hvalue
    exact hkey ▸ hmem
  · intro hmem
    exact ⟨(key, value), hmem, if_pos rfl⟩

/-- A key has no value, or a last one. -/
theorem values_cases (key : ConfigKey) (values : List (ConfigKey × Bytes)) :
    (∀ a ∈ values, a.1 ≠ key) ∨
      ∃ before value after, values = before ++ (key, value) :: after ∧
        ∀ a ∈ after, a.1 ≠ key := by
  induction values with
  | nil => exact Or.inl (by simp)
  | cons a values ih =>
      rcases ih with hnone | ⟨before, value, after, rfl, hafter⟩
      · by_cases hkey : a.1 = key
        · exact Or.inr ⟨[], a.2, values, by rw [← hkey]; rfl, hnone⟩
        · exact Or.inl (List.forall_mem_cons.mpr ⟨hkey, hnone⟩)
      · exact Or.inr ⟨a :: before, value, after, rfl, hafter⟩

theorem valuesOf_of_last {key : ConfigKey} {before after : List (ConfigKey × Bytes)}
    {value : Bytes} (hafter : ∀ a ∈ after, a.1 ≠ key) :
    valuesOf key (before ++ (key, value) :: after) = valuesOf key before ++ [value] := by
  have hnil : valuesOf key after = [] := valuesOf_eq_nil hafter
  rw [valuesOf] at hnil
  simp [valuesOf, hnil]

/-- After the last assignment of a key the bytes of the value are left by the stores
that do not cover them. -/
theorem applyStores_of_last {key : ConfigKey} {before after : List (ConfigKey × Bytes)}
    {value : Bytes} {i : ℕ} (hafter : ∀ store ∈ assignmentStores after, ¬Covers store i)
    (config : Memory) :
    applyStores (assignmentStores (before ++ (key, value) :: after)) config i =
      (applyStores (assignmentStores before) config).store key.field.start
        (key.stored value) i := by
  rw [assignmentStores, List.map_append, applyStores_append, List.map_cons]
  exact applyStores_of_not_covers hafter _

/-- The stores of a file after the loop are completed by the defaults. -/
theorem readConfig_eq_returned {text : Bytes} {config config' : Memory}
    (h : readConfig (some text) config = .returned config') :
    config' = fillThreadNum (fillBacklog (fillPort
      (applyStores (assignmentStores (assignments text)) config))) := by
  rw [readConfig, foldl_readLine] at h
  exact (Outcome.returned.inj h).symm

end PowerJudge

import WorkflowEngine.Kinds
import WorkflowEngine.Time

/-!
# Engine options

Retry policy, default unit of delays, and the settings of the scheduler. Options come under two
spellings; unknown ones and values out of range are refused.
-/
namespace WorkflowEngine

/-- The wait before a retry lies between the base and the cap. -/
structure EngineConfig where
  maxAttempts : Nat := 3
  backoffBase : Nat := 30
  backoffCap : Nat := 3600
  defaultDelayUnit : DelayUnit := .minutes
  pollBatchSize : Nat := 50
  staleClaim : Nat := 300
  invokerTimeout : Nat := 900
  maxAttempts_pos : 1 ≤ maxAttempts := by decide
  pollBatchSize_pos : 1 ≤ pollBatchSize := by decide
  base_le_cap : backoffBase ≤ backoffCap := by decide
  deriving DecidableEq, Repr

/-- Why options are refused. -/
inductive ConfigError where
  | unknownOption (name : String)
  | notADelayUnit (value : Value)
  | notPositive (option : String) (value : Value)
  | negative (option : String) (value : Value)
  | capBelowBase
  deriving DecidableEq, Repr

namespace ConfigError

def message : ConfigError → String
  | unknownOption name => "Unknown engine option: " ++ Text.Quoted.encode name
  | notADelayUnit value =>
    "default_delay_unit must be one of " ++
      (Value.list (DelayUnit.all.map Choice.toValue)).quoted ++ ", got " ++ value.quoted
  | notPositive option value => option ++ " must be a positive integer, got " ++ value.quoted
  | negative option value => option ++ " must be a non-negative integer, got " ++ value.quoted
  | capBelowBase => "backoff_cap_seconds must not be lower than backoff_base_seconds"

end ConfigError

namespace EngineConfig

instance : Inhabited EngineConfig := ⟨{}⟩

/-- The two spellings of each option. -/
def spellings : List (String × String) :=
  [("maxAttempts", "max_attempts"), ("backoffBaseSeconds", "backoff_base_seconds"),
    ("backoffCapSeconds", "backoff_cap_seconds"), ("defaultDelayUnit", "default_delay_unit"),
    ("pollBatchSize", "poll_batch_size"), ("staleClaimSeconds", "stale_claim_seconds"),
    ("invokerTimeoutSeconds", "invoker_timeout_seconds")]

/-- The name of an option under either spelling. -/
def optionName? (key : String) : Option String :=
  let name := (spellings.lookup key).getD key
  if spellings.any (·.2 == name) then some name else none

/-- The options under their names; a later one replaces an earlier one of the same name. -/
def named : Record → Except ConfigError Record
  | [] => .ok []
  | (key, value) :: rest =>
    match optionName? key with
    | none => .error (.unknownOption key)
    | some name => do
      let others ← named rest
      return if others.any (·.1 == name) then others else (name, value) :: others

/-- An option that must be an integer not below a bound. -/
def readNat (options : Record) (option : String) (preset least : Nat)
    (refuse : String → Value → ConfigError) : Except ConfigError { n : Nat // least ≤ n } :=
  match options.lookup option with
  | none => if h : least ≤ preset then .ok ⟨preset, h⟩ else .error (refuse option (.ofNat preset))
  | some (.int n) =>
    if h : least ≤ n.toNat ∧ 0 ≤ n then .ok ⟨n.toNat, h.1⟩ else .error (refuse option (.int n))
  | some v => .error (refuse option v)

def readUnit (options : Record) : Except ConfigError DelayUnit :=
  match options.lookup "default_delay_unit" with
  | none => .ok .minutes
  | some v =>
    match Choice.ofValue DelayUnit v with
    | .ok unit => .ok unit
    | .error _ => .error (.notADelayUnit v)

/-- The configuration that options describe. -/
def ofRecord (options : Record) : Except ConfigError EngineConfig := do
  let options ← named options
  let defaultDelayUnit ← readUnit options
  let maxAttempts ← readNat options "max_attempts" 3 1 .notPositive
  let pollBatchSize ← readNat options "poll_batch_size" 50 1 .notPositive
  let backoffBase ← readNat options "backoff_base_seconds" 30 0 .negative
  let backoffCap ← readNat options "backoff_cap_seconds" 3600 0 .negative
  let staleClaim ← readNat options "stale_claim_seconds" 300 0 .negative
  let invokerTimeout ← readNat options "invoker_timeout_seconds" 900 0 .negative
  if h : backoffBase.1 ≤ backoffCap.1 then
    return {
      maxAttempts := maxAttempts.1
      backoffBase := backoffBase.1
      backoffCap := backoffCap.1
      defaultDelayUnit
      pollBatchSize := pollBatchSize.1
      staleClaim := staleClaim.1
      invokerTimeout := invokerTimeout.1
      maxAttempts_pos := maxAttempts.2
      pollBatchSize_pos := pollBatchSize.2
      base_le_cap := h }
  else throw .capBelowBase

def toRecord (c : EngineConfig) : Record :=
  [("max_attempts", .ofNat c.maxAttempts), ("backoff_base_seconds", .ofNat c.backoffBase),
    ("backoff_cap_seconds", .ofNat c.backoffCap),
    ("default_delay_unit", Choice.toValue c.defaultDelayUnit),
    ("poll_batch_size", .ofNat c.pollBatchSize), ("stale_claim_seconds", .ofNat c.staleClaim),
    ("invoker_timeout_seconds", .ofNat c.invokerTimeout)]

/-- The wait after so many failed attempts: the base, doubled for each attempt after the first, but
not above the cap. Doublings that lead beyond the cap in any case are left out. -/
def backoff (c : EngineConfig) (attempts : Nat) : Nat :=
  min c.backoffCap (c.backoffBase * Nat.pow 2 (min (attempts - 1) (c.backoffCap.log2 + 1)))

/-- So many doublings lead beyond the cap. -/
theorem cap_le_doubled (c : EngineConfig) {doublings : Nat} (hb : 0 < c.backoffBase)
    (hd : c.backoffCap.log2 + 1 ≤ doublings) :
    c.backoffCap ≤ c.backoffBase * Nat.pow 2 doublings :=
  calc c.backoffCap ≤ Nat.pow 2 (c.backoffCap.log2 + 1) := Nat.le_of_lt Nat.lt_log2_self
    _ ≤ Nat.pow 2 doublings := Nat.pow_le_pow_right (by decide) hd
    _ ≤ c.backoffBase * Nat.pow 2 doublings := Nat.le_mul_of_pos_left _ hb

theorem backoff_eq_min (c : EngineConfig) (attempts : Nat) :
    c.backoff attempts = min c.backoffCap (c.backoffBase * Nat.pow 2 (attempts - 1)) := by
  unfold backoff
  rcases Nat.le_total (attempts - 1) (c.backoffCap.log2 + 1) with h | h
  · rw [Nat.min_eq_left h]
  · rw [Nat.min_eq_right h]
    rcases Nat.eq_zero_or_pos c.backoffBase with hb | hb
    · simp only [hb, Nat.zero_mul]
    · rw [Nat.min_eq_left (cap_le_doubled c hb (Nat.le_refl _)),
        Nat.min_eq_left (cap_le_doubled c hb h)]

theorem backoff_le_cap (c : EngineConfig) (attempts : Nat) : c.backoff attempts ≤ c.backoffCap :=
  Nat.min_le_left _ _

theorem backoffBase_le_backoff (c : EngineConfig) (attempts : Nat) :
    c.backoffBase ≤ c.backoff attempts :=
  Nat.le_min.mpr ⟨c.base_le_cap, Nat.le_mul_of_pos_right _ (Nat.pow_pos (by decide))⟩

end EngineConfig
end WorkflowEngine

/-
# The command line

`vm_parse_cli`, `vm_apply_cli_options` and `vm_validate_config` of `vm_helpers.c`.  The words of the
command line are taken apart as `getopt_long` does it: names of options may be abbreviated as long
as they stay unambiguous, a value follows behind `=` or as the next word, and operands may stand
between the options.  The language that is accepted is described by a grammar, and the accepted
command lines mean what the last option of each kind says.
-/
import Vm32.Lib.Fields
import Vm32.Vm.Lifecycle

namespace Vm32

open CText

/-- A word of the command line. -/
abbrev Word := List UInt8

/-! ### The values of options -/

/-- `strtoul` with base 10, on a machine with 64-bit `unsigned long`: the value and the rest of the
string, or nothing when there is no number or the number is out of range.  A minus sign negates the
value modulo `2 ^ 64`. -/
def strtoul (s : Word) : Option (ℕ × Word) :=
  let s := s.dropWhile isSpace
  let negative := s.head? == some 45
  let s := if s.head? = some 45 ∨ s.head? = some 43 then s.tail else s
  let digits := s.takeWhile fun c => digitVal c < 10
  let n := numeral 10 digits
  if digits = [] ∨ 2 ^ 64 ≤ n then none
  else some (if negative then (2 ^ 64 - n) % 2 ^ 64 else n, s.dropWhile fun c => digitVal c < 10)

/-- `parse_u32`. -/
def parseU32 (s : Word) : Option UInt32 :=
  match strtoul s with
  | some (value, rest) => if rest ≠ [] ∨ 2 ^ 32 - 1 < value then none else some (UInt32.ofNat value)
  | none => none

/-- `parse_hash_algo`. -/
def parseHashAlgo (s : Word) : Option HashAlgorithm :=
  if strcaseEq s (bytes "crc32") then some .crc32
  else if strcaseEq s (bytes "fnv1a") || strcaseEq s (bytes "simple_fnv1a") then some .simpleFnv1a
  else none

/-! ### `getopt_long` -/

/-- The entries of `long_options`. -/
inductive CliOption
  | clockRateHz | cycleTimeMs
  | enableCycleCheck | disableCycleCheck
  | enableHashCheck | disableHashCheck
  | enableTickTiming | disableTickTiming
  | hashAlgo | help
deriving DecidableEq

namespace CliOption

/-- The name in the table. -/
def name : CliOption → String
  | clockRateHz => "clock-rate-hz"
  | cycleTimeMs => "cycle-time-ms"
  | enableCycleCheck => "enable-cycle-check"
  | disableCycleCheck => "disable-cycle-check"
  | enableHashCheck => "enable-hash-check"
  | disableHashCheck => "disable-hash-check"
  | enableTickTiming => "enable-tick-timing"
  | disableTickTiming => "disable-tick-timing"
  | hashAlgo => "hash-algo"
  | help => "help"

/-- `required_argument`. -/
def hasArg : CliOption → Bool
  | clockRateHz | cycleTimeMs | hashAlgo => true
  | _ => false

/-- The options, in the order of the table. -/
def all : List CliOption :=
  [clockRateHz, cycleTimeMs, enableCycleCheck, disableCycleCheck, enableHashCheck,
    disableHashCheck, enableTickTiming, disableTickTiming, hashAlgo, help]

lemma mem_all (o : CliOption) : o ∈ all := by cases o <;> decide

end CliOption

/-- The option with this name, or else the only one whose name begins so. -/
def findOption (name : Word) : Option CliOption :=
  match CliOption.all.find? fun o => bytes o.name == name with
  | some o => some o
  | none =>
    match CliOption.all.filter fun o => name.isPrefixOf (bytes o.name) with
    | [o] => some o
    | _ => none

/-- What `getopt_long` makes of a word that is not the value of an option. -/
inductive WordClass
  /-- The word `--`, behind which everything is an operand. -/
  | terminator
  | operand
  /-- An option that is complete. -/
  | option (o : CliOption) (arg : Word)
  /-- An option whose value is the next word. -/
  | needsArg (o : CliOption)
  /-- An unknown or ambiguous option, or a value where none belongs. -/
  | malformed
deriving DecidableEq

/-- A word that begins with two minus signs, without them. -/
def classifyLong (body : Word) : WordClass :=
  let name := body.takeWhile (· != 61)
  match findOption name with
  | none => .malformed
  | some o =>
    match body.drop name.length, o.hasArg with
    | _ :: arg, true => .option o arg
    | _ :: _, false => .malformed
    | [], true => .needsArg o
    | [], false => .option o []

/-- A word with a single minus sign holds options of one letter, of which `-h` is the only one. -/
def classify : Word → WordClass
  | [45, 45] => .terminator
  | 45 :: 45 :: body => classifyLong body
  | 45 :: c :: _ => if c = 104 then .option .help [] else .malformed
  | _ => .operand

/-! ### `vm_parse_cli` -/

/-- `vm_cli_options_t`; a flag that a value was given and the value are one field. -/
structure VmCliOptions where
  programDir : Option Word := none
  clockRateHz : Option UInt32 := none
  cycleTimeMs : Option UInt32 := none
  enableCycleCheck : Option Bool := none
  enableHashCheck : Option Bool := none
  enableTickTiming : Option Bool := none
  hashAlgo : Option HashAlgorithm := none
deriving DecidableEq

/-- The returns of -1. -/
inductive CliError
  | invalidValue (o : CliOption) (arg : Word)
  | malformedOption
  | tooManyArguments
deriving DecidableEq

/-- `print_usage`. -/
def printUsage (progname : Word) : List UInt8 :=
  unlines
    [bytes "Usage: " ++ progname ++ bytes " <program_dir> [options]",
      [],
      bytes "Options:",
      bytes "  --clock-rate-hz N         Set clock rate in Hz",
      bytes "  --cycle-time-ms N         Set cycle duration in ms",
      bytes "  --enable-cycle-check      Enable overrun check",
      bytes "  --disable-cycle-check     Disable overrun check",
      bytes "  --enable-hash-check       Enable hash verification",
      bytes "  --disable-hash-check      Disable hash verification",
      bytes "  --enable-tick-timing      Enable tick timing",
      bytes "  --disable-tick-timing     Disable tick timing",
      bytes "  --hash-algo crc32|fnv1a   Select hash algorithm",
      bytes "  -h, --help                Show this help"]

/-- What is printed to `err`. -/
def CliError.message (progname : Word) : CliError → List UInt8
  | invalidValue o arg => bytes "Invalid value for --" ++ bytes o.name ++ bytes ": " ++ arg ++ [10]
  | malformedOption => bytes "Unknown or malformed option\n" ++ printUsage progname
  | tooManyArguments => bytes "Too many positional arguments\n" ++ printUsage progname

/-- How `vm_parse_cli` ends. -/
inductive CliResult
  | options (opts : VmCliOptions)
  /-- The return of 1. -/
  | help
  | error (e : CliError)
deriving DecidableEq

/-- The assignment of a case of the `switch`; nothing for a value that is not valid. -/
def VmCliOptions.set (opts : VmCliOptions) (o : CliOption) (arg : Word) : Option VmCliOptions :=
  match o with
  | .clockRateHz => (parseU32 arg).map fun v => { opts with clockRateHz := some v }
  | .cycleTimeMs => (parseU32 arg).map fun v => { opts with cycleTimeMs := some v }
  | .enableCycleCheck => some { opts with enableCycleCheck := some true }
  | .disableCycleCheck => some { opts with enableCycleCheck := some false }
  | .enableHashCheck => some { opts with enableHashCheck := some true }
  | .disableHashCheck => some { opts with enableHashCheck := some false }
  | .enableTickTiming => some { opts with enableTickTiming := some true }
  | .disableTickTiming => some { opts with enableTickTiming := some false }
  | .hashAlgo => (parseHashAlgo arg).map fun v => { opts with hashAlgo := some v }
  | .help => some opts

/-- The part of `vm_parse_cli` behind the loop. -/
def takeOperands (opts : VmCliOptions) : List Word → CliResult
  | [] => .options opts
  | [dir] => .options { opts with programDir := some dir }
  | _ => .error .tooManyArguments

/-- The loop of `vm_parse_cli`, with the operands that `getopt_long` has moved to the end. -/
def parseLoop : List Word → VmCliOptions → List Word → CliResult
  | [], opts, operands => takeOperands opts operands
  | w :: ws, opts, operands =>
    match classify w with
    | .terminator => takeOperands opts (operands ++ ws)
    | .operand => parseLoop ws opts (operands ++ [w])
    | .malformed => .error .malformedOption
    | .option o arg =>
      if o = .help then .help
      else
        match opts.set o arg with
        | none => .error (.invalidValue o arg)
        | some opts => parseLoop ws opts operands
    | .needsArg o =>
      match ws with
      | [] => .error .malformedOption
      | arg :: ws =>
        match opts.set o arg with
        | none => .error (.invalidValue o arg)
        | some opts => parseLoop ws opts operands

/-- `vm_parse_cli`, on the words behind the name of the program. -/
def vmParseCli (args : List Word) : CliResult := parseLoop args {} []

/-! ### `vm_apply_cli_options` and `vm_validate_config` -/

/-- The failures of the two functions. -/
inductive ConfigError
  | clockRateOption
  | cycleTimeOption
  | noProgramDir
  | notADirectory (dir : Word)
  | clockRate
  | cycleTime
deriving DecidableEq

/-- What is printed to `err`. -/
def ConfigError.message : ConfigError → List UInt8
  | clockRateOption => bytes "--clock-rate-hz must be > 0\n"
  | cycleTimeOption => bytes "--cycle-time-ms must be > 0\n"
  | noProgramDir => bytes "Program directory is not set\n"
  | notADirectory dir =>
    bytes "Program directory does not exist or is not a directory: " ++ dir ++ [10]
  | clockRate => bytes "clock_rate_hz must be > 0\n"
  | cycleTime => bytes "cycle_time_ms must be > 0\n"

/-- `vm_apply_cli_options`. -/
def vmApplyCliOptions (vm : VmState) (opts : VmCliOptions) : Except ConfigError VmState :=
  let vm := { vm with programDir := opts.programDir.or vm.programDir }
  if opts.clockRateHz = some 0 then .error .clockRateOption
  else if opts.cycleTimeMs = some 0 then .error .cycleTimeOption
  else
    .ok { vm with config :=
      { clockRateHz := opts.clockRateHz.getD vm.config.clockRateHz
        cycleTimeMs := opts.cycleTimeMs.getD vm.config.cycleTimeMs
        enableCycleCheck := opts.enableCycleCheck.getD vm.config.enableCycleCheck
        enableHashCheck := opts.enableHashCheck.getD vm.config.enableHashCheck
        enableTickTiming := opts.enableTickTiming.getD vm.config.enableTickTiming
        hashAlgo := opts.hashAlgo.getD vm.config.hashAlgo } }

/-- `vm_validate_config`; there are no other hash algorithms than the two that it admits. -/
def vmValidateConfig (isDirectory : Word → Bool) (vm : VmState) : Option ConfigError :=
  match vm.programDir with
  | none => some .noProgramDir
  | some dir =>
    if dir = [] then some .noProgramDir
    else if !isDirectory dir then some (.notADirectory dir)
    else if vm.config.clockRateHz == 0 then some .clockRate
    else if vm.config.cycleTimeMs == 0 then some .cycleTime
    else none

/-! ### The grammar -/

/-- A name stands for an option: it is the name of the option, or begins no other. -/
def Names (name : Word) (o : CliOption) : Prop :=
  name = bytes o.name ∨ name <+: bytes o.name ∧ ∀ o' : CliOption, name <+: bytes o'.name → o' = o

/-- A single minus sign is an operand, and so is what does not begin with one. -/
def IsOperand (w : Word) : Prop := w = [45] ∨ w.head? ≠ some 45

/-- The options with their values, and the operands, that a command line is made of. -/
inductive CommandLine : List Word → List (CliOption × Word) → List Word → Prop
  | nil : CommandLine [] [] []
  | terminator (ws : List Word) : CommandLine ([45, 45] :: ws) [] ws
  | operand {w : Word} {ws : List Word} {items : List (CliOption × Word)} {ops : List Word}
      (hw : IsOperand w) (h : CommandLine ws items ops) : CommandLine (w :: ws) items (w :: ops)
  | flag {name : Word} {o : CliOption} {ws : List Word} {items : List (CliOption × Word)}
      {ops : List Word} (hname : Names name o) (harg : o.hasArg = false)
      (h : CommandLine ws items ops) :
      CommandLine ((45 :: 45 :: name) :: ws) ((o, []) :: items) ops
  | attached {name arg : Word} {o : CliOption} {ws : List Word} {items : List (CliOption × Word)}
      {ops : List Word} (hname : Names name o) (harg : o.hasArg = true)
      (h : CommandLine ws items ops) :
      CommandLine ((45 :: 45 :: (name ++ 61 :: arg)) :: ws) ((o, arg) :: items) ops
  | separate {name arg : Word} {o : CliOption} {ws : List Word} {items : List (CliOption × Word)}
      {ops : List Word} (hname : Names name o) (harg : o.hasArg = true)
      (h : CommandLine ws items ops) :
      CommandLine ((45 :: 45 :: name) :: arg :: ws) ((o, arg) :: items) ops

/-! ### Names -/

section Names

variable {name arg body w : Word} {o : CliOption}

lemma eq_of_name_eq : ∀ o o' : CliOption, bytes o.name = bytes o'.name → o = o' := by
  have h : ∀ o ∈ CliOption.all, ∀ o' ∈ CliOption.all, bytes o.name = bytes o'.name → o = o' := by
    decide +kernel
  exact fun o o' => h o o.mem_all o' o'.mem_all

/-- The two searches find what the name stands for. -/
lemma findOption_eq_some_iff : findOption name = some o ↔ Names name o := by
  rw [findOption]
  cases hfind : CliOption.all.find? fun o => bytes o.name == name with
  | some o₁ =>
    have heq : bytes o₁.name = name := by simpa using List.find?_some hfind
    constructor
    · intro h
      obtain rfl := Option.some.inj h
      exact Or.inl heq.symm
    · rintro (h | ⟨-, honly⟩)
      · rw [eq_of_name_eq o₁ o (heq.trans h)]
      · rw [honly o₁ (heq ▸ List.prefix_rfl)]
  | none =>
    have hne : ∀ o' : CliOption, bytes o'.name ≠ name := fun o' h => by
      have := List.find?_eq_none.1 hfind o' o'.mem_all
      simp [h] at this
    have hcandidate : ∀ o', o' ∈ CliOption.all.filter (fun o => name.isPrefixOf (bytes o.name)) ↔
        name <+: bytes o'.name := by
      intro o'
      simp [CliOption.mem_all]
    have hfilter : name <+: bytes o.name → (∀ o' : CliOption, name <+: bytes o'.name → o' = o) →
        CliOption.all.filter (fun o => name.isPrefixOf (bytes o.name)) = [o] := by
      intro hpre honly
      have hcongr : CliOption.all.filter (fun o => name.isPrefixOf (bytes o.name)) =
          CliOption.all.filter fun o' => decide (o' = o) := by
        refine List.filter_congr fun o' _ => ?_
        rw [Bool.eq_iff_iff, List.isPrefixOf_iff_prefix, decide_eq_true_iff]
        exact ⟨honly o', fun h => h ▸ hpre⟩
      rw [hcongr]
      cases o <;> rfl
    generalize CliOption.all.filter (fun o => name.isPrefixOf (bytes o.name)) = found
      at hcandidate hfilter ⊢
    constructor
    · intro h
      rcases found with _ | ⟨o₁, _ | ⟨o₂, found⟩⟩
      · cases h
      · obtain rfl := Option.some.inj h
        simp only [List.mem_singleton] at hcandidate
        exact Or.inr ⟨(hcandidate o₁).1 rfl, fun o' h => (hcandidate o').2 h⟩
      · cases h
    · rintro (h | ⟨hpre, honly⟩)
      · exact absurd h.symm (hne o)
      · rw [hfilter hpre honly]

/-- No name holds an equals sign, and none is empty. -/
lemma Names.ne_nil (h : Names name o) : name ≠ [] := by
  rintro rfl
  rcases h with h | ⟨-, honly⟩
  · revert h
    cases o <;> decide
  · have hclock := honly .clockRateHz List.nil_prefix
    have hhelp := honly .help List.nil_prefix
    rw [← hclock] at hhelp
    cases hhelp

lemma Names.not_mem (h : Names name o) : 61 ∉ name := by
  have hall : ∀ o ∈ CliOption.all, 61 ∉ bytes o.name := by decide +kernel
  rcases h with rfl | ⟨hpre, -⟩
  · exact hall o o.mem_all
  · exact fun hmem => hall o o.mem_all (hpre.subset hmem)

lemma takeWhile_of_names (h : Names name o) (t : Word) (ht : t.head? ∈ [none, some 61]) :
    (name ++ t).takeWhile (· != 61) = name := by
  have hname : ∀ c ∈ name, (c != 61) = true := by
    intro c hc
    have hne : c ≠ 61 := fun heq => h.not_mem (heq ▸ hc)
    simpa using hne
  rw [List.takeWhile_append_of_pos hname]
  cases t with
  | nil => simp
  | cons c t =>
    have hc : c = 61 := by simpa using ht
    simp [hc]

/-- A long option as a word of its own. -/
lemma classifyLong_name (h : Names name o) :
    classifyLong name = if o.hasArg then .needsArg o else .option o [] := by
  have htake : name.takeWhile (· != 61) = name := by
    simpa using takeWhile_of_names h [] (by simp)
  simp only [classifyLong, htake, findOption_eq_some_iff.2 h, List.drop_length]
  cases o.hasArg <;> rfl

/-- A long option with a value behind an equals sign. -/
lemma classifyLong_attached (h : Names name o) (arg : Word) :
    classifyLong (name ++ 61 :: arg) = if o.hasArg then .option o arg else .malformed := by
  have htake := takeWhile_of_names h (61 :: arg) (by simp)
  simp only [classifyLong, htake, findOption_eq_some_iff.2 h, List.drop_left]
  cases o.hasArg <;> rfl

/-- What stands before the first equals sign is the name. -/
lemma classifyLong_cases (body : Word) :
    classifyLong body = .malformed ∨
      ∃ name o, Names name o ∧ (body = name ∨ ∃ arg, body = name ++ 61 :: arg) := by
  cases hfind : findOption (body.takeWhile (· != 61)) with
  | none =>
    left
    simp only [classifyLong, hfind]
  | some o =>
    right
    refine ⟨_, o, findOption_eq_some_iff.1 hfind, ?_⟩
    have hsplit := List.takeWhile_append_dropWhile (p := (· != 61)) (l := body)
    cases hrest : body.dropWhile (· != 61) with
    | nil =>
      left
      rw [hrest, List.append_nil] at hsplit
      exact hsplit.symm
    | cons c arg =>
      right
      have hc : c = 61 := by
        have := List.head?_dropWhile_not (· != 61) body
        rw [hrest] at this
        simpa using this
      rw [hrest, hc] at hsplit
      exact ⟨arg, hsplit.symm⟩

lemma classify_long (hne : body ≠ []) : classify (45 :: 45 :: body) = classifyLong body := by
  cases body with
  | nil => exact absurd rfl hne
  | cons c body => rfl

lemma classify_operand (hw : IsOperand w) : classify w = .operand := by
  rcases hw with rfl | hw
  · rfl
  · cases w with
    | nil => rfl
    | cons c w =>
      have hc : c ≠ 45 := by simpa using hw
      unfold classify
      split <;> simp_all

/-- The kinds of words. -/
lemma classify_cases (w : Word) :
    w = [45, 45] ∨ IsOperand w ∨ classify w = .malformed ∨ classify w = .option .help [] ∨
      ∃ name o, Names name o ∧
        (w = 45 :: 45 :: name ∨ ∃ arg, w = 45 :: 45 :: (name ++ 61 :: arg)) := by
  rcases w with _ | ⟨c, w⟩
  · exact Or.inr (Or.inl (Or.inr (by simp)))
  by_cases hc : c = 45
  · subst hc
    rcases w with _ | ⟨d, body⟩
    · exact Or.inr (Or.inl (Or.inl rfl))
    by_cases hd : d = 45
    · subst hd
      rcases eq_or_ne body [] with rfl | hne
      · exact Or.inl rfl
      · right
        right
        rw [classify_long hne]
        rcases classifyLong_cases body with h | ⟨name, o, hname, h | ⟨arg, h⟩⟩
        · exact Or.inl h
        · exact Or.inr (Or.inr ⟨name, o, hname, Or.inl (by rw [h])⟩)
        · exact Or.inr (Or.inr ⟨name, o, hname, Or.inr ⟨arg, by rw [h]⟩⟩)
    · -- a word with one minus sign
      right
      right
      have hshort : classify (45 :: d :: body) =
          if d = 104 then .option .help [] else .malformed := by
        unfold classify
        split <;> simp_all
      rw [hshort]
      split_ifs
      · exact Or.inr (Or.inl rfl)
      · exact Or.inl rfl
  · exact Or.inr (Or.inl (Or.inr (by simpa using hc)))

end Names

/-! ### What is accepted -/

/-- The value of an option is valid; asking for help is no way to start. -/
def ValidItem (x : CliOption × Word) : Prop :=
  match x.1 with
  | .clockRateHz | .cycleTimeMs => (parseU32 x.2).isSome
  | .hashAlgo => (parseHashAlgo x.2).isSome
  | .help => False
  | _ => True

/-- The last of the values that the options give. -/
def lastValue {α : Type*} (value : CliOption → Word → Option α) (items : List (CliOption × Word)) :
    Option α :=
  (items.filterMap fun x => value x.1 x.2).getLast?

/-- The value that an option gives to a flag. -/
def flagValue (enable disable : CliOption) (o : CliOption) (_ : Word) : Option Bool :=
  if o = enable then some true else if o = disable then some false else none

/-- The meaning of a command line: the last option of each kind counts. -/
def optionsOf (items : List (CliOption × Word)) (ops : List Word) : VmCliOptions where
  programDir := ops.head?
  clockRateHz := lastValue (fun o arg => if o = .clockRateHz then parseU32 arg else none) items
  cycleTimeMs := lastValue (fun o arg => if o = .cycleTimeMs then parseU32 arg else none) items
  enableCycleCheck := lastValue (flagValue .enableCycleCheck .disableCycleCheck) items
  enableHashCheck := lastValue (flagValue .enableHashCheck .disableHashCheck) items
  enableTickTiming := lastValue (flagValue .enableTickTiming .disableTickTiming) items
  hashAlgo := lastValue (fun o arg => if o = .hashAlgo then parseHashAlgo arg else none) items

section Accepted

lemma lastValue_concat {α : Type*} (value : CliOption → Word → Option α)
    (items : List (CliOption × Word)) (x : CliOption × Word) :
    lastValue value (items ++ [x]) = (value x.1 x.2).or (lastValue value items) := by
  rw [lastValue, List.filterMap_append]
  cases hx : value x.1 x.2 with
  | none => simp [hx, lastValue]
  | some v => simp [hx]

/-- One case of the `switch` is one more option. -/
lemma set_optionsOf {items : List (CliOption × Word)} {x : CliOption × Word} {ops : List Word}
    (hx : ValidItem x) :
    (optionsOf items ops).set x.1 x.2 = some (optionsOf (items ++ [x]) ops) := by
  obtain ⟨o, arg⟩ := x
  cases o with
  | clockRateHz =>
    obtain ⟨v, hv⟩ := Option.isSome_iff_exists.1 hx
    simp [VmCliOptions.set, optionsOf, lastValue_concat, flagValue, hv]
  | cycleTimeMs =>
    obtain ⟨v, hv⟩ := Option.isSome_iff_exists.1 hx
    simp [VmCliOptions.set, optionsOf, lastValue_concat, flagValue, hv]
  | hashAlgo =>
    obtain ⟨v, hv⟩ := Option.isSome_iff_exists.1 hx
    simp [VmCliOptions.set, optionsOf, lastValue_concat, flagValue, hv]
  | help => exact hx.elim
  | _ => simp [VmCliOptions.set, optionsOf, lastValue_concat, flagValue]

/-- Only a valid value is stored. -/
lemma set_isSome {opts opts' : VmCliOptions} {o : CliOption} {arg : Word} (hhelp : o ≠ .help)
    (h : opts.set o arg = some opts') : ValidItem (o, arg) := by
  cases o with
  | clockRateHz =>
    obtain ⟨v, hv, -⟩ := Option.map_eq_some_iff.1 h
    exact Option.isSome_iff_exists.2 ⟨v, hv⟩
  | cycleTimeMs =>
    obtain ⟨v, hv, -⟩ := Option.map_eq_some_iff.1 h
    exact Option.isSome_iff_exists.2 ⟨v, hv⟩
  | hashAlgo =>
    obtain ⟨v, hv, -⟩ := Option.map_eq_some_iff.1 h
    exact Option.isSome_iff_exists.2 ⟨v, hv⟩
  | help => exact hhelp rfl
  | _ => trivial

lemma ne_help_of_hasArg {o : CliOption} (harg : o.hasArg = true) : o ≠ .help := by
  rintro rfl
  cases harg

lemma ne_help_of_valid {o : CliOption} {arg : Word} (hvalid : ValidItem (o, arg)) : o ≠ .help := by
  rintro rfl
  exact hvalid

lemma takeOperands_eq_options_iff {items : List (CliOption × Word)} {ops : List Word}
    {opts : VmCliOptions} :
    takeOperands (optionsOf items []) ops = .options opts ↔
      ops.length ≤ 1 ∧ opts = optionsOf items ops := by
  rcases ops with _ | ⟨dir, _ | ⟨w, ops⟩⟩
  · simp [takeOperands, eq_comm]
  · simp [takeOperands, optionsOf, eq_comm]
  · simp [takeOperands]

/-- The rest of a command line, behind `items₀` and `ops₀`, is accepted with these options. -/
def Accepts (ws : List Word) (items₀ : List (CliOption × Word)) (ops₀ : List Word)
    (opts : VmCliOptions) : Prop :=
  ∃ items ops, CommandLine ws items ops ∧ (∀ x ∈ items, ValidItem x) ∧
    (ops₀ ++ ops).length ≤ 1 ∧ opts = optionsOf (items₀ ++ items) (ops₀ ++ ops)

variable {ws : List Word} {items₀ : List (CliOption × Word)} {ops₀ : List Word}
  {opts : VmCliOptions}

/-- The loop behind an option that is followed by `ws`. -/
lemma accepts_of_item {o : CliOption} {arg : Word} {us : List Word} (hvalid : ValidItem (o, arg))
    (hline : ∀ items ops, CommandLine ws items ops → CommandLine us ((o, arg) :: items) ops)
    (h : Accepts ws (items₀ ++ [(o, arg)]) ops₀ opts) : Accepts us items₀ ops₀ opts := by
  obtain ⟨items, ops, hitems, hvalids, hlen, rfl⟩ := h
  refine ⟨(o, arg) :: items, ops, hline items ops hitems, ?_, hlen, by simp⟩
  exact List.forall_mem_cons.2 ⟨hvalid, hvalids⟩

/-- A value that is valid is stored, and the loop goes on behind it. -/
lemma parseLoop_of_set {o : CliOption} {arg : Word} (hhelp : o ≠ .help)
    (h : (match (optionsOf items₀ []).set o arg with
      | none => CliResult.error (.invalidValue o arg)
      | some opts => parseLoop ws opts ops₀) = .options opts) :
    ValidItem (o, arg) ∧
      parseLoop ws (optionsOf (items₀ ++ [(o, arg)]) []) ops₀ = .options opts := by
  cases hset : (optionsOf items₀ []).set o arg with
  | none =>
    rw [hset] at h
    cases h
  | some opts' =>
    have hvalid := set_isSome hhelp hset
    rw [set_optionsOf (x := (o, arg)) hvalid] at h
    exact ⟨hvalid, h⟩

lemma parseLoop_sound (h : parseLoop ws (optionsOf items₀ []) ops₀ = .options opts) :
    Accepts ws items₀ ops₀ opts := by
  induction hn : ws.length using Nat.strong_induction_on generalizing ws items₀ ops₀ with
  | _ n ih =>
    subst hn
    cases ws with
    | nil =>
      obtain ⟨hlen, rfl⟩ := takeOperands_eq_options_iff.1 h
      exact ⟨[], [], .nil, by simp, by simpa using hlen, by simp⟩
    | cons w ws =>
      rw [parseLoop] at h
      rcases classify_cases w with rfl | hw | hw | hw | ⟨name, o, hname, hw⟩
      · obtain ⟨hlen, rfl⟩ := takeOperands_eq_options_iff.1 h
        exact ⟨[], ws, .terminator ws, by simp, hlen, by simp⟩
      · rw [classify_operand hw] at h
        obtain ⟨items, ops, hitems, hvalids, hlen, rfl⟩ := ih _ (by simp) h rfl
        exact ⟨items, w :: ops, .operand hw hitems, hvalids, by simpa using hlen, by simp⟩
      · rw [hw] at h
        cases h
      · rw [hw] at h
        cases h
      · rcases hw with rfl | ⟨arg, rfl⟩
        · rw [classify_long hname.ne_nil, classifyLong_name hname] at h
          cases harg : o.hasArg with
          | false =>
            simp only [harg, Bool.false_eq_true, if_false] at h
            split_ifs at h with hhelp
            obtain ⟨hvalid, hloop⟩ := parseLoop_of_set hhelp h
            have haccepts := ih _ (by simp) hloop rfl
            exact accepts_of_item hvalid (fun _ _ hline => .flag hname harg hline) haccepts
          | true =>
            simp only [harg, if_true] at h
            cases ws with
            | nil => cases h
            | cons arg ws =>
              obtain ⟨hvalid, hloop⟩ := parseLoop_of_set (ne_help_of_hasArg harg) h
              have haccepts := ih _ (by simp only [List.length_cons]; omega) hloop rfl
              exact accepts_of_item hvalid (fun _ _ hline => .separate hname harg hline) haccepts
        · rw [classify_long (by simp), classifyLong_attached hname] at h
          cases harg : o.hasArg with
          | false =>
            simp only [harg, Bool.false_eq_true, if_false] at h
            cases h
          | true =>
            simp only [harg, if_true] at h
            split_ifs at h with hhelp
            obtain ⟨hvalid, hloop⟩ := parseLoop_of_set hhelp h
            have haccepts := ih _ (by simp) hloop rfl
            exact accepts_of_item hvalid (fun _ _ hline => .attached hname harg hline) haccepts

lemma parseLoop_complete {items : List (CliOption × Word)} {ops : List Word}
    (hline : CommandLine ws items ops) (hvalid : ∀ x ∈ items, ValidItem x)
    (hlen : (ops₀ ++ ops).length ≤ 1) :
    parseLoop ws (optionsOf items₀ []) ops₀ =
      .options (optionsOf (items₀ ++ items) (ops₀ ++ ops)) := by
  induction hline generalizing items₀ ops₀ with
  | nil =>
    rw [List.append_nil] at hlen ⊢
    exact takeOperands_eq_options_iff.2 ⟨hlen, by simp⟩
  | terminator ws => exact takeOperands_eq_options_iff.2 ⟨hlen, by simp⟩
  | @operand w ws items ops hw hline ih =>
    have hlen' : ((ops₀ ++ [w]) ++ ops).length ≤ 1 := by simpa using hlen
    rw [parseLoop, classify_operand hw]
    exact (ih hvalid hlen').trans (by simp)
  | @flag name o ws items ops hname harg hline ih =>
    rw [List.forall_mem_cons] at hvalid
    rw [parseLoop, classify_long hname.ne_nil, classifyLong_name hname]
    simp only [harg, Bool.false_eq_true, if_false, if_neg (ne_help_of_valid hvalid.1),
      set_optionsOf (x := (o, [])) hvalid.1]
    exact (ih hvalid.2 hlen).trans (by simp)
  | @attached name arg o ws items ops hname harg hline ih =>
    rw [List.forall_mem_cons] at hvalid
    rw [parseLoop, classify_long (by simp), classifyLong_attached hname]
    simp only [harg, if_true, if_neg (ne_help_of_valid hvalid.1),
      set_optionsOf (x := (o, arg)) hvalid.1]
    exact (ih hvalid.2 hlen).trans (by simp)
  | @separate name arg o ws items ops hname harg hline ih =>
    rw [List.forall_mem_cons] at hvalid
    rw [parseLoop, classify_long hname.ne_nil, classifyLong_name hname]
    simp only [harg, if_true, set_optionsOf (x := (o, arg)) hvalid.1]
    exact (ih hvalid.2 hlen).trans (by simp)

lemma vmParseCli_eq_options_iff {args : List Word} {opts : VmCliOptions} :
    vmParseCli args = .options opts ↔
      ∃ items ops, CommandLine args items ops ∧ (∀ x ∈ items, ValidItem x) ∧ ops.length ≤ 1 ∧
        opts = optionsOf items ops := by
  have hstart : ({} : VmCliOptions) = optionsOf [] [] := rfl
  rw [vmParseCli, hstart]
  constructor
  · intro h
    exact parseLoop_sound h
  · rintro ⟨items, ops, hline, hvalid, hlen, rfl⟩
    exact @parseLoop_complete args [] [] items ops hline hvalid hlen

/-- The accepted command lines and their meaning: exactly those of the grammar are accepted in which
all values are valid, no help is asked for and at most one operand stands, and of several options
for one thing the last one counts. -/
theorem cli_accepts_iff (args : List Word) (opts : VmCliOptions) :
    vmParseCli args = .options opts ↔
      ∃ items ops, CommandLine args items ops ∧ (∀ x ∈ items, ValidItem x) ∧ ops.length ≤ 1 ∧
        opts = optionsOf items ops :=
  vmParseCli_eq_options_iff

end Accepted

end Vm32

import DsparkEdge.Lib.Atoi
import DsparkEdge.Ui.ConfigStore
import DsparkEdge.Ui.ExtraArgs

/-! The daemon's command line, from the dashboard that writes it (`daemonArgs` in
    `lib/process-manager.ts`) to the daemon that reads it (`parse_args` in `main.cpp`).

        DaemonConfig ──daemonArgs──▶ --model … --host … --port … [--target-model …] extra… ──parse_args──▶

    Both sides speak in options: the written part is a list of options like the extra one, so reading is
    applying options one after the other, and the last one to set a field wins. Argument strings hold no
    NUL, so what is passed to the daemon is what it finds. -/

namespace DsparkEdge.Ui

open Atoi

/-! ### Writing -/

/-- `s.trim()`. -/
def trim (s : String) : String := String.ofList (trimBlank s.toList)

def daemonArgs (cfg : DaemonConfig) : List String :=
  ["--model", cfg.draftModel, "--host", cfg.host, "--port", toString cfg.grpcPort,
    "--threads", toString cfg.threads, "--ctx-size", toString cfg.ctxSize] ++
  (if trim cfg.targetModel ≠ "" then ["--target-model", trim cfg.targetModel] else []) ++
  tokenizeExtra cfg.extraArgs

/-! ### Reading -/

structure CmdlineArgs where
  modelPath : String := ""
  targetModelPath : String := ""
  host : String := "0.0.0.0"
  port : ℤ := 50051
  nThreads : ℤ := 4
  nCtx : ℤ := 4096
  watch : Bool := false
  selftest : Bool := false
  replayDir : String := ""
  deriving DecidableEq, Repr

/-- `parse_args` returns, prints the usage and exits with 0, or complains and exits with 1. -/
inductive ParseOutcome where
  | accepted (args : CmdlineArgs)
  | usage
  | unknown (arg : String)
  deriving DecidableEq, Repr

/-- The loop over `argv`. An option with a value needs `i + 1 < argc`, so at the last argument only the
    others are looked for. -/
def parseFrom : CmdlineArgs → List String → ParseOutcome
  | args, [] => .accepted args
  | args, [arg] =>
    if arg = "--watch" then .accepted { args with watch := true }
    else if arg = "--selftest" then .accepted { args with selftest := true }
    else if arg = "--help" ∨ arg = "-h" then .usage
    else .unknown arg
  | args, arg :: next :: rest =>
    if arg = "--model" ∨ arg = "-m" then parseFrom { args with modelPath := next } rest
    else if arg = "--target-model" then parseFrom { args with targetModelPath := next } rest
    else if arg = "--host" then parseFrom { args with host := next } rest
    else if arg = "--port" then parseFrom { args with port := atoi next } rest
    else if arg = "--threads" then parseFrom { args with nThreads := atoi next } rest
    else if arg = "--ctx-size" then parseFrom { args with nCtx := atoi next } rest
    else if arg = "--watch" then parseFrom { args with watch := true } (next :: rest)
    else if arg = "--selftest" then parseFrom { args with selftest := true } (next :: rest)
    else if arg = "--replay" then parseFrom { args with replayDir := next } rest
    else if arg = "--help" ∨ arg = "-h" then .usage
    else .unknown arg

def parseArgs (argv : List String) : ParseOutcome := parseFrom {} argv.tail

/-! ### Options -/

/-- The options that take a value. -/
inductive ValueOption where
  | model
  | targetModel
  | host
  | port
  | threads
  | ctxSize
  | replay
  deriving DecidableEq, Repr

def ValueOption.names : ValueOption → List String
  | .model => ["--model", "-m"]
  | .targetModel => ["--target-model"]
  | .host => ["--host"]
  | .port => ["--port"]
  | .threads => ["--threads"]
  | .ctxSize => ["--ctx-size"]
  | .replay => ["--replay"]

/-- An option the daemon knows, other than the call for help. -/
inductive DaemonOption where
  | value (o : ValueOption) (name : String) (h : name ∈ o.names) (v : String)
  | watch
  | selftest

def DaemonOption.tokens : DaemonOption → List String
  | .value _ name _ v => [name, v]
  | .watch => ["--watch"]
  | .selftest => ["--selftest"]

def ValueOption.assign (args : CmdlineArgs) (v : String) : ValueOption → CmdlineArgs
  | .model => { args with modelPath := v }
  | .targetModel => { args with targetModelPath := v }
  | .host => { args with host := v }
  | .port => { args with port := atoi v }
  | .threads => { args with nThreads := atoi v }
  | .ctxSize => { args with nCtx := atoi v }
  | .replay => { args with replayDir := v }

def DaemonOption.apply (args : CmdlineArgs) : DaemonOption → CmdlineArgs
  | .value o _ _ v => o.assign args v
  | .watch => { args with watch := true }
  | .selftest => { args with selftest := true }

theorem parseFrom_option (args : CmdlineArgs) (opt : DaemonOption) (rest : List String) :
    parseFrom args (opt.tokens ++ rest) = parseFrom (opt.apply args) rest := by
  cases opt with
  | value o name h v =>
    cases o with
    | model =>
      simp only [ValueOption.names, List.mem_cons, List.not_mem_nil, or_false] at h
      exact if_pos h
    | targetModel | host | port | threads | ctxSize | replay =>
      rw [ValueOption.names, List.mem_singleton] at h
      simp [DaemonOption.tokens, parseFrom, h, DaemonOption.apply, ValueOption.assign]
  | watch | selftest =>
    cases rest <;> simp [DaemonOption.tokens, parseFrom, DaemonOption.apply]

/-- Reading a list of options is applying them in order. -/
theorem parseFrom_options (opts : List DaemonOption) (args : CmdlineArgs) :
    parseFrom args (opts.flatMap DaemonOption.tokens) =
      .accepted (opts.foldl DaemonOption.apply args) := by
  induction opts generalizing args with
  | nil => rfl
  | cons opt opts ih => rw [List.flatMap_cons, parseFrom_option, ih, List.foldl_cons]

/-! ### The last one wins -/

/-- The value that the option gives to `o`. -/
def DaemonOption.valueFor (o : ValueOption) : DaemonOption → Option String
  | .value o' _ _ v => if o' = o then some v else none
  | _ => none

def lastValue (o : ValueOption) (opts : List DaemonOption) : Option String :=
  (opts.filterMap (DaemonOption.valueFor o)).getLast?

def DaemonOption.isWatch : DaemonOption → Bool
  | .watch => true
  | _ => false

def DaemonOption.isSelftest : DaemonOption → Bool
  | .selftest => true
  | _ => false

/-- What the options make of the arguments: each field has the last value given for it. -/
def overridden (args : CmdlineArgs) (opts : List DaemonOption) : CmdlineArgs where
  modelPath := (lastValue .model opts).getD args.modelPath
  targetModelPath := (lastValue .targetModel opts).getD args.targetModelPath
  host := (lastValue .host opts).getD args.host
  port := ((lastValue .port opts).map atoi).getD args.port
  nThreads := ((lastValue .threads opts).map atoi).getD args.nThreads
  nCtx := ((lastValue .ctxSize opts).map atoi).getD args.nCtx
  watch := args.watch || opts.any DaemonOption.isWatch
  selftest := args.selftest || opts.any DaemonOption.isSelftest
  replayDir := (lastValue .replay opts).getD args.replayDir

theorem lastValue_cons (o : ValueOption) (opt : DaemonOption) (opts : List DaemonOption) :
    lastValue o (opt :: opts) = (lastValue o opts).or (opt.valueFor o) := by
  rw [lastValue, List.filterMap_cons]
  cases hv : opt.valueFor o with
  | none => simp [lastValue]
  | some v =>
    rw [List.getLast?_cons, lastValue]
    cases (opts.filterMap (DaemonOption.valueFor o)).getLast? <;> rfl

theorem getD_or {α : Type*} (a b : Option α) (d : α) : (a.or b).getD d = a.getD (b.getD d) := by
  cases a <;> rfl

theorem foldl_apply (opts : List DaemonOption) (args : CmdlineArgs) :
    opts.foldl DaemonOption.apply args = overridden args opts := by
  induction opts generalizing args with
  | nil => simp [overridden, lastValue]
  | cons opt opts ih =>
    rw [List.foldl_cons, ih]
    simp only [overridden, lastValue_cons, Option.map_or, getD_or, List.any_cons]
    cases opt with
    | value o name h v =>
      cases o <;> simp [DaemonOption.apply, ValueOption.assign, DaemonOption.valueFor, DaemonOption.isWatch,
        DaemonOption.isSelftest]
    | watch => simp [DaemonOption.apply, DaemonOption.valueFor, DaemonOption.isWatch, DaemonOption.isSelftest]
    | selftest =>
      simp [DaemonOption.apply, DaemonOption.valueFor, DaemonOption.isWatch, DaemonOption.isSelftest]

/-! ### The round trip -/

/-- The options that the dashboard writes before the extra ones. -/
def configOptions (cfg : DaemonConfig) : List DaemonOption :=
  [.value .model "--model" (by decide) cfg.draftModel, .value .host "--host" (by decide) cfg.host,
    .value .port "--port" (by decide) (toString cfg.grpcPort),
    .value .threads "--threads" (by decide) (toString cfg.threads),
    .value .ctxSize "--ctx-size" (by decide) (toString cfg.ctxSize)] ++
  if trim cfg.targetModel ≠ "" then
    [.value .targetModel "--target-model" (by decide) (trim cfg.targetModel)]
  else []

theorem daemonArgs_options {cfg : DaemonConfig} {opts : List DaemonOption}
    (hextra : tokenizeExtra cfg.extraArgs = opts.flatMap DaemonOption.tokens) :
    daemonArgs cfg = (configOptions cfg ++ opts).flatMap DaemonOption.tokens := by
  rw [daemonArgs, hextra, configOptions, List.flatMap_append, List.flatMap_append]
  split <;> rfl

/-- The configured arguments. -/
def configured (cfg : DaemonConfig) : CmdlineArgs where
  modelPath := cfg.draftModel
  targetModelPath := trim cfg.targetModel
  host := cfg.host
  port := cfg.grpcPort
  nThreads := cfg.threads
  nCtx := cfg.ctxSize

theorem apply_configOptions {cfg : DaemonConfig} (hport : FitsInt cfg.grpcPort)
    (hthreads : FitsInt cfg.threads) (hctx : FitsInt cfg.ctxSize) :
    (configOptions cfg).foldl DaemonOption.apply {} = configured cfg := by
  rw [configOptions, List.foldl_append]
  simp only [List.foldl_cons, List.foldl_nil, DaemonOption.apply, ValueOption.assign, atoi_toString hport,
    atoi_toString hthreads, atoi_toString hctx]
  split
  · rfl
  · rename_i hblank
    rw [configured, not_not.mp hblank]
    rfl

/-- LAUNCH ARGUMENTS: the daemon accepts the command line it is started with, and has every field as
    configured, or as the last extra option for it says. -/
theorem launch_args (cfg : DaemonConfig) (opts : List DaemonOption) (hport : FitsInt cfg.grpcPort)
    (hthreads : FitsInt cfg.threads) (hctx : FitsInt cfg.ctxSize)
    (hextra : tokenizeExtra cfg.extraArgs = opts.flatMap DaemonOption.tokens) :
    parseArgs (cfg.bin :: daemonArgs cfg) = .accepted (overridden (configured cfg) opts) := by
  rw [parseArgs, List.tail_cons, daemonArgs_options hextra, parseFrom_options, List.foldl_append,
    apply_configOptions hport hthreads hctx, foldl_apply]

/-- The host is empty, the port is given again, and the target model is blank. -/
theorem launch_args_extra_port :
    parseArgs ("grpcd" :: daemonArgs ⟨"grpcd", "--watch", " ", "", 50051, -1, 4096, "--port 6000 --watch"⟩) =
      .accepted { modelPath := "--watch", host := "", port := 6000, nThreads := -1, watch := true } := by
  have hextra : tokenizeExtra "--port 6000 --watch" =
      [DaemonOption.value .port "--port" (by decide) "6000", .watch].flatMap DaemonOption.tokens := by
    decide
  exact launch_args ⟨"grpcd", "--watch", " ", "", 50051, -1, 4096, "--port 6000 --watch"⟩ _
    ⟨by decide, by decide⟩ ⟨by decide, by decide⟩ ⟨by decide, by decide⟩ hextra

end DsparkEdge.Ui

import SimpleNF.Rpc.Registration
import SimpleNF.Worker.Loop

/-! The command line and the start of the worker threads (main.c). An option comes as
getopt_long returns it: a code, and an argument, which is null for a lone -p. -/
namespace SimpleNF

structure OptionResult where
  c : Char
  optarg : Option (List Char)
  deriving DecidableEq, Repr

def isSpace (c : Char) : Bool := c == ' ' || (9 ≤ c.toNat && c.toNat ≤ 13)

/-- The value of the digits that s starts with, after those that made acc. -/
def digits (acc : Nat) : List Char → Nat
  | [] => acc
  | c :: rest => if c.isDigit then digits (10 * acc + (c.toNat - 48)) rest else acc

/-- As strtol with base 10: a value that is too large is cut to the next long. -/
def atol (s : List Char) : Int64 :=
  let value : Int := match s.dropWhile isSpace with
    | '-' :: rest => -(digits 0 rest)
    | '+' :: rest => digits 0 rest
    | rest => digits 0 rest
  Int64.ofInt (max (-2 ^ 63) (min (2 ^ 63 - 1) value))

def atoi (s : List Char) : Int32 := (atol s).toInt32

structure Config where
  numClientKeys : UInt64
  startCore : UInt32
  logCap : UInt64
  numHashBuckets : UInt64
  runDebugMode : Int32
  numThreads : UInt32
  basePortIndex : Int32
  numServerPorts : Int32
  numClientPorts : Int32
  updatePercentage : Int32
  machineId : Int32
  postlist : Int32
  nodeCnt : UInt32
  numRemThreads : UInt32
  qps : UInt32
  packetSize : UInt32
  batchSize : UInt32
  deriving DecidableEq, Repr

def Config.initial : Config where
  numClientKeys := 1024 * 1024
  startCore := 3
  logCap := 8 * 1024 * 1024
  numHashBuckets := 2 * 1024 * 1024
  runDebugMode := 0
  numThreads := 0
  basePortIndex := -1
  numServerPorts := -1
  numClientPorts := -1
  updatePercentage := -1
  machineId := 1
  postlist := -1
  nodeCnt := 0
  numRemThreads := 0
  qps := 0
  packetSize := 512
  batchSize := 1

/-- The switch over the code. The long options --master and --is-client have no case. -/
def Config.case (cfg : Config) : Char → Option (List Char → Config)
  | 'K' => some fun a => { cfg with numClientKeys := (atol a).toUInt64 }
  | 's' => some fun a => { cfg with startCore := (atol a).toUInt64.toUInt32 }
  | 'L' => some fun a => { cfg with logCap := (atol a).toUInt64 }
  | 'B' => some fun a => { cfg with numHashBuckets := (atol a).toUInt64 }
  | 'D' => some fun a => { cfg with runDebugMode := atoi a }
  | 't' => some fun a => { cfg with numThreads := (atol a).toUInt64.toUInt32 }
  | 'b' => some fun a => { cfg with basePortIndex := atoi a }
  | 'N' => some fun a => { cfg with numServerPorts := atoi a }
  | 'n' => some fun a => { cfg with numClientPorts := atoi a }
  | 'u' => some fun a => { cfg with updatePercentage := atoi a }
  | 'm' => some fun a => { cfg with machineId := atoi a }
  | 'p' => some fun a => { cfg with postlist := atoi a }
  | 'C' => some fun a => { cfg with nodeCnt := (atoi a).toUInt32 }
  | 'O' => some fun a => { cfg with numRemThreads := (atoi a).toUInt32 }
  | 'q' => some fun a => { cfg with qps := (atoi a).toUInt32 }
  | 'r' => some fun a => { cfg with packetSize := (atoi a).toUInt32 }
  | 'd' => some fun a => { cfg with batchSize := (atoi a).toUInt32 }
  | _ => none

inductive Halt where
  | invalidArgument (c : Char)
  | nullArgument (c : Char)
  deriving DecidableEq, Repr

def Config.read (cfg : Config) (o : OptionResult) : Except Halt Config :=
  match cfg.case o.c, o.optarg with
  | none, _ => .error (.invalidArgument o.c)
  | some _, none => .error (.nullArgument o.c)
  | some store, some a => .ok (store a)

def parseOptions : Config → List OptionResult → Except Halt Config
  | cfg, [] => .ok cfg
  | cfg, o :: rest =>
    match cfg.read o with
    | .error halt => .error halt
    | .ok cfg => parseOptions cfg rest

/-- The fields of thread_params that main sets, less its pointers. -/
structure LaunchParams extends ThreadParams where
  id : UInt32
  startCore : UInt32
  postlist : Int32
  sonumaNid : UInt32
  nodeCnt : UInt32
  qpsPerNode : UInt32
  numKeys : UInt64
  numHashBuckets : UInt64
  logCapacityBytes : UInt64
  runDebugMode : Int32
  basePortIndex : Int32
  numServerPorts : Int32
  numClientPorts : Int32
  numClientThreads : UInt32
  numServThreads : UInt32
  deriving DecidableEq, Repr

def Config.params (cfg : Config) (i : Nat) : LaunchParams where
  packetSize := cfg.packetSize
  batchSize := cfg.batchSize
  id := UInt32.ofNat i
  startCore := cfg.startCore
  postlist := cfg.postlist
  sonumaNid := cfg.machineId.toUInt32
  nodeCnt := cfg.nodeCnt
  qpsPerNode := cfg.qps
  numKeys := cfg.numClientKeys
  numHashBuckets := cfg.numHashBuckets
  logCapacityBytes := cfg.logCap
  runDebugMode := cfg.runDebugMode
  basePortIndex := cfg.basePortIndex
  numServerPorts := cfg.numServerPorts
  numClientPorts := cfg.numClientPorts
  numClientThreads := cfg.numRemThreads
  numServThreads := cfg.numThreads

inductive MainResult where
  | halted (halt : Halt)
  | assertFailed
  | returned (code : Int32)
  | launched (ctx : Option NumaContext) (params : List LaunchParams)

/-- A barrier for no threads cannot be made; that the library also refuses one for
2^31 - 1 threads or more is left out. Whether the context was made is not looked at. -/
def main (heap : Heap) (opts : List OptionResult) : MainResult :=
  match parseOptions Config.initial opts with
  | .error halt => .halted halt
  | .ok cfg =>
    if cfg.qps < cfg.numThreads then .assertFailed
    else
      let rpcContext := createRPCNUMAContext heap cfg.nodeCnt 0 (cfg.numThreads - 1) cfg.packetSize
      if cfg.numThreads = 0 then .returned 1
      else .launched rpcContext ((List.range cfg.numThreads.toNat).map cfg.params)

def lastOr {α : Type} (last : Char → Option (List Char)) (c : Char) (value : List Char → α)
    (initial : α) :
    α :=
  ((last c).map value).getD initial

def Config.ofLast (last : Char → Option (List Char)) : Config where
  numClientKeys := lastOr last 'K' (fun a => (atol a).toUInt64) (1024 * 1024)
  startCore := lastOr last 's' (fun a => (atol a).toUInt64.toUInt32) 3
  logCap := lastOr last 'L' (fun a => (atol a).toUInt64) (8 * 1024 * 1024)
  numHashBuckets := lastOr last 'B' (fun a => (atol a).toUInt64) (2 * 1024 * 1024)
  runDebugMode := lastOr last 'D' atoi 0
  numThreads := lastOr last 't' (fun a => (atol a).toUInt64.toUInt32) 0
  basePortIndex := lastOr last 'b' atoi (-1)
  numServerPorts := lastOr last 'N' atoi (-1)
  numClientPorts := lastOr last 'n' atoi (-1)
  updatePercentage := lastOr last 'u' atoi (-1)
  machineId := lastOr last 'm' atoi 1
  postlist := lastOr last 'p' atoi (-1)
  nodeCnt := lastOr last 'C' (fun a => (atoi a).toUInt32) 0
  numRemThreads := lastOr last 'O' (fun a => (atoi a).toUInt32) 0
  qps := lastOr last 'q' (fun a => (atoi a).toUInt32) 0
  packetSize := lastOr last 'r' (fun a => (atoi a).toUInt32) 512
  batchSize := lastOr last 'd' (fun a => (atoi a).toUInt32) 1

def handledCodes : List Char :=
  ['K', 's', 'L', 'B', 'D', 't', 'b', 'N', 'n', 'u', 'm', 'p', 'C', 'O', 'q', 'r', 'd']

def OptionResult.Taken (o : OptionResult) : Prop := o.c ∈ handledCodes ∧ o.optarg.isSome

def lastArg (opts : List OptionResult) (c : Char) : Option (List Char) :=
  (opts.reverse.find? (fun o => o.c = c)).bind OptionResult.optarg

section Options

variable {opts : List OptionResult} {cfg : Config}

theorem Config.case_isSome (cfg : Config) (c : Char) :
    (cfg.case c).isSome = true ↔ c ∈ handledCodes := by
  constructor
  · intro taken
    unfold Config.case at taken
    split at taken
    all_goals first
      | contradiction
      | decide
  · intro among
    fin_cases among <;> rfl

theorem Config.case_ofLast {last : Char → Option (List Char)} {c : Char}
    {store : List Char → Config}
    (taken : (Config.ofLast last).case c = some store) (a : List Char) :
    store a = Config.ofLast (Function.update last c (some a)) := by
  unfold Config.case at taken
  split at taken
  all_goals first
    | contradiction
    | (cases taken; simp [Config.ofLast, lastOr])

theorem Config.initial_ofLast : Config.initial = Config.ofLast (lastArg []) := rfl

theorem lastArg_concat (opts : List OptionResult) (o : OptionResult) (a : List Char)
    (arg : o.optarg = some a) :
    lastArg (opts ++ [o]) = Function.update (lastArg opts) o.c (some a) := by
  funext c
  by_cases same : c = o.c
  · subst same
    simp [lastArg, arg]
  · simp [lastArg, same, Ne.symm same]

theorem parseOptions_concat (cfg : Config) (opts : List OptionResult) (o : OptionResult) :
    parseOptions cfg (opts ++ [o]) = (parseOptions cfg opts).bind (fun cfg => cfg.read o) := by
  induction opts generalizing cfg with
  | nil =>
    simp only [List.nil_append, parseOptions]
    cases read : cfg.read o <;> simp [Except.bind, read]
  | cons first rest ih =>
    simp only [List.cons_append, parseOptions]
    cases cfg.read first with
    | error halt => rfl
    | ok next => exact ih next

theorem Config.read_ok {o : OptionResult} {next : Config} :
    cfg.read o = .ok next ↔ ∃ store a, cfg.case o.c = some store ∧ o.optarg = some a ∧
      next = store a := by
  unfold Config.read
  cases cfg.case o.c with
  | none => simp
  | some store =>
    cases o.optarg with
    | none => simp
    | some a => simp [eq_comm]

theorem parseOptions_ok (opts : List OptionResult) (cfg : Config) :
    parseOptions Config.initial opts = .ok cfg ↔
      (∀ o ∈ opts, o.Taken) ∧ cfg = Config.ofLast (lastArg opts) := by
  induction opts using List.reverseRecOn generalizing cfg with
  | nil => simp [parseOptions, Config.initial_ofLast, eq_comm]
  | append_singleton opts o ih =>
    rw [parseOptions_concat]
    constructor
    · intro parsed
      cases first : parseOptions Config.initial opts with
      | error halt => simp [first, Except.bind] at parsed
      | ok before =>
        obtain ⟨taken, rfl⟩ := (ih before).mp first
        rw [first] at parsed
        obtain ⟨store, a, case, arg, rfl⟩ := Config.read_ok.mp parsed
        constructor
        · intro x hx
          rcases List.mem_append.mp hx with early | last
          · exact taken x early
          · cases List.mem_singleton.mp last
            exact ⟨(Config.case_isSome _ _).mp (by rw [case]; rfl), by simp [arg]⟩
        · rw [lastArg_concat opts o a arg]
          exact Config.case_ofLast case a
    · rintro ⟨taken, rfl⟩
      have first := (ih _).mpr ⟨fun x hx => taken x (List.mem_append_left _ hx), rfl⟩
      obtain ⟨among, given⟩ := taken o (List.mem_append_right _ (List.mem_singleton_self o))
      obtain ⟨a, arg⟩ := Option.isSome_iff_exists.mp given
      obtain ⟨store, case⟩ := Option.isSome_iff_exists.mp
        ((Config.case_isSome (Config.ofLast (lastArg opts)) o.c).mpr among)
      rw [first, lastArg_concat opts o a arg, ← Config.case_ofLast case a]
      exact Config.read_ok.mpr ⟨store, a, case, arg, rfl⟩

end Options

/-- main starts its workers exactly when every option has a case and an argument and
there are workers, no more of them than queue pairs. Of the command line only the
last argument of each option counts. -/
theorem main_launches_iff (heap : Heap) (opts : List OptionResult) (rpcContext : Option NumaContext)
    (params : List LaunchParams) :
    main heap opts = .launched rpcContext params ↔
      (∀ o ∈ opts, o.c ∈ handledCodes ∧ o.optarg.isSome) ∧
      let cfg := Config.ofLast (lastArg opts)
      cfg.numThreads ≠ 0 ∧ cfg.numThreads ≤ cfg.qps ∧
        rpcContext = createRPCNUMAContext heap cfg.nodeCnt 0 (cfg.numThreads - 1) cfg.packetSize ∧
        params = (List.range cfg.numThreads.toNat).map cfg.params := by
  have options := parseOptions_ok opts
  unfold main
  cases parsed : parseOptions Config.initial opts with
  | error halt =>
    simp only [parsed] at options
    simp only [reduceCtorEq, false_iff, not_and]
    intro taken
    exact absurd ((options _).mpr ⟨taken, rfl⟩) (by simp)
  | ok cfg =>
    obtain ⟨taken, rfl⟩ := (options cfg).mp parsed
    generalize Config.ofLast (lastArg opts) = cfg
    by_cases few : cfg.qps < cfg.numThreads
    · simp only [if_pos few, reduceCtorEq, false_iff, not_and]
      intro _ _ enough
      exact absurd few (UInt32.not_lt.mpr enough)
    · have enough : cfg.numThreads ≤ cfg.qps := UInt32.not_lt.mp few
      by_cases none : cfg.numThreads = 0
      · simp [none]
      · simp only [if_neg few, if_neg none, MainResult.launched.injEq]
        constructor
        · rintro ⟨rfl, rfl⟩
          exact ⟨taken, none, enough, rfl, rfl⟩
        · rintro ⟨_, _, _, rfl, rfl⟩
          exact ⟨rfl, rfl⟩

end SimpleNF

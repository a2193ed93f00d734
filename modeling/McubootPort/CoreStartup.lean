/-
This file models how the application's `start.c` brings up the two cores, and
proves what holds however their steps interleave.

The PRO core maps the image, clears the variables that the cores share, lets the
APP core out of its reset and waits for it twice: until it is up, and until it
is initialized. The APP core then waits until the startup code on the PRO core
resumes it. Neither core ever blocks. Each reads a variable again and again, and
between two reads the other core may do any number of steps. A step below is one
access to a shared variable or a register, one call of a routine, or one turn of
the loop that clears the interrupts.
-/

import McubootPort.Library.Interleaving
import McubootPort.RomSegments
import Mathlib.Logic.Function.Basic
import Mathlib.Algebra.Order.Group.Nat

namespace McubootPort

/-! ### What the start calls -/

/-- The RTC watchdog. Its other registers take no writes while it is write protected. -/
structure Watchdog where
  writeProtected : Bool
  enabled : Bool
deriving DecidableEq

/-- Switched off, and protected against being switched on by accident. -/
def Watchdog.Off (watchdog : Watchdog) : Prop :=
  watchdog.writeProtected = true ∧ watchdog.enabled = false

/-- The cores in the order of the loops over `SOC_CPU_CORES_NUM`. -/
def cores : List Cpu := [.pro, .app]

/-- The input of a core that an interrupt source is connected to. -/
abbrev IntrMatrix := Cpu → Nat → Nat

/-- The routines that `start.c` calls, each as what it does to what it drives: `wdt_hal_*` to the
RTC watchdog, `Cache_Read_Enable(1)` to the cache of the APP core (on or not), `esp_cpu_unstall(1)`
to its stall, `ets_set_appcpu_boot_addr` to its boot address (`call_start_cpu1` or zero), and
`intr_matrix_set` and `esp_cache_err_int_init` on a core to the interrupt matrix. The last one
connects a source, `ETS_CACHE_IA_INTR_SOURCE`, to an input, `ETS_MEMACCESS_ERR_INUM`. -/
structure StartHal where
  wdtHalWriteProtectDisable : Watchdog → Watchdog
  wdtHalFeed : Watchdog → Watchdog
  wdtHalDisable : Watchdog → Watchdog
  wdtHalWriteProtectEnable : Watchdog → Watchdog
  cacheReadEnable : Bool → Bool
  espCpuUnstall : Bool → Bool
  etsSetAppcpuBootAddr : Bool → Bool → Bool
  intrMatrixSet : Cpu → Nat → Nat → IntrMatrix → IntrMatrix
  espCacheErrIntInit : Cpu → IntrMatrix → IntrMatrix
  cacheErrSource : Nat
  cacheErrInum : Nat

/-- What these routines are documented to do. -/
structure StartHal.Lawful (hal : StartHal) : Prop where
  unprotects : ∀ watchdog,
    hal.wdtHalWriteProtectDisable watchdog = { watchdog with writeProtected := false }
  protects : ∀ watchdog,
    hal.wdtHalWriteProtectEnable watchdog = { watchdog with writeProtected := true }
  disables : ∀ watchdog, watchdog.writeProtected = false →
    (hal.wdtHalDisable watchdog).enabled = false
  enablesCache : ∀ on, hal.cacheReadEnable on = true
  unstalls : ∀ stalled, hal.espCpuUnstall stalled = false
  setsBootAddr : ∀ addr old, hal.etsSetAppcpuBootAddr addr old = addr
  setsIntr : ∀ core source inum matrix, hal.intrMatrixSet core source inum matrix =
    Function.update matrix core (Function.update (matrix core) source inum)
  connects : ∀ core matrix, hal.espCacheErrIntInit core matrix =
    Function.update matrix core
      (Function.update (matrix core) hal.cacheErrSource hal.cacheErrInum)

/-- `boot_port_wdt_feed`. -/
def bootPortWdtFeed (hal : StartHal) (watchdog : Watchdog) : Watchdog :=
  hal.wdtHalWriteProtectEnable (hal.wdtHalFeed (hal.wdtHalWriteProtectDisable watchdog))

/-- `boot_port_wdt_disable`. -/
def bootPortWdtDisable (hal : StartHal) (watchdog : Watchdog) : Watchdog :=
  hal.wdtHalWriteProtectEnable (hal.wdtHalDisable (hal.wdtHalWriteProtectDisable watchdog))

theorem off_bootPortWdtDisable {hal : StartHal} (lawful : hal.Lawful) (watchdog : Watchdog) :
    (bootPortWdtDisable hal watchdog).Off := by
  rw [bootPortWdtDisable, lawful.protects, lawful.unprotects]
  exact ⟨rfl, lawful.disables _ rfl⟩

/-! ### The two cores -/

/-- The variables that the cores share: `s_cpu_up`, `s_cpu_inited` and `s_resume_cores`. -/
inductive StartFlag
  | cpuUp (core : Cpu)
  | cpuInited (core : Cpu)
  | resumeCores
deriving DecidableEq

/-- `RESET_REASON`, as far as `start_cpu` tells the reasons apart. -/
inductive ResetReason
  | rtcwdtSysReset
  | tg0wdtSysReset
  | other
deriving DecidableEq

/-- What is set when the image is built (with the two flash segments), and what the chip gives. -/
structure StartConfig where
  singleCoreMode : Bool
  bootloaderWdtEnable : Bool
  resetReason : Cpu → ResetReason
  disAppCpu : Bool
  maxIntrSource : Nat
  invalidInum : Nat
  hal : StartHal
  mmu : FlashMmu
  irom : RomSegment
  drom : RomSegment

namespace StartConfig

/-- The cores whose reset reasons `start_cpu` looks at and whose interrupts it clears. -/
def coresUsed (config : StartConfig) : List Cpu :=
  if config.singleCoreMode then [.pro] else cores

/-- A watchdog was the reason for the reset, and the code that looks for it was built. -/
def WatchdogReset (config : StartConfig) : Prop :=
  config.bootloaderWdtEnable = false ∧
    ∃ core ∈ config.coresUsed, config.resetReason core = .rtcwdtSysReset ∨
      config.resetReason core = .tg0wdtSysReset

instance (config : StartConfig) : Decidable config.WatchdogReset :=
  inferInstanceAs (Decidable (_ ∧ _))

/-- The shared variables in `.bss`, in the order in which it is cleared. -/
def bssFlags (config : StartConfig) : List StartFlag :=
  if config.singleCoreMode then []
  else [.cpuUp .pro, .cpuUp .app, .cpuInited .pro, .cpuInited .app, .resumeCores]

end StartConfig

/-- Where the PRO core is in `__start`, `start_cpu`, `start_other_core` and `intr_matrix_clear`: the
step it does next. The two loops that wait for a core have read some of the variables, and have
still to read those in a list. -/
inductive ProPoint
  | mapRomSegments
  | wdtFeed
  | wdtDisable
  | resetWdt
  | clearBss (left : List StartFlag)
  | setUp
  | testSingleCore
  | enableCache
  | unstall
  | testClkgate
  | setClkgate
  | clearRunstall
  | setResetting
  | clearResetting
  | setBootAddr
  | awaitUp (left : List Cpu) (cpusUp : Bool)
  | stopOtherCore
  | clearIntr (source : Nat)
  | cacheErrInt
  | setInited
  | awaitInited (left : List Cpu) (cpusInited : Bool)
  | startup
deriving DecidableEq

/-- Where the APP core is: in the ROM, which waits for an address to jump to, or in
`call_start_cpu1`. -/
inductive AppPoint
  | rom
  | clearBootAddr
  | setUp
  | cacheErrInt
  | setInited
  | awaitResume
  | startup
deriving DecidableEq

/-- The cores, the variables they share, the tables of the flash mapping, and the registers that
start and stop the APP core. `bootAddr` says that the boot address of the APP core is
`call_start_cpu1`, and not zero. -/
structure StartMachine where
  pro : ProPoint
  app : AppPoint
  flag : StartFlag → Bool
  watchdog : Watchdog
  tables : MmuTables
  appCache : Bool
  stalled : Bool
  clkgateEn : Bool
  runstall : Bool
  resetting : Bool
  bootAddr : Bool
  inum : IntrMatrix

namespace StartMachine

def setFlag (machine : StartMachine) (flag : StartFlag) (value : Bool) : StartMachine :=
  { machine with flag := Function.update machine.flag flag value }

def goPro (machine : StartMachine) (point : ProPoint) : StartMachine :=
  { machine with pro := point }

def goApp (machine : StartMachine) (point : AppPoint) : StartMachine :=
  { machine with app := point }

/-- The APP core has a clock and nothing holds it. -/
def AppRuns (machine : StartMachine) : Prop :=
  machine.clkgateEn = true ∧ machine.runstall = false ∧ machine.resetting = false ∧
    machine.stalled = false

instance (machine : StartMachine) : Decidable machine.AppRuns :=
  inferInstanceAs (Decidable (_ ∧ _))

/-- One turn of the loop in `intr_matrix_clear`. -/
def clearSource (config : StartConfig) (machine : StartMachine) (source : Nat) : StartMachine :=
  { machine with
    inum := config.coresUsed.foldl
      (fun matrix core => config.hal.intrMatrixSet core source config.invalidInum matrix)
      machine.inum }

end StartMachine

/-- What the PRO core does at a point. -/
def proStepAt (config : StartConfig) (machine : StartMachine) : ProPoint → StartMachine
  | .mapRomSegments =>
    { machine with
      tables := (mapRomSegments config.mmu config.irom config.drom machine.tables).2 }.goPro
        .wdtFeed
  | .wdtFeed =>
    { machine with watchdog := bootPortWdtFeed config.hal machine.watchdog }.goPro .wdtDisable
  | .wdtDisable =>
    { machine with watchdog := bootPortWdtDisable config.hal machine.watchdog }.goPro .resetWdt
  | .resetWdt =>
    if config.WatchdogReset then
      { machine with
        watchdog := config.hal.wdtHalWriteProtectEnable (config.hal.wdtHalDisable
          (config.hal.wdtHalWriteProtectDisable machine.watchdog)) }.goPro
            (.clearBss config.bssFlags)
    else machine.goPro (.clearBss config.bssFlags)
  | .clearBss (flag :: left) => (machine.setFlag flag false).goPro (.clearBss left)
  | .clearBss [] =>
    machine.goPro (if config.singleCoreMode then .stopOtherCore else .setUp)
  | .setUp => (machine.setFlag (.cpuUp .pro) true).goPro .testSingleCore
  | .testSingleCore => machine.goPro (if config.disAppCpu then .clearIntr 0 else .enableCache)
  | .enableCache =>
    { machine with appCache := config.hal.cacheReadEnable machine.appCache }.goPro .unstall
  | .unstall =>
    { machine with stalled := config.hal.espCpuUnstall machine.stalled }.goPro .testClkgate
  | .testClkgate => machine.goPro (if machine.clkgateEn then .setBootAddr else .setClkgate)
  | .setClkgate => { machine with clkgateEn := true }.goPro .clearRunstall
  | .clearRunstall => { machine with runstall := false }.goPro .setResetting
  | .setResetting => ({ machine with resetting := true }.goApp .rom).goPro .clearResetting
  | .clearResetting => { machine with resetting := false }.goPro .setBootAddr
  | .setBootAddr =>
    { machine with bootAddr := config.hal.etsSetAppcpuBootAddr true machine.bootAddr }.goPro
      (.awaitUp cores true)
  | .awaitUp (core :: left) cpusUp =>
    machine.goPro (.awaitUp left (cpusUp && machine.flag (.cpuUp core)))
  | .awaitUp [] cpusUp => machine.goPro (if cpusUp then .clearIntr 0 else .awaitUp cores true)
  | .stopOtherCore => { machine with clkgateEn := false }.goPro (.clearIntr 0)
  | .clearIntr source =>
    if source < config.maxIntrSource then
      (StartMachine.clearSource config machine source).goPro (.clearIntr (source + 1))
    else machine.goPro .cacheErrInt
  | .cacheErrInt =>
    { machine with inum := config.hal.espCacheErrIntInit .pro machine.inum }.goPro
      (if config.singleCoreMode then .startup else .setInited)
  | .setInited => (machine.setFlag (.cpuInited .pro) true).goPro (.awaitInited cores true)
  | .awaitInited (core :: left) cpusInited =>
    machine.goPro (.awaitInited left (cpusInited && machine.flag (.cpuInited core)))
  | .awaitInited [] cpusInited =>
    machine.goPro (if cpusInited then .startup else .awaitInited cores true)
  | .startup => machine

def proStep (config : StartConfig) (machine : StartMachine) : StartMachine :=
  proStepAt config machine machine.pro

/-- What the APP core does at a point. -/
def appStepAt (config : StartConfig) (machine : StartMachine) : AppPoint → StartMachine
  | .rom => if machine.bootAddr then machine.goApp .clearBootAddr else machine
  | .clearBootAddr =>
    { machine with bootAddr := config.hal.etsSetAppcpuBootAddr false machine.bootAddr }.goApp .setUp
  | .setUp => (machine.setFlag (.cpuUp .app) true).goApp .cacheErrInt
  | .cacheErrInt =>
    { machine with inum := config.hal.espCacheErrIntInit .app machine.inum }.goApp .setInited
  | .setInited => (machine.setFlag (.cpuInited .app) true).goApp .awaitResume
  | .awaitResume => if machine.flag .resumeCores then machine.goApp .startup else machine
  | .startup => machine

def appStep (config : StartConfig) (machine : StartMachine) : StartMachine :=
  if machine.AppRuns then appStepAt config machine machine.app else machine

/-- `startup_resume_other_cores`, which the startup code on the PRO core calls. -/
def startupResumeOtherCores (config : StartConfig) (machine : StartMachine) : StartMachine :=
  if machine.pro = .startup ∧ config.singleCoreMode = false then
    machine.setFlag .resumeCores true
  else machine

/-- Who does the next step: a core in the code of `start.c`, or the startup code behind it. -/
inductive StartParty
  | pro
  | app
  | startupCode
deriving DecidableEq

def startMove (config : StartConfig) : StartParty → StartMachine → StartMachine
  | .pro => proStep config
  | .app => appStep config
  | .startupCode => startupResumeOtherCores config

/-- The machine when the PRO core enters `__start`: the APP core is in the ROM and has no address to
jump to. The variables and the other registers hold anything. -/
structure StartMachine.Fresh (machine : StartMachine) : Prop where
  pro : machine.pro = .mapRomSegments
  app : machine.app = .rom
  bootAddr : machine.bootAddr = false

/-! ### What holds at each point -/

namespace StartConfig

/-- The image uses both cores and the chip has them. -/
structure StartsApp (config : StartConfig) : Prop where
  multiCore : config.singleCoreMode = false
  fuse : config.disAppCpu = false

theorem mem_bssFlags (config : StartConfig) (multiCore : config.singleCoreMode = false)
    (flag : StartFlag) : flag ∈ config.bssFlags := by
  rw [bssFlags, multiCore]
  match flag with
  | .cpuUp .pro | .cpuUp .app | .cpuInited .pro | .cpuInited .app | .resumeCores => simp

end StartConfig

/-- What a loop knows that waits for the cores: the cores it has seen are not in `left`, and if it
has missed none so far then the APP core is in `left` or has arrived. -/
structure Looking (arrived : Bool) (left : List Cpu) (seen : Bool) : Prop where
  suffix : left <:+ cores
  sound : seen = true → .app ∉ left → arrived = true

namespace StartMachine

/-- The APP core is in the ROM and has no address to jump to. -/
def Held (machine : StartMachine) : Prop :=
  machine.app = .rom ∧ machine.bootAddr = false

/-- If the APP core has a clock, nothing but a stall holds it. This is what `start_other_core`
relies on when it finds the clock on. -/
def Clocked (machine : StartMachine) : Prop :=
  machine.clkgateEn = true → machine.runstall = false ∧ machine.resetting = false

/-- The variables as the PRO core sets them before it starts the APP core. -/
def OnlyProUp (machine : StartMachine) : Prop :=
  ∀ flag, machine.flag flag = decide (flag = .cpuUp .pro)

/-- What the APP core finds when it leaves the ROM. -/
def Ready (machine : StartMachine) : Prop :=
  machine.watchdog.Off ∧ machine.OnlyProUp ∧ machine.appCache = true

/-- The first sources of the interrupt matrix are cleared, apart from that of the cache errors. -/
def IntrCleared (config : StartConfig) (machine : StartMachine) (sources : Nat) : Prop :=
  ∀ core ∈ config.coresUsed, ∀ source < sources, source ≠ config.hal.cacheErrSource →
    machine.inum core source = config.invalidInum

/-- The source of the cache errors is connected on a core. -/
def CacheErrConnected (config : StartConfig) (machine : StartMachine) (core : Cpu) : Prop :=
  machine.inum core config.hal.cacheErrSource = config.hal.cacheErrInum

/-- What the PRO core has done when it comes to a point at which the APP core is not released, from
a machine that it started with. -/
def SoFar (config : StartConfig) (machine start : StartMachine) : ProPoint → Prop
  | .mapRomSegments | .wdtFeed | .wdtDisable => start.Clocked → machine.Clocked
  | .resetWdt => (start.Clocked → machine.Clocked) ∧ machine.watchdog.Off
  | .clearBss left => (start.Clocked → machine.Clocked) ∧ machine.watchdog.Off ∧
      ∀ flag ∈ config.bssFlags, flag ∉ left → machine.flag flag = false
  | .setUp => config.singleCoreMode = false ∧ (start.Clocked → machine.Clocked) ∧
      machine.watchdog.Off ∧ ∀ flag, machine.flag flag = false
  | .testSingleCore => config.singleCoreMode = false ∧ (start.Clocked → machine.Clocked) ∧
      machine.watchdog.Off ∧ machine.OnlyProUp
  | .enableCache => config.StartsApp ∧ (start.Clocked → machine.Clocked) ∧
      machine.watchdog.Off ∧ machine.OnlyProUp
  | .unstall => config.StartsApp ∧ (start.Clocked → machine.Clocked) ∧ machine.Ready
  | .testClkgate => config.StartsApp ∧ (start.Clocked → machine.Clocked) ∧ machine.Ready ∧
      machine.stalled = false
  | .setClkgate => config.StartsApp ∧ machine.Ready ∧ machine.stalled = false
  | .clearRunstall => config.StartsApp ∧ machine.Ready ∧ machine.stalled = false ∧
      machine.clkgateEn = true
  | .setResetting | .clearResetting => config.StartsApp ∧ machine.Ready ∧
      machine.stalled = false ∧ machine.clkgateEn = true ∧ machine.runstall = false
  | .setBootAddr => config.StartsApp ∧ machine.Ready ∧ (start.Clocked → machine.AppRuns)
  | .stopOtherCore => config.singleCoreMode = true ∧ machine.watchdog.Off
  | .awaitUp _ _ | .clearIntr _ | .cacheErrInt | .setInited | .awaitInited _ _ | .startup => False

/-- What the PRO core has done when it comes to a point behind the start of the APP core, which it
has left out. -/
def Without (config : StartConfig) (machine : StartMachine) : ProPoint → Prop
  | .clearIntr source => ¬ config.StartsApp ∧ machine.watchdog.Off ∧
      machine.IntrCleared config source ∧
      if config.singleCoreMode then machine.clkgateEn = false else machine.OnlyProUp
  | .cacheErrInt => ¬ config.StartsApp ∧ machine.watchdog.Off ∧
      machine.IntrCleared config config.maxIntrSource ∧
      if config.singleCoreMode then machine.clkgateEn = false else machine.OnlyProUp
  | .setInited => config.singleCoreMode = false ∧ config.disAppCpu = true ∧ machine.watchdog.Off ∧
      machine.OnlyProUp
  | .awaitInited left cpusInited => config.singleCoreMode = false ∧ config.disAppCpu = true ∧
      machine.watchdog.Off ∧ machine.flag (.cpuInited .app) = false ∧
      Looking (machine.flag (.cpuInited .app)) left cpusInited
  | .startup => config.singleCoreMode = true ∧ machine.watchdog.Off ∧
      machine.IntrCleared config config.maxIntrSource ∧ machine.CacheErrConnected config .pro ∧
      machine.clkgateEn = false
  | _ => False

/-- What the PRO core knows when it comes to a point behind the release of the APP core. -/
def Since (config : StartConfig) (machine : StartMachine) : ProPoint → Prop
  | .awaitUp left cpusUp => Looking (machine.flag (.cpuUp .app)) left cpusUp
  | .clearIntr source => machine.flag (.cpuUp .app) = true ∧ machine.IntrCleared config source
  | .cacheErrInt => machine.flag (.cpuUp .app) = true ∧
      machine.IntrCleared config config.maxIntrSource
  | .setInited => machine.flag (.cpuUp .app) = true ∧
      machine.IntrCleared config config.maxIntrSource ∧ machine.CacheErrConnected config .pro
  | .awaitInited left cpusInited => machine.flag (.cpuUp .app) = true ∧
      machine.IntrCleared config config.maxIntrSource ∧ machine.CacheErrConnected config .pro ∧
      Looking (machine.flag (.cpuInited .app)) left cpusInited
  | .startup => machine.flag (.cpuInited .app) = true ∧
      machine.IntrCleared config config.maxIntrSource ∧ machine.CacheErrConnected config .pro
  | _ => False

end StartMachine

/-- `s_cpu_inited` is set for the PRO core. -/
def ProPoint.hasInited : ProPoint → Bool
  | .awaitInited _ _ | .startup => true
  | _ => false

/-- `s_cpu_up` is set for the APP core. -/
def AppPoint.hasSetUp : AppPoint → Bool
  | .rom | .clearBootAddr | .setUp => false
  | .cacheErrInt | .setInited | .awaitResume | .startup => true

/-- `esp_cache_err_int_init` has returned on the APP core. -/
def AppPoint.hasCacheErrInt : AppPoint → Bool
  | .setInited | .awaitResume | .startup => true
  | _ => false

/-- `s_cpu_inited` is set for the APP core. -/
def AppPoint.hasInited : AppPoint → Bool
  | .awaitResume | .startup => true
  | _ => false

/-- The APP core is released. Every variable but the last says how far its core has come. -/
structure StartMachine.Released (config : StartConfig) (machine start : StartMachine) :
    Prop where
  starts : config.StartsApp
  watchdog : machine.watchdog.Off
  appCache : machine.appCache = true
  runs : start.Clocked → machine.AppRuns
  since : machine.Since config machine.pro
  proUp : machine.flag (.cpuUp .pro) = true
  appUp : machine.flag (.cpuUp .app) = machine.app.hasSetUp
  proInited : machine.flag (.cpuInited .pro) = machine.pro.hasInited
  appInited : machine.flag (.cpuInited .app) = machine.app.hasInited
  bootAddr : machine.app = .rom → machine.bootAddr = true
  cacheErr : machine.app.hasCacheErrInt = true → machine.CacheErrConnected config .app ∨
    machine.inum .app config.hal.cacheErrSource = config.invalidInum
  resumed : machine.flag .resumeCores = true → machine.pro = .startup
  started : machine.app = .startup → machine.flag .resumeCores = true

/-- What holds in every state: the APP core is held and the PRO core is before its release, or has
left it out, or the APP core is released. -/
inductive StartInvariant (config : StartConfig) (start machine : StartMachine) : Prop
  | before (held : machine.Held) (soFar : machine.SoFar config start machine.pro)
  | without (held : machine.Held) (without : machine.Without config machine.pro)
  | released (released : machine.Released config start)

/-! ### What each party keeps -/

section Steps

variable {config : StartConfig} {start machine : StartMachine}

theorem StartMachine.Fresh.invariant (fresh : machine.Fresh) :
    StartInvariant config machine machine :=
  .before ⟨fresh.app, fresh.bootAddr⟩ (by rw [fresh.pro]; exact id)

/-- A held APP core does nothing. -/
theorem appStep_held (held : machine.Held) : appStep config machine = machine := by
  rw [appStep]
  split
  · rw [held.1, appStepAt, held.2, if_neg Bool.false_ne_true]
  · rfl

theorem startupResumeOtherCores_idle
    (idle : machine.pro ≠ .startup ∨ config.singleCoreMode = true) :
    startupResumeOtherCores config machine = machine := by
  rw [startupResumeOtherCores, if_neg]
  rintro ⟨started, multiCore⟩
  rcases idle with before | single
  · exact before started
  · rw [single] at multiCore
    cases multiCore

/-- While the APP core is held and nobody resumes it, only the PRO core moves. -/
theorem startMove_idle (held : machine.Held)
    (idle : machine.pro ≠ .startup ∨ config.singleCoreMode = true) (party : StartParty)
    (other : party ≠ .pro) : startMove config party machine = machine := by
  cases party with
  | pro => exact absurd rfl other
  | app => exact appStep_held held
  | startupCode => exact startupResumeOtherCores_idle idle

theorem StartMachine.intrCleared_zero : machine.IntrCleared config 0 :=
  fun _ _ _ below => absurd below (Nat.not_lt_zero _)

/-- What one turn of the loop does to a source. -/
theorem clearSource_inum (lawful : config.hal.Lawful) (machine : StartMachine) (source : Nat)
    (core : Cpu) (other : Nat) :
    (machine.clearSource config source).inum core other =
      if core ∈ config.coresUsed ∧ other = source then config.invalidInum
      else machine.inum core other := by
  have set (matrix : IntrMatrix) (target : Cpu) :
      config.hal.intrMatrixSet target source config.invalidInum matrix core other =
        if core = target ∧ other = source then config.invalidInum else matrix core other := by
    rw [lawful.setsIntr]
    by_cases here : core = target
    · rw [here, Function.update_self, Function.update_apply]
      simp only [true_and]
    · rw [Function.update_of_ne here, if_neg fun both => here both.1]
  rw [StartMachine.clearSource, StartConfig.coresUsed, cores]
  split
  · simp only [List.foldl_cons, List.foldl_nil, set, List.mem_singleton]
  · simp only [List.foldl_cons, List.foldl_nil, set, List.mem_cons, List.not_mem_nil, or_false]
    cases core <;> simp

/-- Clearing one more source. -/
theorem StartMachine.IntrCleared.clearSource (lawful : config.hal.Lawful) {source : Nat}
    (cleared : machine.IntrCleared config source) :
    (machine.clearSource config source).IntrCleared config (source + 1) := by
  intro core used other below clears
  rw [clearSource_inum lawful]
  by_cases here : other = source
  · rw [if_pos ⟨used, here⟩]
  · rw [if_neg fun both => here both.2]
    exact cleared core used other (by omega) clears

/-- What `esp_cache_err_int_init` does to the other sources. -/
theorem espCacheErrIntInit_ne (lawful : config.hal.Lawful) (core other : Cpu) (source : Nat)
    (different : other ≠ core ∨ source ≠ config.hal.cacheErrSource) (matrix : IntrMatrix) :
    config.hal.espCacheErrIntInit core matrix other source = matrix other source := by
  rw [lawful.connects]
  by_cases here : other = core
  · subst here
    rw [Function.update_self, Function.update_of_ne (different.resolve_left (absurd rfl ·))]
  · rw [Function.update_of_ne here]

/-- It clears nothing, and connects no source that is cleared. -/
theorem StartMachine.IntrCleared.espCacheErrIntInit (lawful : config.hal.Lawful) {sources : Nat}
    (cleared : machine.IntrCleared config sources) (core : Cpu) :
    IntrCleared config
      { machine with inum := config.hal.espCacheErrIntInit core machine.inum } sources := by
  intro other used source below clears
  exact (espCacheErrIntInit_ne lawful core other source (Or.inr clears) machine.inum).trans
    (cleared other used source below clears)

theorem espCacheErrIntInit_self (lawful : config.hal.Lawful) (core : Cpu) (matrix : IntrMatrix) :
    config.hal.espCacheErrIntInit core matrix core config.hal.cacheErrSource =
      config.hal.cacheErrInum := by
  rw [lawful.connects, Function.update_self, Function.update_self]

theorem looking_cores (arrived : Bool) : Looking arrived cores true where
  suffix := List.suffix_refl _
  sound _ missing := absurd (List.mem_cons_of_mem _ (List.mem_cons_self ..)) missing

/-- The loop reads the variable of the next core. -/
theorem Looking.read {arrived seen : Bool} {core : Cpu} {left : List Cpu}
    (looking : Looking arrived (core :: left) seen) (flag : Bool)
    (reads : core = .app → flag = arrived) : Looking arrived left (seen && flag) where
  suffix := (List.suffix_cons core left).trans looking.suffix
  sound both missing := by
    rw [Bool.and_eq_true] at both
    by_cases here : core = .app
    · rw [← reads here]
      exact both.2
    · refine looking.sound both.1 fun member => ?_
      rcases List.mem_cons.mp member with same | later
      · exact here same.symm
      · exact missing later

/-- When the loop ends, the APP core has arrived. -/
theorem Looking.ends {arrived seen : Bool} (looking : Looking arrived [] seen)
    (all : seen = true) : arrived = true :=
  looking.sound all List.not_mem_nil

/-- A step of the PRO core before the release. -/
theorem StartInvariant.proStepAt_before (lawful : config.hal.Lawful) (point : ProPoint)
    (held : machine.Held)
    (soFar : machine.SoFar config start point) :
    StartInvariant config start (proStepAt config machine point) := by
  cases point with
  | mapRomSegments | wdtFeed => exact .before held soFar
  | wdtDisable => exact .before held ⟨soFar, off_bootPortWdtDisable lawful machine.watchdog⟩
  | resetWdt =>
    obtain ⟨clocked, off⟩ := soFar
    have uncleared : ∀ flag ∈ config.bssFlags, flag ∉ config.bssFlags →
        machine.flag flag = false := fun _ inBss missing => absurd inBss missing
    rw [proStepAt]
    split
    · exact .before held
        ⟨clocked, off_bootPortWdtDisable lawful machine.watchdog, uncleared⟩
    · exact .before held ⟨clocked, off, uncleared⟩
  | clearBss left =>
    obtain ⟨clocked, off, cleared⟩ := soFar
    cases left with
    | nil =>
      rw [proStepAt]
      split
      · rename_i single
        exact .before held ⟨single, off⟩
      · rename_i several
        have multiCore := Bool.eq_false_of_not_eq_true several
        exact .before held ⟨multiCore, clocked, off, fun flag =>
          cleared flag (config.mem_bssFlags multiCore flag) List.not_mem_nil⟩
    | cons flag left =>
      refine .before held ⟨clocked, off, fun other inBss missing => ?_⟩
      show Function.update machine.flag flag false other = false
      by_cases here : other = flag
      · rw [here, Function.update_self]
      · rw [Function.update_of_ne here]
        refine cleared other inBss fun member => ?_
        rcases List.mem_cons.mp member with same | later
        · exact here same
        · exact missing later
  | setUp =>
    obtain ⟨multiCore, clocked, off, cleared⟩ := soFar
    refine .before held ⟨multiCore, clocked, off, fun flag => ?_⟩
    show Function.update machine.flag (.cpuUp .pro) true flag = decide (flag = .cpuUp .pro)
    by_cases here : flag = .cpuUp .pro
    · rw [here, Function.update_self, decide_eq_true rfl]
    · rw [Function.update_of_ne here, cleared flag, decide_eq_false here]
  | testSingleCore =>
    obtain ⟨multiCore, clocked, off, onlyProUp⟩ := soFar
    rw [proStepAt]
    split
    · rename_i fused
      refine .without held ⟨fun starts => ?_, off, StartMachine.intrCleared_zero, ?_⟩
      · rw [starts.fuse] at fused
        cases fused
      · rw [if_neg (Bool.eq_false_iff.mp multiCore)]
        exact onlyProUp
    · rename_i whole
      exact .before held
        ⟨⟨multiCore, Bool.eq_false_of_not_eq_true whole⟩, clocked, off, onlyProUp⟩
  | enableCache =>
    obtain ⟨starts, clocked, off, onlyProUp⟩ := soFar
    exact .before held ⟨starts, clocked, off, onlyProUp, lawful.enablesCache _⟩
  | unstall =>
    obtain ⟨starts, clocked, ready⟩ := soFar
    exact .before held ⟨starts, clocked, ready, lawful.unstalls _⟩
  | testClkgate =>
    obtain ⟨starts, clocked, ready, stalled⟩ := soFar
    rw [proStepAt]
    split
    · rename_i gate
      exact .before held
        ⟨starts, ready, fun free => ⟨gate, (clocked free gate).1, (clocked free gate).2, stalled⟩⟩
    · exact .before held ⟨starts, ready, stalled⟩
  | setClkgate =>
    obtain ⟨starts, ready, stalled⟩ := soFar
    exact .before held ⟨starts, ready, stalled, rfl⟩
  | clearRunstall =>
    obtain ⟨starts, ready, stalled, gate⟩ := soFar
    exact .before held ⟨starts, ready, stalled, gate, rfl⟩
  | setResetting => exact .before ⟨rfl, held.2⟩ soFar
  | clearResetting =>
    obtain ⟨starts, ready, stalled, gate, runstall⟩ := soFar
    exact .before held ⟨starts, ready, fun _ => ⟨gate, runstall, rfl, stalled⟩⟩
  | setBootAddr =>
    obtain ⟨starts, ⟨off, onlyProUp, appCache⟩, runs⟩ := soFar
    have inRom : (proStepAt config machine .setBootAddr).app = .rom := held.1
    exact .released
      { starts := starts
        watchdog := off
        appCache := appCache
        runs := runs
        since := looking_cores _
        proUp := onlyProUp (.cpuUp .pro)
        appUp := by rw [inRom]; exact onlyProUp (.cpuUp .app)
        proInited := onlyProUp (.cpuInited .pro)
        appInited := by rw [inRom]; exact onlyProUp (.cpuInited .app)
        bootAddr := fun _ => lawful.setsBootAddr true _
        cacheErr := fun done => by
          rw [inRom] at done
          cases done
        resumed := fun set => absurd (set.symm.trans (onlyProUp .resumeCores)) (by decide)
        started := fun started => absurd (inRom.symm.trans started) (by decide) }
  | stopOtherCore =>
    obtain ⟨single, off⟩ := soFar
    refine .without held ⟨fun starts => ?_, off, StartMachine.intrCleared_zero, ?_⟩
    · rw [starts.multiCore] at single
      cases single
    · rw [if_pos single]
      rfl
  | awaitUp _ _ | clearIntr _ | cacheErrInt | setInited | awaitInited _ _ | startup =>
    exact soFar.elim

/-- A step of the PRO core when it has left the APP core out. -/
theorem StartInvariant.proStepAt_without (lawful : config.hal.Lawful) (point : ProPoint)
    (held : machine.Held) (atPoint : machine.pro = point) (without : machine.Without config point) :
    StartInvariant config start (proStepAt config machine point) := by
  cases point with
  | clearIntr source =>
    obtain ⟨leavesOut, off, cleared, rest⟩ := without
    rw [proStepAt]
    split
    · exact .without held ⟨leavesOut, off, cleared.clearSource lawful, rest⟩
    · exact .without held ⟨leavesOut, off,
        fun core used other below => cleared core used other (by omega), rest⟩
  | cacheErrInt =>
    obtain ⟨leavesOut, off, cleared, rest⟩ := without
    rw [proStepAt]
    split
    · rename_i single
      rw [if_pos single] at rest
      exact .without held ⟨single, off, cleared.espCacheErrIntInit lawful .pro,
        espCacheErrIntInit_self lawful .pro _, rest⟩
    · rename_i several
      have multiCore := Bool.eq_false_of_not_eq_true several
      have fused : config.disAppCpu = true := by
        by_contra whole
        exact leavesOut ⟨multiCore, Bool.eq_false_of_not_eq_true whole⟩
      rw [if_neg several] at rest
      exact .without held ⟨multiCore, fused, off, rest⟩
  | setInited =>
    obtain ⟨multiCore, fused, off, onlyProUp⟩ := without
    exact .without held
      ⟨multiCore, fused, off, onlyProUp (.cpuInited .app), looking_cores _⟩
  | awaitInited left cpusInited =>
    obtain ⟨multiCore, fused, off, notInited, looking⟩ := without
    cases left with
    | nil =>
      rw [proStepAt]
      split
      · rename_i all
        exact absurd (looking.ends all) (Bool.eq_false_iff.mp notInited)
      · exact .without held ⟨multiCore, fused, off, notInited, looking_cores _⟩
    | cons core left =>
      exact .without held ⟨multiCore, fused, off, notInited, looking.read _ fun here => by
        rw [here]⟩
  | startup => exact .without held (by rw [proStepAt, atPoint]; exact without)
  | _ => exact without.elim

/-- The PRO core goes on behind the release, and at most clears interrupts. -/
theorem StartMachine.Released.goPro (released : machine.Released config start) (inum : IntrMatrix)
    (point : ProPoint) (notStarted : machine.pro ≠ .startup)
    (sameInited : point.hasInited = machine.pro.hasInited)
    (cacheErr : inum .app config.hal.cacheErrSource =
        machine.inum .app config.hal.cacheErrSource ∨
      inum .app config.hal.cacheErrSource = config.invalidInum)
    (since : ({ machine with inum := inum }.goPro point).Since config point) :
    ({ machine with inum := inum }.goPro point).Released config start where
  starts := released.starts
  watchdog := released.watchdog
  appCache := released.appCache
  runs := released.runs
  since := since
  proUp := released.proUp
  appUp := released.appUp
  proInited := released.proInited.trans sameInited.symm
  appInited := released.appInited
  bootAddr := released.bootAddr
  cacheErr done := by
    rcases cacheErr with same | cleared
    · rcases released.cacheErr done with connected | cleared
      · exact Or.inl (same.trans connected)
      · exact Or.inr (same.trans cleared)
    · exact Or.inr cleared
  resumed set := absurd (released.resumed set) notStarted
  started := released.started

/-- A step of the PRO core behind the release. -/
theorem StartMachine.Released.proStepAt (lawful : config.hal.Lawful)
    (released : machine.Released config start) (point : ProPoint) (atPoint : machine.pro = point) :
    (proStepAt config machine point).Released config start := by
  have since := released.since
  rw [atPoint] at since
  have goes := fun next notStarted sameInited =>
    released.goPro machine.inum next notStarted sameInited (Or.inl rfl)
  rw [atPoint] at goes
  cases point with
  | awaitUp left cpusUp =>
    cases left with
    | nil =>
      rw [McubootPort.proStepAt]
      split
      · rename_i all
        exact goes _ nofun rfl ⟨since.ends all, intrCleared_zero⟩
      · exact goes _ nofun rfl (looking_cores _)
    | cons core left => exact goes _ nofun rfl (since.read _ fun here => by rw [here])
  | clearIntr source =>
    obtain ⟨appUp, cleared⟩ := since
    rw [McubootPort.proStepAt]
    split
    · have cacheErr := clearSource_inum lawful machine source .app config.hal.cacheErrSource
      refine released.goPro _ _ (by rw [atPoint]; nofun) (by rw [atPoint]; rfl) ?_
        ⟨appUp, cleared.clearSource lawful⟩
      split at cacheErr
      · exact Or.inr cacheErr
      · exact Or.inl cacheErr
    · exact goes _ nofun rfl
        ⟨appUp, fun core used other below => cleared core used other (by omega)⟩
  | cacheErrInt =>
    obtain ⟨appUp, cleared⟩ := since
    rw [McubootPort.proStepAt, if_neg (Bool.eq_false_iff.mp released.starts.multiCore)]
    exact released.goPro _ _ (by rw [atPoint]; nofun) (by rw [atPoint]; rfl)
      (Or.inl (espCacheErrIntInit_ne lawful .pro .app _ (Or.inl (by decide)) _))
      ⟨appUp, cleared.espCacheErrIntInit lawful .pro, espCacheErrIntInit_self lawful .pro _⟩
  | setInited =>
    obtain ⟨appUp, cleared, connected⟩ := since
    exact
      { released with
        since := ⟨appUp, cleared, connected, looking_cores _⟩
        proInited := rfl
        resumed := fun set => absurd (released.resumed set) (by rw [atPoint]; nofun) }
  | awaitInited left cpusInited =>
    obtain ⟨appUp, cleared, connected, looking⟩ := since
    cases left with
    | nil =>
      rw [McubootPort.proStepAt]
      split
      · rename_i all
        exact goes _ nofun rfl ⟨looking.ends all, cleared, connected⟩
      · exact goes _ nofun rfl ⟨appUp, cleared, connected, looking_cores _⟩
    | cons core left =>
      exact goes _ nofun rfl ⟨appUp, cleared, connected, looking.read _ fun here => by rw [here]⟩
  | startup => exact released
  | _ => exact since.elim

/-- What the PRO core knows stays true when the APP core sets a variable. -/
theorem StartMachine.Since.setFlag (point : ProPoint) (since : machine.Since config point)
    (flag : StartFlag) : (machine.setFlag flag true).Since config point := by
  have keeps : ∀ other, machine.flag other = true → (machine.setFlag flag true).flag other = true :=
    fun other set => by
      show Function.update machine.flag flag true other = true
      by_cases here : other = flag
      · rw [here, Function.update_self]
      · rw [Function.update_of_ne here, set]
  have looks : ∀ other left seen, Looking (machine.flag other) left seen →
      Looking ((machine.setFlag flag true).flag other) left seen := fun other left seen looking =>
    ⟨looking.suffix, fun all missing => keeps other (looking.sound all missing)⟩
  cases point with
  | awaitUp left cpusUp => exact looks _ left cpusUp since
  | clearIntr source => exact ⟨keeps _ since.1, since.2⟩
  | cacheErrInt | setInited => exact ⟨keeps _ since.1, since.2⟩
  | awaitInited left cpusInited =>
    exact ⟨keeps _ since.1, since.2.1, since.2.2.1, looks _ left cpusInited since.2.2.2⟩
  | startup => exact ⟨keeps _ since.1, since.2⟩
  | _ => exact since.elim

/-- And when it connects its source of the cache errors. -/
theorem StartMachine.Since.espCacheErrIntInit (lawful : config.hal.Lawful) (point : ProPoint)
    (since : machine.Since config point) :
    Since config { machine with inum := config.hal.espCacheErrIntInit .app machine.inum }
      point := by
  have keeps {sources : Nat} (cleared : machine.IntrCleared config sources) :=
    cleared.espCacheErrIntInit lawful .app
  have other : config.hal.espCacheErrIntInit .app machine.inum .pro config.hal.cacheErrSource =
      machine.inum .pro config.hal.cacheErrSource :=
    espCacheErrIntInit_ne lawful .app .pro _ (Or.inl (by decide)) machine.inum
  cases point with
  | awaitUp left cpusUp => exact since
  | clearIntr source => exact ⟨since.1, keeps since.2⟩
  | cacheErrInt => exact ⟨since.1, keeps since.2⟩
  | setInited => exact ⟨since.1, keeps since.2.1, other.trans since.2.2⟩
  | awaitInited left cpusInited =>
    exact ⟨since.1, keeps since.2.1, other.trans since.2.2.1, since.2.2.2⟩
  | startup => exact ⟨since.1, keeps since.2.1, other.trans since.2.2⟩
  | _ => exact since.elim

/-- A step of the APP core. -/
theorem StartMachine.Released.appStepAt (lawful : config.hal.Lawful)
    (released : machine.Released config start) (point : AppPoint) (atPoint : machine.app = point) :
    (appStepAt config machine point).Released config start := by
  have appUp := released.appUp
  have appInited := released.appInited
  rw [atPoint] at appUp appInited
  cases point with
  | rom =>
    rw [McubootPort.appStepAt, if_pos (released.bootAddr atPoint)]
    exact { released with appUp, appInited, bootAddr := nofun, cacheErr := nofun, started := nofun }
  | clearBootAddr =>
    exact { released with appUp, appInited, bootAddr := nofun, cacheErr := nofun, started := nofun }
  | setUp =>
    exact
      { released with
        since := released.since.setFlag _ (.cpuUp .app)
        appUp := rfl
        appInited := appInited
        bootAddr := nofun
        cacheErr := nofun
        started := nofun }
  | cacheErrInt =>
    exact
      { released with
        since := released.since.espCacheErrIntInit lawful _
        appUp := appUp
        appInited := appInited
        bootAddr := nofun
        cacheErr := fun _ => Or.inl (espCacheErrIntInit_self lawful .app machine.inum)
        started := nofun }
  | setInited =>
    exact
      { released with
        since := released.since.setFlag _ (.cpuInited .app)
        appUp := appUp
        appInited := rfl
        bootAddr := nofun
        cacheErr := fun _ => released.cacheErr (by rw [atPoint]; rfl)
        started := nofun }
  | awaitResume =>
    rw [McubootPort.appStepAt]
    split
    · rename_i resumed
      exact
        { released with
          appUp
          appInited
          bootAddr := nofun
          cacheErr := fun _ => released.cacheErr (by rw [atPoint]; rfl)
          started := fun _ => resumed }
    · exact released
  | startup => exact released

theorem StartMachine.Released.startupResumeOtherCores (released : machine.Released config start) :
    (startupResumeOtherCores config machine).Released config start := by
  rw [McubootPort.startupResumeOtherCores]
  split
  · rename_i both
    exact
      { released with
        since := released.since.setFlag _ .resumeCores
        resumed := fun _ => both.1
        started := fun _ => rfl }
  · exact released

/-- Without the APP core there is nothing to resume. -/
theorem StartMachine.Without.idle (without : machine.Without config machine.pro) :
    machine.pro ≠ .startup ∨ config.singleCoreMode = true := by
  by_cases started : machine.pro = .startup
  · rw [started] at without
    exact Or.inr without.1
  · exact Or.inl started

/-- Every step of every party keeps the invariant. -/
theorem StartInvariant.startMove (lawful : config.hal.Lawful) (party : StartParty)
    (invariant : StartInvariant config start machine) :
    StartInvariant config start (startMove config party machine) := by
  cases invariant with
  | before held soFar =>
    cases party with
    | pro => exact proStepAt_before lawful machine.pro held soFar
    | app | startupCode =>
      have notStarted : machine.pro ≠ .startup := fun started => by
        rw [started] at soFar
        exact soFar
      rw [startMove_idle held (Or.inl notStarted)]
      · exact .before held soFar
      · nofun
  | without held without =>
    cases party with
    | pro => exact proStepAt_without lawful machine.pro held rfl without
    | app | startupCode =>
      rw [startMove_idle held without.idle]
      · exact .without held without
      · nofun
  | released released =>
    cases party with
    | pro => exact .released (released.proStepAt lawful machine.pro rfl)
    | app =>
      rw [McubootPort.startMove, appStep]
      split
      · exact .released (released.appStepAt lawful machine.app rfl)
      · exact .released released
    | startupCode => exact .released released.startupResumeOtherCores

end Steps

/-! ### Any order of steps -/

/-- The machine after some steps of the parties, in any order. -/
def startRun (config : StartConfig) (machine : StartMachine) (turns : List StartParty) :
    StartMachine :=
  Interleaving.after (startMove config) machine turns

theorem startRun_invariant (config : StartConfig) (lawful : config.hal.Lawful)
    (machine : StartMachine) (fresh : machine.Fresh) (turns : List StartParty) :
    StartInvariant config machine (startRun config machine turns) :=
  Interleaving.after_invariant (fun party _ invariant => invariant.startMove lawful party) turns
    machine fresh.invariant

theorem stateAt_invariant (config : StartConfig) (lawful : config.hal.Lawful)
    (machine : StartMachine) (fresh : machine.Fresh) (schedule : Nat → StartParty) (moment : Nat) :
    StartInvariant config machine
      (Interleaving.stateAt (startMove config) schedule machine moment) :=
  Interleaving.stateAt_invariant (fun party _ invariant => invariant.startMove lawful party)
    schedule machine fresh.invariant moment

/-- What the startup code relies on when a core enters it. The source of the cache errors is
connected again on each core after the interrupts are cleared, on the APP core perhaps before
that. -/
structure StartMachine.Ordered (config : StartConfig) (machine : StartMachine) : Prop where
  inited : machine.pro = .startup → ∀ core, machine.flag (.cpuInited core) = true
  appWaits : machine.pro = .startup → machine.app = .awaitResume ∨ machine.app = .startup
  intrCleared : machine.pro = .startup → ∀ core, ∀ source < config.maxIntrSource,
    source ≠ config.hal.cacheErrSource → machine.inum core source = config.invalidInum
  cacheErrPro : machine.pro = .startup →
    machine.inum .pro config.hal.cacheErrSource = config.hal.cacheErrInum
  cacheErrApp : machine.pro = .startup →
    machine.inum .app config.hal.cacheErrSource = config.hal.cacheErrInum ∨
      machine.inum .app config.hal.cacheErrSource = config.invalidInum
  watchdog : machine.pro = .startup → machine.watchdog.Off
  resumed : machine.app = .startup → machine.pro = .startup ∧ machine.flag .resumeCores = true

theorem StartInvariant.ordered (config : StartConfig) (start machine : StartMachine)
    (multiCore : config.singleCoreMode = false) (invariant : StartInvariant config start machine) :
    machine.Ordered config := by
  have everyCore : ∀ core, core ∈ config.coresUsed := fun core => by
    rw [StartConfig.coresUsed, multiCore]
    cases core with
    | pro => exact List.mem_cons_self ..
    | app => exact List.mem_cons_of_mem _ (List.mem_cons_self ..)
  have never : machine.pro ≠ .startup → machine.app = .rom → machine.Ordered config :=
    fun notStarted inRom =>
      { inited := fun started => absurd started notStarted
        appWaits := fun started => absurd started notStarted
        intrCleared := fun started => absurd started notStarted
        cacheErrPro := fun started => absurd started notStarted
        cacheErrApp := fun started => absurd started notStarted
        watchdog := fun started => absurd started notStarted
        resumed := fun started => absurd (inRom.symm.trans started) (by decide) }
  cases invariant with
  | before held soFar =>
    exact never (fun started => by rw [started] at soFar; exact soFar) held.1
  | without held without =>
    refine never (fun started => ?_) held.1
    rw [started] at without
    exact Bool.eq_false_iff.mp multiCore without.1
  | released released =>
    have since : machine.pro = .startup → machine.Since config .startup := fun started => by
      rw [← started]
      exact released.since
    exact
      { inited := fun started core => by
          cases core with
          | pro => rw [released.proInited, started]; rfl
          | app => exact (since started).1
        appWaits := fun started => by
          have reached := released.appInited.symm.trans (since started).1
          cases point : machine.app <;> rw [point] at reached
          case awaitResume => exact Or.inl rfl
          case startup => exact Or.inr rfl
          all_goals cases reached
        intrCleared := fun started core => (since started).2.1 core (everyCore core)
        cacheErrPro := fun started => (since started).2.2
        cacheErrApp := fun started => by
          have reached := released.appInited.symm.trans (since started).1
          refine released.cacheErr ?_
          cases point : machine.app <;> rw [point] at reached
          case awaitResume | startup => rfl
          all_goals cases reached
        watchdog := fun _ => released.watchdog
        resumed := fun started =>
          ⟨released.resumed (released.started started), released.started started⟩ }

/-- Both cores are initialized and have no interrupts before the startup code runs on the PRO core,
and the APP core does not enter it before the PRO core has. -/
theorem startRun_ordered (config : StartConfig) (lawful : config.hal.Lawful)
    (multiCore : config.singleCoreMode = false) (machine : StartMachine) (fresh : machine.Fresh)
    (turns : List StartParty) : (startRun config machine turns).Ordered config :=
  (startRun_invariant config lawful machine fresh turns).ordered config _ _ multiCore

/-- Routines that do just what is documented. -/
def plainHal : StartHal where
  wdtHalWriteProtectDisable watchdog := { watchdog with writeProtected := false }
  wdtHalFeed watchdog := watchdog
  wdtHalDisable watchdog :=
    if watchdog.writeProtected then watchdog else { watchdog with enabled := false }
  wdtHalWriteProtectEnable watchdog := { watchdog with writeProtected := true }
  cacheReadEnable _ := true
  espCpuUnstall _ := false
  etsSetAppcpuBootAddr addr _ := addr
  intrMatrixSet core source inum matrix :=
    Function.update matrix core (Function.update (matrix core) source inum)
  espCacheErrIntInit core matrix := Function.update matrix core (Function.update (matrix core) 1 25)
  cacheErrSource := 1
  cacheErrInum := 25

theorem plainHal_lawful : plainHal.Lawful where
  unprotects _ := rfl
  protects _ := rfl
  disables watchdog unprotected := by
    simp only [plainHal, unprotected, Bool.false_eq_true, if_false]
  enablesCache _ := rfl
  unstalls _ := rfl
  setsBootAddr _ _ := rfl
  setsIntr _ _ _ _ := rfl
  connects _ _ := rfl

/-- A chip with two cores and an image for both. -/
def twoCores : StartConfig where
  singleCoreMode := false
  bootloaderWdtEnable := true
  resetReason _ := .other
  disAppCpu := false
  maxIntrSource := 2
  invalidInum := 6
  hal := plainHal
  mmu := esp32Mmu
  irom := iromExample 0x8000
  drom := dromExample

/-- The machine after a reset, with variables that were never cleared. -/
def coldMachine : StartMachine where
  pro := .mapRomSegments
  app := .rom
  flag _ := true
  watchdog := ⟨true, true⟩
  tables := ⟨fun _ _ => some 7⟩
  appCache := false
  stalled := true
  clkgateEn := false
  runstall := true
  resetting := true
  bootAddr := false
  inum _ _ := 0

theorem fresh_coldMachine : coldMachine.Fresh := ⟨rfl, rfl, rfl⟩

/-- Steps that bring both cores into the startup code. The PRO core waits for the APP core twice,
and the APP core connects its source of the cache errors after the interrupts are cleared, or
before. -/
def twoCoresTurns (early : Bool) : List StartParty :=
  List.replicate 22 .pro ++ List.replicate (if early then 4 else 3) .app ++
    List.replicate 14 .pro ++ List.replicate (if early then 1 else 2) .app ++
    List.replicate 6 .pro ++ [.app, .startupCode, .app]

theorem startRun_ordered_twoCores :
    (startRun twoCores coldMachine (twoCoresTurns false)).pro = .startup ∧
      (startRun twoCores coldMachine (twoCoresTurns false)).app = .startup ∧
      (startRun twoCores coldMachine (twoCoresTurns false)).Ordered twoCores :=
  ⟨by decide, by decide,
    startRun_ordered twoCores plainHal_lawful rfl coldMachine fresh_coldMachine _⟩

/-- It depends on the order whether the source stays connected on the APP core. -/
example : (startRun twoCores coldMachine (twoCoresTurns false)).inum .app 1 = 25 ∧
    (startRun twoCores coldMachine (twoCoresTurns true)).inum .app 1 = 6 ∧
    (startRun twoCores coldMachine (twoCoresTurns true)).pro = .startup := by
  decide

/-- The PRO core has cleared the variables of both cores. -/
def ProPoint.hasCleared : ProPoint → Bool
  | .mapRomSegments | .wdtFeed | .wdtDisable | .resetWdt | .clearBss _ => false
  | _ => true

/-- A variable that was set after the variables were cleared. -/
def StartMachine.KeepsSet (flag : StartFlag) (machine : StartMachine) : Prop :=
  machine.pro.hasCleared = true ∧ machine.flag flag = true

theorem StartMachine.KeepsSet.setFlag {flag : StartFlag} {machine : StartMachine}
    (keeps : machine.KeepsSet flag) (other : StartFlag) :
    (machine.setFlag other true).KeepsSet flag := by
  refine ⟨keeps.1, ?_⟩
  show Function.update machine.flag other true flag = true
  by_cases here : flag = other
  · rw [here, Function.update_self]
  · rw [Function.update_of_ne here, keeps.2]

theorem StartMachine.KeepsSet.startMove {flag : StartFlag} {machine : StartMachine}
    (config : StartConfig) (party : StartParty) (keeps : machine.KeepsSet flag) :
    (startMove config party machine).KeepsSet flag := by
  cases party with
  | pro =>
    have cleared := keeps.1
    show (proStepAt config machine machine.pro).KeepsSet flag
    cases point : machine.pro <;> rw [point] at cleared
    case clearBss | mapRomSegments | wdtFeed | wdtDisable | resetWdt => cases cleared
    case setUp | setInited => exact ⟨rfl, (keeps.setFlag _).2⟩
    case testSingleCore | testClkgate => rw [proStepAt]; split <;> exact ⟨rfl, keeps.2⟩
    case clearIntr | cacheErrInt => rw [proStepAt]; split <;> exact ⟨rfl, keeps.2⟩
    case awaitUp left _ | awaitInited left _ =>
      cases left with
      | nil => rw [proStepAt]; split <;> exact ⟨rfl, keeps.2⟩
      | cons core left => exact ⟨rfl, keeps.2⟩
    case startup => exact keeps
    all_goals exact ⟨rfl, keeps.2⟩
  | app =>
    rw [McubootPort.startMove, appStep]
    split
    · cases machine.app with
      | rom | awaitResume => rw [appStepAt]; split <;> exact keeps
      | setUp | setInited => exact keeps.setFlag _
      | clearBootAddr | cacheErrInt | startup => exact keeps
    · exact keeps
  | startupCode =>
    rw [McubootPort.startMove, startupResumeOtherCores]
    split
    · exact keeps.setFlag _
    · exact keeps

/-- The tables of the flash mapping are those that the bootloader left, until `map_rom_segments` has
changed them. -/
def StartMachine.Maps (config : StartConfig) (booted : MmuTables) (machine : StartMachine) : Prop :=
  machine.tables = if machine.pro = .mapRomSegments then booted
    else (mapRomSegments config.mmu config.irom config.drom booted).2

theorem StartMachine.Maps.startMove {config : StartConfig} {booted : MmuTables}
    {machine : StartMachine} (party : StartParty) (maps : machine.Maps config booted) :
    (startMove config party machine).Maps config booted := by
  rw [Maps] at maps
  cases party with
  | pro =>
    show (proStepAt config machine machine.pro).Maps config booted
    cases point : machine.pro <;> rw [point] at maps
    case mapRomSegments =>
      show (mapRomSegments config.mmu config.irom config.drom machine.tables).2 = _
      rw [maps]
      rfl
    case clearBss left | awaitUp left _ | awaitInited left _ =>
      cases left with
      | nil => rw [proStepAt]; split <;> exact maps
      | cons next left => exact maps
    case resetWdt | testSingleCore | testClkgate | clearIntr | cacheErrInt =>
      rw [proStepAt]
      split <;> exact maps
    case startup =>
      show machine.tables = if machine.pro = .mapRomSegments then booted else _
      rw [point]
      exact maps
    all_goals exact maps
  | app =>
    rw [McubootPort.startMove, appStep]
    split
    · cases machine.app with
      | rom | awaitResume => rw [appStepAt]; split <;> exact maps
      | _ => exact maps
    · exact maps
  | startupCode =>
    rw [McubootPort.startMove, startupResumeOtherCores]
    split <;> exact maps

/-- What the APP core finds when it has left the ROM, and what the variables then say: how far each
core has come. -/
structure StartMachine.Tells (config : StartConfig) (booted : MmuTables) (machine : StartMachine) :
    Prop where
  tables : machine.tables = (mapRomSegments config.mmu config.irom config.drom booted).2
  appCache : machine.appCache = true
  hasCleared : machine.pro.hasCleared = true
  proUp : machine.flag (.cpuUp .pro) = true
  appUp : machine.flag (.cpuUp .app) = machine.app.hasSetUp
  proInited : machine.flag (.cpuInited .pro) = machine.pro.hasInited
  appInited : machine.flag (.cpuInited .app) = machine.app.hasInited
  resumeCores : machine.flag .resumeCores = true → machine.pro = .startup

theorem StartInvariant.tells (config : StartConfig) (start machine : StartMachine)
    (invariant : StartInvariant config start machine) (booted : MmuTables)
    (maps : machine.Maps config booted) (left : machine.app ≠ .rom) :
    machine.Tells config booted := by
  cases invariant with
  | before held soFar => exact absurd held.1 left
  | without held without => exact absurd held.1 left
  | released released =>
    have hasCleared : machine.pro.hasCleared = true := by
      have since := released.since
      cases point : machine.pro <;> rw [point] at since
      case awaitUp | clearIntr | cacheErrInt | setInited | awaitInited | startup => rfl
      all_goals exact since.elim
    have mapped : machine.pro ≠ .mapRomSegments := fun before => by
      rw [before] at hasCleared
      cases hasCleared
    exact
      { released with
        tables := maps.trans (if_neg mapped)
        hasCleared := hasCleared
        resumeCores := released.resumed }

/-- The APP core leaves the ROM only when `map_rom_segments` has set the tables and the variables
are cleared. From then on each variable says how far its core has come, and no write to it is
lost. -/
theorem startRun_tells (config : StartConfig) (lawful : config.hal.Lawful)
    (machine : StartMachine) (fresh : machine.Fresh) (turns more : List StartParty)
    (left : (startRun config machine turns).app ≠ .rom) :
    (startRun config machine turns).Tells config machine.tables ∧
    ∀ flag, (startRun config machine turns).flag flag = true →
      (startRun config machine (turns ++ more)).flag flag = true := by
  have maps : (startRun config machine turns).Maps config machine.tables :=
    Interleaving.after_invariant (fun party _ maps => maps.startMove party) turns machine
      (if_pos fresh.pro).symm
  have tells := (startRun_invariant config lawful machine fresh turns).tells config _ _ _ maps left
  refine ⟨tells, fun flag set => ?_⟩
  have stays : (Interleaving.after (startMove config) (startRun config machine turns)
      more).KeepsSet flag :=
    Interleaving.after_invariant (fun party _ => StartMachine.KeepsSet.startMove config party)
      more _ ⟨tells.hasCleared, set⟩
  rw [startRun, Interleaving.after_append]
  exact stays.2

theorem startRun_tells_twoCores :
    (startRun twoCores coldMachine (twoCoresTurns false)).Tells twoCores coldMachine.tables ∧
      ∀ flag, (startRun twoCores coldMachine (twoCoresTurns false)).flag flag = true →
        (startRun twoCores coldMachine
          (twoCoresTurns false ++ [.startupCode, .pro])).flag flag = true :=
  startRun_tells twoCores plainHal_lawful coldMachine fresh_coldMachine (twoCoresTurns false)
    [.startupCode, .pro] (by decide)

end McubootPort

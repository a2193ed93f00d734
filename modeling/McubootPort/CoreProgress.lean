/-
This file proves that the start of the two cores in `start.c` comes to its end.

No core ever blocks, so the question is whether the loops are left. Under any
fair order of steps they are when the chip has both cores and nothing but a stall
holds an APP core that has a clock: each core brings the start closer until it has
to wait, and then the other one does. An APP core that has a clock and is held in
its reset is not released, since `start_other_core` takes the clock for a sign that
it runs, and the PRO core never leaves the first loop. When the chip has one core
and the image is for two, the PRO core skips the first loop and never leaves the
last.
-/

import McubootPort.CoreStartup

namespace McubootPort

/-! ### How much is left -/

/-- The steps that a loop still does at most when the APP core has arrived, and more than that when
it has not. -/
def loopLeft (arrived : Bool) (left : List Cpu) (seen : Bool) : Nat :=
  if arrived then left.length + (if seen then 1 else 4) else 7

/-- The steps that the PRO core still does at most from a point on, the waiting left aside. -/
def proLeftAt (config : StartConfig) (machine : StartMachine) : ProPoint → Nat
  | .startup => 0
  | .awaitInited left cpusInited => loopLeft (machine.flag (.cpuInited .app)) left cpusInited
  | .setInited => 8
  | .cacheErrInt => 9
  | .clearIntr source => 10 + (config.maxIntrSource - source)
  | .awaitUp left cpusUp =>
    11 + config.maxIntrSource + loopLeft (machine.flag (.cpuUp .app)) left cpusUp
  | .stopOtherCore => 19 + config.maxIntrSource
  | .setBootAddr => 19 + config.maxIntrSource
  | .clearResetting => 20 + config.maxIntrSource
  | .setResetting => 21 + config.maxIntrSource
  | .clearRunstall => 22 + config.maxIntrSource
  | .setClkgate => 23 + config.maxIntrSource
  | .testClkgate => 24 + config.maxIntrSource
  | .unstall => 25 + config.maxIntrSource
  | .enableCache => 26 + config.maxIntrSource
  | .testSingleCore => 27 + config.maxIntrSource
  | .setUp => 28 + config.maxIntrSource
  | .clearBss left => 29 + config.maxIntrSource + left.length
  | .resetWdt => 30 + config.maxIntrSource + config.bssFlags.length
  | .wdtDisable => 31 + config.maxIntrSource + config.bssFlags.length
  | .wdtFeed => 32 + config.maxIntrSource + config.bssFlags.length
  | .mapRomSegments => 33 + config.maxIntrSource + config.bssFlags.length

def proLeft (config : StartConfig) (machine : StartMachine) : Nat :=
  proLeftAt config machine machine.pro

/-- The steps that the APP core still does at most from a point on. -/
def appLeft : AppPoint → Nat
  | .rom => 6
  | .clearBootAddr => 5
  | .setUp => 4
  | .cacheErrInt => 3
  | .setInited => 2
  | .awaitResume => 1
  | .startup => 0

/-- The PRO core is in a loop that waits for the APP core. -/
def StartMachine.waits (machine : StartMachine) : ProPoint → Bool
  | .awaitUp _ _ => !machine.flag (.cpuUp .app)
  | .awaitInited _ _ => !machine.flag (.cpuInited .app)
  | _ => false

section Ranks

variable {config : StartConfig} {start machine : StartMachine}

theorem Looking.left_length_le {arrived seen : Bool} {left : List Cpu}
    (looking : Looking arrived left seen) : left.length ≤ 2 :=
  looking.suffix.length_le

theorem loopLeft_le {arrived seen : Bool} {left : List Cpu}
    (looking : Looking arrived left seen) : loopLeft arrived left seen ≤ 7 := by
  have short := looking.left_length_le
  rw [loopLeft]
  split
  · split <;> omega
  · exact Nat.le_refl _

theorem loopLeft_pos (arrived seen : Bool) (left : List Cpu) :
    0 < loopLeft arrived left seen := by
  rw [loopLeft]
  split
  · split <;> omega
  · omega

/-- Reading one more variable brings the loop closer to its end once all of them are set. -/
theorem loopLeft_read (arrived seen flag : Bool) (core : Cpu) (left : List Cpu)
    (reads : arrived = true → flag = true) :
    loopLeft arrived left (seen && flag) < loopLeft arrived (core :: left) seen ∨
    (arrived = false ∧
      loopLeft arrived left (seen && flag) = loopLeft arrived (core :: left) seen) := by
  cases arrived with
  | false => exact Or.inr ⟨rfl, rfl⟩
  | true =>
    refine Or.inl ?_
    rw [reads rfl, Bool.and_true, loopLeft, loopLeft, if_pos rfl, if_pos rfl, List.length_cons]
    omega

/-- So does starting over after a variable was missed. -/
theorem loopLeft_again (arrived : Bool) :
    loopLeft arrived cores true < loopLeft arrived [] false ∨
    (arrived = false ∧ loopLeft arrived cores true = loopLeft arrived [] false) := by
  cases arrived with
  | false => exact Or.inr ⟨rfl, rfl⟩
  | true => exact Or.inl (by decide)

/-- Before the release each step of the PRO core brings it closer to the startup code. -/
theorem proLeft_before (point : ProPoint) (soFar : machine.SoFar config start point) :
    proLeft config (proStepAt config machine point) < proLeftAt config machine point := by
  cases point with
  | mapRomSegments | wdtFeed | wdtDisable | setUp | enableCache | unstall | setClkgate
  | clearRunstall | setResetting | clearResetting | stopOtherCore =>
    simp only [proStepAt, proLeft, proLeftAt, StartMachine.goPro]
    omega
  | resetWdt | testSingleCore | testClkgate =>
    rw [proStepAt]
    split <;> simp only [proLeft, proLeftAt, StartMachine.goPro] <;> omega
  | clearBss left =>
    cases left with
    | nil =>
      rw [proStepAt]
      split <;> simp only [proLeft, proLeftAt, StartMachine.goPro] <;> omega
    | cons flag left =>
      simp only [proStepAt, proLeft, proLeftAt, StartMachine.goPro, List.length_cons]
      omega
  | setBootAddr =>
    have short := loopLeft_le (looking_cores (machine.flag (.cpuUp .app)))
    show 11 + config.maxIntrSource + loopLeft (machine.flag (.cpuUp .app)) cores true <
      19 + config.maxIntrSource
    omega
  | awaitUp _ _ | clearIntr _ | cacheErrInt | setInited | awaitInited _ _ | startup =>
    exact soFar.elim

theorem proLeft_clearIntr (source : Nat) :
    proLeft config (proStepAt config machine (.clearIntr source)) <
      proLeftAt config machine (.clearIntr source) := by
  rw [proStepAt]
  split <;> simp only [proLeft, proLeftAt, StartMachine.goPro] <;> omega

theorem proLeft_cacheErrInt :
    proLeft config (proStepAt config machine .cacheErrInt) <
      proLeftAt config machine .cacheErrInt := by
  rw [proStepAt]
  split <;> simp only [proLeft, proLeftAt, StartMachine.goPro] <;> omega

theorem proLeft_setInited : proLeft config (proStepAt config machine .setInited) <
    proLeftAt config machine .setInited :=
  Nat.lt_succ_of_le (loopLeft_le (looking_cores _))

/-- Behind the release too, unless it waits for the APP core. -/
theorem proLeft_released (released : machine.Released config start) (point : ProPoint)
    (atPoint : machine.pro = point) (notStarted : point ≠ .startup) :
    proLeft config (proStepAt config machine point) < proLeftAt config machine point ∨
    (machine.waits point = true ∧
      proLeft config (proStepAt config machine point) = proLeftAt config machine point ∧
      (proStepAt config machine point).waits (proStepAt config machine point).pro = true) := by
  have since := released.since
  rw [atPoint] at since
  have waits : ∀ {flag : Bool}, flag = false → (!flag) = true := fun missing => by rw [missing]; rfl
  cases point with
  | awaitUp left cpusUp =>
    cases left with
    | nil =>
      cases cpusUp with
      | true =>
        refine Or.inl ?_
        show 10 + (config.maxIntrSource - 0) < 11 + config.maxIntrSource + loopLeft _ [] true
        omega
      | false =>
        rcases loopLeft_again (machine.flag (.cpuUp .app)) with lower | ⟨missing, same⟩
        · exact Or.inl (Nat.add_lt_add_left lower _)
        · exact Or.inr ⟨waits missing, congrArg _ same, waits missing⟩
    | cons core left =>
      rcases loopLeft_read (machine.flag (.cpuUp .app)) cpusUp (machine.flag (.cpuUp core)) core
        left (fun arrived => by cases core with
          | pro => exact released.proUp
          | app => exact arrived) with lower | ⟨missing, same⟩
      · exact Or.inl (Nat.add_lt_add_left lower _)
      · exact Or.inr ⟨waits missing, congrArg _ same, waits missing⟩
  | clearIntr source => exact Or.inl (proLeft_clearIntr source)
  | cacheErrInt => exact Or.inl proLeft_cacheErrInt
  | setInited => exact Or.inl proLeft_setInited
  | awaitInited left cpusInited =>
    have proInited : machine.flag (.cpuInited .pro) = true := by
      rw [released.proInited, atPoint]
      rfl
    cases left with
    | nil =>
      cases cpusInited with
      | true => exact Or.inl (loopLeft_pos ..)
      | false =>
        rcases loopLeft_again (machine.flag (.cpuInited .app)) with lower | ⟨missing, same⟩
        · exact Or.inl lower
        · exact Or.inr ⟨waits missing, same, waits missing⟩
    | cons core left =>
      rcases loopLeft_read (machine.flag (.cpuInited .app)) cpusInited
        (machine.flag (.cpuInited core)) core left (fun arrived => by cases core with
          | pro => exact proInited
          | app => exact arrived) with lower | ⟨missing, same⟩
      · exact Or.inl lower
      · exact Or.inr ⟨waits missing, same, waits missing⟩
  | startup => exact absurd rfl notStarted
  | _ => exact since.elim

/-- A variable that is set takes nothing back from the PRO core. -/
theorem proLeftAt_setFlag (released : machine.Released config start) (flag : StartFlag) :
    proLeft config (machine.setFlag flag true) ≤ proLeft config machine := by
  have since := released.since
  have grows : ∀ other left seen, Looking (machine.flag other) left seen →
      loopLeft ((machine.setFlag flag true).flag other) left seen ≤
        loopLeft (machine.flag other) left seen := fun other left seen looking => by
    show loopLeft (Function.update machine.flag flag true other) left seen ≤ _
    by_cases here : other = flag
    · rw [here, Function.update_self]
      cases arrived : machine.flag flag with
      | true => exact Nat.le_refl _
      | false => exact loopLeft_le ⟨looking.suffix, fun _ _ => rfl⟩
    · rw [Function.update_of_ne here]
  show proLeftAt config (machine.setFlag flag true) machine.pro ≤
    proLeftAt config machine machine.pro
  cases point : machine.pro <;> rw [point] at since
  case awaitUp left cpusUp => exact Nat.add_le_add_left (grows _ left cpusUp since) _
  case awaitInited left cpusInited => exact grows _ left cpusInited since.2.2.2
  all_goals exact Nat.le_refl _

/-- The steps that both cores still do at most, and the call that resumes the APP core. -/
def startLeft (config : StartConfig) (machine : StartMachine) : Nat :=
  proLeft config machine + appLeft machine.app +
    if machine.pro = .startup ∧ machine.flag .resumeCores = true then 0 else 1

/-- The party that the others wait for. -/
def startHelper (machine : StartMachine) : StartParty :=
  if machine.pro = .startup then
    if machine.flag .resumeCores = true then .app else .startupCode
  else if machine.waits machine.pro = true then .app else .pro

theorem startHelper_startup (started : machine.pro = .startup) :
    startHelper machine = if machine.flag .resumeCores = true then .app else .startupCode := by
  rw [startHelper, if_pos started]

theorem startHelper_waits (waits : machine.waits machine.pro = true) :
    startHelper machine = .app := by
  have notStarted : machine.pro ≠ .startup := fun started => by
    rw [started] at waits
    cases waits
  rw [startHelper, if_neg notStarted, if_pos waits]

theorem startHelper_pro (notStarted : machine.pro ≠ .startup)
    (goesOn : ¬ machine.waits machine.pro = true) : startHelper machine = .pro := by
  rw [startHelper, if_neg notStarted, if_neg goesOn]

/-- Only the reset moves the APP core, and it finds it in the ROM. -/
theorem proStepAt_app (point : ProPoint) (reset : point = .setResetting → machine.app = .rom) :
    (proStepAt config machine point).app = machine.app := by
  cases point with
  | resetWdt | testSingleCore | testClkgate | clearIntr _ | cacheErrInt =>
    rw [proStepAt]
    split <;> rfl
  | clearBss left | awaitUp left _ | awaitInited left _ =>
    cases left with
    | nil => rw [proStepAt]; split <;> rfl
    | cons next left => rfl
  | setResetting => exact (reset rfl).symm
  | _ => rfl

theorem not_waits_startup : ¬ machine.waits .startup = true := Bool.false_ne_true

/-- A waiting PRO core leaves its rank and its helper as they are. -/
theorem startLeft_waits (next : StartMachine) (same : proLeft config next = proLeft config machine)
    (app : next.app = machine.app) (waits : machine.waits machine.pro = true)
    (waitsOn : next.waits next.pro = true) :
    startLeft config next = startLeft config machine ∧ startHelper next = startHelper machine := by
  have counted : ∀ {state : StartMachine}, state.waits state.pro = true →
      (if state.pro = .startup ∧ state.flag .resumeCores = true then 0 else 1) = 1 :=
    fun waits => if_neg fun both => not_waits_startup (both.1 ▸ waits)
  constructor
  · rw [startLeft, startLeft, same, app, counted waits, counted waitsOn]
  · rw [startHelper_waits waits, startHelper_waits waitsOn]

/-- When the PRO core comes closer to the startup code and the APP core falls back nowhere, both
cores together come closer. -/
theorem startLeft_lt (next : StartMachine) (lower : proLeft config next < proLeft config machine)
    (app : next.app = machine.app) (notStarted : machine.pro ≠ .startup) :
    startLeft config next < startLeft config machine := by
  have waiting : (if machine.pro = .startup ∧ machine.flag .resumeCores = true then 0 else 1) = 1 :=
    if_neg fun both => notStarted both.1
  rw [startLeft, startLeft, app, waiting]
  split <;> omega

/-- A step of the APP core brings both cores closer, unless it has nothing to do. -/
theorem startLeft_appStep (free : start.Clocked) (released : machine.Released config start) :
    startLeft config (appStep config machine) < startLeft config machine ∨
    (appStep config machine = machine ∧ (machine.app = .startup ∨
      (machine.app = .awaitResume ∧ machine.flag .resumeCores = false))) := by
  have drops : ∀ next : StartMachine, proLeft config next ≤ proLeft config machine →
      next.pro = machine.pro → next.flag .resumeCores = machine.flag .resumeCores →
      appLeft next.app + 1 = appLeft machine.app →
      startLeft config next < startLeft config machine := fun next kept pro resume lower => by
    rw [startLeft, startLeft, pro, resume]
    omega
  rw [appStep, if_pos (released.runs free)]
  cases point : machine.app with
  | rom =>
    rw [appStepAt, if_pos (released.bootAddr point)]
    exact Or.inl (drops _ (Nat.le_refl _) rfl rfl (by rw [point]; rfl))
  | clearBootAddr | cacheErrInt =>
    exact Or.inl (drops _ (Nat.le_refl _) rfl rfl (by rw [point]; rfl))
  | setUp =>
    exact Or.inl
      (drops _ (proLeftAt_setFlag released (.cpuUp .app)) rfl rfl (by rw [point]; rfl))
  | setInited =>
    exact Or.inl
      (drops _ (proLeftAt_setFlag released (.cpuInited .app)) rfl rfl (by rw [point]; rfl))
  | awaitResume =>
    rw [appStepAt]
    split
    · exact Or.inl (drops _ (Nat.le_refl _) rfl rfl (by rw [point]; rfl))
    · rename_i missing
      exact Or.inr ⟨rfl, Or.inr ⟨rfl, Bool.eq_false_of_not_eq_true missing⟩⟩
  | startup => exact Or.inr ⟨rfl, Or.inl rfl⟩

/-- The call that resumes the APP core brings both cores closer, unless it changes nothing. -/
theorem startLeft_startupResumeOtherCores (released : machine.Released config start) :
    startLeft config (startupResumeOtherCores config machine) < startLeft config machine ∨
    (startupResumeOtherCores config machine = machine ∧
      (machine.pro = .startup → machine.flag .resumeCores = true)) := by
  rw [startupResumeOtherCores]
  split
  · rename_i both
    cases resumed : machine.flag .resumeCores with
    | true =>
      refine Or.inr ⟨?_, fun _ => rfl⟩
      rw [StartMachine.setFlag, ← resumed, Function.update_eq_self]
    | false =>
      refine Or.inl ?_
      have kept := proLeftAt_setFlag released .resumeCores
      have before : (if machine.pro = .startup ∧ machine.flag .resumeCores = true then 0 else 1) =
          1 := if_neg fun set => Bool.false_ne_true (resumed.symm.trans set.2)
      have behind : (if (machine.setFlag .resumeCores true).pro = .startup ∧
          (machine.setFlag .resumeCores true).flag .resumeCores = true then 0 else 1) = 0 :=
        if_pos ⟨both.1, rfl⟩
      rw [startLeft, startLeft, before, behind]
      exact Nat.lt_succ_of_le (Nat.add_le_add_right kept _)
  · rename_i idle
    exact Or.inr ⟨rfl, fun started => absurd ⟨started, released.starts.multiCore⟩ idle⟩

/-- When both cores are used, the PRO core does not leave the APP core out. -/
theorem StartConfig.StartsApp.not_without (starts : config.StartsApp) (point : ProPoint) :
    ¬ machine.Without config point := by
  intro without
  have whole := Bool.eq_false_iff.mp starts.fuse
  cases point with
  | clearIntr _ | cacheErrInt => exact without.1 starts
  | setInited => exact whole without.2.1
  | awaitInited left seen => exact whole without.2.1
  | startup => exact Bool.eq_false_iff.mp starts.multiCore without.1
  | _ => exact without

theorem StartMachine.SoFar.goesOn (soFar : machine.SoFar config start machine.pro) :
    machine.pro ≠ .startup ∧ ¬ machine.waits machine.pro = true := by
  cases point : machine.pro <;> rw [point] at soFar
  case awaitUp | awaitInited | startup => exact soFar.elim
  all_goals exact ⟨nofun, nofun⟩

theorem StartMachine.Released.noReset (released : machine.Released config start)
    (reset : machine.pro = .setResetting) : machine.app = .rom := by
  have since := released.since
  rw [reset] at since
  exact since.elim

/-- The PRO core does not wait for an APP core that has nothing to do. -/
theorem StartMachine.Released.not_waits (released : machine.Released config start)
    (idle : machine.app = .startup ∨
      (machine.app = .awaitResume ∧ machine.flag .resumeCores = false)) :
    ¬ machine.waits machine.pro = true := by
  have arrived : machine.flag (.cpuUp .app) = true ∧ machine.flag (.cpuInited .app) = true := by
    rw [released.appUp, released.appInited]
    rcases idle with done | ⟨waits, _⟩
    · rw [done]
      exact ⟨rfl, rfl⟩
    · rw [waits]
      exact ⟨rfl, rfl⟩
  cases machine.pro with
  | awaitUp left seen => rw [StartMachine.waits, arrived.1]; nofun
  | awaitInited left seen => rw [StartMachine.waits, arrived.2]; nofun
  | _ => nofun

/-- On a chip with both cores every fair order of steps brings both into the startup code. -/
theorem startMove_progress (lawful : config.hal.Lawful) (starts : config.StartsApp)
    (free : start.Clocked) :
    Interleaving.Progress (startMove config) (StartInvariant config start)
      (fun machine => machine.pro = .startup ∧ machine.app = .startup) (startLeft config)
      startHelper where
  keeps party machine invariant := invariant.startMove lawful party
  stays party machine invariant := by
    refine Or.inr ?_
    cases invariant with
    | before held soFar =>
      cases party with
      | pro =>
        exact Or.inl (startLeft_lt _ (proLeft_before machine.pro soFar)
          (proStepAt_app machine.pro fun _ => held.1) soFar.goesOn.1)
      | app | startupCode =>
        rw [startMove_idle held (Or.inl soFar.goesOn.1)]
        · exact Or.inr ⟨rfl, rfl⟩
        · nofun
    | without held without => exact absurd without (starts.not_without machine.pro)
    | released released =>
      cases party with
      | pro =>
        have app : (proStepAt config machine machine.pro).app = machine.app :=
          proStepAt_app machine.pro released.noReset
        by_cases started : machine.pro = .startup
        · rw [startMove, proStep, started]
          exact Or.inr ⟨rfl, rfl⟩
        · rcases proLeft_released released machine.pro rfl started with lower | waits
          · exact Or.inl (startLeft_lt _ lower app started)
          · exact Or.inr (startLeft_waits _ waits.2.1 app waits.1 waits.2.2)
      | app =>
        rcases startLeft_appStep free released with lower | ⟨same, idle⟩
        · exact Or.inl lower
        · rw [startMove, same]
          exact Or.inr ⟨rfl, rfl⟩
      | startupCode =>
        rcases startLeft_startupResumeOtherCores released with lower | ⟨same, resumed⟩
        · exact Or.inl lower
        · rw [startMove, same]
          exact Or.inr ⟨rfl, rfl⟩
  helps machine invariant notThere := by
    refine Or.inr ?_
    cases invariant with
    | before held soFar =>
      rw [startHelper_pro soFar.goesOn.1 soFar.goesOn.2]
      exact startLeft_lt _ (proLeft_before machine.pro soFar)
        (proStepAt_app machine.pro fun _ => held.1) soFar.goesOn.1
    | without held without => exact absurd without (starts.not_without machine.pro)
    | released released =>
      by_cases started : machine.pro = .startup
      · rw [startHelper_startup started]
        split
        · rename_i resumed
          rcases startLeft_appStep free released with lower | ⟨same, done | ⟨waits, missing⟩⟩
          · exact lower
          · exact absurd ⟨started, done⟩ notThere
          · exact absurd (missing.symm.trans resumed) Bool.false_ne_true
        · rename_i missing
          rcases startLeft_startupResumeOtherCores released with lower | ⟨same, resumed⟩
          · exact lower
          · exact absurd (resumed started) missing
      · by_cases waits : machine.waits machine.pro = true
        · rw [startHelper_waits waits]
          rcases startLeft_appStep free released with lower | ⟨same, idle⟩
          · exact lower
          · exact absurd waits (released.not_waits idle)
        · rw [startHelper_pro started waits]
          rcases proLeft_released released machine.pro rfl started with lower | waiting
          · exact startLeft_lt _ lower (proStepAt_app machine.pro released.noReset) started
          · exact absurd waiting.1 waits

end Ranks

/-- A PRO core that has left the APP core out is in the startup code, or waits in the last loop. -/
def StartMachine.Settled (machine : StartMachine) : Prop :=
  machine.pro = .startup ∨ ∃ left cpusInited, machine.pro = .awaitInited left cpusInited

/-- A PRO core that waits for an APP core that is left out goes on waiting. -/
theorem StartMachine.Settled.proStep {config : StartConfig} {machine : StartMachine}
    (settled : machine.Settled) (without : machine.Without config machine.pro) :
    (proStep config machine).Settled := by
  rcases settled with started | ⟨left, cpusInited, waits⟩
  · rw [McubootPort.proStep, started]
    exact Or.inl started
  · rw [waits] at without
    obtain ⟨_, _, _, notInited, looking⟩ := without
    rw [McubootPort.proStep, waits]
    cases left with
    | nil =>
      rw [proStepAt]
      split
      · rename_i all
        exact absurd (looking.ends all) (Bool.eq_false_iff.mp notInited)
      · exact Or.inr ⟨_, _, rfl⟩
    | cons core left => exact Or.inr ⟨_, _, rfl⟩

/-- Without the APP core each step of the PRO core brings it closer to where it settles. -/
theorem proLeft_without {config : StartConfig} {machine : StartMachine}
    (without : machine.Without config machine.pro) :
    (proStep config machine).Settled ∨ proLeft config (proStep config machine) <
      proLeft config machine := by
  cases point : machine.pro <;> have atPoint := without <;> rw [point] at atPoint
  case clearIntr source =>
    refine Or.inr ?_
    show proLeft config (proStepAt config machine machine.pro) <
      proLeftAt config machine machine.pro
    rw [point]
    exact proLeft_clearIntr source
  case cacheErrInt =>
    refine Or.inr ?_
    show proLeft config (proStepAt config machine machine.pro) <
      proLeftAt config machine machine.pro
    rw [point]
    exact proLeft_cacheErrInt
  case setInited =>
    refine Or.inr ?_
    show proLeft config (proStepAt config machine machine.pro) <
      proLeftAt config machine machine.pro
    rw [point]
    exact proLeft_setInited
  case awaitInited left cpusInited =>
    exact Or.inl (StartMachine.Settled.proStep (Or.inr ⟨left, cpusInited, point⟩) without)
  case startup => exact Or.inl (StartMachine.Settled.proStep (Or.inl point) without)
  all_goals exact atPoint.elim

/-- When the APP core is not used, the PRO core alone comes to the startup code or to the last
loop. -/
theorem startMove_progress_alone (config : StartConfig) (lawful : config.hal.Lawful)
    (start : StartMachine) (leavesOut : ¬ config.StartsApp) :
    Interleaving.Progress (startMove config) (StartInvariant config start) StartMachine.Settled
      (proLeft config) (fun _ => .pro) where
  keeps party machine invariant := invariant.startMove lawful party
  stays party machine invariant := by
    cases invariant with
    | before held soFar =>
      refine Or.inr ?_
      cases party with
      | pro => exact Or.inl (proLeft_before machine.pro soFar)
      | app | startupCode =>
        rw [startMove_idle held (Or.inl soFar.goesOn.1)]
        · exact Or.inr ⟨rfl, rfl⟩
        · nofun
    | without held without =>
      cases party with
      | pro => exact (proLeft_without without).imp_right Or.inl
      | app | startupCode =>
        rw [startMove_idle held without.idle]
        · exact Or.inr (Or.inr ⟨rfl, rfl⟩)
        · nofun
    | released released => exact absurd released.starts leavesOut
  helps machine invariant notSettled := by
    cases invariant with
    | before held soFar => exact Or.inr (proLeft_before machine.pro soFar)
    | without held without => exact proLeft_without without
    | released released => exact absurd released.starts leavesOut

/-- Once both cores are in the startup code they stay there. -/
theorem startup_stays (config : StartConfig) (party : StartParty) (machine : StartMachine)
    (started : machine.pro = .startup ∧ machine.app = .startup) :
    (startMove config party machine).pro = .startup ∧
      (startMove config party machine).app = .startup := by
  cases party with
  | pro =>
    rw [startMove, proStep, started.1]
    exact started
  | app =>
    rw [startMove, appStep]
    split
    · rw [started.2]
      exact started
    · exact started
  | startupCode =>
    rw [startMove, startupResumeOtherCores]
    split <;> exact started

/-- The PRO core does next what may let the APP core go, or stop it. -/
def ProPoint.gates : ProPoint → Bool
  | .setClkgate | .clearRunstall | .setResetting | .clearResetting | .stopOtherCore => true
  | _ => false

/-- The APP core has a clock, but is held, and nobody lets it go. -/
structure StartMachine.Jammed (machine : StartMachine) : Prop where
  clocked : machine.clkgateEn = true
  held : ¬ (machine.runstall = false ∧ machine.resetting = false)
  app : machine.app = .rom
  pro : machine.pro.gates = false

/-- A core that `start_other_core` finds clocked but held is never let go. -/
theorem StartMachine.Jammed.startMove {config : StartConfig} {machine : StartMachine}
    (multiCore : config.singleCoreMode = false) (party : StartParty) (jammed : machine.Jammed) :
    (startMove config party machine).Jammed := by
  obtain ⟨clocked, held, app, pro⟩ := jammed
  cases party with
  | pro =>
    show (proStepAt config machine machine.pro).Jammed
    cases point : machine.pro <;> rw [point] at pro
    case setClkgate | clearRunstall | setResetting | clearResetting | stopOtherCore => cases pro
    case clearBss left =>
      cases left with
      | nil =>
        rw [proStepAt, if_neg (Bool.eq_false_iff.mp multiCore)]
        exact ⟨clocked, held, app, rfl⟩
      | cons flag left => exact ⟨clocked, held, app, rfl⟩
    case awaitUp left _ | awaitInited left _ =>
      cases left with
      | nil => rw [proStepAt]; split <;> exact ⟨clocked, held, app, rfl⟩
      | cons core left => exact ⟨clocked, held, app, rfl⟩
    case testClkgate =>
      rw [proStepAt, if_pos clocked]
      exact ⟨clocked, held, app, rfl⟩
    case resetWdt | testSingleCore | clearIntr | cacheErrInt =>
      rw [proStepAt]
      split <;> exact ⟨clocked, held, app, rfl⟩
    case startup => exact ⟨clocked, held, app, by rw [proStepAt, point]; rfl⟩
    all_goals exact ⟨clocked, held, app, rfl⟩
  | app =>
    have holds : ¬ machine.AppRuns := fun runs => held ⟨runs.2.1, runs.2.2.1⟩
    rw [McubootPort.startMove, appStep, if_neg holds]
    exact ⟨clocked, held, app, pro⟩
  | startupCode =>
    rw [McubootPort.startMove, startupResumeOtherCores]
    split <;> exact ⟨clocked, held, app, pro⟩

/-- The PRO core does not come to the startup code while the APP core is in the ROM. -/
theorem StartInvariant.not_startup {config : StartConfig} {start machine : StartMachine}
    (multiCore : config.singleCoreMode = false) (invariant : StartInvariant config start machine)
    (inRom : machine.app = .rom) : machine.pro ≠ .startup := by
  intro started
  cases invariant with
  | before held soFar =>
    rw [started] at soFar
    exact soFar
  | without held without =>
    rw [started] at without
    exact Bool.eq_false_iff.mp multiCore without.1
  | released released =>
    have since := released.since
    have inited := released.appInited
    rw [started] at since
    rw [inRom, since.1] at inited
    cases inited

/-- On a chip with both cores, a fair order of steps brings both into the startup code for good when
an APP core that has a clock at the start is held by nothing but a stall. Otherwise no order of
steps brings the PRO core there. -/
theorem startRun_fair (config : StartConfig) (lawful : config.hal.Lawful)
    (starts : config.StartsApp) (machine : StartMachine) (fresh : machine.Fresh)
    (schedule : Nat → StartParty) :
    (machine.Clocked → Interleaving.Fair schedule → ∃ moment, ∀ later, moment ≤ later →
        (Interleaving.stateAt (startMove config) schedule machine later).pro = .startup ∧
        (Interleaving.stateAt (startMove config) schedule machine later).app = .startup) ∧
      (¬ machine.Clocked → ∀ moment,
        (Interleaving.stateAt (startMove config) schedule machine moment).pro ≠ .startup) := by
  constructor
  · intro free fair
    obtain ⟨moment, _, started⟩ :=
      (startMove_progress lawful starts free).reaches schedule fair machine fresh.invariant 0
    exact ⟨moment, fun later ordered => Interleaving.stateAt_stays (startup_stays config) schedule
      machine moment later ordered started⟩
  · intro held moment
    obtain ⟨clocked, held⟩ := Classical.not_imp.mp held
    have start : machine.Jammed := ⟨clocked, held, fresh.app, by rw [fresh.pro]; rfl⟩
    have jammed := Interleaving.stateAt_invariant
      (fun party _ jammed => jammed.startMove starts.multiCore party) schedule machine start moment
    exact (stateAt_invariant config lawful machine fresh schedule moment).not_startup
      starts.multiCore jammed.app

/-- The parties in turn. -/
def roundRobin (moment : Nat) : StartParty :=
  match moment % 3 with
  | 0 => .pro
  | 1 => .app
  | _ => .startupCode

theorem fair_roundRobin : Interleaving.Fair roundRobin := by
  have turn : ∀ offset moment, offset < 3 → ∃ later, moment ≤ later ∧ later % 3 = offset :=
    fun offset moment small => ⟨3 * moment + offset, by omega, by omega⟩
  intro party moment
  cases party with
  | pro =>
    obtain ⟨later, ordered, residue⟩ := turn 0 moment (by decide)
    exact ⟨later, ordered, by rw [roundRobin, residue]; rfl⟩
  | app =>
    obtain ⟨later, ordered, residue⟩ := turn 1 moment (by decide)
    exact ⟨later, ordered, by rw [roundRobin, residue]; rfl⟩
  | startupCode =>
    obtain ⟨later, ordered, residue⟩ := turn 2 moment (by decide)
    exact ⟨later, ordered, by rw [roundRobin, residue]; rfl⟩

theorem startRun_fair_twoCores :
    (∃ moment, ∀ later, moment ≤ later →
        (Interleaving.stateAt (startMove twoCores) roundRobin coldMachine later).pro = .startup ∧
        (Interleaving.stateAt (startMove twoCores) roundRobin coldMachine later).app = .startup) ∧
      ∀ moment, (Interleaving.stateAt (startMove twoCores) roundRobin
        { coldMachine with clkgateEn := true } moment).pro ≠ .startup :=
  ⟨(startRun_fair twoCores plainHal_lawful ⟨rfl, rfl⟩ coldMachine fresh_coldMachine
      roundRobin).1 nofun fair_roundRobin,
    (startRun_fair twoCores plainHal_lawful ⟨rfl, rfl⟩ { coldMachine with clkgateEn := true }
      ⟨rfl, rfl, rfl⟩ roundRobin).2 fun free => absurd (free rfl) (by decide)⟩

/-- What the machine comes to when the image or the chip has no APP core. -/
structure StartMachine.Alone (config : StartConfig) (machine : StartMachine) : Prop where
  settled : machine.Settled
  held : machine.Held
  without : machine.Without config machine.pro

theorem StartMachine.Settled.alone {config : StartConfig} {start machine : StartMachine}
    (settled : machine.Settled) (leavesOut : ¬ config.StartsApp)
    (invariant : StartInvariant config start machine) : machine.Alone config := by
  cases invariant with
  | before held soFar =>
    rcases settled with started | ⟨left, seen, waits⟩
    · exact absurd started soFar.goesOn.1
    · rw [waits] at soFar
      exact soFar.elim
  | without held without => exact ⟨settled, held, without⟩
  | released released => exact absurd released.starts leavesOut

/-- Once the PRO core has settled alone, no step changes that. -/
theorem StartMachine.Alone.startMove {config : StartConfig} (lawful : config.hal.Lawful)
    (leavesOut : ¬ config.StartsApp) (party : StartParty) (machine : StartMachine)
    (alone : machine.Alone config) : (startMove config party machine).Alone config := by
  have invariant : StartInvariant config machine machine := .without alone.held alone.without
  cases party with
  | pro =>
    exact (alone.settled.proStep alone.without).alone leavesOut (invariant.startMove lawful .pro)
  | app | startupCode =>
    rw [startMove_idle alone.held alone.without.idle]
    · exact alone
    · nofun

/-- Without the APP core every fair order of steps lets the PRO core settle for good. -/
theorem startRun_alone (config : StartConfig) (lawful : config.hal.Lawful)
    (leavesOut : ¬ config.StartsApp) (machine : StartMachine) (fresh : machine.Fresh)
    (schedule : Nat → StartParty) (fair : Interleaving.Fair schedule) :
    ∃ moment, ∀ later, moment ≤ later →
      (Interleaving.stateAt (startMove config) schedule machine later).Alone config := by
  obtain ⟨moment, _, settled⟩ :=
    (startMove_progress_alone config lawful machine leavesOut).reaches schedule fair machine
      fresh.invariant 0
  have invariant := stateAt_invariant config lawful machine fresh schedule moment
  exact ⟨moment, fun later ordered => Interleaving.stateAt_stays
    (StartMachine.Alone.startMove lawful leavesOut) schedule machine moment later ordered
    (settled.alone leavesOut invariant)⟩

/-- An image for one core comes to the startup code under every fair order of steps, with the clock
of the APP core switched off. -/
theorem startRun_singleCoreImage (config : StartConfig) (lawful : config.hal.Lawful)
    (single : config.singleCoreMode = true) (machine : StartMachine) (fresh : machine.Fresh)
    (schedule : Nat → StartParty) (fair : Interleaving.Fair schedule) :
    ∃ moment, ∀ later, moment ≤ later →
      let state := Interleaving.stateAt (startMove config) schedule machine later
      state.pro = .startup ∧ state.app = .rom ∧ state.clkgateEn = false ∧ state.watchdog.Off ∧
        (∀ source < config.maxIntrSource, source ≠ config.hal.cacheErrSource →
          state.inum .pro source = config.invalidInum) ∧
        state.inum .pro config.hal.cacheErrSource = config.hal.cacheErrInum := by
  have leavesOut : ¬ config.StartsApp := fun starts =>
    Bool.eq_false_iff.mp starts.multiCore single
  obtain ⟨moment, alone⟩ := startRun_alone config lawful leavesOut machine fresh schedule fair
  refine ⟨moment, fun later ordered => ?_⟩
  obtain ⟨started | ⟨left, seen, waits⟩, held, without⟩ := alone later ordered
  · rw [started] at without
    obtain ⟨_, off, cleared, connected, gate⟩ := without
    have used : Cpu.pro ∈ config.coresUsed := by
      rw [StartConfig.coresUsed, if_pos single]
      exact List.mem_singleton_self _
    exact ⟨started, held.1, gate, off, cleared .pro used, connected⟩
  · rw [waits] at without
    exact absurd single (Bool.eq_false_iff.mp without.1)

theorem startRun_singleCoreImage_cold :
    ∃ moment, ∀ later, moment ≤ later →
      let state := Interleaving.stateAt (startMove { twoCores with singleCoreMode := true })
        roundRobin coldMachine later
      state.pro = .startup ∧ state.app = .rom ∧ state.clkgateEn = false ∧ state.watchdog.Off ∧
        (∀ source < 2, source ≠ 1 → state.inum .pro source = 6) ∧ state.inum .pro 1 = 25 :=
  startRun_singleCoreImage { twoCores with singleCoreMode := true } plainHal_lawful rfl coldMachine
    fresh_coldMachine roundRobin fair_roundRobin

/-- An image for both cores on a chip with one never comes to the startup code, whatever the order
of the steps. A fair one leaves it in its last loop for good, with the watchdog switched off. -/
theorem startRun_singleCoreChip (config : StartConfig) (lawful : config.hal.Lawful)
    (multiCore : config.singleCoreMode = false) (fused : config.disAppCpu = true)
    (machine : StartMachine) (fresh : machine.Fresh) (schedule : Nat → StartParty) :
    (∀ moment, (Interleaving.stateAt (startMove config) schedule machine moment).pro ≠ .startup) ∧
    (Interleaving.Fair schedule → ∃ moment, ∀ later, moment ≤ later →
      let state := Interleaving.stateAt (startMove config) schedule machine later
      (∃ left cpusInited, state.pro = .awaitInited left cpusInited) ∧ state.watchdog.Off) := by
  have leavesOut : ¬ config.StartsApp := fun starts => Bool.eq_false_iff.mp starts.fuse fused
  have whole := Bool.eq_false_iff.mp multiCore
  constructor
  · intro moment started
    cases stateAt_invariant config lawful machine fresh schedule moment with
    | before held soFar =>
      rw [started] at soFar
      exact soFar
    | without held without =>
      rw [started] at without
      exact whole without.1
    | released released => exact leavesOut released.starts
  · intro fair
    obtain ⟨moment, alone⟩ := startRun_alone config lawful leavesOut machine fresh schedule fair
    refine ⟨moment, fun later ordered => ?_⟩
    obtain ⟨started | waits, held, without⟩ := alone later ordered
    · rw [started] at without
      exact absurd without.1 whole
    · obtain ⟨left, seen, waits⟩ := waits
      rw [waits] at without
      exact ⟨⟨left, seen, waits⟩, without.2.2.1⟩

theorem startRun_singleCoreChip_cold :
    (∀ moment, (Interleaving.stateAt (startMove { twoCores with disAppCpu := true }) roundRobin
      coldMachine moment).pro ≠ .startup) ∧
    (Interleaving.Fair roundRobin → ∃ moment, ∀ later, moment ≤ later →
      let state := Interleaving.stateAt (startMove { twoCores with disAppCpu := true }) roundRobin
        coldMachine later
      (∃ left cpusInited, state.pro = .awaitInited left cpusInited) ∧ state.watchdog.Off) :=
  startRun_singleCoreChip { twoCores with disAppCpu := true } plainHal_lawful rfl rfl coldMachine
    fresh_coldMachine roundRobin

end McubootPort

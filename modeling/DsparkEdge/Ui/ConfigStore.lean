import DsparkEdge.Ui.Types
import Mathlib.Data.Rat.Init

/-! The dashboard's configuration and its file (`lib/types.ts`, `lib/config-store.ts`). A number is an
    integer, save `temp`. The file is what parsing it gives: every field may be missing, and then the
    default takes its place; a file that cannot be read or parsed is `none`. The defaults themselves
    depend on paths of the host and are a parameter of what uses them.

        loadConfig:  { ...base.server, ...(parsed.server ?? {}) }
        saveConfig:  the whole configuration, or nothing when the write fails -/

namespace DsparkEdge.Ui

inductive FlashAttn where
  | on
  | off
  deriving DecidableEq, Repr

structure ServerConfig where
  bin : String
  targetModel : String
  host : String
  httpPort : ℤ
  ctxSize : ℤ
  nGpuLayers : ℤ
  flashAttn : FlashAttn
  parallel : ℤ
  remoteSpec : Bool
  grpcTarget : String
  nMax : ℤ
  temp : ℚ
  topK : ℤ
  extraArgs : String
  deriving DecidableEq, Repr

structure DaemonConfig where
  bin : String
  draftModel : String
  targetModel : String
  host : String
  grpcPort : ℤ
  threads : ℤ
  ctxSize : ℤ
  extraArgs : String
  deriving DecidableEq, Repr

structure DashboardConfig where
  server : ServerConfig
  daemon : DaemonConfig
  activePreset : String
  deriving DecidableEq, Repr

/-- `Partial<ServerConfig>`. -/
structure ServerPatch where
  bin : Option String := none
  targetModel : Option String := none
  host : Option String := none
  httpPort : Option ℤ := none
  ctxSize : Option ℤ := none
  nGpuLayers : Option ℤ := none
  flashAttn : Option FlashAttn := none
  parallel : Option ℤ := none
  remoteSpec : Option Bool := none
  grpcTarget : Option String := none
  nMax : Option ℤ := none
  temp : Option ℚ := none
  topK : Option ℤ := none
  extraArgs : Option String := none

/-- `Partial<DaemonConfig>`. -/
structure DaemonPatch where
  bin : Option String := none
  draftModel : Option String := none
  targetModel : Option String := none
  host : Option String := none
  grpcPort : Option ℤ := none
  threads : Option ℤ := none
  ctxSize : Option ℤ := none
  extraArgs : Option String := none

/-- `{ ...c, ...p }`. -/
def ServerConfig.patch (c : ServerConfig) (p : ServerPatch) : ServerConfig where
  bin := p.bin.getD c.bin
  targetModel := p.targetModel.getD c.targetModel
  host := p.host.getD c.host
  httpPort := p.httpPort.getD c.httpPort
  ctxSize := p.ctxSize.getD c.ctxSize
  nGpuLayers := p.nGpuLayers.getD c.nGpuLayers
  flashAttn := p.flashAttn.getD c.flashAttn
  parallel := p.parallel.getD c.parallel
  remoteSpec := p.remoteSpec.getD c.remoteSpec
  grpcTarget := p.grpcTarget.getD c.grpcTarget
  nMax := p.nMax.getD c.nMax
  temp := p.temp.getD c.temp
  topK := p.topK.getD c.topK
  extraArgs := p.extraArgs.getD c.extraArgs

/-- `{ ...c, ...p }`. -/
def DaemonConfig.patch (c : DaemonConfig) (p : DaemonPatch) : DaemonConfig where
  bin := p.bin.getD c.bin
  draftModel := p.draftModel.getD c.draftModel
  targetModel := p.targetModel.getD c.targetModel
  host := p.host.getD c.host
  grpcPort := p.grpcPort.getD c.grpcPort
  threads := p.threads.getD c.threads
  ctxSize := p.ctxSize.getD c.ctxSize
  extraArgs := p.extraArgs.getD c.extraArgs

/-- A preset, as far as it changes the configuration. -/
structure Preset where
  id : String
  server : ServerPatch
  daemon : DaemonPatch

/-- A parsed configuration file. -/
structure ConfigFile where
  activePreset : Option String
  server : Option ServerPatch
  daemon : Option DaemonPatch

def loadConfig (base : DashboardConfig) : Option ConfigFile → DashboardConfig
  | none => base
  | some parsed =>
    { activePreset := parsed.activePreset.getD base.activePreset
      server := base.server.patch (parsed.server.getD {})
      daemon := base.daemon.patch (parsed.daemon.getD {}) }

/-- All fields of a configuration. -/
def ServerConfig.all (c : ServerConfig) : ServerPatch where
  bin := some c.bin
  targetModel := some c.targetModel
  host := some c.host
  httpPort := some c.httpPort
  ctxSize := some c.ctxSize
  nGpuLayers := some c.nGpuLayers
  flashAttn := some c.flashAttn
  parallel := some c.parallel
  remoteSpec := some c.remoteSpec
  grpcTarget := some c.grpcTarget
  nMax := some c.nMax
  temp := some c.temp
  topK := some c.topK
  extraArgs := some c.extraArgs

/-- All fields of a configuration. -/
def DaemonConfig.all (c : DaemonConfig) : DaemonPatch where
  bin := some c.bin
  draftModel := some c.draftModel
  targetModel := some c.targetModel
  host := some c.host
  grpcPort := some c.grpcPort
  threads := some c.threads
  ctxSize := some c.ctxSize
  extraArgs := some c.extraArgs

/-- `saveConfig`: a failed write is ignored. -/
def saveConfig (written : Bool) (cfg : DashboardConfig) (file : Option ConfigFile) : Option ConfigFile :=
  if written then some ⟨some cfg.activePreset, some cfg.server.all, some cfg.daemon.all⟩ else file

@[simp] theorem saveConfig_failed (cfg : DashboardConfig) (file : Option ConfigFile) :
    saveConfig false cfg file = file := rfl

theorem ServerConfig.patch_all (c c' : ServerConfig) : c.patch c'.all = c' := rfl

theorem DaemonConfig.patch_all (c c' : DaemonConfig) : c.patch c'.all = c' := rfl

/-- What was written is loaded, whatever the defaults. -/
@[simp] theorem loadConfig_saveConfig (base cfg : DashboardConfig) (file : Option ConfigFile) :
    loadConfig base (saveConfig true cfg file) = cfg := by
  simp [saveConfig, loadConfig, ServerConfig.patch_all, DaemonConfig.patch_all]

/-- A configuration for examples. -/
def bareConfig : DashboardConfig where
  server := ⟨"", "", "127.0.0.1", 8080, 4096, 99, .on, 1, true, "127.0.0.1:50051", 4, 0, 1, ""⟩
  daemon := ⟨"", "", "", "127.0.0.1", 50051, 4, 4096, ""⟩
  activePreset := "custom"

end DsparkEdge.Ui

import TptErp.Lib.Replies
import TptErp.Wasm.Billing

/-!
# The plugin runtime

Loading modules, running them and swapping them while they are in use.  What wasmtime does is a parameter: it
compiles bytes or refuses them, and a call of `run` in a store gives an outcome and leaves the store changed, with
what the guest has written to its memory and the fuel it has left.

Handles keep their store from call to call.  `Plugins.serves_fleet`: nothing of it is ever seen.  Whatever is loaded,
swapped and run on any of the handles of a runtime, each answer is that of the module its handle took last, in a
store of its own with the full budget, and the meter is fed by those calls and no others.

The engines of the example applications swap a module by loading it into a new handle.
`PluginEngine.serves_inPlace`: that is the same as swapping it in place.
-/

namespace TptErp.Wasm

open Tenant (TenantId)
open ReplyingSystem (Agree Implements)

/-! ## Stores and wasmtime -/

/-- The ceilings of the sandbox; the wall clock is in milliseconds. -/
structure RuntimeConfig where
  fuelPerCall : Nat := 100000000
  maxMemoryBytes : Nat := 32 * 1024 * 1024
  wallClock : Option Nat := some 500
  maxModuleBytes : Option Nat := some (8 * 1024 * 1024)

/-- A store: the host's view of the data, the memory limit, the fuel and the epochs that are left, and what the
guests instantiated in it have written. -/
structure Store (M H : Type) where
  ctx : H
  memorySize : Option Nat := none
  fuel : Nat := 0
  epochDeadline : Option Nat := none
  memory : M

/-- wasmtime, with everything outside of it that a call depends on: what the host answers and when epochs pass. -/
structure Wasmtime (C M H W : Type) where
  component : List UInt8 → Except String C
  empty : M
  call : C → Store M H → String → W → Outcome × Store M H

structure PluginHandle (C M H : Type) where
  name : String
  tenant : TenantId
  component : C
  ctx : H
  store : Store M H

section
variable {C M H W : Type} (wt : Wasmtime C M H W) (config : RuntimeConfig)

/-- The size check, then the compilation. -/
def compile (wasm : List UInt8) : Except RuntimeError C :=
  let compiled := (wt.component wasm).mapError .invalidPlugin
  match config.maxModuleBytes with
  | none => compiled
  | some cap =>
    if cap < wasm.length then
      .error (.invalidPlugin s!"module is {wasm.length} bytes, exceeding the {cap} byte limit")
    else compiled

namespace PluginHandle

/-- A fresh budget. -/
def resetStore (h : PluginHandle C M H) : PluginHandle C M H :=
  { h with
    store := {
      ctx := h.ctx
      memorySize := some config.maxMemoryBytes
      fuel := config.fuelPerCall
      epochDeadline := config.wallClock.map fun _ => 1
      memory := wt.empty } }

/-- `PluginRuntime::load`. -/
def load (name : String) (tenant : TenantId) (wasm : List UInt8) (ctx : H) : Except RuntimeError (PluginHandle C M H) :=
  (compile wt config wasm).map fun component =>
    resetStore wt config { name, tenant, component, ctx, store := { ctx, memory := wt.empty } }

def swapModule (h : PluginHandle C M H) (wasm : List UInt8) : Except RuntimeError Unit × PluginHandle C M H :=
  match compile wt config wasm with
  | .error e => (.error e, h)
  | .ok component => (.ok (), resetStore wt config { h with component })

/-- `PluginHandle::run`, up to the meter. -/
def call (h : PluginHandle C M H) (input : String) (w : W) : RunCall × PluginHandle C M H :=
  let h := resetStore wt config h
  let r := wt.call h.component h.store input w
  ({ tenant := h.tenant, outcome := r.1, fuelRemaining := r.2.fuel }, { h with store := r.2 })

end PluginHandle

/-! ## A runtime and its handles -/

structure Plugins (C M H : Type) where
  usage : UsageMeter := ∅
  handles : List (PluginHandle C M H) := []

inductive PluginRequest (H W : Type)
  | load (name : String) (tenant : TenantId) (wasm : List UInt8) (ctx : H)
  | swapModule (i : Nat) (wasm : List UInt8)
  | run (i : Nat) (input : String) (w : W)

inductive PluginReply
  | taken (result : Except RuntimeError Unit)
  | answer (result : Except RuntimeError String)

/-- A request to the runtime or to one of its handles. -/
def Plugins.step (p : Plugins C M H) : PluginRequest H W → Option (PluginReply × Plugins C M H)
  | .load name tenant wasm ctx =>
    some (match PluginHandle.load wt config name tenant wasm ctx with
      | .error e => (.taken (.error e), p)
      | .ok h => (.taken (.ok ()), { p with handles := p.handles ++ [h] }))
  | .swapModule i wasm =>
    (p.handles[i]?).map fun h =>
      let r := h.swapModule wt config wasm
      (.taken r.1, { p with handles := p.handles.set i r.2 })
  | .run i input w =>
    (p.handles[i]?).map fun h =>
      let c := h.call wt config input w
      let r := Wasm.run config.fuelPerCall p.usage c.1
      (.answer r.2, { usage := r.1, handles := p.handles.set i c.2 })

/-! ## What the runtime is for -/

/-- A module that has been taken: it is not too large, and it compiles. -/
structure Module where
  wasm : List UInt8
  component : C
  fits : ∀ cap ∈ config.maxModuleBytes, wasm.length ≤ cap
  compiles : wt.component wasm = .ok component

/-- A plugin of a tenant: the module that serves it, and the data it reads. -/
structure Deployment where
  tenant : TenantId
  ctx : H
  serving : Module wt config

/-- The store of a call. -/
def budget (ctx : H) : Store M H where
  ctx := ctx
  memorySize := some config.maxMemoryBytes
  fuel := config.fuelPerCall
  epochDeadline := config.wallClock.map fun _ => 1
  memory := wt.empty

/-- A call of the module: nothing but the module, the data, the input and the world. -/
def Deployment.call (d : Deployment wt config) (input : String) (w : W) : RunCall :=
  let r := wt.call d.serving.component (budget wt config d.ctx) input w
  { tenant := d.tenant, outcome := r.1, fuelRemaining := r.2.fuel }

/-- What the caller gets. -/
def RunCall.answer (c : RunCall) : Except RuntimeError String :=
  match c.outcome with
  | .instantiateFails message => .error (.invalidPlugin message)
  | .traps message => .error (mapTrap message)
  | .returns result => result.mapError .pluginError

/-- The plugins in service and the calls they have had. -/
structure Fleet where
  deployed : List (Deployment wt config) := []
  calls : List RunCall := []

/-- Why a module is not taken, or the module. -/
def accept (wasm : List UInt8) : Except RuntimeError (Module wt config) :=
  if h : ∀ cap ∈ config.maxModuleBytes, wasm.length ≤ cap then
    match hc : wt.component wasm with
    | .error message => .error (.invalidPlugin message)
    | .ok component => .ok { wasm, component, fits := h, compiles := hc }
  else .error (.invalidPlugin
    s!"module is {wasm.length} bytes, exceeding the {config.maxModuleBytes.getD 0} byte limit")

def Fleet.step (f : Fleet wt config) : PluginRequest H W → Option (PluginReply × Fleet wt config)
  | .load _ tenant wasm ctx =>
    some (match accept wt config wasm with
      | .error e => (.taken (.error e), f)
      | .ok m => (.taken (.ok ()), { f with deployed := f.deployed ++ [{ tenant, ctx, serving := m }] }))
  | .swapModule i wasm =>
    (f.deployed[i]?).map fun d =>
      match accept wt config wasm with
      | .error e => (.taken (.error e), f)
      | .ok m => (.taken (.ok ()), { f with deployed := f.deployed.set i { d with serving := m } })
  | .run i input w =>
    (f.deployed[i]?).map fun d =>
      let c := d.call wt config input w
      (.answer c.answer, { f with calls := f.calls ++ [c] })

/-! ## The runtime serves the fleet -/

theorem compile_eq (wasm : List UInt8) : compile wt config wasm = (accept wt config wasm).map Module.component := by
  have hcompiled : ∀ h : ∀ cap ∈ config.maxModuleBytes, wasm.length ≤ cap,
      (wt.component wasm).mapError RuntimeError.invalidPlugin = (accept wt config wasm).map Module.component := by
    intro h
    unfold accept
    rw [dif_pos h]
    split
    · next message hc => exact congrArg (Except.mapError RuntimeError.invalidPlugin) hc
    · next component hc => exact congrArg (Except.mapError RuntimeError.invalidPlugin) hc
  unfold compile
  cases hcap : config.maxModuleBytes with
  | none => exact hcompiled fun cap hmem => by rw [hcap] at hmem; cases hmem
  | some cap =>
    dsimp only
    split
    · next hlt =>
      have hover : ¬ ∀ cap ∈ config.maxModuleBytes, wasm.length ≤ cap := fun h => absurd (h cap hcap) (by omega)
      unfold accept
      rw [dif_neg hover, hcap]
      rfl
    · next hle =>
      refine hcompiled fun cap' hmem => ?_
      rw [hcap] at hmem
      cases hmem
      omega

/-- A call that the meter has seen, and what the caller gets of it. -/
theorem run_eq (fuelPerCall : Nat) (m : UsageMeter) (c : RunCall) :
    Wasm.run fuelPerCall m c = ((Wasm.run fuelPerCall m c).1, c.answer) := by
  unfold Wasm.run RunCall.answer
  cases c.outcome with
  | instantiateFails message => rfl
  | traps message => rfl
  | returns result => rfl

variable {wt config}

/-- The handle of a deployment, whatever its store. -/
structure Serves (h : PluginHandle C M H) (d : Deployment (H := H) wt config) : Prop where
  tenant : h.tenant = d.tenant
  ctx : h.ctx = d.ctx
  component : h.component = d.serving.component

theorem Serves.resetStore {h : PluginHandle C M H} {d : Deployment wt config} (hs : Serves h d) :
    Serves (h.resetStore wt config) d := ⟨hs.tenant, hs.ctx, hs.component⟩

/-- The call is that of the deployment: what the store held before does not matter. -/
theorem Serves.call {h : PluginHandle C M H} {d : Deployment wt config} (hs : Serves h d) (input : String) (w : W) :
    (h.call wt config input w).1 = d.call wt config input w ∧ Serves (h.call wt config input w).2 d := by
  obtain ⟨htenant, hctx, hcomponent⟩ := hs
  refine ⟨?_, htenant, hctx, hcomponent⟩
  unfold PluginHandle.call PluginHandle.resetStore Deployment.call budget
  dsimp only
  rw [htenant, hctx, hcomponent]

/-- The handles of a runtime serve the deployments of a fleet, and its meter has seen the fleet's calls. -/
structure Plugins.Runs (p : Plugins C M H) (f : Fleet (H := H) wt config) : Prop where
  usage : p.usage = runAll config.fuelPerCall f.calls
  handles : List.Forall₂ Serves p.handles f.deployed

theorem Plugins.runs_new : Runs ({} : Plugins C M H) ({} : Fleet wt config) := ⟨rfl, .nil⟩

/-- **One request**: the runtime answers as the fleet does. -/
theorem Plugins.implements :
    Implements (Plugins.step (H := H) wt config) (Fleet.step wt config) id id Runs := by
  intro p f request hr
  cases request with
  | load name tenant wasm ctx =>
    refine .some ?_
    rw [PluginHandle.load, compile_eq]
    cases accept wt config wasm with
    | error e => exact ⟨rfl, hr⟩
    | ok m => exact ⟨rfl, hr.usage, List.rel_append hr.handles (.cons ⟨rfl, rfl, rfl⟩ .nil)⟩
  | swapModule i wasm =>
    have hi := ReplyingSystem.rel_getElem? hr.handles i
    unfold Plugins.step Fleet.step
    dsimp only [id]
    generalize hd : f.deployed[i]? = d at hi
    generalize p.handles[i]? = h at hi
    cases hi with
    | none => exact .none
    | some hs =>
      refine .some ?_
      unfold PluginHandle.swapModule
      rw [compile_eq]
      cases accept wt config wasm with
      | error e => exact ⟨rfl, hr.usage, ReplyingSystem.rel_set_left hr.handles hd hs⟩
      | ok m => exact ⟨rfl, hr.usage, ReplyingSystem.rel_set hr.handles i ⟨hs.tenant, hs.ctx, rfl⟩⟩
  | run i input w =>
    have hi := ReplyingSystem.rel_getElem? hr.handles i
    unfold Plugins.step Fleet.step
    dsimp only [id]
    generalize hd : f.deployed[i]? = d at hi
    generalize p.handles[i]? = h at hi
    cases hi with
    | none => exact .none
    | some hs =>
      obtain ⟨hcall, hserves⟩ := hs.call input w
      refine .some ⟨?_, ?_, ReplyingSystem.rel_set_left hr.handles hd hserves⟩
      · dsimp only
        rw [run_eq, hcall]
        rfl
      · dsimp only
        rw [hcall, runAll_append, hr.usage]

variable (wt config)

/-- **The runtime serves its handles.**  For every sequence of loads, swaps and calls, the answers are those of the
fleet, and the meter is that of the fleet's calls. -/
theorem Plugins.serves_fleet (requests : List (PluginRequest H W)) :
    (ReplyingSystem.run (Plugins.step wt config) {} requests).map (fun r => (r.1, r.2.usage)) =
      (ReplyingSystem.run (Fleet.step wt config) {} requests).map
        fun r => (r.1, runAll config.fuelPerCall r.2.calls) := by
  have himplements : Implements (Plugins.step (H := H) wt config) (Fleet.step wt config) id id Runs :=
    Plugins.implements
  have hrun := (himplements.run runs_new requests).map_eq fun p f hr => hr.usage
  simpa only [List.map_id] using hrun

/-! ## The engines of the applications -/

/-- `PromoEngine`, `PosPricingEngine` and `DispatchEngine`: a runtime, which is its meter, and one handle.  The
configuration is the default one. -/
structure PluginEngine (C M H : Type) where
  label : String
  tenant : TenantId
  host : H
  runtime : Option UsageMeter := none
  handle : Option (PluginHandle C M H) := none

inductive EngineRequest (W : Type)
  | ask (input : String) (w : W)
  | swapModule (wasm : List UInt8)

inductive EngineReply
  | answer (result : Option String)
  | taken (result : Except RuntimeError Unit)

namespace PluginEngine

def withoutPlugin (label : String) (tenant : TenantId) (host : H) : PluginEngine C M H := { label, tenant, host }

def withPlugin (label : String) (tenant : TenantId) (wasm : List UInt8) (host : H) :
    Except RuntimeError (PluginEngine C M H) :=
  (PluginHandle.load wt {} label tenant wasm host).map fun h =>
    { label, tenant, host, runtime := some ∅, handle := some h }

/-- The engine after a call of its plugin; without one there is no answer. -/
def ask (e : PluginEngine C M H) (input : String) (w : W) : Option String × PluginEngine C M H :=
  match e.handle with
  | none => (none, e)
  | some h =>
    let c := h.call wt {} input w
    let r := Wasm.run ({} : RuntimeConfig).fuelPerCall (e.runtime.getD ∅) c.1
    (r.2.toOption, { e with runtime := e.runtime.map fun _ => r.1, handle := some c.2 })

/-- Another handle in place of the one there is; none when there is a runtime and no handle. -/
def swapModule (e : PluginEngine C M H) (wasm : List UInt8) :
    Option (Except RuntimeError Unit × PluginEngine C M H) :=
  match e.runtime with
  | none => some (.error (.invalidPlugin "no runtime loaded"), e)
  | some _ =>
    e.handle.map fun _ =>
      match PluginHandle.load wt {} e.label e.tenant wasm e.host with
      | .error err => (.error err, e)
      | .ok h => (.ok (), { e with handle := some h })

def step (e : PluginEngine C M H) : EngineRequest W → Option (EngineReply × PluginEngine C M H)
  | .ask input w =>
    let r := e.ask wt input w
    some (.answer r.1, r.2)
  | .swapModule wasm => (e.swapModule wt wasm).map fun r => (.taken r.1, r.2)

end PluginEngine

namespace PromoEngine

def withoutPlugin : TenantId → H → PluginEngine C M H := PluginEngine.withoutPlugin "promo"

def withPlugin : TenantId → List UInt8 → H → Except RuntimeError (PluginEngine C M H) :=
  PluginEngine.withPlugin wt "promo"

end PromoEngine

namespace PosPricingEngine

def withoutPlugin : TenantId → H → PluginEngine C M H := PluginEngine.withoutPlugin "pricing"

def withPlugin : TenantId → List UInt8 → H → Except RuntimeError (PluginEngine C M H) :=
  PluginEngine.withPlugin wt "pricing"

end PosPricingEngine

namespace DispatchEngine

def withoutPlugin : TenantId → H → PluginEngine C M H := PluginEngine.withoutPlugin "dispatch"

def withPlugin : TenantId → List UInt8 → H → Except RuntimeError (PluginEngine C M H) :=
  PluginEngine.withPlugin wt "dispatch"

end DispatchEngine

/-! ## Swapping by loading -/

/-- The request to a handle that is swapped in place. -/
def EngineRequest.inPlace : EngineRequest W → PluginRequest H W
  | ask input w => .run 0 input w
  | swapModule wasm => .swapModule 0 wasm

/-- What an engine makes of the reply of a handle. -/
def EngineReply.of : PluginReply → EngineReply
  | .taken result => .taken result
  | .answer result => .answer result.toOption

variable {wt}

/-- The engine's plugin is the only one of a fleet. -/
structure PluginEngine.Runs (e : PluginEngine C M H) (f : Fleet (H := H) wt {}) : Prop where
  usage : e.runtime = some (runAll ({} : RuntimeConfig).fuelPerCall f.calls)
  only : ∃ h m, e.handle = some h ∧ f.deployed = [{ tenant := e.tenant, ctx := e.host, serving := m }] ∧
    Serves h { tenant := e.tenant, ctx := e.host, serving := m }

/-- **One request to an engine**, which never stops for want of a handle. -/
theorem PluginEngine.implements :
    Implements (PluginEngine.step (H := H) wt) (Fleet.step wt {}) EngineRequest.inPlace EngineReply.of
      PluginEngine.Runs := by
  intro e f request hr
  obtain ⟨husage, h, m, hhandle, hdeployed, hserves⟩ := hr
  cases request with
  | ask input w =>
    unfold PluginEngine.step PluginEngine.ask EngineRequest.inPlace Fleet.step
    rw [hhandle, hdeployed]
    obtain ⟨hcall, hleft⟩ := hserves.call input w
    refine .some ⟨?_, ?_, _, m, rfl, rfl, hleft⟩
    · dsimp only
      rw [run_eq, hcall]
      rfl
    · dsimp only
      rw [hcall, husage, runAll_append]
      rfl
  | swapModule wasm =>
    unfold PluginEngine.step PluginEngine.swapModule EngineRequest.inPlace Fleet.step
    rw [husage, hdeployed]
    dsimp only
    rw [hhandle, PluginHandle.load, compile_eq]
    refine .some ?_
    cases accept wt {} wasm with
    | error err => exact ⟨rfl, husage, h, m, hhandle, hdeployed, hserves⟩
    | ok m' => exact ⟨rfl, rfl, _, m', rfl, rfl, rfl, rfl, rfl⟩

/-- A handle is loaded exactly when its module is accepted. -/
theorem load_eq (name : String) (tenant : TenantId) (wasm : List UInt8) (ctx : H) :
    PluginHandle.load wt config name tenant wasm ctx = (accept wt config wasm).map fun m =>
      PluginHandle.resetStore wt config
        { name, tenant, component := m.component, ctx, store := { ctx, memory := wt.empty } } := by
  rw [PluginHandle.load, compile_eq]
  cases accept wt config wasm with
  | error e => rfl
  | ok m => rfl

variable (wt)

/-- **Swapping by loading is swapping in place**: an engine answers and meters as one handle of a runtime does. -/
theorem PluginEngine.serves_inPlace (label : String) (tenant : TenantId) (wasm : List UInt8) (host : H)
    (requests : List (EngineRequest W)) :
    ((PluginEngine.withPlugin wt label tenant wasm host).map fun e =>
        (ReplyingSystem.run (PluginEngine.step wt) e requests).map fun r => (r.1, r.2.runtime)) =
      (PluginHandle.load wt {} label tenant wasm host).map fun h =>
        (ReplyingSystem.run (Plugins.step wt {}) { handles := [h] } (requests.map EngineRequest.inPlace)).map
          fun r => (r.1.map EngineReply.of, some r.2.usage) := by
  unfold PluginEngine.withPlugin
  rw [load_eq]
  cases accept wt {} wasm with
  | error e => rfl
  | ok m =>
    -- both implement the fleet of this one deployment
    let h : PluginHandle C M H := PluginHandle.resetStore wt {}
      { name := label, tenant, component := m.component, ctx := host, store := { ctx := host, memory := wt.empty } }
    let f : Fleet (H := H) wt {} := { deployed := [{ tenant, ctx := host, serving := m }] }
    have hserves : Serves h { tenant, ctx := host, serving := m } := ⟨rfl, rfl, rfl⟩
    have hengine : Implements (PluginEngine.step (H := H) wt) (Fleet.step wt {}) EngineRequest.inPlace EngineReply.of
      PluginEngine.Runs := PluginEngine.implements
    have hplugins : Implements (Plugins.step (H := H) wt {}) (Fleet.step wt {}) id id Plugins.Runs :=
      Plugins.implements
    have he : Runs { label, tenant, host, runtime := some ∅, handle := some h } f := ⟨rfl, h, m, rfl, rfl, hserves⟩
    have hp : Plugins.Runs { handles := [h] } f := ⟨rfl, .cons hserves .nil⟩
    have hone := (hengine.run he requests).map_eq fun e f hr => hr.usage
    have hother := (hplugins.run hp (requests.map EngineRequest.inPlace)).map_eq fun p f hr => hr.usage
    simp only [List.map_id] at hother
    have hmap := congrArg (Option.map fun r => (r.1.map EngineReply.of, some r.2)) hother
    rw [Option.map_map, Option.map_map] at hmap
    exact congrArg Except.ok (hone.trans hmap.symm)

end

end TptErp.Wasm

import CoercionTrace.Check.Config
import CoercionTrace.Host.Error
import CoercionTrace.Monitor.Identity
import CoercionTrace.Trace.Lines

/-!
# The world of a monitored program

The heap, the realms, the monitors and what they have reported. `σ` is what the program keeps
besides. A monitor lives as long as somebody holds it; at most one is the current one.
-/

namespace CoercionTrace

inductive Sink
  | console
  | recording
  | script (f : Callable)
  deriving DecidableEq, Inhabited

structure Monitor where
  mask : Mask
  tracer : Tracer := .start
  checks : CheckConfig := {}
  sink : Sink := .console
  handle : Option ObjectId := none
  tornDown : Bool := false
  holders : Nat := 1
  deriving Inhabited

structure World (σ : Type) where
  heap : Heap
  realms : Array Realm
  monitors : Array Monitor := #[]
  current : Option MonitorId := none
  reports : List CheckReport := []
  stdout : String := ""
  stderr : String := ""
  program : σ

/-- Operations on behalf of a program. One that fails keeps what it did before it failed. -/
abbrev HostM (σ : Type) := ExceptT HostError (StateM (World σ))

abbrev Call (σ : Type) := Callable → Value → List Value → HostM σ Value

variable {σ : Type}

namespace World

def monitor (w : World σ) (m : MonitorId) : Monitor := (w.monitors[m]?).getD default

def realm (w : World σ) (r : RealmId) : Realm := (w.realms[r]?).getD default

def onMonitor (w : World σ) (m : MonitorId) (f : Monitor → Monitor) : World σ :=
  { w with monitors := w.monitors.modify m f }

def onTracer (w : World σ) (m : MonitorId) (f : Tracer → Tracer) : World σ :=
  w.onMonitor m fun monitor => { monitor with tracer := f monitor.tracer }

def alloc (w : World σ) (o : Object) : ObjectId × World σ :=
  let (id, heap) := w.heap.alloc o
  (id, { w with heap })

def reflect (w : World σ) (r : RealmId) (reflection : Reflection) : World σ :=
  { w with realms := w.realms.modify r fun realm => { realm with reflection } }

def install (w : World σ) (r : RealmId) : Mask × World σ :=
  let reflection := (w.realm r).reflection
  (⟨r, some reflection⟩, w.reflect r (.masked reflection))

def uninstall (w : World σ) (mask : Mask) : Mask × World σ :=
  match mask.saved with
  | none => (mask, w)
  | some reflection => ({ mask with saved := none }, w.reflect mask.realm reflection)

def unmask (w : World σ) (m : MonitorId) : World σ :=
  let (mask, w) := w.uninstall (w.monitor m).mask
  w.onMonitor m fun monitor => { monitor with mask }

def newMonitor (w : World σ) (r : RealmId) (checks : CheckConfig) : MonitorId × World σ :=
  let (mask, w) := w.install r
  (w.monitors.size, { w with monitors := w.monitors.push { mask, checks } })

def hold (w : World σ) (m : MonitorId) : World σ :=
  w.onMonitor m fun monitor => { monitor with holders := monitor.holders + 1 }

def release (w : World σ) (m : MonitorId) : World σ :=
  let w := w.onMonitor m fun monitor => { monitor with holders := monitor.holders - 1 }
  if (w.monitor m).holders = 0 then w.unmask m else w

def keysHolding (o : Object) (id : ObjectId) : List String :=
  o.ownKeys.filter fun key => o.own? key == some (.object id)

/-- Take the hook object out of the global object of a realm, as far as the properties that hold it
can be deleted. -/
def removeHandle (w : World σ) (r : RealmId) (handle : ObjectId) : World σ :=
  let global := (w.realm r).global
  let o := w.heap.object global
  let o' := (keysHolding o handle).foldl (fun o key => (o.delete key).2) o
  { w with heap := w.heap.put global o' }

/-- Undo every change that a monitor made to its realm, and disable it for good. -/
def teardown (w : World σ) (m : MonitorId) : World σ :=
  if (w.monitor m).tornDown then w
  else
    let handle := (w.monitor m).handle
    let w := (w.unmask m).onMonitor m fun monitor =>
      { monitor with tornDown := true, handle := none }
    match handle with
    | none => w
    | some handle => w.removeHandle (w.monitor m).mask.realm handle

def teardownCurrent (w : World σ) : World σ :=
  match w.current with
  | none => w
  | some m => { (w.teardown m).release m with current := none }

/-- A new current monitor. The one before is torn down first, for it restores the reflection that it
found. -/
def init (w : World σ) (r : RealmId) (checks : CheckConfig) : MonitorId × World σ :=
  let (m, w) := w.teardownCurrent.newMonitor r checks
  (m, { w.hold m with current := some m })

def identify (w : World σ) (m : MonitorId) (id : ObjectId) : TraceId × World σ :=
  let monitor := w.monitor m
  let (trace, nextId, heap) :=
    w.heap.identify (w.realm monitor.mask.realm).global monitor.tracer.nextId id
  (trace, { w with heap }.onTracer m fun t => { t with nextId })

def hookMethod (m : MonitorId) (method : HookMethod) : Callable :=
  { name := method.name, arity := method.arity, behaviour := .hook m method }

def bindMethods (m : MonitorId) : List HookMethod → Object × Heap → Object × Heap
  | [], p => p
  | method :: rest, (o, h) =>
    let (f, h) := h.alloc { kind := .function (hookMethod m method) }
    let properties := o.properties.insert method.name { value := .object f }
    bindMethods m rest ({ o with properties }, h)

def handle (w : World σ) (m : MonitorId) : ObjectId × World σ :=
  match (w.monitor m).handle with
  | some id => (id, w)
  | none =>
    let (o, heap) := bindMethods m HookMethod.all ({}, w.heap)
    let (id, w) := { w with heap }.alloc o
    (id, w.onMonitor m fun monitor => { monitor with handle := some id })

def installGlobal (w : World σ) (m : MonitorId) (key : String) : ObjectId × World σ :=
  let (id, w) := w.handle m
  let global := (w.realm (w.monitor m).mask.realm).global
  (id, { w with heap := (w.heap.change global fun o => o.set key (.object id)).2 })

end World

end CoercionTrace

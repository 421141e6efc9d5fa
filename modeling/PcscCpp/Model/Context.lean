import PcscCpp.Effects.Shared
import PcscCpp.Model.Winscard

namespace PcscCpp

open Effects

variable {σ α : Type}

structure Context where
  contextHandle : ScardContext
  deriving DecidableEq, Repr

namespace Context

def new (pcsc : Service σ) : Program σ Context := do
  let serial ← Action.read (·.trace.length)
  let reply ← scardCall pcsc "Context" "src/Context.hpp" 40 (.establishContext scardScopeUser)
  if reply.handle = 0 then
    throw (throwWithCallerInfo .scardError
      ("Context:SCardEstablishContext: service unavailable " ++ "(null context handle)")
      "src/Context.hpp" 42 "Context")
  else pure ⟨⟨reply.handle, serial⟩⟩

/-- The destructor; the result of the call is ignored. -/
def destroy (pcsc : Service σ) (context : Context) : Program σ Unit := do
  if context.contextHandle.value ≠ 0 then
    let _ ← issue pcsc (.releaseContext context.contextHandle)
  else pure ()

end Context

structure Process (σ : Type) where
  world : World σ
  contexts : Heap Context

namespace Process

def onWorld (x : Program σ α) : Action Exception (Process σ) α :=
  Action.zoom Process.world (fun s w => { s with world := w }) x

end Process

/-- `ContextPtr`: a reference to a shared `Context`. -/
abbrev ContextPtr := Nat

namespace ContextPtr

open Process

def makeShared (pcsc : Service σ) : Action Exception (Process σ) ContextPtr := do
  let context ← onWorld (Context.new pcsc)
  let ctx ← Action.read (·.contexts.values.length)
  Action.modify fun s => { s with contexts := s.contexts.make context }
  pure ctx

def copy (ctx : ContextPtr) : Action Exception (Process σ) ContextPtr := do
  Action.modify fun s => { s with contexts := s.contexts.retain ctx }
  pure ctx

/-- The destructor, which destroys the `Context` with its last reference. -/
def destroy (pcsc : Service σ) (ctx : ContextPtr) : Action Exception (Process σ) Unit := do
  Action.modify fun s => { s with contexts := s.contexts.release ctx }
  let contexts ← Action.read (·.contexts)
  if contexts.useCount ctx = 0 then
    let context ← Action.index contexts.values ctx
    onWorld (context.destroy pcsc)
  else pure ()

def handle (ctx : ContextPtr) : Action Exception (Process σ) ScardContext := do
  let contexts ← Action.read (·.contexts)
  let context ← Action.index contexts.values ctx
  pure context.contextHandle

end ContextPtr

end PcscCpp

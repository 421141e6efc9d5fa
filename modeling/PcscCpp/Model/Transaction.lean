import PcscCpp.Model.SmartCard

namespace PcscCpp

open Effects

variable {σ : Type}

/-- A guard.  Its reference to the flag is the one of the card of the session; `begun` is
the place in the trace of its `SCardBeginTransaction`, by which guards are told apart. -/
structure TransactionGuard where
  card : CardImpl
  begun : Nat

/-- One card, its live guards and the outside.  `ended` keeps for each guard destroyed the
places in the trace of its `SCardBeginTransaction` and `SCardEndTransaction`. -/
structure Session (σ : Type) where
  smartCard : SmartCard
  guards : List TransactionGuard
  ended : List (Nat × Nat)
  world : World σ

namespace Session

def start (card : Option CardImpl) (atr : ByteVector) (protocol : Protocol) (w : World σ) :
    Session σ := ⟨⟨card, atr, protocol, false⟩, [], [], w⟩

def onWorld {α : Type} (x : Program σ α) : Action Exception (Session σ) α :=
  Action.zoom Session.world (fun s w => { s with world := w }) x

def setInProgress (inProgress : Bool) : Action Exception (Session σ) Unit :=
  Action.modify fun s =>
    { s with smartCard := { s.smartCard with transactionInProgress := inProgress } }

end Session

namespace TransactionGuard

open Session

def new (pcsc : Service σ) (card : CardImpl) : Action Exception (Session σ) TransactionGuard := do
  let begun ← Action.read (·.world.trace.length)
  onWorld (card.beginTransaction pcsc)
  setInProgress true
  pure ⟨card, begun⟩

def destroy (pcsc : Service σ) (guard : TransactionGuard) : Action Exception (Session σ) Unit := do
  setInProgress false
  tryCatch (onWorld (guard.card.endTransaction pcsc)) fun _ => pure ()

end TransactionGuard

namespace Session

def beginTransaction (pcsc : Service σ) : Action Exception (Session σ) TransactionGuard := do
  let card ← Action.read (·.smartCard.card)
  match card with
  | none => throw (requireNonNull "card" "src/SmartCard.cpp" 274 "beginTransaction")
  | some card => TransactionGuard.new pcsc card

inductive Operation
  | beginTransaction
  | destroyGuard (i : Nat)
  | transmit (command : CommandApdu)
  | transmitCTL (command : CommandApdu) (lang : UInt16) (minlen : UInt8)

/-- An operation of the program that holds the card.  The guard that
`beginTransaction` returns is kept; destroying a guard twice is undefined. -/
def step (pcsc : Service σ) (fuel : Nat) : Operation → Action Exception (Session σ) Unit
  | .beginTransaction => do
    let guard ← beginTransaction pcsc
    Action.modify fun s => { s with guards := s.guards ++ [guard] }
  | .destroyGuard i => do
    let guards ← Action.read (·.guards)
    let guard ← Action.index guards i
    let place ← Action.read (·.world.trace.length)
    guard.destroy pcsc
    Action.modify fun s =>
      { s with guards := s.guards.eraseIdx i, ended := s.ended ++ [(guard.begun, place)] }
  | .transmit command => do
    let smartCard ← Action.read (·.smartCard)
    let _ ← onWorld (smartCard.transmit pcsc fuel command)
  | .transmitCTL command lang minlen => do
    let smartCard ← Action.read (·.smartCard)
    let _ ← onWorld (smartCard.transmitCTL pcsc command lang minlen)

end Session

end PcscCpp

import PcscCpp.Model.ListReaders
import PcscCpp.Model.Transaction

/-! A program that uses the library: the readers and cards it holds and what it does
with them, in any order. -/

namespace PcscCpp

open Effects

variable {σ : Type}

structure HeldCard where
  smartCard : SmartCard
  guards : List TransactionGuard
  ended : List (Nat × Nat)

structure System (σ : Type) where
  process : Process σ
  readers : List Reader
  cards : List HeldCard

namespace System

def start (service : σ) : System σ := ⟨⟨⟨service, []⟩, Heap.empty⟩, [], []⟩

def onProcess {α : Type} (x : Action Exception (Process σ) α) :
    Action Exception (System σ) α :=
  Action.zoom System.process (fun s p => { s with process := p }) x

def session (s : System σ) (held : HeldCard) : Session σ :=
  ⟨held.smartCard, held.guards, held.ended, s.process.world⟩

def withSession (s : System σ) (i : Nat) (t : Session σ) : System σ :=
  { s with
    process := { s.process with world := t.world }
    cards := s.cards.set i ⟨t.smartCard, t.guards, t.ended⟩ }

def onSession (i : Nat) (held : HeldCard) (x : Action Exception (Session σ) Unit) :
    Action Exception (System σ) Unit :=
  Action.zoom (·.session held) (·.withSession i ·) x

inductive Operation
  | listReaders
  | copyReader (i : Nat)
  | destroyReader (i : Nat)
  | connectToCard (i : Nat)
  | onCard (i : Nat) (operation : Session.Operation)
  | destroyCard (i : Nat)

/-- An operation of the program; on an object that is not there it is undefined.  Guards that
are alive when their card is destroyed are left with references to what is gone: to destroy one
of them is undefined, and there is no operation for it. -/
def step (pcsc : Service σ) (fuel : Nat) : Operation → Action Exception (System σ) Unit
  | .listReaders => do
    let readers ← onProcess (listReaders pcsc)
    Action.modify fun s => { s with readers := s.readers ++ readers }
  | .copyReader i => do
    let readers ← Action.read (·.readers)
    let reader ← Action.index readers i
    let copied ← onProcess reader.copy
    Action.modify fun s => { s with readers := s.readers ++ [copied] }
  | .destroyReader i => do
    let readers ← Action.read (·.readers)
    let reader ← Action.index readers i
    Action.modify fun s => { s with readers := s.readers.eraseIdx i }
    onProcess (reader.destroy pcsc)
  | .connectToCard i => do
    let readers ← Action.read (·.readers)
    let reader ← Action.index readers i
    let smartCard ← onProcess (reader.connectToCard pcsc fuel)
    Action.modify fun s => { s with cards := s.cards ++ [⟨smartCard, [], []⟩] }
  | .onCard i operation => do
    let cards ← Action.read (·.cards)
    let held ← Action.index cards i
    onSession i held (Session.step pcsc fuel operation)
  | .destroyCard i => do
    let cards ← Action.read (·.cards)
    let held ← Action.index cards i
    Action.modify fun s => { s with cards := s.cards.eraseIdx i }
    onProcess (Process.onWorld (held.smartCard.destroy pcsc))

end System

end PcscCpp

import Kademlia.Space

/-!
Sequences of operations on an address space.
-/
namespace Kademlia.Space
variable {σ : Type} [ByteSource σ]

inductive Op where
  | proximityTo (other : Address)
  | binOf (other : Address)
  | compare (a b : Address)
  | closest (candidates : List Address) (k : Nat)
  | keyRangeTo (other : Address)
  | keyRangeWithLimit (other : Address) (limit : Nat)
  | neighbourhoodUnderfilled (peers : List Address)
  | refreshTarget (bin : Nat)
  | randomAddressAt (prox : Nat)
  | randomAddress
  deriving DecidableEq

inductive Reply where
  | number (n : Nat)
  | ordering (o : Ordering)
  | addresses (as : List Address)
  | range (range : KeyRange)
  | flag (b : Bool)
  | address (a : Address)
  deriving DecidableEq

structure Step (σ : Type) where
  reply : Reply
  events : List Event
  space : Space σ

def Outcome.toStep (o : Outcome σ) : Step σ := ⟨.address o.address, o.events, o.space⟩

def step (s : Space σ) : Op → Step σ
  | .proximityTo other => ⟨.number (s.proximityTo other), [], s⟩
  | .binOf other => ⟨.number (s.binOf other), [], s⟩
  | .compare a b => ⟨.ordering (s.compare a b), [], s⟩
  | .closest candidates k => ⟨.addresses (s.closest candidates k), [], s⟩
  | .keyRangeTo other =>
    let (range, events) := s.keyRangeTo other
    ⟨.range range, events, s⟩
  | .keyRangeWithLimit other limit =>
    let (range, events) := s.keyRangeWithLimit other limit
    ⟨.range range, events, s⟩
  | .neighbourhoodUnderfilled peers =>
    let (b, events) := s.neighbourhoodUnderfilled peers
    ⟨.flag b, events, s⟩
  | .refreshTarget bin => (s.refreshTarget bin).toStep
  | .randomAddressAt prox => (s.randomAddressAt prox).toStep
  | .randomAddress => s.randomAddress.toStep

def run (s : Space σ) : List Op → List (Reply × List Event) × Space σ
  | [] => ([], s)
  | op :: ops =>
    let next := s.step op
    let rest := next.space.run ops
    ((next.reply, next.events) :: rest.1, rest.2)

end Kademlia.Space

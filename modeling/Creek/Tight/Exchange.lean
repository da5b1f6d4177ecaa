import Creek.Tight.Transport

/-! Two transports and the datagrams between them.
The network may lose, repeat, reorder and delay what an end has sent, and may deliver it from any
address.
-/

namespace Creek.Tight

/-- One of two ends. -/
inductive End where
  | left
  | right
  deriving DecidableEq, Repr

def End.other : End → End
  | .left => .right
  | .right => .left

/-- What happens in an exchange: an end does something, or a datagram arrives that the other end has
sent before, named by its place among those.
-/
inductive ExchangeEvent where
  | act (side : End) (occurrence : Occurrence)
  | arrive (side : End) (moment : Moment) (source : AddrKey) (index draw : Nat)
  deriving DecidableEq, Repr

/-- The two transports, and every datagram each has sent, oldest first. -/
structure Exchange where
  transport : End → Transport
  sent : End → List Bytes := fun _ => []

/-- The datagrams among effects. -/
def datagrams (effects : List Effect) : List Bytes :=
  effects.filterMap fun effect =>
    match effect with
    | .send _ _ datagram _ => some datagram
    | _ => none

namespace Exchange

/-- A step of one end. -/
def perform (numerics : Numerics) (side : End) (occurrence : Occurrence) (exchange : Exchange)
    : Except Library.Fault (Exchange × List Effect) :=
  match (exchange.transport side).step numerics occurrence with
  | .error fault => .error fault
  | .ok (transport, effects) =>
      .ok (
        {
          transport := Function.update exchange.transport side transport
          sent := Function.update exchange.sent side (exchange.sent side ++ datagrams effects)
        },
        effects
      )

def step (numerics : Numerics) (exchange : Exchange)
    : ExchangeEvent → Except Library.Fault (Exchange × List Effect)
  | .act side occurrence => exchange.perform numerics side occurrence
  | .arrive side moment source index draw =>
      match (exchange.sent side.other)[index]? with
      | none => .ok (exchange, [])
      | some bytes =>
          exchange.perform numerics side { moment, event := .datagram source bytes draw }

/-- Two transports as they are constructed. -/
def initial (identity : End → Identity) : Exchange where
  transport := fun side => .initial (identity side)

end Exchange

/-- Nobody but the two ends sends anything: a datagram only arrives once the other end has sent it.
-/
def Undisturbed (_ : List (Library.Stage Exchange ExchangeEvent Effect)) (_ : Exchange)
    (event : ExchangeEvent)
    : Prop :=
  ∀ side occurrence source bytes draw, event = .act side occurrence
    → occurrence.event ≠ .datagram source bytes draw

end Creek.Tight

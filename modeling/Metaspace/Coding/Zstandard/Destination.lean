set_option autoImplicit false

namespace Metaspace.Zstandard

inductive Request where
  | first
  | probe
  | plain
  deriving DecidableEq, Repr

structure Destination where
  length : Nat
  capacity : Nat
  expected : Nat
  largest : Nat
  request : Request
  asked : Nat
  got : Nat

namespace Destination

def probeSize : Nat := 32

def reserve (d : Destination) (n : Nat) : Destination :=
  if d.capacity - d.length < n then
    { d with capacity := max 8 (max (2 * d.capacity) (d.length + n)) }
  else d

def askApart (d : Destination) (request : Request) : Destination :=
  { d with request, asked := probeSize, got := 0 }

def askPlain (d : Destination) : Destination :=
  let d := if d.length = d.capacity then d.reserve probeSize else d
  { d with request := .plain, asked := min (d.capacity - d.length) d.largest, got := 0 }

def ask (d : Destination) : Destination :=
  if d.length = d.capacity ∧ d.capacity = d.expected then d.askApart .probe else d.askPlain

def ofSize (size : Nat) : Destination :=
  let d : Destination := ⟨0, size, size, 8192, .plain, 0, 0⟩
  if size < probeSize then d.askApart .first else d.ask

def free (d : Destination) : Nat := d.asked - d.got

def answer (d : Destination) : Destination :=
  match d.request with
  | .plain =>
    let largest :=
      if d.largest ≤ d.asked ∧ d.got = d.asked then 2 * d.largest else d.largest
    { d with length := d.length + d.got, largest }.ask
  | .probe =>
    let d := d.reserve d.got
    { d with length := d.length + d.got }.askPlain
  | .first =>
    let d := d.reserve d.got
    { d with length := d.length + d.got }.ask

def pause (d : Destination) : Destination :=
  if d.got = 0 then d else d.answer

def carry : Nat → Nat → Destination → Destination
  | 0, _, d => d
  | fuel + 1, n, d =>
    if n = 0 then d
    else
      let part := min n d.asked
      carry fuel (n - part) { d with got := part }.answer

def put (n : Nat) (d : Destination) : Destination :=
  if n ≤ d.free then { d with got := d.got + n }
  else carry n (n - d.free) { d with got := d.asked }.answer

end Destination
end Metaspace.Zstandard

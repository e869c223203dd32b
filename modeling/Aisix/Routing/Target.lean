import Mathlib.Algebra.Order.Ring.Nat

/-!
# Aisix.Routing.Target

The targets of a routing model, and the hashes taken of them.
-/

namespace Aisix
namespace Routing

structure RoutingTarget where
  model : String
  modelId : Option String
  weight : Option UInt32
  priority : Option Int
  tags : Option (List String)
  deriving DecidableEq, Repr

def RoutingTarget.new (model : String) : RoutingTarget := ⟨model, none, none, none, none⟩

def RoutingTarget.weightOrDefault (t : RoutingTarget) : UInt32 := t.weight.getD 1

/-- A target's share of what is balanced: its weight, and one at least. -/
def RoutingTarget.share (t : RoutingTarget) : Nat := max t.weightOrDefault.toNat 1

theorem RoutingTarget.one_le_share (t : RoutingTarget) : 1 ≤ t.share := Nat.le_max_right _ _

def RoutingTarget.priorityOrDefault (t : RoutingTarget) : Int := t.priority.getD 0

def FNV_OFFSET_BASIS : UInt64 := 0xcbf29ce484222325

def FNV_PRIME : UInt64 := 0x00000100000001b3

def fnv1aExtend (h : UInt64) (bytes : List UInt8) : UInt64 :=
  bytes.foldl (fun h b => (h ^^^ b.toUInt64) * FNV_PRIME) h

def mix64 (x : UInt64) : UInt64 :=
  let x := x ^^^ (x >>> 30)
  let x := x * 0xbf58476d1ce4e5b9
  let x := x ^^^ (x >>> 27)
  let x := x * 0x94d049bb133111eb
  x ^^^ (x >>> 31)

def asBytes (s : String) : List UInt8 := s.toList.flatMap String.utf8EncodeChar

def stableHash (s : String) : UInt64 := mix64 (fnv1aExtend FNV_OFFSET_BASIS (asBytes s))

/-- The bytes of a 32-bit number, lowest first. -/
def toLeBytes (n : UInt32) : List UInt8 :=
  [n.toUInt8, (n >>> 8).toUInt8, (n >>> 16).toUInt8, (n >>> 24).toUInt8]

/-- The identity of a target list for balancing state: names, ids and weights, in order. -/
def tierFingerprint (tier : List RoutingTarget) : UInt64 :=
  tier.foldl (fun h t =>
    let h := fnv1aExtend h (asBytes t.model)
    let h := fnv1aExtend h [0]
    let h := fnv1aExtend h (asBytes (t.modelId.getD ""))
    let h := fnv1aExtend h [0]
    let h := fnv1aExtend h (toLeBytes t.weightOrDefault)
    fnv1aExtend h [1]) FNV_OFFSET_BASIS

end Routing
end Aisix

import PropertyGraph.Value.Basic

/-!
The order that sorting uses. Unknown values come last and are all alike; numbers compare with each
other, two integers exactly and any other pair in double precision; lists compare item by item,
elements by identity, maps by size; values of different kinds by the rank of the kind.
-/

namespace PropertyGraph.Value

def rank : Value → Nat
  | .map _ => 0
  | .vertex _ => 1
  | .edge _ => 2
  | .property _ _ _ => 3
  | .list _ => 4
  | .string _ => 5
  | .bool _ => 6
  | .int _ => 7
  | .float _ => 7
  | .null => 8

/-- Unknown values after all others. -/
def compareUnknown (a b : Bool) (known : Ordering) : Ordering :=
  match a, b with
  | true, true => .eq
  | true, false => .gt
  | false, true => .lt
  | false, false => known

mutual

def order : Value → Value → Ordering
  | .int a, .int b => Ord.compare a.toInt b.toInt
  | .int a, .float b => (Binary64.ofInt a.toInt).totalCompare b
  | .float a, .int b => a.totalCompare (Binary64.ofInt b.toInt)
  | .float a, .float b => a.totalCompare b
  | .string a, .string b =>
      compareUnknown (a == nullText) (b == nullText) (Ord.compare a b)
  | .bool a, .bool b => Ord.compare a b
  | .list a, .list b => orderItems a b
  | .vertex a, .vertex b => Ord.compare a.id.toNat b.id.toNat
  | .edge a, .edge b => Ord.compare a.id.toNat b.id.toNat
  | .property _ k v, .property _ l w => (Ord.compare k l).then (v.order w)
  | .map a, .map b => Ord.compare a.length b.length
  | a, b => compareUnknown a.isUnknown b.isUnknown (Ord.compare a.rank b.rank)
termination_by structural v => v

def orderItems : List Value → List Value → Ordering
  | [], [] => .eq
  | [], _ :: _ => .lt
  | _ :: _, [] => .gt
  | a :: as, b :: bs => (a.order b).then (orderItems as bs)
termination_by structural v => v

end

end PropertyGraph.Value

import LayeredConfig.Value.Basic
/-!
# Fingerprints

What values are compared by when the order of their entries is not to count. A fingerprint is made of plain parts:
single values, rows of parts, and sets of parts. A scalar is fingerprinted as the row of its type's name and itself, a
list as the row of its elements, a map as the set of its entries, each the row of key and value. Single values compare
as numbers do whatever their types are, so one, the number one and the truth value are equal: it is the name beside
them that keeps them apart.
-/
namespace LayeredConfig

/-- The whole number that a scalar counts as, if it counts as one. -/
def Scalar.whole? : Scalar → Option Int
  | bool b => some (if b then 1 else 0)
  | int n => some n
  | double x => x.toInt?
  | _ => none

/-- Equality of two values of any types: numbers are equal by size, and a truth value counts as a number. -/
def Scalar.equal : Scalar → Scalar → Bool
  | double x, double y => x.same y
  | text s, text t => decide (s = t)
  | duration d, duration e => decide (d = e)
  | a, b =>
    match a.whole?, b.whole? with
    | some m, some n => decide (m = n)
    | _, _ => false

/-- What a value is compared by. -/
inductive Fingerprint where
  | unset
  | single (s : Scalar)
  | row (parts : List Fingerprint)
  | set (members : List Fingerprint)

namespace Fingerprint

mutual

/-- Equality of fingerprints: rows part by part, sets by what is in them. -/
def same : Fingerprint → Fingerprint → Bool
  | unset, unset => true
  | single a, single b => a.equal b
  | row as, row bs => sameParts as bs
  | set as, set bs => within as bs && bs.all (holds as)
  | _, _ => false

def sameParts : List Fingerprint → List Fingerprint → Bool
  | [], [] => true
  | a :: as, b :: bs => a.same b && sameParts as bs
  | _, _ => false

/-- Whether every member of a set is in another one. -/
def within : List Fingerprint → List Fingerprint → Bool
  | [], _ => true
  | a :: as, bs => bs.any (a.same ·) && within as bs

def holds : List Fingerprint → Fingerprint → Bool
  | [], _ => false
  | a :: as, b => a.same b || holds as b

end

end Fingerprint

mutual

def Value.fingerprint : Value → Fingerprint
  | .unset => .row [.single (.text Value.unset.typeName), .unset]
  | .scalar s => .row [.single (.text s.typeName), .single s]
  | .list items => .row (itemFingerprints items)
  | .map entries => .set (entryFingerprints entries)

def itemFingerprints : List Value → List Fingerprint
  | [] => []
  | v :: rest => v.fingerprint :: itemFingerprints rest

def entryFingerprints : List (String × Value) → List Fingerprint
  | [] => []
  | (k, v) :: rest => .row [.single (.text k), v.fingerprint] :: entryFingerprints rest

end

/-- The fingerprint of listed entries, whatever their order. -/
def Fingerprint.ofEntries (entries : List (String × Value)) : Fingerprint := .set (entryFingerprints entries)

end LayeredConfig

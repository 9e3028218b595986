import ExportLint.Decimal.Binary64

/-!
# JSON values

Objects keep the order of their members. A key that is set again keeps its place and takes the new
value, so an object never holds a key twice when it is built by `set`.
-/
namespace ExportLint

open Decimal (Binary64)

/-- A JSON value. Whole numbers have any size; other numbers are doubles. -/
inductive Json where
  | null
  | bool (b : Bool)
  | int (i : Int)
  | real (x : Binary64)
  | str (s : String)
  | arr (items : List Json)
  | obj (members : List (String × Json))
  deriving Repr

namespace Json

instance : Inhabited Json := ⟨.null⟩

abbrev Members := List (String × Json)

/-- The value of the first member with the key. -/
def Members.get? : Members → String → Option Json
  | [], _ => none
  | (k, v) :: ms, key => if key = k then some v else Members.get? ms key

/-- Set a key: in its place if it is there, at the end otherwise. -/
def Members.set : Members → String → Json → Members
  | [], key, v => [(key, v)]
  | (k, w) :: ms, key, v =>
    if k = key then (k, v) :: ms else (k, w) :: Members.set ms key v

/-- The members of a written object: later values win, first places stay. -/
def Members.ofList (ms : List (String × Json)) : Members :=
  ms.foldl (fun acc m => Members.set acc m.1 m.2) []

@[simp] theorem Members.get?_nil (key : String) : Members.get? [] key = none := rfl

theorem Members.get?_cons (k : String) (w : Json) (ms : Members) (key : String) :
    Members.get? ((k, w) :: ms) key = if key = k then some w else Members.get? ms key := rfl

/-- A key that was set reads back its value, and every other key is as it was. -/
theorem Members.get?_set (ms : Members) (key other : String) (v : Json) :
    (ms.set key v).get? other = if other = key then some v else ms.get? other := by
  induction ms with
  | nil => simp [Members.set, Members.get?_cons]
  | cons m ms ih =>
    obtain ⟨k, w⟩ := m
    simp only [Members.set]
    by_cases h : k = key
    · subst h
      simp only [if_true, Members.get?_cons]
      by_cases ho : other = k <;> simp [ho]
    · simp only [h, if_false, Members.get?_cons, ih]
      by_cases ho : other = k
      · subst ho; simp [h]
      · simp [ho]

/-- The member of an object with the key. -/
def get? : Json → String → Option Json
  | .obj ms, key => Members.get? ms key
  | _, _ => none

def isNull : Json → Bool
  | .null => true
  | _ => false

def strings (ss : List String) : Json := .arr (ss.map .str)

def nat (n : Nat) : Json := .int n

/-- An optional member: left out when there is none. -/
def optional (key : String) : Option Json → Members
  | none => []
  | some v => [(key, v)]

mutual

/-- Equality of values. Numbers compare by their value and booleans count as 0 and 1; the order of
members does not matter. -/
def equal : Json → Json → Bool
  | .null, .null => true
  | .str s, .str t => s == t
  | .arr xs, .arr ys => equalList xs ys
  | .obj ms, .obj ns => ms.length == ns.length && equalMembers ms ns
  | .bool a, .bool b => a == b
  | .bool a, .int i => i == if a then 1 else 0
  | .int i, .bool a => i == if a then 1 else 0
  | .int i, .int j => i == j
  | .bool a, .real x => x.toInt? == some (if a then 1 else 0)
  | .real x, .bool a => x.toInt? == some (if a then 1 else 0)
  | .int i, .real x => x.toInt? == some i
  | .real x, .int i => x.toInt? == some i
  | .real x, .real y => x.equal y
  | _, _ => false

def equalList : List Json → List Json → Bool
  | [], [] => true
  | x :: xs, y :: ys => equal x y && equalList xs ys
  | _, _ => false

def equalMembers : List (String × Json) → List (String × Json) → Bool
  | [], _ => true
  | (k, v) :: ms, ns =>
    (match Members.get? ns k with
      | some w => equal v w
      | none => false) && equalMembers ms ns

end

/-- Integers with more digits are neither read nor written. -/
def digitLimit : Nat := 4300

mutual

/-- A value holds an integer with too many digits to be written, at any depth. -/
def holdsLong : Json → Bool
  | .int i => decide (Nat.pow 10 digitLimit ≤ i.natAbs)
  | .arr vs => holdsLongIn vs
  | .obj ms => holdsLongOf ms
  | _ => false

def holdsLongIn : List Json → Bool
  | [] => false
  | v :: vs => holdsLong v || holdsLongIn vs

def holdsLongOf : List (String × Json) → Bool
  | [] => false
  | (_, v) :: ms => holdsLong v || holdsLongOf ms

end

mutual

/-- How deep a value is nested. One without items and members has depth one. -/
def depth : Json → Nat
  | .arr vs => depthIn vs + 1
  | .obj ms => depthOf ms + 1
  | _ => 1

def depthIn : List Json → Nat
  | [] => 0
  | v :: vs => max (depth v) (depthIn vs)

def depthOf : List (String × Json) → Nat
  | [] => 0
  | (_, v) :: ms => max (depth v) (depthOf ms)

end

/-- Values that count as absent in a condition: null, false, zero, and what is empty. -/
def isTruthy : Json → Bool
  | .null => false
  | .bool b => b
  | .int i => i != 0
  | .real x => !x.isZero
  | .str s => !s.isEmpty
  | .arr xs => !xs.isEmpty
  | .obj ms => !ms.isEmpty

end Json

end ExportLint

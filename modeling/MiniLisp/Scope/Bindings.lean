import MiniLisp.Term.Text
import MiniLisp.Term.Same

/-!
# Bindings

What the keys of one frame stand for, in the order in which the keys were first given. To give a
key again changes its value and not its place.

The language binds names only. A host program may set up a frame that binds other values as keys;
no lookup by name finds them, but they are listed with the rest.

## Main definitions

* `Key`: what can be bound
* `Bindings`: the bindings of a frame
* `Bindings.get?`, `Bindings.set`: the value of a key, and giving a key a value
* `Bindings.ofList`: the bindings that result from giving keys in order
* `Bindings.text?`: bindings as text, if they can be written

## Main results

* `Bindings.get?_set_self`, `Bindings.get?_set_of_ne`: what setting a name does to lookups
-/

namespace MiniLisp

/-- What can be bound in a frame. -/
inductive Key where
  | name (s : String)
  /-- A value that is not a string, where a name is expected. -/
  | other (v : Value)

namespace Key

/-- Equality of keys. -/
def same : Key → Key → Bool
  | name s, name s' => s == s'
  | other v, other v' => v.same v'
  | _, _ => false

/-- A string is the name it spells, and any other value is a key of its own. -/
def ofValue : Value → Key
  | .str s => name s
  | v => other v

/-- A key as it is listed. -/
def text : Key → String
  | name s => s
  | other v => v.plain

/-- The key can be written. -/
def isWritable : Key → Bool
  | name _ => true
  | other v => v.isWritable

/-- The key can be looked up: it is no list. -/
def isHashable : Key → Bool
  | other (.list _) => false
  | _ => true

@[simp] theorem same_name (s s' : String) : same (name s) (name s') = (s == s') := rfl

end Key

/-- Keys with their values, in the order in which the keys were first given. -/
abbrev Bindings := List (Key × Value)

namespace Bindings

/-- The value of a key. -/
def get? : Bindings → Key → Option Value
  | [], _ => none
  | (k', v) :: b, k => if k'.same k then some v else get? b k

/-- Gives a key a value: in its place if it is there, at the end otherwise. -/
def set : Bindings → Key → Value → Bindings
  | [], k, v => [(k, v)]
  | (k', v') :: b, k, v => if k'.same k then (k', v) :: b else (k', v') :: set b k v

/-- Gives the keys their values in order. -/
def setAll (b : Bindings) (entries : List (Key × Value)) : Bindings :=
  entries.foldl (fun b e => b.set e.1 e.2) b

/-- The bindings that result from giving keys in order. -/
def ofList (entries : List (Key × Value)) : Bindings := setAll [] entries

/-- The bindings that result from giving names in order. -/
def ofNames (entries : List (String × Value)) : Bindings :=
  ofList (entries.map fun e => (.name e.1, e.2))

/-- The key is bound. -/
def binds (b : Bindings) (k : Key) : Bool := (b.get? k).isSome

/-- The keys in order. -/
def keys (b : Bindings) : List Key := b.map Prod.fst

/-- A name that was just set has the value it was set to. -/
theorem get?_set_self (b : Bindings) (s : String) (v : Value) :
    (b.set (.name s) v).get? (.name s) = some v := by
  induction b with
  | nil => simp [set, get?]
  | cons e b ih =>
    obtain ⟨k, w⟩ := e
    by_cases h : k.same (.name s)
    · simp [set, get?, h]
    · simpa [set, get?, h] using ih

/-- Setting a name leaves the values of the other names alone. -/
theorem get?_set_of_ne (b : Bindings) {s s' : String} (v : Value) (h : s' ≠ s) :
    (b.set (.name s) v).get? (.name s') = b.get? (.name s') := by
  induction b with
  | nil => simp [set, get?, h.symm]
  | cons e b ih =>
    obtain ⟨k, w⟩ := e
    by_cases hk : k.same (.name s)
    · have hk' : k.same (.name s') = false := by
        cases k with
        | name t =>
          simp only [Key.same_name, beq_iff_eq] at hk
          simp [hk, h.symm]
        | other u => rfl
      simp [set, get?, hk, hk']
    · simp [set, get?, hk, ih]

/-- The text of bindings, if they can be written: each key with its value, in braces. -/
def text? (b : Bindings) : Option String :=
  if b.all fun e => e.1.isWritable && e.2.isWritable then
    some ("\x7b" ++ ", ".intercalate (b.map fun e => e.1.text ++ ": " ++ e.2.inspect) ++ "\x7d")
  else none

end Bindings

end MiniLisp

import PyLinda.Value

/-!
# Objects on a connection

The Python objects that the server hands to `Connection.send` and gets from
`_linda_server.recv`.
-/

namespace PyLinda

inductive PyObj where
  | none
  | bool (b : Bool)
  | int (n : Int)
  | str (s : String)
  | tuple (elems : List PyObj)
  /-- An object of `linda_ValueType`. -/
  | value (v : Value)

/-- A tuple is none of its own elements. -/
theorem PyObj.tuple_ne {o : PyObj} {l : List PyObj} (h : o ∈ l) : PyObj.tuple l ≠ o := by
  intro he
  have := List.sizeOf_lt_of_mem h
  rw [← he, PyObj.tuple.sizeOf_spec] at this
  omega

end PyLinda

import CodeReview.Py.Text

/-!
# The size of a JSON text

`json.dumps(v, indent=2, sort_keys=True)` with its default escapes is plain ASCII, so its size in
bytes is its length.  Sorting the keys does not change the length, and only the text of floats is
left to the interpreter.
-/

namespace Py

/-- The length of a character in an ASCII-only JSON string. -/
def Json.charSize (c : Char) : ℕ :=
  if c = '"' ∨ c = '\\' ∨ c.toNat = 8 ∨ c.toNat = 9 ∨ c.toNat = 10 ∨ c.toNat = 12 ∨ c.toNat = 13
  then 2
  else if 32 ≤ c.toNat ∧ c.toNat < 127 then 1
  else if c.toNat < 0x10000 then 6
  else 12

/-- The length of a JSON string with its quotes. -/
def Json.strSize (s : String) : ℕ := 2 + (s.toList.map charSize).sum

variable (rt : Runtime)

mutual

/-- The length of `json.dumps(v, indent=2)` at a nesting level. -/
def Json.sizeAt (level : ℕ) : Value → ℕ
  | .none => 4
  | .bool b => if b then 4 else 5
  | .int n => (toString n).length
  | .float x => (rt.repr (.float x)).length
  | .str s => strSize s
  | .list [] => 2
  | .list (x :: xs) => 3 + 2 * level + itemsSize (level + 1) (x :: xs)
  | .dict [] => 2
  | .dict (kv :: kvs) => 3 + 2 * level + entriesSize (level + 1) (kv :: kvs)

/-- The items with the line break and indentation before each, and the commas between them. -/
def Json.itemsSize (level : ℕ) : List Value → ℕ
  | [] => 0
  | [x] => 1 + 2 * level + sizeAt level x
  | x :: y :: xs => 2 + 2 * level + sizeAt level x + itemsSize level (y :: xs)

/-- The entries, likewise. -/
def Json.entriesSize (level : ℕ) : List (String × Value) → ℕ
  | [] => 0
  | [(k, v)] => 3 + 2 * level + strSize k + sizeAt level v
  | (k, v) :: kv :: kvs =>
    4 + 2 * level + strSize k + sizeAt level v + entriesSize level (kv :: kvs)

end

/-- The length of `json.dumps(v, indent=2, sort_keys=True)`. -/
def Json.size (v : Value) : ℕ := sizeAt rt 0 v

example : Json.size .ascii (.dict [("a", .list [.int 1, .str "x\n"]), ("b", .dict [])]) = 44 := by
  decide

namespace Json

variable {rt}

/-- Every item takes its own size, and the last one has no comma. -/
theorem itemsSize_add_one (level : ℕ) (x : Value) (xs : List Value) :
    itemsSize rt level (x :: xs) + 1 =
      ((x :: xs).map fun v => 2 + 2 * level + sizeAt rt level v).sum := by
  induction xs generalizing x with
  | nil =>
    rw [itemsSize, List.map_singleton, List.sum_singleton]
    omega
  | cons y ys ih =>
    rw [itemsSize, List.map_cons, List.sum_cons, ← ih y]
    omega

theorem entriesSize_add_one (level : ℕ) (kv : String × Value) (kvs : List (String × Value)) :
    entriesSize rt level (kv :: kvs) + 1 =
      ((kv :: kvs).map fun e => 4 + 2 * level + strSize e.1 + sizeAt rt level e.2).sum := by
  induction kvs generalizing kv with
  | nil =>
    rw [entriesSize, List.map_singleton, List.sum_singleton]
    omega
  | cons kv' kvs ih =>
    rw [entriesSize, List.map_cons, List.sum_cons, ← ih kv']
    omega

/-- An array loses size with an item. -/
theorem sizeAt_list_lt (level : ℕ) {xs ys : List Value} {x : Value} (h : (x :: ys).Perm xs) :
    sizeAt rt level (.list ys) < sizeAt rt level (.list xs) := by
  obtain _ | ⟨z, xs⟩ := xs
  · cases h.eq_nil
  · rw [sizeAt]
    have hall := @itemsSize_add_one rt (level + 1) z xs
    rw [← (h.map _).sum_eq, List.map_cons, List.sum_cons] at hall
    obtain _ | ⟨y, ys⟩ := ys
    · rw [sizeAt]
      omega
    · rw [sizeAt]
      have hrest := @itemsSize_add_one rt (level + 1) y ys
      omega

/-- An object loses what the value under a key loses. -/
theorem sizeAt_set_lt (level : ℕ) {d : Dict} {k : String} {v w : Value}
    (hget : Assoc.get? d k = some v)
    (hlt : sizeAt rt (level + 1) w < sizeAt rt (level + 1) v) :
    sizeAt rt level (.dict (Assoc.set d k w)) < sizeAt rt level (.dict d) := by
  have hsum (d : Dict) (hget : Assoc.get? d k = some v) :
      ((Assoc.set d k w).map fun e => 4 + 2 * (level + 1) + strSize e.1 +
        sizeAt rt (level + 1) e.2).sum <
      (d.map fun e => 4 + 2 * (level + 1) + strSize e.1 + sizeAt rt (level + 1) e.2).sum := by
    induction d with
    | nil => cases hget
    | cons e d ih =>
      obtain ⟨k₀, v₀⟩ := e
      rw [Assoc.get?_cons] at hget
      rw [Assoc.set]
      split_ifs at hget ⊢ with hk
      · obtain rfl := Option.some.inj hget
        simp only [List.map_cons, List.sum_cons]
        omega
      · have hrest := ih hget
        simp only [List.map_cons, List.sum_cons]
        omega
  have hlt := hsum d hget
  obtain _ | ⟨e, d⟩ := d
  · cases hget
  -- setting a key that is there leaves the object non-empty, with its braces and commas
  · obtain ⟨e', d', hset⟩ : ∃ e' d', Assoc.set (e :: d) k w = e' :: d' := by
      rw [Assoc.set]
      split_ifs <;> exact ⟨_, _, rfl⟩
    rw [hset] at hlt ⊢
    rw [← entriesSize_add_one, ← entriesSize_add_one] at hlt
    rw [sizeAt, sizeAt]
    omega

end Json

end Py

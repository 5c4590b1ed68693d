import CodeReview.Lib.JsonText
import CodeReview.Py.Json

/-!
# The text of a JSON value

`json.dumps(v)` with its defaults: ASCII only, with `", "` and `": "` between the parts.

* `Json.writes_dumps` : **the text is well-formed and that of the value;**
* `Json.length_dumps` : its length, part by part.
-/

namespace Py

namespace Json

open JsonText

variable (rt : Runtime)

/-- The text of a float; what is not finite has a name of its own. -/
def dumpFloat : Double → List Char
  | .fin q => (rt.repr (.float (.fin q))).toList
  | .inf => "Infinity".toList
  | .ninf => "-Infinity".toList
  | .nan => "NaN".toList

mutual

/-- `json.dumps(v)`. -/
def dumps : Value → List Char
  | .none => "null".toList
  | .bool b => if b then "true".toList else "false".toList
  | .int n => (toString n).toList
  | .float x => dumpFloat rt x
  | .str s => quote s.toList
  | .list xs => '[' :: dumpItems xs ++ [']']
  | .dict kvs => '\x7b' :: dumpMembers kvs ++ ['\x7d']

/-- The items of an array. -/
def dumpItems : List Value → List Char
  | [] => []
  | [x] => dumps x
  | x :: y :: xs => dumps x ++ ',' :: ' ' :: dumpItems (y :: xs)

/-- The entries of an object. -/
def dumpMembers : List (String × Value) → List Char
  | [] => []
  | [(k, v)] => quote k.toList ++ ':' :: ' ' :: dumps v
  | (k, v) :: kv :: kvs =>
    quote k.toList ++ ':' :: ' ' :: dumps v ++ ',' :: ' ' :: dumpMembers (kv :: kvs)

end

mutual

/-- The value as the grammar has it. -/
def treeOf : Value → Tree
  | .str s => .str (units s.toList)
  | .list xs => .arr (treesOf xs)
  | .dict kvs => .obj (membersOf kvs)
  | v => .scalar (dumps rt v)

/-- The items of an array. -/
def treesOf : List Value → List Tree
  | [] => []
  | x :: xs => treeOf x :: treesOf xs

/-- The entries of an object. -/
def membersOf : List (String × Value) → List (List ℕ × Tree)
  | [] => []
  | (k, v) :: kvs => (units k.toList, treeOf v) :: membersOf kvs

end

theorem treesOf_eq (xs : List Value) : treesOf rt xs = xs.map (treeOf rt) := by
  induction xs with
  | nil => rfl
  | cons x xs ih => rw [treesOf, ih, List.map_cons]

theorem membersOf_eq (kvs : List (String × Value)) :
    membersOf rt kvs = kvs.map fun kv => (units kv.1.toList, treeOf rt kv.2) := by
  induction kvs with
  | nil => rfl
  | cons kv kvs ih => rw [membersOf, ih, List.map_cons]

/-- The interpreter writes a finite float as a JSON number. -/
def FloatRepr (rt : Runtime) : Prop := ∀ q, IsNumber (rt.repr (.float (.fin q))).toList

variable {rt}

theorem blank_nil : Blank [] := fun _ hc => absurd hc List.not_mem_nil

theorem blank_space : Blank [' '] := fun c hc => by simp [List.mem_singleton.1 hc]

theorem mem_words {w : String} (h : w ∈ ["true", "false", "null", "NaN", "Infinity", "-Infinity"]) :
    w.toList ∈ words := List.mem_map_of_mem h

theorem writes_float (h : FloatRepr rt) (x : Double) :
    dumpFloat rt x ∈ words ∨ IsNumber (dumpFloat rt x) := by
  cases x with
  | fin q => exact .inr (h q)
  | inf => exact .inl (mem_words (w := "Infinity") (by decide))
  | ninf => exact .inl (mem_words (w := "-Infinity") (by decide))
  | nan => exact .inl (mem_words (w := "NaN") (by decide))

/-- A value after a blank. -/
theorem writes_after {w t : List Char} {v : Tree} (hw : Blank w) (h : Writes (.value v) t) :
    Writes (.value v) (w ++ t) := by
  have hpad := Writes.padded hw blank_nil h
  rwa [List.append_nil] at hpad

mutual

/-- **The text of a value is well-formed.** -/
theorem writes_dumps (h : FloatRepr rt) : (v : Value) → Writes (.value (treeOf rt v)) (dumps rt v)
  | .none => .scalar (.inl (mem_words (w := "null") (by decide)))
  | .bool true => .scalar (.inl (mem_words (w := "true") (by decide)))
  | .bool false => .scalar (.inl (mem_words (w := "false") (by decide)))
  | .int n => .scalar (.inr (isNumber_toString n))
  | .float x => .scalar (writes_float h x)
  | .str s => writes_quote s.toList
  | .list [] => .emptyArr blank_nil
  | .list (x :: xs) => .arr (writes_dumpItems h (x :: xs) (List.cons_ne_nil _ _) [] blank_nil)
  | .dict [] => .emptyObj blank_nil
  | .dict (kv :: kvs) =>
    .obj (writes_dumpMembers h (kv :: kvs) (List.cons_ne_nil _ _) [] blank_nil)

/-- The items, after some blanks. -/
theorem writes_dumpItems (h : FloatRepr rt) : (xs : List Value) → xs ≠ [] → (w : List Char) →
    Blank w → Writes (.items (treesOf rt xs)) (w ++ dumpItems rt xs)
  | [], hne, _, _ => absurd rfl hne
  | [x], _, _, hw => .lastItem (writes_after hw (writes_dumps h x))
  | x :: y :: xs, _, w, hw => by
    have hrest := writes_dumpItems h (y :: xs) (List.cons_ne_nil _ _) [' '] blank_space
    rw [dumpItems, ← List.append_assoc]
    exact .item (writes_after hw (writes_dumps h x)) hrest

/-- The entries, after some blanks. -/
theorem writes_dumpMembers (h : FloatRepr rt) : (kvs : List (String × Value)) → kvs ≠ [] →
    (w : List Char) → Blank w → Writes (.members (membersOf rt kvs)) (w ++ dumpMembers rt kvs)
  | [], hne, _, _ => absurd rfl hne
  | [(k, v)], _, w, hw => by
    have hmember := Writes.lastMember hw blank_nil (quote_body k.toList)
      (writes_after blank_space (writes_dumps h v))
    rwa [List.append_nil, List.append_assoc] at hmember
  | (k, v) :: kv :: kvs, _, w, hw => by
    have hrest := writes_dumpMembers h (kv :: kvs) (List.cons_ne_nil _ _) [' '] blank_space
    have hmember := Writes.member hw blank_nil (quote_body k.toList)
      (writes_after blank_space (writes_dumps h v)) hrest
    rw [List.append_nil, List.append_assoc, List.append_assoc] at hmember
    rw [dumpMembers, List.append_assoc]
    exact hmember

end

/-! ### Length -/

mutual

/-- The length of `json.dumps(v)`. -/
def dumpSize (rt : Runtime) : Value → ℕ
  | .none => 4
  | .bool b => if b then 4 else 5
  | .int n => (toString n).length
  | .float x => (dumpFloat rt x).length
  | .str s => strSize s
  | .list xs => 2 + dumpItemsSize rt xs
  | .dict kvs => 2 + dumpMembersSize rt kvs

/-- The items, with a comma and a blank between them. -/
def dumpItemsSize (rt : Runtime) : List Value → ℕ
  | [] => 0
  | [x] => dumpSize rt x
  | x :: y :: xs => dumpSize rt x + 2 + dumpItemsSize rt (y :: xs)

/-- The entries, likewise, each with a colon and a blank inside. -/
def dumpMembersSize (rt : Runtime) : List (String × Value) → ℕ
  | [] => 0
  | [(k, v)] => strSize k + 2 + dumpSize rt v
  | (k, v) :: kv :: kvs => strSize k + 2 + dumpSize rt v + 2 + dumpMembersSize rt (kv :: kvs)

end

theorem length_quoteChar (c : Char) : (quoteChar c).length = charSize c := by
  have hshort : ∀ e ∈ shortEscapes, charSize e.1 = 2 := by decide
  unfold quoteChar
  split
  · rename_i e he
    have heq := List.find?_some he
    obtain rfl : e.1 = c := of_decide_eq_true heq
    rw [hshort e (List.mem_of_find?_eq_some he)]
    rfl
  · rename_i hnone
    have hne : ∀ e ∈ shortEscapes, c ≠ e.1 := fun e he heq =>
      List.find?_eq_none.1 hnone e he (decide_eq_true heq.symm)
    have hnat : ∀ e ∈ shortEscapes, c.toNat ≠ e.1.toNat := fun e he heq =>
      hne e he (Char.toNat_inj.1 heq)
    have hplain : ¬ (c = '"' ∨ c = '\\' ∨ c.toNat = 8 ∨ c.toNat = 9 ∨ c.toNat = 10 ∨ c.toNat = 12 ∨
        c.toNat = 13) := by
      rintro (h | h | h | h | h | h | h)
      · exact hne ('"', '"') (by decide) h
      · exact hne ('\\', '\\') (by decide) h
      · exact hnat (Char.ofNat 8, 'b') (by decide) h
      · exact hnat ('\t', 't') (by decide) h
      · exact hnat ('\n', 'n') (by decide) h
      · exact hnat (Char.ofNat 12, 'f') (by decide) h
      · exact hnat ('\r', 'r') (by decide) h
    rw [charSize, if_neg hplain, utf16]
    split_ifs <;> rfl

theorem length_quote (s : String) : (quote s.toList).length = strSize s := by
  have hbody (cs : List Char) : (cs.flatMap quoteChar).length = (cs.map charSize).sum := by
    rw [List.length_flatMap]
    exact congrArg List.sum (List.map_congr_left fun c _ => length_quoteChar c)
  rw [quote, List.length_append, List.length_cons, hbody, strSize, List.length_singleton]
  omega

mutual

/-- **The length of the text.** -/
theorem length_dumps : (v : Value) → (dumps rt v).length = dumpSize rt v
  | .none => rfl
  | .bool true => rfl
  | .bool false => rfl
  | .int n => String.length_toList
  | .float x => rfl
  | .str s => length_quote s
  | .list xs => by
    rw [dumps, dumpSize, List.length_append, List.length_cons, length_dumpItems xs]
    change _ + 1 + 1 = _
    omega
  | .dict kvs => by
    rw [dumps, dumpSize, List.length_append, List.length_cons, length_dumpMembers kvs]
    change _ + 1 + 1 = _
    omega

theorem length_dumpItems : (xs : List Value) → (dumpItems rt xs).length = dumpItemsSize rt xs
  | [] => rfl
  | [x] => length_dumps x
  | x :: y :: xs => by
    rw [dumpItems, dumpItemsSize, List.length_append, List.length_cons, List.length_cons,
      length_dumps x, length_dumpItems (y :: xs)]
    omega

theorem length_dumpMembers : (kvs : List (String × Value)) →
    (dumpMembers rt kvs).length = dumpMembersSize rt kvs
  | [] => rfl
  | [(k, v)] => by
    rw [dumpMembers, dumpMembersSize, List.length_append, List.length_cons, List.length_cons,
      length_quote, length_dumps v]
    omega
  | (k, v) :: kv :: kvs => by
    rw [dumpMembers, dumpMembersSize, List.length_append, List.length_append, List.length_cons,
      List.length_cons, List.length_cons, List.length_cons, length_quote, length_dumps v,
      length_dumpMembers (kv :: kvs)]
    omega

end

example : dumpSize .ascii (.dict [("a", .list [.int 1, .str "x\n"]), ("b", .none)]) = 28 := by
  decide

end Json

end Py

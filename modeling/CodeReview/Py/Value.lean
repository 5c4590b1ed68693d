import CodeReview.Py.Assoc
import CodeReview.Py.Double
import Mathlib.Data.String.Basic

/-!
# JSON values

The values a program gets from `json.loads`, with the Python operations on them: truth, equality,
order, membership tests, iteration, `float()` and `int()`.  Objects are lists of entries without a
repeated key; a reader that depends on this says so.

* `Value.eqv` is `==` and `Value.cmp?` the comparison behind `<` and `<=`, which raises between
  values of different kinds;
* `Value.contains?` is `v in {...}` for a set of strings: an unhashable value raises;
* `Dict.get` is `d.get(k)`.
-/

namespace Py

/-- A JSON value. -/
inductive Value where
  | none
  | bool (b : Bool)
  | int (n : ℤ)
  | float (x : Double)
  | str (s : String)
  | list (xs : List Value)
  | dict (kvs : List (String × Value))
  deriving Repr

/-- A `dict` with string keys. -/
abbrev Dict := List (String × Value)

instance : Inhabited Value := ⟨.none⟩

instance : Coe String Value := ⟨.str⟩

/-- `d.get(k)`: a missing key reads as `None`. -/
def Dict.get (d : Dict) (k : String) : Value := (Assoc.get? d k).getD .none

/-- `d.get(k, default)`. -/
def Dict.getD (d : Dict) (k : String) (default : Value) : Value := (Assoc.get? d k).getD default

/-- `k in d`. -/
def Dict.has (d : Dict) (k : String) : Bool := (Assoc.get? d k).isSome

namespace Value

/-- `bool(v)`. -/
def truthy : Value → Bool
  | none => false
  | bool b => b
  | int n => n ≠ 0
  | float x => x.truthy
  | str s => s ≠ ""
  | list xs => !xs.isEmpty
  | dict kvs => !kvs.isEmpty

/-- `v or w`. -/
def or (v w : Value) : Value := if v.truthy then v else w

/-- `v is None`. -/
def isNone : Value → Bool
  | none => true
  | _ => false

/-- The text, of a `str`. -/
def asStr? : Value → Option String
  | str s => some s
  | _ => .none

/-- The value of an `int`; `bool` is a subclass of `int`. -/
def asInt? : Value → Option ℤ
  | int n => some n
  | bool b => some b.toNat
  | _ => .none

/-- The entries of a `dict`. -/
def asDict? : Value → Option Dict
  | dict kvs => some kvs
  | _ => .none

/-- The elements of a `list`. -/
def asList? : Value → Option (List Value)
  | list xs => some xs
  | _ => .none

/-- The exact value of a number, `bool` included. -/
def num? : Value → Option Double
  | bool b => some (.fin b.toNat)
  | int n => some (.fin n)
  | float x => some x
  | _ => .none

/-- Only lists and dicts have no hash. -/
def hashable : Value → Bool
  | list _ => false
  | dict _ => false
  | _ => true

/-- `==` of a number and a value. -/
def eqvNum (x : Double) (w : Value) : Bool :=
  match w.num? with
  | some y => x.eq y
  | .none => false

mutual

/-- `v == w`. -/
def eqv : Value → Value → Bool
  | none, none => true
  | str s, str t => s = t
  | list xs, list ys => eqvList xs ys
  | dict kvs, dict kvs' => kvs.length = kvs'.length && eqvEntries kvs kvs'
  | bool b, w => eqvNum (.fin b.toNat) w
  | int n, w => eqvNum (.fin n) w
  | float x, w => eqvNum x w
  | _, _ => false

/-- `==` of two lists. -/
def eqvList : List Value → List Value → Bool
  | [], [] => true
  | x :: xs, y :: ys => eqv x y && eqvList xs ys
  | _, _ => false

/-- Every entry of the first dict is one of the second. -/
def eqvEntries : List (String × Value) → Dict → Bool
  | [], _ => true
  | (k, v) :: kvs, d =>
    (match Assoc.get? d k with
    | some w => eqv v w
    | .none => false) && eqvEntries kvs d

end

/-- The order of two numbers; `none` when one of them is a NaN. -/
def cmpNum (x y : Double) : Option Ordering :=
  if x.lt y then some .lt else if x.eq y then some .eq else if y.lt x then some .gt else .none

mutual

/-- The comparison behind `<` and `<=`: the outer `none` is a `TypeError`, the inner one says that
every comparison is false. -/
def cmp? : Value → Value → Option (Option Ordering)
  | str s, str t => some (some (if s < t then .lt else if s = t then .eq else .gt))
  | list xs, list ys => cmpList? xs ys
  | v, w =>
    match v.num?, w.num? with
    | some x, some y => some (cmpNum x y)
    | _, _ => .none

/-- Lists compare at their first difference. -/
def cmpList? : List Value → List Value → Option (Option Ordering)
  | [], [] => some (some .eq)
  | [], _ :: _ => some (some .lt)
  | _ :: _, [] => some (some .gt)
  | x :: xs, y :: ys => if eqv x y then cmpList? xs ys else cmp? x y

end

/-- `v < w`. -/
def lt? (v w : Value) : Result Bool :=
  match cmp? v w with
  | some o => .ok (o == some .lt)
  | .none => .error .typeError

/-- `v <= w`. -/
def le? (v w : Value) : Result Bool :=
  match cmp? v w with
  | some o => .ok (o == some .lt || o == some .eq)
  | .none => .error .typeError

/-- `v in {...}` for a set of strings. -/
def contains? (names : List String) (v : Value) : Result Bool :=
  if v.hashable then .ok (v.asStr?.elim false (· ∈ names)) else .error .typeError

/-- `for x in v`: a `dict` yields its keys, a `str` its characters. -/
def iter : Value → Result (List Value)
  | list xs => .ok xs
  | dict kvs => .ok (kvs.map fun kv => str kv.1)
  | str s => .ok (s.toList.map fun c => str (String.ofList [c]))
  | _ => .error .typeError

/-- `len(v)`. -/
def len? (v : Value) : Result ℕ := List.length <$> v.iter

/-- `int(v)` for a number. -/
def toInt? : Value → Result ℤ
  | bool b => .ok b.toNat
  | int n => .ok n
  | float x => x.trunc
  | _ => .error .typeError

/-- `float(v)`, where `parse` reads the text of a number. -/
def toFloat? (parse : String → Option Double) : Value → Result Double
  | bool b => .ok (.fin b.toNat)
  | int n => Double.ofInt n
  | float x => .ok x
  | str s => (parse s).elim (.error .valueError) .ok
  | _ => .error .typeError

@[simp] theorem truthy_none : truthy none = false := rfl

@[simp] theorem truthy_dict (kvs : Dict) : (dict kvs).truthy = !kvs.isEmpty := rfl

@[simp] theorem truthy_list (xs : List Value) : (list xs).truthy = !xs.isEmpty := rfl

@[simp] theorem truthy_str (s : String) : (str s).truthy = decide (s ≠ "") := rfl

theorem or_of_truthy {v : Value} (w : Value) (h : v.truthy) : v.or w = v := if_pos h

theorem or_of_falsy {v : Value} (w : Value) (h : v.truthy = false) : v.or w = w := by simp [or, h]

/-- `xs or []`. -/
theorem list_or_nil (xs : List Value) : (list xs).or (list []) = list xs := by
  cases xs <;> rfl

@[simp] theorem str_eqv (s : String) (w : Value) : (str s).eqv w = true ↔ w = str s := by
  cases w <;> simp [eqv, eq_comm]

@[simp] theorem eqv_str (v : Value) (s : String) : v.eqv (str s) = true ↔ v = str s := by
  cases v <;> simp [eqv, eqvNum, num?]

theorem contains?_eq_true {names : List String} {v : Value} :
    contains? names v = .ok true ↔ ∃ s ∈ names, v = str s := by
  cases v <;> simp [contains?, hashable, asStr?]

@[simp] theorem contains?_str (names : List String) (s : String) :
    contains? names (str s) = .ok (decide (s ∈ names)) := rfl

theorem cmp?_str (s t : String) :
    cmp? (str s) (str t) = some (some (if s < t then .lt else if s = t then .eq else .gt)) := rfl

@[simp] theorem lt?_str (s t : String) : lt? (str s) (str t) = .ok (decide (s < t)) := by
  rw [lt?, cmp?_str]
  split_ifs with h h' <;> simp [h]

theorem le?_str (s t : String) : le? (str s) (str t) = .ok (decide (s ≤ t)) := by
  rw [le?, cmp?_str]
  refine congrArg Except.ok ?_
  rcases lt_trichotomy s t with h | h | h
  · rw [if_pos h, decide_eq_true h.le]
    rfl
  · rw [if_neg h.not_lt, if_pos h, decide_eq_true h.le]
    rfl
  · rw [if_neg h.not_gt, if_neg h.ne', decide_eq_false h.not_ge]
    rfl

@[simp] theorem le?_str_ok (s t : String) : Result.Ok (le? (str s) (str t)) := ⟨_, rfl⟩

/-- Taking the length raises only on a value that has none. -/
theorem len?_error {v : Value} {e : Exc} (h : v.len? = .error e) : e = .typeError := by
  unfold len? iter at h
  cases v with
  | list xs => cases h
  | dict kvs => cases h
  | str s => cases h
  | _ => exact (Except.error.inj h).symm

@[simp] theorem iter_list (xs : List Value) : (list xs).iter = .ok xs := rfl

end Value

@[simp] theorem Dict.get_nil (k : String) : Dict.get [] k = .none := rfl

theorem Dict.get_cons (k' : String) (v : Value) (d : Dict) (k : String) :
    Dict.get ((k', v) :: d) k = if k' = k then v else Dict.get d k := by
  rw [Dict.get, Assoc.get?_cons]; split_ifs <;> rfl

@[simp] theorem Dict.get_set (d : Dict) (k k' : String) (v : Value) :
    Dict.get (Assoc.set d k v) k' = if k = k' then v else Dict.get d k' := by
  rw [Dict.get, Assoc.get?_set]; split_ifs <;> rfl

theorem Dict.get_of_get? {d : Dict} {k : String} {v : Value} (h : Assoc.get? d k = some v) :
    Dict.get d k = v := by rw [Dict.get, h]; rfl

end Py

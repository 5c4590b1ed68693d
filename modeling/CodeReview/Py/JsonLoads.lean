import CodeReview.Lib.JsonReader
import CodeReview.Py.JsonDump

/-!
# Reading JSON back

`json.loads` and `json.dumps(v, indent=2)`.

* `Json.decode_units` : the units of a text, escaped or not, are its characters again;
* `Json.writes_dumpIndent` : the indented text is well-formed and that of the value;
* `Json.loads_dumpIndent` : **a value reads back from its indented text.**
-/

namespace Py

namespace Json

open JsonText

variable (rt : Runtime)

/-! ### `json.loads` -/

/-- The unit is the first of a surrogate pair. -/
def isHigh (u : ℕ) : Bool := 0xD800 ≤ u && u < 0xDC00

/-- The unit is the second of a surrogate pair. -/
def isLow (u : ℕ) : Bool := 0xDC00 ≤ u && u < 0xE000

/-- The characters of some units; a surrogate without its partner is no character. -/
def decode : List ℕ → Option (List Char)
  | [] => some []
  | [u] => if isHigh u || isLow u then none else some [Char.ofNat u]
  | u :: v :: us =>
    if isHigh u then
      if isLow v then
        (decode us).map (Char.ofNat (0x10000 + (u - 0xD800) * 0x400 + (v - 0xDC00)) :: ·)
      else none
    else if isLow u then none
    else (decode (v :: us)).map (Char.ofNat u :: ·)

/-- The integer of a text without fraction and exponent. -/
def intOf : List Char → ℤ
  | '-' :: ds => -(Nat.ofDigitChars 10 ds 0 : ℤ)
  | ds => (Nat.ofDigitChars 10 ds 0 : ℤ)

/-- The text has a fraction or an exponent. -/
def isFloatText (t : List Char) : Bool := t.any fun c => ['.', 'e', 'E'].contains c

/-- The value of a word or a number. -/
def scalarValue (t : List Char) : Option Value :=
  if t = "null".toList then some .none
  else if t = "true".toList then some (.bool true)
  else if t = "false".toList then some (.bool false)
  else if t = "NaN".toList then some (.float .nan)
  else if t = "Infinity".toList then some (.float .inf)
  else if t = "-Infinity".toList then some (.float .ninf)
  else if isFloatText t then (rt.parseFloat (String.ofList t)).map .float
  else some (.int (intOf t))

mutual

/-- The value that a text stands for. -/
def toValue : Tree → Option Value
  | .scalar t => scalarValue rt t
  | .str us => (decode us).map fun cs => .str (String.ofList cs)
  | .arr ts => (toValues ts).map .list
  | .obj ms => (toMembers ms).map fun kvs => .dict (Assoc.update [] kvs)

/-- The items of an array. -/
def toValues : List Tree → Option (List Value)
  | [] => some []
  | t :: ts => do return (← toValue t) :: (← toValues ts)

/-- The members of an object, a repeated key included. -/
def toMembers : List (List ℕ × Tree) → Option (List (String × Value))
  | [] => some []
  | (us, t) :: ms => do
    return (String.ofList (← decode us), ← toValue t) :: (← toMembers ms)

end

/-- `json.loads`; `none` where it raises. -/
def loads (text : List Char) : Option Value := (read text).bind (toValue rt)

/-! ### `json.dumps(v, indent=2)` -/

/-- A line break and the indentation of a level. -/
def newline (level : ℕ) : List Char := '\n' :: List.replicate (2 * level) ' '

mutual

/-- `json.dumps(v, indent=2)` at a nesting level. -/
def dumpIndent (level : ℕ) : Value → List Char
  | .list [] => ['[', ']']
  | .list (x :: xs) => '[' :: (indentItems (level + 1) (x :: xs) ++ newline level) ++ [']']
  | .dict [] => ['\x7b', '\x7d']
  | .dict (kv :: kvs) =>
    '\x7b' :: (indentMembers (level + 1) (kv :: kvs) ++ newline level) ++ ['\x7d']
  | v => dumps rt v

/-- The items, each on a line of its own. -/
def indentItems (level : ℕ) : List Value → List Char
  | [] => []
  | [x] => newline level ++ dumpIndent level x
  | x :: y :: xs => newline level ++ dumpIndent level x ++ ',' :: indentItems level (y :: xs)

/-- The entries, likewise. -/
def indentMembers (level : ℕ) : List (String × Value) → List Char
  | [] => []
  | [(k, v)] => newline level ++ quote k.toList ++ ':' :: ' ' :: dumpIndent level v
  | (k, v) :: kv :: kvs => newline level ++ quote k.toList ++ ':' :: ' ' :: dumpIndent level v ++
      ',' :: indentMembers level (kv :: kvs)

end

example : dumpIndent .ascii 0 (.dict [("a", .list [.int 1, .str "x"]), ("b", .list [])]) =
    "\x7b\n  \"a\": [\n    1,\n    \"x\"\n  ],\n  \"b\": []\n\x7d".toList := by decide

/-! ### Values that read back -/

/-- The interpreter reads the text of a finite float back, and writes no float as an integer. -/
def FloatReads (q : ℚ) : Prop :=
  IsNumber (rt.repr (.float (.fin q))).toList ∧
    isFloatText (rt.repr (.float (.fin q))).toList = true ∧
    rt.parseFloat (rt.repr (.float (.fin q))) = some (.fin q)

mutual

/-- The dictionaries of the value repeat no key, and its floats read back. -/
def Readable : Value → Prop
  | .float (.fin q) => FloatReads rt q
  | .list xs => ReadableAll xs
  | .dict kvs => (kvs.map Prod.fst).Nodup ∧ ReadableEntries kvs
  | _ => True

/-- All items are readable. -/
def ReadableAll : List Value → Prop
  | [] => True
  | x :: xs => Readable x ∧ ReadableAll xs

/-- All values are readable. -/
def ReadableEntries : List (String × Value) → Prop
  | [] => True
  | (_, v) :: kvs => Readable v ∧ ReadableEntries kvs

end

variable {rt}

/-! ### Characters -/

/-- A unit of a character alone is no surrogate. -/
theorem not_surrogate {c : Char} (h : c.toNat < 0x10000) :
    isHigh c.toNat = false ∧ isLow c.toNat = false := by
  have hvalid : c.toNat < 0xD800 ∨ 0xDFFF < c.toNat := c.valid.imp_right And.left
  simp only [isHigh, isLow, Bool.and_eq_false_iff, decide_eq_false_iff_not]
  omega

/-- **A character is decoded from its units.** -/
theorem decode_utf16 (c : Char) (us : List ℕ) :
    decode (utf16 c ++ us) = (decode us).map (c :: ·) := by
  rw [utf16]
  split_ifs with hsmall
  · obtain ⟨hhigh, hlow⟩ := not_surrogate hsmall
    cases us with
    | nil => simp [decode, hhigh, hlow]
    | cons v us => simp [decode, hhigh, hlow]
  · have hvalid : c.toNat < 0x110000 := by
      rcases c.valid with h | ⟨-, h⟩
      · exact Nat.lt_trans h (by decide)
      · exact h
    have hhigh : isHigh (0xD800 + (c.toNat - 0x10000) / 0x400) = true := by
      simp only [isHigh, Bool.and_eq_true, decide_eq_true_eq]
      omega
    have hlow : isLow (0xDC00 + (c.toNat - 0x10000) % 0x400) = true := by
      simp only [isLow, Bool.and_eq_true, decide_eq_true_eq]
      omega
    have hsum : 0x10000 + (0xD800 + (c.toNat - 0x10000) / 0x400 - 0xD800) * 0x400 +
        (0xDC00 + (c.toNat - 0x10000) % 0x400 - 0xDC00) = c.toNat := by
      omega
    rw [List.cons_append, List.cons_append, List.nil_append, decode, if_pos hhigh,
      if_pos hlow, hsum, Char.ofNat_toNat]

/-- **The units of a text are its characters again.** -/
theorem decode_units (cs : List Char) : decode (units cs) = some cs := by
  induction cs with
  | nil => rfl
  | cons c cs ih =>
    have hunits : units (c :: cs) = utf16 c ++ units cs := rfl
    rw [hunits, decode_utf16, ih]
    rfl

theorem ofList_toList (s : String) : String.ofList s.toList = s := String.ofList_toList

/-! ### Scalars -/

theorem not_word_of_number {t : List Char} (h : IsNumber t) : t ∉ words := by
  intro hmem
  have hnone := find?_word_number h []
  rw [List.append_nil] at hnone
  exact List.find?_eq_none.1 hnone t hmem (List.isPrefixOf_iff_prefix.2 (List.prefix_refl t))

theorem scalarValue_number {t : List Char} (h : IsNumber t) :
    scalarValue rt t =
      if isFloatText t then (rt.parseFloat (String.ofList t)).map .float
      else some (.int (intOf t)) := by
  have hword : ∀ w ∈ ["true", "false", "null", "NaN", "Infinity", "-Infinity"], t ≠ w.toList :=
    fun w hw heq => not_word_of_number h (heq ▸ mem_words hw)
  rw [scalarValue, if_neg (hword _ (by decide)), if_neg (hword _ (by decide)),
    if_neg (hword _ (by decide)), if_neg (hword _ (by decide)), if_neg (hword _ (by decide)),
    if_neg (hword _ (by decide))]

theorem not_isFloatText_of_digits {t : List Char} (h : ∀ c ∈ t, c.isDigit ∨ c = '-') :
    isFloatText t = false := by
  refine List.any_eq_false.2 fun c hc => ?_
  simp only [List.contains_iff_mem, List.mem_cons, List.not_mem_nil, or_false]
  rintro (rfl | rfl | rfl) <;> exact absurd (h _ hc) (by decide)

/-- A natural number is read from its digits. -/
theorem digits_spec (n : ℕ) : (∀ c ∈ n.repr.toList, c.isDigit) ∧
    Nat.ofDigitChars 10 n.repr.toList 0 = n ∧ n.repr.toList ≠ [] := by
  rw [Nat.toList_repr]
  exact ⟨fun c hc => Nat.isDigit_of_mem_toDigits (by decide) (by decide) hc,
    Nat.ofDigitChars_ten_toDigits, Nat.toDigits_ne_nil⟩

theorem intOf_digits {ds : List Char} (h : ∀ c ∈ ds, c.isDigit) :
    intOf ds = (Nat.ofDigitChars 10 ds 0 : ℤ) := by
  unfold intOf
  split
  · exact absurd (h '-' List.mem_cons_self) (by decide)
  · rfl

/-- **An integer is read from its decimal text.** -/
theorem scalarValue_int (n : ℤ) : scalarValue rt (toString n).toList = some (.int n) := by
  rw [scalarValue_number (isNumber_toString n)]
  have htext : (toString n).toList =
      if 0 ≤ n then n.toNat.repr.toList else '-' :: (-n).toNat.repr.toList := by
    rw [Int.toString_eq_repr, Int.repr_eq_if]
    split_ifs
    · rfl
    · rw [String.toList_append]
      rfl
  rw [htext]
  by_cases hsign : 0 ≤ n
  · obtain ⟨hdigits, hvalue, -⟩ := digits_spec n.toNat
    rw [if_pos hsign, not_isFloatText_of_digits fun c hc => .inl (hdigits c hc),
      intOf_digits hdigits, hvalue, Int.toNat_of_nonneg hsign]
    rfl
  · obtain ⟨hdigits, hvalue, -⟩ := digits_spec (-n).toNat
    have hfloat : isFloatText ('-' :: (-n).toNat.repr.toList) = false :=
      not_isFloatText_of_digits fun c hc =>
        (List.mem_cons.1 hc).elim .inr fun hc => .inl (hdigits c hc)
    have hint : intOf ('-' :: (-n).toNat.repr.toList) =
        -(Nat.ofDigitChars 10 (-n).toNat.repr.toList 0 : ℤ) := rfl
    rw [if_neg hsign, hfloat, hint, hvalue, Int.toNat_of_nonneg (by omega), neg_neg]
    rfl

/-- The text of a readable float is one of the grammar and reads back. -/
theorem scalarValue_float {x : Double} (h : Readable rt (.float x)) :
    (dumpFloat rt x ∈ words ∨ IsNumber (dumpFloat rt x)) ∧
      scalarValue rt (dumpFloat rt x) = some (.float x) := by
  cases x with
  | fin q =>
    rw [Readable] at h
    obtain ⟨hnumber, hfloat, hparse⟩ := h
    have hvalue := @scalarValue_number rt _ hnumber
    rw [if_pos hfloat, ofList_toList, hparse] at hvalue
    exact ⟨.inr hnumber, hvalue⟩
  | inf => exact ⟨.inl (mem_words (w := "Infinity") (by decide)), rfl⟩
  | ninf => exact ⟨.inl (mem_words (w := "-Infinity") (by decide)), rfl⟩
  | nan => exact ⟨.inl (mem_words (w := "NaN") (by decide)), rfl⟩

/-! ### The round trip -/

mutual

/-- The text stands for the value. -/
theorem toValue_treeOf : (v : Value) → Readable rt v → toValue rt (treeOf rt v) = some v
  | .none, _ => rfl
  | .bool true, _ => rfl
  | .bool false, _ => rfl
  | .int n, _ => scalarValue_int n
  | .float _, h => (scalarValue_float h).2
  | .str s, _ => by
    rw [treeOf, toValue, decode_units, Option.map_some, ofList_toList]
  | .list xs, h => by
    rw [treeOf, toValue, toValues_treesOf xs h]
    rfl
  | .dict kvs, h => by
    rw [treeOf, toValue, toMembers_membersOf kvs h.2, Option.map_some,
      Assoc.update_of_fresh (by exact h.1), List.nil_append]

theorem toValues_treesOf : (xs : List Value) → ReadableAll rt xs →
    toValues rt (treesOf rt xs) = some xs
  | [], _ => rfl
  | x :: xs, h => by
    rw [treesOf, toValues, toValue_treeOf x h.1, toValues_treesOf xs h.2]
    rfl

theorem toMembers_membersOf : (kvs : List (String × Value)) → ReadableEntries rt kvs →
    toMembers rt (membersOf rt kvs) = some kvs
  | [], _ => rfl
  | (k, v) :: kvs, h => by
    rw [membersOf, toMembers, decode_units, toValue_treeOf v h.1, toMembers_membersOf kvs h.2]
    simp only [Option.bind_eq_bind, Option.bind_some, ofList_toList]
    rfl

end

theorem blank_newline (level : ℕ) : Blank (newline level) := by
  intro c hc
  rcases List.mem_cons.1 hc with rfl | hc
  · decide
  · rw [List.eq_of_mem_replicate hc]
    decide

mutual

/-- **The indented text is one of the grammar, and the value's.** -/
theorem writes_dumpIndent (level : ℕ) : (v : Value) → Readable rt v →
    Writes (.value (treeOf rt v)) (dumpIndent rt level v)
  | .none, _ => .scalar (.inl (mem_words (w := "null") (by decide)))
  | .bool true, _ => .scalar (.inl (mem_words (w := "true") (by decide)))
  | .bool false, _ => .scalar (.inl (mem_words (w := "false") (by decide)))
  | .int n, _ => .scalar (.inr (isNumber_toString n))
  | .float _, h => .scalar (scalarValue_float h).1
  | .str s, _ => writes_quote s.toList
  | .list [], _ => .emptyArr blank_nil
  | .list (x :: xs), h => .arr (writes_indentItems (level + 1) (x :: xs) (List.cons_ne_nil _ _) h _
      (blank_newline level))
  | .dict [], _ => .emptyObj blank_nil
  | .dict (kv :: kvs), h => .obj (writes_indentMembers (level + 1) (kv :: kvs)
      (List.cons_ne_nil _ _) h.2 _ (blank_newline level))

/-- The items, with some blanks at the end. -/
theorem writes_indentItems (level : ℕ) : (xs : List Value) → xs ≠ [] → ReadableAll rt xs →
    (w : List Char) → Blank w → Writes (.items (treesOf rt xs)) (indentItems rt level xs ++ w)
  | [], hne, _, _, _ => absurd rfl hne
  | [x], _, h, w, hw =>
    .lastItem (.padded (blank_newline level) hw (writes_dumpIndent level x h.1))
  | x :: y :: xs, _, h, w, hw => by
    have hrest := writes_indentItems level (y :: xs) (List.cons_ne_nil _ _) h.2 w hw
    rw [indentItems, List.append_assoc]
    exact .item (writes_after (blank_newline level) (writes_dumpIndent level x h.1)) hrest

/-- The entries, with some blanks at the end. -/
theorem writes_indentMembers (level : ℕ) : (kvs : List (String × Value)) → kvs ≠ [] →
    ReadableEntries rt kvs → (w : List Char) → Blank w →
      Writes (.members (membersOf rt kvs)) (indentMembers rt level kvs ++ w)
  | [], hne, _, _, _ => absurd rfl hne
  | [(k, v)], _, h, w, hw => by
    have hvalue := Writes.padded blank_space hw (writes_dumpIndent level v h.1)
    have hmember := Writes.lastMember (blank_newline level) blank_nil (quote_body k.toList) hvalue
    rw [List.append_nil] at hmember
    rw [indentMembers, List.append_assoc]
    exact hmember
  | (k, v) :: kv :: kvs, _, h, w, hw => by
    have hrest := writes_indentMembers level (kv :: kvs) (List.cons_ne_nil _ _) h.2 w hw
    have hmember := Writes.member (blank_newline level) blank_nil (quote_body k.toList)
      (writes_after blank_space (writes_dumpIndent level v h.1)) hrest
    rw [List.append_nil] at hmember
    rw [indentMembers, List.append_assoc]
    exact hmember

end

/-- A text whose only control characters are line feeds. -/
def Lines (t : List Char) : Prop := ∀ c ∈ t, c = '\n' ∨ 32 ≤ c.toNat

theorem Lines.append {t u : List Char} (ht : Lines t) (hu : Lines u) : Lines (t ++ u) :=
  List.forall_mem_append.2 ⟨ht, hu⟩

theorem lines_of_printable {t : List Char} (h : ∀ c ∈ t, 32 ≤ c.toNat) : Lines t :=
  fun c hc => .inr (h c hc)

theorem lines_newline (level : ℕ) : Lines (newline level) := by
  intro c hc
  rcases List.mem_cons.1 hc with rfl | hc
  · exact .inl rfl
  · rw [List.eq_of_mem_replicate hc]
    exact .inr (by decide)

theorem lines_quote (s : String) : Lines (quote s.toList) :=
  lines_of_printable fun _ hd => printable_quote hd

mutual

/-- **The indented text has no control character but the line feeds.** -/
theorem lines_dumpIndent (level : ℕ) : (v : Value) → Readable rt v → Lines (dumpIndent rt level v)
  | .none, _ => lines_of_printable (printable_word (mem_words (w := "null") (by decide)))
  | .bool true, _ => lines_of_printable (printable_word (mem_words (w := "true") (by decide)))
  | .bool false, _ => lines_of_printable (printable_word (mem_words (w := "false") (by decide)))
  | .int n, _ => lines_of_printable (printable_number (isNumber_toString n))
  | .float _, h =>
    lines_of_printable ((scalarValue_float h).1.elim printable_word printable_number)
  | .str s, _ => lines_quote s
  | .list [], _ => lines_of_printable (t := ['[', ']']) (by simp)
  | .list (x :: xs), h => (lines_of_printable (t := ['[']) (by simp)).append
      (((lines_indentItems (level + 1) (x :: xs) h).append (lines_newline level)).append
        (lines_of_printable (by simp)))
  | .dict [], _ => lines_of_printable (t := ['\x7b', '\x7d']) (by simp)
  | .dict (kv :: kvs), h => (lines_of_printable (t := ['\x7b']) (by simp)).append
      (((lines_indentMembers (level + 1) (kv :: kvs) h.2).append (lines_newline level)).append
        (lines_of_printable (by simp)))

theorem lines_indentItems (level : ℕ) : (xs : List Value) → ReadableAll rt xs →
    Lines (indentItems rt level xs)
  | [], _ => fun _ hc => absurd hc List.not_mem_nil
  | [x], h => (lines_newline level).append (lines_dumpIndent level x h.1)
  | x :: y :: xs, h => ((lines_newline level).append (lines_dumpIndent level x h.1)).append
      ((lines_of_printable (t := [',']) (by simp)).append
        (lines_indentItems level (y :: xs) h.2))

theorem lines_indentMembers (level : ℕ) : (kvs : List (String × Value)) → ReadableEntries rt kvs →
    Lines (indentMembers rt level kvs)
  | [], _ => fun _ hc => absurd hc List.not_mem_nil
  | [(k, v)], h => ((lines_newline level).append (lines_quote k)).append
      ((lines_of_printable (t := [':', ' ']) (by simp)).append (lines_dumpIndent level v h.1))
  | (k, v) :: kv :: kvs, h => (((lines_newline level).append (lines_quote k)).append
      ((lines_of_printable (t := [':', ' ']) (by simp)).append
        (lines_dumpIndent level v h.1))).append
      ((lines_of_printable (t := [',']) (by simp)).append
        (lines_indentMembers level (kv :: kvs) h.2))

end

/-- **A value reads back from its indented text**, which may end in a line break. -/
theorem loads_dumpIndent {v : Value} (h : Readable rt v) :
    loads rt (dumpIndent rt 0 v) = some v ∧ loads rt (dumpIndent rt 0 v ++ ['\n']) = some v := by
  have hwrites := writes_dumpIndent 0 v h
  have hline : Blank ['\n'] := fun c hc => by
    rw [List.mem_singleton.1 hc]
    decide
  have hpadded := Writes.padded blank_nil hline hwrites
  rw [List.nil_append] at hpadded
  rw [loads, loads, read_of_writes hwrites, read_of_writes hpadded]
  exact ⟨toValue_treeOf v h, toValue_treeOf v h⟩

end Json

end Py

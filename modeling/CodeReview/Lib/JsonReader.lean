import CodeReview.Lib.JsonText

/-!
# Reading JSON texts

A reader of the grammar, by recursion on a number of steps.

* `read` reads a whole text; blanks may stand around it;
* `Writes.readsBack` : **the reader finds the value of every text of the grammar**, so a text is
  that of one value (`Writes.unique`).
-/

namespace JsonText

/-! ### The reader -/

/-- The blanks. -/
def isBlank (c : Char) : Bool := [' ', '\t', '\n', '\r'].contains c

/-- What follows the blanks. -/
def skip (cs : List Char) : List Char := cs.dropWhile isBlank

/-- The four digits of a unit. -/
def readHex4 (a b c d : Char) : Option ℕ := do
  return (← hexOf a) * 4096 + (← hexOf b) * 256 + (← hexOf c) * 16 + (← hexOf d)

/-- The units of a string up to its closing quote. -/
def readUnits : List Char → Option (List ℕ × List Char)
  | [] => none
  | '"' :: cs => some ([], cs)
  | '\\' :: 'u' :: a :: b :: x :: d :: cs => do
    let u ← readHex4 a b x d
    let (us, rest) ← readUnits cs
    return (u :: us, rest)
  | '\\' :: e :: cs => do
    let u ← escapes.lookup e
    let (us, rest) ← readUnits cs
    return (u :: us, rest)
  | c :: cs =>
    if 32 ≤ c.toNat ∧ c ≠ '\\' then do
      let (us, rest) ← readUnits cs
      return (utf16 c ++ us, rest)
    else none

/-- The sign of a number. -/
def readSign : List Char → List Char × List Char
  | '-' :: cs => (['-'], cs)
  | cs => ([], cs)

/-- The integer part: a zero, or all digits. -/
def readInt : List Char → Option (List Char × List Char)
  | '0' :: cs => some (['0'], cs)
  | cs => if cs.takeWhile Char.isDigit = [] then none
      else some (cs.takeWhile Char.isDigit, cs.dropWhile Char.isDigit)

/-- The fraction, if there is one. -/
def readFrac : List Char → List Char × List Char
  | '.' :: cs => if cs.takeWhile Char.isDigit = [] then ([], '.' :: cs)
      else ('.' :: cs.takeWhile Char.isDigit, cs.dropWhile Char.isDigit)
  | cs => ([], cs)

/-- The sign of an exponent. -/
def readExpSign : List Char → List Char × List Char
  | '+' :: cs => (['+'], cs)
  | '-' :: cs => (['-'], cs)
  | cs => ([], cs)

/-- The exponent, if there is one. -/
def readExp : List Char → List Char × List Char
  | [] => ([], [])
  | e :: cs =>
    let (sign, digits) := readExpSign cs
    if (e = 'e' ∨ e = 'E') ∧ digits.takeWhile Char.isDigit ≠ [] then
      (e :: (sign ++ digits.takeWhile Char.isDigit), digits.dropWhile Char.isDigit)
    else ([], e :: cs)

/-- A number. -/
def readNumber (cs : List Char) : Option (List Char × List Char) := do
  let (sign, cs) := readSign cs
  let (int, cs) ← readInt cs
  let (frac, cs) := readFrac cs
  let (exp, cs) := readExp cs
  return (sign ++ (int ++ (frac ++ exp)), cs)

/-- A word or a number. -/
def readScalar (cs : List Char) : Option (Tree × List Char) :=
  match words.find? fun w => w.isPrefixOf cs with
  | some w => some (.scalar w, cs.drop w.length)
  | none => (readNumber cs).map fun (text, rest) => (.scalar text, rest)

mutual

/-- A value. -/
def readValue : ℕ → List Char → Option (Tree × List Char)
  | 0, _ => none
  | n + 1, cs =>
    match skip cs with
    | '"' :: cs => do
      let (us, rest) ← readUnits cs
      return (.str us, rest)
    | '[' :: cs =>
      match skip cs with
      | ']' :: rest => some (.arr [], rest)
      | _ => do
        let (vs, rest) ← readItems n cs
        return (.arr vs, rest)
    | '\x7b' :: cs =>
      match skip cs with
      | '\x7d' :: rest => some (.obj [], rest)
      | _ => do
        let (ms, rest) ← readMembers n cs
        return (.obj ms, rest)
    | cs => readScalar cs

/-- The items of an array and its closing bracket. -/
def readItems : ℕ → List Char → Option (List Tree × List Char)
  | 0, _ => none
  | n + 1, cs => do
    let (v, rest) ← readValue n cs
    match skip rest with
    | ',' :: cs => do
      let (vs, rest) ← readItems n cs
      return (v :: vs, rest)
    | ']' :: rest => return ([v], rest)
    | _ => none

/-- The members of an object and its closing brace. -/
def readMembers : ℕ → List Char → Option (List (List ℕ × Tree) × List Char)
  | 0, _ => none
  | n + 1, cs => do
    match skip cs with
    | '"' :: cs => do
      let (us, rest) ← readUnits cs
      match skip rest with
      | ':' :: cs => do
        let (v, rest) ← readValue n cs
        match skip rest with
        | ',' :: cs => do
          let (ms, rest) ← readMembers n cs
          return ((us, v) :: ms, rest)
        | '\x7d' :: rest => return ([(us, v)], rest)
        | _ => none
      | _ => none
    | _ => none

end

/-- A whole text. -/
def read (text : List Char) : Option Tree := do
  let (v, rest) ← readValue (text.length + 1) text
  if skip rest = [] then return v else none

/-! ### Blanks -/

theorem isBlank_iff {c : Char} : isBlank c = true ↔ c ∈ [' ', '\t', '\n', '\r'] :=
  List.contains_iff_mem

theorem skip_append {w : List Char} (hw : Blank w) (cs : List Char) : skip (w ++ cs) = skip cs :=
  List.dropWhile_append_of_pos fun c hc => isBlank_iff.2 (hw c hc)

theorem skip_of_not_blank {c : Char} (h : isBlank c = false) (cs : List Char) :
    skip (c :: cs) = c :: cs :=
  List.dropWhile_cons_of_neg (by simp [h])

/-- The reader of a value passes over blanks. -/
theorem readValue_append {w : List Char} (hw : Blank w) (n : ℕ) (cs : List Char) :
    readValue n (w ++ cs) = readValue n cs := by
  cases n with
  | zero => rfl
  | succ n => rw [readValue, readValue, skip_append hw]

/-! ### Strings -/

theorem readHex4_of {a b c d : Char} {w x y z : ℕ} (ha : hexOf a = some w) (hb : hexOf b = some x)
    (hc : hexOf c = some y) (hd : hexOf d = some z) :
    readHex4 a b c d = some (w * 4096 + x * 256 + y * 16 + z) := by
  rw [readHex4, ha, hb, hc, hd]
  rfl

theorem lookup_escapes {c : Char} {u : ℕ} (h : (c, u) ∈ escapes) :
    escapes.lookup c = some u ∧ c ≠ 'u' := by
  have hall : (escapes.all fun e => decide (escapes.lookup e.1 = some e.2 ∧ e.1 ≠ 'u')) = true := by
    decide
  exact of_decide_eq_true (List.all_eq_true.1 hall _ h)

/-- **The units of a string are read up to its quote.** -/
theorem readUnits_body {t : List Char} {us : List ℕ} (h : Body t us) (rest : List Char) :
    readUnits (t ++ '"' :: rest) = some (us, rest) := by
  induction h with
  | nil => rfl
  | @plain c t us hq hb h32 _ ih =>
    rw [List.cons_append, readUnits, if_pos ⟨h32, hb⟩, ih]
    · rfl
    · exact hq
    · exact fun _ _ _ _ _ hc _ => hb hc
    · exact fun _ _ hc _ => hb hc
  | escape hmem _ ih =>
    obtain ⟨hlookup, hu⟩ := lookup_escapes hmem
    rw [List.cons_append, List.cons_append, readUnits, hlookup, ih]
    · rfl
    · exact fun _ _ _ _ _ hc _ => hu hc
  | unicode ha hb hc hd _ ih =>
    simp only [List.cons_append]
    rw [readUnits, readHex4_of ha hb hc hd, ih]
    rfl

/-! ### Numbers -/

/-- What may follow a number. -/
def Follows (rest : List Char) : Prop :=
  ∀ c ∈ rest.head?, c.isDigit = false ∧ c ≠ '.' ∧ c ≠ 'e' ∧ c ≠ 'E'

theorem Follows.of_cons {c : Char} {rest : List Char}
    (h : c.isDigit = false ∧ c ≠ '.' ∧ c ≠ 'e' ∧ c ≠ 'E') : Follows (c :: rest) := by
  intro c' hc'
  obtain rfl := Option.some.inj hc'
  exact h

theorem Follows.blank {w rest : List Char} (hw : Blank w) (h : Follows rest) :
    Follows (w ++ rest) := by
  cases w with
  | nil => exact h
  | cons c w =>
    refine .of_cons ?_
    have hc := hw c List.mem_cons_self
    simp only [List.mem_cons, List.not_mem_nil, or_false] at hc
    rcases hc with rfl | rfl | rfl | rfl <;> decide

/-- The digits in front of what is no digit. -/
theorem span_digits {ds rest : List Char} (hds : ∀ c ∈ ds, c.isDigit)
    (hrest : ∀ c ∈ rest.head?, c.isDigit = false) :
    (ds ++ rest).takeWhile Char.isDigit = ds ∧ (ds ++ rest).dropWhile Char.isDigit = rest := by
  have htake : rest.takeWhile Char.isDigit = [] ∧ rest.dropWhile Char.isDigit = rest := by
    cases rest with
    | nil => exact ⟨rfl, rfl⟩
    | cons c rest =>
      have hc := hrest c rfl
      exact ⟨List.takeWhile_cons_of_neg (by simp [hc]), List.dropWhile_cons_of_neg (by simp [hc])⟩
  rw [List.takeWhile_append_of_pos hds, List.dropWhile_append_of_pos hds, htake.1, htake.2,
    List.append_nil]
  exact ⟨rfl, rfl⟩

theorem span_isDigits {ds rest : List Char} (hds : IsDigits ds)
    (hrest : ∀ c ∈ rest.head?, c.isDigit = false) :
    (ds ++ rest).takeWhile Char.isDigit = ds ∧ (ds ++ rest).dropWhile Char.isDigit = rest ∧
      ds ≠ [] :=
  ⟨(span_digits hds.2 hrest).1, (span_digits hds.2 hrest).2, hds.1⟩

theorem readInt_of {int rest : List Char} (h : int = ['0'] ∨ IsDigits int ∧ int.head? ≠ some '0')
    (hrest : ∀ c ∈ rest.head?, c.isDigit = false) : readInt (int ++ rest) = some (int, rest) := by
  rcases h with rfl | ⟨hdigits, hzero⟩
  · rfl
  · obtain ⟨htake, hdrop, hne⟩ := span_isDigits hdigits hrest
    obtain ⟨d, ds, rfl⟩ := List.exists_cons_of_ne_nil hne
    have hd : d ≠ '0' := fun heq => hzero (congrArg some heq)
    rw [List.cons_append] at htake hdrop ⊢
    rw [readInt, htake, hdrop, if_neg hne]
    exact fun _ heq => hd (List.cons.inj heq).1

theorem readFrac_of {frac rest : List Char}
    (h : frac = [] ∨ ∃ ds, IsDigits ds ∧ frac = '.' :: ds)
    (hrest : ∀ c ∈ rest.head?, c.isDigit = false ∧ c ≠ '.') :
    readFrac (frac ++ rest) = (frac, rest) := by
  rcases h with rfl | ⟨ds, hdigits, rfl⟩
  · cases rest with
    | nil => rfl
    | cons c rest =>
      rw [List.nil_append, readFrac]
      rintro _ heq
      exact (hrest c rfl).2 (List.cons.inj heq).1
  · obtain ⟨htake, hdrop, hne⟩ := span_isDigits hdigits fun c hc => (hrest c hc).1
    rw [List.cons_append, readFrac, htake, hdrop, if_neg hne]

theorem readExpSign_of {sign ds rest : List Char} (h : sign ∈ [[], ['+'], ['-']])
    (hds : IsDigits ds) : readExpSign (sign ++ (ds ++ rest)) = (sign, ds ++ rest) := by
  simp only [List.mem_cons, List.not_mem_nil, or_false] at h
  rcases h with rfl | rfl | rfl
  · obtain ⟨d, ds, rfl⟩ := List.exists_cons_of_ne_nil hds.1
    have hd := hds.2 d List.mem_cons_self
    rw [List.nil_append, List.cons_append, readExpSign]
    · rintro _ heq
      rw [(List.cons.inj heq).1] at hd
      exact absurd hd (by decide)
    · rintro _ heq
      rw [(List.cons.inj heq).1] at hd
      exact absurd hd (by decide)
  · rfl
  · rfl

theorem readExp_of {exp rest : List Char}
    (h : exp = [] ∨ ∃ e ∈ ['e', 'E'], ∃ s ∈ [[], ['+'], ['-']], ∃ ds, IsDigits ds ∧
      exp = e :: (s ++ ds)) (hrest : Follows rest) : readExp (exp ++ rest) = (exp, rest) := by
  rcases h with rfl | ⟨e, he, sign, hsign, ds, hdigits, rfl⟩
  · cases rest with
    | nil => rfl
    | cons c rest =>
      have hc := hrest c rfl
      rw [List.nil_append, readExp]
      exact if_neg fun hexp => hexp.1.elim hc.2.2.1 hc.2.2.2
  · obtain ⟨htake, hdrop, hne⟩ := span_isDigits hdigits fun c hc => (hrest c hc).1
    have he' : e = 'e' ∨ e = 'E' := by simpa using he
    rw [List.cons_append, readExp, List.append_assoc, readExpSign_of hsign hdigits]
    simp only [htake, hdrop]
    rw [if_pos ⟨he', hne⟩]

/-- What an exponent begins with. -/
theorem head_exp {exp rest : List Char}
    (h : exp = [] ∨ ∃ e ∈ ['e', 'E'], ∃ s ∈ [[], ['+'], ['-']], ∃ ds, IsDigits ds ∧
      exp = e :: (s ++ ds)) (hrest : Follows rest) :
    ∀ c ∈ (exp ++ rest).head?, c.isDigit = false ∧ c ≠ '.' := by
  rcases h with rfl | ⟨e, he, sign, -, ds, -, rfl⟩
  · exact fun c hc => ⟨(hrest c hc).1, (hrest c hc).2.1⟩
  · intro c hc
    obtain rfl := Option.some.inj hc
    simp only [List.mem_cons, List.not_mem_nil, or_false] at he
    rcases he with rfl | rfl <;> decide

/-- What a fraction begins with. -/
theorem head_frac {frac rest : List Char}
    (h : frac = [] ∨ ∃ ds, IsDigits ds ∧ frac = '.' :: ds)
    (hrest : ∀ c ∈ rest.head?, c.isDigit = false ∧ c ≠ '.') :
    ∀ c ∈ (frac ++ rest).head?, c.isDigit = false := by
  rcases h with rfl | ⟨ds, -, rfl⟩
  · exact fun c hc => (hrest c hc).1
  · intro c hc
    obtain rfl := Option.some.inj hc
    decide

/-- What an integer part begins with. -/
theorem head_int {int : List Char} (h : int = ['0'] ∨ IsDigits int ∧ int.head? ≠ some '0') :
    ∃ d ds, int = d :: ds ∧ d.isDigit = true := by
  rcases h with rfl | ⟨hdigits, -⟩
  · exact ⟨'0', [], rfl, by decide⟩
  · obtain ⟨d, ds, rfl⟩ := List.exists_cons_of_ne_nil hdigits.1
    exact ⟨d, ds, rfl, hdigits.2 d List.mem_cons_self⟩

theorem readSign_of {sign int rest : List Char} (h : sign ∈ [[], ['-']])
    (hint : int = ['0'] ∨ IsDigits int ∧ int.head? ≠ some '0') :
    readSign (sign ++ (int ++ rest)) = (sign, int ++ rest) := by
  simp only [List.mem_cons, List.not_mem_nil, or_false] at h
  rcases h with rfl | rfl
  · obtain ⟨d, ds, rfl, hd⟩ := head_int hint
    rw [List.nil_append, List.cons_append, readSign]
    rintro _ heq
    rw [(List.cons.inj heq).1] at hd
    exact absurd hd (by decide)
  · rfl

/-- **A number is read to its end.** -/
theorem readNumber_of {t : List Char} (h : IsNumber t) {rest : List Char} (hrest : Follows rest) :
    readNumber (t ++ rest) = some (t, rest) := by
  obtain ⟨hsign, hint, hfrac, hexp⟩ := h
  rename_i sign int frac exp
  have hexp' := head_exp hexp hrest
  rw [readNumber, List.append_assoc, List.append_assoc, List.append_assoc, readSign_of hsign hint]
  simp only [readInt_of hint (head_frac hfrac hexp'), Option.bind_eq_bind, Option.bind_some,
    readFrac_of hfrac hexp', readExp_of hexp hrest]
  rfl

/-- No number starts like a word. -/
theorem find?_word_number {t : List Char} (h : IsNumber t) (rest : List Char) :
    words.find? (fun w => w.isPrefixOf (t ++ rest)) = none := by
  obtain ⟨hsign, hint, hfrac, hexp⟩ := h
  rename_i sign int frac exp
  obtain ⟨d, ds, rfl, hd⟩ := head_int hint
  have hne (c : Char) (hc : c.isDigit = false) : (c == d) = false := by
    rw [beq_eq_false_iff_ne]
    rintro rfl
    rw [hd] at hc
    cases hc
  simp only [List.mem_cons, List.not_mem_nil, or_false] at hsign
  rcases hsign with rfl | rfl
  · simp [words, List.isPrefixOf, hne]
  · simp [words, List.isPrefixOf, hne]

/-- A word is found at its start. -/
theorem find?_word {w : List Char} (h : w ∈ words) (rest : List Char) :
    words.find? (fun w' => w'.isPrefixOf (w ++ rest)) = some w := by
  simp only [words, List.map_cons, List.map_nil, List.mem_cons, List.not_mem_nil, or_false] at h
  rcases h with rfl | rfl | rfl | rfl | rfl | rfl <;> rfl

theorem readScalar_of {t : List Char} (h : t ∈ words ∨ IsNumber t) {rest : List Char}
    (hrest : Follows rest) : readScalar (t ++ rest) = some (.scalar t, rest) := by
  rcases h with hword | hnumber
  · rw [readScalar, find?_word hword]
    simp only [List.drop_left]
  · rw [readScalar, find?_word_number hnumber, readNumber_of hnumber hrest]
    rfl

/-! ### Values -/

/-- The reader finds what the text is that of, with steps enough. -/
def ReadsBack (t : List Char) : Node → Prop
  | .value v => ∀ n rest, t.length < n → Follows rest →
      ∃ w, Blank w ∧ readValue n (t ++ rest) = some (v, w ++ rest)
  | .items vs => ∀ n rest, t.length + 1 < n → readItems n (t ++ ']' :: rest) = some (vs, rest)
  | .members ms => ∀ n rest, t.length + 1 < n →
      readMembers n (t ++ '\x7d' :: rest) = some (ms, rest)

/-- A scalar begins with no bracket, no quote and no blank. -/
theorem scalar_head {t : List Char} (h : t ∈ words ∨ IsNumber t) :
    ∃ c cs, t = c :: cs ∧ isBlank c = false ∧ c ≠ '"' ∧ c ≠ '[' ∧ c ≠ '\x7b' := by
  rcases h with hword | ⟨hsign, hint, -, -⟩
  · simp only [words, List.map_cons, List.map_nil, List.mem_cons, List.not_mem_nil,
      or_false] at hword
    rcases hword with rfl | rfl | rfl | rfl | rfl | rfl <;> exact ⟨_, _, rfl, by decide⟩
  · obtain ⟨d, ds, rfl, hd⟩ := head_int hint
    simp only [List.mem_cons, List.not_mem_nil, or_false] at hsign
    rcases hsign with rfl | rfl
    · refine ⟨d, _, rfl, ?_, ?_, ?_, ?_⟩
      · rw [Bool.eq_false_iff]
        intro hblank
        rw [isBlank_iff] at hblank
        simp only [List.mem_cons, List.not_mem_nil, or_false] at hblank
        rcases hblank with rfl | rfl | rfl | rfl <;> exact absurd hd (by decide)
      · rintro rfl
        exact absurd hd (by decide)
      · rintro rfl
        exact absurd hd (by decide)
      · rintro rfl
        exact absurd hd (by decide)
    · exact ⟨'-', _, rfl, by decide⟩

theorem readValue_scalar {t : List Char} (h : t ∈ words ∨ IsNumber t) (n : ℕ) {rest : List Char}
    (hrest : Follows rest) : readValue (n + 1) (t ++ rest) = some (.scalar t, rest) := by
  have hscalar := readScalar_of h hrest
  obtain ⟨c, cs, rfl, hblank, hquote, hbracket, hbrace⟩ := scalar_head h
  rw [List.cons_append] at hscalar ⊢
  rw [readValue, skip_of_not_blank hblank]
  split
  · rename_i heq
    exact absurd (List.cons.inj heq).1 hquote
  · rename_i heq
    exact absurd (List.cons.inj heq).1 hbracket
  · rename_i heq
    exact absurd (List.cons.inj heq).1 hbrace
  · exact hscalar

/-- Where an array closes there is no value. -/
theorem readItems_close {cs rest : List Char} (h : skip cs = ']' :: rest) (n : ℕ) :
    readItems n cs = none := by
  have hvalue (m : ℕ) : readValue m cs = none := by
    cases m with
    | zero => rfl
    | succ m =>
      rw [readValue, h]
      rfl
  cases n with
  | zero => rfl
  | succ n =>
    rw [readItems, hvalue]
    rfl

/-- Where an object closes there is no member. -/
theorem readMembers_close {cs rest : List Char} (h : skip cs = '\x7d' :: rest) (n : ℕ) :
    readMembers n cs = none := by
  cases n with
  | zero => rfl
  | succ n =>
    rw [readMembers, h]
    rfl

theorem readValue_items {n : ℕ} {cs rest : List Char} {vs : List Tree}
    (h : readItems n cs = some (vs, rest)) :
    readValue (n + 1) ('[' :: cs) = some (.arr vs, rest) := by
  rw [readValue, skip_of_not_blank (by decide)]
  simp only
  split
  · rename_i heq
    rw [readItems_close heq] at h
    cases h
  · rw [h]
    rfl

theorem readValue_members {n : ℕ} {cs rest : List Char} {ms : List (List ℕ × Tree)}
    (h : readMembers n cs = some (ms, rest)) :
    readValue (n + 1) ('\x7b' :: cs) = some (.obj ms, rest) := by
  rw [readValue, skip_of_not_blank (by decide)]
  simp only
  split
  · rename_i heq
    rw [readMembers_close heq] at h
    cases h
  · rw [h]
    rfl

/-- A member up to what follows its value. -/
theorem readMembers_member {w w' k t rest : List Char} {us : List ℕ} {v : Tree} {n : ℕ}
    (hw : Blank w) (hw' : Blank w') (hk : Body k us) {after : List Char}
    (hv : readValue n (t ++ rest) = some (v, after)) :
    readMembers (n + 1) (w ++ ('"' :: k ++ ['"']) ++ w' ++ ':' :: t ++ rest) =
      match skip after with
      | ',' :: cs => do
        let (ms, rest) ← readMembers n cs
        return ((us, v) :: ms, rest)
      | '\x7d' :: rest => some ([(us, v)], rest)
      | _ => none := by
  have hkey : skip (w ++ ('"' :: k ++ ['"']) ++ w' ++ ':' :: t ++ rest) =
      '"' :: (k ++ '"' :: (w' ++ ':' :: (t ++ rest))) := by
    simp only [List.append_assoc, List.cons_append, List.nil_append, skip_append hw]
    exact skip_of_not_blank (by decide) _
  rw [readMembers, hkey]
  simp only [readUnits_body hk, Option.bind_eq_bind, Option.bind_some, skip_append hw',
    skip_of_not_blank (show isBlank ':' = false by decide), hv]
  rfl

/-- **The reader finds the value of every text of the grammar.** -/
theorem Writes.readsBack {node : Node} {t : List Char} (h : Writes node t) : ReadsBack t node := by
  induction h with
  | @scalar t ht =>
    intro n rest hn hrest
    obtain ⟨n, rfl⟩ := Nat.exists_eq_succ_of_ne_zero (Nat.ne_of_gt (Nat.zero_lt_of_lt hn))
    exact ⟨[], nofun, readValue_scalar ht n hrest⟩
  | @str t us ht =>
    intro n rest hn hrest
    obtain ⟨n, rfl⟩ := Nat.exists_eq_succ_of_ne_zero (Nat.ne_of_gt (Nat.zero_lt_of_lt hn))
    refine ⟨[], nofun, ?_⟩
    rw [List.cons_append, List.cons_append, List.append_assoc, readValue,
      skip_of_not_blank (by decide)]
    simp only [List.cons_append, List.nil_append, readUnits_body ht]
    rfl
  | @padded w w' t v hw hw' _ ih =>
    intro n rest hn hrest
    simp only [List.length_append] at hn
    obtain ⟨blank, hblank, hread⟩ := ih n (w' ++ rest) (by omega) (hrest.blank hw')
    refine ⟨blank ++ w', fun c hc => (List.mem_append.1 hc).elim (hblank c) (hw' c), ?_⟩
    rw [List.append_assoc, List.append_assoc, readValue_append hw, hread, List.append_assoc]
  | @emptyArr w hw =>
    intro n rest hn hrest
    obtain ⟨n, rfl⟩ := Nat.exists_eq_succ_of_ne_zero (Nat.ne_of_gt (Nat.zero_lt_of_lt hn))
    refine ⟨[], nofun, ?_⟩
    rw [List.cons_append, List.cons_append, List.append_assoc, readValue,
      skip_of_not_blank (by decide)]
    simp only [skip_append hw, List.cons_append, List.nil_append,
      skip_of_not_blank (show isBlank ']' = false by decide)]
  | @arr vs t _ ih =>
    intro n rest hn hrest
    obtain ⟨n, rfl⟩ := Nat.exists_eq_succ_of_ne_zero (Nat.ne_of_gt (Nat.zero_lt_of_lt hn))
    simp only [List.cons_append, List.length_cons, List.length_append, List.length_nil] at hn
    refine ⟨[], nofun, ?_⟩
    have hitems := ih n rest (by omega)
    rw [List.cons_append, List.cons_append, List.append_assoc]
    exact readValue_items hitems
  | @lastItem v t _ ih =>
    intro n rest hn
    obtain ⟨n, rfl⟩ := Nat.exists_eq_succ_of_ne_zero (Nat.ne_of_gt (Nat.zero_lt_of_lt hn))
    obtain ⟨blank, hblank, hread⟩ := ih n (']' :: rest) (by omega) (.of_cons (by decide))
    rw [readItems, hread]
    simp only [Option.bind_eq_bind, Option.bind_some, skip_append hblank,
      skip_of_not_blank (show isBlank ']' = false by decide)]
    rfl
  | @item v vs t u _ _ ihv ihvs =>
    intro n rest hn
    obtain ⟨n, rfl⟩ := Nat.exists_eq_succ_of_ne_zero (Nat.ne_of_gt (Nat.zero_lt_of_lt hn))
    simp only [List.length_cons, List.length_append] at hn
    obtain ⟨blank, hblank, hread⟩ :=
      ihv n (',' :: (u ++ ']' :: rest)) (by omega) (.of_cons (by decide))
    rw [List.append_assoc, List.cons_append, readItems, hread]
    simp only [Option.bind_eq_bind, Option.bind_some, skip_append hblank,
      skip_of_not_blank (show isBlank ',' = false by decide), ihvs n rest (by omega)]
    rfl
  | @emptyObj w hw =>
    intro n rest hn hrest
    obtain ⟨n, rfl⟩ := Nat.exists_eq_succ_of_ne_zero (Nat.ne_of_gt (Nat.zero_lt_of_lt hn))
    refine ⟨[], nofun, ?_⟩
    rw [List.cons_append, List.cons_append, List.append_assoc, readValue,
      skip_of_not_blank (by decide)]
    simp only [skip_append hw, List.cons_append, List.nil_append,
      skip_of_not_blank (show isBlank '\x7d' = false by decide)]
  | @obj ms t _ ih =>
    intro n rest hn hrest
    obtain ⟨n, rfl⟩ := Nat.exists_eq_succ_of_ne_zero (Nat.ne_of_gt (Nat.zero_lt_of_lt hn))
    simp only [List.cons_append, List.length_cons, List.length_append, List.length_nil] at hn
    refine ⟨[], nofun, ?_⟩
    have hmembers := ih n rest (by omega)
    rw [List.cons_append, List.cons_append, List.append_assoc]
    exact readValue_members hmembers
  | @lastMember w w' k t us v hw hw' hk _ ih =>
    intro n rest hn
    obtain ⟨n, rfl⟩ := Nat.exists_eq_succ_of_ne_zero (Nat.ne_of_gt (Nat.zero_lt_of_lt hn))
    simp only [List.cons_append, List.length_cons, List.length_append, List.length_nil] at hn
    obtain ⟨blank, hblank, hread⟩ := ih n ('\x7d' :: rest) (by omega) (.of_cons (by decide))
    rw [readMembers_member hw hw' hk hread, skip_append hblank, skip_of_not_blank (by decide)]
    rfl
  | @member w w' k t u us v ms hw hw' hk _ _ ihv ihms =>
    intro n rest hn
    obtain ⟨n, rfl⟩ := Nat.exists_eq_succ_of_ne_zero (Nat.ne_of_gt (Nat.zero_lt_of_lt hn))
    simp only [List.cons_append, List.length_cons, List.length_append, List.length_nil] at hn
    obtain ⟨blank, hblank, hread⟩ :=
      ihv n (',' :: (u ++ '\x7d' :: rest)) (by omega) (.of_cons (by decide))
    have hsplit : w ++ ('"' :: k ++ ['"']) ++ w' ++ ':' :: t ++ ',' :: u ++ '\x7d' :: rest =
        w ++ ('"' :: k ++ ['"']) ++ w' ++ ':' :: t ++ ',' :: (u ++ '\x7d' :: rest) :=
      List.append_assoc ..
    rw [hsplit, readMembers_member hw hw' hk hread, skip_append hblank,
      skip_of_not_blank (by decide)]
    simp only [ihms n rest (by omega)]
    rfl

/-- **A text of the grammar reads back as its value.** -/
theorem read_of_writes {v : Tree} {t : List Char} (h : Writes (.value v) t) : read t = some v := by
  obtain ⟨w, hw, hread⟩ := h.readsBack (t.length + 1) [] (Nat.lt_succ_self _) nofun
  rw [List.append_nil, List.append_nil] at hread
  have hskip : skip w = [] := by
    rw [← List.append_nil w, skip_append hw]
    rfl
  rw [read, hread]
  simp only [Option.bind_eq_bind, Option.bind_some, hskip, if_true]
  rfl

/-- A text is that of one value. -/
theorem Writes.unique {v v' : Tree} {t : List Char} (h : Writes (.value v) t)
    (h' : Writes (.value v') t) : v = v' :=
  Option.some.inj ((read_of_writes h).symm.trans (read_of_writes h'))

end JsonText

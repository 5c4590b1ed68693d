import CodeReview.Py.Text

/-!
# Printing text

The `str` methods with which a program puts text into a document: replacement, upper-casing and
percent-encoding, and what they do to the ends of lines.

* `mem_blankCrlf` : after `replace("\r\n", " ")` the carriage returns left are those that no
  newline followed;
* `loneReturn_flatMap` : a mapping of characters that keeps the ends of lines keeps those;
* `mem_quote` : the characters of a percent-encoded text.
-/

namespace Py

/-- `s.upper()`, character by character. -/
structure UpperCase where
  onChar : Char → List Char
  /-- ASCII characters are mapped as in ASCII. -/
  onChar_ascii : ∀ c : Char, c.toNat < 128 → onChar c = [c.toUpper]
  /-- The ASCII characters that others are mapped to are letters. -/
  isAlpha_of_mem : ∀ c : Char, 128 ≤ c.toNat → ∀ d ∈ onChar c, d.toNat < 128 → d.isAlpha = true
  onChar_ne_nil : ∀ c, onChar c ≠ []

/-- Upper-casing of ASCII letters only. -/
def UpperCase.ascii : UpperCase where
  onChar c := [if c.toNat < 128 then c.toUpper else c]
  onChar_ascii c h := by rw [if_pos h]
  isAlpha_of_mem c h d hd hlt := by
    rw [if_neg (Nat.not_lt.2 h), List.mem_singleton] at hd
    rw [hd] at hlt
    omega
  onChar_ne_nil c := List.cons_ne_nil _ _

/-- `s.upper()`. -/
def UpperCase.upper (up : UpperCase) (s : String) : String :=
  String.ofList (s.toList.flatMap up.onChar)

namespace Text

/-- `s.replace(old, new)` for a single character. -/
def replaceChar (old : Char) (new s : String) : String :=
  String.ofList (s.toList.flatMap fun c => if c = old then new.toList else [c])

/-- A blank for every carriage return with its newline. -/
def blankCrlf : List Char → List Char
  | '\r' :: '\n' :: cs => ' ' :: blankCrlf cs
  | c :: cs => c :: blankCrlf cs
  | [] => []

/-- `s.replace("\r\n", " ")`. -/
def replaceCrlf (s : String) : String := String.ofList (blankCrlf s.toList)

/-- A character that `quote` keeps. -/
def isUnreserved (c : Char) : Bool := c.isAlphanum || c ∈ ['_', '.', '-', '~']

/-- An upper-case hexadecimal digit. -/
def hexDigit (n : ℕ) : Char := if n < 10 then Char.ofNat (48 + n) else Char.ofNat (55 + n)

/-- A byte, percent-encoded if need be. -/
def quoteByte (b : UInt8) : List Char :=
  let c := Char.ofNat b.toNat
  if isUnreserved c then [c] else ['%', hexDigit (b.toNat / 16), hexDigit (b.toNat % 16)]

/-- `quote(s, safe="")`. -/
def quote (s : String) : String :=
  String.ofList (s.toList.flatMap fun c => (String.utf8EncodeChar c).flatMap quoteByte)

/-- There is a carriage return without a newline after it. -/
def loneReturn : List Char → Bool
  | [] => false
  | c :: cs => (c = '\r' && cs.head? ≠ some '\n') || loneReturn cs

/-- The mapping keeps carriage returns and newlines, and makes no others. -/
structure KeepsBreaks (f : Char → List Char) : Prop where
  cr : f '\r' = ['\r']
  lf : f '\n' = ['\n']
  ne_nil : ∀ c, f c ≠ []
  other : ∀ c, c ≠ '\r' → c ≠ '\n' → ∀ d ∈ f c, d ≠ '\r' ∧ d ≠ '\n'

/-! ### Ends of lines -/

theorem loneReturn_cons_of_ne {c : Char} (h : c ≠ '\r') (cs : List Char) :
    loneReturn (c :: cs) = loneReturn cs := by
  simp [loneReturn, h]

theorem loneReturn_append_of_notMem {cs : List Char} (h : '\r' ∉ cs) (ds : List Char) :
    loneReturn (cs ++ ds) = loneReturn ds := by
  induction cs with
  | nil => rfl
  | cons c cs ih =>
    rw [List.mem_cons, not_or] at h
    rw [List.cons_append, loneReturn_cons_of_ne (Ne.symm h.1), ih h.2]

/-- A character that is no end of a line comes between two texts. -/
theorem loneReturn_append_cons {c : Char} (hcr : c ≠ '\r') (hlf : c ≠ '\n') (cs ds : List Char) :
    loneReturn (cs ++ c :: ds) = (loneReturn cs || loneReturn ds) := by
  induction cs with
  | nil => rw [List.nil_append, loneReturn_cons_of_ne hcr]; rfl
  | cons d cs ih =>
    have hhead : (cs ++ c :: ds).head? ≠ some '\n' ↔ cs.head? ≠ some '\n' := by
      cases cs with
      | nil => simpa using hlf
      | cons => rfl
    rw [List.cons_append, loneReturn, loneReturn, ih, decide_eq_decide.2 hhead, Bool.or_assoc]

/-- Joined texts have the lone carriage returns of the texts. -/
theorem loneReturn_join (texts : List String) :
    loneReturn (join ", " texts).toList = false ↔
      ∀ text ∈ texts, loneReturn text.toList = false := by
  rw [join, String.toList_intercalate]
  induction texts with
  | nil => simp [loneReturn]
  | cons text texts ih =>
    cases texts with
    | nil => simp
    | cons text' texts =>
      have hsep (ds : List Char) : ", ".toList ++ ds = ',' :: ' ' :: ds := rfl
      rw [List.map_cons, List.map_cons, List.intercalate_cons_cons, List.append_assoc, hsep,
        loneReturn_append_cons (by decide) (by decide), loneReturn_cons_of_ne (by decide),
        Bool.or_eq_false_iff, List.forall_mem_cons]
      exact and_congr_right fun _ => ih

theorem head?_flatMap {f : Char → List Char} (hf : KeepsBreaks f) (cs : List Char) :
    (cs.flatMap f).head? = some '\n' ↔ cs.head? = some '\n' := by
  cases cs with
  | nil => rfl
  | cons c cs =>
    rw [List.flatMap_cons, List.head?_append_of_ne_nil _ (hf.ne_nil c), List.head?_cons]
    by_cases hcr : c = '\r'
    · rw [hcr, hf.cr]
      rfl
    · by_cases hlf : c = '\n'
      · rw [hlf, hf.lf]
        rfl
      · have hne : (f c).head? ≠ some '\n' := fun h =>
          (hf.other c hcr hlf _ (List.mem_of_head? h)).2 rfl
        simpa [hlf] using hne

/-- **Mapping the other characters keeps the lone carriage returns.** -/
theorem loneReturn_flatMap {f : Char → List Char} (hf : KeepsBreaks f) (cs : List Char) :
    loneReturn (cs.flatMap f) = loneReturn cs := by
  induction cs with
  | nil => rfl
  | cons c cs ih =>
    rw [List.flatMap_cons]
    by_cases hcr : c = '\r'
    · subst hcr
      rw [hf.cr, List.singleton_append, loneReturn, loneReturn, ih,
        decide_eq_decide.2 (not_congr (head?_flatMap hf cs))]
    · rw [loneReturn_cons_of_ne hcr]
      have hno : '\r' ∉ f c := by
        intro hmem
        by_cases hlf : c = '\n'
        · rw [hlf, hf.lf] at hmem
          exact absurd hmem (by decide)
        · exact (hf.other c hcr hlf _ hmem).1 rfl
      rw [loneReturn_append_of_notMem hno, ih]

/-- **The carriage returns that are left are those without a newline.** -/
theorem mem_blankCrlf (cs : List Char) : '\r' ∈ blankCrlf cs ↔ loneReturn cs = true := by
  induction cs using blankCrlf.induct with
  | case1 cs ih =>
    rw [blankCrlf, List.mem_cons, or_iff_right (by decide), ih]
    simp [loneReturn]
  | case2 c cs hpair ih =>
    have hhead : c = '\r' → cs.head? ≠ some '\n' := by
      rintro rfl hhead
      obtain ⟨ds, rfl⟩ := List.head?_eq_some_iff.1 hhead
      exact hpair ds rfl rfl
    rw [blankCrlf, List.mem_cons, ih, loneReturn]
    · by_cases hc : c = '\r'
      · simp [hc, hhead hc]
      · simp [hc, Ne.symm hc]
    · exact hpair
  | case3 => simp [blankCrlf, loneReturn]

/-! ### Numbers, upper-casing and percent-encoding -/

theorem isDigit_of_mem_repr {n : ℕ} {c : Char} (h : c ∈ n.repr.toList) : c.isDigit = true := by
  rw [Nat.toList_repr] at h
  exact Nat.isDigit_of_mem_toDigits (by decide) (by decide) h

/-- The text of an integer has digits and a sign. -/
theorem mem_toString {n : ℤ} {c : Char} (h : c ∈ (toString n).toList) :
    c.isDigit = true ∨ c = '-' := by
  rw [Int.toString_eq_repr, Int.repr_eq_if] at h
  split_ifs at h
  · exact .inl (isDigit_of_mem_repr h)
  · rw [String.toList_append, List.mem_append] at h
    rcases h with h | h
    · exact .inr (List.mem_singleton.1 h)
    · exact .inl (isDigit_of_mem_repr h)

theorem isAlphanum_hexDigit : ∀ n < 16, (hexDigit n).isAlphanum = true := by decide

theorem mem_quote {s : String} {c : Char} (h : c ∈ (quote s).toList) :
    isUnreserved c = true ∨ c = '%' := by
  rw [quote, String.toList_ofList, List.mem_flatMap] at h
  obtain ⟨d, -, h⟩ := h
  obtain ⟨b, -, h⟩ := List.mem_flatMap.1 h
  rw [quoteByte] at h
  split_ifs at h with hkept
  · rw [List.mem_singleton] at h
    exact .inl (h ▸ hkept)
  · have hhex {n : ℕ} (hn : n < 16) : isUnreserved (hexDigit n) = true := by
      rw [isUnreserved, isAlphanum_hexDigit n hn, Bool.true_or]
    have hb := b.toNat_lt
    simp only [List.mem_cons, List.not_mem_nil, or_false] at h
    rcases h with rfl | rfl | rfl
    · exact .inr rfl
    · exact .inl (hhex (by omega))
    · exact .inl (hhex (by omega))

theorem toUpper_ascii : ∀ n < 128, (Char.ofNat n).toUpper.isAlpha = false →
    (Char.ofNat n).toUpper = Char.ofNat n := by decide

/-- ASCII characters that are no letters come from themselves. -/
theorem mem_onChar (up : UpperCase) {c d : Char} (hd : d ∈ up.onChar c) (hlt : d.toNat < 128)
    (halpha : d.isAlpha = false) : c = d := by
  by_cases hc : c.toNat < 128
  · have hupper := toUpper_ascii c.toNat hc
    rw [Char.ofNat_toNat] at hupper
    rw [up.onChar_ascii c hc, List.mem_singleton] at hd
    rw [hd] at halpha ⊢
    exact (hupper halpha).symm
  · have hletter := up.isAlpha_of_mem c (Nat.not_lt.1 hc) d hd hlt
    rw [halpha] at hletter
    cases hletter

theorem keepsBreaks_upper (up : UpperCase) : KeepsBreaks up.onChar where
  cr := up.onChar_ascii '\r' (by decide)
  lf := up.onChar_ascii '\n' (by decide)
  ne_nil := up.onChar_ne_nil
  other c hcr hlf d hd := by
    refine ⟨?_, ?_⟩
    · rintro rfl
      exact hcr (mem_onChar up hd (by decide) (by decide))
    · rintro rfl
      exact hlf (mem_onChar up hd (by decide) (by decide))

example : quote "a b/é" = "a%20b%2F%C3%A9" := by decide

end Text

end Py
